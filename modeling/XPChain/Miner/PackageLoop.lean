import XPChain.Miner.PackageOrder

/-!
# The package loop finishes

The loop of `addPackageTxs` never uses up its bound on rounds
(`addPackageTxs_ne_outOfFuel`): each round takes an entry off `mi` or `mapModifiedTx`,
or adds to the block a transaction that was not in it, and `mapModifiedTx` never holds
two entries for one transaction.

From a block closed under parents, the assertion `!inBlock.count(iter)` never fails
either.  An entry of `mapModifiedTx` descends from a transaction in the block and is
never in it itself (`AssertInv`), so every such run leaves the loop
(`addPackageTxs_finished`).

## Main definitions

* `selectionMeasure` — what every round lowers.
* `AssertInv` — what keeps the assertion true.

## Main statements

* `mem_keys_UpdatePackagesForAdded`, `nodup_keys_UpdatePackagesForAdded` — the entries
  `UpdatePackagesForAdded` makes.
* `addPackageTxsStep_measure`, `addPackageTxsStep_assertInv` — the step lemmas.
* `addPackageTxs_ne_outOfFuel`, `addPackageTxs_finished`.
-/

set_option autoImplicit false

namespace XPChain

variable {n : ℕ} {opts : BlockAssemblerOptions} {GetHash : CTransaction → uint256}
  {mp : CTxMemPool n}

/-! ## The keys of `mapModifiedTx` -/

theorem map_iter_updateModifiedDescendant (it : Fin n) (m : List (CTxMemPoolModifiedEntry n))
    (desc : Fin n) :
    (updateModifiedDescendant opts mp it m desc).map (·.iter) =
      if desc ∈ m.map (·.iter) then m.map (·.iter) else m.map (·.iter) ++ [desc] := by
  have hany : (m.any fun e => e.iter == desc) = decide (desc ∈ m.map (·.iter)) := by
    simp [List.any_eq]
  unfold updateModifiedDescendant
  rw [hany]
  by_cases h : desc ∈ m.map (·.iter)
  · -- the entry already there keeps its key
    simp only [h, decide_true, if_true, List.map_map]
    congr 1
    funext e
    simp only [Function.comp]
    split <;> rfl
  · simp [h, CTxMemPoolModifiedEntry.ofEntry]

theorem mem_keys_updateModifiedDescendant {it desc x : Fin n}
    {m : List (CTxMemPoolModifiedEntry n)} :
    x ∈ (updateModifiedDescendant opts mp it m desc).map (·.iter) ↔
      x ∈ m.map (·.iter) ∨ x = desc := by
  rw [map_iter_updateModifiedDescendant]
  split_ifs with h
  · constructor
    · exact Or.inl
    · rintro (hx | rfl) <;> assumption
  · simp

theorem nodup_keys_updateModifiedDescendant {it desc : Fin n}
    {m : List (CTxMemPoolModifiedEntry n)} (hm : (m.map (·.iter)).Nodup) :
    ((updateModifiedDescendant opts mp it m desc).map (·.iter)).Nodup := by
  rw [map_iter_updateModifiedDescendant]
  split_ifs with h
  · exact hm
  · exact hm.append (List.nodup_singleton desc) (by simpa using h)

theorem mem_keys_updateDescendants (alreadyAdded : List (Fin n)) (it x : Fin n) :
    ∀ (acc : List (CTxMemPoolModifiedEntry n) × ℕ) (descs : List (Fin n)),
      x ∈ (updateDescendants opts mp alreadyAdded it acc descs).1.map (·.iter) ↔
        x ∈ acc.1.map (·.iter) ∨ (x ∈ descs ∧ x ∉ alreadyAdded)
  | acc, [] => by simp [updateDescendants]
  | acc, desc :: descs => by
    rw [updateDescendants, mem_keys_updateDescendants alreadyAdded it x _ descs]
    split_ifs with h
    · -- a descendant added with `it` is skipped
      constructor
      · rintro (hx | ⟨hx, hn⟩)
        · exact Or.inl hx
        · exact Or.inr ⟨List.mem_cons_of_mem desc hx, hn⟩
      · rintro (hx | ⟨hx, hn⟩)
        · exact Or.inl hx
        · rcases List.mem_cons.mp hx with rfl | hx
          · exact absurd h hn
          · exact Or.inr ⟨hx, hn⟩
    · rw [mem_keys_updateModifiedDescendant]
      constructor
      · rintro ((hx | rfl) | ⟨hx, hn⟩)
        · exact Or.inl hx
        · exact Or.inr ⟨List.mem_cons_self, h⟩
        · exact Or.inr ⟨List.mem_cons_of_mem desc hx, hn⟩
      · rintro (hx | ⟨hx, hn⟩)
        · exact Or.inl (Or.inl hx)
        · rcases List.mem_cons.mp hx with rfl | hx
          · exact Or.inl (Or.inr rfl)
          · exact Or.inr ⟨hx, hn⟩

theorem nodup_keys_updateDescendants (alreadyAdded : List (Fin n)) (it : Fin n) :
    ∀ (acc : List (CTxMemPoolModifiedEntry n) × ℕ) (descs : List (Fin n)),
      (acc.1.map (·.iter)).Nodup →
        ((updateDescendants opts mp alreadyAdded it acc descs).1.map (·.iter)).Nodup
  | acc, [], h => h
  | acc, desc :: descs, h => by
    rw [updateDescendants]
    apply nodup_keys_updateDescendants alreadyAdded it _ descs
    split_ifs
    · exact h
    · exact nodup_keys_updateModifiedDescendant h

@[simp] theorem mem_setEntriesOrder {s : List (Fin n)} {x : Fin n} :
    x ∈ setEntriesOrder GetHash mp s ↔ x ∈ s :=
  List.mem_insertionSort _

/-- The transactions `UpdatePackagesForAdded` makes entries for: those it had, and the
descendants of the added ones that were not added with them. -/
theorem mem_keys_UpdatePackagesForAdded {alreadyAdded : List (Fin n)}
    {m : List (CTxMemPoolModifiedEntry n)} {x : Fin n} :
    x ∈ (UpdatePackagesForAdded opts GetHash mp alreadyAdded m).1.map (·.iter) ↔
      x ∈ m.map (·.iter) ∨
        (x ∉ alreadyAdded ∧ ∃ it ∈ alreadyAdded, x ∈ CalculateDescendants GetHash mp it) := by
  -- the outer loop, over the added transactions in hash order, from any accumulator
  have hfold : ∀ (added : List (Fin n)) (acc : List (CTxMemPoolModifiedEntry n) × ℕ),
      x ∈ (added.foldl (fun acc it => updateDescendants opts mp alreadyAdded it acc
        (setEntriesOrder GetHash mp (CalculateDescendants GetHash mp it))) acc).1.map (·.iter) ↔
        x ∈ acc.1.map (·.iter) ∨
          (x ∉ alreadyAdded ∧ ∃ it ∈ added, x ∈ CalculateDescendants GetHash mp it) := by
    intro added
    induction added with
    | nil => simp
    | cons it added ih =>
      intro acc
      rw [List.foldl_cons, ih, mem_keys_updateDescendants, mem_setEntriesOrder]
      constructor
      · rintro ((hx | ⟨hx, hn⟩) | ⟨hn, it', hit', hx⟩)
        · exact Or.inl hx
        · exact Or.inr ⟨hn, it, List.mem_cons_self, hx⟩
        · exact Or.inr ⟨hn, it', List.mem_cons_of_mem it hit', hx⟩
      · rintro (hx | ⟨hn, it', hit', hx⟩)
        · exact Or.inl (Or.inl hx)
        · rcases List.mem_cons.mp hit' with rfl | hit'
          · exact Or.inl (Or.inr ⟨hx, hn⟩)
          · exact Or.inr ⟨hn, it', hit', hx⟩
  rw [UpdatePackagesForAdded, hfold]
  simp

theorem nodup_keys_UpdatePackagesForAdded {alreadyAdded : List (Fin n)}
    {m : List (CTxMemPoolModifiedEntry n)} (hm : (m.map (·.iter)).Nodup) :
    ((UpdatePackagesForAdded opts GetHash mp alreadyAdded m).1.map (·.iter)).Nodup := by
  have hfold : ∀ (added : List (Fin n)) (acc : List (CTxMemPoolModifiedEntry n) × ℕ),
      (acc.1.map (·.iter)).Nodup →
      ((added.foldl (fun acc it => updateDescendants opts mp alreadyAdded it acc
        (setEntriesOrder GetHash mp (CalculateDescendants GetHash mp it))) acc).1.map
          (·.iter)).Nodup := by
    intro added
    induction added with
    | nil => exact fun _ h => h
    | cons it added ih =>
      intro acc h
      exact ih _ (nodup_keys_updateDescendants alreadyAdded it acc _ h)
  exact hfold _ _ hm

theorem nodup_keys_eraseModified {m : List (CTxMemPoolModifiedEntry n)} {it : Fin n}
    (hm : (m.map (·.iter)).Nodup) : ((eraseModified m it).map (·.iter)).Nodup :=
  (List.filter_sublist.map _).nodup hm

/-- Keys are transactions of the pool, so a map without a repeated key is no longer
than the pool. -/
theorem length_le_of_nodup_keys {m : List (CTxMemPoolModifiedEntry n)}
    (hm : (m.map (·.iter)).Nodup) : m.length ≤ n := by
  simpa using hm.length_le_card

theorem length_eraseModified_lt {l : List (CTxMemPoolModifiedEntry n)}
    {m : CTxMemPoolModifiedEntry n} (hm : m ∈ l) :
    (eraseModified l m.iter).length < l.length :=
  List.length_filter_lt_length_iff_exists.mpr ⟨m, hm, by simp⟩

/-- The best modified entry is one of the entries. -/
theorem bestModified_mem
    {CompareTxMemPoolEntryByAncestorFee :
      CTxMemPoolModifiedEntry n → CTxMemPoolModifiedEntry n → Bool}
    {l : List (CTxMemPoolModifiedEntry n)} {m : CTxMemPoolModifiedEntry n}
    (h : bestModified CompareTxMemPoolEntryByAncestorFee l = some m) : m ∈ l := by
  cases l with
  | nil => simp [bestModified] at h
  | cons e es =>
    simp only [bestModified, Option.some.injEq] at h
    subst h
    -- the fold keeps its running best among the entries
    have hfold : ∀ (best : CTxMemPoolModifiedEntry n) (rest : List (CTxMemPoolModifiedEntry n)),
        best ∈ e :: es → (∀ e' ∈ rest, e' ∈ e :: es) →
        rest.foldl (fun best e' =>
          if CompareTxMemPoolEntryByAncestorFee e' best then e' else best) best ∈ e :: es := by
      intro best rest
      induction rest generalizing best with
      | nil => exact fun hb _ => hb
      | cons e' rest ih =>
        intro hb hrest
        rw [List.foldl_cons]
        apply ih _ _ fun e'' he'' => hrest e'' (List.mem_cons_of_mem e' he'')
        split
        · exact hrest e' List.mem_cons_self
        · exact hb
    exact hfold e es List.mem_cons_self fun e' he' => List.mem_cons_of_mem e he'

/-! ## Every round lowers a measure -/

/-- The measure every round of the loop lowers: the transactions not in the block,
weighted above what `mi` and `mapModifiedTx` can hold, then those two lengths. -/
def selectionMeasure (st : PackageSelection n) : ℕ :=
  Worklist.unvisited st.block.inBlock * (n + 1) + st.mi.length + st.mapModifiedTx.length

/-- A failed package takes its entry off `mapModifiedTx` when it came from there. -/
theorem failPackage_measure {st : PackageSelection n} {iter : Fin n}
    {modit : Option (CTxMemPoolModifiedEntry n)}
    (hkeys : (st.mapModifiedTx.map (·.iter)).Nodup)
    (hmod : ∀ m, modit = some m → m ∈ st.mapModifiedTx ∧ m.iter = iter) :
    ((failPackage GetHash mp st iter modit.isSome).mapModifiedTx.map (·.iter)).Nodup ∧
      selectionMeasure (failPackage GetHash mp st iter modit.isSome) +
        (if modit.isSome then 1 else 0) ≤ selectionMeasure st := by
  cases modit with
  | none => simp [failPackage, hkeys]
  | some m =>
    obtain ⟨hm, rfl⟩ := hmod m rfl
    have hlt := length_eraseModified_lt hm
    simp only [failPackage, Option.isSome_some, if_true, selectionMeasure]
    exact ⟨nodup_keys_eraseModified hkeys, by omega⟩

variable (opts) in
/-- Adding a package puts `iter` in the block and leaves `mapModifiedTx` without
repeated keys. -/
theorem addPackage_measure {st : PackageSelection n} {iter : Fin n}
    (hkeys : (st.mapModifiedTx.map (·.iter)).Nodup) (hin : iter ∉ st.block.inBlock) :
    let ancestors := packageAncestors GetHash mp st.block.inBlock iter
    let added := addSortedEntries GetHash mp st.block st.mapModifiedTx
      (SortForBlock GetHash mp ancestors)
    let updated := UpdatePackagesForAdded opts GetHash mp ancestors added.2
    (updated.1.map (·.iter)).Nodup ∧
      Worklist.unvisited added.1.inBlock * (n + 1) + updated.1.length + 1 ≤
        Worklist.unvisited st.block.inBlock * (n + 1) := by
  intro ancestors added updated
  have hnodup : (updated.1.map (·.iter)).Nodup := by
    apply nodup_keys_UpdatePackagesForAdded
    rw [addSortedEntries_mapModifiedTx]
    exact (List.filter_sublist.map _).nodup hkeys
  have hcount : Worklist.unvisited added.1.inBlock < Worklist.unvisited st.block.inBlock :=
    Worklist.unvisited_lt (fun y hy => mem_addSortedEntries_inBlock.mpr (Or.inl hy)) hin
      (mem_addSortedEntries_inBlock.mpr (Or.inr (mem_SortForBlock.mpr
        (mem_packageAncestors.mpr (Or.inl rfl)))))
  have hlen := length_le_of_nodup_keys hnodup
  have hmul : Worklist.unvisited added.1.inBlock * (n + 1) + (n + 1) ≤
      Worklist.unvisited st.block.inBlock * (n + 1) := by
    rw [← Nat.succ_mul]
    exact Nat.mul_le_mul_right _ hcount
  exact ⟨hnodup, by omega⟩

/-- A round that considers a package and goes on lowers the measure, by one more when
the package came from `mapModifiedTx`. -/
theorem considerPackage_measure (st : PackageSelection n) {st' : PackageSelection n}
    {iter : Fin n} {modit : Option (CTxMemPoolModifiedEntry n)}
    (h : considerPackage opts GetHash mp st iter modit = .next st')
    (hkeys : (st.mapModifiedTx.map (·.iter)).Nodup)
    (hmod : ∀ m, modit = some m → m ∈ st.mapModifiedTx ∧ m.iter = iter) :
    (st'.mapModifiedTx.map (·.iter)).Nodup ∧
      selectionMeasure st' + (if modit.isSome then 1 else 0) ≤ selectionMeasure st := by
  -- the rounds that leave the loop or fail the assertion are gone after the split
  simp only [considerPackage] at h
  split_ifs at h with hin hfee htest hbreak htx
  · -- `TestPackage` failed and the loop goes on
    cases h
    exact failPackage_measure hkeys hmod
  · cases h
    exact failPackage_measure hkeys hmod
  · -- the package is added
    cases h
    obtain ⟨hnodup, hle⟩ := addPackage_measure opts hkeys hin
    refine ⟨hnodup, ?_⟩
    simp only [selectionMeasure]
    split <;> omega

variable (CompareTxMemPoolEntryByAncestorFee :
    CTxMemPoolModifiedEntry n → CTxMemPoolModifiedEntry n → Bool)

/-- The step lemma: a round that goes on lowers the measure and keeps `mapModifiedTx`
without repeated keys. -/
theorem addPackageTxsStep_measure {st st' : PackageSelection n}
    (hkeys : (st.mapModifiedTx.map (·.iter)).Nodup)
    (h : addPackageTxsStep opts GetHash mp CompareTxMemPoolEntryByAncestorFee st = .next st') :
    (st'.mapModifiedTx.map (·.iter)).Nodup ∧ selectionMeasure st' < selectionMeasure st := by
  have hbest : ∀ m, bestModified CompareTxMemPoolEntryByAncestorFee st.mapModifiedTx = some m →
      ∀ m', some m = some m' → m' ∈ st.mapModifiedTx ∧ m'.iter = m.iter := by
    rintro m hm m' ⟨⟩
    exact ⟨bestModified_mem hm, rfl⟩
  unfold addPackageTxsStep at h
  split at h
  next it rest hmi =>
    have hrest : selectionMeasure { st with mi := rest } + 1 = selectionMeasure st := by
      simp only [selectionMeasure, hmi, List.length_cons]
      omega
    split_ifs at h
    · cases h
      exact ⟨hkeys, by omega⟩
    · split at h
      next m hm =>
        split_ifs at h
        · have := considerPackage_measure st h hkeys (hbest m hm)
          simp only [Option.isSome_some, if_true] at this
          exact ⟨this.1, by omega⟩
        · have := considerPackage_measure { st with mi := rest } h hkeys
            fun _ h => by cases h
          simp only [Option.isSome_none] at this
          exact ⟨this.1, by omega⟩
      next =>
        have := considerPackage_measure { st with mi := rest } h hkeys
          fun _ h => by cases h
        simp only [Option.isSome_none] at this
        exact ⟨this.1, by omega⟩
  next =>
    split at h
    next m hm =>
      have := considerPackage_measure st h hkeys (hbest m hm)
      simp only [Option.isSome_some, if_true] at this
      exact ⟨this.1, by omega⟩
    next => cases h

/-- The run lemma: with more rounds than the measure, the loop does not run out. -/
theorem addPackageTxsLoop_ne_outOfFuel :
    ∀ (fuel : ℕ) (st : PackageSelection n), (st.mapModifiedTx.map (·.iter)).Nodup →
      selectionMeasure st < fuel →
        (addPackageTxsLoop opts GetHash mp CompareTxMemPoolEntryByAncestorFee fuel st).1 ≠
          .outOfFuel
  | 0, _, _, hlt => absurd hlt (Nat.not_lt_zero _)
  | fuel + 1, st, hkeys, hlt => by
    simp only [addPackageTxsLoop]
    cases hs : addPackageTxsStep opts GetHash mp CompareTxMemPoolEntryByAncestorFee st with
    | next st' =>
      obtain ⟨hkeys', hdec⟩ := addPackageTxsStep_measure CompareTxMemPoolEntryByAncestorFee hkeys hs
      exact addPackageTxsLoop_ne_outOfFuel fuel st' hkeys' (by omega)
    | done st' => simp
    | assertFailed st' => simp

variable (opts GetHash mp) in
/-- `addPackageTxs` never uses up its bound on rounds: the model's loop ends where the
source's does. -/
theorem addPackageTxs_ne_outOfFuel (block : BlockAssembler n) :
    (addPackageTxs opts GetHash mp CompareTxMemPoolEntryByAncestorFee block).1 ≠ .outOfFuel := by
  have hkeys : ((UpdatePackagesForAdded opts GetHash mp block.inBlock []).1.map (·.iter)).Nodup :=
    nodup_keys_UpdatePackagesForAdded (by simp)
  apply addPackageTxsLoop_ne_outOfFuel _ _ _ hkeys
  · have hcount : Worklist.unvisited block.inBlock ≤ n := by
      simpa using Worklist.unvisited_le block.inBlock
    have hlen := length_le_of_nodup_keys hkeys
    have hmul := Nat.mul_le_mul_right (n + 1) hcount
    simp only [selectionMeasure, addPackageTxsFuel]
    omega

/-! ## The assertion holds from a block closed under parents -/

/-- A set of transactions that holds the parents of its members. -/
def ParentClosed (mp : CTxMemPool n) (s : List (Fin n)) : Prop :=
  ∀ x ∈ s, ∀ p ∈ mp.parents x, p ∈ s

/-- A set closed under parents holds every ancestor of its members. -/
theorem ParentClosed.ancestor_mem {s : List (Fin n)} (h : ParentClosed mp s) {x a : Fin n}
    (hx : x ∈ s) (ha : mp.IsAncestor x a) : a ∈ s := by
  induction ha with
  | single hp => exact h x hx _ hp
  | tail _ hp ih => exact h _ ih _ hp

theorem mem_keys_filter {m : List (CTxMemPoolModifiedEntry n)} {es : List (Fin n)} {x : Fin n} :
    x ∈ (m.filter fun e => e.iter ∉ es).map (·.iter) ↔ x ∈ m.map (·.iter) ∧ x ∉ es := by
  simp only [List.mem_map, List.mem_filter, decide_eq_true_eq]
  constructor
  · rintro ⟨e, ⟨he, hn⟩, rfl⟩
    exact ⟨⟨e, he, rfl⟩, hn⟩
  · rintro ⟨⟨e, he, rfl⟩, hn⟩
    exact ⟨e, ⟨he, hn⟩, rfl⟩

variable (mp) in
/-- What keeps `assert(!inBlock.count(iter))` true: the block holds the parents of its
transactions, and no entry of `mapModifiedTx` is in it. -/
structure AssertInv (inBlock : List (Fin n)) (mapModifiedTx : List (CTxMemPoolModifiedEntry n)) :
    Prop where
  closed : ParentClosed mp inBlock
  modified_fresh : ∀ x ∈ mapModifiedTx.map (·.iter), x ∉ inBlock

variable (GetHash) in
theorem AssertInv.failPackage {st : PackageSelection n}
    (h : AssertInv mp st.block.inBlock st.mapModifiedTx) (iter : Fin n) (b : Bool) :
    AssertInv mp (failPackage GetHash mp st iter b).block.inBlock
      (failPackage GetHash mp st iter b).mapModifiedTx := by
  unfold XPChain.failPackage
  split
  · refine ⟨h.closed, fun x hx => h.modified_fresh x ?_⟩
    exact (List.filter_sublist.map _).subset hx
  · exact h

variable (opts) in
/-- Adding the package of an `iter` not in the block keeps the invariant: the package
holds the parents of its members that are not in the block, and a new entry of
`mapModifiedTx` descends from the package without being in it, so it is not in the
block either. -/
theorem AssertInv.addPackage (hmp : mp.Consistent GetHash) {st : PackageSelection n}
    (h : AssertInv mp st.block.inBlock st.mapModifiedTx) {iter : Fin n}
    (hiter : iter ∉ st.block.inBlock) :
    let ancestors := packageAncestors GetHash mp st.block.inBlock iter
    let added := addSortedEntries GetHash mp st.block st.mapModifiedTx
      (SortForBlock GetHash mp ancestors)
    AssertInv mp added.1.inBlock (UpdatePackagesForAdded opts GetHash mp ancestors added.2).1 := by
  intro ancestors added
  have hmem : ∀ x, x ∈ added.1.inBlock ↔ x ∈ st.block.inBlock ∨ x ∈ ancestors := fun x => by
    rw [mem_addSortedEntries_inBlock, mem_SortForBlock]
  refine ⟨fun x hx p hp => ?_, fun x hx => ?_⟩
  · rw [hmem] at hx ⊢
    rcases hx with hx | hx
    · exact Or.inl (h.closed x hx p hp)
    · exact packageAncestors_closed hx hp
  · rw [mem_keys_UpdatePackagesForAdded, addSortedEntries_mapModifiedTx, mem_keys_filter,
      mem_SortForBlock] at hx
    rw [hmem]
    rintro (hin | hin)
    · rcases hx with ⟨hx, -⟩ | ⟨hn, it, hit, hdesc⟩
      · exact h.modified_fresh x hx hin
      · -- `it` is an ancestor of `x`, so it was in the block, but it is in the package
        have hne : x ≠ it := fun heq => hn (heq ▸ hit)
        have hanc := hmp.isAncestor_of_mem_CalculateDescendants hdesc hne
        exact not_mem_of_mem_packageAncestors hiter hit (h.closed.ancestor_mem hin hanc)
    · rcases hx with ⟨-, hn⟩ | ⟨hn, -⟩ <;> exact hn hin

/-- A round that considers the package of an `iter` not in the block keeps the
invariant and does not fail the assertion. -/
theorem considerPackage_assertInv (hmp : mp.Consistent GetHash) (st : PackageSelection n)
    (h : AssertInv mp st.block.inBlock st.mapModifiedTx) {iter : Fin n}
    (hiter : iter ∉ st.block.inBlock) (modit : Option (CTxMemPoolModifiedEntry n)) :
    (∀ st', considerPackage opts GetHash mp st iter modit ≠ .assertFailed st') ∧
      AssertInv mp (considerPackage opts GetHash mp st iter modit).state.block.inBlock
        (considerPackage opts GetHash mp st iter modit).state.mapModifiedTx := by
  simp only [considerPackage, if_neg hiter]
  split_ifs with hfee htest hbreak htx
  · exact ⟨(fun _ h => by cases h), h⟩
  all_goals refine ⟨(fun _ h => by cases h), ?_⟩
  · exact h.failPackage GetHash iter _
  · exact h.failPackage GetHash iter _
  · exact h.failPackage GetHash iter _
  · exact h.addPackage opts hmp hiter

/-- The step lemma of the assertion: a round from a state of the invariant keeps it,
and the transaction it chooses is never in the block. -/
theorem addPackageTxsStep_assertInv (hmp : mp.Consistent GetHash) {st : PackageSelection n}
    (h : AssertInv mp st.block.inBlock st.mapModifiedTx) :
    (∀ st', addPackageTxsStep opts GetHash mp CompareTxMemPoolEntryByAncestorFee st ≠
        .assertFailed st') ∧
      AssertInv mp
        (addPackageTxsStep opts GetHash mp CompareTxMemPoolEntryByAncestorFee st).state.block.inBlock
        (addPackageTxsStep opts GetHash mp CompareTxMemPoolEntryByAncestorFee st).state.mapModifiedTx := by
  -- the best modified entry is an entry, so not in the block
  have hbest : ∀ m, bestModified CompareTxMemPoolEntryByAncestorFee st.mapModifiedTx = some m →
      m.iter ∉ st.block.inBlock := fun m hm =>
    h.modified_fresh _ (List.mem_map_of_mem (bestModified_mem hm))
  unfold addPackageTxsStep
  split
  next it rest _ =>
    split_ifs with hskip
    · exact ⟨(fun _ h => by cases h), h⟩
    · -- a `mapTx` entry that is not skipped is not in the block
      have hit : it ∉ st.block.inBlock := by
        simp only [SkipMapTxEntry, Bool.or_eq_true, decide_eq_true_eq, not_or] at hskip
        exact hskip.1.2
      split
      next m hm =>
        split_ifs
        · exact considerPackage_assertInv hmp st h (hbest m hm) _
        · exact considerPackage_assertInv hmp { st with mi := rest } h hit _
      next => exact considerPackage_assertInv hmp { st with mi := rest } h hit _
  next =>
    split
    next m hm => exact considerPackage_assertInv hmp st h (hbest m hm) _
    next => exact ⟨(fun _ h => by cases h), h⟩

/-- The run lemma of the assertion: no run from a state of the invariant fails it. -/
theorem addPackageTxsLoop_ne_assertFailed (hmp : mp.Consistent GetHash) :
    ∀ (fuel : ℕ) (st : PackageSelection n), AssertInv mp st.block.inBlock st.mapModifiedTx →
      (addPackageTxsLoop opts GetHash mp CompareTxMemPoolEntryByAncestorFee fuel st).1 ≠
        .assertFailed
  | 0, _, _ => by simp [addPackageTxsLoop]
  | fuel + 1, st, h => by
    obtain ⟨hne, h'⟩ := addPackageTxsStep_assertInv CompareTxMemPoolEntryByAncestorFee hmp h
    simp only [addPackageTxsLoop]
    cases hs : addPackageTxsStep opts GetHash mp CompareTxMemPoolEntryByAncestorFee st with
    | next st' =>
      rw [hs] at h'
      exact addPackageTxsLoop_ne_assertFailed hmp fuel st' h'
    | done st' => simp
    | assertFailed st' => exact absurd hs (hne st')

variable (opts GetHash mp) in
/-- From a consistent pool and a block that holds the parents of its transactions, as
the empty block of `CreateNewBlock` does, `addPackageTxs` always leaves its loop: the
assertion never fails and the bound on rounds is never reached. -/
theorem addPackageTxs_finished (hmp : mp.Consistent GetHash) (block : BlockAssembler n)
    (hclosed : ∀ x ∈ block.inBlock, ∀ p ∈ mp.parents x, p ∈ block.inBlock) :
    (addPackageTxs opts GetHash mp CompareTxMemPoolEntryByAncestorFee block).1 = .finished := by
  have hinv : AssertInv mp block.inBlock
      (UpdatePackagesForAdded opts GetHash mp block.inBlock []).1 := by
    refine ⟨hclosed, fun x hx => ?_⟩
    rw [mem_keys_UpdatePackagesForAdded] at hx
    rcases hx with hx | ⟨hx, -⟩
    · simp at hx
    · exact hx
  have hassert : (addPackageTxs opts GetHash mp CompareTxMemPoolEntryByAncestorFee block).1 ≠
      .assertFailed := by
    unfold addPackageTxs
    exact addPackageTxsLoop_ne_assertFailed CompareTxMemPoolEntryByAncestorFee hmp _ _ hinv
  have hfuel := addPackageTxs_ne_outOfFuel opts GetHash mp CompareTxMemPoolEntryByAncestorFee block
  cases hexit : (addPackageTxs opts GetHash mp CompareTxMemPoolEntryByAncestorFee block).1 with
  | finished => rfl
  | assertFailed => exact absurd hexit hassert
  | outOfFuel => exact absurd hexit hfuel

theorem addPackageTxs_finished_parentChild :
    parentChildPool.Consistent (·.nLockTime) ∧
      (∀ x ∈ (reservedBlock 2).inBlock, ∀ p ∈ parentChildPool.parents x,
        p ∈ (reservedBlock 2).inBlock) ∧
      (addPackageTxs defaultAssemblerOptions (·.nLockTime) parentChildPool (fun _ _ => false)
        (reservedBlock 2)).1 = .finished :=
  have hclosed : ∀ x ∈ (reservedBlock 2).inBlock, ∀ p ∈ parentChildPool.parents x,
      p ∈ (reservedBlock 2).inBlock := by simp [reservedBlock]
  ⟨parentChildPool_consistent, hclosed, addPackageTxs_finished defaultAssemblerOptions _ _ _
    parentChildPool_consistent (reservedBlock 2) hclosed⟩

end XPChain
