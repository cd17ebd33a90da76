import XPChain.Miner.Assembler

/-!
# Packages enter the block after their parents

What `addPackageTxs` appends to a block, from any mempool whose links and ancestor
counts are consistent and from any set of transactions already in the block.  The
appended transactions are distinct and none was in the block. Each comes after those
of its parents that it appends. Every package added passed the fee-rate test and
`TestPackage` with the totals read when it was selected.

The argument is an invariant of the block and of the log of added packages
(`Appended`).  A package holds every parent of its members that is not in the block
(`packageAncestors_closed`).  `SortForBlock` orders it by ancestor count, which the
pool keeps below a child's for each parent (`SortForBlock_parent_before`).

## Main definitions

* `appended` — the transactions the logged packages add, in order.
* `Appended` — the invariant.

## Main statements

* `Appended.addPackage` — adding a package keeps the invariant.
* `considerPackage_appended`, `addPackageTxsStep_appended` — so does every round.
* `addPackageTxsLoop_appended` — and every run.
-/

set_option autoImplicit false

namespace XPChain

variable {n : ℕ} {GetHash : CTransaction → uint256} {mp : CTxMemPool n}

/-! ## Packages -/

@[simp] theorem mem_onlyUnconfirmed {inBlock testSet : List (Fin n)} {x : Fin n} :
    x ∈ onlyUnconfirmed inBlock testSet ↔ x ∈ testSet ∧ x ∉ inBlock := by
  simp [onlyUnconfirmed]

theorem mem_packageAncestors {inBlock : List (Fin n)} {iter x : Fin n} :
    x ∈ packageAncestors GetHash mp inBlock iter ↔
      x = iter ∨ (mp.IsAncestor iter x ∧ x ∉ inBlock) := by
  simp [packageAncestors, mem_CalculateMemPoolAncestors]

theorem nodup_packageAncestors (inBlock : List (Fin n)) (iter : Fin n) :
    (packageAncestors GetHash mp inBlock iter).Nodup :=
  Worklist.nodup_setInsert _ ((nodup_CalculateMemPoolAncestors GetHash mp iter).filter _)

/-- A package holds every parent of its members that is not in the block. -/
theorem packageAncestors_closed {inBlock : List (Fin n)} {iter x p : Fin n}
    (hx : x ∈ packageAncestors GetHash mp inBlock iter) (hp : p ∈ mp.parents x) :
    p ∈ inBlock ∨ p ∈ packageAncestors GetHash mp inBlock iter := by
  have hanc : mp.IsAncestor iter p := by
    rcases mem_packageAncestors.mp hx with rfl | ⟨hx, -⟩
    · exact .single hp
    · exact Relation.TransGen.tail hx hp
  by_cases hin : p ∈ inBlock
  · exact Or.inl hin
  · exact Or.inr (mem_packageAncestors.mpr (Or.inr ⟨hanc, hin⟩))

/-- Once the assertion on `iter` has passed, nothing in its package is in the block. -/
theorem not_mem_of_mem_packageAncestors {inBlock : List (Fin n)} {iter x : Fin n}
    (hiter : iter ∉ inBlock) (hx : x ∈ packageAncestors GetHash mp inBlock iter) :
    x ∉ inBlock := by
  rcases mem_packageAncestors.mp hx with rfl | ⟨-, hx⟩
  exacts [hiter, hx]

/-! ## Sorting by ancestor count -/

/-- The order `SortForBlock` sorts by: ancestor count, then hash key. -/
theorem sortForBlock_le_iff {a b : Fin n} :
    (!CompareTxIterByAncestorCount GetHash mp b a) = true ↔
      (mp.mapTx a).nCountWithAncestors < (mp.mapTx b).nCountWithAncestors ∨
      ((mp.mapTx a).nCountWithAncestors = (mp.mapTx b).nCountWithAncestors ∧
        uint256CompareKey (GetHash (mp.mapTx a).tx) ≤
          uint256CompareKey (GetHash (mp.mapTx b).tx)) := by
  unfold CompareTxIterByAncestorCount
  split_ifs with h
  · simp only [Bool.not_eq_true', decide_eq_false_iff_not, not_lt]
    omega
  · -- equal counts: the instance of the hash order has to be rewritten before it unfolds
    simp only [Bool.not_eq_true']
    rw [decide_eq_false_iff_not, CompareIteratorByHash]
    omega

@[simp] theorem mem_SortForBlock {package : List (Fin n)} {x : Fin n} :
    x ∈ SortForBlock GetHash mp package ↔ x ∈ package :=
  List.mem_mergeSort

theorem nodup_SortForBlock {package : List (Fin n)} (h : package.Nodup) :
    (SortForBlock GetHash mp package).Nodup :=
  (List.mergeSort_perm _ _).nodup_iff.mpr h

theorem pairwise_SortForBlock (package : List (Fin n)) :
    (SortForBlock GetHash mp package).Pairwise
      fun a b => (!CompareTxIterByAncestorCount GetHash mp b a) = true := by
  apply List.pairwise_mergeSort
  · intro a b c hab hbc
    rw [sortForBlock_le_iff] at hab hbc ⊢
    omega
  · intro a b
    rw [Bool.or_eq_true, sortForBlock_le_iff, sortForBlock_le_iff]
    omega

/-- In a list sorted by `R`, an element that does not come `R`-after another one stands
before it. -/
private theorem pair_sublist_of_pairwise {α : Type*} {R : α → α → Prop} {l : List α}
    {a b : α} (hl : l.Pairwise R) (ha : a ∈ l) (hb : b ∈ l) (hab : a ≠ b) (hba : ¬ R b a) :
    [a, b].Sublist l := by
  induction l with
  | nil => simp at ha
  | cons x xs ih =>
    rw [List.pairwise_cons] at hl
    rcases List.mem_cons.mp ha with rfl | ha'
    · have hb' : b ∈ xs := (List.mem_cons.mp hb).resolve_left (Ne.symm hab)
      exact (List.singleton_sublist.mpr hb').cons_cons a
    · rcases List.mem_cons.mp hb with rfl | hb'
      · exact absurd (hl.1 a ha') hba
      · exact (ih hl.2 ha' hb').cons x

/-- Sorting by ancestor count puts a parent before its child. -/
theorem SortForBlock_parent_before (hmp : mp.Consistent GetHash) {package : List (Fin n)}
    {p t : Fin n} (hp : p ∈ package) (ht : t ∈ package) (hpar : p ∈ mp.parents t) :
    [p, t].Sublist (SortForBlock GetHash mp package) := by
  have hlt := hmp.count_lt_of_parent hpar
  refine pair_sublist_of_pairwise (pairwise_SortForBlock package) (mem_SortForBlock.mpr hp)
    (mem_SortForBlock.mpr ht) ?_ ?_
  · rintro rfl
    exact lt_irrefl _ hlt
  · rw [sortForBlock_le_iff]
    omega

/-! ## Adding a sorted package -/

theorem addSortedEntries_vtx (b : BlockAssembler n)
    (mapModifiedTx : List (CTxMemPoolModifiedEntry n)) (es : List (Fin n)) :
    (addSortedEntries GetHash mp b mapModifiedTx es).1.vtx = b.vtx ++ es := by
  induction es generalizing b mapModifiedTx with
  | nil => simp [addSortedEntries]
  | cons e es ih => simp [addSortedEntries, ih, AddToBlock]

theorem mem_addSortedEntries_inBlock {b : BlockAssembler n}
    {mapModifiedTx : List (CTxMemPoolModifiedEntry n)} {es : List (Fin n)} {x : Fin n} :
    x ∈ (addSortedEntries GetHash mp b mapModifiedTx es).1.inBlock ↔ x ∈ b.inBlock ∨ x ∈ es := by
  induction es generalizing b mapModifiedTx with
  | nil => simp [addSortedEntries]
  | cons e es ih =>
    simp only [addSortedEntries, ih, AddToBlock, Worklist.mem_setInsert, List.mem_cons]
    tauto

theorem addSortedEntries_mapModifiedTx (b : BlockAssembler n)
    (mapModifiedTx : List (CTxMemPoolModifiedEntry n)) (es : List (Fin n)) :
    (addSortedEntries GetHash mp b mapModifiedTx es).2 =
      mapModifiedTx.filter fun e => e.iter ∉ es := by
  induction es generalizing b mapModifiedTx with
  | nil => simp [addSortedEntries]
  | cons e es ih =>
    simp only [addSortedEntries, ih, eraseModified, List.filter_filter, List.mem_cons, not_or]
    congr 1
    funext e'
    simp only [Bool.decide_and, Bool.and_comm, ne_eq]

@[simp] theorem failPackage_block (st : PackageSelection n) (iter : Fin n) (b : Bool) :
    (failPackage GetHash mp st iter b).block = st.block := by
  unfold failPackage
  split <;> rfl

@[simp] theorem failPackage_selected (st : PackageSelection n) (iter : Fin n) (b : Bool) :
    (failPackage GetHash mp st iter b).selected = st.selected := by
  unfold failPackage
  split <;> rfl

/-! ## The invariant -/

/-- The transactions the logged packages add, in order. -/
def appended (selected : List (SelectedPackage n)) : List (Fin n) :=
  selected.flatMap SelectedPackage.sortedEntries

@[simp] theorem appended_nil : appended ([] : List (SelectedPackage n)) = [] := rfl

@[simp] theorem appended_append_singleton (selected : List (SelectedPackage n))
    (pkg : SelectedPackage n) :
    appended (selected ++ [pkg]) = appended selected ++ pkg.sortedEntries := by
  simp [appended]

variable (opts : BlockAssemblerOptions)

/-- A package passed the two tests of `addPackageTxs` with the totals it was selected
with. -/
def SelectedPackage.Passes (pkg : SelectedPackage n) : Prop :=
  opts.blockMinFeeRate.GetFee pkg.packageSize ≤ pkg.packageFees ∧
    TestPackage opts pkg.block pkg.packageSize pkg.packageSigOpsCost = true

variable (mp) in
/-- What holds of the block `b` and the log `selected` from the block `b₀` a run started
with: the block's transactions are `b₀`'s and then the logged packages', which are
distinct, were not in `b₀`, and come each after those of its parents that are not in
`b₀`; every logged package passed its tests. -/
structure Appended (b₀ b : BlockAssembler n) (selected : List (SelectedPackage n)) : Prop where
  vtx_eq : b.vtx = b₀.vtx ++ appended selected
  mem_inBlock : ∀ x, x ∈ b.inBlock ↔ x ∈ b₀.inBlock ∨ x ∈ appended selected
  nodup : (appended selected).Nodup
  fresh : ∀ t ∈ appended selected, t ∉ b₀.inBlock
  parents_before : ∀ t ∈ appended selected, ∀ p ∈ mp.parents t,
    p ∈ b₀.inBlock ∨ [p, t].Sublist (appended selected)
  passes : ∀ pkg ∈ selected, pkg.Passes opts

theorem Appended.init (b₀ : BlockAssembler n) : Appended mp opts b₀ b₀ [] where
  vtx_eq := by simp
  mem_inBlock := by simp
  nodup := List.nodup_nil
  fresh := by simp
  parents_before := by simp
  passes := by simp

variable {opts}

/-- Adding the sorted package of an `iter` not in the block keeps the invariant. -/
theorem Appended.addPackage (hmp : mp.Consistent GetHash) {b₀ b : BlockAssembler n}
    {selected : List (SelectedPackage n)} (h : Appended mp opts b₀ b selected) {iter : Fin n}
    (hiter : iter ∉ b.inBlock) (mapModifiedTx : List (CTxMemPoolModifiedEntry n))
    (pkg : SelectedPackage n)
    (hpkg : pkg.sortedEntries = SortForBlock GetHash mp (packageAncestors GetHash mp b.inBlock iter))
    (hpass : pkg.Passes opts) :
    Appended mp opts b₀ (addSortedEntries GetHash mp b mapModifiedTx
      (SortForBlock GetHash mp (packageAncestors GetHash mp b.inBlock iter))).1
      (selected ++ [pkg]) := by
  rw [← hpkg]
  have hmem : ∀ x, x ∈ pkg.sortedEntries ↔ x ∈ packageAncestors GetHash mp b.inBlock iter := by
    simp [hpkg]
  have hnew : ∀ x ∈ pkg.sortedEntries, x ∉ b.inBlock := fun x hx =>
    not_mem_of_mem_packageAncestors hiter ((hmem x).mp hx)
  have hold : ∀ x ∈ appended selected, x ∈ b.inBlock := fun x hx =>
    (h.mem_inBlock x).mpr (Or.inr hx)
  refine ⟨?_, ?_, ?_, ?_, ?_, ?_⟩
  · rw [addSortedEntries_vtx, h.vtx_eq, appended_append_singleton, List.append_assoc]
  · intro x
    rw [mem_addSortedEntries_inBlock, h.mem_inBlock, appended_append_singleton, List.mem_append]
    tauto
  · rw [appended_append_singleton, List.nodup_append]
    refine ⟨h.nodup, ?_, fun a ha c hc hac => hnew c hc (hac ▸ hold a ha)⟩
    rw [hpkg]
    exact nodup_SortForBlock (nodup_packageAncestors _ _)
  · intro t ht
    rw [appended_append_singleton, List.mem_append] at ht
    rcases ht with ht | ht
    · exact h.fresh t ht
    · exact fun h0 => hnew t ht ((h.mem_inBlock t).mpr (Or.inl h0))
  · intro t ht p hp
    rw [appended_append_singleton] at ht ⊢
    rcases List.mem_append.mp ht with ht | ht
    · exact (h.parents_before t ht p hp).imp_right (·.trans (List.sublist_append_left _ _))
    -- a member of the new package: its parent is in the block, or in the package and
    -- sorted before it
    rcases packageAncestors_closed ((hmem t).mp ht) hp with hin | hin
    · rcases (h.mem_inBlock p).mp hin with hin | hin
      · exact Or.inl hin
      · exact Or.inr ((List.singleton_sublist.mpr hin).append (List.singleton_sublist.mpr ht))
    · right
      have hsorted := SortForBlock_parent_before hmp hin ((hmem t).mp ht) hp
      rw [← hpkg] at hsorted
      exact hsorted.trans (List.sublist_append_right _ _)
  · intro q hq
    rcases List.mem_append.mp hq with hq | hq
    · exact h.passes q hq
    · rw [List.mem_singleton.mp hq]
      exact hpass

variable (CompareTxMemPoolEntryByAncestorFee :
    CTxMemPoolModifiedEntry n → CTxMemPoolModifiedEntry n → Bool)

/-- A round that considers a package keeps the invariant: it adds the package or
changes neither the block nor the log. -/
theorem considerPackage_appended (hmp : mp.Consistent GetHash) {b₀ : BlockAssembler n}
    (st : PackageSelection n) (h : Appended mp opts b₀ st.block st.selected) (iter : Fin n)
    (modit : Option (CTxMemPoolModifiedEntry n)) :
    Appended mp opts b₀ (considerPackage opts GetHash mp st iter modit).state.block
      (considerPackage opts GetHash mp st iter modit).state.selected := by
  simp only [considerPackage]
  split_ifs with hin hfee htest hbreak htx
  · exact h
  · exact h
  · simpa [PackageStep.state] using h
  · simpa [PackageStep.state] using h
  · simpa [PackageStep.state] using h
  · dsimp only [PackageStep.state]
    refine h.addPackage hmp hin _ _ ?_ ?_
    · rfl
    · exact ⟨not_lt.mp hfee, by simpa using htest⟩

theorem addPackageTxsStep_appended (hmp : mp.Consistent GetHash) {b₀ : BlockAssembler n}
    {st : PackageSelection n} (h : Appended mp opts b₀ st.block st.selected) :
    Appended mp opts b₀
      (addPackageTxsStep opts GetHash mp CompareTxMemPoolEntryByAncestorFee st).state.block
      (addPackageTxsStep opts GetHash mp CompareTxMemPoolEntryByAncestorFee st).state.selected := by
  unfold addPackageTxsStep
  split
  next it rest _ =>
    split_ifs
    · exact h
    · split
      · split_ifs
        · exact considerPackage_appended hmp st h _ _
        · exact considerPackage_appended hmp { st with mi := rest } h _ _
      · exact considerPackage_appended hmp { st with mi := rest } h _ _
  next =>
    split
    · exact considerPackage_appended hmp st h _ _
    · exact h

/-- The run lemma: every run of the loop keeps the invariant, however it ends. -/
theorem addPackageTxsLoop_appended (hmp : mp.Consistent GetHash) {b₀ : BlockAssembler n} :
    ∀ (fuel : ℕ) (st : PackageSelection n), Appended mp opts b₀ st.block st.selected →
      Appended mp opts b₀
        (addPackageTxsLoop opts GetHash mp CompareTxMemPoolEntryByAncestorFee fuel st).2.block
        (addPackageTxsLoop opts GetHash mp CompareTxMemPoolEntryByAncestorFee fuel st).2.selected
  | 0, _, h => h
  | fuel + 1, st, h => by
    have hstep := addPackageTxsStep_appended CompareTxMemPoolEntryByAncestorFee hmp h
    simp only [addPackageTxsLoop]
    cases hs : addPackageTxsStep opts GetHash mp CompareTxMemPoolEntryByAncestorFee st with
    | next st' =>
      rw [hs] at hstep
      exact addPackageTxsLoop_appended hmp fuel st' hstep
    | done st' => rw [hs] at hstep; exact hstep
    | assertFailed st' => rw [hs] at hstep; exact hstep

theorem addPackageTxs_appended (hmp : mp.Consistent GetHash) (block : BlockAssembler n) :
    Appended mp opts block
      (addPackageTxs opts GetHash mp CompareTxMemPoolEntryByAncestorFee block).2.block
      (addPackageTxs opts GetHash mp CompareTxMemPoolEntryByAncestorFee block).2.selected := by
  unfold addPackageTxs
  exact addPackageTxsLoop_appended CompareTxMemPoolEntryByAncestorFee hmp _ _
    (Appended.init opts block)

variable (opts) in
/-- What `addPackageTxs` appends to any block, from any consistent pool and however the
run ends: distinct transactions that were not in the block, each after every parent of
it that was not; they are the logged packages' entries in order, and every logged
package passed the fee-rate test and `TestPackage` with the totals it was selected with. -/
theorem addPackageTxs_topological (hmp : mp.Consistent GetHash) (block : BlockAssembler n) :
    ∃ added,
      (addPackageTxs opts GetHash mp CompareTxMemPoolEntryByAncestorFee block).2.block.vtx =
        block.vtx ++ added ∧
      added = appended
        (addPackageTxs opts GetHash mp CompareTxMemPoolEntryByAncestorFee block).2.selected ∧
      added.Nodup ∧ (∀ t ∈ added, t ∉ block.inBlock) ∧
      (∀ t ∈ added, ∀ p ∈ mp.parents t, p ∈ block.inBlock ∨ [p, t].Sublist added) ∧
      ∀ pkg ∈ (addPackageTxs opts GetHash mp CompareTxMemPoolEntryByAncestorFee block).2.selected,
        opts.blockMinFeeRate.GetFee pkg.packageSize ≤ pkg.packageFees ∧
          TestPackage opts pkg.block pkg.packageSize pkg.packageSigOpsCost = true := by
  have h : Appended mp opts block _ _ :=
    addPackageTxs_appended CompareTxMemPoolEntryByAncestorFee hmp block
  exact ⟨_, h.vtx_eq, rfl, h.nodup, h.fresh, h.parents_before, h.passes⟩

/-- A pool of two entries, `0` and its child `1`, hashed by lock time. -/
def parentChildPool : CTxMemPool 2 where
  mapTx i := if i = 0 then ⟨⟨2, [], [], 0⟩, 100, 400, 0, 0, 1, 100, 100, 0⟩
    else ⟨⟨2, [], [], 1⟩, 1000, 400, 0, 0, 2, 200, 1100, 0⟩
  ancestorScore := [1, 0]
  parents i := if i = 0 then [] else [0]
  children i := if i = 0 then [1] else []

/-- The default options: weight limit `MAX_BLOCK_WEIGHT - 4000`, `DEFAULT_BLOCK_MIN_TX_FEE`. -/
def defaultAssemblerOptions : BlockAssemblerOptions := ⟨3996000, ⟨1000⟩, 100, 0, true, 20⟩

/-- The block `CreateNewBlock` starts from: the coinbase's reserved weight and sigops. -/
def reservedBlock (n : ℕ) : BlockAssembler n := ⟨[], [], [], 4000, 0, 400, 0, []⟩

theorem parentChildPool_consistent : parentChildPool.Consistent (·.nLockTime) where
  parent_of_child := by decide
  count_eq := by decide
  acyclic it := by
    rw [← mem_CalculateMemPoolAncestors (·.nLockTime) parentChildPool]
    revert it
    decide

theorem addPackageTxs_topological_parentChild :
    parentChildPool.Consistent (·.nLockTime) ∧
    ∃ added,
      (addPackageTxs defaultAssemblerOptions (·.nLockTime) parentChildPool (fun _ _ => false)
        (reservedBlock 2)).2.block.vtx = (reservedBlock 2).vtx ++ added ∧
      added = appended (addPackageTxs defaultAssemblerOptions (·.nLockTime) parentChildPool
        (fun _ _ => false) (reservedBlock 2)).2.selected ∧
      added.Nodup ∧ (∀ t ∈ added, t ∉ (reservedBlock 2).inBlock) ∧
      (∀ t ∈ added, ∀ p ∈ parentChildPool.parents t,
        p ∈ (reservedBlock 2).inBlock ∨ [p, t].Sublist added) ∧
      ∀ pkg ∈ (addPackageTxs defaultAssemblerOptions (·.nLockTime) parentChildPool
          (fun _ _ => false) (reservedBlock 2)).2.selected,
        defaultAssemblerOptions.blockMinFeeRate.GetFee pkg.packageSize ≤ pkg.packageFees ∧
          TestPackage defaultAssemblerOptions pkg.block pkg.packageSize
            pkg.packageSigOpsCost = true :=
  ⟨parentChildPool_consistent, addPackageTxs_topological defaultAssemblerOptions _
    parentChildPool_consistent (reservedBlock 2)⟩

end XPChain
