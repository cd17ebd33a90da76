import XPChain.Validation.CheckBlock
import Mathlib.Data.Nat.Log
import Mathlib.Data.Nat.Pairing

/-!
# Merkle roots and the mutation flag

`ComputeMerkleRoot` pairs an odd last hash with itself, so lists of
transactions that differ by a repeated tail can share a root
(CVE-2012-2459, the comment of `consensus/merkle.cpp`).  The loop therefore
reports a mutation whenever a pass meets two equal hashes at an even
position, and `CheckBlock` rejects such a block as `bad-txns-duplicate`.

Here `Hash64` stands for `SHA256D64` on two hashes and is assumed
injective, as a hash without collisions.  Every pass of the loop is a
`merkleLevel`; a list of two or more hashes has the root and the flag of its
next level, with that level's flag added (`computeMerkleRoot_of_two_le`).
Induction on the depth of the tree, `Nat.clog 2` of the number of leaves,
then goes from the root down level by level.

## Main statements

* `computeMerkleRoot_dup_last` — repeating the odd last hash keeps the root
  and sets the flag.
* `computeMerkleRoot_mutation_complete` — two different lists of leaves of
  the same depth with one root: the flag is set for one of them; and a list
  of distinct leaves is never flagged.
-/

set_option autoImplicit false

namespace XPChain

/-! ## One pass -/

section Level

variable (Hash64 : uint256 → uint256 → uint256)

@[simp] theorem merkleLevel_cons_cons (a b : uint256) (hashes : List uint256) :
    merkleLevel Hash64 (a :: b :: hashes) =
      (Hash64 a b :: (merkleLevel Hash64 hashes).1, a == b || (merkleLevel Hash64 hashes).2) :=
  rfl

@[simp] theorem merkleLevel_singleton (a : uint256) :
    merkleLevel Hash64 [a] = ([Hash64 a a], false) := rfl

@[simp] theorem merkleLevel_nil : merkleLevel Hash64 [] = ([], false) := rfl

/-- A pass halves the number of hashes, rounding up. -/
theorem length_merkleLevel : ∀ hashes : List uint256,
    (merkleLevel Hash64 hashes).1.length = (hashes.length + 1) / 2
  | _ :: _ :: hashes => by
    simp only [merkleLevel_cons_cons, List.length_cons, length_merkleLevel hashes]
    omega
  | [_] => by simp
  | [] => by simp

/-- Every hash of the next level is the hash of two hashes of this one. -/
theorem mem_merkleLevel {x : uint256} : ∀ {hashes : List uint256},
    x ∈ (merkleLevel Hash64 hashes).1 → ∃ a ∈ hashes, ∃ b ∈ hashes, x = Hash64 a b
  | a :: b :: hashes, h => by
    rw [merkleLevel_cons_cons, List.mem_cons] at h
    rcases h with rfl | h
    · exact ⟨a, List.mem_cons_self, b, List.mem_cons_of_mem _ List.mem_cons_self, rfl⟩
    · obtain ⟨c, hc, d, hd, rfl⟩ := mem_merkleLevel h
      exact ⟨c, List.mem_cons_of_mem _ (List.mem_cons_of_mem _ hc),
        d, List.mem_cons_of_mem _ (List.mem_cons_of_mem _ hd), rfl⟩
  | [a], h => ⟨a, List.mem_singleton_self a, a, List.mem_singleton_self a, by simpa using h⟩
  | [], h => absurd h List.not_mem_nil

/-- A level of distinct hashes holds no equal pair. -/
theorem merkleLevel_snd_of_nodup : ∀ {hashes : List uint256},
    hashes.Nodup → (merkleLevel Hash64 hashes).2 = false
  | a :: b :: hashes, h => by
    rw [List.nodup_cons, List.nodup_cons] at h
    have hab : a ≠ b := fun hab => h.1 (hab ▸ List.mem_cons_self)
    simp [hab, merkleLevel_snd_of_nodup h.2.2]
  | [_], _ => rfl
  | [], _ => rfl

/-- Two even-length stretches are paired separately. -/
theorem merkleLevel_append : ∀ (hashes rest : List uint256), hashes.length % 2 = 0 →
    merkleLevel Hash64 (hashes ++ rest) =
      ((merkleLevel Hash64 hashes).1 ++ (merkleLevel Hash64 rest).1,
        (merkleLevel Hash64 hashes).2 || (merkleLevel Hash64 rest).2)
  | a :: b :: hashes, rest, h => by
    have ih := merkleLevel_append hashes rest (by simp only [List.length_cons] at h; omega)
    rw [List.cons_append, List.cons_append, merkleLevel_cons_cons, ih, merkleLevel_cons_cons]
    simp only [List.cons_append, Bool.or_assoc]
  | [_], _, h => by simp at h
  | [], _, _ => by simp

variable {Hash64}

/-- With an injective `Hash64`, a level of distinct hashes has distinct
hashes. -/
theorem nodup_merkleLevel (hinj : Function.Injective2 Hash64) : ∀ {hashes : List uint256},
    hashes.Nodup → (merkleLevel Hash64 hashes).1.Nodup
  | a :: b :: hashes, h => by
    rw [List.nodup_cons, List.nodup_cons] at h
    rw [merkleLevel_cons_cons, List.nodup_cons]
    refine ⟨fun hmem => ?_, nodup_merkleLevel hinj h.2.2⟩
    -- a later hash equal to the first pair's would put `a` among the later hashes
    obtain ⟨c, hc, d, -, heq⟩ := mem_merkleLevel Hash64 hmem
    obtain ⟨rfl, -⟩ := hinj heq
    exact h.1 (List.mem_cons_of_mem _ hc)
  | [_], _ => by simp
  | [], _ => List.nodup_nil

/-- With an injective `Hash64`, two levels of the same hashes come from the
same hashes, or one of them holds an equal pair: the odd last hash of one
list can only meet a pair of two equal hashes in the other. -/
theorem eq_or_mutated_of_merkleLevel_eq (hinj : Function.Injective2 Hash64) :
    ∀ {hashes hashes' : List uint256},
      (merkleLevel Hash64 hashes).1 = (merkleLevel Hash64 hashes').1 →
      hashes = hashes' ∨ (merkleLevel Hash64 hashes).2 = true ∨
        (merkleLevel Hash64 hashes').2 = true
  | a :: b :: hashes, c :: d :: hashes', h => by
    simp only [merkleLevel_cons_cons, List.cons.injEq] at h
    obtain ⟨rfl, rfl⟩ := hinj h.1
    rcases eq_or_mutated_of_merkleLevel_eq hinj h.2 with rfl | hm | hm
    · exact Or.inl rfl
    · simp [hm]
    · simp [hm]
  | a :: b :: hashes, [c], h => by
    simp only [merkleLevel_cons_cons, merkleLevel_singleton, List.cons.injEq] at h
    obtain ⟨rfl, rfl⟩ := hinj h.1
    simp
  | [a], c :: d :: hashes', h => by
    simp only [merkleLevel_cons_cons, merkleLevel_singleton, List.cons.injEq] at h
    obtain ⟨rfl, rfl⟩ := hinj h.1
    simp
  | [a], [c], h => by
    simp only [merkleLevel_singleton, List.cons.injEq, and_true] at h
    obtain ⟨rfl, -⟩ := hinj h
    exact Or.inl rfl
  | [], [], _ => Or.inl rfl
  | _ :: _ :: _, [], h => by simp at h
  | [_], [], h => by simp at h
  | [], _ :: _ :: _, h => by simp at h
  | [], [_], h => by simp at h

end Level

/-! ## The loop -/

section Loop

variable {Hash64 : uint256 → uint256 → uint256}

theorem computeMerkleRootAux_of_length_le_one (fuel : ℕ) {hashes : List uint256}
    (h : hashes.length ≤ 1) :
    computeMerkleRootAux Hash64 fuel hashes = (hashes.headD 0, false) := by
  match hashes, h with
  | [], _ => cases fuel <;> rfl
  | [_], _ => cases fuel <;> rfl

theorem computeMerkleRootAux_succ (fuel : ℕ) {hashes : List uint256} (h : 2 ≤ hashes.length) :
    computeMerkleRootAux Hash64 (fuel + 1) hashes =
      ((computeMerkleRootAux Hash64 fuel (merkleLevel Hash64 hashes).1).1,
        (merkleLevel Hash64 hashes).2 ||
          (computeMerkleRootAux Hash64 fuel (merkleLevel Hash64 hashes).1).2) := by
  match hashes, h with
  | _ :: _ :: _, _ => rfl

/-- One pass less than the number of hashes is enough: more fuel changes
nothing. -/
theorem computeMerkleRootAux_congr : ∀ (fuel fuel' : ℕ) (hashes : List uint256),
    hashes.length ≤ fuel + 1 → hashes.length ≤ fuel' + 1 →
    computeMerkleRootAux Hash64 fuel hashes = computeMerkleRootAux Hash64 fuel' hashes := by
  intro fuel
  induction fuel with
  | zero =>
    intro fuel' hashes h _
    rw [computeMerkleRootAux_of_length_le_one 0 h, computeMerkleRootAux_of_length_le_one fuel' h]
  | succ fuel ih =>
    intro fuel' hashes h h'
    by_cases h2 : 2 ≤ hashes.length
    · -- a pass on each side, then the next level needs one pass less
      obtain ⟨fuel', rfl⟩ : ∃ f, fuel' = f + 1 := ⟨fuel' - 1, by omega⟩
      have hnext := length_merkleLevel Hash64 hashes
      rw [computeMerkleRootAux_succ fuel h2, computeMerkleRootAux_succ fuel' h2,
        ih fuel' _ (by omega) (by omega)]
    · rw [computeMerkleRootAux_of_length_le_one _ (by omega),
        computeMerkleRootAux_of_length_le_one _ (by omega)]

/-- One hash or none: the root is that hash, or zero, and nothing is flagged. -/
theorem computeMerkleRoot_of_length_le_one {hashes : List uint256} (h : hashes.length ≤ 1) :
    computeMerkleRoot Hash64 hashes = (hashes.headD 0, false) :=
  computeMerkleRootAux_of_length_le_one _ h

/-- Two hashes or more: the root of the next level, and its flag with this
level's. -/
theorem computeMerkleRoot_of_two_le {hashes : List uint256} (h : 2 ≤ hashes.length) :
    computeMerkleRoot Hash64 hashes =
      ((computeMerkleRoot Hash64 (merkleLevel Hash64 hashes).1).1,
        (merkleLevel Hash64 hashes).2 || (computeMerkleRoot Hash64 (merkleLevel Hash64 hashes).1).2) := by
  obtain ⟨n, hn⟩ : ∃ n, hashes.length = n + 1 := ⟨hashes.length - 1, by omega⟩
  have hnext := length_merkleLevel Hash64 hashes
  unfold computeMerkleRoot
  rw [hn, computeMerkleRootAux_succ n h,
    computeMerkleRootAux_congr n (merkleLevel Hash64 hashes).1.length _ (by omega) (by omega)]

/-- A pass takes one level off the tree. -/
theorem clog_length_merkleLevel {hashes : List uint256} (h : 2 ≤ hashes.length) :
    Nat.clog 2 (merkleLevel Hash64 hashes).1.length + 1 = Nat.clog 2 hashes.length := by
  have hhalf : (hashes.length + 2 - 1) / 2 = (hashes.length + 1) / 2 := by omega
  rw [length_merkleLevel, Nat.clog_of_two_le one_lt_two h, hhalf]

theorem length_le_one_of_clog_eq_zero {n : ℕ} (h : Nat.clog 2 n = 0) : n ≤ 1 := by
  by_contra hn
  exact absurd h (Nat.clog_pos one_lt_two (by omega)).ne'

theorem two_le_of_clog_eq_succ {n d : ℕ} (h : Nat.clog 2 n = d + 1) : 2 ≤ n := by
  by_contra hn
  rw [Nat.clog_of_right_le_one (by omega)] at h
  omega

/-- Repeating the odd last hash keeps the root and sets the flag: the
duplicated transactions the mutation check is there for. -/
theorem computeMerkleRoot_dup_last (hashes : List uint256) (x : uint256)
    (heven : hashes.length % 2 = 0) (hne : hashes ≠ []) :
    computeMerkleRoot Hash64 (hashes ++ [x, x]) =
      ((computeMerkleRoot Hash64 (hashes ++ [x])).1, true) := by
  have hlen : 2 ≤ hashes.length := by
    cases hashes with
    | nil => exact absurd rfl hne
    | cons _ hashes => simp only [List.length_cons] at heven ⊢; omega
  have hlevel : (merkleLevel Hash64 (hashes ++ [x, x])).1 = (merkleLevel Hash64 (hashes ++ [x])).1 := by
    rw [merkleLevel_append Hash64 hashes [x, x] heven, merkleLevel_append Hash64 hashes [x] heven]
    simp
  have hflag : (merkleLevel Hash64 (hashes ++ [x, x])).2 = true := by
    rw [merkleLevel_append Hash64 hashes [x, x] heven]
    simp
  have h2 : 2 ≤ (hashes ++ [x, x]).length := by
    rw [List.length_append]
    omega
  have h2' : 2 ≤ (hashes ++ [x]).length := by
    rw [List.length_append]
    omega
  rw [computeMerkleRoot_of_two_le h2, computeMerkleRoot_of_two_le h2', hlevel, hflag, Bool.true_or]

/-- Two hashes, then a third one twice: the list of three and the list of
four share a root, and the four are flagged. -/
theorem computeMerkleRoot_dup_last_three :
    ([1, 2] : List uint256).length % 2 = 0 ∧ ([1, 2] : List uint256) ≠ [] ∧
      computeMerkleRoot (· + ·) ([1, 2] ++ [3, 3]) =
        ((computeMerkleRoot (· + ·) ([1, 2] ++ [3])).1, true) :=
  ⟨rfl, by decide, computeMerkleRoot_dup_last [1, 2] 3 rfl (by decide)⟩

/-- Leaves of one depth: two different lists with one root have a flagged
list among them.  By induction on the depth, from the root down. -/
theorem computeMerkleRoot_mutated_of_root_eq (hinj : Function.Injective2 Hash64) :
    ∀ (d : ℕ) (hashes hashes' : List uint256), Nat.clog 2 hashes.length = d →
      Nat.clog 2 hashes'.length = d → hashes ≠ [] → hashes' ≠ [] → hashes ≠ hashes' →
      (computeMerkleRoot Hash64 hashes).1 = (computeMerkleRoot Hash64 hashes').1 →
      (computeMerkleRoot Hash64 hashes).2 = true ∨ (computeMerkleRoot Hash64 hashes').2 = true := by
  intro d
  induction d with
  | zero =>
    -- one leaf each: the root is the leaf
    intro hashes hashes' hd hd' hne hne' hdiff hroot
    have h1 := length_le_one_of_clog_eq_zero hd
    have h1' := length_le_one_of_clog_eq_zero hd'
    rw [computeMerkleRoot_of_length_le_one h1, computeMerkleRoot_of_length_le_one h1'] at hroot
    match hashes, hashes', h1, h1', hne, hne' with
    | [a], [b], _, _, _, _ =>
      simp only [List.headD_cons] at hroot
      exact absurd (by rw [hroot]) hdiff
  | succ d ih =>
    intro hashes hashes' hd hd' hne hne' hdiff hroot
    have h2 := two_le_of_clog_eq_succ hd
    have h2' := two_le_of_clog_eq_succ hd'
    rw [computeMerkleRoot_of_two_le h2, computeMerkleRoot_of_two_le h2'] at hroot ⊢
    simp only [Bool.or_eq_true]
    -- the next levels have depth `d`, are not empty, and share the root
    have hnd : Nat.clog 2 (merkleLevel Hash64 hashes).1.length = d := by
      have := @clog_length_merkleLevel Hash64 _ h2
      omega
    have hnd' : Nat.clog 2 (merkleLevel Hash64 hashes').1.length = d := by
      have := @clog_length_merkleLevel Hash64 _ h2'
      omega
    have hnne : (merkleLevel Hash64 hashes).1 ≠ [] := by
      rw [← List.length_pos_iff, length_merkleLevel]
      omega
    have hnne' : (merkleLevel Hash64 hashes').1 ≠ [] := by
      rw [← List.length_pos_iff, length_merkleLevel]
      omega
    by_cases hnext : (merkleLevel Hash64 hashes).1 = (merkleLevel Hash64 hashes').1
    · -- one level up is the same list: this level holds the equal pair
      rcases eq_or_mutated_of_merkleLevel_eq hinj hnext with heq | hm | hm
      · exact absurd heq hdiff
      · exact Or.inl (Or.inl hm)
      · exact Or.inr (Or.inl hm)
    · rcases ih _ _ hnd hnd' hnne hnne' hnext hroot with hm | hm
      · exact Or.inl (Or.inr hm)
      · exact Or.inr (Or.inr hm)

/-- Distinct leaves are never flagged: every level stays distinct. -/
theorem computeMerkleRoot_snd_of_nodup (hinj : Function.Injective2 Hash64) :
    ∀ (d : ℕ) (hashes : List uint256), Nat.clog 2 hashes.length = d → hashes.Nodup →
      (computeMerkleRoot Hash64 hashes).2 = false := by
  intro d
  induction d with
  | zero =>
    intro hashes hd _
    rw [computeMerkleRoot_of_length_le_one (length_le_one_of_clog_eq_zero hd)]
  | succ d ih =>
    intro hashes hd hnodup
    have h2 := two_le_of_clog_eq_succ hd
    have hnd : Nat.clog 2 (merkleLevel Hash64 hashes).1.length = d := by
      have := @clog_length_merkleLevel Hash64 _ h2
      omega
    rw [computeMerkleRoot_of_two_le h2, merkleLevel_snd_of_nodup Hash64 hnodup,
      ih _ hnd (nodup_merkleLevel hinj hnodup)]
    rfl

/-- Merkle mutation detection is complete for lists of leaves of one depth:
with an injective `Hash64`, two different non-empty lists of the same depth
with the same root have the mutation flag set for one of them, and a list of
distinct leaves is not flagged. -/
theorem computeMerkleRoot_mutation_complete (hinj : Function.Injective2 Hash64)
    (hashes hashes' : List uint256) (hne : hashes ≠ []) (hne' : hashes' ≠ [])
    (hdiff : hashes ≠ hashes') (hdepth : Nat.clog 2 hashes.length = Nat.clog 2 hashes'.length) :
    ((computeMerkleRoot Hash64 hashes).1 = (computeMerkleRoot Hash64 hashes').1 →
      (computeMerkleRoot Hash64 hashes).2 = true ∨ (computeMerkleRoot Hash64 hashes').2 = true) ∧
      (hashes.Nodup → (computeMerkleRoot Hash64 hashes).2 = false) :=
  ⟨computeMerkleRoot_mutated_of_root_eq hinj _ hashes hashes' rfl hdepth.symm hne hne' hdiff,
    computeMerkleRoot_snd_of_nodup hinj _ hashes rfl⟩

/-- With the Cantor pairing as `Hash64`, the leaves `[1, 2, 3]` and
`[1, 2, 3, 3]` have one depth and one root, and the second is flagged. -/
theorem computeMerkleRoot_mutation_complete_pair :
    (computeMerkleRoot Nat.pair [1, 2, 3]).1 = (computeMerkleRoot Nat.pair [1, 2, 3, 3]).1 ∧
      (computeMerkleRoot Nat.pair [1, 2, 3, 3]).2 = true ∧
      (((computeMerkleRoot Nat.pair [1, 2, 3]).1 = (computeMerkleRoot Nat.pair [1, 2, 3, 3]).1 →
        (computeMerkleRoot Nat.pair [1, 2, 3]).2 = true ∨
          (computeMerkleRoot Nat.pair [1, 2, 3, 3]).2 = true) ∧
        ([1, 2, 3].Nodup → (computeMerkleRoot Nat.pair [1, 2, 3]).2 = false)) :=
  ⟨by decide, by decide,
    computeMerkleRoot_mutation_complete (fun _ _ _ _ h => Nat.pair_eq_pair.mp h) [1, 2, 3]
      [1, 2, 3, 3] (by decide) (by decide) (by decide) (by decide)⟩

end Loop

end XPChain
