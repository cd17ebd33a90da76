import Mathlib.Data.List.Infix

/-!
# Paths in a binary decision tree

A depth-first search over the subsets of a list walks a binary tree: the
path `c : List Bool` says, for each element in turn, whether the search
includes it.  Taking the inclusion branch first, the search has left behind
exactly the leaves `S` that agree with the path up to some index where `S`
includes and the path excludes (`Passed c S`).

Each move of such a search changes the passed region by a whole subtree:
going down adds nothing (`passed_append_true`), going down the exclusion
branch adds the inclusion subtree beside it (`passed_append_false`), and
backtracking from a node adds the node's subtree (`passed_backtrack`).  When
the path is all exclusions and the search walks back to the root, every
leaf has been passed or lies below the node it left (`passed_or_prefix_replicate`).

## Main definitions

* `TreePath.Passed` — the leaves a depth-first search has left behind.
-/

set_option autoImplicit false

namespace TreePath

/-- The leaf `S` lies before the path `p` in depth-first order, the
inclusion branch first: the two agree up to an index where `S` includes
and `p` excludes. -/
def Passed (p S : List Bool) : Prop :=
  ∃ i, i < p.length ∧ S.take i = p.take i ∧ S[i]? = some true ∧ p[i]? = some false

/-- A path is all exclusions, or its last inclusion is followed by
exclusions only. -/
theorem path_cases (c : List Bool) :
    (∃ m, c = List.replicate m false) ∨ ∃ P m, c = P ++ [true] ++ List.replicate m false := by
  induction c using List.reverseRecOn with
  | nil => exact .inl ⟨0, rfl⟩
  | append_singleton c b ih =>
    cases b
    · rcases ih with ⟨m, rfl⟩ | ⟨P, m, rfl⟩
      · exact .inl ⟨m + 1, by rw [List.replicate_succ']⟩
      · exact .inr ⟨P, m + 1, by rw [List.replicate_succ', List.append_assoc]⟩
    · exact .inr ⟨c, 0, by simp⟩

theorem not_passed_nil (S : List Bool) : ¬ Passed [] S := by
  rintro ⟨i, hi, -⟩
  exact Nat.not_lt_zero i hi

/-- A path extended by one step is a prefix of `S` when `S` agrees with the
path and then takes that step. -/
theorem prefix_append_singleton_iff {α : Type*} (c S : List α) (b : α) :
    c ++ [b] <+: S ↔ S.take c.length = c ∧ S[c.length]? = some b := by
  constructor
  · rintro ⟨t, rfl⟩
    simp
  · rintro ⟨htake, hb⟩
    obtain ⟨rest, hrest⟩ : ∃ rest, S.drop c.length = b :: rest := by
      have hlt : c.length < S.length := (List.getElem?_eq_some_iff.mp hb).1
      refine ⟨S.drop (c.length + 1), ?_⟩
      rw [List.drop_eq_getElem_cons hlt, Option.some_inj.mp ((List.getElem?_eq_getElem hlt).symm.trans hb)]
    refine ⟨rest, ?_⟩
    rw [← List.take_append_drop c.length S, htake, hrest, List.append_assoc, List.singleton_append]

/-- Passing index `i` of `p ++ d`, for `i` inside `p`, is passing it in `p`. -/
theorem passed_at_append {p d S : List Bool} {i : ℕ} (hi : i < p.length) :
    (S.take i = (p ++ d).take i ∧ S[i]? = some true ∧ (p ++ d)[i]? = some false) ↔
      (S.take i = p.take i ∧ S[i]? = some true ∧ p[i]? = some false) := by
  rw [List.take_append_of_le_length hi.le, List.getElem?_append_left hi]

/-- Extending the path by one step passes the leaves the new step excludes
and no others. -/
theorem passed_append_singleton (c S : List Bool) (b : Bool) :
    Passed (c ++ [b]) S ↔ Passed c S ∨ (b = false ∧ c ++ [true] <+: S) := by
  constructor
  · rintro ⟨i, hi, hpass⟩
    rw [List.length_append, List.length_singleton] at hi
    rcases Nat.lt_succ_iff_lt_or_eq.mp hi with hi | rfl
    · exact .inl ⟨i, hi, (passed_at_append hi).mp hpass⟩
    · obtain ⟨htake, hS, hb⟩ := hpass
      rw [List.getElem?_append_right (le_refl _), Nat.sub_self, List.getElem?_cons_zero] at hb
      rw [List.take_append_of_le_length (le_refl _), List.take_length] at htake
      exact .inr ⟨Option.some_inj.mp hb, (prefix_append_singleton_iff c S true).mpr ⟨htake, hS⟩⟩
  · rintro (⟨i, hi, hpass⟩ | ⟨rfl, hpre⟩)
    · exact ⟨i, by simp; omega, (passed_at_append hi).mpr hpass⟩
    · obtain ⟨htake, hS⟩ := (prefix_append_singleton_iff c S true).mp hpre
      refine ⟨c.length, by simp, ?_, hS, ?_⟩
      · rw [List.take_append_of_le_length (le_refl _), List.take_length, htake]
      · rw [List.getElem?_append_right (le_refl _), Nat.sub_self, List.getElem?_cons_zero]

theorem passed_append_true (c S : List Bool) : Passed (c ++ [true]) S ↔ Passed c S := by
  rw [passed_append_singleton]
  simp

theorem passed_append_false (c S : List Bool) : Passed (c ++ [false]) S ↔ Passed c S ∨ c ++ [true] <+: S := by
  rw [passed_append_singleton]
  simp

/-- Below a node that is not a leaf, a leaf takes one branch or the other. -/
theorem prefix_split (d S : List Bool) (hlen : d.length < S.length) :
    d <+: S ↔ d ++ [false] <+: S ∨ d ++ [true] <+: S := by
  constructor
  · intro hd
    have htake : S.take d.length = d := (List.prefix_iff_eq_take.mp hd).symm
    cases hb : S[d.length]
    · exact .inl ((prefix_append_singleton_iff d S false).mpr ⟨htake, by rw [List.getElem?_eq_getElem hlen, hb]⟩)
    · exact .inr ((prefix_append_singleton_iff d S true).mpr ⟨htake, by rw [List.getElem?_eq_getElem hlen, hb]⟩)
  · rintro (h | h)
    · exact (List.prefix_append d [false]).trans h
    · exact (List.prefix_append d [true]).trans h

/-- Below `c`, a leaf long enough either follows `m` exclusions or leaves
them for an inclusion after `j < m` of them. -/
theorem prefix_cases (c S : List Bool) :
    ∀ m, c.length + m ≤ S.length →
      (c <+: S ↔ c ++ List.replicate m false <+: S ∨ ∃ j < m, c ++ List.replicate j false ++ [true] <+: S)
  | 0, _ => by simp
  | m + 1, hlen => by
    rw [prefix_cases c S m (by omega), List.replicate_succ', ← List.append_assoc,
      prefix_split (c ++ List.replicate m false) S (by simp; omega)]
    constructor
    · rintro ((h | h) | ⟨j, hj, h⟩)
      · exact .inl h
      · exact .inr ⟨m, Nat.lt_succ_self m, h⟩
      · exact .inr ⟨j, Nat.lt_succ_of_lt hj, h⟩
    · rintro (h | ⟨j, hj, h⟩)
      · exact .inl (.inl h)
      · rcases Nat.lt_succ_iff_lt_or_eq.mp hj with hj | rfl
        · exact .inr ⟨j, hj, h⟩
        · exact .inl (.inr h)

/-- Exchanging the exclusion at the end of `P ++ [false]` with an inclusion
right after it gives a leaf the path has passed. -/
theorem passed_swap (P R : List Bool) : Passed (P ++ [false]) (P ++ true :: false :: R) := by
  refine ⟨P.length, by simp, ?_, ?_, ?_⟩
  · rw [List.take_append_of_le_length (le_refl _), List.take_append_of_le_length (le_refl _)]
  · rw [List.getElem?_append_right (le_refl _), Nat.sub_self, List.getElem?_cons_zero]
  · rw [List.getElem?_append_right (le_refl _), Nat.sub_self, List.getElem?_cons_zero]

/-- Going down `m` exclusion branches passes the inclusion subtrees beside them. -/
theorem passed_append_replicate_false (c S : List Bool) :
    ∀ m, Passed (c ++ List.replicate m false) S ↔
      Passed c S ∨ ∃ j < m, c ++ List.replicate j false ++ [true] <+: S
  | 0 => by simp
  | m + 1 => by
    rw [List.replicate_succ', ← List.append_assoc, passed_append_false, passed_append_replicate_false c S m]
    constructor
    · rintro ((h | ⟨j, hj, h⟩) | h)
      · exact .inl h
      · exact .inr ⟨j, Nat.lt_succ_of_lt hj, h⟩
      · exact .inr ⟨m, Nat.lt_succ_self m, h⟩
    · rintro (h | ⟨j, hj, h⟩)
      · exact .inl (.inl h)
      · rcases Nat.lt_succ_iff_lt_or_eq.mp hj with hj | rfl
        · exact .inl (.inr ⟨j, hj, h⟩)
        · exact .inr h

/-- Backtracking from the node `P ++ [true] ++ [false]^m` to its last
inclusion, now excluded, passes the node's whole subtree. -/
theorem passed_backtrack (P S : List Bool) (m : ℕ) (hlen : P.length + 1 + m ≤ S.length) :
    Passed (P ++ [false]) S ↔
      Passed (P ++ [true] ++ List.replicate m false) S ∨ P ++ [true] ++ List.replicate m false <+: S := by
  rw [passed_append_false, passed_append_replicate_false, passed_append_true,
    prefix_cases (P ++ [true]) S m (by simp; omega)]
  constructor
  · rintro (h | h | h)
    · exact .inl (.inl h)
    · exact .inr h
    · exact .inl (.inr h)
  · rintro ((h | h) | h)
    · exact .inl h
    · exact .inr (.inr h)
    · exact .inr (.inl h)

/-- Walking back from `m` exclusions to the root, the search has passed
every leaf outside the node it leaves. -/
theorem passed_or_prefix_replicate (S : List Bool) (m : ℕ) (hlen : m ≤ S.length) :
    Passed (List.replicate m false) S ∨ List.replicate m false <+: S := by
  have hpass := passed_append_replicate_false [] S m
  have hcases := prefix_cases [] S m (by simpa using hlen)
  simp only [List.nil_append] at hpass hcases
  rcases hcases.mp (List.nil_prefix) with h | h
  · exact .inr h
  · exact .inl (hpass.mpr (.inr h))

end TreePath
