import Mathlib.Algebra.Order.BigOperators.Group.List
import Mathlib.Tactic.Abel

/-!
# Selections by a vector of flags

A vector of flags `vf : List Bool` picks the elements of a list `xs` at the
positions where it holds `true`, as the bit vectors of a subset-sum search
do.  `selected xs vf` is the picked sublist and `selectedSum f xs vf` the total
of `f` over it.  Setting one flag changes the total by the one element, so a
search that keeps its running total beside its flags keeps it exact
(`selectedSum_set`).

## Main definitions

* `Selection.selected`, `Selection.selectedSum`.

## Main statements

* `selectedSum_set` — setting one flag.
* `selectedSum_replicate_true`, `selectedSum_replicate_false` — all or nothing.
* `selectedSum_le_sum` — a selection of nonnegative values is at most their total.
-/

set_option autoImplicit false

namespace Selection

variable {α M : Type*}

/-- The elements of `xs` whose flag in `vf` is `true`, in order. -/
def selected : List α → List Bool → List α
  | x :: xs, b :: vf => if b then x :: selected xs vf else selected xs vf
  | _, _ => []

@[simp] theorem selected_nil_left (vf : List Bool) : selected ([] : List α) vf = [] := rfl

@[simp] theorem selected_nil_right (xs : List α) : selected xs [] = [] := by
  cases xs <;> rfl

@[simp] theorem selected_cons_cons (x : α) (xs : List α) (b : Bool) (vf : List Bool) :
    selected (x :: xs) (b :: vf) = if b then x :: selected xs vf else selected xs vf := rfl

theorem selected_sublist : ∀ (xs : List α) (vf : List Bool), (selected xs vf).Sublist xs
  | [], _ => List.nil_sublist _
  | _ :: _, [] => List.nil_sublist _
  | x :: xs, b :: vf => by
    cases b
    · exact (selected_sublist xs vf).cons x
    · exact (selected_sublist xs vf).cons_cons x

@[simp] theorem selected_replicate_true : ∀ (xs : List α), selected xs (List.replicate xs.length true) = xs
  | [] => rfl
  | x :: xs => by
    rw [List.length_cons, List.replicate_succ, selected_cons_cons, if_pos rfl, selected_replicate_true xs]

@[simp] theorem selected_replicate_false : ∀ (xs : List α) (n : ℕ), selected xs (List.replicate n false) = []
  | [], _ => rfl
  | _ :: _, 0 => rfl
  | _ :: xs, n + 1 => by
    rw [List.replicate_succ, selected_cons_cons, if_neg Bool.false_ne_true]
    exact selected_replicate_false xs n

/-- Every sublist is picked by a vector of flags as long as the list. -/
theorem exists_flags_of_sublist {ys xs : List α} (h : ys.Sublist xs) :
    ∃ vf : List Bool, vf.length = xs.length ∧ selected xs vf = ys := by
  induction h with
  | slnil => exact ⟨[], rfl, rfl⟩
  | cons x _ ih =>
    obtain ⟨vf, hlen, hsel⟩ := ih
    exact ⟨false :: vf, by simp [hlen], by simp [hsel]⟩
  | cons_cons x _ ih =>
    obtain ⟨vf, hlen, hsel⟩ := ih
    exact ⟨true :: vf, by simp [hlen], by simp [hsel]⟩

section Sum

variable [AddCommMonoid M] (f : α → M)

/-- The total of `f` over the elements `vf` picks. -/
def selectedSum (xs : List α) (vf : List Bool) : M := ((selected xs vf).map f).sum

@[simp] theorem selectedSum_nil_left (vf : List Bool) : selectedSum f [] vf = 0 := rfl

@[simp] theorem selectedSum_nil_right (xs : List α) : selectedSum f xs [] = 0 := by
  rw [selectedSum, selected_nil_right, List.map_nil, List.sum_nil]

@[simp] theorem selectedSum_cons_cons (x : α) (xs : List α) (b : Bool) (vf : List Bool) :
    selectedSum f (x :: xs) (b :: vf) = (if b then f x else 0) + selectedSum f xs vf := by
  cases b <;> simp [selectedSum]

@[simp] theorem selectedSum_replicate_true (xs : List α) :
    selectedSum f xs (List.replicate xs.length true) = (xs.map f).sum := by
  rw [selectedSum, selected_replicate_true]

@[simp] theorem selectedSum_replicate_false (xs : List α) (n : ℕ) :
    selectedSum f xs (List.replicate n false) = 0 := by
  rw [selectedSum, selected_replicate_false, List.map_nil, List.sum_nil]

/-- The flags of a path and of its continuation select from the list and
from what is left of it. -/
theorem selectedSum_append : ∀ (xs : List α) (c d : List Bool),
    selectedSum f xs (c ++ d) = selectedSum f xs c + selectedSum f (xs.drop c.length) d
  | [], c, d => by simp
  | _ :: _, [], d => by simp [selectedSum]
  | x :: xs, b :: c, d => by
    rw [List.cons_append, selectedSum_cons_cons, selectedSum_cons_cons, selectedSum_append xs c d,
      List.length_cons, List.drop_succ_cons, add_assoc]

/-- One more flag on a path counts the element it lands on. -/
theorem selectedSum_snoc (xs : List α) (c : List Bool) (b : Bool) (h : c.length < xs.length) :
    selectedSum f xs (c ++ [b]) = selectedSum f xs c + if b then f xs[c.length] else 0 := by
  rw [selectedSum_append, List.drop_eq_getElem_cons h, selectedSum_cons_cons, selectedSum_nil_right, add_zero]

@[simp] theorem selectedSum_append_replicate_false (xs : List α) (c : List Bool) (m : ℕ) :
    selectedSum f xs (c ++ List.replicate m false) = selectedSum f xs c := by
  rw [selectedSum_append, selectedSum_replicate_false, add_zero]

/-- Exchanging two neighbouring flags changes nothing when the two elements
count the same. -/
theorem selectedSum_swap (xs : List α) (P R : List Bool) (x y : α) (B : List α)
    (hxs : xs.drop P.length = x :: y :: B) (hxy : f x = f y) :
    selectedSum f xs (P ++ false :: true :: R) = selectedSum f xs (P ++ true :: false :: R) := by
  rw [selectedSum_append, selectedSum_append, hxs]
  simp [hxy]

end Sum

/-- Setting the flag at `i` takes out what the old flag counted and puts in
what the new one counts. -/
theorem selectedSum_set [AddCommGroup M] (f : α → M) :
    ∀ (xs : List α) (vf : List Bool) (i : ℕ) (hx : i < xs.length) (hv : i < vf.length) (b : Bool),
      selectedSum f xs (vf.set i b) =
        selectedSum f xs vf - (if vf[i] then f xs[i] else 0) + (if b then f xs[i] else 0)
  | [], _, _, hx, _, _ => absurd hx (Nat.not_lt_zero _)
  | _ :: _, [], _, _, hv, _ => absurd hv (Nat.not_lt_zero _)
  | x :: xs, c :: vf, 0, _, _, b => by
    simp only [List.set_cons_zero, selectedSum_cons_cons, List.getElem_cons_zero]
    abel
  | x :: xs, c :: vf, i + 1, hx, hv, b => by
    have ih := selectedSum_set f xs vf i (Nat.lt_of_succ_lt_succ hx) (Nat.lt_of_succ_lt_succ hv) b
    simp only [List.set_cons_succ, selectedSum_cons_cons, List.getElem_cons_succ, ih]
    abel

section Order

variable {N : Type*} [AddCommMonoid N] [PartialOrder N] [IsOrderedAddMonoid N]

theorem selectedSum_nonneg (f : α → N) (xs : List α) (vf : List Bool) (hf : ∀ x ∈ xs, 0 ≤ f x) :
    0 ≤ selectedSum f xs vf := by
  apply List.sum_nonneg
  intro y hy
  obtain ⟨x, hx, rfl⟩ := List.mem_map.mp hy
  exact hf x ((selected_sublist xs vf).subset hx)

theorem selectedSum_mono (f g : α → N) (xs : List α) (vf : List Bool) (hfg : ∀ x ∈ xs, f x ≤ g x) :
    selectedSum f xs vf ≤ selectedSum g xs vf :=
  List.sum_le_sum fun x hx => hfg x ((selected_sublist xs vf).subset hx)

end Order

/-- A selection of nonnegative values is at most their total. -/
theorem selectedSum_le_sum {N : Type*} [AddCommMonoid N] [PartialOrder N] [IsOrderedAddMonoid N]
    (f : α → N) (xs : List α) (vf : List Bool) (hf : ∀ x ∈ xs, 0 ≤ f x) :
    selectedSum f xs vf ≤ (xs.map f).sum := by
  apply ((selected_sublist xs vf).map f).sum_le_sum
  intro y hy
  obtain ⟨x, hx, rfl⟩ := List.mem_map.mp hy
  exact hf x hx

end Selection
