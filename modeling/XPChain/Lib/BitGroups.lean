import Mathlib.Data.List.Induction
import Mathlib.Tactic.Ring

/-!
# Numbers written in groups of bits

A list of groups of `w` bits, most significant group first, spells the
number `value w xs`, as an accumulating loop `acc = (acc << w) | x` reads it.
Converting between two group widths keeps the number and changes the groups:
the groups of one width are the number's digits in base `2 ^ w`, so two lists
of groups of one width and one length that spell one number are equal
(`value_inj`).

The loops that regroup keep the bits not yet written in the low bits of an
accumulator; `mod_two_pow_split` takes the top group off those bits.

## Main definitions

* `BitGroups.value` — the number a list of groups spells.

## Main statements

* `value_append`, `value_lt`, `value_inj`.
-/

set_option autoImplicit false

namespace BitGroups

/-- The number spelt by the groups `xs` of `w` bits, most significant group
first. -/
def value (w : ℕ) (xs : List ℕ) : ℕ := xs.foldl (fun acc x => acc * 2 ^ w + x) 0

variable (w : ℕ)

theorem foldl_eq (acc : ℕ) (xs : List ℕ) :
    xs.foldl (fun acc x => acc * 2 ^ w + x) acc = acc * 2 ^ (w * xs.length) + value w xs := by
  induction xs generalizing acc with
  | nil => simp [value]
  | cons x xs ih =>
    rw [value, List.foldl_cons, List.foldl_cons, ih, ih, List.length_cons, Nat.mul_succ, Nat.pow_add]
    ring

@[simp] theorem value_nil : value w [] = 0 := rfl

theorem value_append (xs ys : List ℕ) :
    value w (xs ++ ys) = value w xs * 2 ^ (w * ys.length) + value w ys := by
  rw [value, List.foldl_append, foldl_eq]
  rfl

@[simp] theorem value_append_singleton (xs : List ℕ) (x : ℕ) :
    value w (xs ++ [x]) = value w xs * 2 ^ w + x := by
  rw [value_append, List.length_singleton, Nat.mul_one]
  simp [value]

theorem value_lt {xs : List ℕ} (h : ∀ x ∈ xs, x < 2 ^ w) : value w xs < 2 ^ (w * xs.length) := by
  induction xs using List.reverseRecOn with
  | nil => simp
  | append_singleton xs x ih =>
    have hxs := ih fun y hy => h y (List.mem_append_left _ hy)
    have hx := h x (List.mem_append_right _ (List.mem_singleton_self x))
    rw [value_append_singleton, List.length_append, List.length_singleton, Nat.mul_add, Nat.mul_one,
      Nat.pow_add]
    calc value w xs * 2 ^ w + x < value w xs * 2 ^ w + 2 ^ w := Nat.add_lt_add_left hx _
      _ = (value w xs + 1) * 2 ^ w := by ring
      _ ≤ 2 ^ (w * xs.length) * 2 ^ w := Nat.mul_le_mul_right _ hxs

/-- Two lists of groups of one length spell one number only if they are
equal: the last group is the number modulo `2 ^ w`. -/
theorem value_inj {xs ys : List ℕ} (hxs : ∀ x ∈ xs, x < 2 ^ w) (hys : ∀ y ∈ ys, y < 2 ^ w)
    (hlen : xs.length = ys.length) (h : value w xs = value w ys) : xs = ys := by
  induction xs using List.reverseRecOn generalizing ys with
  | nil =>
    rw [List.length_nil, eq_comm, List.length_eq_zero_iff] at hlen
    exact hlen.symm
  | append_singleton xs x ih =>
    induction ys using List.reverseRecOn with
    | nil => simp at hlen
    | append_singleton ys y _ =>
      have hx := hxs x (List.mem_append_right _ (List.mem_singleton_self x))
      have hy := hys y (List.mem_append_right _ (List.mem_singleton_self y))
      rw [value_append_singleton, value_append_singleton] at h
      -- the last groups are the remainders, the rest the quotients
      have hxy : x = y := by
        have := congrArg (· % 2 ^ w) h
        simpa [Nat.mul_add_mod, Nat.mod_eq_of_lt hx, Nat.mod_eq_of_lt hy] using this
      subst hxy
      have hrest : xs = ys :=
        ih (fun z hz => hxs z (List.mem_append_left _ hz)) (fun z hz => hys z (List.mem_append_left _ hz))
          (by simpa using hlen) (Nat.eq_of_mul_eq_mul_right (Nat.two_pow_pos w) (Nat.add_right_cancel h))
      rw [hrest]

/-- A group written below a shifted number: the or of disjoint bits is
their exclusive or and their sum. -/
theorem shiftLeft_xor_eq_add (a : ℕ) {b k : ℕ} (hb : b < 2 ^ k) : a <<< k ^^^ b = a <<< k + b := by
  rw [Nat.shiftLeft_add_eq_or_of_lt hb]
  apply Nat.eq_of_testBit_eq
  intro i
  rw [Nat.testBit_xor, Nat.testBit_or, Nat.testBit_shiftLeft]
  by_cases hi : k ≤ i
  · -- above the group only the shifted number has bits
    rw [Nat.testBit_lt_two_pow (Nat.lt_of_lt_of_le hb (Nat.pow_le_pow_right (by decide) hi))]
    simp
  · simp [hi]

/-- The low `b` bits of `a` are the group of their top `t` bits followed by
the `b - t` bits below it. -/
theorem mod_two_pow_split (a b t : ℕ) :
    a % 2 ^ b = a % 2 ^ b / 2 ^ (b - t) * 2 ^ (b - t) + a % 2 ^ (b - t) := by
  have hdvd : 2 ^ (b - t) ∣ 2 ^ b := Nat.pow_dvd_pow 2 (Nat.sub_le b t)
  calc a % 2 ^ b = a % 2 ^ b / 2 ^ (b - t) * 2 ^ (b - t) + a % 2 ^ b % 2 ^ (b - t) := (Nat.div_add_mod' _ _).symm
    _ = a % 2 ^ b / 2 ^ (b - t) * 2 ^ (b - t) + a % 2 ^ (b - t) := by rw [Nat.mod_mod_of_dvd a hdvd]

end BitGroups
