import Mathlib.Data.Nat.Bitwise
import Mathlib.Tactic.Ring

/-!
# Little-endian 32-bit limbs

A number held as a list of 32-bit limbs, least significant first, as a
fixed-width integer type stores it.  Carry loops, shifts and comparisons on
such a list are all argued through the number it denotes; the facts they use
about that number are proved here once.

## Main definitions

* `Limbs.value` — the number a limb list denotes.

## Main statements

* `value_append`, `value_lt`, `value_inj` — splitting, bounding and
  injectivity at a fixed length.
* `value_concat_lt`, `log2_value_concat` — the top limb decides the order
  and places the highest set bit.
* `mod_add_mul_mod` — one step of a carry loop: the low digit of a sum and
  the reduced rest make up the reduced whole.
* `testBit_value` — bit `n` of the value is bit `n % 32` of limb `n / 32`.
-/

set_option autoImplicit false

namespace Limbs

/-- The number a list of 32-bit limbs denotes, least significant limb first. -/
def value : List UInt32 → ℕ
  | [] => 0
  | x :: xs => x.toNat + 2 ^ 32 * value xs

@[simp] theorem value_nil : value [] = 0 := rfl

@[simp] theorem value_cons (x : UInt32) (xs : List UInt32) :
    value (x :: xs) = x.toNat + 2 ^ 32 * value xs := rfl

theorem value_append (xs ys : List UInt32) :
    value (xs ++ ys) = value xs + 2 ^ (32 * xs.length) * value ys := by
  induction xs with
  | nil => simp
  | cons x xs ih =>
    rw [List.cons_append, value_cons, value_cons, ih, List.length_cons, Nat.mul_succ, Nat.pow_add]
    ring

theorem value_lt (xs : List UInt32) : value xs < 2 ^ (32 * xs.length) := by
  induction xs with
  | nil => simp
  | cons x xs ih =>
    have hx := x.toNat_lt
    calc value (x :: xs) = x.toNat + 2 ^ 32 * value xs := rfl
      _ < 2 ^ 32 * (value xs + 1) := by omega
      _ ≤ 2 ^ 32 * 2 ^ (32 * xs.length) := Nat.mul_le_mul_left _ ih
      _ = 2 ^ (32 * (x :: xs).length) := by rw [List.length_cons, Nat.mul_succ, Nat.pow_add, Nat.mul_comm]

@[simp] theorem value_replicate_zero (n : ℕ) : value (List.replicate n 0) = 0 := by
  induction n with
  | zero => rfl
  | succ n ih => rw [List.replicate_succ, value_cons, ih]; rfl

/-- Lists of one length with one value are equal. -/
theorem value_inj {xs ys : List UInt32} (hlen : xs.length = ys.length) (h : value xs = value ys) :
    xs = ys := by
  induction xs generalizing ys with
  | nil => exact (List.eq_nil_of_length_eq_zero hlen.symm).symm
  | cons x xs ih =>
    obtain ⟨y, ys, rfl⟩ := List.exists_cons_of_length_eq_add_one hlen.symm
    rw [value_cons, value_cons] at h
    have hx := x.toNat_lt
    have hy := y.toNat_lt
    have hxy : x.toNat = y.toNat := by omega
    rw [UInt32.toNat_inj.mp hxy, ih (by simpa using hlen) (by omega)]

theorem value_eq_zero_iff (xs : List UInt32) : value xs = 0 ↔ ∀ x ∈ xs, x = 0 := by
  induction xs with
  | nil => simp
  | cons x xs ih =>
    rw [value_cons, List.forall_mem_cons, ← ih, ← UInt32.toNat_inj, UInt32.toNat_zero]
    omega

theorem value_take_add_drop (xs : List UInt32) (j : ℕ) :
    value xs = value (xs.take j) + 2 ^ (32 * (xs.take j).length) * value (xs.drop j) := by
  rw [← value_append, List.take_append_drop]

/-- Of two lists of one length, the one with the larger top limb has the larger
value, whatever the limbs below. -/
theorem value_concat_lt {xs ys : List UInt32} (hlen : xs.length = ys.length) {x y : UInt32}
    (h : x.toNat < y.toNat) : value (xs ++ [x]) < value (ys ++ [y]) := by
  have hx := value_lt xs
  have hy := value_lt ys
  have htop := Nat.mul_le_mul_left (2 ^ (32 * xs.length)) (Nat.succ_le_of_lt h)
  rw [value_append, value_append, ← hlen]
  rw [← hlen] at hy
  simp only [value_cons, value_nil, Nat.mul_zero, Nat.add_zero]
  rw [Nat.mul_succ] at htop
  omega

/-- A nonzero top limb places the highest set bit of the value. -/
theorem log2_value_concat (xs : List UInt32) {x : UInt32} (hx : x ≠ 0) :
    Nat.log2 (value (xs ++ [x])) = 32 * xs.length + Nat.log2 x.toNat := by
  have hx0 : x.toNat ≠ 0 := fun h => hx (UInt32.toNat_inj.mp h)
  have hv := value_lt xs
  have hlo := Nat.mul_le_mul_left (2 ^ (32 * xs.length)) (Nat.log2_self_le hx0)
  have hhi := Nat.mul_le_mul_left (2 ^ (32 * xs.length)) (Nat.succ_le_of_lt (Nat.lt_log2_self (n := x.toNat)))
  have hpos : 0 < 2 ^ (32 * xs.length) * x.toNat := Nat.mul_pos (Nat.two_pow_pos _) (Nat.pos_of_ne_zero hx0)
  rw [Nat.mul_succ] at hhi
  rw [value_append]
  simp only [value_cons, value_nil, Nat.mul_zero, Nat.add_zero]
  rw [Nat.log2_eq_iff (by omega), Nat.add_assoc, Nat.pow_add, Nat.pow_add]
  constructor <;> omega

/-- One step of a carry loop: the low digit of `n`, and the rest of the sum
reduced at the next width, make up the whole sum reduced. -/
theorem mod_add_mul_mod (n m : ℕ) {b : ℕ} (hb : 0 < b) (c : ℕ) :
    n % b + b * ((n / b + m) % c) = (n + b * m) % (b * c) := by
  rw [Nat.mod_mul, Nat.add_mul_mod_self_left, Nat.add_mul_div_left _ _ hb]

/-- Bit `n` of the value is bit `n % 32` of limb `n / 32`, and clear past the
last limb. -/
theorem testBit_value (xs : List UInt32) (n : ℕ) :
    (value xs).testBit n = (xs.getD (n / 32) 0).toNat.testBit (n % 32) := by
  induction xs generalizing n with
  | nil => simp
  | cons x xs ih =>
    rw [value_cons, Nat.add_comm, Nat.testBit_two_pow_mul_add _ x.toNat_lt]
    split_ifs with hn
    · rw [Nat.div_eq_of_lt hn, Nat.mod_eq_of_lt hn]
      rfl
    · rw [ih, show n / 32 = (n - 32) / 32 + 1 by omega, show n % 32 = (n - 32) % 32 by omega]
      rfl

/-! ## Limbs written in place -/

@[simp] theorem getD_replicate_zero (n m : ℕ) : (List.replicate n (0 : UInt32)).getD m 0 = 0 := by
  rw [List.getD_eq_getElem?_getD, List.getElem?_replicate]
  split <;> rfl

/-- `pn[j] |= v` changes limb `j` alone. -/
theorem getD_modify_or (pn : List UInt32) {j : ℕ} (hj : j < pn.length) (v : UInt32) (m : ℕ) :
    (pn.modify j (· ||| v)).getD m 0 = if j = m then pn.getD m 0 ||| v else pn.getD m 0 := by
  rw [List.getD_eq_getElem?_getD, List.getElem?_modify, List.getD_eq_getElem?_getD]
  by_cases hjm : j = m
  · subst hjm
    rw [List.getElem?_eq_getElem hj]
    simp
  · cases pn[m]? <;> simp [hjm]

end Limbs
