import Mathlib.Data.List.Basic
import Mathlib.Tactic.Ring
import Mathlib.Tactic.Linarith

/-!
# Big-endian byte strings

The number a byte string denotes when it is read most significant byte
first, as an accumulating loop `acc = acc * 256 + b` reads it.  Leading zero
bytes do not change the value, a string of `k` bytes stays below `256 ^ k`,
and one that starts with a nonzero byte is at least `256 ^ (k - 1)`: the
facts a parser needs that strips leading zeros and copies a value into a
fixed-width field.

## Main definitions

* `beValue bs` — the number a big-endian byte string denotes.
-/

set_option autoImplicit false

namespace BigEndian

/-- The number denoted by a big-endian byte string. -/
def beValue (bs : List UInt8) : ℕ := bs.foldl (fun acc b => acc * 256 + b.toNat) 0

/-- The loop started from an accumulated value: that value moves up past the
bytes read. -/
theorem foldl_eq (acc : ℕ) (bs : List UInt8) :
    bs.foldl (fun acc b => acc * 256 + b.toNat) acc = acc * 256 ^ bs.length + beValue bs := by
  induction bs generalizing acc with
  | nil => simp [beValue]
  | cons b bs ih =>
    rw [beValue, List.foldl_cons, List.foldl_cons, ih, ih, List.length_cons, pow_succ]
    ring

@[simp] theorem beValue_nil : beValue [] = 0 := rfl

@[simp] theorem beValue_cons (b : UInt8) (bs : List UInt8) :
    beValue (b :: bs) = b.toNat * 256 ^ bs.length + beValue bs := by
  rw [beValue, List.foldl_cons, foldl_eq, Nat.zero_mul, Nat.zero_add]

/-- Leading zero bytes do not change the value. -/
@[simp] theorem beValue_replicate_zero_append (k : ℕ) (bs : List UInt8) :
    beValue (List.replicate k 0 ++ bs) = beValue bs := by
  induction k with
  | zero => rfl
  | succ k ih =>
    rw [List.replicate_succ, List.cons_append, beValue_cons, ih, UInt8.toNat_zero, Nat.zero_mul,
      Nat.zero_add]

/-- A byte string starting with a nonzero byte is at least the place value
of that byte. -/
theorem pow_le_beValue_cons {b : UInt8} (hb : b ≠ 0) (bs : List UInt8) :
    256 ^ bs.length ≤ beValue (b :: bs) := by
  have hpos : 1 ≤ b.toNat := by
    rcases Nat.eq_zero_or_pos b.toNat with h | h
    · exact absurd (UInt8.toNat_inj.mp (h.trans UInt8.toNat_zero.symm)) hb
    · exact h
  rw [beValue_cons]
  exact Nat.le_add_right_of_le (Nat.le_mul_of_pos_left _ hpos)

end BigEndian
