import Mathlib.Data.List.Basic
import Mathlib.Tactic.Ring
import Mathlib.Tactic.Linarith
import Mathlib.Data.Nat.Bitwise

/-!
# Little-endian byte strings

Fixed-width little-endian encodings of natural numbers, and the reading back of
a byte string as a number.  Every wire format below this point (length prefixes
of data pushes, serialised integers, compact targets) is built from these two
functions, so their round-trip and injectivity lemmas are proved once here.

Widths are arbitrary naturals and bytes are `UInt8`: an encoding at width `w`
keeps the value modulo `256 ^ w`, which is exactly what a C `WriteLE32` of a
wider value does.

## Main definitions

* `leBytes w n` — the `w` low-order bytes of `n`, least significant first.
* `leValue bs` — the number a little-endian byte string denotes.
-/

set_option autoImplicit false

namespace LittleEndian

/-- The `w` low-order bytes of `n`, least significant first. -/
def leBytes : ℕ → ℕ → List UInt8
  | 0, _ => []
  | w + 1, n => UInt8.ofNat (n % 256) :: leBytes w (n / 256)

/-- The number denoted by a little-endian byte string. -/
def leValue : List UInt8 → ℕ
  | [] => 0
  | b :: bs => b.toNat + 256 * leValue bs

@[simp] theorem leBytes_zero (n : ℕ) : leBytes 0 n = [] := rfl

theorem leBytes_succ (w n : ℕ) :
    leBytes (w + 1) n = UInt8.ofNat (n % 256) :: leBytes w (n / 256) := rfl

@[simp] theorem leValue_nil : leValue [] = 0 := rfl

@[simp] theorem leValue_cons (b : UInt8) (bs : List UInt8) :
    leValue (b :: bs) = b.toNat + 256 * leValue bs := rfl

@[simp] theorem length_leBytes (w n : ℕ) : (leBytes w n).length = w := by
  induction w generalizing n with
  | zero => rfl
  | succ w ih => simp [leBytes_succ, ih]

private theorem toNat_ofNat_mod (n : ℕ) : (UInt8.ofNat (n % 256)).toNat = n % 256 := by
  rw [UInt8.toNat_ofNat']
  omega

/-- Reading an encoding back gives the value modulo the width's range. -/
theorem leValue_leBytes (w n : ℕ) : leValue (leBytes w n) = n % 256 ^ w := by
  induction w generalizing n with
  | zero => simp [Nat.mod_one]
  | succ w ih =>
    rw [leBytes_succ, leValue_cons, ih, toNat_ofNat_mod, pow_succ, Nat.mul_comm _ 256,
      Nat.mod_mul]

/-- A byte string of length `w` denotes a number below `256 ^ w`. -/
theorem leValue_lt (bs : List UInt8) : leValue bs < 256 ^ bs.length := by
  induction bs with
  | nil => simp
  | cons b bs ih =>
    have hb : b.toNat < 256 := b.toNat_lt
    simp only [leValue_cons, List.length_cons, pow_succ]
    nlinarith

/-- Encoding at the string's own width recovers the string. -/
theorem leBytes_leValue (bs : List UInt8) : leBytes bs.length (leValue bs) = bs := by
  induction bs with
  | nil => rfl
  | cons b bs ih =>
    have hb : b.toNat < 256 := b.toNat_lt
    have hmod : (b.toNat + 256 * leValue bs) % 256 = b.toNat := by omega
    have hdiv : (b.toNat + 256 * leValue bs) / 256 = leValue bs := by omega
    simp only [List.length_cons, leBytes_succ, leValue_cons, hmod, hdiv, ih,
      UInt8.ofNat_toNat]

theorem leValue_leBytes_of_lt {w n : ℕ} (h : n < 256 ^ w) : leValue (leBytes w n) = n := by
  rw [leValue_leBytes, Nat.mod_eq_of_lt h]

theorem leValue_append (xs ys : List UInt8) :
    leValue (xs ++ ys) = leValue xs + 256 ^ xs.length * leValue ys := by
  induction xs with
  | nil => simp
  | cons x xs ih =>
    simp only [List.cons_append, leValue_cons, ih, List.length_cons, pow_succ]
    ring

/-- A byte string denotes at least its last byte at that byte's place value. -/
theorem le_leValue_of_getLast? {bs : List UInt8} {c : UInt8} (h : bs.getLast? = some c) :
    c.toNat * 256 ^ (bs.length - 1) ≤ leValue bs := by
  obtain ⟨ys, rfl⟩ : ∃ ys, bs = ys ++ [c] := List.getLast?_eq_some_iff.mp h
  rw [leValue_append]
  simp [Nat.mul_comm]

/-- A byte string whose last byte is not zero denotes a positive number. -/
theorem leValue_pos {l : List UInt8} (hne : l ≠ []) (hl : l.getLast? ≠ some 0) : 0 < leValue l := by
  obtain ⟨c, hc⟩ := Option.ne_none_iff_exists'.mp (mt List.getLast?_eq_none_iff.mp hne)
  have hc0 : c ≠ 0 := fun h => hl (h ▸ hc)
  have hpos : 0 < c.toNat := by
    rw [Nat.pos_iff_ne_zero, ne_eq, ← UInt8.toNat_zero, UInt8.toNat_inj]
    exact hc0
  have hle := le_leValue_of_getLast? hc
  have := Nat.mul_le_mul hpos (Nat.one_le_pow (l.length - 1) 256 (by norm_num))
  omega

theorem leValue_append_singleton (l : List UInt8) (c : UInt8) :
    leValue (l ++ [c]) = leValue l + c.toNat * 256 ^ l.length := by
  rw [leValue_append, leValue_cons, leValue_nil, Nat.mul_zero, Nat.add_zero, Nat.mul_comm]

/-! ## The top bit of a byte

Sign-magnitude numbers and continuation flags keep a bit in `0x80` and the
rest of the byte in `0x7f`. -/

/-- The high bit of a byte below 256. -/
theorem and_0x80_ne_zero {x : ℕ} (hx : x < 256) : x &&& 0x80 ≠ 0 ↔ 128 ≤ x := by
  rw [show (0x80 : ℕ) = 2 ^ 7 from rfl, Nat.and_two_pow, Nat.testBit_eq_decide_div_mod_eq]
  by_cases h : 128 ≤ x
  · have : x / 128 % 2 = 1 := by omega
    simp [this, h]
  · have : x / 128 % 2 = 0 := by omega
    simp [this, h]

theorem byte_and_0x80_eq_zero (x : UInt8) : x &&& 0x80 = 0 ↔ x.toNat < 128 := by
  have hx := and_0x80_ne_zero (UInt8.toNat_lt x)
  rw [← UInt8.toNat_inj, UInt8.toNat_and]
  constructor
  · intro h
    by_contra hge
    exact hx.mpr (by omega) h
  · intro h
    by_contra hne
    have := hx.mp hne
    omega

theorem byte_and_0x7f_eq_zero (x : UInt8) : x &&& 0x7f = 0 ↔ x.toNat % 128 = 0 := by
  rw [← UInt8.toNat_inj, UInt8.toNat_and, show (0x7f : UInt8).toNat = 2 ^ 7 - 1 from rfl,
    Nat.and_two_pow_sub_one_eq_mod]
  rfl

theorem toNat_byte_or_0x80 {x : UInt8} (h : x.toNat < 128) : (x ||| 0x80).toNat = x.toNat + 128 := by
  rw [UInt8.toNat_or, show (0x80 : UInt8).toNat = 2 ^ 7 * 1 from rfl, Nat.lor_comm,
    ← Nat.two_pow_add_eq_or_of_lt h]
  omega

end LittleEndian
