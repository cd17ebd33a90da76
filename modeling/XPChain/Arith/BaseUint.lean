import XPChain.Lib.Limbs
import XPChain.Arith.Compact

/-!
# Fixed-width unsigned integers

`base_uint<BITS>` of `arith_uint256.h`: `WIDTH = BITS / 32` limbs of 32 bits,
least significant first, with the arithmetic of `arith_uint256.h` and
`arith_uint256.cpp` written as the loops the source runs.  Intermediate sums
and products are `uint64_t` there; they are naturals here, and stay below
`2 ^ 64`.

Each operation is shown to compute its arithmetic counterpart on the value of
the limbs modulo `2 ^ (32 * WIDTH)`.

## Main definitions

* `BaseUint WIDTH` — `WIDTH` limbs; `BaseUint.toNat` its value.
* `zero`, `ofUInt64` — `base_uint()` and `base_uint(uint64_t)`.
* `add`, `not`, `inc`, `neg`, `sub`, `dec`, `mul32`, `mul` — `operator+=`,
  `operator~`, prefix `operator++`, unary `operator-`, `operator-=`, prefix
  `operator--`, and the two `operator*=`.
* `CompareTo`, `lt`, `ge`, `eq`, `bits`.

## Main statements

* `toNat_add`, `toNat_sub`, `toNat_neg`, `toNat_inc`, `toNat_dec`,
  `toNat_mul32`, `toNat_mul` — the operations modulo `2 ^ (32 * WIDTH)`.
* `CompareTo_eq_sign`, `lt_iff`, `ge_iff`, `eq_iff` — order and equality of
  the values.
* `bits_eq` — `bits()` is `ArithUint256.bits` of the value.
-/

set_option autoImplicit false

/-- `base_uint<BITS>` with `WIDTH = BITS / 32`: the limbs `pn`, least
significant first. -/
structure BaseUint (WIDTH : ℕ) where
  pn : List UInt32
  length_pn : pn.length = WIDTH

namespace BaseUint

open Limbs

variable {WIDTH : ℕ}

/-- The number the limbs denote. -/
def toNat (a : BaseUint WIDTH) : ℕ := value a.pn

theorem toNat_lt (a : BaseUint WIDTH) : a.toNat < 2 ^ (32 * WIDTH) := by
  have h := value_lt a.pn
  rwa [a.length_pn] at h

theorem ext_of_toNat {a b : BaseUint WIDTH} (h : a.toNat = b.toNat) : a = b := by
  obtain ⟨pa, ha⟩ := a
  obtain ⟨pb, hb⟩ := b
  have : pa = pb := value_inj (ha.trans hb.symm) h
  subst this
  rfl

/-- `base_uint()`: all limbs zero. -/
def zero : BaseUint WIDTH := ⟨List.replicate WIDTH 0, List.length_replicate⟩

@[simp] theorem toNat_zero : (zero : BaseUint WIDTH).toNat = 0 := value_replicate_zero WIDTH

/-- `base_uint(uint64_t b)`: the low and high halves of `b` in limbs `0` and
`1`, the rest zero. -/
def ofUInt64 (b : UInt64) : BaseUint WIDTH :=
  ⟨((List.replicate WIDTH 0).set 0 b.toUInt32).set 1 (b >>> 32).toUInt32, by simp⟩

/-- From two limbs on, the constructor keeps the whole of `b`. -/
theorem toNat_ofUInt64 (hw : 2 ≤ WIDTH) (b : UInt64) : (ofUInt64 b : BaseUint WIDTH).toNat = b.toNat := by
  obtain ⟨w, rfl⟩ : ∃ w, WIDTH = w + 2 := ⟨WIDTH - 2, by omega⟩
  have hb := UInt64.toNat_lt b
  simp only [toNat, ofUInt64, List.replicate_succ, List.set_cons_zero, List.set_cons_succ, value_cons,
    value_replicate_zero, UInt64.toNat_toUInt32, UInt64.toNat_shiftRight, UInt64.reduceToNat, Nat.reduceMod, Nat.shiftRight_eq_div_pow]
  omega

/-! ## Addition -/

/-- The loop of `operator+=`: `n = carry + pn[i] + b.pn[i]`, the low 32 bits
kept, the rest carried. -/
def addCarry : ℕ → List UInt32 → List UInt32 → List UInt32
  | carry, x :: xs, y :: ys =>
    let n := carry + x.toNat + y.toNat
    UInt32.ofNat (n &&& 0xffffffff) :: addCarry (n >>> 32) xs ys
  | _, _, _ => []

theorem length_addCarry (carry : ℕ) (xs ys : List UInt32) :
    (addCarry carry xs ys).length = min xs.length ys.length := by
  induction xs generalizing carry ys with
  | nil => cases ys <;> rfl
  | cons x xs ih =>
    cases ys with
    | nil => rfl
    | cons y ys => simp [addCarry, ih]

/-- `n & 0xffffffff` and `n >> 32` split `n` into its low limb and the rest. -/
theorem toNat_ofNat_and (n : ℕ) : (UInt32.ofNat (n &&& 0xffffffff)).toNat = n % 2 ^ 32 := by
  rw [show (0xffffffff : ℕ) = 2 ^ 32 - 1 from rfl, Nat.and_two_pow_sub_one_eq_mod, UInt32.toNat_ofNat',
    Nat.mod_mod]

theorem value_addCarry (carry : ℕ) {xs ys : List UInt32} (hlen : xs.length = ys.length) :
    value (addCarry carry xs ys) = (carry + value xs + value ys) % 2 ^ (32 * xs.length) := by
  induction xs generalizing carry ys with
  | nil => simp [addCarry, Nat.mod_one]
  | cons x xs ih =>
    obtain ⟨y, ys, rfl⟩ := List.exists_cons_of_length_eq_add_one hlen.symm
    rw [addCarry, value_cons, toNat_ofNat_and, Nat.shiftRight_eq_div_pow, ih _ (by simpa using hlen),
      List.length_cons, Nat.mul_succ, Nat.add_comm (32 * xs.length), Nat.pow_add, Nat.add_assoc _ (value xs),
      mod_add_mul_mod _ _ (by norm_num)]
    congr 1
    simp only [value_cons]
    ring

/-- `operator+=`. -/
def add (a b : BaseUint WIDTH) : BaseUint WIDTH :=
  ⟨addCarry 0 a.pn b.pn, by rw [length_addCarry, a.length_pn, b.length_pn, Nat.min_self]⟩

theorem toNat_add (a b : BaseUint WIDTH) : (add a b).toNat = (a.toNat + b.toNat) % 2 ^ (32 * WIDTH) := by
  rw [toNat, add, value_addCarry _ (a.length_pn.trans b.length_pn.symm), a.length_pn, Nat.zero_add]
  rfl

/-! ## Complement, increment and negation -/

/-- `operator~`: every limb complemented. -/
def not (a : BaseUint WIDTH) : BaseUint WIDTH := ⟨a.pn.map (~~~·), by rw [List.length_map, a.length_pn]⟩

theorem value_map_not (xs : List UInt32) : value (xs.map (~~~·)) = 2 ^ (32 * xs.length) - 1 - value xs := by
  induction xs with
  | nil => rfl
  | cons x xs ih =>
    have hv := value_lt xs
    have hx := x.toNat_lt
    rw [List.map_cons, value_cons, value_cons, ih, UInt32.toNat_not, List.length_cons, Nat.mul_succ,
      Nat.add_comm (32 * xs.length), Nat.pow_add]
    generalize 2 ^ (32 * xs.length) = M at hv ⊢
    simp only [UInt32.size] at *
    omega

theorem toNat_not (a : BaseUint WIDTH) : a.not.toNat = 2 ^ (32 * WIDTH) - 1 - a.toNat := by
  rw [toNat, not, value_map_not, a.length_pn]
  rfl

/-- The loop of prefix `operator++`: `while (i < WIDTH && ++pn[i] == 0) i++;`. -/
def incLimbs : List UInt32 → List UInt32
  | [] => []
  | x :: xs =>
    let y := x + 1
    if y = 0 then y :: incLimbs xs else y :: xs

theorem length_incLimbs (xs : List UInt32) : (incLimbs xs).length = xs.length := by
  induction xs with
  | nil => rfl
  | cons x xs ih =>
    rw [incLimbs]
    split_ifs <;> simp [ih]

theorem value_incLimbs (xs : List UInt32) : value (incLimbs xs) = (value xs + 1) % 2 ^ (32 * xs.length) := by
  induction xs with
  | nil => rfl
  | cons x xs ih =>
    have hv := value_lt xs
    have hx := x.toNat_lt
    rw [incLimbs, List.length_cons, Nat.mul_succ, Nat.add_comm (32 * xs.length), Nat.pow_add]
    split_ifs with hy
    · -- the limb wraps to zero and the increment carries into the rest
      have hx1 : x.toNat = 2 ^ 32 - 1 := by
        have := congrArg UInt32.toNat hy
        rw [UInt32.toNat_add, UInt32.toNat_one, UInt32.toNat_zero] at this
        omega
      rw [value_cons, value_cons, hy, ih, hx1, UInt32.toNat_zero, Nat.zero_add,
        show 2 ^ 32 - 1 + 2 ^ 32 * value xs + 1 = 2 ^ 32 * (value xs + 1) by omega, Nat.mul_mod_mul_left]
    · have hlt : x.toNat + 1 < 2 ^ 32 := by
        by_contra hge
        apply hy
        apply UInt32.toNat_inj.mp
        rw [UInt32.toNat_add, UInt32.toNat_one, UInt32.toNat_zero]
        omega
      have hbound := Nat.mul_le_mul_left (2 ^ 32) (Nat.succ_le_of_lt hv)
      rw [value_cons, value_cons, UInt32.toNat_add, UInt32.toNat_one, Nat.mod_eq_of_lt hlt,
        Nat.mod_eq_of_lt (by rw [Nat.mul_succ] at hbound; omega)]
      omega

/-- Prefix `operator++`. -/
def inc (a : BaseUint WIDTH) : BaseUint WIDTH := ⟨incLimbs a.pn, by rw [length_incLimbs, a.length_pn]⟩

theorem toNat_inc (a : BaseUint WIDTH) : a.inc.toNat = (a.toNat + 1) % 2 ^ (32 * WIDTH) := by
  rw [toNat, inc, value_incLimbs, a.length_pn]
  rfl

/-- Unary `operator-`: the complement, incremented. -/
def neg (a : BaseUint WIDTH) : BaseUint WIDTH := a.not.inc

theorem toNat_neg (a : BaseUint WIDTH) : a.neg.toNat = (2 ^ (32 * WIDTH) - a.toNat) % 2 ^ (32 * WIDTH) := by
  have ha := a.toNat_lt
  rw [neg, toNat_inc, toNat_not]
  congr 1
  omega

/-- The wrapped difference `(x + M - y) % M` of naturals is the integer
difference reduced modulo `M`. -/
theorem natCast_add_sub_mod (x : ℕ) {y M : ℕ} (hy : y ≤ M) :
    (((x + M - y) % M : ℕ) : ℤ) = ((x : ℤ) - y) % M := by
  have h : ((x + M - y : ℕ) : ℤ) = ((x : ℤ) - y) + M := by omega
  rw [Int.natCast_mod, h, ← Int.emod_eq_add_self_emod]

/-- `operator-=`: the negation added. -/
def sub (a b : BaseUint WIDTH) : BaseUint WIDTH := add a b.neg

theorem toNat_sub (a b : BaseUint WIDTH) :
    (sub a b).toNat = (a.toNat + 2 ^ (32 * WIDTH) - b.toNat) % 2 ^ (32 * WIDTH) := by
  have hb := b.toNat_lt
  rw [sub, toNat_add, toNat_neg, Nat.add_mod_mod]
  congr 1
  omega

/-- The loop of prefix `operator--`: `while (i < WIDTH && --pn[i] == (uint32_t)-1) i++;`. -/
def decLimbs : List UInt32 → List UInt32
  | [] => []
  | x :: xs =>
    let y := x - 1
    if y = 0xffffffff then y :: decLimbs xs else y :: xs

theorem length_decLimbs (xs : List UInt32) : (decLimbs xs).length = xs.length := by
  induction xs with
  | nil => rfl
  | cons x xs ih =>
    rw [decLimbs]
    split_ifs <;> simp [ih]

theorem value_decLimbs (xs : List UInt32) :
    value (decLimbs xs) = (value xs + 2 ^ (32 * xs.length) - 1) % 2 ^ (32 * xs.length) := by
  induction xs with
  | nil => rfl
  | cons x xs ih =>
    have hv := value_lt xs
    have hx := x.toNat_lt
    have hM : 0 < 2 ^ (32 * xs.length) := Nat.two_pow_pos _
    rw [decLimbs, List.length_cons, Nat.mul_succ, Nat.add_comm (32 * xs.length), Nat.pow_add]
    split_ifs with hy
    · -- the limb was zero: it wraps and the decrement borrows from the rest
      have hx0 : x.toNat = 0 := by
        have := congrArg UInt32.toNat hy
        rw [UInt32.toNat_sub, UInt32.toNat_one] at this
        simp only [UInt32.reduceToNat] at this
        omega
      rw [value_cons, value_cons, hy, ih, hx0, Nat.zero_add]
      have hsplit : 2 ^ 32 * value xs + 2 ^ 32 * 2 ^ (32 * xs.length) - 1 =
          2 ^ 32 - 1 + 2 ^ 32 * (value xs + 2 ^ (32 * xs.length) - 1) := by
        have := Nat.mul_le_mul_left (2 ^ 32) hM
        omega
      have hlow : (2 ^ 32 - 1 : ℕ) < 2 ^ 32 := by norm_num
      rw [hsplit, ← mod_add_mul_mod _ _ (by norm_num), Nat.mod_eq_of_lt hlow, Nat.div_eq_of_lt hlow,
        Nat.zero_add]
      rfl
    · have hx0 : x.toNat ≠ 0 := by
        intro h0
        apply hy
        apply UInt32.toNat_inj.mp
        rw [UInt32.toNat_sub, UInt32.toNat_one, h0]
        rfl
      have hlt : x.toNat - 1 + 2 ^ 32 * value xs < 2 ^ 32 * 2 ^ (32 * xs.length) := by
        have hbound := Nat.mul_le_mul_left (2 ^ 32) (Nat.succ_le_of_lt hv)
        rw [Nat.mul_succ] at hbound
        omega
      rw [value_cons, value_cons, UInt32.toNat_sub, UInt32.toNat_one,
        show (2 ^ 32 - 1 + x.toNat) % 2 ^ 32 = x.toNat - 1 by omega,
        show x.toNat + 2 ^ 32 * value xs + 2 ^ 32 * 2 ^ (32 * xs.length) - 1 =
          x.toNat - 1 + 2 ^ 32 * value xs + 2 ^ 32 * 2 ^ (32 * xs.length) by omega,
        Nat.add_mod_right, Nat.mod_eq_of_lt hlt]

/-- Prefix `operator--`. -/
def dec (a : BaseUint WIDTH) : BaseUint WIDTH := ⟨decLimbs a.pn, by rw [length_decLimbs, a.length_pn]⟩

theorem toNat_dec (a : BaseUint WIDTH) :
    a.dec.toNat = (a.toNat + 2 ^ (32 * WIDTH) - 1) % 2 ^ (32 * WIDTH) := by
  rw [toNat, dec, value_decLimbs, a.length_pn]
  rfl

/-! ## Multiplication -/

/-- The loop of `operator*=(uint32_t b32)`: `n = carry + b32 * pn[i]`. -/
def mulCarry32 (b32 : ℕ) : ℕ → List UInt32 → List UInt32
  | carry, x :: xs =>
    let n := carry + b32 * x.toNat
    UInt32.ofNat (n &&& 0xffffffff) :: mulCarry32 b32 (n >>> 32) xs
  | _, [] => []

theorem length_mulCarry32 (b32 carry : ℕ) (xs : List UInt32) : (mulCarry32 b32 carry xs).length = xs.length := by
  induction xs generalizing carry with
  | nil => rfl
  | cons x xs ih => simp [mulCarry32, ih]

theorem value_mulCarry32 (b32 carry : ℕ) (xs : List UInt32) :
    value (mulCarry32 b32 carry xs) = (carry + b32 * value xs) % 2 ^ (32 * xs.length) := by
  induction xs generalizing carry with
  | nil => simp [mulCarry32, Nat.mod_one]
  | cons x xs ih =>
    rw [mulCarry32, value_cons, toNat_ofNat_and, Nat.shiftRight_eq_div_pow, ih, List.length_cons, Nat.mul_succ,
      Nat.add_comm (32 * xs.length), Nat.pow_add, mod_add_mul_mod _ _ (by norm_num)]
    congr 1
    rw [value_cons]
    ring

/-- `operator*=(uint32_t)`. -/
def mul32 (a : BaseUint WIDTH) (b32 : UInt32) : BaseUint WIDTH :=
  ⟨mulCarry32 b32.toNat 0 a.pn, by rw [length_mulCarry32, a.length_pn]⟩

theorem toNat_mul32 (a : BaseUint WIDTH) (b32 : UInt32) :
    (a.mul32 b32).toNat = (a.toNat * b32.toNat) % 2 ^ (32 * WIDTH) := by
  rw [toNat, mul32, value_mulCarry32, a.length_pn, Nat.zero_add, Nat.mul_comm]
  rfl

/-- The inner loop of `operator*=(const base_uint&)` for the limb `x = pn[j]`:
`n = carry + a.pn[i + j] + pn[j] * b.pn[i]` over the limbs of the product `a`
from `j` on. -/
def mulRow (x : ℕ) : ℕ → List UInt32 → List UInt32 → List UInt32
  | carry, y :: ys, z :: zs =>
    let n := carry + y.toNat + x * z.toNat
    UInt32.ofNat (n &&& 0xffffffff) :: mulRow x (n >>> 32) ys zs
  | _, ys, [] => ys
  | _, [], _ :: _ => []

theorem length_mulRow (x carry : ℕ) {ys zs : List UInt32} (hlen : ys.length ≤ zs.length) :
    (mulRow x carry ys zs).length = ys.length := by
  induction ys generalizing carry zs with
  | nil => cases zs <;> rfl
  | cons y ys ih =>
    cases zs with
    | nil => simp at hlen
    | cons z zs => simp [mulRow, ih _ (by simpa using hlen)]

/-- A row adds `x` times the low limbs of `b` to the limbs it runs over. -/
theorem value_mulRow (x carry : ℕ) {ys zs : List UInt32} (hlen : ys.length ≤ zs.length) :
    value (mulRow x carry ys zs) = (carry + value ys + x * value (zs.take ys.length)) % 2 ^ (32 * ys.length) := by
  induction ys generalizing carry zs with
  | nil => cases zs <;> simp [mulRow, Nat.mod_one]
  | cons y ys ih =>
    cases zs with
    | nil => simp at hlen
    | cons z zs =>
    rw [mulRow, value_cons, toNat_ofNat_and, Nat.shiftRight_eq_div_pow, ih _ (by simpa using hlen),
      List.length_cons, Nat.mul_succ, Nat.add_comm (32 * ys.length), Nat.pow_add, Nat.add_assoc _ (value ys),
      mod_add_mul_mod _ _ (by norm_num), List.take_succ_cons]
    congr 1
    simp only [value_cons]
    ring

/-- One row of the product, written into the accumulator `acc` from limb `j` on. -/
theorem value_mulRow_at {acc b : List UInt32} {j : ℕ} (hj : j ≤ acc.length) (hb : acc.length = b.length) (x : ℕ) :
    value (acc.take j ++ mulRow x 0 (acc.drop j) b) =
      (value acc + 2 ^ (32 * j) * x * value b) % 2 ^ (32 * acc.length) := by
  have htake : (acc.take j).length = j := List.length_take_of_le hj
  have hdrop : (acc.drop j).length = acc.length - j := List.length_drop
  have hlow := value_lt (acc.take j)
  rw [htake] at hlow
  have hpow : 2 ^ (32 * acc.length) = 2 ^ (32 * j) * 2 ^ (32 * (acc.length - j)) := by
    rw [← Nat.pow_add]
    congr 1
    omega
  -- the limbs of `b` past the row's width only add multiples of `2 ^ (32 * acc.length)`
  have hb' : value b = value (b.take (acc.length - j)) + 2 ^ (32 * (acc.length - j)) * value (b.drop (acc.length - j)) := by
    rw [value_take_add_drop b (acc.length - j), List.length_take_of_le (by omega)]
  rw [value_append, htake, value_mulRow _ _ (by omega), hdrop, Nat.zero_add,
    ← Nat.mod_eq_of_lt hlow, ← Nat.zero_add (value (acc.drop j) + _), ← Nat.div_eq_of_lt hlow,
    mod_add_mul_mod _ _ (Nat.two_pow_pos _), ← hpow]
  have hacc := value_take_add_drop acc j
  rw [htake] at hacc
  have hsum : value acc + 2 ^ (32 * j) * x * value b =
      value (acc.take j) + 2 ^ (32 * j) * (value (acc.drop j) + x * value (b.take (acc.length - j))) +
        2 ^ (32 * acc.length) * (x * value (b.drop (acc.length - j))) := by
    rw [hacc, hb', hpow]
    ring
  rw [hsum, Nat.add_mul_mod_self_left]

/-- The outer loop of `operator*=(const base_uint&)`: row `j` for the limb
`pn[j]` of the left factor, into the product `acc`. -/
def mulRows (b : List UInt32) : ℕ → List UInt32 → List UInt32 → List UInt32
  | _, [], acc => acc
  | j, x :: xs, acc => mulRows b (j + 1) xs (acc.take j ++ mulRow x.toNat 0 (acc.drop j) b)

theorem length_mulRows (b : List UInt32) (j : ℕ) (xs : List UInt32) {acc : List UInt32}
    (hb : acc.length ≤ b.length) : (mulRows b j xs acc).length = acc.length := by
  induction xs generalizing j acc with
  | nil => rfl
  | cons x xs ih =>
    have hrow : (acc.take j ++ mulRow x.toNat 0 (acc.drop j) b).length = acc.length := by
      rw [List.length_append, length_mulRow _ _ (by rw [List.length_drop]; omega), List.length_take,
        List.length_drop]
      omega
    rw [mulRows, ih _ (by rw [hrow]; exact hb), hrow]

/-- The rows from `j` on add `2 ^ (32 * j)` times the rest of the left factor,
times `b`. -/
theorem value_mulRows {b : List UInt32} (j : ℕ) (xs : List UInt32) {acc : List UInt32}
    (hb : acc.length = b.length) (hj : j + xs.length = acc.length) :
    value (mulRows b j xs acc) = (value acc + 2 ^ (32 * j) * value xs * value b) % 2 ^ (32 * acc.length) := by
  induction xs generalizing j acc with
  | nil => simp [mulRows, Nat.mod_eq_of_lt (value_lt acc)]
  | cons x xs ih =>
    rw [List.length_cons] at hj
    have hrow : (acc.take j ++ mulRow x.toNat 0 (acc.drop j) b).length = acc.length := by
      rw [List.length_append, length_mulRow _ _ (by rw [List.length_drop]; omega), List.length_take,
        List.length_drop]
      omega
    rw [mulRows, ih _ (by rw [hrow, hb]) (by rw [hrow]; omega), hrow, value_mulRow_at (by omega) hb,
      Nat.mod_add_mod]
    congr 1
    rw [value_cons, Nat.mul_succ, Nat.pow_add]
    ring

/-- `operator*=(const base_uint&)`: the product of the rows, truncated to
`WIDTH` limbs. -/
def mul (a b : BaseUint WIDTH) : BaseUint WIDTH :=
  ⟨mulRows b.pn 0 a.pn (List.replicate WIDTH 0), by
    rw [length_mulRows _ _ _ (by rw [List.length_replicate, b.length_pn]), List.length_replicate]⟩

theorem toNat_mul (a b : BaseUint WIDTH) : (mul a b).toNat = (a.toNat * b.toNat) % 2 ^ (32 * WIDTH) := by
  have hb : (List.replicate WIDTH (0 : UInt32)).length = b.pn.length := by
    rw [List.length_replicate, b.length_pn]
  have hj : 0 + a.pn.length = (List.replicate WIDTH (0 : UInt32)).length := by
    rw [List.length_replicate, a.length_pn, Nat.zero_add]
  rw [toNat, mul, value_mulRows 0 a.pn hb hj, value_replicate_zero, List.length_replicate]
  simp [toNat]

/-! ## Comparison -/

/-- The loop of `CompareTo`, over the limbs from the most significant down:
the first limb that differs decides. -/
def compareFrom : List UInt32 → List UInt32 → ℤ
  | x :: xs, y :: ys => if x < y then -1 else if x > y then 1 else compareFrom xs ys
  | _, _ => 0

/-- Over most-significant-first lists of one length, the loop returns the sign
of the difference of the values. -/
theorem compareFrom_eq_sign {xs ys : List UInt32} (hlen : xs.length = ys.length) :
    compareFrom xs ys = Int.sign ((value xs.reverse : ℤ) - value ys.reverse) := by
  induction xs generalizing ys with
  | nil =>
    rw [List.eq_nil_of_length_eq_zero hlen.symm]
    rfl
  | cons x xs ih =>
    obtain ⟨y, ys, rfl⟩ := List.exists_cons_of_length_eq_add_one hlen.symm
    have hrev : xs.reverse.length = ys.reverse.length := by simpa using hlen
    rw [compareFrom, List.reverse_cons, List.reverse_cons]
    split_ifs with hlt hgt
    · have := value_concat_lt hrev (UInt32.lt_iff_toNat_lt.mp hlt)
      rw [Int.sign_eq_neg_one_of_neg (by omega)]
    · have := value_concat_lt hrev.symm (UInt32.lt_iff_toNat_lt.mp hgt)
      rw [Int.sign_eq_one_of_pos (by omega)]
    · -- equal top limbs: the order is that of the limbs below
      have hxy : x = y := UInt32.toNat_inj.mp (by
        rw [UInt32.lt_iff_toNat_lt] at hlt
        rw [gt_iff_lt, UInt32.lt_iff_toNat_lt] at hgt
        omega)
      rw [hxy, value_append, value_append, ← hrev, ih (by simpa using hlen)]
      congr 1
      push_cast
      ring

/-- `CompareTo`: `-1`, `0` or `1` as `a` is below, equal to or above `b`. -/
def CompareTo (a b : BaseUint WIDTH) : ℤ := compareFrom a.pn.reverse b.pn.reverse

theorem CompareTo_eq_sign (a b : BaseUint WIDTH) : a.CompareTo b = Int.sign ((a.toNat : ℤ) - b.toNat) := by
  rw [CompareTo, compareFrom_eq_sign (by rw [List.length_reverse, List.length_reverse, a.length_pn, b.length_pn]),
    List.reverse_reverse, List.reverse_reverse]
  rfl

/-- `operator<`. -/
def lt (a b : BaseUint WIDTH) : Bool := a.CompareTo b < 0

/-- `operator>=`. -/
def ge (a b : BaseUint WIDTH) : Bool := a.CompareTo b ≥ 0

/-- `operator==`: `memcmp` of the limbs. -/
def eq (a b : BaseUint WIDTH) : Bool := a.pn = b.pn

theorem lt_iff (a b : BaseUint WIDTH) : a.lt b = true ↔ a.toNat < b.toNat := by
  rw [lt, decide_eq_true_iff, CompareTo_eq_sign, Int.sign_neg_iff]
  omega

theorem ge_iff (a b : BaseUint WIDTH) : a.ge b = true ↔ b.toNat ≤ a.toNat := by
  rw [ge, decide_eq_true_iff, CompareTo_eq_sign, ge_iff_le, Int.sign_nonneg_iff]
  omega

theorem eq_iff (a b : BaseUint WIDTH) : a.eq b = true ↔ a.toNat = b.toNat := by
  rw [eq, decide_eq_true_iff]
  constructor
  · intro h
    rw [toNat, toNat, h]
  · intro h
    rw [ext_of_toNat h]

/-- `EqualTo(uint64_t b)`, the `operator==` against a `uint64_t`: the limbs
from `2` up are zero and limbs `1` and `0` are the halves of `b`. -/
def EqualTo (a : BaseUint WIDTH) (b : UInt64) : Bool :=
  (a.pn.drop 2).all (· == 0) && (a.pn.getD 1 0).toUInt64 == b >>> 32 &&
    (a.pn.getD 0 0).toUInt64 == b &&& 0xffffffff

theorem EqualTo_iff (hw : 2 ≤ WIDTH) (a : BaseUint WIDTH) (b : UInt64) : a.EqualTo b = true ↔ a.toNat = b.toNat := by
  have hlen := a.length_pn
  have hb := UInt64.toNat_lt b
  rcases hp : a.pn with _ | ⟨x0, _ | ⟨x1, rest⟩⟩
  · rw [hp, List.length_nil] at hlen
    omega
  · rw [hp, List.length_singleton] at hlen
    omega
  have hx0 := x0.toNat_lt
  have hx1 := x1.toNat_lt
  have hmask : (0xffffffff : ℕ) = 2 ^ 32 - 1 := rfl
  simp only [EqualTo, toNat, hp, List.drop_succ_cons, List.drop_zero, List.getD_cons_succ, List.getD_cons_zero,
    Bool.and_eq_true, List.all_eq_true, beq_iff_eq, ← UInt64.toNat_inj, UInt32.toNat_toUInt64,
    UInt64.toNat_shiftRight, UInt64.toNat_and, UInt64.reduceToNat, Nat.reduceMod, value_cons,
    ← value_eq_zero_iff, Nat.shiftRight_eq_div_pow, hmask, Nat.and_two_pow_sub_one_eq_mod]
  omega

/-! ## Bit length -/

/-- Bit `i` of a limb is `1 << i`, for `i` below the limb's width. -/
theorem toNat_one_shiftLeft {i : ℕ} (hi : i < 32) : ((1 : UInt32) <<< UInt32.ofNat i).toNat = 2 ^ i := by
  rw [UInt32.toNat_shiftLeft, UInt32.toNat_ofNat_of_lt' (lt_trans hi (by decide)), Nat.mod_eq_of_lt hi, UInt32.toNat_one,
    Nat.one_shiftLeft, Nat.mod_eq_of_lt (Nat.pow_lt_pow_right (by norm_num) hi)]

theorem and_one_shiftLeft_ne_zero {x : UInt32} {i : ℕ} (hi : i < 32) :
    x &&& 1 <<< UInt32.ofNat i ≠ 0 ↔ x.toNat.testBit i = true := by
  rw [ne_eq, ← UInt32.toNat_inj, UInt32.toNat_and, toNat_one_shiftLeft hi, Nat.and_two_pow, UInt32.toNat_zero]
  cases x.toNat.testBit i <;> simp

/-- The inner loop of `bits()` over a nonzero limb `x`: the highest of the bits
`nbits, nbits - 1, …, 1` of `x` that is set, plus one, and `1` when none is. -/
def limbBits (x : UInt32) : ℕ → ℕ
  | 0 => 1
  | nbits + 1 => if x &&& 1 <<< UInt32.ofNat (nbits + 1) ≠ 0 then nbits + 2 else limbBits x nbits

theorem limbBits_eq {x : UInt32} (hx : x.toNat ≠ 0) {nbits : ℕ} (hn : nbits < 32) (hlt : x.toNat < 2 ^ (nbits + 1)) :
    limbBits x nbits = Nat.log2 x.toNat + 1 := by
  induction nbits with
  | zero =>
    have hlog : Nat.log2 x.toNat = 0 := (Nat.log2_eq_iff hx).mpr ⟨by omega, hlt⟩
    rw [limbBits, hlog]
  | succ n ih =>
    rw [limbBits]
    split_ifs with hbit
    · rw [and_one_shiftLeft_ne_zero hn] at hbit
      have hlog : Nat.log2 x.toNat = n + 1 := (Nat.log2_eq_iff hx).mpr ⟨Nat.ge_two_pow_of_testBit hbit, hlt⟩
      rw [hlog]
    · -- bit `n + 1` is clear, so `x` is below it
      rw [and_one_shiftLeft_ne_zero hn, Bool.not_eq_true] at hbit
      apply ih (by omega)
      apply Nat.lt_pow_two_of_testBit
      intro i hi
      rcases Nat.eq_or_lt_of_le hi with rfl | hi
      · exact hbit
      · exact Nat.testBit_lt_two_pow (lt_of_lt_of_le hlt (Nat.pow_le_pow_right (by norm_num) hi))

/-- The outer loop of `bits()`, over the limbs from position `pos` down, most
significant first: the first nonzero limb decides. -/
def bitsFrom : ℕ → List UInt32 → ℕ
  | _, [] => 0
  | pos, x :: xs => if x ≠ 0 then 32 * pos + limbBits x 31 else bitsFrom (pos - 1) xs

theorem bitsFrom_eq (xs : List UInt32) : bitsFrom (xs.length - 1) xs = ArithUint256.bits (value xs.reverse) := by
  induction xs with
  | nil => rfl
  | cons x xs ih =>
    rw [bitsFrom, List.length_cons, Nat.add_sub_cancel, List.reverse_cons]
    split_ifs with hx
    · have hx0 : x.toNat ≠ 0 := fun h => hx (UInt32.toNat_inj.mp h)
      have hpos : value (xs.reverse ++ [x]) ≠ 0 := by
        rw [value_append]
        simp only [value_cons, value_nil, Nat.mul_zero, Nat.add_zero]
        have := Nat.mul_pos (Nat.two_pow_pos (32 * xs.reverse.length)) (Nat.pos_of_ne_zero hx0)
        omega
      rw [ArithUint256.bits, if_neg hpos, log2_value_concat _ hx, List.length_reverse,
        limbBits_eq hx0 (by norm_num) x.toNat_lt, Nat.add_assoc]
    · -- a zero top limb adds nothing to the value
      rw [not_not] at hx
      rw [ih, hx, value_append]
      simp

/-- `bits()`. -/
def bits (a : BaseUint WIDTH) : ℕ := bitsFrom (WIDTH - 1) a.pn.reverse

theorem bits_eq (a : BaseUint WIDTH) : a.bits = ArithUint256.bits a.toNat := by
  have hw : WIDTH - 1 = a.pn.reverse.length - 1 := by rw [List.length_reverse, a.length_pn]
  rw [bits, hw, bitsFrom_eq, List.reverse_reverse]
  rfl

end BaseUint
