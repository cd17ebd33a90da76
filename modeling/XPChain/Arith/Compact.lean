import Mathlib.Data.Nat.Log
import Mathlib.Data.Nat.Size
import Mathlib.Data.Nat.Bitwise
import Mathlib.Tactic.Ring

/-!
# Compact targets

The compact form of a 256-bit target that a block header's `nBits` holds:
`arith_uint256::SetCompact` and `arith_uint256::GetCompact` of
`arith_uint256.cpp`.  An `arith_uint256` is a natural number below `2 ^ 256`;
its shifts and products wrap modulo `2 ^ 256`, written out where they can.

## Main definitions

* `ArithUint256.bits` — `base_uint::bits`.
* `ArithUint256.SetCompact`, `ArithUint256.SetCompactNegative`,
  `ArithUint256.SetCompactOverflow` — the value and the two flags `SetCompact`
  returns.
* `ArithUint256.GetCompact`.
* `ArithUint256.compactRound` — what survives an encoding: the top three
  bytes, or two after a leading byte of `0x80` or more.

## Main statements

* `SetCompact_add_one_lt` — a target decoded without overflow is below
  `2 ^ 256 - 1`.
* `GetCompact_of_ne_zero` — `GetCompact` as an exponent and a mantissa.
* `SetCompact_GetCompact`, `GetCompact_round`, `round_mono` — decoding an
  encoding rounds down, the rounded value encodes the same, and the rounding
  is monotone.
-/

set_option autoImplicit false

namespace ArithUint256

/-- `base_uint::bits`: the position of the highest set bit, plus one. -/
def bits (x : ℕ) : ℕ := if x = 0 then 0 else Nat.log2 x + 1

/-- `bits` is the binary length of the value. -/
theorem bits_eq_size (x : ℕ) : bits x = x.size := by
  rw [bits]
  split_ifs with hx
  · rw [hx, Nat.size_zero]
  · apply le_antisymm
    · exact Nat.lt_size.mpr (Nat.log2_self_le hx)
    · exact Nat.size_le.mpr Nat.lt_log2_self

/-- The exponent byte of a compact target. -/
def compactSize (nCompact : ℕ) : ℕ := nCompact >>> 24

/-- The 23-bit mantissa of a compact target. -/
def compactWord (nCompact : ℕ) : ℕ := nCompact &&& 0x007fffff

/-- `SetCompact(nCompact)`: the mantissa shifted by whole bytes, left shifts
wrapping modulo `2 ^ 256`. -/
def SetCompact (nCompact : ℕ) : ℕ :=
  let nSize := compactSize nCompact
  let nWord := compactWord nCompact
  if nSize ≤ 3 then nWord >>> (8 * (3 - nSize))
  else (nWord <<< (8 * (nSize - 3))) % 2 ^ 256

/-- A decoded target fits in 256 bits. -/
theorem SetCompact_lt (nCompact : ℕ) : SetCompact nCompact < 2 ^ 256 := by
  simp only [SetCompact]
  split
  · -- the mantissa, shifted down, is below `2 ^ 23`
    have hword : compactWord nCompact < 2 ^ 256 :=
      lt_of_le_of_lt Nat.and_le_right (by decide)
    exact lt_of_le_of_lt (Nat.shiftRight_le _ _) hword
  · exact Nat.mod_lt _ (by norm_num)

/-- The `pfNegative` output of `SetCompact`. -/
def SetCompactNegative (nCompact : ℕ) : Bool :=
  compactWord nCompact ≠ 0 && nCompact &&& 0x00800000 ≠ 0

/-- The `pfOverflow` output of `SetCompact`. -/
def SetCompactOverflow (nCompact : ℕ) : Bool :=
  let nSize := compactSize nCompact
  let nWord := compactWord nCompact
  nWord ≠ 0 && (34 < nSize || (0xff < nWord && 33 < nSize) || (0xffff < nWord && 32 < nSize))

/-- Without the overflow flag the decoded target is below `2 ^ 256 - 1`: the
mantissa moved up whole bytes stays under `2 ^ 256` by at least a byte. -/
theorem SetCompact_add_one_lt {nCompact : ℕ} (h : SetCompactOverflow nCompact = false) :
    SetCompact nCompact + 1 < 2 ^ 256 := by
  have hword : compactWord nCompact < 2 ^ 23 := lt_of_le_of_lt Nat.and_le_right (by decide)
  simp only [SetCompactOverflow, Bool.and_eq_false_iff, Bool.or_eq_false_iff, decide_eq_false_iff_not,
    not_not, not_lt] at h
  simp only [SetCompact]
  split_ifs with hs
  · have := Nat.shiftRight_le (compactWord nCompact) (8 * (3 - compactSize nCompact))
    omega
  rcases h with h0 | ⟨⟨h34, h33⟩, h32⟩
  · rw [h0, Nat.zero_shiftLeft, Nat.zero_mod]
    norm_num
  rw [Nat.shiftLeft_eq]
  -- the three exponents the flag allows, each with its bound on the mantissa
  have hprod : compactWord nCompact * 2 ^ (8 * (compactSize nCompact - 3)) + 1 < 2 ^ 256 := by
    rcases (show compactSize nCompact ≤ 32 ∨ compactSize nCompact = 33 ∨ compactSize nCompact = 34 by omega)
      with hle | h33' | h34'
    · have hpow : 2 ^ (8 * (compactSize nCompact - 3)) ≤ 2 ^ 232 := Nat.pow_le_pow_right (by norm_num) (by omega)
      have := Nat.mul_le_mul (show compactWord nCompact ≤ 2 ^ 23 - 1 by omega) hpow
      omega
    · rw [h33']
      have := Nat.mul_le_mul_right (2 ^ (8 * (33 - 3))) (show compactWord nCompact ≤ 0xffff by omega)
      omega
    · rw [h34']
      have := Nat.mul_le_mul_right (2 ^ (8 * (34 - 3))) (show compactWord nCompact ≤ 0xff by omega)
      omega
  rw [Nat.mod_eq_of_lt (by omega)]
  exact hprod

/-- `GetCompact(fNegative)`: the exponent is the byte length, the mantissa
its top three bytes, moved down a byte when its top bit would read as the
sign. -/
def GetCompact (x : ℕ) (fNegative : Bool := false) : ℕ :=
  let nSize := (bits x + 7) / 8
  let nCompact :=
    if nSize ≤ 3 then ((x % 2 ^ 64) <<< (8 * (3 - nSize))) % 2 ^ 32
    else (x >>> (8 * (nSize - 3))) % 2 ^ 64 % 2 ^ 32
  let (nCompact, nSize) :=
    if nCompact &&& 0x00800000 ≠ 0 then (nCompact >>> 8, nSize + 1) else (nCompact, nSize)
  let nCompact := nCompact ||| (nSize <<< 24)
  nCompact ||| (if fNegative && nCompact &&& 0x007fffff ≠ 0 then 0x00800000 else 0)

/-! ## The compact form as a rounding -/

theorem lt_two_pow_bits (x : ℕ) : x < 2 ^ bits x := by
  rw [bits_eq_size]
  exact Nat.lt_size_self x

theorem two_pow_bits_le {x : ℕ} (h : x ≠ 0) : 2 ^ (bits x - 1) ≤ x := by
  have hpos := Nat.size_pos.mpr (Nat.pos_of_ne_zero h)
  rw [bits_eq_size]
  exact Nat.lt_size.mp (by omega)

theorem bits_pos {x : ℕ} (h : x ≠ 0) : 0 < bits x := by
  rw [bits, if_neg h]
  omega

theorem bits_le_of_lt {x w : ℕ} (h : x < 2 ^ w) : bits x ≤ w := by
  rw [bits_eq_size]
  exact Nat.size_le.mpr h

theorem bits_eq_of_mem {y b : ℕ} (hb : 0 < b) (hlo : 2 ^ (b - 1) ≤ y) (hhi : y < 2 ^ b) : bits y = b := by
  rw [bits_eq_size]
  apply le_antisymm (Nat.size_le.mpr hhi)
  have := Nat.lt_size.mpr hlo
  omega

/-- The mantissa `GetCompact` forms before its sign adjustment: `x` moved so
that its byte length becomes three. -/
theorem getCompact_mantissa (x : ℕ) :
    (if (bits x + 7) / 8 ≤ 3 then ((x % 2 ^ 64) <<< (8 * (3 - (bits x + 7) / 8))) % 2 ^ 32
      else (x >>> (8 * ((bits x + 7) / 8 - 3))) % 2 ^ 64 % 2 ^ 32) =
      x * 2 ^ 24 / 2 ^ (8 * ((bits x + 7) / 8)) := by
  have hlt : x < 2 ^ (8 * ((bits x + 7) / 8)) :=
    lt_of_lt_of_le (lt_two_pow_bits x) (Nat.pow_le_pow_right (by norm_num) (by omega))
  split_ifs with hn
  · -- a value of at most three bytes moves up
    have hpow : 2 ^ 24 = 2 ^ (8 * ((bits x + 7) / 8)) * 2 ^ (8 * (3 - (bits x + 7) / 8)) := by
      rw [← Nat.pow_add]
      congr 1
      omega
    have hup : x * 2 ^ (8 * (3 - (bits x + 7) / 8)) < 2 ^ 24 := by
      rw [hpow]
      exact Nat.mul_lt_mul_of_pos_right hlt (Nat.two_pow_pos _)
    have hx24 : x < 2 ^ 24 := lt_of_lt_of_le hlt (Nat.pow_le_pow_right (by norm_num) (by omega))
    rw [Nat.mod_eq_of_lt (lt_trans hx24 (by decide)), Nat.shiftLeft_eq,
      Nat.mod_eq_of_lt (lt_trans hup (by decide)), hpow, Nat.mul_comm (2 ^ (8 * ((bits x + 7) / 8))),
      ← Nat.mul_assoc, Nat.mul_div_cancel _ (Nat.two_pow_pos _)]
  · -- a longer value moves down
    have hpow : 2 ^ (8 * ((bits x + 7) / 8)) = 2 ^ 24 * 2 ^ (8 * ((bits x + 7) / 8 - 3)) := by
      rw [← Nat.pow_add]
      congr 1
      omega
    have hdown : x / 2 ^ (8 * ((bits x + 7) / 8 - 3)) < 2 ^ 24 := by
      rw [Nat.div_lt_iff_lt_mul (Nat.two_pow_pos _), ← hpow]
      exact hlt
    rw [Nat.shiftRight_eq_div_pow, Nat.mod_eq_of_lt (lt_trans hdown (by decide)),
      Nat.mod_eq_of_lt (lt_trans hdown (by decide)), hpow, Nat.mul_comm x,
      Nat.mul_div_mul_left _ _ (Nat.two_pow_pos _)]

/-- Bit `23` of a three-byte mantissa, the bit `GetCompact` tests. -/
theorem and_0x800000_ne_zero_iff {m : ℕ} (hm : m < 2 ^ 24) : m &&& 0x00800000 ≠ 0 ↔ 2 ^ 23 ≤ m := by
  rw [show (0x00800000 : ℕ) = 2 ^ 23 from rfl, Nat.and_two_pow, Nat.testBit_eq_decide_div_mod_eq]
  by_cases h : m / 2 ^ 23 % 2 = 1
  · simp only [h, decide_true, Bool.toNat_true, Nat.one_mul]
    omega
  · simp only [h, decide_false, Bool.toNat_false, Nat.zero_mul, ne_eq, not_true_eq_false, false_iff]
    omega

/-- The mantissa `GetCompact` settles on, `x` scaled to exponent
`bits x / 8 + 1`, is below `2 ^ 23`: its sign bit is clear. -/
theorem compactWord_lt (x : ℕ) : x * 2 ^ 24 / 2 ^ (8 * (bits x / 8 + 1)) < 2 ^ 23 := by
  rw [Nat.div_lt_iff_lt_mul (Nat.two_pow_pos _)]
  calc x * 2 ^ 24 < 2 ^ bits x * 2 ^ 24 := Nat.mul_lt_mul_of_pos_right (lt_two_pow_bits x) (Nat.two_pow_pos _)
    _ ≤ 2 ^ (8 * (bits x / 8 + 1) + 23) := by
      rw [← Nat.pow_add]
      exact Nat.pow_le_pow_right (by norm_num) (by omega)
    _ = 2 ^ 23 * 2 ^ (8 * (bits x / 8 + 1)) := by rw [Nat.pow_add, Nat.mul_comm]

/-- `GetCompact` of a nonzero `x`: exponent `bits x / 8 + 1`, and the mantissa
`x` scaled to that exponent, below `2 ^ 23` after the sign adjustment. -/
theorem GetCompact_of_ne_zero {x : ℕ} (h0 : x ≠ 0) :
    GetCompact x = x * 2 ^ 24 / 2 ^ (8 * (bits x / 8 + 1)) ||| (bits x / 8 + 1) <<< 24 := by
  have hlo := two_pow_bits_le h0
  have hhi := lt_two_pow_bits x
  have hpos := bits_pos h0
  simp only [GetCompact, getCompact_mantissa, Bool.false_and, Bool.false_eq_true, if_false, Nat.or_zero]
  by_cases hb : bits x % 8 = 0
  · -- the top bit of `x` is the top bit of a byte: the mantissa moves down a byte
    have hn : (bits x + 7) / 8 = bits x / 8 := by omega
    rw [hn]
    have hexp : 8 * (bits x / 8) = bits x := by omega
    have hm_lo : 2 ^ 23 ≤ x * 2 ^ 24 / 2 ^ (8 * (bits x / 8)) := by
      rw [Nat.le_div_iff_mul_le (Nat.two_pow_pos _), hexp, ← Nat.pow_add,
        show 23 + bits x = bits x - 1 + 24 by omega, Nat.pow_add]
      exact Nat.mul_le_mul_right _ hlo
    have hm_hi : x * 2 ^ 24 / 2 ^ (8 * (bits x / 8)) < 2 ^ 24 := by
      rw [Nat.div_lt_iff_lt_mul (Nat.two_pow_pos _), hexp, Nat.mul_comm (2 ^ 24)]
      exact Nat.mul_lt_mul_of_pos_right hhi (Nat.two_pow_pos _)
    rw [if_pos ((and_0x800000_ne_zero_iff hm_hi).mpr hm_lo), Nat.shiftRight_eq_div_pow, Nat.div_div_eq_div_mul,
      ← Nat.pow_add, Nat.mul_succ]
  · have hn : (bits x + 7) / 8 = bits x / 8 + 1 := by omega
    rw [hn]
    have hm_hi := compactWord_lt x
    rw [if_neg (by rw [not_not, ← not_ne_iff, and_0x800000_ne_zero_iff (by omega)]; omega)]

@[simp] theorem GetCompact_zero : GetCompact 0 = 0 := by decide

/-- An exponent and a mantissa below `2 ^ 23`, put together as `GetCompact`
does. -/
theorem or_shiftLeft_eq {m : ℕ} (hm : m < 2 ^ 23) (nSize : ℕ) : m ||| nSize <<< 24 = 2 ^ 24 * nSize + m := by
  rw [Nat.or_comm, Nat.shiftLeft_eq, Nat.mul_comm, Nat.two_pow_add_eq_or_of_lt (by omega)]

theorem compactSize_or {m : ℕ} (hm : m < 2 ^ 23) (nSize : ℕ) : compactSize (m ||| nSize <<< 24) = nSize := by
  rw [compactSize, or_shiftLeft_eq hm, Nat.shiftRight_eq_div_pow]
  omega

theorem compactWord_or {m : ℕ} (hm : m < 2 ^ 23) (nSize : ℕ) : compactWord (m ||| nSize <<< 24) = m := by
  rw [compactWord, or_shiftLeft_eq hm, show (0x007fffff : ℕ) = 2 ^ 23 - 1 from rfl,
    Nat.and_two_pow_sub_one_eq_mod]
  omega

theorem SetCompactNegative_or {m : ℕ} (hm : m < 2 ^ 23) (nSize : ℕ) :
    SetCompactNegative (m ||| nSize <<< 24) = false := by
  have hbit : (m ||| nSize <<< 24) &&& 0x00800000 = 0 := by
    rw [or_shiftLeft_eq hm, show (0x00800000 : ℕ) = 2 ^ 23 from rfl, Nat.and_two_pow,
      Nat.testBit_eq_decide_div_mod_eq, decide_eq_false (by omega)]
    rfl
  simp [SetCompactNegative, hbit]

/-- The bits `GetCompact` drops from `x`: all but its top two or three bytes. -/
def compactExp (x : ℕ) : ℕ := 8 * (bits x / 8) - 16

/-- `SetCompact (GetCompact x)` rounds `x` down to a multiple of
`2 ^ compactExp x`. -/
theorem SetCompact_GetCompact {x : ℕ} (hx : x < 2 ^ 256) :
    SetCompact (GetCompact x) = x / 2 ^ compactExp x * 2 ^ compactExp x := by
  by_cases h0 : x = 0
  · subst h0
    simp [SetCompact, compactSize, compactWord]
  have hw := compactWord_lt x
  simp only [SetCompact, GetCompact_of_ne_zero h0, compactSize_or hw, compactWord_or hw, compactExp]
  split_ifs with hk
  · -- at most two bytes: the mantissa is `x` moved up, and moves back down exactly
    have hpow : 2 ^ 24 = 2 ^ (8 * (bits x / 8 + 1)) * 2 ^ (8 * (3 - (bits x / 8 + 1))) := by
      rw [← Nat.pow_add]
      congr 1
      omega
    rw [hpow, Nat.mul_comm (2 ^ (8 * (bits x / 8 + 1))), ← Nat.mul_assoc, Nat.mul_div_cancel _ (Nat.two_pow_pos _),
      Nat.shiftRight_eq_div_pow, Nat.mul_div_cancel _ (Nat.two_pow_pos _), show 8 * (bits x / 8) - 16 = 0 by omega,
      Nat.pow_zero, Nat.div_one, Nat.mul_one]
  · -- longer: the mantissa is `x` with its low bytes cut, moved back up
    have hpow : 2 ^ (8 * (bits x / 8 + 1)) = 2 ^ 24 * 2 ^ (8 * (bits x / 8) - 16) := by
      rw [← Nat.pow_add]
      congr 1
      omega
    have hle : x / 2 ^ (8 * (bits x / 8) - 16) * 2 ^ (8 * (bits x / 8) - 16) ≤ x := Nat.div_mul_le_self _ _
    rw [hpow, Nat.mul_comm x, Nat.mul_div_mul_left _ _ (Nat.two_pow_pos _), Nat.shiftLeft_eq,
      show 8 * (bits x / 8 + 1 - 3) = 8 * (bits x / 8) - 16 by omega, Nat.mod_eq_of_lt (by omega)]

theorem SetCompactNegative_GetCompact (x : ℕ) : SetCompactNegative (GetCompact x) = false := by
  by_cases h0 : x = 0
  · subst h0
    decide
  rw [GetCompact_of_ne_zero h0]
  exact SetCompactNegative_or (compactWord_lt x) _

/-- The exponent `GetCompact` writes is at most `33`, and at `33` the mantissa
has two bytes: the flag never fires on a 256-bit value. -/
theorem SetCompactOverflow_GetCompact {x : ℕ} (hx : x < 2 ^ 256) : SetCompactOverflow (GetCompact x) = false := by
  by_cases h0 : x = 0
  · subst h0
    decide
  have hw := compactWord_lt x
  have hk : bits x / 8 ≤ 32 := by
    have := bits_le_of_lt hx
    omega
  have h32 : bits x / 8 = 32 → x * 2 ^ 24 / 2 ^ (8 * (bits x / 8 + 1)) ≤ 0xffff := by
    intro h
    rw [h, Nat.le_iff_lt_add_one, Nat.div_lt_iff_lt_mul (Nat.two_pow_pos _)]
    omega
  simp only [SetCompactOverflow, GetCompact_of_ne_zero h0, compactSize_or hw, compactWord_or hw,
    Bool.and_eq_false_iff, Bool.or_eq_false_iff, decide_eq_false_iff_not]
  right
  omega

/-- `x` with every bit below its top three significant bytes cleared, or below
its top two when its leading byte is `0x80` or more. -/
def compactRound (x : ℕ) : ℕ :=
  let nSize := (bits x + 7) / 8
  let keep := if 0x80 ≤ x >>> (8 * (nSize - 1)) then 2 else 3
  x >>> (8 * (nSize - keep)) <<< (8 * (nSize - keep))

/-- Keeping two bytes after a leading byte of `0x80` or more, and three
otherwise, is cutting `compactExp x` bits. -/
theorem compactRound_eq (x : ℕ) : compactRound x = x / 2 ^ compactExp x * 2 ^ compactExp x := by
  by_cases h0 : x = 0
  · subst h0
    simp [compactRound]
  have hlo := two_pow_bits_le h0
  have hhi := lt_two_pow_bits x
  have hpos := bits_pos h0
  simp only [compactRound, compactExp, Nat.shiftRight_eq_div_pow, Nat.shiftLeft_eq]
  by_cases hb : bits x % 8 = 0
  · -- the leading byte holds the top bit: `0x80` or more
    have hlead : 0x80 ≤ x / 2 ^ (8 * ((bits x + 7) / 8 - 1)) := by
      rw [Nat.le_div_iff_mul_le (Nat.two_pow_pos _), show (0x80 : ℕ) = 2 ^ 7 from rfl, ← Nat.pow_add]
      exact le_trans (Nat.pow_le_pow_right (by norm_num) (by omega)) hlo
    rw [if_pos hlead, show 8 * ((bits x + 7) / 8 - 2) = 8 * (bits x / 8) - 16 by omega]
  · have hlead : ¬0x80 ≤ x / 2 ^ (8 * ((bits x + 7) / 8 - 1)) := by
      rw [not_le, Nat.div_lt_iff_lt_mul (Nat.two_pow_pos _), show (0x80 : ℕ) = 2 ^ 7 from rfl, ← Nat.pow_add]
      exact lt_of_lt_of_le hhi (Nat.pow_le_pow_right (by norm_num) (by omega))
    rw [if_neg hlead, show 8 * ((bits x + 7) / 8 - 3) = 8 * (bits x / 8) - 16 by omega]

/-- The rounding keeps the top bit of `x`. -/
theorem two_pow_bits_le_round {x : ℕ} (h0 : x ≠ 0) :
    2 ^ (bits x - 1) ≤ x / 2 ^ compactExp x * 2 ^ compactExp x := by
  have hdvd : 2 ^ compactExp x ∣ 2 ^ (bits x - 1) := Nat.pow_dvd_pow 2 (by rw [compactExp]; omega)
  calc 2 ^ (bits x - 1) = 2 ^ (bits x - 1) / 2 ^ compactExp x * 2 ^ compactExp x := (Nat.div_mul_cancel hdvd).symm
    _ ≤ x / 2 ^ compactExp x * 2 ^ compactExp x :=
      Nat.mul_le_mul_right _ (Nat.div_le_div_right (two_pow_bits_le h0))

/-- The rounded value encodes as `x` did: same length, same top bytes. -/
theorem GetCompact_round (x : ℕ) : GetCompact (x / 2 ^ compactExp x * 2 ^ compactExp x) = GetCompact x := by
  by_cases h0 : x = 0
  · subst h0
    rw [Nat.zero_div, Nat.zero_mul]
  have hlo := two_pow_bits_le_round h0
  have hle : x / 2 ^ compactExp x * 2 ^ compactExp x ≤ x := Nat.div_mul_le_self _ _
  have hpos := bits_pos h0
  have hbits : bits (x / 2 ^ compactExp x * 2 ^ compactExp x) = bits x :=
    bits_eq_of_mem hpos hlo (lt_of_le_of_lt hle (lt_two_pow_bits x))
  have hne : x / 2 ^ compactExp x * 2 ^ compactExp x ≠ 0 := by
    have := Nat.two_pow_pos (bits x - 1)
    omega
  -- the two mantissas agree
  have hm : x / 2 ^ compactExp x * 2 ^ compactExp x * 2 ^ 24 / 2 ^ (8 * (bits x / 8 + 1)) =
      x * 2 ^ 24 / 2 ^ (8 * (bits x / 8 + 1)) := by
    by_cases hk : bits x / 8 ≤ 2
    · -- nothing was cut
      rw [show compactExp x = 0 by rw [compactExp]; omega, Nat.pow_zero, Nat.div_one, Nat.mul_one]
    · -- both scale down by the bits that were cut
      have hpow : 2 ^ (8 * (bits x / 8 + 1)) = 2 ^ 24 * 2 ^ compactExp x := by
        rw [compactExp, ← Nat.pow_add]
        congr 1
        omega
      rw [hpow, Nat.mul_comm _ (2 ^ 24), Nat.mul_comm x (2 ^ 24), Nat.mul_div_mul_left _ _ (Nat.two_pow_pos _),
        Nat.mul_div_mul_left _ _ (Nat.two_pow_pos _), Nat.mul_div_cancel _ (Nat.two_pow_pos _)]
  rw [GetCompact_of_ne_zero hne, GetCompact_of_ne_zero h0, hbits, hm]

/-- The rounding is monotone: a longer value keeps a top bit above every
shorter one. -/
theorem round_mono {x y : ℕ} (hxy : x ≤ y) :
    x / 2 ^ compactExp x * 2 ^ compactExp x ≤ y / 2 ^ compactExp y * 2 ^ compactExp y := by
  have hbits : bits x ≤ bits y := bits_le_of_lt (lt_of_le_of_lt hxy (lt_two_pow_bits y))
  by_cases hk : bits x / 8 = bits y / 8
  · have he : compactExp x = compactExp y := by rw [compactExp, compactExp, hk]
    rw [he]
    exact Nat.mul_le_mul_right _ (Nat.div_le_div_right hxy)
  · -- `y` is longer by at least a byte
    have hy0 : y ≠ 0 := by
      rintro rfl
      rw [Nat.le_zero.mp hxy] at hk
      exact hk rfl
    have hlt : bits x < bits y := by omega
    apply le_of_lt
    calc x / 2 ^ compactExp x * 2 ^ compactExp x ≤ x := Nat.div_mul_le_self _ _
      _ < 2 ^ bits x := lt_two_pow_bits x
      _ ≤ 2 ^ (bits y - 1) := Nat.pow_le_pow_right (by norm_num) (by omega)
      _ ≤ y / 2 ^ compactExp y * 2 ^ compactExp y := two_pow_bits_le_round hy0

/-- The compact form is a normal form: decoding an encoded 256-bit value
raises neither flag, gives the value with all but its top three bytes cleared
(two after a leading byte of `0x80` or more), never more than the value, and
encodes again to the same form; and it is monotone. -/
theorem compact_normalForm (x : ℕ) (hx : x < 2 ^ 256) :
    SetCompactNegative (GetCompact x) = false ∧ SetCompactOverflow (GetCompact x) = false ∧
      SetCompact (GetCompact x) = compactRound x ∧ SetCompact (GetCompact x) ≤ x ∧
      GetCompact (SetCompact (GetCompact x)) = GetCompact x ∧
      ∀ y, y < 2 ^ 256 → x ≤ y → SetCompact (GetCompact x) ≤ SetCompact (GetCompact y) := by
  refine ⟨SetCompactNegative_GetCompact x, SetCompactOverflow_GetCompact hx, ?_, ?_, ?_, ?_⟩
  · rw [SetCompact_GetCompact hx, compactRound_eq]
  · rw [SetCompact_GetCompact hx]
    exact Nat.div_mul_le_self _ _
  · rw [SetCompact_GetCompact hx, GetCompact_round]
  · intro y hy hxy
    rw [SetCompact_GetCompact hx, SetCompact_GetCompact hy]
    exact round_mono hxy

/-- A four-byte value keeps its top three bytes. -/
theorem compact_normalForm_0x1234567 :
    SetCompact (GetCompact 0x1234567) = 0x1234500 := by
  rw [(compact_normalForm 0x1234567 (by decide)).2.2.1]
  decide

end ArithUint256
