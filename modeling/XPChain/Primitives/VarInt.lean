import XPChain.Primitives.Serialize
import Mathlib.Data.Nat.Bitwise

/-!
# Variable-length integers

`WriteVarInt`, `ReadVarInt` and `GetSizeOfVarInt` of `serialize.h`: a
most-significant-first base-128 encoding in which every digit but the last
has the high bit set and is one less than its weight asks, so that every
number has exactly one encoding.  The reader accumulates in the unsigned type
`I` of `bits` bits and throws where the shift or the increment would leave
it.

Values are natural numbers.  `WriteVarInt` of a value of type `I` never
wraps, and the writer here is defined on every natural number, so that the
encodings of values above `max(I)` can be handed to the reader.

## Main definitions

* `writeVarInt`, `getSizeOfVarInt`, `readVarInt`.
* `varIntBytes` — the encoding, most significant digit first, with the high
  bit of the last digit given.

## Main statements

* `writeVarInt_eq` — `WriteVarInt` writes `varIntBytes`.
* `readVarInt_writeVarInt` — the reader returns every value up to `max(I)`
  from its encoding and throws on the encoding of every larger one.
* `readVarInt_sound` — every string the reader accepts is the encoding of the
  value it returns.
-/

set_option autoImplicit false

namespace XPChain

open LittleEndian

/-- The bytes `WriteVarInt` stores in `tmp` from `tmp[len]` on: the low seven
bits, with the high bit set on all but `tmp[0]`. -/
def varIntTmp (n len : ℕ) : List UInt8 :=
  let b := UInt8.ofNat ((n &&& 0x7F) ||| (if len ≠ 0 then 0x80 else 0x00))
  if n ≤ 0x7F then [b] else b :: varIntTmp ((n >>> 7) - 1) (len + 1)
termination_by n
decreasing_by
  rw [Nat.shiftRight_eq_div_pow]
  omega

/-- `WriteVarInt`: `tmp[len]` down to `tmp[0]`. -/
def writeVarInt (n : ℕ) : List UInt8 := (varIntTmp n 0).reverse

/-- `GetSizeOfVarInt`. -/
def getSizeOfVarInt (n : ℕ) : ℕ :=
  if n ≤ 0x7F then 1 else getSizeOfVarInt ((n >>> 7) - 1) + 1
termination_by n
decreasing_by
  rw [Nat.shiftRight_eq_div_pow]
  omega

/-- `ReadVarInt<I>` for the unsigned `I` of `bits` bits, from the value `n`
read so far; `none` where it throws, at the end of the stream or on a value
too large for `I`. -/
def readVarInt (bits n : ℕ) : List UInt8 → Option (ℕ × List UInt8)
  | [] => none
  | chData :: s =>
    if (2 ^ bits - 1) >>> 7 < n then none
    else
      let n := (n <<< 7) % 2 ^ bits ||| (chData.toNat &&& 0x7F)
      if chData.toNat &&& 0x80 ≠ 0 then
        if n = 2 ^ bits - 1 then none else readVarInt bits (n + 1) s
      else some (n, s)

/-! ## Digits -/

/-- A digit `d < 128` as a byte, with the high bit when `high`. -/
def varIntByte (d : ℕ) (high : Bool) : UInt8 := UInt8.ofNat (d + if high then 128 else 0)

/-- The encoding of `n`, most significant digit first: every digit but the
last has the high bit and is one less than the rest of `n` asks; the last has
the high bit when `high`. -/
def varIntBytes (n : ℕ) (high : Bool) : List UInt8 :=
  if n ≤ 127 then [varIntByte n high] else varIntBytes (n / 128 - 1) true ++ [varIntByte (n % 128) high]
termination_by n

theorem toNat_varIntByte {d : ℕ} (hd : d < 128) (high : Bool) :
    (varIntByte d high).toNat = d + if high then 128 else 0 := by
  rw [varIntByte, UInt8.toNat_ofNat']
  cases high <;> simp <;> omega

/-- Every byte is a digit with or without the high bit. -/
theorem eq_varIntByte (b : UInt8) : b = varIntByte (b.toNat % 128) (decide (128 ≤ b.toNat)) := by
  apply UInt8.toNat_inj.mp
  have hb := UInt8.toNat_lt b
  rw [toNat_varIntByte (Nat.mod_lt _ (by norm_num))]
  by_cases h : 128 ≤ b.toNat <;> simp [h] <;> omega

/-- `WriteVarInt` writes `varIntBytes`. -/
theorem reverse_varIntTmp (n len : ℕ) : (varIntTmp n len).reverse = varIntBytes n (len ≠ 0) := by
  induction n using Nat.strong_induction_on generalizing len with
  | _ n ih =>
    have hbyte : UInt8.ofNat ((n &&& 0x7F) ||| (if len ≠ 0 then 0x80 else 0x00)) =
        varIntByte (n % 128) (len ≠ 0) := by
      rw [show (0x7F : ℕ) = 2 ^ 7 - 1 from rfl, Nat.and_two_pow_sub_one_eq_mod, varIntByte]
      by_cases hlen : len = 0
      · simp [hlen]
      · have hor : n % 2 ^ 7 ||| 0x80 = 2 ^ 7 * 1 + n % 2 ^ 7 := by
          rw [Nat.two_pow_add_eq_or_of_lt (Nat.mod_lt _ (by norm_num)), Nat.lor_comm]
        simp only [hlen, if_true, ne_eq, not_false_eq_true, decide_true, hor]
        congr 1
        omega
    rw [varIntTmp, varIntBytes, hbyte]
    by_cases hn : n ≤ 127
    · rw [if_pos hn, if_pos hn, Nat.mod_eq_of_lt (by omega)]
      rfl
    · rw [if_neg hn, if_neg hn, List.reverse_cons, Nat.shiftRight_eq_div_pow,
        ih _ (by omega) (len + 1)]
      simp

theorem writeVarInt_eq (n : ℕ) : writeVarInt n = varIntBytes n false := by
  rw [writeVarInt, reverse_varIntTmp]
  rfl

theorem length_varIntBytes (n : ℕ) (high : Bool) : (varIntBytes n high).length = getSizeOfVarInt n := by
  induction n using Nat.strong_induction_on generalizing high with
  | _ n ih =>
    rw [varIntBytes, getSizeOfVarInt]
    by_cases hn : n ≤ 127
    · rw [if_pos hn, if_pos hn]
      rfl
    · rw [if_neg hn, if_neg (by omega), List.length_append, ih _ (by omega), Nat.shiftRight_eq_div_pow]
      rfl

/-- The digits read before the last one, for a reader that has reached the
value `acc`: none at `0`, and the high-bit encoding of `m` at `m + 1`. -/
def varIntPrefix : ℕ → List UInt8
  | 0 => []
  | m + 1 => varIntBytes m true

/-- The last digit splits off the encoding. -/
theorem varIntBytes_split_last (acc : ℕ) {d : ℕ} (hd : d < 128) (high : Bool) :
    varIntBytes (acc * 128 + d) high = varIntPrefix acc ++ [varIntByte d high] := by
  rw [varIntBytes]
  cases acc with
  | zero => rw [if_pos (by omega), Nat.zero_mul, Nat.zero_add]; rfl
  | succ m =>
    have hdiv : ((m + 1) * 128 + d) / 128 - 1 = m := by omega
    have hmod : ((m + 1) * 128 + d) % 128 = d := by omega
    rw [if_neg (by omega), hdiv, hmod]
    rfl

/-! ## Reading back -/

section Read

variable {bits : ℕ}

/-- `I` has at least seven bits: its size is a positive multiple of 128. -/
theorem exists_two_pow_eq (hbits : 7 ≤ bits) : ∃ Q, 2 ^ bits = 128 * Q ∧ 0 < Q :=
  ⟨2 ^ (bits - 7), by rw [show (128 : ℕ) = 2 ^ 7 from rfl, ← pow_add, Nat.add_sub_cancel' hbits], by positivity⟩

/-- One step of the reader from `acc`: it throws when `acc` cannot be
shifted, and otherwise adds the byte's seven low bits below `acc`. -/
theorem readVarInt_cons (hbits : 7 ≤ bits) (acc : ℕ) (b : UInt8) (s : List UInt8) :
    readVarInt bits acc (b :: s) =
      if 2 ^ bits / 128 ≤ acc then none
      else if 128 ≤ b.toNat then
        if acc * 128 + b.toNat % 128 = 2 ^ bits - 1 then none else readVarInt bits (acc * 128 + b.toNat % 128 + 1) s
      else some (acc * 128 + b.toNat % 128, s) := by
  obtain ⟨Q, hQ, hQpos⟩ := exists_two_pow_eq hbits
  have hb := UInt8.toNat_lt b
  have hlow : b.toNat &&& 0x7F = b.toNat % 128 := Nat.and_two_pow_sub_one_eq_mod _ 7
  simp only [readVarInt, Nat.shiftRight_eq_div_pow, Nat.shiftLeft_eq, hlow, Nat.reducePow]
  generalize 2 ^ bits = P at hQ ⊢
  by_cases hacc : P / 128 ≤ acc
  · have hshift : (P - 1) / 128 < acc := by omega
    rw [if_pos hshift, if_pos hacc]
  · have hshift : ¬(P - 1) / 128 < acc := by omega
    rw [if_neg hshift, if_neg hacc]
    -- below `max(I) >> 7` the shift does not wrap, and the low bits fill the gap
    have hmul : acc * 128 % P = acc * 128 := Nat.mod_eq_of_lt (by omega)
    have hor : acc * 128 ||| b.toNat % 128 = acc * 128 + b.toNat % 128 := by
      rw [mul_comm, show (128 : ℕ) = 2 ^ 7 from rfl,
        Nat.two_pow_add_eq_or_of_lt (Nat.mod_lt _ (by norm_num))]
    simp only [hmul, hor, and_0x80_ne_zero hb]

/-- A byte below 128 is a whole encoding. -/
theorem readVarInt_of_lt_128 (hbits : 7 ≤ bits) {b : UInt8} (hb : b.toNat < 128) (s : List UInt8) :
    readVarInt bits 0 (b :: s) = some (b.toNat, s) := by
  obtain ⟨Q, hQ, hQpos⟩ := exists_two_pow_eq hbits
  rw [readVarInt_cons hbits, if_neg (by omega), if_neg (by omega), Nat.zero_mul, Nat.zero_add, Nat.mod_eq_of_lt hb]

/-- Reading a digit: the reader throws when `acc` cannot be shifted, and
otherwise goes on after a high-bit digit and returns after the last one. -/
theorem readVarInt_varIntByte (hbits : 7 ≤ bits) (acc : ℕ) {d : ℕ} (hd : d < 128) (high : Bool)
    (s : List UInt8) :
    readVarInt bits acc (varIntByte d high :: s) =
      if 2 ^ bits / 128 ≤ acc then none
      else if high then
        (if acc * 128 + d = 2 ^ bits - 1 then none else readVarInt bits (acc * 128 + d + 1) s)
      else some (acc * 128 + d, s) := by
  rw [readVarInt_cons hbits, toNat_varIntByte hd]
  cases high
  · simp [Nat.mod_eq_of_lt hd, show ¬128 ≤ d by omega]
  · simp [Nat.mod_eq_of_lt hd]

/-- Reading an encoding from the start: with the high bit on its last digit
the reader goes on from the value plus one, and without it returns the
value; it throws where the value does not fit in `I`. -/
theorem readVarInt_varIntBytes (hbits : 7 ≤ bits) (m : ℕ) (high : Bool) (s : List UInt8) :
    readVarInt bits 0 (varIntBytes m high ++ s) =
      if high then (if m < 2 ^ bits - 1 then readVarInt bits (m + 1) s else none)
      else if m < 2 ^ bits then some (m, s) else none := by
  obtain ⟨Q, hQ, hQpos⟩ := exists_two_pow_eq hbits
  induction m using Nat.strong_induction_on generalizing high s with
  | _ m ih =>
    rw [varIntBytes]
    by_cases hm : m ≤ 127
    · -- one digit, read from `0`
      have hfit : ¬2 ^ bits / 128 ≤ 0 := by omega
      rw [if_pos hm, List.singleton_append, readVarInt_varIntByte hbits 0 (by omega), if_neg hfit]
      cases high <;> simp only [Nat.zero_mul, Nat.zero_add, Bool.false_eq_true, if_true, if_false] <;>
        split_ifs <;> first | rfl | omega
    · -- the digits before the last bring the reader to `m / 128`
      have hsplit : m / 128 * 128 + m % 128 = m := by omega
      rw [if_neg hm, List.append_assoc, List.singleton_append, ih _ (by omega) true, if_pos rfl]
      by_cases hprev : m / 128 - 1 < 2 ^ bits - 1
      · rw [if_pos hprev, show m / 128 - 1 + 1 = m / 128 by omega,
          readVarInt_varIntByte hbits _ (Nat.mod_lt _ (by norm_num)), hsplit]
        cases high <;> simp only [Bool.false_eq_true, if_true, if_false] <;> split_ifs <;> first | rfl | omega
      · rw [if_neg hprev]
        cases high <;> simp only [Bool.false_eq_true, if_true, if_false] <;> split_ifs <;> first | rfl | omega

/-- What the reader accepts from `acc` completes an encoding that
`varIntPrefix acc` began. -/
theorem readVarInt_sound_from (hbits : 7 ≤ bits) :
    ∀ (bs : List UInt8) (acc n : ℕ) (s : List UInt8), readVarInt bits acc bs = some (n, s) →
      varIntPrefix acc ++ bs = varIntBytes n false ++ s
  | [], _, _, _, h => by cases h
  | b :: bs, acc, n, s, h => by
    have hd : b.toNat % 128 < 128 := Nat.mod_lt _ (by norm_num)
    -- the digit just read ends the encoding of the value reached
    have hdigit (high : Bool) (hb : b = varIntByte (b.toNat % 128) high) :
        varIntPrefix acc ++ b :: bs = varIntBytes (acc * 128 + b.toNat % 128) high ++ bs := by
      rw [varIntBytes_split_last acc hd high, List.append_assoc, List.singleton_append, ← hb]
    have hb := eq_varIntByte b
    rw [readVarInt_cons hbits] at h
    split_ifs at h with hacc hhigh hmax
    · rw [decide_eq_true hhigh] at hb
      rw [hdigit true hb]
      exact readVarInt_sound_from hbits bs _ n s h
    · obtain ⟨rfl, rfl⟩ := Prod.mk.inj (Option.some.inj h)
      rw [decide_eq_false hhigh] at hb
      exact hdigit false hb

/-- Every value of `I` reads back from its encoding, and the encoding of
every larger value makes the reader throw. -/
theorem readVarInt_writeVarInt (hbits : 7 ≤ bits) (n : ℕ) (s : List UInt8) :
    readVarInt bits 0 (writeVarInt n ++ s) = if n < 2 ^ bits then some (n, s) else none := by
  rw [writeVarInt_eq, readVarInt_varIntBytes hbits]
  rfl

/-- Every string the reader accepts is the encoding of the value it returns. -/
theorem readVarInt_sound (hbits : 7 ≤ bits) {bs : List UInt8} {n : ℕ} {s : List UInt8}
    (h : readVarInt bits 0 bs = some (n, s)) : bs = writeVarInt n ++ s := by
  rw [writeVarInt_eq]
  exact readVarInt_sound_from hbits bs 0 n s h

end Read

theorem length_writeVarInt (n : ℕ) : (writeVarInt n).length = getSizeOfVarInt n := by
  rw [writeVarInt_eq, length_varIntBytes]

/-- CompactSize and VarInt are bijective encodings.  Every size up to
`MAX_SIZE` reads back from its `GetSizeOfCompactSize` bytes, and the reader
accepts nothing else, so a non-canonical or too large size is rejected.
For `uint32_t` and `uint64_t`, every value reads back from its
`GetSizeOfVarInt` bytes, every accepted string is the encoding of the value
read, and the reader throws on the encoding of a value exactly when it is
above `max(I)`. -/
theorem compactSize_varInt_roundTrip :
    (∀ n ≤ MAX_SIZE, ∀ s, readCompactSize (writeCompactSize n ++ s) = some (n, s) ∧
      (writeCompactSize n).length = getSizeOfCompactSize n) ∧
    (∀ bs n s, readCompactSize bs = some (n, s) → n ≤ MAX_SIZE ∧ bs = writeCompactSize n ++ s) ∧
    ∀ bits, bits = 32 ∨ bits = 64 →
      (∀ n < 2 ^ bits, ∀ s, readVarInt bits 0 (writeVarInt n ++ s) = some (n, s) ∧
        (writeVarInt n).length = getSizeOfVarInt n) ∧
      (∀ bs n s, readVarInt bits 0 bs = some (n, s) → bs = writeVarInt n ++ s) ∧
      ∀ n s, readVarInt bits 0 (writeVarInt n ++ s) = none ↔ 2 ^ bits ≤ n := by
  refine ⟨fun n hn s => ⟨readCompactSize_writeCompactSize hn s, length_writeCompactSize n⟩,
    fun bs n s h => readCompactSize_sound h, fun bits hbits => ?_⟩
  have h7 : 7 ≤ bits := by omega
  refine ⟨fun n hn s => ⟨?_, length_writeVarInt n⟩, fun bs n s h => readVarInt_sound h7 h, fun n s => ?_⟩
  · rw [readVarInt_writeVarInt h7, if_pos hn]
  · rw [readVarInt_writeVarInt h7]
    split_ifs with hn
    · simp only [false_iff, not_le]
      exact hn
    · simp only [true_iff]
      omega

theorem compactSize_varInt_roundTrip_300 :
    readCompactSize (writeCompactSize 300 ++ []) = some (300, []) ∧
      readVarInt 64 0 (writeVarInt 300 ++ []) = some (300, []) :=
  ⟨(compactSize_varInt_roundTrip.1 300 (by decide) []).1,
    ((compactSize_varInt_roundTrip.2.2 64 (Or.inr rfl)).1 300 (by norm_num) []).1⟩

end XPChain
