import XPChain.Lib.BitGroups
import Mathlib.Data.Nat.Bitwise

/-!
# `ConvertBits`

`ConvertBits<frombits, tobits, pad>` of `utilstrencodings.h` regroups a
stream of `frombits`-bit values into `tobits`-bit values, most significant
bits first, as segwit addresses turn the bytes of a witness program into the
5-bit symbols of bech32 and back.  Its accumulator `acc` is masked to
`frombits + tobits - 1` bits, enough for the `bits` bits not yet written and
the next value.  With `pad` the last group is filled with zero bits; without
it the conversion fails when `frombits` bits or more are left over, or when
the bits left over are not zero.

Every loop keeps one invariant (`ConvertState.Holds`): the values read so far
spell a number, whose complete groups of `tobits` bits have been written and
whose remaining bits are the low bits of `acc`.  A round trip through a wider
group and back then reads the same number in groups of the same length
(`BitGroups.value_inj`).

## Main definitions

* `ConvertState`, `convertDrain`, `convertStep`, `ConvertBits`.

## Main statements

* `ConvertBits_pad` — with padding: the groups spell the number shifted by
  the padding.
* `ConvertBits_of_zero_tail` — without padding: the groups spell the number
  with its zero tail removed.
* `ConvertBits_roundTrip` — bytes to 5-bit symbols and back.
-/

set_option autoImplicit false

namespace XPChain

/-- The locals of `ConvertBits`: the accumulator `acc`, the number `bits` of
its bits not yet written, and the values given to `outfn` so far. -/
structure ConvertState where
  acc : ℕ
  bits : ℕ
  out : List UInt8
  deriving DecidableEq, Repr

section Defs

variable (frombits tobits : ℕ)

/-- The inner loop `while (bits >= tobits)`, for at most `fuel` rounds. -/
def convertDrain : ℕ → ConvertState → ConvertState
  | 0, st => st
  | fuel + 1, st =>
    if tobits ≤ st.bits then
      convertDrain fuel
        { st with
          bits := st.bits - tobits
          out := st.out ++ [UInt8.ofNat ((st.acc >>> (st.bits - tobits)) &&& ((1 <<< tobits) - 1))] }
    else st

/-- One pass of the outer loop: the next value shifted into `acc`, then every
complete group written; `bits + 1` rounds of the inner loop are enough for a
positive `tobits`. -/
def convertStep (st : ConvertState) (x : UInt8) : ConvertState :=
  let acc := ((st.acc <<< frombits) ||| x.toNat) &&& ((1 <<< (frombits + tobits - 1)) - 1)
  let bits := st.bits + frombits
  convertDrain tobits (bits + 1) { st with acc := acc, bits := bits }

/-- `ConvertBits<frombits, tobits, pad>(outfn, it, end)`: the values it
gives `outfn`, or `none` where it returns `false`. -/
def ConvertBits (pad : Bool) (input : List UInt8) : Option (List UInt8) :=
  let st := input.foldl (convertStep frombits tobits) ⟨0, 0, []⟩
  let maxv := (1 <<< tobits) - 1
  if pad then
    some (if st.bits ≠ 0 then st.out ++ [UInt8.ofNat ((st.acc <<< (tobits - st.bits)) &&& maxv)] else st.out)
  else if frombits ≤ st.bits ∨ (st.acc <<< (tobits - st.bits)) &&& maxv ≠ 0 then none
  else some st.out

end Defs

/-- The state holds the number `V` of `n` bits: its complete groups of
`tobits` bits are in `out`, and the `bits` bits left over are the low bits of
`acc`. -/
structure ConvertState.Holds (tobits V n : ℕ) (st : ConvertState) : Prop where
  value_eq : V = BitGroups.value tobits (st.out.map UInt8.toNat) * 2 ^ st.bits + st.acc % 2 ^ st.bits
  length_eq : st.out.length * tobits + st.bits = n
  lt : ∀ y ∈ st.out, y.toNat < 2 ^ tobits

section Loop

variable {frombits tobits : ℕ}

theorem toNat_ofNat_of_lt {y : ℕ} (hy : y < 2 ^ 8) : (UInt8.ofNat y).toNat = y := by
  rw [UInt8.toNat_ofNat', Nat.mod_eq_of_lt hy]

/-- The group written by the inner loop: the top `tobits` of the `bits` bits
left over. -/
theorem shiftRight_and_eq (acc b t : ℕ) : (acc >>> b) &&& ((1 <<< t) - 1) = acc % 2 ^ (b + t) / 2 ^ b := by
  rw [Nat.shiftRight_eq_div_pow, Nat.one_shiftLeft, Nat.and_two_pow_sub_one_eq_mod, Nat.pow_add,
    Nat.mod_mul_right_div_self]

/-- A round of the inner loop writes the top group of the bits left over and
keeps the invariant; the loop stops with fewer than `tobits` bits left. -/
theorem convertDrain_holds (ht : 0 < tobits) (ht8 : tobits ≤ 8) {V n : ℕ} :
    ∀ fuel (st : ConvertState), st.Holds tobits V n → st.bits < tobits * (fuel + 1) →
      (convertDrain tobits fuel st).Holds tobits V n ∧ (convertDrain tobits fuel st).bits < tobits
  | 0, st, h, hb => ⟨h, by simpa [convertDrain] using hb⟩
  | fuel + 1, st, h, hb => by
    rw [convertDrain]
    split_ifs with hge
    · apply convertDrain_holds ht ht8 fuel _ _ (by dsimp only; rw [Nat.mul_succ] at hb; omega)
      -- the group written: the top `tobits` of the `bits` bits
      have hsplit : st.bits - tobits + tobits = st.bits := Nat.sub_add_cancel hge
      have hy : st.acc % 2 ^ st.bits / 2 ^ (st.bits - tobits) < 2 ^ tobits := by
        rw [Nat.div_lt_iff_lt_mul (Nat.two_pow_pos _), ← Nat.pow_add, Nat.add_comm, hsplit]
        exact Nat.mod_lt _ (Nat.two_pow_pos _)
      have hy8 : st.acc % 2 ^ st.bits / 2 ^ (st.bits - tobits) < 2 ^ 8 :=
        Nat.lt_of_lt_of_le hy (Nat.pow_le_pow_right (by decide) ht8)
      have hwrite : (UInt8.ofNat ((st.acc >>> (st.bits - tobits)) &&& ((1 <<< tobits) - 1))).toNat =
          st.acc % 2 ^ st.bits / 2 ^ (st.bits - tobits) := by
        rw [shiftRight_and_eq, hsplit, toNat_ofNat_of_lt hy8]
      refine ⟨?_, ?_, ?_⟩
      · dsimp only
        have hmod := BitGroups.mod_two_pow_split st.acc st.bits tobits
        have hpow : 2 ^ st.bits = 2 ^ tobits * 2 ^ (st.bits - tobits) := by
          rw [← Nat.pow_add, Nat.add_comm, hsplit]
        rw [List.map_append, List.map_singleton, hwrite, BitGroups.value_append_singleton, h.value_eq]
        set y := st.acc % 2 ^ st.bits / 2 ^ (st.bits - tobits)
        rw [hmod, hpow]
        ring
      · dsimp only
        rw [List.length_append, List.length_singleton, ← h.length_eq]
        rw [Nat.add_mul, Nat.one_mul]
        omega
      · intro y hy'
        rcases List.mem_append.mp hy' with hy' | hy'
        · exact h.lt y hy'
        · rw [List.mem_singleton] at hy'
          rw [hy', hwrite]
          exact hy
    · exact ⟨h, Nat.lt_of_not_le hge⟩

/-- Shifting the next value into the accumulator: the mask keeps the bits
left over and the new ones. -/
theorem shift_in_mod (acc : ℕ) {x f b t : ℕ} (hx : x < 2 ^ f) (hb : b < t) :
    (((acc <<< f) ||| x) &&& ((1 <<< (f + t - 1)) - 1)) % 2 ^ (b + f) = acc % 2 ^ b * 2 ^ f + x := by
  have hdvd : 2 ^ (b + f) ∣ 2 ^ (f + t - 1) := Nat.pow_dvd_pow 2 (by omega)
  have hlt : acc % 2 ^ b * 2 ^ f + x < 2 ^ (b + f) := by
    have hacc := Nat.mod_lt acc (Nat.two_pow_pos b)
    calc acc % 2 ^ b * 2 ^ f + x < acc % 2 ^ b * 2 ^ f + 2 ^ f := Nat.add_lt_add_left hx _
      _ = (acc % 2 ^ b + 1) * 2 ^ f := by ring
      _ ≤ 2 ^ b * 2 ^ f := Nat.mul_le_mul_right _ hacc
      _ = 2 ^ (b + f) := (Nat.pow_add 2 b f).symm
  have hsplit : acc * 2 ^ f + x = (acc % 2 ^ b * 2 ^ f + x) + acc / 2 ^ b * 2 ^ (b + f) := by
    conv_lhs => rw [← Nat.mod_add_div acc (2 ^ b)]
    rw [Nat.pow_add]
    ring
  rw [← Nat.shiftLeft_add_eq_or_of_lt hx, Nat.one_shiftLeft, Nat.and_two_pow_sub_one_eq_mod,
    Nat.mod_mod_of_dvd _ hdvd, Nat.shiftLeft_eq, hsplit, Nat.add_mul_mod_self_right, Nat.mod_eq_of_lt hlt]

/-- One value read: the number grows by it, and the complete groups are
written. -/
theorem convertStep_holds (ht : 0 < tobits) (ht8 : tobits ≤ 8) {V n : ℕ} {st : ConvertState} {x : UInt8}
    (h : st.Holds tobits V n) (hb : st.bits < tobits) (hx : x.toNat < 2 ^ frombits) :
    (convertStep frombits tobits st x).Holds tobits (V * 2 ^ frombits + x.toNat) (n + frombits) ∧
      (convertStep frombits tobits st x).bits < tobits := by
  apply convertDrain_holds ht ht8
  · refine ⟨?_, ?_, h.lt⟩
    · dsimp only
      rw [shift_in_mod st.acc hx hb, h.value_eq, Nat.pow_add]
      ring
    · dsimp only
      rw [← h.length_eq]
      omega
  · -- every round but the last writes a group
    dsimp only
    exact Nat.lt_of_lt_of_le (by omega) (Nat.le_mul_of_pos_left _ ht)

/-- The outer loop over the whole input: the values read spell a number of
`frombits` bits each, and the state holds it. -/
theorem foldl_convertStep_holds (ht : 0 < tobits) (ht8 : tobits ≤ 8) (xs : List UInt8)
    (hxs : ∀ x ∈ xs, x.toNat < 2 ^ frombits) :
    (xs.foldl (convertStep frombits tobits) ⟨0, 0, []⟩).Holds tobits
        (BitGroups.value frombits (xs.map UInt8.toNat)) (frombits * xs.length) ∧
      (xs.foldl (convertStep frombits tobits) ⟨0, 0, []⟩).bits < tobits := by
  induction xs using List.reverseRecOn with
  | nil => exact ⟨⟨by simp, by simp, by simp⟩, ht⟩
  | append_singleton xs x ih =>
    obtain ⟨h, hb⟩ := ih fun y hy => hxs y (List.mem_append_left _ hy)
    have hstep := convertStep_holds ht ht8 h hb (hxs x (List.mem_append_right _ (List.mem_singleton_self x)))
    rw [List.foldl_append, List.foldl_cons, List.foldl_nil, List.map_append, List.map_singleton,
      BitGroups.value_append_singleton, List.length_append, List.length_singleton, Nat.mul_add, Nat.mul_one]
    exact hstep

/-- The bits left over are those of the input past its last complete
group. -/
theorem ConvertState.Holds.bits_eq {V n : ℕ} {st : ConvertState} (h : st.Holds tobits V n) (hb : st.bits < tobits) :
    st.bits = n % tobits := by
  rw [← h.length_eq, Nat.add_comm, Nat.add_mul_mod_self_right, Nat.mod_eq_of_lt hb]

/-- The last group of the padded output: the bits left over followed by
zero bits. -/
theorem shiftLeft_and_eq (acc : ℕ) {b t : ℕ} (hb : b ≤ t) :
    (acc <<< (t - b)) &&& ((1 <<< t) - 1) = acc % 2 ^ b * 2 ^ (t - b) := by
  have hpow : 2 ^ t = 2 ^ b * 2 ^ (t - b) := by rw [← Nat.pow_add, Nat.add_sub_cancel' hb]
  rw [Nat.shiftLeft_eq, Nat.one_shiftLeft, Nat.and_two_pow_sub_one_eq_mod, hpow, Nat.mul_mod_mul_right]

/-- With padding, `ConvertBits` never fails: the groups it writes spell the
input's number followed by fewer than `tobits` zero bits. -/
theorem ConvertBits_pad (ht : 0 < tobits) (ht8 : tobits ≤ 8) (xs : List UInt8)
    (hxs : ∀ x ∈ xs, x.toNat < 2 ^ frombits) :
    ∃ out p, ConvertBits frombits tobits true xs = some out ∧ p < tobits ∧
      BitGroups.value tobits (out.map UInt8.toNat) = BitGroups.value frombits (xs.map UInt8.toNat) * 2 ^ p ∧
      out.length * tobits = frombits * xs.length + p ∧ ∀ y ∈ out, y.toNat < 2 ^ tobits := by
  obtain ⟨h, hb⟩ := foldl_convertStep_holds ht ht8 xs hxs
  set st := xs.foldl (convertStep frombits tobits) ⟨0, 0, []⟩
  by_cases h0 : st.bits = 0
  · -- no bits left over: nothing to pad
    refine ⟨st.out, 0, by simp [ConvertBits, st, h0], ht, ?_, ?_, h.lt⟩
    · rw [h.value_eq, h0]
      simp [Nat.mod_one]
    · rw [← h.length_eq, h0]
      rfl
  · -- the bits left over, then `tobits - bits` zero bits
    have hlast : st.acc % 2 ^ st.bits * 2 ^ (tobits - st.bits) < 2 ^ tobits := by
      have hpow : 2 ^ tobits = 2 ^ st.bits * 2 ^ (tobits - st.bits) := by
        rw [← Nat.pow_add, Nat.add_sub_cancel' hb.le]
      rw [hpow]
      exact Nat.mul_lt_mul_of_pos_right (Nat.mod_lt _ (Nat.two_pow_pos _)) (Nat.two_pow_pos _)
    have hlast8 := Nat.lt_of_lt_of_le hlast (Nat.pow_le_pow_right (by decide) ht8)
    have hwrite : (UInt8.ofNat ((st.acc <<< (tobits - st.bits)) &&& ((1 <<< tobits) - 1))).toNat =
        st.acc % 2 ^ st.bits * 2 ^ (tobits - st.bits) := by
      rw [shiftLeft_and_eq st.acc hb.le, toNat_ofNat_of_lt hlast8]
    refine ⟨st.out ++ [UInt8.ofNat ((st.acc <<< (tobits - st.bits)) &&& ((1 <<< tobits) - 1))],
      tobits - st.bits, by simp [ConvertBits, st, h0], by omega, ?_, ?_, ?_⟩
    · rw [List.map_append, List.map_singleton, hwrite, BitGroups.value_append_singleton, h.value_eq]
      have hpow : 2 ^ tobits = 2 ^ st.bits * 2 ^ (tobits - st.bits) := by
        rw [← Nat.pow_add, Nat.add_sub_cancel' hb.le]
      rw [hpow]
      ring
    · rw [List.length_append, List.length_singleton, ← h.length_eq]
      rw [Nat.add_mul, Nat.one_mul]
      omega
    · intro y hy
      rcases List.mem_append.mp hy with hy | hy
      · exact h.lt y hy
      · rw [List.mem_singleton] at hy
        rw [hy, hwrite]
        exact hlast

/-- Without padding, `ConvertBits` succeeds when fewer than `frombits` bits
are left over and those bits are zero: the groups it writes spell the input's
number with that zero tail removed. -/
theorem ConvertBits_of_zero_tail (ht : 0 < tobits) (ht8 : tobits ≤ 8) (xs : List UInt8)
    (hxs : ∀ x ∈ xs, x.toNat < 2 ^ frombits) {V : ℕ} (hlen : frombits * xs.length % tobits < frombits)
    (hV : BitGroups.value frombits (xs.map UInt8.toNat) = V * 2 ^ (frombits * xs.length % tobits)) :
    ∃ out, ConvertBits frombits tobits false xs = some out ∧
      BitGroups.value tobits (out.map UInt8.toNat) = V ∧
      out.length * tobits + frombits * xs.length % tobits = frombits * xs.length ∧
      ∀ y ∈ out, y.toNat < 2 ^ tobits := by
  obtain ⟨h, hb⟩ := foldl_convertStep_holds ht ht8 xs hxs
  set st := xs.foldl (convertStep frombits tobits) ⟨0, 0, []⟩
  have hbits := h.bits_eq hb
  rw [← hbits] at hlen hV
  -- the number read is `V` followed by `bits` zero bits, so the bits left over are zero
  have hsum := h.value_eq
  rw [hV] at hsum
  have hrlt := Nat.mod_lt st.acc (Nat.two_pow_pos st.bits)
  have hr : st.acc % 2 ^ st.bits = 0 := by
    have := congrArg (· % 2 ^ st.bits) hsum
    simpa [Nat.mul_mod_left, Nat.mul_add_mod, Nat.mod_eq_of_lt hrlt] using this.symm
  rw [hr, Nat.add_zero] at hsum
  have hcheck : ¬(frombits ≤ st.bits ∨ (st.acc <<< (tobits - st.bits)) &&& ((1 <<< tobits) - 1) ≠ 0) := by
    rw [shiftLeft_and_eq st.acc hb.le, hr, Nat.zero_mul]
    omega
  refine ⟨st.out, ?_, (Nat.eq_of_mul_eq_mul_right (Nat.two_pow_pos _) hsum).symm, ?_, h.lt⟩
  · simp only [ConvertBits, Bool.false_eq_true, if_false]
    exact if_neg hcheck
  · rw [← hbits]
    exact h.length_eq

/-- Bytes regrouped into 5-bit symbols with padding, and the symbols
regrouped into bytes without: the bytes come back.  There are
`(8 * n + 4) / 5` symbols, as `DestinationEncoder` reserves room for. -/
theorem ConvertBits_roundTrip (b : List UInt8) :
    ∃ data, ConvertBits 8 5 true b = some data ∧ ConvertBits 5 8 false data = some b ∧
      (∀ y ∈ data, y.toNat < 2 ^ 5) ∧ data.length = (b.length * 8 + 4) / 5 := by
  have hb : ∀ x ∈ b, x.toNat < 2 ^ 8 := fun x _ => x.toNat_lt
  obtain ⟨data, p, hdata, hp, hval, hlen, hlt⟩ := @ConvertBits_pad 8 5 (by decide) (by decide) b hb
  -- the padding is less than one symbol, so less than one byte
  have hmod : 5 * data.length % 8 = p := by
    rw [Nat.mul_comm, hlen, Nat.mul_add_mod, Nat.mod_eq_of_lt (by omega)]
  obtain ⟨b', hb', hval', hlen', hlt'⟩ :=
    @ConvertBits_of_zero_tail 5 8 (by decide) le_rfl data hlt (BitGroups.value 8 (b.map UInt8.toNat))
      (by omega) (by rw [hmod, hval])
  have hsame : b'.map UInt8.toNat = b.map UInt8.toNat := by
    refine BitGroups.value_inj 8 ?_ ?_ ?_ hval'
    · simpa using hlt'
    · simpa using hb
    · simp only [List.length_map]
      omega
  refine ⟨data, hdata, ?_, hlt, by omega⟩
  rw [hb', (List.map_inj_right fun x y h => UInt8.toNat_inj.mp h).mp hsame]

end Loop

end XPChain
