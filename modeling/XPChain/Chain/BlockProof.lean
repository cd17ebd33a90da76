import XPChain.Arith.BaseUintShift
import XPChain.Consensus.Pow

/-!
# The work of a block

`GetBlockProof` of `chain.cpp`: the work a block adds to its chain, the
expected number of hashes it takes to meet the block's target.  It decodes
`nBits` with `arith_uint256::SetCompact` and, since `2 ^ 256` does not fit in
an `arith_uint256`, computes `2 ^ 256 / (T + 1)` as `~T / (T + 1) + 1` in
256-bit arithmetic.

## Main definitions

* `setCompact` — `arith_uint256::SetCompact` on the limbs.
* `GetBlockProof`.

## Main statements

* `toNat_setCompact` — the limbs hold `ArithUint256.SetCompact`.
* `sub_one_sub_div_add_one` — the identity the code rests on.
* `getBlockProof_exact` — the proof is `2 ^ 256 / (T + 1)` exactly, and zero
  exactly on the encodings the code refuses.
-/

set_option autoImplicit false

namespace XPChain

open ArithUint256 BaseUint

/-- `arith_uint256::SetCompact(nCompact)`, the value it writes: the mantissa
shifted down for an exponent up to `3`, and otherwise written whole and
shifted up by `8 * (nSize - 3)` bits. -/
def setCompact (nCompact : ℕ) : BaseUint 8 :=
  let nSize := compactSize nCompact
  let nWord := compactWord nCompact
  if nSize ≤ 3 then ofUInt64 (UInt64.ofNat (nWord >>> (8 * (3 - nSize))))
  else (ofUInt64 (UInt64.ofNat nWord)).shiftLeft (8 * (nSize - 3))

theorem toNat_setCompact (nCompact : ℕ) : (setCompact nCompact).toNat = SetCompact nCompact := by
  have hword : compactWord nCompact < 2 ^ 23 := lt_of_le_of_lt Nat.and_le_right (by decide)
  simp only [setCompact, SetCompact]
  split_ifs with hs
  · have := Nat.shiftRight_le (compactWord nCompact) (8 * (3 - compactSize nCompact))
    rw [toNat_ofUInt64 (by decide), UInt64.toNat_ofNat_of_lt' (by rw [UInt64.size]; omega)]
  · rw [toNat_shiftLeft, toNat_ofUInt64 (by decide), UInt64.toNat_ofNat_of_lt' (by rw [UInt64.size]; omega),
      Nat.shiftLeft_eq]

/-- `GetBlockProof(block)`: zero for a target that decodes negative,
overflowing or zero, and otherwise `~bnTarget / (bnTarget + 1) + 1`, with the
throw of `operator/=` passed on. -/
def GetBlockProof (block : CBlockIndex) : Except String (BaseUint 8) :=
  let bnTarget := setCompact block.nBits
  let fNegative := SetCompactNegative block.nBits
  let fOverflow := SetCompactOverflow block.nBits
  if fNegative || fOverflow || bnTarget.EqualTo 0 then .ok (ofUInt64 0)
  else do
    let q ← bnTarget.not.div (bnTarget.add (ofUInt64 1))
    return q.add (ofUInt64 1)

/-- `2 ^ 256 / (T + 1)` without `2 ^ 256`: the numbers below `N` that are not
below `T + 1`, counted in blocks of `T + 1`, and one block more. -/
theorem sub_one_sub_div_add_one {N t : ℕ} (h : t + 1 ≤ N) : (N - 1 - t) / (t + 1) + 1 = N / (t + 1) := by
  rw [show N - 1 - t = N - (t + 1) by omega, Nat.div_eq_sub_div (Nat.succ_pos t) h]

/-- The target `GetBlockProof` decodes, `bnTarget`, is zero by `EqualTo(0)`
exactly when its value is. -/
theorem setCompact_EqualTo_zero (nCompact : ℕ) :
    (setCompact nCompact).EqualTo 0 = true ↔ SetCompact nCompact = 0 := by
  rw [EqualTo_iff (by decide), toNat_setCompact]
  rfl

/-- `GetBlockProof` never throws; it is zero exactly on a target that decodes
negative, overflowing or zero, and otherwise `2 ^ 256 / (T + 1)` exactly, with
`T + 1` not wrapping. -/
theorem getBlockProof_exact (block : CBlockIndex) :
    ∃ r, GetBlockProof block = .ok r ∧
      (r.toNat = 0 ↔ SetCompactNegative block.nBits = true ∨ SetCompactOverflow block.nBits = true ∨
        SetCompact block.nBits = 0) ∧
      (SetCompactNegative block.nBits = false → SetCompactOverflow block.nBits = false →
        SetCompact block.nBits ≠ 0 →
        SetCompact block.nBits + 1 < 2 ^ 256 ∧ r.toNat = 2 ^ 256 / (SetCompact block.nBits + 1)) := by
  by_cases hbad : SetCompactNegative block.nBits = true ∨ SetCompactOverflow block.nBits = true ∨
      SetCompact block.nBits = 0
  · -- a bad encoding: the proof is `0`
    have hcond : (SetCompactNegative block.nBits || SetCompactOverflow block.nBits ||
        (setCompact block.nBits).EqualTo 0) = true := by
      rw [Bool.or_eq_true, Bool.or_eq_true, setCompact_EqualTo_zero]
      tauto
    refine ⟨ofUInt64 0, by simp only [GetBlockProof, if_pos hcond], ?_, ?_⟩
    · rw [toNat_ofUInt64 (by decide)]
      exact ⟨fun _ => hbad, fun _ => rfl⟩
    · intro hneg hovf ht
      rw [hneg, hovf] at hbad
      simp only [Bool.false_eq_true, false_or] at hbad
      exact absurd hbad ht
  simp only [not_or, Bool.not_eq_true] at hbad
  obtain ⟨hneg, hovf, ht⟩ := hbad
  have hcond : (SetCompactNegative block.nBits || SetCompactOverflow block.nBits ||
      (setCompact block.nBits).EqualTo 0) = false := by
    rw [hneg, hovf, Bool.false_or, Bool.false_or, Bool.eq_false_iff, ne_eq, setCompact_EqualTo_zero]
    exact ht
  set t := SetCompact block.nBits with hT
  have ht1 : t + 1 < 2 ^ 256 := SetCompact_add_one_lt hovf
  -- `bnTarget + 1` does not wrap, so the divisor is `t + 1`, not zero
  have hD : ((setCompact block.nBits).add (ofUInt64 1)).toNat = t + 1 := by
    rw [toNat_add, toNat_setCompact, toNat_ofUInt64 (by decide), show (32 * 8 : ℕ) = 256 from rfl,
      show UInt64.toNat 1 = 1 from rfl, ← hT, Nat.mod_eq_of_lt ht1]
  have hN : (setCompact block.nBits).not.toNat = 2 ^ 256 - 1 - t := by
    rw [toNat_not, toNat_setCompact]
  obtain ⟨q, hq, hqv⟩ := toNat_div (setCompact block.nBits).not (b := (setCompact block.nBits).add (ofUInt64 1))
    (by rw [hD]; omega)
  rw [hN, hD] at hqv
  -- and the final `+ 1` does not wrap either: the quotient is at most `2 ^ 256 - 2`
  have hq1 : q.toNat + 1 < 2 ^ 256 := by
    have := Nat.div_le_self (2 ^ 256 - 1 - t) (t + 1)
    omega
  have hr : (q.add (ofUInt64 1)).toNat = 2 ^ 256 / (t + 1) := by
    rw [toNat_add, toNat_ofUInt64 (by decide), show (32 * 8 : ℕ) = 256 from rfl,
      show UInt64.toNat 1 = 1 from rfl, Nat.mod_eq_of_lt hq1, hqv, sub_one_sub_div_add_one ht1.le]
  have hpos : 0 < 2 ^ 256 / (t + 1) := Nat.div_pos ht1.le (Nat.succ_pos t)
  refine ⟨q.add (ofUInt64 1), ?_, ?_, fun _ _ _ => ⟨ht1, hr⟩⟩
  · simp only [GetBlockProof, if_neg (Bool.eq_false_iff.mp hcond), hq]
    rfl
  · rw [hr, hneg, hovf]
    simp only [Bool.false_eq_true, false_or]
    omega

/-- The easiest target, `1`: each block is worth `2 ^ 255` hashes. -/
theorem getBlockProof_exact_target_one :
    ∃ r, GetBlockProof ⟨0, 0x03000001, 0⟩ = .ok r ∧ r.toNat = 2 ^ 255 := by
  obtain ⟨r, hr, -, hval⟩ := getBlockProof_exact ⟨0, 0x03000001, 0⟩
  obtain ⟨-, hv⟩ := hval (by decide) (by decide) (by decide)
  refine ⟨r, hr, ?_⟩
  rw [hv]
  decide

end XPChain
