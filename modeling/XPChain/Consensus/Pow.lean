import XPChain.Arith.Compact
import Mathlib.Tactic.Ring
import Mathlib.Tactic.Linarith

/-!
# The difficulty rules

`GetNextWorkRequired` and `CalculateNextWorkRequired` of `pow.cpp`, the
`nBits` a block must carry.  Below the switch height the chain retargets
every `DifficultyAdjustmentInterval()` blocks, with the timespan clamped to a
factor of four; above it every block retargets from the time of the last
block.  Both test "proof of stake" on the height of the last block, not of the
new one.

The active chain is `chainActive.vChain`: the entry at index `h` is the
block at height `h`, so `pprev` and `GetAncestor` are lookups by height.

## Main definitions

* `Params` — the consensus parameters the rules read, and `Params.main`.
* `CBlockIndex`, `CChain`.
* `calculateNextWorkRequired`, `getNextWorkRequired`.
* `posRetarget` — the proof-of-stake retarget over the integers.

## Main statements

* `posRetarget_mono`, `posRetarget_le_of_le_spacing` — the integer rule
  never eases the target for a block no slower than the spacing.
* `calculateNextWorkRequired_eq_posRetarget` — where the factor does not
  wrap, the code computes that rule.
* `calculateNextWorkRequired_main_retarget` — on the main network, the window
  of block times where it does not wrap, and what the decoded target does
  there.
* `calculateNextWorkRequired_wraps` — where it does, the target grows.
-/

set_option autoImplicit false

namespace XPChain

open ArithUint256

/-- The fields of `Consensus::Params` that the difficulty and staking rules read. -/
structure Params where
  powLimit : ℕ
  nPowTargetSpacing : ℤ
  nPowTargetTimespan : ℤ
  fPowAllowMinDifficultyBlocks : Bool
  fPowNoRetargeting : Bool
  nSwitchHeight : ℕ
  nStakeMinAge : ℤ
  nStakeMaxAge : ℤ

namespace Params

/-- `DifficultyAdjustmentInterval()`. -/
def DifficultyAdjustmentInterval (params : Params) : ℤ :=
  params.nPowTargetTimespan / params.nPowTargetSpacing

/-- The main network's parameters (`CMainParams`). -/
def main : Params where
  powLimit := 2 ^ 224 - 1
  nPowTargetSpacing := 60
  nPowTargetTimespan := 14 * 24 * 60 * 60
  fPowAllowMinDifficultyBlocks := false
  fPowNoRetargeting := false
  nSwitchHeight := 10275
  nStakeMinAge := 60 * 60 * 24 * 3
  nStakeMaxAge := 60 * 60 * 24 * 60

end Params

/-- What a `CBlockIndex` holds that the difficulty rules read. -/
structure CBlockIndex where
  nHeight : ℕ
  nBits : ℕ
  nTime : ℕ
  deriving DecidableEq, Repr

/-- `CChain`: the active chain's entries by height, genesis first. -/
structure CChain where
  vChain : List CBlockIndex
  height_eq : ∀ i (h : i < vChain.length), vChain[i].nHeight = i

namespace CChain

/-- `chain[nHeight]`, or `nullptr` past the tip. -/
def get? (chain : CChain) (nHeight : ℕ) : Option CBlockIndex := chain.vChain[nHeight]?

theorem nHeight_of_get? {chain : CChain} {nHeight : ℕ} {pindex : CBlockIndex}
    (h : chain.get? nHeight = some pindex) : pindex.nHeight = nHeight := by
  obtain ⟨hlt, rfl⟩ := List.getElem?_eq_some_iff.mp h
  exact chain.height_eq nHeight hlt

end CChain

/-- `int64_t` to `uint32_t`, as the `arith_uint256 *= uint32_t` overload
takes its operand. -/
def toUInt32 (v : ℤ) : ℕ := (v % 2 ^ 32).toNat

/-- `CalculateNextWorkRequired(pindexLast, nFirstBlockTime, params)`. -/
def calculateNextWorkRequired (params : Params) (pindexLast : CBlockIndex)
    (nFirstBlockTime : ℤ) : ℕ :=
  if params.fPowNoRetargeting then pindexLast.nBits
  else
    let fProofOfStake := params.nSwitchHeight < pindexLast.nHeight
    let nActualTimespan : ℤ := pindexLast.nTime - nFirstBlockTime
    let nActualTimespan :=
      if fProofOfStake then nActualTimespan
      else max (params.nPowTargetTimespan / 4) (min nActualTimespan (params.nPowTargetTimespan * 4))
    let bnNew := SetCompact pindexLast.nBits
    let bnNew :=
      if fProofOfStake then
        let nInterval := params.DifficultyAdjustmentInterval
        bnNew * toUInt32 ((nInterval - 1) * params.nPowTargetSpacing + nActualTimespan +
          nActualTimespan) % 2 ^ 256 / ((nInterval + 1) * params.nPowTargetSpacing).toNat
      else bnNew * toUInt32 nActualTimespan % 2 ^ 256 / params.nPowTargetTimespan.toNat
    GetCompact (min bnNew params.powLimit)

/-! ## The proof-of-stake retarget

Above the switch height the target is scaled by the factor
`(n - 1) * s + a + a` over `(n + 1) * s`, where `a` is the time since the
parent block.  `posRetarget` is that rule over unbounded integers.  The code
hands the factor, an `int64_t`, to `arith_uint256::operator*=`, whose only
integer overload takes a `uint32_t`: the factor is taken modulo `2 ^ 32`.
Where it lies in `[0, 2 ^ 32)` the code computes `posRetarget`; a negative
factor wraps to a multiplier near `2 ^ 32`. -/

/-- The proof-of-stake factor `(nInterval - 1) * nPowTargetSpacing + a + a`. -/
def posFactor (params : Params) (a : ℤ) : ℤ :=
  (params.DifficultyAdjustmentInterval - 1) * params.nPowTargetSpacing + a + a

/-- The proof-of-stake divisor `(nInterval + 1) * nPowTargetSpacing`. -/
def posDivisor (params : Params) : ℤ :=
  (params.DifficultyAdjustmentInterval + 1) * params.nPowTargetSpacing

/-- The proof-of-stake retarget of the target `T` over the integers, with no
wrap. -/
def posRetarget (params : Params) (T : ℕ) (a : ℤ) : ℤ :=
  T * posFactor params a / posDivisor params

section Retarget

variable {params : Params}

/-- A later block never makes the retarget harder. -/
theorem posRetarget_mono (hd : 0 < posDivisor params) (T : ℕ) {a a' : ℤ} (h : a ≤ a') :
    posRetarget params T a ≤ posRetarget params T a' := by
  have hfactor : posFactor params a ≤ posFactor params a' := by
    unfold posFactor
    omega
  exact Int.ediv_le_ediv hd (Int.mul_le_mul_of_nonneg_left hfactor (Int.natCast_nonneg T))

/-- A block no slower than the spacing never eases the target. -/
theorem posRetarget_le_of_le_spacing (hd : 0 < posDivisor params) (T : ℕ) {a : ℤ}
    (h : a ≤ params.nPowTargetSpacing) : posRetarget params T a ≤ T := by
  have hfactor : posFactor params a ≤ posDivisor params := by
    unfold posFactor posDivisor
    linarith
  calc posRetarget params T a
      ≤ T * posDivisor params / posDivisor params :=
        Int.ediv_le_ediv hd (Int.mul_le_mul_of_nonneg_left hfactor (Int.natCast_nonneg T))
    _ = T := Int.mul_ediv_cancel _ (ne_of_gt hd)

end Retarget

/-- `toUInt32` leaves a value in `[0, 2 ^ 32)` as it is. -/
theorem toUInt32_of_lt {v : ℤ} (h0 : 0 ≤ v) (h : v < 2 ^ 32) : toUInt32 v = v.toNat := by
  unfold toUInt32
  rw [Int.emod_eq_of_lt h0 h]

/-- The proof-of-stake branch of `CalculateNextWorkRequired`, as the code
computes it. -/
theorem calculateNextWorkRequired_of_proofOfStake {params : Params} {pindexLast : CBlockIndex}
    (hretarget : params.fPowNoRetargeting = false)
    (hpos : params.nSwitchHeight < pindexLast.nHeight) (nFirstBlockTime : ℤ) :
    calculateNextWorkRequired params pindexLast nFirstBlockTime =
      GetCompact (min (SetCompact pindexLast.nBits *
        toUInt32 (posFactor params (pindexLast.nTime - nFirstBlockTime)) % 2 ^ 256 /
          (posDivisor params).toNat) params.powLimit) := by
  simp only [calculateNextWorkRequired, hretarget, hpos, Bool.false_eq_true, if_false, if_true]
  rfl

/-- Where the factor does not wrap, the code computes the proof-of-stake rule
over the integers: the compact form of `min powLimit (posRetarget T a)`. -/
theorem calculateNextWorkRequired_eq_posRetarget {params : Params} {pindexLast : CBlockIndex}
    {nFirstBlockTime : ℤ} (hretarget : params.fPowNoRetargeting = false)
    (hpos : params.nSwitchHeight < pindexLast.nHeight) (hd : 0 < posDivisor params)
    (hlimit : params.powLimit < 2 ^ 224) (hT : SetCompact pindexLast.nBits ≤ params.powLimit)
    (h0 : 0 ≤ posFactor params (pindexLast.nTime - nFirstBlockTime))
    (h32 : posFactor params (pindexLast.nTime - nFirstBlockTime) < 2 ^ 32) :
    calculateNextWorkRequired params pindexLast nFirstBlockTime =
      GetCompact (min (posRetarget params (SetCompact pindexLast.nBits)
        (pindexLast.nTime - nFirstBlockTime)).toNat params.powLimit) := by
  set T := SetCompact pindexLast.nBits
  set f := posFactor params (pindexLast.nTime - nFirstBlockTime)
  -- the factor is below `2 ^ 32` and the target below `2 ^ 224`: no wrap
  have hprod : T * f.toNat < 2 ^ 256 := by
    have hf : f.toNat < 2 ^ 32 := by omega
    calc T * f.toNat < 2 ^ 224 * 2 ^ 32 := Nat.mul_lt_mul_of_lt_of_lt (by omega) hf
      _ = 2 ^ 256 := by norm_num
  -- on naturals the integer quotient is the natural one
  have hcast : ((T : ℤ) * f / posDivisor params).toNat = T * f.toNat / (posDivisor params).toNat := by
    obtain ⟨F, hF⟩ := Int.eq_ofNat_of_zero_le h0
    obtain ⟨D, hD⟩ := Int.eq_ofNat_of_zero_le hd.le
    rw [hF, hD, ← Nat.cast_mul, ← Int.natCast_ediv, Int.toNat_natCast, Int.toNat_natCast,
      Int.toNat_natCast]
  rw [calculateNextWorkRequired_of_proofOfStake hretarget hpos, toUInt32_of_lt h0 h32,
    Nat.mod_eq_of_lt hprod, posRetarget, hcast]

/-- On the main network the factor is in `[0, 2 ^ 32)` exactly when the block
is no more than 604770 seconds older than its parent, and less than
2146878878 seconds younger. -/
theorem posFactor_main_noWrap_iff (a : ℤ) :
    (0 ≤ posFactor Params.main a ∧ posFactor Params.main a < 2 ^ 32) ↔
      -604770 ≤ a ∧ a < 2146878878 := by
  have hfactor : posFactor Params.main a = 1209540 + a + a := by
    unfold posFactor
    rfl
  rw [hfactor]
  omega

/-- The proof-of-stake retarget on the main network, as the code computes it,
for a block no more than 604770 seconds older than the block it retargets
from and less than 2146878878 seconds younger: the compact form of the rule
over the integers, clamped to the limit.  Decoded, the new target is at most
the old one when the block came no slower than the spacing, and it grows
with the time between the two blocks. -/
theorem calculateNextWorkRequired_main_retarget {pindexLast : CBlockIndex} {nFirstBlockTime : ℤ}
    (hpos : Params.main.nSwitchHeight < pindexLast.nHeight)
    (hT : SetCompact pindexLast.nBits ≤ Params.main.powLimit)
    (ha : -604770 ≤ pindexLast.nTime - nFirstBlockTime ∧ pindexLast.nTime - nFirstBlockTime < 2146878878) :
    calculateNextWorkRequired Params.main pindexLast nFirstBlockTime =
        GetCompact (min (posRetarget Params.main (SetCompact pindexLast.nBits)
          (pindexLast.nTime - nFirstBlockTime)).toNat Params.main.powLimit) ∧
      (pindexLast.nTime - nFirstBlockTime ≤ Params.main.nPowTargetSpacing →
        SetCompact (calculateNextWorkRequired Params.main pindexLast nFirstBlockTime) ≤
          SetCompact pindexLast.nBits) ∧
      ∀ nFirstBlockTime', nFirstBlockTime' ≤ nFirstBlockTime →
        pindexLast.nTime - nFirstBlockTime' < 2146878878 →
        SetCompact (calculateNextWorkRequired Params.main pindexLast nFirstBlockTime) ≤
          SetCompact (calculateNextWorkRequired Params.main pindexLast nFirstBlockTime') := by
  have hd : 0 < posDivisor Params.main := by decide
  -- inside the window the factor does not wrap
  have hwin : ∀ t : ℤ, -604770 ≤ pindexLast.nTime - t ∧ pindexLast.nTime - t < 2146878878 →
      calculateNextWorkRequired Params.main pindexLast t =
        GetCompact (min (posRetarget Params.main (SetCompact pindexLast.nBits)
          (pindexLast.nTime - t)).toNat Params.main.powLimit) := fun t ht => by
    obtain ⟨h0, h32⟩ := (posFactor_main_noWrap_iff _).mpr ht
    exact calculateNextWorkRequired_eq_posRetarget rfl hpos hd (by decide) hT h0 h32
  -- and the clamped target decodes to itself rounded down
  have hdecode : ∀ t : ℤ, -604770 ≤ pindexLast.nTime - t ∧ pindexLast.nTime - t < 2146878878 →
      SetCompact (calculateNextWorkRequired Params.main pindexLast t) =
        min (posRetarget Params.main (SetCompact pindexLast.nBits) (pindexLast.nTime - t)).toNat
            Params.main.powLimit / 2 ^ compactExp (min (posRetarget Params.main (SetCompact pindexLast.nBits)
            (pindexLast.nTime - t)).toNat Params.main.powLimit) *
          2 ^ compactExp (min (posRetarget Params.main (SetCompact pindexLast.nBits)
            (pindexLast.nTime - t)).toNat Params.main.powLimit) := fun t ht => by
    rw [hwin t ht, SetCompact_GetCompact (lt_of_le_of_lt (min_le_right _ _) (by decide))]
  refine ⟨hwin _ ha, fun hs => ?_, fun t' ht' hlt => ?_⟩
  · have hle := posRetarget_le_of_le_spacing hd (SetCompact pindexLast.nBits) hs
    rw [hdecode _ ha]
    calc _ ≤ min (posRetarget Params.main (SetCompact pindexLast.nBits)
            (pindexLast.nTime - nFirstBlockTime)).toNat Params.main.powLimit := Nat.div_mul_le_self _ _
      _ ≤ (posRetarget Params.main (SetCompact pindexLast.nBits) (pindexLast.nTime - nFirstBlockTime)).toNat :=
        min_le_left _ _
      _ ≤ SetCompact pindexLast.nBits := by omega
  · have hmono := posRetarget_mono hd (SetCompact pindexLast.nBits)
      (show pindexLast.nTime - nFirstBlockTime ≤ pindexLast.nTime - t' by omega)
    rw [hdecode _ ha, hdecode _ ⟨by omega, hlt⟩]
    exact round_mono (min_le_min_right _ (Int.toNat_le_toNat hmono))

/-- The tip at the first proof-of-stake height on the main network, with the
target `2 ^ 200`. -/
def firstStakeTip : CBlockIndex := ⟨10276, 0x1a010000, 1000000⟩

theorem calculateNextWorkRequired_main_retarget_minute :
    Params.main.nSwitchHeight < firstStakeTip.nHeight ∧ SetCompact firstStakeTip.nBits ≤ Params.main.powLimit ∧
      (-604770 ≤ (firstStakeTip.nTime : ℤ) - 999940 ∧ (firstStakeTip.nTime : ℤ) - 999940 < 2146878878) ∧
      calculateNextWorkRequired Params.main firstStakeTip 999940 =
          GetCompact (min (posRetarget Params.main (SetCompact firstStakeTip.nBits)
            (firstStakeTip.nTime - 999940)).toNat Params.main.powLimit) ∧
        ((firstStakeTip.nTime : ℤ) - 999940 ≤ Params.main.nPowTargetSpacing →
          SetCompact (calculateNextWorkRequired Params.main firstStakeTip 999940) ≤
            SetCompact firstStakeTip.nBits) ∧
        ∀ nFirstBlockTime' : ℤ, nFirstBlockTime' ≤ 999940 →
          firstStakeTip.nTime - nFirstBlockTime' < 2146878878 →
          SetCompact (calculateNextWorkRequired Params.main firstStakeTip 999940) ≤
            SetCompact (calculateNextWorkRequired Params.main firstStakeTip nFirstBlockTime') :=
  have hT : SetCompact firstStakeTip.nBits ≤ Params.main.powLimit := by decide +kernel
  have ha : -604770 ≤ (firstStakeTip.nTime : ℤ) - 999940 ∧ (firstStakeTip.nTime : ℤ) - 999940 < 2146878878 := by
    decide
  ⟨by decide, hT, ha, calculateNextWorkRequired_main_retarget (by decide) hT ha⟩

/-- On the main network, a proof-of-stake block stamped 604771 seconds before
its parent gives the factor `-2`, which the `uint32_t` overload reads as
`2 ^ 32 - 2`: the target `2 ^ 200` grows more than 3550 times, where the rule
over the integers gives a negative target.  Two seconds later the factor is
`2` and the target falls below `2 ^ 200`. -/
theorem calculateNextWorkRequired_wraps :
    let pindexLast : CBlockIndex := ⟨10276, 0x1a010000, 1000000⟩
    SetCompact pindexLast.nBits = 2 ^ 200 ∧
      posRetarget Params.main (2 ^ 200) (-604771) < 0 ∧
      3550 * 2 ^ 200 ≤
        SetCompact (calculateNextWorkRequired Params.main pindexLast (1000000 + 604771)) ∧
      SetCompact (calculateNextWorkRequired Params.main pindexLast (1000000 + 604769)) < 2 ^ 200 := by
  decide +kernel

/-- The walk back of the minimum-difficulty rule: from `pindex`, down to the
last block that is at an interval boundary or not at the limit. -/
def lastNonMinDifficulty (params : Params) (chain : CChain) (nProofOfWorkLimit : ℕ) :
    ℕ → CBlockIndex → CBlockIndex
  | 0, pindex => pindex
  | fuel + 1, pindex =>
    match chain.get? (pindex.nHeight - 1) with
    | some pprev =>
      if 0 < pindex.nHeight ∧ (pindex.nHeight : ℤ) % params.DifficultyAdjustmentInterval ≠ 0 ∧
          pindex.nBits = nProofOfWorkLimit then
        lastNonMinDifficulty params chain nProofOfWorkLimit fuel pprev
      else pindex
    | none => pindex

/-- `GetNextWorkRequired(pindexLast, pblock, params)` for the block at the
chain's height `nHeight`, with the new block's time; `none` is a failed
`assert`. -/
def getNextWorkRequired (params : Params) (chain : CChain) (nHeight : ℕ) (nBlockTime : ℤ) :
    Option ℕ := do
  let pindexLast ← chain.get? nHeight
  let nProofOfWorkLimit := GetCompact params.powLimit
  let fProofOfStake := params.nSwitchHeight < pindexLast.nHeight
  let nInterval := params.DifficultyAdjustmentInterval
  if !fProofOfStake ∧ (pindexLast.nHeight + 1 : ℤ) % nInterval ≠ 0 then
    if params.fPowAllowMinDifficultyBlocks then
      if pindexLast.nTime + params.nPowTargetSpacing * 2 < nBlockTime then
        pure nProofOfWorkLimit
      else
        pure (lastNonMinDifficulty params chain nProofOfWorkLimit pindexLast.nHeight
          pindexLast).nBits
    else pure pindexLast.nBits
  else
    let nHeightFirst : ℤ :=
      if fProofOfStake then pindexLast.nHeight - 1 else pindexLast.nHeight - (nInterval - 1)
    if nHeightFirst < 0 then none
    let pindexFirst ← chain.get? nHeightFirst.toNat
    pure (calculateNextWorkRequired params pindexLast pindexFirst.nTime)

end XPChain
