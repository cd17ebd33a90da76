import XPChain.Consensus.VersionBits
import XPChain.Coins.View
import XPChain.Lib.ListRel

/-!
# BIP68 sequence locks

`CalculateSequenceLocks` of `consensus/tx_verify.cpp` turns the relative lock
times of a transaction's inputs into a height and a time in the last-invalid
form of `nLockTime`, and `EvaluateSequenceLocks` tests that pair against a
block.  `CheckSequenceLocks` of `validation.cpp` runs the two for the block
after the tip, with the height of each spent coin taken from the mempool's
view of the UTXO set, where a coin of a mempool transaction is taken to
confirm in the next block.  It can store the pair, with the highest block
the coins it read depend on, as the `LockPoints` of a mempool entry; after a
reorganisation the mempool's `removeForReorg` tests the stored pair instead
of recomputing it while `TestLockPointValidity` holds.

Over the code stands BIP68's own rule, input by input, in its first-valid
form (`bip68Satisfied`).  `sequenceLocks_iff` says that `SequenceLocks`
decides it.  For the stored pair, a cached check that passes is sound: the
fresh check passes too (`checkSequenceLocks_fresh_of_cached`).  Where the
chain has not moved back it is also complete
(`checkSequenceLocks_cached_of_fresh`).  When the tip moves back it is not:
the stored pair of an input whose parent is in the mempool names the old
tip's height, and `checkSequenceLocks_cached_after_disconnect` shows a
transaction the fresh check accepts and the cached check rejects.

## Main definitions

* `sequenceLockStep`, `CalculateSequenceLocks`, `EvaluateSequenceLocks`,
  `SequenceLocks`.
* `LockPoints`, `CheckSequenceLocks`, `TestLockPointValidity`.
* `bip68Satisfied` — BIP68's rule for one input.

## Main statements

* `sequenceLocks_iff` — `SequenceLocks` is BIP68, input by input.
* `checkSequenceLocks_fresh_of_cached`, `checkSequenceLocks_cached_of_fresh`
  — the stored lock points against a fresh computation on a later chain.
* `checkSequenceLocks_cached_after_disconnect` — the two disagree once the
  tip moves back.
-/

set_option autoImplicit false

namespace XPChain

open VersionBits

/-! ## Flags -/

/-- `LOCKTIME_VERIFY_SEQUENCE`. -/
def LOCKTIME_VERIFY_SEQUENCE : ℕ := 1 <<< 0

/-- `CTxIn::SEQUENCE_LOCKTIME_DISABLE_FLAG`. -/
def CTxIn.SEQUENCE_LOCKTIME_DISABLE_FLAG : ℕ := 1 <<< 31

/-- `CTxIn::SEQUENCE_LOCKTIME_TYPE_FLAG`. -/
def CTxIn.SEQUENCE_LOCKTIME_TYPE_FLAG : ℕ := 1 <<< 22

/-- `CTxIn::SEQUENCE_LOCKTIME_MASK`. -/
def CTxIn.SEQUENCE_LOCKTIME_MASK : ℕ := 0x0000ffff

/-- `CTxIn::SEQUENCE_LOCKTIME_GRANULARITY`. -/
def CTxIn.SEQUENCE_LOCKTIME_GRANULARITY : ℕ := 9

/-- `MEMPOOL_HEIGHT`: the height `CCoinsViewMemPool` gives the coins of
mempool transactions. -/
def MEMPOOL_HEIGHT : ℕ := 0x7FFFFFFF

/-! ## `SequenceLocks` -/

/-- `txin.nSequence & CTxIn::SEQUENCE_LOCKTIME_MASK`: the lock, in blocks or
in units of `2 ^ SEQUENCE_LOCKTIME_GRANULARITY` seconds. -/
def lockValue (txin : CTxIn) : ℕ := txin.nSequence &&& CTxIn.SEQUENCE_LOCKTIME_MASK

/-- `fEnforceBIP68`: the version, cast to `uint32_t`, is at least 2, and the
flags ask for sequence locks. -/
def fEnforceBIP68 (tx : CTransaction) (flags : ℕ) : Bool :=
  decide (2 ≤ toUInt32 tx.nVersion) && hasFlag flags LOCKTIME_VERIFY_SEQUENCE

/-- One input of the loop of `CalculateSequenceLocks`: the pair
`(nMinHeight, nMinTime)` after it, and what the input's entry of
`prevHeights` is left at; `none` where the ancestor the source dereferences
is a null pointer. -/
def sequenceLockStep (block : VersionBits.CBlockIndex) (lockPair : ℤ × ℤ) (txin : CTxIn)
    (nCoinHeight : ℤ) : Option ((ℤ × ℤ) × ℤ) :=
  if hasFlag txin.nSequence CTxIn.SEQUENCE_LOCKTIME_DISABLE_FLAG then some (lockPair, 0)
  else if hasFlag txin.nSequence CTxIn.SEQUENCE_LOCKTIME_TYPE_FLAG then
    -- `nCoinTime` is the median time past of the block before the coin's
    (block.getAncestor (max (nCoinHeight - 1) 0)).map fun ancestor =>
      ((lockPair.1, max lockPair.2 (ancestor.getMedianTimePast +
        (lockValue txin <<< CTxIn.SEQUENCE_LOCKTIME_GRANULARITY : ℕ) - 1)), nCoinHeight)
  else some ((max lockPair.1 (nCoinHeight + lockValue txin - 1), lockPair.2), nCoinHeight)

/-- The loop of `CalculateSequenceLocks` over the inputs and their entries of
`prevHeights`. -/
def calculateSequenceLocksLoop (block : VersionBits.CBlockIndex) :
    ℤ × ℤ → List CTxIn → List ℤ → Option ((ℤ × ℤ) × List ℤ)
  | lockPair, txin :: vin, nCoinHeight :: prevHeights =>
    (sequenceLockStep block lockPair txin nCoinHeight).bind fun r =>
      (calculateSequenceLocksLoop block r.1 vin prevHeights).map fun r' => (r'.1, r.2 :: r'.2)
  | lockPair, _, prevHeights => some (lockPair, prevHeights)

/-- `CalculateSequenceLocks(tx, flags, prevHeights, block)`: the pair
`(nMinHeight, nMinTime)` and `prevHeights` after the call; `none` where an
assertion fails or a null ancestor is dereferenced. -/
def CalculateSequenceLocks (tx : CTransaction) (flags : ℕ) (prevHeights : List ℤ)
    (block : VersionBits.CBlockIndex) : Option ((ℤ × ℤ) × List ℤ) :=
  if prevHeights.length ≠ tx.vin.length then none
  -- `-1` for both: the last invalid height and time, so any is valid
  else if !fEnforceBIP68 tx flags then some ((-1, -1), prevHeights)
  else calculateSequenceLocksLoop block (-1, -1) tx.vin prevHeights

/-- `EvaluateSequenceLocks(block, lockPair)`; `none` where `block.pprev` is
null. -/
def EvaluateSequenceLocks (block : VersionBits.CBlockIndex) (lockPair : ℤ × ℤ) : Option Bool :=
  block.pprev.map fun pprev =>
    !(decide ((block.nHeight : ℤ) ≤ lockPair.1) || decide (pprev.getMedianTimePast ≤ lockPair.2))

/-- `SequenceLocks(tx, flags, prevHeights, block)`. -/
def SequenceLocks (tx : CTransaction) (flags : ℕ) (prevHeights : List ℤ)
    (block : VersionBits.CBlockIndex) : Option Bool :=
  (CalculateSequenceLocks tx flags prevHeights block).bind fun r => EvaluateSequenceLocks block r.1

/-! ## BIP68 -/

/-- BIP68's rule for one input, in its first-valid form: a block `block` with
parent `pprev` may include an input spending a coin of height `prevHeight`.
A time lock counts from the median time past of the block before the coin's,
in units of 512 seconds. -/
def bip68Satisfied (block pprev : VersionBits.CBlockIndex) (txin : CTxIn) (prevHeight : ℤ) : Prop :=
  if hasFlag txin.nSequence CTxIn.SEQUENCE_LOCKTIME_TYPE_FLAG then
    ∃ ancestor, block.getAncestor (max (prevHeight - 1) 0) = some ancestor ∧
      ancestor.getMedianTimePast + lockValue txin * 512 ≤ pprev.getMedianTimePast
  else prevHeight + lockValue txin ≤ block.nHeight

/-- What one input adds to the pair, in the loop's last-invalid form, lies
below the height `H` and the time `T`. -/
def lockBelow (block : VersionBits.CBlockIndex) (H T : ℤ) (txin : CTxIn) (nCoinHeight : ℤ) : Prop :=
  hasFlag txin.nSequence CTxIn.SEQUENCE_LOCKTIME_DISABLE_FLAG = true ∨
    if hasFlag txin.nSequence CTxIn.SEQUENCE_LOCKTIME_TYPE_FLAG then
      ∃ ancestor, block.getAncestor (max (nCoinHeight - 1) 0) = some ancestor ∧
        ancestor.getMedianTimePast + (lockValue txin <<< CTxIn.SEQUENCE_LOCKTIME_GRANULARITY : ℕ) - 1 < T
    else nCoinHeight + lockValue txin - 1 < H

section Step

variable {block : VersionBits.CBlockIndex} {lockPair : ℤ × ℤ} {txin : CTxIn} {nCoinHeight : ℤ}
  {r : (ℤ × ℤ) × ℤ}

theorem sequenceLockStep_isSome (hle : nCoinHeight ≤ block.nHeight) :
    ∃ r, sequenceLockStep block lockPair txin nCoinHeight = some r := by
  unfold sequenceLockStep
  split_ifs
  · exact ⟨_, rfl⟩
  · obtain ⟨a, ha⟩ := CBlockIndex.getAncestor_of_le (b := block) (le_max_right (nCoinHeight - 1) 0)
      (max_le (by omega) (Int.natCast_nonneg _))
    exact ⟨_, by rw [ha]; rfl⟩
  · exact ⟨_, rfl⟩

/-- The step's spec: the pair after it is below `(H, T)` iff the pair before
it is and so is the input's lock. -/
theorem sequenceLockStep_lt_iff (hstep : sequenceLockStep block lockPair txin nCoinHeight = some r)
    (H T : ℤ) :
    (r.1.1 < H ∧ r.1.2 < T) ↔ (lockPair.1 < H ∧ lockPair.2 < T ∧ lockBelow block H T txin nCoinHeight) := by
  unfold sequenceLockStep at hstep
  unfold lockBelow
  by_cases hd : hasFlag txin.nSequence CTxIn.SEQUENCE_LOCKTIME_DISABLE_FLAG = true
  · rw [if_pos hd] at hstep
    cases hstep
    simp [hd]
  · rw [if_neg hd] at hstep
    by_cases ht : hasFlag txin.nSequence CTxIn.SEQUENCE_LOCKTIME_TYPE_FLAG = true
    · rw [if_pos ht] at hstep
      obtain ⟨a, ha, rfl⟩ := Option.map_eq_some_iff.mp hstep
      simp [hd, ht, ha]
    · rw [if_neg ht] at hstep
      cases hstep
      simp only [hd, ht, max_lt_iff, Bool.false_eq_true, false_or, if_false]
      exact ⟨fun ⟨⟨h1, h2⟩, h3⟩ => ⟨h1, h3, h2⟩, fun ⟨h1, h3, h2⟩ => ⟨⟨h1, h2⟩, h3⟩⟩

/-- The step leaves the input's height as it is, or at `0` for an input
without a lock. -/
theorem sequenceLockStep_snd (hstep : sequenceLockStep block lockPair txin nCoinHeight = some r) :
    r.2 = if hasFlag txin.nSequence CTxIn.SEQUENCE_LOCKTIME_DISABLE_FLAG then 0 else nCoinHeight := by
  unfold sequenceLockStep at hstep
  by_cases hd : hasFlag txin.nSequence CTxIn.SEQUENCE_LOCKTIME_DISABLE_FLAG = true
  · rw [if_pos hd] at hstep ⊢
    cases hstep
    rfl
  · rw [if_neg hd] at hstep ⊢
    split_ifs at hstep
    · obtain ⟨a, -, rfl⟩ := Option.map_eq_some_iff.mp hstep
      rfl
    · cases hstep
      rfl

end Step

section Loop

variable {block : VersionBits.CBlockIndex}

@[simp] theorem calculateSequenceLocksLoop_nil (lockPair : ℤ × ℤ) (prevHeights : List ℤ) :
    calculateSequenceLocksLoop block lockPair [] prevHeights = some (lockPair, prevHeights) := rfl

theorem calculateSequenceLocksLoop_cons_cons_eq_some {lockPair : ℤ × ℤ} {txin : CTxIn}
    {vin : List CTxIn} {nCoinHeight : ℤ} {prevHeights : List ℤ} {r : (ℤ × ℤ) × List ℤ}
    (h : calculateSequenceLocksLoop block lockPair (txin :: vin) (nCoinHeight :: prevHeights) = some r) :
    ∃ s r', sequenceLockStep block lockPair txin nCoinHeight = some s ∧
      calculateSequenceLocksLoop block s.1 vin prevHeights = some r' ∧ r = (r'.1, s.2 :: r'.2) := by
  obtain ⟨s, hs, hr⟩ := Option.bind_eq_some_iff.mp h
  obtain ⟨r', hr', rfl⟩ := Option.map_eq_some_iff.mp hr
  exact ⟨s, r', hs, hr', rfl⟩

/-- The loop dereferences no null ancestor while every height is at most the
block's. -/
theorem calculateSequenceLocksLoop_isSome (vin : List CTxIn) :
    ∀ (lockPair : ℤ × ℤ) (prevHeights : List ℤ), (∀ h ∈ prevHeights, h ≤ block.nHeight) →
      ∃ r, calculateSequenceLocksLoop block lockPair vin prevHeights = some r := by
  induction vin with
  | nil => exact fun lockPair prevHeights _ => ⟨_, rfl⟩
  | cons txin vin ih =>
    intro lockPair prevHeights hle
    cases prevHeights with
    | nil => exact ⟨_, rfl⟩
    | cons nCoinHeight prevHeights =>
      obtain ⟨s, hs⟩ := @sequenceLockStep_isSome block lockPair txin nCoinHeight
        (hle nCoinHeight List.mem_cons_self)
      obtain ⟨r', hr'⟩ := ih s.1 prevHeights fun h hh => hle h (List.mem_cons_of_mem _ hh)
      refine ⟨(r'.1, s.2 :: r'.2), ?_⟩
      simp only [calculateSequenceLocksLoop, hs, Option.bind_some, hr', Option.map_some]

/-- The loop's spec, from the step's by induction on the inputs: the pair it
returns is below `(H, T)` iff the pair it starts from is and so is every
input's lock. -/
theorem calculateSequenceLocksLoop_lt_iff (H T : ℤ) (vin : List CTxIn) :
    ∀ {lockPair : ℤ × ℤ} {prevHeights : List ℤ} {r : (ℤ × ℤ) × List ℤ},
      calculateSequenceLocksLoop block lockPair vin prevHeights = some r →
      ((r.1.1 < H ∧ r.1.2 < T) ↔
        (lockPair.1 < H ∧ lockPair.2 < T ∧ ∀ p ∈ vin.zip prevHeights, lockBelow block H T p.1 p.2)) := by
  induction vin with
  | nil =>
    intro lockPair prevHeights r h
    cases h
    simp
  | cons txin vin ih =>
    intro lockPair prevHeights r h
    cases prevHeights with
    | nil =>
      cases h
      simp
    | cons nCoinHeight prevHeights =>
      obtain ⟨s, r', hs, hr', rfl⟩ := calculateSequenceLocksLoop_cons_cons_eq_some h
      rw [List.zip_cons_cons, List.forall_mem_cons, ih hr', ← and_assoc,
        sequenceLockStep_lt_iff hs H T]
      simp only [and_assoc]

/-- An input with a lock keeps its height in the returned `prevHeights`. -/
theorem calculateSequenceLocksLoop_mem (vin : List CTxIn) :
    ∀ {lockPair : ℤ × ℤ} {prevHeights : List ℤ} {r : (ℤ × ℤ) × List ℤ},
      calculateSequenceLocksLoop block lockPair vin prevHeights = some r →
      ∀ p ∈ vin.zip prevHeights,
        hasFlag p.1.nSequence CTxIn.SEQUENCE_LOCKTIME_DISABLE_FLAG = false → p.2 ∈ r.2 := by
  induction vin with
  | nil => simp
  | cons txin vin ih =>
    intro lockPair prevHeights r h
    cases prevHeights with
    | nil => simp
    | cons nCoinHeight prevHeights =>
      obtain ⟨s, r', hs, hr', rfl⟩ := calculateSequenceLocksLoop_cons_cons_eq_some h
      rw [List.zip_cons_cons, List.forall_mem_cons]
      refine ⟨fun hd => ?_, fun p hp hd => List.mem_cons_of_mem _ (ih hr' p hp hd)⟩
      rw [sequenceLockStep_snd hs, if_neg (by simp [hd])]
      exact List.mem_cons_self

/-- Every height the loop returns is `0` or one it was given. -/
theorem calculateSequenceLocksLoop_snd_mem (vin : List CTxIn) :
    ∀ {lockPair : ℤ × ℤ} {prevHeights : List ℤ} {r : (ℤ × ℤ) × List ℤ},
      calculateSequenceLocksLoop block lockPair vin prevHeights = some r →
      ∀ h ∈ r.2, h = 0 ∨ h ∈ prevHeights := by
  induction vin with
  | nil =>
    intro lockPair prevHeights r hloop h hh
    cases hloop
    exact Or.inr hh
  | cons txin vin ih =>
    intro lockPair prevHeights r hloop h hh
    cases prevHeights with
    | nil =>
      cases hloop
      exact Or.inr hh
    | cons nCoinHeight prevHeights =>
      obtain ⟨s, r', hs, hr', rfl⟩ := calculateSequenceLocksLoop_cons_cons_eq_some hloop
      rcases List.mem_cons.mp hh with rfl | hh
      · rw [sequenceLockStep_snd hs]
        split_ifs
        · exact Or.inl rfl
        · exact Or.inr List.mem_cons_self
      · exact (ih hr' h hh).imp_right (List.mem_cons_of_mem _)

end Loop

section Calculate

variable {tx : CTransaction} {flags : ℕ} {prevHeights : List ℤ} {block : VersionBits.CBlockIndex}
  {r : (ℤ × ℤ) × List ℤ}

theorem calculateSequenceLocks_isSome (hlen : prevHeights.length = tx.vin.length)
    (hle : ∀ h ∈ prevHeights, h ≤ block.nHeight) :
    ∃ r, CalculateSequenceLocks tx flags prevHeights block = some r := by
  unfold CalculateSequenceLocks
  rw [if_neg (not_not.mpr hlen)]
  split
  · exact ⟨_, rfl⟩
  · exact calculateSequenceLocksLoop_isSome tx.vin _ _ hle

/-- `CalculateSequenceLocks`'s spec: its pair is below `(H, T)` iff `-1` is,
and, where BIP68 is enforced, every input's lock is. -/
theorem calculateSequenceLocks_lt_iff (hcalc : CalculateSequenceLocks tx flags prevHeights block = some r)
    (H T : ℤ) :
    (r.1.1 < H ∧ r.1.2 < T) ↔
      (-1 < H ∧ -1 < T ∧
        (fEnforceBIP68 tx flags = true → ∀ p ∈ tx.vin.zip prevHeights, lockBelow block H T p.1 p.2)) := by
  unfold CalculateSequenceLocks at hcalc
  split_ifs at hcalc with hlen henforce
  · cases hcalc
    simp_all
  · rw [calculateSequenceLocksLoop_lt_iff H T tx.vin hcalc]
    simp_all

/-- Every input with a lock keeps its height in the returned `prevHeights`. -/
theorem calculateSequenceLocks_mem (hcalc : CalculateSequenceLocks tx flags prevHeights block = some r) :
    ∀ p ∈ tx.vin.zip prevHeights,
      hasFlag p.1.nSequence CTxIn.SEQUENCE_LOCKTIME_DISABLE_FLAG = false → p.2 ∈ r.2 := by
  unfold CalculateSequenceLocks at hcalc
  split_ifs at hcalc with hlen henforce
  · cases hcalc
    exact fun p hp _ => List.of_mem_zip hp |>.2
  · exact calculateSequenceLocksLoop_mem tx.vin hcalc

/-- Every height `CalculateSequenceLocks` returns is `0` or one it was
given. -/
theorem calculateSequenceLocks_snd_mem (hcalc : CalculateSequenceLocks tx flags prevHeights block = some r) :
    ∀ h ∈ r.2, h = 0 ∨ h ∈ prevHeights := by
  unfold CalculateSequenceLocks at hcalc
  split_ifs at hcalc with hlen henforce
  · cases hcalc
    exact fun h hh => Or.inr hh
  · exact calculateSequenceLocksLoop_snd_mem tx.vin hcalc

end Calculate

/-- `EvaluateSequenceLocks`' spec: the pair lies below the block's height
and its parent's median time past. -/
theorem evaluateSequenceLocks_eq {block pprev : VersionBits.CBlockIndex} (hpprev : block.pprev = some pprev)
    (lockPair : ℤ × ℤ) :
    EvaluateSequenceLocks block lockPair =
      some (decide (lockPair.1 < block.nHeight ∧ lockPair.2 < pprev.getMedianTimePast)) := by
  rw [EvaluateSequenceLocks, hpprev, Option.map_some]
  simp only [Bool.not_or, ← decide_not, not_le, Bool.decide_and]

theorem lockBelow_of_disabled {block : VersionBits.CBlockIndex} {H T : ℤ} {txin : CTxIn} {h : ℤ}
    (hd : hasFlag txin.nSequence CTxIn.SEQUENCE_LOCKTIME_DISABLE_FLAG = true) : lockBelow block H T txin h :=
  Or.inl hd

/-- Against the block itself the loop's last-invalid form is BIP68's
first-valid one. -/
theorem lockBelow_iff_bip68Satisfied {block pprev : VersionBits.CBlockIndex} {txin : CTxIn} {h : ℤ}
    (hd : hasFlag txin.nSequence CTxIn.SEQUENCE_LOCKTIME_DISABLE_FLAG = false) :
    lockBelow block block.nHeight pprev.getMedianTimePast txin h ↔ bip68Satisfied block pprev txin h := by
  have hshift : ((lockValue txin <<< CTxIn.SEQUENCE_LOCKTIME_GRANULARITY : ℕ) : ℤ) = lockValue txin * 512 := by
    simp [Nat.shiftLeft_eq, CTxIn.SEQUENCE_LOCKTIME_GRANULARITY]
  unfold lockBelow bip68Satisfied
  rw [hshift]
  split_ifs
  · simp only [hd, Bool.false_eq_true, false_or]
    constructor
    · rintro ⟨a, ha, hlt⟩
      exact ⟨a, ha, by omega⟩
    · rintro ⟨a, ha, hle⟩
      exact ⟨a, ha, by omega⟩
  · simp only [hd, Bool.false_eq_true, false_or]
    omega

/-- `SequenceLocks` is BIP68: for heights up to the block's it returns, and
it returns `true` iff every input it enforces a lock on may be in the
block. -/
theorem sequenceLocks_iff (tx : CTransaction) (flags : ℕ) (prevHeights : List ℤ)
    {block pprev : VersionBits.CBlockIndex} (hpprev : block.pprev = some pprev)
    (hlen : prevHeights.length = tx.vin.length) (hheights : ∀ h ∈ prevHeights, h ≤ block.nHeight) :
    ∃ ok, SequenceLocks tx flags prevHeights block = some ok ∧
      (ok = true ↔ ∀ p ∈ tx.vin.zip prevHeights, 2 ≤ toUInt32 tx.nVersion →
        hasFlag flags LOCKTIME_VERIFY_SEQUENCE = true →
        hasFlag p.1.nSequence CTxIn.SEQUENCE_LOCKTIME_DISABLE_FLAG = false → bip68Satisfied block pprev p.1 p.2) := by
  obtain ⟨r, hcalc⟩ := @calculateSequenceLocks_isSome tx flags prevHeights block hlen hheights
  refine ⟨_, by rw [SequenceLocks, hcalc, Option.bind_some, evaluateSequenceLocks_eq hpprev], ?_⟩
  have hH : (-1 : ℤ) < block.nHeight := by omega
  have hT : (-1 : ℤ) < pprev.getMedianTimePast := by
    have := pprev.getMedianTimePast_nonneg
    omega
  rw [decide_eq_true_iff, calculateSequenceLocks_lt_iff hcalc]
  simp only [hH, hT, true_and, fEnforceBIP68, Bool.and_eq_true, decide_eq_true_eq]
  constructor
  · intro hall p hp h2 hflag hd
    exact (lockBelow_iff_bip68Satisfied hd).mp (hall ⟨h2, hflag⟩ p hp)
  · rintro hall ⟨h2, hflag⟩ p hp
    cases hd : hasFlag p.1.nSequence CTxIn.SEQUENCE_LOCKTIME_DISABLE_FLAG with
    | true => exact lockBelow_of_disabled hd
    | false => exact (lockBelow_iff_bip68Satisfied hd).mpr (hall p hp h2 hflag hd)

/-- A chain of two blocks, the second mined 600 seconds after the first, and
a version 2 transaction with one input of sequence number 0: a relative
lock of no blocks. -/
def genesisTip : VersionBits.CBlockIndex := ⟨⟨1, 0⟩, []⟩

def nextTip : VersionBits.CBlockIndex := ⟨⟨1, 600⟩, genesisTip.chain⟩

def spendOneTx : CTransaction := ⟨2, [⟨⟨7, 0⟩, [], 0, []⟩], [⟨1, []⟩], 0⟩

theorem sequenceLocks_iff_spendOneTx :
    nextTip.pprev = some genesisTip ∧ [(0 : ℤ)].length = spendOneTx.vin.length ∧
      (∀ h ∈ [(0 : ℤ)], h ≤ nextTip.nHeight) ∧
      ∃ ok, SequenceLocks spendOneTx LOCKTIME_VERIFY_SEQUENCE [0] nextTip = some ok ∧
        (ok = true ↔ ∀ p ∈ spendOneTx.vin.zip [0], 2 ≤ toUInt32 spendOneTx.nVersion →
          hasFlag LOCKTIME_VERIFY_SEQUENCE LOCKTIME_VERIFY_SEQUENCE = true →
          hasFlag p.1.nSequence CTxIn.SEQUENCE_LOCKTIME_DISABLE_FLAG = false →
          bip68Satisfied nextTip genesisTip p.1 p.2) :=
  ⟨rfl, rfl, by decide, sequenceLocks_iff spendOneTx LOCKTIME_VERIFY_SEQUENCE [0] rfl rfl (by decide)⟩

/-! ## `CheckSequenceLocks` and the mempool's lock points -/

/-- `LockPoints` of `txmempool.h`: the pair `CalculateSequenceLocks` found,
and the block at the highest height the coins it read were confirmed at. -/
structure LockPoints where
  height : ℤ
  time : ℤ
  maxInputBlock : Option VersionBits.CBlockIndex
  deriving DecidableEq, Repr

/-- The `CBlockIndex index` of `CheckSequenceLocks`: a default-constructed
block whose `pprev` is the tip, at the next height. -/
def nextIndex (tip : VersionBits.CBlockIndex) : VersionBits.CBlockIndex := ⟨⟨0, 0⟩, tip.chain⟩

/-- The entry of `prevheights` for a coin: a coin of a mempool transaction
is assumed to confirm in the next block. -/
def prevHeightOf (tip : VersionBits.CBlockIndex) (coin : Coin) : ℤ :=
  if coin.nHeight = MEMPOOL_HEIGHT then tip.nHeight + 1 else coin.nHeight

/-- `maxInputHeight`: the highest entry of `prevheights` other than the next
block's height. -/
def maxInputHeight (tip : VersionBits.CBlockIndex) (prevheights : List ℤ) : ℤ :=
  prevheights.foldl (fun (m height : ℤ) => if height ≠ (tip.nHeight : ℤ) + 1 then max m height else m) 0

/-- `CheckSequenceLocks(tx, flags, lp, useExistingLockPoints)` with
`chainActive.Tip()` at `tip` and `viewMemPool` the `CCoinsViewMemPool` over
`pcoinsTip` and the mempool: the result and the lock points after the call;
`none` where an assertion fails or a null ancestor is dereferenced. -/
def CheckSequenceLocks (tip : VersionBits.CBlockIndex) (viewMemPool : CoinsView) (tx : CTransaction)
    (flags : ℕ) (lp : Option LockPoints) (useExistingLockPoints : Bool) :
    Option (Bool × Option LockPoints) :=
  if useExistingLockPoints then
    lp.bind fun lp' =>
      (EvaluateSequenceLocks (nextIndex tip) (lp'.height, lp'.time)).map fun ok => (ok, lp)
  else
    match tx.vin.mapM fun txin => viewMemPool txin.prevout with
    -- `error("%s: Missing input")`
    | none => some (false, lp)
    | some coins =>
      (CalculateSequenceLocks tx flags (coins.map (prevHeightOf tip)) (nextIndex tip)).bind fun r =>
        (EvaluateSequenceLocks (nextIndex tip) r.1).map fun ok =>
          (ok, lp.map fun _ => ⟨r.1.1, r.1.2, tip.getAncestor (maxInputHeight tip r.2)⟩)

/-- `TestLockPointValidity(lp)` with `chainActive.Tip()` at `tip`. -/
def TestLockPointValidity (tip : VersionBits.CBlockIndex) (lp : LockPoints) : Bool :=
  match lp.maxInputBlock with
  -- `chainActive.Contains`: the active chain's block at that height is it
  | some maxInputBlock => tip.getAncestor maxInputBlock.nHeight == some maxInputBlock
  | none => true

/-- How the coin an input spends may have moved from the tip `tip0` at which
the lock points were stored to a later tip `tip1`: a confirmed coin is at
most at its tip's height, one confirmed at `tip0` is still confirmed at its
height, and one of a mempool parent is still in the mempool or has since been
confirmed. -/
def CoinFollows (tip0 tip1 : VersionBits.CBlockIndex) (c0 c1 : Coin) : Prop :=
  (c0.nHeight = MEMPOOL_HEIGHT ∨ c0.nHeight ≤ tip0.nHeight) ∧
    (c1.nHeight = MEMPOOL_HEIGHT ∨ c1.nHeight ≤ tip1.nHeight) ∧
    (c0.nHeight ≠ MEMPOOL_HEIGHT → c1.nHeight = c0.nHeight)

section NextIndex

variable (tip : VersionBits.CBlockIndex)

@[simp] theorem nHeight_nextIndex : (nextIndex tip).nHeight = tip.nHeight + 1 := rfl

@[simp] theorem pprev_nextIndex : (nextIndex tip).pprev = some tip := rfl

/-- Below the next block, its ancestors are the tip's. -/
theorem getAncestor_nextIndex {k : ℤ} (hk : k ≤ tip.nHeight) :
    (nextIndex tip).getAncestor k = tip.getAncestor k :=
  (CBlockIndex.getAncestor_getAncestor (CBlockIndex.getAncestor_of_pprev (pprev_nextIndex tip)) hk).symm

theorem evaluateSequenceLocks_nextIndex (lockPair : ℤ × ℤ) :
    EvaluateSequenceLocks (nextIndex tip) lockPair =
      some (decide (lockPair.1 < (tip.nHeight : ℤ) + 1 ∧ lockPair.2 < tip.getMedianTimePast)) := by
  rw [evaluateSequenceLocks_eq (pprev_nextIndex tip), nHeight_nextIndex, Nat.cast_succ]

end NextIndex

section MaxInputHeight

variable {tip : VersionBits.CBlockIndex}

/-- The fold of `maxInputHeight` stays at least where it starts and at least
every entry other than the next block's height. -/
theorem le_foldl_maxInputHeight (prevheights : List ℤ) : ∀ acc : ℤ,
    acc ≤ prevheights.foldl (fun (m height : ℤ) => if height ≠ (tip.nHeight : ℤ) + 1 then max m height else m) acc ∧
      ∀ h ∈ prevheights, h ≠ (tip.nHeight : ℤ) + 1 →
        h ≤ prevheights.foldl (fun (m height : ℤ) => if height ≠ (tip.nHeight : ℤ) + 1 then max m height else m) acc := by
  induction prevheights with
  | nil => simp
  | cons h hs ih =>
    intro acc
    obtain ⟨hacc, hall⟩ := ih (if h ≠ (tip.nHeight : ℤ) + 1 then max acc h else acc)
    rw [List.foldl_cons]
    refine ⟨le_trans (by split_ifs <;> omega) hacc, fun h' hh' hne => ?_⟩
    rcases List.mem_cons.mp hh' with rfl | hh'
    · exact le_trans (by rw [if_pos hne]; exact le_max_right _ _) hacc
    · exact hall h' hh' hne

/-- The fold of `maxInputHeight` stays at most a bound on its start and on
every entry other than the next block's height. -/
theorem foldl_maxInputHeight_le {M : ℤ} (prevheights : List ℤ)
    (hall : ∀ h ∈ prevheights, h ≠ (tip.nHeight : ℤ) + 1 → h ≤ M) : ∀ acc : ℤ, acc ≤ M →
      prevheights.foldl (fun (m height : ℤ) => if height ≠ (tip.nHeight : ℤ) + 1 then max m height else m) acc ≤ M := by
  induction prevheights with
  | nil => simp
  | cons h hs ih =>
    intro acc hacc
    rw [List.foldl_cons]
    refine ih (fun h' hh' => hall h' (List.mem_cons_of_mem _ hh')) _ ?_
    split_ifs with hne
    · exact max_le hacc (hall h List.mem_cons_self hne)
    · exact hacc

theorem maxInputHeight_nonneg (prevheights : List ℤ) : 0 ≤ maxInputHeight tip prevheights :=
  (le_foldl_maxInputHeight prevheights 0).1

theorem le_maxInputHeight {prevheights : List ℤ} {h : ℤ} (hh : h ∈ prevheights) (hne : h ≠ (tip.nHeight : ℤ) + 1) :
    h ≤ maxInputHeight tip prevheights :=
  (le_foldl_maxInputHeight prevheights 0).2 h hh hne

theorem maxInputHeight_le_nHeight {prevheights : List ℤ}
    (hall : ∀ h ∈ prevheights, h ≠ (tip.nHeight : ℤ) + 1 → h ≤ tip.nHeight) :
    maxInputHeight tip prevheights ≤ tip.nHeight :=
  foldl_maxInputHeight_le prevheights hall 0 (Int.natCast_nonneg _)

end MaxInputHeight

section Coins

variable {tip : VersionBits.CBlockIndex} {coin : Coin}

theorem prevHeightOf_of_mempool (h : coin.nHeight = MEMPOOL_HEIGHT) : prevHeightOf tip coin = tip.nHeight + 1 :=
  if_pos h

theorem prevHeightOf_of_confirmed (h : coin.nHeight ≠ MEMPOOL_HEIGHT) : prevHeightOf tip coin = coin.nHeight :=
  if_neg h

theorem prevHeightOf_le (h : coin.nHeight = MEMPOOL_HEIGHT ∨ coin.nHeight ≤ tip.nHeight) :
    prevHeightOf tip coin ≤ tip.nHeight + 1 := by
  unfold prevHeightOf
  split_ifs with hm
  · exact le_refl _
  · omega

end Coins

/-- `CheckSequenceLocks` on stored lock points tests them against the next
block and leaves them as they are. -/
theorem checkSequenceLocks_cached_eq (tip : VersionBits.CBlockIndex) (viewMemPool : CoinsView)
    (tx : CTransaction) (flags : ℕ) (lp : LockPoints) :
    CheckSequenceLocks tip viewMemPool tx flags (some lp) true =
      some (decide (lp.height < (tip.nHeight : ℤ) + 1 ∧ lp.time < tip.getMedianTimePast), some lp) := by
  rw [CheckSequenceLocks, if_pos rfl, Option.bind_some, evaluateSequenceLocks_nextIndex, Option.map_some]

/-- `CheckSequenceLocks` computing afresh, once every coin is found: the pair
of `CalculateSequenceLocks` against the next block, stored with the ancestor
at `maxInputHeight`. -/
theorem checkSequenceLocks_fresh_eq {tip : VersionBits.CBlockIndex} {viewMemPool : CoinsView}
    {tx : CTransaction} {flags : ℕ} {coins : List Coin} {r : (ℤ × ℤ) × List ℤ}
    (hcoins : tx.vin.mapM (fun txin => viewMemPool txin.prevout) = some coins)
    (hcalc : CalculateSequenceLocks tx flags (coins.map (prevHeightOf tip)) (nextIndex tip) = some r)
    (lp : Option LockPoints) :
    CheckSequenceLocks tip viewMemPool tx flags lp false =
      some (decide (r.1.1 < (tip.nHeight : ℤ) + 1 ∧ r.1.2 < tip.getMedianTimePast),
        lp.map fun _ => ⟨r.1.1, r.1.2, tip.getAncestor (maxInputHeight tip r.2)⟩) := by
  rw [CheckSequenceLocks, if_neg Bool.false_ne_true]
  simp only [hcoins, hcalc, Option.bind_some, evaluateSequenceLocks_nextIndex, Option.map_some]

/-! ## One input, stored and fresh -/

section Input

variable {txin : CTxIn}

theorem lockBelow_congr {b0 b1 : VersionBits.CBlockIndex} {H T h : ℤ}
    (hanc : b0.getAncestor (max (h - 1) 0) = b1.getAncestor (max (h - 1) 0)) :
    lockBelow b0 H T txin h ↔ lockBelow b1 H T txin h := by
  unfold lockBelow
  rw [hanc]

theorem shiftLeft_lockValue_eq_zero_iff :
    lockValue txin <<< CTxIn.SEQUENCE_LOCKTIME_GRANULARITY = 0 ↔ lockValue txin = 0 := by
  simp [Nat.shiftLeft_eq, CTxIn.SEQUENCE_LOCKTIME_GRANULARITY]

/-- An input whose coin is taken to confirm in the next block passes against
that block only with a zero lock: why `maxInputHeight` may skip such coins. -/
theorem lockValue_eq_zero_of_lockBelow_next {tip : VersionBits.CBlockIndex}
    (hd : hasFlag txin.nSequence CTxIn.SEQUENCE_LOCKTIME_DISABLE_FLAG = false)
    (hok : lockBelow (nextIndex tip) ((tip.nHeight : ℤ) + 1) tip.getMedianTimePast txin
      ((tip.nHeight : ℤ) + 1)) :
    lockValue txin = 0 := by
  have hk : max ((tip.nHeight : ℤ) + 1 - 1) 0 = tip.nHeight := by omega
  unfold lockBelow at hok
  rw [hd, hk] at hok
  simp only [Bool.false_eq_true, false_or] at hok
  split_ifs at hok
  · -- a time lock, measured from the tip itself
    obtain ⟨a, ha, hlt⟩ := hok
    rw [CBlockIndex.getAncestor_of_pprev (pprev_nextIndex tip)] at ha
    cases ha
    apply shiftLeft_lockValue_eq_zero_iff.mp
    generalize lockValue txin <<< CTxIn.SEQUENCE_LOCKTIME_GRANULARITY = x at hlt ⊢
    omega
  · omega

/-- A zero lock holds against the next block for a coin of any height up to
it, where median times past do not decrease towards the tip. -/
theorem lockBelow_next_of_lockValue_eq_zero {tip : VersionBits.CBlockIndex} (hv : lockValue txin = 0)
    (hmono : ∀ (k : ℤ) a, tip.getAncestor k = some a → a.getMedianTimePast ≤ tip.getMedianTimePast)
    {h : ℤ} (hh : h ≤ (tip.nHeight : ℤ) + 1) :
    lockBelow (nextIndex tip) ((tip.nHeight : ℤ) + 1) tip.getMedianTimePast txin h := by
  have hzero := shiftLeft_lockValue_eq_zero_iff.mpr hv
  unfold lockBelow
  right
  split_ifs
  · have hk : max (h - 1) 0 ≤ tip.nHeight := by omega
    obtain ⟨a, ha⟩ := CBlockIndex.getAncestor_of_le (b := tip) (le_max_right _ _) hk
    refine ⟨a, by rw [getAncestor_nextIndex tip hk, ha], ?_⟩
    have := hmono _ a ha
    rw [hzero]
    omega
  · rw [hv]
    omega

/-- A zero lock stored for a coin taken to confirm after `tip` holds against
a later tip at least as high and as late. -/
theorem lockBelow_next_of_le {tip : VersionBits.CBlockIndex} {H T : ℤ} (hv : lockValue txin = 0)
    (hH : (tip.nHeight : ℤ) < H) (hT : tip.getMedianTimePast ≤ T) :
    lockBelow (nextIndex tip) H T txin ((tip.nHeight : ℤ) + 1) := by
  have hzero := shiftLeft_lockValue_eq_zero_iff.mpr hv
  have hk : max ((tip.nHeight : ℤ) + 1 - 1) 0 = tip.nHeight := by omega
  unfold lockBelow
  right
  split_ifs
  · refine ⟨tip, by rw [hk, CBlockIndex.getAncestor_of_pprev (pprev_nextIndex tip)], ?_⟩
    rw [hzero]
    omega
  · rw [hv]
    omega

variable {tip0 tip1 : VersionBits.CBlockIndex} {c0 c1 : Coin} {m : ℤ}

/-- A confirmed coin keeps its height, and the ancestor its lock reads is
below `maxInputBlock` on both chains. -/
theorem lockBelow_confirmed_iff (hfollow : CoinFollows tip0 tip1 c0 c1) (hc0 : c0.nHeight ≠ MEMPOOL_HEIGHT)
    (hle : prevHeightOf tip0 c0 ≤ m)
    (hagree : ∀ k ≤ m, (nextIndex tip0).getAncestor k = (nextIndex tip1).getAncestor k) (H T : ℤ) :
    lockBelow (nextIndex tip0) H T txin (prevHeightOf tip0 c0) ↔
      lockBelow (nextIndex tip1) H T txin (prevHeightOf tip1 c1) := by
  have hsame := hfollow.2.2 hc0
  have hh0 := @prevHeightOf_of_confirmed tip0 c0 hc0
  have hh1 : prevHeightOf tip1 c1 = c0.nHeight := by
    rw [@prevHeightOf_of_confirmed tip1 c1 (by rw [hsame]; exact hc0), hsame]
  have hk : max ((c0.nHeight : ℤ) - 1) 0 ≤ m := by
    rw [hh0] at hle
    omega
  rw [hh0, hh1]
  exact lockBelow_congr (hagree _ hk)

/-- One input, from the stored pair to a fresh computation at `tip1`: a coin
of a mempool parent had a zero lock, which holds wherever the parent has got
to; a confirmed coin reads the same ancestors as before. -/
theorem lockBelow_fresh_of_cached (hfollow : CoinFollows tip0 tip1 c0 c1)
    (hstored : lockBelow (nextIndex tip0) ((tip0.nHeight : ℤ) + 1) tip0.getMedianTimePast txin
      (prevHeightOf tip0 c0))
    (hmax : hasFlag txin.nSequence CTxIn.SEQUENCE_LOCKTIME_DISABLE_FLAG = false →
      prevHeightOf tip0 c0 ≠ (tip0.nHeight : ℤ) + 1 → prevHeightOf tip0 c0 ≤ m)
    (hagree : ∀ k ≤ m, (nextIndex tip0).getAncestor k = (nextIndex tip1).getAncestor k)
    (hmono : ∀ (k : ℤ) a, tip1.getAncestor k = some a → a.getMedianTimePast ≤ tip1.getMedianTimePast)
    (hcached : lockBelow (nextIndex tip0) ((tip1.nHeight : ℤ) + 1) tip1.getMedianTimePast txin
      (prevHeightOf tip0 c0)) :
    lockBelow (nextIndex tip1) ((tip1.nHeight : ℤ) + 1) tip1.getMedianTimePast txin (prevHeightOf tip1 c1) := by
  cases hd : hasFlag txin.nSequence CTxIn.SEQUENCE_LOCKTIME_DISABLE_FLAG with
  | true => exact lockBelow_of_disabled hd
  | false =>
    by_cases hc0 : c0.nHeight = MEMPOOL_HEIGHT
    · rw [prevHeightOf_of_mempool hc0] at hstored
      exact lockBelow_next_of_lockValue_eq_zero (lockValue_eq_zero_of_lockBelow_next hd hstored) hmono
        (prevHeightOf_le hfollow.2.1)
    · have hne : prevHeightOf tip0 c0 ≠ (tip0.nHeight : ℤ) + 1 := by
        rw [prevHeightOf_of_confirmed hc0]
        have := hfollow.1.resolve_left hc0
        omega
      exact (lockBelow_confirmed_iff hfollow hc0 (hmax hd hne) hagree _ _).mp hcached

/-- One input, from a fresh computation at `tip1` back to the stored pair,
where `tip1` is at least as high and as late as `tip0`. -/
theorem lockBelow_cached_of_fresh (hfollow : CoinFollows tip0 tip1 c0 c1)
    (hstored : lockBelow (nextIndex tip0) ((tip0.nHeight : ℤ) + 1) tip0.getMedianTimePast txin
      (prevHeightOf tip0 c0))
    (hmax : hasFlag txin.nSequence CTxIn.SEQUENCE_LOCKTIME_DISABLE_FLAG = false →
      prevHeightOf tip0 c0 ≠ (tip0.nHeight : ℤ) + 1 → prevHeightOf tip0 c0 ≤ m)
    (hagree : ∀ k ≤ m, (nextIndex tip0).getAncestor k = (nextIndex tip1).getAncestor k)
    (hheight : tip0.nHeight ≤ tip1.nHeight) (hmtp : tip0.getMedianTimePast ≤ tip1.getMedianTimePast)
    (hfresh : lockBelow (nextIndex tip1) ((tip1.nHeight : ℤ) + 1) tip1.getMedianTimePast txin
      (prevHeightOf tip1 c1)) :
    lockBelow (nextIndex tip0) ((tip1.nHeight : ℤ) + 1) tip1.getMedianTimePast txin (prevHeightOf tip0 c0) := by
  cases hd : hasFlag txin.nSequence CTxIn.SEQUENCE_LOCKTIME_DISABLE_FLAG with
  | true => exact lockBelow_of_disabled hd
  | false =>
    by_cases hc0 : c0.nHeight = MEMPOOL_HEIGHT
    · rw [prevHeightOf_of_mempool hc0] at hstored ⊢
      exact lockBelow_next_of_le (lockValue_eq_zero_of_lockBelow_next hd hstored) (by omega) hmtp
    · have hne : prevHeightOf tip0 c0 ≠ (tip0.nHeight : ℤ) + 1 := by
        rw [prevHeightOf_of_confirmed hc0]
        have := hfollow.1.resolve_left hc0
        omega
      exact (lockBelow_confirmed_iff hfollow hc0 (hmax hd hne) hagree _ _).mpr hfresh

end Input

/-! ## The stored lock points on a later chain -/

section Cache

variable {tip tip0 tip1 : VersionBits.CBlockIndex} {view view0 view1 : CoinsView} {tx : CTransaction}
  {flags : ℕ} {coins coins0 coins1 : List Coin} {lp0 lp : LockPoints}

/-- With every coin found, at most at the tip's height or in the mempool,
the fresh computation dereferences no null ancestor. -/
theorem calculateSequenceLocks_coins_isSome (hcoins : tx.vin.mapM (fun txin => view txin.prevout) = some coins)
    (hheights : ∀ c ∈ coins, c.nHeight = MEMPOOL_HEIGHT ∨ c.nHeight ≤ tip.nHeight) :
    ∃ r, CalculateSequenceLocks tx flags (coins.map (prevHeightOf tip)) (nextIndex tip) = some r := by
  refine calculateSequenceLocks_isSome (by rw [List.length_map, ListRel.length_of_mapM_eq_some hcoins]) ?_
  intro h hh
  obtain ⟨c, hc, rfl⟩ := List.mem_map.mp hh
  rw [nHeight_nextIndex, Nat.cast_succ]
  exact prevHeightOf_le (hheights c hc)

/-- What a successful fresh call at `tip0` stores: a pair below the block
after `tip0`, with the ancestor of `tip0` at `maxInputHeight`. -/
theorem checkSequenceLocks_stored (hcoins0 : tx.vin.mapM (fun txin => view0 txin.prevout) = some coins0)
    (hheights : ∀ c ∈ coins0, c.nHeight = MEMPOOL_HEIGHT ∨ c.nHeight ≤ tip0.nHeight)
    (hstore : CheckSequenceLocks tip0 view0 tx flags (some lp0) false = some (true, some lp)) :
    ∃ r, CalculateSequenceLocks tx flags (coins0.map (prevHeightOf tip0)) (nextIndex tip0) = some r ∧
      (r.1.1 < (tip0.nHeight : ℤ) + 1 ∧ r.1.2 < tip0.getMedianTimePast) ∧
      lp = ⟨r.1.1, r.1.2, tip0.getAncestor (maxInputHeight tip0 r.2)⟩ := by
  obtain ⟨r, hcalc⟩ := @calculateSequenceLocks_coins_isSome tip0 view0 tx flags coins0 hcoins0 hheights
  rw [checkSequenceLocks_fresh_eq hcoins0 hcalc, Option.map_some] at hstore
  simp only [Option.some.injEq, Prod.mk.injEq, decide_eq_true_eq] at hstore
  exact ⟨r, hcalc, hstore.1, hstore.2.symm⟩

/-- `maxInputHeight` of what `CalculateSequenceLocks` returns for coins at
most at the tip's height or in the mempool is a height of the tip's chain. -/
theorem maxInputHeight_le_of_calculate {r : (ℤ × ℤ) × List ℤ}
    (hheights : ∀ c ∈ coins, c.nHeight = MEMPOOL_HEIGHT ∨ c.nHeight ≤ tip.nHeight)
    (hcalc : CalculateSequenceLocks tx flags (coins.map (prevHeightOf tip)) (nextIndex tip) = some r) :
    maxInputHeight tip r.2 ≤ tip.nHeight := by
  refine maxInputHeight_le_nHeight fun h hh hne => ?_
  rcases calculateSequenceLocks_snd_mem hcalc h hh with rfl | hh
  · exact Int.natCast_nonneg _
  · obtain ⟨c, hc, rfl⟩ := List.mem_map.mp hh
    have := prevHeightOf_le (hheights c hc)
    omega

/-- Lock points still valid at `tip1` pin its chain to `tip0`'s up to
`maxInputBlock`: below it the two next blocks have the same ancestors. -/
theorem getAncestor_agree_of_valid {m height time : ℤ} (h0 : 0 ≤ m) (hm : m ≤ tip0.nHeight)
    (hvalid : TestLockPointValidity tip1 ⟨height, time, tip0.getAncestor m⟩ = true) :
    ∀ k ≤ m, (nextIndex tip0).getAncestor k = (nextIndex tip1).getAncestor k := by
  obtain ⟨mb, hmb⟩ := CBlockIndex.getAncestor_of_le h0 hm
  have hc : tip1.getAncestor m = some mb := by
    simp only [TestLockPointValidity, hmb, beq_iff_eq] at hvalid
    rwa [CBlockIndex.nHeight_of_getAncestor hmb] at hvalid
  have hm1 := CBlockIndex.le_nHeight_of_getAncestor hc
  intro k hk
  rw [getAncestor_nextIndex tip0 (by omega), getAncestor_nextIndex tip1 (by omega),
    ← CBlockIndex.getAncestor_getAncestor hmb hk, CBlockIndex.getAncestor_getAncestor hc hk]

/-- Every input with a lock whose coin was confirmed at `tip0` is at most at
`maxInputHeight`. -/
theorem le_maxInputHeight_of_calculate {r : (ℤ × ℤ) × List ℤ}
    (hcalc : CalculateSequenceLocks tx flags (coins.map (prevHeightOf tip)) (nextIndex tip) = some r) :
    ∀ p ∈ tx.vin.zip (coins.map (prevHeightOf tip)),
      hasFlag p.1.nSequence CTxIn.SEQUENCE_LOCKTIME_DISABLE_FLAG = false →
        p.2 ≠ (tip.nHeight : ℤ) + 1 → p.2 ≤ maxInputHeight tip r.2 :=
  fun p hp hd hne => le_maxInputHeight (calculateSequenceLocks_mem hcalc p hp hd) hne

/-- The stored lock points are sound on any later chain they are valid on:
if the cached check passes, so does a fresh one.  Median times past must not
decrease towards `tip1`, as the header time rule makes them. -/
theorem checkSequenceLocks_fresh_of_cached
    (hcoins0 : tx.vin.mapM (fun txin => view0 txin.prevout) = some coins0)
    (hcoins1 : tx.vin.mapM (fun txin => view1 txin.prevout) = some coins1)
    (hfollow : List.Forall₂ (CoinFollows tip0 tip1) coins0 coins1)
    (hmono : ∀ (k : ℤ) a, tip1.getAncestor k = some a → a.getMedianTimePast ≤ tip1.getMedianTimePast)
    (hstore : CheckSequenceLocks tip0 view0 tx flags (some lp0) false = some (true, some lp))
    (hvalid : TestLockPointValidity tip1 lp = true)
    (hcached : CheckSequenceLocks tip1 view1 tx flags (some lp) true = some (true, some lp))
    (lp1 : Option LockPoints) :
    ∃ lp1', CheckSequenceLocks tip1 view1 tx flags lp1 false = some (true, lp1') := by
  obtain ⟨hheights0, hheights1⟩ := ListRel.forall_mem_of_forall₂ (fun _ _ h => ⟨h.1, h.2.1⟩) hfollow
  obtain ⟨r0, hcalc0, hok0, rfl⟩ := checkSequenceLocks_stored hcoins0 hheights0 hstore
  obtain ⟨r1, hcalc1⟩ := @calculateSequenceLocks_coins_isSome tip1 view1 tx flags coins1 hcoins1 hheights1
  refine ⟨lp1.map fun _ => ⟨r1.1.1, r1.1.2, tip1.getAncestor (maxInputHeight tip1 r1.2)⟩, ?_⟩
  rw [checkSequenceLocks_fresh_eq hcoins1 hcalc1 lp1]
  rw [checkSequenceLocks_cached_eq] at hcached
  have hc : r0.1.1 < (tip1.nHeight : ℤ) + 1 ∧ r0.1.2 < tip1.getMedianTimePast := by simpa using hcached
  simp only [Option.some.injEq, Prod.mk.injEq, decide_eq_true_eq, and_true]
  rw [calculateSequenceLocks_lt_iff hcalc0] at hc hok0
  rw [calculateSequenceLocks_lt_iff hcalc1]
  obtain ⟨hH, hT, hall⟩ := hc
  refine ⟨hH, hT, fun henforce => ?_⟩
  have hagree := getAncestor_agree_of_valid (maxInputHeight_nonneg _)
    (maxInputHeight_le_of_calculate hheights0 hcalc0) hvalid
  -- input by input, along the two lists of coins
  refine ListRel.forall_mem_zip_map_of_forall₂ (Q := fun _ _ => True)
    (P := fun txin h => lockBelow (nextIndex tip0) ((tip0.nHeight : ℤ) + 1) tip0.getMedianTimePast txin h ∧
      (hasFlag txin.nSequence CTxIn.SEQUENCE_LOCKTIME_DISABLE_FLAG = false →
        h ≠ (tip0.nHeight : ℤ) + 1 → h ≤ maxInputHeight tip0 r0.2) ∧
      lockBelow (nextIndex tip0) ((tip1.nHeight : ℤ) + 1) tip1.getMedianTimePast txin h)
    (fun txin c0 c1 hf ⟨hs, hm, hc⟩ _ => lockBelow_fresh_of_cached hf hs hm hagree hmono hc) hfollow
    (fun p hp => ⟨hok0.2.2 henforce p hp, le_maxInputHeight_of_calculate hcalc0 p hp, hall henforce p hp⟩)
    (fun _ _ => trivial)

/-- The parent of `spendOneTx` in the mempool at `genesisTip`, and confirmed
in `nextTip`. -/
def mempoolParent : CoinsView := fun _ => some ⟨⟨1, []⟩, MEMPOOL_HEIGHT, false⟩

def confirmedParent : CoinsView := fun _ => some ⟨⟨1, []⟩, 1, false⟩

theorem mapM_mempoolParent :
    spendOneTx.vin.mapM (fun txin => mempoolParent txin.prevout) = some [⟨⟨1, []⟩, MEMPOOL_HEIGHT, false⟩] :=
  rfl

theorem mapM_confirmedParent :
    spendOneTx.vin.mapM (fun txin => confirmedParent txin.prevout) = some [⟨⟨1, []⟩, 1, false⟩] :=
  rfl

-- `List.mergeSort` is well-founded recursion, which `decide` does not unfold
theorem getMedianTimePast_genesisTip : genesisTip.getMedianTimePast = 0 := by
  simp [VersionBits.CBlockIndex.getMedianTimePast, VersionBits.CBlockIndex.chain,
    VersionBits.CBlockIndex.nMedianTimeSpan, genesisTip]

theorem getMedianTimePast_nextTip : nextTip.getMedianTimePast = 600 := by
  simp [VersionBits.CBlockIndex.getMedianTimePast, VersionBits.CBlockIndex.chain,
    VersionBits.CBlockIndex.nMedianTimeSpan, nextTip, genesisTip, List.mergeSort]

/-- Median times past grow along the two blocks. -/
theorem getMedianTimePast_le_nextTip :
    ∀ (k : ℤ) a, nextTip.getAncestor k = some a → a.getMedianTimePast ≤ nextTip.getMedianTimePast := by
  intro k a h
  rw [VersionBits.CBlockIndex.getAncestor] at h
  split_ifs at h with hk
  have hk' : k = 0 ∨ k = 1 := by
    simp only [VersionBits.CBlockIndex.nHeight, nextTip, genesisTip, VersionBits.CBlockIndex.chain,
      List.length_singleton] at hk
    omega
  rcases hk' with rfl | rfl
  · -- the genesis block
    obtain rfl : a = genesisTip := by
      simpa [VersionBits.CBlockIndex.ofChain, VersionBits.CBlockIndex.chain, VersionBits.CBlockIndex.nHeight,
        nextTip, genesisTip] using h.symm
    rw [getMedianTimePast_genesisTip]
    exact VersionBits.CBlockIndex.getMedianTimePast_nonneg _
  · -- the tip itself
    obtain rfl : a = nextTip := by
      simpa [VersionBits.CBlockIndex.ofChain, VersionBits.CBlockIndex.chain, VersionBits.CBlockIndex.nHeight,
        nextTip, genesisTip] using h.symm
    exact le_rfl

/-- The parent's coin moves from the mempool into `nextTip`. -/
theorem coinFollows_confirmedParent :
    List.Forall₂ (CoinFollows genesisTip nextTip) [⟨⟨1, []⟩, MEMPOOL_HEIGHT, false⟩] [⟨⟨1, []⟩, 1, false⟩] :=
  .cons ⟨Or.inl rfl, Or.inr (by decide), fun h => absurd rfl h⟩ .nil

/-- The lock points stored with the parent in the mempool. -/
theorem checkSequenceLocks_stored_genesisTip :
    CheckSequenceLocks genesisTip mempoolParent spendOneTx LOCKTIME_VERIFY_SEQUENCE (some ⟨0, 0, none⟩) false =
      some (true, some ⟨0, -1, some genesisTip⟩) := by
  rw [checkSequenceLocks_fresh_eq mapM_mempoolParent (r := ((0, -1), [1])) (by decide),
    getMedianTimePast_genesisTip]
  decide

theorem checkSequenceLocks_fresh_of_cached_confirmedParent :
    List.Forall₂ (CoinFollows genesisTip nextTip) [⟨⟨1, []⟩, MEMPOOL_HEIGHT, false⟩] [⟨⟨1, []⟩, 1, false⟩] ∧
      TestLockPointValidity nextTip ⟨0, -1, some genesisTip⟩ = true ∧
      CheckSequenceLocks nextTip confirmedParent spendOneTx LOCKTIME_VERIFY_SEQUENCE
        (some ⟨0, -1, some genesisTip⟩) true = some (true, some ⟨0, -1, some genesisTip⟩) ∧
      ∃ lp1', CheckSequenceLocks nextTip confirmedParent spendOneTx LOCKTIME_VERIFY_SEQUENCE none false =
        some (true, lp1') :=
  have hcached : CheckSequenceLocks nextTip confirmedParent spendOneTx LOCKTIME_VERIFY_SEQUENCE
      (some ⟨0, -1, some genesisTip⟩) true = some (true, some ⟨0, -1, some genesisTip⟩) := by
    rw [checkSequenceLocks_cached_eq, getMedianTimePast_nextTip]
    decide
  ⟨coinFollows_confirmedParent, by decide, hcached,
    checkSequenceLocks_fresh_of_cached mapM_mempoolParent mapM_confirmedParent coinFollows_confirmedParent
      getMedianTimePast_le_nextTip checkSequenceLocks_stored_genesisTip (by decide) hcached none⟩

/-- Where the later chain is at least as high and as late as the one the
lock points were stored at, they are also complete: if a fresh check passes,
so does the cached one. -/
theorem checkSequenceLocks_cached_of_fresh
    (hcoins0 : tx.vin.mapM (fun txin => view0 txin.prevout) = some coins0)
    (hcoins1 : tx.vin.mapM (fun txin => view1 txin.prevout) = some coins1)
    (hfollow : List.Forall₂ (CoinFollows tip0 tip1) coins0 coins1)
    (hheight : tip0.nHeight ≤ tip1.nHeight) (hmtp : tip0.getMedianTimePast ≤ tip1.getMedianTimePast)
    (hstore : CheckSequenceLocks tip0 view0 tx flags (some lp0) false = some (true, some lp))
    (hvalid : TestLockPointValidity tip1 lp = true)
    {lp1 lp1' : Option LockPoints} (hfresh : CheckSequenceLocks tip1 view1 tx flags lp1 false = some (true, lp1')) :
    CheckSequenceLocks tip1 view1 tx flags (some lp) true = some (true, some lp) := by
  obtain ⟨hheights0, hheights1⟩ := ListRel.forall_mem_of_forall₂ (fun _ _ h => ⟨h.1, h.2.1⟩) hfollow
  obtain ⟨r0, hcalc0, hok0, rfl⟩ := checkSequenceLocks_stored hcoins0 hheights0 hstore
  obtain ⟨r1, hcalc1⟩ := @calculateSequenceLocks_coins_isSome tip1 view1 tx flags coins1 hcoins1 hheights1
  rw [checkSequenceLocks_fresh_eq hcoins1 hcalc1] at hfresh
  have hf : r1.1.1 < (tip1.nHeight : ℤ) + 1 ∧ r1.1.2 < tip1.getMedianTimePast := by
    simp only [Option.some.injEq, Prod.mk.injEq, decide_eq_true_eq] at hfresh
    exact hfresh.1
  rw [checkSequenceLocks_cached_eq]
  simp only [Option.some.injEq, Prod.mk.injEq, decide_eq_true_eq, and_true]
  rw [calculateSequenceLocks_lt_iff hcalc1] at hf
  rw [calculateSequenceLocks_lt_iff hcalc0] at hok0 ⊢
  obtain ⟨hH, hT, hall⟩ := hf
  refine ⟨hH, hT, fun henforce => ?_⟩
  have hagree := getAncestor_agree_of_valid (maxInputHeight_nonneg _)
    (maxInputHeight_le_of_calculate hheights0 hcalc0) hvalid
  -- input by input, from the fresh coins back to the stored ones
  exact ListRel.forall_mem_zip_map_of_forall₂
    (Q := fun txin h => lockBelow (nextIndex tip0) ((tip0.nHeight : ℤ) + 1) tip0.getMedianTimePast txin h ∧
      (hasFlag txin.nSequence CTxIn.SEQUENCE_LOCKTIME_DISABLE_FLAG = false →
        h ≠ (tip0.nHeight : ℤ) + 1 → h ≤ maxInputHeight tip0 r0.2))
    (fun txin c1 c0 hf hfr ⟨hs, hm⟩ => lockBelow_cached_of_fresh hf hs hm hagree hheight hmtp hfr)
    (List.Forall₂.flip hfollow) (hall henforce)
    (fun p hp => ⟨hok0.2.2 henforce p hp, le_maxInputHeight_of_calculate hcalc0 p hp⟩)

theorem checkSequenceLocks_cached_of_fresh_confirmedParent :
    genesisTip.nHeight ≤ nextTip.nHeight ∧ genesisTip.getMedianTimePast ≤ nextTip.getMedianTimePast ∧
      CheckSequenceLocks nextTip confirmedParent spendOneTx LOCKTIME_VERIFY_SEQUENCE none false =
        some (true, none) ∧
      CheckSequenceLocks nextTip confirmedParent spendOneTx LOCKTIME_VERIFY_SEQUENCE
        (some ⟨0, -1, some genesisTip⟩) true = some (true, some ⟨0, -1, some genesisTip⟩) :=
  have hmtp : genesisTip.getMedianTimePast ≤ nextTip.getMedianTimePast := by
    rw [getMedianTimePast_genesisTip, getMedianTimePast_nextTip]
    decide
  have hfresh : CheckSequenceLocks nextTip confirmedParent spendOneTx LOCKTIME_VERIFY_SEQUENCE none false =
      some (true, none) := by
    rw [checkSequenceLocks_fresh_eq mapM_confirmedParent (r := ((0, -1), [1])) (by decide),
      getMedianTimePast_nextTip]
    decide
  ⟨by decide, hmtp, hfresh,
    checkSequenceLocks_cached_of_fresh mapM_mempoolParent mapM_confirmedParent coinFollows_confirmedParent
      (by decide) hmtp checkSequenceLocks_stored_genesisTip (by decide) hfresh⟩

end Cache

/-! ## After a disconnect -/

/-- One input with sequence number 0 under BIP68: a height lock of no
blocks, which the loop records as the height before the coin's. -/
theorem calculateSequenceLocks_zero_sequence {tx : CTransaction} {flags : ℕ} {txin : CTxIn}
    (henforce : fEnforceBIP68 tx flags = true) (hvin : tx.vin = [txin]) (hseq : txin.nSequence = 0)
    (block : VersionBits.CBlockIndex) (h : ℤ) :
    CalculateSequenceLocks tx flags [h] block = some ((max (-1) (h - 1), -1), [h]) := by
  have hd : hasFlag txin.nSequence CTxIn.SEQUENCE_LOCKTIME_DISABLE_FLAG = false := by simp [hasFlag, hseq]
  have ht : hasFlag txin.nSequence CTxIn.SEQUENCE_LOCKTIME_TYPE_FLAG = false := by simp [hasFlag, hseq]
  have hv : lockValue txin = 0 := by simp [lockValue, hseq]
  unfold CalculateSequenceLocks
  rw [hvin, if_neg (by simp), henforce]
  simp [calculateSequenceLocksLoop, sequenceLockStep, hd, ht, hv]

/-- The lock points stored for a transaction that spends an output of a
mempool parent with sequence number 0 name the tip they were stored at.
Once that tip is disconnected they are still valid, yet the cached check
rejects the transaction while a fresh check, with the parent still in the
mempool, accepts it. -/
theorem checkSequenceLocks_cached_after_disconnect {tip0 tip1 : VersionBits.CBlockIndex}
    (hpprev : tip0.pprev = some tip1) {viewMemPool : CoinsView} {tx : CTransaction} {txin : CTxIn}
    {coin : Coin} (hversion : 2 ≤ toUInt32 tx.nVersion) (hvin : tx.vin = [txin]) (hseq : txin.nSequence = 0)
    (hcoin : viewMemPool txin.prevout = some coin) (hmempool : coin.nHeight = MEMPOOL_HEIGHT)
    (lp0 : LockPoints) :
    let lp : LockPoints := ⟨tip0.nHeight, -1, tip0.getAncestor 0⟩
    CheckSequenceLocks tip0 viewMemPool tx LOCKTIME_VERIFY_SEQUENCE (some lp0) false = some (true, some lp) ∧
      TestLockPointValidity tip1 lp = true ∧
      CheckSequenceLocks tip1 viewMemPool tx LOCKTIME_VERIFY_SEQUENCE (some lp) true = some (false, some lp) ∧
      CheckSequenceLocks tip1 viewMemPool tx LOCKTIME_VERIFY_SEQUENCE (some lp) false =
        some (true, some ⟨tip1.nHeight, -1, tip1.getAncestor 0⟩) := by
  dsimp only
  have henforce : fEnforceBIP68 tx LOCKTIME_VERIFY_SEQUENCE = true := by
    simp [fEnforceBIP68, hversion, hasFlag, LOCKTIME_VERIFY_SEQUENCE]
  have hcoins : tx.vin.mapM (fun txin => viewMemPool txin.prevout) = some [coin] := by
    simp [hvin, hcoin]
  -- at either tip the parent's coin is taken to confirm in the next block
  have hcalc : ∀ tip : VersionBits.CBlockIndex,
      CalculateSequenceLocks tx LOCKTIME_VERIFY_SEQUENCE ([coin].map (prevHeightOf tip)) (nextIndex tip) =
        some (((tip.nHeight : ℤ), -1), [(tip.nHeight : ℤ) + 1]) := by
    intro tip
    rw [List.map_singleton, prevHeightOf_of_mempool hmempool,
      calculateSequenceLocks_zero_sequence henforce hvin hseq]
    congr
    omega
  have hmax : ∀ tip : VersionBits.CBlockIndex, maxInputHeight tip [(tip.nHeight : ℤ) + 1] = 0 := by
    simp [maxInputHeight]
  have hT : ∀ tip : VersionBits.CBlockIndex, (-1 : ℤ) < tip.getMedianTimePast := fun tip => by
    have := tip.getMedianTimePast_nonneg
    omega
  have hheight := CBlockIndex.nHeight_of_pprev hpprev
  refine ⟨?_, ?_, ?_, ?_⟩
  · rw [checkSequenceLocks_fresh_eq hcoins (hcalc tip0), hmax]
    simp [hT]
  · -- the genesis block is on both chains
    obtain ⟨g, hg⟩ := CBlockIndex.getAncestor_of_le (b := tip1) le_rfl (Int.natCast_nonneg _)
    have hg0 : tip0.getAncestor 0 = some g := by
      rw [← CBlockIndex.getAncestor_getAncestor (CBlockIndex.getAncestor_of_pprev hpprev)
        (Int.natCast_nonneg _), hg]
    simp [TestLockPointValidity, hg0, CBlockIndex.nHeight_of_getAncestor hg, hg]
  · rw [checkSequenceLocks_cached_eq]
    simp only [Option.some.injEq, Prod.mk.injEq, and_true, decide_eq_false_iff_not, not_and, not_lt]
    omega
  · rw [checkSequenceLocks_fresh_eq hcoins (hcalc tip1), hmax]
    simp [hT]

/-- The first block disconnected from a chain of two. -/
theorem checkSequenceLocks_cached_after_disconnect_height_one :
    let tip0 : VersionBits.CBlockIndex := ⟨⟨1, 1⟩, [⟨1, 0⟩]⟩
    let tip1 : VersionBits.CBlockIndex := ⟨⟨1, 0⟩, []⟩
    let txin : CTxIn := ⟨⟨7, 0⟩, [], 0, []⟩
    let tx : CTransaction := ⟨2, [txin], [⟨1, []⟩], 0⟩
    let coin : Coin := ⟨⟨1, []⟩, MEMPOOL_HEIGHT, false⟩
    let viewMemPool : CoinsView := fun _ => some coin
    let lp : LockPoints := ⟨tip0.nHeight, -1, tip0.getAncestor 0⟩
    (tip0.pprev = some tip1 ∧ 2 ≤ toUInt32 tx.nVersion ∧ tx.vin = [txin] ∧ txin.nSequence = 0 ∧
        viewMemPool txin.prevout = some coin ∧ coin.nHeight = MEMPOOL_HEIGHT) ∧
      CheckSequenceLocks tip0 viewMemPool tx LOCKTIME_VERIFY_SEQUENCE (some ⟨0, 0, none⟩) false =
          some (true, some lp) ∧
        TestLockPointValidity tip1 lp = true ∧
        CheckSequenceLocks tip1 viewMemPool tx LOCKTIME_VERIFY_SEQUENCE (some lp) true = some (false, some lp) ∧
        CheckSequenceLocks tip1 viewMemPool tx LOCKTIME_VERIFY_SEQUENCE (some lp) false =
          some (true, some ⟨tip1.nHeight, -1, tip1.getAncestor 0⟩) :=
  ⟨⟨rfl, by decide, rfl, rfl, rfl, rfl⟩,
    checkSequenceLocks_cached_after_disconnect rfl (by decide) rfl rfl rfl rfl ⟨0, 0, none⟩⟩

end XPChain
