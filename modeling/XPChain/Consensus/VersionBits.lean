import Mathlib.Logic.Function.Basic
import Mathlib.Data.List.Basic
import Mathlib.Data.Int.Basic
import Mathlib.Algebra.Group.Nat.Defs
import Mathlib.Algebra.Group.Int.Defs

/-!
# BIP9 deployment states

`AbstractThresholdConditionChecker::GetStateFor` of `versionbits.cpp` gives
the state of a deployment (`DEFINED`, `STARTED`, `LOCKED_IN`, `ACTIVE`,
`FAILED`) for the block after `pindexPrev`.  A block has the state of the
first block of its period, which is computed from the last block of the
period before.  The function walks back a period at a time to a block whose
state it knows (in its cache, or `DEFINED` at the genesis block's parent or
before the start time), then forward, writing each state it computes to the
cache.  The cache is keyed by block and shared by every later call.

A `CBlockIndex` here holds the fields the deployment logic reads, for the
block and its ancestors; `Consensus.Pow` keeps another view of it, one entry
of the active chain.  Blocks are compared by value, and two blocks with the
same fields and ancestry have the same state, so the model's cache is the
source's with such entries merged.

Over the model stands the recursion BIP9 specifies (`specState`,
`specStateFor`).  The cache holds only specified states (`CacheInv`); each
call keeps that and returns the specified state, so a run of calls from an
empty cache never depends on what the calls before it cached.

## Main definitions

* `CBlockIndex`, `CBlockIndex.getAncestor`, `CBlockIndex.getMedianTimePast`.
* `ThresholdState`, `ThresholdConditionChecker`, `ThresholdConditionCache`.
* `ThresholdConditionChecker.getStateFor` — `GetStateFor`, with its two walks.
* `ThresholdConditionChecker.specState`, `specStateFor` — the states BIP9
  specifies.
* `versionBitsConditionChecker`, `versionBitsState` — `VersionBitsState`.

## Main statements

* `ThresholdConditionChecker.getStateFor_spec` — one call, from a cache of
  specified states.
* `ThresholdConditionChecker.runGetStateFor_eq_map` — every call of a run.
* `ThresholdConditionChecker.specStateFor_getAncestor` — one state per period.
* `runGetStateFor_spec` — the three together, from an empty cache.
-/

set_option autoImplicit false

namespace XPChain.VersionBits

/-! ## Block indices -/

/-- The fields of a `CBlockIndex` that the deployment logic reads. -/
structure BlockIndexFields where
  nVersion : ℤ
  nTime : ℕ
  deriving DecidableEq, Repr

/-- A `CBlockIndex`: its own fields and those of its ancestors, parent first,
down to the genesis block.  `pprev` and `nHeight` are read off the list, so
that they agree by construction. -/
structure CBlockIndex where
  fields : BlockIndexFields
  ancestors : List BlockIndexFields
  deriving DecidableEq, Repr

namespace CBlockIndex

/-- `nHeight`. -/
def nHeight (b : CBlockIndex) : ℕ := b.ancestors.length

/-- The fields of the block and its ancestors, from the block down. -/
def chain (b : CBlockIndex) : List BlockIndexFields := b.fields :: b.ancestors

/-- The block whose chain is `l`; `nullptr` for the empty chain. -/
def ofChain : List BlockIndexFields → Option CBlockIndex
  | [] => none
  | f :: fs => some ⟨f, fs⟩

/-- `pprev`. -/
def pprev (b : CBlockIndex) : Option CBlockIndex := ofChain b.ancestors

/-- `GetAncestor(height)`: `nullptr` outside `0 .. nHeight`, else the
ancestor at that height.  The source walks down `pprev` and `pskip`, each an
ancestor, until it reaches the height. -/
def getAncestor (b : CBlockIndex) (height : ℤ) : Option CBlockIndex :=
  if b.nHeight < height ∨ height < 0 then none
  else ofChain (b.chain.drop (b.nHeight - height.toNat))

/-- `nMedianTimeSpan`. -/
def nMedianTimeSpan : ℕ := 11

/-- `GetMedianTimePast()`: the median of the times of the block and its
ancestors, at most `nMedianTimeSpan` of them. -/
def getMedianTimePast (b : CBlockIndex) : ℤ :=
  let times := ((b.chain.take nMedianTimeSpan).map fun f => (f.nTime : ℤ)).mergeSort
    fun x y => decide (x ≤ y)
  times.getD (times.length / 2) 0

/-- The block and its ancestors, at most `n` of them: the blocks the
signalling count of `GetStateFor` visits through `pprev`. -/
def lastBlocks (b : CBlockIndex) : ℕ → List CBlockIndex
  | 0 => []
  | n + 1 => b :: match b.pprev with
    | none => []
    | some p => p.lastBlocks n

theorem chain_of_ofChain {l : List BlockIndexFields} {a : CBlockIndex} (h : ofChain l = some a) :
    a.chain = l := by
  cases l with
  | nil => cases h
  | cons f fs =>
    cases h
    rfl

theorem length_chain (b : CBlockIndex) : b.chain.length = b.nHeight + 1 := rfl

/-- The ancestor `GetAncestor` returns is at the height asked for. -/
theorem nHeight_of_getAncestor {b a : CBlockIndex} {height : ℤ} (h : b.getAncestor height = some a) :
    (a.nHeight : ℤ) = height := by
  unfold getAncestor at h
  split_ifs at h with hh
  have hlen := congrArg List.length (chain_of_ofChain h)
  rw [length_chain, List.length_drop, length_chain] at hlen
  omega

theorem getAncestor_of_le {b : CBlockIndex} {height : ℤ} (h0 : 0 ≤ height) (hle : height ≤ b.nHeight) :
    ∃ a, b.getAncestor height = some a := by
  unfold getAncestor
  rw [if_neg (by omega)]
  cases hc : b.chain.drop (b.nHeight - height.toNat) with
  | nil =>
    have := congrArg List.length hc
    rw [List.length_drop, length_chain] at this
    simp at this
    omega
  | cons f fs => exact ⟨⟨f, fs⟩, rfl⟩

/-- An ancestor's ancestors are the block's. -/
theorem getAncestor_getAncestor {b a : CBlockIndex} {height height' : ℤ}
    (h : b.getAncestor height = some a) (hle : height' ≤ height) :
    a.getAncestor height' = b.getAncestor height' := by
  have ha := nHeight_of_getAncestor h
  have hbound : ¬((b.nHeight : ℤ) < height ∨ height < 0) := by
    intro hout
    rw [getAncestor, if_pos hout] at h
    cases h
  have hchain : a.chain = b.chain.drop (b.nHeight - height.toNat) := by
    unfold getAncestor at h
    split_ifs at h
    exact chain_of_ofChain h
  unfold getAncestor
  by_cases hout : (a.nHeight : ℤ) < height' ∨ height' < 0
  · rw [if_pos hout, if_pos (by omega)]
  · rw [if_neg hout, if_neg (by omega), hchain, List.drop_drop]
    congr 2
    omega

/-- `GetAncestor` finds nothing above the block. -/
theorem le_nHeight_of_getAncestor {b a : CBlockIndex} {height : ℤ} (h : b.getAncestor height = some a) :
    height ≤ b.nHeight := by
  unfold getAncestor at h
  split_ifs at h with hout
  omega

theorem nHeight_of_pprev {b p : CBlockIndex} (h : b.pprev = some p) : p.nHeight + 1 = b.nHeight := by
  unfold pprev at h
  cases hanc : b.ancestors with
  | nil => rw [hanc] at h; cases h
  | cons f fs =>
    rw [hanc] at h
    cases h
    simp [nHeight, hanc]

/-- The parent is the ancestor one below. -/
theorem getAncestor_of_pprev {b p : CBlockIndex} (h : b.pprev = some p) : b.getAncestor p.nHeight = some p := by
  have hheight := nHeight_of_pprev h
  unfold getAncestor
  rw [if_neg (by omega), Int.toNat_natCast, ← hheight, Nat.add_sub_cancel_left]
  exact h

/-- Block times are unsigned, so their median is not negative. -/
theorem getMedianTimePast_nonneg (b : CBlockIndex) : 0 ≤ b.getMedianTimePast := by
  have hall : ∀ t ∈ ((b.chain.take nMedianTimeSpan).map fun f => (f.nTime : ℤ)).mergeSort
      (fun x y => decide (x ≤ y)), 0 ≤ t := by
    intro t ht
    obtain ⟨f, -, rfl⟩ := List.mem_map.mp ((List.mem_mergeSort).mp ht)
    exact Int.natCast_nonneg _
  simp only [getMedianTimePast]
  generalize ((b.chain.take nMedianTimeSpan).map fun f => (f.nTime : ℤ)).mergeSort
    (fun x y => decide (x ≤ y)) = times at hall ⊢
  rw [List.getD_eq_getElem?_getD]
  cases hget : times[times.length / 2]? with
  | none => simp
  | some t => exact hall t (List.mem_of_getElem? hget)

end CBlockIndex

/-! ## `GetStateFor` -/

/-- `ThresholdState`. -/
inductive ThresholdState
  | DEFINED | STARTED | LOCKED_IN | ACTIVE | FAILED
  deriving DecidableEq, Repr

open ThresholdState

/-- `Consensus::BIP9Deployment::ALWAYS_ACTIVE`. -/
def ALWAYS_ACTIVE : ℤ := -1

/-- An `AbstractThresholdConditionChecker` with its parameters: `Period()`,
`Threshold()`, `BeginTime()`, `EndTime()` and `Condition()`.  The period is
positive: `GetStateFor` takes a remainder by it. -/
structure ThresholdConditionChecker where
  nPeriod : ℕ
  nPeriod_pos : 0 < nPeriod
  nThreshold : ℕ
  nTimeStart : ℤ
  nTimeTimeout : ℤ
  Condition : CBlockIndex → Bool

/-- `ThresholdConditionCache`: the state of period-ending blocks, keyed by
block, `nullptr` included. -/
abbrev ThresholdConditionCache := Option CBlockIndex → Option ThresholdState

namespace ThresholdConditionChecker

variable (c : ThresholdConditionChecker)

/-- The number of blocks of the period ending at `b` that signal. -/
def count (b : CBlockIndex) : ℕ := ((b.lastBlocks c.nPeriod).filter c.Condition).length

/-- The `switch (state)` of the forward walk: the state of the period after
the one ending at `b`, from the state of the period ending at `b`. -/
def nextState (state : ThresholdState) (b : CBlockIndex) : ThresholdState :=
  match state with
  | DEFINED =>
    if c.nTimeTimeout ≤ b.getMedianTimePast then FAILED
    else if c.nTimeStart ≤ b.getMedianTimePast then STARTED
    else DEFINED
  | STARTED =>
    if c.nTimeTimeout ≤ b.getMedianTimePast then FAILED
    else if c.nThreshold ≤ c.count b then LOCKED_IN
    else STARTED
  | LOCKED_IN => ACTIVE
  | FAILED => FAILED
  | ACTIVE => ACTIVE

/-- The last block of the period before the one of `pindexPrev`'s successor:
`pindexPrev->GetAncestor(pindexPrev->nHeight - ((pindexPrev->nHeight + 1) % nPeriod))`. -/
def periodEnd (pindexPrev : Option CBlockIndex) : Option CBlockIndex :=
  pindexPrev.bind fun b => b.getAncestor (b.nHeight - ((b.nHeight + 1 : ℕ) % c.nPeriod : ℕ))

/-- The backward walk of `GetStateFor` from `pindexPrev`: the blocks left to
compute (the last pushed first), the block where it stopped, and the cache
with that block's state filled in.  The fuel bounds the steps. -/
def walkBack : ℕ → Option CBlockIndex → List CBlockIndex → ThresholdConditionCache →
    List CBlockIndex × Option CBlockIndex × ThresholdConditionCache
  | 0, pindexPrev, vToCompute, cache => (vToCompute, pindexPrev, cache)
  | fuel + 1, pindexPrev, vToCompute, cache =>
    if (cache pindexPrev).isSome then (vToCompute, pindexPrev, cache)
    else match pindexPrev with
      | none => (vToCompute, none, Function.update cache none (some DEFINED))
      | some b =>
        if b.getMedianTimePast < c.nTimeStart then
          (vToCompute, some b, Function.update cache (some b) (some DEFINED))
        else walkBack fuel (b.getAncestor (b.nHeight - c.nPeriod)) (b :: vToCompute) cache

/-- The forward walk of `GetStateFor`: each block's state from its
predecessor's, written to the cache. -/
def walkForward : List CBlockIndex → ThresholdState → ThresholdConditionCache →
    ThresholdState × ThresholdConditionCache
  | [], state, cache => (state, cache)
  | b :: vToCompute, state, cache =>
    let stateNext := c.nextState state b
    walkForward vToCompute stateNext (Function.update cache (some b) (some stateNext))

/-- The height of a block plus one, `0` for `nullptr`: it bounds the steps of
the backward walk. -/
def depth : Option CBlockIndex → ℕ
  | none => 0
  | some b => b.nHeight + 1

/-- `GetStateFor(pindexPrev, params, cache)`: the state and the cache it
leaves. -/
def getStateFor (pindexPrev : Option CBlockIndex) (cache : ThresholdConditionCache) :
    ThresholdState × ThresholdConditionCache :=
  if c.nTimeStart = ALWAYS_ACTIVE then (ACTIVE, cache)
  else
    let pindexPrev := c.periodEnd pindexPrev
    let (vToCompute, pindexPrev, cache) := c.walkBack (depth pindexPrev + 1) pindexPrev [] cache
    c.walkForward vToCompute ((cache pindexPrev).getD DEFINED) cache

/-! ## The deployment states BIP9 specifies -/

theorem depth_getAncestor_lt (b : CBlockIndex) :
    depth (b.getAncestor (b.nHeight - c.nPeriod)) < depth (some b) := by
  cases ha : b.getAncestor (b.nHeight - c.nPeriod) with
  | none => simp [depth]
  | some a =>
    have := CBlockIndex.nHeight_of_getAncestor ha
    have := c.nPeriod_pos
    simp only [depth]
    omega

/-- The state of the period after the one ending at `p`: `DEFINED` at the
genesis block's parent and while the median time past is before the start,
else the BIP9 transition from the state of the period before. -/
def specState : Option CBlockIndex → ThresholdState
  | none => DEFINED
  | some b =>
    if b.getMedianTimePast < c.nTimeStart then DEFINED
    else c.nextState (specState (b.getAncestor (b.nHeight - c.nPeriod))) b
termination_by p => depth p
decreasing_by exact c.depth_getAncestor_lt b

/-- The state BIP9 gives the successor of `pindexPrev`: that of its period. -/
def specStateFor (pindexPrev : Option CBlockIndex) : ThresholdState :=
  if c.nTimeStart = ALWAYS_ACTIVE then ACTIVE else c.specState (c.periodEnd pindexPrev)

/-- Every state in the cache is the one BIP9 specifies. -/
def CacheInv (cache : ThresholdConditionCache) : Prop :=
  ∀ p state, cache p = some state → state = c.specState p

theorem cacheInv_update {cache : ThresholdConditionCache} (hinv : c.CacheInv cache)
    (p : Option CBlockIndex) : c.CacheInv (Function.update cache p (some (c.specState p))) := by
  intro q state hq
  by_cases hpq : q = p
  · subst hpq
    rw [Function.update_self, Option.some_inj] at hq
    exact hq.symm
  · rw [Function.update_of_ne hpq] at hq
    exact hinv q state hq

/-- A list of blocks, each the end of the period after the one before it,
with `p` before the first: the forward walk from `p`'s state gives each its
state. -/
def ForwardPath : Option CBlockIndex → List CBlockIndex → Prop
  | _, [] => True
  | p, b :: bs => c.specState (some b) = c.nextState (c.specState p) b ∧ ForwardPath (some b) bs

/-- The block a forward path ends at. -/
def pathEnd : Option CBlockIndex → List CBlockIndex → Option CBlockIndex
  | p, [] => p
  | _, b :: bs => pathEnd (some b) bs

theorem walkForward_forwardPath : ∀ {p : Option CBlockIndex} {bs : List CBlockIndex}
    {cache : ThresholdConditionCache}, c.CacheInv cache → c.ForwardPath p bs →
      (c.walkForward bs (c.specState p) cache).1 = c.specState (pathEnd p bs) ∧
        c.CacheInv (c.walkForward bs (c.specState p) cache).2
  | _, [], _, hinv, _ => ⟨rfl, hinv⟩
  | p, b :: bs, cache, hinv, ⟨hb, hbs⟩ => by
    rw [walkForward, ← hb]
    exact walkForward_forwardPath (c.cacheInv_update hinv (some b)) hbs

/-- The backward walk stops at a block whose state the cache holds, with a
forward path from there to where it started. -/
theorem walkBack_spec : ∀ (fuel : ℕ) {p : Option CBlockIndex} {acc : List CBlockIndex}
    {cache : ThresholdConditionCache}, c.CacheInv cache → depth p < fuel → c.ForwardPath p acc →
      c.CacheInv (c.walkBack fuel p acc cache).2.2 ∧
      (c.walkBack fuel p acc cache).2.2 (c.walkBack fuel p acc cache).2.1 =
        some (c.specState (c.walkBack fuel p acc cache).2.1) ∧
      c.ForwardPath (c.walkBack fuel p acc cache).2.1 (c.walkBack fuel p acc cache).1 ∧
      pathEnd (c.walkBack fuel p acc cache).2.1 (c.walkBack fuel p acc cache).1 = pathEnd p acc
  | 0, _, _, _, _, hfuel, _ => absurd hfuel (Nat.not_lt_zero _)
  | fuel + 1, p, acc, cache, hinv, hfuel, hpath => by
    simp only [walkBack]
    split_ifs with hcached
    · -- a cached block: its state is the specified one
      obtain ⟨state, hstate⟩ := Option.isSome_iff_exists.mp hcached
      exact ⟨hinv, show cache p = some (c.specState p) by rw [hstate, hinv p state hstate], hpath, rfl⟩
    · cases p with
      | none =>
        have hdef : c.specState none = DEFINED := by rw [specState]
        have hinv' := c.cacheInv_update hinv none
        rw [hdef] at hinv'
        exact ⟨hinv', by dsimp only; rw [Function.update_self, hdef], hpath, rfl⟩
      | some b =>
        dsimp only
        split_ifs with hmtp
        · have hdef : c.specState (some b) = DEFINED := by rw [specState, if_pos hmtp]
          have hinv' := c.cacheInv_update hinv (some b)
          rw [hdef] at hinv'
          exact ⟨hinv', by dsimp only; rw [Function.update_self, hdef], hpath, rfl⟩
        · -- the walk goes on to the end of the period before
          have hstep : c.specState (some b) =
              c.nextState (c.specState (b.getAncestor (b.nHeight - c.nPeriod))) b := by
            rw [specState, if_neg hmtp]
          have hdepth : depth (b.getAncestor (b.nHeight - c.nPeriod)) < b.nHeight + 1 :=
            c.depth_getAncestor_lt b
          have hfuel' : b.nHeight + 1 < fuel + 1 := hfuel
          exact walkBack_spec fuel hinv (by omega) ⟨hstep, hpath⟩

/-- From a cache that holds only specified states, `GetStateFor` returns the
specified state and leaves such a cache. -/
theorem getStateFor_spec {cache : ThresholdConditionCache} (hinv : c.CacheInv cache)
    (pindexPrev : Option CBlockIndex) :
    (c.getStateFor pindexPrev cache).1 = c.specStateFor pindexPrev ∧
      c.CacheInv (c.getStateFor pindexPrev cache).2 := by
  unfold getStateFor specStateFor
  split_ifs with hactive
  · exact ⟨rfl, hinv⟩
  · have hpath0 : c.ForwardPath (c.periodEnd pindexPrev) [] := trivial
    obtain ⟨hinv', hstop, hpath, hend⟩ :=
      c.walkBack_spec (depth (c.periodEnd pindexPrev) + 1) hinv (Nat.lt_succ_self _) hpath0
    dsimp only
    rw [hstop, Option.getD_some]
    obtain ⟨hstate, hinv''⟩ := c.walkForward_forwardPath hinv' hpath
    rw [hend] at hstate
    exact ⟨hstate, hinv''⟩

/-- `GetStateFor` called on each block of `calls` in turn, on one cache. -/
def runGetStateFor : ThresholdConditionCache → List (Option CBlockIndex) → List ThresholdState
  | _, [] => []
  | cache, pindexPrev :: calls =>
    (c.getStateFor pindexPrev cache).1 :: runGetStateFor (c.getStateFor pindexPrev cache).2 calls

/-- Every call of a run returns the specified state, whatever the calls
before it left in the cache. -/
theorem runGetStateFor_eq_map {cache : ThresholdConditionCache} (hinv : c.CacheInv cache) :
    ∀ calls, c.runGetStateFor cache calls = calls.map c.specStateFor
  | [] => rfl
  | pindexPrev :: calls => by
    obtain ⟨hstate, hinv'⟩ := c.getStateFor_spec hinv pindexPrev
    rw [runGetStateFor, hstate, runGetStateFor_eq_map hinv' calls, List.map_cons]

/-- The blocks of one period, from the end of the period before to the block
before the end of this one, have the same period end. -/
theorem periodEnd_getAncestor (b : CBlockIndex) {k : ℕ} (hk : k ≤ b.nHeight)
    (hperiod : b.nHeight < k + 1 + (b.nHeight + 1) % c.nPeriod) :
    c.periodEnd (b.getAncestor k) = c.periodEnd (some b) := by
  obtain ⟨a, ha⟩ := CBlockIndex.getAncestor_of_le (b := b) (Int.natCast_nonneg k) (by exact_mod_cast hk)
  have haHeight : a.nHeight = k := by exact_mod_cast CBlockIndex.nHeight_of_getAncestor ha
  -- `k + 1` is in the same period as `nHeight + 1`
  have hdiv := Nat.div_add_mod (b.nHeight + 1) c.nPeriod
  have hlt := Nat.mod_lt (b.nHeight + 1) c.nPeriod_pos
  have hmod : (k + 1) % c.nPeriod = k + 1 - c.nPeriod * ((b.nHeight + 1) / c.nPeriod) := by
    have hsplit : k + 1 = c.nPeriod * ((b.nHeight + 1) / c.nPeriod) +
        (k + 1 - c.nPeriod * ((b.nHeight + 1) / c.nPeriod)) := by omega
    calc (k + 1) % c.nPeriod
        = (c.nPeriod * ((b.nHeight + 1) / c.nPeriod) +
            (k + 1 - c.nPeriod * ((b.nHeight + 1) / c.nPeriod))) % c.nPeriod := by rw [← hsplit]
      _ = (k + 1 - c.nPeriod * ((b.nHeight + 1) / c.nPeriod)) % c.nPeriod := Nat.mul_add_mod _ _ _
      _ = k + 1 - c.nPeriod * ((b.nHeight + 1) / c.nPeriod) := Nat.mod_eq_of_lt (by omega)
  simp only [periodEnd, ha, Option.bind_some, haHeight]
  rw [CBlockIndex.getAncestor_getAncestor ha (by omega)]
  congr 1
  omega

/-- BIP9 gives all blocks of one period the same state. -/
theorem specStateFor_getAncestor (b : CBlockIndex) {k : ℕ} (hk : k ≤ b.nHeight)
    (hperiod : b.nHeight < k + 1 + (b.nHeight + 1) % c.nPeriod) :
    c.specStateFor (b.getAncestor k) = c.specStateFor (some b) := by
  rw [specStateFor, specStateFor, c.periodEnd_getAncestor b hk hperiod]

end ThresholdConditionChecker

/-! ## Version bits deployments -/

/-- `Consensus::BIP9Deployment`. -/
structure BIP9Deployment where
  bit : ℕ
  nStartTime : ℤ
  nTimeout : ℤ
  deriving DecidableEq, Repr

/-- `VERSIONBITS_TOP_BITS`. -/
def VERSIONBITS_TOP_BITS : ℕ := 0x20000000

/-- `VERSIONBITS_TOP_MASK`. -/
def VERSIONBITS_TOP_MASK : ℕ := 0xE0000000

/-- `VersionBitsConditionChecker::Mask`: `(uint32_t)1 << bit`. -/
def versionBitsMask (deployment : BIP9Deployment) : ℕ := (1 <<< deployment.bit) % 2 ^ 32

/-- `VersionBitsConditionChecker::Condition`: the version has the top bits of
version bits and the deployment's bit, read as an unsigned 32-bit word. -/
def versionBitsCondition (deployment : BIP9Deployment) (pindex : CBlockIndex) : Bool :=
  let nVersion := (pindex.fields.nVersion % 2 ^ 32).toNat
  nVersion &&& VERSIONBITS_TOP_MASK == VERSIONBITS_TOP_BITS && nVersion &&& versionBitsMask deployment != 0

/-- `VersionBitsConditionChecker(pos)` under parameters whose
`nMinerConfirmationWindow` and `nRuleChangeActivationThreshold` are given. -/
def versionBitsConditionChecker (deployment : BIP9Deployment) (nMinerConfirmationWindow : ℕ)
    (hwindow : 0 < nMinerConfirmationWindow) (nRuleChangeActivationThreshold : ℕ) :
    ThresholdConditionChecker where
  nPeriod := nMinerConfirmationWindow
  nPeriod_pos := hwindow
  nThreshold := nRuleChangeActivationThreshold
  nTimeStart := deployment.nStartTime
  nTimeTimeout := deployment.nTimeout
  Condition := versionBitsCondition deployment

/-- `VersionBitsState(pindexPrev, params, pos, cache)`. -/
def versionBitsState (deployment : BIP9Deployment) (nMinerConfirmationWindow : ℕ)
    (hwindow : 0 < nMinerConfirmationWindow) (nRuleChangeActivationThreshold : ℕ)
    (pindexPrev : Option CBlockIndex) (cache : ThresholdConditionCache) :
    ThresholdState × ThresholdConditionCache :=
  (versionBitsConditionChecker deployment nMinerConfirmationWindow hwindow
    nRuleChangeActivationThreshold).getStateFor pindexPrev cache

/-- The state cache does not change the deployment states: from an empty
cache, every call of `GetStateFor` returns the state BIP9 specifies, which is
the same for all blocks of one period and `ACTIVE` everywhere for an
always-active deployment. -/
theorem runGetStateFor_spec (c : ThresholdConditionChecker) (calls : List (Option CBlockIndex)) :
    c.runGetStateFor (fun _ => none) calls = calls.map c.specStateFor ∧
    (∀ (b : CBlockIndex) (k : ℕ), k ≤ b.nHeight → b.nHeight < k + 1 + (b.nHeight + 1) % c.nPeriod →
      c.specStateFor (b.getAncestor k) = c.specStateFor (some b)) ∧
    (c.nTimeStart = ALWAYS_ACTIVE → ∀ pindexPrev, c.specStateFor pindexPrev = ACTIVE) := by
  refine ⟨c.runGetStateFor_eq_map (fun _ _ h => by cases h) calls,
    fun b _ hk hperiod => c.specStateFor_getAncestor b hk hperiod, fun hactive _ => ?_⟩
  rw [ThresholdConditionChecker.specStateFor, if_pos hactive]

end XPChain.VersionBits
