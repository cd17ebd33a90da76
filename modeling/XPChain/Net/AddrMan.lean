import Mathlib.Data.List.AList
import Mathlib.Data.Finset.Sort
import Mathlib.Data.Int.Basic
import Mathlib.Algebra.Group.Nat.Defs
import Mathlib.Algebra.Group.Int.Defs

/-!
# The address manager

`CAddrMan` of `addrman.cpp` keeps the addresses a node knows in two tables of
buckets: `vvNew`, where an address not yet connected to sits in up to
`ADDRMAN_NEW_BUCKETS_PER_ADDRESS` slots, and `vvTried`, where a good address
sits in one slot.  `mapInfo` holds the entries by id, `mapAddr` finds an id
by address, and `vRandom` lists the ids for random selection; each entry
knows its position there, its number of new slots (`nRefCount`) and whether
it is tried.  `Check_` is the consistency check of debug builds.

What the manager uses of an address is abstracted: whether it is routable and
valid, and the hashes behind `GetTriedBucket`, `GetNewBucket` and
`GetBucketPosition`, which it reduces modulo the table sizes (`AddrNet`).  The
random numbers it draws and the adjusted time are inputs.  An `assert` that
fails is an error carrying its condition.  `mapInfo[id]` on an id not in
the map inserts a default entry (`mapInfoAt`); every other read follows
a check that the id is there.

## Main definitions

* `CService`, `CAddress`, `CAddrInfo`, `CAddrMan`, `AddrNet`.
* `CAddrMan.find`, `create`, `swapRandom`, `delete`, `clearNew`, `makeTried`.
* `CAddrMan.good`, `add`, `attempt`, `select`, `getAddr`, `connected`,
  `setServices`, `resolveCollisions`, `selectTriedCollision` — the operations.
* `CAddrMan.check` and `CAddrMan.Check_` — the consistency check.
* `AddrManOp`, `CAddrMan.step`.
-/

set_option autoImplicit false

namespace XPChain

/-! ## Constants -/

def ADDRMAN_TRIED_BUCKET_COUNT_LOG2 : ℕ := 8
def ADDRMAN_NEW_BUCKET_COUNT_LOG2 : ℕ := 10
def ADDRMAN_BUCKET_SIZE_LOG2 : ℕ := 6
def ADDRMAN_NEW_BUCKETS_PER_ADDRESS : ℤ := 8
def ADDRMAN_HORIZON_DAYS : ℤ := 30
def ADDRMAN_RETRIES : ℤ := 3
def ADDRMAN_MAX_FAILURES : ℤ := 10
def ADDRMAN_MIN_FAIL_DAYS : ℤ := 7
def ADDRMAN_REPLACEMENT_HOURS : ℤ := 4
def ADDRMAN_GETADDR_MAX_PCT : ℕ := 23
def ADDRMAN_GETADDR_MAX : ℕ := 2500
def ADDRMAN_TRIED_BUCKET_COUNT : ℕ := 1 <<< ADDRMAN_TRIED_BUCKET_COUNT_LOG2
def ADDRMAN_NEW_BUCKET_COUNT : ℕ := 1 <<< ADDRMAN_NEW_BUCKET_COUNT_LOG2
def ADDRMAN_BUCKET_SIZE : ℕ := 1 <<< ADDRMAN_BUCKET_SIZE_LOG2
def ADDRMAN_SET_TRIED_COLLISION_SIZE : ℕ := 10

/-! ## Addresses and entries -/

/-- `CService`: an address and a port.  `operator==` compares both; `mapAddr`
keys entries by the address alone. -/
structure CService (CNetAddr : Type) where
  addr : CNetAddr
  port : ℕ
  deriving DecidableEq

/-- `CAddress`: a service with its service flags and the time it was last
seen. -/
structure CAddress (CNetAddr : Type) where
  service : CService CNetAddr
  nServices : ℕ
  nTime : ℕ

/-- `CAddrInfo`: a `CAddress` with the statistics the manager keeps. -/
structure CAddrInfo (CNetAddr : Type) where
  addr : CAddress CNetAddr
  nLastTry : ℤ
  nLastCountAttempt : ℤ
  source : CNetAddr
  nLastSuccess : ℤ
  nAttempts : ℤ
  nRefCount : ℤ
  fInTried : Bool
  nRandomPos : ℤ

/-- What the manager uses of `CNetAddr`: `IsRoutable`, `IsValid`, and the
hashes under `nKey` that `GetTriedBucket`, `GetNewBucket` and
`GetBucketPosition` reduce modulo the table sizes. -/
structure AddrNet (CNetAddr : Type) where
  IsRoutable : CNetAddr → Bool
  IsValid : CNetAddr → Bool
  triedHash : ℕ → CService CNetAddr → ℕ
  newHash : ℕ → CService CNetAddr → CNetAddr → ℕ
  positionHash : ℕ → Bool → ℕ → CService CNetAddr → ℕ

variable {CNetAddr : Type}

/-- `CAddrInfo(addr, source)`: `Init()` clears the statistics. -/
def CAddrInfo.ofAddress (addr : CAddress CNetAddr) (source : CNetAddr) : CAddrInfo CNetAddr :=
  ⟨addr, 0, 0, source, 0, 0, 0, false, -1⟩

/-- `CAddrInfo()`: the default address, port `0`, no services and `nTime`
`100000000`, as `CAddress::Init` sets. -/
def CAddrInfo.default [Inhabited CNetAddr] : CAddrInfo CNetAddr :=
  CAddrInfo.ofAddress ⟨⟨Inhabited.default, 0⟩, 0, 100000000⟩ Inhabited.default

namespace CAddrInfo

variable (net : AddrNet CNetAddr)

def GetTriedBucket (info : CAddrInfo CNetAddr) (nKey : ℕ) : ℕ :=
  net.triedHash nKey info.addr.service % ADDRMAN_TRIED_BUCKET_COUNT

def GetNewBucket (info : CAddrInfo CNetAddr) (nKey : ℕ) (src : CNetAddr) : ℕ :=
  net.newHash nKey info.addr.service src % ADDRMAN_NEW_BUCKET_COUNT

def GetBucketPosition (info : CAddrInfo CNetAddr) (nKey : ℕ) (fNew : Bool) (nBucket : ℕ) : ℕ :=
  net.positionHash nKey fNew nBucket info.addr.service % ADDRMAN_BUCKET_SIZE

theorem GetTriedBucket_lt (info : CAddrInfo CNetAddr) (nKey : ℕ) :
    info.GetTriedBucket net nKey < ADDRMAN_TRIED_BUCKET_COUNT :=
  Nat.mod_lt _ (by decide)

theorem GetBucketPosition_lt (info : CAddrInfo CNetAddr) (nKey : ℕ) (fNew : Bool) (nBucket : ℕ) :
    info.GetBucketPosition net nKey fNew nBucket < ADDRMAN_BUCKET_SIZE :=
  Nat.mod_lt _ (by decide)

/-- `IsTerrible(nNow)`: an entry not worth keeping. -/
def IsTerrible (info : CAddrInfo CNetAddr) (nNow : ℤ) : Bool :=
  -- never remove things tried in the last minute
  if info.nLastTry ≠ 0 ∧ info.nLastTry ≥ nNow - 60 then false
  else if (info.addr.nTime : ℤ) > nNow + 10 * 60 then true
  else if info.addr.nTime = 0 ∨ nNow - info.addr.nTime > ADDRMAN_HORIZON_DAYS * 24 * 60 * 60 then true
  else if info.nLastSuccess = 0 ∧ info.nAttempts ≥ ADDRMAN_RETRIES then true
  else if nNow - info.nLastSuccess > ADDRMAN_MIN_FAIL_DAYS * 24 * 60 * 60 ∧
      info.nAttempts ≥ ADDRMAN_MAX_FAILURES then true
  else false

end CAddrInfo

/-- `CAddrMan`; `nKey` is the key of the bucket hashes. -/
structure CAddrMan (CNetAddr : Type) where
  nIdCount : ℤ
  mapInfo : AList fun _ : ℤ => CAddrInfo CNetAddr
  mapAddr : CNetAddr → Option ℤ
  vRandom : List ℤ
  nTried : ℤ
  vvTried : ℕ → ℕ → ℤ
  nNew : ℤ
  vvNew : ℕ → ℕ → ℤ
  nLastGood : ℤ
  m_tried_collisions : Finset ℤ
  nKey : ℕ

/-- A table with the slot `(b, i)` set to `v`. -/
def setSlot (t : ℕ → ℕ → ℤ) (b i : ℕ) (v : ℤ) : ℕ → ℕ → ℤ := fun b' i' =>
  if b' = b ∧ i' = i then v else t b' i'

namespace CAddrMan

variable [Inhabited CNetAddr] (net : AddrNet CNetAddr)

/-- `CAddrMan()`: the tables `Clear()` leaves, under the key `GetRandHash()`
drew; `m_tried_collisions` starts empty. -/
def init (nKey : ℕ) : CAddrMan CNetAddr where
  nIdCount := 0
  mapInfo := ∅
  mapAddr := fun _ => none
  vRandom := []
  nTried := 0
  vvTried := fun _ _ => -1
  nNew := 0
  vvNew := fun _ _ => -1
  nLastGood := 1
  m_tried_collisions := ∅
  nKey := nKey

/-! ## Primitives -/

/-- `Find(addr)`: the id and the entry, when `mapAddr` has the address and
`mapInfo` the id. -/
def find (st : CAddrMan CNetAddr) (addr : CNetAddr) : Option (ℤ × CAddrInfo CNetAddr) :=
  match st.mapAddr addr with
  | none => none
  | some nId => (st.mapInfo.lookup nId).map fun info => (nId, info)

/-- `mapInfo[nId]` read where the id may be missing: a default entry is
inserted. -/
def mapInfoAt (st : CAddrMan CNetAddr) (nId : ℤ) : CAddrInfo CNetAddr × CAddrMan CNetAddr :=
  match st.mapInfo.lookup nId with
  | some info => (info, st)
  | none => (CAddrInfo.default, { st with mapInfo := st.mapInfo.insert nId CAddrInfo.default })

/-- The entry of an id the caller knows to be there. -/
def info (st : CAddrMan CNetAddr) (nId : ℤ) : CAddrInfo CNetAddr :=
  (st.mapInfo.lookup nId).getD CAddrInfo.default

/-- An update of the entry of an id, through the reference `mapInfo[nId]`. -/
def modifyInfo (st : CAddrMan CNetAddr) (nId : ℤ) (f : CAddrInfo CNetAddr → CAddrInfo CNetAddr) :
    CAddrMan CNetAddr :=
  { st with mapInfo := st.mapInfo.insert nId (f (st.info nId)) }

theorem info_of_lookup {st : CAddrMan CNetAddr} {nId : ℤ} {info : CAddrInfo CNetAddr}
    (h : st.mapInfo.lookup nId = some info) : st.info nId = info := by
  simp [CAddrMan.info, h]

section ModifyInfo

variable (st : CAddrMan CNetAddr) (nId : ℤ) (f : CAddrInfo CNetAddr → CAddrInfo CNetAddr)

end ModifyInfo

variable [DecidableEq CNetAddr]

/-- `Create(addr, addrSource)`: a new entry at the end of `vRandom`, under the
next id. -/
def create (st : CAddrMan CNetAddr) (addr : CAddress CNetAddr) (addrSource : CNetAddr) :
    ℤ × CAddrMan CNetAddr :=
  let nId := st.nIdCount
  let info := { CAddrInfo.ofAddress addr addrSource with nRandomPos := st.vRandom.length }
  (nId, { st with
    nIdCount := nId + 1
    mapInfo := st.mapInfo.insert nId info
    mapAddr := Function.update st.mapAddr addr.service.addr (some nId)
    vRandom := st.vRandom ++ [nId] })

/-- `SwapRandom(nRndPos1, nRndPos2)`.  The positions are unsigned: a negative
one is out of range. -/
def swapRandom (st : CAddrMan CNetAddr) (nRndPos1 nRndPos2 : ℤ) : Except String (CAddrMan CNetAddr) :=
  if nRndPos1 = nRndPos2 then .ok st
  else if ¬(0 ≤ nRndPos1 ∧ nRndPos1 < st.vRandom.length ∧ 0 ≤ nRndPos2 ∧ nRndPos2 < st.vRandom.length) then
    .error "assert(nRndPos1 < vRandom.size() && nRndPos2 < vRandom.size())"
  else
    let nId1 := st.vRandom.getD nRndPos1.toNat 0
    let nId2 := st.vRandom.getD nRndPos2.toNat 0
    if st.mapInfo.lookup nId1 = none then .error "assert(mapInfo.count(nId1) == 1)"
    else if st.mapInfo.lookup nId2 = none then .error "assert(mapInfo.count(nId2) == 1)"
    else
      let st := st.modifyInfo nId1 fun info => { info with nRandomPos := nRndPos2 }
      let st := st.modifyInfo nId2 fun info => { info with nRandomPos := nRndPos1 }
      .ok { st with vRandom := (st.vRandom.set nRndPos1.toNat nId2).set nRndPos2.toNat nId1 }

/-- `Delete(nId)`: a new entry with no slot leaves every index. -/
def delete (st : CAddrMan CNetAddr) (nId : ℤ) : Except String (CAddrMan CNetAddr) := do
  let some info := st.mapInfo.lookup nId | .error "assert(mapInfo.count(nId) != 0)"
  if info.fInTried then .error "assert(!info.fInTried)"
  if info.nRefCount ≠ 0 then .error "assert(info.nRefCount == 0)"
  let st ← st.swapRandom info.nRandomPos (st.vRandom.length - 1)
  .ok { st with
    vRandom := st.vRandom.dropLast
    mapAddr := Function.update st.mapAddr info.addr.service.addr none
    mapInfo := st.mapInfo.erase nId
    nNew := st.nNew - 1 }

/-- `ClearNew(nUBucket, nUBucketPos)`: the slot is emptied, and its entry,
left in no slot, deleted. -/
def clearNew (st : CAddrMan CNetAddr) (nUBucket nUBucketPos : ℕ) : Except String (CAddrMan CNetAddr) := do
  let nIdDelete := st.vvNew nUBucket nUBucketPos
  if nIdDelete = -1 then return st
  let infoDelete := st.info nIdDelete
  if ¬0 < infoDelete.nRefCount then .error "assert(infoDelete.nRefCount > 0)"
  let st := st.modifyInfo nIdDelete fun info => { info with nRefCount := info.nRefCount - 1 }
  let st := { st with vvNew := setSlot st.vvNew nUBucket nUBucketPos (-1) }
  if (st.info nIdDelete).nRefCount = 0 then st.delete nIdDelete else .ok st

/-- One bucket of the first loop of `MakeTried`: the entry leaves its slot
there, if it holds it. -/
def removeFromNewAt (nId : ℤ) (st : CAddrMan CNetAddr) (bucket : ℕ) : CAddrMan CNetAddr :=
  let pos := (st.info nId).GetBucketPosition net st.nKey true bucket
  if st.vvNew bucket pos = nId then
    { st.modifyInfo nId (fun info => { info with nRefCount := info.nRefCount - 1 }) with
      vvNew := setSlot st.vvNew bucket pos (-1) }
  else st

/-- The first loop of `MakeTried`: the entry leaves every new slot it holds. -/
def removeFromNew (st : CAddrMan CNetAddr) (nId : ℤ) : CAddrMan CNetAddr :=
  (List.range ADDRMAN_NEW_BUCKET_COUNT).foldl (removeFromNewAt net nId) st

/-- The eviction in `MakeTried`: the tried entry `nIdEvict` goes back to its
new bucket, after `ClearNew` made room there. -/
def evictToNew (st : CAddrMan CNetAddr) (nKBucket nKBucketPos : ℕ) : Except String (CAddrMan CNetAddr) := do
  let nIdEvict := st.vvTried nKBucket nKBucketPos
  if st.mapInfo.lookup nIdEvict = none then .error "assert(mapInfo.count(nIdEvict) == 1)"
  -- remove the to-be-evicted item from the tried set
  let st := st.modifyInfo nIdEvict fun info => { info with fInTried := false }
  let st := { st with vvTried := setSlot st.vvTried nKBucket nKBucketPos (-1), nTried := st.nTried - 1 }
  let infoOld := st.info nIdEvict
  let nUBucket := infoOld.GetNewBucket net st.nKey infoOld.source
  let nUBucketPos := infoOld.GetBucketPosition net st.nKey true nUBucket
  let st ← st.clearNew nUBucket nUBucketPos
  if st.vvNew nUBucket nUBucketPos ≠ -1 then .error "assert(vvNew[nUBucket][nUBucketPos] == -1)"
  let st := st.modifyInfo nIdEvict fun info => { info with nRefCount := 1 }
  .ok { st with vvNew := setSlot st.vvNew nUBucket nUBucketPos nIdEvict, nNew := st.nNew + 1 }

/-- The end of `MakeTried`: the entry, in no new slot now, takes its tried
slot, evicting the entry there. -/
def placeTried (st : CAddrMan CNetAddr) (nId : ℤ) : Except String (CAddrMan CNetAddr) := do
  let nKBucket := (st.info nId).GetTriedBucket net st.nKey
  let nKBucketPos := (st.info nId).GetBucketPosition net st.nKey false nKBucket
  let st ← if st.vvTried nKBucket nKBucketPos ≠ -1 then st.evictToNew net nKBucket nKBucketPos else .ok st
  if st.vvTried nKBucket nKBucketPos ≠ -1 then .error "assert(vvTried[nKBucket][nKBucketPos] == -1)"
  let st := st.modifyInfo nId fun info => { info with fInTried := true }
  .ok { st with vvTried := setSlot st.vvTried nKBucket nKBucketPos nId, nTried := st.nTried + 1 }

/-- `MakeTried(info, nId)`: the entry leaves the new table for its tried slot. -/
def makeTried (st : CAddrMan CNetAddr) (nId : ℤ) : Except String (CAddrMan CNetAddr) := do
  let st := st.removeFromNew net nId
  let st := { st with nNew := st.nNew - 1 }
  if (st.info nId).nRefCount ≠ 0 then .error "assert(info.nRefCount == 0)"
  st.placeTried net nId

/-! ## Operations -/

/-- `Good_(addr, test_before_evict, nTime)`; `nRnd` is the draw of
`RandomInt(ADDRMAN_NEW_BUCKET_COUNT)`.  A collision with the tried table is
recorded instead of evicting when `test_before_evict` is set. -/
def good (st : CAddrMan CNetAddr) (addr : CService CNetAddr) (test_before_evict : Bool) (nTime : ℤ)
    (nRnd : ℕ) : Except String (CAddrMan CNetAddr) := do
  let st := { st with nLastGood := nTime }
  let some (nId, info) := st.find addr.addr | .ok st
  -- the exact same `CService`, port included
  if info.addr.service ≠ addr then return st
  let st := st.modifyInfo nId fun info =>
    { info with nLastSuccess := nTime, nLastTry := nTime, nAttempts := 0 }
  let info := st.info nId
  if info.fInTried then return st
  -- a bucket it is in now
  let nUBucket := ((List.range ADDRMAN_NEW_BUCKET_COUNT).map
      (fun n => (n + nRnd % ADDRMAN_NEW_BUCKET_COUNT) % ADDRMAN_NEW_BUCKET_COUNT)).find?
    fun nB => st.vvNew nB (info.GetBucketPosition net st.nKey true nB) = nId
  if nUBucket = none then return st
  let tried_bucket := info.GetTriedBucket net st.nKey
  let tried_bucket_pos := info.GetBucketPosition net st.nKey false tried_bucket
  if test_before_evict ∧ st.vvTried tried_bucket tried_bucket_pos ≠ -1 then
    if st.m_tried_collisions.card < ADDRMAN_SET_TRIED_COLLISION_SIZE then
      return { st with m_tried_collisions := insert nId st.m_tried_collisions }
    else return st
  else st.makeTried net nId

/-- The end of `Add_`: the entry `nId` takes the slot of its new bucket for
`source`, unless the slot holds a better entry; a fresh entry left with no
slot is deleted. -/
def addToNew (st : CAddrMan CNetAddr) (nId : ℤ) (source : CNetAddr) (nNow : ℤ) :
    Except String (CAddrMan CNetAddr) := do
  let pinfo := st.info nId
  let nUBucket := pinfo.GetNewBucket net st.nKey source
  let nUBucketPos := pinfo.GetBucketPosition net st.nKey true nUBucket
  if st.vvNew nUBucket nUBucketPos = nId then return st
  let (fInsert, st) :=
    if st.vvNew nUBucket nUBucketPos = -1 then (true, st)
    else
      let (infoExisting, st) := st.mapInfoAt (st.vvNew nUBucket nUBucketPos)
      (infoExisting.IsTerrible nNow ∨ (infoExisting.nRefCount > 1 ∧ pinfo.nRefCount = 0), st)
  if fInsert then
    let st ← st.clearNew nUBucket nUBucketPos
    let st := st.modifyInfo nId fun info => { info with nRefCount := info.nRefCount + 1 }
    return { st with vvNew := setSlot st.vvNew nUBucket nUBucketPos nId }
  else if pinfo.nRefCount = 0 then st.delete nId
  else return st

/-- `Add_(addr, source, nTimePenalty)`: whether the address was new, and the
manager after.  `nNow` is `GetAdjustedTime()` and `nRnd` the draw of
`RandomInt(nFactor)`. -/
def add (st : CAddrMan CNetAddr) (addr : CAddress CNetAddr) (source : CNetAddr) (nTimePenalty : ℤ)
    (nNow : ℤ) (nRnd : ℕ) : Except String (Bool × CAddrMan CNetAddr) := do
  if !net.IsRoutable addr.service.addr then return (false, st)
  -- no penalty for a source's self-announcement
  let nTimePenalty := if addr.service.addr = source then 0 else nTimePenalty
  match st.find addr.service.addr with
  | some (nId, pinfo) =>
    -- periodically update nTime
    let fCurrentlyOnline := nNow - addr.nTime < 24 * 60 * 60
    let nUpdateInterval : ℤ := if fCurrentlyOnline then 60 * 60 else 24 * 60 * 60
    let pinfo :=
      if addr.nTime ≠ 0 ∧ (pinfo.addr.nTime = 0 ∨
          (pinfo.addr.nTime : ℤ) < addr.nTime - nUpdateInterval - nTimePenalty) then
        { pinfo with addr.nTime := (max 0 ((addr.nTime : ℤ) - nTimePenalty) % 2 ^ 32).toNat }
      else pinfo
    -- add services
    let pinfo := { pinfo with addr.nServices := pinfo.addr.nServices ||| addr.nServices }
    let st := st.modifyInfo nId fun _ => pinfo
    -- no new information, a tried entry, or the most references already
    if addr.nTime = 0 ∨ (pinfo.addr.nTime ≠ 0 ∧ addr.nTime ≤ pinfo.addr.nTime) then return (false, st)
    if pinfo.fInTried then return (false, st)
    if pinfo.nRefCount = ADDRMAN_NEW_BUCKETS_PER_ADDRESS then return (false, st)
    -- stochastic test: with n references, 2^n times harder to add one
    let nFactor := 2 ^ pinfo.nRefCount.toNat
    if nFactor > 1 ∧ nRnd % nFactor ≠ 0 then return (false, st)
    let st ← st.addToNew net nId source nNow
    return (false, st)
  | none =>
    let (nId, st) := st.create addr source
    let st := st.modifyInfo nId fun info =>
      { info with addr.nTime := (max 0 ((info.addr.nTime : ℤ) - nTimePenalty) % 2 ^ 32).toNat }
    let st := { st with nNew := st.nNew + 1 }
    let st ← st.addToNew net nId source nNow
    return (true, st)

/-- `Attempt_(addr, fCountFailure, nTime)`. -/
def attempt (st : CAddrMan CNetAddr) (addr : CService CNetAddr) (fCountFailure : Bool) (nTime : ℤ) :
    CAddrMan CNetAddr :=
  match st.find addr.addr with
  | none => st
  | some (nId, info) =>
    if info.addr.service ≠ addr then st
    else
      let info := { info with nLastTry := nTime }
      let info :=
        if fCountFailure ∧ info.nLastCountAttempt < st.nLastGood then
          { info with nLastCountAttempt := nTime, nAttempts := info.nAttempts + 1 }
        else info
      st.modifyInfo nId fun _ => info

/-- The walk of `Select_` in one table, from a random slot: an empty slot
moves by random steps, and the entry found is taken when the chance test
passes.  `draw k` is the `k`-th random draw and `fuel` bounds the walk. -/
def selectFrom (st : CAddrMan CNetAddr) (table : ℕ → ℕ → ℤ) (nBucketCount nBucketCountLog2 : ℕ)
    (accept : ℕ → CAddrInfo CNetAddr → Bool) (draw : ℕ → ℕ) :
    ℕ → ℕ → Except String (Option (CAddrInfo CNetAddr))
  | 0, _ => .ok none
  | fuel + 1, k =>
    let nBucket := draw k % nBucketCount
    let nBucketPos := draw (k + 1) % ADDRMAN_BUCKET_SIZE
    -- the random walk over empty slots, bounded by the same fuel
    let rec walk : ℕ → ℕ → ℕ → ℕ → Option (ℕ × ℕ × ℕ)
      | 0, _, _, _ => none
      | fuel + 1, b, i, k =>
        if table b i = -1 then
          walk fuel ((b + draw k % 2 ^ nBucketCountLog2) % nBucketCount)
            ((i + draw (k + 1) % 2 ^ ADDRMAN_BUCKET_SIZE_LOG2) % ADDRMAN_BUCKET_SIZE) (k + 2)
        else some (b, i, k)
    match walk fuel nBucket nBucketPos (k + 2) with
    | none => .ok none
    | some (b, i, k) =>
      let nId := table b i
      match st.mapInfo.lookup nId with
      | none => .error "assert(mapInfo.count(nId) == 1)"
      | some info =>
        if accept k info then .ok (some info)
        else selectFrom st table nBucketCount nBucketCountLog2 accept draw fuel (k + 1)

/-- `Select_(newOnly)`: an entry of the tried or the new table, or the default
entry; it changes nothing.  `accept k info` is the chance test of the draw
`k`, and `fuel` bounds the loops. -/
def select (st : CAddrMan CNetAddr) (newOnly : Bool) (accept : ℕ → CAddrInfo CNetAddr → Bool)
    (draw : ℕ → ℕ) (fuel : ℕ) : Except String (CAddrInfo CNetAddr) := do
  if st.vRandom.length = 0 then return CAddrInfo.default
  if newOnly ∧ st.nNew = 0 then return CAddrInfo.default
  let found ←
    if !newOnly ∧ (st.nTried > 0 ∧ (st.nNew = 0 ∨ draw 0 % 2 = 0)) then
      st.selectFrom st.vvTried ADDRMAN_TRIED_BUCKET_COUNT ADDRMAN_TRIED_BUCKET_COUNT_LOG2 accept draw fuel 1
    else
      st.selectFrom st.vvNew ADDRMAN_NEW_BUCKET_COUNT ADDRMAN_NEW_BUCKET_COUNT_LOG2 accept draw fuel 1
  return found.getD CAddrInfo.default

/-- The loop of `GetAddr_` from position `n`: each step swaps a random later
entry to `n` and keeps it unless it is terrible. -/
def getAddrFrom (st : CAddrMan CNetAddr) (nNodes : ℕ) (nNow : ℤ) (draw : ℕ → ℕ) :
    ℕ → ℕ → List (CAddress CNetAddr) → Except String (List (CAddress CNetAddr) × CAddrMan CNetAddr)
  | 0, _, vAddr => .ok (vAddr, st)
  | fuel + 1, n, vAddr =>
    if st.vRandom.length ≤ n ∨ nNodes ≤ vAddr.length then .ok (vAddr, st)
    else do
      let nRndPos := draw n % (st.vRandom.length - n) + n
      let st ← st.swapRandom n nRndPos
      match st.mapInfo.lookup (st.vRandom.getD n 0) with
      | none => .error "assert(mapInfo.count(vRandom[n]) == 1)"
      | some ai =>
        let vAddr := if ai.IsTerrible nNow then vAddr else vAddr ++ [ai.addr]
        getAddrFrom st nNodes nNow draw fuel (n + 1) vAddr

/-- `GetAddr_()`: up to `ADDRMAN_GETADDR_MAX_PCT` percent of the entries, at
most `ADDRMAN_GETADDR_MAX`, at random. -/
def getAddr (st : CAddrMan CNetAddr) (nNow : ℤ) (draw : ℕ → ℕ) :
    Except String (List (CAddress CNetAddr) × CAddrMan CNetAddr) :=
  let nNodes := min (ADDRMAN_GETADDR_MAX_PCT * st.vRandom.length / 100) ADDRMAN_GETADDR_MAX
  st.getAddrFrom nNodes nNow draw st.vRandom.length 0 []

/-- `Connected_(addr, nTime)`: `nTime` is updated at most every twenty
minutes. -/
def connected (st : CAddrMan CNetAddr) (addr : CService CNetAddr) (nTime : ℤ) : CAddrMan CNetAddr :=
  match st.find addr.addr with
  | none => st
  | some (nId, info) =>
    if info.addr.service ≠ addr then st
    else if nTime - info.addr.nTime > 20 * 60 then
      st.modifyInfo nId fun info => { info with addr.nTime := (nTime % 2 ^ 32).toNat }
    else st

/-- `SetServices_(addr, nServices)`. -/
def setServices (st : CAddrMan CNetAddr) (addr : CService CNetAddr) (nServices : ℕ) : CAddrMan CNetAddr :=
  match st.find addr.addr with
  | none => st
  | some (nId, info) =>
    if info.addr.service ≠ addr then st
    else st.modifyInfo nId fun info => { info with addr.nServices := nServices }

/-- One collision of `ResolveCollisions_`: whether it is settled, and the
manager after.  A collision is settled when its entry is gone or invalid,
when the tried entry in the way was good recently, or when the new entry
replaces it: after four hours of failed attempts at the tried entry, or at
once where the slot is free now. -/
def resolveCollision (st : CAddrMan CNetAddr) (id_new : ℤ) (nNow : ℤ) (nRnd : ℕ) :
    Except String (Bool × CAddrMan CNetAddr) :=
  match st.mapInfo.lookup id_new with
  | none => .ok (true, st)
  | some info_new =>
    let tried_bucket := info_new.GetTriedBucket net st.nKey
    let tried_bucket_pos := info_new.GetBucketPosition net st.nKey false tried_bucket
    if !net.IsValid info_new.addr.service.addr then .ok (true, st)
    else if st.vvTried tried_bucket tried_bucket_pos ≠ -1 then
      let (info_old, st) := st.mapInfoAt (st.vvTried tried_bucket tried_bucket_pos)
      if nNow - info_old.nLastSuccess < ADDRMAN_REPLACEMENT_HOURS * (60 * 60) then .ok (true, st)
      else if nNow - info_old.nLastTry < ADDRMAN_REPLACEMENT_HOURS * (60 * 60) then
        -- give the tried entry at least a minute to answer
        if nNow - info_old.nLastTry > 60 then do
          let st ← st.good net info_new.addr.service false nNow nRnd
          .ok (true, st)
        else .ok (false, st)
      else .ok (false, st)
    else do
      let st ← st.good net info_new.addr.service false nNow nRnd
      .ok (true, st)

/-- `ResolveCollisions_()`, over the collisions in increasing order; `draw k`
is the draw of the `k`-th `Good_`. -/
def resolveCollisions (st : CAddrMan CNetAddr) (nNow : ℤ) (draw : ℕ → ℕ) :
    Except String (CAddrMan CNetAddr) :=
  ((st.m_tried_collisions.sort (· ≤ ·)).zipIdx).foldlM (fun st p => do
    let (erase_collision, st) ← st.resolveCollision net p.1 nNow (draw p.2)
    if erase_collision then
      return { st with m_tried_collisions := st.m_tried_collisions.erase p.1 }
    else return st) st

/-- `SelectTriedCollision_()`: the tried entry a random collision would evict,
or the default entry.  The slot is read whether or not it holds an entry. -/
def selectTriedCollision (st : CAddrMan CNetAddr) (nRnd : ℕ) : CAddrInfo CNetAddr × CAddrMan CNetAddr :=
  if st.m_tried_collisions.card = 0 then (CAddrInfo.default, st)
  else
    let id_new := (st.m_tried_collisions.sort (· ≤ ·)).getD (nRnd % st.m_tried_collisions.card) 0
    match st.mapInfo.lookup id_new with
    | none => (CAddrInfo.default, { st with m_tried_collisions := st.m_tried_collisions.erase id_new })
    | some newInfo =>
      let tried_bucket := newInfo.GetTriedBucket net st.nKey
      let tried_bucket_pos := newInfo.GetBucketPosition net st.nKey false tried_bucket
      st.mapInfoAt (st.vvTried tried_bucket tried_bucket_pos)

/-! ## The consistency check -/

/-- The checks `Check_` makes of one entry, in its order, adding it to the
tried set or the new counts. -/
def checkEntry (st : CAddrMan CNetAddr) (acc : Finset ℤ × AList fun _ : ℤ => ℤ)
    (entry : Σ _ : ℤ, CAddrInfo CNetAddr) : Except ℤ (Finset ℤ × AList fun _ : ℤ => ℤ) := do
  let n := entry.1
  let info := entry.2
  let (setTried, mapNew) := acc
  let acc ←
    if info.fInTried then do
      if info.nLastSuccess = 0 then throw (-1)
      if info.nRefCount ≠ 0 then throw (-2)
      pure (insert n setTried, mapNew)
    else do
      if info.nRefCount < 0 ∨ info.nRefCount > ADDRMAN_NEW_BUCKETS_PER_ADDRESS then throw (-3)
      if info.nRefCount = 0 then throw (-4)
      pure (setTried, mapNew.insert n info.nRefCount)
  -- `mapAddr[info]` reads 0 for an address it lacks
  if (st.mapAddr info.addr.service.addr).getD 0 ≠ n then throw (-5)
  if info.nRandomPos < 0 ∨ st.vRandom.length ≤ info.nRandomPos ∨
      st.vRandom.getD info.nRandomPos.toNat 0 ≠ n then throw (-14)
  if info.nLastTry < 0 then throw (-6)
  if info.nLastSuccess < 0 then throw (-8)
  pure acc

/-- The checks of one tried slot: its entry is tried and in its bucket and
position, and is met once. -/
def checkTriedSlot (st : CAddrMan CNetAddr) (setTried : Finset ℤ) (slot : ℕ × ℕ) :
    Except ℤ (Finset ℤ) := do
  let id := st.vvTried slot.1 slot.2
  if id = -1 then return setTried
  if id ∉ setTried then throw (-11)
  if (st.info id).GetTriedBucket net st.nKey ≠ slot.1 then throw (-17)
  if (st.info id).GetBucketPosition net st.nKey false slot.1 ≠ slot.2 then throw (-18)
  return setTried.erase id

/-- The checks of one new slot: its entry is new and in its position, and is
met as often as its reference count says. -/
def checkNewSlot (st : CAddrMan CNetAddr) (mapNew : AList fun _ : ℤ => ℤ) (slot : ℕ × ℕ) :
    Except ℤ (AList fun _ : ℤ => ℤ) := do
  let id := st.vvNew slot.1 slot.2
  if id = -1 then return mapNew
  let some count := mapNew.lookup id | throw (-12)
  if (st.info id).GetBucketPosition net st.nKey true slot.1 ≠ slot.2 then throw (-19)
  if count - 1 = 0 then return mapNew.erase id
  return mapNew.insert id (count - 1)

/-- The slots of a table with `nBucketCount` buckets, in the order `Check_`
visits them. -/
def slots (nBucketCount : ℕ) : List (ℕ × ℕ) :=
  (List.range nBucketCount).flatMap fun n => (List.range ADDRMAN_BUCKET_SIZE).map fun i => (n, i)

/-- `Check_()` as a computation that stops at the first failed check. -/
def check (st : CAddrMan CNetAddr) : Except ℤ Unit := do
  if st.vRandom.length ≠ st.nTried + st.nNew then throw (-7)
  let (setTried, mapNew) ← (st.mapInfo.entries.insertionSort (fun a b => a.1 ≤ b.1)).foldlM
    st.checkEntry (∅, ∅)
  if setTried.card ≠ st.nTried then throw (-9)
  if mapNew.entries.length ≠ st.nNew then throw (-10)
  let setTried ← (slots ADDRMAN_TRIED_BUCKET_COUNT).foldlM (st.checkTriedSlot net) setTried
  let mapNew ← (slots ADDRMAN_NEW_BUCKET_COUNT).foldlM (st.checkNewSlot net) mapNew
  if setTried.card ≠ 0 then throw (-13)
  if mapNew.entries.length ≠ 0 then throw (-15)
  if st.nKey = 0 then throw (-16)

/-- `Check_()`: `0`, or the code of the first failed check. -/
def Check_ (st : CAddrMan CNetAddr) : ℤ :=
  match st.check net with
  | .ok () => 0
  | .error err => err

end CAddrMan

/-! ## Runs -/

/-- The public operations of `CAddrMan`. -/
inductive AddrManOp (CNetAddr : Type)
  | add (addr : CAddress CNetAddr) (source : CNetAddr) (nTimePenalty : ℤ)
  | good (addr : CService CNetAddr) (test_before_evict : Bool) (nTime : ℤ)
  | attempt (addr : CService CNetAddr) (fCountFailure : Bool) (nTime : ℤ)
  | select (newOnly : Bool)
  | getAddr
  | connected (addr : CService CNetAddr) (nTime : ℤ)
  | setServices (addr : CService CNetAddr) (nServices : ℕ)
  | resolveCollisions
  | selectTriedCollision

/-- What a call sees of the world: `GetAdjustedTime()`, the random draws, the
chance tests of `Select_` and the bound on its loops. -/
structure CallEnv (CNetAddr : Type) where
  nNow : ℤ
  draw : ℕ → ℕ
  accept : ℕ → CAddrInfo CNetAddr → Bool
  fuel : ℕ

namespace CAddrMan

variable [DecidableEq CNetAddr] [Inhabited CNetAddr] (net : AddrNet CNetAddr)

/-- The manager after one call of a public operation. -/
def step (st : CAddrMan CNetAddr) (env : CallEnv CNetAddr) :
    AddrManOp CNetAddr → Except String (CAddrMan CNetAddr)
  | .add addr source nTimePenalty => do
    let (_, st) ← st.add net addr source nTimePenalty env.nNow (env.draw 0)
    return st
  | .good addr test_before_evict nTime => st.good net addr test_before_evict nTime (env.draw 0)
  | .attempt addr fCountFailure nTime => .ok (st.attempt addr fCountFailure nTime)
  | .select newOnly => do
    let _ ← st.select newOnly env.accept env.draw env.fuel
    return st
  | .getAddr => do
    let (_, st) ← st.getAddr env.nNow env.draw
    return st
  | .connected addr nTime => .ok (st.connected addr nTime)
  | .setServices addr nServices => .ok (st.setServices addr nServices)
  | .resolveCollisions => st.resolveCollisions net env.nNow env.draw
  | .selectTriedCollision => .ok (st.selectTriedCollision net (env.draw 0)).2

/-- The manager after a sequence of calls, or the first failed assertion. -/
def run (st : CAddrMan CNetAddr) : List (CallEnv CNetAddr × AddrManOp CNetAddr) →
    Except String (CAddrMan CNetAddr)
  | [] => .ok st
  | (env, op) :: calls => do
    let st ← st.step net env op
    run st calls

end CAddrMan

end XPChain
