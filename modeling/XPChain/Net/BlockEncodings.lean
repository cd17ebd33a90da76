import XPChain.Validation.CheckBlock

/-!
# Compact blocks

`blockencodings.cpp` relays a block as its header, a nonce, a 48-bit short id
for each transaction and a few transactions in full (BIP 152).  The
receiver's `PartiallyDownloadedBlock::InitData` lays out one slot per
transaction of the block: the prefilled transactions go to the slots their
differentially encoded indexes name, and the `i`-th short id to the `i`-th
slot left over, which a running `uint16_t` offset finds.  It then scans the
mempool and the extra pool for transactions whose short id it knows, fills
their slots, and empties a slot two of them claim.  `FillBlock` completes
the block from the transactions the peer sends for the empty slots and runs
`CheckBlock` on it.

The hash functions (`CSHA256`, `SipHashUint256` and a transaction's two
hashes) are parameters, bundled in `ShortIdHashes`, and so is the bucket
`std::unordered_map` puts a key in.  Every read and write of a vector is
checked: one past the end is the outcome `outOfRange`, and a loop that
never ends is `diverges`.

## Main definitions

* `CBlockHeaderAndShortTxIDs`, `GetShortID`, `CBlockHeaderAndShortTxIDs.ofBlock`.
* `placePrefilled`, `skipFilled`, `mapShortIds`, `scanPool` — the loops of
  `InitData`; `InitData`.
* `fillTxs`, `FillBlock`, and from `net_processing.cpp` the request of the
  missing indexes and `SendBlockTransactions`.

## Main statements

* `skipFilled_spec` — the offset loop finds the next free slot, or, with
  every slot below `65536` prefilled, never ends.
* `InitData_cases`, `InitData_ne_outOfRange` — `InitData` ends with a status,
  a partially downloaded block, or not at all; it never reads or writes past
  the end of its vectors.
* `InitData_diverges_iff` — it never ends exactly on the messages with
  `65536` prefilled transactions and a short id that pass its checks.
* `InitData_FillBlock_exact` — a block relayed as its compact message, with
  pools that agree with it, is rebuilt exactly; `InitData_null_header` — a
  block whose header is null is refused.
-/

set_option autoImplicit false

namespace XPChain

/-- `MIN_SERIALIZABLE_TRANSACTION_WEIGHT`: ten bytes at witness scale, the
least weight of a serialized transaction. -/
def MIN_SERIALIZABLE_TRANSACTION_WEIGHT : ℕ := WITNESS_SCALE_FACTOR * 10

/-- `CTransaction::IsNull`: no inputs and no outputs. -/
def CTransaction.IsNull (tx : CTransaction) : Bool := tx.vin.isEmpty && tx.vout.isEmpty

/-- `CBlockHeader::IsNull`: a zero `nBits`. -/
def CBlockHeader.IsNull (header : CBlockHeader) : Bool := header.nBits == 0

/-- `ReadStatus`. -/
inductive ReadStatus
  | READ_STATUS_OK
  | READ_STATUS_INVALID
  | READ_STATUS_FAILED
  | READ_STATUS_CHECKBLOCK_FAILED
  deriving DecidableEq, Repr

/-- `PrefilledTransaction`: in a message, `index` is the offset from the slot
after the previous prefilled transaction. -/
structure PrefilledTransaction where
  index : UInt16
  tx : CTransaction
  deriving DecidableEq, Repr

/-- `CBlockHeaderAndShortTxIDs`.  The SipHash keys `shorttxidk0` and
`shorttxidk1` are a function of the header and the nonce
(`FillShortTxIDSelector`), so they are not kept. -/
structure CBlockHeaderAndShortTxIDs where
  header : CBlockHeader
  nonce : UInt64
  shorttxids : List UInt64
  prefilledtxn : List PrefilledTransaction
  deriving DecidableEq, Repr

/-- The hash functions of compact blocks: one `CSHA256` over a byte string,
`SipHashUint256` under two keys, and a transaction's `GetHash` and
`GetWitnessHash`. -/
structure ShortIdHashes where
  SHA256 : List UInt8 → uint256
  SipHashUint256 : UInt64 → UInt64 → uint256 → UInt64
  GetHash : CTransaction → uint256
  GetWitnessHash : CTransaction → uint256

namespace CBlockHeaderAndShortTxIDs

/-- `FillShortTxIDSelector`: the SHA256 of the serialized header and nonce,
whose first two little-endian 64-bit words are the SipHash keys. -/
def FillShortTxIDSelector (hashes : ShortIdHashes) (cmpctblock : CBlockHeaderAndShortTxIDs) :
    UInt64 × UInt64 :=
  let shorttxidhash := hashes.SHA256 (cmpctblock.header.serialize ++ serializeUInt64 cmpctblock.nonce.toNat)
  (UInt64.ofNat shorttxidhash, UInt64.ofNat (shorttxidhash / 2 ^ 64))

/-- `GetShortID`: the keyed SipHash of a transaction hash, cut to 48 bits. -/
def GetShortID (hashes : ShortIdHashes) (cmpctblock : CBlockHeaderAndShortTxIDs)
    (txhash : uint256) : UInt64 :=
  let (k0, k1) := cmpctblock.FillShortTxIDSelector hashes
  hashes.SipHashUint256 k0 k1 txhash &&& 0xffffffffffff

/-- `BlockTxCount`. -/
def BlockTxCount (cmpctblock : CBlockHeaderAndShortTxIDs) : ℕ :=
  cmpctblock.shorttxids.length + cmpctblock.prefilledtxn.length

/-- The constructor from a block and the nonce it draws: the coinbase in
full, a short id for each other transaction, of its witness hash or its hash
as `fUseWTXID` says.  A block without transactions is `none`: there
`shorttxids(block.vtx.size() - 1)` asks for `SIZE_MAX` elements. -/
def ofBlock (hashes : ShortIdHashes) (block : CBlock) (fUseWTXID : Bool) (nonce : UInt64) :
    Option CBlockHeaderAndShortTxIDs :=
  match block.vtx with
  | [] => none
  | coinbase :: vtx =>
    let cmpctblock : CBlockHeaderAndShortTxIDs :=
      ⟨block.toCBlockHeader, nonce, [], [⟨0, coinbase⟩]⟩
    some { cmpctblock with
      shorttxids := vtx.map fun tx =>
        cmpctblock.GetShortID hashes (if fUseWTXID then hashes.GetWitnessHash tx else hashes.GetHash tx) }

end CBlockHeaderAndShortTxIDs

/-- `PartiallyDownloadedBlock` after `InitData`: a slot for each transaction
of the block, empty where it is still missing.  The counts
`prefilled_count` and `extra_count` only reach a log line and are left out. -/
structure PartiallyDownloadedBlock where
  txn_available : List (Option CTransaction)
  mempool_count : ℕ
  header : CBlockHeader
  deriving DecidableEq, Repr

/-- How `InitData` ends other than with `READ_STATUS_OK`: it returns another
status, reads or writes one of its vectors past the end, or loops forever. -/
inductive InitDataExit
  | status (s : ReadStatus)
  | outOfRange
  | diverges
  deriving DecidableEq, Repr

/-! ## Checked vector access -/

section Access

variable {β : Type}

/-- `v[i]`, past the end the fault `outOfRange`. -/
def readAt (v : List β) (i : ℕ) : Except InitDataExit β :=
  match v[i]? with
  | some x => pure x
  | none => throw .outOfRange

/-- `v[i] = x`, past the end the fault `outOfRange`. -/
def writeAt (v : List β) (i : ℕ) (x : β) : Except InitDataExit (List β) :=
  if i < v.length then pure (v.set i x) else throw .outOfRange

theorem readAt_of_lt {v : List β} {i : ℕ} (h : i < v.length) : readAt v i = .ok v[i] := by
  simp [readAt, List.getElem?_eq_getElem h, pure, Except.pure]

theorem writeAt_of_lt {v : List β} {i : ℕ} (h : i < v.length) (x : β) :
    writeAt v i x = .ok (v.set i x) := by
  simp [writeAt, h, pure, Except.pure]

end Access

/-! ## `InitData` -/

/-- The prefilled loop of `InitData`.  `lastprefilledindex`, an `int32_t`
from `-1`, moves on by each `index + 1`; past `65535`, or past the slots
the short ids and the `i` transactions placed so far account for, the
message is invalid, as is a null transaction. -/
def placePrefilled (nShort : ℕ) :
    ℕ → ℤ → List PrefilledTransaction → List (Option CTransaction) →
      Except InitDataExit (List (Option CTransaction))
  | _, _, [], txn_available => pure txn_available
  | i, lastprefilledindex, p :: prefilledtxn, txn_available => do
    if p.tx.IsNull then throw (.status .READ_STATUS_INVALID)
    let lastprefilledindex := lastprefilledindex + p.index.toNat + 1
    if 65535 < lastprefilledindex then throw (.status .READ_STATUS_INVALID)
    if (nShort + i : ℤ) < lastprefilledindex then throw (.status .READ_STATUS_INVALID)
    let txn_available ← writeAt txn_available lastprefilledindex.toNat (some p.tx)
    placePrefilled nShort (i + 1) lastprefilledindex prefilledtxn txn_available

/-- `while (txn_available[i + index_offset]) index_offset++;` with the
`uint16_t` offset wrapping.  The offset is all the loop changes, so after
`65536` reads of filled slots it is back where it began and the loop never
ends: `fuel` counts the reads left before that. -/
def skipFilled (txn_available : List (Option CTransaction)) (i : ℕ) :
    ℕ → UInt16 → Except InitDataExit UInt16
  | 0, _ => throw .diverges
  | fuel + 1, index_offset => do
    match ← readAt txn_available (i + index_offset.toNat) with
    | some _ => skipFilled txn_available i fuel (index_offset + 1)
    | none => pure index_offset

/-- `shorttxids[k] = v` on the `unordered_map<uint64_t, uint16_t>`, kept as
its entries: the value of a key present is replaced, a new key added. -/
def mapAssign (shorttxids : List (UInt64 × UInt16)) (k : UInt64) (v : UInt16) :
    List (UInt64 × UInt16) :=
  if shorttxids.any (·.1 == k) then shorttxids.map fun e => if e.1 == k then (k, v) else e
  else shorttxids ++ [(k, v)]

/-- `shorttxids.bucket_size(shorttxids.bucket(k))`, for the map's `bucket`. -/
def bucketSize (bucket : UInt64 → ℕ) (shorttxids : List (UInt64 × UInt16)) (k : UInt64) : ℕ :=
  (shorttxids.filter fun e => bucket e.1 == bucket k).length

/-- The short-id loop of `InitData`: the `i`-th short id is mapped to the
slot `skipFilled` finds from the running `index_offset`, stored as a
`uint16_t`; a bucket of more than twelve keys fails the message. -/
def mapShortIds (bucket : UInt64 → ℕ) (txn_available : List (Option CTransaction)) :
    ℕ → UInt16 → List UInt64 → List (UInt64 × UInt16) →
      Except InitDataExit (List (UInt64 × UInt16))
  | _, _, [], shorttxids => pure shorttxids
  | i, index_offset, k :: ks, shorttxids => do
    let index_offset ← skipFilled txn_available i 65536 index_offset
    let shorttxids := mapAssign shorttxids k (UInt16.ofNat (i + index_offset.toNat))
    if 12 < bucketSize bucket shorttxids k then throw (.status .READ_STATUS_FAILED)
    mapShortIds bucket txn_available (i + 1) index_offset ks shorttxids

/-- What the two pool scans of `InitData` update. -/
structure ScanState where
  txn_available : List (Option CTransaction)
  have_txn : List Bool
  mempool_count : ℕ
  deriving DecidableEq, Repr

/-- A pool transaction whose short id maps to slot `idx`: the first match
fills the slot; a later one empties it where `resetIf` holds of the slot's
transaction and the new one. -/
def matchSlot (resetIf : CTransaction → CTransaction → Bool) (tx : CTransaction) (idx : ℕ)
    (st : ScanState) : Except InitDataExit ScanState := do
  let haveTx ← readAt st.have_txn idx
  if !haveTx then
    let txn_available ← writeAt st.txn_available idx (some tx)
    let have_txn ← writeAt st.have_txn idx true
    pure ⟨txn_available, have_txn, st.mempool_count + 1⟩
  else
    match ← readAt st.txn_available idx with
    | some old =>
      if resetIf old tx then
        let txn_available ← writeAt st.txn_available idx none
        pure { st with txn_available, mempool_count := st.mempool_count - 1 }
      else pure st
    | none => pure st

/-- A pool scan of `InitData` over (hash, transaction) pairs, which stops
once every short id has its transaction. -/
def scanPool (GetShortID : uint256 → UInt64) (shorttxids : List (UInt64 × UInt16))
    (resetIf : CTransaction → CTransaction → Bool) :
    List (uint256 × CTransaction) → ScanState → Except InitDataExit ScanState
  | [], st => pure st
  | (hash, tx) :: pool, st => do
    let st ← match shorttxids.lookup (GetShortID hash) with
      | some idx => matchSlot resetIf tx idx.toNat st
      | none => pure st
    if st.mempool_count = shorttxids.length then pure st
    else scanPool GetShortID shorttxids resetIf pool st

/-- `PartiallyDownloadedBlock::InitData`, on a fresh object, over the
mempool's `vTxHashes` (witness hash and transaction) and `extra_txn`.  The
mempool scan empties a slot on any second match, the extra scan only for a
transaction of another witness hash.  `bucket n` is the bucket function of
a map asked for `n` buckets. -/
def InitData (hashes : ShortIdHashes) (bucket : ℕ → UInt64 → ℕ)
    (vTxHashes : List (uint256 × CTransaction)) (cmpctblock : CBlockHeaderAndShortTxIDs)
    (extra_txn : List (uint256 × CTransaction)) :
    Except InitDataExit PartiallyDownloadedBlock := do
  if cmpctblock.header.IsNull || (cmpctblock.shorttxids.isEmpty && cmpctblock.prefilledtxn.isEmpty) then
    throw (.status .READ_STATUS_INVALID)
  if MAX_BLOCK_WEIGHT / MIN_SERIALIZABLE_TRANSACTION_WEIGHT < cmpctblock.BlockTxCount then
    throw (.status .READ_STATUS_INVALID)
  let txn_available ← placePrefilled cmpctblock.shorttxids.length 0 (-1) cmpctblock.prefilledtxn
    (List.replicate cmpctblock.BlockTxCount none)
  let shorttxids ← mapShortIds (bucket cmpctblock.shorttxids.length) txn_available 0 0
    cmpctblock.shorttxids []
  if shorttxids.length ≠ cmpctblock.shorttxids.length then throw (.status .READ_STATUS_FAILED)
  let GetShortID := cmpctblock.GetShortID hashes
  let st ← scanPool GetShortID shorttxids (fun _ _ => true) vTxHashes
    ⟨txn_available, List.replicate txn_available.length false, 0⟩
  let st ← scanPool GetShortID shorttxids
    (fun old tx => hashes.GetWitnessHash old != hashes.GetWitnessHash tx) extra_txn st
  pure ⟨st.txn_available, st.mempool_count, cmpctblock.header⟩

/-! ## Slots

A slot is filled when it holds a transaction.  `emptyBefore txn_available p`
counts the empty slots below `p`: the `i`-th short id belongs to the empty
slot with `i` empty slots below it. -/

section Slots

variable {txn_available : List (Option CTransaction)}

/-- The empty slots below `p`. -/
def emptyBefore (txn_available : List (Option CTransaction)) (p : ℕ) : ℕ :=
  (txn_available.take p).countP Option.isNone

theorem emptyBefore_succ (p : ℕ) :
    emptyBefore txn_available (p + 1) =
      emptyBefore txn_available p + if txn_available[p]? = some none then 1 else 0 := by
  unfold emptyBefore
  rw [List.take_add_one, List.countP_append]
  rcases h : txn_available[p]? with _ | _ | tx <;> simp

theorem emptyBefore_add_of_filled {p m : ℕ}
    (h : ∀ k < m, ∃ tx, txn_available[p + k]? = some (some tx)) :
    emptyBefore txn_available (p + m) = emptyBefore txn_available p := by
  induction m with
  | zero => rfl
  | succ m ih =>
    obtain ⟨tx, htx⟩ := h m (by omega)
    rw [← Nat.add_assoc, emptyBefore_succ, htx, ih fun k hk => h k (by omega)]
    simp

/-- With no empty slot below `p`, every slot below `p` is filled. -/
theorem filled_of_emptyBefore_eq_zero {p : ℕ} (hp : p ≤ txn_available.length)
    (h : emptyBefore txn_available p = 0) :
    ∀ j < p, ∃ tx, txn_available[j]? = some (some tx) := by
  intro j hj
  have hnone := List.countP_eq_zero.mp h
  have hmem : txn_available[j] ∈ txn_available.take p :=
    List.mem_iff_getElem.mpr ⟨j, by simp; omega, by simp⟩
  obtain ⟨tx, htx⟩ := Option.ne_none_iff_exists'.mp (by simpa using hnone _ hmem)
  exact ⟨tx, by simp [List.getElem?_eq_getElem (by omega : j < txn_available.length), htx]⟩

/-- Past the `i`-th empty slot, with fewer than all empty slots below `p`,
there is a first empty slot at or after `p`. -/
theorem exists_first_empty {p : ℕ}
    (h : emptyBefore txn_available p < txn_available.countP Option.isNone) :
    ∃ m, (∀ k < m, ∃ tx, txn_available[p + k]? = some (some tx)) ∧
      txn_available[p + m]? = some none := by
  have hdrop : 0 < (txn_available.drop p).countP Option.isNone := by
    have := congrArg (List.countP Option.isNone) (List.take_append_drop p txn_available)
    rw [List.countP_append] at this
    unfold emptyBefore at h
    omega
  -- the first empty slot of the suffix from `p`
  suffices ∀ l : List (Option CTransaction), 0 < l.countP Option.isNone →
      ∃ m, (∀ k < m, ∃ tx, l[k]? = some (some tx)) ∧ l[m]? = some none by
    obtain ⟨m, hfilled, hempty⟩ := this _ hdrop
    exact ⟨m, fun k hk => by rw [← List.getElem?_drop]; exact hfilled k hk,
      by rw [← List.getElem?_drop]; exact hempty⟩
  intro l hl
  induction l with
  | nil => simp at hl
  | cons slot l ih =>
    cases slot with
    | none => exact ⟨0, by simp, rfl⟩
    | some tx =>
      obtain ⟨m, hfilled, hempty⟩ := ih (by simpa using hl)
      refine ⟨m + 1, fun k hk => ?_, by simpa using hempty⟩
      cases k with
      | zero => exact ⟨tx, rfl⟩
      | succ k => simpa using hfilled k (by omega)

/-- With every filled slot below `b`, the filled slots are those of the
first `b`. -/
theorem countP_isSome_eq_take {b : ℕ}
    (h : ∀ j tx, txn_available[j]? = some (some tx) → j < b) :
    txn_available.countP Option.isSome = (txn_available.take b).countP Option.isSome := by
  have hdrop : (txn_available.drop b).countP Option.isSome = 0 := by
    rw [List.countP_eq_zero]
    intro slot hslot hsome
    obtain ⟨k, hk, hget⟩ := List.mem_iff_getElem.mp hslot
    obtain ⟨tx, rfl⟩ := Option.isSome_iff_exists.mp hsome
    have := h (b + k) tx (by rw [← List.getElem?_drop, List.getElem?_eq_getElem hk, hget])
    omega
  rw [← List.take_append_drop b txn_available, List.countP_append, hdrop, Nat.add_zero,
    List.take_append_drop]

/-- Filled slots all below `b` number at most `b`. -/
theorem countP_isSome_le {b : ℕ} (h : ∀ j tx, txn_available[j]? = some (some tx) → j < b) :
    txn_available.countP Option.isSome ≤ b := by
  rw [countP_isSome_eq_take h]
  exact List.countP_le_length.trans (List.length_take_le _ _)

/-- `b` filled slots, all below `b`, are the slots below `b`. -/
theorem filled_of_countP_isSome_eq {b : ℕ}
    (h : ∀ j tx, txn_available[j]? = some (some tx) → j < b)
    (hcount : txn_available.countP Option.isSome = b) :
    ∀ j < b, ∃ tx, txn_available[j]? = some (some tx) := by
  rw [countP_isSome_eq_take h] at hcount
  have hlen : (txn_available.take b).length = b := by
    have := @List.countP_le_length _ Option.isSome (txn_available.take b)
    have := List.length_take_le b txn_available
    omega
  have hall := List.countP_eq_length.mp (hcount.trans hlen.symm)
  intro j hj
  have hj' : j < (txn_available.take b).length := by omega
  obtain ⟨tx, htx⟩ := Option.isSome_iff_exists.mp (hall _ (List.getElem_mem hj'))
  refine ⟨tx, ?_⟩
  rw [← List.getElem?_take_of_lt hj, List.getElem?_eq_getElem hj', htx]

/-- Every slot below `b` filled: at least `b` filled slots. -/
theorem le_countP_isSome {b : ℕ} (h : ∀ j < b, ∃ tx, txn_available[j]? = some (some tx)) :
    b ≤ txn_available.countP Option.isSome := by
  have htake : ∀ slot ∈ txn_available.take b, slot.isSome = true := by
    intro slot hslot
    obtain ⟨j, hj, rfl⟩ := List.mem_iff_getElem.mp hslot
    obtain ⟨tx, htx⟩ := h j (by simp at hj; omega)
    rw [List.getElem_take]
    simp [(List.getElem?_eq_some_iff.mp htx).2]
  have hlen : (txn_available.take b).length = b := by
    rcases b with _ | b
    · simp
    · obtain ⟨tx, htx⟩ := h b (by omega)
      have := (List.getElem?_eq_some_iff.mp htx).1
      simp; omega
  calc b = (txn_available.take b).countP Option.isSome := by rw [List.countP_eq_length.mpr htake, hlen]
    _ ≤ txn_available.countP Option.isSome := (List.take_sublist _ _).countP_le

end Slots

/-! ## The offset loop -/

section SkipFilled

variable {txn_available : List (Option CTransaction)} {i : ℕ}

/-- Over a run of `m` filled slots to an empty one, without wrapping, the
loop stops `m` past where it started. -/
theorem skipFilled_run {m fuel : ℕ} {index_offset : UInt16}
    (hfilled : ∀ k < m, ∃ tx, txn_available[i + index_offset.toNat + k]? = some (some tx))
    (hempty : txn_available[i + index_offset.toNat + m]? = some none)
    (hwrap : index_offset.toNat + m < 65536) (hfuel : m < fuel) :
    skipFilled txn_available i fuel index_offset = .ok (UInt16.ofNat (index_offset.toNat + m)) := by
  induction m generalizing index_offset fuel with
  | zero =>
    obtain ⟨fuel, rfl⟩ : ∃ f, fuel = f + 1 := ⟨fuel - 1, by omega⟩
    simp only [Nat.add_zero] at hempty
    simp [skipFilled, readAt, hempty, pure, Except.pure]
  | succ m ih =>
    obtain ⟨fuel, rfl⟩ : ∃ f, fuel = f + 1 := ⟨fuel - 1, by omega⟩
    obtain ⟨tx, htx⟩ := hfilled 0 (by omega)
    have hsucc : (index_offset + 1).toNat = index_offset.toNat + 1 := by
      rw [UInt16.toNat_add]; simp; omega
    have hrest := @ih fuel (index_offset + 1)
      (fun k hk => by rw [hsucc, Nat.add_assoc i, Nat.add_assoc]; simpa [Nat.add_comm 1 k, ← Nat.add_assoc] using hfilled (k + 1) (by omega))
      (by rw [hsucc]; simpa [Nat.add_assoc, Nat.add_comm 1 m] using hempty) (by omega) (by omega)
    simp only [Nat.add_zero] at htx
    simp only [skipFilled, readAt, htx, pure, Except.pure, bind, Except.bind]
    rw [hrest, hsucc]
    congr 2
    omega

/-- With every slot the offset can reach filled, the loop never ends. -/
theorem skipFilled_diverges (hfilled : ∀ o : UInt16, ∃ tx, txn_available[i + o.toNat]? = some (some tx))
    (fuel : ℕ) (index_offset : UInt16) :
    skipFilled txn_available i fuel index_offset = .error .diverges := by
  induction fuel generalizing index_offset with
  | zero => rfl
  | succ fuel ih =>
    obtain ⟨tx, htx⟩ := hfilled index_offset
    simp [skipFilled, readAt, htx, pure, Except.pure, bind, Except.bind, ih]

/-- The offset loop of `InitData`.  With the prefilled slots below `65536`,
and `i` empty slots below where it starts, short of all of them, it stops
at the next empty slot; or it starts at the bottom, every slot below `65536`
is filled, and it never ends. -/
theorem skipFilled_spec {index_offset : UInt16}
    (hprefilled : ∀ j tx, txn_available[j]? = some (some tx) → j < 65536)
    (hbefore : emptyBefore txn_available (i + index_offset.toNat) = i)
    (hi : i < txn_available.countP Option.isNone) :
    (∃ index_offset', skipFilled txn_available i 65536 index_offset = .ok index_offset' ∧
      txn_available[i + index_offset'.toNat]? = some none ∧
      emptyBefore txn_available (i + index_offset'.toNat) = i) ∨
    (skipFilled txn_available i 65536 index_offset = .error .diverges ∧ i = 0 ∧
      ∀ j < 65536, ∃ tx, txn_available[j]? = some (some tx)) := by
  have hoff : index_offset.toNat < 65536 := index_offset.toNat_lt
  obtain ⟨m, hfilled, hempty⟩ := @exists_first_empty txn_available (i + index_offset.toNat) (by omega)
  by_cases hwrap : index_offset.toNat + m < 65536
  · left
    have hofNat : (UInt16.ofNat (index_offset.toNat + m)).toNat = index_offset.toNat + m := by
      simp only [UInt16.toNat_ofNat']; omega
    refine ⟨_, skipFilled_run hfilled hempty hwrap (by omega), ?_, ?_⟩
    · rw [hofNat, ← Nat.add_assoc]; exact hempty
    · rw [hofNat, ← Nat.add_assoc, emptyBefore_add_of_filled hfilled, hbefore]
  · right
    -- the run of filled slots reaches `i + 65535`, and prefilled slots lie below `65536`
    have hi0 : i = 0 := by
      obtain ⟨tx, htx⟩ := hfilled (65535 - index_offset.toNat) (by omega)
      have := hprefilled _ _ htx
      omega
    subst hi0
    have hlen : index_offset.toNat ≤ txn_available.length := by
      have := (List.getElem?_eq_some_iff.mp hempty).1
      omega
    have hbelow := filled_of_emptyBefore_eq_zero hlen (by simpa using hbefore)
    have hall : ∀ j < 65536, ∃ tx, txn_available[j]? = some (some tx) := by
      intro j hj
      by_cases hlt : j < index_offset.toNat
      · exact hbelow j hlt
      · have := hfilled (j - index_offset.toNat) (by omega)
        rwa [Nat.zero_add, Nat.add_sub_cancel' (by omega)] at this
    exact ⟨skipFilled_diverges (fun o => by simpa using hall o.toNat o.toNat_lt) _ _, rfl, hall⟩

end SkipFilled

/-! ## The prefilled loop -/

section PlacePrefilled

variable {nShort i : ℕ} {lastprefilledindex : ℤ} {p : PrefilledTransaction}
  {prefilledtxn : List PrefilledTransaction} {txn_available : List (Option CTransaction)}

/-- One prefilled transaction: the three rejections, then the write. -/
theorem placePrefilled_cons :
    placePrefilled nShort i lastprefilledindex (p :: prefilledtxn) txn_available =
      if p.tx.IsNull || decide (65535 < lastprefilledindex + p.index.toNat + 1) ||
          decide ((nShort + i : ℤ) < lastprefilledindex + p.index.toNat + 1) then
        throw (.status .READ_STATUS_INVALID)
      else
        writeAt txn_available (lastprefilledindex + p.index.toNat + 1).toNat (some p.tx) >>=
          placePrefilled nShort (i + 1) (lastprefilledindex + p.index.toNat + 1) prefilledtxn := by
  simp only [placePrefilled]
  by_cases h1 : p.tx.IsNull = true <;> by_cases h2 : 65535 < lastprefilledindex + p.index.toNat + 1 <;>
    by_cases h3 : (nShort + i : ℤ) < lastprefilledindex + p.index.toNat + 1 <;> simp [h1, h2, h3]

/-- The prefilled loop fails only with a status.  Otherwise it has filled
one new slot per prefilled transaction, all below `65536`: the filled
slots lie at or below `lastprefilledindex`, which stays below `65536`, and
each new one lands above it, in a slot that was empty. -/
theorem placePrefilled_spec
    (hlen : txn_available.length = nShort + i + prefilledtxn.length)
    (hlast : -1 ≤ lastprefilledindex) (hlast' : lastprefilledindex ≤ 65535)
    (hfilled : ∀ (j : ℕ) tx, txn_available[j]? = some (some tx) → (j : ℤ) ≤ lastprefilledindex)
    (hcount : txn_available.countP Option.isSome = i) :
    (∀ e, placePrefilled nShort i lastprefilledindex prefilledtxn txn_available = .error e →
      ∃ s, e = .status s) ∧
    ∀ txn_available', placePrefilled nShort i lastprefilledindex prefilledtxn txn_available =
        .ok txn_available' →
      txn_available'.length = txn_available.length ∧
      txn_available'.countP Option.isSome = i + prefilledtxn.length ∧
      ∀ j tx, txn_available'[j]? = some (some tx) → j < 65536 := by
  induction prefilledtxn generalizing i lastprefilledindex txn_available with
  | nil =>
    refine ⟨fun e h => by simp [placePrefilled, pure, Except.pure] at h, fun t h => ?_⟩
    simp only [placePrefilled, pure, Except.pure, Except.ok.injEq] at h
    subst h
    refine ⟨rfl, hcount, fun j tx hj => ?_⟩
    have := hfilled j tx hj
    omega
  | cons p prefilledtxn ih =>
    rw [placePrefilled_cons]
    split_ifs with hbad
    · exact ⟨fun e h => ⟨_, (Except.error.inj h).symm⟩, fun t h => nomatch h⟩
    simp only [Bool.or_eq_true, decide_eq_true_eq, not_or, not_lt] at hbad
    obtain ⟨⟨-, hmax⟩, hslots⟩ := hbad
    set last := lastprefilledindex + p.index.toNat + 1 with hlast_def
    have hpos : lastprefilledindex < last := by omega
    have hlt : last.toNat < txn_available.length := by simp at hlen; omega
    -- the new slot was empty: every filled slot lies at or below the previous index
    have hold : txn_available[last.toNat] = none := by
      by_contra hne
      obtain ⟨tx, htx⟩ := Option.ne_none_iff_exists'.mp hne
      have := hfilled last.toNat tx (by rw [List.getElem?_eq_getElem hlt, htx])
      omega
    have hrest := @ih (i + 1) last (txn_available.set last.toNat (some p.tx))
      (by simp at hlen ⊢; omega) (by omega) hmax
      (fun j tx hj => by
        rw [List.getElem?_set] at hj
        split_ifs at hj with hj'
        · omega
        · exact (hfilled j tx hj).trans hpos.le)
      (by rw [List.countP_set hlt, hold, hcount]; simp)
    rw [writeAt_of_lt hlt, Check.ok_bind]
    refine ⟨hrest.1, fun t h => ?_⟩
    obtain ⟨hlen', hcount', hbelow⟩ := hrest.2 t h
    exact ⟨by simpa using hlen', by simp only [List.length_cons] at *; omega, hbelow⟩

/-- Prefilled transactions all at offset zero, placed after slot `i - 1`,
fill the slots from `i` on. -/
theorem placePrefilled_zero_offsets {tx : CTransaction} (hnull : tx.IsNull = false) (m : ℕ) :
    ∀ i (txn_available : List (Option CTransaction)), i + m ≤ 65536 →
      txn_available.length = nShort + i + m →
      ∃ t, placePrefilled nShort i ((i : ℤ) - 1) (List.replicate m ⟨0, tx⟩) txn_available = .ok t := by
  induction m with
  | zero => exact fun i txn_available _ _ => ⟨txn_available, rfl⟩
  | succ m ih =>
    intro i txn_available hm hlen
    have hlast : ((i : ℤ) - 1 + (0 : UInt16).toNat + 1) = ((i + 1 : ℕ) : ℤ) - 1 := by simp
    rw [List.replicate_succ, placePrefilled_cons, if_neg (by simp [hnull]; omega), hlast,
      writeAt_of_lt (by simp; omega), Check.ok_bind]
    exact ih (i + 1) _ (by omega) (by simp [hlen]; omega)

end PlacePrefilled

/-! ## The short-id loop -/

section MapShortIds

variable {bucket : UInt64 → ℕ} {txn_available : List (Option CTransaction)} {i : ℕ}
  {index_offset : UInt16} {k : UInt64} {ks : List UInt64} {shorttxids : List (UInt64 × UInt16)}

theorem mem_mapAssign {e : UInt64 × UInt16} {v : UInt16} (h : e ∈ mapAssign shorttxids k v) :
    e ∈ shorttxids ∨ e = (k, v) := by
  unfold mapAssign at h
  split_ifs at h
  · obtain ⟨e', he', rfl⟩ := List.mem_map.mp h
    split_ifs with hk
    · exact .inr rfl
    · exact .inl he'
  · simpa using h

/-- One short id: find its slot, map it, check its bucket. -/
theorem mapShortIds_cons :
    mapShortIds bucket txn_available i index_offset (k :: ks) shorttxids =
      skipFilled txn_available i 65536 index_offset >>= fun index_offset =>
        if 12 < bucketSize bucket (mapAssign shorttxids k (UInt16.ofNat (i + index_offset.toNat))) k
        then throw (.status .READ_STATUS_FAILED)
        else mapShortIds bucket txn_available (i + 1) index_offset ks
          (mapAssign shorttxids k (UInt16.ofNat (i + index_offset.toNat))) := by
  simp only [mapShortIds, Check.throw_bind]

/-- The short-id loop never reads past the end of the slots, and maps every
short id to a slot.  Invariant: `i` empty slots lie below `i + index_offset`,
and the short ids left are as many as the empty slots from there.  It never
ends only where every slot below `65536` is filled. -/
theorem mapShortIds_spec
    (hprefilled : ∀ j tx, txn_available[j]? = some (some tx) → j < 65536)
    (hbefore : emptyBefore txn_available (i + index_offset.toNat) = i)
    (hcount : i + ks.length = txn_available.countP Option.isNone)
    (hvals : ∀ e ∈ shorttxids, e.2.toNat < txn_available.length) :
    mapShortIds bucket txn_available i index_offset ks shorttxids ≠ .error .outOfRange ∧
    (∀ m, mapShortIds bucket txn_available i index_offset ks shorttxids = .ok m →
      ∀ e ∈ m, e.2.toNat < txn_available.length) ∧
    (mapShortIds bucket txn_available i index_offset ks shorttxids = .error .diverges →
      ∀ j < 65536, ∃ tx, txn_available[j]? = some (some tx)) := by
  induction ks generalizing i index_offset shorttxids with
  | nil =>
    simp only [mapShortIds, pure, Except.pure]
    exact ⟨nofun, fun m h => by cases h; exact hvals, nofun⟩
  | cons k ks ih =>
    rw [mapShortIds_cons]
    rcases skipFilled_spec hprefilled hbefore (by simp at hcount; omega) with
      ⟨index_offset', hok, hempty, hbefore'⟩ | ⟨hdiv, -, hall⟩
    · rw [hok, Check.ok_bind]
      have hslot : i + index_offset'.toNat < txn_available.length :=
        (List.getElem?_eq_some_iff.mp hempty).1
      split_ifs
      · exact ⟨(by simp [throw, throwThe, MonadExceptOf.throw]), (fun m h => nomatch h), nofun⟩
      refine ih ?_ (by simp at hcount; omega) fun e he => ?_
      · rw [show i + 1 + index_offset'.toNat = i + index_offset'.toNat + 1 by omega,
          emptyBefore_succ, hbefore', hempty]
        simp
      · rcases mem_mapAssign he with he | rfl
        · exact hvals e he
        · simp only [UInt16.toNat_ofNat']
          exact lt_of_le_of_lt (Nat.mod_le _ _) hslot
    · rw [hdiv]
      exact ⟨(by simp [bind, Except.bind]), (fun m h => nomatch h), fun _ => hall⟩

end MapShortIds

/-! ## The pool scans

A scan fills slots with pool transactions and empties slots, and so keeps
any property `R` of a slot and its transaction that every matching pool
transaction has at the slot its short id maps to. -/

section ScanPool

/-- The two vectors of a scan have one entry per slot. -/
structure ScanState.Sized (n : ℕ) (st : ScanState) : Prop where
  length_txn_available : st.txn_available.length = n
  length_have_txn : st.have_txn.length = n

theorem mem_of_lookup_eq_some {shorttxids : List (UInt64 × UInt16)} {k : UInt64} {v : UInt16}
    (h : shorttxids.lookup k = some v) : (k, v) ∈ shorttxids := by
  induction shorttxids with
  | nil => simp [List.lookup_nil] at h
  | cons e shorttxids ih =>
    obtain ⟨k', v'⟩ := e
    by_cases hk : k = k'
    · subst hk
      rw [List.lookup_cons_self, Option.some.injEq] at h
      simp [h]
    · rw [List.lookup_cons, beq_eq_false_iff_ne.mpr hk] at h
      exact List.mem_cons_of_mem _ (ih h)

variable {n : ℕ} {R : ℕ → CTransaction → Prop} {resetIf : CTransaction → CTransaction → Bool}

/-- One pool transaction: its match, then the early exit or the rest. -/
theorem scanPool_cons {GetShortID : uint256 → UInt64} {shorttxids : List (UInt64 × UInt16)}
    {hash : uint256} {tx : CTransaction} {pool : List (uint256 × CTransaction)} {st : ScanState} :
    scanPool GetShortID shorttxids resetIf ((hash, tx) :: pool) st =
      (match shorttxids.lookup (GetShortID hash) with
        | some idx => matchSlot resetIf tx idx.toNat st
        | none => pure st) >>= fun st =>
      if st.mempool_count = shorttxids.length then pure st
      else scanPool GetShortID shorttxids resetIf pool st := by
  simp only [scanPool]
  split <;> rfl

/-- The slots of `txn_available` that hold a transaction have property `R`. -/
def SlotsSatisfy (R : ℕ → CTransaction → Prop) (txn_available : List (Option CTransaction)) :
    Prop :=
  ∀ j tx, txn_available[j]? = some (some tx) → R j tx

theorem SlotsSatisfy.set {txn_available : List (Option CTransaction)} {idx : ℕ}
    {slot : Option CTransaction} (h : SlotsSatisfy R txn_available)
    (hslot : ∀ tx, slot = some tx → R idx tx) :
    SlotsSatisfy R (txn_available.set idx slot) := by
  intro j tx hj
  rw [List.getElem?_set] at hj
  split_ifs at hj with hidx
  · subst hidx
    exact hslot tx (Option.some.inj hj)
  · exact h j tx hj

/-- A match at slot `idx` for a transaction with `R idx tx`. -/
theorem matchSlot_spec {tx : CTransaction} {idx : ℕ} {st : ScanState} (hidx : idx < n)
    (hst : st.Sized n) (hR : SlotsSatisfy R st.txn_available) (htx : R idx tx) :
    ∃ st', matchSlot resetIf tx idx st = .ok st' ∧ st'.Sized n ∧ SlotsSatisfy R st'.txn_available := by
  obtain ⟨hlen, hlen'⟩ := hst
  unfold matchSlot
  rw [readAt_of_lt (by omega), Check.ok_bind]
  split_ifs with hfirst
  · -- the first match fills the slot
    rw [writeAt_of_lt (by omega), Check.ok_bind, writeAt_of_lt (by omega), Check.ok_bind]
    exact ⟨_, rfl, ⟨by simp [hlen], by simp [hlen']⟩,
      hR.set fun t ht => by cases ht; exact htx⟩
  · -- a second match: the slot is emptied, or kept
    rw [readAt_of_lt (by omega), Check.ok_bind]
    split
    · split_ifs
      · rw [writeAt_of_lt (by omega), Check.ok_bind]
        exact ⟨_, rfl, ⟨by simp [hlen], hlen'⟩, hR.set nofun⟩
      · exact ⟨st, rfl, ⟨hlen, hlen'⟩, hR⟩
    · exact ⟨st, rfl, ⟨hlen, hlen'⟩, hR⟩

/-- A scan over pool transactions that each have `R` at the slot their
short id maps to never faults, and keeps the slots within `R`. -/
theorem scanPool_spec {GetShortID : uint256 → UInt64} {shorttxids : List (UInt64 × UInt16)}
    {pool : List (uint256 × CTransaction)} {st : ScanState}
    (hvals : ∀ e ∈ shorttxids, e.2.toNat < n)
    (hpool : ∀ p ∈ pool, ∀ idx, shorttxids.lookup (GetShortID p.1) = some idx → R idx.toNat p.2)
    (hst : st.Sized n) (hR : SlotsSatisfy R st.txn_available) :
    ∃ st', scanPool GetShortID shorttxids resetIf pool st = .ok st' ∧ st'.Sized n ∧
      SlotsSatisfy R st'.txn_available := by
  induction pool generalizing st with
  | nil => exact ⟨st, rfl, hst, hR⟩
  | cons p pool ih =>
    obtain ⟨hash, tx⟩ := p
    -- the match, if the short id is known, then the early exit or the rest
    obtain ⟨st₁, hst₁, hsized₁, hR₁⟩ : ∃ st₁, (match shorttxids.lookup (GetShortID hash) with
        | some idx => matchSlot resetIf tx idx.toNat st
        | none => pure st) = .ok st₁ ∧ st₁.Sized n ∧ SlotsSatisfy R st₁.txn_available := by
      split
      · next idx hidx =>
        exact matchSlot_spec (hvals _ (mem_of_lookup_eq_some hidx)) hst hR
          (hpool _ List.mem_cons_self idx hidx)
      · exact ⟨st, rfl, hst, hR⟩
    rw [scanPool_cons, hst₁, Check.ok_bind]
    split_ifs
    · exact ⟨st₁, rfl, hsized₁, hR₁⟩
    · exact ih (fun q hq => hpool q (List.mem_cons_of_mem _ hq)) hsized₁ hR₁

end ScanPool

/-! ## `InitData` as a whole -/

section InitData

variable {hashes : ShortIdHashes} {bucket : ℕ → UInt64 → ℕ}
  {vTxHashes extra_txn : List (uint256 × CTransaction)} {cmpctblock : CBlockHeaderAndShortTxIDs}

theorem countP_isNone_add_countP_isSome (l : List (Option CTransaction)) :
    l.countP Option.isNone + l.countP Option.isSome = l.length := by
  induction l with
  | nil => rfl
  | cons slot l ih => cases slot <;> simp <;> omega

/-- The prefilled loop of `InitData` fails only with a status; after it
there is one slot per transaction, the short ids' empty and the prefilled
ones filled, all below `65536`. -/
theorem placePrefilled_init :
    (∀ e, placePrefilled cmpctblock.shorttxids.length 0 (-1) cmpctblock.prefilledtxn
        (List.replicate cmpctblock.BlockTxCount none) = .error e → ∃ s, e = .status s) ∧
    ∀ txn_available, placePrefilled cmpctblock.shorttxids.length 0 (-1) cmpctblock.prefilledtxn
        (List.replicate cmpctblock.BlockTxCount none) = .ok txn_available →
      txn_available.length = cmpctblock.BlockTxCount ∧
      txn_available.countP Option.isSome = cmpctblock.prefilledtxn.length ∧
      txn_available.countP Option.isNone = cmpctblock.shorttxids.length ∧
      ∀ j tx, txn_available[j]? = some (some tx) → j < 65536 := by
  have hspec := @placePrefilled_spec cmpctblock.shorttxids.length 0 (-1) cmpctblock.prefilledtxn
    (List.replicate cmpctblock.BlockTxCount none)
    (by simp [CBlockHeaderAndShortTxIDs.BlockTxCount]) le_rfl (by norm_num)
    (fun j tx h => by simp [List.getElem?_replicate] at h) (by simp [List.countP_replicate])
  refine ⟨hspec.1, fun txn_available h => ?_⟩
  obtain ⟨hlen, hcount, hbelow⟩ := hspec.2 txn_available h
  have := countP_isNone_add_countP_isSome txn_available
  simp only [List.length_replicate, CBlockHeaderAndShortTxIDs.BlockTxCount, Nat.zero_add] at hlen hcount ⊢
  exact ⟨hlen, hcount, by omega, hbelow⟩

/-- How `InitData` ends: with a status other than `READ_STATUS_OK`, with a
partially downloaded block, or, past its checks and the prefilled loop,
inside the short-id loop, which never returns. -/
theorem InitData_cases :
    (∃ s, InitData hashes bucket vTxHashes cmpctblock extra_txn = .error (.status s)) ∨
    (∃ pdb, InitData hashes bucket vTxHashes cmpctblock extra_txn = .ok pdb) ∨
    (InitData hashes bucket vTxHashes cmpctblock extra_txn = .error .diverges ∧
      cmpctblock.header.IsNull = false ∧
      cmpctblock.BlockTxCount ≤ MAX_BLOCK_WEIGHT / MIN_SERIALIZABLE_TRANSACTION_WEIGHT ∧
      ∃ txn_available, placePrefilled cmpctblock.shorttxids.length 0 (-1) cmpctblock.prefilledtxn
          (List.replicate cmpctblock.BlockTxCount none) = .ok txn_available ∧
        mapShortIds (bucket cmpctblock.shorttxids.length) txn_available 0 0
          cmpctblock.shorttxids [] = .error .diverges) := by
  simp only [InitData, Check.throw_bind]
  split_ifs with hchecks hsize
  · exact .inl ⟨_, rfl⟩
  · exact .inl ⟨_, rfl⟩
  rcases hpre : placePrefilled cmpctblock.shorttxids.length 0 (-1) cmpctblock.prefilledtxn
    (List.replicate cmpctblock.BlockTxCount none) with e | txn_available
  · obtain ⟨s, rfl⟩ := placePrefilled_init.1 e hpre
    exact .inl ⟨s, rfl⟩
  obtain ⟨hlen, -, hnone, hbelow⟩ := placePrefilled_init.2 txn_available hpre
  -- the short-id loop starts at the bottom with every empty slot ahead of it
  have hmap := @mapShortIds_spec (bucket cmpctblock.shorttxids.length) txn_available 0 0
    cmpctblock.shorttxids [] hbelow (by simp [emptyBefore]) (by simp [hnone]) (by simp)
  rw [Check.ok_bind]
  rcases hm : mapShortIds (bucket cmpctblock.shorttxids.length) txn_available 0 0
    cmpctblock.shorttxids [] with e | shorttxids
  · rw [hm] at hmap
    cases e with
    | status s => exact .inl ⟨s, rfl⟩
    | outOfRange => exact absurd rfl hmap.1
    | diverges =>
      simp only [Bool.or_eq_true, not_or] at hchecks
      exact .inr (.inr ⟨rfl, by simpa using hchecks.1, by omega, txn_available, rfl, hm⟩)
  rw [Check.ok_bind]
  split_ifs
  · exact .inl ⟨_, rfl⟩
  -- both scans succeed: every short id maps to a slot
  have hvals := hmap.2.1 shorttxids hm
  obtain ⟨st, hst, hsized, -⟩ := @scanPool_spec txn_available.length (fun _ _ => True)
    (fun _ _ => true) (cmpctblock.GetShortID hashes) shorttxids vTxHashes
    ⟨txn_available, List.replicate txn_available.length false, 0⟩ hvals (by simp) ⟨rfl, by simp⟩
    (fun _ _ _ => trivial)
  obtain ⟨st', hst', -, -⟩ := @scanPool_spec txn_available.length (fun _ _ => True)
    (fun old tx => hashes.GetWitnessHash old != hashes.GetWitnessHash tx)
    (cmpctblock.GetShortID hashes) shorttxids extra_txn st hvals (by simp) hsized
    (fun _ _ _ => trivial)
  rw [hst, Check.ok_bind, hst', Check.ok_bind]
  exact .inr (.inl ⟨_, rfl⟩)

/-- No message, mempool or extra pool makes `InitData` read or write one of
its vectors past the end. -/
theorem InitData_ne_outOfRange :
    InitData hashes bucket vTxHashes cmpctblock extra_txn ≠ .error .outOfRange := by
  rcases InitData_cases with ⟨s, h⟩ | ⟨pdb, h⟩ | ⟨h, -⟩ <;> rw [h] <;> simp

/-- `InitData` never returns on exactly the messages that pass its checks
and the prefilled loop with `65536` prefilled transactions and at least one
short id: these fill every slot below `65536`, and the `uint16_t` offset of
the first short id wraps around over them for ever. -/
theorem InitData_diverges_iff :
    InitData hashes bucket vTxHashes cmpctblock extra_txn = .error .diverges ↔
      cmpctblock.header.IsNull = false ∧
      cmpctblock.BlockTxCount ≤ MAX_BLOCK_WEIGHT / MIN_SERIALIZABLE_TRANSACTION_WEIGHT ∧
      (∃ txn_available, placePrefilled cmpctblock.shorttxids.length 0 (-1) cmpctblock.prefilledtxn
        (List.replicate cmpctblock.BlockTxCount none) = .ok txn_available) ∧
      cmpctblock.prefilledtxn.length = 65536 ∧ cmpctblock.shorttxids ≠ [] := by
  constructor
  · intro h
    rcases InitData_cases with ⟨s, h'⟩ | ⟨pdb, h'⟩ | ⟨-, hnull, hsize, txn_available, hpre, hm⟩
    · rw [h] at h'; cases h'
    · rw [h] at h'; cases h'
    obtain ⟨-, hsome, hnone, hbelow⟩ := placePrefilled_init.2 txn_available hpre
    -- the loop wrapped: every slot below `65536` is prefilled
    have hall := (@mapShortIds_spec (bucket cmpctblock.shorttxids.length) txn_available 0 0
      cmpctblock.shorttxids [] hbelow (by simp [emptyBefore]) (by simp [hnone]) (by simp)).2.2 hm
    refine ⟨hnull, hsize, ⟨txn_available, hpre⟩, ?_, fun hnil => ?_⟩
    · exact le_antisymm (hsome ▸ countP_isSome_le hbelow) (hsome ▸ le_countP_isSome hall)
    · rw [hnil] at hm
      simp [mapShortIds, pure, Except.pure] at hm
  · rintro ⟨hnull, hsize, ⟨txn_available, hpre⟩, hP, hne⟩
    obtain ⟨-, hsome, -, hbelow⟩ := placePrefilled_init.2 txn_available hpre
    have hall := filled_of_countP_isSome_eq hbelow (hsome.trans hP)
    obtain ⟨k, ks, hks⟩ := List.exists_cons_of_ne_nil hne
    have hchecks : ¬ (cmpctblock.header.IsNull ||
        cmpctblock.shorttxids.isEmpty && cmpctblock.prefilledtxn.isEmpty) = true := by
      simp [hnull, hks]
    simp only [InitData, Check.throw_bind]
    rw [if_neg hchecks, if_neg (not_lt.mpr hsize), hpre, Check.ok_bind, hks, mapShortIds_cons,
      skipFilled_diverges (fun o => by simpa using hall o.toNat o.toNat_lt)]
    rfl

/-- The failing input: `65536` prefilled transactions, each an output and no
input, at offset zero, and one short id. -/
theorem InitData_diverges_65536_prefilled :
    InitData ⟨fun _ => 0, fun _ _ h => UInt64.ofNat h, (·.nLockTime), (·.nLockTime)⟩
      (fun _ k => k.toNat) [] ⟨⟨1, 0, 0, 0, 1, 0⟩, 0, [0], List.replicate 65536 ⟨0, ⟨1, [], [⟨1, []⟩], 0⟩⟩⟩ [] =
      .error .diverges :=
  InitData_diverges_iff.mpr ⟨rfl,
    by
      simp only [CBlockHeaderAndShortTxIDs.BlockTxCount, List.length_replicate, List.length_singleton]
      decide,
    @placePrefilled_zero_offsets 1 ⟨1, [], [⟨1, []⟩], 0⟩ rfl 65536 0 _ (by norm_num)
      (by simp only [CBlockHeaderAndShortTxIDs.BlockTxCount, List.length_replicate, List.length_singleton]),
    List.length_replicate, List.cons_ne_nil _ _⟩

end InitData

/-! ## `FillBlock` -/

namespace PartiallyDownloadedBlock

/-- `IsTxAvailable(index)`, for an `index` below the slot count it asserts. -/
def IsTxAvailable (pdb : PartiallyDownloadedBlock) (index : ℕ) : Bool :=
  match pdb.txn_available[index]? with
  | some (some _) => true
  | _ => false

end PartiallyDownloadedBlock

/-- The loop of `FillBlock`: each slot's transaction, or where the slot is
empty the next of `vtx_missing`, `none` once they run out; with the
transactions and what is left of `vtx_missing`. -/
def fillTxs : List (Option CTransaction) → List CTransaction →
    Option (List CTransaction × List CTransaction)
  | [], vtx_missing => some ([], vtx_missing)
  | some tx :: txn_available, vtx_missing =>
    (fillTxs txn_available vtx_missing).map fun r => (tx :: r.1, r.2)
  | none :: _, [] => none
  | none :: txn_available, tx :: vtx_missing =>
    (fillTxs txn_available vtx_missing).map fun r => (tx :: r.1, r.2)

/-- `CValidationState::CorruptionPossible` after `CheckBlock`: only the two
merkle checks mark a rejection as one a different set of transactions could
avoid. -/
def CorruptionPossible (strRejectReason : String) : Bool :=
  strRejectReason == "bad-txnmrklroot" || strRejectReason == "bad-txns-duplicate"

/-- `PartiallyDownloadedBlock::FillBlock`: the status and the block it
writes; `none` where it returns before every slot has a transaction.
`CheckBlock` runs with its defaults, proof of work and merkle root checked. -/
def FillBlock (GetHash : CBlockHeader → uint256) (Hash64 : uint256 → uint256 → uint256)
    (txHash : CTransaction → uint256) (prevHeight : uint256 → Option ℕ) (params : Params)
    (pdb : PartiallyDownloadedBlock) (vtx_missing : List CTransaction) :
    ReadStatus × Option CBlock :=
  match fillTxs pdb.txn_available vtx_missing with
  | none => (.READ_STATUS_INVALID, none)
  | some (vtx, unused) =>
    let block : CBlock := { toCBlockHeader := pdb.header, vtx }
    if !unused.isEmpty then (.READ_STATUS_INVALID, some block)
    else
      match checkBlock GetHash Hash64 txHash prevHeight block params true true with
      | .ok () => (.READ_STATUS_OK, some block)
      | .error (_, strRejectReason) =>
        (if CorruptionPossible strRejectReason then .READ_STATUS_FAILED
          else .READ_STATUS_CHECKBLOCK_FAILED, some block)

/-! ## The round trip through `net_processing.cpp` -/

/-- The `BlockTransactionsRequest` the `CMPCTBLOCK` handler sends: the slots
`IsTxAvailable` reports empty, in increasing order. -/
def missingTxIndexes (cmpctblock : CBlockHeaderAndShortTxIDs) (pdb : PartiallyDownloadedBlock) :
    List ℕ :=
  (List.range cmpctblock.BlockTxCount).filter fun i => !pdb.IsTxAvailable i

/-- `SendBlockTransactions`: the block's transactions at the requested
indexes, `none` where one is out of bounds and the peer is punished. -/
def SendBlockTransactions (block : CBlock) (indexes : List ℕ) : Option (List CTransaction) :=
  indexes.mapM fun i => block.vtx[i]?


/-! ## Reconstruction of a block -/

section Reconstruct

/-- The transactions of `vtx` at the empty slots of `txn_available`, in order. -/
def missingTxs (txn_available : List (Option CTransaction)) (vtx : List CTransaction) :
    List CTransaction :=
  ((txn_available.zip vtx).filter (·.1.isNone)).map Prod.snd

/-- Slots that agree with `vtx` wherever they hold a transaction, completed
by `vtx` at the empty ones, give `vtx`; what follows is left unused. -/
theorem fillTxs_missingTxs {txn_available : List (Option CTransaction)} {vtx : List CTransaction}
    (hlen : txn_available.length = vtx.length)
    (hagree : SlotsSatisfy (fun j tx => vtx[j]? = some tx) txn_available)
    (unused : List CTransaction) :
    fillTxs txn_available (missingTxs txn_available vtx ++ unused) = some (vtx, unused) := by
  induction txn_available generalizing vtx with
  | nil =>
    obtain rfl : vtx = [] := List.eq_nil_of_length_eq_zero hlen.symm
    simp [missingTxs, fillTxs]
  | cons slot txn_available ih =>
    obtain ⟨tx, vtx, rfl⟩ : ∃ tx vtx', vtx = tx :: vtx' :=
      List.exists_cons_of_length_eq_add_one hlen.symm
    have hrest : SlotsSatisfy (fun j tx => vtx[j]? = some tx) txn_available :=
      fun j t hj => by simpa using hagree (j + 1) t (by simpa using hj)
    have ih' := ih (by simpa using hlen) hrest
    cases slot with
    | none => simp [missingTxs, fillTxs] at ih' ⊢; simp [ih']
    | some t =>
      -- a filled slot holds the block's transaction
      have htx : t = tx := by simpa using (hagree 0 t rfl).symm
      subst htx
      simp [missingTxs, fillTxs] at ih' ⊢; simp [ih']

/-- The transactions `SendBlockTransactions` answers the request of the
missing indexes with, for slots one per transaction of the block. -/
theorem mapM_missing_indexes {txn_available : List (Option CTransaction)} {vtx : List CTransaction}
    (hlen : txn_available.length = vtx.length) :
    ((List.range txn_available.length).filter fun i =>
        !(match txn_available[i]? with
          | some (some _) => true
          | _ => false)).mapM (fun i => vtx[i]?) = some (missingTxs txn_available vtx) := by
  -- from slot `s` on, by induction on the slots left
  suffices ∀ k s, s + k = txn_available.length →
      ((List.range' s k).filter fun i =>
        !(match txn_available[i]? with
          | some (some _) => true
          | _ => false)).mapM (fun i => vtx[i]?) =
        some (missingTxs (txn_available.drop s) (vtx.drop s)) by
    simpa [List.range_eq_range'] using this txn_available.length 0 (by simp)
  intro k
  induction k with
  | zero =>
    intro s hs
    simp [missingTxs, List.drop_eq_nil_of_le (by omega : txn_available.length ≤ s)]
  | succ k ih =>
    intro s hs
    have hs' : s < txn_available.length := by omega
    have hv : s < vtx.length := by omega
    rw [List.range'_succ, List.drop_eq_getElem_cons hs', List.drop_eq_getElem_cons hv]
    cases hslot : txn_available[s] with
    | none =>
      simp [List.getElem?_eq_getElem hs', hslot, List.getElem?_eq_getElem hv, ih (s + 1) (by omega),
        missingTxs, -List.getElem_cons_drop]
    | some tx =>
      simp [List.getElem?_eq_getElem hs', hslot, ih (s + 1) (by omega), missingTxs,
        -List.getElem_cons_drop]

end Reconstruct


/-! ## Messages built from a block

`CBlockHeaderAndShortTxIDs(block)` sends the coinbase in full at slot `0`
and a short id for every other transaction. -/

section OfBlock

variable {bucket : UInt64 → ℕ} {coinbase : CTransaction} {S : ℕ}

theorem ofBlock_layout {hashes : ShortIdHashes} {block : CBlock} {fUseWTXID : Bool}
    {nonce : UInt64} {cmpctblock : CBlockHeaderAndShortTxIDs}
    (h : CBlockHeaderAndShortTxIDs.ofBlock hashes block fUseWTXID nonce = some cmpctblock) :
    ∃ coinbase vtx, block.vtx = coinbase :: vtx ∧ cmpctblock.header = block.toCBlockHeader ∧
      cmpctblock.prefilledtxn = [⟨0, coinbase⟩] ∧ cmpctblock.shorttxids.length = vtx.length := by
  unfold CBlockHeaderAndShortTxIDs.ofBlock at h
  split at h
  · cases h
  · next coinbase vtx hvtx =>
    cases h
    exact ⟨coinbase, vtx, hvtx, rfl, rfl, by simp⟩

/-- The prefilled loop places the coinbase at slot `0`. -/
theorem placePrefilled_coinbase (hnull : coinbase.IsNull = false) :
    placePrefilled S 0 (-1) [⟨0, coinbase⟩] (List.replicate (S + 1) none) =
      .ok (some coinbase :: List.replicate S none) := by
  rw [placePrefilled_cons, if_neg (by simp [hnull])]
  simp [writeAt, placePrefilled, pure, Except.pure, List.replicate_succ]

/-- The slot of the `i`-th short id, after the coinbase: the loop reads the
coinbase once, then stops at once at each next slot. -/
theorem skipFilled_coinbase {i : ℕ} {index_offset : UInt16} (hi : i < S)
    (hoff : index_offset = 0 ∧ i = 0 ∨ index_offset = 1) :
    skipFilled (some coinbase :: List.replicate S none) i 65536 index_offset = .ok 1 := by
  rcases hoff with ⟨rfl, rfl⟩ | rfl
  · have := @skipFilled_run (some coinbase :: List.replicate S none) 0 1 65536 0
      (fun k hk => ⟨coinbase, by simp [show k = 0 by omega]⟩)
      (by simp [hi]) (by decide) (by norm_num)
    simpa using this
  · have := @skipFilled_run (some coinbase :: List.replicate S none) i 0 65536 1 nofun
      (by simp [hi]) (by decide) (by norm_num)
    simpa using this

theorem bucketSize_append_le {shorttxids : List (UInt64 × UInt16)} {k : UInt64} {v : UInt16}
    {ks : List UInt64} :
    bucketSize bucket (shorttxids ++ [(k, v)]) k ≤
      ((shorttxids.map Prod.fst ++ k :: ks).filter fun k' => bucket k' == bucket k).length := by
  have hsub : (shorttxids.map Prod.fst ++ [k]).Sublist (shorttxids.map Prod.fst ++ k :: ks) :=
    (List.singleton_sublist.mpr List.mem_cons_self).append_left _
  calc bucketSize bucket (shorttxids ++ [(k, v)]) k
      = ((shorttxids.map Prod.fst ++ [k]).filter fun k' => bucket k' == bucket k).length := by
        simp [bucketSize, List.filter_map, Function.comp_def]
    _ ≤ _ := (hsub.filter _).length_le

/-- With distinct short ids and no bucket over twelve keys, the `i`-th short
id maps to slot `i + 1`. -/
theorem mapShortIds_coinbase {i : ℕ} {index_offset : UInt16} {ks : List UInt64}
    {shorttxids : List (UInt64 × UInt16)} (hi : i + ks.length = S)
    (hoff : index_offset = 0 ∧ i = 0 ∨ index_offset = 1)
    (hnodup : (shorttxids.map Prod.fst ++ ks).Nodup)
    (hbucket : ∀ k ∈ ks,
      ((shorttxids.map Prod.fst ++ ks).filter fun k' => bucket k' == bucket k).length ≤ 12) :
    mapShortIds bucket (some coinbase :: List.replicate S none) i index_offset ks shorttxids =
      .ok (shorttxids ++ List.zipWith (fun k j => (k, UInt16.ofNat j)) ks (List.range' (i + 1) ks.length)) := by
  induction ks generalizing i index_offset shorttxids with
  | nil => simp [mapShortIds, pure, Except.pure]
  | cons k ks ih =>
    rw [mapShortIds_cons, skipFilled_coinbase (by simp at hi; omega) hoff, Check.ok_bind]
    -- a new key: the map grows by one entry
    have hnew : mapAssign shorttxids k (UInt16.ofNat (i + (1 : UInt16).toNat)) =
        shorttxids ++ [(k, UInt16.ofNat (i + 1))] := by
      have hk : k ∉ shorttxids.map Prod.fst := fun hk =>
        (List.nodup_append.mp hnodup).2.2 k hk k List.mem_cons_self rfl
      rw [mapAssign, if_neg]
      · rfl
      · simpa [List.any_eq_true] using fun b hkb => hk (List.mem_map.mpr ⟨(k, b), hkb, rfl⟩)
    rw [hnew, if_neg (not_lt.mpr ((bucketSize_append_le).trans (hbucket k List.mem_cons_self))),
      ih (by simp at hi; omega) (.inr rfl) (by simpa using hnodup)
        (fun k' hk' => by simpa using hbucket k' (List.mem_cons_of_mem _ hk'))]
    simp [List.range'_succ, Nat.add_assoc]

/-- An entry of the map built from distinct short ids: the `j`-th short id
and slot `j + 1`. -/
theorem mem_zipWith_range' {ks : List UInt64} {e : UInt64 × UInt16}
    (h : e ∈ List.zipWith (fun k j => (k, UInt16.ofNat j)) ks (List.range' 1 ks.length))
    (hlen : ks.length < 65536) :
    ∃ j, ks[j]? = some e.1 ∧ e.2.toNat = j + 1 := by
  obtain ⟨j, hj, rfl⟩ := List.mem_iff_getElem.mp h
  simp only [List.length_zipWith, List.length_range', min_self] at hj
  refine ⟨j, by simp [List.getElem?_eq_getElem hj], ?_⟩
  simp only [List.getElem_zipWith, List.getElem_range', UInt16.toNat_ofNat']
  omega

/-- `InitData` on the message built from a block with a header and a
coinbase that are not null, at most `65535` transactions, distinct short
ids, no bucket of more than twelve of them, and pools whose transactions
are the block's wherever their short id matches: it succeeds, with every
filled slot holding the block's transaction at that position. -/
theorem InitData_ofBlock {hashes : ShortIdHashes} {bucket : ℕ → UInt64 → ℕ}
    {vTxHashes extra_txn : List (uint256 × CTransaction)} {block : CBlock} {fUseWTXID : Bool} {nonce : UInt64} {cmpctblock : CBlockHeaderAndShortTxIDs}
    (h : CBlockHeaderAndShortTxIDs.ofBlock hashes block fUseWTXID nonce = some cmpctblock)
    (hlen : block.vtx.length ≤ 65535) (hheader : block.toCBlockHeader.IsNull = false)
    (hcoinbase : ∀ tx ∈ block.vtx.head?, tx.IsNull = false) (hnodup : cmpctblock.shorttxids.Nodup)
    (hbucket : ∀ k ∈ cmpctblock.shorttxids,
      (cmpctblock.shorttxids.filter fun k' =>
        bucket cmpctblock.shorttxids.length k' == bucket cmpctblock.shorttxids.length k).length ≤ 12)
    (hpool : ∀ p ∈ vTxHashes ++ extra_txn, ∀ j,
      cmpctblock.shorttxids[j]? = some (cmpctblock.GetShortID hashes p.1) →
        block.vtx[j + 1]? = some p.2) :
    ∃ pdb, InitData hashes bucket vTxHashes cmpctblock extra_txn = .ok pdb ∧
      pdb.header = block.toCBlockHeader ∧ pdb.txn_available.length = block.vtx.length ∧
      SlotsSatisfy (fun j tx => block.vtx[j]? = some tx) pdb.txn_available := by
  obtain ⟨coinbase, vtx, hvtx, hhdr, hpre, hS⟩ := ofBlock_layout h
  set S := cmpctblock.shorttxids.length with hS_def
  have hcount : cmpctblock.BlockTxCount = S + 1 := by
    simp [CBlockHeaderAndShortTxIDs.BlockTxCount, hpre, hS_def]
  have hSlen : S + 1 = block.vtx.length := by simp [hvtx, hS]
  have hnull : coinbase.IsNull = false := hcoinbase coinbase (by simp [hvtx])
  have hmap := @mapShortIds_coinbase (bucket S) coinbase S 0 0 cmpctblock.shorttxids [] (by omega)
    (.inl ⟨rfl, rfl⟩) (by simpa using hnodup) (by simpa using hbucket)
  simp only [Nat.zero_add, List.nil_append] at hmap
  set shorttxids := List.zipWith (fun k j => (k, UInt16.ofNat j)) cmpctblock.shorttxids
    (List.range' 1 S) with hmap_def
  -- every map entry is a short id's slot `j + 1`, below the slot count
  have hentry : ∀ e ∈ shorttxids, ∃ j, cmpctblock.shorttxids[j]? = some e.1 ∧ e.2.toNat = j + 1 :=
    fun e he => mem_zipWith_range' he (by omega)
  have hvals : ∀ e ∈ shorttxids, e.2.toNat < S + 1 := fun e he => by
    obtain ⟨j, hj, hv⟩ := hentry e he
    have := (List.getElem?_eq_some_iff.mp hj).1
    omega
  have hmatch : ∀ pool ⊆ vTxHashes ++ extra_txn, ∀ p ∈ pool, ∀ idx,
      shorttxids.lookup (cmpctblock.GetShortID hashes p.1) = some idx →
        block.vtx[idx.toNat]? = some p.2 := fun pool hsub p hp idx hidx => by
    obtain ⟨j, hj, hv⟩ := hentry _ (mem_of_lookup_eq_some hidx)
    rw [hv]
    exact hpool p (hsub hp) j hj
  have hinit : SlotsSatisfy (fun j tx => block.vtx[j]? = some tx)
      (some coinbase :: List.replicate S none) := fun j tx hj => by
    cases j with
    | zero => simp_all
    | succ j => simp [List.getElem?_replicate] at hj
  obtain ⟨st, hst, hsized, hR⟩ := @scanPool_spec (S + 1) _ (fun _ _ => true)
    (cmpctblock.GetShortID hashes) shorttxids vTxHashes
    ⟨some coinbase :: List.replicate S none, List.replicate (S + 1) false, 0⟩ hvals
    (hmatch vTxHashes (List.subset_append_left _ _)) ⟨by simp, by simp⟩ hinit
  obtain ⟨st', hst', hsized', hR'⟩ := @scanPool_spec (S + 1) _
    (fun old tx => hashes.GetWitnessHash old != hashes.GetWitnessHash tx)
    (cmpctblock.GetShortID hashes) shorttxids extra_txn st hvals
    (hmatch extra_txn (List.subset_append_right _ _)) hsized hR
  refine ⟨⟨st'.txn_available, st'.mempool_count, cmpctblock.header⟩, ?_, hhdr,
    hsized'.length_txn_available.trans hSlen, hR'⟩
  have hchecks : ¬ (cmpctblock.header.IsNull ||
      cmpctblock.shorttxids.isEmpty && cmpctblock.prefilledtxn.isEmpty) = true := by
    have hnull' : cmpctblock.header.IsNull = false := hhdr ▸ hheader
    simp [hnull', hpre]
  have hsize : ¬ MAX_BLOCK_WEIGHT / MIN_SERIALIZABLE_TRANSACTION_WEIGHT < cmpctblock.BlockTxCount := by
    rw [hcount]
    simp only [MAX_BLOCK_WEIGHT, MIN_SERIALIZABLE_TRANSACTION_WEIGHT, WITNESS_SCALE_FACTOR]
    omega
  simp only [InitData, Check.throw_bind]
  rw [if_neg hchecks, if_neg hsize, hcount, hpre, placePrefilled_coinbase hnull, Check.ok_bind, hmap,
    Check.ok_bind, if_neg (by simp [hmap_def, hS_def])]
  simp only [List.length_cons, List.length_replicate]
  rw [hst, Check.ok_bind, hst', Check.ok_bind]
  rfl

/-- `FillBlock` on slots that agree with a block, answered by
`SendBlockTransactions` from that block for the indexes the node asks for,
writes exactly the block; its status is `READ_STATUS_OK` exactly when the
block passes `CheckBlock`. -/
theorem FillBlock_SendBlockTransactions {cmpctblock : CBlockHeaderAndShortTxIDs}
    {pdb : PartiallyDownloadedBlock} {block : CBlock} (hheader : pdb.header = block.toCBlockHeader)
    (hlen : pdb.txn_available.length = block.vtx.length)
    (hcount : cmpctblock.BlockTxCount = block.vtx.length)
    (hagree : SlotsSatisfy (fun j tx => block.vtx[j]? = some tx) pdb.txn_available) :
    ∃ vtx_missing, SendBlockTransactions block (missingTxIndexes cmpctblock pdb) = some vtx_missing ∧
      ∀ GetHash Hash64 txHash prevHeight params,
        (FillBlock GetHash Hash64 txHash prevHeight params pdb vtx_missing).2 = some block ∧
        ((FillBlock GetHash Hash64 txHash prevHeight params pdb vtx_missing).1 = .READ_STATUS_OK ↔
          checkBlock GetHash Hash64 txHash prevHeight block params true true = .ok ()) := by
  refine ⟨missingTxs pdb.txn_available block.vtx, ?_, fun GetHash Hash64 txHash prevHeight params => ?_⟩
  · unfold SendBlockTransactions missingTxIndexes PartiallyDownloadedBlock.IsTxAvailable
    rw [hcount, ← hlen]
    exact mapM_missing_indexes hlen
  -- every slot gets the block's transaction, and nothing is left over
  have hfill := fillTxs_missingTxs hlen hagree []
  rw [List.append_nil] at hfill
  have hblock : ({ toCBlockHeader := pdb.header, vtx := block.vtx } : CBlock) = block := by
    rw [hheader]
  unfold FillBlock
  rw [hfill]
  simp only [List.isEmpty_nil, Bool.not_true, Bool.false_eq_true, if_false, hblock]
  split
  · next hok => exact ⟨rfl, by simp [hok]⟩
  · next e hcheck => exact ⟨by split_ifs <;> rfl, by simp [hcheck]; split_ifs <;> simp⟩

/-- Compact blocks never make `InitData` read or write past the end of a
vector; and a block with a header and coinbase that are not null, at most
`65535` transactions and distinct short ids, none of whose buckets holds
more than twelve, relayed as `CBlockHeaderAndShortTxIDs(block)` to a node
whose mempool and extra pool hold the block's transaction wherever a short
id matches, comes out of `InitData`, the request of the missing indexes,
`SendBlockTransactions` and `FillBlock` exactly as it went in. -/
theorem InitData_FillBlock_exact :
    (∀ hashes bucket vTxHashes cmpctblock extra_txn,
      InitData hashes bucket vTxHashes cmpctblock extra_txn ≠ .error .outOfRange) ∧
    ∀ hashes bucket vTxHashes extra_txn (block : CBlock) fUseWTXID nonce cmpctblock,
      CBlockHeaderAndShortTxIDs.ofBlock hashes block fUseWTXID nonce = some cmpctblock →
      block.vtx.length ≤ 65535 → block.toCBlockHeader.IsNull = false →
      (∀ tx ∈ block.vtx.head?, tx.IsNull = false) → cmpctblock.shorttxids.Nodup →
      (∀ k ∈ cmpctblock.shorttxids, (cmpctblock.shorttxids.filter fun k' =>
        bucket cmpctblock.shorttxids.length k' == bucket cmpctblock.shorttxids.length k).length ≤ 12) →
      (∀ p ∈ vTxHashes ++ extra_txn, ∀ j,
        cmpctblock.shorttxids[j]? = some (cmpctblock.GetShortID hashes p.1) →
          block.vtx[j + 1]? = some p.2) →
      ∃ pdb, InitData hashes bucket vTxHashes cmpctblock extra_txn = .ok pdb ∧
        ∃ vtx_missing, SendBlockTransactions block (missingTxIndexes cmpctblock pdb) = some vtx_missing ∧
          ∀ GetHash Hash64 txHash prevHeight params,
            (FillBlock GetHash Hash64 txHash prevHeight params pdb vtx_missing).2 = some block ∧
            ((FillBlock GetHash Hash64 txHash prevHeight params pdb vtx_missing).1 = .READ_STATUS_OK ↔
              checkBlock GetHash Hash64 txHash prevHeight block params true true = .ok ()) := by
  refine ⟨fun _ _ _ _ _ => InitData_ne_outOfRange, ?_⟩
  intro hashes bucket vTxHashes extra_txn block fUseWTXID nonce cmpctblock h hlen hheader hcoinbase
    hnodup hbucket hpool
  obtain ⟨pdb, hinit, hhdr, hslots, hagree⟩ :=
    InitData_ofBlock h hlen hheader hcoinbase hnodup hbucket hpool
  have hcount : cmpctblock.BlockTxCount = block.vtx.length := by
    obtain ⟨coinbase, vtx, hvtx, -, hpre, hS⟩ := ofBlock_layout h
    simp [CBlockHeaderAndShortTxIDs.BlockTxCount, hpre, hS, hvtx]
  exact ⟨pdb, hinit, FillBlock_SendBlockTransactions hhdr hslots hcount hagree⟩

/-- A block of a coinbase and one transaction whose short id the mempool
matches. -/
theorem InitData_FillBlock_exact_mempoolTx :
    ∃ pdb, InitData ⟨fun _ => 0, fun _ _ h => UInt64.ofNat h, (·.nLockTime), (·.nLockTime)⟩
      (fun _ k => k.toNat) [(5, ⟨1, [⟨⟨7, 0⟩, [], 0xffffffff, []⟩], [⟨1, []⟩], 5⟩)]
      ⟨⟨1, 0, 0, 0, 1, 0⟩, 0, [5],
        [⟨0, ⟨1, [⟨⟨0, 0xFFFFFFFF⟩, [1, 2], 0xffffffff, []⟩], [⟨50, []⟩], 0⟩⟩]⟩ [] = .ok pdb :=
  (InitData_FillBlock_exact.2 _ _ _ _
    ⟨⟨1, 0, 0, 0, 1, 0⟩, [⟨1, [⟨⟨0, 0xFFFFFFFF⟩, [1, 2], 0xffffffff, []⟩], [⟨50, []⟩], 0⟩,
      ⟨1, [⟨⟨7, 0⟩, [], 0xffffffff, []⟩], [⟨1, []⟩], 5⟩]⟩ false 0 _
    (by decide) (by decide) (by decide) (by decide) (by decide)
    (fun k hk => by simp only [List.mem_singleton] at hk; subst hk; decide)
    (by
      intro p hp j hj
      simp only [List.append_nil, List.mem_singleton] at hp
      subst hp
      cases j with
      | zero => rfl
      | succ j => simp at hj)).imp fun _ h => h.1

/-- A block whose header has a zero `nBits`, with nothing in the pools: its
message is one `InitData` rejects as invalid. -/
theorem InitData_null_header :
    CBlockHeaderAndShortTxIDs.ofBlock ⟨fun _ => 0, fun _ _ h => UInt64.ofNat h, (·.nLockTime), (·.nLockTime)⟩
        ⟨⟨1, 0, 0, 0, 0, 0⟩, [⟨1, [⟨⟨0, 0xFFFFFFFF⟩, [1, 2], 0xffffffff, []⟩], [⟨50, []⟩], 0⟩]⟩ false 0 =
      some ⟨⟨1, 0, 0, 0, 0, 0⟩, 0, [], [⟨0, ⟨1, [⟨⟨0, 0xFFFFFFFF⟩, [1, 2], 0xffffffff, []⟩], [⟨50, []⟩], 0⟩⟩]⟩ ∧
    InitData ⟨fun _ => 0, fun _ _ h => UInt64.ofNat h, (·.nLockTime), (·.nLockTime)⟩ (fun _ k => k.toNat) []
        ⟨⟨1, 0, 0, 0, 0, 0⟩, 0, [], [⟨0, ⟨1, [⟨⟨0, 0xFFFFFFFF⟩, [1, 2], 0xffffffff, []⟩], [⟨50, []⟩], 0⟩⟩]⟩ [] =
      .error (.status .READ_STATUS_INVALID) :=
  ⟨by decide, rfl⟩

end OfBlock

end XPChain
