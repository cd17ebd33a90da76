import XPChain.Primitives.Transaction

/-!
# Serialisation

The byte layouts of `serialize.h` that hashes are taken over: fixed-width
little-endian integers, the compact-size length prefix, and the records of a
transaction input.  `ReadCompactSize` is modelled with its canonical-form and
`MAX_SIZE` checks, since every length a node deserialises passes through it.

## Main definitions

* `MAX_SIZE`, `getSizeOfCompactSize`, `writeCompactSize`, `readCompactSize`.
* `serializeScript`, `serializeAmount`, `COutPoint.serialize`, `CTxIn.serialize`.
* `CTxOut.serialize`, `CTransaction.serialize`, `CBlockHeader.serialize`,
  `CBlock.serialize` — the layouts without witnesses that size limits count.
* `serializeString`, `readString`, `readUInt8`.

## Main statements

* `readCompactSize_writeCompactSize` — lengths up to `MAX_SIZE` read back.
* `readCompactSize_sound` — what the reader accepts is at most `MAX_SIZE` and
  is the canonical encoding of the value it returns.
* `readString_serializeString` — strings up to `MAX_SIZE` bytes read back.
-/

set_option autoImplicit false

namespace XPChain

open LittleEndian

/-- `MAX_SIZE`: the largest length `ReadCompactSize` accepts. -/
def MAX_SIZE : ℕ := 0x02000000

/-! ## Compact sizes -/

/-- `GetSizeOfCompactSize`. -/
def getSizeOfCompactSize (nSize : ℕ) : ℕ :=
  if nSize < 253 then 1
  else if nSize ≤ 0xffff then 3
  else if nSize ≤ 0xffffffff then 5
  else 9

/-- `WriteCompactSize` of a `uint64_t`. -/
def writeCompactSize (nSize : ℕ) : List UInt8 :=
  if nSize < 253 then [UInt8.ofNat nSize]
  else if nSize ≤ 0xffff then 253 :: leBytes 2 nSize
  else if nSize ≤ 0xffffffff then 254 :: leBytes 4 nSize
  else 255 :: leBytes 8 nSize

/-- `ser_readdata16/32/64`: a `w`-byte little-endian field, or `none` at the
end of the stream. -/
def readLE (w : ℕ) (s : List UInt8) : Option (ℕ × List UInt8) :=
  if s.length < w then none else some (leValue (s.take w), s.drop w)

/-- The value `ReadCompactSize` reads after its first byte, `none` where it
throws on the end of the stream or a non-canonical encoding. -/
def readCompactSizeValue (chSize : UInt8) (s : List UInt8) : Option (ℕ × List UInt8) :=
  if chSize < 253 then some (chSize.toNat, s)
  else if chSize = 253 then (readLE 2 s).filter fun r => 253 ≤ r.1
  else if chSize = 254 then (readLE 4 s).filter fun r => 0x10000 ≤ r.1
  else (readLE 8 s).filter fun r => 0x100000000 ≤ r.1

/-- `ReadCompactSize`: `none` where it throws, also on a size above `MAX_SIZE`. -/
def readCompactSize : List UInt8 → Option (ℕ × List UInt8)
  | [] => none
  | chSize :: s => (readCompactSizeValue chSize s).bind fun r =>
    if MAX_SIZE < r.1 then none else some r

theorem length_writeCompactSize (nSize : ℕ) :
    (writeCompactSize nSize).length = getSizeOfCompactSize nSize := by
  unfold writeCompactSize getSizeOfCompactSize
  split_ifs <;> simp

theorem readLE_leBytes_append {w n : ℕ} (h : n < 256 ^ w) (s : List UInt8) :
    readLE w (leBytes w n ++ s) = some (n, s) := by
  have hw : (leBytes w n).length = w := length_leBytes w n
  simp [readLE, List.take_left' hw, List.drop_left' hw, leValue_leBytes_of_lt h]

theorem readLE_append {w : ℕ} {l : List UInt8} (hl : l.length = w) (s : List UInt8) :
    readLE w (l ++ s) = some (leValue l, s) := by
  rw [readLE, if_neg (by simp; omega), List.take_left' hl, List.drop_left' hl]

theorem readLE_sound {w n : ℕ} {bs s : List UInt8} (h : readLE w bs = some (n, s)) :
    n < 256 ^ w ∧ bs = leBytes w n ++ s := by
  unfold readLE at h
  split_ifs at h with hlen
  obtain ⟨rfl, rfl⟩ := Prod.mk.inj (Option.some.inj h)
  have htake : (bs.take w).length = w := by simp; omega
  have hlt := leValue_lt (bs.take w)
  rw [htake] at hlt
  have henc := leBytes_leValue (bs.take w)
  rw [htake] at henc
  exact ⟨hlt, by rw [henc, List.take_append_drop]⟩

theorem readCompactSizeValue_writeCompactSize {n : ℕ} (h : n < 2 ^ 32) (s : List UInt8) :
    readCompactSizeValue ((writeCompactSize n).headD 0) ((writeCompactSize n).tail ++ s) =
      some (n, s) := by
  unfold writeCompactSize
  by_cases h1 : n < 253
  · have hn : (UInt8.ofNat n).toNat = n := by rw [UInt8.toNat_ofNat']; omega
    have hlt : UInt8.ofNat n < 253 := by simp only [UInt8.lt_iff_toNat_lt, hn]; exact h1
    simp [readCompactSizeValue, h1, hlt, hn]
  · by_cases h2 : n ≤ 0xffff
    · rw [if_neg h1, if_pos h2]
      simp [readCompactSizeValue, readLE_leBytes_append (show n < 256 ^ 2 by omega) s]
      omega
    · rw [if_neg h1, if_neg h2, if_pos (by omega)]
      simp [readCompactSizeValue, readLE_leBytes_append (show n < 256 ^ 4 by omega) s]
      omega

/-- Every length up to `MAX_SIZE` reads back from its encoding. -/
theorem readCompactSize_writeCompactSize {n : ℕ} (h : n ≤ MAX_SIZE) (s : List UInt8) :
    readCompactSize (writeCompactSize n ++ s) = some (n, s) := by
  have hw : writeCompactSize n ++ s =
      (writeCompactSize n).headD 0 :: ((writeCompactSize n).tail ++ s) := by
    unfold writeCompactSize
    split_ifs <;> rfl
  have hmax : ¬ MAX_SIZE < n := Nat.not_lt.mpr h
  simp only [MAX_SIZE] at h
  rw [hw, readCompactSize, readCompactSizeValue_writeCompactSize (by omega)]
  simp only [Option.bind_some, if_neg hmax]

theorem readCompactSizeValue_sound {chSize : UInt8} {rest s : List UInt8} {n : ℕ}
    (h : readCompactSizeValue chSize rest = some (n, s)) (hn : n < 2 ^ 32) :
    chSize :: rest = writeCompactSize n ++ s := by
  unfold readCompactSizeValue at h
  split_ifs at h with h1 h2 h3
  · obtain ⟨rfl, rfl⟩ := Prod.mk.inj (Option.some.inj h)
    have hlt : chSize.toNat < 253 := UInt8.lt_iff_toNat_lt.mp h1
    simp [writeCompactSize, hlt]
  all_goals
    obtain ⟨hsome, hle⟩ := Option.filter_eq_some_iff.mp h
    obtain ⟨hlt, rfl⟩ := readLE_sound hsome
    simp only [decide_eq_true_eq] at hle
  · subst h2
    simp [writeCompactSize, show ¬ n < 253 by omega, show n ≤ 0xffff by omega]
  · subst h3
    simp [writeCompactSize, show ¬ n < 253 by omega, show ¬ n ≤ 0xffff by omega,
      show n ≤ 0xffffffff by omega]
  · omega

/-- The reader accepts only canonical encodings of sizes up to `MAX_SIZE`. -/
theorem readCompactSize_sound {bs s : List UInt8} {n : ℕ}
    (h : readCompactSize bs = some (n, s)) : n ≤ MAX_SIZE ∧ bs = writeCompactSize n ++ s := by
  cases bs with
  | nil => simp [readCompactSize] at h
  | cons chSize rest =>
    obtain ⟨⟨m, s'⟩, hread, hmax⟩ := Option.bind_eq_some_iff.mp h
    split_ifs at hmax with hbig
    obtain ⟨rfl, rfl⟩ := Prod.mk.inj (Option.some.inj hmax)
    simp only [MAX_SIZE] at hbig
    exact ⟨by simp only [MAX_SIZE]; omega, readCompactSizeValue_sound hread (by omega)⟩

/-! ## Records -/

/-- `Serialize` of a `uint32_t`. -/
def serializeUInt32 (n : ℕ) : List UInt8 := leBytes 4 n

/-- `Serialize` of a `uint64_t`. -/
def serializeUInt64 (n : ℕ) : List UInt8 := leBytes 8 n

/-- `Serialize` of an `int64_t` such as a `CAmount`: two's complement. -/
def serializeAmount (v : CAmount) : List UInt8 := leBytes 8 (v % 2 ^ 64).toNat

/-- `Serialize` of a `uint256`: its 32 bytes, least significant first. -/
def serializeHash (h : uint256) : List UInt8 := leBytes 32 h

/-- `Serialize` of a `CScript`: a compact-size length, then the bytes. -/
def serializeScript (s : CScript) : List UInt8 := writeCompactSize s.length ++ s

/-- `COutPoint::SerializationOp`. -/
def COutPoint.serialize (p : COutPoint) : List UInt8 := serializeHash p.hash ++ serializeUInt32 p.n

/-- `CTxIn::SerializationOp`: the witness is not part of it. -/
def CTxIn.serialize (txin : CTxIn) : List UInt8 :=
  txin.prevout.serialize ++ serializeScript txin.scriptSig ++ serializeUInt32 txin.nSequence

/-- `Serialize` of an `int32_t` such as `nVersion`: two's complement. -/
def serializeInt32 (v : ℤ) : List UInt8 := leBytes 4 (v % 2 ^ 32).toNat

/-- `CTxOut::SerializationOp`. -/
def CTxOut.serialize (txout : CTxOut) : List UInt8 :=
  serializeAmount txout.nValue ++ serializeScript txout.scriptPubKey

/-- `SerializeTransaction` under `SERIALIZE_TRANSACTION_NO_WITNESS`: the
version, the inputs and the outputs each after a compact-size count, and the
lock time. -/
def CTransaction.serialize (tx : CTransaction) : List UInt8 :=
  serializeInt32 tx.nVersion ++ writeCompactSize tx.vin.length ++ tx.vin.flatMap CTxIn.serialize ++
    writeCompactSize tx.vout.length ++ tx.vout.flatMap CTxOut.serialize ++
    serializeUInt32 tx.nLockTime

/-- `CBlockHeader::SerializationOp`. -/
def CBlockHeader.serialize (header : CBlockHeader) : List UInt8 :=
  serializeInt32 header.nVersion ++ serializeHash header.hashPrevBlock ++
    serializeHash header.hashMerkleRoot ++ serializeUInt32 header.nTime ++
    serializeUInt32 header.nBits ++ serializeUInt32 header.nNonce

/-- `CBlock::SerializationOp` without witnesses: the header, then the
transactions after a compact-size count. -/
def CBlock.serialize (block : CBlock) : List UInt8 :=
  block.toCBlockHeader.serialize ++ writeCompactSize block.vtx.length ++
    block.vtx.flatMap CTransaction.serialize

/-- `sizeof(CBlockHeader)`: a header serialises to 80 bytes. -/
theorem length_CBlockHeader_serialize (header : CBlockHeader) : header.serialize.length = 80 := by
  simp [CBlockHeader.serialize, serializeInt32, serializeHash, serializeUInt32, length_leBytes]

/-- `Serialize` of a `std::string`: a compact-size length, then the bytes. -/
def serializeString (str : List UInt8) : List UInt8 := writeCompactSize str.length ++ str

/-- `ser_readdata8`: one byte, or `none` at the end of the stream. -/
def readUInt8 : List UInt8 → Option (UInt8 × List UInt8)
  | [] => none
  | b :: s => some (b, s)

/-- `Unserialize` of a `std::string`: a compact-size length, then that many
bytes; `none` where it throws. -/
def readString (s : List UInt8) : Option (List UInt8 × List UInt8) := do
  let (nSize, s) ← readCompactSize s
  if s.length < nSize then none else pure (s.take nSize, s.drop nSize)

theorem readString_serializeString {str : List UInt8} (h : str.length ≤ MAX_SIZE)
    (s : List UInt8) : readString (serializeString str ++ s) = some (str, s) := by
  have hlen : ¬ (str ++ s).length < str.length := by simp
  simp only [readString, serializeString, List.append_assoc, readCompactSize_writeCompactSize h,
    Option.bind_eq_bind, Option.bind_some, if_neg hlen, List.take_left, List.drop_left,
    Option.pure_def]

end XPChain
