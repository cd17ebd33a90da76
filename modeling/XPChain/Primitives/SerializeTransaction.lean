import XPChain.Primitives.Serialize
import XPChain.Lib.Reader

/-!
# Transactions on the wire

`SerializeTransaction` and `UnserializeTransaction` of
`primitives/transaction.h`, with the readers of the records they are made of.
A stream whose version has `SERIALIZE_TRANSACTION_NO_WITNESS` set writes and
reads the basic format; any other stream writes the extended format, with a
dummy empty input vector, a flag byte and the witness stacks, whenever some
input has a witness, and reads either.

Readers return the value and the rest of the stream, and `none` where the
source throws.  Integer fields hold what their C++ types can hold
(`CTransaction.Serializable`); the reader of an `int32_t` or `int64_t` takes
the two's complement of what it reads.

## Main definitions

* `serializeTransaction`, `unserializeTransaction`.
* `CTransaction.Serializable` — the transactions the format carries.

## Main statements

* `unserializeTransaction_serialize` — a transaction with inputs reads back,
  with its witnesses exactly when the stream allows them.
* `unserializeTransaction_unknown_flags` — a flag byte with a bit other than
  the witness bit is rejected.
-/

set_option autoImplicit false

namespace XPChain

open LittleEndian Reader

/-! ## The values the format carries -/

/-- An input whose fields are within their C++ types (`uint256`, `uint32_t`)
and whose vectors have at most `MAX_SIZE` elements. -/
structure CTxIn.Serializable (txin : CTxIn) : Prop where
  hash_lt : txin.prevout.hash < 2 ^ 256
  n_lt : txin.prevout.n < 2 ^ 32
  nSequence_lt : txin.nSequence < 2 ^ 32
  scriptSig_length : txin.scriptSig.length ≤ MAX_SIZE
  witness_length : txin.scriptWitness.length ≤ MAX_SIZE
  witness_item_length : ∀ item ∈ txin.scriptWitness, item.length ≤ MAX_SIZE

/-- An output whose value is an `int64_t` and whose script has at most
`MAX_SIZE` bytes. -/
structure CTxOut.Serializable (txout : CTxOut) : Prop where
  nValue_ge : -2 ^ 63 ≤ txout.nValue
  nValue_lt : txout.nValue < 2 ^ 63
  scriptPubKey_length : txout.scriptPubKey.length ≤ MAX_SIZE

/-- A `CMutableTransaction` the format carries: `int32_t` version, `uint32_t`
lock time, and vectors of at most `MAX_SIZE` elements. -/
structure CTransaction.Serializable (tx : CTransaction) : Prop where
  nVersion_ge : -2 ^ 31 ≤ tx.nVersion
  nVersion_lt : tx.nVersion < 2 ^ 31
  nLockTime_lt : tx.nLockTime < 2 ^ 32
  vin_length : tx.vin.length ≤ MAX_SIZE
  vout_length : tx.vout.length ≤ MAX_SIZE
  vin : ∀ txin ∈ tx.vin, txin.Serializable
  vout : ∀ txout ∈ tx.vout, txout.Serializable

/-- `CTransaction::HasWitness`. -/
def CTransaction.HasWitness (tx : CTransaction) : Bool := tx.vin.any fun txin => !txin.scriptWitness.isEmpty

/-- The transaction with every `scriptWitness` emptied. -/
def CTransaction.clearWitness (tx : CTransaction) : CTransaction :=
  { tx with vin := tx.vin.map fun txin => { txin with scriptWitness := [] } }

theorem CTransaction.clearWitness_of_HasWitness {tx : CTransaction} (h : tx.HasWitness = false) :
    tx.clearWitness = tx := by
  obtain ⟨nVersion, vin, vout, nLockTime⟩ := tx
  simp only [CTransaction.HasWitness, List.any_eq_false, Bool.not_eq_eq_eq_not, Bool.not_true,
    List.isEmpty_eq_false_iff, ne_eq, not_not] at h
  simp only [CTransaction.clearWitness, CTransaction.mk.injEq, and_true, true_and]
  conv_rhs => rw [← List.map_id vin]
  apply List.map_congr_left
  intro txin htxin
  rw [← h txin htxin]
  rfl

/-! ## Reading records -/

/-- `s >> n` for an `int32_t`. -/
def readInt32 (s : List UInt8) : Option (ℤ × List UInt8) :=
  (readLE 4 s).map fun r => (if r.1 < 2 ^ 31 then (r.1 : ℤ) else r.1 - 2 ^ 32, r.2)

theorem readInt32_serializeInt32 {v : ℤ} (h₁ : -2 ^ 31 ≤ v) (h₂ : v < 2 ^ 31) (s : List UInt8) :
    readInt32 (serializeInt32 v ++ s) = some (v, s) := by
  have hlt : (v % 2 ^ 32).toNat < 256 ^ 4 := by omega
  rw [readInt32, serializeInt32, readLE_leBytes_append hlt, Option.map_some]
  congr 2
  split_ifs with h <;> omega

/-- `s >> n` for an `int64_t` such as a `CAmount`. -/
def readInt64 (s : List UInt8) : Option (ℤ × List UInt8) :=
  (readLE 8 s).map fun r => (if r.1 < 2 ^ 63 then (r.1 : ℤ) else r.1 - 2 ^ 64, r.2)

theorem readInt64_serializeAmount {v : ℤ} (h₁ : -2 ^ 63 ≤ v) (h₂ : v < 2 ^ 63) (s : List UInt8) :
    readInt64 (serializeAmount v ++ s) = some (v, s) := by
  have hlt : (v % 2 ^ 64).toNat < 256 ^ 8 := by omega
  rw [readInt64, serializeAmount, readLE_leBytes_append hlt, Option.map_some]
  congr 2
  split_ifs with h <;> omega

/-- A script is written as a string of bytes. -/
theorem readString_serializeScript {script : CScript} (h : script.length ≤ MAX_SIZE) (s : List UInt8) :
    readString (serializeScript script ++ s) = some (script, s) :=
  readString_serializeString h s

/-- `COutPoint::SerializationOp` when reading. -/
def COutPoint.read (s : List UInt8) : Option (COutPoint × List UInt8) := do
  let (hash, s) ← readLE 32 s
  let (n, s) ← readLE 4 s
  pure (⟨hash, n⟩, s)

theorem COutPoint.read_serialize {p : COutPoint} (hhash : p.hash < 2 ^ 256) (hn : p.n < 2 ^ 32)
    (s : List UInt8) : COutPoint.read (p.serialize ++ s) = some (p, s) := by
  simp only [COutPoint.read, COutPoint.serialize, serializeHash, serializeUInt32, List.append_assoc,
    readLE_leBytes_append (show p.hash < 256 ^ 32 by omega), readLE_leBytes_append (show p.n < 256 ^ 4 by omega),
    Option.bind_eq_bind, Option.bind_some, Option.pure_def]

/-- `CTxIn::SerializationOp` when reading: the witness is not part of it and
stays empty. -/
def CTxIn.read (s : List UInt8) : Option (CTxIn × List UInt8) := do
  let (prevout, s) ← COutPoint.read s
  let (scriptSig, s) ← readString s
  let (nSequence, s) ← readLE 4 s
  pure (⟨prevout, scriptSig, nSequence, []⟩, s)

/-- An input reads back without its witness, which it does not serialise. -/
theorem CTxIn.read_serialize {txin : CTxIn} (h : txin.Serializable) (s : List UInt8) :
    CTxIn.read (txin.serialize ++ s) = some ({ txin with scriptWitness := [] }, s) := by
  simp only [CTxIn.read, CTxIn.serialize, List.append_assoc, COutPoint.read_serialize h.hash_lt h.n_lt,
    readString_serializeScript h.scriptSig_length, serializeUInt32,
    readLE_leBytes_append (show txin.nSequence < 256 ^ 4 by have := h.nSequence_lt; omega),
    Option.bind_eq_bind, Option.bind_some, Option.pure_def]

/-- `CTxOut::SerializationOp` when reading. -/
def CTxOut.read (s : List UInt8) : Option (CTxOut × List UInt8) := do
  let (nValue, s) ← readInt64 s
  let (scriptPubKey, s) ← readString s
  pure (⟨nValue, scriptPubKey⟩, s)

theorem CTxOut.read_serialize {txout : CTxOut} (h : txout.Serializable) (s : List UInt8) :
    CTxOut.read (txout.serialize ++ s) = some (txout, s) := by
  simp only [CTxOut.read, CTxOut.serialize, List.append_assoc, readInt64_serializeAmount h.nValue_ge h.nValue_lt,
    readString_serializeScript h.scriptPubKey_length,
    Option.bind_eq_bind, Option.bind_some, Option.pure_def]

/-- `Serialize` of a `std::vector`: a compact-size count, then the elements. -/
def serializeVector {α : Type} (enc : α → List UInt8) (l : List α) : List UInt8 :=
  writeCompactSize l.length ++ l.flatMap enc

/-- `Unserialize` of a `std::vector`: a compact-size count, then that many
elements. -/
def readVector {α : Type} (read : List UInt8 → Option (α × List UInt8)) (s : List UInt8) :
    Option (List α × List UInt8) := do
  let (n, s) ← readCompactSize s
  readMany read n s

/-- The count of an empty vector. -/
theorem readVector_zero {α : Type} (read : List UInt8 → Option (α × List UInt8)) (s : List UInt8) :
    readVector read (0 :: s) = some ([], s) := rfl

/-- A vector of at most `MAX_SIZE` elements reads back when its elements do. -/
theorem readVector_serializeVector {α : Type} {read : List UInt8 → Option (α × List UInt8)}
    {enc : α → List UInt8} {P : α → Prop} (hrt : RoundTrip read enc P) {l : List α}
    (hlen : l.length ≤ MAX_SIZE) (hP : ∀ a ∈ l, P a) (s : List UInt8) :
    readVector read (serializeVector enc l ++ s) = some (l, s) := by
  rw [readVector, serializeVector, List.append_assoc, readCompactSize_writeCompactSize hlen]
  exact readMany_flatMap hrt l hP s

theorem readVector_serializeVector_vin {vin : List CTxIn} (hlen : vin.length ≤ MAX_SIZE)
    (h : ∀ txin ∈ vin, txin.Serializable) (s : List UInt8) :
    readVector CTxIn.read (serializeVector CTxIn.serialize vin ++ s) =
      some (vin.map fun txin => { txin with scriptWitness := [] }, s) := by
  have hrt : RoundTrip CTxIn.read CTxIn.serialize fun txin => txin.Serializable ∧ txin.scriptWitness = [] := by
    rintro ⟨prevout, scriptSig, nSequence, witness⟩ ⟨htxin, hw⟩ s
    dsimp only at hw
    subst hw
    exact CTxIn.read_serialize htxin s
  have hser : serializeVector CTxIn.serialize vin =
      serializeVector CTxIn.serialize (vin.map fun txin => { txin with scriptWitness := [] }) := by
    simp only [serializeVector, List.length_map, List.flatMap_map]
    rfl
  have hclear : ∀ t ∈ vin.map (fun txin => { txin with scriptWitness := [] }),
      t.Serializable ∧ t.scriptWitness = [] := by
    intro t ht
    obtain ⟨txin, htxin, rfl⟩ := List.mem_map.mp ht
    have hs := h txin htxin
    exact ⟨⟨hs.hash_lt, hs.n_lt, hs.nSequence_lt, hs.scriptSig_length, by simp, by simp⟩, rfl⟩
  rw [hser]
  exact readVector_serializeVector hrt (by simpa using hlen) hclear s

theorem readVector_serializeVector_vout {vout : List CTxOut} (hlen : vout.length ≤ MAX_SIZE)
    (h : ∀ txout ∈ vout, txout.Serializable) (s : List UInt8) :
    readVector CTxOut.read (serializeVector CTxOut.serialize vout ++ s) = some (vout, s) :=
  readVector_serializeVector (fun _ htxout s => CTxOut.read_serialize htxout s) hlen h s

/-- `Serialize` of a witness stack, a vector of byte vectors. -/
def serializeWitness (stack : CScriptWitness) : List UInt8 := serializeVector serializeString stack

/-- `s >> tx.vin[i].scriptWitness.stack` for every input in turn. -/
def readWitnesses : List CTxIn → List UInt8 → Option (List CTxIn × List UInt8)
  | [], s => some ([], s)
  | txin :: vin, s => do
    let (stack, s) ← readVector readString s
    let (vin, s) ← readWitnesses vin s
    pure ({ txin with scriptWitness := stack } :: vin, s)

theorem readWitnesses_serialize {vin : List CTxIn} (h : ∀ txin ∈ vin, txin.Serializable) (s : List UInt8) :
    readWitnesses (vin.map fun txin => { txin with scriptWitness := [] })
      (vin.flatMap (fun txin => serializeWitness txin.scriptWitness) ++ s) = some (vin, s) := by
  induction vin with
  | nil => rfl
  | cons txin vin ih =>
    have htxin := h txin List.mem_cons_self
    have hstring : RoundTrip readString serializeString fun item => item.length ≤ MAX_SIZE :=
      fun item hitem s => readString_serializeString hitem s
    rw [List.map_cons, List.flatMap_cons, List.append_assoc, readWitnesses, serializeWitness,
      readVector_serializeVector hstring htxin.witness_length htxin.witness_item_length]
    simp only [Option.bind_eq_bind, Option.bind_some]
    rw [ih (fun t ht => h t (List.mem_cons_of_mem _ ht))]
    rfl

/-! ## Transactions -/

/-- `SERIALIZE_TRANSACTION_NO_WITNESS`. -/
def SERIALIZE_TRANSACTION_NO_WITNESS : ℕ := 0x40000000

/-- `fAllowWitness` of a stream of version `nVersion`. -/
def fAllowWitness (nVersion : ℕ) : Bool := nVersion &&& SERIALIZE_TRANSACTION_NO_WITNESS == 0

/-- `SerializeTransaction` into a stream of version `nVersion`. -/
def serializeTransaction (nVersion : ℕ) (tx : CTransaction) : List UInt8 :=
  let flags : UInt8 := if fAllowWitness nVersion && tx.HasWitness then 1 else 0
  serializeInt32 tx.nVersion ++
    (if flags ≠ 0 then serializeVector CTxIn.serialize [] ++ [flags] else []) ++
    serializeVector CTxIn.serialize tx.vin ++ serializeVector CTxOut.serialize tx.vout ++
    (if flags &&& 1 ≠ 0 then tx.vin.flatMap fun txin => serializeWitness txin.scriptWitness else []) ++
    serializeUInt32 tx.nLockTime

/-- The inputs, outputs and flags `UnserializeTransaction` reads after the
version: a non-empty input vector is followed by the outputs; an empty one,
where witnesses are allowed, is the dummy of the extended format when the
flag byte after it is not zero. -/
def readTxBody (fAllowWitness : Bool) (s : List UInt8) :
    Option (UInt8 × List CTxIn × List CTxOut × List UInt8) := do
  let (vin, s) ← readVector CTxIn.read s
  if vin.isEmpty && fAllowWitness then
    let (flags, s) ← readUInt8 s
    if flags ≠ 0 then
      let (vin, s) ← readVector CTxIn.read s
      let (vout, s) ← readVector CTxOut.read s
      pure (flags, vin, vout, s)
    else pure (flags, vin, [], s)
  else
    let (vout, s) ← readVector CTxOut.read s
    pure (0, vin, vout, s)

/-- The extended format: the dummy, a flag byte of 1, the inputs and outputs. -/
theorem readTxBody_extended {tx : CTransaction} (htx : tx.Serializable) (s : List UInt8) :
    readTxBody true (serializeVector CTxIn.serialize [] ++ ([1] ++ (serializeVector CTxIn.serialize tx.vin ++
      (serializeVector CTxOut.serialize tx.vout ++ s)))) =
      some (1, tx.vin.map fun txin => { txin with scriptWitness := [] }, tx.vout, s) := by
  have hdummy : serializeVector CTxIn.serialize [] = [0] := rfl
  simp only [hdummy, readTxBody, List.cons_append, List.nil_append, readVector_zero,
    Option.bind_eq_bind, Option.bind_some, List.isEmpty_nil, Bool.and_true, if_true, readUInt8,
    if_pos (show (1 : UInt8) ≠ 0 by decide), readVector_serializeVector_vin htx.vin_length htx.vin,
    readVector_serializeVector_vout htx.vout_length htx.vout, Option.pure_def]

/-- The basic format with inputs: the inputs, then the outputs. -/
theorem readTxBody_basic (fAllowWitness : Bool) {tx : CTransaction} (htx : tx.Serializable) (hvin : tx.vin ≠ [])
    (s : List UInt8) :
    readTxBody fAllowWitness (serializeVector CTxIn.serialize tx.vin ++ (serializeVector CTxOut.serialize tx.vout ++ s)) =
      some (0, tx.vin.map fun txin => { txin with scriptWitness := [] }, tx.vout, s) := by
  have hne : (tx.vin.map fun txin => { txin with scriptWitness := [] }).isEmpty = false := by simpa using hvin
  simp only [readTxBody, readVector_serializeVector_vin htx.vin_length htx.vin,
    Option.bind_eq_bind, Option.bind_some, hne, Bool.false_and, Bool.false_eq_true, if_false,
    readVector_serializeVector_vout htx.vout_length htx.vout, Option.pure_def]

/-- After the dummy, the body reader keeps the flag byte it read. -/
theorem readTxBody_flags {flags : UInt8} (hflags : flags ≠ 0) {rest : List UInt8} {f : UInt8}
    {vin : List CTxIn} {vout : List CTxOut} {s : List UInt8}
    (h : readTxBody true (0 :: flags :: rest) = some (f, vin, vout, s)) : f = flags := by
  simp only [readTxBody, readVector_zero, Option.bind_eq_bind, Option.bind_some, List.isEmpty_nil,
    Bool.and_true, if_true, readUInt8, if_pos hflags] at h
  obtain ⟨⟨vin', s'⟩, -, h⟩ := Option.bind_eq_some_iff.mp h
  obtain ⟨⟨vout', s''⟩, -, h⟩ := Option.bind_eq_some_iff.mp h
  cases h
  rfl

/-- `UnserializeTransaction` from a stream of version `nVersion`; `none` where
it throws, also on `Unknown transaction optional data`. -/
def unserializeTransaction (nVersion : ℕ) (s : List UInt8) : Option (CTransaction × List UInt8) := do
  let (ver, s) ← readInt32 s
  let (flags, vin, vout, s) ← readTxBody (fAllowWitness nVersion) s
  let (flags, vin, s) ←
    if flags &&& 1 ≠ 0 && fAllowWitness nVersion then
      let (vin, s) ← readWitnesses vin s
      pure (flags ^^^ 1, vin, s)
    else pure (flags, vin, s)
  if flags ≠ 0 then none
  else
    let (nLockTime, s) ← readLE 4 s
    pure (⟨ver, vin, vout, nLockTime⟩, s)

/-- A transaction with inputs reads back from a stream of the same version:
whole where witnesses are allowed, with its witnesses cleared where not. -/
theorem unserializeTransaction_serialize (nVersion : ℕ) {tx : CTransaction} (htx : tx.Serializable)
    (hvin : tx.vin ≠ []) (s : List UInt8) :
    unserializeTransaction nVersion (serializeTransaction nVersion tx ++ s) =
      some (if fAllowWitness nVersion then tx else tx.clearWitness, s) := by
  by_cases hflags : (fAllowWitness nVersion && tx.HasWitness) = true
  · obtain ⟨hallow, hwit⟩ := Bool.and_eq_true_iff.mp hflags
    simp only [serializeTransaction, hflags, if_true, if_pos (show (1 : UInt8) ≠ 0 by decide),
      if_pos (show (1 : UInt8) &&& 1 ≠ 0 by decide), List.append_assoc]
    rw [unserializeTransaction, readInt32_serializeInt32 htx.nVersion_ge htx.nVersion_lt]
    have hlock : tx.nLockTime < 256 ^ 4 := by have := htx.nLockTime_lt; omega
    simp only [Option.bind_eq_bind, Option.bind_some, hallow, readTxBody_extended htx,
      if_pos (show (decide ((1 : UInt8) &&& 1 ≠ 0) && true) = true by decide), readWitnesses_serialize htx.vin,
      Option.pure_def, show (1 : UInt8) ^^^ 1 = 0 by decide, ne_eq, not_true_eq_false, if_false, serializeUInt32,
      readLE_leBytes_append hlock, if_true]
  · have hflags' : (fAllowWitness nVersion && tx.HasWitness) = false := by simpa using hflags
    have hlock : tx.nLockTime < 256 ^ 4 := by have := htx.nLockTime_lt; omega
    simp only [serializeTransaction, hflags', Bool.false_eq_true, if_false, ne_eq, not_true_eq_false,
      show (0 : UInt8) &&& 1 = 0 by decide, List.append_nil, List.append_assoc]
    rw [unserializeTransaction, readInt32_serializeInt32 htx.nVersion_ge htx.nVersion_lt]
    simp only [Option.bind_eq_bind, Option.bind_some, readTxBody_basic _ htx hvin,
      show (0 : UInt8) &&& 1 = 0 by decide, ne_eq, not_true_eq_false, decide_false, Bool.false_and,
      Bool.false_eq_true, if_false, Option.pure_def, serializeUInt32, readLE_leBytes_append hlock]
    split_ifs with hallow
    · rw [hallow, Bool.true_and] at hflags'
      conv_rhs => rw [← CTransaction.clearWitness_of_HasWitness hflags']
      rfl
    · rfl

/-- A flag byte with a bit besides the witness bit keeps one after the
witness bit is cleared. -/
theorem xor_one_ne_zero {flags : UInt8} (h : flags &&& 0xfe ≠ 0) : flags ^^^ 1 ≠ 0 := by
  intro h1
  apply h
  have hone : flags = 1 := by
    have := congrArg (· ^^^ (1 : UInt8)) h1
    simpa [UInt8.xor_assoc] using this
  subst hone
  decide

/-- The extended format's flag byte may only set the witness bit: with any
other bit `UnserializeTransaction` throws, whatever follows. -/
theorem unserializeTransaction_unknown_flags {nVersion : ℕ} (hallow : fAllowWitness nVersion = true)
    {hdr : List UInt8} (hhdr : hdr.length = 4) {flags : UInt8} (hflags : flags &&& 0xfe ≠ 0)
    (rest : List UInt8) : unserializeTransaction nVersion (hdr ++ 0x00 :: flags :: rest) = none := by
  have hne : flags ≠ 0 := by
    rintro rfl
    exact hflags (by decide)
  obtain ⟨ver, hver⟩ : ∃ ver, readInt32 (hdr ++ 0x00 :: flags :: rest) = some (ver, 0x00 :: flags :: rest) :=
    ⟨_, by rw [readInt32, readLE_append hhdr]; rfl⟩
  simp only [unserializeTransaction, hver, Option.bind_eq_bind, Option.bind_some, hallow, Bool.and_true]
  cases hbody : readTxBody true (0 :: flags :: rest) with
  | none => rfl
  | some body =>
    obtain ⟨f, vin, vout, s⟩ := body
    cases readTxBody_flags hne hbody
    simp only [Option.bind_some]
    split_ifs with hwit
    · cases readWitnesses vin s with
      | none => rfl
      | some r =>
        simp only [Option.bind_some, Option.pure_def, ne_eq, xor_one_ne_zero hflags, not_false_eq_true, if_true]
    · simp only [Option.pure_def, Option.bind_some, ne_eq, hne, not_false_eq_true, if_true]

theorem serializeTransaction_roundTrip :
    (∀ (nVersion : ℕ) (tx : CTransaction) (s : List UInt8), tx.Serializable → tx.vin ≠ [] →
      unserializeTransaction nVersion (serializeTransaction nVersion tx ++ s) =
        some (if fAllowWitness nVersion then tx else tx.clearWitness, s)) ∧
    ∀ (nVersion : ℕ) (hdr : List UInt8) (flags : UInt8) (rest : List UInt8), fAllowWitness nVersion = true →
      hdr.length = 4 → flags &&& 0xfe ≠ 0 → unserializeTransaction nVersion (hdr ++ 0x00 :: flags :: rest) = none :=
  ⟨fun nVersion _ s htx hvin => unserializeTransaction_serialize nVersion htx hvin s,
    fun _ _ _ rest hallow hhdr hflags => unserializeTransaction_unknown_flags hallow hhdr hflags rest⟩

/-- A version 2 transaction spending one coin with a two-byte witness item. -/
def witnessTx : CTransaction := ⟨2, [⟨⟨0, 0⟩, [], 0xffffffff, [[1, 2]]⟩], [⟨5000, [0x51]⟩], 0⟩

theorem witnessTx_serializable : witnessTx.Serializable where
  nVersion_ge := by decide
  nVersion_lt := by decide
  nLockTime_lt := by decide
  vin_length := by decide
  vout_length := by decide
  vin := by
    intro txin htxin
    rw [witnessTx, List.mem_singleton] at htxin
    subst htxin
    exact ⟨by decide, by decide, by decide, by decide, by decide, by decide⟩
  vout := by
    intro txout htxout
    rw [witnessTx, List.mem_singleton] at htxout
    subst htxout
    exact ⟨by decide, by decide, by decide⟩

theorem serializeTransaction_roundTrip_witnessTx :
    unserializeTransaction 0 (serializeTransaction 0 witnessTx ++ []) = some (witnessTx, []) ∧
      unserializeTransaction 0 ([2, 0, 0, 0] ++ 0x00 :: 0x03 :: []) = none :=
  ⟨serializeTransaction_roundTrip.1 0 witnessTx [] witnessTx_serializable (by decide),
    serializeTransaction_roundTrip.2 0 [2, 0, 0, 0] 0x03 [] (by decide) rfl (by decide)⟩

end XPChain
