import XPChain.Lib.BigEndian
import XPChain.Script.Interpreter
import XPChain.Primitives.Transaction
import Mathlib.Data.Nat.Bitwise

/-!
# Parsing signatures

`ecdsa_signature_parse_der_lax` of `pubkey.cpp`: the DER parser that
`CPubKey::Verify` and `CPubKey::CheckLowS` hand their signatures to.  It
walks the bytes with a cursor, accepts long-form lengths, skips zero padding
in lengths and in the integers, ignores trailing bytes, and copies `R` and
`S` right-aligned into a 64-byte buffer that
`secp256k1_ecdsa_signature_parse_compact` reads.  That one accepts the two
32-byte halves when both are below the group order; a value that does not
fit, or is not below the order, leaves the all-zero signature.

The interpreter has checked the signature as strict DER before
(`isValidSignatureEncoding`).  On such a signature the lax parser reads
exactly the `R` and `S` fields (`ecdsaSignatureParseDerLax_strict`).

## Main definitions

* `ecdsaSignatureParseCompact`, `ecdsaSignatureParseDerLax`.
* `CheckLowS`, `Verify`.

## Main statements

* `ecdsaSignatureParseDerLax_of_short` — on a signature with one-byte
  lengths, the parser reads the two integers there.
* `ecdsaSignatureParseDerLax_strict` — on a strict DER signature without its
  hash type byte it reads `R` and `S`, and so do `Verify` and `CheckLowS`.
-/

set_option autoImplicit false

namespace XPChain

open BigEndian

/-! ## `libsecp256k1` -/

/-- The order of the secp256k1 group (`SECP256K1_N`). -/
def SECP256K1_N : ℕ := 0xFFFFFFFFFFFFFFFFFFFFFFFFFFFFFFFEBAAEDCE6AF48A03BBFD25E8CD0364141

/-- Half the order, rounded down (`SECP256K1_N_H`). -/
def SECP256K1_N_H : ℕ := 0x7FFFFFFFFFFFFFFFFFFFFFFFFFFFFFFF5D576E7357A4501DDFE92F46681B20A0

/-- `secp256k1_ecdsa_signature_parse_compact(ctx, sig, input64)`: `r` and `s`
read big-endian from the two halves, accepted when both are below the group
order; `none` is the zero signature it leaves otherwise. -/
def ecdsaSignatureParseCompact (input64 : List UInt8) : Option (ℕ × ℕ) :=
  let r := beValue (input64.take 32)
  let s := beValue (input64.drop 32)
  if r < SECP256K1_N ∧ s < SECP256K1_N then some (r, s) else none

/-- `secp256k1_ecdsa_signature_normalize`: `s` above half the order is
negated. -/
def ecdsaSignatureNormalize (sig : ℕ × ℕ) : ℕ × ℕ :=
  (sig.1, if SECP256K1_N_H < sig.2 then SECP256K1_N - sig.2 else sig.2)

/-! ## The lax DER parser -/

/-- `input[pos]`. -/
def byteAt (input : List UInt8) (pos : ℕ) : ℕ := (input.getD pos 0).toNat

/-- The `len` bytes from `pos`. -/
def slice (input : List UInt8) (pos len : ℕ) : List UInt8 := (input.drop pos).take len

/-- `while (len > 0 && input[pos] == 0) { pos++; len--; }`: the length and
position after leading zero bytes. -/
def skipZeros (input : List UInt8) : ℕ → ℕ → ℕ × ℕ
  | 0, pos => (0, pos)
  | len + 1, pos => if byteAt input pos = 0 then skipZeros input len (pos + 1) else (len + 1, pos)

/-- `while (lenbyte > 0) { rlen = (rlen << 8) + input[pos]; pos++; lenbyte--; }`. -/
def readLength (input : List UInt8) : ℕ → ℕ → ℕ → ℕ
  | 0, _, rlen => rlen
  | lenbyte + 1, pos, rlen => readLength input lenbyte (pos + 1) ((rlen <<< 8) + byteAt input pos)

/-- The length of an integer, from its length byte at `pos`, and the position
after it: the byte itself, or a long form of at most three bytes after zero
padding.  `none` is a `return 0`. -/
def parseIntegerLength (input : List UInt8) (pos : ℕ) : Option (ℕ × ℕ) :=
  if pos = input.length then none
  else
    let lenbyte := byteAt input pos
    let pos := pos + 1
    if lenbyte &&& 0x80 ≠ 0 then
      let lenbyte := lenbyte - 0x80
      if input.length - pos < lenbyte then none
      else
        let (lenbyte, pos) := skipZeros input lenbyte pos
        if 4 ≤ lenbyte then none
        else some (readLength input lenbyte pos 0, pos + lenbyte)
    else some (lenbyte, pos)

/-- The sequence tag byte and the sequence length bytes, skipped: the
position after them. -/
def parseSequence (input : List UInt8) : Option ℕ :=
  if input.length = 0 ∨ byteAt input 0 ≠ 0x30 then none
  else if input.length = 1 then none
  else
    let lenbyte := byteAt input 1
    if lenbyte &&& 0x80 ≠ 0 then
      if input.length - 2 < lenbyte - 0x80 then none else some (2 + (lenbyte - 0x80))
    else some 2

/-- An integer from its tag byte at `pos`: the position and length of its
value, which must lie in the input.  The code is the same for `R` and `S`. -/
def parseInteger (input : List UInt8) (pos : ℕ) : Option (ℕ × ℕ) :=
  if pos = input.length ∨ byteAt input pos ≠ 0x02 then none
  else
    match parseIntegerLength input (pos + 1) with
    | none => none
    | some (len, pos) => if input.length - pos < len then none else some (pos, len)

/-- The 32 bytes of the buffer a value is copied into, right-aligned
(`memcpy(tmpsig + 32 - rlen, input + rpos, rlen)` into zeroed bytes). -/
def copyValue (bytes : List UInt8) : List UInt8 := List.replicate (32 - bytes.length) 0 ++ bytes

/-- `ecdsa_signature_parse_der_lax(ctx, sig, input, inputlen)`: the signature
it leaves in `sig` when it returns 1, `none` when it returns 0. -/
def ecdsaSignatureParseDerLax (input : List UInt8) : Option (ℕ × ℕ) := do
  let pos ← parseSequence input
  let (rpos, rlen) ← parseInteger input pos
  let (spos, slen) ← parseInteger input (rpos + rlen)
  -- leading zeroes of R and S are ignored; a value over 32 bytes overflows
  let (rlen, rpos) := skipZeros input rlen rpos
  let (slen, spos) := skipZeros input slen spos
  if 32 < rlen ∨ 32 < slen then pure (0, 0)
  else
    pure ((ecdsaSignatureParseCompact
      (copyValue (slice input rpos rlen) ++ copyValue (slice input spos slen))).getD (0, 0))

-- the lax parser takes a long-form length and trailing bytes that strict DER refuses
example : ecdsaSignatureParseDerLax [0x30, 0x81, 6, 2, 1, 1, 2, 1, 2, 0xff] = some (1, 2) := by
  decide

/-- `CPubKey::CheckLowS(vchSig)`: the signature parses and its `s` is not
above half the order. -/
def CheckLowS (vchSig : List UInt8) : Bool :=
  match ecdsaSignatureParseDerLax vchSig with
  | none => false
  | some sig => !(SECP256K1_N_H < sig.2)

/-- `CPubKey::Verify(hash, vchSig)`, over the key `secp256k1_ec_pubkey_parse`
reads (`none` also for a key that is not `IsValid`) and the verification of
`secp256k1_ecdsa_verify` on the normalised signature. -/
def Verify {PK : Type} (ecPubkeyParse : valtype → Option PK)
    (ecdsaVerify : ℕ × ℕ → uint256 → PK → Bool) (vch : valtype) (hash : uint256)
    (vchSig : List UInt8) : Bool :=
  match ecPubkeyParse vch with
  | none => false
  | some pubkey =>
    match ecdsaSignatureParseDerLax vchSig with
    | none => false
    | some sig => ecdsaVerify (ecdsaSignatureNormalize sig) hash pubkey

/-! ## Reading the integers -/

theorem length_slice {input : List UInt8} {pos len : ℕ} (h : pos + len ≤ input.length) :
    (slice input pos len).length = len := by
  simp only [slice, List.length_take, List.length_drop]
  omega

theorem slice_succ {input : List UInt8} {pos : ℕ} (len : ℕ) (h : pos < input.length) :
    slice input pos (len + 1) = input.getD pos 0 :: slice input (pos + 1) len := by
  simp only [slice, List.drop_eq_getElem_cons h, List.take_succ_cons, List.getD_eq_getElem?_getD,
    List.getElem?_eq_getElem h, Option.getD_some]

/-- Skipping zeros takes leading zero bytes off the stretch, and stops at a
nonzero byte or at its end. -/
theorem skipZeros_spec (input : List UInt8) :
    ∀ (len pos : ℕ), pos + len ≤ input.length →
      (skipZeros input len pos).1 ≤ len ∧
      (skipZeros input len pos).2 = pos + (len - (skipZeros input len pos).1) ∧
      slice input pos len = List.replicate (len - (skipZeros input len pos).1) 0 ++
        slice input (skipZeros input len pos).2 (skipZeros input len pos).1 ∧
      ((skipZeros input len pos).1 = 0 ∨ byteAt input (skipZeros input len pos).2 ≠ 0)
  | 0, pos, _ => by simp [skipZeros, slice]
  | len + 1, pos, h => by
    have hlt : pos < input.length := by omega
    by_cases hz : byteAt input pos = 0
    · -- a zero byte: one more to the padding
      have hbyte : input.getD pos 0 = 0 := UInt8.toNat_inj.mp (by rw [← byteAt, hz]; rfl)
      obtain ⟨hle, hpos, hsl, hstop⟩ := skipZeros_spec input len (pos + 1) (by omega)
      rw [skipZeros, if_pos hz]
      refine ⟨by omega, by omega, ?_, hstop⟩
      rw [slice_succ len hlt, hbyte, hsl, show len + 1 - (skipZeros input len (pos + 1)).1 =
        (len - (skipZeros input len (pos + 1)).1) + 1 by omega, List.replicate_succ, List.cons_append]
    · rw [skipZeros, if_neg hz]
      exact ⟨le_refl _, by simp, by simp, Or.inr hz⟩

/-- A stretch with no leading zero byte and more than 32 bytes denotes a
value past the group order. -/
theorem order_le_beValue_of_stop {bytes : List UInt8} (hlen : 32 < bytes.length)
    (hhead : bytes.head? ≠ some 0) : SECP256K1_N ≤ beValue bytes := by
  obtain ⟨b, bs, rfl⟩ : ∃ b bs, bytes = b :: bs := List.exists_cons_of_length_pos (by omega)
  have hb : b ≠ 0 := fun hb => hhead (by rw [hb]; rfl)
  calc SECP256K1_N ≤ 256 ^ 32 := by decide
    _ ≤ 256 ^ bs.length := Nat.pow_le_pow_right (by norm_num) (by simp at hlen; omega)
    _ ≤ beValue (b :: bs) := pow_le_beValue_cons hb bs

/-- What a signature with the integers `r` and `s` is read as: itself when
both are below the order, the zero signature otherwise. -/
def compactOrZero (r s : ℕ) : ℕ × ℕ :=
  if r < SECP256K1_N ∧ s < SECP256K1_N then (r, s) else (0, 0)

/-- After zero padding is skipped, a stretch either overflows, and then its
value is not below the order, or fits the 32 bytes it is copied into with
its value. -/
theorem stripped_value {input : List UInt8} {len pos : ℕ} (h : pos + len ≤ input.length) :
    (32 < (skipZeros input len pos).1 → SECP256K1_N ≤ beValue (slice input pos len)) ∧
    ((skipZeros input len pos).1 ≤ 32 →
      (copyValue (slice input (skipZeros input len pos).2 (skipZeros input len pos).1)).length = 32 ∧
      beValue (copyValue (slice input (skipZeros input len pos).2 (skipZeros input len pos).1)) =
        beValue (slice input pos len)) := by
  obtain ⟨hle, hpos, hsl, hstop⟩ := skipZeros_spec input len pos h
  have hin : (skipZeros input len pos).2 + (skipZeros input len pos).1 ≤ input.length := by omega
  have hlen := length_slice hin
  rw [hsl, beValue_replicate_zero_append]
  refine ⟨fun hover => ?_, fun hfit => ⟨?_, ?_⟩⟩
  · -- the stretch starts where skipping stopped, at a nonzero byte
    refine order_le_beValue_of_stop (by rw [hlen]; exact hover) ?_
    obtain ⟨k, hk⟩ : ∃ k, (skipZeros input len pos).1 = k + 1 :=
      ⟨(skipZeros input len pos).1 - 1, by omega⟩
    rw [hk, slice_succ k (by omega)]
    intro h0
    have h0' : input.getD (skipZeros input len pos).2 0 = 0 := Option.some.inj h0
    exact (hstop.resolve_left (by omega)) (by rw [byteAt, h0']; rfl)
  · rw [copyValue, List.length_append, List.length_replicate, hlen]
    omega
  · rw [copyValue, beValue_replicate_zero_append]

/-- A byte below `0x80` has no long-form bit. -/
theorem and_0x80_of_lt {x : ℕ} (h : x < 0x80) : x &&& 0x80 = 0 := by
  rw [show (0x80 : ℕ) = 2 ^ 7 from rfl, Nat.and_two_pow, Nat.testBit_lt_two_pow h]
  rfl

/-- A length byte below `0x80` is the length itself. -/
theorem parseIntegerLength_of_short {input : List UInt8} {pos : ℕ} (h : pos < input.length)
    (hshort : byteAt input pos < 0x80) :
    parseIntegerLength input pos = some (byteAt input pos, pos + 1) := by
  rw [parseIntegerLength, if_neg (Nat.ne_of_lt h)]
  simp [and_0x80_of_lt hshort]

/-- A sequence with a one-byte length: the first integer starts at offset 2. -/
theorem parseSequence_of_short {input : List UInt8} (h : 2 ≤ input.length)
    (h0 : byteAt input 0 = 0x30) (h1 : byteAt input 1 < 0x80) : parseSequence input = some 2 := by
  rw [parseSequence, if_neg (by omega), if_neg (by omega)]
  simp [and_0x80_of_lt h1]

/-- An integer with a one-byte length whose value lies in the input. -/
theorem parseInteger_of_short {input : List UInt8} {pos len : ℕ} (hfit : pos + 2 + len ≤ input.length)
    (htag : byteAt input pos = 0x02) (hlen : byteAt input (pos + 1) = len) (hshort : len < 0x80) :
    parseInteger input pos = some (pos + 2, len) := by
  have hlength := parseIntegerLength_of_short (show pos + 1 < input.length by omega) (hlen ▸ hshort)
  rw [parseInteger, if_neg (by omega), hlength, hlen]
  simp only
  rw [if_neg (by omega)]

/-- The two 32-byte halves of the buffer are read back as the values copied
in. -/
theorem ecdsaSignatureParseCompact_copyValue {R : List UInt8} (hR : R.length = 32)
    (S : List UInt8) :
    (ecdsaSignatureParseCompact (R ++ S)).getD (0, 0) = compactOrZero (beValue R) (beValue S) := by
  rw [ecdsaSignatureParseCompact, List.take_left' hR, List.drop_left' hR, compactOrZero]
  split <;> rfl

/-! ## Short-form signatures -/

/-- On a sequence whose length and integer lengths are single bytes below
`0x80`, with both integers inside the input, the parser reads the two
integers: each one's value when both are below the order, the zero
signature otherwise. -/
theorem ecdsaSignatureParseDerLax_of_short {input : List UInt8} {lenR lenS : ℕ}
    (h0 : byteAt input 0 = 0x30) (h1 : byteAt input 1 < 0x80) (h2 : byteAt input 2 = 0x02)
    (hR : byteAt input 3 = lenR) (hRshort : lenR < 0x80) (hStag : byteAt input (4 + lenR) = 0x02)
    (hS : byteAt input (5 + lenR) = lenS) (hSshort : lenS < 0x80)
    (hlen : 6 + lenR + lenS ≤ input.length) :
    ecdsaSignatureParseDerLax input =
      some (compactOrZero (beValue (slice input 4 lenR)) (beValue (slice input (6 + lenR) lenS))) := by
  have hseq := parseSequence_of_short (by omega) h0 h1
  have hRint : parseInteger input 2 = some (4, lenR) := parseInteger_of_short (by omega) h2 hR hRshort
  have hSint : parseInteger input (4 + lenR) = some (6 + lenR, lenS) := by
    have hS' : byteAt input (4 + lenR + 1) = lenS := by rw [← hS, Nat.add_right_comm, Nat.add_comm 4]
    rw [parseInteger_of_short (by omega) hStag hS' hSshort, Nat.add_right_comm, Nat.add_comm 4 2]
  obtain ⟨hRover, hRfit⟩ := @stripped_value input lenR 4 (by omega)
  obtain ⟨hSover, hSfit⟩ := @stripped_value input lenS (6 + lenR) (by omega)
  simp only [ecdsaSignatureParseDerLax, hseq, hRint, hSint, Option.bind_eq_bind, Option.bind_some]
  split_ifs with hover
  · -- a value over 32 bytes is not below the order: the zero signature
    have hout : ¬ (beValue (slice input 4 lenR) < SECP256K1_N ∧
        beValue (slice input (6 + lenR) lenS) < SECP256K1_N) := by
      rcases hover with h | h
      · exact fun hlt => absurd hlt.1 (not_lt.mpr (hRover h))
      · exact fun hlt => absurd hlt.2 (not_lt.mpr (hSover h))
    rw [compactOrZero, if_neg hout]
    rfl
  · obtain ⟨hRl, hRv⟩ := hRfit (by omega)
    obtain ⟨-, hSv⟩ := hSfit (by omega)
    rw [ecdsaSignatureParseCompact_copyValue hRl, hRv, hSv]
    rfl

/-! ## Strict DER signatures -/

/-- The `R` field of a strict DER signature: `sig[3]` bytes from offset 4. -/
def derR (sig : valtype) : List UInt8 := slice sig 4 (byteAt sig 3)

/-- The `S` field: `sig[5 + lenR]` bytes from offset `6 + lenR`. -/
def derS (sig : valtype) : List UInt8 :=
  slice sig (6 + byteAt sig 3) (byteAt sig (5 + byteAt sig 3))

theorem ite_false_eq_true {c : Prop} [Decidable c] {b : Bool}
    (h : (if c then false else b) = true) : ¬c ∧ b = true := by
  by_cases hc : c
  · rw [if_pos hc] at h
    exact absurd h Bool.false_ne_true
  · rw [if_neg hc] at h
    exact ⟨hc, h⟩

/-- What a strict DER signature's layout guarantees: the size, the tags and
lengths that place `R` and `S`, and no byte after `S` but the hash type. -/
theorem isValidSignatureEncoding_layout {sig : valtype} (h : isValidSignatureEncoding sig = true) :
    9 ≤ sig.length ∧ sig.length ≤ 73 ∧ byteAt sig 0 = 0x30 ∧ byteAt sig 1 = sig.length - 3 ∧
      byteAt sig 2 = 0x02 ∧ byteAt sig (byteAt sig 3 + 4) = 0x02 ∧
      byteAt sig 3 + byteAt sig (5 + byteAt sig 3) + 7 = sig.length := by
  unfold isValidSignatureEncoding at h
  extract_lets n get lenR lenS at h
  -- the checks in the order of the source; those on padding are not needed
  obtain ⟨h9, h⟩ := ite_false_eq_true h
  obtain ⟨h73, h⟩ := ite_false_eq_true h
  obtain ⟨h0, h⟩ := ite_false_eq_true h
  obtain ⟨h1, h⟩ := ite_false_eq_true h
  obtain ⟨h5, h⟩ := ite_false_eq_true h
  obtain ⟨hsum, h⟩ := ite_false_eq_true h
  obtain ⟨h2, h⟩ := ite_false_eq_true h
  obtain ⟨-, h⟩ := ite_false_eq_true h
  obtain ⟨-, h⟩ := ite_false_eq_true h
  obtain ⟨-, h⟩ := ite_false_eq_true h
  obtain ⟨h4, -⟩ := ite_false_eq_true h
  -- the check's local names are the bytes of the signature
  have hn : n = sig.length := rfl
  have hR : lenR = byteAt sig 3 := rfl
  have hS : lenS = byteAt sig (5 + byteAt sig 3) := rfl
  refine ⟨by omega, by omega, not_not.mp h0, not_not.mp h1, not_not.mp h2, not_not.mp h4, by omega⟩

theorem byteAt_dropLast {sig : valtype} {i : ℕ} (h : i < sig.length - 1) :
    byteAt sig.dropLast i = byteAt sig i := by
  simp only [byteAt, List.getD_eq_getElem?_getD, List.getElem?_dropLast, if_pos h]

theorem slice_dropLast {sig : valtype} {pos len : ℕ} (h : pos + len ≤ sig.length - 1) :
    slice sig.dropLast pos len = slice sig pos len := by
  rw [slice, slice, List.dropLast_eq_take, List.drop_take, List.take_take,
    Nat.min_eq_left (by omega)]

/-- The lax parser agrees with strict DER: on a strict DER signature without
its hash type byte it returns 1 with the `R` and `S` fields read as unsigned
big-endian integers (the zero signature when one is not below the order), and
`CPubKey::CheckLowS` and `CPubKey::Verify` see that same signature. -/
theorem ecdsaSignatureParseDerLax_strict {sig : valtype} (h : isValidSignatureEncoding sig = true) :
    ecdsaSignatureParseDerLax sig.dropLast =
        some (compactOrZero (beValue (derR sig)) (beValue (derS sig))) ∧
      CheckLowS sig.dropLast = !(SECP256K1_N_H < (compactOrZero (beValue (derR sig)) (beValue (derS sig))).2) ∧
      ∀ {PK : Type} (ecPubkeyParse : valtype → Option PK) (ecdsaVerify : ℕ × ℕ → uint256 → PK → Bool)
        (vch : valtype) (hash : uint256),
        Verify ecPubkeyParse ecdsaVerify vch hash sig.dropLast =
          (ecPubkeyParse vch).elim false fun pubkey =>
            ecdsaVerify (ecdsaSignatureNormalize
              (compactOrZero (beValue (derR sig)) (beValue (derS sig)))) hash pubkey := by
  obtain ⟨h9, h73, h0, h1, h2, h4, hsum⟩ := isValidSignatureEncoding_layout h
  set lenR := byteAt sig 3 with hR
  set lenS := byteAt sig (5 + lenR) with hS
  -- the bytes the parser reads all lie before the hash type byte
  have hparse : ecdsaSignatureParseDerLax sig.dropLast =
      some (compactOrZero (beValue (derR sig)) (beValue (derS sig))) := by
    rw [@ecdsaSignatureParseDerLax_of_short sig.dropLast lenR lenS
        (by rw [byteAt_dropLast (by omega), h0]) (by rw [byteAt_dropLast (by omega), h1]; omega)
        (by rw [byteAt_dropLast (by omega), h2]) (by rw [byteAt_dropLast (by omega)]) (by omega)
        (by rw [byteAt_dropLast (by omega), Nat.add_comm, h4]) (by rw [byteAt_dropLast (by omega)])
        (by omega) (by rw [List.length_dropLast]; omega),
      slice_dropLast (by omega), slice_dropLast (by omega)]
    rfl
  refine ⟨hparse, by rw [CheckLowS, hparse], fun ecPubkeyParse ecdsaVerify vch hash => ?_⟩
  rw [Verify, hparse]
  cases ecPubkeyParse vch <;> rfl

/-- The strict DER signature `30 06 02 01 01 02 01 02` with hash type 1 is
read as `(1, 2)`. -/
theorem ecdsaSignatureParseDerLax_strict_small :
    isValidSignatureEncoding [0x30, 6, 2, 1, 1, 2, 1, 2, 1] = true ∧
      ecdsaSignatureParseDerLax [0x30, 6, 2, 1, 1, 2, 1, 2, 1].dropLast = some (1, 2) := by
  have h : isValidSignatureEncoding [0x30, 6, 2, 1, 1, 2, 1, 2, 1] = true := by decide
  refine ⟨h, ?_⟩
  rw [(ecdsaSignatureParseDerLax_strict h).1]
  decide

end XPChain
