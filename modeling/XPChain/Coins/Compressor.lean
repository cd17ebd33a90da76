import XPChain.Primitives.VarInt
import XPChain.Script.Script

/-!
# Compressed outputs

`CTxOutCompressor` of `compressor.h`, which stores every coin of the chain
state: the amount as a `VARINT` of `CompressAmount`, then the script through
`CScriptCompressor`.  Pay-to-pubkey-hash, pay-to-script-hash and
pay-to-pubkey scripts are written as a one-byte code below 6 and their hash
or key, with an uncompressed key cut to its `x` coordinate and the parity of
`y`; every other script as a `VARINT` of its size plus 6, then its bytes.

`CPubKey::Decompress` and `CPubKey::IsFullyValid` come from secp256k1 and
enter through `PointCodec`.  The reader writes into an existing `CTxOut`,
whose script stays as it was when `DecompressScript` fails.

## Main definitions

* `compressAmount`, `decompressAmount`.
* `compressScript`, `decompressScript`.
* `serializeTxOutCompressor`, `unserializeTxOutCompressor`.

## Main statements

* `decompressAmount_compressAmount` — amount compression round-trips.
* `unserializeScriptCompressor_serialize` — so does a script of at most
  `MAX_SCRIPT_SIZE` bytes, when `Decompress` undoes the compression of the
  keys `IsFullyValid` accepts.
* `unserializeTxOutCompressor_serialize` — and so does an output whose value
  is in `MoneyRange`, read into any `CTxOut`.
-/

set_option autoImplicit false

namespace XPChain

/-! ## Amounts -/

/-- The loop of `CompressAmount` that takes up to nine trailing zeros off
`n`, counting them in `e`. -/
def compressAmountZeros (n e : ℕ) : ℕ × ℕ :=
  if n % 10 = 0 ∧ e < 9 then compressAmountZeros (n / 10) (e + 1) else (n, e)
termination_by 9 - e

/-- `CompressAmount`, in `uint64_t`. -/
def compressAmount (n : ℕ) : ℕ :=
  if n = 0 then 0
  else
    let (n, e) := compressAmountZeros n 0
    if e < 9 then
      let d := n % 10
      let n := n / 10
      (1 + (n * 9 + d - 1) * 10 + e) % 2 ^ 64
    else (1 + (n - 1) * 10 + 9) % 2 ^ 64

/-- `while (e) { n *= 10; e--; }` in `uint64_t`. -/
def decompressAmountScale : ℕ → ℕ → ℕ
  | n, 0 => n
  | n, e + 1 => decompressAmountScale (n * 10 % 2 ^ 64) e

/-- `DecompressAmount`. -/
def decompressAmount (x : ℕ) : ℕ :=
  if x = 0 then 0
  else
    let x := x - 1
    let e := x % 10
    let x := x / 10
    let n :=
      if e < 9 then
        let d := x % 9 + 1
        let x := x / 9
        x * 10 + d
      else x + 1
    decompressAmountScale n e

theorem compressAmountZeros_spec (n e : ℕ) (he : e ≤ 9) :
    (compressAmountZeros n e).1 * 10 ^ (compressAmountZeros n e).2 = n * 10 ^ e ∧
      (compressAmountZeros n e).2 ≤ 9 ∧
      ((compressAmountZeros n e).2 = 9 ∨ (compressAmountZeros n e).1 % 10 ≠ 0) := by
  fun_induction compressAmountZeros n e with
  | case1 n e hzero ih =>
    obtain ⟨hval, hle, hstop⟩ := ih (by omega)
    refine ⟨?_, hle, hstop⟩
    rw [hval, pow_succ, mul_comm (10 ^ e) 10, ← mul_assoc, Nat.div_mul_cancel (Nat.dvd_of_mod_eq_zero hzero.1)]
  | case2 n e hstop =>
    refine ⟨rfl, he, ?_⟩
    by_cases h9 : e = 9
    · exact Or.inl h9
    · exact Or.inr fun h => hstop ⟨h, by omega⟩

theorem decompressAmountScale_eq {n : ℕ} (hn : n < 2 ^ 64) (e : ℕ) :
    decompressAmountScale n e = n * 10 ^ e % 2 ^ 64 := by
  induction e generalizing n with
  | zero => rw [decompressAmountScale, pow_zero, mul_one, Nat.mod_eq_of_lt hn]
  | succ e ih =>
    rw [decompressAmountScale, ih (Nat.mod_lt _ (by norm_num)), Nat.mod_mul_mod, pow_succ 10 e, mul_assoc,
      mul_comm 10]

theorem decompressAmount_compressAmount {n : ℕ} (hn : 10 * n < 2 ^ 64) :
    decompressAmount (compressAmount n) = n := by
  by_cases h0 : n = 0
  · subst h0
    rfl
  obtain ⟨hval, hle, hstop⟩ := compressAmountZeros_spec n 0 (by norm_num)
  rw [pow_zero, mul_one] at hval
  generalize hz : compressAmountZeros n 0 = z at hval hle hstop
  obtain ⟨m, e⟩ := z
  dsimp only at hval hle hstop
  have hm : m ≤ n := hval ▸ Nat.le_mul_of_pos_right m (by positivity)
  have hm0 : m ≠ 0 := by
    rintro rfl
    rw [zero_mul] at hval
    exact h0 hval.symm
  rw [compressAmount, if_neg h0, hz]
  dsimp only
  by_cases he : e < 9
  · have hd : m % 10 ≠ 0 := by omega
    rw [if_pos he, Nat.mod_eq_of_lt (by omega), decompressAmount, if_neg (by omega)]
    dsimp only
    have h1 : (1 + (m / 10 * 9 + m % 10 - 1) * 10 + e - 1) % 10 = e := by omega
    have h2 : (1 + (m / 10 * 9 + m % 10 - 1) * 10 + e - 1) / 10 % 9 + 1 = m % 10 := by omega
    have h3 : (1 + (m / 10 * 9 + m % 10 - 1) * 10 + e - 1) / 10 / 9 * 10 + m % 10 = m := by omega
    rw [h1, if_pos he, h2, h3, decompressAmountScale_eq (by omega), hval, Nat.mod_eq_of_lt (by omega)]
  · have he9 : e = 9 := by omega
    subst he9
    rw [if_neg he, Nat.mod_eq_of_lt (by omega), decompressAmount, if_neg (by omega)]
    dsimp only
    have h1 : (1 + (m - 1) * 10 + 9 - 1) % 10 = 9 := by omega
    have h2 : (1 + (m - 1) * 10 + 9 - 1) / 10 + 1 = m := by omega
    rw [h1, if_neg (by norm_num), h2, decompressAmountScale_eq (by omega), hval, Nat.mod_eq_of_lt (by omega)]

theorem compressAmount_lt (n : ℕ) : compressAmount n < 2 ^ 64 := by
  rw [compressAmount]
  split_ifs with h0
  · norm_num
  · generalize compressAmountZeros n 0 = z
    obtain ⟨m, e⟩ := z
    dsimp only
    split_ifs <;> exact Nat.mod_lt _ (by norm_num)

theorem ten_mul_lt_of_le_MAX_MONEY {n : ℕ} (hn : (n : CAmount) ≤ MAX_MONEY) : 10 * n < 2 ^ 64 := by
  have hn' : (n : ℤ) ≤ 2100000000000000 := hn
  omega

/-! ## Scripts -/

/-- `CPubKey::Decompress` of a 33-byte key, which gives 65 bytes when it
succeeds, and `CPubKey::IsFullyValid` of a 65-byte key. -/
structure PointCodec where
  decompress : valtype → Option valtype
  isFullyValid : valtype → Bool
  length_decompress : ∀ vch pk, decompress vch = some pk → pk.length = 65

/-- `IsToKeyID`: the hash of a pay-to-pubkey-hash script. -/
def isToKeyID (script : CScript) : Option valtype :=
  if script.length = 25 ∧ script.getD 0 0 = OP_DUP ∧ script.getD 1 0 = OP_HASH160 ∧ script.getD 2 0 = 20 ∧
      script.getD 23 0 = OP_EQUALVERIFY ∧ script.getD 24 0 = OP_CHECKSIG then
    some ((script.drop 3).take 20)
  else none

/-- `IsToScriptID`: the hash of a pay-to-script-hash script. -/
def isToScriptID (script : CScript) : Option valtype :=
  if script.length = 23 ∧ script.getD 0 0 = OP_HASH160 ∧ script.getD 1 0 = 20 ∧ script.getD 22 0 = OP_EQUAL then
    some ((script.drop 2).take 20)
  else none

/-- `IsToPubKey`: the key of a pay-to-pubkey script, compressed, or
uncompressed and fully valid. -/
def isToPubKey (codec : PointCodec) (script : CScript) : Option valtype :=
  if script.length = 35 ∧ script.getD 0 0 = 33 ∧ script.getD 34 0 = OP_CHECKSIG ∧
      (script.getD 1 0 = 0x02 ∨ script.getD 1 0 = 0x03) then
    some ((script.drop 1).take 33)
  else if script.length = 67 ∧ script.getD 0 0 = 65 ∧ script.getD 66 0 = OP_CHECKSIG ∧ script.getD 1 0 = 0x04 then
    let pubkey := (script.drop 1).take 65
    if codec.isFullyValid pubkey then some pubkey else none
  else none

/-- `CompressScript`: the code and the 20 or 32 bytes that follow it. -/
def compressScript (codec : PointCodec) (script : CScript) : Option (List UInt8) :=
  match isToKeyID script with
  | some keyID => some (0x00 :: keyID)
  | none =>
    match isToScriptID script with
    | some scriptID => some (0x01 :: scriptID)
    | none =>
      match isToPubKey codec script with
      | some pubkey =>
        if pubkey.getD 0 0 = 0x02 ∨ pubkey.getD 0 0 = 0x03 then some (pubkey.getD 0 0 :: (pubkey.drop 1).take 32)
        else if pubkey.getD 0 0 = 0x04 then
          some (UInt8.ofNat (0x04 ||| ((pubkey.getD 64 0).toNat &&& 0x01)) :: (pubkey.drop 1).take 32)
        else none
      | none => none

/-- `GetSpecialScriptSize`. -/
def getSpecialScriptSize (nSize : ℕ) : ℕ :=
  if nSize = 0 ∨ nSize = 1 then 20
  else if nSize = 2 ∨ nSize = 3 ∨ nSize = 4 ∨ nSize = 5 then 32
  else 0

/-- `DecompressScript` from the code `nSize` and its bytes `input`; `none`
where it returns `false`. -/
def decompressScript (codec : PointCodec) (nSize : ℕ) (input : List UInt8) : Option CScript :=
  if nSize = 0x00 then some ([OP_DUP, OP_HASH160, 20] ++ input ++ [OP_EQUALVERIFY, OP_CHECKSIG])
  else if nSize = 0x01 then some ([OP_HASH160, 20] ++ input ++ [OP_EQUAL])
  else if nSize = 0x02 ∨ nSize = 0x03 then some ([33, UInt8.ofNat nSize] ++ input ++ [OP_CHECKSIG])
  else if nSize = 0x04 ∨ nSize = 0x05 then
    (codec.decompress (UInt8.ofNat (nSize - 2) :: input)).map fun pubkey => [65] ++ pubkey ++ [OP_CHECKSIG]
  else none

/-- `CScriptCompressor::nSpecialScripts`. -/
def nSpecialScripts : ℕ := 6

theorem drop_eq_getD_cons {l : List UInt8} {i : ℕ} (h : i < l.length) :
    l.drop i = l.getD i 0 :: l.drop (i + 1) := by
  rw [List.drop_eq_getElem_cons h, List.getD_eq_getElem _ _ h]

/-- A list is its head, a slice of `k` bytes and its tail, when the head and
the tail are what follows and what precedes the slice. -/
theorem eq_append_slice {l pre post : List UInt8} {k : ℕ} (hpre : l = pre ++ l.drop pre.length)
    (hpost : l.drop (pre.length + k) = post) : l = pre ++ (l.drop pre.length).take k ++ post := by
  conv_lhs => rw [hpre, ← List.take_append_drop k (l.drop pre.length), List.drop_drop, hpost]
  rw [List.append_assoc]

theorem eq_of_isToKeyID {script : CScript} {keyID : valtype} (h : isToKeyID script = some keyID) :
    script = [OP_DUP, OP_HASH160, 20] ++ keyID ++ [OP_EQUALVERIFY, OP_CHECKSIG] ∧ keyID.length = 20 := by
  unfold isToKeyID at h
  split_ifs at h with hs
  obtain ⟨hlen, h0, h1, h2, h23, h24⟩ := hs
  cases h
  refine ⟨eq_append_slice ?_ ?_, by simp; omega⟩
  · conv_lhs => rw [← @List.drop_zero _ script, drop_eq_getD_cons (by omega), drop_eq_getD_cons (by omega),
      drop_eq_getD_cons (by omega), h0, h1, h2]
    rfl
  · show script.drop 23 = [OP_EQUALVERIFY, OP_CHECKSIG]
    rw [drop_eq_getD_cons (by omega), drop_eq_getD_cons (by omega), List.drop_eq_nil_of_le (by omega), h23, h24]

theorem eq_of_isToScriptID {script : CScript} {scriptID : valtype} (h : isToScriptID script = some scriptID) :
    script = [OP_HASH160, 20] ++ scriptID ++ [OP_EQUAL] ∧ scriptID.length = 20 := by
  unfold isToScriptID at h
  split_ifs at h with hs
  obtain ⟨hlen, h0, h1, h22⟩ := hs
  cases h
  refine ⟨eq_append_slice ?_ ?_, by simp; omega⟩
  · conv_lhs => rw [← @List.drop_zero _ script, drop_eq_getD_cons (by omega), drop_eq_getD_cons (by omega), h0, h1]
    rfl
  · show script.drop 22 = [OP_EQUAL]
    rw [drop_eq_getD_cons (by omega), List.drop_eq_nil_of_le (by omega), h22]

theorem getD_take_drop_one (script : CScript) (k : ℕ) (hk : 0 < k) :
    ((script.drop 1).take k).getD 0 0 = script.getD 1 0 := by
  simp [List.getD_eq_getElem?_getD, hk]

theorem eq_of_isToPubKey {codec : PointCodec} {script : CScript} {pubkey : valtype}
    (h : isToPubKey codec script = some pubkey) :
    (script = [33] ++ pubkey ++ [OP_CHECKSIG] ∧ pubkey.length = 33 ∧
        (pubkey.getD 0 0 = 0x02 ∨ pubkey.getD 0 0 = 0x03)) ∨
      (script = [65] ++ pubkey ++ [OP_CHECKSIG] ∧ pubkey.length = 65 ∧ pubkey.getD 0 0 = 0x04 ∧
        codec.isFullyValid pubkey = true) := by
  unfold isToPubKey at h
  dsimp only at h
  split_ifs at h with hs hs' hvalid
  · obtain ⟨hlen, h0, h34, h1⟩ := hs
    cases h
    refine Or.inl ⟨eq_append_slice ?_ ?_, by simp; omega, by rwa [getD_take_drop_one _ _ (by norm_num)]⟩
    · conv_lhs => rw [← @List.drop_zero _ script, drop_eq_getD_cons (by omega), h0]
      rfl
    · show script.drop 34 = [OP_CHECKSIG]
      rw [drop_eq_getD_cons (by omega), List.drop_eq_nil_of_le (by omega), h34]
  · obtain ⟨hlen, h0, h66, h1⟩ := hs'
    cases h
    refine Or.inr ⟨eq_append_slice ?_ ?_, by simp; omega, by rwa [getD_take_drop_one _ _ (by norm_num)], hvalid⟩
    · conv_lhs => rw [← @List.drop_zero _ script, drop_eq_getD_cons (by omega), h0]
      rfl
    · show script.drop 66 = [OP_CHECKSIG]
      rw [drop_eq_getD_cons (by omega), List.drop_eq_nil_of_le (by omega), h66]

/-- `CPubKey::Decompress` undoes the compression `CompressScript` makes of
every fully valid uncompressed key: the parity of `y` in the code, then `x`. -/
def PointCodec.DecompressInverts (codec : PointCodec) : Prop :=
  ∀ pubkey : valtype, pubkey.length = 65 → pubkey.getD 0 0 = 0x04 → codec.isFullyValid pubkey = true →
    codec.decompress (UInt8.ofNat ((0x04 ||| ((pubkey.getD 64 0).toNat &&& 0x01)) - 2) :: (pubkey.drop 1).take 32) =
      some pubkey

/-- The code of an uncompressed key: 4, plus the parity of `y`. -/
theorem pubkeyCode_eq (b : UInt8) : 0x04 ||| (b.toNat &&& 0x01) = 4 + b.toNat % 2 := by
  rw [Nat.and_one_is_mod, show (0x04 : ℕ) = 2 ^ 2 * 1 from rfl, ← Nat.two_pow_add_eq_or_of_lt (by omega)]

theorem getD_cons_take_drop {pubkey : valtype} {k : ℕ} (hlen : pubkey.length = k + 1) :
    pubkey.getD 0 0 :: (pubkey.drop 1).take k = pubkey := by
  conv_rhs => rw [← @List.drop_zero _ pubkey, drop_eq_getD_cons (by omega)]
  rw [List.take_of_length_le (by simp; omega)]

/-- What `CompressScript` writes is a code below 6 and the bytes
`GetSpecialScriptSize` asks for, and `DecompressScript` turns them back into
the script. -/
theorem compressScript_spec {codec : PointCodec} (hcodec : codec.DecompressInverts) {script : CScript}
    {compr : List UInt8} (h : compressScript codec script = some compr) :
    ∃ code rest, compr = code :: rest ∧ code.toNat < nSpecialScripts ∧ rest.length = getSpecialScriptSize code.toNat ∧
      decompressScript codec code.toNat rest = some script := by
  unfold compressScript at h
  cases hk : isToKeyID script with
  | some keyID =>
    rw [hk] at h
    cases h
    obtain ⟨hs, hlen⟩ := eq_of_isToKeyID hk
    exact ⟨0x00, keyID, rfl, by decide, by rw [hlen]; rfl, by rw [hs]; rfl⟩
  | none =>
  rw [hk] at h
  cases hs : isToScriptID script with
  | some scriptID =>
    rw [hs] at h
    cases h
    obtain ⟨hs, hlen⟩ := eq_of_isToScriptID hs
    exact ⟨0x01, scriptID, rfl, by decide, by rw [hlen]; rfl, by rw [hs]; rfl⟩
  | none =>
  rw [hs] at h
  cases hp : isToPubKey codec script with
  | none =>
    rw [hp] at h
    cases h
  | some pubkey =>
  rw [hp] at h
  dsimp only at h
  rcases eq_of_isToPubKey hp with ⟨hscript, hlen, h0⟩ | ⟨hscript, hlen, h0, hvalid⟩
  · -- a compressed key keeps its first byte as the code
    rw [if_pos h0] at h
    cases h
    have hcode : (pubkey.getD 0 0).toNat = 2 ∨ (pubkey.getD 0 0).toNat = 3 := by
      rcases h0 with h0 | h0 <;> rw [h0] <;> decide
    have hsize : getSpecialScriptSize (pubkey.getD 0 0).toNat = 32 := by
      rw [getSpecialScriptSize, if_neg (by omega), if_pos (by omega)]
    refine ⟨pubkey.getD 0 0, (pubkey.drop 1).take 32, rfl, by rw [nSpecialScripts]; omega,
      by rw [hsize]; simp; omega, ?_⟩
    rw [decompressScript, if_neg (by omega), if_neg (by omega), if_pos hcode, hscript, UInt8.ofNat_toNat]
    conv_rhs => rw [← getD_cons_take_drop hlen]
    rfl
  · -- an uncompressed key is cut to `x` and the parity of `y`
    have hne : ¬(pubkey.getD 0 0 = 0x02 ∨ pubkey.getD 0 0 = 0x03) := by
      rw [h0]
      decide
    rw [if_neg hne, if_pos h0] at h
    cases h
    have hcode : (UInt8.ofNat (0x04 ||| ((pubkey.getD 64 0).toNat &&& 0x01))).toNat =
        4 + (pubkey.getD 64 0).toNat % 2 := by
      rw [UInt8.toNat_ofNat', pubkeyCode_eq]
      omega
    have hsize : getSpecialScriptSize (4 + (pubkey.getD 64 0).toNat % 2) = 32 := by
      rw [getSpecialScriptSize, if_neg (by omega), if_pos (by omega)]
    have hdecompress := hcodec pubkey hlen h0 hvalid
    rw [pubkeyCode_eq] at hdecompress
    refine ⟨_, (pubkey.drop 1).take 32, rfl, by rw [hcode, nSpecialScripts]; omega,
      by rw [hcode, hsize]; simp; omega, ?_⟩
    rw [decompressScript, hcode, if_neg (by omega), if_neg (by omega), if_neg (by omega), if_pos (by omega),
      hdecompress, hscript]
    rfl

/-- `CScriptCompressor::Serialize`. -/
def serializeScriptCompressor (codec : PointCodec) (script : CScript) : List UInt8 :=
  match compressScript codec script with
  | some compr => compr
  | none => writeVarInt ((script.length + nSpecialScripts) % 2 ^ 32) ++ script

/-- `s >> MakeSpan(v)` into `k` bytes: `none` at the end of the stream. -/
def readSpan (k : ℕ) (s : List UInt8) : Option (List UInt8 × List UInt8) :=
  if s.length < k then none else some (s.take k, s.drop k)

/-- `CScriptCompressor::Unserialize` into the script `script`; `none` where
it throws. -/
def unserializeScriptCompressor (codec : PointCodec) (script : CScript) (s : List UInt8) :
    Option (CScript × List UInt8) := do
  let (nSize, s) ← readVarInt 32 0 s
  if nSize < nSpecialScripts then
    let (vch, s) ← readSpan (getSpecialScriptSize nSize) s
    pure ((decompressScript codec nSize vch).getD script, s)
  else
    let nSize := nSize - nSpecialScripts
    if MAX_SCRIPT_SIZE < nSize then
      -- an overly long script becomes a short invalid one, and `s.ignore(nSize)`
      if s.length < nSize then none else pure (script ++ [OP_RETURN], s.drop nSize)
    else readSpan nSize s

theorem readSpan_append (l s : List UInt8) : readSpan l.length (l ++ s) = some (l, s) := by
  rw [readSpan, if_neg (by simp), List.take_left, List.drop_left]

/-- A script of at most `MAX_SCRIPT_SIZE` bytes reads back as itself, whatever
the script it is read into. -/
theorem unserializeScriptCompressor_serialize {codec : PointCodec} (hcodec : codec.DecompressInverts)
    (prior script : CScript) (hlen : script.length ≤ MAX_SCRIPT_SIZE) (s : List UInt8) :
    unserializeScriptCompressor codec prior (serializeScriptCompressor codec script ++ s) = some (script, s) := by
  rw [serializeScriptCompressor]
  cases hc : compressScript codec script with
  | some compr =>
    obtain ⟨code, rest, rfl, hcode, hrest, hdec⟩ := compressScript_spec hcodec hc
    have hbyte : code.toNat < 128 := by
      rw [nSpecialScripts] at hcode
      omega
    rw [unserializeScriptCompressor, List.cons_append, readVarInt_of_lt_128 (show 7 ≤ 32 by norm_num) hbyte]
    simp only [Option.bind_eq_bind, Option.bind_some, if_pos hcode, ← hrest, readSpan_append, hdec, Option.getD_some]
    rfl
  | none =>
    have hsize : (script.length + nSpecialScripts) % 2 ^ 32 = script.length + nSpecialScripts := by
      rw [nSpecialScripts, Nat.mod_eq_of_lt (by rw [MAX_SCRIPT_SIZE] at hlen; omega)]
    simp only [unserializeScriptCompressor, hsize, List.append_assoc, readVarInt_writeVarInt (by norm_num : 7 ≤ 32),
      if_pos (show script.length + nSpecialScripts < 2 ^ 32 by rw [nSpecialScripts, MAX_SCRIPT_SIZE] at *; omega),
      Option.bind_eq_bind, Option.bind_some, if_neg (show ¬script.length + nSpecialScripts < nSpecialScripts by omega),
      Nat.add_sub_cancel, if_neg (not_lt.mpr hlen), readSpan_append]

/-- A `uint64_t` stored in an `int64_t`. -/
def int64OfUInt64 (n : ℕ) : CAmount := if n < 2 ^ 63 then n else n - 2 ^ 64

theorem int64OfUInt64_of_lt {n : ℕ} (hn : n < 2 ^ 63) : int64OfUInt64 n = n := by
  rw [int64OfUInt64, if_pos hn]

/-- `CTxOutCompressor::SerializationOp` when writing. -/
def serializeTxOutCompressor (codec : PointCodec) (txout : CTxOut) : List UInt8 :=
  writeVarInt (compressAmount (txout.nValue % 2 ^ 64).toNat) ++ serializeScriptCompressor codec txout.scriptPubKey

/-- `CTxOutCompressor::SerializationOp` when reading into `txout`. -/
def unserializeTxOutCompressor (codec : PointCodec) (txout : CTxOut) (s : List UInt8) :
    Option (CTxOut × List UInt8) := do
  let (nVal, s) ← readVarInt 64 0 s
  let (scriptPubKey, s) ← unserializeScriptCompressor codec txout.scriptPubKey s
  pure (⟨int64OfUInt64 (decompressAmount nVal), scriptPubKey⟩, s)

theorem unserializeTxOutCompressor_serialize {codec : PointCodec} (hcodec : codec.DecompressInverts)
    (prior txout : CTxOut) (h0 : 0 ≤ txout.nValue) (hmax : txout.nValue ≤ MAX_MONEY)
    (hlen : txout.scriptPubKey.length ≤ MAX_SCRIPT_SIZE) (s : List UInt8) :
    unserializeTxOutCompressor codec prior (serializeTxOutCompressor codec txout ++ s) = some (txout, s) := by
  obtain ⟨nValue, script⟩ := txout
  dsimp only at h0 hmax hlen
  lift nValue to ℕ using h0
  have hten := ten_mul_lt_of_le_MAX_MONEY hmax
  have hmod : ((nValue : CAmount) % 2 ^ 64).toNat = nValue := by
    rw [Int.emod_eq_of_lt (by omega) (by omega), Int.toNat_natCast]
  rw [unserializeTxOutCompressor, serializeTxOutCompressor, hmod, List.append_assoc,
    readVarInt_writeVarInt (show 7 ≤ 64 by norm_num), if_pos (compressAmount_lt _)]
  simp only [Option.bind_eq_bind, Option.bind_some, unserializeScriptCompressor_serialize hcodec _ _ hlen,
    decompressAmount_compressAmount hten, int64OfUInt64_of_lt (show nValue < 2 ^ 63 by omega)]
  rfl

theorem txOutCompressor_roundTrip {codec : PointCodec} (hcodec : codec.DecompressInverts) :
    (∀ n : ℕ, (n : CAmount) ≤ MAX_MONEY → decompressAmount (compressAmount n) = n) ∧
    (∀ x, (∃ n : ℕ, (n : CAmount) ≤ MAX_MONEY ∧ compressAmount n = x) → compressAmount (decompressAmount x) = x) ∧
    ∀ (prior txout : CTxOut) (s : List UInt8), 0 ≤ txout.nValue → txout.nValue ≤ MAX_MONEY →
      txout.scriptPubKey.length ≤ MAX_SCRIPT_SIZE →
      unserializeTxOutCompressor codec prior (serializeTxOutCompressor codec txout ++ s) = some (txout, s) := by
  refine ⟨fun n hn => decompressAmount_compressAmount (ten_mul_lt_of_le_MAX_MONEY hn), ?_,
    fun prior txout s h0 hmax hlen => unserializeTxOutCompressor_serialize hcodec prior txout h0 hmax hlen s⟩
  rintro x ⟨n, hn, rfl⟩
  rw [decompressAmount_compressAmount (ten_mul_lt_of_le_MAX_MONEY hn)]

/-- A point codec that knows one uncompressed key, `0x04` and 64 bytes of 7. -/
def onePointCodec : PointCodec where
  decompress vch := if vch = 0x03 :: List.replicate 32 7 then some (0x04 :: List.replicate 64 7) else none
  isFullyValid pubkey := pubkey == 0x04 :: List.replicate 64 7
  length_decompress vch pubkey h := by
    split_ifs at h
    cases h
    rfl

theorem onePointCodec_decompressInverts : onePointCodec.DecompressInverts := by
  intro pubkey hlen h0 hvalid
  have hkey : pubkey = 0x04 :: List.replicate 64 7 := by simpa [onePointCodec] using hvalid
  subst hkey
  decide

theorem txOutCompressor_roundTrip_p2pk :
    onePointCodec.DecompressInverts ∧
      unserializeTxOutCompressor onePointCodec ⟨0, []⟩
          (serializeTxOutCompressor onePointCodec ⟨5000, [65] ++ 0x04 :: List.replicate 64 7 ++ [OP_CHECKSIG]⟩ ++ []) =
        some (⟨5000, [65] ++ 0x04 :: List.replicate 64 7 ++ [OP_CHECKSIG]⟩, []) :=
  ⟨onePointCodec_decompressInverts,
    (txOutCompressor_roundTrip onePointCodec_decompressInverts).2.2 _ _ _ (by decide) (by decide) (by decide)⟩

end XPChain
