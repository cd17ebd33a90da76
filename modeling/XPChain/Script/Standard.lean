import XPChain.Script.Interpreter

/-!
# Standard script templates

`Solver` of `script/standard.cpp` recognises the output templates (P2PK,
P2PKH, P2SH, multisig, witness programs, data carriers) and returns their
solutions; `ExtractDestination` maps a template to an address and
`GetScriptForDestination` maps an address back to its script.  `CPubKey`
keeps only what its constructor and `IsValid` look at: the serialised bytes,
or the invalid key `Invalidate` leaves behind.

## Main definitions

* `CPubKey`, `CPubKey.ofBytes`, `CPubKey.IsValid`.
* `solver` — `Solver`, `none` for `false`.
* `CTxDestination`, `extractDestination`, `getScriptForDestination`.
* `OutputType`, `getDestinationForKey`.
-/

set_option autoImplicit false

namespace XPChain

/-! ## Public keys -/

/-- `CPubKey::GetLen`: the length a key with this first byte must have. -/
def CPubKey.GetLen (chHeader : UInt8) : ℕ :=
  if chHeader = 2 ∨ chHeader = 3 then 33
  else if chHeader = 4 ∨ chHeader = 6 ∨ chHeader = 7 then 65
  else 0

/-- `CPubKey::ValidSize`. -/
def CPubKey.ValidSize (vch : valtype) : Bool :=
  0 < vch.length && CPubKey.GetLen (vch.headD 0) == vch.length

/-- A `CPubKey`: the bytes `Set` stored. -/
structure CPubKey where
  vch : valtype
  deriving DecidableEq, Repr

namespace CPubKey

/-- `CPubKey(pbegin, pend)`: the bytes when their length fits their first
byte, else the invalid key (`Invalidate` sets the first byte to `0xFF`). -/
def ofBytes (vch : valtype) : CPubKey :=
  if ValidSize vch then ⟨vch⟩ else ⟨[0xFF]⟩

/-- `CPubKey::IsValid`: `size() > 0`, where `size()` is `GetLen(vch[0])`. -/
def IsValid (pk : CPubKey) : Bool := 0 < GetLen (pk.vch.headD 0xFF)

/-- `CPubKey::GetID`: the `Hash160` of the key. -/
def GetID (crypto : Crypto) (pk : CPubKey) : valtype := crypto.hash160 pk.vch

theorem IsValid_ofBytes (vch : valtype) : (ofBytes vch).IsValid = ValidSize vch := by
  by_cases h : ValidSize vch
  · obtain ⟨b, bs, rfl⟩ : ∃ b bs, vch = b :: bs := by
      cases vch with
      | nil => simp [ValidSize] at h
      | cons b bs => exact ⟨b, bs, rfl⟩
    have hlen : GetLen b = bs.length + 1 := by simpa [ValidSize] using h
    simp [ofBytes, IsValid, h, hlen]
  · simp [ofBytes, IsValid, h, GetLen]

end CPubKey

/-! ## `Solver` -/

/-- `txnouttype`. -/
inductive TxnOutType
  | TX_NONSTANDARD | TX_PUBKEY | TX_PUBKEYHASH | TX_SCRIPTHASH | TX_MULTISIG | TX_NULL_DATA
  | TX_WITNESS_V0_SCRIPTHASH | TX_WITNESS_V0_KEYHASH | TX_WITNESS_UNKNOWN
  deriving DecidableEq, Repr

open TxnOutType

/-- `MatchPayToPubkey`: a 65- or 33-byte key push followed by `OP_CHECKSIG`. -/
def matchPayToPubkey (s : CScript) : Option valtype :=
  if s.length = 65 + 2 ∧ s.headD 0 = 65 ∧ s.getLastD 0 = OP_CHECKSIG then
    let pk := (s.drop 1).take 65
    if CPubKey.ValidSize pk then some pk else none
  else if s.length = 33 + 2 ∧ s.headD 0 = 33 ∧ s.getLastD 0 = OP_CHECKSIG then
    let pk := (s.drop 1).take 33
    if CPubKey.ValidSize pk then some pk else none
  else none

/-- `MatchPayToPubkeyHash`: `OP_DUP OP_HASH160 <20 bytes> OP_EQUALVERIFY OP_CHECKSIG`. -/
def matchPayToPubkeyHash (s : CScript) : Option valtype :=
  if s.length = 25 ∧ s.getD 0 0 = OP_DUP ∧ s.getD 1 0 = OP_HASH160 ∧ s.getD 2 0 = 20 ∧
      s.getD 23 0 = OP_EQUALVERIFY ∧ s.getD 24 0 = OP_CHECKSIG then
    some ((s.drop 3).take 20)
  else none

/-- `IsSmallInteger`: `OP_1` to `OP_16`. -/
def isSmallInteger (opcode : UInt8) : Bool := OP_1 ≤ opcode && opcode ≤ OP_16

/-- `CScript::DecodeOP_N`. -/
def decodeOP_N (opcode : UInt8) : ℕ :=
  if opcode = OP_0 then 0 else opcode.toNat - (OP_1.toNat - 1)

/-- The key loop of `MatchMultisig`: `while (GetOp(it, opcode, data) &&
ValidSize(data))` collects keys; also returned is the instruction that ended
the loop, `none` when the read failed. -/
def collectKeys : ℕ → CScript → List valtype × Option ScriptOp
  | 0, _ => ([], none)
  | fuel + 1, pc =>
    match getScriptOp pc with
    | none => ([], none)
    | some o =>
      if CPubKey.ValidSize o.data then
        let r := collectKeys fuel o.rest
        (o.data :: r.1, r.2)
      else ([], some o)

/-- `MatchMultisig`: `OP_m <keys> OP_n OP_CHECKMULTISIG` with `n` keys and
`m ≤ n`; returns `m` and the keys. -/
def matchMultisig (s : CScript) : Option (ℕ × List valtype) :=
  if s.isEmpty ∨ s.getLastD 0 ≠ OP_CHECKMULTISIG then none
  else match getScriptOp s with
    | none => none
    | some first =>
      if !isSmallInteger first.opcode then none
      else
        let required := decodeOP_N first.opcode
        let (pubkeys, last) := collectKeys first.rest.length first.rest
        match last with
        | none => none
        | some o =>
          if !isSmallInteger o.opcode then none
          else
            let keys := decodeOP_N o.opcode
            if pubkeys.length ≠ keys ∨ keys < required then none
            else if o.rest.length = 1 then some (required, pubkeys) else none

/-- `Solver`: the template of an output script and its solutions; `none` is a
`false` return (type `TX_NONSTANDARD`). -/
def solver (s : CScript) : Option (TxnOutType × List valtype) :=
  if isPayToScriptHash s then some (TX_SCRIPTHASH, [(s.drop 2).take 20])
  else match isWitnessProgram s with
  | some (version, program) =>
    if version = 0 ∧ program.length = 20 then some (TX_WITNESS_V0_KEYHASH, [program])
    else if version = 0 ∧ program.length = 32 then some (TX_WITNESS_V0_SCRIPTHASH, [program])
    else if version ≠ 0 then some (TX_WITNESS_UNKNOWN, [[UInt8.ofNat version], program])
    else none
  | none =>
    if 1 ≤ s.length ∧ s.headD 0 = OP_RETURN ∧ isPushOnly s.tail then some (TX_NULL_DATA, [])
    else match matchPayToPubkey s with
    | some pk => some (TX_PUBKEY, [pk])
    | none =>
      match matchPayToPubkeyHash s with
      | some h => some (TX_PUBKEYHASH, [h])
      | none =>
        match matchMultisig s with
        | some (required, keys) =>
          some (TX_MULTISIG, [UInt8.ofNat required] :: keys ++ [[UInt8.ofNat keys.length]])
        | none => none

theorem solver_of_isPayToScriptHash {s : CScript} (h : isPayToScriptHash s = true) :
    solver s = some (TX_SCRIPTHASH, [(s.drop 2).take 20]) := by
  simp [solver, h]

/-- The single-key and script-hash templates have one solution, and a key
that `Solver` matches has a valid size. -/
theorem solver_single {s : CScript} {t : TxnOutType} {sol : List valtype} (hs : solver s = some (t, sol))
    (ht : t = TX_PUBKEY ∨ t = TX_PUBKEYHASH ∨ t = TX_SCRIPTHASH ∨ t = TX_WITNESS_V0_KEYHASH ∨
      t = TX_WITNESS_V0_SCRIPTHASH) :
    ∃ x, sol = [x] ∧ (t = TX_PUBKEY → CPubKey.ValidSize x) := by
  unfold solver at hs
  split_ifs at hs with hp2sh hret
  · cases hs
    exact ⟨_, rfl, nofun⟩
  all_goals split at hs
  -- the witness templates
  any_goals
    split_ifs at hs <;> cases hs
    · exact ⟨_, rfl, nofun⟩
    · exact ⟨_, rfl, nofun⟩
    · simp at ht
  · cases hs
    simp at ht
  split at hs
  · rename_i pk hpk
    cases hs
    refine ⟨pk, rfl, fun _ => ?_⟩
    unfold matchPayToPubkey at hpk
    dsimp only at hpk
    split_ifs at hpk <;> cases hpk <;> assumption
  split at hs
  · cases hs
    exact ⟨_, rfl, nofun⟩
  split at hs
  · cases hs
    simp at ht
  · cases hs

/-! ## Destinations -/

/-- `CTxDestination`, the variant of address kinds. -/
inductive CTxDestination
  | CNoDestination
  | CKeyID (hash : valtype)
  | CScriptID (hash : valtype)
  | WitnessV0ScriptHash (hash : valtype)
  | WitnessV0KeyHash (hash : valtype)
  | WitnessUnknown (version : ℕ) (program : valtype)
  deriving DecidableEq, Repr

open CTxDestination

/-- `ExtractDestination`: the address of a single-key or script-hash template. -/
def extractDestination (crypto : Crypto) (s : CScript) : Option CTxDestination :=
  match solver s with
  | some (TX_PUBKEY, pk :: _) =>
    let pubKey := CPubKey.ofBytes pk
    if !pubKey.IsValid then none else some (CKeyID (pubKey.GetID crypto))
  | some (TX_PUBKEYHASH, h :: _) => some (CKeyID h)
  | some (TX_SCRIPTHASH, h :: _) => some (CScriptID h)
  | some (TX_WITNESS_V0_KEYHASH, h :: _) => some (WitnessV0KeyHash h)
  | some (TX_WITNESS_V0_SCRIPTHASH, h :: _) => some (WitnessV0ScriptHash h)
  | some (TX_WITNESS_UNKNOWN, v :: program :: _) => some (WitnessUnknown (v.headD 0).toNat program)
  | _ => none

/-- `CScript::EncodeOP_N`. -/
def encodeOP_N (n : ℕ) : UInt8 := if n = 0 then OP_0 else UInt8.ofNat (OP_1.toNat + n - 1)

/-- `GetScriptForDestination`: the empty script for `CNoDestination`. -/
def getScriptForDestination : CTxDestination → CScript
  | CNoDestination => []
  | CKeyID h => [OP_DUP, OP_HASH160] ++ pushData h ++ [OP_EQUALVERIFY, OP_CHECKSIG]
  | CScriptID h => [OP_HASH160] ++ pushData h ++ [OP_EQUAL]
  | WitnessV0KeyHash h => [OP_0] ++ pushData h
  | WitnessV0ScriptHash h => [OP_0] ++ pushData h
  | WitnessUnknown v program => [encodeOP_N v] ++ pushData program

/-- A script hash makes a pay-to-script-hash script. -/
theorem isPayToScriptHash_scriptID {h : valtype} (hh : h.length = 20) :
    isPayToScriptHash (getScriptForDestination (CScriptID h)) = true := by
  have hpush : pushData h = 20 :: h := by simp [pushData, pushPrefix, hh]
  simp [getScriptForDestination, isPayToScriptHash, hpush, hh, List.getD_eq_getElem?_getD]

/-- No script that starts with an operator above `OP_16` is a witness program. -/
theorem isWitnessProgram_of_OP_16_lt {v : UInt8} (hv : OP_16 < v) (s : CScript) :
    isWitnessProgram (v :: s) = none := by
  have hv0 : v ≠ OP_0 := by
    rintro rfl
    exact absurd hv (by decide)
  cases s with
  | nil => rfl
  | cons len program => simp [isWitnessProgram, hv0, hv]

/-! ## Destinations of a key -/

/-- `CPubKey::IsCompressed`: `size() == COMPRESSED_PUBLIC_KEY_SIZE`. -/
def CPubKey.IsCompressed (pk : CPubKey) : Bool := CPubKey.GetLen (pk.vch.headD 0xFF) == 33

/-- `OutputType`. -/
inductive OutputType
  | LEGACY
  | P2SH_SEGWIT
  | BECH32
  deriving DecidableEq, Repr

/-- `GetDestinationForKey`: uncompressed keys have only their legacy address. -/
def getDestinationForKey (crypto : Crypto) (key : CPubKey) : OutputType → CTxDestination
  | .LEGACY => CKeyID (key.GetID crypto)
  | .P2SH_SEGWIT =>
    if !key.IsCompressed then CKeyID (key.GetID crypto)
    else CScriptID (crypto.hash160 (getScriptForDestination (WitnessV0KeyHash (key.GetID crypto))))
  | .BECH32 =>
    if !key.IsCompressed then CKeyID (key.GetID crypto)
    else WitnessV0KeyHash (key.GetID crypto)

end XPChain
