import XPChain.Util.Bech32
import XPChain.Util.ConvertBits
import XPChain.Util.Base58
import XPChain.Script.Standard

/-!
# Addresses

`DestinationEncoder` and `DecodeDestination` of `key_io.cpp`: a key or script
hash is written in base58 with a checksum behind the chain's one-byte
version prefix; a witness program is written in bech32 behind the chain's
human-readable part, its witness version first and then its bytes regrouped
into 5-bit values (`ConvertBits`).  `DecodeDestination` tries base58 first
and falls back to bech32 when the base58 payload has no prefix and size it
knows.

Only the parts of `CChainParams` that these functions read are kept.  The
hashes of `CKeyID`, `CScriptID` and the witness hashes are `uint160` or
`uint256` in the source and byte lists here.

## Main definitions

* `CChainParams`, `CMainParams`, `CTestNetParams`, `CRegTestParams`.
* `DestinationEncoder`, `DecodeWitnessDestination`, `DecodeDestination`,
  `IsValidDestination`, `IsValidDestinationString`.

## Main statements

* `DecodeWitnessDestination_DestinationEncoder` — a witness destination is
  read back from its address.
-/

set_option autoImplicit false

namespace XPChain

open CTxDestination

/-- The parts of `CChainParams` that `key_io.cpp` reads for addresses:
`base58Prefixes[PUBKEY_ADDRESS]`, `base58Prefixes[SCRIPT_ADDRESS]` and
`bech32_hrp`. -/
structure CChainParams where
  PUBKEY_ADDRESS : List UInt8
  SCRIPT_ADDRESS : List UInt8
  bech32_hrp : List Char
  deriving DecidableEq, Repr

def CMainParams : CChainParams := ⟨[76], [28], ['x', 'p', 'c']⟩

def CTestNetParams : CChainParams := ⟨[138], [88], ['t', 'x', 'p', 'c']⟩

def CRegTestParams : CChainParams := ⟨[138], [88], ['x', 'p', 'c', 'r', 't']⟩

/-- `IsValidDestination`: anything but `CNoDestination`. -/
def IsValidDestination : CTxDestination → Bool
  | CNoDestination => false
  | _ => true

/-- `DestinationEncoder(params)` applied to a destination.  With padding
`ConvertBits` always returns `true`, and the source ignores what it returns. -/
def DestinationEncoder (params : CChainParams) (Hash : List UInt8 → uint256) :
    CTxDestination → Except String (List Char)
  | CKeyID id => EncodeBase58Check Hash (params.PUBKEY_ADDRESS ++ id)
  | CScriptID id => EncodeBase58Check Hash (params.SCRIPT_ADDRESS ++ id)
  | WitnessV0KeyHash id => pure (Bech32.Encode params.bech32_hrp (0 :: (ConvertBits 8 5 true id).getD []))
  | WitnessV0ScriptHash id => pure (Bech32.Encode params.bech32_hrp (0 :: (ConvertBits 8 5 true id).getD []))
  | WitnessUnknown version program =>
    if version < 1 ∨ 16 < version ∨ program.length < 2 ∨ 40 < program.length then pure []
    else pure (Bech32.Encode params.bech32_hrp (version.toUInt8 :: (ConvertBits 8 5 true program).getD []))
  | CNoDestination => pure []

/-- The bech32 half of `DecodeDestination`, from the pair `bech32::Decode`
returned: the witness version, then the program's bytes. -/
def DecodeWitnessDestination (params : CChainParams) (bech : List Char × List UInt8) : CTxDestination :=
  if 0 < bech.2.length ∧ bech.1 = params.bech32_hrp then
    -- the first 5-bit symbol is the witness version
    let version := (bech.2.headD 0).toNat
    match ConvertBits 5 8 false bech.2.tail with
    | none => CNoDestination
    | some data =>
      if version = 0 then
        if data.length = 20 then WitnessV0KeyHash data
        else if data.length = 32 then WitnessV0ScriptHash data
        else CNoDestination
      else if 16 < version ∨ data.length < 2 ∨ 40 < data.length then CNoDestination
      else WitnessUnknown version data
  else CNoDestination

/-- `DecodeDestination(str, params)`: a base58 payload of a known prefix and
size, or else a bech32 witness program. -/
def DecodeDestination (params : CChainParams) (Hash : List UInt8 → uint256) (str : List Char) :
    Except String CTxDestination := do
  match ← DecodeBase58CheckStr Hash str with
  | some data =>
    let pubkey_prefix := params.PUBKEY_ADDRESS
    let script_prefix := params.SCRIPT_ADDRESS
    if data.length = 20 + pubkey_prefix.length ∧ data.take pubkey_prefix.length = pubkey_prefix then
      pure (CKeyID (data.drop pubkey_prefix.length))
    else if data.length = 20 + script_prefix.length ∧ data.take script_prefix.length = script_prefix then
      pure (CScriptID (data.drop script_prefix.length))
    else pure (DecodeWitnessDestination params (Bech32.Decode str))
  | none => pure (DecodeWitnessDestination params (Bech32.Decode str))

/-- `IsValidDestinationString(str, params)`. -/
def IsValidDestinationString (params : CChainParams) (Hash : List UInt8 → uint256) (str : List Char) :
    Except String Bool :=
  IsValidDestination <$> DecodeDestination params Hash str

/-! ## Witness addresses -/

/-- A human-readable part behind which every witness address fits: non-empty,
printable without uppercase letters, and at most 18 characters, as the
longest data part, a 40-byte program, takes 72 of the 90. -/
def CChainParams.ValidBech32HRP (params : CChainParams) : Prop :=
  params.bech32_hrp ≠ [] ∧ (∀ c ∈ params.bech32_hrp, Bech32.IsHrpChar c) ∧ params.bech32_hrp.length ≤ 18

-- the membership test goes through the list, not through every character
instance (params : CChainParams) : Decidable params.ValidBech32HRP :=
  @instDecidableAnd _ _ _ (@instDecidableAnd _ _ (List.decidableBAll _ _) _)

/-- The destinations `DestinationEncoder` writes in bech32: a 20-byte key
hash, a 32-byte script hash, or a program of 2 to 40 bytes under a version
from 1 to 16. -/
def IsWitnessDestination : CTxDestination → Prop
  | CNoDestination => False
  | CKeyID _ => False
  | CScriptID _ => False
  | WitnessV0KeyHash h => h.length = 20
  | WitnessV0ScriptHash h => h.length = 32
  | WitnessUnknown version program => 1 ≤ version ∧ version ≤ 16 ∧ 2 ≤ program.length ∧ program.length ≤ 40

/-- A witness version and a program of at most 40 bytes, written as bech32
data: `Decode` returns the version and 5-bit values that regroup into the
program. -/
theorem Decode_Encode_witness {params : CChainParams} (hp : params.ValidBech32HRP) (version : UInt8)
    (hv : version.toNat < 32) (program : List UInt8) (hlen : program.length ≤ 40) :
    ∃ data, Bech32.Decode (Bech32.Encode params.bech32_hrp (version :: (ConvertBits 8 5 true program).getD [])) =
        (params.bech32_hrp, version :: data) ∧ ConvertBits 5 8 false data = some program := by
  obtain ⟨hne, hchars, hshort⟩ := hp
  obtain ⟨data, henc, hdec, hlt, hdlen⟩ := ConvertBits_roundTrip program
  refine ⟨data, ?_, hdec⟩
  rw [henc, Option.getD_some]
  apply Bech32.Decode_Encode hne hchars
  · intro v hv'
    rcases List.mem_cons.mp hv' with rfl | hv'
    · exact hv
    · exact hlt v hv'
  · rw [List.length_cons, hdlen]
    omega

/-- A witness destination is read back from its address: `bech32::Decode`
returns the chain's human-readable part and data, and the bech32 half of
`DecodeDestination` turns the data into the same destination. -/
theorem DecodeWitnessDestination_DestinationEncoder {params : CChainParams} (hp : params.ValidBech32HRP)
    (Hash : List UInt8 → uint256) {dest : CTxDestination} (hdest : IsWitnessDestination dest) :
    ∃ s data, DestinationEncoder params Hash dest = .ok s ∧ Bech32.Decode s = (params.bech32_hrp, data) ∧
      DecodeWitnessDestination params (params.bech32_hrp, data) = dest := by
  cases dest with
  | CNoDestination => exact hdest.elim
  | CKeyID _ => exact hdest.elim
  | CScriptID _ => exact hdest.elim
  | WitnessV0KeyHash h =>
    obtain ⟨data, hdec, hconv⟩ := Decode_Encode_witness hp 0 (by decide) h (show h.length ≤ 40 by
      rw [show h.length = 20 from hdest]; decide)
    refine ⟨_, _, rfl, hdec, ?_⟩
    simp [DecodeWitnessDestination, hconv, show h.length = 20 from hdest]
  | WitnessV0ScriptHash h =>
    obtain ⟨data, hdec, hconv⟩ := Decode_Encode_witness hp 0 (by decide) h (show h.length ≤ 40 by
      rw [show h.length = 32 from hdest]; decide)
    refine ⟨_, _, rfl, hdec, ?_⟩
    simp [DecodeWitnessDestination, hconv, show h.length = 32 from hdest]
  | WitnessUnknown version program =>
    obtain ⟨h1, h16, h2, h40⟩ := hdest
    -- the version is written as one 5-bit value and read back as a number
    have hver : version.toUInt8.toNat = version := by
      rw [Nat.toUInt8_eq, UInt8.toNat_ofNat', Nat.mod_eq_of_lt (by omega)]
    obtain ⟨data, hdec, hconv⟩ := Decode_Encode_witness hp version.toUInt8 (by omega) program h40
    have hrange : ¬(version < 1 ∨ 16 < version ∨ program.length < 2 ∨ 40 < program.length) := by omega
    refine ⟨_, _, by rw [DestinationEncoder, if_neg hrange]; rfl, hdec, ?_⟩
    simp [DecodeWitnessDestination, hconv, hver, show version ≠ 0 by omega]
    omega

/-- Segwit addresses round-trip on each chain, bech32 strings round-trip
behind a non-empty human-readable part, and bytes round-trip through 5-bit
values. -/
theorem segwit_address_roundTrip :
    (∀ params ∈ [CMainParams, CTestNetParams, CRegTestParams], ∀ (Hash : List UInt8 → uint256)
      (dest : CTxDestination), IsWitnessDestination dest →
        ∃ s data, DestinationEncoder params Hash dest = .ok s ∧ Bech32.Decode s = (params.bech32_hrp, data) ∧
          DecodeWitnessDestination params (params.bech32_hrp, data) = dest) ∧
    (∀ (hrp : List Char) (values : List UInt8), hrp ≠ [] → (∀ c ∈ hrp, Bech32.IsHrpChar c) →
      (∀ v ∈ values, v.toNat < 32) → hrp.length + values.length + 7 ≤ 90 →
        Bech32.Decode (Bech32.Encode hrp values) = (hrp, values)) ∧
    ∀ b : List UInt8, (ConvertBits 8 5 true b).bind (ConvertBits 5 8 false) = some b := by
  refine ⟨fun params hparams Hash dest hdest => ?_,
    fun hrp values hne hhrp hv hlen => Bech32.Decode_Encode hne hhrp hv hlen, fun b => ?_⟩
  · -- the three human-readable parts are short and lowercase
    have hp : params.ValidBech32HRP := by
      simp only [List.mem_cons, List.not_mem_nil, or_false] at hparams
      rcases hparams with rfl | rfl | rfl <;> decide
    exact DecodeWitnessDestination_DestinationEncoder hp Hash hdest
  · obtain ⟨data, henc, hdec, -⟩ := ConvertBits_roundTrip b
    rw [henc, Option.bind_some, hdec]

theorem segwit_address_roundTrip_keyHash :
    ∃ s data, DestinationEncoder CMainParams (fun _ => 0) (WitnessV0KeyHash (List.replicate 20 7)) = .ok s ∧
      Bech32.Decode s = (CMainParams.bech32_hrp, data) ∧
      DecodeWitnessDestination CMainParams (CMainParams.bech32_hrp, data) = WitnessV0KeyHash (List.replicate 20 7) :=
  segwit_address_roundTrip.1 CMainParams (by simp) (fun _ => 0) _ (by simp [IsWitnessDestination])

/-- With an empty human-readable part the separator is the first character,
and `Decode` rejects what `Encode` wrote. -/
theorem Decode_Encode_empty_hrp : Bech32.Decode (Bech32.Encode [] [0]) ≠ ([], [0]) := by
  decide

/-! ## Base58 addresses -/

/-- `DecodeBase58Check` on the `std::string` that `EncodeBase58Check` wrote
returns the payload. -/
theorem DecodeBase58CheckStr_EncodeBase58Check (Hash : List UInt8 → uint256) (payload : List UInt8) :
    ∃ s, EncodeBase58Check Hash payload = .ok s ∧ DecodeBase58CheckStr Hash s = .ok (some payload) := by
  obtain ⟨s, henc, hnul, hdec⟩ := DecodeBase58Check_EncodeBase58Check Hash payload
  exact ⟨s, henc, by rw [DecodeBase58CheckStr_eq hnul, hdec]⟩

/-- A key hash or a script hash of 20 bytes is read back from its base58
address, on a chain whose two version prefixes differ and have one length. -/
theorem DecodeDestination_DestinationEncoder_base58 {params : CChainParams}
    (hlen : params.PUBKEY_ADDRESS.length = params.SCRIPT_ADDRESS.length)
    (hne : params.PUBKEY_ADDRESS ≠ params.SCRIPT_ADDRESS) (Hash : List UInt8 → uint256) {h : List UInt8}
    (hh : h.length = 20) :
    (∃ s, DestinationEncoder params Hash (CKeyID h) = .ok s ∧ DecodeDestination params Hash s = .ok (CKeyID h)) ∧
    (∃ s, DestinationEncoder params Hash (CScriptID h) = .ok s ∧
      DecodeDestination params Hash s = .ok (CScriptID h)) := by
  constructor
  · obtain ⟨s, henc, hdec⟩ := DecodeBase58CheckStr_EncodeBase58Check Hash (params.PUBKEY_ADDRESS ++ h)
    refine ⟨s, henc, ?_⟩
    have hkey : (params.PUBKEY_ADDRESS ++ h).length = 20 + params.PUBKEY_ADDRESS.length ∧
        (params.PUBKEY_ADDRESS ++ h).take params.PUBKEY_ADDRESS.length = params.PUBKEY_ADDRESS := by
      rw [List.length_append, hh, Nat.add_comm, List.take_left]
      exact ⟨rfl, rfl⟩
    rw [DecodeDestination, hdec, Check.ok_bind]
    dsimp only
    rw [if_pos hkey, List.drop_left]
    rfl
  · obtain ⟨s, henc, hdec⟩ := DecodeBase58CheckStr_EncodeBase58Check Hash (params.SCRIPT_ADDRESS ++ h)
    refine ⟨s, henc, ?_⟩
    -- the script payload starts with the script prefix, so not with the key prefix
    have hnotkey : ¬((params.SCRIPT_ADDRESS ++ h).length = 20 + params.PUBKEY_ADDRESS.length ∧
        (params.SCRIPT_ADDRESS ++ h).take params.PUBKEY_ADDRESS.length = params.PUBKEY_ADDRESS) := by
      rw [hlen, List.take_left]
      exact fun hk => hne hk.2.symm
    have hscript : (params.SCRIPT_ADDRESS ++ h).length = 20 + params.SCRIPT_ADDRESS.length ∧
        (params.SCRIPT_ADDRESS ++ h).take params.SCRIPT_ADDRESS.length = params.SCRIPT_ADDRESS := by
      rw [List.length_append, hh, Nat.add_comm, List.take_left]
      exact ⟨rfl, rfl⟩
    rw [DecodeDestination, hdec, Check.ok_bind]
    dsimp only
    rw [if_neg hnotkey, if_pos hscript, List.drop_left]
    rfl

theorem DecodeDestination_DestinationEncoder_base58_main :
    (∃ s, DestinationEncoder CMainParams (fun _ => 0) (CKeyID (List.replicate 20 1)) = .ok s ∧
      DecodeDestination CMainParams (fun _ => 0) s = .ok (CKeyID (List.replicate 20 1))) ∧
    (∃ s, DestinationEncoder CMainParams (fun _ => 0) (CScriptID (List.replicate 20 1)) = .ok s ∧
      DecodeDestination CMainParams (fun _ => 0) s = .ok (CScriptID (List.replicate 20 1))) :=
  DecodeDestination_DestinationEncoder_base58 rfl (by decide) (fun _ => 0) (List.length_replicate)

end XPChain
