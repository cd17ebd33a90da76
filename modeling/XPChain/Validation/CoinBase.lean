import XPChain.Primitives.Serialize

/-!
# The coinbase of a proof-of-stake block

A proof-of-stake coinbase splits the block reward over several outputs, and
its first output carries `OP_RETURN <n> <signature> <pubkey>`: the number of
reward outputs, and the staker's signature over them (`GetRewardHash`).
`VerifyCoinBaseTx` of `validation.cpp` parses that output back, checks the
output count and the zero-valued first and last outputs, checks that the key
owns the staked coin (`EqualDestination`) and verifies the signature.

The curve operations of `CPubKey` (`IsFullyValid`, `Verify`) are parameters,
bundled in `Secp256k1`; the double SHA-256 of `GetRewardHash` is a parameter
`Hash` over the serialised bytes.  Reads past the end of a transaction list
are modelled as a rejection: `ConnectBlock` calls `VerifyCoinBaseTx` only on a
block with a coinstake and a coinbase of at least three outputs.

## Main definitions

* `txSigScript` — the output script `CreateTxSig` writes.
* `parseTxSig` — the three reads `VerifyCoinBaseTx` makes of it.
* `getRewardHash`, `equalDestination`, `verifyCoinBaseTx`.

## Main statements

* `parseTxSig_txSigScript` — the reads give back what was written.
* `verifyCoinBaseTx_of_vout` — on a coinbase laid out as the minter lays it out,
  `VerifyCoinBaseTx` comes down to the key check and the signature check.
-/

set_option autoImplicit false

namespace XPChain

open LittleEndian TxnOutType CTxDestination

/-- The elliptic-curve operations of `CPubKey`. -/
structure Secp256k1 where
  IsFullyValid : CPubKey → Bool
  Verify : CPubKey → uint256 → valtype → Bool

/-! ## The signature output -/

/-- `CScript() << OP_RETURN << CScriptNum(n) << vchSig << vchPubKey`. -/
def txSigScript (n : ℕ) (vchSig vchPubKey : valtype) : CScript :=
  [OP_RETURN] ++ pushData (CScriptNum.serialize n) ++ pushData vchSig ++ pushData vchPubKey

/-- The reads `VerifyCoinBaseTx` makes of the signature output: the leading
`OP_RETURN`, the output count (at most four bytes, read by a non-minimal
`CScriptNum` and `getint`), the signature and the public key; `none` where
it returns `false`. -/
def parseTxSig : CScript → Option (ℤ × valtype × valtype)
  | [] => none
  | op :: ptr =>
    if op ≠ OP_RETURN then none else do
      let oSize ← getScriptOp ptr
      if 4 < oSize.data.length then none else do
        let oSig ← getScriptOp oSize.rest
        let oPubKey ← getScriptOp oSig.rest
        pure (CScriptNum.getint (CScriptNum.setVch oSize.data), oSig.data, oPubKey.data)

/-- The reads give back the count, signature and key that were written. -/
theorem parseTxSig_txSigScript {n : ℕ} {vchSig vchPubKey : valtype} (hn : n < 2 ^ 31)
    (hsig : vchSig.length < 2 ^ 32) (hpk : vchPubKey.length < 2 ^ 32) :
    parseTxSig (txSigScript n vchSig vchPubKey) = some ((n : ℤ), vchSig, vchPubKey) := by
  have hlen := CScriptNum.length_serialize_natCast_le hn
  have hval : CScriptNum.getint (CScriptNum.setVch (CScriptNum.serialize n)) = n := by
    rw [CScriptNum.setVch_serialize_natCast (by omega)]
    exact CScriptNum.getint_of_lt (by omega) (by exact_mod_cast hn)
  have hpush : getScriptOp (pushData vchPubKey) = some ⟨pushOpcode vchPubKey, vchPubKey, []⟩ := by
    simpa using getScriptOp_pushData vchPubKey [] hpk
  simp only [txSigScript, List.singleton_append, List.append_assoc, parseTxSig]
  simp [getScriptOp_pushData _ _ (show (CScriptNum.serialize n).length < 2 ^ 32 by omega),
    getScriptOp_pushData _ _ hsig, hpush, hval, Nat.not_lt.mpr hlen]

/-! ## `GetRewardHash` and `EqualDestination` -/

/-- `GetRewardHash`: the hash of each reward output's script and amount, the
block time, and the coinstake's first input; `none` where that input is
missing. -/
def getRewardHash (Hash : List UInt8 → uint256) (vReward : List (CScript × CAmount))
    (txCoinStake : CTransaction) (nTime : ℕ) : Option uint256 :=
  txCoinStake.vin.head?.map fun txin =>
    Hash (vReward.flatMap (fun p => serializeScript p.1 ++ serializeAmount p.2) ++
      serializeUInt32 nTime ++ txin.serialize)

/-- `EqualDestination`: the staked output pays to the key, as pay-to-key-hash,
pay-to-witness-key-hash, or pay-to-script-hash of the key's witness program. -/
def equalDestination (crypto : Crypto) (txCoinStake : CTransaction) (pubkey : CPubKey) : Bool :=
  match txCoinStake.vout.head?.bind fun txout => solver txout.scriptPubKey with
  | some (TX_SCRIPTHASH, h :: _) =>
    match getDestinationForKey crypto pubkey .P2SH_SEGWIT with
    | CScriptID scriptID => scriptID == h
    | _ => false
  | some (TX_PUBKEYHASH, h :: _) => h == pubkey.GetID crypto
  | some (TX_WITNESS_V0_KEYHASH, h :: _) => h == pubkey.GetID crypto
  | _ => false

/-! ## `VerifyCoinBaseTx` -/

/-- `VerifyCoinBaseTx`.  The parsed count is an `int` compared with the
`size_t` value `vout.size() - 2`, so both sides are taken modulo `2 ^ 64`. -/
def verifyCoinBaseTx (crypto : Crypto) (Hash : List UInt8 → uint256) (secp : Secp256k1)
    (block : CBlock) : Bool :=
  match block.vtx with
  | [] => false
  | coinbase :: vtx =>
    match coinbase.vout with
    | [] => false
    | txout0 :: vout =>
      match parseTxSig txout0.scriptPubKey with
      | none => false
      | some (size, vchSig, vchPubKey) =>
        let pubkey := CPubKey.ofBytes vchPubKey
        if !secp.IsFullyValid pubkey then false
        else if (size % 2 ^ 64).toNat ≠ (vout.length + 1 + 2 ^ 64 - 2) % 2 ^ 64 then false
        else if txout0.nValue ≠ 0 then false
        else if ((txout0 :: vout).getLast (List.cons_ne_nil _ _)).nValue ≠ 0 then false
        else
          let rewardValues := (vout.take size.toNat).map fun txout => (txout.scriptPubKey, txout.nValue)
          match vtx with
          | [] => false
          | txCoinStake :: _ =>
            equalDestination crypto txCoinStake pubkey &&
              (getRewardHash Hash rewardValues txCoinStake block.nTime).any fun hash =>
                secp.Verify pubkey hash vchSig

/-- The reward outputs of a split coinbase, from the minter's
`(script, amount)` pairs. -/
def rewardOutputs (rewardValue : List (CScript × CAmount)) : List CTxOut :=
  rewardValue.map fun p => ⟨p.2, p.1⟩

@[simp] theorem length_rewardOutputs (rewardValue : List (CScript × CAmount)) :
    (rewardOutputs rewardValue).length = rewardValue.length := by
  simp [rewardOutputs]

theorem rewardOutputs_map (rewardValue : List (CScript × CAmount)) :
    (rewardOutputs rewardValue).map (fun txout => (txout.scriptPubKey, txout.nValue)) =
      rewardValue := by
  simp [rewardOutputs, Function.comp_def]

/-- On a coinbase whose outputs are the signature output, the reward outputs
it counts and a last zero-valued output, `VerifyCoinBaseTx` reads back the
count, the signature and the key, rebuilds the reward list it was given,
and comes down to the key check, `EqualDestination`, and the signature
check over `GetRewardHash`. -/
theorem verifyCoinBaseTx_of_vout (crypto : Crypto) (Hash : List UInt8 → uint256)
    (secp : Secp256k1) {block : CBlock} {coinbase txCoinStake : CTransaction}
    {rest : List CTransaction} {rewardValue : List (CScript × CAmount)}
    {vchSig vchPubKey commitment : CScript}
    (hvtx : block.vtx = coinbase :: txCoinStake :: rest)
    (hvout : coinbase.vout = ⟨0, txSigScript rewardValue.length vchSig vchPubKey⟩ ::
      (rewardOutputs rewardValue ++ [(⟨0, commitment⟩ : CTxOut)]))
    (hk : rewardValue.length < 2 ^ 31) (hsig : vchSig.length < 2 ^ 32)
    (hpk : vchPubKey.length < 2 ^ 32) :
    verifyCoinBaseTx crypto Hash secp block =
      (secp.IsFullyValid (CPubKey.ofBytes vchPubKey) &&
        equalDestination crypto txCoinStake (CPubKey.ofBytes vchPubKey) &&
        (getRewardHash Hash rewardValue txCoinStake block.nTime).any fun hash =>
          secp.Verify (CPubKey.ofBytes vchPubKey) hash vchSig) := by
  have hcount : ((rewardValue.length : ℤ) % 2 ^ 64).toNat =
      ((rewardOutputs rewardValue ++ [(⟨0, commitment⟩ : CTxOut)]).length + 1 + 2 ^ 64 - 2) % 2 ^ 64 := by
    simp only [List.length_append, length_rewardOutputs, List.length_singleton]
    omega
  have hlast : ((⟨0, txSigScript rewardValue.length vchSig vchPubKey⟩ ::
      (rewardOutputs rewardValue ++ [(⟨0, commitment⟩ : CTxOut)]) : List CTxOut).getLast
        (List.cons_ne_nil _ _)).nValue = 0 := by
    simp
  have htake : (rewardOutputs rewardValue ++ [(⟨0, commitment⟩ : CTxOut)]).take
      ((rewardValue.length : ℤ).toNat) = rewardOutputs rewardValue := by
    simp
  unfold verifyCoinBaseTx
  simp only [hvtx, hvout, parseTxSig_txSigScript hk hsig hpk]
  cases secp.IsFullyValid (CPubKey.ofBytes vchPubKey) with
  | false => rfl
  | true =>
    simp only [Bool.not_true, Bool.false_eq_true, if_false, hcount, ne_eq, not_true_eq_false,
      hlast, htake, rewardOutputs_map, Bool.true_and]

end XPChain
