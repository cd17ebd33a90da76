import XPChain.Script.Run
import XPChain.Primitives.Transaction
import XPChain.Policy.Stake

/-!
# Block signatures

A proof-of-stake block carries a signature: `SignBlock` (`miner.cpp`) signs
the header hash and appends the signature as the last push of the coinbase
`scriptSig`.  `CheckBlockSignature` (`validation.cpp`) finds the keys that
may sign in the coinstake `vtx[1]` (`GetPubKeysFromCoinStakeTx`), strips the
signature and recomputes the hash the signer saw
(`MakeBlockHashExcludedSignature`), and accepts when one key verifies it.

`GetPubKeyFromScript` can abort the node: its `assert(depth <= 2)` and the
`back()` of an empty stack.  Its result is an `Option` for the abort around
an `Option` for the `false` return.

## Main definitions

* `getPubKeyFromScript`, `getPubKeysFromCoinStakeTx`.
* `lastScriptOp`, `makeBlockHashExcludedSignature`.
* `checkBlockSignature`, `KeyStore`, `signBlock`.
-/

set_option autoImplicit false

namespace XPChain

open TxnOutType

/-! ## The keys of a coinstake -/

/-- `GetPubKeyFromScript(scriptPubKey, txIn, vPubKey, depth)` with `fuel`
levels of recursion left: `none` is an abort, `some none` is `false`, and
`some (some keys)` is `true` with `vPubKey`.  Each level checks
`depth <= 2` before it recurses at `depth + 1`, so from depth 0 four levels
reach the `assert` and the fuel is never the first to run out. -/
def getPubKeyFromScriptAux (crypto : Crypto) (txIn : CTxIn) :
    ℕ → CScript → ℕ → Option (Option (List CPubKey))
  | 0, _, _ => none
  | fuel + 1, scriptPubKey, depth =>
    if 2 < depth then none
    else match solver scriptPubKey with
    | none => some none
    | some (type, vSolutions) =>
      match type with
      | TX_PUBKEY => some (some [CPubKey.ofBytes (vSolutions.headD [])])
      | TX_MULTISIG => some (some ((vSolutions.drop 1).dropLast.map CPubKey.ofBytes))
      | TX_PUBKEYHASH =>
        match evalScript crypto [] txIn.scriptSig SCRIPT_VERIFY_NONE BaseSignatureChecker .BASE with
        | .error _ => some none
        -- `stack.back()`: an abort on the empty stack
        | .ok stack => stack.head?.map fun top => some [CPubKey.ofBytes top]
      | TX_WITNESS_V0_KEYHASH =>
        txIn.scriptWitness.getLast?.map fun item => some [CPubKey.ofBytes item]
      | TX_SCRIPTHASH =>
        match evalScript crypto [] txIn.scriptSig SCRIPT_VERIFY_NONE BaseSignatureChecker .BASE with
        | .error _ => some none
        | .ok stack => stack.head?.bind fun redeemScript =>
          getPubKeyFromScriptAux crypto txIn fuel redeemScript (depth + 1)
      | TX_WITNESS_V0_SCRIPTHASH =>
        txIn.scriptWitness.getLast?.bind fun redeemScript =>
          getPubKeyFromScriptAux crypto txIn fuel redeemScript (depth + 1)
      | _ => some none

/-- `GetPubKeyFromScript(scriptPubKey, txIn, vPubKey)`, at depth 0. -/
def getPubKeyFromScript (crypto : Crypto) (scriptPubKey : CScript) (txIn : CTxIn) :
    Option (Option (List CPubKey)) :=
  getPubKeyFromScriptAux crypto txIn 4 scriptPubKey 0

/-- `GetPubKeysFromCoinStakeTx`: the keys of `vout[0]` read against `vin[0]`,
all of them valid.  A transaction without them is an abort (the source
indexes both vectors unchecked). -/
def getPubKeysFromCoinStakeTx (crypto : Crypto) (txCoinStake : CTransaction) :
    Option (Option (List CPubKey)) :=
  match txCoinStake.vout.head?, txCoinStake.vin.head? with
  | some txOut, some txIn =>
    (getPubKeyFromScript crypto txOut.scriptPubKey txIn).map fun r =>
      r.filter fun vPubKeys => vPubKeys.all CPubKey.IsValid
  | _, _ => none

/-! ## Stripping the signature -/

/-- The loop `while (GetScriptOp(itr, end, op, &sig)) if (itr == end) break;`:
the opcode and data of the last instruction of a script that reads to its
end, and `OP_INVALIDOPCODE` with no data when a read fails (on the empty
script too).  Every read consumes a byte, so the script's length is enough
fuel. -/
def lastScriptOp : ℕ → CScript → UInt8 × valtype
  | 0, _ => (OP_INVALIDOPCODE, [])
  | fuel + 1, pc =>
    match getScriptOp pc with
    | none => (OP_INVALIDOPCODE, [])
    | some o => if o.rest = [] then (o.opcode, o.data) else lastScriptOp fuel o.rest

/-- `MakeBlockHashExcludedSignature`: the hash of the block whose coinbase
`scriptSig` has lost its last push, with the merkle root recomputed, and
the pushed signature; `none` when the last instruction is not a direct push
(`op >= OP_PUSHDATA1`). -/
def makeBlockHashExcludedSignature (hashes : BlockHashes) (block : CBlock) :
    Option (uint256 × valtype) := do
  let scriptSig ← block.coinbaseScriptSig
  let (op, sig) := lastScriptOp scriptSig.length scriptSig
  if OP_PUSHDATA1 ≤ op then none
  else
    let cpBlock := block.withCoinbaseScriptSig hashes
      (scriptSig.take (scriptSig.length - (op.toNat + 1)))
    pure (hashes.GetHash cpBlock.toCBlockHeader, sig)

/-- `CheckBlockSignature`, with `CPubKey::Verify` as `verify`: `none` is an
abort in the key extraction. -/
def checkBlockSignature (crypto : Crypto) (hashes : BlockHashes)
    (verify : CPubKey → uint256 → valtype → Bool) (block : CBlock) : Option Bool :=
  match block.vtx with
  | _ :: txCoinStake :: _ =>
    (getPubKeysFromCoinStakeTx crypto txCoinStake).map fun r =>
      match r, makeBlockHashExcludedSignature hashes block with
      | some pubkeys, some (hashBlock, signature) =>
        pubkeys.any fun pubkey => verify pubkey hashBlock signature
      | _, _ => false
  | _ => none

/-! ## Signing -/

/-- The wallet operations the minter uses: `CWallet::GetKey` and
`GetCScript` by id, `CKey::GetPubKey`, and `CKey::Sign` of a hash.
`GetPubKey` asserts that the key it derives is valid and as long as its first
byte says, and `Sign` writes a DER signature of at most
`CPubKey::SIGNATURE_SIZE` bytes. -/
structure KeyStore (CKey : Type) where
  GetKey : valtype → Option CKey
  GetCScript : valtype → Option CScript
  GetPubKey : CKey → CPubKey
  Sign : CKey → uint256 → Option valtype
  validSize_GetPubKey : ∀ key, CPubKey.ValidSize (GetPubKey key).vch = true
  length_Sign_le : ∀ key hash vchSig, Sign key hash = some vchSig → vchSig.length ≤ 72

/-- `SignBlock`: sign the header hash with the first coinstake key the
wallet holds and append the signature to the coinbase `scriptSig`.  `none`
is an abort (`assert(vtx.size() >= 2)`, or the key extraction's), `some none`
is `false`, and `some (some block')` is the signed block. -/
def signBlock {CKey : Type} (crypto : Crypto) (hashes : BlockHashes) (wallet : KeyStore CKey)
    (block : CBlock) : Option (Option CBlock) :=
  match block.vtx, block.coinbaseScriptSig with
  | _ :: txCoinStake :: _, some scriptSig =>
    (getPubKeysFromCoinStakeTx crypto txCoinStake).map fun r => do
      let vPubKeys ← r
      let sig ← vPubKeys.findSome? fun pubkey =>
        (wallet.GetKey (pubkey.GetID crypto)).bind fun privkey =>
          wallet.Sign privkey (hashes.GetHash block.toCBlockHeader)
      pure (block.withCoinbaseScriptSig hashes (scriptSig ++ pushData sig))
  | _, _ => none

/-! ## Stripping undoes signing -/

/-- The scan reads through a script that parses to its end and goes on into
what follows it. -/
theorem lastScriptOp_append {n : ℕ} {S : CScript} {ops : List ScriptOp}
    (hS : scriptOpsAux n S = some ops) {T : CScript} (hT : T ≠ []) {r : UInt8 × valtype}
    (hr : ∀ k, lastScriptOp (k + 1) T = r) :
    ∀ fuel, S.length ≤ fuel → lastScriptOp (fuel + 1) (S ++ T) = r := by
  induction n generalizing S ops with
  | zero =>
    cases S with
    | nil => intro fuel _; exact hr fuel
    | cons c s => simp [scriptOpsAux] at hS
  | succ m ih =>
    cases S with
    | nil => intro fuel _; exact hr fuel
    | cons c s =>
      intro fuel hfuel
      obtain ⟨o, hread, ops', hrest, -⟩ :
          ∃ o, getScriptOp (c :: s) = some o ∧ ∃ ops', scriptOpsAux m o.rest = some ops' ∧
            o :: ops' = ops := by
        cases hg : getScriptOp (c :: s) with
        | none => simp [scriptOpsAux, hg] at hS
        | some o =>
          simp only [scriptOpsAux, hg, Option.map_eq_some_iff] at hS
          obtain ⟨ops', h1, h2⟩ := hS
          exact ⟨o, rfl, ops', h1, h2⟩
      have hlen := length_rest_getScriptOp hread
      simp only [List.length_cons] at hlen hfuel
      obtain ⟨fuel', rfl⟩ : ∃ fuel', fuel = fuel' + 1 := ⟨fuel - 1, by omega⟩
      have hne : o.rest ++ T ≠ [] := by simp [hT]
      rw [lastScriptOp, getScriptOp_append hread T]
      simp only [hne, if_false]
      exact ih hrest fuel' (by omega)

theorem lastScriptOp_pushData {sig : valtype} (h : sig.length < 2 ^ 32) (k : ℕ) :
    lastScriptOp (k + 1) (pushData sig) = (pushOpcode sig, sig) := by
  have hread := getScriptOp_pushData sig [] h
  rw [List.append_nil] at hread
  simp [lastScriptOp, hread]

/-- Stripping the signature from a block signed with a direct push
(signatures of at most 75 bytes) gives back exactly the signature, and the
hash of the block before signing with its merkle root recomputed. -/
theorem makeBlockHashExcludedSignature_withCoinbaseScriptSig (hashes : BlockHashes)
    (block : CBlock) (S sig : valtype) (hS : block.coinbaseScriptSig = some S)
    (hparse : scriptOps S ≠ none) (hsig : sig.length ≤ 75) :
    makeBlockHashExcludedSignature hashes (block.withCoinbaseScriptSig hashes (S ++ pushData sig)) =
      some (hashes.GetHash
        { block.toCBlockHeader with hashMerkleRoot := hashes.BlockMerkleRoot block.vtx }, sig) := by
  obtain ⟨ops, hops⟩ := Option.ne_none_iff_exists'.mp hparse
  have hpush : pushData sig = UInt8.ofNat sig.length :: sig := by
    simp [pushData, pushPrefix, show sig.length < 76 by omega]
  have hop : pushOpcode sig = UInt8.ofNat sig.length := pushOpcode_of_lt (by omega)
  have hscan : lastScriptOp (S ++ pushData sig).length (S ++ pushData sig) =
      (UInt8.ofNat sig.length, sig) := by
    have hlen : (S ++ pushData sig).length = S.length + sig.length + 1 := by
      simp [hpush]; omega
    rw [hlen, ← hop]
    exact lastScriptOp_append hops (by simp [hpush])
      (lastScriptOp_pushData (by omega)) _ (by omega)
  have hdirect : ¬ OP_PUSHDATA1 ≤ UInt8.ofNat sig.length := by
    simp only [UInt8.le_iff_toNat_le, UInt8.toNat_ofNat']
    simp
    omega
  have hcut : (S ++ pushData sig).take
      ((S ++ pushData sig).length - ((UInt8.ofNat sig.length).toNat + 1)) = S := by
    have htn : (UInt8.ofNat sig.length).toNat = sig.length := by
      rw [UInt8.toNat_ofNat']; omega
    simp [htn, hpush]
  rw [makeBlockHashExcludedSignature, CBlock.coinbaseScriptSig_withCoinbaseScriptSig hS]
  simp only [Option.bind_eq_bind, Option.bind_some, hscan, hdirect, if_false, hcut,
    CBlock.withCoinbaseScriptSig_withCoinbaseScriptSig, CBlock.withCoinbaseScriptSig_self hS]
  rfl

/-- A block at height 5, whose coinbase `scriptSig` is `CScript() << 5`, signed
with a one-byte signature under hashes that read the block's length and
merkle root. -/
theorem makeBlockHashExcludedSignature_withCoinbaseScriptSig_height :
    let hashes : BlockHashes := ⟨List.length, CBlockHeader.hashMerkleRoot⟩
    let block : CBlock :=
      ⟨⟨1, 0, 7, 0, 0, 0⟩, [⟨1, [⟨⟨0, 0xFFFFFFFF⟩, pushInt64 5, 0, []⟩], [], 0⟩]⟩
    block.coinbaseScriptSig = some (pushInt64 5) ∧ scriptOps (pushInt64 5) ≠ none ∧
      [0x30].length ≤ 75 ∧
      makeBlockHashExcludedSignature hashes
          (block.withCoinbaseScriptSig hashes (pushInt64 5 ++ pushData [0x30])) =
        some (hashes.GetHash
          { block.toCBlockHeader with hashMerkleRoot := hashes.BlockMerkleRoot block.vtx },
          [0x30]) :=
  ⟨rfl, by decide, by decide,
    makeBlockHashExcludedSignature_withCoinbaseScriptSig _ _ _ _ rfl (by decide) (by decide)⟩

/-! ## A nested script hash aborts the node -/

/-- A pay-to-script-hash output whose `scriptSig` leaves another
pay-to-script-hash script on top makes `GetPubKeyFromScript` recurse on that
script at every level, until the `assert(depth <= 2)` fails. -/
theorem getPubKeyFromScriptAux_of_nested_scriptHash {crypto : Crypto} {txIn : CTxIn}
    {R : CScript} {rest : List valtype} (hR : isPayToScriptHash R = true)
    (hsig : evalScript crypto [] txIn.scriptSig SCRIPT_VERIFY_NONE BaseSignatureChecker .BASE =
      .ok (R :: rest)) :
    ∀ fuel (S : CScript) depth, isPayToScriptHash S = true →
      getPubKeyFromScriptAux crypto txIn fuel S depth = none := by
  intro fuel
  induction fuel with
  | zero => intro S depth _; rfl
  | succ fuel ih =>
    intro S depth hS
    by_cases hd : 2 < depth
    · simp [getPubKeyFromScriptAux, hd]
    · simp [getPubKeyFromScriptAux, hd, solver_of_isPayToScriptHash hS, hsig,
        ih R (depth + 1) hR]

open CTxDestination in
/-- The coinstake input `OP_0 <R>` spending, and the output paying to,
`P2SH(Hash160 R)`, where `R = OP_HASH160 <Hash160 []> OP_EQUAL` is itself a
pay-to-script-hash script: the spend passes `VerifyScript` with the flags of
`CheckProofOfStake` and with those of a block, and the key extraction of
`CheckBlockSignature` aborts. -/
theorem getPubKeysFromCoinStakeTx_nested_scriptHash (crypto : Crypto)
    (checker : SignatureChecker) (prevout : COutPoint) (nSequence : ℕ) (nValue : CAmount) :
    let R := getScriptForDestination (CScriptID (crypto.hash160 []))
    let S := getScriptForDestination (CScriptID (crypto.hash160 R))
    let txIn : CTxIn := ⟨prevout, pushAll [[], R], nSequence, []⟩
    (verifyScript crypto txIn.scriptSig S [] SCRIPT_VERIFY_NONE checker).run = some (.ok ()) ∧
    (verifyScript crypto txIn.scriptSig S [] (SCRIPT_VERIFY_P2SH ||| SCRIPT_VERIFY_WITNESS)
      checker).run = some (.ok ()) ∧
    getPubKeysFromCoinStakeTx crypto ⟨1, [txIn], [⟨nValue, S⟩], 0⟩ = none := by
  intro R S txIn
  have hRlen : R.length = 23 := by
    simp [R, getScriptForDestination, pushData, pushPrefix, crypto.length_hash160]
  have hR : isPayToScriptHash R = true := isPayToScriptHash_scriptID (crypto.length_hash160 _)
  have hS : isPayToScriptHash S = true := isPayToScriptHash_scriptID (crypto.length_hash160 _)
  have hsig : ∀ flags chk, evalScript crypto [] txIn.scriptSig flags chk .BASE = .ok [R, []] := by
    intro flags chk
    refine evalScript_pushAll crypto [] [[], R] flags chk .BASE ?_ (by simp) ?_
    · intro b hb
      rcases List.mem_pair.mp hb with rfl | rfl
      · exact ⟨by simp, fun _ => by decide⟩
      · exact ⟨by simp [hRlen],
          fun _ => checkMinimalPush_pushOpcode (by simp [hRlen]) (by simp [hRlen])⟩
    · simp [pushData, pushPrefix, hRlen]
  have hpub : ∀ flags, evalScript crypto [R, []] S flags checker .BASE = .ok [vchTrue, []] := by
    intro flags
    have := evalScript_payToScriptHash crypto R (crypto.hash160 R) [[]] flags checker .BASE
      (crypto.length_hash160 _) (by simp)
    rw [show vchBool (decide (crypto.hash160 R = crypto.hash160 R)) = vchTrue by simp [vchBool]]
      at this
    exact this
  have hredeem : ∀ flags, evalScript crypto [[]] R flags checker .BASE = .ok [vchTrue] := by
    intro flags
    have := evalScript_payToScriptHash crypto [] (crypto.hash160 []) [] flags checker .BASE
      (crypto.length_hash160 _) (by simp)
    rw [show vchBool (decide (crypto.hash160 [] = crypto.hash160 [])) = vchTrue by simp [vchBool]]
      at this
    exact this
  have hSwit : isWitnessProgram S = none := isWitnessProgram_of_OP_16_lt (by decide) _
  have hRwit : isWitnessProgram R = none := isWitnessProgram_of_OP_16_lt (by decide) _
  have hpush : isPushOnly txIn.scriptSig = true := by
    refine isPushOnly_pushAll fun b hb => ?_
    rcases List.mem_pair.mp hb with rfl | rfl
    · simp
    · simp [hRlen]
  refine ⟨?_, ?_, ?_⟩
  · simp [verifyScript, hsig, hpub, hasFlag, castToBool, vchTrue]
  · simp [verifyScript, hsig, hpub, hasFlag, castToBool, vchTrue, hS, hSwit, hpush, hredeem,
      hRwit]
  · simp [getPubKeysFromCoinStakeTx, getPubKeyFromScript,
      getPubKeyFromScriptAux_of_nested_scriptHash hR (hsig _ _) 4 S 0 hS]

/-! ## A block key the staked coin does not commit to -/

open CTxDestination in
/-- The staked coin pays to `P2PK(pkReal)`; the coinstake pays it back to
`P2PKH(Hash160 pkReal)`, and its input runs `<sigReal> <sigA> <pkA>
OP_CHECKSIG OP_NOTIF <pkAtt> OP_ENDIF`.  With a checker that accepts `sigA` by
`pkA` the branch is skipped and `sigReal` spends the coin, under the flags of
`CheckProofOfStake` and of a block; with `BaseSignatureChecker` the branch
runs, so the key `CheckBlockSignature` verifies against is `pkAtt`, and a
block signed by `pkAtt` alone passes. -/
theorem checkBlockSignature_key_not_committed :
    let crypto : Crypto := Crypto.truncating
    let hashes : BlockHashes := ⟨List.length, CBlockHeader.hashMerkleRoot⟩
    let pkReal : valtype := 0x02 :: List.replicate 32 0x11
    let pkAtt : valtype := 0x02 :: List.replicate 32 0x22
    let pkA : valtype := 0x03 :: List.replicate 32 0x33
    let sigReal : valtype := [0x30, 0x06, 0x02, 0x01, 0x01, 0x02, 0x01, 0x01, 0x01]
    let sigA : valtype := [0x30, 0x06, 0x02, 0x01, 0x02, 0x02, 0x01, 0x01, 0x01]
    let sigBlock : valtype := [0x30, 0x06, 0x02, 0x01, 0x03, 0x02, 0x01, 0x01]
    let checker : SignatureChecker :=
      ⟨fun sig pk _ _ => (sig == sigReal && pk == pkReal) || (sig == sigA && pk == pkA),
        fun _ => false, fun _ => false⟩
    let verify : CPubKey → uint256 → valtype → Bool :=
      fun pubkey _ sig => pubkey.vch == pkAtt && sig == sigBlock
    let spent : CScript := pushData pkReal ++ [OP_CHECKSIG]
    let scriptSig : CScript :=
      pushAll [sigReal, sigA, pkA] ++ [OP_CHECKSIG, OP_NOTIF] ++ pushData pkAtt ++ [OP_ENDIF]
    let txCoinStake : CTransaction :=
      ⟨1, [⟨⟨1, 0⟩, scriptSig, 0xFFFFFFFF, []⟩],
        [⟨0, getScriptForDestination (CKeyID (crypto.hash160 pkReal))⟩], 0⟩
    let txCoinBase : CTransaction :=
      ⟨1, [⟨⟨0, 0xFFFFFFFF⟩, pushInt64 20000 ++ pushData sigBlock, 0xFFFFFFFF, []⟩], [], 0⟩
    let blockFlags := SCRIPT_VERIFY_P2SH ||| SCRIPT_VERIFY_WITNESS ||| SCRIPT_VERIFY_DERSIG |||
      SCRIPT_VERIFY_CHECKLOCKTIMEVERIFY ||| SCRIPT_VERIFY_CHECKSEQUENCEVERIFY |||
      SCRIPT_VERIFY_NULLDUMMY
    isDestinationSame crypto spent (txCoinStake.vout.headD ⟨0, []⟩).scriptPubKey = true ∧
    (verifyScript crypto scriptSig spent [] SCRIPT_VERIFY_NONE checker).run = some (.ok ()) ∧
    (verifyScript crypto scriptSig spent [] blockFlags checker).run = some (.ok ()) ∧
    getPubKeysFromCoinStakeTx crypto txCoinStake = some (some [⟨pkAtt⟩]) ∧
    checkBlockSignature crypto hashes verify ⟨⟨1, 0, 0, 0, 0, 0⟩, [txCoinBase, txCoinStake]⟩ =
      some true ∧
    pkAtt ≠ pkReal := by
  decide +kernel

end XPChain
