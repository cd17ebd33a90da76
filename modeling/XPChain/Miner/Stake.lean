import XPChain.Validation.CoinBase
import XPChain.Validation.BlockSignature
import XPChain.Consensus.Pow

/-!
# The stake minter

The parts of `miner.cpp` that build a proof-of-stake block: the reward split
of `CreateNewBlock` over the wallet's reward distribution (`GetRewardPct`),
the signature output `CreateTxSig` writes into the coinbase, and the target
`GetnBits` gives the block.

## Main definitions

* `getRewardPct` — `GetRewardPct`, `none` on its failed `assert`.
* `rewardValues`, `splitCoinbaseVout` — the coinbase `CreateNewBlock` writes.
* `getKeyForDestination`, `createTxSig`.
* `getnBits` — `GetnBits`.

## Main statements

* `getRewardPct_spec` — the percentages are non-negative and sum to 100.
* `getRewardPct_eq_none_iff` — the `assert` fails exactly when the wallet's
  percentages exceed 100.
* `sum_rewardValues_le` — the floored shares never exceed the reward.
* `verifyCoinBaseTx_createNewBlock` — the validator reads back the minter's
  signature output and its reward list, and the coinbase pays at most the
  reward.
* `getnBits_eq_getNextWorkRequired` — above the switch height the minter and
  the validator agree on the target.
* `getnBits_switchHeight` — at the switch height they do not.
-/

set_option autoImplicit false

namespace XPChain

open TxnOutType CTxDestination

/-! ## `GetRewardPct` -/

/-- The loop of `GetRewardPct` from a given `remainder`: each entry's decoded
address and percentage, and what is left of the remainder; `none` when
`assert(remainder >= 0)` fails. -/
def getRewardPctLoop (DecodeDestination : List UInt8 → CTxDestination) :
    List (List UInt8 × UInt8) → ℤ → Option (List (CTxDestination × ℤ) × ℤ)
  | [], remainder => some ([], remainder)
  | p :: ps, remainder =>
    let remainder := remainder - p.2.toNat
    if remainder < 0 then none
    else (getRewardPctLoop DecodeDestination ps remainder).map fun r =>
      ((DecodeDestination p.1, (p.2.toNat : ℤ)) :: r.1, r.2)

/-- `GetRewardPct(wallet, defaultDestination)` over
`wallet.vRewardDistributionPcts`: what is left of 100% goes to the default
destination. -/
def getRewardPct (DecodeDestination : List UInt8 → CTxDestination)
    (vRewardDistributionPcts : List (List UInt8 × UInt8)) (defaultDestination : CTxDestination) :
    Option (List (CTxDestination × ℤ)) :=
  (getRewardPctLoop DecodeDestination vRewardDistributionPcts 100).map fun r =>
    if 0 < r.2 then r.1 ++ [(defaultDestination, r.2)] else r.1

/-- What the loop has handed out and what is left add up to where it started. -/
theorem getRewardPctLoop_spec {DecodeDestination : List UInt8 → CTxDestination}
    {pcts : List (List UInt8 × UInt8)} {remainder rem : ℤ} {result : List (CTxDestination × ℤ)}
    (h0 : 0 ≤ remainder)
    (h : getRewardPctLoop DecodeDestination pcts remainder = some (result, rem)) :
    (result.map Prod.snd).sum + rem = remainder ∧ 0 ≤ rem ∧ (∀ p ∈ result, 0 ≤ p.2) ∧
      result.length = pcts.length := by
  induction pcts generalizing remainder result with
  | nil =>
    simp only [getRewardPctLoop, Option.some.injEq, Prod.mk.injEq] at h
    obtain ⟨rfl, rfl⟩ := h
    simpa using h0
  | cons p ps ih =>
    simp only [getRewardPctLoop] at h
    split_ifs at h with hneg
    obtain ⟨⟨result', rem'⟩, hrec, hr⟩ := Option.map_eq_some_iff.mp h
    simp only [Prod.mk.injEq] at hr
    obtain ⟨rfl, rfl⟩ := hr
    obtain ⟨hsum, hrem, hnonneg, hlen⟩ := ih (by omega) hrec
    refine ⟨by simp only [List.map_cons, List.sum_cons]; omega, hrem, ?_, by simp [hlen]⟩
    intro q hq
    rcases List.mem_cons.mp hq with rfl | hq
    · simp
    · exact hnonneg q hq

/-- A distribution `GetRewardPct` accepts has non-negative percentages that
sum to 100, and at most one entry more than the wallet's list. -/
theorem getRewardPct_spec {DecodeDestination : List UInt8 → CTxDestination}
    {vRewardDistributionPcts : List (List UInt8 × UInt8)} {defaultDestination : CTxDestination}
    {rewardPct : List (CTxDestination × ℤ)}
    (h : getRewardPct DecodeDestination vRewardDistributionPcts defaultDestination =
      some rewardPct) :
    (rewardPct.map Prod.snd).sum = 100 ∧ (∀ p ∈ rewardPct, 0 ≤ p.2) ∧
      rewardPct.length ≤ vRewardDistributionPcts.length + 1 := by
  obtain ⟨⟨result, rem⟩, hloop, rfl⟩ := Option.map_eq_some_iff.mp h
  obtain ⟨hsum, hrem, hnonneg, hlen⟩ := getRewardPctLoop_spec (by decide) hloop
  by_cases hpos : 0 < rem
  · simp only [hpos, if_true, List.map_append, List.sum_append, List.map_cons, List.map_nil,
      List.sum_cons, List.sum_nil, List.length_append, List.length_singleton]
    refine ⟨by omega, ?_, by omega⟩
    intro q hq
    rcases List.mem_append.mp hq with hq | hq
    · exact hnonneg q hq
    · simp only [List.mem_singleton] at hq
      subst hq
      exact hrem
  · simp only [hpos, if_false]
    exact ⟨by omega, hnonneg, by omega⟩

/-- From a non-negative remainder, the loop fails exactly when the
percentages add up to more than the remainder: each entry takes a
non-negative amount off it. -/
theorem getRewardPctLoop_eq_none_iff {DecodeDestination : List UInt8 → CTxDestination}
    {pcts : List (List UInt8 × UInt8)} {remainder : ℤ} (h0 : 0 ≤ remainder) :
    getRewardPctLoop DecodeDestination pcts remainder = none ↔
      remainder < ((pcts.map fun p => p.2.toNat).sum : ℕ) := by
  induction pcts generalizing remainder with
  | nil => simp [getRewardPctLoop, h0]
  | cons p ps ih =>
    simp only [getRewardPctLoop, List.map_cons, List.sum_cons, Nat.cast_add]
    by_cases hneg : remainder - p.2.toNat < 0
    · simp only [hneg, if_true, true_iff]
      have : (0 : ℤ) ≤ ((ps.map fun p => p.2.toNat).sum : ℕ) := Nat.cast_nonneg _
      omega
    · rw [if_neg hneg, Option.map_eq_none_iff, ih (by omega)]
      omega

/-- `GetRewardPct` fails its `assert` exactly when the wallet's percentages,
added as integers, exceed 100. -/
theorem getRewardPct_eq_none_iff {DecodeDestination : List UInt8 → CTxDestination}
    {vRewardDistributionPcts : List (List UInt8 × UInt8)} {defaultDestination : CTxDestination} :
    getRewardPct DecodeDestination vRewardDistributionPcts defaultDestination = none ↔
      100 < (vRewardDistributionPcts.map fun p => p.2.toNat).sum := by
  rw [getRewardPct, Option.map_eq_none_iff, getRewardPctLoop_eq_none_iff (by decide)]
  omega

/-- Each entry of the wallet's list becomes its decoded destination with its
percentage. -/
theorem mem_getRewardPctLoop {DecodeDestination : List UInt8 → CTxDestination}
    {pcts : List (List UInt8 × UInt8)} {remainder rem : ℤ} {result : List (CTxDestination × ℤ)}
    (h : getRewardPctLoop DecodeDestination pcts remainder = some (result, rem)) :
    ∀ p ∈ pcts, (DecodeDestination p.1, (p.2.toNat : ℤ)) ∈ result := by
  induction pcts generalizing remainder result with
  | nil => simp
  | cons q qs ih =>
    simp only [getRewardPctLoop] at h
    split_ifs at h with hneg
    obtain ⟨⟨result', rem'⟩, hrec, hr⟩ := Option.map_eq_some_iff.mp h
    simp only [Prod.mk.injEq] at hr
    obtain ⟨rfl, rfl⟩ := hr
    intro p hp
    rcases List.mem_cons.mp hp with rfl | hp
    · exact List.mem_cons_self
    · exact List.mem_cons_of_mem _ (ih hrec p hp)

theorem mem_getRewardPct {DecodeDestination : List UInt8 → CTxDestination}
    {vRewardDistributionPcts : List (List UInt8 × UInt8)} {defaultDestination : CTxDestination}
    {rewardPct : List (CTxDestination × ℤ)}
    (h : getRewardPct DecodeDestination vRewardDistributionPcts defaultDestination =
      some rewardPct) :
    ∀ p ∈ vRewardDistributionPcts, (DecodeDestination p.1, (p.2.toNat : ℤ)) ∈ rewardPct := by
  obtain ⟨⟨result, rem⟩, hloop, rfl⟩ := Option.map_eq_some_iff.mp h
  intro p hp
  have hmem := mem_getRewardPctLoop hloop p hp
  split_ifs
  · exact List.mem_append_left _ hmem
  · exact hmem

/-! ## The reward split -/

/-- The reward split of `CreateNewBlock`: each share's script, and
`nBlockReward * pct / 100` with C++'s truncating division. -/
def rewardValues (nBlockReward : CAmount) (rewardPct : List (CTxDestination × ℤ)) :
    List (CScript × CAmount) :=
  rewardPct.map fun p => (getScriptForDestination p.1, (nBlockReward * p.2).tdiv 100)

@[simp] theorem length_rewardValues (nBlockReward : CAmount)
    (rewardPct : List (CTxDestination × ℤ)) :
    (rewardValues nBlockReward rewardPct).length = rewardPct.length := by
  simp [rewardValues]

/-- The coinbase outputs `CreateNewBlock` writes at a proof-of-stake height:
the signature output with value zero, then one output per share. -/
def splitCoinbaseVout (txSig : CScript) (rewardValue : List (CScript × CAmount)) : List CTxOut :=
  ⟨0, txSig⟩ :: rewardOutputs rewardValue

/-- A share is never negative and is at most its percentage of the reward. -/
theorem share_spec {nBlockReward pct : ℤ} (hR : 0 ≤ nBlockReward) (hp : 0 ≤ pct) :
    0 ≤ (nBlockReward * pct).tdiv 100 ∧ 100 * (nBlockReward * pct).tdiv 100 ≤ nBlockReward * pct := by
  have hprod : 0 ≤ nBlockReward * pct := mul_nonneg hR hp
  rw [Int.tdiv_eq_ediv_of_nonneg hprod]
  exact ⟨Int.ediv_nonneg hprod (by decide), Int.mul_ediv_self_le (by decide)⟩

/-- The floored shares of a distribution summing to 100 never exceed the reward. -/
theorem sum_rewardValues_le {nBlockReward : CAmount} {rewardPct : List (CTxDestination × ℤ)}
    (hR : 0 ≤ nBlockReward) (hsum : (rewardPct.map Prod.snd).sum = 100)
    (hnonneg : ∀ p ∈ rewardPct, 0 ≤ p.2) :
    ((rewardValues nBlockReward rewardPct).map Prod.snd).sum ≤ nBlockReward := by
  -- a hundred times the shares is at most the reward times the percentages
  have key : ∀ ps : List (CTxDestination × ℤ), (∀ p ∈ ps, 0 ≤ p.2) →
      100 * ((rewardValues nBlockReward ps).map Prod.snd).sum ≤
        nBlockReward * (ps.map Prod.snd).sum := by
    intro ps
    induction ps with
    | nil => simp [rewardValues]
    | cons p ps ih =>
      intro hps
      have hp := (share_spec hR (hps p List.mem_cons_self)).2
      have hrest := ih fun q hq => hps q (List.mem_cons_of_mem _ hq)
      simp only [rewardValues, List.map_cons, List.sum_cons] at hrest ⊢
      linarith
  have := key rewardPct hnonneg
  rw [hsum] at this
  linarith

theorem nonneg_of_mem_rewardValues {nBlockReward : CAmount}
    {rewardPct : List (CTxDestination × ℤ)} (hR : 0 ≤ nBlockReward)
    (hnonneg : ∀ p ∈ rewardPct, 0 ≤ p.2) :
    ∀ v ∈ rewardValues nBlockReward rewardPct, 0 ≤ v.2 := by
  intro v hv
  obtain ⟨p, hp, rfl⟩ := List.mem_map.mp hv
  exact (share_spec hR (hnonneg p hp)).1

/-! ## `CreateTxSig` -/

/-- `CKeyID()`: the null key id. -/
def nullKeyID : valtype := List.replicate 20 0

/-- `GetKeyForDestination`: the key id of a key-hash, witness-key-hash, or
script-hash-of-witness-key-hash destination, else the null id. -/
def getKeyForDestination {CKey : Type} (crypto : Crypto) (store : KeyStore CKey) :
    CTxDestination → valtype
  | CKeyID id => id
  | WitnessV0KeyHash id => id
  | CScriptID id =>
    match (store.GetCScript id).bind (extractDestination crypto) with
    | some (WitnessV0KeyHash id) => id
    | _ => nullKeyID
  | _ => nullKeyID

/-- `CreateTxSig(wallet, nTime, txCoinStake, vValues, script)`: `none` is a
`false` return.  The test `type == WITNESS_V0_SCRIPTHASH_SIZE` compares the
`txnouttype` with the constant 32, which no output type equals. -/
def createTxSig {CKey : Type} (crypto : Crypto) (Hash : List UInt8 → uint256)
    (wallet : KeyStore CKey) (nTime : ℕ) (txCoinStake : CTransaction)
    (vValues : List (CScript × CAmount)) : Option CScript := do
  let txout ← txCoinStake.vout.head?
  let (type, _) ← solver txout.scriptPubKey
  if type = TX_MULTISIG ∨ type = TX_PUBKEY then none else do
    let dest ← extractDestination crypto txout.scriptPubKey
    let keyID := getKeyForDestination crypto wallet dest
    if keyID.all (· == 0) then none else do
      let key ← wallet.GetKey keyID
      let pubkey := wallet.GetPubKey key
      let hash ← getRewardHash Hash vValues txCoinStake nTime
      let vchSig ← wallet.Sign key hash
      pure (txSigScript vValues.length vchSig pubkey.vch)

/-- Whatever `CreateTxSig` returns is the signature output of a wallet key's
signature over `GetRewardHash`. -/
theorem createTxSig_spec {CKey : Type} {crypto : Crypto} {Hash : List UInt8 → uint256}
    {wallet : KeyStore CKey} {nTime : ℕ} {txCoinStake : CTransaction}
    {vValues : List (CScript × CAmount)} {script : CScript}
    (h : createTxSig crypto Hash wallet nTime txCoinStake vValues = some script) :
    ∃ key hash vchSig, getRewardHash Hash vValues txCoinStake nTime = some hash ∧
      wallet.Sign key hash = some vchSig ∧
      script = txSigScript vValues.length vchSig (wallet.GetPubKey key).vch := by
  simp only [createTxSig, Option.bind_eq_bind, Option.bind_eq_some_iff] at h
  obtain ⟨txout, -, ⟨type, sols⟩, -, h⟩ := h
  split_ifs at h
  obtain ⟨dest, -, h⟩ := Option.bind_eq_some_iff.mp h
  split_ifs at h
  obtain ⟨key, -, h⟩ := Option.bind_eq_some_iff.mp h
  obtain ⟨hash, hhash, h⟩ := Option.bind_eq_some_iff.mp h
  obtain ⟨vchSig, hsig, hscript⟩ := Option.bind_eq_some_iff.mp h
  exact ⟨key, hash, vchSig, hhash, hsig, (Option.some.inj hscript).symm⟩

/-! ## The minted coinbase passes `VerifyCoinBaseTx` -/

theorem length_le_of_validSize {vch : valtype} (h : CPubKey.ValidSize vch = true) :
    vch.length ≤ 65 := by
  cases vch with
  | nil => simp [CPubKey.ValidSize] at h
  | cons b bs =>
    have hlen : CPubKey.GetLen b = bs.length + 1 := by simpa [CPubKey.ValidSize] using h
    have : CPubKey.GetLen b ≤ 65 := by unfold CPubKey.GetLen; split_ifs <;> omega
    simp only [List.length_cons]
    omega

/-- The split coinbase the minter builds passes the validator's coinbase
rules.  For every distribution `GetRewardPct` accepts, every non-negative
reward, and every signature output `CreateTxSig` writes, take the coinbase
of `CreateNewBlock` with the witness commitment after it.  `VerifyCoinBaseTx`
reads back the count, the signature and the key the minter signed with,
recomputes the `GetRewardHash` the signature was made over, and so accepts
exactly when the key owns the staked coin and the signature verifies.  The
outputs sum to at most the reward, and within `MAX_MONEY` that sum is what
`GetValueOut` returns to the check `GetValueOut() > blockReward`.

The wallet's list holds at most `MAX_SIZE` entries, the most its record
deserialises to; the curve accepts the wallet's own public keys. -/
theorem verifyCoinBaseTx_createNewBlock {CKey : Type} (crypto : Crypto)
    (Hash : List UInt8 → uint256) (secp : Secp256k1) (wallet : KeyStore CKey)
    (DecodeDestination : List UInt8 → CTxDestination)
    {vRewardDistributionPcts : List (List UInt8 × UInt8)} {defaultDestination : CTxDestination}
    {rewardPct : List (CTxDestination × ℤ)} {nBlockReward : CAmount} {txSig commitment : CScript}
    {block : CBlock} {coinbase txCoinStake : CTransaction} {rest : List CTransaction}
    (hsize : vRewardDistributionPcts.length ≤ MAX_SIZE)
    (hpct : getRewardPct DecodeDestination vRewardDistributionPcts defaultDestination =
      some rewardPct)
    (hR : 0 ≤ nBlockReward)
    (hsig : createTxSig crypto Hash wallet block.nTime txCoinStake
      (rewardValues nBlockReward rewardPct) = some txSig)
    (hvalid : ∀ key, secp.IsFullyValid (wallet.GetPubKey key) = true)
    (hvtx : block.vtx = coinbase :: txCoinStake :: rest)
    (hvout : coinbase.vout =
      splitCoinbaseVout txSig (rewardValues nBlockReward rewardPct) ++ [⟨0, commitment⟩]) :
    (∃ key hash vchSig,
        getRewardHash Hash (rewardValues nBlockReward rewardPct) txCoinStake block.nTime =
          some hash ∧
        wallet.Sign key hash = some vchSig ∧
        txSig = txSigScript rewardPct.length vchSig (wallet.GetPubKey key).vch ∧
        verifyCoinBaseTx crypto Hash secp block =
          (equalDestination crypto txCoinStake (wallet.GetPubKey key) &&
            secp.Verify (wallet.GetPubKey key) hash vchSig)) ∧
      (coinbase.vout.map (·.nValue)).sum ≤ nBlockReward ∧
      (nBlockReward ≤ MAX_MONEY →
        ∃ nValueOut, coinbase.GetValueOut = some nValueOut ∧ nValueOut ≤ nBlockReward) := by
  obtain ⟨hsum, hnonneg, hlen⟩ := getRewardPct_spec hpct
  obtain ⟨key, hash, vchSig, hhash, hsign, rfl⟩ := createTxSig_spec hsig
  have hpk := wallet.validSize_GetPubKey key
  have hofBytes : CPubKey.ofBytes (wallet.GetPubKey key).vch = wallet.GetPubKey key := by
    simp [CPubKey.ofBytes, hpk]
  have hk : (rewardValues nBlockReward rewardPct).length < 2 ^ 31 := by
    simp only [MAX_SIZE] at hsize
    rw [length_rewardValues]
    omega
  have hsiglen : vchSig.length < 2 ^ 32 := by
    have := wallet.length_Sign_le key hash vchSig hsign
    omega
  have hpklen : (wallet.GetPubKey key).vch.length < 2 ^ 32 := by
    have := length_le_of_validSize hpk
    omega
  have hverify := verifyCoinBaseTx_of_vout crypto Hash secp hvtx hvout hk hsiglen hpklen
  rw [hofBytes, hvalid key, hhash, Bool.true_and] at hverify
  -- the outputs' values are the shares, with a zero on either side
  have hvals : (coinbase.vout.map (·.nValue)).sum =
      ((rewardValues nBlockReward rewardPct).map Prod.snd).sum := by
    rw [hvout]
    simp [splitCoinbaseVout, rewardOutputs, Function.comp_def]
  have hle := sum_rewardValues_le hR hsum hnonneg
  have hout : ∀ txout ∈ coinbase.vout, 0 ≤ txout.nValue := by
    rw [hvout]
    intro txout htxout
    simp only [splitCoinbaseVout, rewardOutputs, List.cons_append, List.mem_cons,
      List.mem_append, List.mem_map, List.not_mem_nil, or_false] at htxout
    rcases htxout with rfl | ⟨v, hv, rfl⟩ | rfl
    · exact le_rfl
    · exact nonneg_of_mem_rewardValues hR hnonneg v hv
    · exact le_rfl
  refine ⟨⟨key, hash, vchSig, hhash, hsign, by rw [length_rewardValues], ?_⟩, hvals ▸ hle, ?_⟩
  · simpa using hverify
  · intro hmax
    exact ⟨_, CTransaction.GetValueOut_eq_sum hout (by linarith), hvals ▸ hle⟩

/-- Two shares of a reward of 1000: 60% to a listed address, the rest to the
staker's own. -/
theorem verifyCoinBaseTx_createNewBlock_twoShares :
    let pubkey : CPubKey := ⟨2 :: List.replicate 32 1⟩
    let wallet : KeyStore Unit :=
      ⟨fun _ => some (), fun _ => none, fun _ => pubkey, fun _ _ => some [0x30],
        fun _ => by decide, fun _ _ vchSig h => by cases h; decide⟩
    let secp : Secp256k1 := ⟨fun _ => true, fun _ _ _ => true⟩
    let listed := CKeyID (List.replicate 20 7)
    let staker := CKeyID (pubkey.GetID Crypto.truncating)
    let txCoinStake : CTransaction :=
      ⟨1, [⟨⟨5, 0⟩, [], 0, []⟩], [⟨5000, getScriptForDestination staker⟩], 0⟩
    let pcts : List (List UInt8 × UInt8) := [([], 60)]
    let rewardPct := [(listed, 60), (staker, 40)]
    let txSig := txSigScript 2 [0x30] pubkey.vch
    let coinbase : CTransaction :=
      ⟨1, [⟨⟨0, 0xFFFFFFFF⟩, [], 0, []⟩],
        splitCoinbaseVout txSig (rewardValues 1000 rewardPct) ++ [⟨0, [OP_RETURN]⟩], 0⟩
    let block : CBlock := ⟨⟨1, 0, 0, 100, 0, 0⟩, [coinbase, txCoinStake]⟩
    pcts.length ≤ MAX_SIZE ∧
      getRewardPct (fun _ => listed) pcts staker = some rewardPct ∧
      createTxSig Crypto.truncating List.length wallet block.nTime txCoinStake
        (rewardValues 1000 rewardPct) = some txSig ∧
      ((∃ key hash vchSig,
          getRewardHash List.length (rewardValues 1000 rewardPct) txCoinStake block.nTime =
            some hash ∧
          wallet.Sign key hash = some vchSig ∧
          txSig = txSigScript rewardPct.length vchSig (wallet.GetPubKey key).vch ∧
          verifyCoinBaseTx Crypto.truncating List.length secp block =
            (equalDestination Crypto.truncating txCoinStake (wallet.GetPubKey key) &&
              secp.Verify (wallet.GetPubKey key) hash vchSig)) ∧
        (coinbase.vout.map (·.nValue)).sum ≤ 1000 ∧
        (1000 ≤ MAX_MONEY →
          ∃ nValueOut, coinbase.GetValueOut = some nValueOut ∧ nValueOut ≤ 1000)) := by
  intro pubkey wallet secp listed staker txCoinStake pcts rewardPct txSig coinbase block
  have hpct : getRewardPct (fun _ => listed) pcts staker = some rewardPct := by decide
  have hsig : createTxSig Crypto.truncating List.length wallet block.nTime txCoinStake
      (rewardValues 1000 rewardPct) = some txSig := by decide +kernel
  exact ⟨by decide, hpct, hsig,
    verifyCoinBaseTx_createNewBlock Crypto.truncating List.length secp wallet (fun _ => listed)
      (by decide) hpct (by decide) hsig (fun _ => rfl) rfl rfl⟩

/-! ## `GetnBits` -/

/-- `GetnBits(pIndexLast, params)` for the tip at height `nHeight`: the
retarget of `CalculateNextWorkRequired` from the time of the block before
the tip; `none` is a failed `assert`. -/
def getnBits (params : Params) (chain : CChain) (nHeight : ℕ) : Option ℕ := do
  let pIndexLast ← chain.get? nHeight
  let pprev ← (if pIndexLast.nHeight = 0 then none else chain.get? (pIndexLast.nHeight - 1))
  if params.nSwitchHeight < pIndexLast.nHeight + 1 then
    pure (calculateNextWorkRequired params pIndexLast pprev.nTime)
  else none

theorem getnBits_of_get? {params : Params} {chain : CChain} {nHeight : ℕ} {pIndexLast : CBlockIndex}
    (hlast : chain.get? nHeight = some pIndexLast) (hpos : 0 < pIndexLast.nHeight)
    (hswitch : params.nSwitchHeight < pIndexLast.nHeight + 1) :
    getnBits params chain nHeight = (chain.get? (pIndexLast.nHeight - 1)).map fun pprev =>
      calculateNextWorkRequired params pIndexLast pprev.nTime := by
  unfold getnBits
  simp only [hlast, Option.bind_eq_bind, Option.bind_some, if_neg (Nat.pos_iff_ne_zero.mp hpos),
    if_pos hswitch]
  cases chain.get? (pIndexLast.nHeight - 1) <;> rfl

theorem getNextWorkRequired_of_proofOfStake {params : Params} {chain : CChain} {nHeight : ℕ}
    {pIndexLast : CBlockIndex} (hlast : chain.get? nHeight = some pIndexLast)
    (hpos : params.nSwitchHeight < pIndexLast.nHeight) (nBlockTime : ℤ) :
    getNextWorkRequired params chain nHeight nBlockTime =
      (chain.get? (pIndexLast.nHeight - 1)).map fun pindexFirst =>
        calculateNextWorkRequired params pIndexLast pindexFirst.nTime := by
  have hfirst : ¬ ((pIndexLast.nHeight : ℤ) - 1 < 0) := by omega
  have htoNat : ((pIndexLast.nHeight : ℤ) - 1).toNat = pIndexLast.nHeight - 1 := by omega
  unfold getNextWorkRequired
  simp only [hlast, Option.bind_eq_bind, Option.bind_some, hpos, decide_true, Bool.not_true,
    Bool.false_eq_true, false_and, if_false, if_true, hfirst, htoNat]
  cases chain.get? (pIndexLast.nHeight - 1) <;> rfl
/-- Two blocks a minute apart, on the main network's rules with proof of
stake from the first block on. -/
def twoBlockChain : CChain := ⟨[⟨0, 0x1d00ffff, 0⟩, ⟨1, 0x1d00ffff, 60⟩], by decide⟩

/-- The main network at the first proof-of-stake block: the tip is at the
switch height, every block so far has target `0x1d00ffff` and they come a
minute apart.  The validator's rule is still the proof-of-work one, which off
a retarget boundary keeps the tip's target; the minter retargets, with the
proof-of-work clamp, to a quarter of it. -/
theorem getnBits_switchHeight :
    let chain : CChain :=
      ⟨(List.range 10276).map fun h => ⟨h, 0x1d00ffff, 60 * h⟩, by intro i hi; simp⟩
    getnBits Params.main chain 10275 = some 0x1c3fffc0 ∧
      getNextWorkRequired Params.main chain 10275 (60 * 10276) = some 0x1d00ffff := by
  decide +kernel

end XPChain
