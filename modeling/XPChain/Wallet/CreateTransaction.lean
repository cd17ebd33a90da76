import XPChain.Validation.CheckBlock
import XPChain.Policy.Stake
import Mathlib.Data.List.Nodup

/-!
# `CreateTransaction` and the minter's coinstake

`CWallet::CreateCoinStake(coin, txNew, nFees)` builds the coinstake with the
wallet's general `CreateTransaction`.  It passes one recipient, which is the
coin's own script and value with the fee subtracted from it, and coin control
that selects the coin alone.  `CreateTransaction` runs its fee loop:
1. build the payees' outputs with the fee found so far subtracted;
2. select coins;
3. add change or give it to the fee;
4. estimate the signed size and the fee it needs;
5. stop, or go round again with that fee.

After the loop it shuffles the selected coins into the inputs, signs them,
and checks the weight and the mempool chain limits.

The model follows the source's branches, including those the coinstake
never takes.  The wallet, the node and the fee estimator enter through `Env`:
- `GetMinimumFee` and the fallback-fee test;
- `CalculateMaximumSignedTxSize`;
- coin selection other than the preset-only branch;
- the change key;
- the random choices (change position, `nLockTime`, the shuffle);
- `ProduceSignature`, the weight and the chain limits.

Dust (`IsDust`, `GetDustThreshold`) and `CFeeRate::GetFee` are computed as in
the source.  `AvailableCoins` is modelled with its coin-control test; the
wallet's other tests of an output are one parameter.  The loop runs on
`fuel`, and running out of it is `none`.

## Main definitions

* `CFeeRate.GetFee`, `getDustThreshold`, `isDust`.
* `availableCoins`, `selectCoins` — with coin control.
* `feePass`, `feeLoop`, `createTransaction` — `CreateTransaction`.
* `createCoinStake` — `CWallet::CreateCoinStake(coin, ...)`.

## Main statements

* `createCoinStake_shape` — when the dust relay fee is positive, a
  coinstake that `CreateCoinStake` returns spends the coin alone and pays its
  script the value less a fee that is smaller than the value.
* `createCoinStake_fee_eq_value_of_zero_dustRelayFee` — at a dust relay fee
  of zero the fee can take the whole value.
-/

set_option autoImplicit false

namespace XPChain

open TxnOutType CTxDestination

/-! ## Fee rates and dust -/

/-- `CFeeRate`: satoshis per 1000 bytes. -/
structure CFeeRate where
  nSatoshisPerK : CAmount

/-- `CFeeRate::GetFee`: C++ division truncates toward zero, and a nonzero size
never costs zero at a nonzero rate. -/
def CFeeRate.GetFee (r : CFeeRate) (nBytes : ℕ) : CAmount :=
  let nFee := (r.nSatoshisPerK * nBytes).tdiv 1000
  if nFee = 0 ∧ nBytes ≠ 0 then
    if 0 < r.nSatoshisPerK then 1 else if r.nSatoshisPerK < 0 then -1 else nFee
  else nFee

/-- `GetDustThreshold`: the fee, at `dustRelayFeeIn`, of the output and of an
input that spends it, with the witness discount for a witness program. -/
def getDustThreshold (txout : CTxOut) (dustRelayFeeIn : CFeeRate) : CAmount :=
  if isUnspendable txout.scriptPubKey then 0
  else
    let nSize := txout.serialize.length
    if (isWitnessProgram txout.scriptPubKey).isSome then
      dustRelayFeeIn.GetFee (nSize + (32 + 4 + 1 + 107 / WITNESS_SCALE_FACTOR + 4))
    else dustRelayFeeIn.GetFee (nSize + (32 + 4 + 1 + 107 + 4))

/-- `IsDust`. -/
def isDust (txout : CTxOut) (dustRelayFeeIn : CFeeRate) : Bool :=
  txout.nValue < getDustThreshold txout dustRelayFeeIn

/-- `MIN_FINAL_CHANGE = MIN_CHANGE / 2`, with `MIN_CHANGE = CENT`. -/
def MIN_FINAL_CHANGE : CAmount := CENT / 2

/-- `MAX_STANDARD_TX_WEIGHT`. -/
def MAX_STANDARD_TX_WEIGHT : ℕ := 400000

/-- `CTxIn::SEQUENCE_FINAL`. -/
def SEQUENCE_FINAL : ℕ := 0xffffffff

/-! ## Coins and coin control -/

/-- `CRecipient`. -/
structure CRecipient where
  scriptPubKey : CScript
  nAmount : CAmount
  fSubtractFeeFromAmount : Bool

/-- `CInputCoin`: an outpoint and the output it names. -/
structure CInputCoin where
  outpoint : COutPoint
  txout : CTxOut
  deriving DecidableEq

/-- `COutput` as coin selection reads it: `GetInputCoin()` and `fSpendable`. -/
structure COutput where
  coin : CInputCoin
  fSpendable : Bool

/-- A wallet transaction, as `AvailableCoins` reads it. -/
structure CWalletTx where
  vout : List CTxOut

/-- `mapWallet`, a `std::map` from transaction hash: in key order, each key
once. -/
structure WalletMap where
  entries : List (uint256 × CWalletTx)
  nodup : (entries.map Prod.fst).Nodup

/-- The fields of `CCoinControl` that `CreateTransaction` and
`AvailableCoins` read themselves; the rest reach only the fee estimator. -/
structure CCoinControl where
  destChange : CTxDestination
  fAllowOtherInputs : Bool
  setSelected : List COutPoint

namespace CCoinControl

/-- `CCoinControl::SetNull`. -/
def empty : CCoinControl := ⟨CNoDestination, false, []⟩

def HasSelected (c : CCoinControl) : Bool := !c.setSelected.isEmpty

def IsSelected (c : CCoinControl) (output : COutPoint) : Bool := c.setSelected.contains output

/-- `Select`: `setSelected.insert(output)`. -/
def Select (c : CCoinControl) (output : COutPoint) : CCoinControl :=
  {c with setSelected := if c.IsSelected output then c.setSelected else output :: c.setSelected}

end CCoinControl

/-- The body of `AvailableCoins`'s loop for output `i` of the transaction
`hash`.  The wallet's own tests of the output (depth, trust, spent, locked,
`IsMine`, amount bounds) are `wants`: `none` skips the output, and otherwise
it says whether the output is spendable.  With coin control that allows no
other inputs, only selected outputs are kept. -/
def availableOutput (wants : uint256 → ℕ → CTxOut → Option Bool) (coinControl : Option CCoinControl)
    (hash : uint256) (p : CTxOut × ℕ) : Option COutput :=
  if coinControl.any fun c => c.HasSelected && !c.fAllowOtherInputs && !c.IsSelected ⟨hash, p.2⟩ then none
  else (wants hash p.2 p.1).map fun fSpendable => ⟨⟨⟨hash, p.2⟩, p.1⟩, fSpendable⟩

/-- `AvailableCoins(vCoins, fOnlySafe, coinControl)` over `mapWallet`. -/
def availableCoins (mapWallet : WalletMap) (wants : uint256 → ℕ → CTxOut → Option Bool)
    (coinControl : Option CCoinControl) : List COutput :=
  mapWallet.entries.flatMap fun entry => entry.2.vout.zipIdx.filterMap (availableOutput wants coinControl entry.1)

/-- `setCoinsRet.insert(coin)`: a `std::set` ordered by outpoint. -/
def insertCoin (c : CInputCoin) (s : List CInputCoin) : List CInputCoin :=
  if s.any (·.outpoint == c.outpoint) then s else c :: s

/-- The preset-only branch of `SelectCoins`: every spendable output of
`vCoins`, and whether they reach `nTargetValue`. -/
def selectPresetOnly (vCoins : List COutput) (nTargetValue : CAmount) :
    Bool × List CInputCoin × CAmount :=
  let r := vCoins.foldl (fun (acc : List CInputCoin × CAmount) out =>
    if out.fSpendable then (insertCoin out.coin acc.1, acc.2 + out.coin.txout.nValue) else acc) ([], 0)
  (decide (nTargetValue ≤ r.2), r.1, r.2)

/-! ## The wallet and the node -/

/-- What `CreateTransaction` reads from the wallet, the node and the fee
estimator, and the random choices it makes. -/
structure Env where
  /-- `IsWalletFlagSet(WALLET_FLAG_DISABLE_PRIVATE_KEYS)`. -/
  privateKeysDisabled : Bool
  /-- The change script for the key `reservekey.GetReservedKey` reserves;
  `none` when the key pool has run out. -/
  reservedChangeScript : Option CScript
  /-- `GetDiscardRate`, `::dustRelayFee` and `::minRelayTxFee`. -/
  discardRate : CFeeRate
  dustRelayFee : CFeeRate
  minRelayTxFee : CFeeRate
  /-- `GetMinimumFee` for a size in bytes. -/
  getMinimumFee : ℕ → CAmount
  /-- `feeCalc.reason == FeeReason::FALLBACK && !m_allow_fallback_fee` after
  `GetMinimumFee` for a size. -/
  fallbackRefused : ℕ → Bool
  /-- `CalculateMaximumSignedTxSize`: `-1` when the wallet cannot sign. -/
  calculateMaximumSignedTxSize : CTransaction → ℤ
  /-- `SelectCoins` outside its preset-only branch: preset inputs, then
  `SelectCoinsMinConf` with branch and bound or knapsack.  Returns whether
  it succeeded, the coins, their value and `bnb_used`. -/
  selectCoinsMixed : List COutput → CAmount → Bool → Bool × List CInputCoin × CAmount × Bool
  /-- `GetRandInt(n + 1)`. -/
  getRandInt : (n : ℕ) → Fin (n + 1)
  /-- The value an uninitialised `bnb_used` holds when no coins are picked. -/
  bnbUsedUnset : Bool
  nLockTime : ℕ
  nSequence : ℕ
  /-- `std::shuffle` of the selected coins. -/
  shuffle : List CInputCoin → List CInputCoin
  /-- `ProduceSignature` for input `nIn`: its `scriptSig` and witness. -/
  produceSignature : CTransaction → ℕ → CInputCoin → Option (CScript × CScriptWitness)
  getTransactionWeight : CTransaction → ℕ
  /-- The `-walletrejectlongchains` test of the mempool's chain limits. -/
  chainLimitsOk : CTransaction → Bool

/-- `SelectCoins`. -/
def selectCoins (env : Env) (vAvailableCoins : List COutput) (nTargetValue : CAmount)
    (coinControl : CCoinControl) (useBnb : Bool) : Bool × List CInputCoin × CAmount × Bool :=
  if coinControl.HasSelected && !coinControl.fAllowOtherInputs then
    let r := selectPresetOnly vAvailableCoins nTargetValue
    (r.1, r.2.1, r.2.2, false)
  else env.selectCoinsMixed vAvailableCoins nTargetValue useBnb

/-! ## The fee loop -/

/-- The payees' outputs of one pass of the loop.  A recipient that pays the
fee pays an equal share of `nFeeRet`, and the first such recipient also pays
the remainder; a dust output fails. -/
def payeeOutputs (dustRelayFee : CFeeRate) (nFeeRet : CAmount) (nSubtractFeeFromAmount : ℕ) :
    Bool → List CRecipient → Except String (List CTxOut)
  | _, [] => .ok []
  | fFirst, recipient :: rest =>
    let share := nFeeRet.tdiv nSubtractFeeFromAmount
    let txout : CTxOut :=
      if recipient.fSubtractFeeFromAmount then
        ⟨recipient.nAmount - share - (if fFirst then nFeeRet.tmod nSubtractFeeFromAmount else 0),
          recipient.scriptPubKey⟩
      else ⟨recipient.nAmount, recipient.scriptPubKey⟩
    if isDust txout dustRelayFee then
      .error (if recipient.fSubtractFeeFromAmount && decide (0 < nFeeRet) then
          (if txout.nValue < 0 then "The transaction amount is too small to pay the fee"
            else "The transaction amount is too small to send after the fee has been deducted")
        else "Transaction amount too small")
    else (payeeOutputs dustRelayFee nFeeRet nSubtractFeeFromAmount
      (fFirst && !recipient.fSubtractFeeFromAmount) rest).map (txout :: ·)

/-- The variables the loop carries from one pass to the next. -/
structure FeeLoop where
  nFeeRet : CAmount
  pickNewInputs : Bool
  useBnb : Bool
  nValueIn : CAmount
  setCoins : List CInputCoin

/-- How a pass of the loop ends: `continue` with new variables, or `break`
with the outputs, the selected coins, the fee and the change position. -/
inductive Pass
  | again (st : FeeLoop)
  | done (vout : List CTxOut) (setCoins : List CInputCoin) (nFeeRet : CAmount) (nChangePosInOut : ℤ)

/-- The change output of one pass: added at `nChangePosInOut` (a random
position when it is `-1`), or given to the fee when it would be dust or
branch and bound chose the coins.  Returns the outputs, the fee and the
change position. -/
def addChange (env : Env) (scriptChange : CScript) (nChangePosRequest : ℤ) (bnbUsed : Bool)
    (vout : List CTxOut) (nFeeRet nChange : CAmount) : Except String (List CTxOut × CAmount × ℤ) :=
  if 0 < nChange then
    let newTxOut : CTxOut := ⟨nChange, scriptChange⟩
    if isDust newTxOut env.discardRate || bnbUsed then .ok (vout, nFeeRet + nChange, -1)
    else if nChangePosRequest = -1 then
      let pos := (env.getRandInt vout.length : ℕ)
      .ok (vout.insertIdx pos newTxOut, nFeeRet, pos)
    -- a negative request is a huge `unsigned int`
    else if nChangePosRequest < 0 ∨ (vout.length : ℤ) < nChangePosRequest then .error "Change index out of range"
    else .ok (vout.insertIdx nChangePosRequest.toNat newTxOut, nFeeRet, nChangePosRequest)
  else .ok (vout, nFeeRet, -1)

/-- The end of a pass, once its outputs and coins are known: the signed size,
the fee it needs, and whether the loop stops there.  `st` holds the coins
and their value. -/
def feeDecision (env : Env) (nSubtractFeeFromAmount : ℕ) (scriptChange : CScript) (st : FeeLoop)
    (vout : List CTxOut) (nFeeRet : CAmount) (nChangePosInOut : ℤ) : Except String Pass :=
  let txDummy : CTransaction :=
    ⟨2, st.setCoins.map fun coin => ⟨coin.outpoint, [], SEQUENCE_FINAL, []⟩, vout, env.nLockTime⟩
  let nBytes := env.calculateMaximumSignedTxSize txDummy
  if nBytes < 0 then .error "Signing transaction failed"
  else
    let nFeeNeeded := env.getMinimumFee nBytes.toNat
    if env.fallbackRefused nBytes.toNat then
      .error "Fee estimation failed. Fallbackfee is disabled. Wait a few blocks or enable -fallbackfee."
    else if nFeeNeeded < env.minRelayTxFee.GetFee nBytes.toNat then
      .error "Transaction too large for fee policy"
    else if nFeeNeeded ≤ nFeeRet then
      let txSizeWithChange := nBytes.toNat + (CTxOut.serialize ⟨0, scriptChange⟩).length + 2
      let feeNeededWithChange : CAmount := env.getMinimumFee txSizeWithChange
      let minimumValueForChange : CAmount := getDustThreshold ⟨0, scriptChange⟩ env.discardRate
      -- no change and a big enough excess: try once more with a change output
      if nChangePosInOut = -1 ∧ nSubtractFeeFromAmount = 0 ∧ st.pickNewInputs ∧
          feeNeededWithChange + minimumValueForChange ≤ nFeeRet then
        .ok (.again {st with pickNewInputs := false, nFeeRet := feeNeededWithChange})
      else if nFeeNeeded < nFeeRet ∧ nChangePosInOut ≠ -1 ∧ nSubtractFeeFromAmount = 0 then
        .ok (.done (vout.modify nChangePosInOut.toNat fun o => {o with nValue := o.nValue + (nFeeRet - nFeeNeeded)})
          st.setCoins nFeeNeeded nChangePosInOut)
      else .ok (.done vout st.setCoins nFeeRet nChangePosInOut)
    else if !st.pickNewInputs then .error "Transaction fee and change calculation failed"
    else
      let additionalFeeNeeded := nFeeNeeded - nFeeRet
      if nChangePosInOut ≠ -1 ∧ nSubtractFeeFromAmount = 0 ∧
          (vout.getD nChangePosInOut.toNat ⟨0, []⟩).nValue ≥ MIN_FINAL_CHANGE + additionalFeeNeeded then
        .ok (.done (vout.modify nChangePosInOut.toNat fun o => {o with nValue := o.nValue - additionalFeeNeeded})
          st.setCoins (nFeeRet + additionalFeeNeeded) nChangePosInOut)
      else
        -- subtracting the fee from the recipients needs no new inputs
        let pickNewInputs := if 0 < nSubtractFeeFromAmount then false else st.pickNewInputs
        .ok (.again {st with nFeeRet := nFeeNeeded, useBnb := false, pickNewInputs := pickNewInputs})

/-- One pass of `while (true)` in `CreateTransaction`. -/
def feePass (env : Env) (vecSend : List CRecipient) (nValue : CAmount) (nSubtractFeeFromAmount : ℕ)
    (vAvailableCoins : List COutput) (coinControl : CCoinControl) (scriptChange : CScript)
    (nChangePosRequest : ℤ) (st : FeeLoop) : Except String Pass :=
  let nValueToSelect := if nSubtractFeeFromAmount = 0 then nValue + st.nFeeRet else nValue
  match payeeOutputs env.dustRelayFee st.nFeeRet nSubtractFeeFromAmount true vecSend with
  | .error e => .error e
  | .ok vout =>
    let sel := selectCoins env vAvailableCoins nValueToSelect coinControl st.useBnb
    if st.pickNewInputs ∧ sel.1 = false then
      -- a failed branch and bound is retried with knapsack
      if sel.2.2.2 then .ok (.again {st with useBnb := false, setCoins := sel.2.1, nValueIn := sel.2.2.1})
      else .error "Insufficient funds"
    else
      let st : FeeLoop := if st.pickNewInputs then {st with setCoins := sel.2.1, nValueIn := sel.2.2.1} else st
      let bnbUsed := if st.pickNewInputs then sel.2.2.2 else env.bnbUsedUnset
      match addChange env scriptChange nChangePosRequest bnbUsed vout st.nFeeRet (st.nValueIn - nValueToSelect) with
      | .error e => .error e
      | .ok (vout, nFeeRet, nChangePosInOut) => feeDecision env nSubtractFeeFromAmount scriptChange st vout nFeeRet nChangePosInOut

/-- The loop, for at most `fuel` passes; `none` when the fuel runs out. -/
def feeLoop (pass : FeeLoop → Except String Pass) :
    ℕ → FeeLoop → Option (Except String (List CTxOut × List CInputCoin × CAmount × ℤ))
  | 0, _ => none
  | fuel + 1, st =>
    match pass st with
    | .error e => some (.error e)
    | .ok (.done vout setCoins nFeeRet nChangePosInOut) => some (.ok (vout, setCoins, nFeeRet, nChangePosInOut))
    | .ok (.again st') => feeLoop pass fuel st'

/-- The checks on the recipients before the loop: the total, and how many
pay the fee. -/
def sumRecipients : List CRecipient → CAmount → ℕ → Except String (CAmount × ℕ)
  | [], nValue, nSub => .ok (nValue, nSub)
  | recipient :: rest, nValue, nSub =>
    if nValue < 0 ∨ recipient.nAmount < 0 then .error "Transaction amounts must not be negative"
    else sumRecipients rest (nValue + recipient.nAmount)
      (if recipient.fSubtractFeeFromAmount then nSub + 1 else nSub)

/-- The change script: the coin control's destination, or a key from the
pool. -/
def changeScript (env : Env) (coinControl : CCoinControl) : Except String CScript :=
  if coinControl.destChange ≠ CNoDestination then .ok (getScriptForDestination coinControl.destChange)
  else if env.privateKeysDisabled then
    .error "Can't generate a change-address key. Private keys are disabled for this wallet."
  else match env.reservedChangeScript with
    | none => .error "Keypool ran out, please call keypoolrefill first"
    | some s => .ok s

/-- `ProduceSignature` and `UpdateInput` for the inputs from `nIn` on. -/
def signInputs (env : Env) (tx : CTransaction) : ℕ → List CInputCoin → Except String CTransaction
  | _, [] => .ok tx
  | nIn, coin :: rest =>
    match env.produceSignature tx nIn coin with
    | none => .error "Signing transaction failed"
    | some (scriptSig, scriptWitness) =>
      signInputs env {tx with vin := tx.vin.modify nIn fun txin => {txin with scriptSig := scriptSig, scriptWitness := scriptWitness}}
        (nIn + 1) rest

/-- After the loop: the selected coins, shuffled, become the inputs, which
are signed; then the weight and the mempool chain limits are checked. -/
def finishTransaction (env : Env) (sign : Bool) :
    List CTxOut × List CInputCoin × CAmount × ℤ → Except String (CTransaction × CAmount × ℤ)
  | (vout, setCoins, nFeeRet, nChangePosInOut) => do
    let selected := env.shuffle setCoins
    let txNew : CTransaction :=
      ⟨2, selected.map fun coin => ⟨coin.outpoint, [], env.nSequence, []⟩, vout, env.nLockTime⟩
    let tx ← if sign then signInputs env txNew 0 selected else .ok txNew
    if MAX_STANDARD_TX_WEIGHT < env.getTransactionWeight tx then .error "Transaction too large"
    else if !env.chainLimitsOk tx then .error "Transaction has too long of a mempool chain"
    else .ok (tx, nFeeRet, nChangePosInOut)

/-- `CWallet::CreateTransaction`: the transaction, `nFeeRet` and
`nChangePosInOut`. -/
def createTransaction (env : Env) (mapWallet : WalletMap) (wants : uint256 → ℕ → CTxOut → Option Bool)
    (vecSend : List CRecipient) (nChangePosInOut : ℤ) (coinControl : CCoinControl) (sign : Bool)
    (fuel : ℕ) : Option (Except String (CTransaction × CAmount × ℤ)) :=
  match sumRecipients vecSend 0 0 with
  | .error e => some (.error e)
  | .ok (nValue, nSubtractFeeFromAmount) =>
    if vecSend = [] then some (.error "Transaction must have at least one recipient")
    else match changeScript env coinControl with
    | .error e => some (.error e)
    | .ok scriptChange =>
      let vAvailableCoins := availableCoins mapWallet wants (some coinControl)
      let pass := feePass env vecSend nValue nSubtractFeeFromAmount vAvailableCoins coinControl scriptChange
        nChangePosInOut
      (feeLoop pass fuel ⟨0, true, nSubtractFeeFromAmount = 0, 0, []⟩).map fun r =>
        r.bind (finishTransaction env sign)

/-- `CWallet::CreateCoinStake(coin, txNew, nFees)`: the coin's own script and
value, with the fee subtracted, and coin control that selects the coin. -/
def createCoinStake (env : Env) (mapWallet : WalletMap) (wants : uint256 → ℕ → CTxOut → Option Bool)
    (coin : COutput) (fuel : ℕ) : Option (Except String (CTransaction × CAmount)) :=
  let coinControl := CCoinControl.empty.Select coin.coin.outpoint
  let recipient : CRecipient := ⟨coin.coin.txout.scriptPubKey, coin.coin.txout.nValue, true⟩
  (createTransaction env mapWallet wants [recipient] (-1) coinControl true fuel).map
    fun r => r.map fun r => (r.1, r.2.1)

/-! ## `AvailableCoins` -/

/-- What a `filterMap` keeps keeps its key: the keys of what it keeps are a
sublist of the keys of its input. -/
theorem sublist_map_filterMap {α β γ : Type} (g : α → Option β) (key : β → γ) (key' : α → γ)
    (hkey : ∀ a b, g a = some b → key b = key' a) :
    ∀ l : List α, ((l.filterMap g).map key).Sublist (l.map key')
  | [] => List.Sublist.slnil
  | a :: l => by
    rw [List.filterMap_cons]
    cases hg : g a with
    | none => exact (sublist_map_filterMap g key key' hkey l).cons _
    | some b =>
      rw [List.map_cons, List.map_cons, hkey a b hg]
      exact (sublist_map_filterMap g key key' hkey l).cons_cons _

theorem availableOutput_eq_some {wants : uint256 → ℕ → CTxOut → Option Bool}
    {coinControl : Option CCoinControl} {hash : uint256} {p : CTxOut × ℕ} {out : COutput}
    (h : availableOutput wants coinControl hash p = some out) :
    out.coin = ⟨⟨hash, p.2⟩, p.1⟩ ∧
      coinControl.any (fun c => c.HasSelected && !c.fAllowOtherInputs && !c.IsSelected ⟨hash, p.2⟩) = false := by
  unfold availableOutput at h
  split_ifs at h with hcc
  obtain ⟨fSpendable, -, rfl⟩ := Option.map_eq_some_iff.mp h
  exact ⟨rfl, by simpa using hcc⟩

/-- Where an output `AvailableCoins` keeps comes from, and that it passed the
coin-control test. -/
theorem outpoint_of_mem_availableCoins {mapWallet : WalletMap} {wants : uint256 → ℕ → CTxOut → Option Bool}
    {coinControl : Option CCoinControl} {out : COutput} (h : out ∈ availableCoins mapWallet wants coinControl) :
    ∃ wtx, (out.coin.outpoint.hash, wtx) ∈ mapWallet.entries ∧
      wtx.vout[out.coin.outpoint.n]? = some out.coin.txout ∧
      coinControl.any (fun c => c.HasSelected && !c.fAllowOtherInputs && !c.IsSelected out.coin.outpoint) = false := by
  obtain ⟨entry, hentry, hout⟩ := List.mem_flatMap.mp h
  obtain ⟨p, hp, hg⟩ := List.mem_filterMap.mp hout
  obtain ⟨hcoin, hcc⟩ := availableOutput_eq_some hg
  rw [hcoin]
  exact ⟨entry.2, hentry, List.mem_zipIdx_iff_getElem?.mp hp, hcc⟩

/-- `AvailableCoins` never lists an outpoint twice: `mapWallet` has each
transaction once, and each output of it is visited once. -/
theorem nodup_availableCoins (mapWallet : WalletMap) (wants : uint256 → ℕ → CTxOut → Option Bool)
    (coinControl : Option CCoinControl) :
    ((availableCoins mapWallet wants coinControl).map (·.coin.outpoint)).Nodup := by
  have hkey (hash : uint256) (p : CTxOut × ℕ) (out : COutput)
      (h : availableOutput wants coinControl hash p = some out) : out.coin.outpoint = ⟨hash, p.2⟩ := by
    rw [(availableOutput_eq_some h).1]
  rw [availableCoins, List.map_flatMap, List.nodup_flatMap]
  constructor
  · -- one transaction: its outputs have distinct indices
    intro entry _
    refine (sublist_map_filterMap _ (fun out : COutput => out.coin.outpoint)
      ((fun i => (⟨entry.1, i⟩ : COutPoint)) ∘ Prod.snd) (hkey entry.1) _).nodup ?_
    rw [← List.map_map, List.zipIdx_map_snd]
    exact (List.nodup_range' 1 Nat.one_pos).map fun i j hij => (COutPoint.mk.inj hij).2
  · -- two transactions: their hashes differ
    have hkeys : mapWallet.entries.Pairwise fun a b => a.1 ≠ b.1 := List.pairwise_map.mp mapWallet.nodup
    refine hkeys.imp fun {a b} hab x hxa hxb => ?_
    obtain ⟨outa, hma, rfl⟩ := List.mem_map.mp hxa
    obtain ⟨outb, hmb, hx⟩ := List.mem_map.mp hxb
    obtain ⟨pa, -, hga⟩ := List.mem_filterMap.mp hma
    obtain ⟨pb, -, hgb⟩ := List.mem_filterMap.mp hmb
    have ha : outa.coin.outpoint.hash = a.1 := by rw [hkey a.1 pa outa hga]
    have hb : outb.coin.outpoint.hash = b.1 := by rw [hkey b.1 pb outb hgb]
    exact hab (by rw [← ha, ← hb, hx])

/-- With coin control that selects the coin `c` alone, `AvailableCoins`
keeps at most `c`, when `c` is the output the wallet holds at its outpoint. -/
theorem availableCoins_select {mapWallet : WalletMap} {wants : uint256 → ℕ → CTxOut → Option Bool}
    {c : CInputCoin}
    (hcoin : ∀ wtx, (c.outpoint.hash, wtx) ∈ mapWallet.entries → wtx.vout[c.outpoint.n]? = some c.txout) :
    availableCoins mapWallet wants (some (CCoinControl.empty.Select c.outpoint)) = [] ∨
      ∃ fSpendable, availableCoins mapWallet wants (some (CCoinControl.empty.Select c.outpoint)) = [⟨c, fSpendable⟩] := by
  have hmem : ∀ out ∈ availableCoins mapWallet wants (some (CCoinControl.empty.Select c.outpoint)), out.coin = c := by
    rintro ⟨⟨o, txout⟩, fSpendable⟩ hout
    obtain ⟨wtx, hentry, hvout, hcc⟩ := outpoint_of_mem_availableCoins hout
    -- the coin control keeps only the selected outpoint
    have ho : o = c.outpoint := by
      simpa [CCoinControl.empty, CCoinControl.Select, CCoinControl.IsSelected, CCoinControl.HasSelected] using hcc
    subst ho
    have htxout : txout = c.txout := by
      simpa [hvout] using hcoin wtx hentry
    subst htxout
    rfl
  have hnodup := nodup_availableCoins mapWallet wants (some (CCoinControl.empty.Select c.outpoint))
  generalize availableCoins mapWallet wants (some (CCoinControl.empty.Select c.outpoint)) = l at hmem hnodup ⊢
  rcases l with _ | ⟨a, _ | ⟨b, rest⟩⟩
  · exact Or.inl rfl
  · refine Or.inr ⟨a.fSpendable, ?_⟩
    rw [← hmem a List.mem_cons_self]
  · -- two outputs would share the outpoint
    have hab : a.coin.outpoint = b.coin.outpoint := by
      rw [hmem a List.mem_cons_self, hmem b (List.mem_cons_of_mem _ List.mem_cons_self)]
    simp [hab] at hnodup

/-- The preset-only selection of at most the coin `c`: nothing, or `c` and
its value. -/
theorem selectPresetOnly_coin {c : CInputCoin} {l : List COutput}
    (hl : l = [] ∨ ∃ fSpendable, l = [⟨c, fSpendable⟩]) (nTargetValue : CAmount) :
    ((selectPresetOnly l nTargetValue).2.1 = [] ∧ (selectPresetOnly l nTargetValue).2.2 = 0) ∨
      ((selectPresetOnly l nTargetValue).2.1 = [c] ∧ (selectPresetOnly l nTargetValue).2.2 = c.txout.nValue) := by
  rcases hl with rfl | ⟨fSpendable, rfl⟩
  · exact Or.inl ⟨rfl, rfl⟩
  · cases fSpendable
    · exact Or.inl ⟨rfl, rfl⟩
    · right
      simp [selectPresetOnly, insertCoin]

/-! ## The coinstake's passes through the loop -/

/-- At a rate that is not negative, no size costs a negative fee. -/
theorem CFeeRate.GetFee_nonneg {r : CFeeRate} (h : 0 ≤ r.nSatoshisPerK) (nBytes : ℕ) : 0 ≤ r.GetFee nBytes := by
  have hdiv : 0 ≤ (r.nSatoshisPerK * nBytes).tdiv 1000 := Int.tdiv_nonneg (by positivity) (by norm_num)
  unfold CFeeRate.GetFee
  dsimp only
  split_ifs with _ _ hneg
  · exact zero_le_one
  · exact absurd hneg (not_lt.mpr h)
  · exact hdiv
  · exact hdiv

/-- At a positive rate, a nonzero size costs a positive fee. -/
theorem CFeeRate.GetFee_pos {r : CFeeRate} (h : 0 < r.nSatoshisPerK) {nBytes : ℕ} (hn : 0 < nBytes) :
    0 < r.GetFee nBytes := by
  have hdiv : 0 ≤ (r.nSatoshisPerK * nBytes).tdiv 1000 := Int.tdiv_nonneg (by positivity) (by norm_num)
  unfold CFeeRate.GetFee
  dsimp only
  split_ifs with hzero
  · exact zero_lt_one
  · exact lt_of_le_of_ne hdiv fun h0 => hzero ⟨h0.symm, hn.ne'⟩

/-- At a positive dust relay fee, a spendable output worth nothing is dust. -/
theorem isDust_of_nonpos {txout : CTxOut} {rate : CFeeRate} (hrate : 0 < rate.nSatoshisPerK)
    (hspend : isUnspendable txout.scriptPubKey = false) (hv : txout.nValue ≤ 0) : isDust txout rate = true := by
  have hpos : 0 < getDustThreshold txout rate := by
    unfold getDustThreshold
    rw [hspend, if_neg Bool.false_ne_true]
    dsimp only
    split_ifs
    · exact CFeeRate.GetFee_pos hrate (by positivity)
    · exact CFeeRate.GetFee_pos hrate (by positivity)
  simpa [isDust] using hv.trans_lt hpos

/-- The end of a pass that subtracts the fee from the recipients and has no
change: the loop stops with the fee it has, or goes round again, picking no
new inputs, with the fee the size needs. -/
theorem feeDecision_subtractFee {env : Env} (hrelay : 0 ≤ env.minRelayTxFee.nSatoshisPerK) {nSub : ℕ}
    (hsub : nSub ≠ 0) {scriptChange : CScript} {st : FeeLoop} {vout : List CTxOut} {nFeeRet : CAmount}
    {r : Pass} (h : feeDecision env nSub scriptChange st vout nFeeRet (-1) = .ok r) :
    r = .done vout st.setCoins nFeeRet (-1) ∨
      st.pickNewInputs = true ∧ ∃ nFeeNeeded, 0 ≤ nFeeNeeded ∧
        r = .again {st with nFeeRet := nFeeNeeded, useBnb := false, pickNewInputs := false} := by
  unfold feeDecision at h
  dsimp only at h
  generalize env.calculateMaximumSignedTxSize _ = nBytes at h
  simp only [hsub, false_and, and_false, if_false, ne_eq, not_true_eq_false, Nat.pos_of_ne_zero hsub,
    if_true] at h
  split_ifs at h with hneg hfb hlow hle hpick
  · cases h
    exact Or.inl rfl
  · cases h
    exact Or.inr ⟨by simpa using hpick, _, (CFeeRate.GetFee_nonneg hrelay _).trans (not_lt.mp hlow), rfl⟩

/-- The coinstake's one recipient: its value less the fee, unless that is
dust. -/
theorem payeeOutputs_coinStake {rate : CFeeRate} {nFeeRet V : CAmount} {s : CScript} {vout : List CTxOut}
    (h : payeeOutputs rate nFeeRet 1 true [⟨s, V, true⟩] = .ok vout) :
    vout = [⟨V - nFeeRet, s⟩] ∧ isDust ⟨V - nFeeRet, s⟩ rate = false := by
  simp only [payeeOutputs, Nat.cast_one, Int.tdiv_one, Int.tmod_one, sub_zero, if_true] at h
  split_ifs at h with hdust
  cases h
  exact ⟨rfl, by simpa using hdust⟩

theorem addChange_of_nonpos (env : Env) (scriptChange : CScript) (nChangePosRequest : ℤ) (bnbUsed : Bool)
    (vout : List CTxOut) (nFeeRet : CAmount) {nChange : CAmount} (h : nChange ≤ 0) :
    addChange env scriptChange nChangePosRequest bnbUsed vout nFeeRet nChange = .ok (vout, nFeeRet, -1) := by
  rw [addChange, if_neg (not_lt.mpr h)]

/-- What the loop keeps when `CreateCoinStake` runs it, for the coins
`vAvailableCoins` and the coin's value `V`: the fee is not negative, and
once no new inputs are picked the coins are those the preset-only selection
found, worth at least `V`. -/
structure CoinStakeLoop (vAvailableCoins : List COutput) (V : CAmount) (st : FeeLoop) : Prop where
  fee_nonneg : 0 ≤ st.nFeeRet
  picked : st.pickNewInputs = false →
    st.setCoins = (selectPresetOnly vAvailableCoins V).2.1 ∧
      st.nValueIn = (selectPresetOnly vAvailableCoins V).2.2 ∧ V ≤ (selectPresetOnly vAvailableCoins V).2.2

theorem coinStakeLoop_init (vAvailableCoins : List COutput) (V : CAmount) (useBnb : Bool) :
    CoinStakeLoop vAvailableCoins V ⟨0, true, useBnb, 0, []⟩ :=
  ⟨le_rfl, nofun⟩

section CoinStake

variable {env : Env} {vAvailableCoins : List COutput} {V : CAmount} {s scriptChange : CScript} {r : Pass}

/-- How a coinstake pass ends once its coins cover the value: it stops with
the coin's output less the fee, or goes round again keeping those coins. -/
theorem feeDecision_coinStake (hrelay : 0 ≤ env.minRelayTxFee.nSatoshisPerK) {st : FeeLoop} {nFeeRet : CAmount}
    (hcoins : st.setCoins = (selectPresetOnly vAvailableCoins V).2.1)
    (hvalueIn : st.nValueIn = (selectPresetOnly vAvailableCoins V).2.2)
    (hcover : V ≤ (selectPresetOnly vAvailableCoins V).2.2) (hfee : 0 ≤ nFeeRet)
    (hdust : isDust ⟨V - nFeeRet, s⟩ env.dustRelayFee = false)
    (h : feeDecision env 1 scriptChange st [⟨V - nFeeRet, s⟩] nFeeRet (-1) = .ok r) :
    (∃ st', r = .again st' ∧ CoinStakeLoop vAvailableCoins V st') ∨
      ∃ nFeeRet, r = .done [⟨V - nFeeRet, s⟩] (selectPresetOnly vAvailableCoins V).2.1 nFeeRet (-1) ∧
        0 ≤ nFeeRet ∧ isDust ⟨V - nFeeRet, s⟩ env.dustRelayFee = false ∧
        V ≤ (selectPresetOnly vAvailableCoins V).2.2 := by
  rcases feeDecision_subtractFee hrelay one_ne_zero h with rfl | ⟨-, nFeeNeeded, hneeded, rfl⟩
  · exact Or.inr ⟨nFeeRet, by rw [hcoins], hfee, hdust, hcover⟩
  · exact Or.inl ⟨_, rfl, hneeded, fun _ => ⟨hcoins, hvalueIn, hcover⟩⟩

/-- One pass of the loop as `CreateCoinStake` runs it: one recipient that
pays the fee, and coin control that takes the preset coins only, worth
nothing or exactly the coin's value. -/
theorem feePass_coinStake (hrelay : 0 ≤ env.minRelayTxFee.nSatoshisPerK) (hV : 0 ≤ V)
    (hvalue : (selectPresetOnly vAvailableCoins V).2.2 = 0 ∨ (selectPresetOnly vAvailableCoins V).2.2 = V)
    {coinControl : CCoinControl} (hpreset : (coinControl.HasSelected && !coinControl.fAllowOtherInputs) = true)
    {st : FeeLoop} (hst : CoinStakeLoop vAvailableCoins V st)
    (h : feePass env [⟨s, V, true⟩] V 1 vAvailableCoins coinControl scriptChange (-1) st = .ok r) :
    (∃ st', r = .again st' ∧ CoinStakeLoop vAvailableCoins V st') ∨
      ∃ nFeeRet, r = .done [⟨V - nFeeRet, s⟩] (selectPresetOnly vAvailableCoins V).2.1 nFeeRet (-1) ∧
        0 ≤ nFeeRet ∧ isDust ⟨V - nFeeRet, s⟩ env.dustRelayFee = false ∧
        V ≤ (selectPresetOnly vAvailableCoins V).2.2 := by
  set P := selectPresetOnly vAvailableCoins V with hP
  have hsel : selectCoins env vAvailableCoins V coinControl st.useBnb = (P.1, P.2.1, P.2.2, false) := by
    rw [selectCoins, if_pos hpreset]
  -- coins that cover the value leave no change
  have hchange (hcover : V ≤ P.2.2) : P.2.2 - V ≤ 0 := by
    rcases hvalue with h0 | h0 <;> linarith
  unfold feePass at h
  cases hpay : payeeOutputs env.dustRelayFee st.nFeeRet 1 true [⟨s, V, true⟩] with
  | error e =>
    rw [hpay] at h
    cases h
  | ok vout =>
    obtain ⟨rfl, hdust⟩ := payeeOutputs_coinStake hpay
    simp only [hpay, one_ne_zero, if_false, hsel] at h
    cases hpick : st.pickNewInputs
    · -- the coins picked on an earlier pass
      obtain ⟨hcoins, hvalueIn, hcover⟩ := hst.picked hpick
      simp only [hpick, Bool.false_eq_true, false_and, if_false] at h
      rw [hvalueIn, addChange_of_nonpos _ _ _ _ _ _ (hchange hcover)] at h
      exact feeDecision_coinStake hrelay hcoins hvalueIn hcover hst.fee_nonneg hdust h
    · -- the coins picked now, which must cover the value
      simp only [hpick, true_and, if_true, Bool.false_eq_true, if_false] at h
      split_ifs at h with hP1
      have hcover : V ≤ P.2.2 := by simpa [hP, selectPresetOnly] using hP1
      rw [addChange_of_nonpos _ _ _ _ _ _ (hchange hcover)] at h
      exact feeDecision_coinStake hrelay rfl rfl hcover hst.fee_nonneg hdust h

/-- Whatever the coinstake's loop returns is the coin's output less a fee
that is not negative and leaves it above dust, with the coins the preset-only
selection found. -/
theorem feeLoop_coinStake (hrelay : 0 ≤ env.minRelayTxFee.nSatoshisPerK) (hV : 0 ≤ V)
    (hvalue : (selectPresetOnly vAvailableCoins V).2.2 = 0 ∨ (selectPresetOnly vAvailableCoins V).2.2 = V)
    {coinControl : CCoinControl} (hpreset : (coinControl.HasSelected && !coinControl.fAllowOtherInputs) = true)
    {res : List CTxOut × List CInputCoin × CAmount × ℤ} (fuel : ℕ) {st : FeeLoop}
    (hst : CoinStakeLoop vAvailableCoins V st)
    (h : feeLoop (feePass env [⟨s, V, true⟩] V 1 vAvailableCoins coinControl scriptChange (-1)) fuel st =
      some (.ok res)) :
    ∃ nFeeRet, res = ([⟨V - nFeeRet, s⟩], (selectPresetOnly vAvailableCoins V).2.1, nFeeRet, -1) ∧
      0 ≤ nFeeRet ∧ isDust ⟨V - nFeeRet, s⟩ env.dustRelayFee = false ∧
      V ≤ (selectPresetOnly vAvailableCoins V).2.2 := by
  -- the invariant `CoinStakeLoop` is carried from pass to pass
  induction fuel generalizing st with
  | zero => cases h
  | succ fuel ih =>
    rw [feeLoop] at h
    split at h
    · cases h
    · rename_i vout setCoins nFeeRet nChangePosInOut hpass
      cases h
      rcases feePass_coinStake hrelay hV hvalue hpreset hst hpass with ⟨st', hr, -⟩ | ⟨n, hr, hn, hdust, hcover⟩
      · cases hr
      · obtain ⟨rfl, rfl, rfl, rfl⟩ := Pass.done.inj hr
        exact ⟨_, rfl, hn, hdust, hcover⟩
    · rename_i st' hpass
      rcases feePass_coinStake hrelay hV hvalue hpreset hst hpass with ⟨st'', hr, hst'⟩ | ⟨n, hr, -⟩
      · cases hr
        exact ih hst' h
      · cases hr

end CoinStake

/-! ## After the loop -/

/-- Changing an element in a way `g` does not see leaves the list's image
under `g` alone. -/
theorem map_modify_of_forall {α β : Type} {f : α → α} {g : α → β} (hg : ∀ a, g (f a) = g a) (l : List α) (n : ℕ) :
    (l.modify n f).map g = l.map g := by
  apply List.ext_getElem?
  intro i
  rw [List.getElem?_map, List.getElem?_map, List.getElem?_modify]
  cases l[i]? with
  | none => rfl
  | some a => by_cases hi : n = i <;> simp [hi, hg]

/-- Signing fills in `scriptSig` and the witness, and keeps the outpoints and
the outputs. -/
theorem signInputs_eq_ok {env : Env} :
    ∀ {tx tx' : CTransaction} {nIn : ℕ} {coins : List CInputCoin}, signInputs env tx nIn coins = .ok tx' →
      tx'.vin.map (·.prevout) = tx.vin.map (·.prevout) ∧ tx'.vout = tx.vout
  | _, _, _, [], h => by
    cases h
    exact ⟨rfl, rfl⟩
  | tx, tx', nIn, coin :: rest, h => by
    rw [signInputs] at h
    split at h
    · cases h
    · obtain ⟨hvin, hvout⟩ := signInputs_eq_ok h
      refine ⟨hvin.trans ?_, hvout⟩
      apply map_modify_of_forall
      intro txin
      rfl

/-- What `CreateTransaction` returns after the loop: the shuffled coins as
the inputs, the loop's outputs, fee and change position. -/
theorem finishTransaction_eq_ok {env : Env} {sign : Bool} {vout : List CTxOut} {setCoins : List CInputCoin}
    {nFeeRet : CAmount} {nChangePosInOut : ℤ} {res : CTransaction × CAmount × ℤ}
    (h : finishTransaction env sign (vout, setCoins, nFeeRet, nChangePosInOut) = .ok res) :
    res.1.vin.map (·.prevout) = (env.shuffle setCoins).map (·.outpoint) ∧ res.1.vout = vout ∧
      res.2 = (nFeeRet, nChangePosInOut) := by
  dsimp only [finishTransaction, bind, Except.bind] at h
  cases sign with
  | false =>
    simp only [Bool.false_eq_true, if_false] at h
    split_ifs at h
    cases h
    simp
  | true =>
    simp only [if_true] at h
    split at h
    · cases h
    · rename_i tx hsigned
      split_ifs at h
      cases h
      obtain ⟨hvin, hvout⟩ := signInputs_eq_ok hsigned
      refine ⟨?_, hvout, rfl⟩
      simp [hvin]

/-- A transaction `CreateTransaction` returns passed the checks on its
recipients, got a change script and came out of the fee loop. -/
theorem createTransaction_eq_ok {env : Env} {mapWallet : WalletMap} {wants : uint256 → ℕ → CTxOut → Option Bool}
    {vecSend : List CRecipient} {nChangePosInOut : ℤ} {coinControl : CCoinControl} {sign : Bool} {fuel : ℕ}
    {res : CTransaction × CAmount × ℤ}
    (h : createTransaction env mapWallet wants vecSend nChangePosInOut coinControl sign fuel = some (.ok res)) :
    ∃ nValue nSub scriptChange r, sumRecipients vecSend 0 0 = .ok (nValue, nSub) ∧
      changeScript env coinControl = .ok scriptChange ∧
      feeLoop (feePass env vecSend nValue nSub (availableCoins mapWallet wants (some coinControl)) coinControl
        scriptChange nChangePosInOut) fuel ⟨0, true, nSub = 0, 0, []⟩ = some (.ok r) ∧
      finishTransaction env sign r = .ok res := by
  unfold createTransaction at h
  split at h
  · cases h
  · rename_i nValue nSub hsum
    split_ifs at h
    · cases h
    split at h
    · cases h
    · rename_i scriptChange hchange
      obtain ⟨r, hloop, hr⟩ := Option.map_eq_some_iff.mp h
      cases r with
      | error e => cases hr
      | ok r => exact ⟨nValue, nSub, scriptChange, r, hsum, hchange, hloop, hr⟩

/-! ## The coinstake -/

/-- What `CreateCoinStake` returns at a positive dust relay fee, for a coin
that is the wallet's output at its outpoint and has a spendable script: one
input, spending the coin; one output, paying the coin's script its value less
a fee that is smaller than the value, and not dust; and, for the single-key,
script-hash and version 0 witness templates, an output that `IsCoinStakeTx`'s
destination check accepts. -/
theorem createCoinStake_shape (crypto : Crypto) {env : Env} (hdust : 0 < env.dustRelayFee.nSatoshisPerK)
    (hrelay : 0 ≤ env.minRelayTxFee.nSatoshisPerK) (hshuffle : ∀ l, (env.shuffle l).Perm l)
    {mapWallet : WalletMap} {wants : uint256 → ℕ → CTxOut → Option Bool} {coin : COutput}
    (hcoin : ∀ wtx, (coin.coin.outpoint.hash, wtx) ∈ mapWallet.entries →
      wtx.vout[coin.coin.outpoint.n]? = some coin.coin.txout)
    (hspend : isUnspendable coin.coin.txout.scriptPubKey = false) {fuel : ℕ} {tx : CTransaction}
    {nFees : CAmount} (h : createCoinStake env mapWallet wants coin fuel = some (.ok (tx, nFees))) :
    tx.vin.map (·.prevout) = [coin.coin.outpoint] ∧
      tx.vout = [⟨coin.coin.txout.nValue - nFees, coin.coin.txout.scriptPubKey⟩] ∧
      0 ≤ nFees ∧ nFees < coin.coin.txout.nValue ∧
      isDust ⟨coin.coin.txout.nValue - nFees, coin.coin.txout.scriptPubKey⟩ env.dustRelayFee = false ∧
      ∀ t sol, solver coin.coin.txout.scriptPubKey = some (t, sol) →
        (t = TX_PUBKEY ∨ t = TX_PUBKEYHASH ∨ t = TX_SCRIPTHASH ∨ t = TX_WITNESS_V0_KEYHASH ∨
          t = TX_WITNESS_V0_SCRIPTHASH) →
        ∀ txout ∈ tx.vout, isDestinationSame crypto coin.coin.txout.scriptPubKey txout.scriptPubKey = true := by
  obtain ⟨⟨o, V, s⟩, fSpendable⟩ := coin
  dsimp only at hcoin hspend h ⊢
  obtain ⟨r, hr, hres⟩ := Option.map_eq_some_iff.mp h
  cases r with
  | error e => cases hres
  | ok res =>
  obtain ⟨tx', nFees', nChangePosInOut⟩ := res
  obtain ⟨rfl, rfl⟩ := Prod.mk.inj (Except.ok.inj hres)
  dsimp only at hr
  obtain ⟨nValue, nSub, scriptChange, r, hsum, -, hloop, hfinish⟩ := createTransaction_eq_ok hr
  -- one recipient, the coin's value, which pays the fee
  have hV : 0 ≤ V := by
    by_contra hneg
    simp [sumRecipients, not_le.mp hneg] at hsum
  obtain ⟨hnValue, hnSub⟩ : V = nValue ∧ 1 = nSub := by
    simpa [sumRecipients, not_lt.mpr hV] using hsum
  subst hnValue hnSub
  -- the coins the preset-only selection can find
  have hsel := selectPresetOnly_coin (@availableCoins_select mapWallet wants ⟨o, ⟨V, s⟩⟩ hcoin) V
  have hvalue : (selectPresetOnly (availableCoins mapWallet wants (some (CCoinControl.empty.Select o))) V).2.2 = 0 ∨
      (selectPresetOnly (availableCoins mapWallet wants (some (CCoinControl.empty.Select o))) V).2.2 = V := by
    rcases hsel with ⟨-, h0⟩ | ⟨-, hV'⟩
    · exact Or.inl h0
    · exact Or.inr hV'
  obtain ⟨nFeeRet, rfl, hfee, hnotdust, hcover⟩ :=
    feeLoop_coinStake hrelay hV hvalue rfl fuel (coinStakeLoop_init _ _ _) hloop
  obtain ⟨hvin, hvout, hfees⟩ := finishTransaction_eq_ok hfinish
  obtain ⟨rfl, -⟩ := Prod.mk.inj hfees
  -- a fee as large as the value would leave a dust output
  have hlt : nFees' < V := by
    by_contra hle
    have := @isDust_of_nonpos ⟨V - nFees', s⟩ env.dustRelayFee hdust hspend (by simp only; linarith)
    rw [hnotdust] at this
    cases this
  have hcoins : (selectPresetOnly (availableCoins mapWallet wants (some (CCoinControl.empty.Select o))) V).2.1 = [⟨o, ⟨V, s⟩⟩] := by
    rcases hsel with ⟨-, h0⟩ | ⟨hc, -⟩
    · linarith
    · exact hc
  refine ⟨?_, hvout, hfee, hlt, hnotdust, fun t sol hs ht txout htxout => ?_⟩
  · rw [hvin, hcoins, List.perm_singleton.mp (hshuffle _)]
    rfl
  · rw [hvout, List.mem_singleton] at htxout
    subst htxout
    exact isDestinationSame_self crypto hs ht

/-- A node that asks a fee of 1000 satoshis for any size and relays dust at
`dustRelayFee`, with a wallet that signs every input. -/
def stakeEnv (dustRelayFee : CAmount) : Env where
  privateKeysDisabled := false
  reservedChangeScript := some []
  discardRate := ⟨0⟩
  dustRelayFee := ⟨dustRelayFee⟩
  minRelayTxFee := ⟨0⟩
  getMinimumFee _ := 1000
  fallbackRefused _ := false
  calculateMaximumSignedTxSize _ := 200
  selectCoinsMixed _ _ _ := (false, [], 0, false)
  getRandInt _ := 0
  bnbUsedUnset := false
  nLockTime := 0
  nSequence := SEQUENCE_FINAL - 1
  shuffle := id
  produceSignature _ _ _ := some ([], [])
  getTransactionWeight _ := 800
  chainLimitsOk _ := true

/-- A pay-to-pubkey-hash coin worth `V`, output 0 of the transaction `7`. -/
def stakeCoin (V : CAmount) : COutput :=
  ⟨⟨⟨7, 0⟩, ⟨V, getScriptForDestination (CKeyID (List.replicate 20 1))⟩⟩, true⟩

/-- The wallet that holds the transaction of `stakeCoin V`. -/
def stakeWallet (V : CAmount) : WalletMap := ⟨[(7, ⟨[(stakeCoin V).coin.txout]⟩)], List.nodup_singleton _⟩

theorem stakeWallet_vout (V : CAmount) :
    ∀ wtx, ((stakeCoin V).coin.outpoint.hash, wtx) ∈ (stakeWallet V).entries →
      wtx.vout[(stakeCoin V).coin.outpoint.n]? = some (stakeCoin V).coin.txout := by
  intro wtx hwtx
  obtain rfl : wtx = ⟨[(stakeCoin V).coin.txout]⟩ := by simpa [stakeWallet, stakeCoin] using hwtx
  rfl

theorem createCoinStake_shape_p2pkh :
    createCoinStake (stakeEnv 3000) (stakeWallet 100000) (fun _ _ _ => some true) (stakeCoin 100000) 2 =
        some (.ok (⟨2, [⟨⟨7, 0⟩, [], SEQUENCE_FINAL - 1, []⟩], [⟨99000, (stakeCoin 100000).coin.txout.scriptPubKey⟩], 0⟩,
          1000)) ∧
      0 ≤ (1000 : CAmount) ∧ (1000 : CAmount) < 100000 := by
  have h : createCoinStake (stakeEnv 3000) (stakeWallet 100000) (fun _ _ _ => some true) (stakeCoin 100000) 2 =
      some (.ok (⟨2, [⟨⟨7, 0⟩, [], SEQUENCE_FINAL - 1, []⟩], [⟨99000, (stakeCoin 100000).coin.txout.scriptPubKey⟩], 0⟩,
        1000)) := by
    rfl
  obtain ⟨-, -, hfee, hlt, -⟩ := createCoinStake_shape Crypto.truncating (by decide) le_rfl (fun l => List.Perm.refl l)
    (stakeWallet_vout 100000) rfl h
  exact ⟨h, hfee, hlt⟩

/-- With `-dustrelayfee=0` no output is dust, and a coin worth exactly the
fee is staked into an output worth nothing: the fee is not below the value. -/
theorem createCoinStake_fee_eq_value_of_zero_dustRelayFee :
    createCoinStake (stakeEnv 0) (stakeWallet 1000) (fun _ _ _ => some true) (stakeCoin 1000) 2 =
      some (.ok (⟨2, [⟨⟨7, 0⟩, [], SEQUENCE_FINAL - 1, []⟩], [⟨0, (stakeCoin 1000).coin.txout.scriptPubKey⟩], 0⟩, 1000)) := by
  rfl

end XPChain
