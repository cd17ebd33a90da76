import XPChain.Coins.View
import Mathlib.Data.List.Nodup

/-!
# Connecting a block and disconnecting it

`ConnectBlock` of `validation.cpp` applies `UpdateCoins` to each transaction
of a block in order: the inputs' coins are moved out into a `CTxUndo`, then
`AddCoins` adds the outputs at the block's height.  The undo records of all
transactions but the first are kept as the block's `CBlockUndo`.
`DisconnectBlock` runs the other way, last transaction first: it spends the
transaction's outputs, checking each against the block, and puts back the
coins of its inputs, last input first, with `ApplyTxInUndo`.

Only the UTXO updates of the two functions are modelled here; the script and
amount checks of `ConnectBlock`, the reading of the undo file and the best
block pointer are not.  An undo coin of height zero is read by
`ApplyTxInUndo` as a record from before heights were kept, and its height
and coinbase flag are looked up from another output of the same
transaction; with none left, disconnection fails.

Over the model sits the transition a block describes (`applyTx`: erase what
is spent, insert what is created) and the conditions under which a block
applies cleanly (`TxApplies`, `BlockApplies`).

## Main definitions

* `CTxUndo`, `spendInputs`, `updateCoins`, `connectBlockCoins`.
* `DisconnectResult`, `applyTxInUndo`, `disconnectOutputs`, `restoreInputs`,
  `disconnectTx`, `disconnectTxs`, `disconnectBlock`.
* `spentOutpoints`, `createdCoins`, `applyTx`, `TxApplies`, `BlockApplies`.

## Main statements

* `updateCoins_of_txApplies` — `UpdateCoins` refines `applyTx`.
* `disconnectTx_applyTx` — one transaction's disconnection undoes it.
* `connectTxs_disconnectTxs` — the transaction loops of the two functions
  undo each other.
* `disconnectBlock_connectBlockCoins` — disconnecting a block restores the
  view it was connected to, for a block at a positive height that starts
  with its only coinbase, over a view of spendable coins of positive height.
* `disconnectBlock_connectBlockCoins_height_zero` — a spent coin of height
  zero makes disconnection fail.
-/

set_option autoImplicit false

namespace XPChain

open PartialMap

/-! ## `UpdateCoins` and `ConnectBlock` -/

/-- `CTxUndo`: the coins a transaction's inputs spent, in input order. -/
abbrev CTxUndo := List Coin

/-- How `UpdateCoins` stops: `assert(is_spent)` failing on an input that is
not an unspent coin, or the `std::logic_error` of `AddCoin`. -/
inductive UpdateError
  | assertIsSpent
  | logicError (what : String)
  deriving DecidableEq, Repr

/-- The input loop of `UpdateCoins`: each input's coin moved out into the undo
record. -/
def spendInputs : CoinsView → List CTxIn → Except UpdateError (CTxUndo × CoinsView)
  | view, [] => .ok ([], view)
  | view, txin :: vin =>
    match spendCoin view txin.prevout with
    | none => .error .assertIsSpent
    | some (coin, view) => do
      let (txundo, view) ← spendInputs view vin
      pure (coin :: txundo, view)

/-- `UpdateCoins(tx, inputs, txundo, nHeight)`: a coinbase spends nothing. -/
def updateCoins (txHash : CTransaction → uint256) (tx : CTransaction) (view : CoinsView)
    (nHeight : ℕ) : Except UpdateError (CTxUndo × CoinsView) := do
  let (txundo, view) ← if tx.IsCoinBase then pure ([], view) else spendInputs view tx.vin
  let view ← (addCoins txHash view tx nHeight false).mapError .logicError
  pure (txundo, view)

/-- `UpdateCoins` on each transaction in order, collecting the undo records. -/
def connectTxs (txHash : CTransaction → uint256) (nHeight : ℕ) :
    CoinsView → List CTransaction → Except UpdateError (List CTxUndo × CoinsView)
  | view, [] => .ok ([], view)
  | view, tx :: txs => do
    let (txundo, view) ← updateCoins txHash tx view nHeight
    let (vtxundo, view) ← connectTxs txHash nHeight view txs
    pure (txundo :: vtxundo, view)

/-- The UTXO updates of `ConnectBlock` at height `nHeight`: the first
transaction's undo record goes to `undoDummy`, the others' to
`blockundo.vtxundo`. -/
def connectBlockCoins (txHash : CTransaction → uint256) (block : CBlock) (nHeight : ℕ)
    (view : CoinsView) : Except UpdateError (List CTxUndo × CoinsView) :=
  match block.vtx with
  | [] => .ok ([], view)
  | tx :: txs => do
    let (_, view) ← updateCoins txHash tx view nHeight
    connectTxs txHash nHeight view txs

/-! ## `DisconnectBlock` -/

/-- `DisconnectResult`. -/
inductive DisconnectResult
  | DISCONNECT_OK
  | DISCONNECT_UNCLEAN
  | DISCONNECT_FAILED
  deriving DecidableEq, Repr

namespace DisconnectResult

/-- A result that is not a failure, followed by the result of the rest: a
failure of the rest is returned, and the run is clean when both parts are. -/
def andThen (res res' : DisconnectResult) : DisconnectResult :=
  if res' = DISCONNECT_FAILED then DISCONNECT_FAILED
  else if res = DISCONNECT_OK ∧ res' = DISCONNECT_OK then DISCONNECT_OK
  else DISCONNECT_UNCLEAN

/-- `fClean ? DISCONNECT_OK : DISCONNECT_UNCLEAN`. -/
def ofClean (fClean : Bool) : DisconnectResult :=
  if fClean then DISCONNECT_OK else DISCONNECT_UNCLEAN

@[simp] theorem ok_andThen (res : DisconnectResult) : andThen DISCONNECT_OK res = res := by
  cases res <;> rfl

@[simp] theorem ofClean_true : ofClean true = DISCONNECT_OK := rfl

end DisconnectResult

open DisconnectResult

/-- `ApplyTxInUndo(undo, view, out)`: the coin put back, overwriting (and
unclean) where the view already has one.  The error is the
`std::logic_error` of `AddCoin`. -/
def applyTxInUndo (undo : Coin) (view : CoinsView) (out : COutPoint) :
    Except String (DisconnectResult × CoinsView) :=
  let fClean := !haveCoin view out
  let undo? : Option Coin :=
    if undo.nHeight = 0 then
      -- missing undo metadata: taken from another unspent output of the transaction
      (accessByTxid view out.hash).map fun alternate =>
        { undo with nHeight := alternate.nHeight, fCoinBase := alternate.fCoinBase }
    else some undo
  match undo? with
  | none => .ok (DISCONNECT_FAILED, view)
  | some undo => do
    let view ← addCoin view out undo !fClean
    pure (ofClean fClean, view)

/-- The output loop of `DisconnectBlock` from output `o` on: each spendable
output spent, and clean when the coin was there and matches the output, the
block's height and the coinbase flag. -/
def disconnectOutputs (hash : uint256) (is_coinbase : Bool) (nHeight : ℕ) :
    CoinsView → ℕ → List CTxOut → Bool × CoinsView
  | view, _, [] => (true, view)
  | view, o, txout :: vout =>
    if isUnspendable txout.scriptPubKey then
      disconnectOutputs hash is_coinbase nHeight view (o + 1) vout
    else
      let (fClean, view) : Bool × CoinsView :=
        match spendCoin view ⟨hash, o⟩ with
        | none => (false, view)
        | some (coin, view) =>
          (coin.out == txout && coin.nHeight == nHeight && coin.fCoinBase == is_coinbase, view)
      let (fClean', view) := disconnectOutputs hash is_coinbase nHeight view (o + 1) vout
      (fClean && fClean', view)

/-- The input loop of `DisconnectBlock` over `(prevout, undo coin)` pairs,
last input first; it stops at the first failure. -/
def restoreInputs : CoinsView → List (COutPoint × Coin) → Except String (DisconnectResult × CoinsView)
  | view, [] => .ok (DISCONNECT_OK, view)
  | view, (out, undo) :: rest => do
    let (res, view) ← applyTxInUndo undo view out
    if res = DISCONNECT_FAILED then pure (DISCONNECT_FAILED, view)
    else do
      let (res', view) ← restoreInputs view rest
      pure (res.andThen res', view)

/-- One transaction of `DisconnectBlock`: its outputs, then, for all but the
first transaction, its inputs from its undo record. -/
def disconnectTx (txHash : CTransaction → uint256) (nHeight : ℕ) (view : CoinsView)
    (tx : CTransaction) (txundo : Option CTxUndo) : Except String (DisconnectResult × CoinsView) :=
  let (fClean, view) := disconnectOutputs (txHash tx) tx.IsCoinBase nHeight view 0 tx.vout
  match txundo with
  | none => .ok (ofClean fClean, view)
  | some txundo =>
    if txundo.length ≠ tx.vin.length then .ok (DISCONNECT_FAILED, view)
    else do
      let (res, view) ← restoreInputs view ((tx.vin.map (·.prevout)).zip txundo).reverse
      pure ((ofClean fClean).andThen res, view)

/-- The transaction loop of `DisconnectBlock`, over the transactions in the
order they are undone; it stops at the first failure. -/
def disconnectTxs (txHash : CTransaction → uint256) (nHeight : ℕ) :
    CoinsView → List (CTransaction × Option CTxUndo) → Except String (DisconnectResult × CoinsView)
  | view, [] => .ok (DISCONNECT_OK, view)
  | view, (tx, txundo) :: rest => do
    let (res, view) ← disconnectTx txHash nHeight view tx txundo
    if res = DISCONNECT_FAILED then pure (DISCONNECT_FAILED, view)
    else do
      let (res', view) ← disconnectTxs txHash nHeight view rest
      pure (res.andThen res', view)

/-- The UTXO updates of `DisconnectBlock(block, pindex, view)` with the undo
records `vtxundo` read from disk and `pindex->nHeight = nHeight`: the last
transaction first, each with its undo record but the first. -/
def disconnectBlock (txHash : CTransaction → uint256) (block : CBlock) (vtxundo : List CTxUndo)
    (nHeight : ℕ) (view : CoinsView) : Except String (DisconnectResult × CoinsView) :=
  if vtxundo.length + 1 ≠ block.vtx.length then .ok (DISCONNECT_FAILED, view)
  else
    match block.vtx with
    | [] => .ok (DISCONNECT_FAILED, view)
    | tx :: txs =>
      disconnectTxs txHash nHeight view
        (((txs.zip vtxundo).map fun p => (p.1, some p.2)).reverse ++ [(tx, none)])

/-! ## The transition a block describes -/

/-- The outpoints a transaction spends: none for a coinbase. -/
def spentOutpoints (tx : CTransaction) : List COutPoint :=
  if tx.IsCoinBase then [] else tx.vin.map (·.prevout)

/-- The coins a transaction creates at height `nHeight`. -/
def createdCoins (txHash : CTransaction → uint256) (tx : CTransaction) (nHeight : ℕ) :
    List (COutPoint × Coin) :=
  createdCoinsFrom (txHash tx) tx.IsCoinBase nHeight 0 tx.vout

/-- A transaction applied to a view: what it spends erased, what it creates
inserted. -/
def applyTx (txHash : CTransaction → uint256) (nHeight : ℕ) (view : CoinsView)
    (tx : CTransaction) : CoinsView :=
  insertAll (eraseAll view (spentOutpoints tx)) (createdCoins txHash tx nHeight)

/-- A transaction applies cleanly to a view: it spends distinct unspent coins,
and what it creates lands on outpoints that are free once those are spent. -/
structure TxApplies (txHash : CTransaction → uint256) (nHeight : ℕ) (view : CoinsView)
    (tx : CTransaction) : Prop where
  nodup : (spentOutpoints tx).Nodup
  spent : ∀ out ∈ spentOutpoints tx, (view out).isSome
  free : ∀ e ∈ createdCoins txHash tx nHeight, eraseAll view (spentOutpoints tx) e.1 = none

/-- Each transaction of a list applies cleanly to the view the ones before it
leave. -/
def BlockApplies (txHash : CTransaction → uint256) (nHeight : ℕ) :
    CoinsView → List CTransaction → Prop
  | _, [] => True
  | view, tx :: txs =>
    TxApplies txHash nHeight view tx ∧ BlockApplies txHash nHeight (applyTx txHash nHeight view tx) txs

/-- A view a node can build: every coin has a positive height and a spendable
script. -/
def ViewWF (view : CoinsView) : Prop :=
  ∀ out coin, view out = some coin → 0 < coin.nHeight ∧ isUnspendable coin.out.scriptPubKey = false

/-! ## `UpdateCoins` refines `applyTx` -/

theorem spendInputs_eq {view : CoinsView} {vin : List CTxIn}
    (hnd : (vin.map (·.prevout)).Nodup) (hsome : ∀ txin ∈ vin, (view txin.prevout).isSome) :
    ∃ txundo, spendInputs view vin = .ok (txundo, eraseAll view (vin.map (·.prevout))) ∧
      txundo.length = vin.length ∧ ∀ p ∈ (vin.map (·.prevout)).zip txundo, view p.1 = some p.2 := by
  induction vin generalizing view with
  | nil => exact ⟨[], rfl, rfl, by simp⟩
  | cons txin vin ih =>
    rw [List.map_cons, List.nodup_cons] at hnd
    obtain ⟨coin, hcoin⟩ := Option.isSome_iff_exists.mp (hsome txin List.mem_cons_self)
    -- the other inputs are untouched by spending this one
    have hother : ∀ out ∈ vin.map (·.prevout), Function.update view txin.prevout none out = view out :=
      fun out hout => Function.update_of_ne (by rintro rfl; exact hnd.1 hout) _ _
    obtain ⟨txundo, hspend, hlen, hval⟩ := @ih (Function.update view txin.prevout none) hnd.2
      (fun t ht => by rw [hother _ (List.mem_map_of_mem ht)]; exact hsome t (List.mem_cons_of_mem _ ht))
    refine ⟨coin :: txundo, ?_, by simp [hlen], ?_⟩
    · rw [spendInputs, spendCoin_of_eq_some hcoin]
      simp only [hspend, List.map_cons, eraseAll_cons]
      rfl
    · intro p hp
      rw [List.map_cons, List.zip_cons_cons, List.mem_cons] at hp
      rcases hp with rfl | hp
      · exact hcoin
      · rw [← hother _ (List.of_mem_zip hp).1]
        exact hval p hp

/-- On a transaction that applies cleanly, `UpdateCoins` returns the applied
view and an undo record holding the spent coins, in input order. -/
theorem updateCoins_of_txApplies {txHash : CTransaction → uint256} {nHeight : ℕ}
    {view : CoinsView} {tx : CTransaction} (h : TxApplies txHash nHeight view tx) :
    ∃ txundo, updateCoins txHash tx view nHeight = .ok (txundo, applyTx txHash nHeight view tx) ∧
      txundo.length = (spentOutpoints tx).length ∧
      ∀ p ∈ (spentOutpoints tx).zip txundo, view p.1 = some p.2 := by
  have hadd : addCoins txHash (eraseAll view (spentOutpoints tx)) tx nHeight false =
      .ok (applyTx txHash nHeight view tx) :=
    addCoinsFrom_eq_insertAll h.free
  by_cases hcb : tx.IsCoinBase = true
  · have hspent : spentOutpoints tx = [] := by simp [spentOutpoints, hcb]
    rw [hspent] at hadd ⊢
    refine ⟨[], ?_, rfl, by simp⟩
    simp only [updateCoins, hcb, if_true, eraseAll_nil] at hadd ⊢
    simp [hadd, Except.mapError]
  · have hspent : spentOutpoints tx = tx.vin.map (·.prevout) := by simp [spentOutpoints, hcb]
    have hnd := h.nodup
    have hsome := h.spent
    rw [hspent] at hadd hnd hsome ⊢
    obtain ⟨txundo, hspend, hlen, hval⟩ :=
      spendInputs_eq hnd fun txin htxin => hsome _ (List.mem_map_of_mem htxin)
    refine ⟨txundo, ?_, by simp [hlen], hval⟩
    simp [updateCoins, hcb, hspend, hadd, Except.mapError, bind, Except.bind, pure, Except.pure]

/-! ## Disconnection undoes `applyTx` -/

/-- Spending back the coins `AddCoins` inserted onto free outpoints gives the
view back, and every coin matches its output. -/
theorem disconnectOutputs_insertAll {txid : uint256} {fCoinbase : Bool} {nHeight : ℕ} :
    ∀ {view : CoinsView} {i : ℕ} {vout : List CTxOut},
      (∀ e ∈ createdCoinsFrom txid fCoinbase nHeight i vout, view e.1 = none) →
      disconnectOutputs txid fCoinbase nHeight
        (insertAll view (createdCoinsFrom txid fCoinbase nHeight i vout)) i vout = (true, view)
  | _, _, [], _ => rfl
  | view, i, txout :: vout, hfree => by
    have hrest : ∀ {view' : CoinsView}, (∀ e ∈ createdCoinsFrom txid fCoinbase nHeight (i + 1) vout,
        view' e.1 = none) → disconnectOutputs txid fCoinbase nHeight
          (insertAll view' (createdCoinsFrom txid fCoinbase nHeight (i + 1) vout)) (i + 1) vout =
          (true, view') :=
      disconnectOutputs_insertAll
    have hlater : ⟨txid, i⟩ ∉ (createdCoinsFrom txid fCoinbase nHeight (i + 1) vout).map Prod.fst :=
      fun hmem => by
        obtain ⟨e, he, hkey⟩ := List.mem_map.mp hmem
        have := (key_ge_of_mem_createdCoinsFrom he).2
        rw [hkey] at this
        simp at this
    simp only [createdCoinsFrom] at hfree ⊢
    by_cases hspend : isUnspendable txout.scriptPubKey = true
    · simp only [hspend, if_true, List.nil_append] at hfree ⊢
      rw [disconnectOutputs, if_pos hspend]
      exact hrest hfree
    · rw [Bool.not_eq_true] at hspend
      simp only [hspend, Bool.false_eq_true, if_false, List.singleton_append, List.mem_cons,
        forall_eq_or_imp] at hfree ⊢
      -- the coin inserted at this output is the one spent back
      have hins : insertAll view ((⟨txid, i⟩, ⟨txout, nHeight, fCoinbase⟩) ::
          createdCoinsFrom txid fCoinbase nHeight (i + 1) vout) =
          Function.update (insertAll view (createdCoinsFrom txid fCoinbase nHeight (i + 1) vout))
            ⟨txid, i⟩ (some ⟨txout, nHeight, fCoinbase⟩) := by
        rw [insertAll_cons, insertAll_update_comm _ _ hlater]
      have hback : Function.update (insertAll view (createdCoinsFrom txid fCoinbase nHeight (i + 1) vout))
          ⟨txid, i⟩ none = insertAll view (createdCoinsFrom txid fCoinbase nHeight (i + 1) vout) := by
        rw [← insertAll_update_comm _ _ hlater, ← hfree.1, Function.update_eq_self]
      rw [hins, disconnectOutputs, if_neg (by simp [hspend]),
        spendCoin_of_eq_some (Function.update_self _ _ _), Function.update_idem, hback]
      dsimp only
      rw [hrest hfree.2]
      simp

/-- Onto a free outpoint, `ApplyTxInUndo` puts back a coin of positive height,
clean. -/
theorem applyTxInUndo_of_eq_none {view : CoinsView} {out : COutPoint} {undo : Coin}
    (hfree : view out = none) (hpos : 0 < undo.nHeight)
    (hspend : isUnspendable undo.out.scriptPubKey = false) :
    applyTxInUndo undo view out = .ok (DISCONNECT_OK, Function.update view out (some undo)) := by
  simp [applyTxInUndo, haveCoin, hfree, Nat.pos_iff_ne_zero.mp hpos, addCoin_of_eq_none hfree hspend]

/-- Putting back coins of positive height and spendable script onto distinct
free outpoints inserts them, clean. -/
theorem restoreInputs_eq_insertAll : ∀ {view : CoinsView} {es : List (COutPoint × Coin)},
    (es.map Prod.fst).Nodup → (∀ e ∈ es, view e.1 = none) →
    (∀ e ∈ es, 0 < e.2.nHeight ∧ isUnspendable e.2.out.scriptPubKey = false) →
    restoreInputs view es = .ok (DISCONNECT_OK, insertAll view es)
  | _, [], _, _, _ => rfl
  | view, (out, undo) :: es, hnd, hfree, hwf => by
    rw [List.map_cons, List.nodup_cons] at hnd
    obtain ⟨hpos, hspend⟩ := hwf _ List.mem_cons_self
    have hrest := @restoreInputs_eq_insertAll (Function.update view out (some undo)) es hnd.2
      (fun e he => by
        have hne : e.1 ≠ out := by
          intro h
          apply hnd.1
          show out ∈ _
          rw [← h]
          exact List.mem_map_of_mem he
        rw [Function.update_of_ne hne]
        exact hfree e (List.mem_cons_of_mem _ he))
      (fun e he => hwf e (List.mem_cons_of_mem _ he))
    rw [restoreInputs, applyTxInUndo_of_eq_none (hfree _ List.mem_cons_self) hpos hspend]
    simp [bind, Except.bind, hrest, pure, Except.pure]

/-- Applying a transaction at a positive height keeps every coin of positive
height and spendable. -/
theorem ViewWF.applyTx {txHash : CTransaction → uint256} {nHeight : ℕ} {view : CoinsView}
    (hwf : ViewWF view) (hpos : 0 < nHeight) (tx : CTransaction) :
    ViewWF (applyTx txHash nHeight view tx) := by
  intro out coin hcoin
  rcases mem_or_of_insertAll_eq_some _ hcoin with hmem | herase
  · obtain ⟨hheight, hspend⟩ := coin_of_mem_createdCoinsFrom hmem
    exact ⟨hheight ▸ hpos, hspend⟩
  · rw [eraseAll_apply] at herase
    split_ifs at herase
    exact hwf out coin herase

/-- Disconnecting a transaction other than a coinbase, with the undo record
`UpdateCoins` wrote, gives back the view it was applied to. -/
theorem disconnectTx_applyTx {txHash : CTransaction → uint256} {nHeight : ℕ} {view : CoinsView}
    {tx : CTransaction} {txundo : CTxUndo} (hwf : ViewWF view) (h : TxApplies txHash nHeight view tx)
    (hcb : tx.IsCoinBase = false) (hlen : txundo.length = (spentOutpoints tx).length)
    (hval : ∀ p ∈ (spentOutpoints tx).zip txundo, view p.1 = some p.2) :
    disconnectTx txHash nHeight (applyTx txHash nHeight view tx) tx (some txundo) =
      .ok (DISCONNECT_OK, view) := by
  have hspent : spentOutpoints tx = tx.vin.map (·.prevout) := by simp [spentOutpoints, hcb]
  -- the inputs are restored last first: the keys are the spent outpoints reversed
  have hkeys : (((spentOutpoints tx).zip txundo).reverse.map Prod.fst) = (spentOutpoints tx).reverse := by
    rw [List.map_reverse, List.map_fst_zip (by omega)]
  have hnd : (((spentOutpoints tx).zip txundo).reverse.map Prod.fst).Nodup := by
    rw [hkeys]
    exact List.nodup_reverse.mpr h.nodup
  have hmem : ∀ e ∈ ((spentOutpoints tx).zip txundo).reverse, view e.1 = some e.2 :=
    fun e he => hval e (List.mem_reverse.mp he)
  have herase : eraseAll view (spentOutpoints tx) =
      eraseAll view (((spentOutpoints tx).zip txundo).reverse.map Prod.fst) := by
    rw [hkeys]
    exact eraseAll_congr view fun x => List.mem_reverse.symm
  have hrestore : restoreInputs (eraseAll view (spentOutpoints tx)) ((spentOutpoints tx).zip txundo).reverse =
      .ok (DISCONNECT_OK, view) := by
    have hfree : ∀ e ∈ ((spentOutpoints tx).zip txundo).reverse, eraseAll view (spentOutpoints tx) e.1 = none := by
      intro e he
      rw [eraseAll_apply, if_pos (List.mem_reverse.mp (hkeys ▸ List.mem_map_of_mem he))]
    rw [restoreInputs_eq_insertAll hnd hfree fun e he => hwf _ _ (hmem e he), herase,
      insertAll_eraseAll view hnd hmem]
  have hout : disconnectOutputs (txHash tx) tx.IsCoinBase nHeight (applyTx txHash nHeight view tx) 0 tx.vout =
      (true, eraseAll view (spentOutpoints tx)) :=
    disconnectOutputs_insertAll h.free
  rw [hspent] at hrestore hlen hout
  simp [disconnectTx, hout, hlen, hrestore, bind, Except.bind, pure, Except.pure]

/-- Disconnecting a coinbase, with no undo record, gives back the view it was
applied to. -/
theorem disconnectTx_applyTx_coinbase {txHash : CTransaction → uint256} {nHeight : ℕ}
    {view : CoinsView} {tx : CTransaction} (h : TxApplies txHash nHeight view tx)
    (hcb : tx.IsCoinBase = true) :
    disconnectTx txHash nHeight (applyTx txHash nHeight view tx) tx none = .ok (DISCONNECT_OK, view) := by
  have hout : disconnectOutputs (txHash tx) tx.IsCoinBase nHeight (applyTx txHash nHeight view tx) 0 tx.vout =
      (true, eraseAll view (spentOutpoints tx)) :=
    disconnectOutputs_insertAll h.free
  rw [show spentOutpoints tx = [] by simp [spentOutpoints, hcb], eraseAll_nil] at hout
  simp [disconnectTx, hout]

/-- A transaction disconnected cleanly lets the loop go on from the view it
leaves. -/
theorem disconnectTxs_cons_of_ok {txHash : CTransaction → uint256} {nHeight : ℕ}
    {view view' : CoinsView} {tx : CTransaction} {txundo : Option CTxUndo}
    (h : disconnectTx txHash nHeight view tx txundo = .ok (DISCONNECT_OK, view'))
    (rest : List (CTransaction × Option CTxUndo)) :
    disconnectTxs txHash nHeight view ((tx, txundo) :: rest) = disconnectTxs txHash nHeight view' rest := by
  rw [disconnectTxs, h]
  simp [bind, Except.bind, pure, Except.pure]
  cases disconnectTxs txHash nHeight view' rest <;> rfl

/-- Over transactions that are not coinbases, `ConnectBlock`'s loop returns
the applied view and undo records with which the reversed disconnection loop
comes back to the view it started from. -/
theorem connectTxs_disconnectTxs {txHash : CTransaction → uint256} {nHeight : ℕ} (hpos : 0 < nHeight) :
    ∀ {view : CoinsView} {txs : List CTransaction}, ViewWF view → (∀ tx ∈ txs, tx.IsCoinBase = false) →
      BlockApplies txHash nHeight view txs →
      ∃ vtxundo, connectTxs txHash nHeight view txs = .ok (vtxundo, txs.foldl (applyTx txHash nHeight) view) ∧
        vtxundo.length = txs.length ∧
        ∀ rest, disconnectTxs txHash nHeight (txs.foldl (applyTx txHash nHeight) view)
          (((txs.zip vtxundo).map fun p => (p.1, some p.2)).reverse ++ rest) =
            disconnectTxs txHash nHeight view rest
  | _, [], _, _, _ => ⟨[], rfl, rfl, fun _ => rfl⟩
  | view, tx :: txs, hwf, hcb, happ => by
    obtain ⟨txundo, hupdate, hlen, hval⟩ := updateCoins_of_txApplies happ.1
    obtain ⟨vtxundo, hconnect, hlens, hdisconnect⟩ :=
      connectTxs_disconnectTxs hpos (hwf.applyTx hpos tx) (fun t ht => hcb t (List.mem_cons_of_mem _ ht)) happ.2
    refine ⟨txundo :: vtxundo, ?_, by simp [hlens], fun rest => ?_⟩
    · simp [connectTxs, hupdate, hconnect, bind, Except.bind, pure, Except.pure]
    · -- the later transactions are undone first, then this one
      rw [List.foldl_cons, List.zip_cons_cons, List.map_cons, List.reverse_cons, List.append_assoc,
        List.singleton_append, hdisconnect]
      exact disconnectTxs_cons_of_ok (disconnectTx_applyTx hwf happ.1 (hcb tx List.mem_cons_self) hlen hval) rest

/-- Disconnecting a block undoes connecting it.  Each hypothesis closes a way
`DisconnectBlock` goes wrong: a coin of height zero is read as one without
metadata, the first transaction's undo record is never written, an
unspendable coin is not put back, and a coinbase later in the block has no
undo entry for its input. -/
theorem disconnectBlock_connectBlockCoins {txHash : CTransaction → uint256} {block : CBlock}
    {nHeight : ℕ} {view : CoinsView} {coinbase : CTransaction} {txs : List CTransaction}
    (hvtx : block.vtx = coinbase :: txs) (hcb : coinbase.IsCoinBase = true)
    (htxs : ∀ tx ∈ txs, tx.IsCoinBase = false) (hpos : 0 < nHeight) (hwf : ViewWF view)
    (happ : BlockApplies txHash nHeight view block.vtx) :
    ∃ vtxundo, connectBlockCoins txHash block nHeight view =
        .ok (vtxundo, block.vtx.foldl (applyTx txHash nHeight) view) ∧
      disconnectBlock txHash block vtxundo nHeight (block.vtx.foldl (applyTx txHash nHeight) view) =
        .ok (DISCONNECT_OK, view) := by
  rw [hvtx] at happ ⊢
  obtain ⟨txundo, hupdate, -, -⟩ := updateCoins_of_txApplies happ.1
  obtain ⟨vtxundo, hconnect, hlen, hdisconnect⟩ :=
    connectTxs_disconnectTxs hpos (hwf.applyTx hpos coinbase) htxs happ.2
  refine ⟨vtxundo, ?_, ?_⟩
  · simp [connectBlockCoins, hvtx, hupdate, hconnect, bind, Except.bind]
  · -- the coinbase is undone last, with no undo record
    have hcoinbase := disconnectTxs_cons_of_ok (disconnectTx_applyTx_coinbase happ.1 hcb) []
    simp only [disconnectBlock, hvtx, hlen, List.length_cons, ne_eq, not_true_eq_false, if_false,
      List.foldl_cons, hdisconnect, hcoinbase]
    rfl

theorem disconnectBlock_connectBlockCoins_spend :
    let txHash : CTransaction → uint256 := fun tx => tx.nLockTime + 100
    let view : CoinsView := Function.update (fun _ => none) ⟨5, 0⟩ (some ⟨⟨50, [OP_1]⟩, 1, false⟩)
    let coinbase : CTransaction := ⟨1, [⟨⟨0, 0xFFFFFFFF⟩, [1, 1], 0xFFFFFFFF, []⟩], [⟨50, [OP_1]⟩], 0⟩
    let spend : CTransaction := ⟨1, [⟨⟨5, 0⟩, [], 0xFFFFFFFF, []⟩], [⟨50, [OP_1]⟩], 1⟩
    let block : CBlock := ⟨⟨1, 0, 0, 1000, 0x1d00ffff, 0⟩, [coinbase, spend]⟩
    block.vtx = coinbase :: [spend] ∧ coinbase.IsCoinBase = true ∧ (∀ tx ∈ [spend], tx.IsCoinBase = false) ∧
      0 < 10 ∧ ViewWF view ∧ BlockApplies txHash 10 view block.vtx ∧
      ∃ vtxundo, connectBlockCoins txHash block 10 view =
          .ok (vtxundo, block.vtx.foldl (applyTx txHash 10) view) ∧
        disconnectBlock txHash block vtxundo 10 (block.vtx.foldl (applyTx txHash 10) view) =
          .ok (DISCONNECT_OK, view) := by
  intro txHash view coinbase spend block
  have hwf : ViewWF view := by
    intro out coin hcoin
    by_cases hout : out = ⟨5, 0⟩
    · subst hout
      simp only [view, Function.update_self, Option.some_inj] at hcoin
      subst hcoin
      decide
    · simp [view, Function.update_of_ne hout] at hcoin
  have happ : BlockApplies txHash 10 view block.vtx :=
    ⟨⟨by decide, by decide, by decide⟩, ⟨by decide, by decide, by decide⟩, trivial⟩
  exact ⟨rfl, rfl, by decide, by decide, hwf, happ,
    disconnectBlock_connectBlockCoins rfl rfl (by decide) (by decide) hwf happ⟩

/-- A coin of height zero is put back only with the metadata of another
unspent output of its transaction; with none, `ApplyTxInUndo` fails. -/
theorem applyTxInUndo_height_zero {view : CoinsView} {out : COutPoint} {undo : Coin}
    (h0 : undo.nHeight = 0) (hnone : ∀ n, view ⟨out.hash, n⟩ = none) :
    applyTxInUndo undo view out = .ok (DISCONNECT_FAILED, view) := by
  simp [applyTxInUndo, h0, accessByTxid_eq_none hnone]

theorem restoreInputs_cons_of_failed {view view' : CoinsView} {out : COutPoint} {undo : Coin}
    (h : applyTxInUndo undo view out = .ok (DISCONNECT_FAILED, view'))
    (rest : List (COutPoint × Coin)) :
    restoreInputs view ((out, undo) :: rest) = .ok (DISCONNECT_FAILED, view') := by
  simp [restoreInputs, h, bind, Except.bind, pure, Except.pure]

theorem disconnectTxs_cons_of_failed {txHash : CTransaction → uint256} {nHeight : ℕ}
    {view view' : CoinsView} {tx : CTransaction} {txundo : Option CTxUndo}
    (h : disconnectTx txHash nHeight view tx txundo = .ok (DISCONNECT_FAILED, view'))
    (rest : List (CTransaction × Option CTxUndo)) :
    disconnectTxs txHash nHeight view ((tx, txundo) :: rest) = .ok (DISCONNECT_FAILED, view') := by
  simp [disconnectTxs, h, bind, Except.bind, pure, Except.pure]

/-- A block that spends a coin of height zero connects, and then fails to
disconnect: the coin's transaction has no other output left to take its
metadata from. -/
theorem disconnectBlock_connectBlockCoins_height_zero :
    let txHash : CTransaction → uint256 := fun tx => tx.nLockTime + 100
    let coin : Coin := ⟨⟨50, [OP_1]⟩, 0, false⟩
    let view : CoinsView := Function.update (fun _ => none) ⟨5, 0⟩ (some coin)
    let coinbase : CTransaction := ⟨1, [⟨⟨0, 0xFFFFFFFF⟩, [1, 1], 0xFFFFFFFF, []⟩], [⟨50, [OP_1]⟩], 0⟩
    let spend : CTransaction := ⟨1, [⟨⟨5, 0⟩, [], 0xFFFFFFFF, []⟩], [⟨50, [OP_1]⟩], 1⟩
    let block : CBlock := ⟨⟨1, 0, 0, 1000, 0x1d00ffff, 0⟩, [coinbase, spend]⟩
    BlockApplies txHash 10 view block.vtx ∧
      ∃ vtxundo view', connectBlockCoins txHash block 10 view = .ok (vtxundo, view') ∧
        ∃ view'', disconnectBlock txHash block vtxundo 10 view' = .ok (DISCONNECT_FAILED, view'') := by
  intro txHash coin view coinbase spend block
  let view' : CoinsView := Function.update (Function.update (Function.update view ⟨100, 0⟩
    (some ⟨⟨50, [OP_1]⟩, 10, true⟩)) ⟨5, 0⟩ none) ⟨101, 0⟩ (some ⟨⟨50, [OP_1]⟩, 10, false⟩)
  have hconnect : connectBlockCoins txHash block 10 view = .ok ([[coin]], view') := rfl
  have hout : disconnectOutputs (txHash spend) spend.IsCoinBase 10 view' 0 spend.vout =
      (true, Function.update view' ⟨101, 0⟩ none) := rfl
  -- the spend's outputs are gone and no other output of the coin's transaction is left
  have hnone : ∀ n, Function.update view' ⟨101, 0⟩ none ⟨5, n⟩ = none := by
    intro n
    by_cases hn : n = 0 <;> simp [view', view, hn]
  refine ⟨⟨⟨by decide, by decide, by decide⟩, ⟨by decide, by decide, by decide⟩, trivial⟩,
    [[coin]], view', hconnect, Function.update view' ⟨101, 0⟩ none, ?_⟩
  have hspend := restoreInputs_cons_of_failed
    (@applyTxInUndo_height_zero (Function.update view' ⟨101, 0⟩ none) ⟨5, 0⟩ coin rfl hnone) []
  have htx : disconnectTx txHash 10 view' spend (some [coin]) =
      .ok (DISCONNECT_FAILED, Function.update view' ⟨101, 0⟩ none) := by
    have hinputs : ((spend.vin.map (·.prevout)).zip [coin]).reverse = [(⟨5, 0⟩, coin)] := rfl
    rw [disconnectTx, hout]
    dsimp only
    rw [if_neg (by decide), hinputs, hspend]
    rfl
  simp [disconnectBlock, block, disconnectTxs_cons_of_failed htx]

end XPChain
