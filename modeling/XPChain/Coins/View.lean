import XPChain.Validation.CheckBlock
import XPChain.Lib.PartialMap

/-!
# The UTXO view

A `Coin` of `coins.h` is an output with the height of its block and whether
a coinbase made it.  A `CCoinsViewCache` is modelled by what it shows: the
unspent coin at each outpoint.  The cache's entries, their `DIRTY` and
`FRESH` flags and the views behind it are left out; on unspent coins the
cache answers as this map does.

`SpendCoin`, `AddCoin`, `AddCoins` and `AccessByTxid` of `coins.cpp` are the
operations block connection and disconnection use.  A spent coin is the
absence of one; `AddCoin` never stores an unspendable output, and throws a
`std::logic_error` where it would replace an unspent coin it was not told it
may overwrite.

## Main definitions

* `Coin`, `CoinsView`, `haveCoin`, `spendCoin`, `addCoin`.
* `addCoinsFrom`, `addCoins` — `AddCoins`.
* `createdCoinsFrom` — the entries `AddCoins` inserts, as a list.
* `MAX_OUTPUTS_PER_BLOCK`, `accessByTxid`.

## Main statements

* `addCoinsFrom_eq_insertAll` — onto free outpoints, `AddCoins` inserts the
  spendable outputs and nothing else.
* `accessByTxid_eq_none` — with no unspent output of the transaction there is
  no alternate coin.
-/

set_option autoImplicit false

namespace XPChain

open PartialMap

/-- `Coin`: the output, the height of the block that created it, and whether
that was a coinbase. -/
structure Coin where
  out : CTxOut
  nHeight : ℕ
  fCoinBase : Bool
  deriving DecidableEq, Repr

/-- A `CCoinsViewCache`, as the unspent coin at each outpoint. -/
abbrev CoinsView := COutPoint → Option Coin

/-- `HaveCoin(outpoint)`. -/
def haveCoin (view : CoinsView) (outpoint : COutPoint) : Bool := (view outpoint).isSome

/-- `SpendCoin(outpoint, &moveout)`: the coin moved out and the view without
it, or `none` where it returns `false`. -/
def spendCoin (view : CoinsView) (outpoint : COutPoint) : Option (Coin × CoinsView) :=
  (view outpoint).map fun coin => (coin, Function.update view outpoint none)

/-- `AddCoin(outpoint, coin, possible_overwrite)`. -/
def addCoin (view : CoinsView) (outpoint : COutPoint) (coin : Coin) (possible_overwrite : Bool) :
    Except String CoinsView :=
  if isUnspendable coin.out.scriptPubKey then .ok view
  else if !possible_overwrite && haveCoin view outpoint then
    .error "Adding new coin that replaces non-pruned entry"
  else .ok (Function.update view outpoint (some coin))

/-- The loop of `AddCoins(cache, tx, nHeight, check)` from output `i` on:
with `check` the overwrite flag is whether the view has the coin, else it is
whether the transaction is a coinbase. -/
def addCoinsFrom (txid : uint256) (fCoinbase : Bool) (nHeight : ℕ) (check : Bool) :
    CoinsView → ℕ → List CTxOut → Except String CoinsView
  | view, _, [] => .ok view
  | view, i, txout :: vout => do
    let overwrite := if check then haveCoin view ⟨txid, i⟩ else fCoinbase
    let view ← addCoin view ⟨txid, i⟩ ⟨txout, nHeight, fCoinbase⟩ overwrite
    addCoinsFrom txid fCoinbase nHeight check view (i + 1) vout

/-- `AddCoins(cache, tx, nHeight, check)`. -/
def addCoins (txHash : CTransaction → uint256) (view : CoinsView) (tx : CTransaction) (nHeight : ℕ)
    (check : Bool) : Except String CoinsView :=
  addCoinsFrom (txHash tx) tx.IsCoinBase nHeight check view 0 tx.vout

/-- The entries `AddCoins` inserts from output `i` on: the spendable outputs,
each at its index. -/
def createdCoinsFrom (txid : uint256) (fCoinbase : Bool) (nHeight : ℕ) :
    ℕ → List CTxOut → List (COutPoint × Coin)
  | _, [] => []
  | i, txout :: vout =>
    (if isUnspendable txout.scriptPubKey then [] else [(⟨txid, i⟩, ⟨txout, nHeight, fCoinbase⟩)]) ++
      createdCoinsFrom txid fCoinbase nHeight (i + 1) vout

/-- `MIN_TRANSACTION_OUTPUT_WEIGHT`: the weight of a serialised `CTxOut()`. -/
def MIN_TRANSACTION_OUTPUT_WEIGHT : ℕ :=
  WITNESS_SCALE_FACTOR * (CTxOut.serialize ⟨-1, []⟩).length

/-- `MAX_OUTPUTS_PER_BLOCK`. -/
def MAX_OUTPUTS_PER_BLOCK : ℕ := MAX_BLOCK_WEIGHT / MIN_TRANSACTION_OUTPUT_WEIGHT

/-- `AccessByTxid(view, txid)`: the first unspent coin among the outputs
`0 .. MAX_OUTPUTS_PER_BLOCK - 1` of the transaction, `none` for `coinEmpty`. -/
def accessByTxid (view : CoinsView) (txid : uint256) : Option Coin :=
  (List.range MAX_OUTPUTS_PER_BLOCK).findSome? fun n => view ⟨txid, n⟩

/-! ## Lemmas -/

theorem spendCoin_of_eq_some {view : CoinsView} {outpoint : COutPoint} {coin : Coin}
    (h : view outpoint = some coin) :
    spendCoin view outpoint = some (coin, Function.update view outpoint none) := by
  simp [spendCoin, h]

/-- Onto a free outpoint, `AddCoin` inserts a spendable coin whatever its
overwrite flag. -/
theorem addCoin_of_eq_none {view : CoinsView} {outpoint : COutPoint} {coin : Coin}
    (hfree : view outpoint = none) (hspend : isUnspendable coin.out.scriptPubKey = false)
    (possible_overwrite : Bool) :
    addCoin view outpoint coin possible_overwrite = .ok (Function.update view outpoint (some coin)) := by
  simp [addCoin, hspend, haveCoin, hfree]

theorem key_ge_of_mem_createdCoinsFrom {txid : uint256} {fCoinbase : Bool} {nHeight : ℕ} :
    ∀ {i : ℕ} {vout : List CTxOut} {e : COutPoint × Coin},
      e ∈ createdCoinsFrom txid fCoinbase nHeight i vout → e.1.hash = txid ∧ i ≤ e.1.n
  | _, [], _, h => by cases h
  | i, txout :: vout, e, h => by
    rw [createdCoinsFrom, List.mem_append] at h
    rcases h with h | h
    · split_ifs at h
      · cases h
      · rw [List.mem_singleton] at h
        subst h
        exact ⟨rfl, le_rfl⟩
    · have := key_ge_of_mem_createdCoinsFrom h
      exact ⟨this.1, by omega⟩

/-- The coins `AddCoins` writes are spendable and have the block's height. -/
theorem coin_of_mem_createdCoinsFrom {txid : uint256} {fCoinbase : Bool} {nHeight : ℕ} :
    ∀ {i : ℕ} {vout : List CTxOut} {e : COutPoint × Coin},
      e ∈ createdCoinsFrom txid fCoinbase nHeight i vout →
        e.2.nHeight = nHeight ∧ isUnspendable e.2.out.scriptPubKey = false
  | _, [], _, h => by cases h
  | i, txout :: vout, e, h => by
    rw [createdCoinsFrom, List.mem_append] at h
    rcases h with h | h
    · split_ifs at h with hspend
      · cases h
      · rw [List.mem_singleton] at h
        subst h
        exact ⟨rfl, by simpa using hspend⟩
    · exact coin_of_mem_createdCoinsFrom h

/-- Onto outpoints that are free, `AddCoins` inserts exactly the spendable
outputs, whatever the overwrite flags. -/
theorem addCoinsFrom_eq_insertAll {txid : uint256} {fCoinbase : Bool} {nHeight : ℕ} :
    ∀ {view : CoinsView} {i : ℕ} {vout : List CTxOut},
      (∀ e ∈ createdCoinsFrom txid fCoinbase nHeight i vout, view e.1 = none) →
      addCoinsFrom txid fCoinbase nHeight false view i vout =
        .ok (insertAll view (createdCoinsFrom txid fCoinbase nHeight i vout))
  | _, _, [], _ => rfl
  | view, i, txout :: vout, hfree => by
    have hrest : ∀ {view' : CoinsView}, (∀ e ∈ createdCoinsFrom txid fCoinbase nHeight (i + 1) vout,
        view' e.1 = none) → addCoinsFrom txid fCoinbase nHeight false view' (i + 1) vout =
          .ok (insertAll view' (createdCoinsFrom txid fCoinbase nHeight (i + 1) vout)) :=
      addCoinsFrom_eq_insertAll
    have hlater : ∀ e ∈ createdCoinsFrom txid fCoinbase nHeight (i + 1) vout, e.1 ≠ ⟨txid, i⟩ := by
      intro e he hkey
      have := (key_ge_of_mem_createdCoinsFrom he).2
      rw [hkey] at this
      simp at this
    simp only [createdCoinsFrom] at hfree ⊢
    -- an unspendable output is skipped; a spendable one lands on its free outpoint
    by_cases hspend : isUnspendable txout.scriptPubKey = true
    · simp only [hspend, if_true, List.nil_append] at hfree ⊢
      simp only [addCoinsFrom, Bool.false_eq_true, if_false, addCoin, hspend]
      exact hrest hfree
    · rw [Bool.not_eq_true] at hspend
      simp only [hspend, Bool.false_eq_true, if_false, List.singleton_append, List.mem_cons,
        forall_eq_or_imp] at hfree ⊢
      simp only [addCoinsFrom, Bool.false_eq_true, if_false,
        @addCoin_of_eq_none view ⟨txid, i⟩ ⟨txout, nHeight, fCoinbase⟩ hfree.1 hspend]
      refine hrest fun e he => ?_
      rw [Function.update_of_ne (hlater e he)]
      exact hfree.2 e he

/-- With no unspent output of the transaction in the view, `AccessByTxid`
finds no alternate coin. -/
theorem accessByTxid_eq_none {view : CoinsView} {txid : uint256}
    (h : ∀ n, view ⟨txid, n⟩ = none) : accessByTxid view txid = none := by
  simp [accessByTxid, List.findSome?_eq_none_iff, h]

end XPChain
