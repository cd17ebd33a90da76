import XPChain.Script.Verify
import Mathlib.Algebra.Order.BigOperators.Group.List

/-!
# Transactions and blocks

The records of `primitives/transaction.h` and `primitives/block.h` that the
consensus and staking code reads, with `amount.h`.  A `uint256` is kept as
the number `UintToArith256` reads from it; the hash functions that produce
them (`CTransaction::GetHash`, `BlockMerkleRoot`, `CBlockHeader::GetHash`)
are parameters of the functions that call them, bundled in `BlockHashes`.

## Main definitions

* `CAmount`, `COIN`, `MAX_MONEY`, `MoneyRange`.
* `COutPoint`, `CTxIn`, `CTxOut`, `CTransaction`.
* `CBlockHeader`, `CBlock`, `BlockHashes`.
-/

set_option autoImplicit false

namespace XPChain

/-- A 256-bit hash, as the number `UintToArith256` reads from its bytes. -/
abbrev uint256 := ℕ

/-! ## Amounts -/

/-- `CAmount`: an amount in satoshis. -/
abbrev CAmount := ℤ

@[simp] abbrev COIN : CAmount := 10000
@[simp] abbrev MAX_MONEY : CAmount := 210000000000 * COIN

/-- `MoneyRange`. -/
def MoneyRange (nValue : CAmount) : Bool := 0 ≤ nValue && nValue ≤ MAX_MONEY

/-- `CENT` of `amount.h`. -/
def CENT : CAmount := 100

/-! ## Transactions -/

/-- `COutPoint`: a transaction hash and an output index (`uint32_t`). -/
structure COutPoint where
  hash : uint256
  n : ℕ
  deriving DecidableEq, Repr

/-- `COutPoint::IsNull`: the zero hash and index `(uint32_t)-1`. -/
def COutPoint.IsNull (p : COutPoint) : Bool := p.hash == 0 && p.n == 0xFFFFFFFF

/-- `CTxIn`. -/
structure CTxIn where
  prevout : COutPoint
  scriptSig : CScript
  nSequence : ℕ
  scriptWitness : CScriptWitness
  deriving DecidableEq, Repr

/-- `CTxOut`. -/
structure CTxOut where
  nValue : CAmount
  scriptPubKey : CScript
  deriving DecidableEq, Repr

/-- `CTransaction`: `operator==` compares the hashes, which the serialised
fields determine, so structural equality is the model's equality. -/
structure CTransaction where
  nVersion : ℤ
  vin : List CTxIn
  vout : List CTxOut
  nLockTime : ℕ
  deriving DecidableEq, Repr

namespace CTransaction

/-- `CTransaction::IsCoinBase`: one input, with a null prevout. -/
def IsCoinBase (tx : CTransaction) : Bool :=
  match tx.vin with
  | [txin] => txin.prevout.IsNull
  | _ => false

/-- `CTransaction::GetValueOut`: `none` where it throws on an output value or
a running sum outside `MoneyRange`. -/
def GetValueOut (tx : CTransaction) : Option CAmount :=
  tx.vout.foldlM (fun nValueOut txout =>
    let nValueOut := nValueOut + txout.nValue
    if MoneyRange txout.nValue && MoneyRange nValueOut then some nValueOut else none) 0

private theorem foldlM_valueOut (vout : List CTxOut) : ∀ acc : CAmount, 0 ≤ acc →
    (∀ txout ∈ vout, 0 ≤ txout.nValue) → acc + (vout.map (·.nValue)).sum ≤ MAX_MONEY →
    vout.foldlM (fun nValueOut txout =>
      let nValueOut := nValueOut + txout.nValue
      if MoneyRange txout.nValue && MoneyRange nValueOut then some nValueOut else none) acc =
      some (acc + (vout.map (·.nValue)).sum) := by
  induction vout with
  | nil => intro acc _ _ _; simp
  | cons txout vout ih =>
    intro acc hacc h0 hsum
    have hv := h0 txout List.mem_cons_self
    have hrest : 0 ≤ (vout.map (·.nValue)).sum :=
      List.sum_nonneg fun v hv' => by
        obtain ⟨o, ho, rfl⟩ := List.mem_map.mp hv'
        exact h0 o (List.mem_cons_of_mem _ ho)
    simp only [List.map_cons, List.sum_cons] at hsum
    have hrange : (MoneyRange txout.nValue && MoneyRange (acc + txout.nValue)) = true := by
      simp only [MAX_MONEY, COIN] at hsum
      simp only [MoneyRange, MAX_MONEY, COIN, Bool.and_eq_true, decide_eq_true_eq]
      constructor <;> constructor <;> linarith
    simp only [List.foldlM_cons, hrange, if_true, Option.bind_eq_bind, Option.bind_some,
      List.map_cons, List.sum_cons]
    rw [ih (acc + txout.nValue) (by linarith) (fun o ho => h0 o (List.mem_cons_of_mem _ ho))
      (by linarith)]
    congr 1
    ring

/-- With no negative output and a total within `MAX_MONEY`, `GetValueOut`
returns the sum of the outputs. -/
theorem GetValueOut_eq_sum {tx : CTransaction} (h0 : ∀ txout ∈ tx.vout, 0 ≤ txout.nValue)
    (hsum : (tx.vout.map (·.nValue)).sum ≤ MAX_MONEY) :
    tx.GetValueOut = some (tx.vout.map (·.nValue)).sum := by
  have := foldlM_valueOut tx.vout 0 le_rfl h0 (by simpa using hsum)
  simpa [GetValueOut] using this

/-- The transaction with the `scriptSig` of its first input replaced, as
`vin[0].scriptSig = ...` on a `CMutableTransaction` copy. -/
def setScriptSig (tx : CTransaction) (scriptSig : CScript) : CTransaction :=
  { tx with vin := tx.vin.modifyHead fun txin => { txin with scriptSig := scriptSig } }

@[simp] theorem setScriptSig_setScriptSig (tx : CTransaction) (s₁ s₂ : CScript) :
    (tx.setScriptSig s₁).setScriptSig s₂ = tx.setScriptSig s₂ := by
  cases tx with
  | mk nVersion vin vout nLockTime => cases vin <;> simp [setScriptSig]

theorem setScriptSig_self {tx : CTransaction} {txin : CTxIn} {rest : List CTxIn}
    (h : tx.vin = txin :: rest) : tx.setScriptSig txin.scriptSig = tx := by
  cases tx
  simp_all [setScriptSig]

end CTransaction

/-! ## Blocks -/

/-- `CBlockHeader`. -/
structure CBlockHeader where
  nVersion : ℤ
  hashPrevBlock : uint256
  hashMerkleRoot : uint256
  nTime : ℕ
  nBits : ℕ
  nNonce : ℕ
  deriving DecidableEq, Repr

/-- `CBlock`: a header and its transactions. -/
structure CBlock extends CBlockHeader where
  vtx : List CTransaction
  deriving DecidableEq, Repr

/-- The hash functions of blocks: `BlockMerkleRoot`, a function of the
transactions only, and `CBlockHeader::GetHash`. -/
structure BlockHashes where
  BlockMerkleRoot : List CTransaction → uint256
  GetHash : CBlockHeader → uint256

namespace CBlock

/-- `block.vtx[0]->vin[0].scriptSig`, where the block has them. -/
def coinbaseScriptSig (block : CBlock) : Option CScript := do
  let tx ← block.vtx.head?
  let txin ← tx.vin.head?
  pure txin.scriptSig

/-- The block with its coinbase's `scriptSig` replaced and `hashMerkleRoot`
recomputed: the copy `MakeBlockHashExcludedSignature` builds and the block
`SignBlock` leaves. -/
def withCoinbaseScriptSig (hashes : BlockHashes) (block : CBlock) (scriptSig : CScript) :
    CBlock :=
  let vtx := block.vtx.modifyHead (·.setScriptSig scriptSig)
  { block with vtx := vtx, hashMerkleRoot := hashes.BlockMerkleRoot vtx }

@[simp] theorem vtx_withCoinbaseScriptSig (hashes : BlockHashes) (block : CBlock) (s : CScript) :
    (block.withCoinbaseScriptSig hashes s).vtx = block.vtx.modifyHead (·.setScriptSig s) := rfl

@[simp] theorem hashMerkleRoot_withCoinbaseScriptSig (hashes : BlockHashes) (block : CBlock)
    (s : CScript) : (block.withCoinbaseScriptSig hashes s).hashMerkleRoot =
      hashes.BlockMerkleRoot (block.vtx.modifyHead (·.setScriptSig s)) := rfl

/-- Replacing the coinbase `scriptSig` twice keeps the second. -/
@[simp] theorem withCoinbaseScriptSig_withCoinbaseScriptSig (hashes : BlockHashes)
    (block : CBlock) (s₁ s₂ : CScript) :
    (block.withCoinbaseScriptSig hashes s₁).withCoinbaseScriptSig hashes s₂ =
      block.withCoinbaseScriptSig hashes s₂ := by
  cases hv : block.vtx with
  | nil => simp [withCoinbaseScriptSig, hv]
  | cons tx rest => simp [withCoinbaseScriptSig, hv]

/-- Writing back the coinbase's own `scriptSig` only recomputes the merkle root. -/
theorem withCoinbaseScriptSig_self {hashes : BlockHashes} {block : CBlock} {s : CScript}
    (h : block.coinbaseScriptSig = some s) :
    block.withCoinbaseScriptSig hashes s =
      { block with hashMerkleRoot := hashes.BlockMerkleRoot block.vtx } := by
  obtain ⟨tx, rest, hv⟩ : ∃ tx rest, block.vtx = tx :: rest := by
    cases hv : block.vtx with
    | nil => simp [coinbaseScriptSig, hv] at h
    | cons tx rest => exact ⟨tx, rest, rfl⟩
  obtain ⟨txin, ins, hin, rfl⟩ : ∃ txin ins, tx.vin = txin :: ins ∧ txin.scriptSig = s := by
    cases hi : tx.vin with
    | nil => simp [coinbaseScriptSig, hv, hi] at h
    | cons txin ins => simp_all [coinbaseScriptSig]
  simp [withCoinbaseScriptSig, hv, CTransaction.setScriptSig_self hin]

theorem coinbaseScriptSig_withCoinbaseScriptSig {hashes : BlockHashes} {block : CBlock}
    {s₀ : CScript} (h : block.coinbaseScriptSig = some s₀) (s : CScript) :
    (block.withCoinbaseScriptSig hashes s).coinbaseScriptSig = some s := by
  cases hv : block.vtx with
  | nil => simp [coinbaseScriptSig, hv] at h
  | cons tx rest =>
    cases hi : tx.vin with
    | nil => simp [coinbaseScriptSig, hv, hi] at h
    | cons txin ins =>
      simp [coinbaseScriptSig, withCoinbaseScriptSig, hv, CTransaction.setScriptSig, hi]

end CBlock

end XPChain
