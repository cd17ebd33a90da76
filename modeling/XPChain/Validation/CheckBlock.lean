import XPChain.Validation.Kernel
import XPChain.Script.Standard
import XPChain.Lib.Check

/-!
# Context-free block checks

`CheckBlock` of `validation.cpp` is what every block passes before it is
stored or connected: the header's proof of work (skipped at proof-of-stake
heights), the merkle root with the mutation check of `ComputeMerkleRoot`,
the size limits, one coinbase in front, a coinstake behind it at
proof-of-stake heights, `CheckTransaction` on every transaction and the
legacy signature-operation count.

A rejection is the `(nDoS, strRejectReason)` the check records in its
`CValidationState`.  The hashes are parameters: `GetHash` of a header, a
transaction's hash, and `Hash64` for the `SHA256D64` of two hashes.  The
block's height is one more than that of its parent in `mapBlockIndex`, zero
for an unknown parent.

## Main definitions

* `merkleLevel`, `computeMerkleRoot`, `blockMerkleRoot`.
* `checkTransaction`, `getSigOpCount`, `getLegacySigOpCount`.
* `isPoSHeight`, `checkProofOfWork`, `checkBlockHeader`, `checkBlock`.

## Main statements

* `computeMerkleRoot_pair` — two hashes: their `Hash64`, mutated when equal.
* `checkTransaction_eq_ok_iff`, `checkBlock_eq_ok_iff` — what each check
  accepts.
* `coinstake_of_checkBlock` — at a proof-of-stake height a block that passes
  has a coinstake with an input; nothing bounds that input's index.
* `checkBlock_coinstake_vout_out_of_range` — a block that passes `CheckBlock`
  at a proof-of-stake height whose coinstake makes both kernel checks read
  past the end of the staked transaction's outputs.
-/

set_option autoImplicit false

namespace XPChain

open ArithUint256

/-! ## Constants of `consensus.h` -/

/-- `MAX_BLOCK_WEIGHT`. -/
def MAX_BLOCK_WEIGHT : ℕ := 4000000

/-- `MAX_BLOCK_SIGOPS_COST`. -/
def MAX_BLOCK_SIGOPS_COST : ℕ := 80000

/-- `WITNESS_SCALE_FACTOR`. -/
def WITNESS_SCALE_FACTOR : ℕ := 4

/-! ## `ComputeMerkleRoot` -/

/-- One pass of the loop of `ComputeMerkleRoot`: the hashes of the pairs, an
odd last hash paired with itself, and whether a pair held two equal hashes
(the odd last hash is not compared). -/
def merkleLevel (Hash64 : uint256 → uint256 → uint256) : List uint256 → List uint256 × Bool
  | a :: b :: hashes =>
    let (next, mutation) := merkleLevel Hash64 hashes
    (Hash64 a b :: next, a == b || mutation)
  | [a] => ([Hash64 a a], false)
  | [] => ([], false)

/-- The loop `while (hashes.size() > 1)` of `ComputeMerkleRoot`, with `fuel`
passes. -/
def computeMerkleRootAux (Hash64 : uint256 → uint256 → uint256) :
    ℕ → List uint256 → uint256 × Bool
  | fuel + 1, hashes@(_ :: _ :: _) =>
    let (next, mutation) := merkleLevel Hash64 hashes
    let (root, mutated) := computeMerkleRootAux Hash64 fuel next
    (root, mutation || mutated)
  | _, hashes => (hashes.headD 0, false)

/-- `ComputeMerkleRoot(hashes, &mutated)`: the root, zero for no hashes, and
the mutation flag.  A pass at least halves the number of hashes, so that
number of passes is enough. -/
def computeMerkleRoot (Hash64 : uint256 → uint256 → uint256) (hashes : List uint256) :
    uint256 × Bool :=
  computeMerkleRootAux Hash64 hashes.length hashes

/-- `BlockMerkleRoot(block, &mutated)`: the merkle root of the transactions'
hashes. -/
def blockMerkleRoot (Hash64 : uint256 → uint256 → uint256) (txHash : CTransaction → uint256)
    (block : CBlock) : uint256 × Bool :=
  computeMerkleRoot Hash64 (block.vtx.map txHash)

theorem computeMerkleRoot_pair (Hash64 : uint256 → uint256 → uint256) (a b : uint256) :
    computeMerkleRoot Hash64 [a, b] = (Hash64 a b, a == b) := by
  simp [computeMerkleRoot, computeMerkleRootAux, merkleLevel]

/-! ## `CheckTransaction` -/

/-- The output loop of `CheckTransaction`: each value non-negative and at most
`MAX_MONEY`, and the running total in `MoneyRange`. -/
def checkOutputValues : List CTxOut → CAmount → Except (ℕ × String) Unit
  | [], _ => .ok ()
  | txout :: vout, nValueOut =>
    if txout.nValue < 0 then .error (100, "bad-txns-vout-negative")
    else if MAX_MONEY < txout.nValue then .error (100, "bad-txns-vout-toolarge")
    else if !MoneyRange (nValueOut + txout.nValue) then
      .error (100, "bad-txns-txouttotal-toolarge")
    else checkOutputValues vout (nValueOut + txout.nValue)

/-- `CheckTransaction(tx, state, fCheckDuplicateInputs)`. -/
def checkTransaction (tx : CTransaction) (fCheckDuplicateInputs : Bool) :
    Except (ℕ × String) Unit := do
  if tx.vin.isEmpty then throw (10, "bad-txns-vin-empty")
  if tx.vout.isEmpty then throw (10, "bad-txns-vout-empty")
  if MAX_BLOCK_WEIGHT < tx.serialize.length * WITNESS_SCALE_FACTOR then
    throw (100, "bad-txns-oversize")
  checkOutputValues tx.vout 0
  if fCheckDuplicateInputs && !(tx.vin.map (·.prevout)).Nodup then
    throw (100, "bad-txns-inputs-duplicate")
  if tx.IsCoinBase then
    let scriptSig := (tx.vin.headD ⟨⟨0, 0⟩, [], 0, []⟩).scriptSig
    if scriptSig.length < 2 || 100 < scriptSig.length then throw (100, "bad-cb-length")
  else if tx.vin.any (·.prevout.IsNull) then throw (10, "bad-txns-prevout-null")

/-! ## Signature operations -/

/-- The loop of `CScript::GetSigOpCount(fAccurate)`: one for each
`OP_CHECKSIG(VERIFY)`, and for each `OP_CHECKMULTISIG(VERIFY)` the key count
pushed just before it when counting accurately, else
`MAX_PUBKEYS_PER_MULTISIG`; it stops at the first instruction that does not
read. -/
def getSigOpCountAux (fAccurate : Bool) : ℕ → UInt8 → CScript → ℕ
  | 0, _, _ => 0
  | fuel + 1, lastOpcode, pc =>
    match getScriptOp pc with
    | none => 0
    | some o =>
      let n :=
        if o.opcode = OP_CHECKSIG ∨ o.opcode = OP_CHECKSIGVERIFY then 1
        else if o.opcode = OP_CHECKMULTISIG ∨ o.opcode = OP_CHECKMULTISIGVERIFY then
          if fAccurate ∧ OP_1 ≤ lastOpcode ∧ lastOpcode ≤ OP_16 then decodeOP_N lastOpcode
          else MAX_PUBKEYS_PER_MULTISIG.toNat
        else 0
      n + getSigOpCountAux fAccurate fuel o.opcode o.rest

/-- `CScript::GetSigOpCount(fAccurate)`; an instruction takes at least a byte,
so the script's length is enough fuel. -/
def getSigOpCount (s : CScript) (fAccurate : Bool) : ℕ :=
  getSigOpCountAux fAccurate s.length OP_INVALIDOPCODE s

/-- `GetLegacySigOpCount`: the inexact counts of every input and output
script. -/
def getLegacySigOpCount (tx : CTransaction) : ℕ :=
  (tx.vin.map fun txin => getSigOpCount txin.scriptSig false).sum +
    (tx.vout.map fun txout => getSigOpCount txout.scriptPubKey false).sum

/-! ## `CheckBlock` -/

/-- `IsPoSHeight(n, params)`: the heights after `nSwitchHeight`. -/
def isPoSHeight (n : ℕ) (params : Params) : Bool := params.nSwitchHeight < n

/-- `CheckProofOfWork(hash, nBits, params)`. -/
def checkProofOfWork (hash : uint256) (nBits : ℕ) (params : Params) : Bool :=
  let bnTarget := SetCompact nBits
  if SetCompactNegative nBits || bnTarget == 0 || SetCompactOverflow nBits ||
      params.powLimit < bnTarget then false
  else hash ≤ bnTarget

/-- `CheckBlockHeader(block, state, params, fCheckPOW)`. -/
def checkBlockHeader (GetHash : CBlockHeader → uint256) (header : CBlockHeader) (params : Params)
    (fCheckPOW : Bool) : Except (ℕ × String) Unit :=
  if fCheckPOW && !checkProofOfWork (GetHash header) header.nBits params then
    .error (50, "high-hash")
  else .ok ()

/-- `CheckBlock(block, state, params, fCheckPOW, fCheckMerkleRoot)` on a block
not yet marked `fChecked`; `prevHeight` is the height `mapBlockIndex` gives
the parent. -/
def checkBlock (GetHash : CBlockHeader → uint256) (Hash64 : uint256 → uint256 → uint256)
    (txHash : CTransaction → uint256) (prevHeight : uint256 → Option ℕ) (block : CBlock)
    (params : Params) (fCheckPOW fCheckMerkleRoot : Bool) : Except (ℕ × String) Unit := do
  let nHeight := ((prevHeight block.hashPrevBlock).map (· + 1)).getD 0
  checkBlockHeader GetHash block.toCBlockHeader params (fCheckPOW && !isPoSHeight nHeight params)
  if fCheckMerkleRoot then
    let (hashMerkleRoot2, mutated) := blockMerkleRoot Hash64 txHash block
    if block.hashMerkleRoot ≠ hashMerkleRoot2 then throw (100, "bad-txnmrklroot")
    if mutated then throw (100, "bad-txns-duplicate")
  if block.vtx.isEmpty || MAX_BLOCK_WEIGHT < block.vtx.length * WITNESS_SCALE_FACTOR ||
      MAX_BLOCK_WEIGHT < block.serialize.length * WITNESS_SCALE_FACTOR then
    throw (100, "bad-blk-length")
  match block.vtx with
  | [] => throw (100, "bad-cb-missing")
  | coinbase :: vtx =>
    if !coinbase.IsCoinBase then throw (100, "bad-cb-missing")
    if vtx.any CTransaction.IsCoinBase then throw (100, "bad-cb-multiple")
  if isPoSHeight nHeight params && block.vtx.length < 2 then throw (100, "bad-blk-length")
  block.vtx.forM fun tx => checkTransaction tx false
  if MAX_BLOCK_SIGOPS_COST < (block.vtx.map getLegacySigOpCount).sum * WITNESS_SCALE_FACTOR then
    throw (100, "bad-blk-sigops")

/-! ## What passes -/

theorem sum_nValue_nonneg {vout : List CTxOut} (h0 : ∀ txout ∈ vout, 0 ≤ txout.nValue) :
    0 ≤ (vout.map (·.nValue)).sum :=
  List.sum_nonneg fun v hv => by
    obtain ⟨o, ho, rfl⟩ := List.mem_map.mp hv
    exact h0 o ho

/-- The output loop passes exactly on non-negative values whose total, with
what came before, stays within `MAX_MONEY`. -/
theorem checkOutputValues_eq_ok_iff {vout : List CTxOut} {nValueOut : CAmount}
    (h : MoneyRange nValueOut = true) :
    checkOutputValues vout nValueOut = .ok () ↔
      (∀ txout ∈ vout, 0 ≤ txout.nValue) ∧ nValueOut + (vout.map (·.nValue)).sum ≤ MAX_MONEY := by
  induction vout generalizing nValueOut with
  | nil =>
    simp only [MoneyRange, Bool.and_eq_true, decide_eq_true_eq] at h
    simp only [checkOutputValues, List.not_mem_nil, IsEmpty.forall_iff, implies_true,
      List.map_nil, List.sum_nil, add_zero, true_and, true_iff]
    exact h.2
  | cons txout vout ih =>
    simp only [MoneyRange, Bool.and_eq_true, decide_eq_true_eq] at h
    simp only [List.mem_cons, forall_eq_or_imp, List.map_cons, List.sum_cons]
    rw [checkOutputValues]
    -- the three rejections of this output, then the rest of the loop
    by_cases hneg : txout.nValue < 0
    · rw [if_pos hneg]
      simp only [reduceCtorEq, false_iff]
      rintro ⟨⟨hv, -⟩, -⟩
      linarith
    by_cases hbig : MAX_MONEY < txout.nValue
    · rw [if_neg hneg, if_pos hbig]
      simp only [reduceCtorEq, false_iff]
      rintro ⟨⟨-, h0⟩, hsum⟩
      have := sum_nValue_nonneg h0
      linarith
    by_cases hrange : MoneyRange (nValueOut + txout.nValue) = true
    · rw [if_neg hneg, if_neg hbig, if_neg (by simp [hrange]), ih hrange]
      constructor
      · rintro ⟨h0, hsum⟩
        exact ⟨⟨by linarith, h0⟩, by linarith⟩
      · rintro ⟨⟨-, h0⟩, hsum⟩
        exact ⟨h0, by linarith⟩
    · rw [if_neg hneg, if_neg hbig, if_pos (by simpa using hrange)]
      simp only [reduceCtorEq, false_iff]
      rintro ⟨⟨-, h0⟩, hsum⟩
      have := sum_nValue_nonneg h0
      simp only [MoneyRange, Bool.and_eq_true, decide_eq_true_eq, not_and, Int.not_le] at hrange
      have := hrange (by linarith)
      linarith

/-- What `CheckTransaction` accepts. -/
theorem checkTransaction_eq_ok_iff {tx : CTransaction} {fCheckDuplicateInputs : Bool} :
    checkTransaction tx fCheckDuplicateInputs = .ok () ↔
      tx.vin ≠ [] ∧ tx.vout ≠ [] ∧
      tx.serialize.length * WITNESS_SCALE_FACTOR ≤ MAX_BLOCK_WEIGHT ∧
      ((∀ txout ∈ tx.vout, 0 ≤ txout.nValue) ∧ (tx.vout.map (·.nValue)).sum ≤ MAX_MONEY) ∧
      (fCheckDuplicateInputs = true → (tx.vin.map (·.prevout)).Nodup) ∧
      (tx.IsCoinBase = true → 2 ≤ (tx.vin.headD ⟨⟨0, 0⟩, [], 0, []⟩).scriptSig.length ∧
        (tx.vin.headD ⟨⟨0, 0⟩, [], 0, []⟩).scriptSig.length ≤ 100) ∧
      (tx.IsCoinBase = false → ∀ txin ∈ tx.vin, txin.prevout.IsNull = false) := by
  have hout := @checkOutputValues_eq_ok_iff tx.vout 0 rfl
  rw [zero_add] at hout
  simp only [checkTransaction, Check.throw_bind, Check.bind_eq_ok_iff, Check.ite_throw_eq_ok_iff,
    hout]
  cases tx.IsCoinBase <;>
    simp only [List.isEmpty_iff, Nat.not_lt, Bool.and_eq_true, Bool.not_eq_true',
      decide_eq_false_iff_not, not_and, not_not, Bool.or_eq_true, decide_eq_true_eq, not_or,
      List.any_eq_true, not_exists, Check.ite_throw_eq_ok_iff, Bool.false_eq_true, if_false, if_true,
      and_true, true_and, ne_eq, Bool.not_eq_true, pure, Except.pure, true_implies, false_implies,
      Bool.true_eq_false]

/-- What `CheckBlock` accepts. -/
theorem checkBlock_eq_ok_iff {GetHash : CBlockHeader → uint256}
    {Hash64 : uint256 → uint256 → uint256} {txHash : CTransaction → uint256}
    {prevHeight : uint256 → Option ℕ} {block : CBlock} {params : Params}
    {fCheckPOW fCheckMerkleRoot : Bool} :
    checkBlock GetHash Hash64 txHash prevHeight block params fCheckPOW fCheckMerkleRoot = .ok () ↔
      let nHeight := ((prevHeight block.hashPrevBlock).map (· + 1)).getD 0
      checkBlockHeader GetHash block.toCBlockHeader params
          (fCheckPOW && !isPoSHeight nHeight params) = .ok () ∧
        (fCheckMerkleRoot = true →
          blockMerkleRoot Hash64 txHash block = (block.hashMerkleRoot, false)) ∧
        block.vtx.length * WITNESS_SCALE_FACTOR ≤ MAX_BLOCK_WEIGHT ∧
        block.serialize.length * WITNESS_SCALE_FACTOR ≤ MAX_BLOCK_WEIGHT ∧
        (∃ coinbase vtx, block.vtx = coinbase :: vtx ∧ coinbase.IsCoinBase = true ∧
          ∀ tx ∈ vtx, tx.IsCoinBase = false) ∧
        (isPoSHeight nHeight params = true → 2 ≤ block.vtx.length) ∧
        (∀ tx ∈ block.vtx, checkTransaction tx false = .ok ()) ∧
        (block.vtx.map getLegacySigOpCount).sum * WITNESS_SCALE_FACTOR ≤ MAX_BLOCK_SIGOPS_COST := by
  -- the merkle check is there or not, and the coinbase check reads the first transaction
  cases fCheckMerkleRoot <;> cases hvtx : block.vtx <;>
    simp [checkBlock, hvtx, pure, Except.pure, and_assoc, Prod.ext_iff,
      @eq_comm _ block.hashMerkleRoot, Nat.one_le_iff_ne_zero, List.length_eq_zero_iff]

/-- A block whose header carries its merkle root, unmutated, passes the merkle
check: `CheckBlock` is then the same with and without it. -/
theorem checkBlock_of_blockMerkleRoot {GetHash : CBlockHeader → uint256}
    {Hash64 : uint256 → uint256 → uint256} {txHash : CTransaction → uint256}
    {prevHeight : uint256 → Option ℕ} {block : CBlock} {params : Params} {fCheckPOW : Bool}
    (h : blockMerkleRoot Hash64 txHash block = (block.hashMerkleRoot, false)) :
    checkBlock GetHash Hash64 txHash prevHeight block params fCheckPOW true =
      checkBlock GetHash Hash64 txHash prevHeight block params fCheckPOW false := by
  simp [checkBlock, h]

/-! ## The coinstake's index after `CheckBlock`

Nothing in `CheckBlock` compares a coinstake's `prevout.n` with anything:
`CheckTransaction` rejects only the null prevout.  `ConnectBlock` then calls
`CheckProofOfStake` first, which finds the staked transaction by hash and
reads its outputs at that index before any other check. -/

/-- The coinbase of `firstStakeBlock`. -/
def firstStakeCoinbase : CTransaction :=
  ⟨1, [⟨⟨0, 0xFFFFFFFF⟩, [1, 1], 0xFFFFFFFF, []⟩], [⟨0, [OP_1]⟩], 0⟩

/-- The coinstake of `firstStakeBlock`: it spends output 1 of the transaction
of hash `101`. -/
def firstStakeCoinstake : CTransaction :=
  ⟨1, [⟨⟨101, 1⟩, [], 0xFFFFFFFF, []⟩], [⟨50 * COIN, [OP_1]⟩], 2⟩

/-- A block at the first proof-of-stake height of the main network, over the
block of hash `9`, with a coinbase and a coinstake whose hashes are `100` and
`102`. -/
def firstStakeBlock (Hash64 : uint256 → uint256 → uint256) : CBlock :=
  ⟨⟨1, 9, Hash64 100 102, 1000 + 60 * 60 * 24 * 3, 0x1d00ffff, 0⟩,
    [firstStakeCoinbase, firstStakeCoinstake]⟩

/-- The height lookup of `firstStakeBlock`: its parent, the block of hash `9`,
is at the switch height. -/
def firstStakePrevHeight (h : uint256) : Option ℕ :=
  if h = 9 then some Params.main.nSwitchHeight else none

/-- `firstStakeBlock` passes `CheckBlock`, whatever the hash functions. -/
theorem checkBlock_firstStakeBlock (GetHash : CBlockHeader → uint256)
    (Hash64 : uint256 → uint256 → uint256) :
    checkBlock GetHash Hash64 (fun tx => tx.nLockTime + 100) firstStakePrevHeight
      (firstStakeBlock Hash64) Params.main true true = .ok () := by
  have hmerkle : blockMerkleRoot Hash64 (fun tx => tx.nLockTime + 100) (firstStakeBlock Hash64) =
      ((firstStakeBlock Hash64).hashMerkleRoot, false) :=
    computeMerkleRoot_pair Hash64 100 102
  rw [checkBlock_of_blockMerkleRoot hmerkle]
  -- with the merkle check passed, what is left of the block is closed and evaluates
  simp [checkBlock, CBlock.serialize, length_CBlockHeader_serialize, firstStakeBlock, isPoSHeight,
    firstStakePrevHeight, checkBlockHeader]
  exact ⟨⟨by decide, by decide⟩, by decide, by decide, Check.eq_ok_of_toBool (by decide +kernel),
    Check.eq_ok_of_toBool (by decide +kernel), by decide⟩

/-- A block at the first proof-of-stake height passes `CheckBlock`, whatever
the hash functions, with a coinstake that spends output 1 of a transaction
of one output: `CheckProofOfStake` and `IsCoinStakeTx` both read
`prevTx->vout[1]`, past the end of the vector. -/
theorem checkBlock_coinstake_vout_out_of_range (GetHash : CBlockHeader → uint256)
    (Hash64 : uint256 → uint256 → uint256) :
    let txHash : CTransaction → uint256 := fun tx => tx.nLockTime + 100
    let txPrev : CTransaction := ⟨1, [], [⟨50 * COIN, [OP_1]⟩], 1⟩
    let blockFrom : CBlock := ⟨⟨1, 0, 0, 1000, 0x1d00ffff, 0⟩, [txPrev]⟩
    let blocks : BlockStore :=
      ⟨fun h => if h = 5 then some 7 else none, fun h => if h = 7 then some blockFrom else none⟩
    let node : TxSource := ⟨fun _ => none, none, fun h => if h = 101 then some 5 else none⟩
    let coinbase : CTransaction :=
      ⟨1, [⟨⟨0, 0xFFFFFFFF⟩, [1, 1], 0xFFFFFFFF, []⟩], [⟨0, [OP_1]⟩], 0⟩
    let coinstake : CTransaction := ⟨1, [⟨⟨101, 1⟩, [], 0xFFFFFFFF, []⟩], [⟨50 * COIN, [OP_1]⟩], 2⟩
    let block : CBlock :=
      ⟨⟨1, 9, Hash64 100 102, 1000 + 60 * 60 * 24 * 3, 0x1d00ffff, 0⟩, [coinbase, coinstake]⟩
    let prevHeight : uint256 → Option ℕ :=
      fun h => if h = 9 then some Params.main.nSwitchHeight else none
    checkBlock GetHash Hash64 txHash prevHeight block Params.main true true = .ok () ∧
      checkProofOfStakeVoutRead txHash blocks node coinstake = some (txPrev, 1) ∧
      isCoinStakeTxVoutRead txHash blocks node coinstake = some (txPrev, 1) ∧
      txPrev.vout.length ≤ 1 := by
  intro txHash txPrev blockFrom blocks node coinbase coinstake block prevHeight
  exact ⟨checkBlock_firstStakeBlock GetHash Hash64, by decide +kernel, by decide +kernel, by decide⟩

end XPChain
