import XPChain.Consensus.Pow
import XPChain.Primitives.Serialize
import XPChain.Policy.Stake

/-!
# The stake kernel

`CheckProofOfStake` of `kernel.cpp` finds the transaction a coinstake
spends, checks the spend, and hashes the kernel of `CheckStakeKernelHash`:
the target, the time of the block holding the staked coin, an offset, the
output index and the new block's time.  The hash must lie below the target
scaled by the coin's value and age.

The staked transaction is found by `GetTransaction` of `validation.cpp`,
which tries the mempool, then the transaction index if one is enabled, then
the coin database with the block files.  What the node's block tree and
block files say is `BlockStore`; the rest of what `GetTransaction` reads is
`TxSource`, and differs between nodes.

## Main definitions

* `stakeKernelPreimage`, `checkStakeKernelHash`.
* `BlockStore`, `TxSource`, `getTransaction`.
* `checkProofOfStake`, `isCoinStakeTx`.

## Main statements

* `checkStakeKernelHash_exact` — past the minimum age the kernel check is the
  comparison over the naturals, with nothing wrapped.
* `checkProofOfStake_of_mempool` — a staked transaction found in the mempool
  never passes.
* `checkProofOfStake_of_block` — once the staked transaction is found in a
  block, the result is the kernel check on that block.
* `checkProofOfStake_same_kernel` — two different coins of one block can
  hash the same kernel.
* `checkProofOfStake_depends_on_node` — the result depends on the mempool,
  the transaction index and the coin database of the node that checks.
-/

set_option autoImplicit false

namespace XPChain

open LittleEndian ArithUint256 CTxDestination

/-! ## The kernel hash -/

/-- The bytes `CheckStakeKernelHash` hashes:
`ss << nBits << nTimeBlockFrom << nTxPrevOffset << nTimeBlockFrom << n << nTimeTx`,
with `n` a `uint64_t` and the rest 32-bit. -/
def stakeKernelPreimage (nBits nTimeBlockFrom nTxPrevOffset n nTimeTx : ℕ) : List UInt8 :=
  serializeUInt32 nBits ++ serializeUInt32 nTimeBlockFrom ++ serializeUInt32 nTxPrevOffset ++
    serializeUInt32 nTimeBlockFrom ++ serializeUInt64 n ++ serializeUInt32 nTimeTx

/-- `CheckStakeKernelHash(nBits, nTimeBlockFrom, nTxPrevOffset, nAmount, n, nTimeTx,
hashProofOfStake)`: `none` when the coin is younger than `nStakeMinAge` and
the hash is not computed, else the result with `hashProofOfStake`.  The
amount becomes an `arith_uint256` through `uint64_t`, the time weight is
taken by the `uint32_t` product, and the final comparison is in 512 bits. -/
def checkStakeKernelHash (params : Params) (Hash : List UInt8 → uint256)
    (nBits nTimeBlockFrom nTxPrevOffset : ℕ) (nAmount : CAmount) (n nTimeTx : ℕ) :
    Option (Bool × uint256) :=
  if (nTimeTx : ℤ) < nTimeBlockFrom + params.nStakeMinAge then none
  else
    let bnTargetPerCoinDay := SetCompact nBits
    let nTimeWeight : ℤ :=
      min ((nTimeTx : ℤ) - nTimeBlockFrom) params.nStakeMaxAge - params.nStakeMinAge
    let bnCoinDayWeight :=
      (nAmount % 2 ^ 64).toNat * toUInt32 nTimeWeight % 2 ^ 256 / COIN.toNat / (24 * 60 * 60)
    let hashProofOfStake := Hash (stakeKernelPreimage nBits nTimeBlockFrom nTxPrevOffset n nTimeTx)
    some (decide (hashProofOfStake ≤ bnCoinDayWeight * bnTargetPerCoinDay % 2 ^ 512),
      hashProofOfStake)

/-- A coin younger than `nStakeMinAge` fails before its kernel is hashed. -/
theorem checkStakeKernelHash_of_lt {params : Params} {Hash : List UInt8 → uint256}
    {nBits nTimeBlockFrom nTxPrevOffset : ℕ} {nAmount : CAmount} {n nTimeTx : ℕ}
    (hage : (nTimeTx : ℤ) < nTimeBlockFrom + params.nStakeMinAge) :
    checkStakeKernelHash params Hash nBits nTimeBlockFrom nTxPrevOffset nAmount n nTimeTx = none := by
  rw [checkStakeKernelHash, if_pos hage]

/-- Otherwise `hashProofOfStake` is the hash of the kernel preimage. -/
theorem map_snd_checkStakeKernelHash {params : Params} {Hash : List UInt8 → uint256}
    {nBits nTimeBlockFrom nTxPrevOffset : ℕ} {nAmount : CAmount} {n nTimeTx : ℕ}
    (hage : nTimeBlockFrom + params.nStakeMinAge ≤ (nTimeTx : ℤ)) :
    (checkStakeKernelHash params Hash nBits nTimeBlockFrom nTxPrevOffset nAmount n nTimeTx).map
      Prod.snd = some (Hash (stakeKernelPreimage nBits nTimeBlockFrom nTxPrevOffset n nTimeTx)) := by
  rw [checkStakeKernelHash, if_neg (not_lt.mpr hage)]
  rfl

section Exact

variable {params : Params} {Hash : List UInt8 → uint256}
  {nBits nTimeBlockFrom nTxPrevOffset : ℕ} {nAmount : CAmount} {n nTimeTx : ℕ}

/-- The time weight `min(nTimeTx - nTimeBlockFrom, nStakeMaxAge) - nStakeMinAge`. -/
def stakeTimeWeight (params : Params) (nTimeBlockFrom nTimeTx : ℕ) : ℤ :=
  min ((nTimeTx : ℤ) - nTimeBlockFrom) params.nStakeMaxAge - params.nStakeMinAge

/-- Past the minimum age the time weight lies in
`[0, nStakeMaxAge - nStakeMinAge]`. -/
theorem stakeTimeWeight_mem (hmax : params.nStakeMinAge ≤ params.nStakeMaxAge)
    (hage : nTimeBlockFrom + params.nStakeMinAge ≤ (nTimeTx : ℤ)) :
    0 ≤ stakeTimeWeight params nTimeBlockFrom nTimeTx ∧
      stakeTimeWeight params nTimeBlockFrom nTimeTx ≤ params.nStakeMaxAge - params.nStakeMinAge := by
  unfold stakeTimeWeight
  omega

/-- Past the minimum age, for an amount in range and an age span within 32
bits, no step of the kernel check wraps: the hash is compared with the
coin-day weight times the target over the naturals. -/
theorem checkStakeKernelHash_of_le (hmax : params.nStakeMinAge ≤ params.nStakeMaxAge)
    (hspan : params.nStakeMaxAge - params.nStakeMinAge < 2 ^ 32)
    (hamount : MoneyRange nAmount = true)
    (hage : nTimeBlockFrom + params.nStakeMinAge ≤ (nTimeTx : ℤ)) :
    checkStakeKernelHash params Hash nBits nTimeBlockFrom nTxPrevOffset nAmount n nTimeTx =
      some (decide (Hash (stakeKernelPreimage nBits nTimeBlockFrom nTxPrevOffset n nTimeTx) ≤
          nAmount.toNat * (stakeTimeWeight params nTimeBlockFrom nTimeTx).toNat / COIN.toNat /
            (24 * 60 * 60) * SetCompact nBits),
        Hash (stakeKernelPreimage nBits nTimeBlockFrom nTxPrevOffset n nTimeTx)) := by
  obtain ⟨hw₀, hw⟩ := stakeTimeWeight_mem hmax hage
  have hrange : (0 : ℤ) ≤ nAmount ∧ nAmount ≤ (210000000000 * 10000 : ℤ) := by
    simpa [MoneyRange] using hamount
  -- `arith_uint256(nAmount)` takes the amount whole
  have hamt : (nAmount % 2 ^ 64).toNat = nAmount.toNat := by
    rw [Int.emod_eq_of_lt hrange.1 (lt_of_le_of_lt hrange.2 (by norm_num))]
  -- the weight is below `2 ^ 32`, so `operator*=(uint32_t)` takes it whole
  have htime : toUInt32 (stakeTimeWeight params nTimeBlockFrom nTimeTx) =
      (stakeTimeWeight params nTimeBlockFrom nTimeTx).toNat :=
    toUInt32_of_lt hw₀ (by omega)
  -- amount times weight is below `2 ^ 96`
  have hweight : nAmount.toNat * (stakeTimeWeight params nTimeBlockFrom nTimeTx).toNat < 2 ^ 256 := by
    have ha : nAmount.toNat < 2 ^ 64 := by omega
    have hw' : (stakeTimeWeight params nTimeBlockFrom nTimeTx).toNat < 2 ^ 32 := by omega
    calc nAmount.toNat * (stakeTimeWeight params nTimeBlockFrom nTimeTx).toNat
        < 2 ^ 64 * 2 ^ 32 := Nat.mul_lt_mul_of_lt_of_lt ha hw'
      _ ≤ 2 ^ 256 := by norm_num
  -- both factors of the 512-bit product are below `2 ^ 256`
  have hprod : nAmount.toNat * (stakeTimeWeight params nTimeBlockFrom nTimeTx).toNat / COIN.toNat /
      (24 * 60 * 60) * SetCompact nBits < 2 ^ 512 := by
    have hdiv : nAmount.toNat * (stakeTimeWeight params nTimeBlockFrom nTimeTx).toNat / COIN.toNat /
        (24 * 60 * 60) < 2 ^ 256 :=
      lt_of_le_of_lt ((Nat.div_le_self _ _).trans (Nat.div_le_self _ _)) hweight
    calc _ < 2 ^ 256 * 2 ^ 256 := Nat.mul_lt_mul_of_lt_of_lt hdiv (SetCompact_lt nBits)
      _ = 2 ^ 512 := by rw [← pow_add]
  rw [checkStakeKernelHash, if_neg (not_lt.mpr hage)]
  simp only [hamt]
  rw [← stakeTimeWeight, htime, Nat.mod_eq_of_lt hweight, Nat.mod_eq_of_lt hprod]

/-- The stake kernel check is exact: past the minimum age it accepts exactly
when the kernel hash is at most the coin-day weight times the target, over
the naturals, and a younger coin never passes. -/
theorem checkStakeKernelHash_exact (hmax : params.nStakeMinAge ≤ params.nStakeMaxAge)
    (hspan : params.nStakeMaxAge - params.nStakeMinAge < 2 ^ 32)
    (hamount : MoneyRange nAmount = true) :
    (checkStakeKernelHash params Hash nBits nTimeBlockFrom nTxPrevOffset nAmount n nTimeTx).map
        Prod.fst = some true ↔
      nTimeBlockFrom + params.nStakeMinAge ≤ (nTimeTx : ℤ) ∧
        Hash (stakeKernelPreimage nBits nTimeBlockFrom nTxPrevOffset n nTimeTx) ≤
          nAmount.toNat * (stakeTimeWeight params nTimeBlockFrom nTimeTx).toNat / COIN.toNat /
            (24 * 60 * 60) * SetCompact nBits := by
  by_cases hage : nTimeBlockFrom + params.nStakeMinAge ≤ (nTimeTx : ℤ)
  · rw [checkStakeKernelHash_of_le hmax hspan hamount hage]
    simp [hage]
  · rw [checkStakeKernelHash_of_lt (not_le.mp hage)]
    simp [hage]

/-- On the main network a coin of 50 staked for exactly the minimum age with
a zero hash: the kernel passes, and the weight it is checked against is zero. -/
theorem checkStakeKernelHash_exact_main :
    Params.main.nStakeMinAge ≤ Params.main.nStakeMaxAge ∧
      Params.main.nStakeMaxAge - Params.main.nStakeMinAge < 2 ^ 32 ∧
      MoneyRange (50 * COIN) = true ∧
      ((checkStakeKernelHash Params.main (fun _ => 0) 0x1d00ffff 1000 81 (50 * COIN) 0
          (1000 + 259200)).map Prod.fst = some true ↔
        (1000 : ℤ) + Params.main.nStakeMinAge ≤ ((1000 + 259200 : ℕ) : ℤ) ∧
          (fun _ => 0 : List UInt8 → uint256) (stakeKernelPreimage 0x1d00ffff 1000 81 0 (1000 + 259200)) ≤
            (50 * COIN).toNat * (stakeTimeWeight Params.main 1000 (1000 + 259200)).toNat /
              COIN.toNat / (24 * 60 * 60) * SetCompact 0x1d00ffff) :=
  ⟨by decide, by decide, by decide, checkStakeKernelHash_exact (by decide) (by decide) (by decide)⟩

end Exact

/-! ## Finding the staked transaction -/

/-- The block tree and block files: the hash of the active chain's block at
each height, and `mapBlockIndex` with `ReadBlockFromDisk`. -/
structure BlockStore where
  chainActive : ℕ → Option uint256
  readBlock : uint256 → Option CBlock

/-- The rest of what `GetTransaction` reads: `mempool.get`, the index
`g_txindex->FindTx` when a transaction index is enabled, and
`AccessByTxid(*pcoinsTip, hash)` as the height of an unspent output. -/
structure TxSource where
  mempool : uint256 → Option CTransaction
  txindex : Option (uint256 → Option (CTransaction × uint256))
  accessByTxid : uint256 → Option ℕ

/-- `GetTransaction(hash, txOut, params, hashBlock, true)`: the transaction,
and the containing block's hash where `hashBlock` is written (`none` for a
mempool hit, which leaves it as it was). -/
def getTransaction (txHash : CTransaction → uint256) (blocks : BlockStore) (node : TxSource)
    (hash : uint256) : Option (CTransaction × Option uint256) :=
  match node.mempool hash with
  | some tx => some (tx, none)
  | none =>
    match node.txindex with
    | some findTx => (findTx hash).map fun r => (r.1, some r.2)
    | none => do
      let nHeight ← node.accessByTxid hash
      let hashBlock ← blocks.chainActive nHeight
      let block ← blocks.readBlock hashBlock
      let tx ← block.vtx.find? fun tx => txHash tx == hash
      pure (tx, some hashBlock)

/-! ## `CheckProofOfStake` -/

/-- `CheckProofOfStake(tx, nBits, hashProofOfStake, nBlockTime)`, with
`checker` the signature checker of the coinstake's first input for a spent
amount: `none` is a `false` return before the kernel hash is taken, else the
result of `CheckStakeKernelHash`.  The spend is checked with no script
flags, and `hashBlock` starts as the zero hash. -/
def checkProofOfStake (params : Params) (crypto : Crypto) (Hash : List UInt8 → uint256)
    (txHash : CTransaction → uint256) (blocks : BlockStore) (node : TxSource)
    (checker : CAmount → SignatureChecker) (tx : CTransaction) (nBits nBlockTime : ℕ) :
    Option (Bool × uint256) := do
  let txin ← tx.vin.head?
  let (txTmp, hashBlock) ← getTransaction txHash blocks node txin.prevout.hash
  let hash := hashBlock.getD 0
  if txHash txTmp ≠ txin.prevout.hash then none
  else if hash = 0 then none
  else do
    let txout ← txTmp.vout[txin.prevout.n]?
    if (verifyScript crypto txin.scriptSig txout.scriptPubKey txin.scriptWitness
        SCRIPT_VERIFY_NONE (checker txout.nValue)).run ≠ some (.ok ()) then none
    else do
      let block ← blocks.readBlock hash
      checkStakeKernelHash params Hash nBits block.nTime
        (getSizeOfCompactSize block.vtx.length + 80) txout.nValue txin.prevout.n nBlockTime

/-- `IsCoinStakeTx(tx, params, hashBlock, prevTx)`: one input, one output,
a staked transaction that `GetTransaction` finds under its own hash, and an
output paying to the staked coin's address; the found transaction and
`hashBlock` when it returns `true`. -/
def isCoinStakeTx (crypto : Crypto) (txHash : CTransaction → uint256) (blocks : BlockStore)
    (node : TxSource) (tx : CTransaction) : Option (CTransaction × Option uint256) :=
  match tx.vin, tx.vout with
  | [txin], [txout] => do
    let (prevTx, hashBlock) ← getTransaction txHash blocks node txin.prevout.hash
    if txHash prevTx ≠ txin.prevout.hash then none
    else do
      let prevOut ← prevTx.vout[txin.prevout.n]?
      if isDestinationSame crypto prevOut.scriptPubKey txout.scriptPubKey then
        some (prevTx, hashBlock)
      else none
  | _, _ => none

/-- A staked transaction found in the mempool leaves `hashBlock` zero, and the
check fails. -/
theorem checkProofOfStake_of_mempool {params : Params} {crypto : Crypto}
    {Hash : List UInt8 → uint256} {txHash : CTransaction → uint256} {blocks : BlockStore}
    {node : TxSource} {checker : CAmount → SignatureChecker} {tx : CTransaction}
    {txin : CTxIn} {txPrev : CTransaction} (hin : tx.vin.head? = some txin)
    (hpool : node.mempool txin.prevout.hash = some txPrev) (nBits nBlockTime : ℕ) :
    checkProofOfStake params crypto Hash txHash blocks node checker tx nBits nBlockTime = none := by
  simp [checkProofOfStake, hin, getTransaction, hpool]

/-- With a transaction index enabled, a transaction it has not written yet is
not found, and the check fails. -/
theorem checkProofOfStake_of_txindex_none {params : Params} {crypto : Crypto}
    {Hash : List UInt8 → uint256} {txHash : CTransaction → uint256} {blocks : BlockStore}
    {node : TxSource} {checker : CAmount → SignatureChecker} {tx : CTransaction}
    {txin : CTxIn} {findTx : uint256 → Option (CTransaction × uint256)}
    (hin : tx.vin.head? = some txin) (hpool : node.mempool txin.prevout.hash = none)
    (hindex : node.txindex = some findTx) (hfind : findTx txin.prevout.hash = none)
    (nBits nBlockTime : ℕ) :
    checkProofOfStake params crypto Hash txHash blocks node checker tx nBits nBlockTime = none := by
  simp [checkProofOfStake, hin, getTransaction, hpool, hindex, hfind]

/-- A staked transaction `GetTransaction` does not find fails the check. -/
theorem checkProofOfStake_of_getTransaction_none {params : Params} {crypto : Crypto}
    {Hash : List UInt8 → uint256} {txHash : CTransaction → uint256} {blocks : BlockStore}
    {node : TxSource} {checker : CAmount → SignatureChecker} {tx : CTransaction} {txin : CTxIn}
    (hin : tx.vin.head? = some txin)
    (hnone : getTransaction txHash blocks node txin.prevout.hash = none) (nBits nBlockTime : ℕ) :
    checkProofOfStake params crypto Hash txHash blocks node checker tx nBits nBlockTime = none := by
  simp [checkProofOfStake, hin, hnone]

/-- Once the staked transaction is found in a block under its own hash and
the spend checks, `CheckProofOfStake` is the kernel check on the block that
holds the coin: its time, the offset `GetSizeOfCompactSize(vtx.size()) +
sizeof(CBlockHeader)`, the coin's value and its output index. -/
theorem checkProofOfStake_of_block {params : Params} {crypto : Crypto}
    {Hash : List UInt8 → uint256} {txHash : CTransaction → uint256} {blocks : BlockStore}
    {node : TxSource} {checker : CAmount → SignatureChecker} {tx : CTransaction}
    {txin : CTxIn} {txPrev : CTransaction} {hashBlock : uint256} {txout : CTxOut}
    {blockFrom : CBlock} (hin : tx.vin.head? = some txin)
    (hfound : getTransaction txHash blocks node txin.prevout.hash = some (txPrev, some hashBlock))
    (hhash : txHash txPrev = txin.prevout.hash) (hzero : hashBlock ≠ 0)
    (hout : txPrev.vout[txin.prevout.n]? = some txout)
    (hspend : (verifyScript crypto txin.scriptSig txout.scriptPubKey txin.scriptWitness
      SCRIPT_VERIFY_NONE (checker txout.nValue)).run = some (.ok ()))
    (hblock : blocks.readBlock hashBlock = some blockFrom) (nBits nBlockTime : ℕ) :
    checkProofOfStake params crypto Hash txHash blocks node checker tx nBits nBlockTime =
      checkStakeKernelHash params Hash nBits blockFrom.nTime
        (getSizeOfCompactSize blockFrom.vtx.length + 80) txout.nValue txin.prevout.n
        nBlockTime := by
  simp only [checkProofOfStake, hin, hfound, Option.getD_some, hhash, hzero, hout, hspend, hblock,
    Option.bind_eq_bind, Option.bind_some, ne_eq, not_true_eq_false, if_false]

/-! ## The staked output's index

`CheckProofOfStake` and `IsCoinStakeTx` read `prevTx->vout[prevout.n]` with
`std::vector::operator[]`, which checks no bound.  The model's `vout[n]?`
turns a read past the end into a rejection; the two definitions below say
where the C++ makes the read, so that a read past the end can be stated. -/

/-- The read `txTmp->vout[tx->vin[0].prevout.n]` of `CheckProofOfStake`, the
output it passes to `CScriptCheck`: the staked transaction and the index, when
control reaches it. -/
def checkProofOfStakeVoutRead (txHash : CTransaction → uint256) (blocks : BlockStore)
    (node : TxSource) (tx : CTransaction) : Option (CTransaction × ℕ) := do
  let txin ← tx.vin.head?
  let (txTmp, hashBlock) ← getTransaction txHash blocks node txin.prevout.hash
  if txHash txTmp ≠ txin.prevout.hash then none
  else if hashBlock.getD 0 = 0 then none
  else some (txTmp, txin.prevout.n)

/-- The read `prevTx->vout[tx->vin[0].prevout.n]` of `IsCoinStakeTx`. -/
def isCoinStakeTxVoutRead (txHash : CTransaction → uint256) (blocks : BlockStore)
    (node : TxSource) (tx : CTransaction) : Option (CTransaction × ℕ) :=
  match tx.vin, tx.vout with
  | [txin], [_] => do
    let (prevTx, _) ← getTransaction txHash blocks node txin.prevout.hash
    if txHash prevTx ≠ txin.prevout.hash then none else some (prevTx, txin.prevout.n)
  | _, _ => none

/-- Two coins of one block with the same output index and value share their
kernel: whatever the hash function and the target, `CheckProofOfStake` gives
both the same result and the same `hashProofOfStake`, since the offset it
passes is that of the block's first transaction and the staked
transaction's hash is not hashed. -/
theorem checkProofOfStake_same_kernel (Hash : List UInt8 → uint256) (nBits : ℕ) :
    let tx₁ : CTransaction := ⟨1, [], [⟨50, [OP_1]⟩], 1⟩
    let tx₂ : CTransaction := ⟨1, [], [⟨50, [OP_1]⟩], 2⟩
    let txHash : CTransaction → uint256 := fun tx => tx.nLockTime + 100
    let blockFrom : CBlock := ⟨⟨1, 0, 0, 1000, 0x1d00ffff, 0⟩, [tx₁, tx₂]⟩
    let blocks : BlockStore :=
      ⟨fun h => if h = 5 then some 7 else none, fun h => if h = 7 then some blockFrom else none⟩
    let node : TxSource := ⟨fun _ => none, none, fun h => if h = 101 ∨ h = 102 then some 5 else none⟩
    let stake (prevout : COutPoint) : CTransaction := ⟨1, [⟨prevout, [], 0, []⟩], [⟨0, [OP_1]⟩], 0⟩
    let nBlockTime := 1000 + 60 * 60 * 24 * 3
    (⟨101, 0⟩ : COutPoint) ≠ ⟨102, 0⟩ ∧
      checkProofOfStake Params.main Crypto.truncating Hash txHash blocks node
          (fun _ => BaseSignatureChecker) (stake ⟨101, 0⟩) nBits nBlockTime =
        checkProofOfStake Params.main Crypto.truncating Hash txHash blocks node
          (fun _ => BaseSignatureChecker) (stake ⟨102, 0⟩) nBits nBlockTime ∧
      (checkProofOfStake Params.main Crypto.truncating Hash txHash blocks node
          (fun _ => BaseSignatureChecker) (stake ⟨101, 0⟩) nBits nBlockTime).map Prod.snd =
        some (Hash (stakeKernelPreimage nBits 1000 81 0 nBlockTime)) := by
  intro tx₁ tx₂ txHash blockFrom blocks node stake nBlockTime
  have hspend : (verifyScript Crypto.truncating [] [OP_1] [] SCRIPT_VERIFY_NONE
      BaseSignatureChecker).run = some (.ok ()) := by decide +kernel
  have hfound₁ : getTransaction txHash blocks node 101 = some (tx₁, some 7) := by decide +kernel
  have hfound₂ : getTransaction txHash blocks node 102 = some (tx₂, some 7) := by decide +kernel
  -- both coins are found in the same block at index 0, with the same value
  have h₁ := @checkProofOfStake_of_block Params.main Crypto.truncating Hash txHash blocks node
    (fun _ => BaseSignatureChecker) (stake ⟨101, 0⟩) ⟨⟨101, 0⟩, [], 0, []⟩ tx₁ 7 ⟨50, [OP_1]⟩
    blockFrom rfl hfound₁ rfl (by decide) rfl hspend rfl nBits nBlockTime
  have h₂ := @checkProofOfStake_of_block Params.main Crypto.truncating Hash txHash blocks node
    (fun _ => BaseSignatureChecker) (stake ⟨102, 0⟩) ⟨⟨102, 0⟩, [], 0, []⟩ tx₂ 7 ⟨50, [OP_1]⟩
    blockFrom rfl hfound₂ rfl (by decide) rfl hspend rfl nBits nBlockTime
  have hoffset : getSizeOfCompactSize blockFrom.vtx.length + 80 = 81 := by decide
  have hage : ((1000 : ℕ) : ℤ) + Params.main.nStakeMinAge ≤ ((nBlockTime : ℕ) : ℤ) := by decide
  refine ⟨by decide, by rw [h₁, h₂], ?_⟩
  rw [h₁, hoffset]
  exact map_snd_checkStakeKernelHash hage

/-- Nodes that agree on the block tree and the active chain can disagree on a
coinstake: one without a transaction index finds the staked coin through
`pcoinsTip` and hashes its kernel; one whose index has not reached the block,
one that holds the staked transaction in its mempool, and one whose
`pcoinsTip` has already spent the coin all reject it, and
`IsCoinStakeTx` returns without the block on the mempool node. -/
theorem checkProofOfStake_depends_on_node (Hash : List UInt8 → uint256) (nBits : ℕ) :
    let crypto : Crypto := Crypto.truncating
    let S := getScriptForDestination (CScriptID (crypto.hash160 [OP_1]))
    let txPrev : CTransaction := ⟨1, [], [⟨50, S⟩], 1⟩
    let txHash : CTransaction → uint256 := fun tx => tx.nLockTime + 100
    let blockFrom : CBlock := ⟨⟨1, 0, 0, 1000, 0x1d00ffff, 0⟩, [txPrev]⟩
    let blocks : BlockStore :=
      ⟨fun h => if h = 5 then some 7 else none, fun h => if h = 7 then some blockFrom else none⟩
    let coinstake : CTransaction := ⟨1, [⟨⟨101, 0⟩, pushData [OP_1], 0, []⟩], [⟨0, S⟩], 0⟩
    let utxo : uint256 → Option ℕ := fun h => if h = 101 then some 5 else none
    let nodeA : TxSource := ⟨fun _ => none, none, utxo⟩
    let nodeB : TxSource := ⟨fun _ => none, some fun _ => none, utxo⟩
    let nodeC : TxSource := ⟨fun h => if h = 101 then some txPrev else none, none, utxo⟩
    let nodeD : TxSource := ⟨fun _ => none, none, fun _ => none⟩
    let nBlockTime := 1000 + 60 * 60 * 24 * 3
    let run (node : TxSource) := checkProofOfStake Params.main crypto Hash txHash blocks node
      (fun _ => BaseSignatureChecker) coinstake nBits nBlockTime
    (run nodeA).map Prod.snd = some (Hash (stakeKernelPreimage nBits 1000 81 0 nBlockTime)) ∧
      isCoinStakeTx crypto txHash blocks nodeA coinstake = some (txPrev, some 7) ∧
      run nodeB = none ∧ isCoinStakeTx crypto txHash blocks nodeB coinstake = none ∧
      run nodeC = none ∧ isCoinStakeTx crypto txHash blocks nodeC coinstake = some (txPrev, none) ∧
      run nodeD = none ∧ isCoinStakeTx crypto txHash blocks nodeD coinstake = none := by
  intro crypto S txPrev txHash blockFrom blocks coinstake utxo nodeA nodeB nodeC nodeD nBlockTime run
  have hin : coinstake.vin.head? = some ⟨⟨101, 0⟩, pushData [OP_1], 0, []⟩ := rfl
  have hspend : (verifyScript crypto (pushData [OP_1]) S [] SCRIPT_VERIFY_NONE
      BaseSignatureChecker).run = some (.ok ()) := by decide +kernel
  have hfound : getTransaction txHash blocks nodeA 101 = some (txPrev, some 7) := by decide +kernel
  have hA := @checkProofOfStake_of_block Params.main crypto Hash txHash blocks nodeA
    (fun _ => BaseSignatureChecker) coinstake ⟨⟨101, 0⟩, pushData [OP_1], 0, []⟩ txPrev 7 ⟨50, S⟩
    blockFrom hin hfound rfl (by decide) rfl hspend rfl nBits nBlockTime
  have hoffset : getSizeOfCompactSize blockFrom.vtx.length + 80 = 81 := by decide
  have hage : ((1000 : ℕ) : ℤ) + Params.main.nStakeMinAge ≤ ((nBlockTime : ℕ) : ℤ) := by decide
  refine ⟨?_, by decide +kernel, ?_, by decide +kernel, ?_, by decide +kernel, ?_, by decide +kernel⟩
  · rw [show run nodeA = _ from hA, hoffset]
    exact map_snd_checkStakeKernelHash hage
  · exact checkProofOfStake_of_txindex_none hin rfl rfl rfl nBits nBlockTime
  · exact checkProofOfStake_of_mempool hin rfl nBits nBlockTime
  · exact checkProofOfStake_of_getTransaction_none hin (by decide +kernel) nBits nBlockTime

end XPChain
