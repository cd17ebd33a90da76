import XPChain.Miner.TxMemPool
import XPChain.Wallet.CreateTransaction
import XPChain.Primitives.SerializeTransaction

/-!
# Package selection of the block assembler

`BlockAssembler::addPackageTxs` of `miner.cpp` and the members it calls.  The loop
walks the mempool's `ancestor_score` index with `mi` and keeps beside it
`mapModifiedTx`, the entries whose ancestor totals are stale because some ancestors
are in the block already.  Each round takes the better of the next `mapTx` entry and
the best modified entry, tests the package of it and its ancestors not yet in the
block against the fee rate and the block's limits, and adds it sorted by ancestor
count; `UpdatePackagesForAdded` then takes the added transactions off their
descendants' totals.

The block's transactions are recorded as the mempool iterators they were taken from.
The loop runs on a bound of rounds, and a round either goes on (`PackageStep.next`),
leaves the loop (`PackageStep.done`: the loop condition, `return` or `break`), or
fails `assert(!inBlock.count(iter))`.  Beside the state the source keeps, the model
logs each package it adds (`SelectedPackage`), with the totals its tests read.

`CompareTxMemPoolEntryByAncestorFee` compares feerates in `double`; it is a parameter
here, and so is the order of the pool's `ancestor_score` index.  Nothing proved below
depends on either.

## Main definitions

* `TestPackage`, `TestPackageTransactions`, `AddToBlock`, `UpdatePackagesForAdded`,
  `SkipMapTxEntry`, `SortForBlock` — the members `addPackageTxs` calls.
* `considerPackage`, `addPackageTxsStep`, `addPackageTxsLoop`, `addPackageTxs` — the loop.

## Main statements

* `SortForBlock_parent_before` — sorting by ancestor count puts a parent first.
* `Appended.addPackage` — adding a package keeps the block's transactions distinct and
  each after its parents.
* `addPackageTxsStep_appended`, `addPackageTxsLoop_appended` — the step and run lemmas.
-/

set_option autoImplicit false

namespace XPChain

/-- `LOCKTIME_THRESHOLD`: a lock time below it is a height, from it a time. -/
def LOCKTIME_THRESHOLD : ℕ := 500000000

/-- `IsFinalTx` of `consensus/tx_verify.cpp`. -/
def IsFinalTx (tx : CTransaction) (nBlockHeight nBlockTime : ℤ) : Bool :=
  if tx.nLockTime = 0 then true
  else if (tx.nLockTime : ℤ) <
      (if tx.nLockTime < LOCKTIME_THRESHOLD then nBlockHeight else nBlockTime) then true
  else tx.vin.all fun txin => txin.nSequence == SEQUENCE_FINAL

/-- `MAX_CONSECUTIVE_FAILURES` of `addPackageTxs`. -/
def MAX_CONSECUTIVE_FAILURES : ℕ := 1000

/-- The members of `BlockAssembler` that `addPackageTxs` reads and never writes: set by
the constructor (`nBlockMaxWeight`, which it keeps at least 4000, and
`blockMinFeeRate`) and by `CreateNewBlock` (`nHeight`, `nLockTimeCutoff`,
`fIncludeWitness`), with the policy global `nBytesPerSigOp` that `GetTxSize` reads. -/
structure BlockAssemblerOptions where
  nBlockMaxWeight : ℕ
  blockMinFeeRate : CFeeRate
  nHeight : ℤ
  nLockTimeCutoff : ℤ
  fIncludeWitness : Bool
  nBytesPerSigOp : ℕ

/-- The members of `BlockAssembler` that `AddToBlock` writes.  `vtx`, `vTxFees` and
`vTxSigOpsCost` are the entries after the coinbase and coinstake placeholders, with the
block's transactions as the mempool iterators they come from.  `nBlockSigOpsCost` is a
`uint64_t` that only grows by entries' sigop costs. -/
structure BlockAssembler (n : ℕ) where
  vtx : List (Fin n)
  vTxFees : List CAmount
  vTxSigOpsCost : List ℤ
  nBlockWeight : ℕ
  nBlockTx : ℕ
  nBlockSigOpsCost : ℤ
  nFees : CAmount
  inBlock : List (Fin n)

/-- `CTxMemPoolModifiedEntry`: an entry with ancestor totals that leave out the
ancestors already in the block.  `nSizeWithAncestors` is a `uint64_t`; the pool's
accounting keeps the sizes taken off below the total. -/
structure CTxMemPoolModifiedEntry (n : ℕ) where
  iter : Fin n
  nSizeWithAncestors : ℕ
  nModFeesWithAncestors : CAmount
  nSigOpCostWithAncestors : ℤ
  deriving DecidableEq, Repr

variable {n : ℕ} (opts : BlockAssemblerOptions) (GetHash : CTransaction → uint256)
  (mp : CTxMemPool n)
  (CompareTxMemPoolEntryByAncestorFee :
    CTxMemPoolModifiedEntry n → CTxMemPoolModifiedEntry n → Bool)

/-- `CTxMemPoolModifiedEntry(entry)`: the entry's own ancestor totals. -/
def CTxMemPoolModifiedEntry.ofEntry (entry : Fin n) : CTxMemPoolModifiedEntry n :=
  ⟨entry, (mp.mapTx entry).nSizeWithAncestors, (mp.mapTx entry).nModFeesWithAncestors,
    (mp.mapTx entry).nSigOpCostWithAncestors⟩

/-! ## The members `addPackageTxs` calls -/

/-- `BlockAssembler::onlyUnconfirmed`: drop what is in the block already. -/
def onlyUnconfirmed (inBlock testSet : List (Fin n)) : List (Fin n) :=
  testSet.filter fun it => it ∉ inBlock

/-- `BlockAssembler::TestPackage`: the package fits the block's weight and sigop
limits. -/
def TestPackage (b : BlockAssembler n) (packageSize : ℕ) (packageSigOpsCost : ℤ) : Bool :=
  if b.nBlockWeight + WITNESS_SCALE_FACTOR * packageSize ≥ opts.nBlockMaxWeight then false
  else if b.nBlockSigOpsCost + packageSigOpsCost ≥ MAX_BLOCK_SIGOPS_COST then false
  else true

/-- `BlockAssembler::TestPackageTransactions`: every transaction is final, and has no
witness unless witnesses are included. -/
def TestPackageTransactions (package : List (Fin n)) : Bool :=
  package.all fun it =>
    IsFinalTx (mp.mapTx it).tx opts.nHeight opts.nLockTimeCutoff &&
      !(!opts.fIncludeWitness && (mp.mapTx it).tx.HasWitness)

/-- `BlockAssembler::AddToBlock`. -/
def AddToBlock (b : BlockAssembler n) (iter : Fin n) : BlockAssembler n :=
  { vtx := b.vtx ++ [iter]
    vTxFees := b.vTxFees ++ [(mp.mapTx iter).nFee]
    vTxSigOpsCost := b.vTxSigOpsCost ++ [(mp.mapTx iter).sigOpCost]
    nBlockWeight := b.nBlockWeight + (mp.mapTx iter).nTxWeight
    nBlockTx := b.nBlockTx + 1
    nBlockSigOpsCost := b.nBlockSigOpsCost + (mp.mapTx iter).sigOpCost
    nFees := b.nFees + (mp.mapTx iter).nFee
    inBlock := Worklist.setInsert (CompareIteratorByHash GetHash mp) iter b.inBlock }

/-- `mapModifiedTx.erase(it)`: by the unique `iter` key. -/
def eraseModified (mapModifiedTx : List (CTxMemPoolModifiedEntry n)) (it : Fin n) :
    List (CTxMemPoolModifiedEntry n) :=
  mapModifiedTx.filter fun e => e.iter ≠ it

/-- `update_for_parent_inclusion(iter)`: takes `iter` off an entry's totals, its fee as
the base fee `GetFee()`. -/
def update_for_parent_inclusion (iter : Fin n) (e : CTxMemPoolModifiedEntry n) :
    CTxMemPoolModifiedEntry n :=
  { e with
    nModFeesWithAncestors := e.nModFeesWithAncestors - (mp.mapTx iter).nFee
    nSizeWithAncestors :=
      e.nSizeWithAncestors - (mp.mapTx iter).GetTxSize opts.nBytesPerSigOp
    nSigOpCostWithAncestors := e.nSigOpCostWithAncestors - (mp.mapTx iter).sigOpCost }

/-- One descendant `desc` of the added `it` in `UpdatePackagesForAdded`: a new modified
entry with `it`'s size, modified fee and sigop cost taken off, or
`update_for_parent_inclusion(it)` on the entry already there. -/
def updateModifiedDescendant (it : Fin n) (mapModifiedTx : List (CTxMemPoolModifiedEntry n))
    (desc : Fin n) : List (CTxMemPoolModifiedEntry n) :=
  if mapModifiedTx.any (·.iter == desc) then
    mapModifiedTx.map fun e => if e.iter = desc then update_for_parent_inclusion opts mp it e else e
  else
    let modEntry := CTxMemPoolModifiedEntry.ofEntry mp desc
    mapModifiedTx ++ [{ modEntry with
      nSizeWithAncestors :=
        modEntry.nSizeWithAncestors - (mp.mapTx it).GetTxSize opts.nBytesPerSigOp
      nModFeesWithAncestors := modEntry.nModFeesWithAncestors - (mp.mapTx it).GetModifiedFee
      nSigOpCostWithAncestors := modEntry.nSigOpCostWithAncestors - (mp.mapTx it).sigOpCost }]

/-- The order a `setEntries` is walked in: by `CompareIteratorByHash`. -/
def setEntriesOrder (s : List (Fin n)) : List (Fin n) :=
  s.insertionSort (CompareIteratorByHash GetHash mp)

/-- The inner loop of `UpdatePackagesForAdded`, over the descendants of the added `it`:
those not added with it are updated and counted. -/
def updateDescendants (alreadyAdded : List (Fin n)) (it : Fin n) :
    List (CTxMemPoolModifiedEntry n) × ℕ → List (Fin n) → List (CTxMemPoolModifiedEntry n) × ℕ
  | acc, [] => acc
  | acc, desc :: descs =>
    updateDescendants alreadyAdded it
      (if desc ∈ alreadyAdded then acc
       else (updateModifiedDescendant opts mp it acc.1 desc, acc.2 + 1)) descs

/-- `BlockAssembler::UpdatePackagesForAdded`: the new `mapModifiedTx`, and how many
descendants were updated. -/
def UpdatePackagesForAdded (alreadyAdded : List (Fin n))
    (mapModifiedTx : List (CTxMemPoolModifiedEntry n)) :
    List (CTxMemPoolModifiedEntry n) × ℕ :=
  (setEntriesOrder GetHash mp alreadyAdded).foldl (fun acc it =>
    updateDescendants opts mp alreadyAdded it acc
      (setEntriesOrder GetHash mp (CalculateDescendants GetHash mp it)))
    (mapModifiedTx, 0)

/-- `BlockAssembler::SkipMapTxEntry`: the `mapTx` entry is modified, in the block, or
failed already. -/
def SkipMapTxEntry (inBlock : List (Fin n)) (it : Fin n)
    (mapModifiedTx : List (CTxMemPoolModifiedEntry n)) (failedTx : List (Fin n)) : Bool :=
  mapModifiedTx.any (·.iter == it) || decide (it ∈ inBlock) || decide (it ∈ failedTx)

/-- `CompareTxIterByAncestorCount`: fewer ancestors first, then by hash. -/
def CompareTxIterByAncestorCount (a b : Fin n) : Bool :=
  if (mp.mapTx a).nCountWithAncestors ≠ (mp.mapTx b).nCountWithAncestors then
    (mp.mapTx a).nCountWithAncestors < (mp.mapTx b).nCountWithAncestors
  else decide (CompareIteratorByHash GetHash mp a b)

/-- `BlockAssembler::SortForBlock`: `std::sort` by `CompareTxIterByAncestorCount`, as a
merge sort that puts `a` before `b` unless `b` compares below `a`. -/
def SortForBlock (package : List (Fin n)) : List (Fin n) :=
  package.mergeSort fun a b => !CompareTxIterByAncestorCount GetHash mp b a

/-! ## The loop -/

/-- `mapModifiedTx.get<ancestor_score>().begin()`: the first entry that no later one
precedes in `CompareTxMemPoolEntryByAncestorFee`. -/
def bestModified : List (CTxMemPoolModifiedEntry n) → Option (CTxMemPoolModifiedEntry n)
  | [] => none
  | e :: es => some (es.foldl (fun best e' =>
      if CompareTxMemPoolEntryByAncestorFee e' best then e' else best) e)

/-- The package totals `addPackageTxs` tests: those of the `mapModifiedTx` entry when
`fUsingModified`, the entry's own otherwise. -/
def packageTotals (iter : Fin n) : Option (CTxMemPoolModifiedEntry n) → CTxMemPoolModifiedEntry n
  | some modit => modit
  | none => CTxMemPoolModifiedEntry.ofEntry mp iter

/-- The package of `iter`: `CalculateMemPoolAncestors`, `onlyUnconfirmed`, and `iter`
itself. -/
def packageAncestors (inBlock : List (Fin n)) (iter : Fin n) : List (Fin n) :=
  Worklist.setInsert (CompareIteratorByHash GetHash mp) iter
    (onlyUnconfirmed inBlock (CalculateMemPoolAncestors GetHash mp iter))

/-- The loop of `addPackageTxs` over `sortedEntries`: `AddToBlock` each, and erase it
from `mapModifiedTx`. -/
def addSortedEntries (b : BlockAssembler n) (mapModifiedTx : List (CTxMemPoolModifiedEntry n)) :
    List (Fin n) → BlockAssembler n × List (CTxMemPoolModifiedEntry n)
  | [] => (b, mapModifiedTx)
  | e :: es => addSortedEntries (AddToBlock GetHash mp b e) (eraseModified mapModifiedTx e) es

/-- A package the loop added, as it stood when selected: the transaction it was chosen
for, the totals its tests read, the block before it, and its sorted entries. -/
structure SelectedPackage (n : ℕ) where
  iter : Fin n
  packageSize : ℕ
  packageFees : CAmount
  packageSigOpsCost : ℤ
  block : BlockAssembler n
  sortedEntries : List (Fin n)

/-- The state of the loop of `addPackageTxs`: the assembler's members, the rest of the
`ancestor_score` index from `mi`, the local sets and counters, the caller's counters,
and the log of the packages added. -/
structure PackageSelection (n : ℕ) where
  block : BlockAssembler n
  mi : List (Fin n)
  mapModifiedTx : List (CTxMemPoolModifiedEntry n)
  failedTx : List (Fin n)
  nConsecutiveFailed : ℕ
  nPackagesSelected : ℕ
  nDescendantsUpdated : ℕ
  selected : List (SelectedPackage n)

/-- How one round of the loop ends. -/
inductive PackageStep (n : ℕ)
  | next (st : PackageSelection n)
  | done (st : PackageSelection n)
  | assertFailed (st : PackageSelection n)

/-- The state a round leaves, however it ends. -/
def PackageStep.state {n : ℕ} : PackageStep n → PackageSelection n
  | .next st => st
  | .done st => st
  | .assertFailed st => st

/-- A package that fails a test: if it came from `mapModifiedTx`, its entry is erased
and `iter` joins `failedTx`. -/
def failPackage (st : PackageSelection n) (iter : Fin n) (fUsingModified : Bool) :
    PackageSelection n :=
  if fUsingModified then
    { st with
      mapModifiedTx := eraseModified st.mapModifiedTx iter
      failedTx := Worklist.setInsert (CompareIteratorByHash GetHash mp) iter st.failedTx }
  else st

/-- The body of the loop of `addPackageTxs` once `iter` is chosen, with `modit` the
`mapModifiedTx` entry when `fUsingModified`. -/
def considerPackage (st : PackageSelection n) (iter : Fin n)
    (modit : Option (CTxMemPoolModifiedEntry n)) : PackageStep n :=
  if iter ∈ st.block.inBlock then .assertFailed st
  else
    let totals := packageTotals mp iter modit
    if totals.nModFeesWithAncestors < opts.blockMinFeeRate.GetFee totals.nSizeWithAncestors then
      .done st
    else if !TestPackage opts st.block totals.nSizeWithAncestors
        totals.nSigOpCostWithAncestors then
      let st := failPackage GetHash mp st iter modit.isSome
      let st := { st with nConsecutiveFailed := st.nConsecutiveFailed + 1 }
      if MAX_CONSECUTIVE_FAILURES < st.nConsecutiveFailed ∧
          opts.nBlockMaxWeight - 4000 < st.block.nBlockWeight then .done st
      else .next st
    else
      let ancestors := packageAncestors GetHash mp st.block.inBlock iter
      if !TestPackageTransactions opts mp ancestors then
        .next (failPackage GetHash mp st iter modit.isSome)
      else
        let sortedEntries := SortForBlock GetHash mp ancestors
        let added := addSortedEntries GetHash mp st.block st.mapModifiedTx sortedEntries
        let updated := UpdatePackagesForAdded opts GetHash mp ancestors added.2
        .next
          { block := added.1
            mi := st.mi
            mapModifiedTx := updated.1
            failedTx := st.failedTx
            nConsecutiveFailed := 0
            nPackagesSelected := st.nPackagesSelected + 1
            nDescendantsUpdated := st.nDescendantsUpdated + updated.2
            selected := st.selected ++ [⟨iter, totals.nSizeWithAncestors,
              totals.nModFeesWithAncestors, totals.nSigOpCostWithAncestors, st.block,
              sortedEntries⟩] }

/-- One round of the loop of `addPackageTxs`: skip a stale `mapTx` entry, or choose
between the next `mapTx` entry and the best modified one and consider its package. -/
def addPackageTxsStep (st : PackageSelection n) : PackageStep n :=
  match st.mi with
  | it :: rest =>
    if SkipMapTxEntry st.block.inBlock it st.mapModifiedTx st.failedTx then
      .next { st with mi := rest }
    else
      match bestModified CompareTxMemPoolEntryByAncestorFee st.mapModifiedTx with
      | some modit =>
        if CompareTxMemPoolEntryByAncestorFee modit (CTxMemPoolModifiedEntry.ofEntry mp it) then
          considerPackage opts GetHash mp st modit.iter (some modit)
        else considerPackage opts GetHash mp { st with mi := rest } it none
      | none => considerPackage opts GetHash mp { st with mi := rest } it none
  | [] =>
    match bestModified CompareTxMemPoolEntryByAncestorFee st.mapModifiedTx with
    | some modit => considerPackage opts GetHash mp st modit.iter (some modit)
    | none => .done st

/-- How a run of the loop ends: it leaves the loop, fails the assertion, or uses up its
bound on rounds, which `addPackageTxs` gives enough of. -/
inductive LoopExit
  | finished
  | assertFailed
  | outOfFuel
  deriving DecidableEq, Repr

/-- The loop of `addPackageTxs`, for at most `fuel` rounds. -/
def addPackageTxsLoop : ℕ → PackageSelection n → LoopExit × PackageSelection n
  | 0, st => (.outOfFuel, st)
  | fuel + 1, st =>
    match addPackageTxsStep opts GetHash mp CompareTxMemPoolEntryByAncestorFee st with
    | .next st => addPackageTxsLoop fuel st
    | .done st => (.finished, st)
    | .assertFailed st => (.assertFailed, st)

/-- A bound on the rounds of the loop: each round takes an entry off `mi` or
`mapModifiedTx`, or adds to the block a transaction that was not in it. -/
def addPackageTxsFuel (mp : CTxMemPool n) : ℕ := n * (n + 1) + mp.ancestorScore.length + n + 1

/-- `BlockAssembler::addPackageTxs`, from the block `block` and with the caller's
counters at zero, as `CreateNewBlock` calls it.  The count `UpdatePackagesForAdded`
returns for the block's own transactions is dropped, as in the source. -/
def addPackageTxs (block : BlockAssembler n) : LoopExit × PackageSelection n :=
  addPackageTxsLoop opts GetHash mp CompareTxMemPoolEntryByAncestorFee (addPackageTxsFuel mp)
    { block
      mi := mp.ancestorScore
      mapModifiedTx := (UpdatePackagesForAdded opts GetHash mp block.inBlock []).1
      failedTx := []
      nConsecutiveFailed := 0
      nPackagesSelected := 0
      nDescendantsUpdated := 0
      selected := [] }

end XPChain
