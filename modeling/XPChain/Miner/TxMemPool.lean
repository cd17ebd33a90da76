import XPChain.Lib.Worklist
import XPChain.Lib.BigEndian
import XPChain.Lib.LittleEndian
import XPChain.Validation.CheckBlock

/-!
# Mempool entries, links and their walks

The part of `CTxMemPool` the block assembler reads: each entry's cached fields and
ancestor totals (`CTxMemPoolEntry`), the pool's `mapLinks` as a parent and a child
list per entry, and the order of its `ancestor_score` index.  An iterator `txiter` is
a position of `mapTx`, so the iterators of a pool of `n` entries are `Fin n`.

`CTxMemPool::CalculateMemPoolAncestors` (with `fSearchForParents = false` and no
limits, as the miner calls it) and `CTxMemPool::CalculateDescendants` are both the
staged walk of `Worklist`, with the stage a `setEntries` ordered by
`CompareIteratorByHash`: the first finds the strict ancestors, the second the
descendants and the entry itself.  `txid` is unique in `mapTx`, so a set of
iterators ordered by hash is a set of iterators, which is how `setEntries` is
modelled.

## Main definitions

* `CTxMemPoolEntry`, `CTxMemPool` — entries, links and the `ancestor_score` order.
* `CalculateMemPoolAncestors`, `CalculateDescendants` — the two walks.
* `CTxMemPool.Consistent` — the links and ancestor counts `CTxMemPool::check` asserts.

## Main statements

* `mem_CalculateMemPoolAncestors`, `mem_CalculateDescendants` — what the walks find.
* `Consistent.count_lt_of_parent` — a parent has fewer ancestors than its child, the
  fact `SortForBlock` rests on.
-/

set_option autoImplicit false

namespace XPChain

open BigEndian LittleEndian

/-- `uint256::operator<` compares with `memcmp` the 32 stored bytes, least significant
first; for byte strings of one length that is the order of their big-endian values. -/
def uint256CompareKey (h : uint256) : ℕ := beValue (leBytes 32 h)

/-- `GetVirtualTransactionSize(nWeight, nSigOpCost)`, with the policy global
`nBytesPerSigOp`. -/
def GetVirtualTransactionSize (nBytesPerSigOp nWeight : ℕ) (nSigOpCost : ℤ) : ℕ :=
  ((max (nWeight : ℤ) (nSigOpCost * nBytesPerSigOp) + WITNESS_SCALE_FACTOR - 1) /
    WITNESS_SCALE_FACTOR).toNat

/-- `CTxMemPoolEntry`, with the fields the block assembler reads. -/
structure CTxMemPoolEntry where
  tx : CTransaction
  nFee : CAmount
  nTxWeight : ℕ
  sigOpCost : ℤ
  feeDelta : CAmount
  nCountWithAncestors : ℕ
  nSizeWithAncestors : ℕ
  nModFeesWithAncestors : CAmount
  nSigOpCostWithAncestors : ℤ
  deriving DecidableEq, Repr

namespace CTxMemPoolEntry

/-- `CTxMemPoolEntry::GetModifiedFee`: the fee with its `prioritisetransaction` delta. -/
def GetModifiedFee (e : CTxMemPoolEntry) : CAmount := e.nFee + e.feeDelta

/-- `CTxMemPoolEntry::GetTxSize`. -/
def GetTxSize (nBytesPerSigOp : ℕ) (e : CTxMemPoolEntry) : ℕ :=
  GetVirtualTransactionSize nBytesPerSigOp e.nTxWeight e.sigOpCost

end CTxMemPoolEntry

/-- `CTxMemPool`, as the block assembler reads it. -/
structure CTxMemPool (n : ℕ) where
  mapTx : Fin n → CTxMemPoolEntry
  /-- `mapTx.get<ancestor_score>()` from `begin()` to `end()`. -/
  ancestorScore : List (Fin n)
  /-- `GetMemPoolParents`: `mapLinks[it].parents`. -/
  parents : Fin n → List (Fin n)
  /-- `GetMemPoolChildren`: `mapLinks[it].children`. -/
  children : Fin n → List (Fin n)

variable {n : ℕ} (GetHash : CTransaction → uint256) (mp : CTxMemPool n)

/-- `CTxMemPool::CompareIteratorByHash`, the order of every `setEntries`. -/
def CompareIteratorByHash (a b : Fin n) : Prop :=
  uint256CompareKey (GetHash (mp.mapTx a).tx) < uint256CompareKey (GetHash (mp.mapTx b).tx)

instance : DecidableRel (CompareIteratorByHash GetHash mp) :=
  fun _ _ => inferInstanceAs (Decidable (_ < _))

/-- `CTxMemPool::CalculateMemPoolAncestors(entry, setAncestors, nNoLimit, ..., false)`:
the walk up the parents, staged from `GetMemPoolParents(it)`.  With every limit at the
`uint64_t` maximum no limit check fails, so the result is the set alone; one round
per entry is enough (`mem_CalculateMemPoolAncestors`). -/
def CalculateMemPoolAncestors (it : Fin n) : List (Fin n) :=
  Worklist.closure (CompareIteratorByHash GetHash mp) mp.parents n (mp.parents it)

/-- `CTxMemPool::CalculateDescendants(entryit, setDescendants)` from an empty
`setDescendants`, as `UpdatePackagesForAdded` calls it. -/
def CalculateDescendants (it : Fin n) : List (Fin n) :=
  Worklist.closure (CompareIteratorByHash GetHash mp) mp.children n [it]

namespace CTxMemPool

/-- `a` is a strict ancestor of `it`: reached by one or more parent links. -/
def IsAncestor (it a : Fin n) : Prop :=
  Relation.TransGen (fun c p => p ∈ mp.parents c) it a

end CTxMemPool

theorem mem_CalculateMemPoolAncestors {it a : Fin n} :
    a ∈ CalculateMemPoolAncestors GetHash mp it ↔ mp.IsAncestor it a := by
  rw [CalculateMemPoolAncestors, Worklist.mem_closure_iff _ _ (by simp), Worklist.Reaches,
    CTxMemPool.IsAncestor, Relation.TransGen.head'_iff]

theorem mem_CalculateDescendants {it d : Fin n} :
    d ∈ CalculateDescendants GetHash mp it ↔
      Relation.ReflTransGen (fun p c => c ∈ mp.children p) it d := by
  rw [CalculateDescendants, Worklist.mem_closure_iff _ _ (by simp), Worklist.Reaches]
  simp

theorem nodup_CalculateMemPoolAncestors (it : Fin n) :
    (CalculateMemPoolAncestors GetHash mp it).Nodup :=
  Worklist.nodup_closure _ _ _ _

namespace CTxMemPool

/-- What `CTxMemPool::check` asserts of the links and of each entry's ancestor count,
as far as the block assembler relies on it: a child lists its parent, and an entry
counts itself and the set `CalculateMemPoolAncestors` finds.  No entry is its own
ancestor: a transaction's hash commits to the outputs it spends. -/
structure Consistent (GetHash : CTransaction → uint256) (mp : CTxMemPool n) : Prop where
  parent_of_child : ∀ p c, c ∈ mp.children p → p ∈ mp.parents c
  count_eq : ∀ it, (mp.mapTx it).nCountWithAncestors =
    (CalculateMemPoolAncestors GetHash mp it).length + 1
  acyclic : ∀ it, ¬ mp.IsAncestor it it

variable {GetHash mp}

theorem IsAncestor.of_parent {c p : Fin n} (h : p ∈ mp.parents c) : mp.IsAncestor c p :=
  .single h

/-- An ancestor of a parent is an ancestor. -/
theorem IsAncestor.of_parent_trans {c p a : Fin n} (h : p ∈ mp.parents c)
    (ha : mp.IsAncestor p a) : mp.IsAncestor c a :=
  Relation.TransGen.head h ha

/-- A parent, and every ancestor of it, has fewer ancestors than the child, so sorting
a package by ancestor count puts parents first. -/
theorem Consistent.count_lt_of_parent (hmp : mp.Consistent GetHash) {c p : Fin n}
    (h : p ∈ mp.parents c) :
    (mp.mapTx p).nCountWithAncestors < (mp.mapTx c).nCountWithAncestors := by
  rw [hmp.count_eq, hmp.count_eq]
  -- the ancestors of `p`, and `p` itself, are among the ancestors of `c`
  have hsub : insert p (CalculateMemPoolAncestors GetHash mp p).toFinset ⊆
      (CalculateMemPoolAncestors GetHash mp c).toFinset := by
    intro a ha
    simp only [Finset.mem_insert, List.mem_toFinset, mem_CalculateMemPoolAncestors] at ha ⊢
    rcases ha with rfl | ha
    · exact IsAncestor.of_parent h
    · exact ha.of_parent_trans h
  have hp : p ∉ (CalculateMemPoolAncestors GetHash mp p).toFinset := by
    simpa [mem_CalculateMemPoolAncestors] using hmp.acyclic p
  have hcard := Finset.card_le_card hsub
  rw [Finset.card_insert_of_notMem hp, List.toFinset_card_of_nodup
    (nodup_CalculateMemPoolAncestors GetHash mp p), List.toFinset_card_of_nodup
    (nodup_CalculateMemPoolAncestors GetHash mp c)] at hcard
  omega

/-- A child's descendant walk stays among its descendants, read back through the
parent links. -/
theorem Consistent.isAncestor_of_mem_CalculateDescendants (hmp : mp.Consistent GetHash)
    {it d : Fin n} (hd : d ∈ CalculateDescendants GetHash mp it) (hne : d ≠ it) :
    mp.IsAncestor d it := by
  rw [mem_CalculateDescendants] at hd
  induction hd with
  | refl => exact absurd rfl hne
  | @tail b c _ hbc ih =>
    by_cases hb : b = it
    · subst hb
      exact IsAncestor.of_parent (hmp.parent_of_child _ _ hbc)
    · exact (ih hb).of_parent_trans (hmp.parent_of_child _ _ hbc)

end CTxMemPool

end XPChain
