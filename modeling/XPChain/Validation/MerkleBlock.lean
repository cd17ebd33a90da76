import XPChain.Validation.Merkle
import XPChain.Lib.BitPack

/-!
# Partial merkle trees

`CPartialMerkleTree` of `merkleblock.cpp` proves that some transactions are
in a block without sending the others.  `TraverseAndBuild` walks the merkle
tree depth first from the root: it stores one bit per node it visits, whether
a matched leaf is below it, and stops at a leaf or at a node with nothing
matched below, where it stores the node's hash (`CalcHash`).  The receiver's
`TraverseAndExtract` walks the same way, reading bits and hashes where the
builder wrote them, and computes the root; `ExtractMatches` checks that every
bit and hash was used.  On the wire the bits are packed eight to a byte.

The node hash `Hash(left, right)` is the parameter `Hash64`, as in
`ComputeMerkleRoot`.  The width of the tree at each height is
`CalcTreeWidth`, the number of nodes at that height, so that a right child
past the end of a level is missing and its parent hashes the left child with
itself, as `ComputeMerkleRoot` does.

A node is named by its height and position; `leavesBelow` is the range of
leaves under it, which is what the builder's loop scans.  The top-down
`CalcHash` gives the level `h + 1` from the level `h` as one pass of
`ComputeMerkleRoot`, so the two roots agree (`CalcHash_root`).

## Main definitions

* `CPartialMerkleTree.CalcTreeWidth`, `CalcHash`, `TraverseAndBuild`,
  `TraverseAndExtract`, `ExtractMatches`.
* `CPartialMerkleTree.ofTxids` — the constructor from `vTxid` and `vMatch`.
* `CPartialMerkleTree.serialize`, `CPartialMerkleTree.unserialize` — the
  bit packing of `SerializationOp`.

## Main statements

* `CalcHash_root` — the root of `CalcHash` is that of `ComputeMerkleRoot`.
* `TraverseAndExtract_TraverseAndBuild` — the receiver's walk over what the
  builder wrote returns every node's hash and the matched leaves below it.
* `TraverseAndExtract_sound` — whatever it is given, a walk that returns the
  true hash of a node has extracted true leaves of that node.
* `ExtractMatches_ofTxids` — the round trip through the wire: the root and
  exactly the matched transactions, with a node hash without collisions.
* `ExtractMatches_sound` — a proof that yields the block's root yields
  transactions of the block at their positions.
-/

set_option autoImplicit false

namespace XPChain

/-- `MIN_TRANSACTION_WEIGHT`: 60 bytes, the least size of a serialized
transaction, at witness scale. -/
def MIN_TRANSACTION_WEIGHT : ℕ := WITNESS_SCALE_FACTOR * 60

/-- `CPartialMerkleTree`: the number of transactions of the block, the flag
bits and hashes of the nodes in depth-first order, and `fBad`, set on invalid
data. -/
structure CPartialMerkleTree where
  nTransactions : ℕ
  vBits : List Bool
  vHash : List uint256
  fBad : Bool
  deriving DecidableEq, Repr

/-- The fields `SerializationOp` writes: `nTransactions`, `vHash`, and the
flag bits packed into the bytes `vBytes`. -/
structure SerializedPartialMerkleTree where
  nTransactions : ℕ
  vHash : List uint256
  vBytes : List UInt8
  deriving DecidableEq, Repr

/-- The reference arguments of `TraverseAndExtract` (`nBitsUsed`,
`nHashUsed`, the matched hashes `vMatch` and their positions `vnIndex`) and
the member `fBad` it sets. -/
structure ExtractState where
  nBitsUsed : ℕ
  nHashUsed : ℕ
  vMatch : List uint256
  vnIndex : List ℕ
  fBad : Bool
  deriving DecidableEq, Repr

namespace CPartialMerkleTree

section Defs

variable (Hash64 : uint256 → uint256 → uint256) (nTransactions : ℕ)

/-- `CalcTreeWidth(height)`: the number of nodes at `height`. -/
def CalcTreeWidth (height : ℕ) : ℕ :=
  (nTransactions + (1 <<< height) - 1) >>> height

/-- The leaves below the node `pos` at `height`: the loop of
`TraverseAndBuild` runs from `pos << height` while `p < (pos + 1) << height`
and `p < nTransactions`. -/
def leavesBelow (height pos : ℕ) : List ℕ :=
  List.range' (pos <<< height) (min ((pos + 1) <<< height) nTransactions - pos <<< height)

/-- The loop `while (CalcTreeWidth(nHeight) > 1) nHeight++`, from `height`,
for at most `fuel` passes. -/
def treeHeightFrom : ℕ → ℕ → ℕ
  | 0, height => height
  | fuel + 1, height =>
    if 1 < CalcTreeWidth nTransactions height then treeHeightFrom fuel (height + 1) else height

/-- The height of the tree, as the constructor and `ExtractMatches` compute
it; `nTransactions` passes are enough (`treeHeight_eq_clog`). -/
def treeHeight : ℕ := treeHeightFrom nTransactions nTransactions 0

variable (vTxid : List uint256)

/-- `CalcHash(height, pos, vTxid)`: the hash of a node, the right child
replaced by the left one past the end of its level. -/
def CalcHash : ℕ → ℕ → uint256
  | 0, pos => vTxid.getD pos 0
  | height + 1, pos =>
    let left := CalcHash height (pos * 2)
    let right := if pos * 2 + 1 < CalcTreeWidth nTransactions height then CalcHash height (pos * 2 + 1) else left
    Hash64 left right

variable (vMatch : List Bool)

/-- `TraverseAndBuild(height, pos, vTxid, vMatch)`: the bits and the hashes it
appends to `vBits` and `vHash`. -/
def TraverseAndBuild : ℕ → ℕ → List Bool × List uint256
  | 0, pos =>
    ([(leavesBelow nTransactions 0 pos).any fun p => vMatch.getD p false], [CalcHash Hash64 nTransactions vTxid 0 pos])
  | height + 1, pos =>
    let fParentOfMatch := (leavesBelow nTransactions (height + 1) pos).any fun p => vMatch.getD p false
    if fParentOfMatch then
      let left := TraverseAndBuild height (pos * 2)
      let right :=
        if pos * 2 + 1 < CalcTreeWidth nTransactions height then TraverseAndBuild height (pos * 2 + 1) else ([], [])
      (true :: (left.1 ++ right.1), left.2 ++ right.2)
    else ([false], [CalcHash Hash64 nTransactions vTxid (height + 1) pos])

end Defs

/-- `CPartialMerkleTree(vTxid, vMatch)`; `none` for an empty `vTxid`, where
the assertion of `CalcHash` fails. -/
def ofTxids (Hash64 : uint256 → uint256 → uint256) (vTxid : List uint256) (vMatch : List Bool) :
    Option CPartialMerkleTree :=
  if vTxid = [] then none
  else
    let (vBits, vHash) := TraverseAndBuild Hash64 vTxid.length vTxid vMatch (treeHeight vTxid.length) 0
    some ⟨vTxid.length, vBits, vHash, false⟩

section Extract

variable (Hash64 : uint256 → uint256 → uint256) (nTransactions : ℕ) (vBits : List Bool)
  (vHash : List uint256)

/-- The branch of `TraverseAndExtract` that uses the next stored hash, at
height 0 or where nothing below is matched; a matched leaf is recorded. -/
def useHash (height pos : ℕ) (fParentOfMatch : Bool) (s : ExtractState) : uint256 × ExtractState :=
  if vHash.length ≤ s.nHashUsed then (0, { s with fBad := true })
  else
    let hash := vHash.getD s.nHashUsed 0
    let s := { s with nHashUsed := s.nHashUsed + 1 }
    if height = 0 ∧ fParentOfMatch = true then
      (hash, { s with vMatch := s.vMatch ++ [hash], vnIndex := s.vnIndex ++ [pos] })
    else (hash, s)

/-- `TraverseAndExtract(height, pos, nBitsUsed, nHashUsed, vMatch, vnIndex)`:
the hash of the node and the state after it.  A walk past the end of the bits
or of the hashes sets `fBad` and returns zero; so does nothing else, except
that two equal children set `fBad` too. -/
def TraverseAndExtract : ℕ → ℕ → ExtractState → uint256 × ExtractState
  | 0, pos, s =>
    if vBits.length ≤ s.nBitsUsed then (0, { s with fBad := true })
    else useHash vHash 0 pos (vBits.getD s.nBitsUsed false) { s with nBitsUsed := s.nBitsUsed + 1 }
  | height + 1, pos, s =>
    if vBits.length ≤ s.nBitsUsed then (0, { s with fBad := true })
    else
      let fParentOfMatch := vBits.getD s.nBitsUsed false
      let s := { s with nBitsUsed := s.nBitsUsed + 1 }
      if fParentOfMatch then
        let (left, s) := TraverseAndExtract height (pos * 2) s
        if pos * 2 + 1 < CalcTreeWidth nTransactions height then
          let (right, s) := TraverseAndExtract height (pos * 2 + 1) s
          -- the two children of a node cover different transactions
          (Hash64 left right, if right == left then { s with fBad := true } else s)
        else (Hash64 left left, s)
      else useHash vHash (height + 1) pos false s

end Extract

/-- `ExtractMatches(vMatch, vnIndex)`: the merkle root, or zero on failure,
with the matched hashes and their positions.  `vMatch` is cleared first and
`vnIndex` is not: the positions are appended to what the caller passes. -/
def ExtractMatches (Hash64 : uint256 → uint256 → uint256) (t : CPartialMerkleTree) (vnIndex : List ℕ) :
    uint256 × List uint256 × List ℕ :=
  if t.nTransactions = 0 then (0, [], vnIndex)
  else if MAX_BLOCK_WEIGHT / MIN_TRANSACTION_WEIGHT < t.nTransactions then (0, [], vnIndex)
  else if t.nTransactions < t.vHash.length then (0, [], vnIndex)
  else if t.vBits.length < t.vHash.length then (0, [], vnIndex)
  else
    let (hashMerkleRoot, s) := TraverseAndExtract Hash64 t.nTransactions t.vBits t.vHash
      (treeHeight t.nTransactions) 0 ⟨0, 0, [], vnIndex, t.fBad⟩
    if s.fBad then (0, s.vMatch, s.vnIndex)
    -- all bits used, up to the padding of the last byte
    else if (s.nBitsUsed + 7) / 8 ≠ (t.vBits.length + 7) / 8 then (0, s.vMatch, s.vnIndex)
    else if s.nHashUsed ≠ t.vHash.length then (0, s.vMatch, s.vnIndex)
    else (hashMerkleRoot, s.vMatch, s.vnIndex)

/-- `SerializationOp` writing: the bits packed eight to a byte. -/
def serialize (t : CPartialMerkleTree) : SerializedPartialMerkleTree :=
  ⟨t.nTransactions, t.vHash, BitPack.pack t.vBits⟩

/-- `SerializationOp` reading: eight bits from each byte, and `fBad`
cleared. -/
def unserialize (d : SerializedPartialMerkleTree) : CPartialMerkleTree :=
  ⟨d.nTransactions, BitPack.unpack d.vBytes, d.vHash, false⟩

/-! ## Widths -/

section Width

variable {n : ℕ}

theorem CalcTreeWidth_eq (n h : ℕ) : CalcTreeWidth n h = (n + 2 ^ h - 1) / 2 ^ h := by
  rw [CalcTreeWidth, Nat.shiftRight_eq_div_pow, Nat.one_shiftLeft]

@[simp] theorem CalcTreeWidth_zero (n : ℕ) : CalcTreeWidth n 0 = n := by
  simp [CalcTreeWidth_eq]

/-- A node exists at `pos` when its first leaf does. -/
theorem lt_CalcTreeWidth_iff {h pos : ℕ} : pos < CalcTreeWidth n h ↔ pos * 2 ^ h < n := by
  have hpow : 0 < 2 ^ h := Nat.two_pow_pos h
  rw [CalcTreeWidth_eq, Nat.lt_iff_add_one_le, Nat.le_div_iff_mul_le hpow, Nat.add_mul, Nat.one_mul]
  omega

/-- Each level has half the nodes of the one below, rounded up. -/
theorem CalcTreeWidth_succ (n h : ℕ) : CalcTreeWidth n (h + 1) = (CalcTreeWidth n h + 1) / 2 := by
  have hpow : 0 < 2 ^ h := Nat.two_pow_pos h
  rw [CalcTreeWidth_eq, CalcTreeWidth_eq, ← Nat.add_div_right _ hpow, Nat.div_div_eq_div_mul, ← Nat.pow_succ]
  congr 1
  rw [Nat.pow_succ]
  omega

theorem CalcTreeWidth_le_one_iff {h : ℕ} : CalcTreeWidth n h ≤ 1 ↔ n ≤ 2 ^ h := by
  rw [← Nat.not_lt, lt_CalcTreeWidth_iff, Nat.one_mul, Nat.not_lt]

/-- The left child of a node exists. -/
theorem left_lt_CalcTreeWidth {h pos : ℕ} (hpos : pos < CalcTreeWidth n (h + 1)) :
    pos * 2 < CalcTreeWidth n h := by
  rw [lt_CalcTreeWidth_iff] at hpos ⊢
  rwa [Nat.mul_assoc, ← Nat.pow_succ']

/-- The loop stops at the first height where the level has one node, which is
`Nat.clog 2 n` when the loop starts below it and has the passes to reach it. -/
theorem treeHeightFrom_eq_clog (n : ℕ) : ∀ fuel h, h ≤ Nat.clog 2 n → Nat.clog 2 n ≤ h + fuel →
    treeHeightFrom n fuel h = Nat.clog 2 n
  | 0, h, hle, hge => by
    rw [treeHeightFrom]
    omega
  | fuel + 1, h, hle, hge => by
    rw [treeHeightFrom]
    by_cases hw : 1 < CalcTreeWidth n h
    · -- one node too many: the tree is higher than `h`
      have hlt : h < Nat.clog 2 n := by
        rw [← Nat.not_le, CalcTreeWidth_le_one_iff, ← Nat.clog_le_iff_le_pow one_lt_two] at hw
        omega
      rw [if_pos hw, treeHeightFrom_eq_clog n fuel (h + 1) hlt (by omega)]
    · have hclog : Nat.clog 2 n ≤ h := by
        rwa [Nat.not_lt, CalcTreeWidth_le_one_iff, ← Nat.clog_le_iff_le_pow one_lt_two] at hw
      rw [if_neg hw]
      omega

theorem treeHeight_eq_clog (n : ℕ) : treeHeight n = Nat.clog 2 n :=
  treeHeightFrom_eq_clog n n 0 (Nat.zero_le _)
    (by simpa using Nat.clog_le_of_le_pow (Nat.lt_two_pow_self (n := n)).le)

/-- The root is the only node at the top. -/
theorem CalcTreeWidth_treeHeight {n : ℕ} (hn : n ≠ 0) : CalcTreeWidth n (treeHeight n) = 1 := by
  have hle : CalcTreeWidth n (treeHeight n) ≤ 1 := by
    rw [CalcTreeWidth_le_one_iff, treeHeight_eq_clog]
    exact Nat.le_pow_clog one_lt_two n
  have hpos : 0 < CalcTreeWidth n (treeHeight n) := by
    rw [lt_CalcTreeWidth_iff, Nat.zero_mul]
    omega
  omega

end Width

/-! ## The leaves below a node -/

section Leaves

variable {n : ℕ}

theorem leavesBelow_eq (n h pos : ℕ) :
    leavesBelow n h pos = List.range' (pos * 2 ^ h) (min ((pos + 1) * 2 ^ h) n - pos * 2 ^ h) := by
  rw [leavesBelow, Nat.shiftLeft_eq, Nat.shiftLeft_eq]

theorem leavesBelow_zero {pos : ℕ} (hpos : pos < n) : leavesBelow n 0 pos = [pos] := by
  rw [leavesBelow_eq, Nat.pow_zero, Nat.mul_one, Nat.mul_one, Nat.min_eq_left hpos, Nat.succ_sub Nat.le.refl, Nat.sub_self,
    List.range'_one]

/-- The leaves below a node are those below its left child, then those below
its right child if it has one. -/
theorem leavesBelow_succ (n h pos : ℕ) :
    leavesBelow n (h + 1) pos =
      leavesBelow n h (pos * 2) ++ if pos * 2 + 1 < CalcTreeWidth n h then leavesBelow n h (pos * 2 + 1) else [] := by
  -- with `X` the first leaf of the left child and `c` the leaves of a child
  have hfirst : pos * 2 ^ (h + 1) = 2 * (pos * 2 ^ h) := by
    rw [Nat.pow_succ]
    ring
  have hlast : (pos + 1) * 2 ^ (h + 1) = 2 * (pos * 2 ^ h) + 2 * 2 ^ h := by
    rw [Nat.pow_succ]
    ring
  have hleft : (pos * 2 + 1) * 2 ^ h = 2 * (pos * 2 ^ h) + 2 ^ h := by ring
  have hleft' : pos * 2 * 2 ^ h = 2 * (pos * 2 ^ h) := by ring
  have hright : (pos * 2 + 1 + 1) * 2 ^ h = 2 * (pos * 2 ^ h) + 2 * 2 ^ h := by ring
  simp only [leavesBelow_eq, hfirst, hlast, hleft, hleft', hright]
  split_ifs with hr
  · rw [lt_CalcTreeWidth_iff, hleft] at hr
    have hsplit := List.range'_append_1 (s := 2 * (pos * 2 ^ h))
      (m := min (2 * (pos * 2 ^ h) + 2 ^ h) n - 2 * (pos * 2 ^ h))
      (n := min (2 * (pos * 2 ^ h) + 2 * 2 ^ h) n - (2 * (pos * 2 ^ h) + 2 ^ h))
    rw [show 2 * (pos * 2 ^ h) + (min (2 * (pos * 2 ^ h) + 2 ^ h) n - 2 * (pos * 2 ^ h)) =
      2 * (pos * 2 ^ h) + 2 ^ h by omega] at hsplit
    rw [hsplit]
    congr 1
    omega
  · rw [lt_CalcTreeWidth_iff, hleft] at hr
    rw [List.append_nil]
    congr 1
    omega

/-- The root has every leaf below it. -/
theorem leavesBelow_root (n : ℕ) : leavesBelow n (treeHeight n) 0 = List.range n := by
  have hle : n ≤ 2 ^ treeHeight n := by
    rw [treeHeight_eq_clog]
    exact Nat.le_pow_clog one_lt_two n
  rw [leavesBelow_eq, Nat.zero_mul, Nat.zero_add, Nat.one_mul, Nat.min_eq_right hle, Nat.sub_zero,
    List.range_eq_range']

theorem leavesBelow_ne_nil {h pos : ℕ} (hpos : pos < CalcTreeWidth n h) : leavesBelow n h pos ≠ [] := by
  rw [lt_CalcTreeWidth_iff] at hpos
  rw [leavesBelow_eq, Ne, List.range'_eq_nil_iff]
  have hlt : pos * 2 ^ h < (pos + 1) * 2 ^ h := Nat.mul_lt_mul_of_pos_right (Nat.lt_succ_self pos) (Nat.two_pow_pos h)
  omega

end Leaves

/-! ## `CalcHash` and `ComputeMerkleRoot` -/

section Root

variable {Hash64 : uint256 → uint256 → uint256}

/-- One pass of `ComputeMerkleRoot` over a level given by position: the node
`p` above hashes the nodes `2 p` and `2 p + 1`, or `2 p` twice at the end. -/
theorem merkleLevel_map_range' (f : ℕ → uint256) : ∀ (w s : ℕ),
    (merkleLevel Hash64 ((List.range' s w).map f)).1 =
      (List.range ((w + 1) / 2)).map fun p =>
        Hash64 (f (s + p * 2)) (if p * 2 + 1 < w then f (s + p * 2 + 1) else f (s + p * 2))
  | 0, s => by simp
  | 1, s => by simp
  | w + 2, s => by
    have ih := merkleLevel_map_range' f w (s + 2)
    rw [List.range'_succ, List.range'_succ, List.map_cons, List.map_cons, merkleLevel_cons_cons, ih,
      show (w + 2 + 1) / 2 = (w + 1) / 2 + 1 by omega, List.range_succ_eq_map, List.map_cons, List.map_map]
    refine List.cons_eq_cons.mpr ⟨by simp, ?_⟩
    apply List.map_congr_left
    intro p _
    have hlt : (p + 1) * 2 + 1 < w + 2 ↔ p * 2 + 1 < w := by omega
    simp only [Function.comp_apply, hlt, show s + 2 + p * 2 = s + (p + 1) * 2 by ring]

variable (Hash64) (vTxid : List uint256)

/-- The hashes of the level `h`, left to right. -/
def level (n h : ℕ) : List uint256 := (List.range (CalcTreeWidth n h)).map (CalcHash Hash64 n vTxid h)

theorem length_level (n h : ℕ) : (level Hash64 vTxid n h).length = CalcTreeWidth n h := by
  rw [level, List.length_map, List.length_range]

theorem level_zero : level Hash64 vTxid vTxid.length 0 = vTxid := by
  apply List.ext_getElem
  · rw [length_level, CalcTreeWidth_zero]
  · intro i h₁ h₂
    simp only [level, List.getElem_map, List.getElem_range, CalcHash]
    rw [List.getD_eq_getElem _ _ h₂]

/-- `CalcHash` at the level above is one pass of `ComputeMerkleRoot`. -/
theorem level_succ (n h : ℕ) :
    level Hash64 vTxid n (h + 1) = (merkleLevel Hash64 (level Hash64 vTxid n h)).1 := by
  rw [level, level, List.range_eq_range' (n := CalcTreeWidth n h), merkleLevel_map_range', CalcTreeWidth_succ]
  apply List.map_congr_left
  intro p _
  simp only [CalcHash, Nat.zero_add]

/-- From the level `h` up, `ComputeMerkleRoot` and `CalcHash` reach one root. -/
theorem computeMerkleRoot_level (n : ℕ) : ∀ d h, Nat.clog 2 (CalcTreeWidth n h) = d → 0 < CalcTreeWidth n h →
    (computeMerkleRoot Hash64 (level Hash64 vTxid n h)).1 = CalcHash Hash64 n vTxid (h + d) 0
  | 0, h, hd, hpos => by
    have hone : CalcTreeWidth n h = 1 := by
      have := length_le_one_of_clog_eq_zero hd
      omega
    rw [computeMerkleRoot_of_length_le_one (by rw [length_level, hone]), level, hone]
    rfl
  | d + 1, h, hd, hpos => by
    have h2 : 2 ≤ (level Hash64 vTxid n h).length := by
      rw [length_level]
      exact two_le_of_clog_eq_succ hd
    -- the level above has one level less to go
    have hd' : Nat.clog 2 (CalcTreeWidth n (h + 1)) = d := by
      have := @clog_length_merkleLevel Hash64 _ h2
      rw [← level_succ, length_level, length_level, hd] at this
      omega
    have hpos' : 0 < CalcTreeWidth n (h + 1) := by
      rw [CalcTreeWidth_succ]
      omega
    rw [computeMerkleRoot_of_two_le h2, ← level_succ, computeMerkleRoot_level n d (h + 1) hd' hpos',
      Nat.add_assoc, Nat.add_comm 1 d]

/-- `CalcHash` at the top of the tree is the root of `ComputeMerkleRoot`. -/
theorem CalcHash_root (hne : vTxid ≠ []) :
    CalcHash Hash64 vTxid.length vTxid (treeHeight vTxid.length) 0 = (computeMerkleRoot Hash64 vTxid).1 := by
  have hpos : 0 < CalcTreeWidth vTxid.length 0 := by
    rw [CalcTreeWidth_zero]
    exact List.length_pos_iff.mpr hne
  have hroot := computeMerkleRoot_level Hash64 vTxid vTxid.length _ 0 rfl hpos
  rw [level_zero, CalcTreeWidth_zero, Nat.zero_add] at hroot
  rw [hroot, treeHeight_eq_clog]

end Root

/-! ## Distinct transactions, distinct subtrees -/

section Distinct

variable {Hash64 : uint256 → uint256 → uint256} (vTxid : List uint256)

/-- With an injective `Hash64`, the hash of a node determines its first
leaf. -/
theorem CalcHash_first_leaf (hinj : Function.Injective2 Hash64) (n : ℕ) : ∀ h p q,
    CalcHash Hash64 n vTxid h p = CalcHash Hash64 n vTxid h q →
      vTxid.getD (p * 2 ^ h) 0 = vTxid.getD (q * 2 ^ h) 0
  | 0, p, q, heq => by simpa [CalcHash] using heq
  | h + 1, p, q, heq => by
    simp only [CalcHash] at heq
    have hleft := CalcHash_first_leaf hinj n h (p * 2) (q * 2) (hinj heq).1
    rwa [Nat.mul_assoc, ← Nat.pow_succ', Nat.mul_assoc, ← Nat.pow_succ'] at hleft

/-- Two children of a node cover different transactions, so with distinct
transactions and an injective `Hash64` their hashes differ. -/
theorem CalcHash_children_ne (hinj : Function.Injective2 Hash64) (hnodup : vTxid.Nodup) {h pos : ℕ}
    (hr : pos * 2 + 1 < CalcTreeWidth vTxid.length h) :
    CalcHash Hash64 vTxid.length vTxid h (pos * 2 + 1) ≠ CalcHash Hash64 vTxid.length vTxid h (pos * 2) := by
  intro heq
  have hleaf := CalcHash_first_leaf vTxid hinj vTxid.length h _ _ heq
  rw [lt_CalcTreeWidth_iff] at hr
  have hlt : pos * 2 * 2 ^ h < (pos * 2 + 1) * 2 ^ h :=
    Nat.mul_lt_mul_of_pos_right (Nat.lt_succ_self _) (Nat.two_pow_pos h)
  rw [List.getD_eq_getElem _ _ hr, List.getD_eq_getElem _ _ (by omega)] at hleaf
  have := (List.Nodup.getElem_inj_iff hnodup).mp hleaf
  omega

end Distinct

/-! ## What the builder writes -/

section Build

variable (Hash64 : uint256 → uint256 → uint256) (vTxid : List uint256) (vMatch : List Bool)

/-- Every stored hash has its bit, and covers a leaf of its own. -/
theorem length_hashes_le (n : ℕ) : ∀ h pos, pos < CalcTreeWidth n h →
    (TraverseAndBuild Hash64 n vTxid vMatch h pos).2.length ≤ (TraverseAndBuild Hash64 n vTxid vMatch h pos).1.length ∧
      (TraverseAndBuild Hash64 n vTxid vMatch h pos).2.length ≤ (leavesBelow n h pos).length
  | 0, pos, hpos => by
    rw [CalcTreeWidth_zero] at hpos
    simp [TraverseAndBuild, leavesBelow_zero hpos]
  | h + 1, pos, hpos => by
    have hleaves := leavesBelow_ne_nil hpos
    have hleft := length_hashes_le n h (pos * 2) (left_lt_CalcTreeWidth hpos)
    rw [TraverseAndBuild]
    split_ifs with hparent hr
    · have hright := length_hashes_le n h (pos * 2 + 1) hr
      simp only [leavesBelow_succ, if_pos hr, List.length_append, List.length_cons]
      omega
    · simp only [leavesBelow_succ, if_neg hr, List.length_append, List.length_cons, List.length_nil]
      omega
    · simp only [List.length_singleton]
      exact ⟨le_refl 1, List.length_pos_iff.mpr hleaves⟩

end Build

/-! ## What the receiver reads -/

section Extract

variable {Hash64 : uint256 → uint256 → uint256} {n : ℕ} {vBits : List Bool} {vHash : List uint256}

theorem getD_append_cons {α : Type*} (pre mid post : List α) (x d : α) :
    (pre ++ x :: mid ++ post).getD pre.length d = x := by
  rw [List.append_assoc, List.getD_append_right _ _ _ _ (le_refl _), Nat.sub_self, List.cons_append,
    List.getD_cons_zero]

theorem length_lt_append_cons {α : Type*} (pre mid post : List α) (x : α) :
    pre.length < (pre ++ x :: mid ++ post).length := by
  rw [List.length_append, List.length_append, List.length_cons]
  omega

/-- The stored hash is taken when one is left. -/
theorem useHash_of_lt {height pos : ℕ} {fParentOfMatch : Bool} {s : ExtractState} (hlt : s.nHashUsed < vHash.length) :
    useHash vHash height pos fParentOfMatch s =
      (vHash.getD s.nHashUsed 0,
        if height = 0 ∧ fParentOfMatch = true then
          { s with
            nHashUsed := s.nHashUsed + 1
            vMatch := s.vMatch ++ [vHash.getD s.nHashUsed 0]
            vnIndex := s.vnIndex ++ [pos] }
        else { s with nHashUsed := s.nHashUsed + 1 }) := by
  rw [useHash, if_neg (Nat.not_le_of_lt hlt)]
  split_ifs <;> rfl

variable (Hash64) (vTxid : List uint256) (vMatch : List Bool)

/-- The receiver's walk over the bits and hashes the builder wrote, wherever
they stand in the stream, returns the node's hash, uses exactly them, and
records the matched leaves below the node in order; `fBad` stays as it was.
By induction on the height: the two children are read one after the other,
and their hashes differ, so the check of equal children does not fire. -/
theorem TraverseAndExtract_TraverseAndBuild (hinj : Function.Injective2 Hash64) (hnodup : vTxid.Nodup) :
    ∀ h pos (s : ExtractState) (preB postB : List Bool) (preH postH : List uint256),
      pos < CalcTreeWidth vTxid.length h →
      vBits = preB ++ (TraverseAndBuild Hash64 vTxid.length vTxid vMatch h pos).1 ++ postB →
      s.nBitsUsed = preB.length →
      vHash = preH ++ (TraverseAndBuild Hash64 vTxid.length vTxid vMatch h pos).2 ++ postH →
      s.nHashUsed = preH.length →
      TraverseAndExtract Hash64 vTxid.length vBits vHash h pos s =
        (CalcHash Hash64 vTxid.length vTxid h pos,
          { s with
            nBitsUsed := s.nBitsUsed + (TraverseAndBuild Hash64 vTxid.length vTxid vMatch h pos).1.length
            nHashUsed := s.nHashUsed + (TraverseAndBuild Hash64 vTxid.length vTxid vMatch h pos).2.length
            vMatch := s.vMatch ++
              ((leavesBelow vTxid.length h pos).filter (vMatch.getD · false)).map (vTxid.getD · 0)
            vnIndex := s.vnIndex ++ (leavesBelow vTxid.length h pos).filter (vMatch.getD · false) })
  | 0, pos, s, preB, postB, preH, postH, hpos, hB, hsB, hH, hsH => by
    rw [CalcTreeWidth_zero] at hpos
    simp only [TraverseAndBuild, leavesBelow_zero hpos, List.any_cons, List.any_nil, Bool.or_false] at hB hH ⊢
    have hbit : s.nBitsUsed < vBits.length := by
      rw [hB, hsB]
      exact length_lt_append_cons _ _ _ _
    have hhash : s.nHashUsed < vHash.length := by
      rw [hH, hsH]
      exact length_lt_append_cons _ _ _ _
    rw [TraverseAndExtract, if_neg (Nat.not_le_of_lt hbit), useHash_of_lt (s := { s with nBitsUsed := s.nBitsUsed + 1 }) hhash]
    rw [hB, hsB, getD_append_cons, ← hsB, hH, hsH, getD_append_cons, ← hsH]
    rw [List.filter_singleton]
    cases hm : vMatch.getD pos false <;> simp [CalcHash]
  | h + 1, pos, s, preB, postB, preH, postH, hpos, hB, hsB, hH, hsH => by
    have hbit : s.nBitsUsed < vBits.length := by
      rw [hB, hsB, TraverseAndBuild]
      split_ifs <;> exact length_lt_append_cons _ _ _ _
    by_cases hparent : ((leavesBelow vTxid.length (h + 1) pos).any fun p => vMatch.getD p false) = true
    · -- a matched leaf below: the walk reads `true` and descends into the children
      rw [TraverseAndBuild, if_pos hparent] at hB hH ⊢
      dsimp only at hB hH ⊢
      have hread : vBits.getD s.nBitsUsed false = true := by rw [hB, hsB, getD_append_cons]
      rw [TraverseAndExtract, if_neg (Nat.not_le_of_lt hbit)]
      dsimp only
      rw [hread, if_pos rfl]
      have hl := TraverseAndExtract_TraverseAndBuild hinj hnodup h (pos * 2) { s with nBitsUsed := s.nBitsUsed + 1 }
        (preB ++ [true])
        ((if pos * 2 + 1 < CalcTreeWidth vTxid.length h then
            TraverseAndBuild Hash64 vTxid.length vTxid vMatch h (pos * 2 + 1) else ([], [])).1 ++ postB)
        preH
        ((if pos * 2 + 1 < CalcTreeWidth vTxid.length h then
            TraverseAndBuild Hash64 vTxid.length vTxid vMatch h (pos * 2 + 1) else ([], [])).2 ++ postH)
        (left_lt_CalcTreeWidth hpos) (by rw [hB]; simp) (by simp [hsB]) (by rw [hH]; simp) (by simp [hsH])
      by_cases hr : pos * 2 + 1 < CalcTreeWidth vTxid.length h
      · rw [if_pos hr] at hB hH ⊢
        have hr' := TraverseAndExtract_TraverseAndBuild hinj hnodup h (pos * 2 + 1)
          (TraverseAndExtract Hash64 vTxid.length vBits vHash h (pos * 2) { s with nBitsUsed := s.nBitsUsed + 1 }).2
          (preB ++ true :: (TraverseAndBuild Hash64 vTxid.length vTxid vMatch h (pos * 2)).1) postB
          (preH ++ (TraverseAndBuild Hash64 vTxid.length vTxid vMatch h (pos * 2)).2) postH
          hr (by rw [hB]; simp) (by rw [hl]; simp [hsB]; omega) (by rw [hH]; simp) (by rw [hl]; simp [hsH])
        rw [hl] at hr' ⊢
        dsimp only at hr' ⊢
        rw [hr']
        dsimp only
        rw [beq_eq_false_iff_ne.mpr (CalcHash_children_ne vTxid hinj hnodup hr), if_neg Bool.false_ne_true]
        simp [CalcHash, hr, leavesBelow_succ, List.filter_append, List.append_assoc]
        omega
      · rw [hl, if_neg hr]
        dsimp only
        simp [CalcHash, hr, leavesBelow_succ]
        omega
    · -- nothing matched below: the walk reads `false` and takes the stored hash
      rw [TraverseAndBuild, if_neg hparent] at hB hH ⊢
      have hread : vBits.getD s.nBitsUsed false = false := by rw [hB, hsB, getD_append_cons]
      have hhash : s.nHashUsed < vHash.length := by
        rw [hH, hsH]
        exact length_lt_append_cons _ _ _ _
      have hnone : (leavesBelow vTxid.length (h + 1) pos).filter (vMatch.getD · false) = [] := by
        rw [List.filter_eq_nil_iff]
        simpa using hparent
      rw [TraverseAndExtract, if_neg (Nat.not_le_of_lt hbit)]
      dsimp only
      rw [hread, if_neg Bool.false_ne_true, useHash_of_lt (s := { s with nBitsUsed := s.nBitsUsed + 1 }) hhash]
      rw [hH, hsH, getD_append_cons, ← hsH]
      simp only [hnone, List.map_nil, List.append_nil]
      simp

/-- The stored-hash branch records one matched leaf at most, at height 0. -/
theorem useHash_found (vHash : List uint256) (height pos : ℕ) (fParentOfMatch : Bool) (s : ExtractState) :
    ∃ found : List (uint256 × ℕ),
      (useHash vHash height pos fParentOfMatch s).2.vMatch = s.vMatch ++ found.map Prod.fst ∧
      (useHash vHash height pos fParentOfMatch s).2.vnIndex = s.vnIndex ++ found.map Prod.snd ∧
      (found = [] ∨ height = 0 ∧ found = [((useHash vHash height pos fParentOfMatch s).1, pos)]) := by
  unfold useHash
  split_ifs with hempty hleaf
  · exact ⟨[], by simp, by simp, .inl rfl⟩
  · exact ⟨[(vHash.getD s.nHashUsed 0, pos)], by simp, by simp, .inr ⟨hleaf.1, rfl⟩⟩
  · exact ⟨[], by simp, by simp, .inl rfl⟩

/-- Whatever bits and hashes it is given, the walk below a node records
leaves of that node only, in order; and when it returns the node's true hash,
every hash it records is the transaction at the position it records.  By
induction on the height: with `Hash64` injective, the hash of a node fixes
the hashes of its children. -/
theorem TraverseAndExtract_sound (hinj : Function.Injective2 Hash64) (vTxid : List uint256) (vBits : List Bool)
    (vHash : List uint256) :
    ∀ h pos (s : ExtractState), pos < CalcTreeWidth n h →
      ∃ found : List (uint256 × ℕ),
        (TraverseAndExtract Hash64 n vBits vHash h pos s).2.vMatch = s.vMatch ++ found.map Prod.fst ∧
        (TraverseAndExtract Hash64 n vBits vHash h pos s).2.vnIndex = s.vnIndex ++ found.map Prod.snd ∧
        (found.map Prod.snd).Sublist (leavesBelow n h pos) ∧
        ((TraverseAndExtract Hash64 n vBits vHash h pos s).1 = CalcHash Hash64 n vTxid h pos →
          ∀ x ∈ found, x.1 = vTxid.getD x.2 0)
  | 0, pos, s, hpos => by
    rw [CalcTreeWidth_zero] at hpos
    rw [TraverseAndExtract]
    split_ifs with hbits
    · exact ⟨[], by simp, by simp, by simp, by simp⟩
    · obtain ⟨found, hm, hi, hfound⟩ :=
        useHash_found vHash 0 pos (vBits.getD s.nBitsUsed false) { s with nBitsUsed := s.nBitsUsed + 1 }
      refine ⟨found, hm, hi, ?_, ?_⟩
      · rcases hfound with rfl | ⟨-, rfl⟩
        · simp
        · simp [leavesBelow_zero hpos]
      · intro hroot x hx
        rcases hfound with rfl | ⟨-, rfl⟩
        · simp at hx
        · rw [List.mem_singleton] at hx
          subst hx
          exact hroot
  | h + 1, pos, s, hpos => by
    rw [TraverseAndExtract]
    by_cases hbits : vBits.length ≤ s.nBitsUsed
    · rw [if_pos hbits]
      exact ⟨[], by simp, by simp, by simp, by simp⟩
    rw [if_neg hbits]
    dsimp only
    cases hf : vBits.getD s.nBitsUsed false
    · -- nothing below is matched: the walk takes a stored hash and records nothing
      rw [if_neg Bool.false_ne_true]
      obtain ⟨found, hm, hi, hfound⟩ :=
        useHash_found vHash (h + 1) pos false { s with nBitsUsed := s.nBitsUsed + 1 }
      have hnil : found = [] := hfound.resolve_right fun h => Nat.succ_ne_zero _ h.1
      subst hnil
      exact ⟨[], by simpa using hm, by simpa using hi, by simp, by simp⟩
    · -- the walk descends into the children
      rw [if_pos rfl]
      obtain ⟨foundL, hmL, hiL, hsubL, hokL⟩ :=
        TraverseAndExtract_sound hinj vTxid vBits vHash h (pos * 2) { s with nBitsUsed := s.nBitsUsed + 1 } (left_lt_CalcTreeWidth hpos)
      by_cases hr : pos * 2 + 1 < CalcTreeWidth n h
      · rw [if_pos hr]
        obtain ⟨foundR, hmR, hiR, hsubR, hokR⟩ := TraverseAndExtract_sound hinj vTxid vBits vHash h (pos * 2 + 1)
          (TraverseAndExtract Hash64 n vBits vHash h (pos * 2) { s with nBitsUsed := s.nBitsUsed + 1 }).2 hr
        refine ⟨foundL ++ foundR, ?_, ?_, ?_, ?_⟩
        · split_ifs <;> simp [hmR, hmL]
        · split_ifs <;> simp [hiR, hiL]
        · rw [leavesBelow_succ, if_pos hr, List.map_append]
          exact hsubL.append hsubR
        · -- the root's hash fixes both children's hashes
          intro hroot x hx
          simp only [CalcHash, if_pos hr] at hroot
          obtain ⟨hl, hrr⟩ := hinj hroot
          rcases List.mem_append.mp hx with hx | hx
          · exact hokL hl x hx
          · exact hokR hrr x hx
      · rw [if_neg hr]
        refine ⟨foundL, hmL, hiL, ?_, ?_⟩
        · rw [leavesBelow_succ, if_neg hr, List.append_nil]
          exact hsubL
        · intro hroot
          simp only [CalcHash, if_neg hr] at hroot
          exact hokL (hinj hroot).1

end Extract

/-! ## The round trip -/

section RoundTrip

variable {Hash64 : uint256 → uint256 → uint256}

theorem ofTxids_of_ne_nil (vTxid : List uint256) (vMatch : List Bool) (hne : vTxid ≠ []) :
    ofTxids Hash64 vTxid vMatch =
      some ⟨vTxid.length, (TraverseAndBuild Hash64 vTxid.length vTxid vMatch (treeHeight vTxid.length) 0).1,
        (TraverseAndBuild Hash64 vTxid.length vTxid vMatch (treeHeight vTxid.length) 0).2, false⟩ := by
  rw [ofTxids, if_neg hne]

theorem unserialize_serialize (t : CPartialMerkleTree) :
    unserialize (serialize t) =
      { t with
        vBits := t.vBits ++ List.replicate ((t.vBits.length + 7) / 8 * 8 - t.vBits.length) false
        fBad := false } := by
  rw [serialize, unserialize, BitPack.unpack_pack]

/-- A partial merkle tree built from distinct transactions, sent and read
back, gives the block's merkle root and exactly the matched transactions with
their positions, in order.  `vnIndex` is not cleared: the positions follow
what the caller passed.  The node hash, the double SHA-256 of two hashes in
the source, is taken to have no collisions (`hinj`). -/
theorem ExtractMatches_ofTxids (hinj : Function.Injective2 Hash64)
    (vTxid : List uint256) (vMatch : List Bool) (vnIndex : List ℕ) (hne : vTxid ≠ []) (hnodup : vTxid.Nodup)
    (hmax : vTxid.length ≤ MAX_BLOCK_WEIGHT / MIN_TRANSACTION_WEIGHT) :
    ∃ t, ofTxids Hash64 vTxid vMatch = some t ∧
      (unserialize t.serialize).ExtractMatches Hash64 vnIndex =
        ((computeMerkleRoot Hash64 vTxid).1,
          ((List.range vTxid.length).filter (vMatch.getD · false)).map (vTxid.getD · 0),
          vnIndex ++ (List.range vTxid.length).filter (vMatch.getD · false)) := by
  refine ⟨_, ofTxids_of_ne_nil vTxid vMatch hne, ?_⟩
  have hn : vTxid.length ≠ 0 := fun h => hne (List.length_eq_zero_iff.mp h)
  have hroot : 0 < CalcTreeWidth vTxid.length (treeHeight vTxid.length) := by
    rw [CalcTreeWidth_treeHeight hn]
    exact Nat.one_pos
  obtain ⟨hbits, hleaves⟩ := length_hashes_le Hash64 vTxid vMatch vTxid.length _ 0 hroot
  rw [leavesBelow_root, List.length_range] at hleaves
  set bits := (TraverseAndBuild Hash64 vTxid.length vTxid vMatch (treeHeight vTxid.length) 0).1
  set hashes := (TraverseAndBuild Hash64 vTxid.length vTxid vMatch (treeHeight vTxid.length) 0).2
  set pad := List.replicate ((bits.length + 7) / 8 * 8 - bits.length) false
  -- the receiver reads the whole tree, and the padding is left over
  have hwalk := TraverseAndExtract_TraverseAndBuild Hash64 vTxid vMatch hinj hnodup _ 0
    ⟨0, 0, [], vnIndex, false⟩ [] pad [] [] hroot (by rw [List.nil_append]) rfl
    (by rw [List.nil_append, List.append_nil]) rfl
  rw [unserialize_serialize, ExtractMatches]
  dsimp only
  rw [if_neg hn, if_neg (Nat.not_lt_of_le hmax), if_neg (Nat.not_lt_of_le hleaves),
    if_neg (by rw [List.length_append, List.length_replicate]; omega), hwalk]
  dsimp only
  have hpad : (0 + bits.length + 7) / 8 = ((bits ++ pad).length + 7) / 8 := by
    rw [List.length_append, List.length_replicate]
    omega
  rw [if_neg Bool.false_ne_true, if_neg (fun h => h hpad), if_neg (by rw [Nat.zero_add]; exact fun h => h rfl),
    CalcHash_root Hash64 vTxid hne, leavesBelow_root, List.nil_append]

/-- Three transactions, the first and the last matched, with the Cantor
pairing as the node hash. -/
theorem ExtractMatches_ofTxids_three :
    Function.Injective2 Nat.pair ∧ ([1, 2, 3] : List uint256) ≠ [] ∧ ([1, 2, 3] : List uint256).Nodup ∧
      ([1, 2, 3] : List uint256).length ≤ MAX_BLOCK_WEIGHT / MIN_TRANSACTION_WEIGHT ∧
      ∃ t, ofTxids Nat.pair [1, 2, 3] [true, false, true] = some t ∧
        (unserialize t.serialize).ExtractMatches Nat.pair [] =
          ((computeMerkleRoot Nat.pair [1, 2, 3]).1,
            ((List.range ([1, 2, 3] : List uint256).length).filter ([true, false, true].getD · false)).map
              (([1, 2, 3] : List uint256).getD · 0),
            [] ++ (List.range ([1, 2, 3] : List uint256).length).filter ([true, false, true].getD · false)) :=
  ⟨fun _ _ _ _ h => Nat.pair_eq_pair.mp h, by decide, by decide, by decide,
    ExtractMatches_ofTxids (fun _ _ _ _ h => Nat.pair_eq_pair.mp h) [1, 2, 3] [true, false, true] []
      (by decide) (by decide) (by decide)⟩

/-- Soundness of a merkle proof, as `verifytxoutproof` and
`importprunedfunds` use it: whatever tree they are sent, when
`ExtractMatches` returns the merkle root of a block of `nTransactions`
transactions and that root is not zero, the positions it appends to
`vnIndex` are positions of the block, in increasing order, and the hashes it
returns are the block's transactions at those positions.  The node hash has
no collisions. -/
theorem ExtractMatches_sound (hinj : Function.Injective2 Hash64) (t : CPartialMerkleTree) (vTxid : List uint256)
    (vnIndex : List ℕ) (hn : vTxid.length = t.nTransactions) (hroot : (computeMerkleRoot Hash64 vTxid).1 ≠ 0)
    (hext : (t.ExtractMatches Hash64 vnIndex).1 = (computeMerkleRoot Hash64 vTxid).1) :
    ∃ index : List ℕ, (t.ExtractMatches Hash64 vnIndex).2.2 = vnIndex ++ index ∧
      index.Sublist (List.range vTxid.length) ∧
      (t.ExtractMatches Hash64 vnIndex).2.1 = index.map (vTxid.getD · 0) := by
  have hne : vTxid ≠ [] := by
    rintro rfl
    exact hroot rfl
  rw [ExtractMatches] at hext ⊢
  -- every early return gives zero, which is not the root
  split_ifs at hext ⊢ with h0 h1 h2 h3
  · exact absurd hext.symm hroot
  · exact absurd hext.symm hroot
  · exact absurd hext.symm hroot
  · exact absurd hext.symm hroot
  have hpos : 0 < CalcTreeWidth t.nTransactions (treeHeight t.nTransactions) := by
    rw [CalcTreeWidth_treeHeight h0]
    exact Nat.one_pos
  obtain ⟨found, hm, hi, hsub, hok⟩ :=
    TraverseAndExtract_sound Hash64 hinj vTxid t.vBits t.vHash _ 0 ⟨0, 0, [], vnIndex, t.fBad⟩ hpos
  generalize TraverseAndExtract Hash64 t.nTransactions t.vBits t.vHash (treeHeight t.nTransactions) 0
    ⟨0, 0, [], vnIndex, t.fBad⟩ = res at hm hi hok hext ⊢
  obtain ⟨r, st⟩ := res
  dsimp only at hm hi hok hext ⊢
  split_ifs at hext ⊢
  · exact absurd hext.symm hroot
  · exact absurd hext.symm hroot
  · exact absurd hext.symm hroot
  -- the walk returned the root: every recorded hash is the block's transaction
  rw [← hn, CalcHash_root Hash64 vTxid hne] at hok
  have hcorrect := hok hext
  rw [← hn, leavesBelow_root] at hsub
  refine ⟨found.map Prod.snd, hi, hsub, ?_⟩
  rw [hm, List.nil_append, List.map_map]
  exact List.map_congr_left hcorrect

/-- The tree of the first and last of three transactions, read back after
the wire, against the block `[1, 2, 3]`. -/
theorem ExtractMatches_sound_three :
    Function.Injective2 Nat.pair ∧
      ∃ t, ofTxids Nat.pair [1, 2, 3] [true, false, true] = some t ∧
        ([1, 2, 3] : List uint256).length = (unserialize t.serialize).nTransactions ∧
        (computeMerkleRoot Nat.pair [1, 2, 3]).1 ≠ 0 ∧
        ((unserialize t.serialize).ExtractMatches Nat.pair []).1 = (computeMerkleRoot Nat.pair [1, 2, 3]).1 ∧
        ∃ index : List ℕ, ((unserialize t.serialize).ExtractMatches Nat.pair []).2.2 = [] ++ index ∧
          index.Sublist (List.range ([1, 2, 3] : List uint256).length) ∧
          ((unserialize t.serialize).ExtractMatches Nat.pair []).2.1 = index.map (([1, 2, 3] : List uint256).getD · 0) := by
  have hinj : Function.Injective2 Nat.pair := fun _ _ _ _ h => Nat.pair_eq_pair.mp h
  refine ⟨hinj, _, ofTxids_of_ne_nil _ _ (by decide), by decide, by decide, by decide, ?_⟩
  exact ExtractMatches_sound hinj _ [1, 2, 3] [] (by decide) (by decide) (by decide)

end RoundTrip

end CPartialMerkleTree

end XPChain
