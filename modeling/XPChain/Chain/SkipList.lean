import Mathlib.Data.Nat.Bitwise
import Mathlib.Order.Basic

/-!
# The skip list of the block index

Every `CBlockIndex` points to its parent, `pprev`, and to one further
ancestor, `pskip`, at the height `GetSkipHeight` picks.  `BuildSkip` sets
`pskip` when the block is added, with `GetAncestor` on the parent; and
`GetAncestor(height)` walks down from a block, taking `pskip` where that
does not overshoot the height and `pprev`'s own skip is no better, and
`pprev` otherwise.

A block tree is any type of indices with the three fields as functions.  It
is well formed when every parent is one block lower, only a block at height 0
has no parent, and every `pskip` is what `BuildSkip` stored.  Heights are
natural numbers: `nHeight` is `0` for the genesis block and one more than the
parent's for the others, and `GetAncestor` stops before its `int` arguments
could go negative.

## Main definitions

* `GetSkipHeight`, `BlockTree.GetAncestor`, `BlockTree.BuildSkip`.
* `BlockTree.WellFormed`.
* `BlockTree.ancestor` — the block that `pprev`, followed a number of times,
  reaches.

## Main statements

* `GetSkipHeight_lt_self` — the skip height is below every positive height.
* `BlockTree.walk_eq_ancestor` — in a well-formed tree the walk reaches the
  ancestor at the height it is asked for.
* `BlockTree.GetAncestor_eq_ancestor` — `GetAncestor` returns `nullptr`
  outside `0 .. nHeight` and otherwise that ancestor.
-/

set_option autoImplicit false

namespace XPChain.SkipList

/-- `InvertLowestOne`: clear the lowest set bit. -/
def InvertLowestOne (n : ℕ) : ℕ := n &&& (n - 1)

/-- `GetSkipHeight`. -/
def GetSkipHeight (height : ℕ) : ℕ :=
  if height < 2 then 0
  else if height &&& 1 ≠ 0 then InvertLowestOne (InvertLowestOne (height - 1)) + 1
  else InvertLowestOne height

theorem InvertLowestOne_le (n : ℕ) : InvertLowestOne n ≤ n := Nat.and_le_left

theorem InvertLowestOne_lt {n : ℕ} (hn : 0 < n) : InvertLowestOne n < n :=
  lt_of_le_of_lt Nat.and_le_right (Nat.sub_lt hn Nat.one_pos)

/-- The skip height is below every positive height. -/
theorem GetSkipHeight_lt_self {height : ℕ} (h : 0 < height) : GetSkipHeight height < height := by
  unfold GetSkipHeight
  split_ifs with h2 hodd
  · exact h
  · -- `height - 1` is even and at least 2, so clearing a bit twice lands below it
    have h1 : InvertLowestOne (height - 1) < height - 1 := InvertLowestOne_lt (by omega)
    have h2 := InvertLowestOne_le (InvertLowestOne (height - 1))
    omega
  · exact InvertLowestOne_lt h

/-- The fields of `CBlockIndex` the skip list reads. -/
structure BlockTree (ι : Type) where
  pprev : ι → Option ι
  pskip : ι → Option ι
  nHeight : ι → ℕ

namespace BlockTree

variable {ι : Type} (t : BlockTree ι)

/-- Whether the walk from `heightWalk` towards `height` takes `pskip`: when
the skip lands on the height, or above it and `pprev`'s skip would not land
between the height and this skip. -/
def takeSkip (heightWalk height : ℕ) : Bool :=
  let heightSkip := GetSkipHeight heightWalk
  let heightSkipPrev := GetSkipHeight (heightWalk - 1)
  heightSkip == height ||
    (decide (height < heightSkip) && !(decide (heightSkipPrev + 2 < heightSkip) && decide (height ≤ heightSkipPrev)))

/-- The `while (heightWalk > height)` loop of `GetAncestor`, from
`pindexWalk` at `heightWalk`. -/
def walk (height : ℕ) (pindexWalk : ι) (heightWalk : ℕ) : Except String ι :=
  if height < heightWalk then
    match t.pskip pindexWalk, takeSkip heightWalk height with
    | some pskip, true => walk height pskip (GetSkipHeight heightWalk)
    | _, _ =>
      match t.pprev pindexWalk with
      | some pprev => walk height pprev (heightWalk - 1)
      | none => .error "assert(pindexWalk->pprev)"
  else .ok pindexWalk
termination_by heightWalk
decreasing_by
  · exact GetSkipHeight_lt_self (by omega)
  · omega

/-- `CBlockIndex::GetAncestor(height)`: `nullptr` outside `0 .. nHeight`. -/
def GetAncestor (p : ι) (height : ℤ) : Except String (Option ι) :=
  if height > t.nHeight p ∨ height < 0 then .ok none
  else (t.walk height.toNat p (t.nHeight p)).map some

/-- `CBlockIndex::BuildSkip()`: the `pskip` it leaves. -/
def BuildSkip (p : ι) : Except String (Option ι) :=
  match t.pprev p with
  | some pprev => t.GetAncestor pprev (GetSkipHeight (t.nHeight p))
  | none => .ok (t.pskip p)

/-- A block tree whose parents are one block lower, whose only parentless
blocks are at height 0, and whose skip pointers `BuildSkip` set. -/
structure WellFormed : Prop where
  nHeight_pprev : ∀ p q, t.pprev p = some q → t.nHeight p = t.nHeight q + 1
  pprev_isSome : ∀ p, 0 < t.nHeight p → (t.pprev p).isSome
  pskip_eq : ∀ p, t.BuildSkip p = .ok (t.pskip p)

/-- The block reached from `p` by following `pprev` `n` times. -/
def ancestor : ℕ → ι → Option ι
  | 0, p => some p
  | n + 1, p => (t.pprev p).bind (ancestor n)

/-! ## The walk reaches the ancestor -/

variable {t}

theorem walk_of_le {height heightWalk : ℕ} (h : heightWalk ≤ height) (p : ι) : t.walk height p heightWalk = .ok p := by
  rw [walk, if_neg (by omega)]

theorem walk_skip {height heightWalk : ℕ} (h : height < heightWalk) {p s : ι} (hs : t.pskip p = some s)
    (htake : takeSkip heightWalk height = true) :
    t.walk height p heightWalk = t.walk height s (GetSkipHeight heightWalk) := by
  rw [walk, if_pos h, hs, htake]

theorem ancestor_add (n m : ℕ) (p : ι) : t.ancestor (n + m) p = (t.ancestor n p).bind (t.ancestor m) := by
  induction n generalizing p with
  | zero => rw [Nat.zero_add, ancestor, Option.bind_some]
  | succ n ih =>
    rw [Nat.succ_add, ancestor, ancestor, Option.bind_assoc]
    simp only [ih]

/-- Following `pprev` `n` times from `p`, for `n` up to its height, reaches a
block `n` lower. -/
theorem WellFormed.ancestor_spec (ht : t.WellFormed) :
    ∀ (n : ℕ) (p : ι), n ≤ t.nHeight p → ∃ a, t.ancestor n p = some a ∧ t.nHeight a = t.nHeight p - n
  | 0, p, _ => ⟨p, rfl, rfl⟩
  | n + 1, p, hn => by
    obtain ⟨q, hq⟩ := Option.isSome_iff_exists.mp (ht.pprev_isSome p (by omega))
    have hpq := ht.nHeight_pprev p q hq
    obtain ⟨a, ha, hha⟩ := ht.ancestor_spec n q (by omega)
    refine ⟨a, ?_, by omega⟩
    rw [ancestor, hq, Option.bind_some, ha]

theorem le_of_takeSkip {heightWalk height : ℕ} (h : takeSkip heightWalk height = true) :
    height ≤ GetSkipHeight heightWalk := by
  simp only [takeSkip, Bool.or_eq_true, beq_iff_eq, Bool.and_eq_true, decide_eq_true_eq] at h
  omega

/-- The walk from a block at height `w ≤ N` reaches its ancestor, given that
walks from the blocks below `N` do.  The cases are the loop's: a skip pointer
was stored by a walk from the parent, which is lower. -/
theorem WellFormed.walk_of_lower (ht : t.WellFormed) {N height : ℕ}
    (ih : ∀ M < N, ∀ q, t.nHeight q = M → ∀ h ≤ M, ∃ a, t.ancestor (M - h) q = some a ∧ t.walk h q M = .ok a)
    (pw : ι) (w : ℕ) :
    w ≤ N → t.nHeight pw = w → height ≤ w → ∃ a, t.ancestor (w - height) pw = some a ∧ t.walk height pw w = .ok a := by
  fun_induction t.walk height pw w with
  | case1 pw w hlt s htake hskip ihs =>
    intro hw hpw _
    obtain ⟨q, hq⟩ := Option.isSome_iff_exists.mp (ht.pprev_isSome pw (by omega))
    have hqh : t.nHeight q = w - 1 := by
      have := ht.nHeight_pprev pw q hq
      omega
    have hskip_lt := GetSkipHeight_lt_self (show 0 < w by omega)
    -- `BuildSkip` stored the parent's ancestor at the skip height
    obtain ⟨a, ha, hwalk⟩ := ih (w - 1) (by omega) q hqh (GetSkipHeight w) (by omega)
    have hbuild : t.GetAncestor q (GetSkipHeight w) = .ok (some s) := by
      have hpskip := ht.pskip_eq pw
      rw [BuildSkip, hq, hskip, hpw] at hpskip
      exact hpskip
    rw [GetAncestor, if_neg (by omega), hqh, Int.toNat_natCast, hwalk] at hbuild
    obtain rfl : a = s := by simpa [Except.map] using hbuild
    obtain ⟨a', ha', hha'⟩ := ht.ancestor_spec (w - 1 - GetSkipHeight w) q (by omega)
    have hsh : t.nHeight a = GetSkipHeight w := by
      rw [ha, Option.some.injEq] at ha'
      rw [ha', hha', hqh]
      omega
    obtain ⟨b, hb, hwalk'⟩ := ihs (by omega) hsh (le_of_takeSkip htake)
    refine ⟨b, ?_, hwalk'⟩
    have hsplit : w - height = (w - 1 - GetSkipHeight w + 1) + (GetSkipHeight w - height) := by
      have := le_of_takeSkip htake
      omega
    rw [hsplit, ancestor_add, ancestor, hq, Option.bind_some, ha, Option.bind_some, hb]
  | case2 pw w hlt q hq _ ihq =>
    intro hw hpw _
    have hqh : t.nHeight q = w - 1 := by
      have := ht.nHeight_pprev pw q hq
      omega
    obtain ⟨b, hb, hwalk⟩ := ihq (by omega) hqh (by omega)
    refine ⟨b, ?_, hwalk⟩
    rw [show w - height = w - 1 - height + 1 by omega, ancestor, hq, Option.bind_some, hb]
  | case3 pw w hlt hq _ =>
    intro _ hpw _
    have := ht.pprev_isSome pw (by omega)
    rw [hq] at this
    cases this
  | case4 pw w hge =>
    intro _ _ hle
    refine ⟨pw, ?_, rfl⟩
    rw [show w - height = 0 by omega, ancestor]

/-- In a well-formed tree, the walk from a block at its own height reaches
its ancestor at every lower height. -/
theorem WellFormed.walk_eq_ancestor (ht : t.WellFormed) (N : ℕ) :
    ∀ p, t.nHeight p = N → ∀ height ≤ N, ∃ a, t.ancestor (N - height) p = some a ∧ t.walk height p N = .ok a := by
  induction N using Nat.strong_induction_on with
  | _ N ih =>
    intro p hp height hle
    exact ht.walk_of_lower ih p N le_rfl hp hle

/-- `GetAncestor` finds the right ancestor: in a well-formed tree it returns
`nullptr` outside `0 .. nHeight` and otherwise the block that `pprev`,
followed `nHeight - height` times, reaches; and every skip height is below
its height. -/
theorem GetAncestor_eq_ancestor (ht : t.WellFormed) (p : ι) (height : ℤ) :
    (height < 0 ∨ t.nHeight p < height → t.GetAncestor p height = .ok none) ∧
      (0 ≤ height → height ≤ t.nHeight p →
        ∃ a, t.ancestor (t.nHeight p - height.toNat) p = some a ∧ t.GetAncestor p height = .ok (some a)) ∧
      ∀ n, 2 ≤ n → GetSkipHeight n < n := by
  refine ⟨fun hout => ?_, fun h0 hle => ?_, fun n hn => GetSkipHeight_lt_self (by omega)⟩
  · rw [GetAncestor, if_pos (by omega)]
  · obtain ⟨a, ha, hwalk⟩ := ht.walk_eq_ancestor _ p rfl height.toNat (by omega)
    refine ⟨a, ha, ?_⟩
    rw [GetAncestor, if_neg (by omega), hwalk]
    rfl

/-- Three blocks in a row, with the skip pointers `BuildSkip` sets: both
point to the genesis block. -/
def chain3 : BlockTree (Fin 3) where
  pprev i := if i = 0 then none else some (i - 1)
  pskip i := if i = 0 then none else some 0
  nHeight i := i

theorem chain3_wellFormed : chain3.WellFormed where
  nHeight_pprev := by decide
  pprev_isSome := by decide
  pskip_eq
    | 0 => rfl
    | 1 => by
      show chain3.GetAncestor 0 (GetSkipHeight 1) = .ok (some 0)
      rw [GetAncestor, if_neg (by decide)]
      rw [walk_of_le (by decide)]
      rfl
    | 2 => by
      show chain3.GetAncestor 1 (GetSkipHeight 2) = .ok (some 0)
      rw [GetAncestor, if_neg (by decide), walk_skip (s := 0) (by decide) rfl (by decide), walk_of_le (by decide)]
      rfl

theorem GetAncestor_chain3 :
    ∃ a, chain3.ancestor 2 2 = some a ∧ chain3.GetAncestor 2 0 = .ok (some a) :=
  (GetAncestor_eq_ancestor chain3_wellFormed 2 0).2.1 (by decide) (by decide)

end BlockTree

end XPChain.SkipList
