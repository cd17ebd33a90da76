import XPChain.Wallet.CreateTransaction
import XPChain.Lib.Selection
import Mathlib.Data.List.FinRange
import Mathlib.Data.List.Flatten

/-!
# Coin selection: the knapsack solver

`KnapsackSolver` of `wallet/coinselection.cpp`, which `SelectCoinsMinConf`
runs when branch and bound is not used, with `ApproximateBestSubset`, its
randomised subset-sum search.  The solver returns one of five things: a group
of exactly the target; all groups below `nTargetValue + MIN_CHANGE` when they
add up to the target exactly; the smallest larger group when the smaller ones
do not reach the target; and otherwise the better of the smallest larger
group and the subset that `ApproximateBestSubset` finds, aiming at the target
and then at the target plus `MIN_CHANGE`.

The random choices are arguments (`KnapsackDraws`): the outcome of
`random_shuffle` is the permutation it drew, and the coin flips of each
`ApproximateBestSubset` call, whose `FastRandomContext` is seeded afresh, are
a function of the repetition and the index.  `std::sort` with `descending` is
`List.mergeSort` on `effective_value`; nothing below depends on how it orders
equal values.  Amounts are `CAmount`s, integers, as everywhere in this
development.

`setCoinsRet` is a `std::set` ordered by outpoint, the list of
`CreateTransaction`'s `insertCoin`.

## Main definitions

* `OutputGroup`, `OutputGroup.Insert`.
* `ApproximateBestSubset`, `KnapsackSolver`.

## Main statements

* `ApproximateBestSubset_spec` — the flags it returns pick groups worth the
  value it returns, at least the target.
* `KnapsackSolver_spec` — the solver succeeds exactly when the groups reach
  the target, and then returns whole groups worth at least the target.
-/

set_option autoImplicit false

namespace XPChain

open Selection

/-! ## Output groups -/

/-- `OutputGroup`, with the fields coin selection reads.  `m_from_me`,
`m_depth`, `m_ancestors` and `m_descendants` are read only by
`EligibleForSpending`, before the solvers run. -/
structure OutputGroup where
  m_outputs : List CInputCoin
  m_value : CAmount
  effective_value : CAmount
  fee : CAmount
  long_term_fee : CAmount

namespace OutputGroup

/-- `OutputGroup()`. -/
def empty : OutputGroup := ⟨[], 0, 0, 0, 0⟩

/-- `OutputGroup::Insert`: the coin's `effective_value`, which the
`CInputCoin` constructor sets to `txout.nValue` and the knapsack path leaves
as it is, is added to `m_value`, and `effective_value` follows `m_value`. -/
def Insert (g : OutputGroup) (output : CInputCoin) : OutputGroup :=
  { g with m_outputs := g.m_outputs ++ [output], m_value := g.m_value + output.txout.nValue,
           effective_value := g.m_value + output.txout.nValue }

/-- A group's value is the value of its coins, as `Insert` keeps it. -/
def ValueIsTotal (g : OutputGroup) : Prop := g.m_value = (g.m_outputs.map fun c => c.txout.nValue).sum

end OutputGroup

/-- `MIN_CHANGE`: the target minimum change amount. -/
def MIN_CHANGE : CAmount := CENT

/-- `util::insert(setCoinsRet, outputs)`. -/
def insertCoins (setCoins : List CInputCoin) (outputs : List CInputCoin) : List CInputCoin :=
  outputs.foldl (fun s c => insertCoin c s) setCoins

/-- `util::insert(setCoinsRet, group.m_outputs); nValueRet += group.m_value`. -/
def takeGroup (acc : List CInputCoin × CAmount) (group : OutputGroup) : List CInputCoin × CAmount :=
  (insertCoins acc.1 group.m_outputs, acc.2 + group.m_value)

/-! ## `ApproximateBestSubset` -/

/-- The variables of `ApproximateBestSubset`'s loops. -/
structure SubsetState where
  vfIncluded : List Bool
  nTotal : CAmount
  fReachedTarget : Bool
  vfBest : List Bool
  nBest : CAmount

/-- The body of the innermost loop for the group `g` at index `i`, when
`pick` says whether the pass takes it: a group that brings the total to the
target is put back, and the subset with it is kept when it is the smallest
found so far. -/
def subsetStep (nTargetValue : CAmount) (pick : Bool) (g : OutputGroup) (i : ℕ) (st : SubsetState) :
    SubsetState :=
  if pick then
    let nTotal := st.nTotal + g.m_value
    let vfIncluded := st.vfIncluded.set i true
    if nTargetValue ≤ nTotal then
      let st := if nTotal < st.nBest then { st with nBest := nTotal, vfBest := vfIncluded } else st
      { st with fReachedTarget := true, nTotal := nTotal - g.m_value, vfIncluded := vfIncluded.set i false }
    else { st with nTotal := nTotal, vfIncluded := vfIncluded }
  else st

/-- One pass of the middle loop: the inner loop over the groups from index
`i` on; `pick st i` is `insecure_rand.randbool()` on the first pass and
`!vfIncluded[i]` on the second. -/
def subsetPass (nTargetValue : CAmount) (pick : SubsetState → ℕ → Bool) :
    List OutputGroup → ℕ → SubsetState → SubsetState
  | [], _, st => st
  | g :: gs, i, st => subsetPass nTargetValue pick gs (i + 1) (subsetStep nTargetValue (pick st i) g i st)

/-- One repetition of the outer loop, with the middle loop
`for (nPass = 0; nPass < 2 && !fReachedTarget; nPass++)` written out. -/
def subsetRep (groups : List OutputGroup) (nTargetValue : CAmount) (randbool : ℕ → Bool) (st : SubsetState) :
    SubsetState :=
  let st := { st with vfIncluded := List.replicate groups.length false, nTotal := 0, fReachedTarget := false }
  let st := subsetPass nTargetValue (fun _ i => randbool i) groups 0 st
  if st.fReachedTarget then st
  else subsetPass nTargetValue (fun st i => !st.vfIncluded.getD i false) groups 0 st

/-- The outer loop `for (nRep = 0; nRep < iterations && nBest != nTargetValue; nRep++)`,
with `k` repetitions left. -/
def subsetLoop (groups : List OutputGroup) (nTargetValue : CAmount) (randbool : ℕ → ℕ → Bool) :
    ℕ → ℕ → SubsetState → SubsetState
  | 0, _, st => st
  | k + 1, nRep, st =>
    if st.nBest ≠ nTargetValue then
      subsetLoop groups nTargetValue randbool k (nRep + 1) (subsetRep groups nTargetValue (randbool nRep) st)
    else st

/-- `ApproximateBestSubset(groups, nTotalLower, nTargetValue, vfBest, nBest, iterations)`:
the flags `vfBest` and the value `nBest`.  `randbool nRep i` is the coin flip
for group `i` in repetition `nRep`. -/
def ApproximateBestSubset (groups : List OutputGroup) (nTotalLower nTargetValue : CAmount)
    (randbool : ℕ → ℕ → Bool) (iterations : ℕ) : List Bool × CAmount :=
  let st := subsetLoop groups nTargetValue randbool iterations 0
    ⟨[], 0, false, List.replicate groups.length true, nTotalLower⟩
  (st.vfBest, st.nBest)

/-! ## `KnapsackSolver` -/

/-- The first loop of `KnapsackSolver`: `inl` of a group of exactly the
target, which the solver returns at once; otherwise the smallest group of at
least `nTargetValue + MIN_CHANGE`, the groups below it and their total. -/
def knapsackScan (nTargetValue : CAmount) :
    List OutputGroup → Option OutputGroup → List OutputGroup → CAmount →
      OutputGroup ⊕ (Option OutputGroup × List OutputGroup × CAmount)
  | [], lowest_larger, applicable_groups, nTotalLower => .inr (lowest_larger, applicable_groups, nTotalLower)
  | group :: groups, lowest_larger, applicable_groups, nTotalLower =>
    if group.m_value = nTargetValue then .inl group
    else if group.m_value < nTargetValue + MIN_CHANGE then
      knapsackScan nTargetValue groups lowest_larger (applicable_groups ++ [group]) (nTotalLower + group.m_value)
    -- `!lowest_larger || group.m_value < lowest_larger->m_value`
    else if lowest_larger.all fun l => decide (group.m_value < l.m_value) then
      knapsackScan nTargetValue groups (some group) applicable_groups nTotalLower
    else knapsackScan nTargetValue groups lowest_larger applicable_groups nTotalLower

/-- `random_shuffle(groups.begin(), groups.end(), GetRandInt)`, as the
permutation it drew. -/
def randomShuffle {α : Type} (l : List α) (σ : Equiv.Perm (Fin l.length)) : List α :=
  List.ofFn fun i => l.get (σ i)

/-- The stochastic approximation: `ApproximateBestSubset` at the target, and
again at the target plus `MIN_CHANGE` when the first call did not hit the
target and the groups reach that much. -/
def knapsackApproximation (applicable_groups : List OutputGroup) (nTotalLower nTargetValue : CAmount)
    (randbool₁ randbool₂ : ℕ → ℕ → Bool) : List Bool × CAmount :=
  let best := ApproximateBestSubset applicable_groups nTotalLower nTargetValue randbool₁ 1000
  if best.2 ≠ nTargetValue ∧ nTargetValue + MIN_CHANGE ≤ nTotalLower then
    ApproximateBestSubset applicable_groups nTotalLower (nTargetValue + MIN_CHANGE) randbool₂ 1000
  else best

/-- The random choices of one call of `KnapsackSolver`. -/
structure KnapsackDraws (n : ℕ) where
  shuffle : Equiv.Perm (Fin n)
  randbool₁ : ℕ → ℕ → Bool
  randbool₂ : ℕ → ℕ → Bool

/-- `KnapsackSolver(nTargetValue, groups, setCoinsRet, nValueRet)`: whether it
succeeded, `setCoinsRet` and `nValueRet`. -/
def KnapsackSolver (nTargetValue : CAmount) (groups : List OutputGroup) (draws : KnapsackDraws groups.length) :
    Bool × List CInputCoin × CAmount :=
  match knapsackScan nTargetValue (randomShuffle groups draws.shuffle) none [] 0 with
  | .inl group => (true, takeGroup ([], 0) group)
  | .inr (lowest_larger, applicable_groups, nTotalLower) =>
    if nTotalLower = nTargetValue then (true, applicable_groups.foldl takeGroup ([], 0))
    else if nTotalLower < nTargetValue then
      match lowest_larger with
      | none => (false, [], 0)
      | some l => (true, takeGroup ([], 0) l)
    else
      let applicable_groups := applicable_groups.mergeSort fun a b => decide (b.effective_value ≤ a.effective_value)
      let best := knapsackApproximation applicable_groups nTotalLower nTargetValue draws.randbool₁ draws.randbool₂
      -- the larger group when the search found nothing good, or nothing closer
      match lowest_larger.filter fun l =>
          (best.2 ≠ nTargetValue && best.2 < nTargetValue + MIN_CHANGE) || decide (l.m_value ≤ best.2) with
      | some l => (true, takeGroup ([], 0) l)
      | none => (true, (applicable_groups.zip best.1).foldl (fun acc p => if p.2 then takeGroup acc p.1 else acc) ([], 0))

/-! ## Taking whole groups -/

theorem insertCoins_cons (s : List CInputCoin) (c : CInputCoin) (cs : List CInputCoin) :
    insertCoins s (c :: cs) = insertCoins (insertCoin c s) cs := rfl

/-- Coins with outpoints new to the set go in front of it, the last first. -/
theorem insertCoins_of_nodup : ∀ {s cs : List CInputCoin}, ((s ++ cs).map (·.outpoint)).Nodup →
    insertCoins s cs = cs.reverse ++ s
  | s, [], _ => by rw [insertCoins, List.foldl_nil, List.reverse_nil, List.nil_append]
  | s, c :: cs, h => by
    have hperm : ((s ++ c :: cs).map (·.outpoint)).Perm (((c :: s) ++ cs).map (·.outpoint)) :=
      (List.perm_middle).map _
    have hc : c.outpoint ∉ s.map (·.outpoint) := by
      have h' := (h.perm hperm)
      rw [List.cons_append, List.map_cons, List.nodup_cons, List.map_append] at h'
      exact fun hs => h'.1 (List.mem_append_left _ hs)
    have hnew : insertCoin c s = c :: s := by
      rw [insertCoin, if_neg]
      intro hany
      obtain ⟨x, hx, hxc⟩ := List.any_eq_true.mp hany
      exact hc (List.mem_map.mpr ⟨x, hx, beq_iff_eq.mp hxc⟩)
    rw [insertCoins_cons, hnew, insertCoins_of_nodup (h.perm hperm), List.reverse_cons, List.append_assoc,
      List.singleton_append]

theorem foldl_takeGroup : ∀ (S : List OutputGroup) (acc : List CInputCoin × CAmount),
    S.foldl takeGroup acc = (insertCoins acc.1 (S.flatMap (·.m_outputs)), acc.2 + (S.map (·.m_value)).sum)
  | [], acc => by simp [insertCoins]
  | g :: S, acc => by
    rw [List.foldl_cons, foldl_takeGroup S, takeGroup]
    simp only [List.flatMap_cons, insertCoins, List.foldl_append, List.map_cons, List.sum_cons, add_assoc]

/-- The groups the loop `for (i ...) if (vfBest[i])` takes are those `vfBest` selects. -/
theorem foldl_zip_takeGroup : ∀ (gs : List OutputGroup) (vf : List Bool) (acc : List CInputCoin × CAmount),
    (gs.zip vf).foldl (fun acc p => if p.2 then takeGroup acc p.1 else acc) acc = (selected gs vf).foldl takeGroup acc
  | [], _, _ => rfl
  | _ :: _, [], _ => rfl
  | g :: gs, b :: vf, acc => by
    cases b
    · exact foldl_zip_takeGroup gs vf acc
    · exact foldl_zip_takeGroup gs vf (takeGroup acc g)

section Groups

variable {groups : List OutputGroup}

theorem sum_le_of_subperm {S : List OutputGroup} (hS : S.Subperm groups) (hpos : ∀ g ∈ groups, 0 ≤ g.m_value) :
    (S.map (·.m_value)).sum ≤ (groups.map (·.m_value)).sum := by
  obtain ⟨l, hl, hsub⟩ := hS
  rw [← (hl.map _).sum_eq]
  apply (hsub.map _).sum_le_sum
  intro v hv
  obtain ⟨g, hg, rfl⟩ := List.mem_map.mp hv
  exact hpos g hg

/-- Whole groups of `groups` taken into an empty set: when each group is worth
its coins and no coin is in two groups, the value taken is the value of the
coins in the set. -/
theorem foldl_takeGroup_value {S : List OutputGroup} (hS : S.Subperm groups) (htotal : ∀ g ∈ groups, g.ValueIsTotal)
    (hdisj : ((groups.flatMap (·.m_outputs)).map (·.outpoint)).Nodup) :
    (S.foldl takeGroup ([], 0)).2 = ((S.foldl takeGroup ([], 0)).1.map fun c => c.txout.nValue).sum := by
  obtain ⟨l, hl, hsub⟩ := hS
  have hnodup : ((S.flatMap (·.m_outputs)).map (·.outpoint)).Nodup :=
    (hdisj.sublist ((hsub.flatMap _).map _)).perm ((hl.flatMap_right _).map _)
  rw [foldl_takeGroup, insertCoins_of_nodup (by simpa using hnodup), List.append_nil, List.map_reverse,
    List.sum_reverse, zero_add]
  dsimp only
  -- each group is worth its coins
  have hS : ∀ g ∈ S, g.ValueIsTotal := fun g hg => htotal g (hsub.subset (hl.symm.subset hg))
  clear hl hsub hnodup
  induction S with
  | nil => rfl
  | cons g S ih =>
    rw [List.map_cons, List.sum_cons, hS g List.mem_cons_self, ih fun g' hg' => hS g' (List.mem_cons_of_mem g hg'),
      List.flatMap_cons, List.map_append, List.sum_append]

end Groups

/-! ## The subset search -/

theorem getElem_of_drop_eq_cons {α : Type} {l : List α} {i : ℕ} {g : α} {gs : List α} (h : l.drop i = g :: gs) :
    ∃ hi : i < l.length, l[i] = g ∧ l.drop (i + 1) = gs := by
  have hi : i < l.length := by
    by_contra hge
    rw [List.drop_of_length_le (by omega)] at h
    exact List.cons_ne_nil g gs h.symm
  rw [List.drop_eq_getElem_cons hi, List.cons.injEq] at h
  exact ⟨hi, h⟩

section Subset

variable (groups : List OutputGroup) (nTargetValue : CAmount)

/-- What the search keeps across repetitions: `vfBest` selects groups worth
`nBest`, which is at least the target. -/
structure BestInv (st : SubsetState) : Prop where
  length_vfBest : st.vfBest.length = groups.length
  nBest_eq : st.nBest = selectedSum OutputGroup.m_value groups st.vfBest
  le_nBest : nTargetValue ≤ st.nBest

/-- What a pass keeps: `vfIncluded` selects groups worth `nTotal`. -/
structure PassInv (st : SubsetState) : Prop where
  length_vfIncluded : st.vfIncluded.length = groups.length
  nTotal_eq : st.nTotal = selectedSum OutputGroup.m_value groups st.vfIncluded

variable {groups nTargetValue}

/-- One step of the inner loop on a group not yet in the subset keeps both
invariants, and leaves the other flags as they were. -/
theorem subsetStep_inv {st : SubsetState} (hbest : BestInv groups nTargetValue st) (hpass : PassInv groups st)
    {i : ℕ} (hi : i < groups.length) {pick : Bool} (hpick : pick = true → st.vfIncluded.getD i false = false) :
    BestInv groups nTargetValue (subsetStep nTargetValue pick groups[i] i st) ∧
      PassInv groups (subsetStep nTargetValue pick groups[i] i st) ∧
      ∀ j ≠ i, (subsetStep nTargetValue pick groups[i] i st).vfIncluded.getD j false = st.vfIncluded.getD j false := by
  cases pick with
  | false => exact ⟨hbest, hpass, fun _ _ => rfl⟩
  | true =>
    have hv : i < st.vfIncluded.length := hpass.length_vfIncluded ▸ hi
    have hfalse : st.vfIncluded[i] = false := by
      rw [← hpick rfl, List.getD_eq_getElem?_getD, List.getElem?_eq_getElem hv, Option.getD_some]
    -- taking the group in adds its value; putting it back gives the flags as they were
    have hin : selectedSum OutputGroup.m_value groups (st.vfIncluded.set i true) = st.nTotal + groups[i].m_value := by
      rw [selectedSum_set _ _ _ _ hi hv, hfalse, hpass.nTotal_eq]
      simp
    have hout : (st.vfIncluded.set i true).set i false = st.vfIncluded := by
      rw [List.set_set, ← hfalse, List.set_getElem_self]
    have hlen : (st.vfIncluded.set i true).length = groups.length := by
      rw [List.length_set, hpass.length_vfIncluded]
    simp only [subsetStep, if_true]
    split_ifs with hreach hbetter
    · refine ⟨⟨hlen, hin.symm, hreach⟩, ⟨?_, ?_⟩, ?_⟩
      · rw [hout, hpass.length_vfIncluded]
      · rw [hout, add_sub_cancel_right, hpass.nTotal_eq]
      · intro j _
        rw [hout]
    · refine ⟨⟨hbest.1, hbest.2, hbest.3⟩, ⟨?_, ?_⟩, ?_⟩
      · rw [hout, hpass.length_vfIncluded]
      · rw [hout, add_sub_cancel_right, hpass.nTotal_eq]
      · intro j _
        rw [hout]
    · refine ⟨⟨hbest.1, hbest.2, hbest.3⟩, ⟨hlen, hin.symm⟩, ?_⟩
      intro j hj
      rw [List.getD_eq_getElem?_getD, List.getD_eq_getElem?_getD, List.getElem?_set_ne (Ne.symm hj)]

/-- A pass keeps both invariants when every group it picks is not yet in the
subset: on the first pass because it has not been visited, on the second
because the pass picks only such groups.  `Ahead i st` is what the pass knows
before index `i`. -/
theorem subsetPass_inv (pick : SubsetState → ℕ → Bool) (Ahead : ℕ → SubsetState → Prop)
    (hpick : ∀ st i, Ahead i st → pick st i = true → st.vfIncluded.getD i false = false)
    (hnext : ∀ st st' i, Ahead i st →
      (∀ j ≠ i, st'.vfIncluded.getD j false = st.vfIncluded.getD j false) → Ahead (i + 1) st') :
    ∀ (gs : List OutputGroup) (i : ℕ) (st : SubsetState), groups.drop i = gs →
      BestInv groups nTargetValue st → PassInv groups st → Ahead i st →
      BestInv groups nTargetValue (subsetPass nTargetValue pick gs i st) ∧ PassInv groups (subsetPass nTargetValue pick gs i st)
  | [], _, _, _, hbest, hpass, _ => ⟨hbest, hpass⟩
  | g :: gs, i, st, hdrop, hbest, hpass, hahead => by
    obtain ⟨hi, hg, hrest⟩ := getElem_of_drop_eq_cons hdrop
    obtain ⟨hbest', hpass', hframe⟩ := subsetStep_inv hbest hpass hi (hpick st i hahead)
    rw [hg] at hbest' hpass' hframe
    exact subsetPass_inv pick Ahead hpick hnext gs (i + 1) _ hrest hbest' hpass' (hnext _ _ i hahead hframe)

/-- A repetition keeps what the search keeps. -/
theorem subsetRep_inv (randbool : ℕ → Bool) {st : SubsetState} (hbest : BestInv groups nTargetValue st) :
    BestInv groups nTargetValue (subsetRep groups nTargetValue randbool st) := by
  -- the first pass, over flags that are all clear ahead of it
  have hfirst := subsetPass_inv (fun _ i => randbool i) (fun i st => ∀ j ≥ i, st.vfIncluded.getD j false = false)
    (fun st i hahead _ => hahead i le_rfl)
    (fun st st' i hahead hframe j hj => by rw [hframe j (by omega)]; exact hahead j (by omega))
    groups 0 { st with vfIncluded := List.replicate groups.length false, nTotal := 0, fReachedTarget := false }
    (List.drop_zero) ⟨hbest.length_vfBest, hbest.nBest_eq, hbest.le_nBest⟩
    ⟨List.length_replicate, (selectedSum_replicate_false _ _ _).symm⟩
    (fun j _ => by rw [List.getD_eq_getElem?_getD, List.getElem?_replicate]; split <;> rfl)
  -- the second pass picks only groups outside the subset
  have hsecond := fun st' hbest' hpass' => @subsetPass_inv groups nTargetValue
    (fun st i => !st.vfIncluded.getD i false) (fun _ _ => True)
    (fun st i _ h => by simpa using h) (fun _ _ _ _ _ => trivial) groups 0 st' List.drop_zero hbest' hpass' trivial
  simp only [subsetRep]
  split_ifs
  · exact hfirst.1
  · exact (hsecond _ hfirst.1 hfirst.2).1

theorem subsetLoop_inv (randbool : ℕ → ℕ → Bool) :
    ∀ (k nRep : ℕ) (st : SubsetState), BestInv groups nTargetValue st →
      BestInv groups nTargetValue (subsetLoop groups nTargetValue randbool k nRep st)
  | 0, _, _, hbest => hbest
  | k + 1, nRep, st, hbest => by
    simp only [subsetLoop]
    split_ifs
    · exact subsetLoop_inv randbool k (nRep + 1) _ (subsetRep_inv (randbool nRep) hbest)
    · exact hbest

/-- `ApproximateBestSubset` started from all groups, worth at least the target:
the flags it returns select groups worth the value it returns, which is at
least the target. -/
theorem ApproximateBestSubset_spec {nTotalLower : CAmount} (randbool : ℕ → ℕ → Bool) (iterations : ℕ)
    (hlower : nTotalLower = (groups.map (·.m_value)).sum) (htarget : nTargetValue ≤ nTotalLower) :
    (ApproximateBestSubset groups nTotalLower nTargetValue randbool iterations).1.length = groups.length ∧
      (ApproximateBestSubset groups nTotalLower nTargetValue randbool iterations).2 =
        selectedSum OutputGroup.m_value groups (ApproximateBestSubset groups nTotalLower nTargetValue randbool iterations).1 ∧
      nTargetValue ≤ (ApproximateBestSubset groups nTotalLower nTargetValue randbool iterations).2 := by
  have hinit : BestInv groups nTargetValue ⟨[], 0, false, List.replicate groups.length true, nTotalLower⟩ :=
    ⟨List.length_replicate, by rw [hlower, selectedSum_replicate_true], htarget⟩
  obtain ⟨hlen, heq, hle⟩ := subsetLoop_inv randbool iterations 0 _ hinit
  exact ⟨hlen, heq, hle⟩

/-- Both calls start from all groups worth at least their target; what the
approximation returns selects groups worth its value, at least the target. -/
theorem knapsackApproximation_spec {nTotalLower : CAmount} (randbool₁ randbool₂ : ℕ → ℕ → Bool)
    (hlower : nTotalLower = (groups.map (·.m_value)).sum) (htarget : nTargetValue ≤ nTotalLower) :
    (knapsackApproximation groups nTotalLower nTargetValue randbool₁ randbool₂).1.length = groups.length ∧
      (knapsackApproximation groups nTotalLower nTargetValue randbool₁ randbool₂).2 =
        selectedSum OutputGroup.m_value groups (knapsackApproximation groups nTotalLower nTargetValue randbool₁ randbool₂).1 ∧
      nTargetValue ≤ (knapsackApproximation groups nTotalLower nTargetValue randbool₁ randbool₂).2 := by
  simp only [knapsackApproximation]
  split_ifs with hagain
  · obtain ⟨hlen, heq, hle⟩ := ApproximateBestSubset_spec randbool₂ 1000 hlower hagain.2
    have hMIN : (0 : CAmount) ≤ MIN_CHANGE := by decide
    exact ⟨hlen, heq, (le_add_of_nonneg_right hMIN).trans hle⟩
  · exact ApproximateBestSubset_spec randbool₁ 1000 hlower htarget

end Subset

/-! ## The solver -/

theorem knapsackScan_inl {nTargetValue : CAmount} {g : OutputGroup} :
    ∀ {gs : List OutputGroup} {ll : Option OutputGroup} {app : List OutputGroup} {tot : CAmount},
      knapsackScan nTargetValue gs ll app tot = .inl g → g ∈ gs ∧ g.m_value = nTargetValue
  | [], _, _, _, h => by cases h
  | group :: gs, ll, app, tot, h => by
    simp only [knapsackScan] at h
    split_ifs at h with hexact
    · cases h
      exact ⟨List.mem_cons_self, hexact⟩
    all_goals exact (knapsackScan_inl h).imp_left (List.mem_cons_of_mem group)

/-- What the first loop leaves when no group is exactly the target: the groups
below `nTargetValue + MIN_CHANGE` in order and their total, and a larger
group when there is one. -/
theorem knapsackScan_inr {nTargetValue : CAmount} {ll' : Option OutputGroup} {app' : List OutputGroup}
    {tot' : CAmount} :
    ∀ {gs : List OutputGroup} {ll : Option OutputGroup} {app : List OutputGroup} {tot : CAmount},
      knapsackScan nTargetValue gs ll app tot = .inr (ll', app', tot') →
      app' = app ++ gs.filter (fun g => decide (g.m_value < nTargetValue + MIN_CHANGE)) ∧
      tot' = tot + ((gs.filter fun g => decide (g.m_value < nTargetValue + MIN_CHANGE)).map (·.m_value)).sum ∧
      (∀ l, ll' = some l → ll = some l ∨ (l ∈ gs ∧ nTargetValue + MIN_CHANGE ≤ l.m_value)) ∧
      (ll' = none → ll = none ∧ ∀ g ∈ gs, g.m_value < nTargetValue + MIN_CHANGE)
  | [], ll, app, tot, h => by
    simp only [knapsackScan, Sum.inr.injEq, Prod.mk.injEq] at h
    obtain ⟨rfl, rfl, rfl⟩ := h
    simp
  | group :: gs, ll, app, tot, h => by
    simp only [knapsackScan] at h
    -- a group of exactly the target returns at once
    split_ifs at h with hexact hsmall hlower
    · -- a group below the target plus `MIN_CHANGE` joins the applicable ones
      obtain ⟨happ, htot, hsome, hnone⟩ := knapsackScan_inr h
      have hfilter := List.filter_cons_of_pos (p := fun g => decide (g.m_value < nTargetValue + MIN_CHANGE))
        (l := gs) (by simpa using hsmall)
      refine ⟨by rw [happ, hfilter, List.append_assoc, List.singleton_append], ?_, ?_, ?_⟩
      · rw [htot, hfilter, List.map_cons, List.sum_cons, add_assoc]
      · intro l hl
        exact (hsome l hl).imp_right (And.imp_left (List.mem_cons_of_mem group))
      · intro hl
        refine ⟨(hnone hl).1, ?_⟩
        intro g hg
        rcases List.mem_cons.mp hg with rfl | hg
        · exact hsmall
        · exact (hnone hl).2 g hg
    -- a larger group: the applicable groups and their total are as they were
    all_goals
      have hlarge : nTargetValue + MIN_CHANGE ≤ group.m_value := le_of_not_gt hsmall
      have hfilter := List.filter_cons_of_neg (p := fun g => decide (g.m_value < nTargetValue + MIN_CHANGE))
        (l := gs) (by simpa using hlarge)
      obtain ⟨happ, htot, hsome, hnone⟩ := knapsackScan_inr h
      refine ⟨by rw [happ, hfilter], by rw [htot, hfilter], fun l hl => ?_, fun hl => ?_⟩
    · -- it becomes the smallest larger one
      rcases hsome l hl with hg | ⟨hl, hle⟩
      · cases hg
        exact Or.inr ⟨List.mem_cons_self, hlarge⟩
      · exact Or.inr ⟨List.mem_cons_of_mem group hl, hle⟩
    · exact absurd (hnone hl).1 (Option.some_ne_none group)
    · -- a smaller larger group was found before it
      exact (hsome l hl).imp_right (And.imp_left (List.mem_cons_of_mem group))
    · rw [(hnone hl).1] at hlower
      exact absurd rfl hlower

theorem randomShuffle_perm {α : Type} (l : List α) (σ : Equiv.Perm (Fin l.length)) : (randomShuffle l σ).Perm l := by
  have h := Equiv.Perm.ofFn_comp_perm σ l.get
  rwa [List.ofFn_get] at h

/-- What `KnapsackSolver` returns, whatever its draws: whole groups worth at
least the target, taken into an empty set; or failure with nothing taken,
when all the groups together are worth less than the target. -/
theorem KnapsackSolver_cases (nTargetValue : CAmount) (groups : List OutputGroup)
    (draws : KnapsackDraws groups.length) :
    (∃ S : List OutputGroup, S.Subperm groups ∧ nTargetValue ≤ (S.map (·.m_value)).sum ∧
      KnapsackSolver nTargetValue groups draws = (true, S.foldl takeGroup ([], 0))) ∨
    ((groups.map (·.m_value)).sum < nTargetValue ∧ KnapsackSolver nTargetValue groups draws = (false, [], 0)) := by
  have hperm := randomShuffle_perm groups draws.shuffle
  have hMIN : (0 : CAmount) < MIN_CHANGE := by decide
  simp only [KnapsackSolver]
  split
  · -- a group of exactly the target
    rename_i g hscan
    obtain ⟨hg, hv⟩ := knapsackScan_inl hscan
    exact Or.inl ⟨[g], List.singleton_subperm_iff.mpr (hperm.subset hg), by simp [hv], rfl⟩
  rename_i ll app tot hscan
  obtain ⟨happ, htot, hsome, hnone⟩ := knapsackScan_inr hscan
  rw [List.nil_append] at happ
  rw [zero_add, ← happ] at htot
  have hsub : app.Subperm groups := happ ▸ List.filter_sublist.subperm.trans hperm.subperm
  -- the larger group is one of the groups, worth more than the target
  have hlarger : ∀ l, ll = some l → [l].Subperm groups ∧ nTargetValue ≤ ([l].map (·.m_value)).sum := by
    intro l hl
    rcases hsome l hl with h | ⟨hl, hle⟩
    · cases h
    · refine ⟨List.singleton_subperm_iff.mpr (hperm.subset hl), ?_⟩
      rw [List.map_singleton, List.sum_singleton]
      linarith
  split_ifs with hexact hbelow
  · exact Or.inl ⟨app, hsub, by rw [← htot, hexact], rfl⟩
  · cases ll with
    | none =>
      -- no larger group: every group is below the target plus `MIN_CHANGE`
      have hall : app = randomShuffle groups draws.shuffle := by
        rw [happ, List.filter_eq_self]
        intro g hg
        simpa using (hnone rfl).2 g hg
      refine Or.inr ⟨?_, rfl⟩
      rw [← (hperm.map _).sum_eq, ← hall, ← htot]
      exact hbelow
    | some l =>
      obtain ⟨hl, hle⟩ := hlarger l rfl
      exact Or.inl ⟨[l], hl, hle, rfl⟩
  · -- the search, over the groups below the target plus `MIN_CHANGE`, largest first
    set sorted := app.mergeSort fun a b => decide (b.effective_value ≤ a.effective_value)
    have hsorted : sorted.Perm app := List.mergeSort_perm _ _
    set best := knapsackApproximation sorted tot nTargetValue draws.randbool₁ draws.randbool₂
    obtain ⟨-, hval, hle⟩ := knapsackApproximation_spec draws.randbool₁ draws.randbool₂
      (by rw [htot, (hsorted.map _).sum_eq]) (le_of_lt (lt_of_le_of_ne (not_lt.mp hbelow) (Ne.symm hexact)))
    split
    · rename_i l hfilter
      obtain ⟨hl, hle⟩ := hlarger l (Option.filter_eq_some_iff.mp hfilter).1
      exact Or.inl ⟨[l], hl, hle, rfl⟩
    · refine Or.inl ⟨selected sorted best.1, (selected_sublist _ _).subperm.trans (hsorted.subperm.trans hsub), ?_, ?_⟩
      · rw [← selectedSum, ← hval]
        exact hle
      · rw [foldl_zip_takeGroup]

example : KnapsackSolver 5 [⟨[⟨⟨1, 0⟩, ⟨2, []⟩⟩], 2, 2, 0, 0⟩, ⟨[⟨⟨2, 0⟩, ⟨5, []⟩⟩], 5, 5, 0, 0⟩]
    ⟨Equiv.refl _, fun _ _ => true, fun _ _ => true⟩ = (true, [⟨⟨2, 0⟩, ⟨5, []⟩⟩], 5) := by
  decide

theorem knapsackSolver_covers_target (nTargetValue : CAmount) (groups : List OutputGroup)
    (draws : KnapsackDraws groups.length) (hpos : ∀ g ∈ groups, 0 < g.m_value)
    (htotal : ∀ g ∈ groups, g.ValueIsTotal) (hdisj : ((groups.flatMap (·.m_outputs)).map (·.outpoint)).Nodup) :
    ((KnapsackSolver nTargetValue groups draws).1 = true ↔ nTargetValue ≤ (groups.map (·.m_value)).sum) ∧
    ((KnapsackSolver nTargetValue groups draws).1 = true →
      (KnapsackSolver nTargetValue groups draws).2.2 =
        ((KnapsackSolver nTargetValue groups draws).2.1.map fun c => c.txout.nValue).sum ∧
      nTargetValue ≤ (KnapsackSolver nTargetValue groups draws).2.2) := by
  rcases KnapsackSolver_cases nTargetValue groups draws with ⟨S, hS, hle, hrun⟩ | ⟨hlt, hrun⟩
  · -- whole groups worth at least the target, and no more than all of them
    have hvalue : (S.foldl takeGroup ([], 0)).2 = (S.map (·.m_value)).sum := by
      rw [foldl_takeGroup, zero_add]
    have hall := sum_le_of_subperm hS fun g hg => (hpos g hg).le
    rw [hrun]
    exact ⟨iff_of_true rfl (hle.trans hall), fun _ => ⟨foldl_takeGroup_value hS htotal hdisj, hvalue ▸ hle⟩⟩
  · rw [hrun]
    exact ⟨iff_of_false Bool.false_ne_true (not_le.mpr hlt), fun h => absurd h Bool.false_ne_true⟩

theorem knapsackSolver_covers_target_two_groups :
    (∀ g ∈ [(⟨[⟨⟨1, 0⟩, ⟨2, []⟩⟩], 2, 2, 0, 0⟩ : OutputGroup), ⟨[⟨⟨2, 0⟩, ⟨5, []⟩⟩], 5, 5, 0, 0⟩], 0 < g.m_value) ∧
    (∀ g ∈ [(⟨[⟨⟨1, 0⟩, ⟨2, []⟩⟩], 2, 2, 0, 0⟩ : OutputGroup), ⟨[⟨⟨2, 0⟩, ⟨5, []⟩⟩], 5, 5, 0, 0⟩], g.ValueIsTotal) ∧
    (([(⟨[⟨⟨1, 0⟩, ⟨2, []⟩⟩], 2, 2, 0, 0⟩ : OutputGroup), ⟨[⟨⟨2, 0⟩, ⟨5, []⟩⟩], 5, 5, 0, 0⟩].flatMap
      (·.m_outputs)).map (·.outpoint)).Nodup ∧
    (((KnapsackSolver 6 [⟨[⟨⟨1, 0⟩, ⟨2, []⟩⟩], 2, 2, 0, 0⟩, ⟨[⟨⟨2, 0⟩, ⟨5, []⟩⟩], 5, 5, 0, 0⟩]
        ⟨Equiv.refl _, fun _ _ => true, fun _ _ => true⟩).1 = true ↔
        6 ≤ ([(⟨[⟨⟨1, 0⟩, ⟨2, []⟩⟩], 2, 2, 0, 0⟩ : OutputGroup), ⟨[⟨⟨2, 0⟩, ⟨5, []⟩⟩], 5, 5, 0, 0⟩].map
          (·.m_value)).sum) ∧
      ((KnapsackSolver 6 [⟨[⟨⟨1, 0⟩, ⟨2, []⟩⟩], 2, 2, 0, 0⟩, ⟨[⟨⟨2, 0⟩, ⟨5, []⟩⟩], 5, 5, 0, 0⟩]
        ⟨Equiv.refl _, fun _ _ => true, fun _ _ => true⟩).1 = true →
        (KnapsackSolver 6 [⟨[⟨⟨1, 0⟩, ⟨2, []⟩⟩], 2, 2, 0, 0⟩, ⟨[⟨⟨2, 0⟩, ⟨5, []⟩⟩], 5, 5, 0, 0⟩]
          ⟨Equiv.refl _, fun _ _ => true, fun _ _ => true⟩).2.2 =
          ((KnapsackSolver 6 [⟨[⟨⟨1, 0⟩, ⟨2, []⟩⟩], 2, 2, 0, 0⟩, ⟨[⟨⟨2, 0⟩, ⟨5, []⟩⟩], 5, 5, 0, 0⟩]
            ⟨Equiv.refl _, fun _ _ => true, fun _ _ => true⟩).2.1.map fun c => c.txout.nValue).sum ∧
        6 ≤ (KnapsackSolver 6 [⟨[⟨⟨1, 0⟩, ⟨2, []⟩⟩], 2, 2, 0, 0⟩, ⟨[⟨⟨2, 0⟩, ⟨5, []⟩⟩], 5, 5, 0, 0⟩]
          ⟨Equiv.refl _, fun _ _ => true, fun _ _ => true⟩).2.2)) := by
  have hpos : ∀ g ∈ [(⟨[⟨⟨1, 0⟩, ⟨2, []⟩⟩], 2, 2, 0, 0⟩ : OutputGroup), ⟨[⟨⟨2, 0⟩, ⟨5, []⟩⟩], 5, 5, 0, 0⟩],
      0 < g.m_value := by decide
  have htotal : ∀ g ∈ [(⟨[⟨⟨1, 0⟩, ⟨2, []⟩⟩], 2, 2, 0, 0⟩ : OutputGroup), ⟨[⟨⟨2, 0⟩, ⟨5, []⟩⟩], 5, 5, 0, 0⟩],
      g.ValueIsTotal := by
    intro g hg
    rcases List.mem_pair.mp hg with rfl | rfl <;> rfl
  have hdisj : (([(⟨[⟨⟨1, 0⟩, ⟨2, []⟩⟩], 2, 2, 0, 0⟩ : OutputGroup), ⟨[⟨⟨2, 0⟩, ⟨5, []⟩⟩], 5, 5, 0, 0⟩].flatMap
      (·.m_outputs)).map (·.outpoint)).Nodup := by decide
  exact ⟨hpos, htotal, hdisj, knapsackSolver_covers_target 6 _ ⟨Equiv.refl _, fun _ _ => true, fun _ _ => true⟩
    hpos htotal hdisj⟩

end XPChain
