import XPChain.Wallet.CoinSelection
import XPChain.Lib.TreePath

/-!
# Coin selection: branch and bound

`SelectCoinsBnB` of `wallet/coinselection.cpp` searches the subsets of the
output groups, sorted by effective value, depth first with the inclusion
branch first.  `curr_selection` is the path to the current node,
`curr_value` and `curr_waste` total the effective values and the fees above
the long-term fees of the groups it includes, and `curr_available_value`
totals the groups below it.  A node is left when the target is out of
reach, when its value is over the range, when its waste is over the best
and can only grow, and when its value is within the range, after it is
recorded as the best when its waste is no worse.  A group is not included
right after an excluded group of the same value and fee.

The search leaves behind the leaves `TreePath.Passed` names.  `BnBInv` says
what the variables hold, that the best selection is within range, and what
the search has established about the leaves it passed: under a bound on the
wastes (`WasteBounded`), that some best is recorded if one of them is within
range, and when no group's fee is below its long-term fee and equal fees mean
equal long-term fees (`FeesAtLeastLongTerm`), that none of them wastes less
than the best.  Each move of the search keeps it (`bnbStep_inv`).

When the current fee is below the long-term fee, a selection within range
with one more group may waste less, and the search does not look for it
(`SelectCoinsBnB_not_least_waste`).

## Main definitions

* `BnBState`, `bnbStep`, `bnbLoop`, `SelectCoinsBnB`.

## Main statements

* `bnbStep_inv`, `bnbLoop_inv` — the search keeps `BnBInv`.
* `SelectCoinsBnB_some` — a returned selection is the best leaf, within range.
* `bnbSearch_found`, `bnbSearch_least` — what a finished search accounts for,
  over every sub-multiset of the pool.
* `SelectCoinsBnB_complete` — a finished search returns a selection when one
  is within range.
-/

set_option autoImplicit false

namespace XPChain

open Selection TreePath

/-! ## The search -/

/-- `TOTAL_TRIES`: the iterations the search may take. -/
def TOTAL_TRIES : ℕ := 100000

/-- `std::vector<bool>::resize(n)`. -/
def resizeFlags (l : List Bool) (n : ℕ) : List Bool :=
  l.take n ++ List.replicate (n - l.length) false

/-- The variables of `SelectCoinsBnB`'s search. -/
structure BnBState where
  curr_value : CAmount
  curr_available_value : CAmount
  curr_waste : CAmount
  curr_selection : List Bool
  best_selection : List Bool
  best_waste : CAmount

/-- The walk back of a backtrack, on the selection given last flag first:
the excluded flags are popped, and their groups' values return to the
lookahead. -/
def popExcluded (pool : List OutputGroup) : List Bool → CAmount → List Bool × CAmount
  | false :: rest, avail =>
    popExcluded pool rest (avail + (pool.getD rest.length OutputGroup.empty).effective_value)
  | sel, avail => (sel, avail)

/-- The three conditions for starting a backtrack: the target is out of
reach of the groups left, the value is over the range, or the waste is over
the best while adding groups adds waste. -/
def bnbBacktrack (pool : List OutputGroup) (actual_target cost_of_change : CAmount) (st : BnBState) : Bool :=
  decide (st.curr_value + st.curr_available_value < actual_target) ||
    decide (st.curr_value > actual_target + cost_of_change) ||
    (decide (st.curr_waste > st.best_waste) &&
      decide ((pool.getD 0 OutputGroup.empty).fee - (pool.getD 0 OutputGroup.empty).long_term_fee > 0))

/-- A selection within range becomes the best when its waste, with the
excess value, is no more than the best's. -/
def bnbRecord (n : ℕ) (actual_target : CAmount) (st : BnBState) : BnBState :=
  if st.curr_waste + (st.curr_value - actual_target) ≤ st.best_waste then
    { st with best_selection := resizeFlags st.curr_selection n,
              best_waste := st.curr_waste + (st.curr_value - actual_target) }
  else st

/-- The backtrack: walk back to the last included group and exclude it, or
`none`, the `break`, when every group on the path is excluded. -/
def bnbBack (pool : List OutputGroup) (st : BnBState) : Option BnBState :=
  match popExcluded pool st.curr_selection.reverse st.curr_available_value with
  | ([], _) => none
  | (_ :: rest, avail) =>
    let utxo := pool.getD rest.length OutputGroup.empty
    some { st with curr_selection := (false :: rest).reverse, curr_available_value := avail,
                   curr_value := st.curr_value - utxo.effective_value,
                   curr_waste := st.curr_waste - (utxo.fee - utxo.long_term_fee) }

/-- Moving forward: the next group is included, unless the group before it
was excluded and has the same value and fee. -/
def bnbForward (pool : List OutputGroup) (st : BnBState) : BnBState :=
  let utxo := pool.getD st.curr_selection.length OutputGroup.empty
  let prev := pool.getD (st.curr_selection.length - 1) OutputGroup.empty
  if st.curr_selection.getLast? = some false ∧ utxo.effective_value = prev.effective_value ∧
      utxo.fee = prev.fee then
    { st with curr_available_value := st.curr_available_value - utxo.effective_value,
              curr_selection := st.curr_selection ++ [false] }
  else
    { st with curr_available_value := st.curr_available_value - utxo.effective_value,
              curr_selection := st.curr_selection ++ [true],
              curr_value := st.curr_value + utxo.effective_value,
              curr_waste := st.curr_waste + (utxo.fee - utxo.long_term_fee) }

/-- The backtrack that ends an iteration: the loop goes on (`inl`) from the
node walked back to, or ends at the `break` (`inr`). -/
def bnbBackStep (pool : List OutputGroup) (st : BnBState) : BnBState ⊕ BnBState :=
  match bnbBack pool st with
  | some st' => .inl st'
  | none => .inr st

/-- One iteration of the search loop. -/
def bnbStep (pool : List OutputGroup) (actual_target cost_of_change : CAmount) (st : BnBState) :
    BnBState ⊕ BnBState :=
  if bnbBacktrack pool actual_target cost_of_change st then bnbBackStep pool st
  else if actual_target ≤ st.curr_value then bnbBackStep pool (bnbRecord pool.length actual_target st)
  else .inl (bnbForward pool st)

/-- The loop `for (size_t i = 0; i < TOTAL_TRIES; ++i)` with `k` iterations
left: the state it ends in, and whether it ended at the `break`. -/
def bnbLoop (pool : List OutputGroup) (actual_target cost_of_change : CAmount) :
    ℕ → BnBState → BnBState × Bool
  | 0, st => (st, false)
  | k + 1, st =>
    match bnbStep pool actual_target cost_of_change st with
    | .inl st' => bnbLoop pool actual_target cost_of_change k st'
    | .inr st' => (st', true)

/-- `utxo_pool` sorted by `descending`. -/
def bnbPool (utxo_pool : List OutputGroup) : List OutputGroup :=
  utxo_pool.mergeSort fun a b => decide (b.effective_value ≤ a.effective_value)

/-- The search run on the sorted pool from the start. -/
def bnbSearch (utxo_pool : List OutputGroup) (target_value cost_of_change not_input_fees : CAmount) :
    BnBState × Bool :=
  bnbLoop (bnbPool utxo_pool) (not_input_fees + target_value) cost_of_change TOTAL_TRIES
    ⟨0, (utxo_pool.map (·.effective_value)).sum, 0, [], [], MAX_MONEY⟩

/-- `SelectCoinsBnB`: `.error` at the failed `assert`, `none` when it returns
`false` (with `out_set` cleared and `value_ret` untouched), and otherwise
`out_set` and `value_ret`. -/
def SelectCoinsBnB (utxo_pool : List OutputGroup) (target_value cost_of_change not_input_fees : CAmount) :
    Except String (Option (List CInputCoin × CAmount)) := do
  utxo_pool.forM fun utxo =>
    if ¬ utxo.effective_value > 0 then throw "assert(utxo.effective_value > 0)" else pure ()
  if (utxo_pool.map (·.effective_value)).sum < not_input_fees + target_value then return none
  let best_selection := (bnbSearch utxo_pool target_value cost_of_change not_input_fees).1.best_selection
  if best_selection.isEmpty then return none
  return some (((bnbPool utxo_pool).zip best_selection).foldl
    (fun acc gb => if gb.2 then takeGroup acc gb.1 else acc) ([], 0))

/-! ## What the search keeps -/

section Invariant

variable (pool : List OutputGroup) (actual_target cost_of_change : CAmount)

/-- The effective value of the groups a selection includes. -/
def selValue (c : List Bool) : CAmount := selectedSum (·.effective_value) pool c

/-- The fees above the long-term fees of the groups a selection includes. -/
def selFees (c : List Bool) : CAmount := selectedSum (fun g => g.fee - g.long_term_fee) pool c

/-- The waste of a selection: its fees above the long-term fees, and its
value above the target. -/
def selWaste (S : List Bool) : CAmount := selFees pool S + (selValue pool S - actual_target)

/-- A value from the target up to the target plus the cost of change. -/
def InRange (v : CAmount) : Prop := actual_target ≤ v ∧ v ≤ actual_target + cost_of_change

/-- Adding a group never lowers the waste: no fee is below its long-term fee,
and equal fees have equal long-term fees, as under one fee rate and one
long-term fee rate. -/
def FeesAtLeastLongTerm : Prop :=
  (∀ g ∈ pool, g.long_term_fee ≤ g.fee) ∧
    ∀ g ∈ pool, ∀ g' ∈ pool, g.fee = g'.fee → g.long_term_fee = g'.long_term_fee

/-- No waste of a selection within range reaches past `MAX_MONEY`, where the
best waste starts, and there is a group to select. -/
def WasteBounded : Prop :=
  pool ≠ [] ∧ 0 ≤ cost_of_change ∧
    (pool.map fun g => max 0 (g.fee - g.long_term_fee)).sum + cost_of_change ≤ MAX_MONEY

/-- The best selection held is a leaf within range with its waste, or there
is none yet and the best waste is still `MAX_MONEY`. -/
def BestSound (st : BnBState) : Prop :=
  (st.best_selection.length = pool.length ∧
      InRange actual_target cost_of_change (selValue pool st.best_selection) ∧
      st.best_waste = selWaste pool actual_target st.best_selection) ∨
    (st.best_selection = [] ∧ st.best_waste = MAX_MONEY)

/-- What the best held accounts for, of the leaves `L`: under `WasteBounded`,
a best is held if one of them is within range; under `FeesAtLeastLongTerm`,
none of them within range wastes less than the best. -/
structure Accounts (st : BnBState) (L : List Bool → Prop) : Prop where
  found : WasteBounded pool cost_of_change → ∀ S, S.length = pool.length → L S →
    InRange actual_target cost_of_change (selValue pool S) → st.best_selection ≠ []
  least : FeesAtLeastLongTerm pool → ∀ S, S.length = pool.length → L S →
    InRange actual_target cost_of_change (selValue pool S) → st.best_waste ≤ selWaste pool actual_target S

/-- The invariant of the search loop. -/
structure BnBInv (st : BnBState) : Prop where
  length_le : st.curr_selection.length ≤ pool.length
  value_eq : st.curr_value = selValue pool st.curr_selection
  waste_eq : st.curr_waste = selFees pool st.curr_selection
  available_eq : st.curr_available_value = ((pool.drop st.curr_selection.length).map (·.effective_value)).sum
  best : BestSound pool actual_target cost_of_change st
  passed : Accounts pool actual_target cost_of_change st (Passed st.curr_selection)

variable {pool actual_target cost_of_change}

theorem Accounts.union {st : BnBState} {L₁ L₂ : List Bool → Prop}
    (h₁ : Accounts pool actual_target cost_of_change st L₁) (h₂ : Accounts pool actual_target cost_of_change st L₂) :
    Accounts pool actual_target cost_of_change st (fun S => L₁ S ∨ L₂ S) :=
  ⟨fun hb S hS hL hin => hL.elim (h₁.found hb S hS · hin) (h₂.found hb S hS · hin),
    fun hf S hS hL hin => hL.elim (h₁.least hf S hS · hin) (h₂.least hf S hS · hin)⟩

theorem Accounts.mono {st : BnBState} {L L' : List Bool → Prop} (h : Accounts pool actual_target cost_of_change st L)
    (hL : ∀ S, S.length = pool.length → L' S → L S) : Accounts pool actual_target cost_of_change st L' :=
  ⟨fun hb S hS hL' hin => h.found hb S hS (hL S hS hL') hin, fun hf S hS hL' hin => h.least hf S hS (hL S hS hL') hin⟩

/-- What the best accounts for depends on the best only. -/
theorem Accounts.of_best_eq {st st' : BnBState} {L : List Bool → Prop} (h : Accounts pool actual_target cost_of_change st L)
    (hsel : st'.best_selection = st.best_selection) (hwaste : st'.best_waste = st.best_waste) :
    Accounts pool actual_target cost_of_change st' L :=
  ⟨fun hb S hS hL hin => hsel ▸ h.found hb S hS hL hin, fun hf S hS hL hin => hwaste ▸ h.least hf S hS hL hin⟩

/-- A best that is held stays held, and the best waste only falls. -/
theorem Accounts.improve {st st' : BnBState} {L : List Bool → Prop} (h : Accounts pool actual_target cost_of_change st L)
    (hfound : st.best_selection ≠ [] → st'.best_selection ≠ []) (hleast : st'.best_waste ≤ st.best_waste) :
    Accounts pool actual_target cost_of_change st' L :=
  ⟨fun hb S hS hL hin => hfound (h.found hb S hS hL hin), fun hf S hS hL hin => hleast.trans (h.least hf S hS hL hin)⟩

/-- With no best held, the best waste is `MAX_MONEY`. -/
theorem BestSound.ne_nil_of_lt {st : BnBState} (h : BestSound pool actual_target cost_of_change st)
    (hpool : pool ≠ []) (hlt : st.best_waste < MAX_MONEY) : st.best_selection ≠ [] := by
  rcases h with ⟨hlen, -, -⟩ | ⟨-, hmax⟩
  · intro hnil
    rw [hnil, List.length_nil] at hlen
    exact hpool (List.eq_nil_of_length_eq_zero hlen.symm)
  · exact absurd hmax hlt.ne

/-! ### Values below a node -/

section Values

variable (hpos : ∀ g ∈ pool, 0 < g.effective_value)
include hpos

/-- Below a node, the value is at least the node's. -/
theorem selValue_prefix_le {c S : List Bool} (h : c <+: S) : selValue pool c ≤ selValue pool S := by
  obtain ⟨d, rfl⟩ := h
  rw [selValue, selValue, selectedSum_append]
  exact le_add_of_nonneg_right
    (selectedSum_nonneg _ _ _ fun g hg => (hpos g (List.mem_of_mem_drop hg)).le)

/-- Below a node, the value is at most the node's and all the groups after it. -/
theorem selValue_le_available {c S : List Bool} (h : c <+: S) :
    selValue pool S ≤ selValue pool c + ((pool.drop c.length).map (·.effective_value)).sum := by
  obtain ⟨d, rfl⟩ := h
  rw [selValue, selValue, selectedSum_append]
  exact add_le_add_right (selectedSum_le_sum _ _ _ fun g hg => (hpos g (List.mem_of_mem_drop hg)).le) _

end Values

/-- Below a node, the fees above the long-term fees only grow. -/
theorem selFees_prefix_le (hfees : FeesAtLeastLongTerm pool) {c S : List Bool} (h : c <+: S) :
    selFees pool c ≤ selFees pool S := by
  obtain ⟨d, rfl⟩ := h
  rw [selFees, selFees, selectedSum_append]
  exact le_add_of_nonneg_right
    (selectedSum_nonneg _ _ _ fun g hg => sub_nonneg.mpr (hfees.1 g (List.mem_of_mem_drop hg)))

/-- The fees above the long-term fees of a selection are at most the sum of
the positive ones. -/
theorem selFees_le_bound (S : List Bool) :
    selFees pool S ≤ (pool.map fun g => max 0 (g.fee - g.long_term_fee)).sum :=
  (selectedSum_mono _ _ _ _ fun _ _ => le_max_right 0 _).trans
    (selectedSum_le_sum _ _ _ fun _ _ => le_max_left 0 _)

/-! ### The moves of the search -/

/-- The values of the next `m` groups from index `k`, one at a time. -/
theorem sum_take_succ (k m : ℕ) :
    (((pool.drop k).take (m + 1)).map (·.effective_value)).sum =
      (((pool.drop k).take m).map (·.effective_value)).sum + (pool.getD (k + m) OutputGroup.empty).effective_value := by
  rw [List.take_add_one, List.map_append, List.sum_append, List.getD_eq_getElem?_getD, List.getElem?_drop]
  cases (pool[k + m]?)
  · rfl
  · simp

/-- Popping `m` excluded flags returns the values of their groups. -/
theorem popExcluded_replicate (r : List Bool) :
    ∀ (m : ℕ) (avail : CAmount), popExcluded pool (List.replicate m false ++ r) avail =
      popExcluded pool r (avail + (((pool.drop r.length).take m).map (·.effective_value)).sum)
  | 0, avail => by simp
  | m + 1, avail => by
    rw [List.replicate_succ, List.cons_append, popExcluded, popExcluded_replicate r m, List.length_append,
      List.length_replicate, sum_take_succ, Nat.add_comm m r.length]
    ring_nf

/-- Walking back from a path of exclusions only ends the search. -/
theorem bnbBack_replicate (st : BnBState) (m : ℕ) (hc : st.curr_selection = List.replicate m false) :
    bnbBack pool st = none := by
  have hpop := @popExcluded_replicate pool [] m st.curr_available_value
  rw [List.append_nil] at hpop
  rw [bnbBack, hc, List.reverse_replicate, hpop]
  rfl

/-- Walking back from a path whose last inclusion is followed by `m`
exclusions: the exclusions are popped and the inclusion becomes one. -/
theorem bnbBack_of_last_true (st : BnBState) (P : List Bool) (m : ℕ)
    (hc : st.curr_selection = P ++ [true] ++ List.replicate m false) :
    bnbBack pool st = some { st with
      curr_selection := P ++ [false],
      curr_available_value :=
        st.curr_available_value + (((pool.drop (P.length + 1)).take m).map (·.effective_value)).sum,
      curr_value := st.curr_value - (pool.getD P.length OutputGroup.empty).effective_value,
      curr_waste := st.curr_waste -
        ((pool.getD P.length OutputGroup.empty).fee - (pool.getD P.length OutputGroup.empty).long_term_fee) } := by
  have hrev : st.curr_selection.reverse = List.replicate m false ++ true :: P.reverse := by
    rw [hc, List.reverse_append, List.reverse_replicate, List.reverse_append]
    rfl
  rw [bnbBack, hrev, popExcluded_replicate, List.length_cons, List.length_reverse]
  simp [popExcluded]

/-- Excluding the last inclusion takes its group's share out of a total. -/
theorem selectedSum_backtrack (f : OutputGroup → CAmount) (P : List Bool) (m : ℕ) (hP : P.length < pool.length) :
    selectedSum f pool (P ++ [true] ++ List.replicate m false) - f (pool.getD P.length OutputGroup.empty) =
      selectedSum f pool (P ++ [false]) := by
  rw [selectedSum_append_replicate_false, selectedSum_snoc _ _ _ _ hP, selectedSum_snoc _ _ _ _ hP,
    List.getD_eq_getElem _ _ hP]
  simp

/-- The backtrack keeps the invariant when the subtree of the node it
leaves is accounted for, and at the `break` every leaf is. -/
theorem bnbBack_inv {st : BnBState} (hinv : BnBInv pool actual_target cost_of_change st)
    (hnode : Accounts pool actual_target cost_of_change st (st.curr_selection <+: ·)) :
    (∀ st', bnbBack pool st = some st' → BnBInv pool actual_target cost_of_change st') ∧
      (bnbBack pool st = none → Accounts pool actual_target cost_of_change st fun _ => True) := by
  have hall := hinv.passed.union hnode
  have hlen := hinv.length_le
  rcases path_cases st.curr_selection with ⟨m, hc⟩ | ⟨P, m, hc⟩
  · -- every group on the path is excluded: the search ends
    refine ⟨fun st' h => ?_, fun _ => hall.mono fun S hS _ => ?_⟩
    · rw [bnbBack_replicate st m hc] at h
      cases h
    · rw [hc]
      rw [hc, List.length_replicate] at hlen
      exact passed_or_prefix_replicate S m (by omega)
  · refine ⟨fun st' h => ?_, fun h => ?_⟩
    · rw [bnbBack_of_last_true st P m hc, Option.some_inj] at h
      subst h
      rw [hc] at hlen
      simp only [List.length_append, List.length_singleton, List.length_replicate] at hlen
      have hP : P.length < pool.length := by omega
      refine ⟨by simp; omega, ?_, ?_, ?_, hinv.best, Accounts.of_best_eq (hall.mono fun S hS hpass => ?_) rfl rfl⟩
      · rw [hinv.value_eq, hc]
        exact selectedSum_backtrack _ P m hP
      · rw [hinv.waste_eq, hc]
        exact selectedSum_backtrack (fun g => g.fee - g.long_term_fee) P m hP
      · -- the popped groups return to the lookahead
        have hdrop : pool.drop (P.length + 1 + m) = (pool.drop (P.length + 1)).drop m := by
          rw [List.drop_drop]
        dsimp only
        rw [hinv.available_eq, hc]
        simp only [List.length_append, List.length_singleton, List.length_replicate]
        rw [hdrop, add_comm, ← List.sum_append, ← List.map_append, List.take_append_drop]
      · rw [hc]
        exact (passed_backtrack P S m (by omega)).mp hpass
    · rw [bnbBack_of_last_true st P m hc] at h
      cases h

/-! ### Why a node may be left -/

/-- A leaf below a node wastes at least the node with its excess value. -/
theorem selWaste_ge_node (hpos : ∀ g ∈ pool, 0 < g.effective_value) (hfees : FeesAtLeastLongTerm pool)
    {c S : List Bool} (hpre : c <+: S) :
    selFees pool c + (selValue pool c - actual_target) ≤ selWaste pool actual_target S :=
  add_le_add (selFees_prefix_le hfees hpre) (sub_le_sub_right (selValue_prefix_le hpos hpre) _)

/-- Under `WasteBounded`, a node within range wastes no more than `MAX_MONEY`. -/
theorem node_waste_le_max (hbound : WasteBounded pool cost_of_change) {c : List Bool}
    (hin : InRange actual_target cost_of_change (selValue pool c)) :
    selFees pool c + (selValue pool c - actual_target) ≤ MAX_MONEY := by
  have := @selFees_le_bound pool c
  have := hbound.2.2
  have := hin.2
  linarith

/-- The first two conditions for a backtrack: no leaf below the node is
within range. -/
theorem accounts_of_not_inRange {st : BnBState}
    (h : ∀ S, st.curr_selection <+: S → ¬ InRange actual_target cost_of_change (selValue pool S)) :
    Accounts pool actual_target cost_of_change st (st.curr_selection <+: ·) :=
  ⟨fun _ S _ hS hin => absurd hin (h S hS), fun _ S _ hS hin => absurd hin (h S hS)⟩

/-- The target is out of reach of the node and the groups after it. -/
theorem not_inRange_of_unreachable (hpos : ∀ g ∈ pool, 0 < g.effective_value) {st : BnBState}
    (hinv : BnBInv pool actual_target cost_of_change st)
    (h : st.curr_value + st.curr_available_value < actual_target) :
    ∀ S, st.curr_selection <+: S → ¬ InRange actual_target cost_of_change (selValue pool S) := by
  intro S hS hin
  have := selValue_le_available hpos hS
  rw [← hinv.value_eq, ← hinv.available_eq] at this
  exact absurd hin.1 (by linarith)

/-- The node's value is already over the range. -/
theorem not_inRange_of_over (hpos : ∀ g ∈ pool, 0 < g.effective_value) {st : BnBState}
    (hinv : BnBInv pool actual_target cost_of_change st) (h : st.curr_value > actual_target + cost_of_change) :
    ∀ S, st.curr_selection <+: S → ¬ InRange actual_target cost_of_change (selValue pool S) := by
  intro S hS hin
  have := selValue_prefix_le hpos hS
  rw [← hinv.value_eq] at this
  exact absurd hin.2 (by linarith)

/-- The third condition: the node already wastes more than the best.  The
search checks the sign of the first group's fees; the accounts need
`FeesAtLeastLongTerm`, or the bound, and not that check. -/
theorem accounts_of_waste_gt {st : BnBState} (hinv : BnBInv pool actual_target cost_of_change st)
    (h : st.curr_waste > st.best_waste) : Accounts pool actual_target cost_of_change st (st.curr_selection <+: ·) := by
  refine ⟨fun hbound _ _ _ _ => ?_, fun hfees S _ hS hin => ?_⟩
  · apply hinv.best.ne_nil_of_lt hbound.1
    have := @selFees_le_bound pool st.curr_selection
    have := hbound.2.1
    have := hbound.2.2
    rw [hinv.waste_eq] at h
    linarith
  · have := selFees_prefix_le hfees hS
    rw [hinv.waste_eq] at h
    have := hin.1
    rw [selWaste]
    linarith

@[simp] theorem bnbRecord_curr_selection (n : ℕ) (st : BnBState) :
    (bnbRecord n actual_target st).curr_selection = st.curr_selection := by
  rw [bnbRecord]
  split_ifs <;> rfl

/-- Recording a node within range keeps the invariant and accounts for the
node's subtree. -/
theorem bnbRecord_inv (hpos : ∀ g ∈ pool, 0 < g.effective_value) {st : BnBState}
    (hinv : BnBInv pool actual_target cost_of_change st)
    (hin : InRange actual_target cost_of_change st.curr_value) :
    BnBInv pool actual_target cost_of_change (bnbRecord pool.length actual_target st) ∧
      Accounts pool actual_target cost_of_change (bnbRecord pool.length actual_target st) (st.curr_selection <+: ·) := by
  have hresize : resizeFlags st.curr_selection pool.length =
      st.curr_selection ++ List.replicate (pool.length - st.curr_selection.length) false := by
    rw [resizeFlags, List.take_of_length_le hinv.length_le]
  have hlen : (resizeFlags st.curr_selection pool.length).length = pool.length := by
    rw [hresize, List.length_append, List.length_replicate]
    have := hinv.length_le
    omega
  have hvalue : selValue pool (resizeFlags st.curr_selection pool.length) = st.curr_value := by
    rw [hresize, selValue, selectedSum_append_replicate_false, hinv.value_eq, selValue]
  -- the node's waste with its excess, which the record compares with the best
  have hcand : st.curr_waste + (st.curr_value - actual_target) =
      selWaste pool actual_target (resizeFlags st.curr_selection pool.length) := by
    rw [selWaste, hvalue, hresize, selFees, selectedSum_append_replicate_false, hinv.waste_eq, selFees]
  have hin' : InRange actual_target cost_of_change (selValue pool st.curr_selection) := hinv.value_eq ▸ hin
  have hnode : ∀ S, st.curr_selection <+: S → FeesAtLeastLongTerm pool →
      st.curr_waste + (st.curr_value - actual_target) ≤ selWaste pool actual_target S := by
    intro S hS hfees
    rw [hinv.waste_eq, hinv.value_eq]
    exact selWaste_ge_node hpos hfees hS
  rw [bnbRecord]
  split_ifs with hle
  · have hne : st.best_selection ≠ [] → resizeFlags st.curr_selection pool.length ≠ [] := by
      intro hbest hnil
      rcases hinv.best with ⟨hblen, -, -⟩ | ⟨hbnil, -⟩
      · rw [← hlen, hnil, List.length_nil] at hblen
        exact hbest (List.eq_nil_of_length_eq_zero hblen)
      · exact hbest hbnil
    refine ⟨⟨hinv.length_le, hinv.value_eq, hinv.waste_eq, hinv.available_eq, .inl ⟨hlen, hvalue ▸ hin, hcand⟩,
      hinv.passed.improve hne hle⟩, fun hbound _ _ _ _ => ?_, fun hfees S _ hS _ => hnode S hS hfees⟩
    intro hnil
    rw [← List.length_eq_zero_iff, hlen] at hnil
    exact hbound.1 (List.eq_nil_of_length_eq_zero hnil)
  · refine ⟨hinv, fun hbound _ _ _ _ => ?_, fun hfees S _ hS _ => (not_le.mp hle).le.trans (hnode S hS hfees)⟩
    apply hinv.best.ne_nil_of_lt hbound.1
    have := node_waste_le_max hbound hin'
    rw [← hinv.waste_eq, ← hinv.value_eq] at this
    exact lt_of_lt_of_le (not_le.mp hle) this

/-- Moving forward keeps the invariant.  Skipping the inclusion of a group
after an excluded group of the same value and fee passes leaves whose
counterparts, with the two groups exchanged, were passed before. -/
theorem bnbForward_inv {st : BnBState}
    (hinv : BnBInv pool actual_target cost_of_change st)
    (hback : bnbBacktrack pool actual_target cost_of_change st = false) (hlt : st.curr_value < actual_target) :
    BnBInv pool actual_target cost_of_change (bnbForward pool st) := by
  -- a leaf always backtracks, so there is a next group
  have hnext : st.curr_selection.length < pool.length := by
    by_contra hle
    have hdrop : pool.drop st.curr_selection.length = [] := List.drop_eq_nil_of_le (not_lt.mp hle)
    have havail : st.curr_available_value = 0 := by rw [hinv.available_eq, hdrop]; rfl
    simp [bnbBacktrack, havail, hlt] at hback
  have hget : pool.getD st.curr_selection.length OutputGroup.empty = pool[st.curr_selection.length] :=
    List.getD_eq_getElem _ _ hnext
  have havail : st.curr_available_value - pool[st.curr_selection.length].effective_value =
      ((pool.drop (st.curr_selection ++ [true]).length).map (·.effective_value)).sum := by
    rw [hinv.available_eq, List.drop_eq_getElem_cons hnext, List.map_cons, List.sum_cons, List.length_append,
      List.length_singleton, add_sub_cancel_left]
  have hlen : (st.curr_selection ++ [true]).length ≤ pool.length := by simp; omega
  rw [bnbForward, hget]
  split_ifs with hskip
  · obtain ⟨hlast, hvalue, hfee⟩ := hskip
    obtain ⟨P, hP⟩ := List.getLast?_eq_some_iff.mp hlast
    rw [← hget, hP, List.length_append, List.length_singleton, Nat.add_sub_cancel] at hvalue hfee
    refine ⟨by simpa using hlen, ?_, ?_, by simpa using havail, hinv.best, ?_⟩
    · dsimp only
      rw [hinv.value_eq, selValue, selValue, selectedSum_snoc _ _ _ _ hnext]
      simp
    · dsimp only
      rw [hinv.waste_eq, selFees, selFees, selectedSum_snoc _ _ _ _ hnext]
      simp
    · -- the leaves below the skipped inclusion, through their counterparts
      have hP1 : P.length + 1 < pool.length := by
        rw [hP, List.length_append, List.length_singleton] at hnext
        exact hnext
      have hdrop : pool.drop P.length = pool.getD P.length OutputGroup.empty ::
          pool.getD (P.length + 1) OutputGroup.empty :: pool.drop (P.length + 1 + 1) := by
        rw [List.drop_eq_getElem_cons (by omega), List.drop_eq_getElem_cons hP1,
          List.getD_eq_getElem _ _ (by omega), List.getD_eq_getElem _ _ hP1]
      -- each leaf below the skipped inclusion has a passed counterpart
      have hswap : ∀ S, st.curr_selection ++ [true] <+: S → ∃ S', S'.length = S.length ∧
          Passed st.curr_selection S' ∧ selValue pool S' = selValue pool S ∧
          (FeesAtLeastLongTerm pool → selFees pool S' = selFees pool S) := by
        rintro S ⟨R, rfl⟩
        have hS : st.curr_selection ++ [true] ++ R = P ++ false :: true :: R := by simp [hP]
        refine ⟨P ++ true :: false :: R, by simp [hS], hP ▸ passed_swap P R, ?_, fun hfees => ?_⟩
        · rw [hS, selValue, selValue, selectedSum_swap _ pool P R _ _ _ hdrop hvalue.symm]
        · have hmem : ∀ k < pool.length, pool.getD k OutputGroup.empty ∈ pool := by
            intro k hk
            rw [List.getD_eq_getElem _ _ hk]
            exact List.getElem_mem hk
          have hltf := hfees.2 _ (hmem P.length (by omega)) _ (hmem (P.length + 1) hP1) hfee.symm
          rw [hS, selFees, selFees, selectedSum_swap _ pool P R _ _ _ hdrop (by rw [hfee, hltf])]
      have hbelow : Accounts pool actual_target cost_of_change st (st.curr_selection ++ [true] <+: ·) := by
        refine ⟨fun hbound S hS hpre hin => ?_, fun hfees S hS hpre hin => ?_⟩
        · obtain ⟨S', hlen', hpass, hval, -⟩ := hswap S hpre
          exact hinv.passed.found hbound S' (hlen'.trans hS) hpass (hval ▸ hin)
        · obtain ⟨S', hlen', hpass, hval, hfee'⟩ := hswap S hpre
          have := hinv.passed.least hfees S' (hlen'.trans hS) hpass (hval ▸ hin)
          rwa [selWaste, hval, hfee' hfees] at this
      exact Accounts.of_best_eq ((hinv.passed.union hbelow).mono
        fun S _ h => (passed_append_false _ _).mp h) rfl rfl
  · refine ⟨hlen, ?_, ?_, havail, hinv.best, Accounts.of_best_eq (hinv.passed.mono
      fun S _ h => (passed_append_true _ _).mp h) rfl rfl⟩
    · dsimp only
      rw [hinv.value_eq, selValue, selValue, selectedSum_snoc _ _ _ _ hnext]
      simp
    · dsimp only
      rw [hinv.waste_eq, selFees, selFees, selectedSum_snoc _ _ _ _ hnext]
      simp

/-- The backtrack that ends an iteration. -/
theorem bnbBackStep_inv {st : BnBState} (hinv : BnBInv pool actual_target cost_of_change st)
    (hnode : Accounts pool actual_target cost_of_change st (st.curr_selection <+: ·)) :
    (∀ st', bnbBackStep pool st = .inl st' → BnBInv pool actual_target cost_of_change st') ∧
      (∀ st', bnbBackStep pool st = .inr st' →
        BestSound pool actual_target cost_of_change st' ∧ Accounts pool actual_target cost_of_change st' fun _ => True) := by
  obtain ⟨hsome, hnone⟩ := bnbBack_inv hinv hnode
  rw [bnbBackStep]
  split
  · rename_i st'' hback
    refine ⟨fun st' h => ?_, fun st' h => ?_⟩
    · cases h
      exact hsome st'' hback
    · cases h
  · rename_i hback
    refine ⟨fun st' h => ?_, fun st' h => ?_⟩
    · cases h
    · cases h
      exact ⟨hinv.best, hnone hback⟩

/-- One iteration keeps the invariant, and at the `break` every leaf is
accounted for. -/
theorem bnbStep_inv (hpos : ∀ g ∈ pool, 0 < g.effective_value) {st : BnBState}
    (hinv : BnBInv pool actual_target cost_of_change st) :
    (∀ st', bnbStep pool actual_target cost_of_change st = .inl st' → BnBInv pool actual_target cost_of_change st') ∧
      (∀ st', bnbStep pool actual_target cost_of_change st = .inr st' →
        BestSound pool actual_target cost_of_change st' ∧ Accounts pool actual_target cost_of_change st' fun _ => True) := by
  rw [bnbStep]
  split_ifs with hback hreach
  · -- one of the three conditions: the node's subtree needs no search
    apply bnbBackStep_inv hinv
    simp only [bnbBacktrack, Bool.or_eq_true, Bool.and_eq_true, decide_eq_true_eq] at hback
    rcases hback with (hunreach | hover) | ⟨hwaste, -⟩
    · exact accounts_of_not_inRange (not_inRange_of_unreachable hpos hinv hunreach)
    · exact accounts_of_not_inRange (not_inRange_of_over hpos hinv hover)
    · exact accounts_of_waste_gt hinv hwaste
  · -- within range: record, then backtrack
    have hover : ¬ st.curr_value > actual_target + cost_of_change := by
      intro h
      simp [bnbBacktrack, h] at hback
    obtain ⟨hinv', hnode⟩ := bnbRecord_inv hpos hinv ⟨hreach, not_lt.mp hover⟩
    exact bnbBackStep_inv hinv' (by rwa [bnbRecord_curr_selection])
  · refine ⟨fun st' h => ?_, fun st' h => ?_⟩
    · cases h
      exact bnbForward_inv hinv (by simpa using hback) (not_le.mp hreach)
    · cases h

/-- The search loop keeps the best sound, and when it ends at the `break`,
every leaf is accounted for. -/
theorem bnbLoop_inv (hpos : ∀ g ∈ pool, 0 < g.effective_value) :
    ∀ (k : ℕ) (st : BnBState), BnBInv pool actual_target cost_of_change st →
      BestSound pool actual_target cost_of_change (bnbLoop pool actual_target cost_of_change k st).1 ∧
        ((bnbLoop pool actual_target cost_of_change k st).2 = true →
          Accounts pool actual_target cost_of_change (bnbLoop pool actual_target cost_of_change k st).1 fun _ => True)
  | 0, st, hinv => ⟨hinv.best, fun h => by cases h⟩
  | k + 1, st, hinv => by
    obtain ⟨hgo, hstop⟩ := bnbStep_inv hpos hinv
    rw [bnbLoop]
    split
    · rename_i st' hstep
      exact bnbLoop_inv hpos k st' (hgo st' hstep)
    · rename_i st' hstep
      exact ⟨(hstop st' hstep).1, fun _ => (hstop st' hstep).2⟩

end Invariant

/-! ## `SelectCoinsBnB` -/

/-- The waste of a selection of groups: its fees above the long-term fees,
and its effective value above the target. -/
def groupsWaste (actual_target : CAmount) (S : List OutputGroup) : CAmount :=
  (S.map fun g => g.fee - g.long_term_fee).sum + ((S.map (·.effective_value)).sum - actual_target)

theorem bnbPool_perm (utxo_pool : List OutputGroup) : (bnbPool utxo_pool).Perm utxo_pool :=
  List.mergeSort_perm _ _

/-- The search starts at the root, with no best and the whole pool ahead. -/
theorem bnbInv_init (utxo_pool : List OutputGroup) (actual_target cost_of_change : CAmount) :
    BnBInv (bnbPool utxo_pool) actual_target cost_of_change
      ⟨0, (utxo_pool.map (·.effective_value)).sum, 0, [], [], MAX_MONEY⟩ :=
  ⟨Nat.zero_le _, (selectedSum_nil_right _ _).symm, (selectedSum_nil_right _ _).symm,
    (((bnbPool_perm utxo_pool).map _).sum_eq).symm, .inr ⟨rfl, rfl⟩,
    ⟨fun _ S _ h => absurd h (not_passed_nil S), fun _ S _ h => absurd h (not_passed_nil S)⟩⟩

/-- With positive effective values the `assert` holds, and the result is
read off the search. -/
theorem SelectCoinsBnB_eq {utxo_pool : List OutputGroup} (hpos : ∀ g ∈ utxo_pool, 0 < g.effective_value)
    (target_value cost_of_change not_input_fees : CAmount) :
    SelectCoinsBnB utxo_pool target_value cost_of_change not_input_fees =
      .ok (if (utxo_pool.map (·.effective_value)).sum < not_input_fees + target_value then none
        else if (bnbSearch utxo_pool target_value cost_of_change not_input_fees).1.best_selection.isEmpty then none
        else some (((bnbPool utxo_pool).zip
          (bnbSearch utxo_pool target_value cost_of_change not_input_fees).1.best_selection).foldl
            (fun acc gb => if gb.2 then takeGroup acc gb.1 else acc) ([], 0))) := by
  have hassert : ((utxo_pool.forM fun utxo =>
      if ¬ utxo.effective_value > 0 then throw "assert(utxo.effective_value > 0)" else pure ()) :
        Except String Unit) = .ok () :=
    Check.forM_eq_ok_iff.mpr fun g hg => by simp [hpos g hg]
  rw [SelectCoinsBnB, hassert, Check.ok_bind]
  by_cases hreach : (utxo_pool.map (·.effective_value)).sum < not_input_fees + target_value
  · rw [if_pos hreach, if_pos hreach]
    rfl
  · rw [if_neg hreach, if_neg hreach]
    dsimp only
    by_cases hbest : (bnbSearch utxo_pool target_value cost_of_change not_input_fees).1.best_selection.isEmpty
    · rw [if_pos hbest, if_pos hbest]
      rfl
    · rw [if_neg hbest, if_neg hbest]
      rfl


section Pool

variable {utxo_pool : List OutputGroup}

theorem FeesAtLeastLongTerm.perm {l : List OutputGroup} (hperm : l.Perm utxo_pool)
    (h : FeesAtLeastLongTerm utxo_pool) : FeesAtLeastLongTerm l :=
  ⟨fun g hg => h.1 g (hperm.subset hg),
    fun g hg g' hg' => h.2 g (hperm.subset hg) g' (hperm.subset hg')⟩

theorem WasteBounded.perm {l : List OutputGroup} {cost_of_change : CAmount} (hperm : l.Perm utxo_pool)
    (h : WasteBounded utxo_pool cost_of_change) : WasteBounded l cost_of_change := by
  refine ⟨fun hnil => h.1 (by subst hnil; exact hperm.symm.eq_nil), h.2.1, ?_⟩
  rw [(hperm.map _).sum_eq]
  exact h.2.2

/-- A sub-multiset of the pool is the selection of some flags on the sorted
pool, with the same totals. -/
theorem flags_of_subperm {S : List OutputGroup} (hS : S.Subperm utxo_pool) :
    ∃ vf : List Bool, vf.length = (bnbPool utxo_pool).length ∧ (selected (bnbPool utxo_pool) vf).Perm S := by
  obtain ⟨S', hperm, hsub⟩ := hS.trans (bnbPool_perm utxo_pool).symm.subperm
  obtain ⟨vf, hlen, hsel⟩ := exists_flags_of_sublist hsub
  exact ⟨vf, hlen, hsel ▸ hperm⟩

/-- A leaf's value is that of the groups its flags pick, in any order. -/
theorem selValue_of_perm {vf : List Bool} {S : List OutputGroup}
    (h : (selected (bnbPool utxo_pool) vf).Perm S) :
    selValue (bnbPool utxo_pool) vf = (S.map (·.effective_value)).sum :=
  (h.map _).sum_eq

/-- A leaf's waste is that of the groups its flags pick, in any order. -/
theorem selWaste_of_perm {actual_target : CAmount} {vf : List Bool} {S : List OutputGroup}
    (h : (selected (bnbPool utxo_pool) vf).Perm S) :
    selWaste (bnbPool utxo_pool) actual_target vf = groupsWaste actual_target S := by
  rw [selWaste, selFees, selectedSum, (h.map _).sum_eq, selValue_of_perm h, groupsWaste]

variable (hpos : ∀ g ∈ utxo_pool, 0 < g.effective_value)
include hpos

/-- The search keeps a sound best, and accounts for every leaf when it
finishes. -/
theorem bnbSearch_spec (target_value cost_of_change not_input_fees : CAmount) :
    BestSound (bnbPool utxo_pool) (not_input_fees + target_value) cost_of_change
        (bnbSearch utxo_pool target_value cost_of_change not_input_fees).1 ∧
      ((bnbSearch utxo_pool target_value cost_of_change not_input_fees).2 = true →
        Accounts (bnbPool utxo_pool) (not_input_fees + target_value) cost_of_change
          (bnbSearch utxo_pool target_value cost_of_change not_input_fees).1 fun _ => True) :=
  bnbLoop_inv (fun g hg => hpos g ((bnbPool_perm utxo_pool).subset hg)) TOTAL_TRIES _
    (bnbInv_init utxo_pool _ _)

/-- A returned selection: the groups the best flags pick, within range,
with the best waste. -/
theorem SelectCoinsBnB_some {target_value cost_of_change not_input_fees : CAmount}
    {out : List CInputCoin × CAmount}
    (h : SelectCoinsBnB utxo_pool target_value cost_of_change not_input_fees = .ok (some out)) :
    ∃ vf, vf = (bnbSearch utxo_pool target_value cost_of_change not_input_fees).1.best_selection ∧
      vf.length = (bnbPool utxo_pool).length ∧
      InRange (not_input_fees + target_value) cost_of_change (selValue (bnbPool utxo_pool) vf) ∧
      (bnbSearch utxo_pool target_value cost_of_change not_input_fees).1.best_waste =
        selWaste (bnbPool utxo_pool) (not_input_fees + target_value) vf ∧
      out = (selected (bnbPool utxo_pool) vf).foldl takeGroup ([], 0) := by
  rw [SelectCoinsBnB_eq hpos] at h
  split_ifs at h with hreach hempty
  · exact absurd (Except.ok.inj h) (Option.some_ne_none out).symm
  · exact absurd (Except.ok.inj h) (Option.some_ne_none out).symm
  rcases (bnbSearch_spec hpos target_value cost_of_change not_input_fees).1 with ⟨hlen, hin, hwaste⟩ | ⟨hnil, -⟩
  · refine ⟨_, rfl, hlen, hin, hwaste, ?_⟩
    rw [← foldl_zip_takeGroup]
    exact (Option.some.inj (Except.ok.inj h)).symm
  · rw [hnil] at hempty
    exact absurd rfl hempty

section Finished

variable {target_value cost_of_change not_input_fees : CAmount}
  (hfin : (bnbSearch utxo_pool target_value cost_of_change not_input_fees).2 = true)
include hfin

/-- A search that finished under the waste bound holds a best whenever some
sub-multiset of the pool lands in range. -/
theorem bnbSearch_found (hbound : WasteBounded utxo_pool cost_of_change) (S : List OutputGroup)
    (hS : S.Subperm utxo_pool)
    (hin : InRange (not_input_fees + target_value) cost_of_change (S.map (·.effective_value)).sum) :
    (bnbSearch utxo_pool target_value cost_of_change not_input_fees).1.best_selection ≠ [] := by
  obtain ⟨vf, hlen, hperm⟩ := flags_of_subperm hS
  refine ((bnbSearch_spec hpos target_value cost_of_change not_input_fees).2 hfin).found
    (hbound.perm (bnbPool_perm utxo_pool)) vf hlen trivial ?_
  rw [selValue_of_perm hperm]
  exact hin

/-- A search that finished, with fees at least the long-term fees, holds a
best waste no sub-multiset in range beats. -/
theorem bnbSearch_least (hfees : FeesAtLeastLongTerm utxo_pool) (S : List OutputGroup)
    (hS : S.Subperm utxo_pool)
    (hin : InRange (not_input_fees + target_value) cost_of_change (S.map (·.effective_value)).sum) :
    (bnbSearch utxo_pool target_value cost_of_change not_input_fees).1.best_waste ≤
      groupsWaste (not_input_fees + target_value) S := by
  obtain ⟨vf, hlen, hperm⟩ := flags_of_subperm hS
  rw [← selWaste_of_perm hperm]
  refine ((bnbSearch_spec hpos target_value cost_of_change not_input_fees).2 hfin).least
    (hfees.perm (bnbPool_perm utxo_pool)) vf hlen trivial ?_
  rw [selValue_of_perm hperm]
  exact hin

/-- **Completeness.** A search that finished under the waste bound returns a
selection whenever some sub-multiset of the pool lands in range. -/
theorem SelectCoinsBnB_complete (hbound : WasteBounded utxo_pool cost_of_change)
    (hS : ∃ S : List OutputGroup, S.Subperm utxo_pool ∧
      InRange (not_input_fees + target_value) cost_of_change (S.map (·.effective_value)).sum) :
    ∃ out, SelectCoinsBnB utxo_pool target_value cost_of_change not_input_fees = .ok (some out) := by
  obtain ⟨S, hsub, hin⟩ := hS
  have hbest := bnbSearch_found hpos hfin hbound S hsub hin
  -- the whole pool reaches the target, since a part of it does
  have hreach : ¬ (utxo_pool.map (·.effective_value)).sum < not_input_fees + target_value := by
    obtain ⟨vf, -, hperm⟩ := flags_of_subperm hsub
    have hle : (S.map (·.effective_value)).sum ≤ (utxo_pool.map (·.effective_value)).sum := by
      rw [← selValue_of_perm hperm, ← ((bnbPool_perm utxo_pool).map _).sum_eq]
      exact selectedSum_le_sum _ _ _ fun g hg => (hpos g ((bnbPool_perm utxo_pool).subset hg)).le
    exact not_lt.mpr (hin.1.trans hle)
  rw [SelectCoinsBnB_eq hpos, if_neg hreach, if_neg (by simpa [List.isEmpty_iff] using hbest)]
  exact ⟨_, rfl⟩

end Finished

end Pool

/-- Branch and bound on any pool of positive effective values: a returned
selection is the outputs of whole groups of the pool whose effective values
land in range, and when the search finished, with fees at least the long-term
fees, none in range wastes less; a search that finished under the waste bound
returns one whenever one exists. -/
theorem SelectCoinsBnB_correct (utxo_pool : List OutputGroup)
    (target_value cost_of_change not_input_fees : CAmount)
    (hpos : ∀ g ∈ utxo_pool, 0 < g.effective_value) :
    (∀ out, SelectCoinsBnB utxo_pool target_value cost_of_change not_input_fees = .ok (some out) →
      ∃ G : List OutputGroup, G.Subperm utxo_pool ∧
        InRange (not_input_fees + target_value) cost_of_change (G.map (·.effective_value)).sum ∧
        out = G.foldl takeGroup ([], 0) ∧
        ((bnbSearch utxo_pool target_value cost_of_change not_input_fees).2 = true →
          FeesAtLeastLongTerm utxo_pool →
          ∀ S : List OutputGroup, S.Subperm utxo_pool →
            InRange (not_input_fees + target_value) cost_of_change (S.map (·.effective_value)).sum →
            groupsWaste (not_input_fees + target_value) G ≤ groupsWaste (not_input_fees + target_value) S)) ∧
    ((bnbSearch utxo_pool target_value cost_of_change not_input_fees).2 = true →
      WasteBounded utxo_pool cost_of_change →
      (∃ S : List OutputGroup, S.Subperm utxo_pool ∧
        InRange (not_input_fees + target_value) cost_of_change (S.map (·.effective_value)).sum) →
      ∃ out, SelectCoinsBnB utxo_pool target_value cost_of_change not_input_fees = .ok (some out)) := by
  refine ⟨fun out h => ?_, fun hfin hbound hS => SelectCoinsBnB_complete hpos hfin hbound hS⟩
  obtain ⟨vf, -, -, hin, hwaste, rfl⟩ := SelectCoinsBnB_some hpos h
  refine ⟨selected (bnbPool utxo_pool) vf,
    (selected_sublist _ _).subperm.trans (bnbPool_perm utxo_pool).subperm, hin, rfl, ?_⟩
  intro hfin hfees S hS hinS
  -- the returned groups waste what the best held does
  calc groupsWaste _ (selected (bnbPool utxo_pool) vf)
      = selWaste (bnbPool utxo_pool) (not_input_fees + target_value) vf :=
        (selWaste_of_perm (List.Perm.refl _)).symm
    _ = (bnbSearch utxo_pool target_value cost_of_change not_input_fees).1.best_waste := hwaste.symm
    _ ≤ groupsWaste _ S := bnbSearch_least hpos hfin hfees S hS hinS

theorem SelectCoinsBnB_correct_one_group :
    (∀ g ∈ [(⟨[⟨⟨1, 0⟩, ⟨5, []⟩⟩], 5, 5, 0, 0⟩ : OutputGroup)], 0 < g.effective_value) ∧
    (∀ out, SelectCoinsBnB [⟨[⟨⟨1, 0⟩, ⟨5, []⟩⟩], 5, 5, 0, 0⟩] 5 0 0 = .ok (some out) →
      ∃ G : List OutputGroup, G.Subperm [⟨[⟨⟨1, 0⟩, ⟨5, []⟩⟩], 5, 5, 0, 0⟩] ∧
        InRange (0 + 5) 0 (G.map (·.effective_value)).sum ∧
        out = G.foldl takeGroup ([], 0) ∧
        ((bnbSearch [⟨[⟨⟨1, 0⟩, ⟨5, []⟩⟩], 5, 5, 0, 0⟩] 5 0 0).2 = true →
          FeesAtLeastLongTerm [⟨[⟨⟨1, 0⟩, ⟨5, []⟩⟩], 5, 5, 0, 0⟩] →
          ∀ S : List OutputGroup, S.Subperm [⟨[⟨⟨1, 0⟩, ⟨5, []⟩⟩], 5, 5, 0, 0⟩] →
            InRange (0 + 5) 0 (S.map (·.effective_value)).sum →
            groupsWaste (0 + 5) G ≤ groupsWaste (0 + 5) S)) ∧
    ((bnbSearch [⟨[⟨⟨1, 0⟩, ⟨5, []⟩⟩], 5, 5, 0, 0⟩] 5 0 0).2 = true →
      WasteBounded [⟨[⟨⟨1, 0⟩, ⟨5, []⟩⟩], 5, 5, 0, 0⟩] 0 →
      (∃ S : List OutputGroup, S.Subperm [⟨[⟨⟨1, 0⟩, ⟨5, []⟩⟩], 5, 5, 0, 0⟩] ∧
        InRange (0 + 5) 0 (S.map (·.effective_value)).sum) →
      ∃ out, SelectCoinsBnB [⟨[⟨⟨1, 0⟩, ⟨5, []⟩⟩], 5, 5, 0, 0⟩] 5 0 0 = .ok (some out)) :=
  ⟨by decide, SelectCoinsBnB_correct _ 5 0 0 (by decide)⟩

/-- With fees below the long-term fees the search stops at the first leaf in
range: it returns the one group, while the two groups together are also in
range and waste less. -/
theorem SelectCoinsBnB_not_least_waste :
    SelectCoinsBnB [⟨[⟨⟨1, 0⟩, ⟨110, []⟩⟩], 110, 100, 10, 20⟩, ⟨[⟨⟨2, 0⟩, ⟨15, []⟩⟩], 15, 5, 10, 20⟩] 100 10 0 =
        .ok (some ([⟨⟨1, 0⟩, ⟨110, []⟩⟩], 110)) ∧
      InRange 100 10 ([(⟨[⟨⟨1, 0⟩, ⟨110, []⟩⟩], 110, 100, 10, 20⟩ : OutputGroup),
        ⟨[⟨⟨2, 0⟩, ⟨15, []⟩⟩], 15, 5, 10, 20⟩].map (·.effective_value)).sum ∧
      groupsWaste 100 [⟨[⟨⟨1, 0⟩, ⟨110, []⟩⟩], 110, 100, 10, 20⟩, ⟨[⟨⟨2, 0⟩, ⟨15, []⟩⟩], 15, 5, 10, 20⟩] <
        groupsWaste 100 [⟨[⟨⟨1, 0⟩, ⟨110, []⟩⟩], 110, 100, 10, 20⟩] := by
  have hsorted : bnbPool [⟨[⟨⟨1, 0⟩, ⟨110, []⟩⟩], 110, 100, 10, 20⟩, ⟨[⟨⟨2, 0⟩, ⟨15, []⟩⟩], 15, 5, 10, 20⟩] =
      [⟨[⟨⟨1, 0⟩, ⟨110, []⟩⟩], 110, 100, 10, 20⟩, ⟨[⟨⟨2, 0⟩, ⟨15, []⟩⟩], 15, 5, 10, 20⟩] :=
    List.mergeSort_of_pairwise (by decide)
  refine ⟨?_, ⟨by decide, by decide⟩, by decide⟩
  -- the pool is sorted already; the search stops at the first group, in range
  rw [SelectCoinsBnB, bnbSearch, hsorted]
  rfl

end XPChain
