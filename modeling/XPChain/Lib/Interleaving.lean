import Mathlib.Algebra.BigOperators.Group.Finset.Piecewise
import Mathlib.Tactic.Abel

/-!
# Interleavings of threads

A concurrent program is modelled by a step function
`step : S → A → Option (S × E)`.  An action `a` names a thread and what it
does; it is enabled in `s` when `step s a` is `some`, and then gives the next
state and what the step shows outside (a return value, say).  Every
interleaving of the threads is a sequence of enabled actions, so a property
of every reachable state holds under every scheduling.

This module gives the states reachable from an initial state with the
induction rule for invariants over them, the state after a schedule, and
the bookkeeping for a state that keeps one local state per thread
(`ι → P`) and counts something over all threads.

## Main definitions

* `Reachable init step` — the states reachable from `init`.
* `runFrom step s as` — the state after a schedule of actions.

## Main statements

* `Reachable.inv` — an invariant that holds initially and is kept by every
  step holds in every reachable state.
* `sum_update_add` — a sum over threads after one thread's state changes.
-/

set_option autoImplicit false

namespace Interleaving

variable {S A E : Type}

/-- The states reachable from `init` by enabled actions. -/
inductive Reachable (init : S) (step : S → A → Option (S × E)) : S → Prop
  | init : Reachable init step init
  | step {s s' : S} {a : A} {e : E} :
      Reachable init step s → step s a = some (s', e) → Reachable init step s'

variable {init : S} {step : S → A → Option (S × E)}

/-- The induction rule for invariants: one that holds initially and is kept by
every step holds in every reachable state. -/
theorem Reachable.inv {Inv : S → Prop} (h0 : Inv init)
    (hstep : ∀ s a s' e, Inv s → step s a = some (s', e) → Inv s') {s : S}
    (h : Reachable init step s) : Inv s := by
  induction h with
  | init => exact h0
  | step _ hs ih => exact hstep _ _ _ _ ih hs

/-- The state after the actions `as` from `s`, each enabled in turn. -/
def runFrom (step : S → A → Option (S × E)) : S → List A → Option S
  | s, [] => some s
  | s, a :: as => (step s a).bind fun r => runFrom step r.1 as

/-- A schedule run from a reachable state ends in a reachable state. -/
theorem Reachable.of_runFrom {s s' : S} (hs : Reachable init step s) :
    ∀ (as : List A), runFrom step s as = some s' → Reachable init step s'
  | [], h => by
    cases h
    exact hs
  | a :: as, h => by
    obtain ⟨r, hr, h⟩ := Option.bind_eq_some_iff.mp h
    exact (hs.step hr).of_runFrom as h

section Threads

variable {ι P M : Type} [Fintype ι] [DecidableEq ι] [AddCommMonoid M]

/-- A sum over threads after thread `i` moves from `g i` to `x`. -/
theorem sum_update_add (F : P → M) (g : ι → P) (i : ι) (x : P) :
    ∑ j, F (Function.update g i x j) + F (g i) = ∑ j, F (g j) + F x := by
  have hupd : ∑ j, F (Function.update g i x j) = F x + ∑ j ∈ Finset.univ \ {i}, F (g j) := by
    rw [← Finset.sum_update_of_mem (Finset.mem_univ i) (fun j => F (g j)) (F x)]
    exact Finset.sum_congr rfl fun j _ => Function.apply_update (fun _ => F) g i x j
  rw [hupd, ← Finset.add_sum_erase Finset.univ (fun j => F (g j)) (Finset.mem_univ i),
    Finset.sdiff_singleton_eq_erase]
  abel

end Threads

end Interleaving
