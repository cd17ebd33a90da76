import XPChain.Lib.Interleaving
import Mathlib.Data.Fintype.Basic

/-!
# Locksets

A thread's path through a program, as far as sharing goes, is the list of
its lock operations and its accesses to shared variables.  Threads that follow
given paths are interleaved one operation at a time: a state is how far each
thread has got, and the locks a thread holds are read off the part of its
path it has run.  Locks are recursive: `acquire l` waits while another thread
holds `l`, and its owner may take it again.

Two threads race on `x` when both are about to access it and one of the
accesses is a write.  The lockset discipline (Eraser's) is that every access
to `x`, on every path, is made holding one lock `l`; then no reachable state
has a race on `x`, because two threads never hold a lock at once.

## Main definitions

* `Op`, `heldAt` — the operations of a path and the locks held along it.
* `step`, `init` — the interleaving of threads along their paths.
* `Race` — two threads about to make conflicting accesses.
* `Guarded` — the lockset discipline for one path, variable and lock.

## Main statements

* `exclusive_of_reachable` — no lock has two holders.
* `not_race_of_guarded` — the discipline rules out races.
-/

set_option autoImplicit false

namespace Lockset

open Interleaving

variable {ι L X : Type}

/-- One operation of a path. -/
inductive Op (L X : Type)
  | acquire (l : L)
  | release (l : L)
  | read (x : X)
  | write (x : X)
  deriving DecidableEq

namespace Op

/-- The variable an operation accesses. -/
def var : Op L X → Option X
  | read x => some x
  | write x => some x
  | _ => none

def isWrite : Op L X → Bool
  | write _ => true
  | _ => false

variable [DecidableEq L]

/-- The locks held after one more operation: `release` gives up one
acquisition of the lock. -/
def held (hs : List L) : Op L X → List L
  | acquire l => l :: hs
  | release l => hs.erase l
  | _ => hs

/-- Only `acquire l` adds a lock. -/
theorem mem_held {hs : List L} {op : Op L X} {l : L} (h : l ∈ held hs op) : l ∈ hs ∨ op = acquire l := by
  cases op with
  | acquire l' =>
    rcases List.mem_cons.mp h with rfl | h
    · exact Or.inr rfl
    · exact Or.inl h
  | release l' => exact Or.inl (List.mem_of_mem_erase h)
  | read x => exact Or.inl h
  | write x => exact Or.inl h

end Op

variable [DecidableEq L]

/-- The locks a thread holds after the first `i` operations of its path. -/
def heldAt (p : List (Op L X)) (i : ℕ) : List L := (p.take i).foldl Op.held []

theorem heldAt_succ {p : List (Op L X)} {i : ℕ} {op : Op L X} (h : p[i]? = some op) :
    heldAt p (i + 1) = Op.held (heldAt p i) op := by
  rw [heldAt, List.take_add_one, h, Option.toList_some, List.foldl_append]
  rfl

/-- Every access to `x` on the path `p` is made holding `l`. -/
def Guarded (p : List (Op L X)) (x : X) (l : L) : Prop :=
  ∀ i (hi : i < p.length), p[i].var = some x → l ∈ heldAt p i

instance [DecidableEq X] (p : List (Op L X)) (x : X) (l : L) : Decidable (Guarded p x l) :=
  inferInstanceAs (Decidable (∀ i (hi : i < p.length), p[i].var = some x → l ∈ heldAt p i))

/-! ## Threads along their paths -/

section System

variable (prog : ι → List (Op L X))

/-- The next operation of thread `t`. -/
def next (s : ι → ℕ) (t : ι) : Option (Op L X) := (prog t)[s t]?

/-- Thread `t` holds `l`. -/
def Holds (s : ι → ℕ) (t : ι) (l : L) : Prop := l ∈ heldAt (prog t) (s t)

instance (s : ι → ℕ) (t : ι) (l : L) : Decidable (Holds prog s t l) :=
  inferInstanceAs (Decidable (l ∈ _))

/-- Two threads are about to access `x`, and one of them to write it. -/
def Race (s : ι → ℕ) (x : X) : Prop :=
  ∃ t u, t ≠ u ∧ ∃ a b, next prog s t = some a ∧ next prog s u = some b ∧
    a.var = some x ∧ b.var = some x ∧ (a.isWrite || b.isWrite) = true

/-- No lock has two holders. -/
def Exclusive (s : ι → ℕ) : Prop := ∀ l t u, Holds prog s t l → Holds prog s u l → t = u

/-- Every thread at the start of its path. -/
def init : ι → ℕ := fun _ => 0

variable {prog}

theorem exclusive_init : Exclusive prog (init (ι := ι)) := by
  intro l t u ht
  simp [Holds, init, heldAt] at ht

/-- A thread about to access `x` on a guarded path holds the guard. -/
theorem holds_of_guarded {s : ι → ℕ} {t : ι} {x : X} {l : L} {op : Op L X} (hg : Guarded (prog t) x l)
    (hop : next prog s t = some op) (hx : op.var = some x) : Holds prog s t l := by
  obtain ⟨hi, rfl⟩ := List.getElem?_eq_some_iff.mp hop
  exact hg (s t) hi hx

variable [Fintype ι] [DecidableEq ι]

section Step

variable (prog)

/-- An operation can run: `acquire l` waits while another thread holds `l`. -/
def Enabled (s : ι → ℕ) (t : ι) : Op L X → Prop
  | .acquire l => ∀ u, u ≠ t → ¬Holds prog s u l
  | _ => True

instance (s : ι → ℕ) (t : ι) (op : Op L X) : Decidable (Enabled prog s t op) := by
  cases op with
  | acquire l => exact inferInstanceAs (Decidable (∀ u, u ≠ t → ¬Holds prog s u l))
  | _ => exact inferInstanceAs (Decidable True)

/-- Thread `t` runs its next operation, if it has one and it can run. -/
def step (s : ι → ℕ) (t : ι) : Option ((ι → ℕ) × Unit) :=
  match next prog s t with
  | some op => if Enabled prog s t op then some (Function.update s t (s t + 1), ()) else none
  | none => none

end Step

theorem step_eq_some {s s' : ι → ℕ} {t : ι} {e : Unit} (h : step prog s t = some (s', e)) :
    ∃ op, next prog s t = some op ∧ Enabled prog s t op ∧ s' = Function.update s t (s t + 1) := by
  unfold step at h
  split at h
  · rename_i op hop
    split_ifs at h with hen
    cases h
    exact ⟨op, hop, hen, rfl⟩
  · cases h

/-- After a step of `t`, a lock `t` holds was held before or just acquired
with no other holder; the other threads hold what they held. -/
theorem holds_step {s s' : ι → ℕ} {t u : ι} {e : Unit} {l : L} (h : step prog s t = some (s', e))
    (hl : Holds prog s' u l) : Holds prog s u l ∨ (u = t ∧ ∀ v, v ≠ t → ¬Holds prog s v l) := by
  obtain ⟨op, hop, hen, rfl⟩ := step_eq_some h
  by_cases hu : u = t
  · subst hu
    simp only [Holds, Function.update_self] at hl
    rw [heldAt_succ hop] at hl
    rcases Op.mem_held hl with hl | rfl
    · exact Or.inl hl
    · exact Or.inr ⟨rfl, hen⟩
  · left
    simpa [Holds, Function.update_of_ne hu] using hl

theorem exclusive_step {s s' : ι → ℕ} {t : ι} {e : Unit} (hs : Exclusive prog s)
    (h : step prog s t = some (s', e)) : Exclusive prog s' := by
  intro l u v hu hv
  rcases holds_step h hu with hu | ⟨rfl, hfree⟩ <;> rcases holds_step h hv with hv | ⟨rfl, hfree'⟩
  · exact hs l u v hu hv
  · by_contra hne
    exact hfree' u hne hu
  · by_contra hne
    exact hfree v (Ne.symm hne) hv
  · rfl

/-- No lock has two holders, in every reachable state. -/
theorem exclusive_of_reachable {s : ι → ℕ} (hs : Reachable init (step prog) s) : Exclusive prog s :=
  hs.inv exclusive_init fun _ _ _ _ hinv h => exclusive_step hinv h

/-- The lockset discipline rules out races: if every access to `x` on every
path holds `l`, no reachable state has a race on `x`. -/
theorem not_race_of_guarded {s : ι → ℕ} {x : X} {l : L} (hg : ∀ t, Guarded (prog t) x l)
    (hs : Reachable init (step prog) s) : ¬Race prog s x := by
  rintro ⟨t, u, hne, a, b, ha, hb, hxa, hxb, -⟩
  exact hne (exclusive_of_reachable hs l t u (holds_of_guarded (hg t) ha hxa) (holds_of_guarded (hg u) hb hxb))

end System

end Lockset
