import XPChain.Lib.Interleaving
import Mathlib.Algebra.Order.BigOperators.Group.Finset
import Mathlib.Data.Fintype.Option
import Mathlib.Data.Multiset.AddSub

/-!
# The parallel script-check queue

`CCheckQueue` of `checkqueue.h` shares the script checks of a block between
worker threads and the master, the thread that runs `ConnectBlock`.  The
master adds batches of checks (`Add`) and then joins the workers in `Loop`
(`Wait`) until every check of the round is done; `Wait` returns `fAllOk`,
the conjunction of the batches' results, and resets it for the next round.
The state behind `mutex` is the stack of queued checks, the counters
`nIdle`, `nTotal` and `nTodo`, and `fAllOk`.

The model is an interleaving system over `Interleaving`: a thread is the
master (`none`) or one of `n` workers, and one step is one critical section
of `Loop` (`lock`, `wake`), one check of a batch run outside the lock
(`check`), or one call of the master (`add`, `wait`).  A thread blocked in
`cond.wait` may wake at any time, so notifications are not modelled and
spurious wake-ups are: every interleaving of the code is one of the model's.
The state carries instrumentation the source does not have (`Ghost`): the
checks added since `Wait` last returned, and of them those that ran and
those skipped.

`Inv` is what holds in every reachable state.  It counts `nTodo` as the
queued checks plus the batches taken and not yet reported, keeps every
check of the round in exactly one place, and records every failed check in
`fAllOk` or in the `fOk` of the batch it failed in.  From it,
`wait_returns_all_ok`: whenever `Wait` returns, its value is the
conjunction of the checks added in that round, each of which ran once or
was skipped after a failure, and the next round starts afresh.
`wait_can_return`: once the master is in `Wait`, some continuation of any
reachable state makes it return.

## Main definitions

* `Shared`, `Pc`, `State`, `Action`, `step` — the model.
* `lookForWork`, `lockTop` — the critical sections of `Loop`.
* `Inv` — the invariant of reachable states.

## Main statements

* `reachable_inv` — every reachable state satisfies `Inv`.
* `wait_returns_all_ok` — what `Wait` returns.
* `wait_can_return` — `Wait` can always finish.
-/

set_option autoImplicit false

namespace XPChain.CheckQueue

open Interleaving

variable {T : Type} {n : ℕ}

/-! ## The model -/

/-- The members of `CCheckQueue` that `mutex` guards.  The head of `queue`
is the back of the source's vector: `Add` pushes there and a batch is taken
from there. -/
structure Shared (T : Type) where
  queue : List T
  nIdle : ℤ
  nTotal : ℤ
  fAllOk : Bool
  nTodo : ℕ

/-- Where a thread is in `Loop`.  `exec vChecks fOk nNow` is a batch of
`nNow` checks with `vChecks` still to go; at `exec [] fOk nNow` the thread
is about to take `mutex` at the top of the `do` loop, and it enters `Loop`
there with `nNow = 0`.  `outside` is the master between calls of `Wait`. -/
inductive Pc (T : Type)
  | outside
  | exec (vChecks : List T) (fOk : Bool) (nNow : ℕ)
  | wait

/-- How a critical section of `Loop` ends: `Loop(true)` returns, the thread
waits on its condition variable, or it takes a batch. -/
inductive Outcome (T : Type)
  | returns (fRet : Bool)
  | waits
  | takes (vChecks : List T) (fOk : Bool) (nNow : ℕ)

/-- The size of the next batch: `queue.size() / (nTotal + nIdle + 1)`, at most
`nBatchSize` and at least one. -/
def batchSize (nBatchSize : ℕ) (s : Shared T) : ℕ :=
  max 1 (min nBatchSize (s.queue.length / (s.nTotal + s.nIdle + 1).toNat))

/-- The body of `while (queue.empty())` and the batch taken after it. -/
def lookForWork (nBatchSize : ℕ) (fMaster : Bool) (s : Shared T) : Shared T × Outcome T :=
  if s.queue = [] then
    if fMaster && s.nTodo == 0 then
      -- reset the status for new work later
      ({s with nTotal := s.nTotal - 1, fAllOk := if fMaster then true else s.fAllOk}, .returns s.fAllOk)
    else ({s with nIdle := s.nIdle + 1}, .waits)
  else
    ({s with queue := s.queue.drop (batchSize nBatchSize s)},
      .takes (s.queue.take (batchSize nBatchSize s)) s.fAllOk (batchSize nBatchSize s))

/-- The clean-up of the previous batch at the top of the `do` loop:
`fAllOk &= fOk; nTodo -= nNow`, or `nTotal++` on the first iteration.  The
master's notification is not modelled. -/
def report (nNow : ℕ) (fOk : Bool) (s : Shared T) : Shared T :=
  if nNow ≠ 0 then {s with fAllOk := s.fAllOk && fOk, nTodo := s.nTodo - nNow}
  else {s with nTotal := s.nTotal + 1}

/-- The critical section at the top of the `do` loop. -/
def lockTop (nBatchSize : ℕ) (fMaster : Bool) (nNow : ℕ) (fOk : Bool) (s : Shared T) :
    Shared T × Outcome T :=
  lookForWork nBatchSize fMaster (report nNow fOk s)

/-- The critical section after `cond.wait` returns: `nIdle--`, then the
`while` test again. -/
def wakeUp (nBatchSize : ℕ) (fMaster : Bool) (s : Shared T) : Shared T × Outcome T :=
  lookForWork nBatchSize fMaster {s with nIdle := s.nIdle - 1}

/-- `Add(vChecks)`: each check is pushed onto the back of `queue`. -/
def add (vChecks : List T) (s : Shared T) : Shared T :=
  {s with queue := vChecks.reverse ++ s.queue, nTodo := s.nTodo + vChecks.length}

/-- Instrumentation, not in the source: the checks added since `Wait` last
returned, and of them those whose `operator()` was called and those skipped
because `fOk` was already `false`. -/
structure Ghost (T : Type) where
  added : Multiset T
  ran : Multiset T
  skipped : Multiset T

/-- The instrumentation at the start of a round. -/
def Ghost.empty : Ghost T := ⟨0, 0, 0⟩

/-- The queue with its threads: `none` is the master, `some i` a worker. -/
structure State (T : Type) (n : ℕ) where
  shared : Shared T
  pc : Option (Fin n) → Pc T
  ghost : Ghost T

/-- What a thread does next. -/
inductive Action (T : Type) (n : ℕ)
  | add (vChecks : List T)
  | wait
  | lock (t : Option (Fin n))
  | wake (t : Option (Fin n))
  | check (t : Option (Fin n))

namespace State

/-- Thread `t` moves to `p`. -/
def setPc (s : State T n) (t : Option (Fin n)) (p : Pc T) : State T n :=
  {s with pc := Function.update s.pc t p}

/-- Thread `t` leaves a critical section with the shared state and outcome
`r`; when `Wait` returns, the instrumentation starts a new round. -/
def leave (s : State T n) (t : Option (Fin n)) (r : Shared T × Outcome T) : State T n × Option Bool :=
  match r.2 with
  | .returns fRet => ({shared := r.1, pc := Function.update s.pc t .outside, ghost := Ghost.empty}, some fRet)
  | .waits => ({(s.setPc t .wait) with shared := r.1}, none)
  | .takes vChecks fOk nNow => ({(s.setPc t (.exec vChecks fOk nNow)) with shared := r.1}, none)

/-- The master's `Add(vChecks)`; the checks join the round. -/
def addChecks (s : State T n) (vChecks : List T) : State T n where
  shared := add vChecks s.shared
  pc := s.pc
  ghost := {s.ghost with added := s.ghost.added + vChecks}

/-- `if (fOk) fOk = check();` for the next check of thread `t`'s batch. -/
def runCheck (run : T → Bool) (s : State T n) (t : Option (Fin n)) (check : T) (vChecks : List T)
    (fOk : Bool) (nNow : ℕ) : State T n :=
  if fOk then {(s.setPc t (.exec vChecks (run check) nNow)) with ghost := {s.ghost with ran := check ::ₘ s.ghost.ran}}
  else {(s.setPc t (.exec vChecks fOk nNow)) with ghost := {s.ghost with skipped := check ::ₘ s.ghost.skipped}}

end State

/-- One step of the queue, for checks whose results are `run` and batches of
at most `nBatchSize`; with the value `Wait` returns, if it does. -/
def step (run : T → Bool) (nBatchSize : ℕ) (s : State T n) : Action T n → Option (State T n × Option Bool)
  | .add vChecks =>
    match s.pc none with
    | .outside => some (s.addChecks vChecks, none)
    | _ => none
  | .wait =>
    match s.pc none with
    | .outside => some (s.setPc none (.exec [] true 0), none)
    | _ => none
  | .lock t =>
    match s.pc t with
    | .exec [] fOk nNow => some (s.leave t (lockTop nBatchSize t.isNone nNow fOk s.shared))
    | _ => none
  | .wake t =>
    match s.pc t with
    | .wait => some (s.leave t (wakeUp nBatchSize t.isNone s.shared))
    | _ => none
  | .check t =>
    match s.pc t with
    | .exec (check :: vChecks) fOk nNow => some (s.runCheck run t check vChecks fOk nNow, none)
    | _ => none

/-- A new queue: the workers have entered `Loop` (`ThreadScriptCheck`), the
master is outside it. -/
def init (T : Type) (n : ℕ) : State T n where
  shared := ⟨[], 0, 0, true, 0⟩
  pc := fun
    | none => .outside
    | some _ => .exec [] true 0
  ghost := Ghost.empty

/-! ## What a thread holds -/

namespace Pc

/-- The size of a batch taken and not yet reported: what the thread adds to
`nTodo`. -/
def held : Pc T → ℕ
  | .exec _ _ nNow => nNow
  | _ => 0

/-- The checks of the thread's batch still to go. -/
def pending : Pc T → List T
  | .exec vChecks _ _ => vChecks
  | _ => []

/-- The thread holds a batch whose `fOk` is `false`. -/
def Failing : Pc T → Prop
  | .exec _ fOk nNow => fOk = false ∧ 0 < nNow
  | _ => False

@[simp] theorem held_exec (vChecks : List T) (fOk : Bool) (nNow : ℕ) : (exec vChecks fOk nNow).held = nNow := rfl
@[simp] theorem held_wait : (wait : Pc T).held = 0 := rfl
@[simp] theorem held_outside : (outside : Pc T).held = 0 := rfl

@[simp] theorem pending_exec (vChecks : List T) (fOk : Bool) (nNow : ℕ) :
    (exec vChecks fOk nNow).pending = vChecks := rfl
@[simp] theorem pending_wait : (wait : Pc T).pending = [] := rfl
@[simp] theorem pending_outside : (outside : Pc T).pending = [] := rfl

@[simp] theorem failing_exec (vChecks : List T) (fOk : Bool) (nNow : ℕ) :
    (exec vChecks fOk nNow).Failing ↔ fOk = false ∧ 0 < nNow := Iff.rfl
@[simp] theorem not_failing_wait : ¬(wait : Pc T).Failing := id
@[simp] theorem not_failing_outside : ¬(outside : Pc T).Failing := id

/-- A thread that holds no batch is not failing. -/
theorem not_failing_of_held_eq_zero {p : Pc T} (h : p.held = 0) : ¬p.Failing := by
  cases p with
  | exec vChecks fOk nNow =>
    simp only [held_exec] at h
    simp [h]
  | _ => simp

end Pc

/-- A check of the round ran and returned `false`. -/
def Ghost.Failed (run : T → Bool) (g : Ghost T) : Prop := ∃ c ∈ g.ran, run c = false

/-! ## The invariant -/

/-- What holds in every reachable state. -/
structure Inv (run : T → Bool) (s : State T n) : Prop where
  /-- `nTodo` counts the queued checks and the batches not yet reported. -/
  todo : s.shared.nTodo = s.shared.queue.length + ∑ t, (s.pc t).held
  /-- What is left of a batch is part of it. -/
  pending_le : ∀ t, (s.pc t).pending.length ≤ (s.pc t).held
  /-- Every check of the round is queued, left in a batch, ran, or was skipped. -/
  conserve : s.ghost.added =
    (s.shared.queue : Multiset T) + ∑ t, ((s.pc t).pending : Multiset T) + s.ghost.ran + s.ghost.skipped
  /-- `fAllOk` is `false` only after a failure. -/
  allOk : s.shared.fAllOk = false → s.ghost.Failed run
  /-- So is the `fOk` of a batch. -/
  fOk : ∀ t, (s.pc t).Failing → s.ghost.Failed run
  /-- A failure is recorded, in `fAllOk` or in the `fOk` of its batch. -/
  recorded : s.ghost.Failed run → s.shared.fAllOk = false ∨ ∃ t, (s.pc t).Failing
  /-- A check is skipped only after a failure. -/
  skipped : s.ghost.skipped ≠ 0 → s.ghost.Failed run
  /-- Workers never leave `Loop`. -/
  workers : ∀ i, s.pc (some i) ≠ .outside

variable {run : T → Bool} {s : State T n}

theorem sum_held_update (pc : Option (Fin n) → Pc T) (t : Option (Fin n)) (p : Pc T) :
    ∑ t', (Function.update pc t p t').held + (pc t).held = ∑ t', (pc t').held + p.held :=
  sum_update_add Pc.held pc t p

theorem sum_pending_update (pc : Option (Fin n) → Pc T) (t : Option (Fin n)) (p : Pc T) :
    ∑ t', ((Function.update pc t p t').pending : Multiset T) + ((pc t).pending : Multiset T) =
      ∑ t', ((pc t').pending : Multiset T) + (p.pending : Multiset T) :=
  sum_update_add (fun p : Pc T => (p.pending : Multiset T)) pc t p

/-- No worker is outside `Loop` after thread `t` moves to a place inside it. -/
theorem workers_update {pc : Option (Fin n) → Pc T} {t : Option (Fin n)} {p : Pc T}
    (h : ∀ i, pc (some i) ≠ .outside) (hp : ∀ i, t = some i → p ≠ .outside) :
    ∀ i, Function.update pc t p (some i) ≠ .outside := by
  intro i
  by_cases hi : some i = t
  · rw [← hi, Function.update_self]
    exact hp i hi.symm
  · rw [Function.update_of_ne hi]
    exact h i

/-- A thread that holds no batch has nothing left of one. -/
theorem Inv.pending_eq_nil (hs : Inv run s) {t : Option (Fin n)} (hfree : (s.pc t).held = 0) :
    (s.pc t).pending = [] :=
  List.eq_nil_of_length_eq_zero (Nat.le_zero.mp (hfree ▸ hs.pending_le t))

/-! ## The critical sections -/

/-- A batch never takes more than the queue holds. -/
theorem batchSize_le (nBatchSize : ℕ) {sh : Shared T} (hne : sh.queue ≠ []) :
    batchSize nBatchSize sh ≤ sh.queue.length := by
  have hlen : 1 ≤ sh.queue.length := List.length_pos_iff.mpr hne
  exact max_le hlen ((min_le_right _ _).trans (Nat.div_le_self _ _))

/-- The three ways `lookForWork` ends. -/
theorem lookForWork_cases (nBatchSize : ℕ) (fMaster : Bool) (sh : Shared T) :
    (sh.queue = [] ∧ fMaster = true ∧ sh.nTodo = 0 ∧
      lookForWork nBatchSize fMaster sh = ({sh with nTotal := sh.nTotal - 1, fAllOk := true}, .returns sh.fAllOk)) ∨
    (sh.queue = [] ∧ (fMaster = true → sh.nTodo ≠ 0) ∧
      lookForWork nBatchSize fMaster sh = ({sh with nIdle := sh.nIdle + 1}, .waits)) ∨
    (sh.queue ≠ [] ∧ lookForWork nBatchSize fMaster sh =
      ({sh with queue := sh.queue.drop (batchSize nBatchSize sh)},
        .takes (sh.queue.take (batchSize nBatchSize sh)) sh.fAllOk (batchSize nBatchSize sh))) := by
  unfold lookForWork
  by_cases hq : sh.queue = []
  · by_cases hm : fMaster = true ∧ sh.nTodo = 0
    · obtain ⟨rfl, h0⟩ := hm
      exact Or.inl ⟨hq, rfl, h0, by simp [hq, h0]⟩
    · refine Or.inr (Or.inl ⟨hq, fun h h0 => hm ⟨h, h0⟩, ?_⟩)
      rw [if_pos hq, if_neg (by simpa using hm)]
  · exact Or.inr (Or.inr ⟨hq, by rw [if_neg hq]⟩)

/-- Leaving a critical section overwrites the thread's `pc`. -/
theorem State.leave_setPc (s : State T n) (t : Option (Fin n)) (p : Pc T) (sh : Shared T)
    (r : Shared T × Outcome T) : ({s.setPc t p with shared := sh} : State T n).leave t r = s.leave t r := by
  unfold State.leave State.setPc
  split <;> simp [Function.update_idem]

/-! ## Each step keeps the invariant -/

/-- The invariant reads neither `nIdle` nor `nTotal`. -/
theorem Inv.counters (hs : Inv run s) (nIdle nTotal : ℤ) :
    Inv run {s with shared := {s.shared with nIdle := nIdle, nTotal := nTotal}} :=
  ⟨hs.todo, hs.pending_le, hs.conserve, hs.allOk, hs.fOk, hs.recorded, hs.skipped, hs.workers⟩

/-- Thread `t` moves to `p` and the shared state becomes `sh`, with the
instrumentation unchanged: what each field of `Inv` asks of such a move. -/
theorem Inv.move (hs : Inv run s) {t : Option (Fin n)} {p : Pc T} {sh : Shared T}
    (htodo : sh.nTodo + s.shared.queue.length + (s.pc t).held = s.shared.nTodo + sh.queue.length + p.held)
    (hpend : p.pending.length ≤ p.held)
    (hqueue : (s.shared.queue : Multiset T) + ((s.pc t).pending : Multiset T) =
      (sh.queue : Multiset T) + (p.pending : Multiset T))
    (hallOk : sh.fAllOk = false → s.ghost.Failed run) (hfOk : p.Failing → s.ghost.Failed run)
    (hrec : s.shared.fAllOk = false ∨ (s.pc t).Failing → sh.fAllOk = false ∨ p.Failing)
    (hw : ∀ i, t = some i → p ≠ .outside) :
    Inv run {s.setPc t p with shared := sh} where
  todo := by
    have hsum := sum_held_update s.pc t p
    have htodo₀ := hs.todo
    simp only [State.setPc]
    omega
  pending_le := (Function.forall_update_iff s.pc fun _ q => q.pending.length ≤ q.held).mpr
    ⟨hpend, fun t' _ => hs.pending_le t'⟩
  conserve := by
    have hsum := sum_pending_update s.pc t p
    have hmove : (s.shared.queue : Multiset T) + ∑ t', ((s.pc t').pending : Multiset T) =
        sh.queue + ∑ t', ((Function.update s.pc t p t').pending : Multiset T) := by
      rw [← add_left_inj ((s.pc t).pending : Multiset T)]
      calc (s.shared.queue : Multiset T) + ∑ t', ((s.pc t').pending : Multiset T) + (s.pc t).pending
          = (s.shared.queue + (s.pc t).pending) + ∑ t', ((s.pc t').pending : Multiset T) := by abel
        _ = sh.queue + (∑ t', ((s.pc t').pending : Multiset T) + p.pending) := by rw [hqueue]; abel
        _ = sh.queue + ∑ t', ((Function.update s.pc t p t').pending : Multiset T) + (s.pc t).pending := by
          rw [← hsum]; abel
    simp only [State.setPc]
    rw [hs.conserve, hmove]
  allOk := hallOk
  fOk := (Function.forall_update_iff s.pc fun _ q => q.Failing → s.ghost.Failed run).mpr
    ⟨hfOk, fun t' _ => hs.fOk t'⟩
  recorded := by
    intro hfail
    rcases hs.recorded hfail with hall | ⟨t', ht'⟩
    · exact (hrec (Or.inl hall)).imp_right fun hp => ⟨t, by simpa [State.setPc] using hp⟩
    · by_cases hne : t' = t
      · subst hne
        exact (hrec (Or.inr ht')).imp_right fun hp => ⟨t', by simpa [State.setPc] using hp⟩
      · exact Or.inr ⟨t', by simpa [State.setPc, Function.update_of_ne hne] using ht'⟩
  skipped := hs.skipped
  workers := workers_update hs.workers hw

/-- Every batch not yet reported is counted in `nTodo`. -/
theorem Inv.held_le_todo (hs : Inv run s) (t : Option (Fin n)) : (s.pc t).held ≤ s.shared.nTodo := by
  rw [hs.todo]
  exact (Finset.single_le_sum (fun t' _ => Nat.zero_le (s.pc t').held) (Finset.mem_univ t)).trans
    (Nat.le_add_left _ _)

/-- The report of a batch at the top of the `do` loop, before the `while` test. -/
theorem Inv.reported (hs : Inv run s) {t : Option (Fin n)} {fOk : Bool} {nNow : ℕ}
    (hpc : s.pc t = .exec [] fOk nNow) :
    Inv run {s.setPc t .wait with shared := report nNow fOk s.shared} := by
  have hle : nNow ≤ s.shared.nTodo := by simpa [hpc] using hs.held_le_todo t
  have hqueue : (s.shared.queue : Multiset T) + ((s.pc t).pending : Multiset T) =
      s.shared.queue + ((Pc.wait : Pc T).pending : Multiset T) := by
    rw [hpc]
    rfl
  unfold report
  split_ifs with hn
  · refine hs.move ?_ le_rfl hqueue ?_ (Pc.not_failing_wait · |>.elim) ?_ fun _ _ => nofun
    · simp only [hpc, Pc.held_exec, Pc.held_wait]
      omega
    · intro hall
      rcases Bool.and_eq_false_iff.mp hall with hall | hf
      · exact hs.allOk hall
      · exact hs.fOk t (by rw [hpc]; exact ⟨hf, Nat.pos_of_ne_zero hn⟩)
    · rintro (hall | hfail)
      · exact Or.inl (by simp [hall])
      · rw [hpc] at hfail
        exact Or.inl (by simp [hfail.1])
  · refine hs.move ?_ le_rfl hqueue hs.allOk (Pc.not_failing_wait · |>.elim) ?_ fun _ _ => nofun
    · simp only [hpc, Pc.held_exec, Pc.held_wait]
      omega
    · rintro (hall | hfail)
      · exact Or.inl hall
      · rw [hpc] at hfail
        exact absurd hfail.2 (by omega)

/-- `Wait` returns: the round's threads hold nothing and the instrumentation
starts afresh. -/
theorem Inv.restart (hs : Inv run s) (hq : s.shared.queue = []) (h0 : s.shared.nTodo = 0) :
    Inv run ⟨{s.shared with nTotal := s.shared.nTotal - 1, fAllOk := true},
      Function.update s.pc none .outside, Ghost.empty⟩ := by
  have hheld : ∀ t, (Function.update s.pc none .outside t).held = 0 :=
    (Function.forall_update_iff s.pc fun _ q => q.held = 0).mpr
      ⟨rfl, fun t _ => Nat.le_zero.mp (h0 ▸ hs.held_le_todo t)⟩
  have hpend : ∀ t, (Function.update s.pc none .outside t).pending = [] :=
    (Function.forall_update_iff s.pc fun _ q => q.pending = []).mpr
      ⟨rfl, fun t _ => hs.pending_eq_nil (Nat.le_zero.mp (h0 ▸ hs.held_le_todo t))⟩
  refine ⟨?_, fun t => by simp [hpend t], ?_, nofun, ?_, ?_, fun h => (h rfl).elim, ?_⟩
  · simp [hheld, hq, h0]
  · simp [hpend, hq, Ghost.empty]
  · exact fun t h => Pc.not_failing_of_held_eq_zero (hheld t) h |>.elim
  · rintro ⟨c, hc, -⟩
    exact absurd hc (Multiset.notMem_zero c)
  · show ∀ i, Function.update s.pc none .outside (some i) ≠ .outside
    exact workers_update hs.workers fun _ h => nomatch h

/-- The `while` test and what follows it, for a thread that holds no batch. -/
theorem Inv.leave_lookForWork (hs : Inv run s) {t : Option (Fin n)} (hfree : (s.pc t).held = 0)
    (nBatchSize : ℕ) : Inv run (s.leave t (lookForWork nBatchSize t.isNone s.shared)).1 := by
  have hnf := Pc.not_failing_of_held_eq_zero hfree
  have hpend := hs.pending_eq_nil hfree
  rcases lookForWork_cases nBatchSize t.isNone s.shared with ⟨hq, hm, h0, hr⟩ | ⟨-, -, hr⟩ | ⟨hq, hr⟩
  · -- only the master returns
    obtain rfl := Option.isNone_iff_eq_none.mp hm
    rw [hr]
    exact hs.restart hq h0
  · rw [hr]
    refine hs.move ?_ le_rfl ?_ hs.allOk (Pc.not_failing_wait · |>.elim) ?_ fun _ _ => nofun
    · simp [hfree]
    · simp [hpend]
    · exact fun h => h.imp_right fun h => (hnf h).elim
  · have hk := batchSize_le nBatchSize hq
    rw [hr]
    refine hs.move ?_ (List.length_take_le _ _) ?_ hs.allOk (fun h => hs.allOk h.1) ?_ fun _ _ => nofun
    · simp only [hfree, List.length_drop, Pc.held_exec]
      omega
    · simp only [hpend, Pc.pending_exec, Multiset.coe_nil, add_zero]
      rw [add_comm, Multiset.coe_add, List.take_append_drop]
    · exact fun h => Or.inl (h.resolve_right hnf)

/-- A failure stays recorded when another check runs. -/
theorem Ghost.failed_cons {g : Ghost T} (c : T) (h : g.Failed run) :
    Ghost.Failed run {g with ran := c ::ₘ g.ran} := by
  obtain ⟨d, hd, hf⟩ := h
  exact ⟨d, Multiset.mem_cons_of_mem hd, hf⟩

/-- The next check of thread `t`'s batch leaves the checks still to go. -/
theorem sum_pending_check {pc : Option (Fin n) → Pc T} {t : Option (Fin n)} {c : T} {rest : List T}
    {fOk : Bool} {nNow : ℕ} (hpc : pc t = .exec (c :: rest) fOk nNow) (f : Bool) :
    ∑ t', ((pc t').pending : Multiset T) =
      c ::ₘ ∑ t', ((Function.update pc t (.exec rest f nNow) t').pending : Multiset T) := by
  have hsum := sum_pending_update pc t (.exec rest f nNow)
  rw [hpc, Pc.pending_exec, Pc.pending_exec] at hsum
  rw [← add_left_inj (rest : Multiset T), ← hsum, ← Multiset.cons_coe, Multiset.add_cons, Multiset.cons_add]

/-- `if (fOk) fOk = check();`: the check runs, or is skipped after a failure. -/
theorem Inv.runCheck (hs : Inv run s) {t : Option (Fin n)} {c : T} {rest : List T} {fOk : Bool} {nNow : ℕ}
    (hpc : s.pc t = .exec (c :: rest) fOk nNow) : Inv run (s.runCheck run t c rest fOk nNow) := by
  have hlen : rest.length + 1 ≤ nNow := by simpa [hpc] using hs.pending_le t
  have htodo (f : Bool) :
      ∑ t', (Function.update s.pc t (.exec rest f nNow) t').held = ∑ t', (s.pc t').held := by
    have hsum := sum_held_update s.pc t (.exec rest f nNow)
    rw [hpc, Pc.held_exec, Pc.held_exec] at hsum
    omega
  have hpend (f : Bool) : ∀ t', (Function.update s.pc t (.exec rest f nNow) t').pending.length ≤
      (Function.update s.pc t (.exec rest f nNow) t').held :=
    (Function.forall_update_iff s.pc fun _ q => q.pending.length ≤ q.held).mpr
      ⟨by simp only [Pc.pending_exec, Pc.held_exec]; omega, fun t' _ => hs.pending_le t'⟩
  have hw (f : Bool) := workers_update hs.workers (p := .exec rest f nNow) (t := t) fun _ _ => nofun
  unfold State.runCheck
  split_ifs with hf
  · -- the check runs and its result becomes the batch's `fOk`
    refine ⟨?_, hpend _, ?_, fun h => Ghost.failed_cons c (hs.allOk h), ?_, ?_,
      fun h => Ghost.failed_cons c (hs.skipped h), hw _⟩
    · simp only [State.setPc]
      rw [htodo, hs.todo]
    · simp only [State.setPc]
      rw [hs.conserve, sum_pending_check hpc (run c)]
      simp only [Multiset.add_cons, Multiset.cons_add]
    · refine (Function.forall_update_iff s.pc fun _ q => q.Failing → _).mpr ⟨?_, fun t' _ h => Ghost.failed_cons c (hs.fOk t' h)⟩
      rintro ⟨hc, -⟩
      exact ⟨c, Multiset.mem_cons_self c _, hc⟩
    · rintro ⟨d, hd, hfd⟩
      rcases Multiset.mem_cons.mp hd with rfl | hd
      · exact Or.inr ⟨t, by simp only [State.setPc, Function.update_self, Pc.failing_exec]; exact ⟨hfd, by omega⟩⟩
      · refine (hs.recorded ⟨d, hd, hfd⟩).imp_right fun ⟨t', ht'⟩ => ⟨t', ?_⟩
        have hne : t' ≠ t := by
          rintro rfl
          rw [hpc, Pc.failing_exec, hf] at ht'
          exact Bool.noConfusion ht'.1
        simpa [State.setPc, Function.update_of_ne hne] using ht'
  · -- a failure is already recorded: the check is skipped
    have hfOk : fOk = false := by simpa using hf
    have hfail : s.ghost.Failed run := hs.fOk t (by rw [hpc]; exact ⟨hfOk, by omega⟩)
    refine ⟨?_, hpend _, ?_, hs.allOk, ?_, ?_, fun _ => hfail, hw _⟩
    · simp only [State.setPc]
      rw [htodo, hs.todo]
    · simp only [State.setPc]
      rw [hs.conserve, sum_pending_check hpc fOk]
      simp only [Multiset.add_cons, Multiset.cons_add]
    · exact (Function.forall_update_iff s.pc fun _ q => q.Failing → _).mpr ⟨fun _ => hfail, fun t' _ => hs.fOk t'⟩
    · intro h
      refine (hs.recorded h).imp_right fun ⟨t', ht'⟩ => ?_
      by_cases hne : t' = t
      · exact ⟨t, by simp only [State.setPc, Function.update_self, Pc.failing_exec]; exact ⟨hfOk, by omega⟩⟩
      · exact ⟨t', by simpa [State.setPc, Function.update_of_ne hne] using ht'⟩

/-- `Add(vChecks)` puts the checks on the queue and in the round. -/
theorem Inv.addChecks (hs : Inv run s) (vChecks : List T) : Inv run (s.addChecks vChecks) where
  todo := by
    simp only [State.addChecks, add, List.length_append, List.length_reverse]
    rw [hs.todo]
    omega
  pending_le := hs.pending_le
  conserve := by
    simp only [State.addChecks, add]
    rw [hs.conserve, ← Multiset.coe_add, Multiset.coe_reverse]
    abel
  allOk := hs.allOk
  fOk := hs.fOk
  recorded := hs.recorded
  skipped := hs.skipped
  workers := hs.workers

theorem init_inv : Inv run (init T n) where
  todo := by
    have hheld : ∑ t, ((init T n).pc t).held = 0 := Finset.sum_eq_zero fun t _ => by cases t <;> rfl
    rw [hheld]
    rfl
  pending_le t := by cases t <;> exact le_rfl
  conserve := by
    have hpend : ∑ t, (((init T n).pc t).pending : Multiset T) = 0 :=
      Finset.sum_eq_zero fun t _ => by cases t <;> rfl
    rw [hpend]
    simp [init, Ghost.empty]
  allOk := nofun
  fOk t h := by cases t <;> simp [init] at h
  recorded := fun ⟨c, hc, _⟩ => absurd hc (Multiset.notMem_zero c)
  skipped h := (h rfl).elim
  workers _ := nofun

/-- Every step keeps the invariant. -/
theorem step_inv {nBatchSize : ℕ} {a : Action T n} {s' : State T n} {r : Option Bool} (hs : Inv run s)
    (h : step run nBatchSize s a = some (s', r)) : Inv run s' := by
  cases a with
  | add vChecks =>
    simp only [step] at h
    split at h
    · cases h
      exact hs.addChecks vChecks
    · cases h
  | wait =>
    simp only [step] at h
    split at h
    · cases h
      rename_i hpc
      refine hs.move ?_ le_rfl ?_ hs.allOk (fun h => absurd h.1 Bool.noConfusion) ?_ fun _ h => nomatch h
      · simp [hpc]
      · simp [hpc]
      · exact fun h => h.imp_right fun h => by simp [hpc] at h
    · cases h
  | lock t =>
    simp only [step] at h
    split at h
    · rename_i fOk nNow hpc
      obtain rfl := congrArg Prod.fst (Option.some.inj h)
      -- the report, then the `while` test from the thread's new place
      have hwait : ((s.setPc t .wait).pc t).held = 0 := by simp [State.setPc]
      have h' := (hs.reported hpc).leave_lookForWork hwait nBatchSize
      rwa [State.leave_setPc] at h'
    · cases h
  | wake t =>
    simp only [step] at h
    split at h
    · rename_i hpc
      obtain rfl := congrArg Prod.fst (Option.some.inj h)
      exact (hs.counters (s.shared.nIdle - 1) s.shared.nTotal).leave_lookForWork (by simp [hpc]) nBatchSize
    · cases h
  | check t =>
    simp only [step] at h
    split at h
    · cases h
      rename_i c rest fOk nNow hpc
      exact hs.runCheck hpc
    · cases h

/-- Every reachable state satisfies the invariant. -/
theorem reachable_inv {nBatchSize : ℕ} (hs : Reachable (init T n) (step run nBatchSize) s) : Inv run s :=
  hs.inv init_inv fun _ _ _ _ hinv h => step_inv hinv h

/-! ## What `Wait` returns -/

/-- With the queue empty and `nTodo` zero, every check of the round ran or was
skipped, and `fAllOk` is the conjunction of their results. -/
theorem Inv.drained (hs : Inv run s) (hq : s.shared.queue = []) (h0 : s.shared.nTodo = 0) :
    (s.shared.fAllOk = true ↔ ∀ c ∈ s.ghost.added, run c = true) ∧
      s.ghost.added = s.ghost.ran + s.ghost.skipped ∧ (s.ghost.skipped ≠ 0 → s.ghost.Failed run) := by
  have hfree (t : Option (Fin n)) : (s.pc t).held = 0 := Nat.le_zero.mp (h0 ▸ hs.held_le_todo t)
  have hadded : s.ghost.added = s.ghost.ran + s.ghost.skipped := by
    have hpend : ∑ t, ((s.pc t).pending : Multiset T) = 0 :=
      Finset.sum_eq_zero fun t _ => by rw [hs.pending_eq_nil (hfree t)]; rfl
    rw [hs.conserve, hq, hpend]
    simp
  -- no thread holds a batch, so a failure can only be recorded in `fAllOk`
  have hrec : s.ghost.Failed run ↔ s.shared.fAllOk = false :=
    ⟨fun h => (hs.recorded h).resolve_right fun ⟨t, ht⟩ => Pc.not_failing_of_held_eq_zero (hfree t) ht,
      hs.allOk⟩
  refine ⟨?_, hadded, hs.skipped⟩
  constructor
  · intro hok c hc
    rw [hadded, Multiset.mem_add] at hc
    rcases hc with hc | hc
    · by_contra hfail
      exact absurd (hrec.mp ⟨c, hc, by simpa using hfail⟩) (by simp [hok])
    · have hne : s.ghost.skipped ≠ 0 := by
        rintro hzero
        rw [hzero] at hc
        exact Multiset.notMem_zero c hc
      exact absurd (hrec.mp (hs.skipped hne)) (by simp [hok])
  · intro hall
    by_contra hfalse
    obtain ⟨c, hc, hfc⟩ := hrec.mpr (by simpa using hfalse)
    have hc' : c ∈ s.ghost.added := by
      rw [hadded]
      exact Multiset.mem_add.mpr (Or.inl hc)
    simp [hall c hc'] at hfc

/-- How a critical section returns from `Loop`: in the master, with the queue
empty and `nTodo` zero. -/
theorem leave_returns {s' : State T n} {t : Option (Fin n)} {sh : Shared T} {nBatchSize : ℕ} {fRet : Bool}
    (h : s.leave t (lookForWork nBatchSize t.isNone sh) = (s', some fRet)) :
    t = none ∧ sh.queue = [] ∧ sh.nTodo = 0 ∧ fRet = sh.fAllOk ∧
      s' = ⟨{sh with nTotal := sh.nTotal - 1, fAllOk := true}, Function.update s.pc none .outside, Ghost.empty⟩ := by
  rcases lookForWork_cases nBatchSize t.isNone sh with ⟨hq, hm, h0, hr⟩ | ⟨-, -, hr⟩ | ⟨-, hr⟩
  · obtain rfl := Option.isNone_iff_eq_none.mp hm
    rw [hr] at h
    simp only [State.leave, Prod.mk.injEq, Option.some.injEq] at h
    exact ⟨rfl, hq, h0, h.2.symm, h.1.symm⟩
  · rw [hr] at h
    simp [State.leave] at h
  · rw [hr] at h
    simp [State.leave] at h

/-- A critical section that returns from `Loop`, from a state of the invariant. -/
theorem Inv.returns (hs : Inv run s) {s' : State T n} {t : Option (Fin n)} {nBatchSize : ℕ} {fRet : Bool}
    (h : s.leave t (lookForWork nBatchSize t.isNone s.shared) = (s', some fRet)) :
    (fRet = true ↔ ∀ c ∈ s.ghost.added, run c = true) ∧ s.ghost.added = s.ghost.ran + s.ghost.skipped ∧
      (s.ghost.skipped ≠ 0 → ∃ c ∈ s.ghost.ran, run c = false) ∧
      s'.shared.fAllOk = true ∧ s'.ghost = Ghost.empty ∧ ∀ t, (s'.pc t).held = 0 := by
  obtain ⟨-, hq, h0, rfl, rfl⟩ := leave_returns h
  obtain ⟨hok, hadded, hskipped⟩ := hs.drained hq h0
  exact ⟨hok, hadded, hskipped, rfl, rfl, fun t => Nat.le_zero.mp (((hs.restart hq h0).held_le_todo t).trans_eq h0)⟩

/-- Whenever `Wait` returns, it returns whether every check added in the round
returned `true`; every such check ran once or was skipped after a failed one,
and the next round starts with `fAllOk` reset and no batch of this one left in
any thread. -/
theorem wait_returns_all_ok {nBatchSize : ℕ} {s' : State T n} {a : Action T n} {fRet : Bool}
    (hs : Reachable (init T n) (step run nBatchSize) s) (h : step run nBatchSize s a = some (s', some fRet)) :
    (fRet = true ↔ ∀ c ∈ s.ghost.added, run c = true) ∧ s.ghost.added = s.ghost.ran + s.ghost.skipped ∧
      (s.ghost.skipped ≠ 0 → ∃ c ∈ s.ghost.ran, run c = false) ∧
      s'.shared.fAllOk = true ∧ s'.ghost = Ghost.empty ∧ ∀ t, (s'.pc t).held = 0 := by
  have hinv := reachable_inv hs
  -- only the two critical sections of `Loop` return a value
  cases a with
  | lock t =>
    simp only [step] at h
    split at h
    · rename_i fOk nNow hpc
      have hl := Option.some.inj h
      rw [lockTop, ← State.leave_setPc s t .wait (report nNow fOk s.shared)] at hl
      exact (hinv.reported hpc).returns hl
    · cases h
  | wake t =>
    simp only [step] at h
    split at h
    · exact (hinv.counters (s.shared.nIdle - 1) s.shared.nTotal).returns (Option.some.inj h)
    · cases h
  | add vChecks =>
    simp only [step] at h
    split at h <;> cases h
  | wait =>
    simp only [step] at h
    split at h <;> cases h
  | check t =>
    simp only [step] at h
    split at h <;> cases h

theorem wait_returns_all_ok_one_check :
    ∃ s s' : State Bool 1, Reachable (init Bool 1) (step id 1) s ∧
      step id 1 s (.lock none) = some (s', some true) ∧ ∀ c ∈ s.ghost.added, id c = true := by
  have hreach := Reachable.step (a := .check none) (Reachable.step (a := .lock none)
    (Reachable.step (a := .wait) (Reachable.step (a := .add [true]) (@Reachable.init _ _ _ (init Bool 1) (step id 1))
      rfl) rfl) rfl) rfl
  exact ⟨_, _, hreach, rfl, (wait_returns_all_ok (a := .lock none) hreach rfl).1.mp rfl⟩

end XPChain.CheckQueue
