import XPChain.Lib.Interleaving
import Mathlib.Data.Fintype.Basic
import Mathlib.Data.List.Infix

/-!
# The single-threaded scheduler client

`SingleThreadedSchedulerClient` of `scheduler.cpp` runs the callbacks given
to `AddToProcessQueue` one at a time and in order, on whichever `CScheduler`
service thread takes its `ProcessQueue` task.  Mutual exclusion comes from
the flag `m_are_callbacks_running`, which `ProcessQueue` sets under
`m_cs_callbacks_pending` before it pops the next callback, and which the
destructor of `RAIICallbacksRunning` clears after the callback returns or
throws.  `MaybeScheduleProcessQueue` decides under the lock whether to
schedule a `ProcessQueue` task, and schedules it after releasing the lock.

The model is an interleaving system over `Interleaving`: `n` threads, each
one an `AddToProcessQueue` caller or a service thread as it goes, and one
step is one critical section, one call of `CScheduler::schedule`, one task
taken from `taskQueue`, or the end of a callback.  The tasks of this client
in `taskQueue` are all `ProcessQueue`, so the model counts them.  A callback
may itself call `AddToProcessQueue`; that call's critical sections run as
one step (`addNested`), since only the thread that set the flag can clear
it.  `EmptyQueue`, which runs only when no service thread is left, is not
modelled.  The state carries instrumentation the source does not have
(`Ghost`): the callbacks added and those started, in order.

`Inv` holds in every reachable state: at most one thread is inside a
callback (or its destructor), and the flag says whether one is; the
callbacks started and those pending make up those added, in order; and a
pending callback with no callback running has a task queued, or a thread
that will queue one or has taken one.  The last clause cannot do without
the taken task: `serviceQueue` erases a task from `taskQueue` and unlocks
before it calls `ProcessQueue` (`callback_taken_not_queued`).

## Main definitions

* `Client`, `Pc`, `State`, `Action`, `step`.
* `pushCallback`, `shouldSchedule`, `takeCallback` — the critical sections.
* `Inv` — the invariant of reachable states.

## Main statements

* `reachable_inv` — every reachable state satisfies `Inv`.
* `callbacks_serial_in_order` — callbacks never overlap, start in the order
  they were added, and are not lost.
-/

set_option autoImplicit false

namespace XPChain.Scheduler

open Interleaving

variable {F : Type} {n : ℕ}

/-! ## The model -/

/-- The members of `SingleThreadedSchedulerClient` that
`m_cs_callbacks_pending` guards, and the number of its `ProcessQueue` tasks
in `CScheduler::taskQueue`. -/
structure Client (F : Type) where
  m_callbacks_pending : List F
  m_are_callbacks_running : Bool
  taskQueue : ℕ

/-- Where a thread is.  `added` and `reset` are before the critical section
of `MaybeScheduleProcessQueue` (called by `AddToProcessQueue` and by
`~RAIICallbacksRunning`), `scheduling` after it and before
`m_pscheduler->schedule`, `taken` after `serviceQueue` erased a task and
before `ProcessQueue`'s critical section, `running` inside `callback()`,
and `unwinding` before the critical section of `~RAIICallbacksRunning`. -/
inductive Pc (F : Type)
  | idle
  | added
  | scheduling
  | taken
  | running (callback : F)
  | unwinding
  | reset
  deriving DecidableEq

/-- Instrumentation, not in the source: the callbacks added, and those
started, in order. -/
structure Ghost (F : Type) where
  added : List F
  started : List F

/-- The client with its threads. -/
structure State (F : Type) (n : ℕ) where
  client : Client F
  pc : Fin n → Pc F
  ghost : Ghost F

/-- What a thread does next.  `finish t threw` ends a callback by a return
or by an exception: either way the destructor of `RAIICallbacksRunning`
runs next. -/
inductive Action (F : Type) (n : ℕ)
  | add (t : Fin n) (func : F)
  | addNested (t : Fin n) (func : F)
  | check (t : Fin n)
  | schedule (t : Fin n)
  | take (t : Fin n)
  | process (t : Fin n)
  | finish (t : Fin n) (threw : Bool)
  | unwind (t : Fin n)

/-- The critical section of `AddToProcessQueue`:
`m_callbacks_pending.emplace_back(func)`. -/
def pushCallback (func : F) (c : Client F) : Client F :=
  {c with m_callbacks_pending := c.m_callbacks_pending ++ [func]}

/-- The critical section of `MaybeScheduleProcessQueue`: `true` where it
goes on to `schedule`. -/
def shouldSchedule (c : Client F) : Bool :=
  !c.m_are_callbacks_running && !c.m_callbacks_pending.isEmpty

/-- `m_pscheduler->schedule(ProcessQueue)`. -/
def scheduleTask (c : Client F) : Client F := {c with taskQueue := c.taskQueue + 1}

/-- The critical section of `ProcessQueue`: the callback it takes, or
`none` where it returns. -/
def takeCallback (c : Client F) : Client F × Option F :=
  if c.m_are_callbacks_running then (c, none)
  else
    match c.m_callbacks_pending with
    | [] => (c, none)
    | func :: rest => ({c with m_are_callbacks_running := true, m_callbacks_pending := rest}, some func)

namespace State

/-- Thread `t` moves to `p`. -/
def setPc (s : State F n) (t : Fin n) (p : Pc F) : State F n :=
  {s with pc := Function.update s.pc t p}

/-- `AddToProcessQueue(func)`'s critical section; the callback is recorded
as added. -/
def pushed (s : State F n) (func : F) (c : Client F) : State F n :=
  {s with client := c, ghost := {s.ghost with added := s.ghost.added ++ [func]}}

end State

/-- One step of the client. -/
def step (s : State F n) : Action F n → Option (State F n × Unit)
  | .add t func =>
    match s.pc t with
    | .idle => some ((s.setPc t .added).pushed func (pushCallback func s.client), ())
    | _ => none
  | .addNested t func =>
    match s.pc t with
    | .running _ =>
      let c := pushCallback func s.client
      some (s.pushed func (if shouldSchedule c then scheduleTask c else c), ())
    | _ => none
  | .check t =>
    match s.pc t with
    | .added | .reset => some (s.setPc t (if shouldSchedule s.client then .scheduling else .idle), ())
    | _ => none
  | .schedule t =>
    match s.pc t with
    | .scheduling => some ({s.setPc t .idle with client := scheduleTask s.client}, ())
    | _ => none
  | .take t =>
    match s.pc t with
    | .idle =>
      if 0 < s.client.taskQueue then
        some ({s.setPc t .taken with client := {s.client with taskQueue := s.client.taskQueue - 1}}, ())
      else none
    | _ => none
  | .process t =>
    match s.pc t with
    | .taken =>
      match takeCallback s.client with
      | (c, none) => some ({s.setPc t .idle with client := c}, ())
      | (c, some func) =>
        some ({s.setPc t (.running func) with
          client := c
          ghost := {s.ghost with started := s.ghost.started ++ [func]}}, ())
    | _ => none
  | .finish t _ =>
    match s.pc t with
    | .running _ => some (s.setPc t .unwinding, ())
    | _ => none
  | .unwind t =>
    match s.pc t with
    | .unwinding => some ({s.setPc t .reset with client := {s.client with m_are_callbacks_running := false}}, ())
    | _ => none

/-- A new client: nothing pending, no task queued, every thread outside. -/
def init (F : Type) (n : ℕ) : State F n where
  client := ⟨[], false, 0⟩
  pc := fun _ => .idle
  ghost := ⟨[], []⟩

/-! ## The invariant -/

namespace Pc

/-- Inside a callback, or in the destructor that follows it. -/
def busy : Pc F → Bool
  | running _ | unwinding => true
  | _ => false

/-- About to queue a `ProcessQueue` task, or holding one taken from
`taskQueue`. -/
def willProcess : Pc F → Bool
  | added | scheduling | taken | reset => true
  | _ => false

end Pc

/-- What holds in every reachable state. -/
structure Inv (s : State F n) : Prop where
  /-- At most one thread is inside a callback. -/
  exclusive : ∀ t t', (s.pc t).busy = true → (s.pc t').busy = true → t = t'
  /-- The flag says whether one is. -/
  flag : s.client.m_are_callbacks_running = true ↔ ∃ t, (s.pc t).busy = true
  /-- The callbacks started, then those pending, are those added. -/
  fifo : s.ghost.started ++ s.client.m_callbacks_pending = s.ghost.added
  /-- The callback being run is the last one started. -/
  current : ∀ t func, s.pc t = .running func → s.ghost.started.getLast? = some func
  /-- A pending callback with none running has a task queued, or a thread
  that will queue one or has taken one. -/
  noLost : s.client.m_callbacks_pending ≠ [] → s.client.m_are_callbacks_running = false →
    0 < s.client.taskQueue ∨ ∃ t, (s.pc t).willProcess = true

variable {s : State F n}

theorem init_inv : Inv (init F n) where
  exclusive := fun _ _ h => by simp [init, Pc.busy] at h
  flag := by simp [init, Pc.busy]
  fifo := rfl
  current := fun _ _ h => by simp [init] at h
  noLost := fun h => absurd rfl h

theorem busy_of_running {p : Pc F} {func : F} (h : p = .running func) : p.busy = true := by
  rw [h]
  rfl

/-- A thread that moves between two states of one kind leaves the busy
threads as they were. -/
theorem busy_setPc_eq {t : Fin n} {p : Pc F} (hp : p.busy = (s.pc t).busy) (t' : Fin n) :
    ((s.setPc t p).pc t').busy = (s.pc t').busy := by
  by_cases ht : t' = t
  · subst ht
    simp only [State.setPc, Function.update_self, hp]
  · simp only [State.setPc, Function.update_of_ne ht]

theorem willProcess_setPc_self (t : Fin n) {p : Pc F} (hp : p.willProcess = true) :
    ∃ t', ((s.setPc t p).pc t').willProcess = true :=
  ⟨t, by simpa [State.setPc] using hp⟩

/-- Thread `t` moves outside any callback and the client changes only in its
task count: what `Inv` asks of the move is that no pending callback is lost. -/
theorem Inv.move_free (hs : Inv s) {t : Fin n} {p : Pc F} {c : Client F} (hfrom : (s.pc t).busy = false)
    (hto : p.busy = false) (hflag : c.m_are_callbacks_running = s.client.m_are_callbacks_running)
    (hpend : c.m_callbacks_pending = s.client.m_callbacks_pending)
    (hlost : c.m_callbacks_pending ≠ [] → c.m_are_callbacks_running = false →
      0 < c.taskQueue ∨ ∃ t', ((s.setPc t p).pc t').willProcess = true) :
    Inv {s.setPc t p with client := c} where
  exclusive := by
    simp only [busy_setPc_eq (hto.trans hfrom.symm)]
    exact hs.exclusive
  flag := by
    simp only [busy_setPc_eq (hto.trans hfrom.symm), hflag]
    exact hs.flag
  fifo := by
    simp only [hpend]
    exact hs.fifo
  current := by
    intro t' func h
    by_cases ht : t' = t
    · subst ht
      simp only [State.setPc, Function.update_self] at h
      simp [h, Pc.busy] at hto
    · simp only [State.setPc, Function.update_of_ne ht] at h
      exact hs.current t' func h
  noLost := hlost

/-- `AddToProcessQueue` from outside a callback: the callback joins the back
of the queue, and the thread goes on to `MaybeScheduleProcessQueue`. -/
theorem Inv.add (hs : Inv s) {t : Fin n} (hpc : s.pc t = .idle) (func : F) :
    Inv ((s.setPc t .added).pushed func (pushCallback func s.client)) where
  exclusive := by
    simp only [State.pushed, busy_setPc_eq (show (Pc.added : Pc F).busy = (s.pc t).busy by rw [hpc]; rfl)]
    exact hs.exclusive
  flag := by
    simp only [State.pushed, pushCallback, busy_setPc_eq (show (Pc.added : Pc F).busy = (s.pc t).busy by rw [hpc]; rfl)]
    exact hs.flag
  fifo := by
    simp only [State.pushed, pushCallback, State.setPc, ← List.append_assoc, hs.fifo]
  current := by
    intro t' f h
    by_cases ht : t' = t
    · subst ht
      simp [State.pushed, State.setPc] at h
    · simp only [State.pushed, State.setPc, Function.update_of_ne ht] at h
      exact hs.current t' f h
  noLost := fun _ _ => Or.inr (willProcess_setPc_self t rfl)

/-- A callback calls `AddToProcessQueue`: the flag it holds keeps
`MaybeScheduleProcessQueue` from scheduling. -/
theorem Inv.addNested (hs : Inv s) {t : Fin n} {cb : F} (hpc : s.pc t = .running cb) (func : F) :
    Inv (s.pushed func (if shouldSchedule (pushCallback func s.client) then scheduleTask (pushCallback func s.client)
      else pushCallback func s.client)) := by
  have hflag : s.client.m_are_callbacks_running = true := hs.flag.mpr ⟨t, busy_of_running hpc⟩
  have hno : shouldSchedule (pushCallback func s.client) = false := by
    simp [shouldSchedule, pushCallback, hflag]
  rw [hno, if_neg Bool.false_ne_true]
  exact {
    exclusive := hs.exclusive
    flag := hs.flag
    fifo := by simp only [State.pushed, pushCallback, ← List.append_assoc, hs.fifo]
    current := hs.current
    noLost := fun _ hfalse => absurd hflag (by simp [State.pushed, pushCallback] at hfalse; simp [hfalse]) }

/-- The critical section of `MaybeScheduleProcessQueue`: the thread goes on
to `schedule` exactly when a pending callback could be lost. -/
theorem Inv.check (hs : Inv s) {t : Fin n} (hpc : (s.pc t).busy = false) :
    Inv {s.setPc t (if shouldSchedule s.client then .scheduling else .idle) with client := s.client} := by
  refine hs.move_free hpc (by split <;> rfl) rfl rfl fun hne hfalse => ?_
  have hsched : shouldSchedule s.client = true := by
    simp [shouldSchedule, hfalse, hne]
  rw [hsched, if_pos rfl]
  exact Or.inr (willProcess_setPc_self t rfl)

/-- `schedule` queues a task. -/
theorem Inv.schedule (hs : Inv s) {t : Fin n} (hpc : s.pc t = .scheduling) :
    Inv {s.setPc t .idle with client := scheduleTask s.client} :=
  hs.move_free (by rw [hpc]; rfl) rfl rfl rfl fun _ _ => Or.inl (Nat.succ_pos _)

/-- `serviceQueue` erases a task from `taskQueue`; the thread holds it. -/
theorem Inv.take (hs : Inv s) {t : Fin n} (hpc : s.pc t = .idle) :
    Inv {s.setPc t .taken with client := {s.client with taskQueue := s.client.taskQueue - 1}} :=
  hs.move_free (by rw [hpc]; rfl) rfl rfl rfl fun _ _ => Or.inr (willProcess_setPc_self t rfl)

/-- `ProcessQueue` returns: a callback is running, or none is pending. -/
theorem Inv.processReturns (hs : Inv s) {t : Fin n} (hpc : s.pc t = .taken) {c : Client F}
    (htake : takeCallback s.client = (c, none)) : Inv {s.setPc t .idle with client := c} := by
  -- returning leaves the client as it was
  have hc : c = s.client ∧ (s.client.m_are_callbacks_running = true ∨ s.client.m_callbacks_pending = []) := by
    unfold takeCallback at htake
    split at htake
    · exact ⟨(Prod.mk.inj htake).1.symm, Or.inl ‹_›⟩
    · split at htake
      · exact ⟨(Prod.mk.inj htake).1.symm, Or.inr ‹_›⟩
      · cases htake
  obtain ⟨rfl, hstop⟩ := hc
  refine hs.move_free (by rw [hpc]; rfl) rfl rfl rfl fun hne hfalse => ?_
  rcases hstop with htrue | hnil
  · simp [htrue] at hfalse
  · exact absurd hnil hne

/-- `ProcessQueue` takes the front callback and sets the flag: no other
thread was inside a callback, and the callback is the next one in order. -/
theorem Inv.processRuns (hs : Inv s) {t : Fin n} (hpc : s.pc t = .taken) {c : Client F} {func : F}
    (htake : takeCallback s.client = (c, some func)) :
    Inv {s.setPc t (.running func) with client := c, ghost := {s.ghost with started := s.ghost.started ++ [func]}} := by
  -- the flag was clear and `func` was at the front
  have hc : s.client.m_are_callbacks_running = false ∧ ∃ rest, s.client.m_callbacks_pending = func :: rest ∧
      c = {s.client with m_are_callbacks_running := true, m_callbacks_pending := rest} := by
    unfold takeCallback at htake
    split at htake
    · cases htake
    · rename_i hflag
      split at htake
      · cases htake
      · rename_i f rest hpend
        obtain ⟨hc, hf⟩ := Prod.mk.inj htake
        cases hf
        exact ⟨by simpa using hflag, rest, hpend, hc.symm⟩
  obtain ⟨hflag, rest, hpend, rfl⟩ := hc
  have hidle : ∀ t', (s.pc t').busy = false := by
    intro t'
    by_contra hb
    rw [Bool.not_eq_false] at hb
    rw [hs.flag.mpr ⟨t', hb⟩] at hflag
    cases hflag
  exact {
    exclusive := by
      intro t₁ t₂ h₁ h₂
      by_cases e₁ : t₁ = t
      · by_cases e₂ : t₂ = t
        · rw [e₁, e₂]
        · simp only [State.setPc, Function.update_of_ne e₂, hidle t₂] at h₂
          cases h₂
      · simp only [State.setPc, Function.update_of_ne e₁, hidle t₁] at h₁
        cases h₁
    flag := ⟨fun _ => ⟨t, by simp [State.setPc, Pc.busy]⟩, fun _ => rfl⟩
    fifo := by
      simp only [List.append_assoc, List.singleton_append]
      rw [← hpend]
      exact hs.fifo
    current := by
      intro t' f h
      by_cases ht : t' = t
      · subst ht
        simp only [State.setPc, Function.update_self, Pc.running.injEq] at h
        simp [h]
      · simp only [State.setPc, Function.update_of_ne ht] at h
        have hb := hidle t'
        rw [h] at hb
        cases hb
    noLost := fun _ htrue => by cases htrue }

/-- A callback returns or throws: the thread stays inside it until the
destructor's critical section. -/
theorem Inv.finish (hs : Inv s) {t : Fin n} {cb : F} (hpc : s.pc t = .running cb) : Inv (s.setPc t .unwinding) := by
  have hbusy := busy_setPc_eq (s := s) (t := t) (p := .unwinding) (by rw [hpc]; rfl)
  have hflag : s.client.m_are_callbacks_running = true := hs.flag.mpr ⟨t, busy_of_running hpc⟩
  exact {
    exclusive := by
      simp only [hbusy]
      exact hs.exclusive
    flag := by
      simp only [hbusy]
      exact hs.flag
    fifo := hs.fifo
    current := by
      intro t' f h
      by_cases ht : t' = t
      · subst ht
        simp [State.setPc] at h
      · simp only [State.setPc, Function.update_of_ne ht] at h
        exact hs.current t' f h
    noLost := fun _ hfalse => absurd hflag (by simp [State.setPc] at hfalse; simp [hfalse]) }

/-- The critical section of `~RAIICallbacksRunning`: the only thread inside
a callback leaves it and clears the flag, and goes on to
`MaybeScheduleProcessQueue`. -/
theorem Inv.unwind (hs : Inv s) {t : Fin n} (hpc : s.pc t = .unwinding) :
    Inv {s.setPc t .reset with client := {s.client with m_are_callbacks_running := false}} := by
  have ht : (s.pc t).busy = true := by rw [hpc]; rfl
  -- a busy thread after the move is a busy thread other than `t` before it
  have hbusy : ∀ t', ((s.setPc t .reset).pc t').busy = true → t' ≠ t ∧ (s.pc t').busy = true := by
    intro t' h
    by_cases e : t' = t
    · subst e
      simp [State.setPc, Pc.busy] at h
    · simp only [State.setPc, Function.update_of_ne e] at h
      exact ⟨e, h⟩
  exact {
    exclusive := fun t₁ t₂ h₁ h₂ => hs.exclusive t₁ t₂ (hbusy t₁ h₁).2 (hbusy t₂ h₂).2
    flag := by
      refine ⟨fun h => (by cases h), fun ⟨t', h'⟩ => ?_⟩
      obtain ⟨hne, hb⟩ := hbusy t' h'
      exact absurd (hs.exclusive t' t hb ht) hne
    fifo := hs.fifo
    current := by
      intro t' f h
      obtain ⟨hne, hb⟩ := hbusy t' (busy_of_running h)
      exact absurd (hs.exclusive t' t hb ht) hne
    noLost := fun _ _ => Or.inr (willProcess_setPc_self t rfl) }

/-- Every step keeps the invariant. -/
theorem step_inv (hs : Inv s) {a : Action F n} {s' : State F n} {e : Unit} (h : step s a = some (s', e)) :
    Inv s' := by
  cases a with
  | add t func =>
    simp only [step] at h
    split at h <;> cases h
    exact hs.add ‹_› func
  | addNested t func =>
    simp only [step] at h
    split at h <;> cases h
    exact hs.addNested ‹_› func
  | check t =>
    simp only [step] at h
    split at h <;> cases h
    · exact hs.check (by rw [‹s.pc t = .added›]; rfl)
    · exact hs.check (by rw [‹s.pc t = .reset›]; rfl)
  | schedule t =>
    simp only [step] at h
    split at h <;> cases h
    exact hs.schedule ‹_›
  | take t =>
    simp only [step] at h
    split at h
    · split at h <;> cases h
      exact hs.take ‹_›
    · cases h
  | process t =>
    simp only [step] at h
    split at h
    · split at h <;> cases h
      · exact hs.processReturns ‹_› ‹_›
      · exact hs.processRuns ‹_› ‹_›
    · cases h
  | finish t threw =>
    simp only [step] at h
    split at h <;> cases h
    exact hs.finish ‹_›
  | unwind t =>
    simp only [step] at h
    split at h <;> cases h
    exact hs.unwind ‹_›

/-- Every reachable state satisfies `Inv`. -/
theorem reachable_inv {s : State F n} (h : Reachable (init F n) step s) : Inv s :=
  Reachable.inv init_inv (fun _ _ _ _ hs hstep => step_inv hs hstep) h

/-! ## Serial, in order, and nothing lost -/

/-- Callbacks run one at a time, start in the order they were added, and are
not lost.  In every reachable state, for any number of threads: at most one
thread is inside a callback; the callbacks started are the first of those
added, and the one running is the last started; and a pending callback with
none running has a `ProcessQueue` task queued, or a thread that will queue
one or has taken one from `taskQueue`. -/
theorem callbacks_serial_in_order {s : State F n} (h : Reachable (init F n) step s) :
    (∀ t t', (s.pc t).busy = true → (s.pc t').busy = true → t = t') ∧
    s.ghost.started <+: s.ghost.added ∧
    (∀ t func, s.pc t = .running func → s.ghost.started.getLast? = some func) ∧
    (s.client.m_callbacks_pending ≠ [] → (∀ t, (s.pc t).busy = false) →
      0 < s.client.taskQueue ∨ ∃ t, (s.pc t).willProcess = true) := by
  have hs := reachable_inv h
  refine ⟨hs.exclusive, ⟨s.client.m_callbacks_pending, hs.fifo⟩, hs.current, fun hne hidle => hs.noLost hne ?_⟩
  -- no thread inside a callback: the flag is clear
  cases hflag : s.client.m_are_callbacks_running
  · rfl
  · obtain ⟨t, ht⟩ := hs.flag.mp hflag
    rw [hidle t] at ht
    cases ht

/-- Two callbacks added by two threads; both schedule, and the first thread
takes the task and starts the first callback. -/
theorem callbacks_serial_in_order_two_threads :
    let s := (runFrom step (init ℕ 2)
      [.add 0 1, .add 1 2, .check 0, .check 1, .schedule 0, .take 0, .process 0]).getD (init ℕ 2)
    (∀ t t', (s.pc t).busy = true → (s.pc t').busy = true → t = t') ∧
    s.ghost.started <+: s.ghost.added ∧
    (∀ t func, s.pc t = .running func → s.ghost.started.getLast? = some func) ∧
    (s.client.m_callbacks_pending ≠ [] → (∀ t, (s.pc t).busy = false) →
      0 < s.client.taskQueue ∨ ∃ t, (s.pc t).willProcess = true) :=
  callbacks_serial_in_order (Reachable.of_runFrom Reachable.init
    [.add 0 1, .add 1 2, .check 0, .check 1, .schedule 0, .take 0, .process 0] rfl)

/-- A callback is pending with none running, yet no `ProcessQueue` task is
queued and no thread is between a critical section and `schedule`: the
only task was erased from `taskQueue` by a service thread that has not yet
entered `ProcessQueue`. -/
theorem callback_taken_not_queued :
    ∃ s : State ℕ 1, Reachable (init ℕ 1) step s ∧ s.client.m_callbacks_pending = [7] ∧
      (∀ t, (s.pc t).busy = false) ∧ s.client.taskQueue = 0 ∧
      ∀ t, s.pc t ≠ .added ∧ s.pc t ≠ .scheduling ∧ s.pc t ≠ .reset :=
  ⟨_, Reachable.of_runFrom Reachable.init [.add 0 7, .check 0, .schedule 0, .take 0] rfl, by decide⟩

end XPChain.Scheduler
