/-
  Gracemont kernel — scheduler and synchronisation objects together (X86_64).

  The state holds the scheduler, all synchronisation objects over the same task
  control blocks, and for each task where it is in a blocking call.  In this
  port a wake-up hands the task to `task_ready_add`.

  The critical sections run with interrupts disabled, so each is one step.
  Between two of them, so also between the release of an object's lock and
  `task_yield`, an interrupt handler may post a semaphore, set event flags,
  start a task or run the tick; a handler runs with interrupts disabled itself.
  `task_create` writes a block that nobody else uses until it returns, and is
  one step too.  `ListsExclusive` is what the links of the tasks are meant to
  satisfy at all these points.

  * `turn`: one critical section of a blocking call of the running task;
  * `taskStartAdd`: the critical section of `task_start`, before its `task_yield`;
  * `KernelOp`, `kernelStep`: the transition system, `kernelLts`;
  * `turn_cases`: a turn returns, or the task goes to sleep on the object;
  * `Safe`: the steps whose `schedule_locked` does not pick the running task
    again from its ready list.
-/
import Gracemont.Kernel.EventInv
import Gracemont.Kernel.SchedLock
import Gracemont.Kernel.SchedulerInv

namespace Gracemont

namespace X86

/-- A call that may go to `task_yield`. -/
inductive BlockingCall where
  | semWait (i : ℕ)
  | mutexLock (i : ℕ)
  | eventWait (i : ℕ) (cond : EventCond)
  deriving DecidableEq

/-- Where a task is: in its own code, before the `task_yield` of `task_start`,
    or before or in the `task_yield` of a blocking call. -/
inductive TaskPc where
  | own
  | start
  | yield (call : BlockingCall)
  | resume (call : BlockingCall)
  deriving DecidableEq

namespace TaskPc

/-- The task is in a blocking call. -/
def InCall : TaskPc → Prop
  | .own | .start => False
  | .yield _ | .resume _ => True

/-- Where a task is behind the call of `task_yield`. -/
def yielded : TaskPc → Option TaskPc
  | .start => some .own
  | .yield call => some (.resume call)
  | .own | .resume _ => none

end TaskPc

/-- The kernel. -/
structure Kernel (α : Type) where
  sched : Sched α
  sem : ℕ → Semaphore α
  mutex : ℕ → Mutex α
  event : ℕ → Event α
  pc : α → TaskPc

/-- The operations. -/
inductive KernelOp (α : Type) where
  | sched (op : Op α)
  | taskStart (tcb : Option α)
  | call (call : BlockingCall)
  | yield
  | resume
  | semTrywait (i : ℕ)
  | semPost (i : ℕ)
  | mutexTrylock (i : ℕ)
  | mutexUnlock (i : ℕ)
  | eventSet (i : ℕ) (mask : BitVec 32)
  | eventClear (i : ℕ) (mask : BitVec 32)

variable {α : Type}

namespace Kernel

/-- The `wait_list` of an object. -/
def waitList (k : Kernel α) : WaitObj → Option α
  | .sem i => (k.sem i).waitList
  | .mutex i => (k.mutex i).waitList
  | .event i => (k.event i).waitList
  | .msgq _ => none

end Kernel

/-! ## The property -/

/-- The lists that the links of a task are for. -/
inductive TaskList where
  | ready (prio : ℕ)
  | wait (obj : WaitObj)
  deriving DecidableEq

namespace Kernel

/-- The head of a list. -/
def head (k : Kernel α) : TaskList → Option α
  | .ready prio => k.sched.readyList prio
  | .wait obj => k.waitList obj

/-- The task `t` is on the list: its links lead there. -/
def OnList (k : Kernel α) (list : TaskList) (t : α) : Prop :=
  Lib.Reaches k.sched.tcb.next (k.head list) t

end Kernel

/-- **List exclusivity.**  The ready lists are circular and the wait lists
    null-terminated; a task is on at most one of all these lists, and the task
    that executes its own code, outside the blocking calls, is on none. -/
structure ListsExclusive (k : Kernel α) : Prop where
  ready : ∀ prio, ∃ l, Lib.Ring k.sched.tcb.next k.sched.tcb.prev (k.sched.readyList prio) l
  wait : ∀ obj, ∃ l, Lib.Chain k.sched.tcb.next k.sched.tcb.prev (k.waitList obj) l
  one : ∀ t a b, k.OnList a t → k.OnList b t → a = b
  own : ∀ c, k.sched.currentTask = some c → ¬ (k.pc c).InCall → ∀ a, ¬ k.OnList a c

/-! ## The wait lists of the objects -/

section
variable {k k' : Kernel α} {i : ℕ}

theorem waitList_sem {sem : Semaphore α} (hs : k'.sem = Function.update k.sem i sem)
    (hm : k'.mutex = k.mutex) (he : k'.event = k.event) :
    k'.waitList = Function.update k.waitList (.sem i) sem.waitList := by
  funext o
  cases o with
  | sem j =>
    by_cases hj : j = i
    · subst hj
      simp [Kernel.waitList, hs]
    · simp [Kernel.waitList, hs, hj]
  | mutex j => simp [Kernel.waitList, hm]
  | event j => simp [Kernel.waitList, he]
  | msgq j => simp [Kernel.waitList]

theorem waitList_mutex {mutex : Mutex α} (hs : k'.sem = k.sem)
    (hm : k'.mutex = Function.update k.mutex i mutex) (he : k'.event = k.event) :
    k'.waitList = Function.update k.waitList (.mutex i) mutex.waitList := by
  funext o
  cases o with
  | sem j => simp [Kernel.waitList, hs]
  | mutex j =>
    by_cases hj : j = i
    · subst hj
      simp [Kernel.waitList, hm]
    · simp [Kernel.waitList, hm, hj]
  | event j => simp [Kernel.waitList, he]
  | msgq j => simp [Kernel.waitList]

theorem waitList_event {event : Event α} (hs : k'.sem = k.sem) (hm : k'.mutex = k.mutex)
    (he : k'.event = Function.update k.event i event) :
    k'.waitList = Function.update k.waitList (.event i) event.waitList := by
  funext o
  cases o with
  | sem j => simp [Kernel.waitList, hs]
  | mutex j => simp [Kernel.waitList, hm]
  | event j =>
    by_cases hj : j = i
    · subst hj
      simp [Kernel.waitList, he]
    · simp [Kernel.waitList, he, hj]
  | msgq j => simp [Kernel.waitList]

end

/-! ## The operations -/

variable [DecidableEq α]

namespace Kernel

/-- The task control blocks after a turn. -/
def setTcb (k : Kernel α) (m : Tcbs α) : Kernel α := { k with sched := { k.sched with tcb := m } }

/-- The task `c` after a turn of `call`: before its `task_yield` if the outcome
    is `none`, else back in its own code. -/
def setPc {ρ : Type} (k : Kernel α) (c : α) (call : BlockingCall) (r : Option ρ) : Kernel α :=
  { k with pc := Function.update k.pc c (if r.isNone then .yield call else .own) }

/-- The running task, when it is not the idle task. -/
def caller (cfg : SchedConfig α) (k : Kernel α) : Option α :=
  k.sched.currentTask.filter fun c => c ≠ cfg.idleTcb

end Kernel

/-- A turn of `call` by the task `c`, the first one or a later one. -/
def turn (k : Kernel α) (c : α) (first : Bool) (call : BlockingCall) : Kernel α :=
  let m := k.sched.tcb
  match call with
  | .semWait i =>
    let (m, sem, r) :=
      if first then semWait (.sem i) m (k.sem i) c else semResume (.sem i) m (k.sem i) c
    ({ k with sem := Function.update k.sem i sem }.setTcb m).setPc c call r
  | .mutexLock i =>
    let (m, mutex, r) :=
      if first then mutexLock (.mutex i) m (k.mutex i) c else mutexResume (.mutex i) m (k.mutex i) c
    ({ k with mutex := Function.update k.mutex i mutex }.setTcb m).setPc c call r
  | .eventWait i cond =>
    let (m, event, r) := eventWait (.event i) m (k.event i) c cond
    ({ k with event := Function.update k.event i event }.setTcb m).setPc c call r

/-- `task_start` by a task, up to its `task_yield`; the flag says whether it
    goes there. -/
def taskStartAdd (s : Sched α) : Option α → Option (Sched α × Bool)
  | none => some (s, false)
  | some t =>
    if (s.tcb t).state = .suspended then do
      let s ← readyListAdd s t
      some (s, preempts s t)
    else some (s, false)

theorem taskStart_eq (cfg : SchedConfig α) (s : Sched α) (tcb : Option α) :
    (taskStart cfg s tcb).map Prod.fst = (taskStartAdd s tcb).bind fun p =>
      if p.2 then taskYield cfg p.1 else some p.1 := by
  cases tcb with
  | none => rfl
  | some t =>
    simp only [taskStart, taskStartAdd]
    by_cases hsus : (s.tcb t).state = .suspended
    · rw [if_pos hsus, if_pos hsus]
      cases hs₁ : readyListAdd s t with
      | none => rfl
      | some s₁ =>
        simp only [Option.bind_eq_bind, Option.bind_some, preempts]
        cases hrun : s₁.schedulerRunning with
        | false => simp
        | true =>
          cases hc : s₁.currentTask with
          | none => simp
          | some cur =>
            by_cases hlt : (s₁.tcb cur).priority < (s₁.tcb t).priority
            · cases hy : taskYield cfg s₁ with
              | none => simp [hlt]
              | some s₂ => simp [hlt]
            · simp [hlt]
    · rw [if_neg hsus, if_neg hsus]
      rfl

/-- `task_ready_add`, for the task that a wake-up took off a wait list. -/
def taskReadyAdd (s : Sched α) (m : Tcbs α) : Option α → Option (Sched α)
  | none => some { s with tcb := m }
  | some task => readyListAdd { s with tcb := m } task

/-- One operation.  The wake-ups, the tick, the clock and `.sched (.taskStart _)`
    may come from an interrupt handler, wherever the running task is. -/
def kernelStep (cfg : SchedConfig α) (fuel : ℕ) (k : Kernel α) : KernelOp α → Option (Kernel α)
  | .sched op => do
    let sched ← step cfg k.sched op
    match op with
    | .taskYield | .taskSleep _ | .taskTerminate =>
      if k.sched.currentTask.any fun c => k.pc c ≠ .own then none
      else some { k with sched := sched }
    | .taskCreate (some t) entry priority stack =>
      if (taskCreate cfg k.sched (some t) entry priority stack).2 = .ok then
        some { k with sched := sched, pc := Function.update k.pc t .own }
      else some { k with sched := sched }
    | _ => some { k with sched := sched }
  | .taskStart tcb => do
    let c ← k.caller cfg
    if k.pc c ≠ .own ∨ tcb = some cfg.idleTcb then none
    else
      let (sched, yields) ← taskStartAdd k.sched tcb
      some { k with
        sched := sched, pc := Function.update k.pc c (if yields then .start else .own) }
  | .call call => do
    let c ← k.caller cfg
    match k.pc c with
    | .own => some (turn k c true call)
    | _ => none
  | .yield => do
    let c ← k.caller cfg
    let pc ← (k.pc c).yielded
    let sched ← taskYield cfg k.sched
    some { k with sched := sched, pc := Function.update k.pc c pc }
  | .resume => do
    let c ← k.caller cfg
    match k.pc c with
    | .resume call => some (turn k c false call)
    | _ => none
  | .semTrywait i =>
    let (sem, _) := semTrywait (k.sem i)
    some { k with sem := Function.update k.sem i sem }
  | .semPost i => do
    let (m, sem, task) := semPost k.sched.tcb (k.sem i)
    let sched ← taskReadyAdd k.sched m task
    some { k with sched := sched, sem := Function.update k.sem i sem }
  | .mutexTrylock i => do
    let c ← k.sched.currentTask
    let (mutex, _) := mutexTrylock (k.mutex i) c
    some { k with mutex := Function.update k.mutex i mutex }
  | .mutexUnlock i => do
    let c ← k.sched.currentTask
    let (m, mutex, waiter) := mutexUnlock k.sched.tcb (k.mutex i) c
    let sched ← taskReadyAdd k.sched m waiter
    some { k with sched := sched, mutex := Function.update k.mutex i mutex }
  | .eventSet i mask => do
    let (sched, event, _) ← eventSet fuel k.sched (k.event i) mask
    some { k with sched := sched, event := Function.update k.event i event }
  | .eventClear i mask =>
    some { k with event := Function.update k.event i (eventClear (k.event i) mask) }

/-- The kernel as a transition system, from boot, with the objects as their
    `init` functions leave them. -/
def kernelLts (cfg : SchedConfig α) : Lib.Lts (Kernel α) (KernelOp α) where
  init k := k.sched = .boot ∧ (∀ i, ∃ n, k.sem i = semInit n) ∧ (∀ i, k.mutex i = mutexInit) ∧
    (∀ i, k.event i = eventInit) ∧ ∀ t, k.pc t = .own
  step k op k' := ∃ fuel, kernelStep cfg fuel k op = some k'

theorem kernelLts_step (cfg : SchedConfig α) (fuel : ℕ) (k : Kernel α) (op : KernelOp α)
    (k' : Kernel α) (h : kernelStep cfg fuel k op = some k') : (kernelLts cfg).step k op k' :=
  ⟨fuel, h⟩

/-! ## The turns -/

section
variable {k k' : Kernel α}

/-- The object of a call. -/
def BlockingCall.obj : BlockingCall → WaitObj
  | .semWait i => .sem i
  | .mutexLock i => .mutex i
  | .eventWait i _ => .event i

/-- The call returns: no list changes, and the task is back in its own code. -/
def Returns (k : Kernel α) (c : α) (k' : Kernel α) : Prop :=
  k'.sched = k.sched ∧ k'.waitList = k.waitList ∧ k'.pc = Function.update k.pc c .own

/-- The task goes to sleep on the object of the call. -/
def Sleeps (k : Kernel α) (c : α) (call : BlockingCall) (k' : Kernel α) : Prop :=
  k'.sched = { k.sched with tcb := (blockOn k.sched.tcb (k.waitList call.obj) call.obj c).1 } ∧
    k'.waitList = Function.update k.waitList call.obj (some c) ∧
    k'.pc = Function.update k.pc c (.yield call)

/-- The outcome of a turn on an object: nothing happens to its wait list, or the
    task goes to sleep on it. -/
def TurnOutcome {ρ : Type} (obj : WaitObj) (m : Tcbs α) (list : Option α) (task : α) (m' : Tcbs α)
    (list' : Option α) (r : Option ρ) : Prop :=
  (m' = m ∧ list' = list ∧ r.isNone = false) ∨
    (m' = (blockOn m list obj task).1 ∧ list' = some task ∧ r.isNone = true)

theorem semWait_outcome (obj : WaitObj) (m : Tcbs α) (sem : Semaphore α) (task : α) :
    TurnOutcome obj m sem.waitList task (semWait obj m sem task).1
      (semWait obj m sem task).2.1.waitList (semWait obj m sem task).2.2 := by
  unfold semWait
  split_ifs
  · exact .inr ⟨rfl, rfl, rfl⟩
  · exact .inl ⟨rfl, rfl, rfl⟩

theorem semResume_outcome (obj : WaitObj) (m : Tcbs α) (sem : Semaphore α) (task : α) :
    TurnOutcome obj m sem.waitList task (semResume obj m sem task).1
      (semResume obj m sem task).2.1.waitList (semResume obj m sem task).2.2 := by
  unfold semResume
  split_ifs
  · exact .inl ⟨rfl, rfl, rfl⟩
  · exact semWait_outcome obj m sem task

theorem mutexLockLoop_outcome (obj : WaitObj) (m : Tcbs α) (mutex : Mutex α) (task : α) :
    TurnOutcome obj m mutex.waitList task (mutexLockLoop obj m mutex task).1
      (mutexLockLoop obj m mutex task).2.1.waitList (mutexLockLoop obj m mutex task).2.2 := by
  unfold mutexLockLoop
  split_ifs
  · exact .inr ⟨rfl, rfl, rfl⟩
  · exact .inl ⟨rfl, rfl, rfl⟩

theorem mutexLock_outcome (obj : WaitObj) (m : Tcbs α) (mutex : Mutex α) (task : α) :
    TurnOutcome obj m mutex.waitList task (mutexLock obj m mutex task).1
      (mutexLock obj m mutex task).2.1.waitList (mutexLock obj m mutex task).2.2 := by
  unfold mutexLock
  split_ifs
  · exact .inl ⟨rfl, rfl, rfl⟩
  · exact mutexLockLoop_outcome obj m mutex task

theorem mutexResume_outcome (obj : WaitObj) (m : Tcbs α) (mutex : Mutex α) (task : α) :
    TurnOutcome obj m mutex.waitList task (mutexResume obj m mutex task).1
      (mutexResume obj m mutex task).2.1.waitList (mutexResume obj m mutex task).2.2 := by
  unfold mutexResume
  split_ifs
  · exact .inl ⟨rfl, rfl, rfl⟩
  · exact mutexLockLoop_outcome obj m mutex task

theorem eventWait_outcome (obj : WaitObj) (m : Tcbs α) (event : Event α) (task : α)
    (cond : EventCond) :
    TurnOutcome obj m event.waitList task (eventWait obj m event task cond).1
      (eventWait obj m event task cond).2.1.waitList (eventWait obj m event task cond).2.2 := by
  unfold eventWait
  dsimp only
  split_ifs
  · exact .inl ⟨rfl, rfl, rfl⟩
  · exact .inl ⟨rfl, rfl, rfl⟩
  · exact .inr ⟨rfl, rfl, rfl⟩

theorem TurnOutcome.cases {ρ : Type} {c : α} {m : Tcbs α} {list : Option α} {r : Option ρ}
    (k : Kernel α) (call : BlockingCall)
    (h : TurnOutcome call.obj k.sched.tcb (k.waitList call.obj) c m list r)
    (hs : k'.sched = { k.sched with tcb := m })
    (hw : k'.waitList = Function.update k.waitList call.obj list)
    (hp : k'.pc = Function.update k.pc c (if r.isNone then .yield call else .own)) :
    Returns k c k' ∨ Sleeps k c call k' := by
  rcases h with ⟨rfl, rfl, hr⟩ | ⟨rfl, rfl, hr⟩
  · refine .inl ⟨hs, ?_, by simpa [hr] using hp⟩
    rw [hw, Function.update_eq_self]
  · exact .inr ⟨hs, hw, by simpa [hr] using hp⟩

/-- **A turn of a blocking call** returns or goes to sleep. -/
theorem turn_cases (k : Kernel α) (c : α) (first : Bool) (call : BlockingCall) :
    Returns k c (turn k c first call) ∨ Sleeps k c call (turn k c first call) := by
  cases call with
  | semWait i =>
    have hwait := semWait_outcome (.sem i) k.sched.tcb (k.sem i) c
    have hresume := semResume_outcome (.sem i) k.sched.tcb (k.sem i) c
    cases first with
    | true => exact TurnOutcome.cases k (.semWait i) hwait rfl (waitList_sem rfl rfl rfl) rfl
    | false => exact TurnOutcome.cases k (.semWait i) hresume rfl (waitList_sem rfl rfl rfl) rfl
  | mutexLock i =>
    have hlock := mutexLock_outcome (.mutex i) k.sched.tcb (k.mutex i) c
    have hresume := mutexResume_outcome (.mutex i) k.sched.tcb (k.mutex i) c
    cases first with
    | true => exact TurnOutcome.cases k (.mutexLock i) hlock rfl (waitList_mutex rfl rfl rfl) rfl
    | false => exact TurnOutcome.cases k (.mutexLock i) hresume rfl (waitList_mutex rfl rfl rfl) rfl
  | eventWait i cond =>
    have hwait := eventWait_outcome (.event i) k.sched.tcb (k.event i) c cond
    exact TurnOutcome.cases k (.eventWait i cond) hwait rfl (waitList_event rfl rfl rfl) rfl

end

/-! ## The condition -/

/-- Another task is picked before a requeued idle task: the idle task does not
    head its ready list, or some task that is ready (or `due`) is above it. -/
def IdleLast (cfg : SchedConfig α) (s : Sched α) (due : α → Prop) : Prop :=
  s.readyList 0 = some cfg.idleTcb →
    ∃ t, t ≠ cfg.idleTcb ∧ ((∃ p, OnReadyList s p t) ∨ due t) ∧ 0 < (s.tcb t).priority

/-- The operations in which `schedule_locked` does not leave the task that goes
    on to run on a ready list: neither does it pick a task that calls
    `task_yield`, or whose time slice is over outside the window before such a
    call, from the list where it was requeued, or put by a wake-up; nor a
    requeued idle task.  And `task_create` is not given a block that is in
    use. -/
def Safe (cfg : SchedConfig α) (k : Kernel α) : KernelOp α → Prop
  | .sched (.taskCreate tcb entry priority stack) => ∀ t, tcb = some t → entry ≠ none →
    stack ≠ none → priority < cfg.maxPriority → k.sched.taskTable.length < cfg.maxTasks →
    t ∈ k.sched.taskTable → (k.sched.tcb t).state = .suspended ∨ (k.sched.tcb t).state = .terminated
  | .sched .taskYield => ∀ c, k.sched.currentTask = some c →
    Handover cfg k.sched (fun _ => False) c
  | .sched (.taskSleep _) | .sched .taskTerminate => IdleLast cfg k.sched fun _ => False
  | .sched .schedulerTick => ∀ c, k.sched.currentTask = some c → c ≠ cfg.idleTcb →
    (k.sched.tcb c).remainingSlice = 1 →
      ((∀ call, k.pc c ≠ .yield call) → Handover cfg k.sched (Due cfg k.sched) c) ∧
      ((∃ call, k.pc c = .yield call) → IdleLast cfg k.sched fun t =>
        Due cfg k.sched t ∨ (t = c ∧ (k.sched.tcb c).state = .running))
  | .yield => ∀ c, k.sched.currentTask = some c →
    ((k.sched.tcb c).state = .running → Handover cfg k.sched (fun _ => False) c) ∧
    ((k.sched.tcb c).state ≠ .running →
      getHighestReady cfg k.sched ≠ c ∧ IdleLast cfg k.sched fun _ => False)
  | _ => True

end X86

end Gracemont
