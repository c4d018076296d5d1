/-
  Gracemont kernel — the scheduler (`kernel/scheduler.c` of both ports).

  The state holds the private variables of the file and the memory of the task
  control blocks.  A function is a partial state transformer: `none` is a
  dereference of a null pointer.  The functions run under `scheduler_lock`, so
  each is one step; `arch_context_switch` hands the processor over to
  `current_task`, and what is left of the caller (releasing the lock) runs when
  the task is switched back to.

  * `readyListAdd`, `readyListRemove`, `getHighestReady`: the ready lists;
  * `taskCreate`, `taskStart`, `taskYield`, `taskSleep`, `taskTerminate`,
    `schedulerTick`, `schedulerStart`: the API;
  * `Op`, `step`: the scheduler as a transition system, `schedLts`.
-/
import Gracemont.Kernel.Types
import Gracemont.Lib.Trace

namespace Gracemont

/-- The configuration of a build: the port, `CONFIG_MAX_PRIORITY`,
    `CONFIG_MAX_TASKS` and the address of `idle_tcb`. -/
structure SchedConfig (α : Type) where
  port : Port
  maxPriority : ℕ
  maxTasks : ℕ
  idleTcb : α

/-- The variables of `scheduler.c`; `taskTable` is `task_table[0..task_count)`, and
    `systemTicks` a `tick_t` of the port. -/
structure Sched (α : Type) where
  tcb : Tcbs α
  readyList : ℕ → Option α
  currentTask : Option α
  taskTable : List α
  systemTicks : ℕ
  schedulerRunning : Bool

variable {α : Type}

namespace Sched

/-- `ready_list[prio] = head`. -/
def setReady (s : Sched α) (prio : ℕ) (head : Option α) : Sched α :=
  { s with readyList := Function.update s.readyList prio head }

section
variable (s : Sched α) (prio : ℕ) (head : Option α)

@[simp] theorem setReady_tcb : (s.setReady prio head).tcb = s.tcb := rfl
@[simp] theorem setReady_readyList :
    (s.setReady prio head).readyList = Function.update s.readyList prio head := rfl
@[simp] theorem setReady_currentTask : (s.setReady prio head).currentTask = s.currentTask := rfl
@[simp] theorem setReady_taskTable : (s.setReady prio head).taskTable = s.taskTable := rfl
@[simp] theorem setReady_systemTicks : (s.setReady prio head).systemTicks = s.systemTicks := rfl
@[simp] theorem setReady_schedulerRunning :
    (s.setReady prio head).schedulerRunning = s.schedulerRunning := rfl

theorem setReady_self : s.setReady prio (s.readyList prio) = s := by
  simp [setReady]

end

variable [DecidableEq α]

/-- Assignment to fields of the block at `t`. -/
def modify (s : Sched α) (t : α) (f : Tcb α → Tcb α) : Sched α :=
  { s with tcb := s.tcb.modify t f }

variable (s : Sched α) (t : α) (f : Tcb α → Tcb α)

@[simp] theorem modify_tcb : (s.modify t f).tcb = s.tcb.modify t f := rfl
@[simp] theorem modify_readyList : (s.modify t f).readyList = s.readyList := rfl
@[simp] theorem modify_currentTask : (s.modify t f).currentTask = s.currentTask := rfl
@[simp] theorem modify_taskTable : (s.modify t f).taskTable = s.taskTable := rfl
@[simp] theorem modify_systemTicks : (s.modify t f).systemTicks = s.systemTicks := rfl
@[simp] theorem modify_schedulerRunning :
    (s.modify t f).schedulerRunning = s.schedulerRunning := rfl

end Sched

variable [DecidableEq α]

/-! ## Ready list management -/

/-- `ready_list_add`. -/
def readyListAdd (s : Sched α) (task : α) : Option (Sched α) :=
  let prio := (s.tcb task).priority
  let s := s.modify task fun t => { t with state := .ready }
  match s.readyList prio with
  | none =>
    let s := s.setReady prio (some task)
    some (s.modify task fun t => { t with next := some task, prev := some task })
  | some head => do
    let s := s.modify task fun t => { t with next := some head }
    let s := s.modify task fun t => { t with prev := (s.tcb head).prev }
    let tail ← (s.tcb head).prev
    let s := s.modify tail fun t => { t with next := some task }
    some (s.modify head fun t => { t with prev := some task })

/-- `ready_list_remove`. -/
def readyListRemove (s : Sched α) (task : α) : Option (Sched α) := do
  let prio := (s.tcb task).priority
  let s ← if (s.tcb task).next = some task then some (s.setReady prio none) else do
    let p ← (s.tcb task).prev
    let s := s.modify p fun t => { t with next := (s.tcb task).next }
    let n ← (s.tcb task).next
    let s := s.modify n fun t => { t with prev := (s.tcb task).prev }
    some (if s.readyList prio = some task then s.setReady prio (s.tcb task).next else s)
  some (s.modify task fun t => { t with next := none, prev := none })

/-- The loop of `get_highest_ready` over the priorities below `n`, downwards. -/
def highestReady (readyList : ℕ → Option α) : ℕ → Option α
  | 0 => none
  | i + 1 => match readyList i with
    | some task => some task
    | none => highestReady readyList i

/-- `get_highest_ready`. -/
def getHighestReady (cfg : SchedConfig α) (s : Sched α) : α :=
  (highestReady s.readyList cfg.maxPriority).getD cfg.idleTcb

/-! ## Scheduler core -/

/-- `schedule_locked`. -/
def scheduleLocked (cfg : SchedConfig α) (s : Sched α) : Option (Sched α) :=
  let next := getHighestReady cfg s
  if s.currentTask = some next then some s else do
    let s ← if next = cfg.idleTcb then some s else readyListRemove s next
    let s := s.modify next fun t => { t with
      state := .running
      switches := match cfg.port with | .arm64 => t.switches | .x86_64 => t.switches + 1 }
    some { s with currentTask := some next }

/-! ## Task management -/

/-- `task_create`.  The entry point and the stack are only compared with
    `NULL`. -/
def taskCreate (cfg : SchedConfig α) (s : Sched α) (tcb : Option α) (entry : Option ℕ)
    (priority : ℕ) (stack : Option ℕ) : Sched α × Status :=
  match tcb with
  | none => (s, .invalid)
  | some t =>
    if entry = none ∨ stack = none then (s, .invalid)
    else if cfg.maxPriority ≤ priority then (s, .invalid)
    else if cfg.maxTasks ≤ s.taskTable.length then (s, .noMem)
    else
      let s := s.modify t fun t => { t with
        priority := priority
        state := .suspended
        timeSlice := 10
        remainingSlice := 10
        waitObj := none
        next := none
        prev := none
        totalTicks := 0
        switches := 0 }
      let s := s.modify t fun t => { t with id := s.taskTable.length }
      ({ s with taskTable := s.taskTable ++ [t] }, .ok)

/-- `task_yield`. -/
def taskYield (cfg : SchedConfig α) (s : Sched α) : Option (Sched α) := do
  let cur ← s.currentTask
  let s ← if (s.tcb cur).state = .running then do
      let s ← readyListAdd s cur
      some (s.setReady (s.tcb cur).priority (s.tcb cur).next)
    else some s
  scheduleLocked cfg s

/-- `task_start`. -/
def taskStart (cfg : SchedConfig α) (s : Sched α) (tcb : Option α) :
    Option (Sched α × Status) :=
  match tcb with
  | none => some (s, .invalid)
  | some t => do
    if (s.tcb t).state = .suspended then
      let s ← readyListAdd s t
      match s.schedulerRunning, s.currentTask with
      | true, some cur =>
        if (s.tcb cur).priority < (s.tcb t).priority then
          let s ← taskYield cfg s
          some (s, .ok)
        else some (s, .ok)
      | _, _ => some (s, .ok)
    else some (s, .ok)

/-- `task_terminate`. -/
def taskTerminate (cfg : SchedConfig α) (s : Sched α) : Option (Sched α) := do
  let cur ← s.currentTask
  scheduleLocked cfg (s.modify cur fun t => { t with state := .terminated })

/-- `task_sleep`. -/
def taskSleep (cfg : SchedConfig α) (s : Sched α) (ticks : ℕ) : Option (Sched α) := do
  let cur ← s.currentTask
  scheduleLocked cfg (s.modify cur fun t => { t with
    state := .blocked, wakeTick := cfg.port.tick (s.systemTicks + ticks) })

/-- The body of the first loop of `scheduler_tick`. -/
def wakeSleeper (s : Sched α) (task : α) : Option (Sched α) :=
  if (s.tcb task).state = .blocked ∧ (s.tcb task).waitObj = none then
    if (s.tcb task).wakeTick ≤ s.systemTicks then
      if (s.tcb task).state = .blocked then readyListAdd s task else some s
    else some s
  else some s

/-- The time slice management of `scheduler_tick` for the running task `cur`. -/
def tickSlice (cfg : SchedConfig α) (s : Sched α) (cur : α) : Option (Sched α) :=
  let s := s.modify cur fun t => { t with
    totalTicks := match cfg.port with | .arm64 => t.totalTicks | .x86_64 => t.totalTicks + 1
    remainingSlice := cfg.port.tickPred t.remainingSlice }
  if (s.tcb cur).remainingSlice = 0 then
    taskYield cfg (s.modify cur fun t => { t with
      remainingSlice := match cfg.port with | .arm64 => t.timeSlice | .x86_64 => 10 })
  else some s

/-- `scheduler_tick`.  The X86_64 port reads a tick counter that its timer
    interrupt increments, and tests `current_task` against `NULL`. -/
def schedulerTick (cfg : SchedConfig α) (s : Sched α) : Option (Sched α) := do
  let s := match cfg.port with
    | .arm64 => { s with systemTicks := cfg.port.tick (s.systemTicks + 1) }
    | .x86_64 => s
  let s ← s.taskTable.foldlM wakeSleeper s
  match s.currentTask with
  | none => match cfg.port with
    | .arm64 => none
    | .x86_64 => some s
  | some cur => if cur = cfg.idleTcb then some s else tickSlice cfg s cur

/-- `scheduler_start`, up to the first switch. -/
def schedulerStart (cfg : SchedConfig α) (s : Sched α) : Option (Sched α) := do
  let s := (taskCreate cfg s (some cfg.idleTcb) (some 0) 0 (some 0)).1
  let s := s.modify cfg.idleTcb fun t => { t with state := .ready }
  let next := getHighestReady cfg s
  let s := { s with currentTask := some next }
  let s ← if next = cfg.idleTcb then some s else readyListRemove s next
  let s := s.modify next fun t => { t with state := .running }
  some { s with schedulerRunning := true }

/-! ## The transition system -/

/-- The calls of the API, by the running task or (`taskCreate`, `taskStart`,
    `schedulerTick`) from anywhere; `clock` is the X86_64 timer interrupt
    writing the tick counter.  Numbers of ticks are converted to `tick_t`. -/
inductive Op (α : Type) where
  | taskCreate (tcb : Option α) (entry : Option ℕ) (priority : ℕ) (stack : Option ℕ)
  | taskStart (tcb : Option α)
  | taskYield
  | taskSleep (ticks : ℕ)
  | taskTerminate
  | schedulerTick
  | schedulerStart
  | clock (now : ℕ)
  deriving DecidableEq

/-- One call.  The calls of a task are made by the running task, which is not
    the idle task (`idle_task` only waits for interrupts); `scheduler_start` is
    called once; the idle block is private to the scheduler. -/
def step (cfg : SchedConfig α) (s : Sched α) : Op α → Option (Sched α)
  | .taskCreate tcb entry priority stack =>
    if tcb = some cfg.idleTcb then none else some (taskCreate cfg s tcb entry priority stack).1
  | .taskStart tcb =>
    if tcb = some cfg.idleTcb then none else (taskStart cfg s tcb).map Prod.fst
  | .taskYield => if s.currentTask = some cfg.idleTcb then none else taskYield cfg s
  | .taskSleep ticks => if s.currentTask = some cfg.idleTcb then none else taskSleep cfg s ticks
  | .taskTerminate => if s.currentTask = some cfg.idleTcb then none else taskTerminate cfg s
  | .schedulerTick => schedulerTick cfg s
  | .schedulerStart => if s.schedulerRunning then none else schedulerStart cfg s
  | .clock now => match cfg.port with
    | .arm64 => none
    | .x86_64 => some { s with systemTicks := cfg.port.tick now }

/-- The variables at boot: everything in zero-initialised static storage. -/
def Sched.boot : Sched α where
  tcb := fun _ => Tcb.zero
  readyList := fun _ => none
  currentTask := none
  taskTable := []
  systemTicks := 0
  schedulerRunning := false

/-- The scheduler as a transition system. -/
def schedLts (cfg : SchedConfig α) : Lib.Lts (Sched α) (Op α) :=
  .ofFun (fun s => s = .boot) (step cfg)

end Gracemont
