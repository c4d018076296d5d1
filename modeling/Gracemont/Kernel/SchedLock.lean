/-
  Gracemont kernel — the scheduler lock and the interrupt state
  (`kernel/scheduler.c`, `spin_lock_irq`, `spin_unlock_irq`).

  Here the functions of the scheduler are taken with their calls of
  `spin_lock_irq (&scheduler_lock)` and `spin_unlock_irq (&scheduler_lock)`, and
  with the processor state that these save and restore.  `irq` is the interrupt
  enable bit; of the flags in `scheduler_lock.irq_flags` only this bit is kept.

  A task that `schedule_locked` switches away from stops in the middle of its
  call, with the lock held; `saved` is where it goes on when it is switched
  back to.  A task that has never run goes on at its entry function.  (What the
  assembly of the switch does with the registers is another matter.)

  There is one processor, so a call of `spin_lock` that finds the lock held never
  returns: the step is undefined.

  * `scheduleSwitch`, `yieldLocked`, `sleepLocked`, …: the functions of
    the scheduler with their lock;
  * `LockOp`, `lockStep`: the transition system, `lockLts`.
-/
import Gracemont.Kernel.Scheduler

namespace Gracemont

/-- `spinlock_t` -/
structure SpinLock where
  locked : Bool
  irqFlags : Bool
  deriving DecidableEq

/-- What runs: the code of a task inside `handlers` interrupt handlers.
    `starting`: the task is in `task_start`, between the release of the lock and
    the call of `task_yield`. -/
structure Frame where
  handlers : ℕ
  starting : Bool
  deriving DecidableEq

/-- Where a task goes on that is switched to: at its entry function; in
    `task_yield` or `task_sleep` (called with the interrupt state `irq`) behind
    `schedule_locked`; or in `task_terminate`, which never returns. -/
inductive Resume where
  | entry
  | call (frame : Frame) (irq : Bool)
  | exit
  deriving DecidableEq

/-- The scheduler, its lock, the interrupt enable bit, the code that runs, and
    where the other tasks go on. -/
structure LockedSched (α : Type) where
  sched : Sched α
  lock : SpinLock
  irq : Bool
  frame : Frame
  saved : α → Resume

variable {α : Type}

/-! ## Spinlock operations -/

/-- `spin_lock (&scheduler_lock)` -/
def spinLock (s : LockedSched α) : Option (LockedSched α) :=
  if s.lock.locked then none else some { s with lock := { s.lock with locked := true } }

/-- `spin_unlock (&scheduler_lock)` -/
def spinUnlock (s : LockedSched α) : LockedSched α :=
  { s with lock := { s.lock with locked := false } }

/-- `spin_lock_irq (&scheduler_lock)` -/
def spinLockIrq (s : LockedSched α) : Option (LockedSched α) :=
  spinLock { s with lock := { s.lock with irqFlags := s.irq }, irq := false }

/-- `spin_unlock_irq (&scheduler_lock)` -/
def spinUnlockIrq (s : LockedSched α) : LockedSched α :=
  let s := spinUnlock s
  { s with irq := s.lock.irqFlags }

/-! ## Scheduler core -/

/-- What runs behind `schedule_locked`. -/
def LockedSched.resume (s : LockedSched α) : Resume → Option (LockedSched α)
  | .entry => some { s with frame := ⟨0, false⟩ }
  | .call frame _ => some (spinUnlockIrq { s with frame := frame })
  | .exit => none

variable [DecidableEq α]

/-- `schedule_locked`, called by `prev`, which is to go on at `k`. -/
def scheduleSwitch (cfg : SchedConfig α) (s : LockedSched α) (prev : α) (k : Resume) :
    Option (LockedSched α) := do
  let sched ← scheduleLocked cfg s.sched
  let next ← sched.currentTask
  let s := { s with sched := sched }
  if next = prev then s.resume k
  else LockedSched.resume { s with saved := Function.update s.saved prev k } (s.saved next)

/-- `task_yield`, before `schedule_locked`. -/
def requeueCurrent (s : Sched α) (cur : α) : Option (Sched α) :=
  if (s.tcb cur).state = .running then do
    let s ← readyListAdd s cur
    some (s.setReady (s.tcb cur).priority (s.tcb cur).next)
  else some s

/-- `task_yield` -/
def yieldLocked (cfg : SchedConfig α) (s : LockedSched α) : Option (LockedSched α) := do
  let irq := s.irq
  let s ← spinLockIrq s
  let cur ← s.sched.currentTask
  let sched ← requeueCurrent s.sched cur
  scheduleSwitch cfg { s with sched := sched } cur (.call s.frame irq)

/-- `task_sleep` -/
def sleepLocked (cfg : SchedConfig α) (s : LockedSched α) (ticks : ℕ) :
    Option (LockedSched α) := do
  let irq := s.irq
  let s ← spinLockIrq s
  let cur ← s.sched.currentTask
  let sched := s.sched.modify cur fun t => { t with
    state := .blocked, wakeTick := cfg.port.tick (s.sched.systemTicks + ticks) }
  scheduleSwitch cfg { s with sched := sched } cur (.call s.frame irq)

/-- `task_terminate` -/
def terminateLocked (cfg : SchedConfig α) (s : LockedSched α) : Option (LockedSched α) := do
  let s ← spinLockIrq s
  let cur ← s.sched.currentTask
  let sched := s.sched.modify cur fun t => { t with state := .terminated }
  scheduleSwitch cfg { s with sched := sched } cur .exit

/-! ## Task management -/

/-- `task_create` -/
def createLocked (cfg : SchedConfig α) (s : LockedSched α) (tcb : Option α) (entry : Option ℕ)
    (priority : ℕ) (stack : Option ℕ) : Option (LockedSched α) :=
  match tcb, taskCreate cfg s.sched tcb entry priority stack with
  | some t, (sched, .ok) => do
    let s ← spinLockIrq { s with saved := Function.update s.saved t .entry }
    some (spinUnlockIrq { s with sched := sched })
  | _, _ => some s

/-- The test of `task_start` for calling `task_yield`. -/
def preempts (s : Sched α) (t : α) : Bool :=
  match s.schedulerRunning, s.currentTask with
  | true, some cur => decide ((s.tcb cur).priority < (s.tcb t).priority)
  | _, _ => false

/-- `task_start`, up to its call of `task_yield`. -/
def startLocked (s : LockedSched α) (tcb : Option α) : Option (LockedSched α) :=
  match tcb with
  | none => some s
  | some t => do
    let s ← spinLockIrq s
    if (s.sched.tcb t).state = .suspended then
      let sched ← readyListAdd s.sched t
      some (spinUnlockIrq { s with
        sched := sched, frame := { s.frame with starting := preempts sched t } })
    else some (spinUnlockIrq s)

/-- The body of the first loop of `scheduler_tick`. -/
def wakeLocked (s : LockedSched α) (task : α) : Option (LockedSched α) :=
  if (s.sched.tcb task).state = .blocked ∧ (s.sched.tcb task).waitObj = none then
    if (s.sched.tcb task).wakeTick ≤ s.sched.systemTicks then do
      let s ← spinLock s
      let sched ← if (s.sched.tcb task).state = .blocked then readyListAdd s.sched task
        else some s.sched
      some (spinUnlock { s with sched := sched })
    else some s
  else some s

/-- The tick that `scheduler_tick` counts itself. -/
def countTick (cfg : SchedConfig α) (s : Sched α) : Sched α :=
  match cfg.port with
  | .arm64 => { s with systemTicks := cfg.port.tick (s.systemTicks + 1) }
  | .x86_64 => s

/-- `scheduler_tick` charges the running task for the tick. -/
def chargeSlice (cfg : SchedConfig α) (s : Sched α) (cur : α) : Sched α :=
  s.modify cur fun t => { t with
    totalTicks := match cfg.port with | .arm64 => t.totalTicks | .x86_64 => t.totalTicks + 1
    remainingSlice := cfg.port.tickPred t.remainingSlice }

/-- `scheduler_tick` gives the running task a new time slice. -/
def renewSlice (cfg : SchedConfig α) (s : Sched α) (cur : α) : Sched α :=
  s.modify cur fun t => { t with
    remainingSlice := match cfg.port with | .arm64 => t.timeSlice | .x86_64 => 10 }

/-- `scheduler_tick` -/
def tickLocked (cfg : SchedConfig α) (s : LockedSched α) : Option (LockedSched α) := do
  let s := { s with sched := countTick cfg s.sched }
  let s ← s.sched.taskTable.foldlM wakeLocked s
  match s.sched.currentTask with
  | none => match cfg.port with
    | .arm64 => none
    | .x86_64 => some s
  | some cur =>
    if cur = cfg.idleTcb then some s
    else
      let sched := chargeSlice cfg s.sched cur
      if (sched.tcb cur).remainingSlice = 0 then
        yieldLocked cfg { s with sched := renewSlice cfg sched cur }
      else some { s with sched := sched }

/-- `scheduler_start`; `arch_first_switch` enables interrupts and enters the
    first task. -/
def startFirst (cfg : SchedConfig α) (s : LockedSched α) : Option (LockedSched α) := do
  let created ← createLocked cfg s (some cfg.idleTcb) (some 0) 0 (some 0)
  let sched ← schedulerStart cfg s.sched
  some { created with sched := sched, irq := true }

/-! ## The transition system -/

/-- The calls of a task, the tick interrupt and the return from its handler, and
    `setIrq`, by which a task enables or disables interrupts itself; `clock` is
    the X86_64 timer interrupt writing the tick counter. -/
inductive LockOp (α : Type) where
  | taskCreate (tcb : Option α) (entry : Option ℕ) (priority : ℕ) (stack : Option ℕ)
  | taskStart (tcb : Option α)
  | taskYield
  | taskSleep (ticks : ℕ)
  | taskTerminate
  | schedulerStart
  | tick
  | handlerReturn
  | setIrq (enabled : Bool)
  | clock (now : ℕ)
  deriving DecidableEq

/-- A task's own code runs, which is not that of `idle_task`. -/
def OwnCode (cfg : SchedConfig α) (s : LockedSched α) : Prop :=
  s.frame = ⟨0, false⟩ ∧ s.sched.currentTask ≠ some cfg.idleTcb

instance (cfg : SchedConfig α) (s : LockedSched α) : Decidable (OwnCode cfg s) :=
  inferInstanceAs (Decidable (_ ∧ _))

/-- One step.  The processor disables interrupts when it enters the handler, and
    `eret` or `iretq` enables them again. -/
def lockStep (cfg : SchedConfig α) (s : LockedSched α) : LockOp α → Option (LockedSched α)
  | .taskCreate tcb entry priority stack =>
    if OwnCode cfg s ∧ tcb ≠ some cfg.idleTcb then createLocked cfg s tcb entry priority stack
    else none
  | .taskStart tcb =>
    if OwnCode cfg s ∧ tcb ≠ some cfg.idleTcb then startLocked s tcb else none
  | .taskYield =>
    if s.frame.handlers = 0 ∧ s.sched.currentTask ≠ some cfg.idleTcb then
      yieldLocked cfg { s with frame := ⟨0, false⟩ }
    else none
  | .taskSleep ticks => if OwnCode cfg s then sleepLocked cfg s ticks else none
  | .taskTerminate => if OwnCode cfg s then terminateLocked cfg s else none
  | .schedulerStart =>
    if OwnCode cfg s ∧ s.sched.schedulerRunning = false then startFirst cfg s else none
  | .tick =>
    if s.irq then
      tickLocked cfg { s with
        irq := false, frame := { s.frame with handlers := s.frame.handlers + 1 } }
    else none
  | .handlerReturn => match s.frame.handlers with
    | 0 => none
    | n + 1 => some { s with irq := true, frame := { s.frame with handlers := n } }
  | .setIrq enabled => if OwnCode cfg s then some { s with irq := enabled } else none
  | .clock now => match cfg.port with
    | .arm64 => none
    | .x86_64 => some { s with sched := { s.sched with systemTicks := cfg.port.tick now } }

/-- The state at boot. -/
def LockedSched.boot (irq : Bool) : LockedSched α where
  sched := .boot
  lock := ⟨false, false⟩
  irq := irq
  frame := ⟨0, false⟩
  saved := fun _ => .entry

/-- The scheduler with its lock as a transition system. -/
def lockLts (cfg : SchedConfig α) : Lib.Lts (LockedSched α) (LockOp α) :=
  .ofFun (fun s => ∃ irq, s = .boot irq) (lockStep cfg)

/-- The task that a step makes `schedule_locked` pick, if it calls it. -/
def picked (cfg : SchedConfig α) (s : Sched α) : LockOp α → Option α
  | .taskYield => do
    let cur ← s.currentTask
    let s ← requeueCurrent s cur
    some (getHighestReady cfg s)
  | .taskSleep _ | .taskTerminate => some (getHighestReady cfg s)
  | .tick => do
    let s := countTick cfg s
    let s ← s.taskTable.foldlM wakeSleeper s
    let cur ← s.currentTask
    if cur = cfg.idleTcb then none
    else
      let s := chargeSlice cfg s cur
      if (s.tcb cur).remainingSlice = 0 then
        let s ← requeueCurrent (renewSlice cfg s cur) cur
        some (getHighestReady cfg s)
      else none
  | _ => none

end Gracemont
