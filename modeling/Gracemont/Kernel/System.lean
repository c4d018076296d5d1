/-
  Gracemont kernel — scheduler and synchronisation objects together (ARM64).

  The state holds the scheduler, all synchronisation objects over the same task
  control blocks, and for each task where it is in a blocking call.  An
  operation is a call of the scheduler, a turn of the running task on an
  object, or its `task_yield`; `kernelStep` gives the tasks that it woke.

  In this port waking a task does not put it on a ready list, whatever the
  comment in `sem_post` says: `woken_on_ready_list_iff`.
-/
import Gracemont.Kernel.SchedulerInv
import Gracemont.Kernel.Sync

namespace Gracemont

/-- A call that may go to `task_yield`. -/
inductive BlockingCall where
  | semWait (i : ℕ)
  | mutexLock (i : ℕ)
  | eventWait (i : ℕ) (cond : EventCond)
  | msgqSend (i : ℕ) (msg : ℕ → BitVec 8) (timeout : BitVec 32)
  | msgqRecv (i : ℕ) (msg : ℕ → BitVec 8) (timeout : BitVec 32)

/-- Where a task is: in its own code, before the `task_yield` of a blocking
    call, or in it. -/
inductive TaskPc where
  | own
  | yield (call : BlockingCall)
  | resume (call : BlockingCall)

/-- The kernel. -/
structure Kernel (α : Type) where
  sched : Sched α
  sem : ℕ → Semaphore α
  mutex : ℕ → Mutex α
  event : ℕ → Event α
  msgq : ℕ → Msgqueue α
  pc : α → TaskPc

/-- The operations. -/
inductive KernelOp (α : Type) where
  | sched (op : Op α)
  | call (call : BlockingCall)
  | yield
  | resume
  | semTrywait (i : ℕ)
  | semPost (i : ℕ)
  | mutexTrylock (i : ℕ)
  | mutexUnlock (i : ℕ)
  | eventSet (i : ℕ) (mask : BitVec 32)
  | eventClear (i : ℕ) (mask : BitVec 32)

variable {α : Type} [DecidableEq α]

namespace Kernel

/-- The task control blocks after a turn. -/
def setTcb (k : Kernel α) (m : Tcbs α) : Kernel α := { k with sched := { k.sched with tcb := m } }

/-- The task `c` after a turn of `call`: before its `task_yield` if the outcome
    is `none`, else back in its own code. -/
def setPc {ρ : Type} (k : Kernel α) (c : α) (call : BlockingCall) (r : Option ρ) : Kernel α :=
  { k with pc := Function.update k.pc c (if r.isNone then .yield call else .own) }

/-- The running task, when it is not the idle task. -/
def caller (cfg : SchedConfig α) (k : Kernel α) : Option α :=
  k.sched.currentTask.filter fun c => c ≠ cfg.idleTcb

end Kernel

/-- A turn of `call` by the task `c`, the first one or a later one. -/
def turn (k : Kernel α) (c : α) (first : Bool) (call : BlockingCall) : Kernel α × List α :=
  let m := k.sched.tcb
  match call with
  | .semWait i =>
    let (m, sem, r) :=
      if first then semWait (.sem i) m (k.sem i) c else semResume (.sem i) m (k.sem i) c
    (({ k with sem := Function.update k.sem i sem }.setTcb m).setPc c call r, [])
  | .mutexLock i =>
    let (m, mutex, r) :=
      if first then mutexLock (.mutex i) m (k.mutex i) c else mutexResume (.mutex i) m (k.mutex i) c
    (({ k with mutex := Function.update k.mutex i mutex }.setTcb m).setPc c call r, [])
  | .eventWait i cond =>
    let (m, event, r) := eventWait (.event i) m (k.event i) c cond
    (({ k with event := Function.update k.event i event }.setTcb m).setPc c call r, [])
  | .msgqSend i msg timeout =>
    let (m, mq, r, woken) := msgqSend (.msgq i) m (k.msgq i) c msg timeout
    (({ k with msgq := Function.update k.msgq i mq }.setTcb m).setPc c call r, woken.toList)
  | .msgqRecv i msg timeout =>
    let (m, mq, r, woken) := msgqRecv (.msgq i) m (k.msgq i) c msg timeout
    (({ k with msgq := Function.update k.msgq i mq }.setTcb m).setPc c call r, woken.toList)

/-- One operation, and the tasks that it took off a wait list and made ready. -/
def kernelStep (cfg : SchedConfig α) (fuel : ℕ) (k : Kernel α) :
    KernelOp α → Option (Kernel α × List α)
  | .sched op => do
    let sched ← step cfg k.sched op
    match op, k.sched.currentTask.map k.pc with
    | .schedulerTick, _ => some ({ k with sched := sched }, [])
    | _, some (.yield _) | _, some (.resume _) => none
    | .taskCreate (some t) entry priority stack, _ =>
      if (taskCreate cfg k.sched (some t) entry priority stack).2 = .ok then
        some ({ k with sched := sched, pc := Function.update k.pc t .own }, [])
      else some ({ k with sched := sched }, [])
    | _, _ => some ({ k with sched := sched }, [])
  | .call call => do
    let c ← k.caller cfg
    match k.pc c with
    | .own => some (turn k c true call)
    | _ => none
  | .yield => do
    let c ← k.caller cfg
    match k.pc c with
    | .yield call =>
      let sched ← taskYield cfg k.sched
      some ({ k with sched := sched, pc := Function.update k.pc c (.resume call) }, [])
    | _ => none
  | .resume => do
    let c ← k.caller cfg
    match k.pc c with
    | .resume call => some (turn k c false call)
    | _ => none
  | .semTrywait i =>
    let (sem, _) := semTrywait (k.sem i)
    some ({ k with sem := Function.update k.sem i sem }, [])
  | .semPost i =>
    let (m, sem, woken) := semPost k.sched.tcb (k.sem i)
    some ({ k with sem := Function.update k.sem i sem }.setTcb m, woken.toList)
  | .mutexTrylock i => do
    let c ← k.caller cfg
    let (mutex, _) := mutexTrylock k.sched.tcb (k.mutex i) c
    some ({ k with mutex := Function.update k.mutex i mutex }, [])
  | .mutexUnlock i => do
    let c ← k.caller cfg
    let (m, mutex, woken) := mutexUnlock k.sched.tcb (k.mutex i) c
    some ({ k with mutex := Function.update k.mutex i mutex }.setTcb m, woken.toList)
  | .eventSet i mask => do
    let (m, event, woken) ← eventSet fuel k.sched.tcb (k.event i) mask
    some ({ k with event := Function.update k.event i event }.setTcb m, woken)
  | .eventClear i mask =>
    some ({ k with event := Function.update k.event i (eventClear (k.event i) mask) }, [])

/-- The kernel as a transition system, from boot, with the objects as their
    `init` functions leave them. -/
def kernelLts (cfg : SchedConfig α) : Lib.Lts (Kernel α) (KernelOp α) where
  init k := k.sched = .boot ∧ (∀ i, ∃ n, k.sem i = semInit n) ∧ (∀ i, k.mutex i = mutexInit) ∧
    (∀ i, k.event i = eventInit) ∧
    (∀ i, ∃ buffer msgSize capacity, msgqInit buffer msgSize capacity = some (k.msgq i)) ∧
    ∀ t, k.pc t = .own
  step k op k' := ∃ fuel woken, kernelStep cfg fuel k op = some (k', woken)

/-! ## Who is woken -/

/-- The call is not about to take a task off a wait list. -/
def BlockingCall.WakesNobody (k : Kernel α) : BlockingCall → Prop
  | .msgqSend i _ _ => (k.msgq i).capacity ≤ (k.msgq i).count ∨ (k.msgq i).recvWait = none
  | .msgqRecv i _ _ => (k.msgq i).count = 0 ∨ (k.msgq i).sendWait = none
  | _ => True

/-- The operation is not about to take a task off a wait list. -/
def WakesNobody (cfg : SchedConfig α) (k : Kernel α) : KernelOp α → Prop
  | .semPost i => (k.sem i).waitList = none
  | .mutexUnlock i => ∀ c, k.caller cfg = some c → (k.mutex i).owner = some c →
    (k.mutex i).lockCount = 1 → (k.mutex i).waitList = none
  | .eventSet i _ => (k.event i).waitList = none
  | .call call => call.WakesNobody k
  | .resume => ∀ c call, k.caller cfg = some c → k.pc c = .resume call → call.WakesNobody k
  | _ => True

/-- After the operation, every task that it woke is on the ready list of its
    priority. -/
def WokenReady (cfg : SchedConfig α) (k : Kernel α) (op : KernelOp α) : Prop :=
  ∀ fuel k' woken, kernelStep cfg fuel k op = some (k', woken) →
    ∀ t ∈ woken, OnReadyList k'.sched (k'.sched.tcb t).priority t

section
variable {cfg : SchedConfig α} {fuel : ℕ} {k k' : Kernel α} {op : KernelOp α} {woken : List α}

/-- What a turn wakes. -/
theorem turn_woken {c : α} {first : Bool} {call : BlockingCall}
    (h : turn k c first call = (k', woken)) :
    (∀ t ∈ woken, (k'.sched.tcb t).next = none) ∧ (woken = [] ↔ call.WakesNobody k) := by
  cases call with
  | semWait i => cases h; simp [BlockingCall.WakesNobody]
  | mutexLock i => cases h; simp [BlockingCall.WakesNobody]
  | eventWait i cond => cases h; simp [BlockingCall.WakesNobody]
  | msgqSend i msg timeout =>
    cases h
    refine ⟨fun t ht => msgqSend_next _ _ _ _ _ _ (Option.mem_toList.1 ht), ?_⟩
    show (msgqSend _ _ _ _ _ _).2.2.2.toList = [] ↔ _
    rw [msgqSend_woken, BlockingCall.WakesNobody]
    split_ifs with hc <;> simp [hc]
  | msgqRecv i msg timeout =>
    cases h
    refine ⟨fun t ht => msgqRecv_next _ _ _ _ _ _ (Option.mem_toList.1 ht), ?_⟩
    show (msgqRecv _ _ _ _ _ _).2.2.2.toList = [] ↔ _
    rw [msgqRecv_woken, BlockingCall.WakesNobody]
    split_ifs with hc <;> simp [hc]

/-- **What an operation wakes**: tasks that are linked to nothing, and none
    exactly if the operation wakes nobody. -/
theorem kernelStep_woken (h : kernelStep cfg fuel k op = some (k', woken)) :
    (∀ t ∈ woken, (k'.sched.tcb t).next = none) ∧ (woken = [] ↔ WakesNobody cfg k op) := by
  cases op with
  | sched op =>
    obtain ⟨s, -, h⟩ := Option.bind_eq_some_iff.1 h
    obtain rfl : woken = [] := by
      split at h
      · cases h
        rfl
      · cases h
      · cases h
      · split_ifs at h
        · cases h
          rfl
        · cases h
          rfl
      · cases h
        rfl
    simp [WakesNobody]
  | call call =>
    obtain ⟨c, -, h⟩ := Option.bind_eq_some_iff.1 h
    split at h
    · exact turn_woken (Option.some.inj h)
    · cases h
  | yield =>
    obtain ⟨c, -, h⟩ := Option.bind_eq_some_iff.1 h
    split at h
    · obtain ⟨s, -, h⟩ := Option.bind_eq_some_iff.1 h
      cases h
      simp [WakesNobody]
    · cases h
  | resume =>
    obtain ⟨c, hc, h⟩ := Option.bind_eq_some_iff.1 h
    split at h
    case h_1 call hpc =>
      obtain ⟨hn, hw⟩ := turn_woken (Option.some.inj h)
      refine ⟨hn, hw.trans ⟨?_, fun h => h c call hc hpc⟩⟩
      intro hw d call' hd hpd
      obtain rfl := Option.some.inj (hc.symm.trans hd)
      obtain rfl : call = call' := by simpa [hpc] using hpd
      exact hw
    case h_2 => cases h
  | semTrywait i => cases h; simp [WakesNobody]
  | semPost i =>
    cases h
    refine ⟨fun t ht => semPost_next _ (Option.mem_toList.1 ht), ?_⟩
    show (semPost _ _).2.2.toList = [] ↔ _
    rw [semPost_woken, Option.toList_eq_nil_iff]
    rfl
  | mutexTrylock i =>
    obtain ⟨c, -, h⟩ := Option.bind_eq_some_iff.1 h
    cases h
    simp [WakesNobody]
  | mutexUnlock i =>
    obtain ⟨c, hc, h⟩ := Option.bind_eq_some_iff.1 h
    cases h
    refine ⟨fun t ht => mutexUnlock_next _ _ (Option.mem_toList.1 ht), ?_⟩
    show (mutexUnlock _ _ _).2.2.toList = [] ↔ _
    rw [mutexUnlock_woken, Option.toList_eq_nil_iff]
    simp [WakesNobody, hc]
  | eventSet i mask =>
    obtain ⟨⟨m, event, woken⟩, he, h⟩ := Option.bind_eq_some_iff.1 h
    obtain ⟨⟨m, list, woken⟩, hr, he⟩ := Option.bind_eq_some_iff.1 he
    cases he
    cases h
    obtain ⟨h1, l, rfl, hl⟩ := eventWake_run hr (by simp)
    exact ⟨h1, by simpa [WakesNobody] using hl⟩
  | eventClear i mask => cases h; simp [WakesNobody]

/-- **A woken task is on no ready list.** -/
theorem woken_not_on_ready_list (h : kernelStep cfg fuel k op = some (k', woken)) {t : α}
    (ht : t ∈ woken) (p : ℕ) : ¬ OnReadyList k'.sched p t := by
  rintro ⟨l, hl, htl⟩
  exact hl.next_ne_none htl ((kernelStep_woken h).1 t ht)

theorem wokenReady_iff (h : kernelStep cfg fuel k op = some (k', woken)) :
    WokenReady cfg k op ↔ WakesNobody cfg k op := by
  constructor
  · intro hw
    rw [← (kernelStep_woken h).2, List.eq_nil_iff_forall_not_mem]
    intro t ht
    exact woken_not_on_ready_list h ht _ (hw fuel k' woken h t ht)
  · intro hw fuel k' woken h t ht
    rw [(kernelStep_woken h).2.2 hw] at ht
    cases ht

end

/-- The step function of the system, for a bound on the loop of `event_set`. -/
def kernelNext (cfg : SchedConfig α) (fuel : ℕ) (k : Kernel α) (op : KernelOp α) :
    Option (Kernel α) :=
  (kernelStep cfg fuel k op).map Prod.fst

theorem kernelLts_run {cfg : SchedConfig α} {fuel : ℕ} {k k' : Kernel α} {tr : List (KernelOp α)}
    (h0 : (kernelLts cfg).init k) (h : Lib.Lts.exec (kernelNext cfg fuel) k tr = some k') :
    (kernelLts cfg).Run tr k' := by
  refine Lib.Lts.run_of_exec ?_ h0 h
  intro k op k' hs
  obtain ⟨⟨k₁, woken⟩, hk, rfl⟩ := Option.map_eq_some_iff.1 hs
  exact ⟨fuel, woken, hk⟩

/-- **Waking and the ready lists.**  The operations of a run leave the tasks
    they wake on the ready lists of their priorities exactly if none of them
    wakes a task. -/
theorem woken_on_ready_list_iff (cfg : SchedConfig α) (tr : List (KernelOp α)) (k : Kernel α) :
    ((kernelLts cfg).restrict (WokenReady cfg)).Run tr k ↔
      ((kernelLts cfg).restrict (WakesNobody cfg)).Run tr k := by
  refine (Lib.Lts.restrict_iff (I := fun _ => True) ?_ ?_).1
  · exact fun _ _ => trivial
  · rintro k op k' - ⟨fuel, woken, hk⟩
    exact ⟨wokenReady_iff hk, fun _ => trivial⟩

/-- The kernel at boot, with semaphores of count 0. -/
def demoKernel : Kernel (Fin 3) where
  sched := .boot
  sem _ := semInit 0
  mutex _ := mutexInit
  event _ := eventInit
  msgq _ := ⟨fun _ => 0, 1, 1, 0, 0, 0, none, none⟩
  pc _ := .own

/-- Two tasks, and the first goes to sleep on a semaphore. -/
def demoWait : List (KernelOp (Fin 3)) :=
  [.sched (.taskCreate (some 1) (some 0) 1 (some 0)),
    .sched (.taskCreate (some 2) (some 0) 1 (some 0)), .sched (.taskStart (some 1)),
    .sched (.taskStart (some 2)), .sched .schedulerStart, .call (.semWait 0), .yield]

theorem demoWait_runs :
    (Lib.Lts.exec (kernelNext (demoConfig .arm64) 0) demoKernel demoWait).isSome := by
  decide +kernel

/-- **A task woken by `sem_post`** is ready, and on no ready list. -/
theorem sem_post_lost_wakeup : ∃ k, (kernelLts (demoConfig .arm64)).Run demoWait k ∧
    ∃ k', kernelStep (demoConfig .arm64) 0 k (.semPost 0) = some (k', [1]) ∧
      (k'.sched.tcb 1).state = .ready ∧ ∀ p, ¬ OnReadyList k'.sched p 1 := by
  have hrun : (kernelLts (demoConfig .arm64)).Run demoWait _ :=
    kernelLts_run ⟨rfl, fun _ => ⟨0, rfl⟩, fun _ => rfl, fun _ => rfl,
      fun _ => ⟨some fun _ => 0, 1, 1, rfl⟩, fun _ => rfl⟩ (Option.some_get demoWait_runs).symm
  refine ⟨_, hrun, ?_⟩
  generalize hk : (Lib.Lts.exec _ _ _).get demoWait_runs = k
  have hw : (k.sem 0).waitList = some 1 := by
    subst hk
    decide +kernel
  have hpost : kernelStep (demoConfig .arm64) 0 k (.semPost 0) =
      some ((_, (semPost k.sched.tcb (k.sem 0)).2.2.toList)) := rfl
  rw [semPost_woken, hw] at hpost
  refine ⟨_, hpost, ?_, fun p => woken_not_on_ready_list hpost (by simp) p⟩
  subst hk
  decide +kernel

end Gracemont
