/-
  Gracemont kernel — who holds the scheduler lock.

  `lockStep_cases` says what a step can do to the lock: it picks no task, or the
  running one, and then the lock is as before; or it switches, and the lock is
  released if the other task goes on in a call, and stays locked if the other
  task is entered for the first time.

  * `yieldLocked_sched`, …: on the scheduler, the functions do what those of
    `Kernel.Scheduler` do;
  * `lock_free_iff`: the lock is free in every state of a run exactly if no step
    of the run switches;
  * `irq_preserved`: a call of `task_yield` or `task_sleep` that returns keeps the
    interrupt state.
-/
import Gracemont.Kernel.SchedulerInv
import Gracemont.Kernel.SchedLock

namespace Gracemont

variable {α : Type} {s s' : LockedSched α}

/-! ## Spinlock operations -/

theorem spinLock_eq_some : spinLock s = some s' ↔
    s.lock.locked = false ∧ { s with lock := { s.lock with locked := true } } = s' := by
  unfold spinLock
  cases s.lock.locked
  · simp
  · simp

theorem spinLockIrq_eq_some : spinLockIrq s = some s' ↔
    s.lock.locked = false ∧ { s with lock := ⟨true, s.irq⟩, irq := false } = s' := by
  rw [spinLockIrq, spinLock_eq_some]

/-! ## One call -/

/-- What `schedule_locked` leads to from `s`, when `cur` calls it in a function
    called with the interrupt state `irq`, and it picks `next`. -/
inductive Outcome (s s' : LockedSched α) (cur next : α) (irq : Bool) : Prop
  | stays : next = cur → s'.lock.locked = false → s'.irq = irq → s'.saved = s.saved →
      Outcome s s' cur next irq
  | enters : next ≠ cur → s.saved next = .entry → s'.lock.locked = true →
      Outcome s s' cur next irq
  | resumes (frame : Frame) (called : Bool) : next ≠ cur → s.saved next = .call frame called →
      s'.lock.locked = false → s'.irq = irq → Outcome s s' cur next irq

theorem Outcome.congr {s₁ : LockedSched α} {cur next : α} {irq : Bool}
    (h : Outcome s₁ s' cur next irq) (hs : s₁.saved = s.saved) : Outcome s s' cur next irq := by
  cases h with
  | stays hn hl hi hsaved => exact .stays hn hl hi (hsaved.trans hs)
  | enters hn he hl => exact .enters hn (hs ▸ he) hl
  | resumes frame called hn hc hl hi => exact .resumes frame called hn (hs ▸ hc) hl hi

theorem LockedSched.resume_sched {k : Resume} (h : s.resume k = some s') : s'.sched = s.sched := by
  cases k with
  | entry => cases h; rfl
  | call frame irq => cases h; rfl
  | exit => cases h

section
variable [DecidableEq α] {cfg : SchedConfig α} {cur : α} {k : Resume} {irq : Bool}

theorem scheduleSwitch_spec (h : scheduleSwitch cfg s cur k = some s') (hk : k ≠ .entry)
    (hlock : s.lock = ⟨true, irq⟩) :
    scheduleLocked cfg s.sched = some s'.sched ∧
      Outcome s s' cur (getHighestReady cfg s.sched) irq := by
  obtain ⟨sched, hsched, h⟩ := Option.bind_eq_some_iff.1 h
  obtain ⟨next, hnext, h⟩ := Option.bind_eq_some_iff.1 h
  obtain rfl : next = getHighestReady cfg s.sched :=
    Option.some.inj (hnext.symm.trans (scheduleLocked_currentTask hsched))
  by_cases hc : getHighestReady cfg s.sched = cur
  · simp only [if_pos hc] at h
    refine ⟨by rw [LockedSched.resume_sched h]; exact hsched, ?_⟩
    cases k with
    | entry => exact absurd rfl hk
    | call frame called =>
      cases h
      exact .stays hc rfl (by simp [spinUnlockIrq, spinUnlock, hlock]) rfl
    | exit => cases h
  · simp only [if_neg hc] at h
    refine ⟨by rw [LockedSched.resume_sched h]; exact hsched, ?_⟩
    cases hs : s.saved (getHighestReady cfg s.sched) with
    | entry =>
      rw [hs] at h
      cases h
      exact .enters hc hs (by simp [hlock])
    | call frame called =>
      rw [hs] at h
      cases h
      exact .resumes frame called hc hs rfl (by simp [spinUnlockIrq, spinUnlock, hlock])
    | exit =>
      rw [hs] at h
      cases h

theorem taskYield_eq (s : Sched α) : taskYield cfg s = s.currentTask.bind fun cur =>
    (requeueCurrent s cur).bind (scheduleLocked cfg) := by
  unfold taskYield
  cases hc : s.currentTask with
  | none => rfl
  | some cur =>
    by_cases hr : (s.tcb cur).state = .running
    · simp [requeueCurrent, hr, Option.bind_assoc]
    · simp [requeueCurrent, hr]

/-- **`task_yield`.** -/
theorem yieldLocked_spec (h : yieldLocked cfg s = some s') :
    s.lock.locked = false ∧ taskYield cfg s.sched = some s'.sched ∧
      ∃ cur sched, s.sched.currentTask = some cur ∧ requeueCurrent s.sched cur = some sched ∧
        Outcome s s' cur (getHighestReady cfg sched) s.irq := by
  obtain ⟨s₁, hlock, h⟩ := Option.bind_eq_some_iff.1 h
  obtain ⟨cur, hcur, h⟩ := Option.bind_eq_some_iff.1 h
  obtain ⟨sched, hq, h⟩ := Option.bind_eq_some_iff.1 h
  obtain ⟨hfree, rfl⟩ := spinLockIrq_eq_some.1 hlock
  obtain ⟨hsched, hout⟩ := scheduleSwitch_spec h (fun hk => by cases hk) rfl
  refine ⟨hfree, ?_, cur, sched, hcur, hq, ?_⟩
  · have hcur' : s.sched.currentTask = some cur := hcur
    have hq' : requeueCurrent s.sched cur = some sched := hq
    rw [taskYield_eq, hcur', Option.bind_some, hq', Option.bind_some]
    exact hsched
  · exact hout.congr rfl

/-- **`task_sleep`.** -/
theorem sleepLocked_spec {ticks : ℕ} (h : sleepLocked cfg s ticks = some s') :
    s.lock.locked = false ∧ taskSleep cfg s.sched ticks = some s'.sched ∧
      ∃ cur, s.sched.currentTask = some cur ∧
        Outcome s s' cur (getHighestReady cfg s.sched) s.irq := by
  obtain ⟨s₁, hlock, h⟩ := Option.bind_eq_some_iff.1 h
  obtain ⟨cur, hcur, h⟩ := Option.bind_eq_some_iff.1 h
  obtain ⟨hfree, rfl⟩ := spinLockIrq_eq_some.1 hlock
  obtain ⟨hsched, hout⟩ := scheduleSwitch_spec h (fun hk => by cases hk) rfl
  refine ⟨hfree, Option.bind_eq_some_iff.2 ⟨cur, hcur, hsched⟩, cur, hcur, ?_⟩
  exact hout.congr rfl

/-- **`task_terminate`.** -/
theorem terminateLocked_spec (h : terminateLocked cfg s = some s') :
    s.lock.locked = false ∧ taskTerminate cfg s.sched = some s'.sched ∧
      ∃ cur, s.sched.currentTask = some cur ∧
        Outcome s s' cur (getHighestReady cfg s.sched) s.irq := by
  obtain ⟨s₁, hlock, h⟩ := Option.bind_eq_some_iff.1 h
  obtain ⟨cur, hcur, h⟩ := Option.bind_eq_some_iff.1 h
  obtain ⟨hfree, rfl⟩ := spinLockIrq_eq_some.1 hlock
  obtain ⟨hsched, hout⟩ := scheduleSwitch_spec h (fun hk => by cases hk) rfl
  refine ⟨hfree, Option.bind_eq_some_iff.2 ⟨cur, hcur, hsched⟩, cur, hcur, ?_⟩
  exact hout.congr rfl

/-! ## The tick -/

theorem wakeSleeper_relinked {s s' : Sched α} {t : α} (h : wakeSleeper s t = some s') :
    Relinked s s' := by
  unfold wakeSleeper at h
  split_ifs at h
  · exact readyListAdd_relinked h
  all_goals
    obtain rfl := Option.some.inj h
    exact .refl s

theorem wakeSleepers_relinked {l : List α} {s s' : Sched α}
    (h : l.foldlM wakeSleeper s = some s') : Relinked s s' := by
  induction l generalizing s with
  | nil =>
    obtain rfl := Option.some.inj h
    exact .refl s
  | cons t l ih =>
    obtain ⟨s₁, hs₁, h⟩ := Option.bind_eq_some_iff.1 h
    exact (wakeSleeper_relinked hs₁).trans (ih h)

/-- Waking a sleeper takes the lock and gives it back. -/
theorem wakeLocked_spec {t : α} (h : wakeLocked s t = some s') :
    wakeSleeper s.sched t = some s'.sched ∧ s' = { s with sched := s'.sched } := by
  unfold wakeLocked at h
  unfold wakeSleeper
  by_cases hb : (s.sched.tcb t).state = .blocked ∧ (s.sched.tcb t).waitObj = none
  · rw [if_pos hb] at h ⊢
    by_cases hdue : (s.sched.tcb t).wakeTick ≤ s.sched.systemTicks
    · rw [if_pos hdue] at h ⊢
      obtain ⟨s₁, hlock, h⟩ := Option.bind_eq_some_iff.1 h
      obtain ⟨hfree, rfl⟩ := spinLock_eq_some.1 hlock
      simp only [hb.1, if_true, Option.bind_eq_bind, Option.bind_eq_some_iff,
        Option.some.injEq] at h ⊢
      obtain ⟨sched, hadd, rfl⟩ := h
      refine ⟨hadd, ?_⟩
      simp [spinUnlock, ← hfree]
    · rw [if_neg hdue] at h ⊢
      obtain rfl := Option.some.inj h
      exact ⟨rfl, rfl⟩
  · rw [if_neg hb] at h ⊢
    obtain rfl := Option.some.inj h
    exact ⟨rfl, rfl⟩

theorem wakeSleepersLocked_spec {l : List α} (h : l.foldlM wakeLocked s = some s') :
    l.foldlM wakeSleeper s.sched = some s'.sched ∧ s' = { s with sched := s'.sched } := by
  induction l generalizing s with
  | nil =>
    obtain rfl := Option.some.inj h
    exact ⟨rfl, rfl⟩
  | cons t l ih =>
    obtain ⟨s₁, hs₁, h⟩ := Option.bind_eq_some_iff.1 h
    obtain ⟨hwake, hs₁⟩ := wakeLocked_spec hs₁
    obtain ⟨hrest, hs'⟩ := ih h
    refine ⟨Option.bind_eq_some_iff.2 ⟨_, hwake, hrest⟩, ?_⟩
    rw [hs', hs₁]

theorem schedulerTick_countTick (s : Sched α) : schedulerTick cfg s =
    (s.taskTable.foldlM wakeSleeper (countTick cfg s)).bind fun s => match s.currentTask with
      | none => match cfg.port with
        | .arm64 => none
        | .x86_64 => some s
      | some cur => if cur = cfg.idleTcb then some s else tickSlice cfg s cur := by
  obtain ⟨port, _, _, _⟩ := cfg
  cases port
  · rfl
  · rfl

omit [DecidableEq α] in
theorem countTick_taskTable (s : Sched α) : (countTick cfg s).taskTable = s.taskTable := by
  unfold countTick
  split
  · rfl
  · rfl

omit [DecidableEq α] in
theorem countTick_currentTask (s : Sched α) : (countTick cfg s).currentTask = s.currentTask := by
  unfold countTick
  split
  · rfl
  · rfl

theorem tickSlice_eq (s : Sched α) : tickSlice cfg s cur =
    if ((chargeSlice cfg s cur).tcb cur).remainingSlice = 0 then
      taskYield cfg (renewSlice cfg (chargeSlice cfg s cur) cur)
    else some (chargeSlice cfg s cur) := rfl

/-- **`scheduler_tick`.** -/
theorem tickLocked_spec (h : tickLocked cfg s = some s') :
    schedulerTick cfg s.sched = some s'.sched ∧
      ((picked cfg s.sched .tick = none ∧ s' = { s with sched := s'.sched }) ∨
        ∃ cur next, picked cfg s.sched .tick = some next ∧ s.sched.currentTask = some cur ∧
          s.lock.locked = false ∧ Outcome s s' cur next s.irq) := by
  obtain ⟨s₁, hs₁, h⟩ := Option.bind_eq_some_iff.1 h
  obtain ⟨hwake, hs₁⟩ := wakeSleepersLocked_spec hs₁
  rw [countTick_taskTable] at hwake
  have hcur : s₁.sched.currentTask = s.sched.currentTask :=
    (wakeSleepers_relinked hwake).currentTask.trans (countTick_currentTask s.sched)
  simp only [schedulerTick_countTick, picked, countTick_taskTable, hwake, Option.bind_some,
    Option.bind_eq_bind]
  cases hc : s₁.sched.currentTask with
  | none =>
    simp only [hc] at h ⊢
    cases hport : cfg.port with
    | arm64 => simp [hport] at h
    | x86_64 =>
      simp only [hport, Option.some.injEq] at h
      subst h
      exact ⟨rfl, .inl ⟨rfl, hs₁⟩⟩
  | some cur =>
    simp only [hc] at h ⊢
    by_cases hi : cur = cfg.idleTcb
    · simp only [hi, if_true, Option.some.injEq] at h
      subst h
      refine ⟨by simp [hi], .inl ⟨by simp [hi], hs₁⟩⟩
    · simp only [hi, if_false] at h
      rw [if_neg hi, tickSlice_eq, Option.bind_some, if_neg hi]
      by_cases hslice : ((chargeSlice cfg s₁.sched cur).tcb cur).remainingSlice = 0
      · rw [if_pos hslice] at h ⊢
        rw [if_pos hslice]
        obtain ⟨hfree, hyield, c, sched, hc', hq, hout⟩ := yieldLocked_spec h
        obtain rfl : cur = c := Option.some.inj (hc.symm.trans hc')
        refine ⟨hyield, .inr ⟨cur, _, Option.bind_eq_some_iff.2 ⟨sched, hq, rfl⟩, ?_, ?_, ?_⟩⟩
        · exact hcur.symm.trans hc
        · rw [hs₁] at hfree
          exact hfree
        · rw [hs₁] at hout
          exact hout.congr rfl
      · rw [if_neg hslice] at h ⊢
        rw [if_neg hslice]
        obtain rfl := Option.some.inj h
        refine ⟨rfl, .inl ⟨rfl, ?_⟩⟩
        rw [hs₁]

/-! ## The other calls -/

/-- A call of `task_create` that fails a check changes nothing. -/
theorem taskCreate_fail {s : Sched α} {tcb : Option α} {entry : Option ℕ} {priority : ℕ}
    {stack : Option ℕ} (h : (taskCreate cfg s tcb entry priority stack).2 ≠ .ok) :
    (taskCreate cfg s tcb entry priority stack).1 = s := by
  unfold taskCreate at h ⊢
  cases tcb with
  | none => rfl
  | some t =>
    dsimp only at h ⊢
    split_ifs at h ⊢
    · rfl
    · rfl
    · rfl
    · exact absurd rfl h

/-- **`task_create`.** -/
theorem createLocked_spec {tcb : Option α} {entry : Option ℕ} {priority : ℕ} {stack : Option ℕ}
    (h : createLocked cfg s tcb entry priority stack = some s') :
    s'.sched = (taskCreate cfg s.sched tcb entry priority stack).1 ∧
      s'.lock.locked = s.lock.locked ∧ ∀ t, s.saved t = .entry → s'.saved t = .entry := by
  cases tcb with
  | none =>
    cases h
    exact ⟨rfl, rfl, fun _ hu => hu⟩
  | some t =>
    by_cases hr : (taskCreate cfg s.sched (some t) entry priority stack).2 = .ok
    · obtain ⟨sched, hc⟩ : ∃ sched, taskCreate cfg s.sched (some t) entry priority stack =
          (sched, .ok) := ⟨_, Prod.ext rfl hr⟩
      simp only [createLocked, hc] at h
      obtain ⟨s₁, hlock, h⟩ := Option.bind_eq_some_iff.1 h
      obtain ⟨hfree, rfl⟩ := spinLockIrq_eq_some.1 hlock
      cases h
      refine ⟨by rw [hc]; rfl, hfree.symm, fun u hu => ?_⟩
      by_cases hut : u = t
      · subst hut
        exact Function.update_self ..
      · exact (Function.update_of_ne hut ..).trans hu
    · have hkeep : createLocked cfg s (some t) entry priority stack = some s := by
        unfold createLocked
        split
        · next ht hc => exact absurd (congrArg Prod.snd hc) hr
        · rfl
      obtain rfl := Option.some.inj (hkeep.symm.trans h)
      exact ⟨(taskCreate_fail hr).symm, rfl, fun _ hu => hu⟩

/-- **`task_start`**, and the `task_yield` that it may go on with. -/
theorem startLocked_spec (cfg : SchedConfig α) {t : α} (h : startLocked s (some t) = some s') :
    s'.lock.locked = s.lock.locked ∧ s'.saved = s.saved ∧
      if s'.frame.starting = true ∧ (s.sched.tcb t).state = .suspended then
        taskStart cfg s.sched (some t) = (taskYield cfg s'.sched).map (·, .ok)
      else taskStart cfg s.sched (some t) = some (s'.sched, .ok) := by
  obtain ⟨s₁, hlock, h⟩ := Option.bind_eq_some_iff.1 h
  obtain ⟨hfree, rfl⟩ := spinLockIrq_eq_some.1 hlock
  by_cases hs : (s.sched.tcb t).state = .suspended
  · simp only [hs, if_true, Option.bind_eq_bind, Option.bind_eq_some_iff,
      Option.some.injEq] at h
    obtain ⟨sched, hadd, rfl⟩ := h
    refine ⟨hfree.symm, rfl, ?_⟩
    simp only [taskStart, hs, if_true, Option.bind_eq_bind, hadd, Option.bind_some, and_true,
      spinUnlockIrq, spinUnlock, preempts]
    cases sched.schedulerRunning with
    | false => simp
    | true =>
      cases sched.currentTask with
      | none => simp
      | some cur =>
        by_cases hp : (sched.tcb cur).priority < (sched.tcb t).priority
        · simp only [hp, decide_true, if_true, Option.map_eq_bind]
          rfl
        · simp [hp]
  · simp only [hs, if_false, Option.some.injEq] at h
    subst h
    refine ⟨hfree.symm, rfl, ?_⟩
    simp [taskStart, hs, spinUnlockIrq, spinUnlock]

/-! ## One step -/

/-- The interrupt state in which a step calls `task_yield` or `task_sleep`. -/
def LockedSched.callIrq (s : LockedSched α) : LockOp α → Bool
  | .tick => false
  | _ => s.irq

/-- **What a step does to the lock.** -/
theorem lockStep_cases {op : LockOp α} (h : lockStep cfg s op = some s') :
    (picked cfg s.sched op = none ∧ s'.lock.locked = s.lock.locked ∧
      ∀ t, s.saved t = .entry → s'.saved t = .entry) ∨
    ∃ cur next, picked cfg s.sched op = some next ∧ s.sched.currentTask = some cur ∧
      s.lock.locked = false ∧ Outcome s s' cur next (s.callIrq op) := by
  cases op with
  | taskCreate tcb entry priority stack =>
    simp only [lockStep] at h
    split_ifs at h
    obtain ⟨-, hlock, hsaved⟩ := createLocked_spec h
    exact .inl ⟨rfl, hlock, hsaved⟩
  | taskStart tcb =>
    simp only [lockStep] at h
    split_ifs at h
    cases tcb with
    | none =>
      cases h
      exact .inl ⟨rfl, rfl, fun _ ht => ht⟩
    | some t =>
      obtain ⟨hlock, hsaved, -⟩ := startLocked_spec cfg h
      exact .inl ⟨rfl, hlock, fun t ht => by rw [hsaved]; exact ht⟩
  | taskYield =>
    simp only [lockStep] at h
    split_ifs at h
    obtain ⟨hfree, -, cur, sched, hcur, hq, hout⟩ := yieldLocked_spec h
    refine .inr ⟨cur, _, ?_, hcur, hfree, hout.congr rfl⟩
    exact Option.bind_eq_some_iff.2 ⟨cur, hcur, Option.bind_eq_some_iff.2 ⟨sched, hq, rfl⟩⟩
  | taskSleep ticks =>
    simp only [lockStep] at h
    split_ifs at h
    obtain ⟨hfree, -, cur, hcur, hout⟩ := sleepLocked_spec h
    exact .inr ⟨cur, _, rfl, hcur, hfree, hout⟩
  | taskTerminate =>
    simp only [lockStep] at h
    split_ifs at h
    obtain ⟨hfree, -, cur, hcur, hout⟩ := terminateLocked_spec h
    exact .inr ⟨cur, _, rfl, hcur, hfree, hout⟩
  | schedulerStart =>
    simp only [lockStep] at h
    split_ifs at h
    obtain ⟨created, hc, h⟩ := Option.bind_eq_some_iff.1 h
    obtain ⟨sched, -, h⟩ := Option.bind_eq_some_iff.1 h
    cases h
    obtain ⟨-, hlock, hsaved⟩ := createLocked_spec hc
    exact .inl ⟨rfl, hlock, hsaved⟩
  | tick =>
    simp only [lockStep] at h
    split_ifs at h
    obtain ⟨-, ⟨hp, hs'⟩ | ⟨cur, next, hp, hcur, hfree, hout⟩⟩ := tickLocked_spec h
    · refine .inl ⟨hp, ?_, ?_⟩
      · rw [hs']
      · intro t ht
        rw [hs']
        exact ht
    · exact .inr ⟨cur, next, hp, hcur, hfree, hout.congr rfl⟩
  | handlerReturn =>
    simp only [lockStep] at h
    split at h
    · cases h
    · cases h
      exact .inl ⟨rfl, rfl, fun _ ht => ht⟩
  | setIrq enabled =>
    simp only [lockStep] at h
    split_ifs at h
    cases h
    exact .inl ⟨rfl, rfl, fun _ ht => ht⟩
  | clock now =>
    simp only [lockStep] at h
    split at h
    · cases h
    · cases h
      exact .inl ⟨rfl, rfl, fun _ ht => ht⟩

/-! ## Runs -/

/-- The step does not switch to another task. -/
def NoSwitch (cfg : SchedConfig α) (s : LockedSched α) (op : LockOp α) : Prop :=
  ∀ t, picked cfg s.sched op = some t → s.sched.currentTask = some t

/-- The step leaves the lock free. -/
def LeavesFree (cfg : SchedConfig α) (s : LockedSched α) (op : LockOp α) : Prop :=
  ∀ s', lockStep cfg s op = some s' → s'.lock.locked = false

/-- The lock is free, and no task has been switched away from. -/
def Unswitched (s : LockedSched α) : Prop := s.lock.locked = false ∧ ∀ t, s.saved t = .entry

theorem Unswitched.step (h : Unswitched s) {op : LockOp α} (hs : lockStep cfg s op = some s') :
    (NoSwitch cfg s op ∧ Unswitched s') ∨ (¬ NoSwitch cfg s op ∧ s'.lock.locked = true) := by
  obtain ⟨hp, hlock, hsaved⟩ | ⟨cur, next, hp, hcur, -, hout⟩ := lockStep_cases hs
  · refine .inl ⟨fun t ht => ?_, hlock.trans h.1, fun t => hsaved t (h.2 t)⟩
    rw [hp] at ht
    cases ht
  · cases hout with
    | stays hn hl _ hsaved =>
      refine .inl ⟨fun t ht => ?_, hl, fun t => by rw [hsaved]; exact h.2 t⟩
      rw [hcur, ← hn]
      exact hp.symm.trans ht
    | enters hn _ hl =>
      refine .inr ⟨fun hno => hn ?_, hl⟩
      exact Option.some.inj ((hno next hp).symm.trans hcur)
    | resumes frame called _ hc _ _ =>
      rw [h.2 next] at hc
      cases hc

/-- **Once it is held at the end of a step, the lock is never released.** -/
theorem held_forever (h : s.lock.locked = true) {op : LockOp α} (hs : lockStep cfg s op = some s') :
    s'.lock.locked = true := by
  obtain ⟨-, hlock, -⟩ | ⟨cur, next, -, -, hfree, -⟩ := lockStep_cases hs
  · exact hlock.trans h
  · rw [h] at hfree
    cases hfree

omit [DecidableEq α] in
theorem unswitched_boot (irq : Bool) : Unswitched (LockedSched.boot (α := α) irq) :=
  ⟨rfl, fun _ => rfl⟩

theorem Unswitched.leavesFree_iff (h : Unswitched s) {op : LockOp α}
    (hs : lockStep cfg s op = some s') : LeavesFree cfg s op ↔ NoSwitch cfg s op := by
  constructor
  · intro hfree
    obtain ⟨hno, -⟩ | ⟨-, hheld⟩ := h.step hs
    · exact hno
    · rw [hfree s' hs] at hheld
      cases hheld
  · intro hno s₁ hs₁
    obtain ⟨-, hfree⟩ | ⟨hsw, -⟩ := h.step hs₁
    · exact hfree.1
    · exact absurd hno hsw

theorem Unswitched.kept (h : Unswitched s) {op : LockOp α} (hs : lockStep cfg s op = some s')
    (hno : NoSwitch cfg s op) : Unswitched s' := by
  obtain ⟨-, hs'⟩ | ⟨hsw, -⟩ := h.step hs
  · exact hs'
  · exact absurd hno hsw

/-- **The lock discipline.**  The steps of a run leave the lock free exactly if
    none of them switches to another task, and then it is free in the state
    reached. -/
theorem lock_free_iff {tr : List (LockOp α)} :
    (((lockLts cfg).restrict (LeavesFree cfg)).Run tr s ↔
      ((lockLts cfg).restrict (NoSwitch cfg)).Run tr s) ∧
    (((lockLts cfg).restrict (NoSwitch cfg)).Run tr s → s.lock.locked = false) := by
  refine And.imp_right (fun hinv h => (hinv h).1) (Lib.Lts.restrict_iff (I := Unswitched) ?_ ?_)
  · rintro s ⟨irq, rfl⟩
    exact unswitched_boot irq
  · intro s op s' hs hstep
    exact ⟨hs.leavesFree_iff hstep, hs.kept hstep⟩

/-- In the step, a call of `task_yield` or `task_sleep` returns that was made with
    the interrupt state `irq`: that of the running task, if `schedule_locked`
    picks it, or that in which the task stopped that is switched to. -/
inductive Returns (cfg : SchedConfig α) (s : LockedSched α) (op : LockOp α) : Bool → Prop
  | running (t : α) : picked cfg s.sched op = some t → s.sched.currentTask = some t →
      Returns cfg s op (s.callIrq op)
  | resumed (t : α) (frame : Frame) (irq : Bool) : picked cfg s.sched op = some t →
      s.sched.currentTask ≠ some t → s.saved t = .call frame irq → Returns cfg s op irq

/-- A call returns with the interrupt state of the call that locked last. -/
theorem returns_last {op : LockOp α} (hs : lockStep cfg s op = some s') (hr : Returns cfg s op irq) :
    s'.irq = s.callIrq op := by
  obtain ⟨hp, -⟩ | ⟨cur, next, hp, hcur, -, hout⟩ := lockStep_cases hs
  · cases hr with
    | running t ht => rw [hp] at ht; cases ht
    | resumed t frame _ ht => rw [hp] at ht; cases ht
  · cases hout with
    | stays _ _ hirq => exact hirq
    | enters hn he =>
      cases hr with
      | running t ht hc =>
        obtain rfl : next = t := Option.some.inj (hp.symm.trans ht)
        exact absurd (Option.some.inj (hc.symm.trans hcur)) hn
      | resumed t frame _ ht _ hsaved =>
        obtain rfl : next = t := Option.some.inj (hp.symm.trans ht)
        rw [he] at hsaved
        cases hsaved
    | resumes frame called _ _ _ hirq => exact hirq

/-- While the lock is free, no task has been switched away from. -/
theorem unswitched_of_free {tr : List (LockOp α)} (h : (lockLts cfg).Run tr s)
    (hfree : s.lock.locked = false) : Unswitched s := by
  have hinv : Unswitched s ∨ s.lock.locked = true := by
    refine h.rule (P := fun _ s => Unswitched s ∨ s.lock.locked = true) ?_ ?_
    · rintro s ⟨irq, rfl⟩
      exact .inl (unswitched_boot irq)
    · rintro - s op s' (hs | hheld) hstep
      · exact (hs.step hstep).imp And.right And.right
      · exact .inr (held_forever hheld hstep)
  obtain hs | hheld := hinv
  · exact hs
  · rw [hfree] at hheld
    cases hheld

/-- **Interrupt state.**  In every run, a call of `task_yield` or `task_sleep` that
    returns leaves the interrupt state in which it was made.  (A call returns
    with the state of the call that locked last, `returns_last`; but a call that
    switches to another task never returns, because of `held_forever`.) -/
theorem irq_preserved {tr : List (LockOp α)} (h : (lockLts cfg).Run tr s) {op : LockOp α}
    (hs : lockStep cfg s op = some s') (hr : Returns cfg s op irq) : s'.irq = irq := by
  have hlast := returns_last hs hr
  cases hr with
  | running => exact hlast
  | resumed t frame irq ht hne hsaved =>
    obtain ⟨hp, -⟩ | ⟨cur, next, -, -, hfree, -⟩ := lockStep_cases hs
    · rw [ht] at hp
      cases hp
    · rw [(unswitched_of_free h hfree).2 t] at hsaved
      cases hsaved

end

/-- Two tasks, the first of which yields to the second, which has never run. -/
def demoFirstYield : List (LockOp (Fin 3)) :=
  [.taskCreate (some 1) (some 0) 1 (some 0), .taskCreate (some 2) (some 0) 1 (some 0),
    .taskStart (some 1), .taskStart (some 2), .schedulerStart, .taskYield]

/-- **A task that is entered by `task_yield` holds the lock**, and its first call
    of `task_yield` never returns. -/
theorem entered_with_lock :
    (∃ s, (lockLts (demoConfig .arm64)).Run demoFirstYield s ∧ OwnCode (demoConfig .arm64) s ∧
      s.sched.currentTask = some 2 ∧ s.lock.locked = true ∧
      lockStep (demoConfig .arm64) s .taskYield = none) ∧
    ∃ s, (lockLts (demoConfig .x86_64)).Run demoFirstYield s ∧ OwnCode (demoConfig .x86_64) s ∧
      s.sched.currentTask = some 2 ∧ s.lock.locked = true ∧
      lockStep (demoConfig .x86_64) s .taskYield = none := by
  have arm : (lockLts (demoConfig .arm64)).Run demoFirstYield _ :=
    Lib.Lts.run_exec_get ⟨true, rfl⟩ (by decide +kernel)
  have x86 : (lockLts (demoConfig .x86_64)).Run demoFirstYield _ :=
    Lib.Lts.run_exec_get ⟨true, rfl⟩ (by decide +kernel)
  exact ⟨⟨_, arm, by decide +kernel, by decide +kernel, by decide +kernel, by decide +kernel⟩,
    ⟨_, x86, by decide +kernel, by decide +kernel, by decide +kernel, by decide +kernel⟩⟩

/-- One task, which disables interrupts. -/
def demoMasked : List (LockOp (Fin 3)) :=
  [.taskCreate (some 1) (some 0) 1 (some 0), .taskStart (some 1), .schedulerStart, .setIrq false]

theorem irq_preserved_masked : ∃ s s', (lockLts (demoConfig .arm64)).Run demoMasked s ∧
    lockStep (demoConfig .arm64) s .taskYield = some s' ∧ s'.sched.currentTask = some 1 ∧
    s'.irq = false := by
  have hrun : (lockLts (demoConfig .arm64)).Run demoMasked _ :=
    Lib.Lts.run_exec_get ⟨true, rfl⟩ (by decide +kernel)
  obtain ⟨s, hrun, hirq, hp, hc, hstep⟩ : ∃ s, (lockLts (demoConfig .arm64)).Run demoMasked s ∧
      s.irq = false ∧ picked (demoConfig .arm64) s.sched .taskYield = some 1 ∧
      s.sched.currentTask = some 1 ∧ ∃ s', lockStep (demoConfig .arm64) s .taskYield = some s' ∧
        s'.sched.currentTask = some 1 :=
    ⟨_, hrun, by decide +kernel, by decide +kernel, by decide +kernel, _,
      (Option.some_get (by decide +kernel)).symm, by decide +kernel⟩
  obtain ⟨s', hs', hc'⟩ := hstep
  have hret : Returns (demoConfig .arm64) s .taskYield false := by
    have hcall : s.callIrq .taskYield = false := hirq
    rw [← hcall]
    exact .running 1 hp hc
  exact ⟨s, s', hrun, hs', hc', irq_preserved hrun hs' hret⟩

end Gracemont
