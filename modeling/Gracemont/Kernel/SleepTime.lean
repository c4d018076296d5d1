/-
  Gracemont kernel — how long a task sleeps (ARM64).

  `task_sleep` keeps the tick at which the task is due modulo `2 ^ 32`, and
  `scheduler_tick` compares it with the counter by plain order: a task whose wake-up
  tick wraps is woken by the next tick.  A task that waits for an object is blocked as
  well, and told apart by `wait_obj`.

  * `Sleepers`, `sleepLts`: the kernel beside the number of ticks, which does not wrap;
  * `TickOnTime`: what a tick has to do;
  * `SleepSafe`: the calls of `task_sleep` where the comparisons are right;
  * `sleep_on_time_of_safe`.
-/
import Gracemont.Kernel.SystemStep

namespace Gracemont

variable {α : Type}

/-! ## The kernel and the ticks -/

/-- The ticks so far, and for each task that went to sleep, and was not made ready since,
    the tick at which it is due. -/
structure Sleepers (α : Type) where
  clock : ℕ
  due : α → Option ℕ

/-- The numbers of ticks that a task may sleep for. -/
def SleepTicks (ticks : ℕ) : Prop := 1 ≤ ticks ∧ ticks < 2 ^ 31

instance (ticks : ℕ) : Decidable (SleepTicks ticks) := inferInstanceAs (Decidable (_ ∧ _))

/-- The task sleeps, and waits for no object. -/
def Asleep (k : Kernel α) (t : α) : Prop :=
  (k.sched.tcb t).state = .blocked ∧ (k.sched.tcb t).waitObj = none

/-- What `scheduler_tick` has to do: the tasks that are due are ready, those that are not
    sleep on, and those that wait for an object wait on. -/
structure TickOnTime (k k' : Kernel α) (z : Sleepers α) : Prop where
  woken : ∀ t, z.due t = some (z.clock + 1) → MadeReady k'.sched t
  asleep : ∀ t d, z.due t = some d → d ≠ z.clock + 1 → Asleep k' t
  waiting : ∀ t, (k.sched.tcb t).state = .blocked → (k.sched.tcb t).waitObj ≠ none →
    (k'.sched.tcb t).state = .blocked ∧ (k'.sched.tcb t).waitObj = (k.sched.tcb t).waitObj

section
variable [DecidableEq α]

/-- What is due after an operation. -/
def sleepNext (k : Kernel α) (op : KernelOp α) (_ : Kernel α) (z : Sleepers α) : Sleepers α :=
  match op, k.sched.currentTask with
  | .sched (.taskSleep ticks), some c =>
    if SleepTicks ticks then
      { z with due := Function.update z.due c (some (z.clock + ticks)) }
    else z
  | .sched .schedulerTick, _ =>
    ⟨z.clock + 1, fun t => if z.due t = some (z.clock + 1) then none else z.due t⟩
  | _, _ => z

/-- The kernel from boot, with the tick counter at any value. -/
def kernelAnyTick (cfg : SchedConfig α) : Lib.Lts (Kernel α) (KernelOp α) where
  init k := (kernelLts cfg).init { k with sched := { k.sched with systemTicks := 0 } } ∧
    k.sched.systemTicks < 2 ^ cfg.port.tickBits
  step := (kernelLts cfg).step

theorem kernelAnyTick_step {cfg : SchedConfig α} (fuel : ℕ) (k : Kernel α) (op : KernelOp α)
    (k' : Kernel α) (h : kernelNext cfg fuel k op = some k') :
    (kernelAnyTick cfg).step k op k' := by
  obtain ⟨⟨k₁, woken⟩, hs, rfl⟩ := Option.map_eq_some_iff.1 h
  exact ⟨fuel, woken, hs⟩

/-- The kernel beside the ticks. -/
def sleepLts (cfg : SchedConfig α) : Lib.Lts (Kernel α × Sleepers α) (KernelOp α) :=
  (kernelAnyTick cfg).track (fun k => ⟨k.sched.systemTicks, fun _ => none⟩) sleepNext

/-- The operations that keep the kernel in order; and the counter does not wrap while a
    task sleeps, unless it does with the next tick. -/
def SleepSafe (cfg : SchedConfig α) (p : Kernel α × Sleepers α) (op : KernelOp α) : Prop :=
  SystemSafe cfg p.1 op ∧ ∀ ticks, op = .sched (.taskSleep ticks) → SleepTicks ticks →
    p.1.sched.systemTicks + ticks < 2 ^ 32 ∨
      p.1.sched.systemTicks = 2 ^ 32 - 1

/-! ## The invariant -/

/-- A task that sleeps until the tick `d`. -/
structure Sleeper (k : Kernel α) (s : Sched α) (clock : ℕ) (t : α) (d : ℕ) : Prop where
  own : k.waiting t = false
  known : t ∈ s.taskTable
  state : (s.tcb t).state = .blocked
  wakeTick : (s.tcb t).wakeTick = d % 2 ^ 32
  later : clock < d
  wrap : (clock + 1) / 2 ^ 32 = d / 2 ^ 32

/-- The invariant of the kernel and the ticks. -/
structure SleepInv (cfg : SchedConfig α) (k : Kernel α) (z : Sleepers α) (s : Sched α)
    (Q : ℕ → List α) : Prop where
  inv : SystemInv cfg k s Q
  counter : s.systemTicks = z.clock % 2 ^ 32
  sleeper : ∀ t d, z.due t = some d → Sleeper k s z.clock t d
  started : ∀ t, z.due t ≠ none → s.currentTask ≠ none

section
variable {cfg : SchedConfig α} {k k' : Kernel α} {z : Sleepers α} {s s' : Sched α}
  {Q Q' : ℕ → List α} {n d fuel : ℕ} {t : α} {op : KernelOp α} {woken : List α}

omit [DecidableEq α] in
theorem Sleeper.stepped (h : Sleeper k s n t d) (hs : Stepped cfg k k' s s' Q') :
    Sleeper k' s' n t d := by
  obtain ⟨hown, hkept⟩ := hs.asleep t h.own h.state
  exact ⟨hown, hs.table t h.known, hkept.state.trans h.state, hkept.wakeTick.trans h.wakeTick,
    h.later, h.wrap⟩

omit [DecidableEq α] in
theorem SleepInv.asleep (h : SleepInv cfg k z s Q) (ht : z.due t = some d) :
    z.clock < d ∧ Asleep k t := by
  have hsl := h.sleeper t d ht
  refine ⟨hsl.later, ?_⟩
  unfold Asleep
  rw [h.inv.outside hsl.own]
  exact ⟨hsl.state, h.inv.own t hsl.own⟩

omit [DecidableEq α] in
theorem SleepInv.now (h : SleepInv cfg k z s Q) (hport : cfg.port = .arm64) :
    tickNow cfg s = (z.clock + 1) % 2 ^ 32 := by
  have hbits : Port.arm64.tickBits = 32 := rfl
  simp only [tickNow, hport, Port.tick, h.counter, hbits]
  omega

omit [DecidableEq α] in
/-- The next tick compares the wake-up tick of a sleeper in order. -/
theorem SleepInv.due_iff (h : SleepInv cfg k z s Q) (hport : cfg.port = .arm64)
    (ht : z.due t = some d) : Due cfg s t ↔ d = z.clock + 1 := by
  have hsl := h.sleeper t d ht
  have hle : (s.tcb t).wakeTick ≤ tickNow cfg s ↔ d ≤ z.clock + 1 := by
    have hwrap := hsl.wrap
    rw [h.now hport, hsl.wakeTick]
    omega
  have hlater := hsl.later
  constructor
  · rintro ⟨-, -, -, hd⟩
    have := hle.1 hd
    omega
  · intro hd
    exact ⟨hsl.known, hsl.state, h.inv.own t hsl.own, hle.2 (by omega)⟩

/-- The kernel at boot. -/
theorem sleepInv_boot (hport : cfg.port = .arm64) (h : (kernelAnyTick cfg).init k) :
    SleepInv cfg k ⟨k.sched.systemTicks, fun _ => none⟩ k.sched fun _ => [] := by
  obtain ⟨⟨hboot, hsem, hmutex, hevent, hmsgq, hpc⟩, hlt⟩ := h
  have hsched : k.sched = { Sched.boot with systemTicks := k.sched.systemTicks } :=
    congrArg (fun s => { s with systemTicks := k.sched.systemTicks }) hboot
  have hown : ∀ t, k.waiting t = false := fun t => Kernel.waiting_own (hpc t)
  have hnot : ∀ {t}, k.waiting t ≠ true := fun {t} ht => by
    rw [hown t] at ht
    cases ht
  have hinv := inv_boot cfg
  have hrest : Resting cfg k.sched fun _ => [] := by
    rw [hsched]
    exact (Resting.of_inv hinv).stay (hinv.toCore.congr rfl rfl (fun _ => rfl) (fun _ => rfl)
      (fun _ => rfl) fun _ => rfl) rfl rfl (fun _ ht => ht) hinv.boot
  refine ⟨⟨(Sched.lost_none hown).symm, hrest, ⟨fun t ht => absurd ht hnot,
    fun t ht => absurd ht hnot, fun t ht => absurd ht hnot⟩, fun c hc => ?_, fun _ => hpc,
    fun t _ => ?_, fun t ht => ?_, fun t u ht => absurd ht hnot, fun i o ho => ?_⟩, ?_,
    fun t d hd => ?_, fun t hd => absurd rfl hd⟩
  · rw [hsched] at hc
    cases hc
  · rw [hsched]
    rfl
  · obtain ⟨i, hi⟩ := ht
    obtain ⟨n, hn⟩ := hsem i
    obtain ⟨buffer, msgSize, capacity, hq⟩ := hmsgq i
    obtain ⟨hsend, hrecv⟩ : (k.msgq i).sendWait = none ∧ (k.msgq i).recvWait = none := by
      unfold msgqInit at hq
      cases buffer with
      | none => cases hq
      | some buffer =>
        dsimp only at hq
        split at hq
        · cases hq
        · rw [← Option.some.inj hq]
          exact ⟨rfl, rfl⟩
    have hsem' : (k.sem i).waitList = none := by rw [hn]; rfl
    have hmutex' : (k.mutex i).waitList = none := by rw [hmutex]; rfl
    have hevent' : (k.event i).waitList = none := by rw [hevent]; rfl
    simp [hsem', hmutex', hevent', hsend, hrecv] at hi
  · rw [hmutex] at ho
    cases ho
  · rw [hport] at hlt
    exact (Nat.mod_eq_of_lt hlt).symm
  · cases hd

omit [DecidableEq α] in
theorem SystemInv.madeReady (h : SystemInv cfg k s Q) (ht : k.waiting t = false)
    (hm : MadeReady s t) : MadeReady k.sched t := by
  unfold MadeReady at hm ⊢
  rw [h.sched, Sched.lost_of_not ht]
  exact hm.imp_left fun ⟨hst, hon⟩ => ⟨hst, Sched.onReadyList_lost.2 hon⟩

/-- Where the tick has a next step, the scheduler was started. -/
theorem SystemInv.tick_started (h : SystemInv cfg k s Q) (hport : cfg.port = .arm64)
    (hs : kernelStep cfg fuel k (.sched .schedulerTick) = some (k', woken)) :
    k.sched.currentTask ≠ none := by
  intro hn
  obtain ⟨sched, hstep, -⟩ := Option.bind_eq_some_iff.1 hs
  have hcur : s.currentTask = none := h.currentTask.symm.trans hn
  have hsame : k.sched = s :=
    h.sched.trans (Sched.lost_none fun t => Kernel.waiting_own (h.boot hcur t))
  have hcore : Core cfg { s with systemTicks := tickNow cfg s } Q :=
    h.resting.toCore.congr rfl rfl (fun _ => rfl) (fun _ => rfl) (fun _ => rfl) fun _ => rfl
  obtain ⟨s₁, Q₁, hs₁, hw, -⟩ := hcore.wakeSleepers (L := s.taskTable) fun _ ht => ht
  have hcur₁ : s₁.currentTask = none := hw.relinked.currentTask.trans hcur
  have htick : Gracemont.schedulerTick cfg s = none := by
    rw [schedulerTick_eq, hs₁, Option.bind_some]
    simp [hcur₁, hport]
  rw [hsame] at hstep
  cases htick.symm.trans hstep

variable (fuel) in
/-- **`scheduler_tick` on time.** -/
theorem SleepInv.tick (h : SleepInv cfg k z s Q) (hport : cfg.port = .arm64)
    (hc : k.sched.currentTask ≠ none) (hsafe : SystemSafe cfg k (.sched .schedulerTick)) :
    ∃ k' s' Q', kernelStep cfg fuel k (.sched .schedulerTick) = some (k', []) ∧
      SleepInv cfg k' (sleepNext k (.sched .schedulerTick) k' z) s' Q' ∧ TickOnTime k k' z := by
  obtain ⟨k', s', Q', hs, hpc, hi, hticks, hcur, htab, hkept, hready⟩ :=
    h.inv.schedulerTick fuel hc hsafe
  have hwait : k'.waiting = k.waiting := by
    funext t
    unfold Kernel.waiting
    rw [hpc]
  have hcounter : s'.systemTicks = (z.clock + 1) % 2 ^ 32 := hticks.trans (h.now hport)
  -- a sleeper that is not due yet
  have hlater : ∀ t d, z.due t = some d → d ≠ z.clock + 1 →
      Sleeper k' s' (z.clock + 1) t d := by
    intro t d hd hne
    have hsl := h.sleeper t d hd
    have hkt := hkept t (h.inv.off (.inr hsl.state)) fun hdue => hne ((h.due_iff hport hd).1 hdue)
    have hlt := hsl.later
    have hwrap := hsl.wrap
    refine ⟨?_, htab t hsl.known, hkt.state.trans hsl.state, hkt.wakeTick.trans hsl.wakeTick,
      ?_, ?_⟩
    · rw [hwait]
      exact hsl.own
    · omega
    · omega
  have hsleep : SleepInv cfg k' (sleepNext k (.sched .schedulerTick) k' z) s' Q' := by
    refine ⟨hi, hcounter, fun t d hd => ?_, fun _ _ => hcur⟩
    simp only [sleepNext] at hd
    split at hd
    · cases hd
    · rename_i hne
      refine hlater t d hd fun he => hne ?_
      rw [hd, he]
  refine ⟨k', s', Q', hs, hsleep, ⟨fun t hd => ?_, fun t d hd hne => ?_, fun t hb hwo => ?_⟩⟩
  · have hown : k'.waiting t = false := by
      rw [hwait]
      exact (h.sleeper t _ hd).own
    exact hi.madeReady hown (hready t ((h.due_iff hport hd).2 rfl))
  · have hsl := hlater t d hd hne
    unfold Asleep
    rw [hi.outside hsl.own]
    exact ⟨hsl.state, hi.own t hsl.own⟩
  · rw [h.inv.sched, Sched.lost_state_iff (by simp) (by simp)] at hb
    rw [h.inv.sched, Sched.lost_waitObj] at hwo ⊢
    have hkt := hkept t (by simp [Off, hb]) fun hdue => hwo hdue.2.2.1
    rw [hi.sched, Sched.lost_state_iff (by simp) (by simp), Sched.lost_waitObj]
    exact ⟨hkt.state.trans hb, hkt.waitObj⟩

/-- **`task_sleep`**: the caller is due after `ticks` ticks. -/
theorem SleepInv.sleep (h : SleepInv cfg k z s Q) (hport : cfg.port = .arm64) {ticks : ℕ}
    (hsafe : SleepSafe cfg (k, z) (.sched (.taskSleep ticks)))
    (hs : kernelStep cfg fuel k (.sched (.taskSleep ticks)) = some (k', woken)) :
    ∃ c s' Q', k.sched.currentTask = some c ∧
      SleepInv cfg k' (sleepNext k (.sched (.taskSleep ticks)) k' z) s' Q' := by
  obtain ⟨c, s', Q', hst, hc, hct, hown, hself⟩ := h.inv.taskSleep hsafe.1 hs
  have hcur : s'.currentTask ≠ none := hst.stays fun hn => by
    rw [h.inv.currentTask, hn] at hc
    cases hc
  refine ⟨c, s', Q', hc, ?_⟩
  have hold : ∀ t d, z.due t = some d → Sleeper k' s' z.clock t d := fun t d hd =>
    (h.sleeper t d hd).stepped hst
  have hcounter := hst.ticks.trans h.counter
  simp only [sleepNext, hc]
  split_ifs with hn
  swap
  · exact ⟨hst.inv, hcounter, hold, fun _ _ => hcur⟩
  refine ⟨hst.inv, hcounter, fun t d hd => ?_, fun _ _ => hcur⟩
  by_cases htc : t = c
  · subst htc
    simp only [Function.update_self] at hd
    obtain rfl := Option.some.inj hd
    have hsafe' := hsafe.2 ticks rfl hn
    have hclock : k.sched.systemTicks = z.clock % 2 ^ 32 := by
      have hk : k.sched.systemTicks = s.systemTicks := by
        rw [h.inv.sched]
        rfl
      rw [hk, h.counter]
    simp only [hclock] at hsafe'
    obtain ⟨hn1, hn2⟩ := hn
    refine ⟨hown, hst.table t hct, ?_, ?_, ?_, ?_⟩
    · rw [hself]
    · have hbits : Port.arm64.tickBits = 32 := rfl
      rw [hself, h.counter, hport, Port.tick, hbits]
      dsimp only
      omega
    · dsimp only
      omega
    · dsimp only
      omega
  · simp only [Function.update_of_ne htc] at hd
    exact hold t d hd

/-- **Every safe operation** keeps the invariant. -/
theorem SleepInv.step (h : SleepInv cfg k z s Q) (hport : cfg.port = .arm64)
    (hsafe : SleepSafe cfg (k, z) op) (hs : kernelStep cfg fuel k op = some (k', woken)) :
    ∃ s' Q', SleepInv cfg k' (sleepNext k op k' z) s' Q' := by
  by_cases htick : op = .sched .schedulerTick
  · subst htick
    obtain ⟨k₁, s', Q', hs₁, h', -⟩ :=
      h.tick fuel hport (h.inv.tick_started hport hs) hsafe.1
    obtain rfl : k₁ = k' := (Prod.mk.inj (Option.some.inj (hs₁.symm.trans hs))).1
    exact ⟨s', Q', h'⟩
  by_cases hsleep : ∃ ticks, op = .sched (.taskSleep ticks)
  · obtain ⟨ticks, rfl⟩ := hsleep
    obtain ⟨-, s', Q', -, h'⟩ := h.sleep hport hsafe hs
    exact ⟨s', Q', h'⟩
  obtain ⟨s', Q', hst⟩ := h.inv.step hport htick hsafe.1 hs
  have hnext : sleepNext k op k' z = z := by
    unfold sleepNext
    split
    · rename_i ticks c _
      exact absurd ⟨ticks, rfl⟩ hsleep
    · exact absurd rfl htick
    · rfl
  rw [hnext]
  exact ⟨s', Q', hst.inv, hst.ticks.trans h.counter, fun t d hd => (h.sleeper t d hd).stepped hst,
    fun t hd => hst.stays (h.started t hd)⟩

/-- Every run whose steps are all safe keeps the invariant. -/
theorem sleep_run (hport : cfg.port = .arm64) {tr : List (KernelOp α)}
    (h : ((sleepLts cfg).restrict (SleepSafe cfg)).Run tr (k, z)) :
    ∃ s Q, SleepInv cfg k z s Q := by
  refine h.rule (P := fun _ p => ∃ s Q, SleepInv cfg p.1 p.2 s Q) ?_ ?_
  · rintro ⟨k, z⟩ ⟨h0, hz⟩
    have hz' : z = ⟨k.sched.systemTicks, fun _ => none⟩ := hz
    rw [hz']
    exact ⟨_, _, sleepInv_boot hport h0⟩
  · rintro tr ⟨k, z⟩ op ⟨k', z'⟩ ⟨s, Q, hI⟩ ⟨hsafe, ⟨fuel, woken, hs⟩, hz⟩
    have hz' : z' = sleepNext k op k' z := hz
    rw [hz']
    exact hI.step hport hsafe hs

/-- **Sleeping on time.**  In every run whose steps are all safe, from any value of the tick
    counter on: a task that calls `task_sleep` is due after as many ticks; it sleeps, and stays
    due, up to the tick at which it is; that tick makes it ready, and no tick makes a task ready
    that waits for an object; and the tick has a next step. -/
theorem sleep_on_time_of_safe (hport : cfg.port = .arm64) {tr : List (KernelOp α)}
    (h : ((sleepLts cfg).restrict (SleepSafe cfg)).Run tr (k, z)) :
    k.sched.systemTicks = z.clock % 2 ^ 32 ∧
    (∀ ticks k' z', SleepTicks ticks → SleepSafe cfg (k, z) (.sched (.taskSleep ticks)) →
      (sleepLts cfg).step (k, z) (.sched (.taskSleep ticks)) (k', z') →
        ∃ c, k.sched.currentTask = some c ∧ z'.due c = some (z.clock + ticks)) ∧
    (∀ t d, z.due t = some d → z.clock < d ∧ Asleep k t) ∧
    (∀ op k' z' t d, SleepSafe cfg (k, z) op → (sleepLts cfg).step (k, z) op (k', z') →
      z.due t = some d →
        z'.due t = some d ∨ (op = .sched .schedulerTick ∧ d = z.clock + 1)) ∧
    (∀ k' z', SleepSafe cfg (k, z) (.sched .schedulerTick) →
      (sleepLts cfg).step (k, z) (.sched .schedulerTick) (k', z') →
        z'.clock = z.clock + 1 ∧ TickOnTime k k' z) ∧
    (k.sched.currentTask ≠ none → SleepSafe cfg (k, z) (.sched .schedulerTick) →
      ∃ p', (sleepLts cfg).step (k, z) (.sched .schedulerTick) p') := by
  obtain ⟨s, Q, hI⟩ := sleep_run hport h
  refine ⟨?_, ?_, fun t d => hI.asleep, ?_, ?_, ?_⟩
  · rw [hI.inv.sched]
    exact hI.counter
  · rintro ticks k' z' hn hsafe ⟨⟨fuel, woken, hs⟩, hz⟩
    obtain ⟨c, -, -, hc, -⟩ := hI.sleep hport hsafe hs
    have hz' : z' = sleepNext k (.sched (.taskSleep ticks)) k' z := hz
    refine ⟨c, hc, ?_⟩
    rw [hz']
    simp [sleepNext, hc, hn]
  · rintro op k' z' t d hsafe ⟨⟨fuel, woken, hs⟩, hz⟩ hd
    have hz' : z' = sleepNext k op k' z := hz
    rw [hz']
    unfold sleepNext
    split
    · rename_i ticks c hc
      -- the caller runs, so that it does not sleep
      have htc : t ≠ c := by
        rintro rfl
        have hrun := hsafe.1.1 t hc
        rw [(hI.asleep hd).2.1] at hrun
        cases hrun
      refine .inl ?_
      split
      · rw [← hd]
        exact Function.update_of_ne htc ..
      · exact hd
    · by_cases he : z.due t = some (z.clock + 1)
      · rw [hd] at he
        exact .inr ⟨rfl, Option.some.inj he⟩
      · refine .inl ?_
        rw [← hd]
        exact if_neg he
    · exact .inl hd
  · rintro k' z' hsafe ⟨⟨fuel, woken, hs⟩, hz⟩
    have hz' : z' = sleepNext k (.sched .schedulerTick) k' z := hz
    obtain ⟨k₁, -, -, hs₁, -, htime⟩ :=
      hI.tick fuel hport (hI.inv.tick_started hport hs) hsafe.1
    obtain rfl : k₁ = k' := (Prod.mk.inj (Option.some.inj (hs₁.symm.trans hs))).1
    refine ⟨?_, htime⟩
    rw [hz']
    rfl
  · intro hc hsafe
    obtain ⟨k', -, -, hs, -⟩ := hI.tick 0 hport hc hsafe.1
    exact ⟨(k', _), ⟨0, [], hs⟩, rfl⟩

/-- **A wake-up tick that wraps**, and not with the next tick, is over at the next one. -/
theorem sleep_early_of_wrap (hport : cfg.port = .arm64) {tr : List (KernelOp α)}
    (h : ((sleepLts cfg).restrict (SleepSafe cfg)).Run tr (k, z)) {ticks : ℕ}
    (hn : SleepTicks ticks) (hsafe : SystemSafe cfg k (.sched (.taskSleep ticks)))
    (hwrap : 2 ^ 32 ≤ k.sched.systemTicks + ticks)
    (hnext : k.sched.systemTicks ≠ 2 ^ 32 - 1) {k₁ : Kernel α} {z₁ : Sleepers α}
    (hs : (sleepLts cfg).step (k, z) (.sched (.taskSleep ticks)) (k₁, z₁))
    (hsafe₁ : SystemSafe cfg k₁ (.sched .schedulerTick)) :
    1 < ticks ∧ ∃ c k₂ z₂, k.sched.currentTask = some c ∧
      (sleepLts cfg).step (k₁, z₁) (.sched .schedulerTick) (k₂, z₂) ∧ MadeReady k₂.sched c := by
  obtain ⟨s, Q, hI⟩ := sleep_run hport h
  obtain ⟨⟨fuel, woken, hs⟩, -⟩ := hs
  obtain ⟨c, s', Q', hst, hc, hct, hown, hself⟩ := hI.inv.taskSleep hsafe hs
  have hcur : k₁.sched.currentTask ≠ none := by
    rw [hst.inv.currentTask]
    refine hst.stays fun hnone => ?_
    rw [hI.inv.currentTask, hnone] at hc
    cases hc
  have hticks : k.sched.systemTicks = s.systemTicks := by
    rw [hI.inv.sched]
    rfl
  rw [hticks] at hwrap hnext
  obtain ⟨k₂, s₂, Q₂, hs₂, hpc, hi, -, -, -, -, hready⟩ :=
    hst.inv.schedulerTick fuel hcur hsafe₁
  have hbits : Port.arm64.tickBits = 32 := rfl
  have hlt : s.systemTicks < 2 ^ 32 := by
    rw [hI.counter]
    exact Nat.mod_lt _ (by decide)
  have hnow : tickNow cfg s' = s.systemTicks + 1 := by
    simp only [tickNow, hport, hst.ticks, Port.tick, hbits]
    omega
  have hdue : Due cfg s' c := by
    refine ⟨hst.table c hct, ?_, hst.inv.own c hown, ?_⟩
    · rw [hself]
    · obtain ⟨hn1, hn2⟩ := hn
      rw [hself, hnow, hport, Port.tick, hbits]
      dsimp only
      omega
  have hown₂ : k₂.waiting c = false := by
    unfold Kernel.waiting at hown ⊢
    rwa [hpc]
  refine ⟨?_, c, k₂, _, hc, ⟨⟨fuel, [], hs₂⟩, rfl⟩, hi.madeReady hown₂ (hready c hdue)⟩
  omega

end

end

/-- The kernel at boot, with the tick counter at `ticks`. -/
def demoKernelAt (ticks : ℕ) : Kernel (Fin 3) :=
  { demoKernel with sched := { Sched.boot with systemTicks := ticks } }

theorem demoKernelAt_init {ticks : ℕ} (h : ticks < 2 ^ 32) :
    (kernelAnyTick (demoConfig .arm64)).init (demoKernelAt ticks) :=
  ⟨⟨rfl, fun _ => ⟨0, rfl⟩, fun _ => rfl, fun _ => rfl, fun _ => ⟨some fun _ => 0, 1, 1, rfl⟩,
    fun _ => rfl⟩, h⟩

/-- A task alone goes to sleep. -/
def demoSleep (ticks : ℕ) : List (KernelOp (Fin 3)) :=
  [.sched (.taskCreate (some 1) (some 0) 1 (some 0)), .sched (.taskStart (some 1)),
    .sched .schedulerStart, .sched (.taskSleep ticks)]

theorem demoSleep_runs :
    (Lib.Lts.exec (Lib.Lts.trackFun (kernelNext (demoConfig .arm64) 0) sleepNext)
      (demoKernelAt 5, ⟨5, fun _ => none⟩) (demoSleep 1)).isSome := by
  decide +kernel

/-- A task that sleeps for one tick is made ready by the next one. -/
theorem sleep_on_time_of_safe_next : ∃ p p', Lib.Lts.exec
      (Lib.Lts.trackFun (kernelNext (demoConfig .arm64) 0) sleepNext)
      (demoKernelAt 5, ⟨5, fun _ => none⟩) (demoSleep 1) = some p ∧
    (sleepLts (demoConfig .arm64)).step p (.sched .schedulerTick) p' ∧
    MadeReady p'.1.sched 1 := by
  have hget := (Option.some_get demoSleep_runs).symm
  have hrun : ((sleepLts (demoConfig .arm64)).restrict (SleepSafe (demoConfig .arm64))).Run
      (demoSleep 1) (Option.get _ demoSleep_runs) := by
    refine Lib.Lts.run_exec_track (kernelAnyTick_step 0) (demoKernelAt_init (by decide : 5 < 2 ^ 32)) hget fun i hi => ?_
    have hi : i = 0 ∨ i = 1 ∨ i = 2 ∨ i = 3 := by
      simp only [demoSleep, List.length_cons, List.length_nil] at hi
      omega
    rcases hi with rfl | rfl | rfl | rfl
    · refine ⟨?_, fun ticks he => ?_⟩
      · rintro t ⟨⟩
        decide +kernel
      · cases he
    · refine ⟨trivial, fun ticks he => ?_⟩
      cases he
    · refine ⟨trivial, fun ticks he => ?_⟩
      cases he
    · refine ⟨⟨?_, fun h0 => absurd h0 ?_⟩, fun ticks he _ => .inl ?_⟩
      · decide +kernel
      · decide +kernel
      · cases he
        decide +kernel
  generalize hp : Option.get _ demoSleep_runs = p at hget hrun
  have hcur : p.1.sched.currentTask = some 0 := by
    subst hp
    decide +kernel
  have hdue : p.2.due 1 = some (p.2.clock + 1) := by
    subst hp
    decide +kernel
  have hsafe : SleepSafe (demoConfig .arm64) p (.sched .schedulerTick) := by
    refine ⟨fun c hc hci => absurd ?_ hci, fun ticks he => ?_⟩
    · exact Option.some.inj (hc.symm.trans hcur)
    · cases he
  obtain ⟨-, -, -, -, htick, hnext⟩ := sleep_on_time_of_safe rfl hrun
  obtain ⟨p', hp'⟩ := hnext (by simp [hcur]) hsafe
  exact ⟨p, p', hget, hp', (htick _ _ hsafe hp').2.woken 1 hdue⟩

theorem demoSleepWrap_runs :
    (Lib.Lts.exec (Lib.Lts.trackFun (kernelNext (demoConfig .arm64) 0) sleepNext)
      (demoKernelAt 4294967286, ⟨4294967286, fun _ => none⟩) (demoSleep 12)).isSome := by
  decide +kernel

theorem demoSleepWrap_ticks : (Lib.Lts.trackFun (kernelNext (demoConfig .arm64) 0) sleepNext
    (Option.get _ demoSleepWrap_runs) (.sched .schedulerTick)).isSome := by
  decide +kernel

/-- **A wake-up tick that wraps**: ten ticks before the counter wraps a task goes to sleep for
    twelve ticks, and the next tick makes it ready. -/
theorem demoSleepWrap_early : ∃ p p', (sleepLts (demoConfig .arm64)).Run (demoSleep 12) p ∧
    (sleepLts (demoConfig .arm64)).step p (.sched .schedulerTick) p' ∧
    p.2.due 1 = some (p.2.clock + 12) ∧ ¬ TickOnTime p.1 p'.1 p.2 := by
  have hrun : (sleepLts (demoConfig .arm64)).Run (demoSleep 12) _ :=
    Lib.Lts.run_of_exec_track (kernelAnyTick_step 0) (demoKernelAt_init (by decide : 4294967286 < 2 ^ 32))
      (Option.some_get demoSleepWrap_runs).symm
  obtain ⟨k', hk', hp'⟩ := Option.map_eq_some_iff.1 (Option.some_get demoSleepWrap_ticks).symm
  refine ⟨_, (k', _), hrun, ⟨kernelAnyTick_step 0 _ _ _ hk', rfl⟩, by decide +kernel, fun h => ?_⟩
  have hdue : (Option.get _ demoSleepWrap_runs).2.due 1 = some 4294967298 := by decide +kernel
  have hready : ((Option.get _ demoSleepWrap_ticks).1.sched.tcb 1).state = .ready := by
    decide +kernel
  have hsleep := (h.asleep 1 _ hdue (by decide +kernel)).1
  rw [← hp'] at hready
  cases hsleep.symm.trans hready

end Gracemont
