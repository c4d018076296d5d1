/-
  Gracemont kernel — the scheduler beside tasks that were woken (ARM64).

  In this port a task that is taken off a wait list is ready, but on no ready list
  (`System`).  To the scheduler it is as good as terminated: `Sched.lost` makes the
  one state from the other, and the functions of the scheduler do the same in both
  (`step_lost`).
-/
import Gracemont.Kernel.X86System
import Gracemont.Kernel.WaitLists

namespace Gracemont

variable {α : Type}

/-- The tasks of `D` that count as terminated are ready, on no ready list. -/
def Sched.lost (D : α → Bool) (s : Sched α) : Sched α :=
  { s with tcb := fun t =>
      if (D t ∧ (s.tcb t).state = .terminated) then { s.tcb t with state := .ready }
      else s.tcb t }

namespace Sched
variable {D : α → Bool} {s : Sched α} {t : α} {f : Tcb α → Tcb α}

@[simp] theorem lost_readyList : (s.lost D).readyList = s.readyList := rfl
@[simp] theorem lost_currentTask : (s.lost D).currentTask = s.currentTask := rfl
@[simp] theorem lost_taskTable : (s.lost D).taskTable = s.taskTable := rfl
@[simp] theorem lost_systemTicks : (s.lost D).systemTicks = s.systemTicks := rfl
@[simp] theorem lost_schedulerRunning : (s.lost D).schedulerRunning = s.schedulerRunning := rfl

theorem lost_of_not (h : D t = false) : (s.lost D).tcb t = s.tcb t := by
  simp [lost, h]

theorem lost_of_ne (h : (s.tcb t).state ≠ .terminated) : (s.lost D).tcb t = s.tcb t := by
  simp [lost, h]

theorem lost_of_terminated (h : D t = true) (ht : (s.tcb t).state = .terminated) :
    (s.lost D).tcb t = { s.tcb t with state := .ready } := by
  simp [lost, h, ht]

/-- What does not depend on the state of a task. -/
theorem lost_field {γ : Type} (g : Tcb α → γ) (hg : ∀ c st, g { c with state := st } = g c)
    (t : α) : g ((s.lost D).tcb t) = g (s.tcb t) := by
  simp only [lost]
  split
  · exact hg _ _
  · rfl

@[simp] theorem lost_next (t : α) : ((s.lost D).tcb t).next = (s.tcb t).next :=
  lost_field Tcb.next (fun _ _ => rfl) t

@[simp] theorem lost_prev (t : α) : ((s.lost D).tcb t).prev = (s.tcb t).prev :=
  lost_field Tcb.prev (fun _ _ => rfl) t

@[simp] theorem lost_priority (t : α) : ((s.lost D).tcb t).priority = (s.tcb t).priority :=
  lost_field Tcb.priority (fun _ _ => rfl) t

@[simp] theorem lost_waitObj (t : α) : ((s.lost D).tcb t).waitObj = (s.tcb t).waitObj :=
  lost_field Tcb.waitObj (fun _ _ => rfl) t

@[simp] theorem lost_wakeTick (t : α) : ((s.lost D).tcb t).wakeTick = (s.tcb t).wakeTick :=
  lost_field Tcb.wakeTick (fun _ _ => rfl) t

@[simp] theorem lost_remainingSlice (t : α) :
    ((s.lost D).tcb t).remainingSlice = (s.tcb t).remainingSlice :=
  lost_field Tcb.remainingSlice (fun _ _ => rfl) t

theorem lost_setReady (p : ℕ) (head : Option α) :
    (s.setReady p head).lost D = (s.lost D).setReady p head := rfl

/-- States other than `TASK_READY` and `TASK_TERMINATED` are the same. -/
theorem lost_state_iff {st : TaskState} (hr : st ≠ .ready) (ht : st ≠ .terminated) :
    ((s.lost D).tcb t).state = st ↔ (s.tcb t).state = st := by
  by_cases hl : D t = true ∧ (s.tcb t).state = .terminated
  · rw [lost_of_terminated hl.1 hl.2, hl.2]
    exact iff_of_false (Ne.symm hr) (Ne.symm ht)
  · have hsame : (s.lost D).tcb t = s.tcb t := if_neg hl
    rw [hsame]

theorem lost_none (h : ∀ t, D t = false) : s.lost D = s := by
  have htcb : (s.lost D).tcb = s.tcb := funext fun t => lost_of_not (h t)
  exact congrArg (fun m => { s with tcb := m }) htcb

theorem onReadyList_lost {p : ℕ} : OnReadyList (s.lost D) p t ↔ OnReadyList s p t := by
  have hnext : (s.lost D).tcb.next = s.tcb.next := funext lost_next
  have hprev : (s.lost D).tcb.prev = s.tcb.prev := funext lost_prev
  unfold OnReadyList
  rw [hnext, hprev, lost_readyList]

theorem due_lost {cfg : SchedConfig α} : Due cfg (s.lost D) t ↔ Due cfg s t := by
  have hst : ((s.lost D).tcb t).state = .blocked ↔ (s.tcb t).state = .blocked :=
    lost_state_iff (by simp) (by simp)
  unfold Due
  rw [hst, lost_waitObj, lost_wakeTick, lost_taskTable]
  rfl

theorem idleLast_lost {cfg : SchedConfig α} {due due' : α → Prop}
    (h : X86.IdleLast cfg (s.lost D) due) (hdue : ∀ t, due t → due' t) :
    X86.IdleLast cfg s due' := by
  intro h0
  obtain ⟨t, hti, hon, hpt⟩ := h h0
  rw [lost_priority] at hpt
  refine ⟨t, hti, hon.imp (fun ⟨p, hp⟩ => ⟨p, onReadyList_lost.1 hp⟩) (hdue t), hpt⟩

variable [DecidableEq α]

/-- An assignment to a task outside `D`. -/
theorem lost_modify (h : D t = false) (f : Tcb α → Tcb α) :
    (s.modify t f).lost D = (s.lost D).modify t f := by
  have htcb : ((s.modify t f).lost D).tcb = ((s.lost D).modify t f).tcb := by
    funext x
    by_cases hx : x = t
    · subst hx
      simp [lost, h]
    · simp [lost, hx]
  exact congrArg (fun m => { s with tcb := m }) htcb

/-- An assignment to other fields than the state. -/
theorem lost_relink (t : α) (hst : ∀ c, (f c).state = c.state)
    (hf : ∀ c st, f { c with state := st } = { f c with state := st }) :
    (s.modify t f).lost D = (s.lost D).modify t f := by
  have htcb : ((s.modify t f).lost D).tcb = ((s.lost D).modify t f).tcb := by
    funext x
    by_cases hx : x = t
    · subst hx
      rw [modify_tcb, Lib.Store.modify_self]
      have hself : (s.modify x f).tcb x = f (s.tcb x) := Lib.Store.modify_self ..
      by_cases hl : D x = true ∧ (s.tcb x).state = .terminated
      · rw [lost_of_terminated hl.1 hl.2, hf, lost_of_terminated hl.1 (by rw [hself, hst, hl.2]),
          hself]
      · have hl' : ¬ (D x = true ∧ ((s.modify x f).tcb x).state = .terminated) := by
          rw [hself, hst]
          exact hl
        exact (if_neg hl').trans (hself.trans (congrArg f (if_neg hl).symm))
    · simp [lost, hx]
  exact congrArg (fun m => { s with tcb := m }) htcb

end Sched

/-! ## The functions of the scheduler -/

section
variable [DecidableEq α] {cfg : SchedConfig α} {D : α → Bool} {s : Sched α} {t : α}

theorem readyListAdd_lost (h : D t = false) :
    readyListAdd (s.lost D) t = (readyListAdd s t).map (Sched.lost D) := by
  unfold readyListAdd
  simp only [Sched.modify_readyList, Sched.lost_readyList, Sched.lost_priority]
  rw [← Sched.lost_modify h]
  cases hhd : s.readyList (s.tcb t).priority with
  | none =>
    dsimp only
    rw [← Sched.lost_setReady, ← Sched.lost_modify h]
    rfl
  | some head =>
    simp only [← Sched.lost_modify h, Sched.lost_prev]
    generalize ((s.modify t _).modify t _).modify t _ = s₁
    cases (s₁.tcb head).prev with
    | none => rfl
    | some tail =>
      simp only [Option.bind_eq_bind, Option.bind_some, Option.map_some]
      rw [← Sched.lost_relink, ← Sched.lost_relink]
      all_goals simp

theorem readyListRemove_lost (t : α) :
    readyListRemove (s.lost D) t = (readyListRemove s t).map (Sched.lost D) := by
  unfold readyListRemove
  simp only [Sched.lost_priority, Sched.lost_next, Sched.lost_prev]
  by_cases halone : (s.tcb t).next = some t
  · simp only [if_pos halone, ← Sched.lost_setReady, Option.bind_eq_bind, Option.bind_some,
      Option.map_some]
    rw [← Sched.lost_relink]
    all_goals simp
  simp only [if_neg halone]
  cases hp : (s.tcb t).prev with
  | none => rfl
  | some p =>
    simp only [Option.bind_eq_bind, Option.bind_some]
    rw [← Sched.lost_relink _ (by simp) (by simp)]
    simp only [Sched.lost_next, Sched.lost_prev]
    generalize s.modify p _ = s₁
    cases (s₁.tcb t).next with
    | none => rfl
    | some n =>
      simp only [Option.bind_some]
      rw [← Sched.lost_relink _ (by simp) (by simp)]
      generalize s₁.modify n _ = s₂
      simp only [Sched.lost_readyList, Sched.lost_next]
      by_cases hhd : s₂.readyList (s.tcb t).priority = some t
      · simp only [if_pos hhd, ← Sched.lost_setReady, Option.map_some]
        rw [← Sched.lost_relink _ (by simp) (by simp)]
      · simp only [if_neg hhd, Option.map_some]
        rw [← Sched.lost_relink _ (by simp) (by simp)]

theorem taskCreate_systemTicks (cfg : SchedConfig α) (s : Sched α) (tcb : Option α)
    (entry : Option ℕ) (priority : ℕ) (stack : Option ℕ) :
    (taskCreate cfg s tcb entry priority stack).1.systemTicks = s.systemTicks := by
  unfold taskCreate
  cases tcb with
  | none => rfl
  | some t =>
    dsimp only
    split_ifs
    · rfl
    · rfl
    · rfl
    · rfl

theorem taskCreate_lost {tcb : Option α} {entry : Option ℕ} {priority : ℕ} {stack : Option ℕ}
    (h : ∀ t, tcb = some t → entry ≠ none → stack ≠ none → priority < cfg.maxPriority →
      s.taskTable.length < cfg.maxTasks → D t = false) :
    taskCreate cfg (s.lost D) tcb entry priority stack =
      ((taskCreate cfg s tcb entry priority stack).1.lost D,
        (taskCreate cfg s tcb entry priority stack).2) := by
  unfold taskCreate
  cases tcb with
  | none => rfl
  | some t =>
    dsimp only
    by_cases h1 : entry = none ∨ stack = none
    · rw [if_pos h1, if_pos h1]
    by_cases h2 : cfg.maxPriority ≤ priority
    · rw [if_neg h1, if_pos h2, if_neg h1, if_pos h2]
    by_cases h3 : cfg.maxTasks ≤ s.taskTable.length
    · have h3' : cfg.maxTasks ≤ (s.lost D).taskTable.length := h3
      rw [if_neg h1, if_neg h2, if_pos h3', if_neg h1, if_neg h2, if_pos h3]
    have h3' : ¬ cfg.maxTasks ≤ (s.lost D).taskTable.length := h3
    have hD : D t = false :=
      h t rfl (fun he => h1 (.inl he)) (fun he => h1 (.inr he)) (by omega) (by omega)
    rw [if_neg h1, if_neg h2, if_neg h3', if_neg h1, if_neg h2, if_neg h3, ← Sched.lost_modify hD,
      ← Sched.lost_modify hD]
    rfl

end

/-! ## What a call leaves alone -/

/-- The task is neither ready nor running. -/
def Off (m : Tcbs α) (t : α) : Prop := (m t).state ≠ .ready ∧ (m t).state ≠ .running

/-- The block of `t` has the same state and waits for the same as before. -/
structure Kept (m m' : Tcbs α) (t : α) : Prop where
  state : (m' t).state = (m t).state
  waitObj : (m' t).waitObj = (m t).waitObj
  wakeTick : (m' t).wakeTick = (m t).wakeTick
  next : (m' t).next = (m t).next

namespace Kept
variable {m m' m'' : Tcbs α} {t : α}

theorem of_eq (h : m' t = m t) : Kept m m' t := by
  constructor
  all_goals rw [h]

theorem trans (h : Kept m m' t) (h' : Kept m' m'' t) : Kept m m'' t :=
  ⟨h'.state.trans h.state, h'.waitObj.trans h.waitObj, h'.wakeTick.trans h.wakeTick,
    h'.next.trans h.next⟩

theorem off (h : Kept m m' t) (ht : Off m t) : Off m' t := by
  unfold Off
  rw [h.state]
  exact ht

end Kept

section
variable [DecidableEq α] {cfg : SchedConfig α} {s s' : Sched α} {Q : ℕ → List α} {x : α}

omit [DecidableEq α] in
theorem Core.ne_idle (h : Core cfg s Q) (hx : Off s.tcb x) : x ≠ cfg.idleTcb := by
  rintro rfl
  rcases h.idleState with hi | hi
  · exact hx.1 hi
  · exact hx.2 hi

/-- **`schedule_locked`** writes to ready tasks and the idle task. -/
theorem scheduleLocked_apart (h : Core cfg s Q) (hs : scheduleLocked cfg s = some s')
    (hx : Off s.tcb x) : s'.tcb x = s.tcb x := by
  obtain ⟨-, rfl⟩ | ⟨-, s₁, hs₁, rfl⟩ := scheduleLocked_cases hs
  · rfl
  by_cases hi : getHighestReady cfg s = cfg.idleTcb
  · rw [if_pos hi] at hs₁
    cases hs₁
    simp [hi, h.ne_idle hx]
  · rw [if_neg hi] at hs₁
    obtain ⟨p, t, l, hQ, -, ht⟩ := h.highest.resolve_left fun he => hi he.2
    rw [ht] at hs₁ ⊢
    have htm : t ∈ Q p := by simp [hQ]
    have hxQ : ∀ q, x ∉ Q q := h.not_mem hx.1
    have hxt : x ≠ t := fun he => hxQ p (he ▸ htm)
    dsimp only [Sched.modify_tcb]
    rw [Lib.Store.modify_of_ne _ hxt]
    refine readyListRemove_of_ne hs₁ hxt (fun he => ?_) fun he => ?_
    · exact hxQ p ((h.queues.ring p).prev_mem htm he)
    · exact hxQ p ((h.queues.ring p).next_mem htm he)

theorem scheduleLocked_vars (h : Core cfg s Q) (hs : scheduleLocked cfg s = some s') :
    s'.taskTable = s.taskTable ∧ s'.systemTicks = s.systemTicks := by
  obtain ⟨-, rfl⟩ | ⟨-, s₁, hs₁, rfl⟩ := scheduleLocked_cases hs
  · exact ⟨rfl, rfl⟩
  by_cases hi : getHighestReady cfg s = cfg.idleTcb
  · rw [if_pos hi] at hs₁
    cases hs₁
    exact ⟨rfl, rfl⟩
  · rw [if_neg hi] at hs₁
    obtain ⟨p, t, l, hQ, -, ht⟩ := h.highest.resolve_left fun he => hi he.2
    rw [ht] at hs₁
    obtain ⟨-, hrel, -⟩ := readyListRemove_of_head h.queues hQ hs₁
    exact ⟨hrel.taskTable, hrel.systemTicks⟩

/-- **`task_yield`** writes to ready tasks, the idle task and a running caller. -/
theorem taskYield_apart (h : Core cfg s Q) {c : α} (hc : s.currentTask = some c)
    (hk : c ∈ s.taskTable ∨ c = cfg.idleTcb) (hcp : (s.tcb c).priority < cfg.maxPriority)
    (hs : taskYield cfg s = some s') :
    s'.taskTable = s.taskTable ∧ s'.systemTicks = s.systemTicks ∧
      ∀ x, Off s.tcb x → s'.tcb x = s.tcb x := by
  by_cases hst : (s.tcb c).state = .running
  · obtain ⟨s₁, hs₁, hy, h₁, hrel, -⟩ := h.requeue hc hst hk hcp
    rw [hy] at hs
    obtain ⟨htab, hticks⟩ := scheduleLocked_vars h₁ hs
    refine ⟨htab.trans hrel.taskTable, hticks.trans hrel.systemTicks, fun x hx => ?_⟩
    have hxc : x ≠ c := by
      rintro rfl
      exact hx.2 hst
    have hadd : s₁.tcb x = s.tcb x :=
      readyListAdd_frame h.queues (h.not_mem (by simp [hst])) (h.not_mem hx.1) hxc hs₁
    exact (scheduleLocked_apart h₁ hs ((Kept.of_eq hadd).off hx)).trans hadd
  · have hy : taskYield cfg s = scheduleLocked cfg s := by simp [taskYield, hc, hst]
    rw [hy] at hs
    obtain ⟨htab, hticks⟩ := scheduleLocked_vars h hs
    exact ⟨htab, hticks, fun x hx => scheduleLocked_apart h hs hx⟩

/-- **The first loop of `scheduler_tick`** writes to ready tasks and to tasks whose
    sleep is over. -/
theorem wakeSleepers_apart {L : List α} (h : Core cfg s Q) (hL : ∀ t ∈ L, t ∈ s.taskTable)
    (hs : L.foldlM wakeSleeper s = some s') (hx : (s.tcb x).state ≠ .ready)
    (hdue : (s.tcb x).state = .blocked → (s.tcb x).waitObj = none →
      ¬ (s.tcb x).wakeTick ≤ s.systemTicks) : s'.tcb x = s.tcb x := by
  refine (h.wakeSleepers_rule (P := fun s₁ => s₁.tcb x = s.tcb x ∧ s₁.systemTicks = s.systemTicks)
    ?_ hL ⟨rfl, rfl⟩ hs).1
  intro s₁ s₂ Q₁ Q₂ t h₁ hP hs₂ hw
  obtain ⟨htcb, hticks⟩ := hP
  refine ⟨?_, hw.relinked.systemTicks.trans hticks⟩
  rw [← htcb] at hx hdue ⊢
  rw [← hticks] at hdue
  unfold wakeSleeper at hs₂
  split_ifs at hs₂ with hb hd
  · refine readyListAdd_frame h₁.queues (h₁.not_mem (by simp [hb.1])) (h₁.not_mem hx) ?_ hs₂
    rintro rfl
    exact hdue hb.1 hb.2 hd
  · cases hs₂
    rfl
  · cases hs₂
    rfl
  · cases hs₂
    rfl

/-- **`scheduler_start`** writes to the idle task and to ready tasks. -/
theorem schedulerStart_apart (h : Inv cfg s Q) (hi : ∀ p, cfg.idleTcb ∉ Q p)
    (hs : schedulerStart cfg s = some s') :
    (∀ t ∈ s.taskTable, t ∈ s'.taskTable) ∧ s'.systemTicks = s.systemTicks ∧
      ∀ x, Off s.tcb x → s'.tcb x = s.tcb x := by
  have h₁ := h.createIdle hi
  obtain ⟨-, -, htab⟩ := @taskCreate_scheduler _ cfg s _ (some cfg.idleTcb) (some 0) 0 (some 0)
  have hticks := taskCreate_systemTicks cfg s (some cfg.idleTcb) (some 0) 0 (some 0)
  have hapart : ∀ x, Off s.tcb x →
      ((taskCreate cfg s (some cfg.idleTcb) (some 0) 0 (some 0)).1.modify cfg.idleTcb
        fun t => { t with state := .ready }).tcb x = s.tcb x := by
    intro x hx
    have hxi := h.toCore.ne_idle hx
    rw [Sched.modify_tcb, Lib.Store.modify_of_ne _ hxi]
    refine taskCreate_of_ne fun t ht _ _ _ _ => ?_
    rwa [← Option.some.inj ht]
  unfold schedulerStart at hs
  simp only at hs
  generalize hs₁ : (taskCreate cfg s (some cfg.idleTcb) (some 0) 0 (some 0)).1.modify cfg.idleTcb
    (fun t => { t with state := .ready }) = s₁ at hs h₁ hapart
  have htab₁ : ∀ t ∈ s.taskTable, t ∈ s₁.taskTable := by
    rw [← hs₁]
    exact htab
  have hticks₁ : s₁.systemTicks = s.systemTicks := by
    rw [← hs₁]
    exact hticks
  by_cases hid : getHighestReady cfg s₁ = cfg.idleTcb
  · simp only [hid, if_true, Option.bind_eq_bind, Option.bind_some] at hs
    cases hs
    refine ⟨htab₁, hticks₁, fun x hx => ?_⟩
    dsimp only [Sched.modify_tcb]
    rw [Lib.Store.modify_of_ne _ (h.toCore.ne_idle hx)]
    exact hapart x hx
  · obtain ⟨p, t, l, hQ, -, ht⟩ := h₁.highest.resolve_left fun he => hid he.2
    rw [ht] at hid hs
    simp only [if_neg hid, Option.bind_eq_bind] at hs
    obtain ⟨s₂, hs₂, hs⟩ := Option.bind_eq_some_iff.1 hs
    obtain ⟨-, hrel, -⟩ := readyListRemove_of_head
      (h₁.setCurrent (some t) s₁.schedulerRunning).queues hQ hs₂
    cases hs
    refine ⟨fun x hx => ?_, hrel.systemTicks.trans hticks₁, fun x hx => ?_⟩
    · exact hrel.taskTable.symm ▸ htab₁ x hx
    · have hx₁ : Off s₁.tcb x := (Kept.of_eq (hapart x hx)).off hx
      have hxQ : ∀ q, x ∉ Q q := h₁.not_mem hx₁.1
      have htm : t ∈ Q p := by simp [hQ]
      have hxt : x ≠ t := fun he => hxQ p (he ▸ htm)
      dsimp only [Sched.modify_tcb]
      rw [Lib.Store.modify_of_ne _ hxt]
      refine (readyListRemove_of_ne hs₂ hxt (fun he => ?_) fun he => ?_).trans (hapart x hx)
      · exact hxQ p ((h₁.queues.ring p).prev_mem htm he)
      · exact hxQ p ((h₁.queues.ring p).next_mem htm he)

/-- **`schedule_locked`** changes the state of the task that it switches to. -/
theorem scheduleLocked_state (h : Core cfg s Q) (hs : scheduleLocked cfg s = some s') (x : α) :
    (s'.tcb x).state = (s.tcb x).state ∨
      (s'.currentTask = some x ∧ (s'.tcb x).state = .running) := by
  obtain ⟨-, rfl⟩ | ⟨-, s₁, hs₁, rfl⟩ := scheduleLocked_cases hs
  · exact .inl rfl
  by_cases hxn : x = getHighestReady cfg s
  · subst hxn
    exact .inr ⟨rfl, by simp⟩
  refine .inl ?_
  dsimp only [Sched.modify_tcb]
  rw [Lib.Store.modify_of_ne _ hxn]
  by_cases hi : getHighestReady cfg s = cfg.idleTcb
  · rw [if_pos hi] at hs₁
    cases hs₁
    rfl
  · rw [if_neg hi] at hs₁
    obtain ⟨p, t, l, hQ, -, ht⟩ := h.highest.resolve_left fun he => hi he.2
    rw [ht] at hs₁
    exact (readyListRemove_of_head h.queues hQ hs₁).2.2 x

theorem taskYield_state (h : Core cfg s Q) {c : α} (hc : s.currentTask = some c)
    (hk : c ∈ s.taskTable ∨ c = cfg.idleTcb) (hcp : (s.tcb c).priority < cfg.maxPriority)
    (hs : taskYield cfg s = some s') (hxc : x ≠ c) :
    (s'.tcb x).state = (s.tcb x).state ∨
      (s'.currentTask = some x ∧ (s'.tcb x).state = .running) := by
  by_cases hst : (s.tcb c).state = .running
  · obtain ⟨s₁, hs₁, hy, h₁, -⟩ := h.requeue hc hst hk hcp
    obtain ⟨s₂, hs₂, -, -, hst₂⟩ := h.add (h.not_mem (by simp [hst])) hk hcp
    obtain rfl : s₁ = s₂ := Option.some.inj (hs₁.symm.trans hs₂)
    have hx := hst₂ x
    rw [if_neg hxc] at hx
    rw [hy] at hs
    rw [← hx]
    exact scheduleLocked_state h₁ hs x
  · have hy : taskYield cfg s = scheduleLocked cfg s := by simp [taskYield, hc, hst]
    rw [hy] at hs
    exact scheduleLocked_state h hs x

end

theorem taskYield_currentTask [DecidableEq α] {cfg : SchedConfig α} {s s' : Sched α}
    (hs : taskYield cfg s = some s') : s'.currentTask ≠ none := by
  obtain ⟨c, -, hs⟩ := Option.bind_eq_some_iff.1 hs
  obtain ⟨s₁, hs⟩ : ∃ s₁, scheduleLocked cfg s₁ = some s' := by
    by_cases hst : (s.tcb c).state = .running
    · simp only [hst, if_true] at hs
      obtain ⟨s₁, -, hs⟩ := Option.bind_eq_some_iff.1 hs
      exact ⟨_, hs⟩
    · simp only [hst, if_false] at hs
      exact ⟨_, hs⟩
  rw [scheduleLocked_currentTask hs]
  simp

/-- The assignments to the counters of a block. -/
structure Neutral (f : Tcb α → Tcb α) : Prop extends Counts f where
  wakeTick : ∀ t, (f t).wakeTick = t.wakeTick
  comm : ∀ t st, f { t with state := st } = { f t with state := st }

theorem Neutral.kept [DecidableEq α] {f : Tcb α → Tcb α} (hf : Neutral f) {m : Tcbs α} {c : α}
    (x : α) : Kept m (m.modify c f) x :=
  ⟨m.modify_field Tcb.state _ (hf.state _) x, m.modify_field Tcb.waitObj _ (hf.waitObj _) x,
    m.modify_field Tcb.wakeTick _ (hf.wakeTick _) x, m.modify_field Tcb.next _ (hf.next _) x⟩

theorem Sched.modify_modify [DecidableEq α] (s : Sched α) (t : α) (f g : Tcb α → Tcb α) :
    (s.modify t f).modify t g = s.modify t fun x => g (f x) :=
  congrArg (fun tcb => { s with tcb := tcb }) (Lib.Store.modify_modify s.tcb t f g)

/-- The time slice management counts, and goes to `task_yield` at the end of the
    slice. -/
theorem tickSlice_neutral [DecidableEq α] (cfg : SchedConfig α) (c : α) :
    ∃ f g : Tcb α → Tcb α, Neutral f ∧ Neutral g ∧ ∀ s, tickSlice cfg s c =
      if (s.tcb c).remainingSlice = 1 then taskYield cfg (s.modify c f)
      else some (s.modify c g) := by
  -- the two updates are those that `tickSlice` writes
  refine ⟨_, _, ?_, ?_, fun s =>
    if_congr ?_ (congrArg (taskYield cfg) (Sched.modify_modify s c _ _)) rfl⟩
  · exact ⟨⟨fun _ => rfl, fun _ => rfl, fun _ => rfl, fun _ => rfl, fun _ => rfl⟩, fun _ => rfl,
      fun _ _ => rfl⟩
  · exact ⟨⟨fun _ => rfl, fun _ => rfl, fun _ => rfl, fun _ => rfl, fun _ => rfl⟩, fun _ => rfl,
      fun _ _ => rfl⟩
  · have hlast : cfg.port.tickPred (s.tcb c).remainingSlice = 0 ↔ (s.tcb c).remainingSlice = 1 :=
      cfg.port.tickPred_eq_zero
    simpa only [Sched.modify, Lib.Store.modify_self] using hlast

/-! ## Between two calls -/

/-- The invariant between two calls, where the running task may be on a ready list. -/
structure Resting (cfg : SchedConfig α) (s : Sched α) (Q : ℕ → List α) : Prop
    extends Core cfg s Q where
  current : ∀ c, s.currentTask = some c → c ∈ s.taskTable ∨ c = cfg.idleTcb
  started : s.schedulerRunning = true ↔ s.currentTask ≠ none
  boot : s.currentTask = none → ∀ p, cfg.idleTcb ∉ Q p

/-- After a call the running task is one that was switched to, or the same as before. -/
def GoesOn (s s' : Sched α) : Prop := ∀ c, s'.currentTask = some c →
  (s'.tcb c).state = .running ∨ (s.currentTask = some c ∧
    ((s'.tcb c).state = (s.tcb c).state ∨ (s.tcb c).state = .running ∧ (s'.tcb c).state = .ready))

namespace Resting
variable {cfg : SchedConfig α} {s s' : Sched α} {Q Q' : ℕ → List α} {c : α}

theorem of_inv (h : Inv cfg s Q) : Resting cfg s Q := ⟨h.toCore, h.current, h.started, h.boot⟩

/-- A call that does not switch tasks. -/
theorem stay (h : Resting cfg s Q) (hcore : Core cfg s' Q')
    (hcur : s'.currentTask = s.currentTask) (hrun : s'.schedulerRunning = s.schedulerRunning)
    (htab : ∀ t ∈ s.taskTable, t ∈ s'.taskTable)
    (hboot : s.currentTask = none → ∀ p, cfg.idleTcb ∉ Q' p) : Resting cfg s' Q' := by
  refine ⟨hcore, fun c hc => ?_, ?_, fun hn => ?_⟩
  · rw [hcur] at hc
    exact (h.current c hc).imp (htab c) id
  · rw [hrun, hcur]
    exact h.started
  · rw [hcur] at hn
    exact hboot hn

end Resting

section
variable [DecidableEq α] {cfg : SchedConfig α} {s s' : Sched α} {Q : ℕ → List α} {c : α}

/-- **`schedule_locked`**, when it does not pick a requeued idle task. -/
theorem Core.switch (h : Core cfg s Q) (hrun : s.schedulerRunning = true)
    (hc : s.currentTask = some c) (hk : c ∈ s.taskTable ∨ c = cfg.idleTcb)
    (habove : s.readyList 0 = some cfg.idleTcb → ∃ p t, t ∈ Q p ∧ 0 < p) :
    ∃ s' Q', scheduleLocked cfg s = some s' ∧ Resting cfg s' Q' ∧ GoesOn s s' := by
  by_cases hhi : getHighestReady cfg s = c
  · have hsame : scheduleLocked cfg s = some s := by simp [scheduleLocked, hc, hhi]
    refine ⟨s, Q, hsame, ⟨h, fun c' hc' => ?_, ?_, ?_⟩, fun c' hc' => .inr ⟨hc', .inl rfl⟩⟩
    · obtain rfl := Option.some.inj (hc.symm.trans hc')
      exact hk
    · simp [hrun, hc]
    · simp [hc]
  · have hne : s.currentTask ≠ some (getHighestReady cfg s) := by
      rw [hc]
      exact fun he => hhi (Option.some.inj he).symm
    obtain ⟨s', Q', hs', hi⟩ := h.schedule hrun hne (h.idle_off habove)
    exact ⟨s', Q', hs', .of_inv hi, fun c' hc' => .inl (hi.running c' hc')⟩

/-- **`task_yield`**, when it does not pick a requeued idle task. -/
theorem Core.giveWay (h : Core cfg s Q) (hrun : s.schedulerRunning = true)
    (hc : s.currentTask = some c) (hk : c ∈ s.taskTable ∨ c = cfg.idleTcb)
    (hcp : (s.tcb c).priority < cfg.maxPriority)
    (habove : s.readyList 0 = some cfg.idleTcb ∨ c = cfg.idleTcb →
      (∃ p t, t ∈ Q p ∧ 0 < p) ∨ ((s.tcb c).state = .running ∧ 0 < (s.tcb c).priority)) :
    ∃ s' Q', taskYield cfg s = some s' ∧ Resting cfg s' Q' ∧ GoesOn s s' := by
  by_cases hst : (s.tcb c).state = .running
  · obtain ⟨s₁, hs₁, hy, h₁, hrel, hst₁⟩ := h.requeue hc hst hk hcp
    have hc₁ : s₁.currentTask = some c := hrel.currentTask.trans hc
    -- the caller joins at the tail, so that the idle task was at the head before
    have habove₁ : s₁.readyList 0 = some cfg.idleTcb →
        ∃ p t, t ∈ enqueue Q (s.tcb c).priority c p ∧ 0 < p := by
      intro h0
      have hhead : (enqueue Q (s.tcb c).priority c 0).head? = some cfg.idleTcb :=
        (h₁.queues.ring 0).head_eq.symm.trans h0
      by_cases hp : 0 < (s.tcb c).priority
      · exact ⟨_, c, mem_enqueue.2 (.inr ⟨rfl, rfl⟩), hp⟩
      have hidle : s.readyList 0 = some cfg.idleTcb ∨ c = cfg.idleTcb := by
        have hp0 : (s.tcb c).priority = 0 := by omega
        rw [hp0, enqueue_self] at hhead
        cases hQ : Q 0 with
        | nil =>
          rw [hQ] at hhead
          exact .inr (Option.some.inj hhead)
        | cons y l =>
          rw [hQ] at hhead
          refine .inl ((h.queues.ring 0).head_eq.trans ?_)
          rw [hQ]
          exact hhead
      obtain ⟨p, t, ht, hpt⟩ := (habove hidle).resolve_right fun h' => hp h'.2
      exact ⟨p, t, mem_enqueue.2 (.inl ht), hpt⟩
    have hk₁ : c ∈ s₁.taskTable ∨ c = cfg.idleTcb := by
      rw [hrel.taskTable]
      exact hk
    obtain ⟨s', Q', hs', hrest, hgo⟩ :=
      h₁.switch (hrel.schedulerRunning.trans hrun) hc₁ hk₁ habove₁
    refine ⟨s', Q', hy.trans hs', hrest, fun c' hc' => ?_⟩
    rcases hgo c' hc' with hr | ⟨hcur, hsame | ⟨-, hready⟩⟩
    · exact .inl hr
    · obtain rfl := Option.some.inj (hc₁.symm.trans hcur)
      exact .inr ⟨hc, .inr ⟨hst, hsame.trans hst₁⟩⟩
    · obtain rfl := Option.some.inj (hc₁.symm.trans hcur)
      exact .inr ⟨hc, .inr ⟨hst, hready⟩⟩
  · have hy : taskYield cfg s = scheduleLocked cfg s := by simp [taskYield, hc, hst]
    rw [hy]
    refine h.switch hrun hc hk fun h0 => ?_
    exact (habove (.inl h0)).resolve_right fun h' => hst h'.1

end

/-! ## Tasks that the scheduler does not know -/

/-- The tasks of `D` are on no ready list: they wait for an object, or count as
    terminated. -/
structure Aside (cfg : SchedConfig α) (D : α → Bool) (s : Sched α) : Prop where
  known : ∀ t, D t = true → t ∈ s.taskTable
  ne_idle : ∀ t, D t = true → t ≠ cfg.idleTcb
  state : ∀ t, D t = true → (s.tcb t).state = .terminated ∨
    ((s.tcb t).state = .blocked ∧ (s.tcb t).waitObj ≠ none)

namespace Aside
variable {cfg : SchedConfig α} {D : α → Bool} {s s' : Sched α} {Q : ℕ → List α} {t c : α}

theorem ne_ready (h : Aside cfg D s) (ht : D t = true) : (s.tcb t).state ≠ .ready := by
  rcases h.state t ht with hst | ⟨hst, -⟩
  · simp [hst]
  · simp [hst]

theorem ne_running (h : Aside cfg D s) (ht : D t = true) : (s.tcb t).state ≠ .running := by
  rcases h.state t ht with hst | ⟨hst, -⟩
  · simp [hst]
  · simp [hst]

theorem not_of_running (h : Aside cfg D s) (ht : (s.tcb t).state = .running) : D t = false := by
  cases hD : D t with
  | false => rfl
  | true => exact absurd ht (h.ne_running hD)

theorem not_of_ready (h : Aside cfg D s) (ht : (s.tcb t).state = .ready) : D t = false := by
  cases hD : D t with
  | false => rfl
  | true => exact absurd ht (h.ne_ready hD)

theorem off (h : Aside cfg D s) (ht : D t = true) : Off s.tcb t := ⟨h.ne_ready ht, h.ne_running ht⟩

theorem keep (h : Aside cfg D s) (htab : ∀ t ∈ s.taskTable, t ∈ s'.taskTable)
    (hkeep : ∀ t, D t = true → Kept s.tcb s'.tcb t) : Aside cfg D s' := by
  refine ⟨fun t ht => htab t (h.known t ht), h.ne_idle, fun t ht => ?_⟩
  rw [(hkeep t ht).state, (hkeep t ht).waitObj]
  exact h.state t ht

/-- The task picked is not one of them. -/
theorem highest (h : Aside cfg D s) (hc : Core cfg s Q) : D (getHighestReady cfg s) = false := by
  rcases hc.highest with ⟨-, hi⟩ | ⟨p, t, l, hQ, -, ht⟩
  · rw [hi]
    cases hD : D cfg.idleTcb with
    | false => rfl
    | true => exact absurd rfl (h.ne_idle _ hD)
  · rw [ht]
    exact h.not_of_ready (hc.ready p t (by simp [hQ]))

variable [DecidableEq α]

theorem scheduleLocked (h : Aside cfg D s) (hc : Core cfg s Q) :
    scheduleLocked cfg (s.lost D) = (Gracemont.scheduleLocked cfg s).map (Sched.lost D) := by
  have hhi : getHighestReady cfg (s.lost D) = getHighestReady cfg s := rfl
  have hD := h.highest hc
  unfold Gracemont.scheduleLocked
  simp only [hhi, Sched.lost_currentTask]
  by_cases hcur : s.currentTask = some (getHighestReady cfg s)
  · simp only [if_pos hcur, Option.map_some]
  simp only [if_neg hcur]
  by_cases hi : getHighestReady cfg s = cfg.idleTcb
  · simp only [if_pos hi, Option.bind_eq_bind, Option.bind_some, Option.map_some]
    rw [← Sched.lost_modify hD]
    rfl
  · simp only [if_neg hi, readyListRemove_lost]
    cases readyListRemove s (getHighestReady cfg s) with
    | none => rfl
    | some s₁ =>
      simp only [Option.bind_eq_bind, Option.map_some, Option.bind_some]
      rw [← Sched.lost_modify hD]
      rfl

theorem taskYield (h : Aside cfg D s) (hcore : Core cfg s Q) (hc : s.currentTask = some c)
    (hk : c ∈ s.taskTable ∨ c = cfg.idleTcb) (hcp : (s.tcb c).priority < cfg.maxPriority) :
    taskYield cfg (s.lost D) = (Gracemont.taskYield cfg s).map (Sched.lost D) := by
  by_cases hst : (s.tcb c).state = .running
  · obtain ⟨s₁, hs₁, hy, h₁, hrel, -⟩ := hcore.requeue hc hst hk hcp
    have hDc := h.not_of_running hst
    have hside : Aside cfg D s₁ := by
      refine h.keep (fun t ht => hrel.taskTable.symm ▸ ht) fun t ht => ?_
      refine .of_eq (readyListAdd_frame hcore.queues (hcore.not_mem (by simp [hst]))
        (hcore.not_mem (h.ne_ready ht)) ?_ hs₁)
      rintro rfl
      rw [hDc] at ht
      cases ht
    have hadd : readyListAdd (s.lost D) c = some (s₁.lost D) := by
      rw [readyListAdd_lost hDc, hs₁]
      rfl
    have hself := h₁.rotate_last (hrel.priority c)
    rw [hy, ← hside.scheduleLocked h₁]
    have hst' : ((s.lost D).tcb c).state = .running :=
      (Sched.lost_state_iff (by simp) (by simp)).2 hst
    simp only [Gracemont.taskYield, Sched.lost_currentTask, hc, Option.bind_eq_bind,
      Option.bind_some, if_pos hst', hadd, Sched.lost_priority, Sched.lost_next]
    rw [← Sched.lost_setReady, hself]
  · have hy : Gracemont.taskYield cfg s = Gracemont.scheduleLocked cfg s := by
      simp [Gracemont.taskYield, hc, hst]
    have hy' : Gracemont.taskYield cfg (s.lost D) = Gracemont.scheduleLocked cfg (s.lost D) := by
      have hst' : ((s.lost D).tcb c).state ≠ .running := fun he =>
        hst ((Sched.lost_state_iff (by simp) (by simp)).1 he)
      simp [Gracemont.taskYield, hc, hst']
    rw [hy, hy', h.scheduleLocked hcore]

/-- A task of `D` does not sleep. -/
theorem wakeSleeper (h : Aside cfg D s) (t : α) :
    wakeSleeper (s.lost D) t = (Gracemont.wakeSleeper s t).map (Sched.lost D) := by
  cases hDt : D t with
  | false =>
    unfold Gracemont.wakeSleeper
    rw [Sched.lost_of_not hDt, Sched.lost_systemTicks, readyListAdd_lost hDt]
    split_ifs
    · rfl
    · rfl
    · rfl
    · rfl
  | true =>
    have hawake : ∀ m : Sched α, ¬ ((m.tcb t).state = .blocked ∧ (m.tcb t).waitObj = none) →
        Gracemont.wakeSleeper m t = some m := fun m hm => if_neg hm
    rcases h.state t hDt with hst | ⟨hst, hw⟩
    · have hlost := Sched.lost_of_terminated hDt hst
      rw [hawake s (by simp [hst]), hawake (s.lost D) (by simp [hlost])]
      rfl
    · rw [hawake s (by simp [hw]), hawake (s.lost D) (by simp [hw])]
      rfl

theorem wakeSleepers {L : List α} (h : Aside cfg D s) (hc : Core cfg s Q)
    (hL : ∀ t ∈ L, t ∈ s.taskTable) :
    L.foldlM Gracemont.wakeSleeper (s.lost D) =
      (L.foldlM Gracemont.wakeSleeper s).map (Sched.lost D) := by
  induction L generalizing s Q with
  | nil => rfl
  | cons t L ih =>
    obtain ⟨s₁, Q₁, hs₁, hw, -⟩ := hc.wakeSleeper (hL t (by simp))
    have hone : [t].foldlM Gracemont.wakeSleeper s = some s₁ := by simp [hs₁]
    have hD₁ : Aside cfg D s₁ := by
      refine h.keep (fun x hx => hw.relinked.taskTable.symm ▸ hx) fun x hx => .of_eq ?_
      refine wakeSleepers_apart hc (fun y hy => hL y ?_) hone (h.ne_ready hx) fun hb hwo => ?_
      · rw [List.mem_singleton] at hy
        simp [hy]
      · rcases h.state x hx with hst | ⟨-, hw⟩
        · rw [hst] at hb
          cases hb
        · exact absurd hwo hw
    rw [List.foldlM_cons, List.foldlM_cons, h.wakeSleeper, hs₁]
    refine ih hD₁ hw.core fun x hx => ?_
    rw [hw.relinked.taskTable]
    exact hL x (by simp [hx])

end Aside

/-! ## The calls -/

/-- A call from `s` to `s'`. -/
structure Called (cfg : SchedConfig α) (s s' : Sched α) (Q' : ℕ → List α) : Prop where
  resting : Resting cfg s' Q'
  goesOn : GoesOn s s'
  table : ∀ t ∈ s.taskTable, t ∈ s'.taskTable
  waitObj : ∀ t, (s'.tcb t).waitObj = (s.tcb t).waitObj
  stays : s.currentTask ≠ none → s'.currentTask ≠ none

/-- The task was put on the ready list of its priority, and may be running already. -/
def MadeReady (s : Sched α) (t : α) : Prop :=
  ((s.tcb t).state = .ready ∧ OnReadyList s (s.tcb t).priority t) ∨
    (s.currentTask = some t ∧ (s.tcb t).state = .running)

namespace Resting
variable [DecidableEq α] {cfg : SchedConfig α} {D : α → Bool} {s s' : Sched α} {Q : ℕ → List α}
  {c t : α}

/-- **`task_yield`**, when it does not pick a requeued idle task. -/
theorem yield (h : Resting cfg s Q) (hD : Aside cfg D s) (hc : s.currentTask = some c)
    (hcp : (s.tcb c).priority < cfg.maxPriority)
    (habove : s.readyList 0 = some cfg.idleTcb ∨ c = cfg.idleTcb →
      (∃ p t, t ∈ Q p ∧ 0 < p) ∨ ((s.tcb c).state = .running ∧ 0 < (s.tcb c).priority)) :
    ∃ s' Q', taskYield cfg s = some s' ∧ taskYield cfg (s.lost D) = some (s'.lost D) ∧
      Called cfg s s' Q' ∧ s'.systemTicks = s.systemTicks ∧
      ∀ x, Off s.tcb x → s'.tcb x = s.tcb x := by
  have hk := h.current c hc
  obtain ⟨s', Q', hs', hrest, hgo⟩ :=
    h.toCore.giveWay (h.started.2 (by simp [hc])) hc hk hcp habove
  obtain ⟨htab, hticks, hapart⟩ := taskYield_apart h.toCore hc hk hcp hs'
  have hcur := taskYield_currentTask hs'
  have hobj := (X86.taskYield_kept h.toCore hc hk hcp hs').waitObj
  refine ⟨s', Q', hs', ?_, ⟨hrest, hgo, fun t ht => htab.symm ▸ ht, hobj, fun _ => hcur⟩, hticks,
    hapart⟩
  rw [hD.taskYield h.toCore hc hk hcp, hs']
  rfl

/-- **The running task leaves**, asleep or terminated. -/
theorem leave (h : Resting cfg s Q) (hD : Aside cfg D s) (hc : s.currentTask = some c)
    (hci : c ≠ cfg.idleTcb) (hst : (s.tcb c).state = .running)
    (habove : s.readyList 0 = some cfg.idleTcb → ∃ p t, t ∈ Q p ∧ 0 < p) {f : Tcb α → Tcb α}
    (hfp : ∀ t, (f t).priority = t.priority) (hfw : ∀ t, (f t).waitObj = t.waitObj)
    (hfs : ∀ t, (f t).state ≠ .ready) (hfr : ∀ t, (f t).state ≠ .running) :
    ∃ s' Q', scheduleLocked cfg (s.modify c f) = some s' ∧
      scheduleLocked cfg ((s.lost D).modify c f) = some (s'.lost D) ∧ Called cfg s s' Q' ∧
      s'.systemTicks = s.systemTicks ∧ (∀ x, Off s.tcb x → s'.tcb x = s.tcb x) ∧
      s'.tcb c = f (s.tcb c) := by
  have hct := (h.current c hc).resolve_right hci
  have hcore : Core cfg (s.modify c f) Q := h.toCore.leave hst hct hci hfp hfs
  have hoff : Off (s.modify c f).tcb c := by
    unfold Off
    rw [Sched.modify_tcb, Lib.Store.modify_self]
    exact ⟨hfs _, hfr _⟩
  have hkeep : ∀ x, Off s.tcb x → (s.modify c f).tcb x = s.tcb x := by
    intro x hx
    have hxc : x ≠ c := by
      rintro rfl
      exact hx.2 hst
    rw [Sched.modify_tcb, Lib.Store.modify_of_ne _ hxc]
  have hside : Aside cfg D (s.modify c f) :=
    hD.keep (fun _ ht => ht) fun t ht => .of_eq (hkeep t (hD.off ht))
  have hne : (s.modify c f).currentTask ≠ some (getHighestReady cfg (s.modify c f)) := by
    rw [Sched.modify_currentTask, hc]
    intro he
    rcases hcore.highest with ⟨-, hx⟩ | ⟨p, x, l, hQ, -, hx⟩
    · rw [hx] at he
      exact hci (Option.some.inj he)
    · rw [hx] at he
      have hxQ : x ∈ Q p := by simp [hQ]
      rw [← Option.some.inj he] at hxQ
      exact hoff.1 (hcore.ready p c hxQ)
  obtain ⟨s', Q', hs', hi⟩ := hcore.schedule (h.started.2 (by simp [hc])) hne
    (hcore.idle_off habove)
  obtain ⟨htab, hticks⟩ := scheduleLocked_vars hcore hs'
  have hobj := (X86.scheduleLocked_kept hcore hs').waitObj
  refine ⟨s', Q', hs', ?_, ⟨.of_inv hi, fun c' hc' => .inl (hi.running c' hc'), ?_,
    fun x => ?_, ?_⟩, hticks, fun x hx => ?_, ?_⟩
  · rw [← Sched.lost_modify (hD.not_of_running hst), hside.scheduleLocked hcore, hs']
    rfl
  · exact fun t ht => htab.symm ▸ ht
  · exact (hobj x).trans (Lib.Store.modify_field Tcb.waitObj _ _ (hfw _) x)
  · rw [scheduleLocked_currentTask hs']
    simp
  · exact (scheduleLocked_apart hcore hs' ((Kept.of_eq (hkeep x hx)).off hx)).trans (hkeep x hx)
  · rw [scheduleLocked_apart hcore hs' hoff, Sched.modify_tcb, Lib.Store.modify_self]

omit [DecidableEq α] in
/-- A call that changes nothing. -/
theorem called (h : Resting cfg s Q) : Called cfg s s Q :=
  ⟨h, fun _ hc => .inr ⟨hc, .inl rfl⟩, fun _ ht => ht, fun _ => rfl, id⟩

/-- **`ready_list_add`** of a task that was suspended. -/
theorem add (h : Resting cfg s Q) (hD : Aside cfg D s) (hti : t ≠ cfg.idleTcb)
    (hst : (s.tcb t).state = .suspended) :
    ∃ s₁, readyListAdd s t = some s₁ ∧ readyListAdd (s.lost D) t = some (s₁.lost D) ∧
      Resting cfg s₁ (enqueue Q (s.tcb t).priority t) ∧ Relinked s s₁ ∧ Aside cfg D s₁ ∧
      (∀ x, (s₁.tcb x).state = if x = t then .ready else (s.tcb x).state) ∧
      ∀ x, Off s.tcb x → x ≠ t → s₁.tcb x = s.tcb x := by
  have htQ : ∀ p, t ∉ Q p := h.not_mem (by simp [hst])
  have htab : t ∈ s.taskTable := by
    by_contra hm
    rw [h.fresh t hm hti] at hst
    cases hst
  have hDt : D t = false := by
    cases hDt : D t with
    | false => rfl
    | true =>
      rcases hD.state t hDt with hs | ⟨hs, -⟩
      · rw [hs] at hst
        cases hst
      · rw [hs] at hst
        cases hst
  obtain ⟨s₁, hs₁, h₁, hrel, hst₁⟩ := h.toCore.add htQ (.inl htab) (h.prio t htab)
  have hapart : ∀ x, Off s.tcb x → x ≠ t → s₁.tcb x = s.tcb x := fun x hx hxt =>
    readyListAdd_frame h.queues htQ (h.not_mem hx.1) hxt hs₁
  refine ⟨s₁, hs₁, by rw [readyListAdd_lost hDt, hs₁]; rfl, ?_, hrel, ?_, hst₁, hapart⟩
  · refine h.stay h₁ hrel.currentTask hrel.schedulerRunning
      (fun x hx => hrel.taskTable.symm ▸ hx) fun hn p hp => ?_
    rcases mem_enqueue.1 hp with hp | ⟨-, hp⟩
    · exact h.boot hn p hp
    · exact hti hp.symm
  · refine hD.keep (fun x hx => hrel.taskTable.symm ▸ hx) fun x hx => ?_
    refine .of_eq (hapart x (hD.off hx) ?_)
    rintro rfl
    rw [hDt] at hx
    cases hx

/-- **`task_start`.**  The task started is above the one that it takes over from. -/
theorem start (h : Resting cfg s Q) (hD : Aside cfg D s) {tcb : Option α}
    (hi : tcb ≠ some cfg.idleTcb)
    (hon : ∀ c, s.currentTask = some c → (s.tcb c).state ≠ .suspended) :
    ∃ s' Q' st, taskStart cfg s tcb = some (s', st) ∧
      taskStart cfg (s.lost D) tcb = some (s'.lost D, st) ∧ Called cfg s s' Q' ∧
      s'.systemTicks = s.systemTicks ∧
      ∀ x, Off s.tcb x → (s.tcb x).state ≠ .suspended → s'.tcb x = s.tcb x := by
  cases tcb with
  | none => exact ⟨s, Q, _, rfl, rfl, h.called, rfl, fun _ _ _ => rfl⟩
  | some t =>
    have hlost : ((s.lost D).tcb t).state = .suspended ↔ (s.tcb t).state = .suspended :=
      Sched.lost_state_iff (by simp) (by simp)
    by_cases hst : (s.tcb t).state = .suspended
    swap
    · refine ⟨s, Q, .ok, ?_, ?_, h.called, rfl, fun _ _ _ => rfl⟩
      · simp [taskStart, hst]
      · simp [taskStart, hlost, hst]
    have hti : t ≠ cfg.idleTcb := fun he => hi (he ▸ rfl)
    obtain ⟨s₁, hs₁, hl₁, h₁, hrel, hD₁, hst₁, hapart⟩ := h.add hD hti hst
    have hkeep : ∀ x, Off s.tcb x → (s.tcb x).state ≠ .suspended → s₁.tcb x = s.tcb x := by
      intro x hx hxs
      refine hapart x hx ?_
      rintro rfl
      exact hxs hst
    have hcalled : Called cfg s s₁ (enqueue Q (s.tcb t).priority t) := by
      refine ⟨h₁, fun c hc => ?_, fun x hx => hrel.taskTable.symm ▸ hx, hrel.waitObj,
        fun hn => hrel.currentTask.symm ▸ hn⟩
      rw [hrel.currentTask] at hc
      have hct : c ≠ t := by
        rintro rfl
        exact hon c hc hst
      exact .inr ⟨hc, .inl (by rw [hst₁, if_neg hct])⟩
    cases hrun : s.schedulerRunning with
    | false =>
      refine ⟨s₁, _, .ok, ?_, ?_, hcalled, hrel.systemTicks, hkeep⟩
      · simp [taskStart, hst, hs₁, hrel.schedulerRunning, hrun]
      · simp [taskStart, hlost, hst, hl₁, hrel.schedulerRunning, hrun]
    | true =>
      cases hc : s.currentTask with
      | none =>
        refine ⟨s₁, _, .ok, ?_, ?_, hcalled, hrel.systemTicks, hkeep⟩
        · simp [taskStart, hst, hs₁, hrel.schedulerRunning, hrun, hrel.currentTask, hc]
        · simp [taskStart, hlost, hst, hl₁, hrel.schedulerRunning, hrun, hrel.currentTask, hc]
      | some c =>
        have hc₁ : s₁.currentTask = some c := hrel.currentTask.trans hc
        by_cases hlt : (s₁.tcb c).priority < (s₁.tcb t).priority
        swap
        · refine ⟨s₁, _, .ok, ?_, ?_, hcalled, hrel.systemTicks, hkeep⟩
          · simp [taskStart, hst, hs₁, hrel.schedulerRunning, hrun, hc₁, hlt]
          · simp [taskStart, hlost, hst, hl₁, hrel.schedulerRunning, hrun, hc₁, hlt]
        have htm : t ∈ enqueue Q (s.tcb t).priority t (s.tcb t).priority :=
          mem_enqueue.2 (.inr ⟨rfl, rfl⟩)
        have htp : (s₁.tcb t).priority < cfg.maxPriority := by
          rw [hrel.priority]
          exact h₁.bound _ t htm
        obtain ⟨s', Q', hs', hl', hcalled', hticks', hapart'⟩ :=
          h₁.yield hD₁ hc₁ (by omega) fun _ => .inl
            ⟨_, t, htm, by rw [hrel.priority t] at hlt; omega⟩
        refine ⟨s', Q', .ok, ?_, ?_, ⟨hcalled'.resting, fun c' hc' => ?_, fun x hx => ?_,
          fun x => (hcalled'.waitObj x).trans (hrel.waitObj x), fun _ => taskYield_currentTask hs'⟩,
          hticks'.trans hrel.systemTicks, fun x hx hxs => ?_⟩
        · simp [taskStart, hst, hs₁, hrel.schedulerRunning, hrun, hc₁, hlt, hs']
        · simp [taskStart, hlost, hst, hl₁, hrel.schedulerRunning, hrun, hc₁, hlt, hl']
        · rcases hcalled'.goesOn c' hc' with hr | ⟨hcur, hor⟩
          · exact .inl hr
          · have hct : c' ≠ t := by
              rintro rfl
              exact hon c' (hrel.currentTask.symm.trans hcur) hst
            rw [hst₁, if_neg hct] at hor
            exact .inr ⟨hrel.currentTask.symm.trans hcur, hor⟩
        · exact hcalled'.table x (hrel.taskTable.symm ▸ hx)
        · have hx₁ := hkeep x hx hxs
          exact (hapart' x ((Kept.of_eq hx₁).off hx)).trans hx₁

omit [DecidableEq α] in
/-- What is picked before a requeued idle task. -/
theorem above (h : Resting cfg s Q) {due : α → Prop} (hidle : X86.IdleLast cfg s due)
    (h0 : s.readyList 0 = some cfg.idleTcb) :
    (∃ p t, t ∈ Q p ∧ 0 < p) ∨ ∃ t, due t ∧ 0 < (s.tcb t).priority := by
  obtain ⟨t, -, hon, hpt⟩ := hidle h0
  rcases hon with ⟨p, hp⟩ | hd
  · have ht := h.on_iff.1 hp
    exact .inl ⟨p, t, ht, by rwa [h.queues.prio p t ht] at hpt⟩
  · exact .inr ⟨t, hd, hpt⟩

/-- **The time slice** of the running task `c`. -/
theorem slice (h : Resting cfg s Q) (hD : Aside cfg D s) (hc : s.currentTask = some c)
    (hci : c ≠ cfg.idleTcb)
    (habove : (s.tcb c).remainingSlice = 1 → s.readyList 0 = some cfg.idleTcb →
      (∃ p t, t ∈ Q p ∧ 0 < p) ∨ ((s.tcb c).state = .running ∧ 0 < (s.tcb c).priority)) :
    ∃ s' Q', tickSlice cfg s c = some s' ∧ tickSlice cfg (s.lost D) c = some (s'.lost D) ∧
      Called cfg s s' Q' ∧ s'.systemTicks = s.systemTicks ∧
      (∀ x, Off s.tcb x → Kept s.tcb s'.tcb x) ∧
      ∀ x, x ≠ c → (s'.tcb x).state = (s.tcb x).state ∨
        (s'.currentTask = some x ∧ (s'.tcb x).state = .running) := by
  obtain ⟨f, g, hf, hg, heq⟩ := tickSlice_neutral cfg c
  have hrest : ∀ {k : Tcb α → Tcb α}, Neutral k → Resting cfg (s.modify c k) Q := fun hk =>
    h.stay (h.toCore.count c hk.toCounts) rfl rfl (fun _ ht => ht) h.boot
  rw [heq, heq, Sched.lost_remainingSlice]
  by_cases h1 : (s.tcb c).remainingSlice = 1
  · rw [if_pos h1, if_pos h1]
    have hD₁ : Aside cfg D (s.modify c f) := hD.keep (fun _ ht => ht) fun t _ => hf.kept t
    have hst : ∀ x, ((s.modify c f).tcb x).state = (s.tcb x).state := fun x => (hf.kept x).state
    have hprio : ((s.modify c f).tcb c).priority = (s.tcb c).priority :=
      Lib.Store.modify_field Tcb.priority _ _ (hf.priority _) c
    have hcp : ((s.modify c f).tcb c).priority < cfg.maxPriority := by
      rw [hprio]
      exact h.prio c ((h.current c hc).resolve_right hci)
    obtain ⟨s', Q', hs', hl', hcalled, hticks, hapart⟩ := (hrest hf).yield hD₁ hc hcp fun h0 => by
      rw [hst, hprio]
      exact habove h1 (h0.resolve_right hci)
    refine ⟨s', Q', hs', ?_, ⟨hcalled.resting, fun c' hc' => ?_, hcalled.table,
      fun x => (hcalled.waitObj x).trans (hf.kept x).waitObj, hcalled.stays⟩, hticks,
      fun x hx => ?_, fun x hx => ?_⟩
    · rw [← Sched.lost_relink c hf.state hf.comm]
      exact hl'
    · have hgo := hcalled.goesOn c' hc'
      rw [hst] at hgo
      exact hgo
    · exact (hf.kept x).trans (.of_eq (hapart x ((hf.kept x).off hx)))
    · rw [← hst x]
      exact taskYield_state (hrest hf).toCore hc ((hrest hf).current c hc) hcp hs' hx
  · rw [if_neg h1, if_neg h1]
    refine ⟨_, Q, rfl, ?_, ⟨hrest hg, fun c' hc' => .inr ⟨hc', .inl (hg.kept c').state⟩,
      fun _ ht => ht, fun x => (hg.kept x).waitObj, id⟩, rfl, fun x _ => hg.kept x,
      fun x _ => .inl (hg.kept x).state⟩
    rw [← Sched.lost_relink c hg.state hg.comm]

/-- Behind the scan of `scheduler_tick`, while `c` is the current task. -/
structure SleepersWoken (cfg : SchedConfig α) (D : α → Bool) (c : α) (s : Sched α)
    (Q : ℕ → List α) (s₁ : Sched α) (Q₁ : ℕ → List α) : Prop where
  woken : Woken cfg { s with systemTicks := tickNow cfg s } Q s₁ Q₁
  resting : Resting cfg s₁ Q₁
  aside : Aside cfg D s₁
  current : s₁.currentTask = some c
  state : (s₁.tcb c).state = (s.tcb c).state
  apart : ∀ x, Off s.tcb x → ¬ Due cfg s x → s₁.tcb x = s.tcb x
  queued : ∀ t, (∃ p, OnReadyList s p t) ∨ Due cfg s t → t ∈ Q₁ (s.tcb t).priority

/-- The scan of `scheduler_tick`. -/
theorem wakeSleepers (h : Resting cfg s Q) (hD : Aside cfg D s)
    (hc : s.currentTask = some c) (hcd : ¬ Due cfg s c) :
    ∃ s₁ Q₁, s.taskTable.foldlM wakeSleeper { s with systemTicks := tickNow cfg s } = some s₁ ∧
      (s.lost D).taskTable.foldlM wakeSleeper
        { s.lost D with systemTicks := tickNow cfg (s.lost D) } = some (s₁.lost D) ∧
      SleepersWoken cfg D c s Q s₁ Q₁ := by
  have hcore : Core cfg { s with systemTicks := tickNow cfg s } Q :=
    h.toCore.congr rfl rfl (fun _ => rfl) (fun _ => rfl) (fun _ => rfl) fun _ => rfl
  have hside : Aside cfg D { s with systemTicks := tickNow cfg s } :=
    ⟨hD.known, hD.ne_idle, hD.state⟩
  obtain ⟨s₁, Q₁, hs₁, hw, hdue⟩ := hcore.wakeSleepers (L := s.taskTable) fun _ ht => ht
  have hl₁ := hside.wakeSleepers hcore (L := s.taskTable) fun _ ht => ht
  rw [hs₁, Option.map_some] at hl₁
  have htab : s₁.taskTable = s.taskTable := hw.relinked.taskTable
  have hapart : ∀ x, Off s.tcb x → ¬ Due cfg s x → s₁.tcb x = s.tcb x := by
    intro x hx hxd
    have hxt : x ∈ s.taskTable := by
      by_contra hm
      exact hx.1 (h.fresh x hm (h.toCore.ne_idle hx))
    exact wakeSleepers_apart (s := { s with systemTicks := tickNow cfg s }) hcore
      (fun _ ht => ht) hs₁ hx.1 fun hb hwo hwt => hxd ⟨hxt, hb, hwo, hwt⟩
  refine ⟨s₁, Q₁, hs₁, hl₁, hw, ?_, ?_, hw.relinked.currentTask.trans hc, ?_, hapart,
    fun t ht => hw.queued h.toCore hdue ht⟩
  · refine h.stay hw.core hw.relinked.currentTask hw.relinked.schedulerRunning
      (fun t ht => htab.symm ▸ ht) fun hn => ?_
    rw [hc] at hn
    cases hn
  · refine hD.keep (fun t ht => htab.symm ▸ ht) fun t ht => .of_eq (hapart t (hD.off ht) ?_)
    rintro ⟨-, hb, hwo, -⟩
    rcases hD.state t ht with hst | ⟨-, hne⟩
    · rw [hst] at hb
      cases hb
    · exact hne hwo
  · by_cases hb : (s.tcb c).state = .blocked
    · have hoff : Off s.tcb c := by simp [Off, hb]
      rw [hapart c hoff hcd]
    · exact hw.awake c hb

omit [DecidableEq α] in
/-- A sleeper that is due is ready and in the table, and not the idle task. -/
theorem SleepersWoken.due {s₁ : Sched α} {Q₁ : ℕ → List α}
    (hw : SleepersWoken cfg D c s Q s₁ Q₁) (h : Resting cfg s Q) (ht : Due cfg s t) :
    (s₁.tcb t).state = .ready ∧ t ∈ s₁.taskTable ∧ t ≠ cfg.idleTcb :=
  ⟨hw.woken.core.ready _ t (hw.queued t (.inr ht)), hw.woken.relinked.taskTable.symm ▸ ht.1,
    h.toCore.ne_idle ⟨by simp [ht.2.1], by simp [ht.2.1]⟩⟩

omit [DecidableEq α] in
/-- A task that is ready between calls is on its ready list. -/
theorem madeReady (h : Resting cfg s Q) (ht : t ∈ s.taskTable) (hti : t ≠ cfg.idleTcb)
    (hst : (s.tcb t).state = .ready) : MadeReady s t :=
  .inl ⟨hst, h.toCore.on_iff.2 (h.toCore.queued t ht hti hst)⟩

/-- **`scheduler_tick`** makes the sleepers that are due ready. -/
theorem tick (h : Resting cfg s Q) (hD : Aside cfg D s)
    (hc : s.currentTask = some c) (hcd : ¬ Due cfg s c)
    (hidle : c ≠ cfg.idleTcb → (s.tcb c).remainingSlice = 1 →
      X86.IdleLast cfg s fun t => Due cfg s t ∨ (t = c ∧ (s.tcb c).state = .running)) :
    ∃ s' Q', schedulerTick cfg s = some s' ∧ schedulerTick cfg (s.lost D) = some (s'.lost D) ∧
      Called cfg s s' Q' ∧ s'.systemTicks = tickNow cfg s ∧
      (∀ x, Off s.tcb x → ¬ Due cfg s x → Kept s.tcb s'.tcb x) ∧
      ∀ t, Due cfg s t → MadeReady s' t := by
  obtain ⟨s₁, Q₁, hs₁, hl₁, hw⟩ := h.wakeSleepers hD hc hcd
  have hrel := hw.woken.relinked
  have htab : s₁.taskTable = s.taskTable := hrel.taskTable
  have hticks : s₁.systemTicks = tickNow cfg s := hrel.systemTicks
  rw [schedulerTick_eq, schedulerTick_eq, hs₁, hl₁, Option.bind_some, Option.bind_some]
  simp only [Sched.lost_currentTask, hw.current]
  by_cases hci : c = cfg.idleTcb
  · simp only [if_pos hci]
    refine ⟨s₁, Q₁, rfl, rfl, ⟨hw.resting, fun c' hc' => ?_, fun t ht => htab.symm ▸ ht,
      hrel.waitObj, fun _ => ?_⟩, hticks, fun x hx hxd => .of_eq (hw.apart x hx hxd),
      fun t ht => ?_⟩
    · obtain rfl := Option.some.inj (hw.current.symm.trans hc')
      exact .inr ⟨hc, .inl hw.state⟩
    · simp [hw.current]
    · obtain ⟨hst, htt, hti⟩ := hw.due h ht
      exact hw.resting.madeReady htt hti hst
  simp only [if_neg hci]
  have hrem : (s₁.tcb c).remainingSlice = (s.tcb c).remainingSlice := hrel.remainingSlice c
  have hprio : (s₁.tcb c).priority = (s.tcb c).priority := hrel.priority c
  obtain ⟨s', Q', hs', hl', hcalled, hticks', hkept, hst'⟩ := hw.resting.slice hw.aside hw.current
    hci fun h1 h0 => by
      obtain ⟨t, -, hon, hpt⟩ := hidle hci (hrem.symm.trans h1)
        (hw.woken.idle_head h.toCore ((hw.woken.core.queues.ring 0).head_eq.symm.trans h0))
      rcases hon with hon | hon | ⟨rfl, hr⟩
      · exact .inl ⟨_, t, hw.queued t (.inl hon), hpt⟩
      · exact .inl ⟨_, t, hw.queued t (.inr hon), hpt⟩
      · exact .inr ⟨hw.state.trans hr, by rwa [hprio]⟩
  refine ⟨s', Q', hs', hl', ⟨hcalled.resting, fun c' hc' => ?_, fun t ht => ?_,
    fun x => (hcalled.waitObj x).trans (hrel.waitObj x),
    fun _ => hcalled.stays (by simp [hw.current])⟩, hticks'.trans hticks, fun x hx hxd => ?_,
    fun t ht => ?_⟩
  · rcases hcalled.goesOn c' hc' with hr | ⟨hc₁, hor⟩
    · exact .inl hr
    · obtain rfl := Option.some.inj (hw.current.symm.trans hc₁)
      rw [hw.state] at hor
      exact .inr ⟨hc, hor⟩
  · exact hcalled.table t (htab.symm ▸ ht)
  · have hx₁ := Kept.of_eq (hw.apart x hx hxd)
    exact hx₁.trans (hkept x (hx₁.off hx))
  · have htc : t ≠ c := by
      rintro rfl
      exact hcd ht
    obtain ⟨hst, htt, hti⟩ := hw.due h ht
    rcases hst' t htc with hsame | hr
    · exact hcalled.resting.madeReady (hcalled.table t htt) hti (hsame.trans hst)
    · exact .inr hr

/-- **`task_create`** with a block that is not in use. -/
theorem create (h : Resting cfg s Q) {tcb : Option α} {entry : Option ℕ}
    {priority : ℕ} {stack : Option ℕ} (hi : tcb ≠ some cfg.idleTcb)
    (hfree : ∀ t, tcb = some t → entry ≠ none → stack ≠ none → priority < cfg.maxPriority →
      s.taskTable.length < cfg.maxTasks → D t = false ∧ (s.tcb t).waitObj = none ∧
        (s.tcb t).state ≠ .blocked ∧ s.currentTask ≠ some t ∧
        (t ∈ s.taskTable → (s.tcb t).state ≠ .ready)) :
    Called cfg s (taskCreate cfg s tcb entry priority stack).1 Q ∧
      (taskCreate cfg s tcb entry priority stack).1.systemTicks = s.systemTicks ∧
      ∀ x, D x = true ∨ (s.tcb x).state = .blocked →
        (taskCreate cfg s tcb entry priority stack).1.tcb x = s.tcb x := by
  have hcore := h.toCore.create hi fun t h1 h2 h3 h4 h5 => (hfree t h1 h2 h3 h4 h5).2.2.2.2
  obtain ⟨hcur, hrun, htab⟩ := @taskCreate_scheduler _ cfg s _ tcb entry priority stack
  have hkept : X86.WaitersKept s.tcb (taskCreate cfg s tcb entry priority stack).1.tcb :=
    X86.taskCreate_kept fun t h1 h2 h3 h4 h5 =>
      ⟨(hfree t h1 h2 h3 h4 h5).2.2.1, (hfree t h1 h2 h3 h4 h5).2.1⟩
  have hapart : ∀ x, D x = true ∨ (s.tcb x).state = .blocked ∨ s.currentTask = some x →
      (taskCreate cfg s tcb entry priority stack).1.tcb x = s.tcb x := by
    intro x hx
    refine taskCreate_of_ne fun t h1 h2 h3 h4 h5 => ?_
    rintro rfl
    obtain ⟨hDt, -, hb, hc, -⟩ := hfree x h1 h2 h3 h4 h5
    rcases hx with hx | hx | hx
    · rw [hDt] at hx
      cases hx
    · exact hb hx
    · exact hc hx
  refine ⟨⟨h.stay hcore hcur hrun htab h.boot, fun c hc => ?_, htab, hkept.waitObj,
    fun hn => hcur.symm ▸ hn⟩, taskCreate_systemTicks .., fun x hx => hapart x (hx.imp_right .inl)⟩
  have hc' : s.currentTask = some c := hcur.symm.trans hc
  exact .inr ⟨hc', .inl (congrArg Tcb.state (hapart c (.inr (.inr hc'))))⟩

end Resting

end Gracemont
