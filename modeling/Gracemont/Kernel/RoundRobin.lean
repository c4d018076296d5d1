/-
  Gracemont kernel — round robin among the tasks of one priority, for both ports.

  A ready task waits behind the tasks that are before it on its ready list.
  `scheduler_tick` ends a time slice after ten ticks, `task_yield` goes to the
  end of the list, and a new or woken task joins at the end, so each of those
  tasks becomes the current one once, in the order of the list, before the waiting
  one does.  The calls are taken whole, with `scheduler_lock` free.

  * `AheadOf`: the tasks before another one on its list;
  * `Turn`: what a call means for a task that waits;
  * `round_robin`: the order, and a bound on the ticks.
-/
import Gracemont.Kernel.SchedulerInv

namespace Gracemont

variable {α : Type}

/-- The tasks before `t` on its ready list are `a`. -/
def AheadOf (s : Sched α) (t : α) (a : List α) : Prop :=
  ∃ b, Lib.Ring s.tcb.next s.tcb.prev (s.readyList (s.tcb t).priority) (a ++ t :: b)

/-- The task `t` is not the current task, and no task of a higher priority is ready
    or running. -/
structure Queues (t : α) (s : Sched α) : Prop where
  notCurrent : s.currentTask ≠ some t
  quiet : ∀ u ∈ s.taskTable, (s.tcb u).state = .ready ∨ (s.tcb u).state = .running →
    (s.tcb u).priority ≤ (s.tcb t).priority

instance [DecidableEq α] (t : α) (s : Sched α) : Decidable (Queues t s) :=
  decidable_of_iff (s.currentTask ≠ some t ∧ ∀ u ∈ s.taskTable,
    (s.tcb u).state = .ready ∨ (s.tcb u).state = .running → (s.tcb u).priority ≤ (s.tcb t).priority)
    ⟨fun h => ⟨h.1, h.2⟩, fun h => ⟨h.1, h.2⟩⟩

/-- `task_create` is not given the block of a task that is ready or running. -/
def CreatesFree (cfg : SchedConfig α) (s : Sched α) : Op α → Prop
  | .taskCreate tcb entry priority stack => Safe cfg s (.taskCreate tcb entry priority stack)
  | _ => True

/-- The time slices of the tasks of the table. -/
def Sliced (s : Sched α) : Prop :=
  ∀ u ∈ s.taskTable, (s.tcb u).remainingSlice ≠ 0 ∧ (s.tcb u).remainingSlice ≤ 10 ∧
    (s.tcb u).timeSlice = 10

/-- The same tasks with the same time slices. -/
structure SameSlices (s s' : Sched α) : Prop where
  taskTable : s'.taskTable = s.taskTable
  remainingSlice : ∀ u, (s'.tcb u).remainingSlice = (s.tcb u).remainingSlice
  timeSlice : ∀ u, (s'.tcb u).timeSlice = (s.tcb u).timeSlice

/-! ## Time slices -/

section
variable {s s' s'' : Sched α}

theorem SameSlices.trans (h : SameSlices s s') (h' : SameSlices s' s'') : SameSlices s s'' :=
  ⟨h'.1.trans h.1, fun u => (h'.2 u).trans (h.2 u), fun u => (h'.3 u).trans (h.3 u)⟩

theorem Relinked.slices (h : Relinked s s') : SameSlices s s' where
  taskTable := h.taskTable
  remainingSlice := h.remainingSlice
  timeSlice u := by simpa [Tcb.core] using congrArg Tcb.timeSlice (h.core u)

theorem Sliced.same (h : Sliced s) (hs : SameSlices s s') : Sliced s' := by
  intro u hu
  rw [hs.remainingSlice, hs.timeSlice]
  exact h u (hs.taskTable ▸ hu)

variable [DecidableEq α] {cfg : SchedConfig α} {t : α}

theorem SameSlices.modify (s : Sched α) (t : α) {f : Tcb α → Tcb α}
    (hr : ∀ b, (f b).remainingSlice = b.remainingSlice) (ht : ∀ b, (f b).timeSlice = b.timeSlice) :
    SameSlices s (s.modify t f) :=
  ⟨rfl, fun u => s.tcb.modify_field Tcb.remainingSlice t (hr _) u,
    fun u => s.tcb.modify_field Tcb.timeSlice t (ht _) u⟩

theorem scheduleLocked_slices (h : scheduleLocked cfg s = some s') : SameSlices s s' := by
  obtain ⟨-, rfl⟩ | ⟨-, s₁, hs₁, rfl⟩ := scheduleLocked_cases h
  · exact ⟨rfl, fun _ => rfl, fun _ => rfl⟩
  have h₁ : SameSlices s s₁ := by
    split_ifs at hs₁
    · cases hs₁
      exact ⟨rfl, fun _ => rfl, fun _ => rfl⟩
    · exact (readyListRemove_relinked hs₁).slices
  refine h₁.trans ⟨rfl, ?_, ?_⟩
  · exact s₁.tcb.modify_field Tcb.remainingSlice _ rfl
  · exact s₁.tcb.modify_field Tcb.timeSlice _ rfl

theorem taskYield_slices (h : taskYield cfg s = some s') : SameSlices s s' := by
  unfold taskYield at h
  rcases hc : s.currentTask with _ | c
  · simp [hc] at h
  simp only [hc, Option.bind_eq_bind, Option.bind_some] at h
  split_ifs at h
  · obtain ⟨s₁, hs₁, h⟩ := Option.bind_eq_some_iff.1 h
    have hset : SameSlices s₁ (s₁.setReady (s₁.tcb c).priority (s₁.tcb c).next) :=
      ⟨rfl, fun _ => rfl, fun _ => rfl⟩
    exact ((readyListAdd_relinked hs₁).slices.trans hset).trans (scheduleLocked_slices h)
  · exact scheduleLocked_slices h

theorem Sliced.create (h : Sliced s) (tcb : Option α) (entry : Option ℕ) (priority : ℕ)
    (stack : Option ℕ) : Sliced (taskCreate cfg s tcb entry priority stack).1 := by
  unfold taskCreate
  rcases tcb with _ | t
  · exact h
  dsimp only
  split_ifs
  · exact h
  · exact h
  · exact h
  intro u hu
  by_cases hut : u = t
  · subst hut
    simp
  · have htab : u ∈ s.taskTable := by simpa [hut] using hu
    simpa [hut] using h u htab

/-- A tick takes one from the time slice of the running task, or starts a new one. -/
theorem tickSlice_slices {c : α} (h : tickSlice cfg s c = some s') : s'.taskTable = s.taskTable ∧
    (∀ u, u ≠ c → (s'.tcb u).remainingSlice = (s.tcb u).remainingSlice) ∧
    (∀ u, (s'.tcb u).timeSlice = (s.tcb u).timeSlice) ∧
    ((s.tcb c).remainingSlice = 1 → (s.tcb c).timeSlice = 10 →
      (s'.tcb c).remainingSlice = 10) ∧
    ((s.tcb c).remainingSlice ≠ 0 → (s.tcb c).remainingSlice ≠ 1 →
      (s'.tcb c).remainingSlice = (s.tcb c).remainingSlice - 1) := by
  unfold tickSlice at h
  dsimp only at h
  simp only [Sched.modify_tcb, Lib.Store.modify_self, Port.tickPred_eq_zero] at h
  split_ifs at h with hlast
  · have hs := taskYield_slices h
    refine ⟨hs.taskTable, fun u hu => ?_, fun u => ?_, fun _ hten => ?_,
      fun _ hne => absurd hlast hne⟩
    · rw [hs.remainingSlice]
      simp [hu]
    · rw [hs.timeSlice]
      by_cases hu : u = c
      · subst hu
        simp
      · simp [hu]
    · rw [hs.remainingSlice]
      simp only [Sched.modify_tcb, Lib.Store.modify_self, hten]
      rcases cfg.port
      · rfl
      · rfl
  · cases h
    refine ⟨rfl, fun u hu => ?_, fun u => ?_, fun h1 => absurd h1 hlast, fun h0 _ => ?_⟩
    · simp [hu]
    · exact s.tcb.modify_field Tcb.timeSlice c rfl u
    · simp [cfg.port.tickPred_of_pos h0]

theorem Sliced.tickSlice (h : Sliced s) {c : α} (hs : tickSlice cfg s c = some s') : Sliced s' := by
  obtain ⟨htab, hother, htime, hnew, hless⟩ := tickSlice_slices hs
  intro u hu
  obtain ⟨hne, hle, hten⟩ := h u (htab ▸ hu)
  rw [htime]
  by_cases huc : u = c
  · subst huc
    by_cases hlast : (s.tcb u).remainingSlice = 1
    · rw [hnew hlast hten]
      exact ⟨by decide, by decide, hten⟩
    · rw [hless hne hlast]
      exact ⟨by omega, by omega, hten⟩
  · rw [hother u huc]
    exact ⟨hne, hle, hten⟩

theorem Sliced.taskStart (h : Sliced s) {tcb : Option α} {st : Status}
    (hs : taskStart cfg s tcb = some (s', st)) : Sliced s' := by
  unfold Gracemont.taskStart at hs
  rcases tcb with _ | t
  · cases hs
    exact h
  dsimp only at hs
  split_ifs at hs
  swap
  · cases hs
    exact h
  obtain ⟨s₁, hs₁, hs⟩ := Option.bind_eq_some_iff.1 hs
  have h₁ := h.same (readyListAdd_relinked hs₁).slices
  split at hs
  · split_ifs at hs
    · obtain ⟨s₂, hs₂, hs⟩ := Option.bind_eq_some_iff.1 hs
      cases hs
      exact h₁.same (taskYield_slices hs₂)
    · cases hs
      exact h₁
  · cases hs
    exact h₁

theorem wakeSleepers_slices {l : List α} (h : l.foldlM wakeSleeper s = some s') :
    SameSlices s s' := by
  induction l generalizing s with
  | nil =>
    cases h
    exact ⟨rfl, fun _ => rfl, fun _ => rfl⟩
  | cons t l ih =>
    obtain ⟨s₁, hs₁, h⟩ := Option.bind_eq_some_iff.1 h
    refine SameSlices.trans ?_ (ih h)
    unfold wakeSleeper at hs₁
    split_ifs at hs₁
    · exact (readyListAdd_relinked hs₁).slices
    all_goals
      cases hs₁
      exact ⟨rfl, fun _ => rfl, fun _ => rfl⟩

theorem Sliced.schedulerStart (h : Sliced s) (hs : schedulerStart cfg s = some s') : Sliced s' := by
  unfold Gracemont.schedulerStart at hs
  dsimp only at hs
  have hidle : Sliced (taskCreate cfg s (some cfg.idleTcb) (some 0) 0 (some 0)).1 :=
    h.create _ _ _ _
  have h₁ := hidle.same (SameSlices.modify _ cfg.idleTcb (f := fun t => { t with state := .ready })
    (fun _ => rfl) fun _ => rfl)
  generalize Sched.modify _ cfg.idleTcb _ = s₁ at hs h₁
  split_ifs at hs
  · cases hs
    exact h₁.same ⟨rfl, fun u => s₁.tcb.modify_field Tcb.remainingSlice _ rfl u,
      fun u => s₁.tcb.modify_field Tcb.timeSlice _ rfl u⟩
  · obtain ⟨s₂, hs₂, hs⟩ := Option.bind_eq_some_iff.1 hs
    cases hs
    have hpicked : Sliced { s₁ with currentTask := some (getHighestReady cfg s₁) } := h₁
    exact (hpicked.same (readyListRemove_relinked hs₂).slices).same ⟨rfl, fun u => s₂.tcb.modify_field Tcb.remainingSlice _ rfl u,
      fun u => s₂.tcb.modify_field Tcb.timeSlice _ rfl u⟩

/-- **The tasks keep time slices** of one to ten ticks. -/
theorem Sliced.step (h : Sliced s) {op : Op α} (hs : step cfg s op = some s') : Sliced s' := by
  cases op with
  | taskCreate tcb entry priority stack =>
    simp only [Gracemont.step] at hs
    split_ifs at hs
    cases hs
    exact h.create tcb entry priority stack
  | taskStart tcb =>
    simp only [Gracemont.step] at hs
    split_ifs at hs
    obtain ⟨⟨s₁, st⟩, hs₁, rfl⟩ := Option.map_eq_some_iff.1 hs
    exact h.taskStart hs₁
  | taskYield =>
    simp only [Gracemont.step] at hs
    split_ifs at hs
    exact h.same (taskYield_slices hs)
  | taskSleep ticks =>
    simp only [Gracemont.step] at hs
    split_ifs at hs
    obtain ⟨c, -, hs⟩ := Option.bind_eq_some_iff.1 hs
    refine h.same (SameSlices.trans ?_ (scheduleLocked_slices hs))
    exact SameSlices.modify s c (fun _ => rfl) fun _ => rfl
  | taskTerminate =>
    simp only [Gracemont.step] at hs
    split_ifs at hs
    obtain ⟨c, -, hs⟩ := Option.bind_eq_some_iff.1 hs
    refine h.same (SameSlices.trans ?_ (scheduleLocked_slices hs))
    exact SameSlices.modify s c (fun _ => rfl) fun _ => rfl
  | schedulerTick =>
    simp only [Gracemont.step, schedulerTick_eq] at hs
    obtain ⟨s₁, hs₁, hs⟩ := Option.bind_eq_some_iff.1 hs
    have hnow : SameSlices s { s with systemTicks := tickNow cfg s } :=
      ⟨rfl, fun _ => rfl, fun _ => rfl⟩
    have h₁ : Sliced s₁ := h.same (hnow.trans (wakeSleepers_slices hs₁))
    split at hs
    · split at hs
      · cases hs
      · cases hs
        exact h₁
    · split_ifs at hs
      · cases hs
        exact h₁
      · exact h₁.tickSlice hs
  | schedulerStart =>
    simp only [Gracemont.step] at hs
    split_ifs at hs
    exact h.schedulerStart hs
  | clock now =>
    simp only [Gracemont.step] at hs
    split at hs
    · cases hs
    · cases hs
      exact h

end

/-! ## Turns -/

/-- What a call that takes `d` ticks means for a task `t` that waits behind `a` while
    `c` runs: `c` goes on, or the first task of `a` has its turn. -/
inductive Turn (s s' : Sched α) (t c : α) (a : List α) (d : ℕ) : Prop
  | same : s'.currentTask = some c → AheadOf s' t a →
      (s'.tcb c).remainingSlice + d = (s.tcb c).remainingSlice → Turn s s' t c a d
  | next {x : α} {l : List α} : a = x :: l → s'.currentTask = some x → AheadOf s' t l →
      Turn s s' t c a d

variable {cfg : SchedConfig α} {s s' : Sched α} {Q : ℕ → List α} {t c : α} {a b : List α}

theorem Core.ahead (h : Core cfg s Q) (hQ : Q (s.tcb t).priority = a ++ t :: b) :
    AheadOf s t a := ⟨b, hQ ▸ h.queues.ring _⟩

theorem Core.ahead_iff (h : Core cfg s Q) :
    AheadOf s t a ↔ ∃ b, Q (s.tcb t).priority = a ++ t :: b := by
  constructor
  · rintro ⟨b, hb⟩
    exact ⟨b, (h.queues.unique hb).symm⟩
  · rintro ⟨b, hb⟩
    exact h.ahead hb

variable [DecidableEq α]

/-- **`schedule_locked`** gives the processor to the first of the tasks in front of a
    task that goes on waiting. -/
theorem Core.schedule_turn (h : Core cfg s Q) (hQ : Q (s.tcb t).priority = a ++ t :: b)
    (hprio : 0 < (s.tcb t).priority) (hcur : ∀ x ∈ a, s.currentTask ≠ some x)
    (hs : scheduleLocked cfg s = some s') (hw : Queues t s') :
    (s'.tcb t).priority = (s.tcb t).priority ∧
      ∃ x l, a = x :: l ∧ s'.currentTask = some x ∧ AheadOf s' t l := by
  obtain ⟨hempty, -⟩ | ⟨q, x, l, hQx, hhi, hx⟩ := h.highest
  · rw [hempty] at hQ
    simp at hQ
  have hxQ : x ∈ Q q := by simp [hQx]
  have hqp : (s.tcb t).priority ≤ q := by
    by_contra hlt
    rw [hhi _ (by omega)] at hQ
    simp at hQ
  have hxi : x ≠ cfg.idleTcb := by
    rintro rfl
    have hq := h.idle_mem hxQ
    omega
  have htab : x ∈ s.taskTable := (h.known q x hxQ).resolve_right hxi
  have hxprio : (s.tcb x).priority = q := h.queues.prio q x hxQ
  obtain ⟨hstill, rfl⟩ | ⟨-, s₁, hs₁, rfl⟩ := scheduleLocked_cases hs
  · -- only the running task could be picked again, and it does not wait before `t`
    rw [hx] at hstill
    have hq : q = (s'.tcb t).priority := by
      have hle := hw.quiet x htab (.inl (h.ready q x hxQ))
      omega
    rw [← hq, hQx] at hQ
    rcases a with _ | ⟨y, l'⟩
    · obtain rfl : x = t := (List.cons.inj hQ).1
      exact absurd hstill hw.notCurrent
    · obtain rfl : x = y := (List.cons.inj hQ).1
      exact absurd hstill (hcur x (by simp))
  · rw [hx, if_neg hxi] at hs₁
    obtain ⟨hqueues, hrel, -⟩ := readyListRemove_of_head h.queues hQx hs₁
    simp only [hx] at hw ⊢
    generalize hf : (fun b : Tcb α => ({ b with state := .running, switches := _ } : Tcb α)) = f at hw ⊢
    have hprios : ∀ u, ((s₁.modify x f).tcb u).priority = (s.tcb u).priority := by
      intro u
      refine (s₁.tcb.modify_field Tcb.priority x ?_ u).trans (hrel.priority u)
      rw [← hf]
    have hq : q = (s.tcb t).priority := by
      have hle := hw.quiet x (by show x ∈ s₁.taskTable; rw [hrel.taskTable]; exact htab)
        (.inr (by simp [← hf]))
      have hle' : ((s₁.modify x f).tcb x).priority ≤ ((s₁.modify x f).tcb t).priority := hle
      rw [hprios, hprios] at hle'
      omega
    subst hq
    refine ⟨hprios t, ?_⟩
    rw [hQx] at hQ
    rcases a with _ | ⟨y, l'⟩
    · obtain rfl : x = t := (List.cons.inj hQ).1
      exact absurd rfl hw.notCurrent
    obtain ⟨rfl, rfl⟩ := List.cons.inj hQ
    refine ⟨x, l', rfl, rfl, b, ?_⟩
    have hring := hqueues.ring (s.tcb t).priority
    rw [Function.update_self] at hring
    have hprio' : ((s₁.modify x f).tcb t).priority = (s.tcb t).priority := hprios t
    show Lib.Ring (s₁.modify x f).tcb.next (s₁.modify x f).tcb.prev
      (s₁.readyList ((s₁.modify x f).tcb t).priority) (l' ++ t :: b)
    rw [hprio']
    refine hring.congr (fun u _ => ?_) fun u _ => ?_
    · exact s₁.tcb.modify_field Tcb.next x (by rw [← hf]) u
    · exact s₁.tcb.modify_field Tcb.prev x (by rw [← hf]) u

/-- `task_yield` by the running task. -/
theorem Core.yield_turn (h : Core cfg s Q) (hQ : Q (s.tcb t).priority = a ++ t :: b)
    (hprio : 0 < (s.tcb t).priority) (hcur : s.currentTask = some c)
    (hrun : (s.tcb c).state = .running) (hknown : c ∈ s.taskTable ∨ c = cfg.idleTcb)
    (hle : (s.tcb c).priority ≤ (s.tcb t).priority) (hs : taskYield cfg s = some s')
    (hw : Queues t s') : (s'.tcb t).priority = (s.tcb t).priority ∧
      ∃ x l, a = x :: l ∧ s'.currentTask = some x ∧ AheadOf s' t l := by
  have htm : t ∈ Q (s.tcb t).priority := by simp [hQ]
  have hcQ : ∀ p, c ∉ Q p := h.not_mem (by simp [hrun])
  obtain ⟨s₁, -, hy, h₁, hrel, -⟩ := h.requeue hcur hrun hknown
    (Nat.lt_of_le_of_lt hle (h.bound _ t htm))
  obtain ⟨b', hQ'⟩ : ∃ b', enqueue Q (s.tcb c).priority c (s₁.tcb t).priority = a ++ t :: b' := by
    rw [hrel.priority]
    by_cases heq : (s.tcb t).priority = (s.tcb c).priority
    · rw [heq, enqueue_self, ← heq, hQ]
      exact ⟨b ++ [c], by simp⟩
    · exact ⟨b, by rw [enqueue, Function.update_of_ne heq, hQ]⟩
  rw [hy] at hs
  rw [← hrel.priority t]
  refine h₁.schedule_turn hQ' (by rw [hrel.priority]; exact hprio) (fun x hx he => ?_) hs hw
  rw [hrel.currentTask, hcur] at he
  obtain rfl := Option.some.inj he
  exact hcQ (s.tcb t).priority (by rw [hQ]; simp [hx])

/-- The running task leaves, blocked or terminated. -/
theorem Inv.leave_turn (h : Inv cfg s Q) (hQ : Q (s.tcb t).priority = a ++ t :: b)
    (hprio : 0 < (s.tcb t).priority) (hcur : s.currentTask = some c) (hc : c ≠ cfg.idleTcb)
    {f : Tcb α → Tcb α} (hs : scheduleLocked cfg (s.modify c f) = some s')
    (hfp : ∀ u, (f u).priority = u.priority) (hfs : ∀ u, (f u).state ≠ .ready) (hw : Queues t s') :
    (s'.tcb t).priority = (s.tcb t).priority ∧
      ∃ x l, a = x :: l ∧ s'.currentTask = some x ∧ AheadOf s' t l := by
  have hcQ : ∀ p, c ∉ Q p := h.not_mem (by simp [h.running c hcur])
  have h₁ : Core cfg (s.modify c f) Q :=
    h.toCore.leave (h.running c hcur) ((h.current c hcur).resolve_right hc) hc hfp hfs
  have hp : ((s.modify c f).tcb t).priority = (s.tcb t).priority :=
    s.tcb.modify_field Tcb.priority c (hfp _) t
  rw [← hp]
  refine h₁.schedule_turn (by rw [hp]; exact hQ) (by rw [hp]; exact hprio) (fun x hx he => ?_) hs hw
  obtain rfl : c = x := Option.some.inj (hcur.symm.trans he)
  exact hcQ (s.tcb t).priority (by rw [hQ]; simp [hx])

/-- A call, and the task `t` waits: it is on its list, behind `a`, and `c` runs. -/
structure Waiting (cfg : SchedConfig α) (s : Sched α) (Q : ℕ → List α) (t c : α) (a b : List α) :
    Prop extends Inv cfg s Q where
  queue : Q (s.tcb t).priority = a ++ t :: b
  positive : 0 < (s.tcb t).priority
  cur : s.currentTask = some c
  notIdle : c ≠ cfg.idleTcb
  waits : Queues t s

namespace Waiting
variable (h : Waiting cfg s Q t c a b)
include h

omit [DecidableEq α] in
theorem mem : t ∈ Q (s.tcb t).priority := by simp [h.queue]

omit [DecidableEq α] in
theorem ne_idle : t ≠ cfg.idleTcb := by
  rintro rfl
  have hp := h.positive
  rw [h.idlePrio] at hp
  exact Nat.lt_irrefl 0 hp

omit [DecidableEq α] in
theorem tab : t ∈ s.taskTable := (h.known _ t h.mem).resolve_right h.ne_idle

omit [DecidableEq α] in
theorem cur_tab : c ∈ s.taskTable := (h.current c h.cur).resolve_right h.notIdle

omit [DecidableEq α] in
theorem cur_le : (s.tcb c).priority ≤ (s.tcb t).priority :=
  h.waits.quiet c h.cur_tab (.inr (h.running c h.cur))

omit [DecidableEq α] in
/-- While a task of positive priority waits, every call is safe but `task_create`. -/
theorem safe {op : Op α} (hfree : CreatesFree cfg s op) : Safe cfg s op := by
  have hready : ∃ p, OnReadyList s p t := ⟨_, h.on_iff.2 h.mem⟩
  have hover : ∀ due x, s.currentTask = some x → Handover cfg s due x := by
    intro due x hx
    obtain rfl : c = x := Option.some.inj (h.cur.symm.trans hx)
    have hp := h.positive
    exact ⟨t, h.ne_idle, .inl hready, h.cur_le, fun h0 => by omega⟩
  cases op with
  | taskCreate tcb entry priority stack => exact hfree
  | taskStart tcb => trivial
  | taskYield => exact hover _
  | taskSleep ticks => exact fun _ => ⟨t, h.ne_idle, hready, h.positive⟩
  | taskTerminate => exact fun _ => ⟨t, h.ne_idle, hready, h.positive⟩
  | schedulerTick => exact fun x hx _ _ => hover _ x hx
  | schedulerStart => trivial
  | clock now => trivial

theorem create {tcb : Option α} {entry : Option ℕ} {priority : ℕ} {stack : Option ℕ}
    (hi : tcb ≠ some cfg.idleTcb) (hfree : Safe cfg s (.taskCreate tcb entry priority stack)) :
    ((taskCreate cfg s tcb entry priority stack).1.tcb t).priority = (s.tcb t).priority ∧
      Turn s (taskCreate cfg s tcb entry priority stack).1 t c a 0 := by
  have hinv := h.toInv.create hi hfree
  have hkeep : ∀ x ∈ s.taskTable, (s.tcb x).state = .ready ∨ (s.tcb x).state = .running →
      (taskCreate cfg s tcb entry priority stack).1.tcb x = s.tcb x := by
    intro x hx hst
    refine taskCreate_of_ne fun y h1 h2 h3 h4 h5 he => ?_
    subst he
    obtain ⟨hready, hrunning⟩ := hfree x h1 h2 h3 h4 h5 hx
    rcases hst with hst | hst
    exacts [hready hst, hrunning hst]
  have ht := hkeep t h.tab (.inl (h.ready _ t h.mem))
  have hc := hkeep c h.cur_tab (.inr (h.running c h.cur))
  obtain ⟨hcur, -⟩ := @taskCreate_scheduler _ cfg s _ tcb entry priority stack
  refine ⟨by rw [ht], .same (hcur.trans h.cur) ?_ (by rw [hc]; rfl)⟩
  exact hinv.ahead (by rw [ht]; exact h.queue)

theorem start {tcb : Option α} {st : Status} (hi : tcb ≠ some cfg.idleTcb)
    (hs : taskStart cfg s tcb = some (s', st)) (hw : Queues t s') :
    (s'.tcb t).priority = (s.tcb t).priority ∧ Turn s s' t c a 0 := by
  have hnothing : (s.tcb t).priority = (s.tcb t).priority ∧ Turn s s t c a 0 :=
    ⟨rfl, .same h.cur (h.ahead h.queue) rfl⟩
  unfold taskStart at hs
  rcases tcb with _ | u
  · cases hs
    exact hnothing
  simp only at hs
  split_ifs at hs with hsus
  swap
  · cases hs
    exact hnothing
  have hui : u ≠ cfg.idleTcb := fun he => hi (he ▸ rfl)
  have hu : u ∈ s.taskTable := by
    by_contra hm
    rw [h.fresh u hm hui] at hsus
    cases hsus
  obtain ⟨s₁, hs₁, h₁, hrel, hst⟩ := h.toCore.add (h.not_mem (by simp [hsus])) (.inl hu)
    (h.prio u hu)
  -- the task started joins at the end of its list
  obtain ⟨b', hQ'⟩ : ∃ b', enqueue Q (s.tcb u).priority u (s₁.tcb t).priority = a ++ t :: b' := by
    rw [hrel.priority]
    by_cases heq : (s.tcb t).priority = (s.tcb u).priority
    · rw [heq, enqueue_self, ← heq, h.queue]
      exact ⟨b ++ [u], by simp⟩
    · exact ⟨b, by rw [enqueue, Function.update_of_ne heq, h.queue]⟩
  have hcu : c ≠ u := by
    rintro rfl
    rw [h.running c h.cur] at hsus
    cases hsus
  have hrun₁ : (s₁.tcb c).state = .running := by
    rw [hst, if_neg hcu]
    exact h.running c h.cur
  have hcur₁ : s₁.currentTask = some c := hrel.currentTask.trans h.cur
  have hjoined : (s₁.tcb t).priority = (s.tcb t).priority ∧ Turn s s₁ t c a 0 := by
    refine ⟨hrel.priority t, .same hcur₁ (h₁.ahead hQ') ?_⟩
    rw [hrel.remainingSlice]
    rfl
  simp only [hs₁, Option.bind_eq_bind, Option.bind_some] at hs
  split at hs
  · rename_i cur hrun hcur
    obtain rfl : c = cur := Option.some.inj (hcur₁.symm.trans hcur)
    split_ifs at hs
    · obtain ⟨s₂, hs₂, hs⟩ := Option.bind_eq_some_iff.1 hs
      cases hs
      obtain ⟨hp, x, l, ha, hx, hahead⟩ := h₁.yield_turn hQ' (by rw [hrel.priority]; exact h.positive)
        hcur₁ hrun₁ (.inl (by rw [hrel.taskTable]; exact h.cur_tab))
        (by rw [hrel.priority, hrel.priority]; exact h.cur_le) hs₂ hw
      exact ⟨hp.trans (hrel.priority t), .next ha hx hahead⟩
    · cases hs
      exact hjoined
  · cases hs
    exact hjoined

theorem tick (hsliced : Sliced s) (hs : schedulerTick cfg s = some s') (hw : Queues t s') :
    (s'.tcb t).priority = (s.tcb t).priority ∧ Turn s s' t c a 1 := by
  obtain ⟨s₁, Q₁, hs₁, hwoken, -⟩ := Core.wakeSleepers (L := s.taskTable) (Q := Q)
    (s := { s with systemTicks := tickNow cfg s })
    (h.toCore.congr rfl rfl (fun _ => rfl) (fun _ => rfl) (fun _ => rfl) fun _ => rfl)
    fun _ ht => ht
  rw [schedulerTick_eq, hs₁, Option.bind_some] at hs
  have hprio₁ : ∀ u, (s₁.tcb u).priority = (s.tcb u).priority := hwoken.relinked.priority
  have hcur₁ : s₁.currentTask = some c := hwoken.relinked.currentTask.trans h.cur
  have hrun₁ : (s₁.tcb c).state = .running := by
    rw [hwoken.awake c (by simp [h.running c h.cur])]
    exact h.running c h.cur
  have hslice₁ : (s₁.tcb c).remainingSlice = (s.tcb c).remainingSlice :=
    hwoken.relinked.remainingSlice c
  -- sleepers join at the end of their lists
  obtain ⟨w, hgrow, -⟩ := hwoken.grows (s.tcb t).priority
  have hQ₁ : Q₁ (s₁.tcb t).priority = a ++ t :: (b ++ w) := by
    rw [hprio₁, hgrow, h.queue]
    simp
  simp only [hcur₁, if_neg h.notIdle] at hs
  obtain ⟨f, hf, heq⟩ := tickSlice_cases cfg s₁ c
  have hpf : ∀ u, ((s₁.modify c f).tcb u).priority = (s₁.tcb u).priority :=
    s₁.tcb.modify_field Tcb.priority c (hf.priority _)
  have hslices := tickSlice_slices hs
  rw [heq] at hs
  split_ifs at hs with hlast
  · obtain ⟨hp, x, l, ha, hx, hahead⟩ := (hwoken.core.count c hf).yield_turn (c := c)
      (by rw [hpf]; exact hQ₁) (by rw [hpf, hprio₁]; exact h.positive) hcur₁
      (by simpa [hf.state] using hrun₁)
      (.inl (by show c ∈ s₁.taskTable; rw [hwoken.relinked.taskTable]; exact h.cur_tab))
      (by rw [hpf, hpf, hprio₁, hprio₁]; exact h.cur_le) hs hw
    exact ⟨hp.trans ((hpf t).trans (hprio₁ t)), .next ha hx hahead⟩
  · obtain ⟨-, -, -, -, hless⟩ := hslices
    have hne := (hsliced c h.cur_tab).1
    cases hs
    refine ⟨(hpf t).trans (hprio₁ t), .same hcur₁ ?_ ?_⟩
    · exact (hwoken.core.count c hf).ahead (by rw [hpf]; exact hQ₁)
    · rw [hless (by rw [hslice₁]; exact hne) hlast, hslice₁]
      omega

/-- **A call is a turn.** -/
theorem turn (hsliced : Sliced s) {op : Op α} (hfree : CreatesFree cfg s op)
    (hs : step cfg s op = some s') (hw : Queues t s') :
    (s'.tcb t).priority = (s.tcb t).priority ∧
      Turn s s' t c a (if op = .schedulerTick then 1 else 0) := by
  have hrun : s.schedulerRunning = true := h.started.2 (by simp [h.cur])
  have hnext : ((s'.tcb t).priority = (s.tcb t).priority ∧
      ∃ x l, a = x :: l ∧ s'.currentTask = some x ∧ AheadOf s' t l) →
      (s'.tcb t).priority = (s.tcb t).priority ∧ Turn s s' t c a 0 := by
    rintro ⟨hp, x, l, ha, hx, hahead⟩
    exact ⟨hp, .next ha hx hahead⟩
  cases op with
  | taskCreate tcb entry priority stack =>
    simp only [Gracemont.step] at hs
    split_ifs at hs with hi
    cases hs
    exact h.create hi hfree
  | taskStart tcb =>
    simp only [Gracemont.step] at hs
    split_ifs at hs with hi
    obtain ⟨⟨s₁, st⟩, hs₁, rfl⟩ := Option.map_eq_some_iff.1 hs
    exact h.start hi hs₁ hw
  | taskYield =>
    simp only [Gracemont.step] at hs
    split_ifs at hs
    exact hnext (h.yield_turn h.queue h.positive h.cur (h.running c h.cur) (.inl h.cur_tab) h.cur_le
      hs hw)
  | taskSleep ticks =>
    simp only [Gracemont.step] at hs
    split_ifs at hs
    simp only [taskSleep, h.cur, Option.bind_eq_bind, Option.bind_some] at hs
    exact hnext (h.leave_turn h.queue h.positive h.cur h.notIdle hs (fun _ => rfl)
      (fun _ => by simp) hw)
  | taskTerminate =>
    simp only [Gracemont.step] at hs
    split_ifs at hs
    simp only [taskTerminate, h.cur, Option.bind_eq_bind, Option.bind_some] at hs
    exact hnext (h.leave_turn h.queue h.positive h.cur h.notIdle hs (fun _ => rfl)
      (fun _ => by simp) hw)
  | schedulerTick => exact h.tick hsliced hs hw
  | schedulerStart =>
    simp only [Gracemont.step, hrun] at hs
    cases hs
  | clock now =>
    simp only [Gracemont.step] at hs
    split at hs
    · cases hs
    · cases hs
      exact ⟨rfl, .same h.cur (h.ahead h.queue) rfl⟩

end Waiting

/-! ## Waiting for the processor -/

/-- How far a wait has come: `k` tasks of `a` had their turn, the last one runs, and
    `n` ticks have passed. -/
structure Progress (cfg : SchedConfig α) (t c : α) (a : List α) (n k : ℕ) (s : Sched α) : Prop where
  inv : ∃ Q, Inv cfg s Q
  sliced : Sliced s
  positive : 0 < (s.tcb t).priority
  served : k ≤ a.length
  ahead : AheadOf s t (a.drop k)
  cur : s.currentTask = (c :: a)[k]?
  notIdle : s.currentTask ≠ some cfg.idleTcb
  ticks : ∀ x, s.currentTask = some x → n + (s.tcb x).remainingSlice ≤ 10 * (k + 1)

/-- **Step.** -/
theorem Progress.step {n k : ℕ} (h : Progress cfg t c a n k s) (hw : Queues t s) {op : Op α}
    (hfree : CreatesFree cfg s op) (hs : step cfg s op = some s') (hw' : Queues t s') :
    ∃ k', Progress cfg t c a (n + if op = .schedulerTick then 1 else 0) k' s' := by
  obtain ⟨Q, hinv⟩ := h.inv
  obtain ⟨b, hQ⟩ := hinv.ahead_iff.1 h.ahead
  have hk : k < (c :: a).length := Nat.lt_succ_of_le h.served
  have hcur := h.cur
  rw [List.getElem?_eq_getElem hk] at hcur
  generalize (c :: a)[k] = y at hcur
  have hwaiting : Waiting cfg s Q t y (a.drop k) b :=
    ⟨hinv, hQ, h.positive, hcur, fun he => h.notIdle (he ▸ hcur), hw⟩
  obtain ⟨hp, hturn⟩ := hwaiting.turn h.sliced hfree hs hw'
  have hticks := h.ticks y hcur
  have hinv' := hinv.step (hwaiting.safe hfree) hs
  have hsliced' := h.sliced.step hs
  have hpos' : 0 < (s'.tcb t).priority := hp ▸ h.positive
  rcases hturn with ⟨hcur', hahead, hslice⟩ | ⟨ha, hcur', hahead⟩
  · -- the same task goes on
    have hsame : s'.currentTask = s.currentTask := hcur'.trans hcur.symm
    refine ⟨k, hinv', hsliced', hpos', h.served, hahead, hsame.trans h.cur, ?_, fun x hx => ?_⟩
    · rw [hsame]
      exact h.notIdle
    · obtain rfl : y = x := Option.some.inj (hcur'.symm.trans hx)
      omega
  · -- the next one has its turn
    rename_i x l
    have hlt : k < a.length := by
      by_contra hge
      rw [List.drop_eq_nil_of_le (by omega)] at ha
      cases ha
    rw [List.drop_eq_getElem_cons hlt] at ha
    obtain ⟨hx, hl⟩ := List.cons.inj ha
    have hxQ : x ∈ Q (s.tcb t).priority := by
      rw [hQ, List.drop_eq_getElem_cons hlt, hx]
      simp
    have hxi : x ≠ cfg.idleTcb := by
      rintro rfl
      have h0 := hinv.idle_mem hxQ
      have hpos := h.positive
      omega
    refine ⟨k + 1, hinv', hsliced', hpos', hlt, by rw [hl]; exact hahead, ?_, ?_, fun z hz => ?_⟩
    · rw [hcur', List.getElem?_cons_succ, List.getElem?_eq_getElem hlt, hx]
    · rw [hcur']
      exact fun he => hxi (Option.some.inj he)
    · obtain rfl : x = z := Option.some.inj (hcur'.symm.trans hz)
      obtain ⟨Q', hQ'⟩ := hinv'
      obtain ⟨-, hle, -⟩ := hsliced' x ((hQ'.current x hcur').resolve_right hxi)
      have hone := (h.sliced y hwaiting.cur_tab).1
      have hle10 : (s'.tcb x).remainingSlice ≤ 10 := hle
      have hpos : 0 < (s.tcb y).remainingSlice := by omega
      split_ifs
      · omega
      · omega

/-- **Round robin.**  A ready task of positive priority, behind the tasks `a` on its
    list, while a task `c` other than the idle task is the current one: as long as it
    waits, with no task of a higher priority ready or running, `k` of the tasks of `a`
    have had their turn, in the order of the list, the last of them is the current
    one, and there were fewer than `10 * (k + 1)` ticks. -/
theorem round_robin {tr : List (Op α)} (h : ((schedLts cfg).restrict (Safe cfg)).Run tr s)
    (hahead : AheadOf s t a) (hprio : 0 < (s.tcb t).priority) (hcur : s.currentTask = some c)
    (hc : c ≠ cfg.idleTcb) {ops : List (Op α)}
    (hwait : ((schedLts cfg).restrict (CreatesFree cfg)).Stays (Queues t) s ops s') :
    ∃ k ≤ a.length, AheadOf s' t (a.drop k) ∧ s'.currentTask = (c :: a)[k]? ∧
      ops.count .schedulerTick < 10 * (k + 1) := by
  obtain ⟨⟨Q, hinv⟩, hsliced⟩ : (∃ Q, Inv cfg s Q) ∧ Sliced s := by
    refine h.rule (P := fun _ s => (∃ Q, Inv cfg s Q) ∧ Sliced s) ?_ ?_
    · rintro s rfl
      exact ⟨⟨_, inv_boot cfg⟩, fun u hu => by cases hu⟩
    · rintro tr s e s' ⟨⟨Q, hQ⟩, hsliced⟩ ⟨hsafe, hs⟩
      exact ⟨hQ.step hsafe hs, hsliced.step hs⟩
  have hgoes : Queues t s' ∧ ∃ k, Progress cfg t c a (ops.count .schedulerTick) k s' := by
    refine hwait.rule (I := fun ops s' => ∃ k, Progress cfg t c a (ops.count .schedulerTick) k s')
      (fun _ => ?_) ?_
    · refine ⟨0, ⟨Q, hinv⟩, hsliced, hprio, Nat.zero_le _, hahead, hcur, ?_, fun x hx => ?_⟩
      · rw [hcur]
        exact fun he => hc (Option.some.inj he)
      · obtain rfl : c = x := Option.some.inj (hcur.symm.trans hx)
        have hle : (s.tcb c).remainingSlice ≤ 10 :=
          (hsliced c ((hinv.current c hcur).resolve_right hc)).2.1
        simpa using hle
    · rintro ops s₁ op s₂ hw ⟨k, hk⟩ ⟨hfree, hs⟩ hw'
      obtain ⟨k', hk'⟩ := hk.step hw hfree hs hw'
      refine ⟨k', ?_⟩
      have hcount : (ops ++ [op]).count .schedulerTick =
          ops.count .schedulerTick + if op = .schedulerTick then 1 else 0 := by
        rw [List.count_append, List.count_singleton]
        simp
      rw [hcount]
      exact hk'
  obtain ⟨-, k, hk⟩ := hgoes
  refine ⟨k, hk.served, hk.ahead, hk.cur, ?_⟩
  have hlt : k < (c :: a).length := Nat.lt_succ_of_le hk.served
  have hlast := hk.cur
  rw [List.getElem?_eq_getElem hlt] at hlast
  obtain ⟨Q', hQ'⟩ := hk.inv
  have htab : (c :: a)[k] ∈ s'.taskTable := by
    refine (hQ'.current _ hlast).resolve_right fun he => hk.notIdle ?_
    rw [hlast, he]
  have hne := (hk.sliced _ htab).1
  have hpos : 0 < (s'.tcb (c :: a)[k]).remainingSlice := by omega
  have hticks := hk.ticks _ hlast
  omega

/-- Three tasks of one priority. -/
def demoThree : List (Op (Fin 4)) :=
  [.taskCreate (some 1) (some 0) 1 (some 0), .taskCreate (some 2) (some 0) 1 (some 0),
    .taskCreate (some 3) (some 0) 1 (some 0), .taskStart (some 1), .taskStart (some 2),
    .taskStart (some 3), .schedulerStart]

def demoThreeConfig : SchedConfig (Fin 4) := ⟨.arm64, 8, 16, 0⟩

theorem demoThree_runs : (Lib.Lts.exec (step demoThreeConfig) .boot demoThree).isSome := by
  decide +kernel

/-- The first one runs, the second one is next. -/
def demoThreeStarted : Sched (Fin 4) :=
  (Lib.Lts.exec (step demoThreeConfig) .boot demoThree).get demoThree_runs

theorem demoThree_ticks : (Lib.Lts.exec (step demoThreeConfig) demoThreeStarted
    (List.replicate 12 .schedulerTick)).isSome := by decide +kernel

theorem demoThree_waits : ∀ i ≤ 12, Queues 3 ((Lib.Lts.exec (step demoThreeConfig) demoThreeStarted
    ((List.replicate 12 .schedulerTick).take i)).getD demoThreeStarted) := by decide +kernel

/-- After twelve ticks the second one runs, and the third one is next. -/
theorem round_robin_three : ∃ s', Lib.Lts.exec (step demoThreeConfig) demoThreeStarted
    (List.replicate 12 .schedulerTick) = some s' ∧ AheadOf s' 3 [] ∧ s'.currentTask = some 2 := by
  have hrun : ((schedLts demoThreeConfig).restrict (Safe demoThreeConfig)).Run demoThree
      demoThreeStarted := by
    refine Lib.Lts.run_exec_restrict rfl (Option.some_get demoThree_runs).symm fun i hi => ?_
    have hi : i = 0 ∨ i = 1 ∨ i = 2 ∨ 3 ≤ i ∧ i < 7 := by
      simp only [demoThree, List.length_cons, List.length_nil] at hi
      omega
    rcases hi with rfl | rfl | rfl | ⟨h3, h7⟩
    · rintro t ⟨⟩
      decide
    · rintro t ⟨⟩
      decide
    · rintro t ⟨⟩
      decide
    · have hi : i = 3 ∨ i = 4 ∨ i = 5 ∨ i = 6 := by omega
      rcases hi with rfl | rfl | rfl | rfl
      all_goals trivial
  obtain ⟨s', hexec⟩ := Option.isSome_iff_exists.1 demoThree_ticks
  refine ⟨s', hexec, ?_⟩
  have hstays : ((schedLts demoThreeConfig).restrict (CreatesFree demoThreeConfig)).Stays (Queues 3)
      demoThreeStarted (List.replicate 12 .schedulerTick) s' := by
    refine Lib.Lts.stays_exec hexec (fun s e he => ?_) fun i hi => demoThree_waits i hi
    rw [List.eq_of_mem_replicate he]
    trivial
  have hahead : AheadOf demoThreeStarted 3 [2] := ⟨[], by decide +kernel⟩
  obtain ⟨k, hk, hleft, hcur, hticks⟩ := round_robin hrun hahead (by decide +kernel)
    (c := 1) (by decide +kernel) (by decide) hstays
  -- it is not the turn of the first one for twelve ticks
  obtain rfl : k = 1 := by
    rw [List.count_replicate_self] at hticks
    have hone : k ≤ 1 := hk
    omega
  exact ⟨hleft, hcur⟩

end Gracemont
