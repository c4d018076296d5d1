/-
  Gracemont kernel — wait lists beside the ready lists (X86_64).

  `Lists` names the queues of the ready lists and the members of the wait lists.
  A waiting task is blocked and a queued task is ready, so that the two kinds
  of list are disjoint.  The functions of the scheduler write to queued tasks
  and the running one only (`WaitersKept`); a wake-up moves a task from a wait
  list to a ready list (`Lists.wake`).
-/
import Gracemont.Kernel.EventInv
import Gracemont.Kernel.SchedulerInv

namespace Gracemont

namespace X86

variable {α : Type} {cfg : SchedConfig α} {s s' : Sched α} {Q Q' : ℕ → List α}

/-! ## Waiting tasks -/

/-- No task starts or stops waiting for an object; those that wait stay
    blocked, and keep their links. -/
structure WaitersKept (m m' : Tcbs α) : Prop where
  waitObj : ∀ t, (m' t).waitObj = (m t).waitObj
  keep : ∀ t, (m t).state = .blocked → (m t).waitObj ≠ none →
    (m' t).next = (m t).next ∧ (m' t).prev = (m t).prev ∧ (m' t).state = .blocked

namespace WaitersKept
variable {m m' m'' : Tcbs α}

theorem refl (m : Tcbs α) : WaitersKept m m := ⟨fun _ => rfl, fun _ hb _ => ⟨rfl, rfl, hb⟩⟩

theorem trans (h : WaitersKept m m') (h' : WaitersKept m' m'') : WaitersKept m m'' := by
  refine ⟨fun t => (h'.waitObj t).trans (h.waitObj t), ?_⟩
  intro t hb hw
  obtain ⟨hn, hp, hb'⟩ := h.keep t hb hw
  obtain ⟨hn', hp', hb''⟩ := h'.keep t hb' (by rwa [h.waitObj])
  exact ⟨hn'.trans hn, hp'.trans hp, hb''⟩

/-- Where the blocks of the waiting tasks are left alone. -/
theorem of_eq (hw : ∀ t, (m' t).waitObj = (m t).waitObj)
    (h : ∀ t, (m t).state = .blocked → (m t).waitObj ≠ none → m' t = m t) : WaitersKept m m' := by
  refine ⟨hw, ?_⟩
  intro t hb hwo
  rw [h t hb hwo]
  exact ⟨rfl, rfl, hb⟩

variable [DecidableEq α] {t : α} {f : Tcb α → Tcb α}

/-- Assignment to other fields of a block. -/
theorem modify (hw : ∀ c, (f c).waitObj = c.waitObj) (hn : ∀ c, (f c).next = c.next)
    (hp : ∀ c, (f c).prev = c.prev) (hst : ∀ c, (f c).state = c.state) :
    WaitersKept m (m.modify t f) := by
  refine ⟨m.modify_field Tcb.waitObj _ (hw _), fun x hb _ => ⟨?_, ?_, ?_⟩⟩
  · exact m.modify_field Tcb.next _ (hn _) x
  · exact m.modify_field Tcb.prev _ (hp _) x
  · exact (m.modify_field Tcb.state _ (hst _) x).trans hb

/-- Assignment to a block that waits for nothing. -/
theorem modify_of (ht : (m t).state = .blocked → (m t).waitObj = none)
    (hw : ∀ c, (f c).waitObj = c.waitObj) : WaitersKept m (m.modify t f) := by
  refine .of_eq (m.modify_field Tcb.waitObj _ (hw _)) fun x hb hwo => ?_
  have hxt : x ≠ t := by
    rintro rfl
    exact hwo (ht hb)
  simp [hxt]

end WaitersKept

section
variable [DecidableEq α]

/-- **`ready_list_add`** of a task that waits for nothing. -/
theorem readyListAdd_kept (h : Core cfg s Q) {t : α} (hQ : ∀ p, t ∉ Q p)
    (ht : (s.tcb t).state = .blocked → (s.tcb t).waitObj = none)
    (hs : readyListAdd s t = some s') : WaitersKept s.tcb s'.tcb := by
  refine .of_eq (readyListAdd_relinked hs).waitObj fun x hb hw => ?_
  refine readyListAdd_frame h.queues hQ (h.not_mem (by simp [hb])) ?_ hs
  rintro rfl
  exact hw (ht hb)

/-- **`ready_list_remove`** writes to the neighbours on the ready list only, and
    these are ready. -/
theorem readyListRemove_kept (h : Core cfg s Q) {p : ℕ} {t : α} {l : List α} (hQ : Q p = t :: l)
    (hs : readyListRemove s t = some s') :
    WaitersKept s.tcb s'.tcb ∧ (s'.tcb t).state = .ready := by
  have htm : t ∈ Q p := by simp [hQ]
  obtain ⟨-, hrel, hst⟩ := readyListRemove_of_head h.queues hQ hs
  refine ⟨.of_eq hrel.waitObj fun x hb _ => ?_, (hst t).trans (h.ready p t htm)⟩
  have hxQ : ∀ q, x ∉ Q q := h.not_mem (by simp [hb])
  refine readyListRemove_of_ne hs (fun he => hxQ p (he ▸ htm)) (fun he => ?_) fun he => ?_
  · exact hxQ p ((h.queues.ring p).prev_mem htm he)
  · exact hxQ p ((h.queues.ring p).next_mem htm he)

omit [DecidableEq α] in
/-- The idle task is not blocked. -/
theorem idle_awake (h : Core cfg s Q) : (s.tcb cfg.idleTcb).state ≠ .blocked := by
  intro hb
  have hi := h.idleState
  rw [hb] at hi
  simp at hi

/-- **`schedule_locked`.** -/
theorem scheduleLocked_kept (h : Core cfg s Q) (hs : scheduleLocked cfg s = some s') :
    WaitersKept s.tcb s'.tcb := by
  rcases scheduleLocked_cases hs with ⟨-, rfl⟩ | ⟨-, s₁, hs₁, rfl⟩
  · exact .refl _
  by_cases hi : getHighestReady cfg s = cfg.idleTcb
  · rw [if_pos hi] at hs₁
    cases hs₁
    rw [hi]
    dsimp only [Sched.modify_tcb]
    refine .modify_of (fun hb => absurd hb (idle_awake h)) ?_
    intro c
    rfl
  · rw [if_neg hi] at hs₁
    obtain ⟨p, t, l, hQ, -, ht⟩ := h.highest.resolve_left fun he => hi he.2
    rw [ht] at hs₁ ⊢
    obtain ⟨hkept, hst⟩ := readyListRemove_kept h hQ hs₁
    refine hkept.trans ?_
    dsimp only [Sched.modify_tcb]
    refine .modify_of (fun hb => ?_) ?_
    · rw [hst] at hb
      cases hb
    · intro c
      rfl

/-- **`task_yield`.** -/
theorem taskYield_kept (h : Core cfg s Q) {c : α} (hc : s.currentTask = some c)
    (hk : c ∈ s.taskTable ∨ c = cfg.idleTcb) (hcp : (s.tcb c).priority < cfg.maxPriority)
    (hs : taskYield cfg s = some s') : WaitersKept s.tcb s'.tcb := by
  by_cases hst : (s.tcb c).state = .running
  · obtain ⟨s₁, hs₁, hy, h₁, -⟩ := h.requeue hc hst hk hcp
    rw [hy] at hs
    have hadd : WaitersKept s.tcb s₁.tcb :=
      readyListAdd_kept h (h.not_mem (by simp [hst])) (by simp [hst]) hs₁
    exact hadd.trans (scheduleLocked_kept h₁ hs)
  · have hy : taskYield cfg s = scheduleLocked cfg s := by simp [taskYield, hc, hst]
    rw [hy] at hs
    exact scheduleLocked_kept h hs

/-- **The first loop of `scheduler_tick`** wakes tasks that wait for no object. -/
theorem wakeSleepers_kept {L : List α} (h : Core cfg s Q) (hL : ∀ t ∈ L, t ∈ s.taskTable)
    (hs : L.foldlM wakeSleeper s = some s') :
    WaitersKept s.tcb s'.tcb := by
  refine h.wakeSleepers_rule (P := fun s₁ => WaitersKept s.tcb s₁.tcb) ?_ hL (.refl _) hs
  intro s₁ s₂ Q₁ Q₂ t h₁ hP hs₂ _
  refine hP.trans ?_
  unfold wakeSleeper at hs₂
  split_ifs at hs₂ with hb hdue
  · exact readyListAdd_kept h₁ (h₁.not_mem (by simp [hb.1])) (fun _ => hb.2) hs₂
  · cases hs₂
    exact .refl _
  · cases hs₂
    exact .refl _
  · cases hs₂
    exact .refl _

/-- **`task_create`** with a block that waits for nothing. -/
theorem taskCreate_kept {tcb : Option α} {entry : Option ℕ} {priority : ℕ} {stack : Option ℕ}
    (hfree : ∀ t, tcb = some t → entry ≠ none → stack ≠ none → priority < cfg.maxPriority →
      s.taskTable.length < cfg.maxTasks → (s.tcb t).state ≠ .blocked ∧ (s.tcb t).waitObj = none) :
    WaitersKept s.tcb (taskCreate cfg s tcb entry priority stack).1.tcb := by
  refine .of_eq (fun x => ?_) fun x hb _ => ?_
  · by_cases hx : tcb = some x ∧ entry ≠ none ∧ stack ≠ none ∧ priority < cfg.maxPriority ∧
        s.taskTable.length < cfg.maxTasks
    · obtain ⟨rfl, he, hst, hp, hlen⟩ := hx
      rw [(hfree x rfl he hst hp hlen).2]
      simp [taskCreate, he, hst, Nat.not_le.2 hp, Nat.not_le.2 hlen]
    · rw [taskCreate_of_ne]
      rintro t h1 h2 h3 h4 h5 rfl
      exact hx ⟨h1, h2, h3, h4, h5⟩
  · refine taskCreate_of_ne fun t h1 h2 h3 h4 h5 => ?_
    rintro rfl
    exact (hfree x h1 h2 h3 h4 h5).1 hb

/-- **`scheduler_start`.** -/
theorem schedulerStart_kept (h : Core cfg s Q)
    (hw : (s.tcb cfg.idleTcb).waitObj = none)
    (h₁ : Core cfg ((taskCreate cfg s (some cfg.idleTcb) (some 0) 0 (some 0)).1.modify cfg.idleTcb
      fun t => { t with state := .ready }) Q)
    (hs : schedulerStart cfg s = some s') : WaitersKept s.tcb s'.tcb := by
  have hcreate : WaitersKept s.tcb
      (taskCreate cfg s (some cfg.idleTcb) (some 0) 0 (some 0)).1.tcb := by
    refine taskCreate_kept fun t ht _ _ _ _ => ?_
    obtain rfl := Option.some.inj ht
    exact ⟨idle_awake h, hw⟩
  have hready : WaitersKept s.tcb
      ((taskCreate cfg s (some cfg.idleTcb) (some 0) 0 (some 0)).1.modify cfg.idleTcb
        fun t => { t with state := .ready }).tcb := by
    refine hcreate.trans ?_
    rw [Sched.modify_tcb]
    refine .modify_of (fun _ => (hcreate.waitObj _).trans hw) ?_
    intro c
    rfl
  unfold schedulerStart at hs
  simp only at hs
  generalize (taskCreate cfg s (some cfg.idleTcb) (some 0) 0 (some 0)).1.modify cfg.idleTcb
    (fun t => { t with state := .ready }) = s₁ at hs h₁ hready
  refine hready.trans ?_
  by_cases hid : getHighestReady cfg s₁ = cfg.idleTcb
  · simp only [hid, if_true, Option.bind_eq_bind, Option.bind_some] at hs
    cases hs
    dsimp only [Sched.modify_tcb]
    refine .modify_of (fun hb => absurd hb (idle_awake h₁)) ?_
    intro c
    rfl
  · obtain ⟨p, t, l, hQ, -, ht⟩ := h₁.highest.resolve_left fun he => hid he.2
    rw [ht] at hid hs
    simp only [if_neg hid, Option.bind_eq_bind] at hs
    obtain ⟨s₂, hs₂, hs⟩ := Option.bind_eq_some_iff.1 hs
    obtain ⟨hkept, hst⟩ := readyListRemove_kept (h₁.setCurrent (some t) s₁.schedulerRunning) hQ hs₂
    cases hs
    refine hkept.trans ?_
    dsimp only [Sched.modify_tcb]
    refine .modify_of (fun hb => ?_) ?_
    · rw [hst] at hb
      cases hb
    · intro c
      rfl

end

/-! ## The lists beside each other -/

/-- The ready lists `Q` and the wait lists `W`, reached from `head`. -/
structure Lists (cfg : SchedConfig α) (s : Sched α) (head : WaitObj → Option α)
    (Q : ℕ → List α) (W : WaitObj → List α) : Prop extends Core cfg s Q where
  chain : ∀ o, Lib.Chain s.tcb.next s.tcb.prev (head o) (W o)
  waits : ∀ o t, t ∈ W o ↔ (s.tcb t).waitObj = some o
  asleep : ∀ o, ∀ t ∈ W o, (s.tcb t).state = .blocked

namespace Lists
variable {head : WaitObj → Option α} {W : WaitObj → List α} {o o' : WaitObj} {t c : α}

theorem waiting (h : Lists cfg s head Q W) (ht : t ∈ W o) : (s.tcb t).waitObj ≠ none := by
  rw [(h.waits o t).1 ht]
  simp

/-- A task is not on a wait list and a ready list. -/
theorem unqueued (h : Lists cfg s head Q W) (ht : t ∈ W o) (p : ℕ) : t ∉ Q p :=
  h.not_mem (by simp [h.asleep o t ht]) p

/-- A task is not on two wait lists. -/
theorem apart (h : Lists cfg s head Q W) (ht : t ∈ W o) (ht' : t ∈ W o') : o = o' :=
  Option.some.inj (((h.waits o t).1 ht).symm.trans ((h.waits o' t).1 ht'))

theorem ne_idle (h : Lists cfg s head Q W) (ht : t ∈ W o) : t ≠ cfg.idleTcb := by
  rintro rfl
  have hi := h.idleState
  rw [h.asleep o _ ht] at hi
  simp at hi

theorem mem_table (h : Lists cfg s head Q W) (ht : t ∈ W o) : t ∈ s.taskTable := by
  by_contra hn
  have hst := h.fresh t hn (h.ne_idle ht)
  rw [h.asleep o t ht] at hst
  cases hst

theorem not_waiting (h : Lists cfg s head Q W) (ht : (s.tcb t).state ≠ .blocked) :
    (s.tcb t).waitObj = none := by
  cases hw : (s.tcb t).waitObj with
  | none => rfl
  | some o => exact absurd (h.asleep o t ((h.waits o t).2 hw)) ht

/-- What the scheduler does beside the wait lists. -/
theorem kept (h : Lists cfg s head Q W) (hc : Core cfg s' Q') (hk : WaitersKept s.tcb s'.tcb) :
    Lists cfg s' head Q' W where
  toCore := hc
  chain o := (h.chain o).congr (fun t ht => (hk.keep t (h.asleep o t ht) (h.waiting ht)).1)
    fun t ht => (hk.keep t (h.asleep o t ht) (h.waiting ht)).2.1
  waits o t := by
    rw [hk.waitObj]
    exact h.waits o t
  asleep o t ht := (hk.keep t (h.asleep o t ht) (h.waiting ht)).2.2

/-- The list of the object `o` becomes `l`, and the tasks on the other wait lists
    stay there. -/
theorem change (h : Lists cfg s head Q W) {list : Option α} {l : List α} (hcore : Core cfg s' Q')
    (hchain : Lib.Chain s'.tcb.next s'.tcb.prev list l)
    (hwaits : ∀ t, t ∈ l ↔ (s'.tcb t).waitObj = some o)
    (hasleep : ∀ t ∈ l, (s'.tcb t).state = .blocked)
    (hother : ∀ o', o' ≠ o → ∀ t, ((s'.tcb t).waitObj = some o' ↔ t ∈ W o') ∧
      (t ∈ W o' → s'.tcb t = s.tcb t)) :
    Lists cfg s' (Function.update head o list) Q' (Function.update W o l) := by
  refine ⟨hcore, fun o' => ?_, fun o' t => ?_, fun o' t ht => ?_⟩
  · by_cases ho : o' = o
    · subst ho
      simpa using hchain
    · rw [Function.update_of_ne ho, Function.update_of_ne ho]
      exact (h.chain o').congr (fun x hx => congrArg Tcb.next ((hother o' ho x).2 hx))
        fun x hx => congrArg Tcb.prev ((hother o' ho x).2 hx)
  · by_cases ho : o' = o
    · subst ho
      simpa using hwaits t
    · rw [Function.update_of_ne ho]
      exact (hother o' ho t).1.symm
  · by_cases ho : o' = o
    · subst ho
      exact hasleep t (by simpa using ht)
    · rw [Function.update_of_ne ho] at ht
      rw [(hother o' ho t).2 ht]
      exact h.asleep o' t ht

variable [DecidableEq α]

/-- **Going to sleep.**  The running task joins the wait list of the object. -/
theorem block (h : Lists cfg s head Q W) (hst : (s.tcb c).state = .running)
    (hct : c ∈ s.taskTable) (hci : c ≠ cfg.idleTcb) (o : WaitObj) :
    Lists cfg { s with tcb := (blockOn s.tcb (head o) o c).1 } (Function.update head o (some c)) Q
      (Function.update W o (c :: W o)) := by
  have hcW : ∀ o', c ∉ W o' := by
    intro o' hm
    rw [h.asleep o' c hm] at hst
    cases hst
  obtain ⟨m, hm, hc, hsc, hwc, hother, -⟩ := blockOn_spec o (h.chain o) (hcW o)
  -- nothing is written but to the task and the first one of the list
  have hsame : ∀ x, x ≠ c → x ∉ W o → m x = s.tcb x := by
    intro x hx hxW
    have hb := blockOn_frame (h.chain o) o hx hxW
    rwa [hm] at hb
  have hprio : ∀ x, (m x).priority = (s.tcb x).priority := by
    intro x
    have hp : ((blockOn s.tcb (head o) o c).1 x).priority = _ := blockOn_priority
    rwa [hm] at hp
  have hleft : Core cfg (s.modify c fun t => { t with state := .blocked, waitObj := some o }) Q :=
    h.toCore.leave hst hct hci (fun _ => rfl) fun _ => by simp
  have hQ : ∀ p, ∀ x ∈ Q p, m x = s.tcb x ∧ x ≠ c := by
    intro p x hx
    have hxc : x ≠ c := by
      rintro rfl
      exact h.not_mem (by simp [hst]) p hx
    exact ⟨hsame x hxc fun hxW => h.unqueued hxW p hx, hxc⟩
  rw [hm]
  refine h.change (hleft.relink rfl rfl ?_ ?_ ?_ ?_) hc ?_ ?_ ?_
  · intro p x hx
    obtain ⟨hx, hxc⟩ := hQ p x hx
    simp [hx, hxc]
  · intro p x hx
    obtain ⟨hx, hxc⟩ := hQ p x hx
    simp [hx, hxc]
  · intro x
    exact (hprio x).trans (s.tcb.modify_field Tcb.priority c rfl x).symm
  · intro x
    by_cases hxc : x = c
    · subst hxc
      simp [hsc]
    · simp [hxc, (hother x hxc).1]
  · intro x
    show _ ↔ (m x).waitObj = some o
    by_cases hxc : x = c
    · subst hxc
      simp [hwc]
    · rw [(hother x hxc).2, ← h.waits, List.mem_cons, or_iff_right hxc]
  · intro x hx
    show (m x).state = .blocked
    by_cases hxc : x = c
    · subst hxc
      exact hsc
    · rw [(hother x hxc).1]
      exact h.asleep o x ((List.mem_cons.1 hx).resolve_left hxc)
  · intro o' ho x
    refine ⟨?_, fun hx => hsame x (fun he => hcW o' (he ▸ hx)) fun hxW => ho (h.apart hx hxW)⟩
    show (m x).waitObj = some o' ↔ _
    by_cases hxc : x = c
    · subst hxc
      simp [hwc, hcW, Ne.symm ho]
    · rw [(hother x hxc).2, ← h.waits]

end Lists

/-- What wake-ups do to the scheduler: blocked tasks become ready. -/
structure Roused (s s' : Sched α) : Prop where
  currentTask : s'.currentTask = s.currentTask
  schedulerRunning : s'.schedulerRunning = s.schedulerRunning
  taskTable : s'.taskTable = s.taskTable
  state : ∀ t, ((s'.tcb t).state = (s.tcb t).state ∧ (s'.tcb t).waitObj = (s.tcb t).waitObj) ∨
    ((s.tcb t).state = .blocked ∧ (s'.tcb t).state = .ready)

namespace Roused

theorem refl (s : Sched α) : Roused s s := ⟨rfl, rfl, rfl, fun _ => .inl ⟨rfl, rfl⟩⟩

theorem trans {s'' : Sched α} (h : Roused s s') (h' : Roused s' s'') : Roused s s'' := by
  refine ⟨h'.currentTask.trans h.currentTask, h'.schedulerRunning.trans h.schedulerRunning,
    h'.taskTable.trans h.taskTable, fun t => ?_⟩
  rcases h.state t with ⟨hst, hw⟩ | ⟨hb, hr⟩
  · rcases h'.state t with ⟨hst', hw'⟩ | ⟨hb', hr'⟩
    · exact .inl ⟨hst'.trans hst, hw'.trans hw⟩
    · exact .inr ⟨hst ▸ hb', hr'⟩
  · rcases h'.state t with ⟨hst', -⟩ | ⟨-, hr'⟩
    · exact .inr ⟨hb, hst'.trans hr⟩
    · exact .inr ⟨hb, hr'⟩

end Roused

namespace Lists
variable {head : WaitObj → Option α} {W : WaitObj → List α} {o : WaitObj} {t : α} {l : List α}
  [DecidableEq α]

/-- **A wake-up** moves the first task of a wait list to the ready list of its
    priority. -/
theorem wake (h : Lists cfg s head Q W) (hW : W o = t :: l) :
    ∃ m list s', wakeFirst s.tcb (head o) = (m, list, some t) ∧
      readyListAdd { s with tcb := m } t = some s' ∧ Roused s s' ∧
      Lists cfg s' (Function.update head o list) (enqueue Q (s.tcb t).priority t)
        (Function.update W o l) := by
  have htW : t ∈ W o := by simp [hW]
  have hring := h.chain o
  rw [hW] at hring
  have htl : t ∉ l := (List.nodup_cons.1 hring.nodup).1
  obtain ⟨m, list, hm, hc, hst, hwo, -, hother⟩ := wakeFirst_spec hring
  have hsame : ∀ x, x ∉ W o → m x = s.tcb x := by
    intro x hx
    rw [hW] at hx
    have hw := wakeFirst_frame hring hx
    rwa [hm] at hw
  have hprio : ∀ x, (m x).priority = (s.tcb x).priority := by
    intro x
    have hp : ((wakeFirst s.tcb (head o)).1 x).priority = _ := wakeFirst_priority
    rwa [hm] at hp
  -- the state of the task is stored twice; before that it is still blocked
  have hstate : ∀ x, ((m.modify t fun c => { c with state := .blocked }) x).state =
      (s.tcb x).state := by
    intro x
    by_cases hx : x = t
    · subst hx
      simp [h.asleep o x htW]
    · simp [hx, (hother x hx).1]
  have hcore : Core cfg
      ({ s with tcb := m }.modify t fun c => { c with state := .blocked }) Q := by
    refine h.toCore.relink rfl rfl ?_ ?_ ?_ hstate
    · intro p x hx
      have hxt : x ≠ t := fun he => h.unqueued htW p (he ▸ hx)
      simp [hxt, hsame x fun hxW => h.unqueued hxW p hx]
    · intro p x hx
      have hxt : x ≠ t := fun he => h.unqueued htW p (he ▸ hx)
      simp [hxt, hsame x fun hxW => h.unqueued hxW p hx]
    · intro x
      exact (m.modify_field Tcb.priority t rfl x).trans (hprio x)
  have hprio_t : ((m.modify t fun c => { c with state := .blocked }) t).priority =
      (s.tcb t).priority := (m.modify_field Tcb.priority t rfl t).trans (hprio t)
  obtain ⟨s', hs', hcore', hrel, hst'⟩ := hcore.add (h.unqueued htW) (.inl (h.mem_table htW))
    (by simpa [hprio t] using h.prio t (h.mem_table htW))
  have hwait : ∀ x, (s'.tcb x).waitObj = (m x).waitObj := by
    intro x
    rw [hrel.waitObj]
    exact m.modify_field Tcb.waitObj t rfl x
  have hkeep : ∀ o', ∀ x ∈ W o', x ≠ t → s'.tcb x = m x := by
    intro o' x hx hxt
    rw [readyListAdd_frame hcore.queues (h.unqueued htW) (h.unqueued hx) hxt hs']
    simp [hxt]
  have hstate' : ∀ x, x ≠ t → (s'.tcb x).state = (s.tcb x).state := by
    intro x hx
    rw [hst', if_neg hx]
    exact hstate x
  have hsub : ∀ x, x ∈ l → x ∈ W o ∧ x ≠ t := by
    intro x hx
    refine ⟨by simp [hW, hx], ?_⟩
    rintro rfl
    exact htl hx
  rw [readyListAdd_modify_state] at hs'
  refine ⟨m, list, s', hm, hs', ⟨hrel.currentTask, hrel.schedulerRunning, hrel.taskTable, ?_⟩,
    h.change (by rw [← hprio_t]; exact hcore') (hc.congr (fun x hx => ?_) fun x hx => ?_) ?_ ?_ ?_⟩
  · intro x
    by_cases hx : x = t
    · subst hx
      exact .inr ⟨h.asleep o x htW, by rw [hst', if_pos rfl]⟩
    · exact .inl ⟨hstate' x hx, by rw [hwait, (hother x hx).2.1]⟩
  · exact congrArg Tcb.next (hkeep o x (hsub x hx).1 (hsub x hx).2)
  · exact congrArg Tcb.prev (hkeep o x (hsub x hx).1 (hsub x hx).2)
  · intro x
    rw [hwait]
    by_cases hx : x = t
    · subst hx
      simp [hwo, htl]
    · rw [(hother x hx).2.1, ← h.waits, hW, List.mem_cons, or_iff_right hx]
  · intro x hx
    rw [hstate' x (hsub x hx).2]
    exact h.asleep o x (hsub x hx).1
  · intro o' ho x
    have hne : x ∈ W o' → x ≠ t := by
      rintro hx rfl
      exact ho (h.apart hx htW)
    refine ⟨?_, fun hx => ?_⟩
    · rw [hwait]
      by_cases hx : x = t
      · subst hx
        have hn : x ∉ W o' := fun hx => hne hx rfl
        simp [hwo, hn]
      · rw [(hother x hx).2.1, ← h.waits]
    · rw [hkeep o' x hx (hne hx)]
      exact hsame x fun hxW => ho (h.apart hx hxW)

/-- **The loop of `event_set`** moves all tasks of the wait list. -/
theorem wakeAll (h : Lists cfg s head Q W) (hW : W o = l) (woken : List α) :
    ∃ s' Q', Lib.Loop.run eventWakeBody (l.length + 1) (s, head o, woken) =
        some (some (s', none, woken ++ l)) ∧ Roused s s' ∧
      Lists cfg s' (Function.update head o none) Q' (Function.update W o []) ∧
      ∀ p, cfg.idleTcb ∈ Q' p → cfg.idleTcb ∈ Q p := by
  induction l generalizing s head Q W woken with
  | nil =>
    have hhead : head o = none := by
      rw [(h.chain o).head_eq, hW]
      rfl
    refine ⟨s, Q, ?_, .refl s, ?_, fun _ hi => hi⟩
    · rw [List.append_nil, hhead]
      rfl
    · rw [← hhead, ← hW, Function.update_eq_self, Function.update_eq_self]
      exact h
  | cons t l ih =>
    obtain ⟨m, list, s₁, hm, hs₁, hr, h₁⟩ := h.wake hW
    obtain ⟨s', Q', hrun, hr', h', hidle⟩ := ih h₁ (by simp) (woken ++ [t])
    refine ⟨s', Q', ?_, hr.trans hr', by simpa using h', fun p hi => ?_⟩
    · rw [Function.update_self, List.append_assoc, List.singleton_append] at hrun
      rw [← hrun, List.length_cons, Lib.Loop.run]
      simp only [eventWakeBody, hm, hs₁]
    · rcases mem_enqueue.1 (hidle p hi) with hi | ⟨-, hi⟩
      · exact hi
      · exact absurd hi.symm (h.ne_idle (o := o) (by simp [hW]))

/-- **`task_yield`** by a task that another one takes over from; or by one that
    is not running any more, which goes on if it is picked itself. -/
theorem yield (h : Lists cfg s head Q W) (hrun : s.schedulerRunning = true) {c : α}
    (hc : s.currentTask = some c) (hk : c ∈ s.taskTable ∨ c = cfg.idleTcb)
    (hon : (s.tcb c).state = .running → Takeover cfg s Q c)
    (hoff : (s.tcb c).state ≠ .running → c ≠ cfg.idleTcb ∧
      (s.readyList 0 = some cfg.idleTcb → ∃ p t, t ∈ Q p ∧ 0 < p)) :
    ∃ s' Q', taskYield cfg s = some s' ∧ Lists cfg s' head Q' W ∧
      (Inv cfg s' Q' ∨ (s' = s ∧ (s.tcb c).state ≠ .running ∧ getHighestReady cfg s = c)) := by
  by_cases hst : (s.tcb c).state = .running
  · obtain ⟨q, t, htq, -, hcq, -⟩ := hon hst
    have hcp : (s.tcb c).priority < cfg.maxPriority := by
      have := h.bound q t htq
      omega
    obtain ⟨s', Q', hs', h'⟩ := h.toCore.yield hrun hc hst hk (hon hst)
    exact ⟨s', Q', hs', h.kept h'.toCore (taskYield_kept h.toCore hc hk hcp hs'), .inl h'⟩
  · obtain ⟨hci, hidle⟩ := hoff hst
    have hy : taskYield cfg s = scheduleLocked cfg s := by simp [taskYield, hc, hst]
    rw [hy]
    by_cases hhi : getHighestReady cfg s = c
    · have hsame : scheduleLocked cfg s = some s := by
        simp [scheduleLocked, hc, hhi]
      exact ⟨s, Q, hsame, h, .inr ⟨rfl, hst, hhi⟩⟩
    · have hne : s.currentTask ≠ some (getHighestReady cfg s) := by
        rw [hc]
        exact fun he => hhi (Option.some.inj he).symm
      obtain ⟨s', Q', hs', h'⟩ := h.toCore.schedule hrun hne (h.toCore.idle_off hidle)
      exact ⟨s', Q', hs', h.kept h'.toCore (scheduleLocked_kept h.toCore hs'), .inl h'⟩

/-- **`task_yield`** by a running task that may be picked again: it then goes on,
    on a ready list. -/
theorem yield_again (h : Lists cfg s head Q W) (hrun : s.schedulerRunning = true) {c : α}
    (hc : s.currentTask = some c) (hct : c ∈ s.taskTable) (hci : c ≠ cfg.idleTcb)
    (hst : (s.tcb c).state = .running)
    (hidle : s.readyList 0 = some cfg.idleTcb →
      (∃ p t, t ∈ Q p ∧ 0 < p) ∨ 0 < (s.tcb c).priority) :
    ∃ s' Q', taskYield cfg s = some s' ∧ Lists cfg s' head Q' W ∧
      (Inv cfg s' Q' ∨ (s'.currentTask = some c ∧ s'.schedulerRunning = s.schedulerRunning ∧
        s'.taskTable = s.taskTable ∧ (s'.tcb c).state = .ready)) := by
  have hcp := h.prio c hct
  obtain ⟨s₁, hs₁, hy, hcore, hrel, hst₁⟩ := h.toCore.requeue hc hst (.inl hct) hcp
  have hc₁ : s₁.currentTask = some c := hrel.currentTask.trans hc
  by_cases hhi : getHighestReady cfg s₁ = c
  · have hs : taskYield cfg s = some s₁ := by
      rw [hy]
      simp [scheduleLocked, hc₁, hhi]
    have hkept := taskYield_kept h.toCore hc (.inl hct) hcp hs
    exact ⟨s₁, _, hs, h.kept hcore hkept,
      .inr ⟨hc₁, hrel.schedulerRunning, hrel.taskTable, hst₁⟩⟩
  · have hne : s₁.currentTask ≠ some (getHighestReady cfg s₁) := by
      rw [hc₁]
      exact fun he => hhi (Option.some.inj he).symm
    -- the task joined at the tail, so that the idle task was at the head before
    have habove : s₁.readyList 0 = some cfg.idleTcb →
        ∃ p t, t ∈ enqueue Q (s.tcb c).priority c p ∧ 0 < p := by
      intro h0
      have hhead : (enqueue Q (s.tcb c).priority c 0).head? = some cfg.idleTcb :=
        (hcore.queues.ring 0).head_eq.symm.trans h0
      by_cases hp : (s.tcb c).priority = 0
      · have hQ0 : (Q 0).head? = some cfg.idleTcb := by
          rw [hp, enqueue_self] at hhead
          cases hQ : Q 0 with
          | nil =>
            rw [hQ] at hhead
            exact absurd (Option.some.inj hhead) hci
          | cons x l =>
            rw [hQ] at hhead
            exact hhead
        rcases hidle ((h.queues.ring 0).head_eq.trans hQ0) with ⟨p, t, ht, hpt⟩ | hpos
        · exact ⟨p, t, mem_enqueue.2 (.inl ht), hpt⟩
        · omega
      · exact ⟨_, c, mem_enqueue.2 (.inr ⟨rfl, rfl⟩), by omega⟩
    obtain ⟨s', Q', hs', hi⟩ := hcore.schedule (hrel.schedulerRunning.trans hrun) hne
      (hcore.idle_off habove)
    have hs : taskYield cfg s = some s' := hy.trans hs'
    exact ⟨s', Q', hs, h.kept hi.toCore (taskYield_kept h.toCore hc (.inl hct) hcp hs), .inl hi⟩

end Lists

end X86

end Gracemont
