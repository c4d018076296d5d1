/-
  Gracemont kernel — strict priority scheduling, for both ports.

  `schedule_locked` picks the highest ready task, but `scheduler_tick` comes to
  it only when the time slice of the running task is over, and never when the
  idle task runs.  `StrictSafe` says that a tick wakes nobody above the running
  task unless it switches, and that no block is queued that is on a ready list
  with others; over runs of such calls no ready task has a higher priority than
  the current task (`strict_priority_of_safe`).

  The invariant is weaker than that of the ready lists (`Inv`): a task may be on
  a ready list in any state, and a task of priority 0 may be lost.

  * `Queued`: the part that also holds inside a call;
  * `Strict`: the invariant between calls.
-/
import Gracemont.Kernel.SchedulerInv

namespace Gracemont

variable {α : Type}

/-- **Strict priority.**  No ready task has a higher priority than the current
    task. -/
def StrictPriority (s : Sched α) : Prop :=
  ∀ c, s.currentTask = some c → ∀ t ∈ s.taskTable, (s.tcb t).state = .ready →
    (s.tcb t).priority ≤ (s.tcb c).priority

/-- The due sleeper `t` is on no ready list; or alone on that of its priority,
    and no other due sleeper has this priority. -/
def WakesSafely (cfg : SchedConfig α) (s : Sched α) (t : α) : Prop :=
  (∀ p, ¬ OnReadyList s p t) ∨
    (Lib.Ring s.tcb.next s.tcb.prev (s.readyList (s.tcb t).priority) [t] ∧
      ∀ u, Due cfg s u → (s.tcb u).priority = (s.tcb t).priority → u = t)

/-- The ticks that end the time slice of the running task or wake no task above
    it, and queue no task that is on a list with others; and `task_create` is
    given neither the block of the running task nor one on a ready list. -/
def StrictSafe (cfg : SchedConfig α) (s : Sched α) : Op α → Prop
  | .schedulerTick => (∀ t, Due cfg s t → WakesSafely cfg s t) ∧
    ∀ c, s.currentTask = some c → (c ≠ cfg.idleTcb ∧ (s.tcb c).remainingSlice = 1) ∨
      ∀ t, Due cfg s t → (s.tcb t).priority ≤ (s.tcb c).priority
  | .taskCreate tcb entry priority stack => ∀ t, tcb = some t → entry ≠ none → stack ≠ none →
    priority < cfg.maxPriority → s.taskTable.length < cfg.maxTasks →
    s.currentTask ≠ some t ∧ ∀ p, ¬ OnReadyList s p t
  | _ => True

/-! ## The inductive invariant -/

/-- The invariant inside a call, with the queues `Q`. -/
structure Queued (cfg : SchedConfig α) (s : Sched α) (Q : ℕ → List α) : Prop where
  queues : ReadyQueues s Q
  bound : ∀ p, ∀ t ∈ Q p, p < cfg.maxPriority
  queued : ∀ t ∈ s.taskTable, t ≠ cfg.idleTcb → (s.tcb t).state = .ready →
    0 < (s.tcb t).priority → t ∈ Q (s.tcb t).priority
  prio : ∀ t ∈ s.taskTable, (s.tcb t).priority < cfg.maxPriority
  suspended : ∀ t, (s.tcb t).state = .suspended →
    (s.tcb t).priority < cfg.maxPriority ∧ ∀ p, t ∉ Q p
  running : ∀ t, t ≠ cfg.idleTcb → (s.tcb t).state = .running → ∀ p, t ∉ Q p
  idle : (s.tcb cfg.idleTcb).priority = 0 ∧ (s.tcb cfg.idleTcb).state ≠ .blocked

/-- The invariant between calls. -/
structure Strict (cfg : SchedConfig α) (s : Sched α) (Q : ℕ → List α) : Prop
    extends Queued cfg s Q where
  strict : StrictPriority s
  current : ∀ c, s.currentTask = some c → c ≠ cfg.idleTcb → (s.tcb c).priority < cfg.maxPriority
  idleHead : s.currentTask = some cfg.idleTcb → ∀ p, cfg.idleTcb ∈ Q p →
    (Q 0).head? = some cfg.idleTcb
  started : s.schedulerRunning = true ↔ s.currentTask ≠ none
  boot : s.currentTask = none → ∀ p, cfg.idleTcb ∉ Q p

variable {cfg : SchedConfig α} {s s' : Sched α} {Q Q' : ℕ → List α} {t : α}

theorem StrictPriority.congr (h : StrictPriority s) (hcur : s'.currentTask = s.currentTask)
    (ht : s'.taskTable = s.taskTable) (hprio : ∀ t, (s'.tcb t).priority = (s.tcb t).priority)
    (hst : ∀ t, (s'.tcb t).state = (s.tcb t).state) : StrictPriority s' := by
  intro c hc t htab hts
  rw [hprio, hprio]
  exact h c (hcur ▸ hc) t (ht ▸ htab) (hst t ▸ hts)

theorem Queued.on_iff (h : Queued cfg s Q) {p : ℕ} : OnReadyList s p t ↔ t ∈ Q p := by
  constructor
  · rintro ⟨l, hl, ht⟩
    exact h.queues.unique hl ▸ ht
  · intro ht
    exact ⟨_, h.queues.ring p, ht⟩

theorem Queued.idle_mem (h : Queued cfg s Q) {p : ℕ} (hp : cfg.idleTcb ∈ Q p) : p = 0 :=
  (h.queues.prio p _ hp).symm.trans h.idle.1

/-- The invariant only depends on links, priorities and states. -/
theorem Queued.congr (h : Queued cfg s Q) (hr : s'.readyList = s.readyList)
    (ht : s'.taskTable = s.taskTable) (hn : ∀ t, (s'.tcb t).next = (s.tcb t).next)
    (hp : ∀ t, (s'.tcb t).prev = (s.tcb t).prev)
    (hprio : ∀ t, (s'.tcb t).priority = (s.tcb t).priority)
    (hst : ∀ t, (s'.tcb t).state = (s.tcb t).state) : Queued cfg s' Q where
  queues := h.queues.congr hr (fun _ t _ => hn t) (fun _ t _ => hp t) fun _ t _ => hprio t
  bound := h.bound
  queued t h1 h2 h3 h4 := by
    rw [hst] at h3
    rw [hprio] at h4 ⊢
    exact h.queued t (ht ▸ h1) h2 h3 h4
  prio t h1 := by
    rw [hprio]
    exact h.prio t (ht ▸ h1)
  suspended t h1 := by
    rw [hst] at h1
    rw [hprio]
    exact h.suspended t h1
  running t h1 h2 := by
    rw [hst] at h2
    exact h.running t h1 h2
  idle := by
    rw [hprio, hst]
    exact h.idle

/-- **A task changes its queue and its state**: no other task leaves a queue but
    those of priority 0. -/
theorem Queued.change (h : Queued cfg s Q) (hq : ReadyQueues s' Q') (hrel : Relinked s s')
    (hst : ∀ x, x ≠ t → (s'.tcb x).state = (s.tcb x).state)
    (hsub : ∀ p x, x ∈ Q' p → x ∈ Q p ∨ x = t)
    (hsup : ∀ p x, x ≠ t → 0 < p → x ∈ Q p → x ∈ Q' p)
    (hbound : ∀ p, t ∈ Q' p → p < cfg.maxPriority)
    (hready : (s'.tcb t).state = .ready → t ∈ Q' (s.tcb t).priority)
    (hsusp : (s'.tcb t).state ≠ .suspended)
    (hrun : t ≠ cfg.idleTcb → (s'.tcb t).state = .running → ∀ p, t ∉ Q' p)
    (hidle : t = cfg.idleTcb → (s'.tcb t).state ≠ .blocked) : Queued cfg s' Q' := by
  constructor
  · exact hq
  · intro p x hx
    by_cases hxt : x = t
    · subst hxt
      exact hbound p hx
    · exact h.bound p x ((hsub p x hx).resolve_right hxt)
  · intro x hx hxi hxs hx0
    rw [hrel.priority] at hx0 ⊢
    by_cases hxt : x = t
    · subst hxt
      exact hready hxs
    · rw [hst x hxt] at hxs
      exact hsup _ x hxt hx0 (h.queued x (hrel.taskTable ▸ hx) hxi hxs hx0)
  · intro x hx
    rw [hrel.priority]
    exact h.prio x (hrel.taskTable ▸ hx)
  · intro x hx
    have hxt : x ≠ t := by
      rintro rfl
      exact hsusp hx
    rw [hst x hxt] at hx
    rw [hrel.priority]
    refine ⟨(h.suspended x hx).1, fun p hp => ?_⟩
    exact (h.suspended x hx).2 p ((hsub p x hp).resolve_right hxt)
  · intro x hxi hx p hp
    by_cases hxt : x = t
    · subst hxt
      exact hrun hxi hx p hp
    · rw [hst x hxt] at hx
      exact h.running x hxi hx p ((hsub p x hp).resolve_right hxt)
  · rw [hrel.priority]
    refine ⟨h.idle.1, ?_⟩
    by_cases hit : cfg.idleTcb = t
    · rw [hit]
      exact hidle hit.symm
    · rw [hst _ hit]
      exact h.idle.2

/-! ## Entering a queue -/

section
variable [DecidableEq α]

/-- What `ready_list_add` of the task `t` does. -/
structure Entered (cfg : SchedConfig α) (s : Sched α) (Q : ℕ → List α) (t : α) (s' : Sched α)
    (Q' : ℕ → List α) : Prop where
  inv : Queued cfg s' Q'
  relinked : Relinked s s'
  state : ∀ x, (s'.tcb x).state = if x = t then .ready else (s.tcb x).state
  last : (Q' (s.tcb t).priority).getLast? = some t
  sub : ∀ p x, x ∈ Q' p → x ∈ Q p ∨ x = t
  other : ∀ p, p ≠ (s.tcb t).priority → Q' p = Q p
  alone : Q (s.tcb t).priority = [t] → Q' (s.tcb t).priority = [t]
  head : ∀ x, (Q 0).head? = some x → (Q' 0).head? = some x

/-- **`ready_list_add`** of a task on no queue, or at the head of its queue,
    where it is alone or has priority 0. -/
theorem Queued.enter (h : Queued cfg s Q) (hp : (s.tcb t).priority < cfg.maxPriority)
    (hfree : (∀ p, t ∉ Q p) ∨
      ∃ l, Q (s.tcb t).priority = t :: l ∧ (l = [] ∨ (s.tcb t).priority = 0)) :
    ∃ s' Q', readyListAdd s t = some s' ∧ Entered cfg s Q t s' Q' := by
  have hbound : ∀ {R : List α} {p}, t ∈ Function.update Q (s.tcb t).priority R p →
      p < cfg.maxPriority := by
    intro R p hm
    by_cases hpt : p = (s.tcb t).priority
    · rw [hpt]
      exact hp
    · rw [Function.update_of_ne hpt] at hm
      exact h.bound p t hm
  have hother : ∀ {R : List α} {p}, p ≠ (s.tcb t).priority →
      Function.update Q (s.tcb t).priority R p = Q p := fun hpt => Function.update_of_ne hpt ..
  obtain hnew | ⟨l, hQ, hl⟩ := hfree
  · obtain ⟨s', hs', hq, hrel, hst⟩ := readyListAdd_spec h.queues hnew
    have hsub : ∀ p x, x ∈ Function.update Q (s.tcb t).priority
        (Q (s.tcb t).priority ++ [t]) p → x ∈ Q p ∨ x = t := by
      intro p x hx
      by_cases hpt : p = (s.tcb t).priority
      · subst hpt
        simpa using hx
      · rw [hother hpt] at hx
        exact .inl hx
    refine ⟨s', _, hs', ?_, hrel, hst, ?_, hsub, fun p hpt => hother hpt, fun halone => ?_,
      fun x hx => ?_⟩
    · refine h.change hq hrel (fun x hx => by rw [hst, if_neg hx]) hsub ?_ (fun p => hbound)
        (fun _ => by simp) (by simp [hst]) (fun _ => by simp [hst]) (fun _ => by simp [hst])
      intro p x _ _ hx
      by_cases hpt : p = (s.tcb t).priority
      · subst hpt
        simp [hx]
      · rwa [hother hpt]
    · simp
    · exact absurd (by rw [halone]; simp) (hnew (s.tcb t).priority)
    · by_cases hpt : 0 = (s.tcb t).priority
      · rw [← hpt, Function.update_self, List.head?_append, hx]
        rfl
      · rwa [hother hpt]
  · obtain ⟨s', hs', hq, hrel, hst⟩ := readyListAdd_head h.queues hQ
    have hsub : ∀ p x, x ∈ Function.update Q (s.tcb t).priority [t] p → x ∈ Q p ∨ x = t := by
      intro p x hx
      by_cases hpt : p = (s.tcb t).priority
      · subst hpt
        exact .inr (by simpa using hx)
      · rw [hother hpt] at hx
        exact .inl hx
    refine ⟨s', _, hs', ?_, hrel, hst, by simp, hsub, fun p hpt => hother hpt, by simp,
      fun x hx => ?_⟩
    · refine h.change hq hrel (fun x hx => by rw [hst, if_neg hx]) hsub ?_ (fun p => hbound)
        (fun _ => by simp) (by simp [hst]) (fun _ => by simp [hst]) (fun _ => by simp [hst])
      intro p x hxt hp0 hx
      by_cases hpt : p = (s.tcb t).priority
      · subst hpt
        obtain rfl := hl.resolve_right (by omega)
        rw [hQ, List.mem_singleton] at hx
        exact absurd hx hxt
      · rwa [hother hpt]
    · by_cases hpt : 0 = (s.tcb t).priority
      · rw [hpt, hQ] at hx
        rw [hpt, Function.update_self]
        exact hx
      · rwa [hother hpt]

/-! ## Scheduling -/

/-- A task that is picked leaves its queue. -/
theorem Queued.dispatch (h : Queued cfg s Q) {p : ℕ} {l : List α} (hQ : Q p = t :: l)
    (hti : t ≠ cfg.idleTcb) {s₁ : Sched α} (hs₁ : readyListRemove s t = some s₁)
    {f : Tcb α → Tcb α} (hf : ∀ c, (f c).state = .running)
    (hfc : ∀ c, (f c).priority = c.priority ∧ (f c).next = c.next ∧ (f c).prev = c.prev) :
    Queued cfg (s₁.modify t f) (Function.update Q p l) ∧
      (∀ x, ((s₁.modify t f).tcb x).priority = (s.tcb x).priority) ∧
      (∀ x, x ≠ t → ((s₁.modify t f).tcb x).state = (s.tcb x).state) ∧
      Relinked s s₁ := by
  have htm : t ∈ Q p := by simp [hQ]
  obtain ⟨hq, hrel, hst⟩ := readyListRemove_of_head h.queues hQ hs₁
  have hprio : ∀ x, ((s₁.modify t f).tcb x).priority = (s.tcb x).priority := fun x =>
    (Lib.Store.modify_field Tcb.priority _ _ (hfc _).1 x).trans (hrel.priority x)
  have hstate : ∀ x, x ≠ t → ((s₁.modify t f).tcb x).state = (s.tcb x).state := by
    intro x hx
    simpa [hx] using hst x
  have hsub : ∀ {q x}, x ∈ Function.update Q p l q → x ∈ Q q := by
    intro q x hx
    by_cases hqp : q = p
    · subst hqp
      rw [Function.update_self] at hx
      rw [hQ]
      exact List.mem_cons_of_mem t hx
    · rwa [Function.update_of_ne hqp] at hx
  have hnot : ∀ q, t ∉ Function.update Q p l q := by
    intro q hq'
    by_cases hqp : q = p
    · subst hqp
      rw [Function.update_self] at hq'
      have hnd := (h.queues.ring q).nodup
      rw [hQ] at hnd
      exact (List.nodup_cons.1 hnd).1 hq'
    · rw [Function.update_of_ne hqp] at hq'
      exact hqp (h.queues.rings.apart q p t hq' htm)
  refine ⟨?_, hprio, hstate, hrel⟩
  constructor
  · exact hq.congr rfl (fun q x _ => Lib.Store.modify_field Tcb.next _ _ (hfc _).2.1 x)
      (fun q x _ => Lib.Store.modify_field Tcb.prev _ _ (hfc _).2.2 x)
      fun q x _ => Lib.Store.modify_field Tcb.priority _ _ (hfc _).1 x
  · intro q x hx
    exact h.bound q x (hsub hx)
  · intro x hx hxi hxs hx0
    have hxt : x ≠ t := by
      rintro rfl
      simp [hf] at hxs
    rw [hstate x hxt] at hxs
    rw [hprio] at hx0 ⊢
    have hm := h.queued x (hrel.taskTable ▸ hx) hxi hxs hx0
    by_cases hxp : (s.tcb x).priority = p
    · rw [hxp, hQ] at hm
      rw [hxp, Function.update_self]
      exact (List.mem_cons.1 hm).resolve_left hxt
    · rwa [Function.update_of_ne hxp]
  · intro x hx
    rw [hprio]
    exact h.prio x (hrel.taskTable ▸ hx)
  · intro x hx
    have hxt : x ≠ t := by
      rintro rfl
      simp [hf] at hx
    rw [hstate x hxt] at hx
    rw [hprio]
    exact ⟨(h.suspended x hx).1, fun q hq' => (h.suspended x hx).2 q (hsub hq')⟩
  · intro x hxi hx q hq'
    by_cases hxt : x = t
    · subst hxt
      exact hnot q hq'
    · rw [hstate x hxt] at hx
      exact h.running x hxi hx q (hsub hq')
  · rw [hprio, hstate _ (Ne.symm hti)]
    exact h.idle

/-- A change of the state of `t`, which becomes neither ready nor, unless it is
    the idle task, running. -/
theorem Queued.setState (h : Queued cfg s Q) {f : Tcb α → Tcb α}
    (hfc : ∀ c, (f c).priority = c.priority ∧ (f c).next = c.next ∧ (f c).prev = c.prev)
    (hsusp : ∀ c, (f c).state ≠ .suspended)
    (hother : t ≠ cfg.idleTcb → ∀ c, (f c).state ≠ .ready ∧ (f c).state ≠ .running)
    (hidle : t = cfg.idleTcb → ∀ c, (f c).state ≠ .blocked) : Queued cfg (s.modify t f) Q := by
  have hprio : ∀ x, ((s.modify t f).tcb x).priority = (s.tcb x).priority := fun x =>
    Lib.Store.modify_field Tcb.priority _ _ (hfc _).1 x
  have hstate : ∀ x, x ≠ t → ((s.modify t f).tcb x).state = (s.tcb x).state := by
    intro x hx
    simp [hx]
  constructor
  · exact h.queues.congr rfl (fun p x _ => Lib.Store.modify_field Tcb.next _ _ (hfc _).2.1 x)
      (fun p x _ => Lib.Store.modify_field Tcb.prev _ _ (hfc _).2.2 x) fun p x _ => hprio x
  · exact h.bound
  · intro x hx hxi hxs hx0
    have hxt : x ≠ t := by
      rintro rfl
      exact (hother hxi _).1 (by simpa using hxs)
    rw [hstate x hxt] at hxs
    rw [hprio] at hx0 ⊢
    exact h.queued x hx hxi hxs hx0
  · intro x hx
    rw [hprio]
    exact h.prio x hx
  · intro x hx
    have hxt : x ≠ t := by
      rintro rfl
      exact hsusp _ (by simpa using hx)
    rw [hstate x hxt] at hx
    rw [hprio]
    exact h.suspended x hx
  · intro x hxi hx
    have hxt : x ≠ t := by
      rintro rfl
      exact (hother hxi _).2 (by simpa using hx)
    rw [hstate x hxt] at hx
    exact h.running x hxi hx
  · rw [hprio]
    refine ⟨h.idle.1, ?_⟩
    by_cases hit : cfg.idleTcb = t
    · subst hit
      simpa using hidle rfl _
    · rw [hstate _ hit]
      exact h.idle.2

omit [DecidableEq α] in
/-- The task picked has the highest priority of the ready tasks. -/
theorem Queued.picked (h : Queued cfg s Q) (ht : t ∈ s.taskTable)
    (hts : (s.tcb t).state = .ready) :
    (s.tcb t).priority ≤ (s.tcb (getHighestReady cfg s)).priority := by
  by_cases h0 : (s.tcb t).priority = 0
  · omega
  have hti : t ≠ cfg.idleTcb := by
    rintro rfl
    exact h0 h.idle.1
  have hm := h.queued t ht hti hts (by omega)
  obtain ⟨he, -⟩ | ⟨p, x, l, hQ, hhi, hx⟩ := h.queues.highest h.bound
  · rw [he] at hm
    cases hm
  · rw [hx, h.queues.prio p x (by simp [hQ])]
    by_contra hlt
    rw [hhi _ (by omega)] at hm
    cases hm

omit [DecidableEq α] in
/-- The idle task is picked at the head of its queue, if it is on one. -/
theorem Queued.picked_idle (h : Queued cfg s Q) (hi : getHighestReady cfg s = cfg.idleTcb)
    {p : ℕ} (hp : cfg.idleTcb ∈ Q p) : (Q 0).head? = some cfg.idleTcb := by
  obtain ⟨he, -⟩ | ⟨q, x, l, hQ, -, hx⟩ := h.queues.highest h.bound
  · rw [he] at hp
    cases hp
  · obtain rfl : x = cfg.idleTcb := hx.symm.trans hi
    obtain rfl := h.idle_mem (p := q) (by simp [hQ])
    rw [hQ]
    rfl

/-- **The task picked becomes the running task.** -/
theorem Queued.run (h : Queued cfg s Q) {s₁ : Sched α} {f : Tcb α → Tcb α}
    (hs₁ : (if getHighestReady cfg s = cfg.idleTcb then some s
      else readyListRemove s (getHighestReady cfg s)) = some s₁)
    (hf : ∀ c, (f c).state = .running)
    (hfc : ∀ c, (f c).priority = c.priority ∧ (f c).next = c.next ∧ (f c).prev = c.prev)
    (htcb : s'.tcb = (s₁.modify (getHighestReady cfg s) f).tcb)
    (hrl : s'.readyList = s₁.readyList) (htab : s'.taskTable = s₁.taskTable)
    (hcur : s'.currentTask = some (getHighestReady cfg s)) (hrun : s'.schedulerRunning = true) :
    ∃ Q', Strict cfg s' Q' := by
  have hstrict : (∀ x, ((s₁.modify (getHighestReady cfg s) f).tcb x).priority =
      (s.tcb x).priority) → (∀ x, x ≠ getHighestReady cfg s →
      ((s₁.modify (getHighestReady cfg s) f).tcb x).state = (s.tcb x).state) →
      s₁.taskTable = s.taskTable → StrictPriority s' := by
    intro hprio hstate htab₁ c hc t ht hts
    obtain rfl : getHighestReady cfg s = c := Option.some.inj (hcur.symm.trans hc)
    rw [htcb] at hts
    rw [htcb, hprio, hprio]
    by_cases htx : t = getHighestReady cfg s
    · exact Nat.le_of_eq (by rw [htx])
    · rw [hstate t htx] at hts
      exact h.picked (htab₁ ▸ htab ▸ ht) hts
  by_cases hi : getHighestReady cfg s = cfg.idleTcb
  · rw [if_pos hi] at hs₁
    cases hs₁
    have hq : Queued cfg (s.modify (getHighestReady cfg s) f) Q := by
      rw [hi]
      exact h.setState hfc (fun c => by simp [hf]) (fun hne => absurd rfl hne)
        fun _ c => by simp [hf]
    refine ⟨Q, hq.congr hrl htab (fun t => by rw [htcb]) (fun t => by rw [htcb])
      (fun t => by rw [htcb]) (fun t => by rw [htcb]), ?_, ?_, ?_, by simp [hrun, hcur], ?_⟩
    · refine hstrict (fun x => Lib.Store.modify_field Tcb.priority _ _ (hfc _).1 x) ?_ rfl
      intro x hx
      simp [hx]
    · intro c hc hci
      exact absurd ((Option.some.inj (hcur.symm.trans hc)).symm.trans hi) hci
    · intro _ p hp
      exact h.picked_idle hi hp
    · intro hn
      rw [hcur] at hn
      cases hn
  · rw [if_neg hi] at hs₁
    obtain ⟨p, x, l, hQ, -, hx⟩ := (h.queues.highest h.bound).resolve_left fun he => hi he.2
    rw [← hx] at hQ
    obtain ⟨hq, hprio, hstate, hrel⟩ := h.dispatch hQ hi hs₁ hf hfc
    refine ⟨_, hq.congr hrl htab (fun t => by rw [htcb]) (fun t => by rw [htcb])
      (fun t => by rw [htcb]) (fun t => by rw [htcb]), ?_, ?_, ?_, by simp [hrun, hcur], ?_⟩
    · exact hstrict hprio hstate hrel.taskTable
    · intro c hc _
      obtain rfl : getHighestReady cfg s = c := Option.some.inj (hcur.symm.trans hc)
      have hm : getHighestReady cfg s ∈ Q p := by simp [hQ]
      rw [htcb, hprio, h.queues.prio p _ hm]
      exact h.bound p _ hm
    · intro hci
      exact absurd (Option.some.inj (hcur.symm.trans hci)) hi
    · intro hn
      rw [hcur] at hn
      cases hn

/-- **`schedule_locked`.** -/
theorem Queued.schedule (h : Queued cfg s Q) (hrun : s.schedulerRunning = true)
    (hs : scheduleLocked cfg s = some s') : ∃ Q', Strict cfg s' Q' := by
  obtain ⟨hc, rfl⟩ | ⟨-, s₁, hs₁, hs'⟩ := scheduleLocked_cases hs
  · refine ⟨Q, h, ?_, ?_, ?_, by simp [hrun, hc], by simp [hc]⟩
    · intro c hc' t ht hts
      obtain rfl : getHighestReady cfg s' = c := Option.some.inj (hc.symm.trans hc')
      exact h.picked ht hts
    · intro c hc' hci
      obtain rfl : getHighestReady cfg s' = c := Option.some.inj (hc.symm.trans hc')
      obtain ⟨p, x, l, hQ, -, hx⟩ := (h.queues.highest h.bound).resolve_left fun he => hci he.2
      rw [hx, h.queues.prio p x (by simp [hQ])]
      exact h.bound p x (by simp [hQ])
    · intro hci p hp
      exact h.picked_idle (Option.some.inj (hc.symm.trans hci)) hp
  · have hrun₁ : s₁.schedulerRunning = true := by
      by_cases hi : getHighestReady cfg s = cfg.idleTcb
      · rw [if_pos hi] at hs₁
        cases hs₁
        exact hrun
      · rw [if_neg hi] at hs₁
        obtain ⟨p, x, l, hQ, -, hx⟩ := (h.queues.highest h.bound).resolve_left fun he => hi he.2
        rw [← hx] at hQ
        exact (h.dispatch hQ hi hs₁ (f := fun t => { t with state := .running }) (fun _ => rfl)
          fun _ => ⟨rfl, rfl, rfl⟩).2.2.2.schedulerRunning.trans hrun
    obtain ⟨f, rfl, hf, hfc⟩ : ∃ f : Tcb α → Tcb α,
        s' = { s₁.modify (getHighestReady cfg s) f with
          currentTask := some (getHighestReady cfg s) } ∧
        (∀ c, (f c).state = .running) ∧
        ∀ c, (f c).priority = c.priority ∧ (f c).next = c.next ∧ (f c).prev = c.prev :=
      ⟨_, hs', fun _ => rfl, fun _ => ⟨rfl, rfl, rfl⟩⟩
    exact h.run hs₁ hf hfc rfl rfl rfl rfl hrun₁

/-- **`task_yield`** by the current task `c`. -/
theorem Queued.yield (h : Queued cfg s Q) (hrun : s.schedulerRunning = true) {c : α}
    (hc : s.currentTask = some c) (hcp : (s.tcb c).priority < cfg.maxPriority)
    (hhead : c = cfg.idleTcb → ∀ p, cfg.idleTcb ∈ Q p → (Q 0).head? = some cfg.idleTcb)
    (hs : taskYield cfg s = some s') : ∃ Q', Strict cfg s' Q' := by
  simp only [taskYield, hc, Option.bind_eq_bind, Option.bind_some] at hs
  by_cases hst : (s.tcb c).state = .running
  · have hfree : (∀ p, c ∉ Q p) ∨
        ∃ l, Q (s.tcb c).priority = c :: l ∧ (l = [] ∨ (s.tcb c).priority = 0) := by
      by_cases hci : c = cfg.idleTcb
      · subst hci
        by_cases hm : ∃ p, cfg.idleTcb ∈ Q p
        · obtain ⟨p, hp⟩ := hm
          obtain ⟨l, hl⟩ := List.head?_eq_some_iff.1 (hhead rfl p hp)
          exact .inr ⟨l, by rw [h.idle.1, hl], .inr h.idle.1⟩
        · exact .inl fun p hp => hm ⟨p, hp⟩
      · exact .inl (h.running c hci hst)
    obtain ⟨s₁, Q₁, hs₁, he⟩ := h.enter hcp hfree
    -- `ready_list[prio] = current_task->next` writes back the head of the list
    have hself : s₁.setReady (s₁.tcb c).priority (s₁.tcb c).next = s₁ := by
      have hring := he.inv.queues.ring (s.tcb c).priority
      have hnext : (s₁.tcb c).next = s₁.readyList (s.tcb c).priority := by
        rw [hring.head_eq]
        exact hring.seg.next_last he.last
      rw [he.relinked.priority, hnext, Sched.setReady_self]
    simp only [if_pos hst, hs₁, Option.bind_some, hself] at hs
    exact he.inv.schedule (he.relinked.schedulerRunning.trans hrun) hs
  · simp only [if_neg hst] at hs
    exact h.schedule hrun hs

/-! ## The tick -/

/-- The sleeping task `t` is due when the counter has its present value. -/
def DueNow (s : Sched α) (t : α) : Prop :=
  t ∈ s.taskTable ∧ (s.tcb t).state = .blocked ∧ (s.tcb t).waitObj = none ∧
    (s.tcb t).wakeTick ≤ s.systemTicks

/-- `WakesSafely` inside the loop of `scheduler_tick`. -/
def CanWake (s : Sched α) (Q : ℕ → List α) : Prop :=
  ∀ t, DueNow s t → (∀ p, t ∉ Q p) ∨ (Q (s.tcb t).priority = [t] ∧
    ∀ u, DueNow s u → (s.tcb u).priority = (s.tcb t).priority → u = t)

/-- What the first loop of `scheduler_tick` does: due sleepers become ready. -/
structure WokenStrict (cfg : SchedConfig α) (s : Sched α) (Q : ℕ → List α) (s' : Sched α)
    (Q' : ℕ → List α) : Prop where
  inv : Queued cfg s' Q'
  relinked : Relinked s s'
  ready : ∀ t, (s'.tcb t).state = .ready → (s.tcb t).state = .ready ∨ DueNow s t
  idle : ∀ p, cfg.idleTcb ∈ Q' p → cfg.idleTcb ∈ Q p
  head : ∀ x, (Q 0).head? = some x → (Q' 0).head? = some x

/-- The body of the loop. -/
theorem Queued.wakeSleeper (h : Queued cfg s Q) (hw : CanWake s Q) (ht : t ∈ s.taskTable) :
    ∃ s' Q', wakeSleeper s t = some s' ∧ WokenStrict cfg s Q s' Q' ∧ CanWake s' Q' ∧
      ∀ x, DueNow s' x → DueNow s x := by
  by_cases hdue : DueNow s t
  · have ⟨_, hb, hwo, hk⟩ := hdue
    have hti : cfg.idleTcb ≠ t := by
      rintro rfl
      exact h.idle.2 hb
    have hfree := hw t hdue
    obtain ⟨s', Q', hs', he⟩ := h.enter (h.prio t ht)
      (hfree.imp_right fun hl => ⟨[], hl.1, .inl rfl⟩)
    have hdue' : ∀ x, DueNow s' x → x ≠ t ∧ DueNow s x := by
      rintro x ⟨h1, h2, h3, h4⟩
      rw [he.state] at h2
      have hxt : x ≠ t := by
        rintro rfl
        simp at h2
      rw [if_neg hxt] at h2
      rw [he.relinked.taskTable] at h1
      rw [he.relinked.waitObj] at h3
      rw [he.relinked.wakeTick, he.relinked.systemTicks] at h4
      exact ⟨hxt, h1, h2, h3, h4⟩
    refine ⟨s', Q', by simp [Gracemont.wakeSleeper, hb, hwo, hk, hs'],
      ⟨he.inv, he.relinked, fun x hx => ?_, fun p hp => (he.sub p _ hp).resolve_right hti,
        he.head⟩, fun x hx => ?_, fun x hx => (hdue' x hx).2⟩
    · rw [he.state] at hx
      by_cases hxt : x = t
      · exact .inr (hxt ▸ hdue)
      · rw [if_neg hxt] at hx
        exact .inl hx
    · obtain ⟨hxt, hxd⟩ := hdue' x hx
      rw [he.relinked.priority]
      obtain hoff | ⟨halone, honly⟩ := hw x hxd
      · exact .inl fun p hp => (he.sub p x hp).elim (hoff p) hxt
      · have hpx : (s.tcb x).priority ≠ (s.tcb t).priority := fun hp =>
          hxt (honly t hdue hp.symm).symm
        refine .inr ⟨by rw [he.other _ hpx, halone], fun u hu hup => ?_⟩
        rw [he.relinked.priority] at hup
        exact honly u (hdue' u hu).2 hup
  · refine ⟨s, Q, ?_, ⟨h, .refl s, fun _ => .inl, fun _ => id, fun _ => id⟩, hw, fun _ => id⟩
    simp only [Gracemont.wakeSleeper]
    split_ifs with h1 h2
    · exact absurd ⟨ht, h1.1, h1.2, h2⟩ hdue
    all_goals rfl

/-- The loop over a part of the task table. -/
theorem Queued.wakeSleepers {L : List α} : ∀ {s : Sched α} {Q : ℕ → List α}, Queued cfg s Q →
    CanWake s Q → (∀ t ∈ L, t ∈ s.taskTable) →
    ∃ s' Q', L.foldlM Gracemont.wakeSleeper s = some s' ∧ WokenStrict cfg s Q s' Q' := by
  induction L with
  | nil =>
    intro s Q h _ _
    exact ⟨s, Q, rfl, h, .refl s, fun _ => .inl, fun _ => id, fun _ => id⟩
  | cons x L ih =>
    intro s Q h hw hL
    obtain ⟨s₁, Q₁, hs₁, h₁, hw₁, hdue⟩ := h.wakeSleeper hw (hL x (by simp))
    obtain ⟨s', Q', hs', h'⟩ := ih h₁.inv hw₁ fun t ht => by
      rw [h₁.relinked.taskTable]
      exact hL t (by simp [ht])
    refine ⟨s', Q', by simp [List.foldlM_cons, hs₁, hs'], h'.inv,
      h₁.relinked.trans h'.relinked, fun t ht => ?_, fun p hp => h₁.idle p (h'.idle p hp),
      fun y hy => h'.head y (h₁.head y hy)⟩
    obtain ht | ht := h'.ready t ht
    · exact h₁.ready t ht
    · exact .inr (hdue t ht)

/-- Fields of the current task that scheduling does not read. -/
theorem Queued.keep (h : Queued cfg s Q) {f : Tcb α → Tcb α}
    (hf : ∀ c, (f c).priority = c.priority ∧ (f c).next = c.next ∧ (f c).prev = c.prev ∧
      (f c).state = c.state) : Queued cfg (s.modify t f) Q :=
  h.congr rfl rfl (Lib.Store.modify_field Tcb.next _ _ (hf _).2.1)
    (Lib.Store.modify_field Tcb.prev _ _ (hf _).2.2.1)
    (Lib.Store.modify_field Tcb.priority _ _ (hf _).1)
    (Lib.Store.modify_field Tcb.state _ _ (hf _).2.2.2)

/-- **The time slice of the running task `c`**, when it is over or no ready task
    is above `c`. -/
theorem Queued.tickSlice (h : Queued cfg s Q) {c : α} (hc : s.currentTask = some c)
    (hci : c ≠ cfg.idleTcb) (hcp : (s.tcb c).priority < cfg.maxPriority)
    (hrun : s.schedulerRunning = true)
    (hstrict : (s.tcb c).remainingSlice = 1 ∨ StrictPriority s)
    (hs : tickSlice cfg s c = some s') : ∃ Q', Strict cfg s' Q' := by
  simp only [Gracemont.tickSlice, Sched.modify_tcb, Lib.Store.modify_self] at hs
  split_ifs at hs with h0
  · refine ((h.keep ?_).keep ?_).yield hrun hc ?_ (fun he => absurd he hci) hs
    · exact fun _ => ⟨rfl, rfl, rfl, rfl⟩
    · exact fun _ => ⟨rfl, rfl, rfl, rfl⟩
    · simpa using hcp
  · cases hs
    have hsp : StrictPriority s := by
      refine hstrict.resolve_left fun h1 => h0 ?_
      rw [h1]
      rfl
    refine ⟨Q, h.keep fun _ => ⟨rfl, rfl, rfl, rfl⟩, ?_, ?_, ?_, by simp [hrun, hc], by simp [hc]⟩
    · exact hsp.congr rfl rfl (Lib.Store.modify_field Tcb.priority _ _ rfl)
        (Lib.Store.modify_field Tcb.state _ _ rfl)
    · intro d hd _
      obtain rfl : c = d := Option.some.inj (hc.symm.trans hd)
      simpa using hcp
    · intro hd
      exact absurd (Option.some.inj (hc.symm.trans hd)) hci

/-- **`scheduler_tick`** keeps the invariant. -/
theorem Strict.tick (h : Strict cfg s Q) (hsafe : StrictSafe cfg s .schedulerTick)
    (hs : schedulerTick cfg s = some s') : ∃ Q', Strict cfg s' Q' := by
  obtain ⟨hwake, habove⟩ := hsafe
  have h₀ : Queued cfg { s with systemTicks := tickNow cfg s } Q :=
    h.toQueued.congr rfl rfl (fun _ => rfl) (fun _ => rfl) (fun _ => rfl) fun _ => rfl
  have hcan : CanWake { s with systemTicks := tickNow cfg s } Q := by
    intro t ht
    obtain hoff | ⟨hring, honly⟩ := hwake t ht
    · exact .inl fun p hp => hoff p (h.on_iff.2 hp)
    · exact .inr ⟨(h.queues.unique hring).symm, honly⟩
  obtain ⟨s₁, Q₁, hs₁, hw⟩ := h₀.wakeSleepers hcan fun t ht => ht
  rw [schedulerTick_eq, hs₁, Option.bind_some] at hs
  have hcur : s₁.currentTask = s.currentTask := hw.relinked.currentTask
  have hrunning : s₁.schedulerRunning = s.schedulerRunning := hw.relinked.schedulerRunning
  have hprio : ∀ x, (s₁.tcb x).priority = (s.tcb x).priority := hw.relinked.priority
  have hstrict : (∀ c, s.currentTask = some c → ∀ t, Due cfg s t →
      (s.tcb t).priority ≤ (s.tcb c).priority) → StrictPriority s₁ := by
    intro hlow c hc t ht hts
    rw [hprio, hprio]
    obtain hts | hdue := hw.ready t hts
    · exact h.strict c (hcur ▸ hc) t (hw.relinked.taskTable ▸ ht) hts
    · exact hlow c (hcur ▸ hc) t hdue
  have h₁ : StrictPriority s₁ → Strict cfg s₁ Q₁ := by
    intro hsp
    refine ⟨hw.inv, hsp, ?_, ?_, ?_, ?_⟩
    · intro c hc hci
      rw [hprio]
      exact h.current c (hcur ▸ hc) hci
    · intro hc p hp
      exact hw.head _ (h.idleHead (hcur ▸ hc) p (hw.idle p hp))
    · rw [hrunning, hcur]
      exact h.started
    · intro hn p hp
      exact h.boot (hcur ▸ hn) p (hw.idle p hp)
  rw [hcur] at hs
  rcases hc : s.currentTask with _ | c
  · simp only [hc] at hs
    split at hs
    · cases hs
    · cases hs
      exact ⟨_, h₁ (hstrict (by simp [hc]))⟩
  simp only [hc] at hs
  have hlow : (∀ t, Due cfg s t → (s.tcb t).priority ≤ (s.tcb c).priority) →
      StrictPriority s₁ := by
    intro hlow
    refine hstrict fun d hd => ?_
    obtain rfl : c = d := Option.some.inj (hc.symm.trans hd)
    exact hlow
  split_ifs at hs with hci
  · cases hs
    exact ⟨_, h₁ (hlow ((habove c hc).resolve_left fun hne => hne.1 hci))⟩
  · refine hw.inv.tickSlice (hcur.trans hc) hci ?_ ?_ ?_ hs
    · rw [hprio]
      exact h.current c hc hci
    · rw [hrunning]
      exact h.started.2 (by simp [hc])
    · rw [hw.relinked.remainingSlice c]
      exact (habove c hc).imp And.right hlow

/-! ## Creating and starting tasks -/

/-- A block on no queue gets new contents, and may enter the table. -/
theorem Queued.update (h : Queued cfg s Q) (hQ : ∀ p, t ∉ Q p) (hr : s'.readyList = s.readyList)
    (hx : ∀ x, x ≠ t → s'.tcb x = s.tcb x)
    (htab : ∀ x, x ≠ t → (x ∈ s'.taskTable ↔ x ∈ s.taskTable))
    (hprio : t ∈ s'.taskTable → (s'.tcb t).priority < cfg.maxPriority)
    (hsusp : (s'.tcb t).state = .suspended → (s'.tcb t).priority < cfg.maxPriority)
    (hready : t ≠ cfg.idleTcb → (s'.tcb t).state ≠ .ready)
    (hidle : t = cfg.idleTcb → (s'.tcb t).priority = 0 ∧ (s'.tcb t).state ≠ .blocked) :
    Queued cfg s' Q := by
  have hne : ∀ {p x}, x ∈ Q p → x ≠ t := by
    rintro p x hm rfl
    exact hQ p hm
  constructor
  · exact h.queues.congr hr (fun p x hm => by rw [hx x (hne hm)])
      (fun p x hm => by rw [hx x (hne hm)]) fun p x hm => by rw [hx x (hne hm)]
  · exact h.bound
  · intro x hm hxi hxs hx0
    have hxt : x ≠ t := by
      rintro rfl
      exact hready hxi hxs
    rw [hx x hxt] at hxs hx0 ⊢
    exact h.queued x ((htab x hxt).1 hm) hxi hxs hx0
  · intro x hm
    by_cases hxt : x = t
    · subst hxt
      exact hprio hm
    · rw [hx x hxt]
      exact h.prio x ((htab x hxt).1 hm)
  · intro x hxs
    by_cases hxt : x = t
    · subst hxt
      exact ⟨hsusp hxs, hQ⟩
    · rw [hx x hxt] at hxs ⊢
      exact h.suspended x hxs
  · intro x hxi hxs
    by_cases hxt : x = t
    · subst hxt
      exact hQ
    · rw [hx x hxt] at hxs
      exact h.running x hxi hxs
  · by_cases hit : cfg.idleTcb = t
    · rw [hit]
      exact hidle hit.symm
    · rw [hx _ hit]
      exact h.idle

/-- **`task_create`** with a block that is neither running nor queued. -/
theorem Strict.create (h : Strict cfg s Q) {tcb : Option α} {entry : Option ℕ} {priority : ℕ}
    {stack : Option ℕ} (hi : tcb ≠ some cfg.idleTcb)
    (hsafe : StrictSafe cfg s (.taskCreate tcb entry priority stack)) :
    Strict cfg (taskCreate cfg s tcb entry priority stack).1 Q := by
  unfold taskCreate
  rcases tcb with _ | t
  · exact h
  simp only
  split_ifs with h1 h2 h3
  · exact h
  · exact h
  · exact h
  have hti : t ≠ cfg.idleTcb := by
    rintro rfl
    exact hi rfl
  obtain ⟨hcur, hoff⟩ := hsafe t rfl (fun he => h1 (.inl he)) (fun he => h1 (.inr he))
    (Nat.lt_of_not_le h2) (Nat.lt_of_not_le h3)
  have hct : ∀ c, s.currentTask = some c → c ≠ t := by
    rintro c hc rfl
    exact hcur hc
  refine ⟨h.update (t := t) (fun p hp => hoff p (h.on_iff.2 hp)) rfl (fun x hx => by simp [hx])
    (fun x hx => by simp [hx]) (fun _ => ?_) (fun _ => ?_) (fun _ => by simp)
    (fun he => absurd he hti), ?_, ?_, h.idleHead, h.started, h.boot⟩
  · simpa using Nat.lt_of_not_le h2
  · simpa using Nat.lt_of_not_le h2
  · intro c hc x hx hxs
    have hxt : x ≠ t := by
      rintro rfl
      simp at hxs
    have hm : x ∈ s.taskTable := by simpa [hxt] using hx
    simpa [hxt, hct c hc] using h.strict c hc x hm (by simpa [hxt] using hxs)
  · intro c hc hci
    simpa [hct c hc] using h.current c hc hci

/-- **`task_start`**: the started task takes over if it is above the running
    one. -/
theorem Strict.taskStart (h : Strict cfg s Q) {tcb : Option α} (hi : tcb ≠ some cfg.idleTcb)
    {st : Status} (hs : taskStart cfg s tcb = some (s', st)) : ∃ Q', Strict cfg s' Q' := by
  unfold Gracemont.taskStart at hs
  rcases tcb with _ | t
  · cases hs
    exact ⟨_, h⟩
  simp only at hs
  split_ifs at hs with hsus
  swap
  · cases hs
    exact ⟨_, h⟩
  have hti : cfg.idleTcb ≠ t := by
    rintro rfl
    exact hi rfl
  obtain ⟨hpt, hoff⟩ := h.suspended t hsus
  obtain ⟨s₁, Q₁, hs₁, he⟩ := h.enter hpt (.inl hoff)
  have hprio : ∀ x, (s₁.tcb x).priority = (s.tcb x).priority := he.relinked.priority
  have hidle : ∀ p, cfg.idleTcb ∈ Q₁ p → cfg.idleTcb ∈ Q p := fun p hp =>
    (he.sub p _ hp).resolve_right hti
  have hkeep : (∀ c, s.currentTask = some c → (s.tcb t).priority ≤ (s.tcb c).priority) →
      Strict cfg s₁ Q₁ := by
    intro hlow
    refine ⟨he.inv, ?_, ?_, ?_, ?_, ?_⟩
    · intro c hc x hx hxs
      rw [he.relinked.currentTask] at hc
      rw [he.relinked.taskTable] at hx
      rw [hprio, hprio]
      rw [he.state] at hxs
      by_cases hxt : x = t
      · rw [hxt]
        exact hlow c hc
      · rw [if_neg hxt] at hxs
        exact h.strict c hc x hx hxs
    · intro c hc hci
      rw [hprio]
      exact h.current c (he.relinked.currentTask ▸ hc) hci
    · intro hc p hp
      exact he.head _ (h.idleHead (he.relinked.currentTask ▸ hc) p (hidle p hp))
    · rw [he.relinked.schedulerRunning, he.relinked.currentTask]
      exact h.started
    · intro hn p hp
      exact h.boot (he.relinked.currentTask ▸ hn) p (hidle p hp)
  simp only [hs₁, Option.bind_eq_bind, Option.bind_some] at hs
  split at hs
  · rename_i cur hrun hcur
    split_ifs at hs with hlt
    · obtain ⟨s₂, hs₂, hs⟩ := Option.bind_eq_some_iff.1 hs
      cases hs
      rw [hprio, hprio] at hlt
      refine he.inv.yield hrun hcur ?_ ?_ hs₂
      · rw [hprio]
        omega
      · rintro rfl p hp
        exact he.head _ (h.idleHead (he.relinked.currentTask ▸ hcur) p (hidle p hp))
    · cases hs
      refine ⟨_, hkeep fun c hc => ?_⟩
      obtain rfl : cur = c := Option.some.inj
        (hcur.symm.trans (he.relinked.currentTask.trans hc))
      rw [hprio, hprio] at hlt
      omega
  · rename_i hno
    cases hs
    refine ⟨_, hkeep fun c hc => ?_⟩
    have hrun : s'.schedulerRunning = true := by
      rw [he.relinked.schedulerRunning]
      exact h.started.2 (by simp [hc])
    exact absurd (he.relinked.currentTask.trans hc) (hno c hrun)

/-- The idle task that `scheduler_start` creates; a failure is not noticed. -/
theorem Queued.createIdle (h : Queued cfg s Q) (hi : ∀ p, cfg.idleTcb ∉ Q p) :
    Queued cfg ((taskCreate cfg s (some cfg.idleTcb) (some 0) 0 (some 0)).1.modify cfg.idleTcb
      fun t => { t with state := .ready }) Q := by
  unfold taskCreate
  simp only [reduceCtorEq, or_self, if_false]
  split_ifs with h1 h2
  · exact h.update hi rfl (fun x hx => by simp [hx]) (fun x _ => Iff.rfl)
      (fun hm => by simpa using h.prio _ hm) (by simp) (fun hne => absurd rfl hne)
      fun _ => by simp [h.idle.1]
  · exact h.update hi rfl (fun x hx => by simp [hx]) (fun x _ => Iff.rfl)
      (fun hm => by simpa using h.prio _ hm) (by simp) (fun hne => absurd rfl hne)
      fun _ => by simp [h.idle.1]
  · exact h.update hi rfl (fun x hx => by simp [hx]) (fun x hx => by simp [hx])
      (fun _ => by simpa using Nat.lt_of_not_le h1) (by simp) (fun hne => absurd rfl hne)
      fun _ => by simp

/-- **`scheduler_start`.** -/
theorem Strict.schedulerStart (h : Strict cfg s Q) (hrun : s.schedulerRunning = false)
    (hs : schedulerStart cfg s = some s') : ∃ Q', Strict cfg s' Q' := by
  have hcur : s.currentTask = none := by
    by_contra hne
    rw [h.started.2 hne] at hrun
    cases hrun
  have h₁ := h.createIdle (h.boot hcur)
  unfold Gracemont.schedulerStart at hs
  simp only at hs
  generalize hs₁ : (taskCreate cfg s (some cfg.idleTcb) (some 0) 0 (some 0)).1.modify cfg.idleTcb
    (fun t => { t with state := .ready }) = s₁ at hs h₁
  let s₂ : Sched α := { s₁ with currentTask := some (getHighestReady cfg s₁) }
  have h₂ : Queued cfg s₂ Q :=
    h₁.congr rfl rfl (fun _ => rfl) (fun _ => rfl) (fun _ => rfl) fun _ => rfl
  by_cases hid : getHighestReady cfg s₁ = cfg.idleTcb
  · have hpick : (if getHighestReady cfg s₂ = cfg.idleTcb then some s₂
        else readyListRemove s₂ (getHighestReady cfg s₂)) = some s₂ := if_pos hid
    simp only [hid, if_true, Option.bind_eq_bind, Option.bind_some] at hs
    cases hs
    refine h₂.run hpick (f := fun t => { t with state := .running }) (fun _ => rfl)
      (fun _ => ⟨rfl, rfl, rfl⟩) ?_ rfl rfl (by rw [← hid]; rfl) rfl
    change _ = (s₁.modify (getHighestReady cfg s₁) _).tcb
    rw [hid]
    rfl
  · simp only [if_neg hid, Option.bind_eq_bind] at hs
    obtain ⟨s₃, hs₃, hs⟩ := Option.bind_eq_some_iff.1 hs
    cases hs
    obtain ⟨p, x, l, hQ, -, hx⟩ := (h₁.queues.highest h₁.bound).resolve_left fun he => hid he.2
    rw [← hx] at hQ
    have hpick : (if getHighestReady cfg s₂ = cfg.idleTcb then some s₂
        else readyListRemove s₂ (getHighestReady cfg s₂)) = some s₃ := (if_neg hid).trans hs₃
    refine h₂.run hpick (f := fun t => { t with state := .running }) (fun _ => rfl)
      (fun _ => ⟨rfl, rfl, rfl⟩) rfl rfl rfl ?_ rfl
    exact (h₂.dispatch hQ hid hs₃ (f := fun t => { t with state := .running }) (fun _ => rfl)
      fun _ => ⟨rfl, rfl, rfl⟩).2.2.2.currentTask

end

/-! ## Runs -/

theorem strict_boot (cfg : SchedConfig α) : Strict cfg Sched.boot fun _ => [] := by
  refine ⟨⟨⟨fun p => Lib.ring_nil, fun p t ht => by cases ht⟩, ?_, ?_, ?_, ?_, ?_, rfl, ?_⟩,
    ?_, ?_, ?_, ?_, ?_⟩
  all_goals simp [Sched.boot, Tcb.zero, StrictPriority]

section
variable [DecidableEq α]

/-- **Every safe call keeps the invariant.** -/
theorem Strict.step (h : Strict cfg s Q) {op : Op α} (hsafe : StrictSafe cfg s op)
    (hs : step cfg s op = some s') : ∃ Q', Strict cfg s' Q' := by
  have hrun : ∀ {c}, s.currentTask = some c → s.schedulerRunning = true := by
    intro c hc
    exact h.started.2 (by simp [hc])
  cases op with
  | taskCreate tcb entry priority stack =>
    simp only [Gracemont.step] at hs
    split_ifs at hs with hi
    cases hs
    exact ⟨_, h.create hi hsafe⟩
  | taskStart tcb =>
    simp only [Gracemont.step] at hs
    split_ifs at hs with hi
    obtain ⟨⟨s₁, st⟩, hs₁, rfl⟩ := Option.map_eq_some_iff.1 hs
    exact h.taskStart hi hs₁
  | taskYield =>
    simp only [Gracemont.step] at hs
    split_ifs at hs with hi
    rcases hc : s.currentTask with _ | c
    · simp [taskYield, hc] at hs
    have hci : c ≠ cfg.idleTcb := fun he => hi (he ▸ hc)
    exact h.toQueued.yield (hrun hc) hc (h.current c hc hci) (fun he => absurd he hci) hs
  | taskSleep ticks =>
    simp only [Gracemont.step] at hs
    split_ifs at hs with hi
    rcases hc : s.currentTask with _ | c
    · simp [taskSleep, hc] at hs
    simp only [taskSleep, hc, Option.bind_eq_bind, Option.bind_some] at hs
    refine (h.toQueued.setState ?_ ?_ ?_ ?_).schedule (hrun hc) hs
    · exact fun _ => ⟨rfl, rfl, rfl⟩
    · simp
    · simp
    · exact fun he => absurd (he ▸ hc) hi
  | taskTerminate =>
    simp only [Gracemont.step] at hs
    split_ifs at hs with hi
    rcases hc : s.currentTask with _ | c
    · simp [taskTerminate, hc] at hs
    simp only [taskTerminate, hc, Option.bind_eq_bind, Option.bind_some] at hs
    refine (h.toQueued.setState ?_ ?_ ?_ ?_).schedule (hrun hc) hs
    · exact fun _ => ⟨rfl, rfl, rfl⟩
    · simp
    · simp
    · exact fun he => absurd (he ▸ hc) hi
  | schedulerTick => exact h.tick hsafe hs
  | schedulerStart =>
    simp only [Gracemont.step] at hs
    split_ifs at hs with hr
    exact h.schedulerStart (by simpa using hr) hs
  | clock now =>
    simp only [Gracemont.step] at hs
    split at hs
    · cases hs
    · cases hs
      exact ⟨Q, h.toQueued.congr rfl rfl (fun _ => rfl) (fun _ => rfl) (fun _ => rfl) fun _ => rfl,
        h.strict.congr rfl rfl (fun _ => rfl) fun _ => rfl, h.current, h.idleHead, h.started,
        h.boot⟩

/-- **Strict priority holds along every run of safe calls.** -/
theorem strict_priority_of_safe (cfg : SchedConfig α) {tr : List (Op α)} {s : Sched α}
    (h : ((schedLts cfg).restrict (StrictSafe cfg)).Run tr s) : StrictPriority s := by
  have hinv : ∃ Q, Strict cfg s Q := by
    refine h.rule (P := fun _ s => ∃ Q, Strict cfg s Q) ?_ ?_
    · rintro s rfl
      exact ⟨_, strict_boot cfg⟩
    · rintro tr s e s' ⟨Q, hQ⟩ ⟨hsafe, hs⟩
      exact hQ.step hsafe hs
  obtain ⟨Q, hQ⟩ := hinv
  exact hQ.strict

end

/-- A task starts a task above it, which takes over; then a tick. -/
def demoPreempt : List (Op (Fin 3)) :=
  [.taskCreate (some 1) (some 0) 1 (some 0), .taskCreate (some 2) (some 0) 2 (some 0),
    .taskStart (some 1), .schedulerStart, .taskStart (some 2), .schedulerTick]

theorem demoPreempt_runs :
    (Lib.Lts.exec (step (demoConfig .arm64)) .boot demoPreempt).isSome := by decide +kernel

theorem strict_priority_of_safe_preempt : ∃ s,
    Lib.Lts.exec (step (demoConfig .arm64)) .boot demoPreempt = some s ∧ s.currentTask = some 2 ∧
      StrictPriority s := by
  refine ⟨_, (Option.some_get demoPreempt_runs).symm, by decide +kernel,
    strict_priority_of_safe _
    (Lib.Lts.run_exec_restrict rfl (Option.some_get demoPreempt_runs).symm fun i hi => ?_)⟩
  have hi : i = 0 ∨ i = 1 ∨ i = 2 ∨ i = 3 ∨ i = 4 ∨ i = 5 := by
    simp only [demoPreempt, List.length_cons, List.length_nil] at hi
    omega
  have hoff : ∀ {s : Sched (Fin 3)} {t p}, s.readyList = (fun _ => none) → ¬ OnReadyList s p t := by
    rintro s t p hnone ⟨l, hl, ht⟩
    rw [hnone] at hl
    rw [hl.head_none] at ht
    cases ht
  rcases hi with rfl | rfl | rfl | rfl | rfl | rfl
  · rintro t ⟨⟩ - - - -
    exact ⟨by decide +kernel, fun p => hoff rfl⟩
  · rintro t ⟨⟩ - - - -
    exact ⟨by decide +kernel, fun p => hoff rfl⟩
  · trivial
  · trivial
  · trivial
  · have hnone : ∀ t, ¬ Due (demoConfig .arm64)
        ((Lib.Lts.exec (step (demoConfig .arm64)) .boot (demoPreempt.take 5)).get
          (by decide +kernel)) t := by
      rintro t ⟨-, hb, -⟩
      revert t
      decide +kernel
    exact ⟨fun t ht => absurd ht (hnone t), fun c _ => .inr fun t ht => absurd ht (hnone t)⟩

/-- The only task sleeps for a tick; `clock` is the timer of the X86_64 port. -/
def demoIdleWake (clock : List (Op (Fin 3))) : List (Op (Fin 3)) :=
  [.taskCreate (some 1) (some 0) 1 (some 0), .taskStart (some 1), .schedulerStart,
    .taskSleep 1] ++ clock ++ [.schedulerTick]

/-- **The idle task keeps running** when a tick has woken a task above it. -/
theorem strict_priority_broken :
    (∃ s, (schedLts (demoConfig .arm64)).Run (demoIdleWake []) s ∧ ¬ StrictPriority s) ∧
      ∃ s, (schedLts (demoConfig .x86_64)).Run (demoIdleWake [.clock 1]) s ∧
        ¬ StrictPriority s := by
  have arm : (schedLts (demoConfig .arm64)).Run (demoIdleWake []) _ :=
    Lib.Lts.run_exec_get (by rfl) (by decide +kernel)
  have x86 : (schedLts (demoConfig .x86_64)).Run (demoIdleWake [.clock 1]) _ :=
    Lib.Lts.run_exec_get (by rfl) (by decide +kernel)
  refine ⟨⟨_, arm, fun h => ?_⟩, ⟨_, x86, fun h => ?_⟩⟩
  all_goals
    have hle := h 0 (by decide +kernel) 1 (by decide +kernel) (by decide +kernel)
    revert hle
    decide +kernel

end Gracemont
