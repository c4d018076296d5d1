/-
  Gracemont kernel — the scheduler invariant.

  `SchedInv` is what the ready lists, the task states and `current_task` are
  meant to satisfy between two calls.  `schedule_locked` leaves a requeued task
  as it is when it picks the running task again, and it does not unlink a
  requeued idle task when it picks that; `Safe` says that a call meets neither
  case.  Over runs of safe calls the invariant holds (`sched_inv_of_safe`).

  The inductive form of the invariant names the queues: `Core` is the part that
  also holds inside a call, `Inv` adds the current task.
-/
import Gracemont.Kernel.ReadyList

namespace Gracemont

variable {α : Type}

/-- The task `t` is on the ready list of priority `p`. -/
def OnReadyList (s : Sched α) (p : ℕ) (t : α) : Prop :=
  ∃ l, Lib.Ring s.tcb.next s.tcb.prev (s.readyList p) l ∧ t ∈ l

/-- **The scheduler invariant.**  Every ready list is empty or a circular list
    of ready tasks of its priority; the current task is running and on no ready
    list; every other ready task is on exactly one ready list. -/
structure SchedInv (cfg : SchedConfig α) (s : Sched α) : Prop where
  lists : ∀ p < cfg.maxPriority, ∃ l, Lib.Ring s.tcb.next s.tcb.prev (s.readyList p) l ∧
    ∀ t ∈ l, (s.tcb t).state = .ready ∧ (s.tcb t).priority = p
  current : ∀ c, s.currentTask = some c →
    (s.tcb c).state = .running ∧ ∀ p < cfg.maxPriority, ¬ OnReadyList s p c
  ready : ∀ t ∈ s.taskTable, t ≠ cfg.idleTcb → s.currentTask ≠ some t →
    (s.tcb t).state = .ready → ∃! p, p < cfg.maxPriority ∧ OnReadyList s p t

/-! ## Safe calls -/

/-- The counter value that `scheduler_tick` compares wake-up times with. -/
def tickNow (cfg : SchedConfig α) (s : Sched α) : ℕ :=
  match cfg.port with
  | .arm64 => cfg.port.tick (s.systemTicks + 1)
  | .x86_64 => s.systemTicks

/-- The sleeping task `t` is due at the next tick. -/
def Due (cfg : SchedConfig α) (s : Sched α) (t : α) : Prop :=
  t ∈ s.taskTable ∧ (s.tcb t).state = .blocked ∧ (s.tcb t).waitObj = none ∧
    (s.tcb t).wakeTick ≤ tickNow cfg s

/-- Some other task can take over from the running task `c`: a task that is
    ready (or `due`), of at least the priority of `c`, and no requeued idle
    task is before it. -/
def Handover (cfg : SchedConfig α) (s : Sched α) (due : α → Prop) (c : α) : Prop :=
  ∃ t, t ≠ cfg.idleTcb ∧ ((∃ p, OnReadyList s p t) ∨ due t) ∧
    (s.tcb c).priority ≤ (s.tcb t).priority ∧
    ((s.tcb t).priority = 0 → s.readyList 0 ≠ some cfg.idleTcb)

/-- The calls after which `schedule_locked` does not pick the running task
    again, nor a requeued idle task; and `task_create` is not given a block
    that is in use. -/
def Safe (cfg : SchedConfig α) (s : Sched α) : Op α → Prop
  | .taskCreate tcb entry priority stack => ∀ t, tcb = some t → entry ≠ none → stack ≠ none →
    priority < cfg.maxPriority → s.taskTable.length < cfg.maxTasks → t ∈ s.taskTable →
    (s.tcb t).state ≠ .ready ∧ (s.tcb t).state ≠ .running
  | .taskYield => ∀ c, s.currentTask = some c → Handover cfg s (fun _ => False) c
  | .schedulerTick => ∀ c, s.currentTask = some c → c ≠ cfg.idleTcb →
    (s.tcb c).remainingSlice = 1 → Handover cfg s (Due cfg s) c
  | .taskSleep _ | .taskTerminate => s.readyList 0 = some cfg.idleTcb →
    ∃ t, t ≠ cfg.idleTcb ∧ (∃ p, OnReadyList s p t) ∧ 0 < (s.tcb t).priority
  | _ => True

/-! ## The inductive invariant -/

/-- The invariant inside a call: the queues `Q`, and the tasks of the table. -/
structure Core (cfg : SchedConfig α) (s : Sched α) (Q : ℕ → List α) : Prop where
  queues : ReadyQueues s Q
  ready : ∀ p, ∀ t ∈ Q p, (s.tcb t).state = .ready
  bound : ∀ p, ∀ t ∈ Q p, p < cfg.maxPriority
  known : ∀ p, ∀ t ∈ Q p, t ∈ s.taskTable ∨ t = cfg.idleTcb
  queued : ∀ t ∈ s.taskTable, t ≠ cfg.idleTcb → (s.tcb t).state = .ready →
    t ∈ Q (s.tcb t).priority
  prio : ∀ t ∈ s.taskTable, (s.tcb t).priority < cfg.maxPriority
  fresh : ∀ t, t ∉ s.taskTable → t ≠ cfg.idleTcb → (s.tcb t).state = .ready
  idlePrio : (s.tcb cfg.idleTcb).priority = 0
  idleState : (s.tcb cfg.idleTcb).state = .ready ∨ (s.tcb cfg.idleTcb).state = .running

/-- The invariant between calls. -/
structure Inv (cfg : SchedConfig α) (s : Sched α) (Q : ℕ → List α) : Prop extends Core cfg s Q where
  running : ∀ c, s.currentTask = some c → (s.tcb c).state = .running
  current : ∀ c, s.currentTask = some c → c ∈ s.taskTable ∨ c = cfg.idleTcb
  started : s.schedulerRunning = true ↔ s.currentTask ≠ none
  boot : s.currentTask = none → ∀ p, cfg.idleTcb ∉ Q p

variable {cfg : SchedConfig α} {s s' : Sched α} {Q : ℕ → List α}

theorem Core.on_iff (h : Core cfg s Q) {p : ℕ} {t : α} : OnReadyList s p t ↔ t ∈ Q p := by
  constructor
  · rintro ⟨l, hl, ht⟩
    exact h.queues.unique hl ▸ ht
  · exact fun ht => ⟨_, h.queues.ring p, ht⟩

theorem Inv.schedInv (h : Inv cfg s Q) : SchedInv cfg s := by
  refine ⟨fun p _ => ⟨_, h.queues.ring p, fun t ht => ⟨h.ready p t ht, h.queues.prio p t ht⟩⟩,
    fun c hc => ⟨h.running c hc, fun p _ hp => ?_⟩, fun t ht hi _ hst => ?_⟩
  · have hr := h.ready p c (h.on_iff.1 hp)
    rw [h.running c hc] at hr; cases hr
  · refine ⟨_, ⟨h.prio t ht, h.on_iff.2 (h.queued t ht hi hst)⟩, ?_⟩
    rintro p ⟨-, hp⟩
    exact (h.queues.prio p t (h.on_iff.1 hp)).symm

/-- The core only depends on the links of queued tasks, and on priorities and
    states. -/
theorem Core.relink (h : Core cfg s Q) (hr : s'.readyList = s.readyList)
    (ht : s'.taskTable = s.taskTable) (hn : ∀ p, ∀ t ∈ Q p, (s'.tcb t).next = (s.tcb t).next)
    (hp : ∀ p, ∀ t ∈ Q p, (s'.tcb t).prev = (s.tcb t).prev)
    (hprio : ∀ t, (s'.tcb t).priority = (s.tcb t).priority)
    (hst : ∀ t, (s'.tcb t).state = (s.tcb t).state) : Core cfg s' Q where
  queues := h.queues.congr hr hn hp fun _ t _ => hprio t
  ready p t hQ := (hst t).trans (h.ready p t hQ)
  bound := h.bound
  known p t hQ := ht ▸ h.known p t hQ
  queued t h1 h2 h3 := hprio t ▸ h.queued t (ht ▸ h1) h2 (hst t ▸ h3)
  prio t h1 := hprio t ▸ h.prio t (ht ▸ h1)
  fresh t h1 h2 := (hst t).trans (h.fresh t (ht ▸ h1) h2)
  idlePrio := (hprio _).trans h.idlePrio
  idleState := by rw [hst]; exact h.idleState

/-- The core only depends on links, priorities and states. -/
theorem Core.congr (h : Core cfg s Q) (hr : s'.readyList = s.readyList)
    (ht : s'.taskTable = s.taskTable) (hn : ∀ t, (s'.tcb t).next = (s.tcb t).next)
    (hp : ∀ t, (s'.tcb t).prev = (s.tcb t).prev)
    (hprio : ∀ t, (s'.tcb t).priority = (s.tcb t).priority)
    (hst : ∀ t, (s'.tcb t).state = (s.tcb t).state) : Core cfg s' Q :=
  h.relink hr ht (fun _ t _ => hn t) (fun _ t _ => hp t) hprio hst

/-- The current task is no part of the core. -/
theorem Core.setCurrent (h : Core cfg s Q) (c : Option α) (b : Bool) :
    Core cfg { s with currentTask := c, schedulerRunning := b } Q :=
  h.congr rfl rfl (fun _ => rfl) (fun _ => rfl) (fun _ => rfl) fun _ => rfl

/-- A task that is not ready is on no queue. -/
theorem Core.not_mem (h : Core cfg s Q) {t : α} (ht : (s.tcb t).state ≠ .ready) (p : ℕ) :
    t ∉ Q p := fun hp => ht (h.ready p t hp)

theorem Core.idle_mem (h : Core cfg s Q) {p : ℕ} (hp : cfg.idleTcb ∈ Q p) : p = 0 :=
  (h.queues.prio p _ hp).symm.trans h.idlePrio

theorem Core.disjoint (h : Core cfg s Q) {p q : ℕ} {t : α} (hp : t ∈ Q p) (hq : t ∈ Q q) : p = q :=
  (h.queues.prio p t hp).symm.trans (h.queues.prio q t hq)

theorem Core.highest (h : Core cfg s Q) :
    ((∀ p, Q p = []) ∧ getHighestReady cfg s = cfg.idleTcb) ∨
      ∃ p t l, Q p = t :: l ∧ (∀ q, p < q → Q q = []) ∧ getHighestReady cfg s = t :=
  h.queues.highest h.bound

/-- Changing a task that is on no queue, entering it into the table or not. -/
theorem Core.update (h : Core cfg s Q) {t : α} (hQ : ∀ p, t ∉ Q p)
    (hr : s'.readyList = s.readyList) (hx : ∀ x, x ≠ t → s'.tcb x = s.tcb x)
    (htab : ∀ x, x ≠ t → (x ∈ s'.taskTable ↔ x ∈ s.taskTable))
    (hprio : t ∈ s'.taskTable → (s'.tcb t).priority < cfg.maxPriority)
    (hidle : t = cfg.idleTcb → (s'.tcb t).priority = 0 ∧
      ((s'.tcb t).state = .ready ∨ (s'.tcb t).state = .running))
    (hother : t ≠ cfg.idleTcb → t ∈ s'.taskTable ∧ (s'.tcb t).state ≠ .ready) :
    Core cfg s' Q := by
  have hne : ∀ {p x}, x ∈ Q p → x ≠ t := fun hx he => hQ _ (he ▸ hx)
  constructor
  · exact h.queues.congr hr (fun p x hm => by rw [hx x (hne hm)])
      (fun p x hm => by rw [hx x (hne hm)]) fun p x hm => by rw [hx x (hne hm)]
  · intro p x hm
    rw [hx x (hne hm)]; exact h.ready p x hm
  · exact h.bound
  · intro p x hm
    rw [htab x (hne hm)]; exact h.known p x hm
  · intro x hm hxi hst
    by_cases hxt : x = t
    · subst hxt; exact absurd hst (hother hxi).2
    · rw [hx x hxt] at hst ⊢
      exact h.queued x ((htab x hxt).1 hm) hxi hst
  · intro x hm
    by_cases hxt : x = t
    · subst hxt; exact hprio hm
    · rw [hx x hxt]; exact h.prio x ((htab x hxt).1 hm)
  · intro x hm hxi
    by_cases hxt : x = t
    · subst hxt; exact absurd (hother hxi).1 hm
    · rw [hx x hxt]; exact h.fresh x (fun hm' => hm ((htab x hxt).2 hm')) hxi
  · by_cases hit : t = cfg.idleTcb
    · exact hit ▸ (hidle hit).1
    · rw [hx _ (Ne.symm hit)]; exact h.idlePrio
  · by_cases hit : t = cfg.idleTcb
    · exact hit ▸ (hidle hit).2
    · rw [hx _ (Ne.symm hit)]; exact h.idleState

/-! ## The operations -/

/-- The queues after `t` joined that of priority `p`. -/
def enqueue (Q : ℕ → List α) (p : ℕ) (t : α) : ℕ → List α := Function.update Q p (Q p ++ [t])

theorem mem_enqueue {p q : ℕ} {t x : α} :
    x ∈ enqueue Q p t q ↔ x ∈ Q q ∨ (q = p ∧ x = t) := by
  unfold enqueue
  by_cases hq : q = p
  · subst hq; simp
  · simp [hq]

theorem enqueue_self {p : ℕ} {t : α} : enqueue Q p t p = Q p ++ [t] := by simp [enqueue]

section
variable [DecidableEq α]

/-- **`ready_list_add`** of a task that is on no queue. -/
theorem Core.add (h : Core cfg s Q) {t : α} (hQ : ∀ p, t ∉ Q p)
    (ht : t ∈ s.taskTable ∨ t = cfg.idleTcb) (hp : (s.tcb t).priority < cfg.maxPriority) :
    ∃ s', readyListAdd s t = some s' ∧ Core cfg s' (enqueue Q (s.tcb t).priority t) ∧
      Relinked s s' ∧ ∀ x, (s'.tcb x).state = if x = t then .ready else (s.tcb x).state := by
  obtain ⟨s', hs', hq, hrel, hst⟩ := readyListAdd_spec h.queues hQ
  refine ⟨s', hs', ?_, hrel, hst⟩
  constructor
  · exact hq
  · intro p x hx
    rw [hst]
    split_ifs with hxt
    · rfl
    · rcases mem_enqueue.1 hx with hx | ⟨-, hx⟩
      exacts [h.ready p x hx, absurd hx hxt]
  · intro p x hx
    rcases mem_enqueue.1 hx with hx | ⟨rfl, -⟩
    exacts [h.bound p x hx, hp]
  · intro p x hx
    rw [hrel.taskTable]
    rcases mem_enqueue.1 hx with hx | ⟨-, rfl⟩
    exacts [h.known p x hx, ht]
  · intro x hx hxi hxs
    rw [hrel.taskTable] at hx
    rw [hrel.priority, mem_enqueue]
    by_cases hxt : x = t
    · subst hxt; exact Or.inr ⟨rfl, rfl⟩
    · rw [hst, if_neg hxt] at hxs; exact Or.inl (h.queued x hx hxi hxs)
  · intro x hx
    rw [hrel.priority]; exact h.prio x (hrel.taskTable ▸ hx)
  · intro x hx hxi
    rw [hst]
    split_ifs with hxt
    · rfl
    · exact h.fresh x (hrel.taskTable ▸ hx) hxi
  · rw [hrel.priority]; exact h.idlePrio
  · rw [hst]
    split_ifs with hxt
    · exact Or.inl rfl
    · exact h.idleState

/-- Taking the head off its queue, to run it. -/
theorem Core.dispatch (h : Core cfg s Q) {p : ℕ} {t : α} {l : List α} (hQ : Q p = t :: l)
    (hti : t ≠ cfg.idleTcb) {f : Tcb α → Tcb α} (hf : ∀ c, (f c).state = .running)
    (hfp : ∀ c, (f c).priority = c.priority) (hfn : ∀ c, (f c).next = c.next)
    (hfv : ∀ c, (f c).prev = c.prev) :
    ∃ s₁ Q', readyListRemove s t = some s₁ ∧ Core cfg (s₁.modify t f) Q' ∧ Relinked s s₁ := by
  have htm : t ∈ Q p := by simp [hQ]
  have hpt : (s.tcb t).priority = p := h.queues.prio p t htm
  have hQt : Q (s.tcb t).priority = [] ++ t :: l := by rw [hpt, hQ]; rfl
  obtain ⟨s₁, hs₁, hq, hrel, hst⟩ := readyListRemove_spec h.queues hQt
  rw [hpt] at hq
  have hsub : ∀ {q x}, x ∈ Function.update Q p ([] ++ l) q → x ∈ Q q := by
    intro q x hx
    by_cases hqp : q = p
    · subst hqp; rw [Function.update_self] at hx; simp [hQ, show x ∈ l from hx]
    · rwa [Function.update_of_ne hqp] at hx
  have htl : t ∉ l := by
    have := (h.queues.ring p).nodup
    rw [hQ] at this
    exact (List.nodup_cons.1 this).1
  have hnt : ∀ {q}, t ∉ Function.update Q p ([] ++ l) q := by
    intro q hq
    by_cases hqp : q = p
    · subst hqp; rw [Function.update_self] at hq; exact htl hq
    · rw [Function.update_of_ne hqp] at hq
      exact hqp (h.disjoint hq htm)
  have hkeep : ∀ x, ((s₁.modify t f).tcb x).priority = (s.tcb x).priority := fun x =>
    (Lib.Store.modify_field Tcb.priority _ _ (hfp _) x).trans (hrel.priority x)
  have hstate : ∀ x, x ≠ t → ((s₁.modify t f).tcb x).state = (s.tcb x).state := by
    intro x hx
    simpa [hx] using hst x
  refine ⟨s₁, Function.update Q p ([] ++ l), hs₁, ?_, hrel⟩
  constructor
  · exact hq.congr rfl (fun q x _ => Lib.Store.modify_field Tcb.next _ _ (hfn _) x)
      (fun q x _ => Lib.Store.modify_field Tcb.prev _ _ (hfv _) x)
      fun q x _ => Lib.Store.modify_field Tcb.priority _ _ (hfp _) x
  · intro q x hx
    rw [hstate x fun he => hnt (he ▸ hx)]
    exact h.ready q x (hsub hx)
  · exact fun q x hx => h.bound q x (hsub hx)
  · intro q x hx
    have := h.known q x (hsub hx)
    rwa [← hrel.taskTable] at this
  · intro x hx hxi hxs
    have hxt : x ≠ t := by
      rintro rfl
      simp [hf] at hxs
    rw [hstate x hxt] at hxs
    have hm := h.queued x (by rw [← hrel.taskTable]; exact hx) hxi hxs
    rw [hkeep]
    by_cases hxp : (s.tcb x).priority = p
    · rw [hxp, hQ] at hm
      rw [hxp, Function.update_self]
      simpa [hxt] using hm
    · rwa [Function.update_of_ne hxp]
  · intro x hx
    rw [hkeep]; exact h.prio x (by rw [← hrel.taskTable]; exact hx)
  · intro x hx hxi
    have hxk : x ∉ s.taskTable := by rw [← hrel.taskTable]; exact hx
    have hxt : x ≠ t := by
      rintro rfl
      rcases h.known p x htm with hk | hk
      exacts [hxk hk, hti hk]
    rw [hstate x hxt]; exact h.fresh x hxk hxi
  · rw [hkeep]; exact h.idlePrio
  · rw [hstate _ (Ne.symm hti)]; exact h.idleState

/-- Running the idle task, when it is on no queue. -/
theorem Core.runIdle (h : Core cfg s Q) (hi : ∀ p, cfg.idleTcb ∉ Q p) {f : Tcb α → Tcb α}
    (hf : ∀ c, (f c).state = .running) (hfp : ∀ c, (f c).priority = c.priority) :
    Core cfg (s.modify cfg.idleTcb f) Q := by
  refine h.update hi rfl (fun x hx => by simp [hx]) (fun x _ => Iff.rfl) (fun hm => ?_)
    (fun _ => ?_) (fun hne => absurd rfl hne)
  · simpa [hfp] using h.prio _ hm
  · simp [hf, hfp, h.idlePrio]

/-- **`schedule_locked`**, when it neither picks the running task again nor a
    requeued idle task. -/
theorem Core.schedule (h : Core cfg s Q) (hrun : s.schedulerRunning = true)
    (hcur : s.currentTask ≠ some (getHighestReady cfg s))
    (hidle : getHighestReady cfg s = cfg.idleTcb → ∀ p, cfg.idleTcb ∉ Q p) :
    ∃ s' Q', scheduleLocked cfg s = some s' ∧ Inv cfg s' Q' := by
  unfold scheduleLocked
  simp only [if_neg hcur]
  by_cases hi : getHighestReady cfg s = cfg.idleTcb
  · simp only [hi, if_true]
    refine ⟨_, Q, rfl, (h.runIdle (hidle hi) (fun _ => ?_) fun _ => ?_).setCurrent _ _,
      ?_, ?_, ?_, ?_⟩
    · rfl
    · rfl
    · rintro c ⟨⟩; simp
    · rintro c ⟨⟩; exact Or.inr rfl
    · simp [hrun]
    · simp
  · obtain ⟨p, t, l, hQ, -, ht⟩ := h.highest.resolve_left fun he => hi he.2
    rw [ht] at hi ⊢
    obtain ⟨s₁, Q', hs₁, hc, hrel⟩ := h.dispatch hQ hi (f := fun t => { t with
      state := .running
      switches := match cfg.port with | .arm64 => t.switches | .x86_64 => t.switches + 1 })
      (fun _ => rfl) (fun _ => rfl) (fun _ => rfl) fun _ => rfl
    simp only [if_neg hi, hs₁]
    refine ⟨_, Q', rfl, hc.setCurrent _ _, ?_, ?_, ?_, ?_⟩
    · rintro c ⟨⟩; simp
    · rintro c ⟨⟩
      have := h.known p t (by simp [hQ])
      rwa [← hrel.taskTable] at this
    · simp [hrel.schedulerRunning, hrun]
    · simp

/-- The form of `Handover` inside a call: a queued task takes over from `c`. -/
def Takeover (cfg : SchedConfig α) (s : Sched α) (Q : ℕ → List α) (c : α) : Prop :=
  ∃ q t, t ∈ Q q ∧ t ≠ cfg.idleTcb ∧ (s.tcb c).priority ≤ q ∧
    (q = 0 → (Q 0).head? ≠ some cfg.idleTcb)

omit [DecidableEq α] in
theorem Core.takeover (h : Core cfg s Q) {c : α} (ht : Handover cfg s (fun _ => False) c) :
    Takeover cfg s Q c := by
  obtain ⟨t, hti, hon, hpt, h0⟩ := ht
  obtain ⟨p, hp⟩ := hon.resolve_right id
  have htp := h.on_iff.1 hp
  have hpp := h.queues.prio p t htp
  exact ⟨p, t, htp, hti, by omega, fun hp0 hhd =>
    h0 (by omega) ((h.queues.ring 0).head_eq.trans hhd)⟩

omit [DecidableEq α] in
/-- `ready_list[prio] = current_task->next` writes back the head of the list. -/
theorem Core.rotate_last {p : ℕ} {c : α} (h : Core cfg s (enqueue Q p c))
    (hp : (s.tcb c).priority = p) : s.setReady (s.tcb c).priority (s.tcb c).next = s := by
  have hring := h.queues.ring p
  have hnext : (s.tcb c).next = s.readyList p := by
    rw [hring.head_eq]
    exact hring.seg.next_last (by simp [enqueue_self])
  rw [hp, hnext, Sched.setReady_self]

/-- **`task_yield`** by a running task requeues it and goes to `schedule_locked`. -/
theorem Core.requeue (h : Core cfg s Q) {c : α} (hc : s.currentTask = some c)
    (hst : (s.tcb c).state = .running) (hk : c ∈ s.taskTable ∨ c = cfg.idleTcb)
    (hcp : (s.tcb c).priority < cfg.maxPriority) :
    ∃ s₁, readyListAdd s c = some s₁ ∧ taskYield cfg s = scheduleLocked cfg s₁ ∧
      Core cfg s₁ (enqueue Q (s.tcb c).priority c) ∧ Relinked s s₁ ∧
      (s₁.tcb c).state = .ready := by
  obtain ⟨s₁, hs₁, h₁, hrel, hst₁⟩ := h.add (h.not_mem (by simp [hst])) hk hcp
  have hself := h₁.rotate_last (hrel.priority c)
  exact ⟨s₁, hs₁, by simp [taskYield, hc, hst, hs₁, hself], h₁, hrel, by simp [hst₁]⟩

/-- **`task_yield`** by a task `c` that another one takes over from. -/
theorem Core.yield (h : Core cfg s Q) (hrun : s.schedulerRunning = true) {c : α}
    (hc : s.currentTask = some c) (hst : (s.tcb c).state = .running)
    (hk : c ∈ s.taskTable ∨ c = cfg.idleTcb) (ht : Takeover cfg s Q c) :
    ∃ s' Q', taskYield cfg s = some s' ∧ Inv cfg s' Q' := by
  obtain ⟨q, t, htq, hti, hcq, hq0⟩ := ht
  have hcQ : ∀ p, c ∉ Q p := h.not_mem (by simp [hst])
  have hcp : (s.tcb c).priority < cfg.maxPriority := by
    have := h.bound q t htq
    omega
  obtain ⟨s₁, -, hy, h₁, hrel, -⟩ := h.requeue hc hst hk hcp
  rw [hy]
  have htq₁ : t ∈ enqueue Q (s.tcb c).priority c q := mem_enqueue.2 (Or.inl htq)
  rcases h₁.highest with ⟨he, -⟩ | ⟨p, x, l, hQ, hhi, hx⟩
  · rw [he q] at htq₁; cases htq₁
  -- the task picked is at the head of a queue not below that of `t`
  have hqp : q ≤ p := by
    by_contra hlt
    rw [hhi q (by omega)] at htq₁
    cases htq₁
  have hhead : p = (s.tcb c).priority → p = q → (Q p).head? = some x := by
    rintro rfl hpq
    rw [enqueue_self] at hQ
    rcases hQ' : Q (s.tcb c).priority with _ | ⟨y, l'⟩
    · rw [← hpq, hQ'] at htq; cases htq
    · rw [hQ'] at hQ
      simpa using congrArg List.head? hQ
  have hxp : x ∈ enqueue Q (s.tcb c).priority c p := by simp [hQ]
  refine h₁.schedule (by rw [hrel.schedulerRunning, hrun]) ?_ ?_
  · rw [hrel.currentTask, hc, hx]
    intro he
    obtain rfl : c = x := Option.some.inj he
    have hpc : p = (s.tcb c).priority := by
      rcases mem_enqueue.1 hxp with hm | hm
      exacts [absurd hm (hcQ p), hm.1]
    exact hcQ p (List.mem_of_head? (hhead hpc (by omega)))
  · intro hi
    rw [hx] at hi
    subst hi
    have hp0 : p = 0 := h₁.idle_mem hxp
    have hc0 : p = (s.tcb c).priority := by omega
    have := hhead hc0 (by omega)
    rw [hp0] at this
    exact absurd this (hq0 (by omega))

omit [DecidableEq α] in
/-- No requeued idle task is picked while a task of higher priority is queued
    whenever the idle task heads its list. -/
theorem Core.idle_off (h : Core cfg s Q)
    (hsafe : s.readyList 0 = some cfg.idleTcb → ∃ p t, t ∈ Q p ∧ 0 < p)
    (hi : getHighestReady cfg s = cfg.idleTcb) (p : ℕ) : cfg.idleTcb ∉ Q p := by
  intro hip
  obtain rfl := h.idle_mem hip
  rcases h.highest with ⟨he, -⟩ | ⟨q, x, l, hQ, hhi, hx⟩
  · rw [he] at hip; cases hip
  · obtain rfl : x = cfg.idleTcb := hx.symm.trans hi
    obtain rfl := h.idle_mem (p := q) (by simp [hQ])
    obtain ⟨r, t, htr, hr⟩ := hsafe (by rw [(h.queues.ring 0).head_eq, hQ]; rfl)
    rw [hhi r hr] at htr
    cases htr

/-- The running task `c` leaves, blocked or terminated. -/
theorem Core.leave (h : Core cfg s Q) {c : α} (hst : (s.tcb c).state = .running)
    (hct : c ∈ s.taskTable) (hci : c ≠ cfg.idleTcb) {f : Tcb α → Tcb α}
    (hfp : ∀ t, (f t).priority = t.priority) (hfs : ∀ t, (f t).state ≠ .ready) :
    Core cfg (s.modify c f) Q := by
  refine h.update (h.not_mem (by simp [hst])) rfl (fun x hx => by simp [hx]) (fun x _ => Iff.rfl)
    (fun _ => ?_) (fun he => absurd he hci) fun _ => ⟨hct, ?_⟩
  · simpa [hfp] using h.prio c hct
  · simpa using hfs _

/-- **`schedule_locked` after the running task `c` left**, blocked or terminated. -/
theorem Inv.leave (h : Inv cfg s Q) {c : α} (hc : s.currentTask = some c) (hci : c ≠ cfg.idleTcb)
    (hsafe : s.readyList 0 = some cfg.idleTcb →
      ∃ t, t ≠ cfg.idleTcb ∧ (∃ p, OnReadyList s p t) ∧ 0 < (s.tcb t).priority)
    {f : Tcb α → Tcb α} (hfp : ∀ t, (f t).priority = t.priority)
    (hfs : ∀ t, (f t).state ≠ .ready) :
    ∃ s' Q', scheduleLocked cfg (s.modify c f) = some s' ∧ Inv cfg s' Q' := by
  have hcQ : ∀ p, c ∉ Q p := h.not_mem (by simp [h.running c hc])
  have h₁ : Core cfg (s.modify c f) Q :=
    h.toCore.leave (h.running c hc) ((h.current c hc).resolve_right hci) hci hfp hfs
  have hrun : s.schedulerRunning = true := h.started.2 (by simp [hc])
  refine h₁.schedule hrun ?_ (h₁.idle_off fun h0 => ?_)
  · rw [Sched.modify_currentTask, hc]
    intro he
    rcases h₁.highest with ⟨-, hx⟩ | ⟨p, x, l, hQ, -, hx⟩
    · rw [hx] at he; exact hci (Option.some.inj he)
    · rw [hx] at he
      exact hcQ p (by simp [hQ, Option.some.inj he])
  · obtain ⟨t, -, ⟨p, hp⟩, htp⟩ := hsafe h0
    have ht := h.on_iff.1 hp
    exact ⟨p, t, ht, by rwa [h.queues.prio p t ht] at htp⟩

/-! ## The tick -/

/-- What the first loop of `scheduler_tick` does: sleepers join the queues. -/
structure Woken (cfg : SchedConfig α) (s : Sched α) (Q : ℕ → List α) (s' : Sched α)
    (Q' : ℕ → List α) : Prop where
  core : Core cfg s' Q'
  relinked : Relinked s s'
  awake : ∀ t, (s.tcb t).state ≠ .blocked → (s'.tcb t).state = (s.tcb t).state
  grows : ∀ p, ∃ w, Q' p = Q p ++ w ∧ ∀ t ∈ w, (s.tcb t).state = .blocked

omit [DecidableEq α] in
theorem Woken.trans {s'' : Sched α} {Q' Q'' : ℕ → List α} (h : Woken cfg s Q s' Q')
    (h' : Woken cfg s' Q' s'' Q'') : Woken cfg s Q s'' Q'' := by
  refine ⟨h'.core, h.relinked.trans h'.relinked, fun t ht => ?_, fun p => ?_⟩
  · rw [h'.awake t (by rwa [h.awake t ht]), h.awake t ht]
  · obtain ⟨w, hw, hwb⟩ := h.grows p
    obtain ⟨w', hw', hwb'⟩ := h'.grows p
    refine ⟨w ++ w', by rw [hw', hw, List.append_assoc], fun t ht => ?_⟩
    rcases List.mem_append.1 ht with ht | ht
    · exact hwb t ht
    · by_contra hne
      exact hne (h.awake t hne ▸ hwb' t ht)

/-- The body of the loop: a due task is queued, any other left as it is. -/
theorem Core.wakeSleeper (h : Core cfg s Q) {t : α} (ht : t ∈ s.taskTable) :
    ∃ s' Q', wakeSleeper s t = some s' ∧ Woken cfg s Q s' Q' ∧
      ((s.tcb t).state = .blocked → (s.tcb t).waitObj = none →
        (s.tcb t).wakeTick ≤ s.systemTicks → ∃ p, t ∈ Q' p) ∧
      ∀ x, x ≠ t → (s'.tcb x).state = (s.tcb x).state := by
  by_cases hdue : (s.tcb t).state = .blocked ∧ (s.tcb t).waitObj = none ∧
      (s.tcb t).wakeTick ≤ s.systemTicks
  · obtain ⟨hb, hw, hk⟩ := hdue
    obtain ⟨s', hs', hc, hrel, hst⟩ := h.add (h.not_mem (by simp [hb])) (Or.inl ht) (h.prio t ht)
    refine ⟨s', _, by simp [Gracemont.wakeSleeper, hb, hw, hk, hs'], ⟨hc, hrel, fun x hx => ?_,
      fun p => ?_⟩, fun _ _ _ => ⟨_, mem_enqueue.2 (Or.inr ⟨rfl, rfl⟩)⟩,
      fun x hx => by rw [hst, if_neg hx]⟩
    · have hxt : x ≠ t := by rintro rfl; exact hx hb
      rw [hst, if_neg hxt]
    · by_cases hp : p = (s.tcb t).priority
      · subst hp
        exact ⟨[t], enqueue_self, fun x hx => by rw [List.mem_singleton.1 hx, hb]⟩
      · exact ⟨[], by simp [enqueue, hp], by simp⟩
  · refine ⟨s, Q, ?_, ⟨h, .refl s, fun _ _ => rfl, fun p => ⟨[], by simp, by simp⟩⟩,
      fun h1 h2 h3 => absurd ⟨h1, h2, h3⟩ hdue, fun _ _ => rfl⟩
    unfold Gracemont.wakeSleeper
    split_ifs with h1 h2
    · exact absurd ⟨h1.1, h1.2, h2⟩ hdue
    all_goals rfl

/-- The loop over a part of the task table. -/
theorem Core.wakeSleepers : ∀ {L : List α} {s : Sched α} {Q : ℕ → List α}, Core cfg s Q →
    (∀ t ∈ L, t ∈ s.taskTable) → ∃ s' Q', L.foldlM Gracemont.wakeSleeper s = some s' ∧
      Woken cfg s Q s' Q' ∧ ∀ t ∈ L, (s.tcb t).state = .blocked → (s.tcb t).waitObj = none →
        (s.tcb t).wakeTick ≤ s.systemTicks → ∃ p, t ∈ Q' p
  | [], s, Q, h, _ => ⟨s, Q, rfl,
      ⟨h, .refl s, fun _ _ => rfl, fun p => ⟨[], by simp, by simp⟩⟩, by simp⟩
  | x :: L, s, Q, h, hL => by
    obtain ⟨s₁, Q₁, hs₁, hw₁, hd₁, hst₁⟩ := h.wakeSleeper (hL x (by simp))
    obtain ⟨s', Q', hs', hw', hd'⟩ := Core.wakeSleepers hw₁.core (L := L) fun t ht => by
      rw [hw₁.relinked.taskTable]; exact hL t (by simp [ht])
    have hmono : ∀ {p t}, t ∈ Q₁ p → t ∈ Q' p := fun {p t} ht => by
      obtain ⟨w, hw, -⟩ := hw'.grows p
      rw [hw]; exact List.mem_append_left _ ht
    refine ⟨s', Q', by simp [List.foldlM_cons, hs₁, hs'], hw₁.trans hw', fun t ht hb hwo hwt => ?_⟩
    by_cases htx : t = x
    · subst htx
      obtain ⟨p, hp⟩ := hd₁ hb hwo hwt
      exact ⟨p, hmono hp⟩
    · refine hd' t ((List.mem_cons.1 ht).resolve_left htx) ?_ ?_ ?_
      · rw [hst₁ t htx, hb]
      · rw [hw₁.relinked.waitObj, hwo]
      · rwa [hw₁.relinked.wakeTick, hw₁.relinked.systemTicks]

/-- What each body of the loop keeps, the loop keeps. -/
theorem Core.wakeSleepers_rule {P : Sched α → Prop}
    (hstep : ∀ {s s₁ : Sched α} {Q Q₁ : ℕ → List α} {t : α}, Core cfg s Q → P s →
      Gracemont.wakeSleeper s t = some s₁ → Woken cfg s Q s₁ Q₁ → P s₁)
    {L : List α} (h : Core cfg s Q) (hL : ∀ t ∈ L, t ∈ s.taskTable) (hP : P s)
    (hs : L.foldlM Gracemont.wakeSleeper s = some s') : P s' := by
  induction L generalizing s Q with
  | nil =>
    cases hs
    exact hP
  | cons t L ih =>
    rw [List.foldlM_cons] at hs
    obtain ⟨s₁, hs₁, hs⟩ := Option.bind_eq_some_iff.1 hs
    obtain ⟨s₂, Q₂, hs₂, hw, -⟩ := h.wakeSleeper (hL t (by simp))
    obtain rfl : s₁ = s₂ := Option.some.inj (hs₁.symm.trans hs₂)
    refine ih hw.core (fun y hy => ?_) (hstep h hP hs₁ hw) hs
    rw [hw.relinked.taskTable]
    exact hL y (by simp [hy])

omit [DecidableEq α] in
/-- Between calls, the invariant only depends on what the core depends on, on
    the state of the current task, and on the scheduler variables. -/
theorem Inv.of_core (h : Inv cfg s Q) {Q' : ℕ → List α} (hc : Core cfg s' Q')
    (hcur : s'.currentTask = s.currentTask) (hrun : s'.schedulerRunning = s.schedulerRunning)
    (htab : ∀ t ∈ s.taskTable, t ∈ s'.taskTable)
    (hst : ∀ c, s.currentTask = some c → (s'.tcb c).state = .running)
    (hboot : s.currentTask = none → ∀ p, cfg.idleTcb ∉ Q' p) : Inv cfg s' Q' := by
  refine ⟨hc, fun c h1 => hst c (hcur ▸ h1), fun c h1 => ?_, by rw [hrun, hcur]; exact h.started,
    fun h1 => hboot (hcur ▸ h1)⟩
  rcases h.current c (hcur ▸ h1) with h1 | h1
  exacts [Or.inl (htab c h1), Or.inr h1]

theorem schedulerTick_eq : schedulerTick cfg s =
    (s.taskTable.foldlM Gracemont.wakeSleeper { s with systemTicks := tickNow cfg s }).bind
      fun s => match s.currentTask with
        | none => match cfg.port with
          | .arm64 => none
          | .x86_64 => some s
        | some cur => if cur = cfg.idleTcb then some s else tickSlice cfg s cur := by
  obtain ⟨port, _, _, _⟩ := cfg
  cases port <;> rfl

/-- The assignments to a block that no list, state or priority depends on. -/
structure Counts (f : Tcb α → Tcb α) : Prop where
  next : ∀ t, (f t).next = t.next
  prev : ∀ t, (f t).prev = t.prev
  priority : ∀ t, (f t).priority = t.priority
  state : ∀ t, (f t).state = t.state
  waitObj : ∀ t, (f t).waitObj = t.waitObj

theorem Core.count (h : Core cfg s Q) (c : α) {f : Tcb α → Tcb α} (hf : Counts f) :
    Core cfg (s.modify c f) Q :=
  h.congr rfl rfl (Lib.Store.modify_field Tcb.next _ _ (hf.next _))
    (Lib.Store.modify_field Tcb.prev _ _ (hf.prev _))
    (Lib.Store.modify_field Tcb.priority _ _ (hf.priority _))
    (Lib.Store.modify_field Tcb.state _ _ (hf.state _))

/-- The time slice management counts, and goes to `task_yield` at the end of the
    slice. -/
theorem tickSlice_cases (cfg : SchedConfig α) (s : Sched α) (c : α) :
    ∃ f, Counts f ∧ tickSlice cfg s c =
      if (s.tcb c).remainingSlice = 1 then taskYield cfg (s.modify c f)
      else some (s.modify c f) := by
  unfold tickSlice
  simp only [Sched.modify_tcb, Lib.Store.modify_self]
  have hlast : cfg.port.tickPred (s.tcb c).remainingSlice = 0 ↔ (s.tcb c).remainingSlice = 1 :=
    cfg.port.tickPred_eq_zero
  simp only [hlast]
  by_cases h1 : (s.tcb c).remainingSlice = 1
  · simp only [if_pos h1, Sched.modify, Lib.Store.modify_modify]
    refine ⟨_, ?_, rfl⟩
    exact ⟨fun _ => rfl, fun _ => rfl, fun _ => rfl, fun _ => rfl, fun _ => rfl⟩
  · simp only [if_neg h1]
    refine ⟨_, ?_, rfl⟩
    exact ⟨fun _ => rfl, fun _ => rfl, fun _ => rfl, fun _ => rfl, fun _ => rfl⟩

/-- The time slice of a running task: other tasks' turn when it is over. -/
theorem Inv.tickSlice (h : Inv cfg s Q) {c : α} (hc : s.currentTask = some c)
    (ht : (s.tcb c).remainingSlice = 1 → Takeover cfg s Q c)
    (hs : tickSlice cfg s c = some s') : ∃ Q', Inv cfg s' Q' := by
  obtain ⟨f, hf, heq⟩ := tickSlice_cases cfg s c
  have hst : ((s.modify c f).tcb c).state = .running := by
    simpa [hf.state] using h.running c hc
  rw [heq] at hs
  split_ifs at hs with h1
  · obtain ⟨q, t, htq, hti, hcq, hq0⟩ := ht h1
    obtain ⟨s₂, Q₂, hs₂, h₂⟩ := (h.toCore.count c hf).yield (h.started.2 (by simp [hc])) hc hst
      (h.current c hc) ⟨q, t, htq, hti, by simpa [hf.priority] using hcq, hq0⟩
    obtain rfl : s₂ = s' := Option.some.inj (hs₂.symm.trans hs)
    exact ⟨_, h₂⟩
  · cases hs
    refine ⟨Q, h.of_core (h.toCore.count c hf) rfl rfl (fun _ ht => ht) (fun x hx => ?_)
      fun hn => by simp [hc] at hn⟩
    obtain rfl : c = x := by simpa [hc] using hx
    exact hst

section
variable {Q' : ℕ → List α}

omit [DecidableEq α] in
/-- The idle task is woken from no sleep. -/
theorem Woken.idle (h : Core cfg s Q) {n : ℕ}
    (hw : Woken cfg { s with systemTicks := n } Q s' Q') {p : ℕ} (hp : cfg.idleTcb ∈ Q' p) :
    cfg.idleTcb ∈ Q p := by
  obtain ⟨w, hgrow, hb⟩ := hw.grows p
  rw [hgrow] at hp
  refine (List.mem_append.1 hp).resolve_right fun hp => ?_
  have hi := h.idleState
  rw [show (s.tcb cfg.idleTcb).state = .blocked from hb _ hp] at hi
  simp at hi

omit [DecidableEq α] in
/-- The idle task does not join a queue, so it was at the head before. -/
theorem Woken.idle_head (h : Core cfg s Q) {n : ℕ}
    (hw : Woken cfg { s with systemTicks := n } Q s' Q') (hhead : (Q' 0).head? = some cfg.idleTcb) :
    s.readyList 0 = some cfg.idleTcb := by
  obtain ⟨w, hw0, -⟩ := hw.grows 0
  have hi := hw.idle h (List.mem_of_head? hhead)
  rcases hQ0 : Q 0 with _ | ⟨x, l⟩
  · rw [hQ0] at hi; cases hi
  · rw [hw0, hQ0] at hhead
    rw [(h.queues.ring 0).head_eq, hQ0]
    simpa using hhead

omit [DecidableEq α] in
/-- A task that is ready, or due, is queued. -/
theorem Woken.queued (h : Core cfg s Q)
    (hw : Woken cfg { s with systemTicks := tickNow cfg s } Q s' Q')
    (hdue : ∀ t ∈ s.taskTable, (s.tcb t).state = .blocked → (s.tcb t).waitObj = none →
      (s.tcb t).wakeTick ≤ tickNow cfg s → ∃ p, t ∈ Q' p) {t : α}
    (ht : (∃ p, OnReadyList s p t) ∨ Due cfg s t) : t ∈ Q' (s.tcb t).priority := by
  obtain ⟨p, hp⟩ : ∃ p, t ∈ Q' p := by
    rcases ht with ⟨p, hp⟩ | ⟨htab, hb, hwo, hwt⟩
    · obtain ⟨w, hgrow, -⟩ := hw.grows p
      exact ⟨p, by rw [hgrow]; exact List.mem_append_left _ (h.on_iff.1 hp)⟩
    · exact hdue t htab hb hwo hwt
  rw [← show (s'.tcb t).priority = (s.tcb t).priority from hw.relinked.priority t,
    hw.core.queues.prio p t hp]
  exact hp

omit [DecidableEq α] in
theorem Woken.takeover (h : Core cfg s Q)
    (hw : Woken cfg { s with systemTicks := tickNow cfg s } Q s' Q')
    (hdue : ∀ t ∈ s.taskTable, (s.tcb t).state = .blocked → (s.tcb t).waitObj = none →
      (s.tcb t).wakeTick ≤ tickNow cfg s → ∃ p, t ∈ Q' p) {c : α}
    (ht : Handover cfg s (Due cfg s) c) : Takeover cfg s' Q' c := by
  obtain ⟨t, hti, hon, hpt, h0⟩ := ht
  have hpc : (s'.tcb c).priority = (s.tcb c).priority := hw.relinked.priority c
  exact ⟨_, t, hw.queued h hdue hon, hti, by omega, fun hp0 hhead =>
    h0 hp0 (hw.idle_head h hhead)⟩

end

/-- **`scheduler_tick`** keeps the invariant. -/
theorem Inv.tick (h : Inv cfg s Q) (hsafe : Safe cfg s .schedulerTick)
    (hs : schedulerTick cfg s = some s') : ∃ Q', Inv cfg s' Q' := by
  obtain ⟨s₁, Q₁, hs₁, hw, hdue⟩ := Core.wakeSleepers (L := s.taskTable) (Q := Q)
    (s := { s with systemTicks := tickNow cfg s })
    (h.toCore.congr rfl rfl (fun _ => rfl) (fun _ => rfl) (fun _ => rfl) fun _ => rfl)
    fun _ ht => ht
  rw [schedulerTick_eq, hs₁, Option.bind_some] at hs
  have hcur : s₁.currentTask = s.currentTask := hw.relinked.currentTask
  have hst : ∀ c, s.currentTask = some c → (s₁.tcb c).state = .running := fun c hc => by
    rw [hw.awake c (by simp [h.running c hc])]; exact h.running c hc
  have h₁ : Inv cfg s₁ Q₁ := h.of_core hw.core hcur hw.relinked.schedulerRunning
    (fun t ht => by rw [hw.relinked.taskTable]; exact ht) hst
    fun hn p hp => h.boot hn p (hw.idle h.toCore hp)
  rw [hcur] at hs
  rcases hc : s.currentTask with _ | c
  · simp only [hc] at hs
    split at hs
    · cases hs
    · cases hs; exact ⟨_, h₁⟩
  simp only [hc] at hs
  split_ifs at hs with hci
  · cases hs; exact ⟨_, h₁⟩
  refine h₁.tickSlice (hcur.trans hc) (fun h1 => ?_) hs
  exact hw.takeover h.toCore hdue (hsafe c hc hci (hw.relinked.remainingSlice c ▸ h1))

/-! ## Creating and starting tasks -/

/-- **`task_create`** with a block that is not ready: the core. -/
theorem Core.create (h : Core cfg s Q) {tcb : Option α} {entry : Option ℕ} {priority : ℕ}
    {stack : Option ℕ} (hi : tcb ≠ some cfg.idleTcb)
    (hfree : ∀ t, tcb = some t → entry ≠ none → stack ≠ none → priority < cfg.maxPriority →
      s.taskTable.length < cfg.maxTasks → t ∈ s.taskTable → (s.tcb t).state ≠ .ready) :
    Core cfg (taskCreate cfg s tcb entry priority stack).1 Q := by
  unfold taskCreate
  rcases tcb with _ | t
  · exact h
  simp only
  split_ifs with h1 h2 h3
  · exact h
  · exact h
  · exact h
  have hti : t ≠ cfg.idleTcb := fun he => hi (he ▸ rfl)
  refine h.update (t := t) (fun p hp => ?_) rfl (fun x hx => ?_) (fun x hx => ?_) (fun _ => ?_)
    (fun he => absurd he hti) fun _ => ?_
  · rcases h.known p t hp with hm | hm
    · exact hfree t rfl (fun he => h1 (Or.inl he)) (fun he => h1 (Or.inr he)) (by omega) (by omega)
        hm (h.ready p t hp)
    · exact hti hm
  · simp [hx]
  · simp [hx]
  · simpa using Nat.lt_of_not_le h2
  · simp

/-- What `task_create` leaves alone: everything but the block, which is one it
    may be given. -/
theorem taskCreate_of_ne {tcb : Option α} {entry : Option ℕ} {priority : ℕ} {stack : Option ℕ}
    {x : α} (h : ∀ t, tcb = some t → entry ≠ none → stack ≠ none → priority < cfg.maxPriority →
      s.taskTable.length < cfg.maxTasks → x ≠ t) :
    (taskCreate cfg s tcb entry priority stack).1.tcb x = s.tcb x := by
  unfold taskCreate
  rcases tcb with _ | t
  · rfl
  simp only
  split_ifs with h1 h2 h3
  · rfl
  · rfl
  · rfl
  have hne := h t rfl (fun he => h1 (Or.inl he)) (fun he => h1 (Or.inr he)) (by omega) (by omega)
  simp [hne]

/-- What `task_create` accepts. -/
theorem taskCreate_ok {t : α} {entry : Option ℕ} {priority : ℕ} {stack : Option ℕ}
    (h : (taskCreate cfg s (some t) entry priority stack).2 = .ok) :
    entry ≠ none ∧ stack ≠ none ∧ priority < cfg.maxPriority ∧
      s.taskTable.length < cfg.maxTasks := by
  simp only [taskCreate] at h
  split_ifs at h with h1 h2 h3
  exact ⟨fun he => h1 (Or.inl he), fun he => h1 (Or.inr he), by omega, by omega⟩

theorem taskCreate_scheduler (tcb : Option α) (entry : Option ℕ) (priority : ℕ)
    (stack : Option ℕ) :
    (taskCreate cfg s tcb entry priority stack).1.currentTask = s.currentTask ∧
      (taskCreate cfg s tcb entry priority stack).1.schedulerRunning = s.schedulerRunning ∧
      ∀ t ∈ s.taskTable, t ∈ (taskCreate cfg s tcb entry priority stack).1.taskTable := by
  unfold taskCreate
  rcases tcb with _ | t
  · exact ⟨rfl, rfl, fun _ ht => ht⟩
  simp only
  split_ifs
  · exact ⟨rfl, rfl, fun _ ht => ht⟩
  · exact ⟨rfl, rfl, fun _ ht => ht⟩
  · exact ⟨rfl, rfl, fun _ ht => ht⟩
  · exact ⟨rfl, rfl, fun x hx => List.mem_append_left _ hx⟩

/-- **`task_create`** with a block that is not in use. -/
theorem Inv.create (h : Inv cfg s Q) {tcb : Option α} {entry : Option ℕ} {priority : ℕ}
    {stack : Option ℕ} (hi : tcb ≠ some cfg.idleTcb)
    (hsafe : Safe cfg s (.taskCreate tcb entry priority stack)) :
    Inv cfg (taskCreate cfg s tcb entry priority stack).1 Q := by
  obtain ⟨hcur, hrun, htab⟩ := @taskCreate_scheduler _ cfg s _ tcb entry priority stack
  refine h.of_core (h.toCore.create hi fun t h1 h2 h3 h4 h5 h6 => (hsafe t h1 h2 h3 h4 h5 h6).1)
    hcur hrun htab (fun c hc => ?_) h.boot
  rw [taskCreate_of_ne fun t h1 h2 h3 h4 h5 => ?_]
  · exact h.running c hc
  · rintro rfl
    rcases h.current c hc with hm | hm
    exacts [(hsafe c h1 h2 h3 h4 h5 hm).2 (h.running c hc), hi (hm ▸ h1)]

/-- **`task_start`.**  The task started has a higher priority than the running
    one when it takes over, so this needs no condition. -/
theorem Inv.taskStart (h : Inv cfg s Q) {tcb : Option α} (hi : tcb ≠ some cfg.idleTcb)
    {st : Status} (hs : taskStart cfg s tcb = some (s', st)) : ∃ Q', Inv cfg s' Q' := by
  unfold Gracemont.taskStart at hs
  rcases tcb with _ | t
  · cases hs; exact ⟨_, h⟩
  simp only at hs
  split_ifs at hs with hsus
  swap
  · cases hs; exact ⟨_, h⟩
  have hti : t ≠ cfg.idleTcb := fun he => hi (he ▸ rfl)
  have htab : t ∈ s.taskTable := by
    by_contra hm
    rw [h.fresh t hm hti] at hsus; cases hsus
  obtain ⟨s₁, hs₁, h₁, hrel, hst⟩ := h.toCore.add (h.not_mem (by simp [hsus])) (Or.inl htab)
    (h.prio t htab)
  have hct : ∀ c, s.currentTask = some c → (s₁.tcb c).state = .running := fun c hc => by
    have hne : c ≠ t := by rintro rfl; simp [h.running c hc] at hsus
    rw [hst, if_neg hne]; exact h.running c hc
  have hinv : Inv cfg s₁ (enqueue Q (s.tcb t).priority t) := by
    refine h.of_core h₁ hrel.currentTask hrel.schedulerRunning (fun x hx => by rwa [hrel.taskTable])
      hct fun hn p hp => ?_
    rcases mem_enqueue.1 hp with hp | ⟨-, hp⟩
    exacts [h.boot hn p hp, hti hp.symm]
  simp only [hs₁, Option.bind_eq_bind, Option.bind_some] at hs
  split at hs
  · rename_i cur hrun hcur
    split_ifs at hs with hlt
    · obtain ⟨s₂, Q₂, hs₂, h₂⟩ := h₁.yield hrun hcur (hct cur (hrel.currentTask ▸ hcur))
        (hinv.current cur hcur) ⟨(s.tcb t).priority, t, mem_enqueue.2 (Or.inr ⟨rfl, rfl⟩), hti,
          by rw [← hrel.priority t]; omega, fun h0 => by rw [hrel.priority t] at hlt; omega⟩
      rw [hs₂] at hs
      cases hs
      exact ⟨_, h₂⟩
    · cases hs; exact ⟨_, hinv⟩
  · cases hs; exact ⟨_, hinv⟩

/-- The idle task that `scheduler_start` creates; a failure is not noticed. -/
theorem Inv.createIdle (h : Inv cfg s Q) (hi : ∀ p, cfg.idleTcb ∉ Q p) :
    Core cfg ((taskCreate cfg s (some cfg.idleTcb) (some 0) 0 (some 0)).1.modify cfg.idleTcb
      fun t => { t with state := .ready }) Q := by
  unfold taskCreate
  simp only [reduceCtorEq, or_self, if_false]
  split_ifs with h1 h2
  · exact h.toCore.update hi rfl (fun x hx => by simp [hx]) (fun x _ => Iff.rfl)
      (fun hm => by simpa using h.prio _ hm) (fun _ => by simp [h.idlePrio])
      fun hne => absurd rfl hne
  · exact h.toCore.update hi rfl (fun x hx => by simp [hx]) (fun x _ => Iff.rfl)
      (fun hm => by simpa using h.prio _ hm) (fun _ => by simp [h.idlePrio])
      fun hne => absurd rfl hne
  · exact h.toCore.update hi rfl (fun x hx => by simp [hx]) (fun x hx => by simp [hx])
      (fun _ => by simpa using Nat.lt_of_not_le h1) (fun _ => by simp)
      fun hne => absurd rfl hne

/-- **`scheduler_start`.** -/
theorem Inv.schedulerStart (h : Inv cfg s Q) (hrun : s.schedulerRunning = false)
    (hs : schedulerStart cfg s = some s') : ∃ Q', Inv cfg s' Q' := by
  have hcur : s.currentTask = none := by
    by_contra hne
    rw [h.started.2 hne] at hrun; cases hrun
  have hi : ∀ p, cfg.idleTcb ∉ Q p := h.boot hcur
  have h₁ := h.createIdle hi
  unfold Gracemont.schedulerStart at hs
  simp only at hs
  generalize hs₁ : (taskCreate cfg s (some cfg.idleTcb) (some 0) 0 (some 0)).1.modify cfg.idleTcb
    (fun t => { t with state := .ready }) = s₁ at hs h₁
  by_cases hid : getHighestReady cfg s₁ = cfg.idleTcb
  · simp only [hid, if_true, Option.bind_eq_bind, Option.bind_some] at hs
    cases hs
    refine ⟨Q, (h₁.runIdle (f := fun t => { t with state := .running }) hi (fun _ => rfl)
      fun _ => rfl).setCurrent (some cfg.idleTcb) true, ?_, ?_, by simp, by simp⟩
    · rintro c ⟨⟩; simp
    · rintro c ⟨⟩; exact Or.inr rfl
  · obtain ⟨p, t, l, hQ, -, ht⟩ := h₁.highest.resolve_left fun he => hid he.2
    rw [ht] at hid hs
    obtain ⟨s₂, Q₂, hs₂, hc, hrel⟩ := (h₁.setCurrent (some t) s₁.schedulerRunning).dispatch hQ hid
      (f := fun t => { t with state := .running }) (fun _ => rfl) (fun _ => rfl) (fun _ => rfl)
      fun _ => rfl
    simp only [if_neg hid, Option.bind_eq_bind, hs₂, Option.bind_some] at hs
    cases hs
    have hcur₂ : s₂.currentTask = some t := hrel.currentTask
    refine ⟨Q₂, hc.setCurrent s₂.currentTask true, ?_, ?_, by simp [hcur₂], by simp [hcur₂]⟩
    · intro c hc'
      obtain rfl : t = c := by simpa [hcur₂] using hc'
      simp
    · intro c hc'
      obtain rfl : t = c := by simpa [hcur₂] using hc'
      have := h₁.known p t (by simp [hQ])
      rwa [show s₁.taskTable = s₂.taskTable from hrel.taskTable.symm] at this

end

/-! ## Runs -/

section
variable [DecidableEq α]

theorem inv_boot (cfg : SchedConfig α) : Inv cfg Sched.boot fun _ => [] := by
  refine ⟨⟨⟨fun p => Lib.ring_nil, fun p t ht => by cases ht⟩, ?_, ?_, ?_, ?_, ?_, ?_, rfl, ?_⟩,
    ?_, ?_, ?_, ?_⟩
  all_goals simp [Sched.boot, Tcb.zero]

/-- **Every safe call keeps the invariant.** -/
theorem Inv.step (h : Inv cfg s Q) {op : Op α} (hsafe : Safe cfg s op)
    (hs : step cfg s op = some s') : ∃ Q', Inv cfg s' Q' := by
  cases op with
  | taskCreate tcb entry priority stack =>
    simp only [Gracemont.step] at hs
    split_ifs at hs with hi
    cases hs
    exact ⟨_, h.create hi hsafe⟩
  | taskStart tcb =>
    simp only [Gracemont.step] at hs
    split_ifs at hs with hi
    obtain ⟨⟨s₁, st⟩, hs₁, rfl⟩ := Option.map_eq_some_iff.1 hs
    exact h.taskStart hi hs₁
  | taskYield =>
    simp only [Gracemont.step] at hs
    split_ifs at hs with hi
    rcases hc : s.currentTask with _ | c
    · simp [taskYield, hc] at hs
    obtain ⟨s₁, Q₁, hs₁, h₁⟩ := h.toCore.yield (h.started.2 (by simp [hc])) hc (h.running c hc)
      (h.current c hc) (h.toCore.takeover (hsafe c hc))
    obtain rfl : s₁ = s' := Option.some.inj (hs₁.symm.trans hs)
    exact ⟨_, h₁⟩
  | taskSleep ticks =>
    simp only [Gracemont.step] at hs
    split_ifs at hs with hi
    rcases hc : s.currentTask with _ | c
    · simp [taskSleep, hc] at hs
    obtain ⟨s₁, Q₁, hs₁, h₁⟩ := h.leave hc (fun he => hi (he ▸ hc)) hsafe
      (f := fun t => { t with state := .blocked, wakeTick := cfg.port.tick (s.systemTicks + ticks) })
      (fun _ => rfl) (fun _ => by simp)
    obtain rfl : s₁ = s' := Option.some.inj (hs₁.symm.trans (by simpa [taskSleep, hc] using hs))
    exact ⟨_, h₁⟩
  | taskTerminate =>
    simp only [Gracemont.step] at hs
    split_ifs at hs with hi
    rcases hc : s.currentTask with _ | c
    · simp [taskTerminate, hc] at hs
    obtain ⟨s₁, Q₁, hs₁, h₁⟩ := h.leave hc (fun he => hi (he ▸ hc)) hsafe
      (f := fun t => { t with state := .terminated }) (fun _ => rfl) (fun _ => by simp)
    obtain rfl : s₁ = s' := Option.some.inj (hs₁.symm.trans (by simpa [taskTerminate, hc] using hs))
    exact ⟨_, h₁⟩
  | schedulerTick => exact h.tick hsafe hs
  | schedulerStart =>
    simp only [Gracemont.step] at hs
    split_ifs at hs with hr
    exact h.schedulerStart (by simpa using hr) hs
  | clock now =>
    simp only [Gracemont.step] at hs
    split at hs
    · cases hs
    · cases hs
      exact ⟨Q, h.of_core (h.toCore.congr rfl rfl (fun _ => rfl) (fun _ => rfl) (fun _ => rfl)
        fun _ => rfl) rfl rfl (fun _ ht => ht) h.running h.boot⟩

/-- **The scheduler invariant holds along every run of safe calls.** -/
theorem sched_inv_of_safe (cfg : SchedConfig α) {tr : List (Op α)} {s : Sched α}
    (h : ((schedLts cfg).restrict (Safe cfg)).Run tr s) : SchedInv cfg s := by
  have hinv : ∃ Q, Inv cfg s Q := by
    refine h.rule (P := fun _ s => ∃ Q, Inv cfg s Q) ?_ ?_
    · rintro s rfl
      exact ⟨_, inv_boot cfg⟩
    · rintro tr s e s' ⟨Q, hQ⟩ ⟨hsafe, hs⟩
      exact hQ.step hsafe hs
  obtain ⟨Q, hQ⟩ := hinv
  exact hQ.schedInv

end

/-- A small build: three blocks, the first one for the idle task. -/
def demoConfig (port : Port) : SchedConfig (Fin 3) := ⟨port, 8, 16, 0⟩

/-- Two tasks of one priority, the first yields to the second. -/
def demoYield : List (Op (Fin 3)) :=
  [.taskCreate (some 1) (some 0) 1 (some 0), .taskCreate (some 2) (some 0) 1 (some 0),
    .taskStart (some 1), .taskStart (some 2), .schedulerStart, .taskYield]

theorem demoYield_runs :
    (Lib.Lts.exec (step (demoConfig .arm64)) .boot demoYield).isSome := by decide +kernel

theorem sched_inv_of_safe_yield : ∃ s, Lib.Lts.exec (step (demoConfig .arm64)) .boot demoYield =
    some s ∧ s.currentTask = some 2 ∧ SchedInv (demoConfig .arm64) s := by
  refine ⟨_, (Option.some_get demoYield_runs).symm, by decide +kernel, sched_inv_of_safe _
    (Lib.Lts.run_exec_restrict rfl (Option.some_get demoYield_runs).symm fun i hi => ?_)⟩
  have hi : i = 0 ∨ i = 1 ∨ i = 2 ∨ i = 3 ∨ i = 4 ∨ i = 5 := by
    simp only [demoYield, List.length_cons, List.length_nil] at hi
    omega
  rcases hi with rfl | rfl | rfl | rfl | rfl | rfl
  · rintro t ⟨⟩
    decide +kernel
  · rintro t ⟨⟩
    decide +kernel
  · trivial
  · trivial
  · trivial
  · intro c hc
    obtain rfl : c = 1 := by
      revert c
      decide +kernel
    exact ⟨2, by decide, Or.inl ⟨1, [2], by decide +kernel, by decide⟩, by decide +kernel,
      by decide +kernel⟩

/-- One task, which yields although no other task is ready. -/
def demoYieldAlone : List (Op (Fin 3)) :=
  [.taskCreate (some 1) (some 0) 1 (some 0), .taskStart (some 1), .schedulerStart, .taskYield]

/-- **A task that yields while no other task is ready** is picked again: it
    stays on its ready list, in state `TASK_READY`. -/
theorem sched_inv_broken :
    (∃ s, (schedLts (demoConfig .arm64)).Run demoYieldAlone s ∧ ¬ SchedInv (demoConfig .arm64) s) ∧
      ∃ s, (schedLts (demoConfig .x86_64)).Run demoYieldAlone s ∧
        ¬ SchedInv (demoConfig .x86_64) s := by
  have arm : (schedLts (demoConfig .arm64)).Run demoYieldAlone _ :=
    Lib.Lts.run_exec_get (by rfl) (by decide +kernel)
  have x86 : (schedLts (demoConfig .x86_64)).Run demoYieldAlone _ :=
    Lib.Lts.run_exec_get (by rfl) (by decide +kernel)
  refine ⟨⟨_, arm, fun h => ?_⟩, ⟨_, x86, fun h => ?_⟩⟩
  all_goals
    have hst := (h.current 1 (by decide +kernel)).1
    revert hst
    decide +kernel

end Gracemont
