/-
  Gracemont kernel — the ready lists.

  `ReadyFifos s Q`: each `ready_list[p]` is a ring through the tasks `Q p`, and
  no task is on two of them.  `readyListAdd` appends to the queue of the task's
  priority, `readyListRemove` deletes from it, `getHighestReady` is the head of
  the first non-empty queue; all of them leave everything but links and states
  alone (`Relinked`), and the other queues (`QueueReplaced`).

  * `readyListAdd_rings`, `readyListRemove_rings`: the two operations;
  * `readyLists_refine`: so that the lists are first-in first-out queues;
  * `ReadyQueues`: the rings of a scheduler whose tasks are on the list of
    their priority.
-/
import Gracemont.Kernel.Scheduler
import Gracemont.Lib.Links

namespace Gracemont

variable {α : Type}

/-- A task control block without its links and state. -/
def Tcb.core (t : Tcb α) : Tcb α := { t with next := none, prev := none, state := .ready }

/-- Between `s` and `s'` only links, ready lists and task states changed. -/
structure Relinked (s s' : Sched α) : Prop where
  core : ∀ t, (s'.tcb t).core = (s.tcb t).core
  currentTask : s'.currentTask = s.currentTask
  taskTable : s'.taskTable = s.taskTable
  systemTicks : s'.systemTicks = s.systemTicks
  schedulerRunning : s'.schedulerRunning = s.schedulerRunning

namespace Relinked
variable {s s' s'' : Sched α}

theorem refl (s : Sched α) : Relinked s s := ⟨fun _ => rfl, rfl, rfl, rfl, rfl⟩

theorem trans (h : Relinked s s') (h' : Relinked s' s'') : Relinked s s'' :=
  ⟨fun t => (h'.core t).trans (h.core t), h'.2.trans h.2, h'.3.trans h.3, h'.4.trans h.4,
    h'.5.trans h.5⟩

theorem priority (h : Relinked s s') (t : α) : (s'.tcb t).priority = (s.tcb t).priority := by
  simpa [Tcb.core] using congrArg Tcb.priority (h.core t)

theorem waitObj (h : Relinked s s') (t : α) : (s'.tcb t).waitObj = (s.tcb t).waitObj := by
  simpa [Tcb.core] using congrArg Tcb.waitObj (h.core t)

theorem wakeTick (h : Relinked s s') (t : α) : (s'.tcb t).wakeTick = (s.tcb t).wakeTick := by
  simpa [Tcb.core] using congrArg Tcb.wakeTick (h.core t)

theorem remainingSlice (h : Relinked s s') (t : α) :
    (s'.tcb t).remainingSlice = (s.tcb t).remainingSlice := by
  simpa [Tcb.core] using congrArg Tcb.remainingSlice (h.core t)

theorem setReady (s : Sched α) (p : ℕ) (head : Option α) : Relinked s (s.setReady p head) :=
  ⟨fun _ => rfl, rfl, rfl, rfl, rfl⟩

theorem modify [DecidableEq α] (s : Sched α) (t : α) {f : Tcb α → Tcb α}
    (hf : (f (s.tcb t)).core = (s.tcb t).core) : Relinked s (s.modify t f) :=
  ⟨fun x => s.tcb.modify_field Tcb.core t hf x, rfl, rfl, rfl, rfl⟩

end Relinked

/-- The ready lists are rings through the queues `Q`, no two with a task in common. -/
structure ReadyFifos (s : Sched α) (Q : ℕ → List α) : Prop where
  ring : ∀ p, Lib.Ring s.tcb.next s.tcb.prev (s.readyList p) (Q p)
  apart : ∀ p q, ∀ t ∈ Q p, t ∈ Q q → p = q

/-- The queue of priority `q` becomes `l`, and the others are not touched. -/
structure QueueReplaced (s s' : Sched α) (Q : ℕ → List α) (q : ℕ) (l : List α) : Prop where
  rings : ReadyFifos s' (Function.update Q q l)
  relinked : Relinked s s'
  readyList : ∀ p, p ≠ q → s'.readyList p = s.readyList p
  tcb : ∀ p, p ≠ q → ∀ t ∈ Q p, s'.tcb t = s.tcb t

namespace ReadyFifos
variable {s s' : Sched α} {Q : ℕ → List α}

theorem readyList_none (h : ReadyFifos s Q) (p : ℕ) : s.readyList p = none ↔ Q p = [] := by
  rw [(h.ring p).head_eq, List.head?_eq_none_iff]

/-- Tasks on different lists are different. -/
theorem ne_of_ne (h : ReadyFifos s Q) {p q : ℕ} (hp : p ≠ q) {t u : α} (ht : t ∈ Q p)
    (hu : u ∈ Q q) : t ≠ u :=
  fun he => hp (h.apart p q t ht (he ▸ hu))

/-- Replacing the queue of priority `q`: its own ring, and the blocks of the
    other queues untouched. -/
theorem replace [DecidableEq α] (h : ReadyFifos s Q) {q : ℕ} {l : List α} (hrel : Relinked s s')
    (hr : ∀ p, p ≠ q → s'.readyList p = s.readyList p)
    (hq : Lib.Ring s'.tcb.next s'.tcb.prev (s'.readyList q) l)
    (hl : ∀ t ∈ l, ∀ p, p ≠ q → t ∉ Q p)
    (hn : ∀ p, p ≠ q → ∀ t ∈ Q p, s'.tcb t = s.tcb t) : QueueReplaced s s' Q q l := by
  refine ⟨⟨fun p => ?_, fun p p' t ht ht' => ?_⟩, hrel, hr, hn⟩
  · by_cases hp : p = q
    · subst hp; simpa using hq
    · rw [Function.update_of_ne hp, hr p hp]
      exact (h.ring p).congr (fun t ht => congrArg Tcb.next (hn p hp t ht))
        fun t ht => congrArg Tcb.prev (hn p hp t ht)
  · by_cases hp : p = q
    · by_cases hp' : p' = q
      · exact hp.trans hp'.symm
      · subst hp
        rw [Function.update_self] at ht
        rw [Function.update_of_ne hp'] at ht'
        exact absurd ht' (hl t ht p' hp')
    · rw [Function.update_of_ne hp] at ht
      by_cases hp' : p' = q
      · subst hp'
        rw [Function.update_self] at ht'
        exact absurd ht (hl t ht' p hp)
      · rw [Function.update_of_ne hp'] at ht'
        exact h.apart p p' t ht ht'

end ReadyFifos

/-- The ready lists are rings through the queues `Q`, each of its priority. -/
structure ReadyQueues (s : Sched α) (Q : ℕ → List α) : Prop where
  ring : ∀ p, Lib.Ring s.tcb.next s.tcb.prev (s.readyList p) (Q p)
  prio : ∀ p, ∀ t ∈ Q p, (s.tcb t).priority = p

namespace ReadyQueues
variable {s s' : Sched α} {Q : ℕ → List α}

/-- The priority of a task tells which list it is on. -/
theorem rings (h : ReadyQueues s Q) : ReadyFifos s Q :=
  ⟨h.ring, fun p q t ht ht' => (h.prio p t ht).symm.trans (h.prio q t ht')⟩

/-- The queues only depend on the ready lists and the blocks of their tasks. -/
theorem congr (h : ReadyQueues s Q) (hr : s'.readyList = s.readyList)
    (hn : ∀ p, ∀ t ∈ Q p, (s'.tcb t).next = (s.tcb t).next)
    (hp : ∀ p, ∀ t ∈ Q p, (s'.tcb t).prev = (s.tcb t).prev)
    (hprio : ∀ p, ∀ t ∈ Q p, (s'.tcb t).priority = (s.tcb t).priority) : ReadyQueues s' Q :=
  ⟨fun p => hr ▸ (h.ring p).congr (hn p) (hp p),
    fun p t ht => (hprio p t ht).trans (h.prio p t ht)⟩

theorem unique (h : ReadyQueues s Q) {p : ℕ} {l : List α}
    (hl : Lib.Ring s.tcb.next s.tcb.prev (s.readyList p) l) : l = Q p := hl.unique (h.ring p)

/-- The new queue of priority `q` has tasks of that priority. -/
theorem replaced (h : ReadyQueues s Q) {q : ℕ} {l : List α} (hs : QueueReplaced s s' Q q l)
    (hl : ∀ t ∈ l, (s.tcb t).priority = q) : ReadyQueues s' (Function.update Q q l) := by
  refine ⟨hs.rings.ring, fun p t ht => ?_⟩
  rw [hs.relinked.priority]
  by_cases hp : p = q
  · subst hp; exact hl t (by simpa using ht)
  · rw [Function.update_of_ne hp] at ht; exact h.prio p t ht

end ReadyQueues

section
variable [DecidableEq α] {s : Sched α} {Q : ℕ → List α} {task : α}

theorem readyListAdd_empty (h : s.readyList (s.tcb task).priority = none) :
    readyListAdd s task = some ((s.setReady (s.tcb task).priority (some task)).modify task
      fun t => { t with state := .ready, next := some task, prev := some task }) := by
  simp [readyListAdd, h, Sched.modify, Sched.setReady, Lib.Store.modify]

theorem readyListAdd_cons {head tail : α} (h : s.readyList (s.tcb task).priority = some head)
    (htail : (s.tcb head).prev = some tail) (hne : head ≠ task) :
    readyListAdd s task = some (((s.modify task fun t => { t with
        state := .ready, next := some head, prev := some tail }).modify tail fun t => { t with
        next := some task }).modify head fun t => { t with prev := some task }) := by
  simp [readyListAdd, h, Sched.modify, Lib.Store.modify, hne, htail]

/-- `ready_list_add` overwrites the state of the task. -/
theorem readyListAdd_modify_state (s : Sched α) (task : α) (st : TaskState) :
    readyListAdd (s.modify task fun t => { t with state := st }) task = readyListAdd s task := by
  simp [readyListAdd, Sched.modify]

/-- Whatever the links are, `ready_list_add` only relinks. -/
theorem readyListAdd_relinked {s' : Sched α} (h : readyListAdd s task = some s') :
    Relinked s s' := by
  unfold readyListAdd at h
  have hready : Relinked s (s.modify task fun t => { t with state := .ready }) :=
    .modify s task rfl
  cases hhd : (s.modify task fun t => { t with state := .ready }).readyList
      (s.tcb task).priority with
  | none =>
    simp only [hhd, Option.some.injEq] at h
    rw [← h]
    exact (hready.trans (.setReady ..)).trans (.modify _ _ rfl)
  | some head =>
    simp only [hhd, Option.bind_eq_bind, Option.bind_eq_some_iff, Option.some.injEq] at h
    obtain ⟨tail, -, rfl⟩ := h
    exact (((hready.trans (.modify _ _ rfl)).trans (.modify _ _ rfl)).trans (.modify _ _ rfl)).trans
      (.modify _ _ rfl)

/-- **`ready_list_add` appends to the queue of the task's priority.** -/
theorem readyListAdd_rings (h : ReadyFifos s Q) (hx : ∀ p, task ∉ Q p) :
    ∃ s', readyListAdd s task = some s' ∧
      QueueReplaced s s' Q (s.tcb task).priority (Q (s.tcb task).priority ++ [task]) ∧
      ∀ t, (s'.tcb t).state = if t = task then .ready else (s.tcb t).state := by
  have hne : ∀ p, ∀ t ∈ Q p, t ≠ task := fun p t ht he => hx p (he ▸ ht)
  have hapart : ∀ t ∈ Q (s.tcb task).priority ++ [task], ∀ p, p ≠ (s.tcb task).priority →
      t ∉ Q p := by
    intro t ht p hp htp
    rcases List.mem_append.1 ht with ht | ht
    · exact hp (h.apart p _ t htp ht)
    · exact hx p (List.mem_singleton.1 ht ▸ htp)
  have hring := h.ring (s.tcb task).priority
  rcases hhd : s.readyList (s.tcb task).priority with _ | head
  · -- the queue was empty
    have hQ := (h.readyList_none _).1 hhd
    have hrel : Relinked s ((s.setReady (s.tcb task).priority (some task)).modify task
        fun t => { t with state := .ready, next := some task, prev := some task }) :=
      (Relinked.setReady ..).trans (Relinked.modify _ _ rfl)
    refine ⟨_, readyListAdd_empty hhd, h.replace hrel (fun p hp => by simp [hp]) ?_ hapart
      fun p _ t ht => by simp [hne p t ht], fun t => ?_⟩
    · simpa [hQ] using Lib.ring_singleton task
    · by_cases ht : t = task
      · subst ht; simp
      · simp [ht]
  · -- the task goes between the last task and the head
    rw [hhd] at hring
    obtain ⟨l, hQ⟩ := hring.head_some
    obtain ⟨tail, htm, hz⟩ := hring.prev_some
    have hhm := hring.head_mem
    have hrel : Relinked s (((s.modify task fun t => { t with
        state := .ready, next := some head, prev := some tail }).modify tail fun t => { t with
        next := some task }).modify head fun t => { t with prev := some task }) :=
      ((Relinked.modify _ _ rfl).trans (Relinked.modify _ _ rfl)).trans (Relinked.modify _ _ rfl)
    refine ⟨_, readyListAdd_cons hhd hz (hne _ _ hhm), h.replace hrel (fun p _ => rfl) ?_ hapart
      fun p hp t ht => ?_, fun t => ?_⟩
    · have := (hQ ▸ hring).insert hz (hQ ▸ hx _)
      simpa [hhd, hQ, hne _ _ htm] using this
    · simp [hne p t ht, h.ne_of_ne hp ht hhm, h.ne_of_ne hp ht htm]
    · by_cases ht : t = task
      · subst ht; simp [(hne _ _ hhm).symm, (hne _ _ htm).symm]
      · simp [Lib.Store.modify_apply, ht]; split_ifs <;> simp_all

/-- The queues of a scheduler after `ready_list_add`. -/
theorem readyListAdd_spec (h : ReadyQueues s Q) (hx : ∀ p, task ∉ Q p) :
    ∃ s', readyListAdd s task = some s' ∧
      ReadyQueues s' (Function.update Q (s.tcb task).priority (Q (s.tcb task).priority ++ [task])) ∧
      Relinked s s' ∧ ∀ t, (s'.tcb t).state = if t = task then .ready else (s.tcb t).state := by
  obtain ⟨s', hs', hreplaced, hstate⟩ := readyListAdd_rings h.rings hx
  refine ⟨s', hs', h.replaced hreplaced fun t ht => ?_, hreplaced.relinked, hstate⟩
  rcases List.mem_append.1 ht with ht | ht
  · exact h.prio _ t ht
  · rw [List.mem_singleton.1 ht]

theorem readyListAdd_self {tail : α} (h : s.readyList (s.tcb task).priority = some task)
    (htail : (s.tcb task).prev = some tail) :
    readyListAdd s task = some (((s.modify task fun t => { t with
        state := .ready, next := some task, prev := some tail }).modify tail fun t => { t with
        next := some task }).modify task fun t => { t with prev := some task }) := by
  by_cases ht : tail = task
  · simp [readyListAdd, h, Sched.modify, htail, ht]
  · simp [readyListAdd, h, Sched.modify, htail]

/-- `ready_list_add` of the head of a queue cuts the other tasks off. -/
theorem readyListAdd_head (h : ReadyQueues s Q) {l : List α}
    (hQ : Q (s.tcb task).priority = task :: l) :
    ∃ s', readyListAdd s task = some s' ∧
      ReadyQueues s' (Function.update Q (s.tcb task).priority [task]) ∧
      Relinked s s' ∧ ∀ t, (s'.tcb t).state = if t = task then .ready else (s.tcb t).state := by
  have hring := h.ring (s.tcb task).priority
  rw [hQ] at hring
  have hhd : s.readyList (s.tcb task).priority = some task := hring.head_eq
  obtain ⟨z, hzl, htail⟩ := (hhd ▸ hring).prev_some
  have hzm : z ∈ Q (s.tcb task).priority := hQ ▸ hzl
  have htm : task ∈ Q (s.tcb task).priority := by simp [hQ]
  have hrel : Relinked s (((s.modify task fun t => { t with
      state := .ready, next := some task, prev := some z }).modify z fun t => { t with
      next := some task }).modify task fun t => { t with prev := some task }) :=
    ((Relinked.modify _ _ rfl).trans (Relinked.modify _ _ rfl)).trans (Relinked.modify _ _ rfl)
  refine ⟨_, readyListAdd_self hhd htail, h.replaced (h.rings.replace hrel (fun p _ => rfl) ?_
    (fun t ht p hp htp => ?_) fun p hp t ht => ?_) ?_, hrel, fun t => ?_⟩
  · refine ⟨hhd, List.nodup_singleton _, ?_⟩
    by_cases hzt : z = task
    · simp [hzt]
    · simp [Function.update_of_ne (Ne.symm hzt)]
  · exact h.rings.ne_of_ne hp htp htm (List.mem_singleton.1 ht)
  · simp [h.rings.ne_of_ne hp ht htm, h.rings.ne_of_ne hp ht hzm]
  · intro t ht
    rw [List.mem_singleton.1 ht]
  · by_cases ht : t = task
    · subst ht
      by_cases htz : t = z
      · simp [htz]
      · simp [Lib.Store.modify_of_ne _ htz]
    · by_cases htz : t = z
      · subst htz
        simp [ht]
      · simp [ht, htz]

theorem readyListRemove_alone (h : (s.tcb task).next = some task) :
    readyListRemove s task = some ((s.setReady (s.tcb task).priority none).modify task
      fun t => { t with next := none, prev := none }) := by
  simp [readyListRemove, h]

theorem readyListRemove_linked {p n : α} (hp : (s.tcb task).prev = some p)
    (hn : (s.tcb task).next = some n) (hnt : n ≠ task) (hpt : p ≠ task) :
    readyListRemove s task = some ((((s.modify p fun t => { t with next := some n }).modify n
      fun t => { t with prev := some p }).setReady (s.tcb task).priority
        (if s.readyList (s.tcb task).priority = some task then some n
          else s.readyList (s.tcb task).priority)).modify task
      fun t => { t with next := none, prev := none }) := by
  by_cases hhd : s.readyList (s.tcb task).priority = some task
  · simp [readyListRemove, hn, hp, hnt, hhd, hnt.symm, hpt.symm]
  · have hself := ((s.modify p fun t => { t with next := some n }).modify n
      fun t => { t with prev := some p }).setReady_self (s.tcb task).priority
    simp only [Sched.modify_readyList] at hself
    simp [readyListRemove, hn, hp, hnt, hhd, hpt.symm, hself]

/-- Whatever the links are, `ready_list_remove` only goes by the priority of the
    task: it clears the pointers of the task, redirects its predecessor, and
    assigns to the list of the priority. -/
theorem readyListRemove_next {s' : Sched α} (h : readyListRemove s task = some s') :
    (s'.tcb task).next = none ∧
      (∀ t, t ≠ task → (s.tcb task).prev ≠ some t → (s'.tcb t).next = (s.tcb t).next) ∧
      (∀ t, (s'.tcb t).priority = (s.tcb t).priority) ∧
      (∀ p, p ≠ (s.tcb task).priority → s'.readyList p = s.readyList p) ∧
      (s.readyList (s.tcb task).priority = some task → (s.tcb task).next ≠ some task →
        s'.readyList (s.tcb task).priority = (s.tcb task).next) := by
  by_cases halone : (s.tcb task).next = some task
  · rw [readyListRemove_alone halone] at h
    obtain rfl := Option.some.inj h
    refine ⟨by simp, fun t ht _ => ?_, fun t => ?_, fun p hp => ?_, fun _ hn => absurd halone hn⟩
    · simp [ht]
    · simp only [Sched.modify_tcb, Sched.setReady_tcb]
      rw [Lib.Store.modify_field Tcb.priority _ _ rfl]
    · simp [hp]
  · simp only [readyListRemove, halone, if_false, Option.bind_eq_bind, Option.bind_eq_some_iff,
      Option.some.injEq] at h
    obtain ⟨p, hp, n, hn, s₂, hs₂, rfl⟩ := h
    set s₁ := (s.modify p fun t => { t with next := (s.tcb task).next }).modify n fun t =>
      { t with prev := ((s.modify p fun t => { t with next := (s.tcb task).next }).tcb task).prev }
      with hs₁
    have hnext : ∀ t, (s₁.tcb t).next = if t = p then (s.tcb task).next else (s.tcb t).next := by
      intro t
      simp only [hs₁, Sched.modify_tcb]
      rw [Lib.Store.modify_field Tcb.next _ _ rfl, Lib.Store.modify_apply]
      split_ifs
      · rfl
      · rfl
    have hprio : ∀ t, (s₁.tcb t).priority = (s.tcb t).priority := by
      intro t
      simp only [hs₁, Sched.modify_tcb]
      rw [Lib.Store.modify_field Tcb.priority _ _ rfl, Lib.Store.modify_field Tcb.priority _ _ rfl]
    have htask : (s₁.tcb task).next = (s.tcb task).next := by
      rw [hnext]
      split_ifs
      · rfl
      · rfl
    have htcb : s₂.tcb = s₁.tcb := by
      split_ifs at hs₂
      · rw [← hs₂]; rfl
      · rw [← hs₂]
    refine ⟨by simp, fun t ht hpt => ?_, fun t => ?_, fun q hq => ?_, fun hhd _ => ?_⟩
    · have htp : t ≠ p := by
        rintro rfl
        exact hpt hp
      rw [Sched.modify_tcb, Lib.Store.modify_of_ne _ ht, htcb, hnext, if_neg htp]
    · rw [Sched.modify_tcb, Lib.Store.modify_field Tcb.priority _ _ rfl, htcb, hprio]
    · rw [Sched.modify_readyList]
      split_ifs at hs₂
      · rw [← hs₂]
        exact Function.update_of_ne hq ..
      · rw [← hs₂]; rfl
    · have hhd₁ : s₁.readyList (s.tcb task).priority = some task := hhd
      rw [if_pos hhd₁] at hs₂
      rw [Sched.modify_readyList, ← hs₂, Sched.setReady_readyList, Function.update_self, htask]

/-- Whatever the links are, `ready_list_remove` only relinks. -/
theorem readyListRemove_relinked {s' : Sched α} (h : readyListRemove s task = some s') :
    Relinked s s' := by
  by_cases halone : (s.tcb task).next = some task
  · rw [readyListRemove_alone halone] at h
    obtain rfl := Option.some.inj h
    exact (Relinked.setReady ..).trans (.modify _ _ rfl)
  · simp only [readyListRemove, halone, if_false, Option.bind_eq_bind, Option.bind_eq_some_iff,
      Option.some.injEq] at h
    obtain ⟨p, -, n, -, s₂, hs₂, rfl⟩ := h
    refine Relinked.trans ?_ (.modify _ _ rfl)
    split_ifs at hs₂
    · obtain rfl := hs₂
      exact ((Relinked.modify _ _ rfl).trans (.modify _ _ rfl)).trans (.setReady ..)
    · obtain rfl := hs₂
      exact (Relinked.modify _ _ rfl).trans (.modify _ _ rfl)

/-- `ready_list_remove` writes to the task and its neighbours only. -/
theorem readyListRemove_of_ne {s' : Sched α} {x : α} (h : readyListRemove s task = some s')
    (hx : x ≠ task) (hp : (s.tcb task).prev ≠ some x) (hn : (s.tcb task).next ≠ some x) :
    s'.tcb x = s.tcb x := by
  by_cases halone : (s.tcb task).next = some task
  · rw [readyListRemove_alone halone] at h
    cases h
    simp [hx]
  · simp only [readyListRemove, halone, if_false, Option.bind_eq_bind, Option.bind_eq_some_iff,
      Option.some.injEq] at h
    obtain ⟨p, hp', n, hn', s₂, hs₂, rfl⟩ := h
    have hxp : x ≠ p := fun he => hp (he ▸ hp')
    have hxn : x ≠ n := by
      rintro rfl
      refine hn ?_
      by_cases htp : task = p
      · subst htp
        simpa using hn'
      · simpa [htp] using hn'
    split_ifs at hs₂
    · cases hs₂
      simp [hx, hxp, hxn]
    · cases hs₂
      simp [hx, hxp, hxn]

/-- **`ready_list_remove` deletes the task from its queue.** -/
theorem readyListRemove_rings (h : ReadyFifos s Q) {a b : List α}
    (hQ : Q (s.tcb task).priority = a ++ task :: b) :
    ∃ s', readyListRemove s task = some s' ∧
      QueueReplaced s s' Q (s.tcb task).priority (a ++ b) ∧
      ∀ t, (s'.tcb t).state = (s.tcb t).state := by
  have hring := h.ring (s.tcb task).priority
  rw [hQ] at hring
  have htm : task ∈ Q (s.tcb task).priority := by simp [hQ]
  have hapart : ∀ t ∈ a ++ b, ∀ p, p ≠ (s.tcb task).priority → t ∉ Q p := by
    intro t ht p hp htp
    refine h.ne_of_ne hp htp (u := t) ?_ rfl
    rw [hQ]
    rcases List.mem_append.1 ht with ht | ht <;> simp [ht]
  have hrot := hring.rotate (b := task :: b) (by simp)
  have hnext : (s.tcb task).next = (b ++ a).head?.or (some task) := hrot.seg.2.1
  by_cases hab : a ++ b = []
  · -- the task was alone
    obtain ⟨rfl, rfl⟩ := List.append_eq_nil_iff.1 hab
    have hrel : Relinked s ((s.setReady (s.tcb task).priority none).modify task
        fun t => { t with next := none, prev := none }) :=
      (Relinked.setReady ..).trans (Relinked.modify _ _ rfl)
    refine ⟨_, readyListRemove_alone (by simpa using hnext), h.replace hrel
      (fun p hp => by simp [hp]) ?_ hapart fun p hp t ht => ?_, fun t => ?_⟩
    · simpa using Lib.ring_nil
    · simp [h.ne_of_ne hp ht htm]
    · exact s.tcb.modify_field Tcb.state task rfl t
  · obtain ⟨n, hn⟩ : ∃ n, (b ++ a).head? = some n := by
      rcases hc : b ++ a with _ | ⟨n, c⟩
      · simp_all
      · exact ⟨n, rfl⟩
    obtain ⟨p, hp⟩ : ∃ p, (b ++ a).getLast? = some p := by
      rcases hc : (b ++ a).getLast? with _ | p
      · rw [List.getLast?_eq_none_iff] at hc; simp [hc] at hn
      · exact ⟨p, rfl⟩
    have hnd : (task :: (b ++ a)).Nodup := by simpa using hrot.nodup
    have hnx : (s.tcb task).next = some n := by simpa [hn] using hnext
    have hpx : (s.tcb task).prev = some p := by
      have hseg : (s.tcb task).prev = _ := hrot.seg.1
      rw [hseg, List.cons_append, List.getLast?_cons, hp]; rfl
    have hnm : n ∈ b ++ a := List.mem_of_head? hn
    have hpm : p ∈ b ++ a := List.mem_of_getLast? hp
    have hnt : n ≠ task := fun he => (List.nodup_cons.1 hnd).1 (he ▸ hnm)
    have hpt : p ≠ task := fun he => (List.nodup_cons.1 hnd).1 (he ▸ hpm)
    have hin : ∀ {x}, x ∈ b ++ a → x ∈ Q (s.tcb task).priority := fun hx => by
      rw [hQ]; rcases List.mem_append.1 hx with hx | hx <;> simp [hx]
    have hrel : Relinked s ((((s.modify p fun t => { t with next := some n }).modify n
        fun t => { t with prev := some p }).setReady (s.tcb task).priority
          (if s.readyList (s.tcb task).priority = some task then some n
            else s.readyList (s.tcb task).priority)).modify task
        fun t => { t with next := none, prev := none }) :=
      (((Relinked.modify _ _ rfl).trans (Relinked.modify _ _ rfl)).trans
        (Relinked.setReady ..)).trans (Relinked.modify _ _ rfl)
    refine ⟨_, readyListRemove_linked hpx hnx hnt hpt, h.replace hrel (fun q hq => by simp [hq])
      ?_ hapart fun q hq t ht => ?_, fun t => ?_⟩
    · simpa using hring.remove hpx hnx hnt
    · simp [h.ne_of_ne hq ht htm, h.ne_of_ne hq ht (hin hnm), h.ne_of_ne hq ht (hin hpm)]
    · simp only [Sched.modify_tcb, Sched.setReady_tcb]
      rw [Lib.Store.modify_field Tcb.state _ _ rfl, Lib.Store.modify_field Tcb.state _ _ rfl,
        Lib.Store.modify_field Tcb.state _ _ rfl]

/-- The queues of a scheduler after `ready_list_remove`. -/
theorem readyListRemove_spec (h : ReadyQueues s Q) {a b : List α}
    (hQ : Q (s.tcb task).priority = a ++ task :: b) :
    ∃ s', readyListRemove s task = some s' ∧
      ReadyQueues s' (Function.update Q (s.tcb task).priority (a ++ b)) ∧
      Relinked s s' ∧ ∀ t, (s'.tcb t).state = (s.tcb t).state := by
  obtain ⟨s', hs', hreplaced, hstate⟩ := readyListRemove_rings h.rings hQ
  refine ⟨s', hs', h.replaced hreplaced fun t ht => h.prio _ t ?_, hreplaced.relinked, hstate⟩
  rw [hQ]
  rcases List.mem_append.1 ht with ht | ht <;> simp [ht]

/-- The head of a queue is taken off it. -/
theorem readyListRemove_of_head (h : ReadyQueues s Q) {p : ℕ} {l : List α} (hQ : Q p = task :: l)
    {s' : Sched α} (hs : readyListRemove s task = some s') :
    ReadyQueues s' (Function.update Q p l) ∧ Relinked s s' ∧
      ∀ t, (s'.tcb t).state = (s.tcb t).state := by
  have hp : (s.tcb task).priority = p := h.prio p task (by simp [hQ])
  have hQt : Q (s.tcb task).priority = [] ++ task :: l := by rw [hp, hQ]; rfl
  obtain ⟨s₁, hs₁, hqueues, hrel, hstate⟩ := readyListRemove_spec h hQt
  obtain rfl : s' = s₁ := Option.some.inj (hs.symm.trans hs₁)
  exact ⟨hp ▸ hqueues, hrel, hstate⟩

end

/-! ## The highest ready task -/

theorem highestReady_none {rl : ℕ → Option α} :
    ∀ {n : ℕ}, highestReady rl n = none ↔ ∀ p < n, rl p = none
  | 0 => by simp [highestReady]
  | n + 1 => by
    rcases h : rl n with _ | t
    · simp only [highestReady, h, highestReady_none (n := n), Nat.lt_succ_iff]
      constructor
      · intro hn p hp
        rcases Nat.lt_or_eq_of_le hp with hp | rfl
        exacts [hn p hp, h]
      · exact fun hn p hp => hn p (Nat.le_of_lt hp)
    · simp only [highestReady, h, reduceCtorEq, false_iff]
      exact fun hn => by simpa [h] using hn n (Nat.lt_succ_self n)

theorem highestReady_some {rl : ℕ → Option α} {t : α} :
    ∀ {n : ℕ}, highestReady rl n = some t ↔
      ∃ p < n, rl p = some t ∧ ∀ q, p < q → q < n → rl q = none
  | 0 => by simp [highestReady]
  | n + 1 => by
    rcases h : rl n with _ | u
    · simp only [highestReady, h, highestReady_some (n := n)]
      constructor
      · rintro ⟨p, hp, h1, h2⟩
        refine ⟨p, by omega, h1, fun q hq hqn => ?_⟩
        rcases Nat.lt_or_eq_of_le (Nat.lt_succ_iff.1 hqn) with hqn | rfl
        exacts [h2 q hq hqn, h]
      · rintro ⟨p, hp, h1, h2⟩
        have hpn : p ≠ n := by rintro rfl; simp [h] at h1
        exact ⟨p, by omega, h1, fun q hq hqn => h2 q hq (by omega)⟩
    · simp only [highestReady, h, Option.some.injEq]
      constructor
      · rintro rfl
        exact ⟨n, by omega, h, fun q hq hqn => by omega⟩
      · rintro ⟨p, hp, h1, h2⟩
        rcases Nat.lt_or_eq_of_le (Nat.lt_succ_iff.1 hp) with hpn | rfl
        · exact absurd (h2 n hpn (Nat.lt_succ_self n)) (by simp [h])
        · simpa [h] using h1

/-- **`get_highest_ready`** is the idle task or the head of the highest queue. -/
theorem ReadyFifos.highest {s : Sched α} {Q : ℕ → List α} (h : ReadyFifos s Q)
    (cfg : SchedConfig α) :
    ((∀ p < cfg.maxPriority, Q p = []) ∧ getHighestReady cfg s = cfg.idleTcb) ∨
      ∃ p < cfg.maxPriority, ∃ t l, Q p = t :: l ∧
        (∀ q, p < q → q < cfg.maxPriority → Q q = []) ∧ getHighestReady cfg s = t := by
  rcases hh : highestReady s.readyList cfg.maxPriority with _ | t
  · exact Or.inl ⟨fun p hp => (h.readyList_none p).1 (highestReady_none.1 hh p hp),
      by simp [getHighestReady, hh]⟩
  · obtain ⟨p, hp, hpt, hq⟩ := highestReady_some.1 hh
    obtain ⟨l, hl⟩ := (hpt ▸ h.ring p).head_some
    exact Or.inr ⟨p, hp, t, l, hl, fun q hpq hqm => (h.readyList_none q).1 (hq q hpq hqm),
      by simp [getHighestReady, hh]⟩

theorem ReadyQueues.highest {cfg : SchedConfig α} {s : Sched α} {Q : ℕ → List α}
    (h : ReadyQueues s Q) (hb : ∀ p, ∀ t ∈ Q p, p < cfg.maxPriority) :
    ((∀ p, Q p = []) ∧ getHighestReady cfg s = cfg.idleTcb) ∨
      ∃ p t l, Q p = t :: l ∧ (∀ q, p < q → Q q = []) ∧ getHighestReady cfg s = t := by
  have hbound : ∀ p, (p < cfg.maxPriority → Q p = []) → Q p = [] := by
    intro p hp
    rcases hQ : Q p with _ | ⟨t, l⟩
    · rfl
    · exact absurd (hp (hb p t (by simp [hQ]))) (by simp [hQ])
  obtain ⟨hempty, hidle⟩ | ⟨p, -, t, l, hl, hq, ht⟩ := h.rings.highest cfg
  · exact Or.inl ⟨fun p => hbound p (hempty p), hidle⟩
  · exact Or.inr ⟨p, t, l, hl, fun q hpq => hbound q (hq q hpq), ht⟩

/-- **The ready lists are first-in first-out queues**, one for each priority:
    `ready_list_add` appends to the one of the task, `ready_list_remove` takes
    the task out of it and leaves the list `NULL` if it was alone, the other
    queues keep their tasks and blocks, and `get_highest_ready` is the first
    task of the highest one. -/
theorem readyLists_refine [DecidableEq α] {s : Sched α} {Q : ℕ → List α} (h : ReadyFifos s Q)
    (cfg : SchedConfig α) :
    (∀ task, (∀ p, task ∉ Q p) → ∃ s', readyListAdd s task = some s' ∧
      QueueReplaced s s' Q (s.tcb task).priority (Q (s.tcb task).priority ++ [task])) ∧
    (∀ task ∈ Q (s.tcb task).priority, ∃ s', readyListRemove s task = some s' ∧
      QueueReplaced s s' Q (s.tcb task).priority ((Q (s.tcb task).priority).erase task) ∧
      (s'.readyList (s.tcb task).priority = none ↔ Q (s.tcb task).priority = [task])) ∧
    (((∀ p < cfg.maxPriority, Q p = []) ∧ getHighestReady cfg s = cfg.idleTcb) ∨
      ∃ p < cfg.maxPriority, ∃ t l, Q p = t :: l ∧
        (∀ q, p < q → q < cfg.maxPriority → Q q = []) ∧ getHighestReady cfg s = t) := by
  refine ⟨fun task hx => ?_, fun task hmem => ?_, h.highest cfg⟩
  · obtain ⟨s', hs', hreplaced, -⟩ := readyListAdd_rings h hx
    exact ⟨s', hs', hreplaced⟩
  · obtain ⟨a, b, hQ⟩ := List.append_of_mem hmem
    obtain ⟨s', hs', hreplaced, -⟩ := readyListRemove_rings h hQ
    have hnodup := (h.ring (s.tcb task).priority).nodup
    rw [hQ] at hnodup
    have hna : task ∉ a := fun ha => (List.nodup_append.1 hnodup).2.2 _ ha _ (by simp) rfl
    have herase : (a ++ task :: b).erase task = a ++ b := by
      rw [List.erase_append_right _ hna, List.erase_cons_head]
    refine ⟨s', hs', by rw [hQ, herase]; exact hreplaced, ?_⟩
    rw [hreplaced.rings.readyList_none, Function.update_self, hQ, List.append_eq_nil_iff]
    constructor
    · rintro ⟨rfl, rfl⟩
      rfl
    · intro halone
      rw [List.append_eq_singleton_iff] at halone
      obtain ⟨rfl, hb⟩ | ⟨-, hb⟩ := halone
      · exact ⟨rfl, (List.cons.inj hb).2⟩
      · cases hb

/-- Two tasks of priority 5. -/
def demoPair : Sched (Fin 3) where
  tcb := fun t : Fin 3 =>
    { (Tcb.zero : Tcb (Fin 3)) with priority := 5, next := some (3 - t), prev := some (3 - t) }
  readyList p := if p = 5 then some 1 else none
  currentTask := none
  taskTable := [1, 2]
  systemTicks := 0
  schedulerRunning := false

def demoPairQueues (p : ℕ) : List (Fin 3) := if p = 5 then [1, 2] else []

/-- The first one is taken out. -/
theorem readyLists_refine_pair :
    ∃ s', readyListRemove demoPair 1 = some s' ∧
      QueueReplaced demoPair s' demoPairQueues 5 [2] := by
  have hfive : ∀ {p : ℕ} {t : Fin 3}, t ∈ demoPairQueues p → p = 5 := by
    intro p t ht
    unfold demoPairQueues at ht
    split_ifs at ht with hp
    · exact hp
    · cases ht
  have hrings : ReadyFifos demoPair demoPairQueues := by
    refine ⟨fun p => ?_, fun p q t ht ht' => (hfive ht).trans (hfive ht').symm⟩
    by_cases hp : p = 5
    · subst hp
      decide
    · simp only [demoPair, demoPairQueues, if_neg hp]
      exact Lib.ring_nil
  obtain ⟨s', hs', hreplaced, -⟩ :=
    (readyLists_refine hrings ⟨.arm64, 32, 64, 0⟩).2.1 1 (by decide)
  exact ⟨s', hs', hreplaced⟩

/-- **`schedule_locked`** keeps the running task, or takes the task it picks off
    its ready list and makes it the running task. -/
theorem scheduleLocked_cases [DecidableEq α] {cfg : SchedConfig α} {s s' : Sched α}
    (h : scheduleLocked cfg s = some s') :
    (s.currentTask = some (getHighestReady cfg s) ∧ s' = s) ∨
      (s.currentTask ≠ some (getHighestReady cfg s) ∧ ∃ s₁,
        (if getHighestReady cfg s = cfg.idleTcb then some s
          else readyListRemove s (getHighestReady cfg s)) = some s₁ ∧
        s' = { s₁.modify (getHighestReady cfg s) fun t => { t with
            state := .running
            switches := match cfg.port with | .arm64 => t.switches | .x86_64 => t.switches + 1 } with
          currentTask := some (getHighestReady cfg s) }) := by
  unfold scheduleLocked at h
  by_cases hc : s.currentTask = some (getHighestReady cfg s)
  · rw [if_pos hc] at h
    exact .inl ⟨hc, (Option.some.inj h).symm⟩
  · rw [if_neg hc] at h
    refine .inr ⟨hc, ?_⟩
    by_cases hi : getHighestReady cfg s = cfg.idleTcb
    · rw [if_pos hi]
      simp only [hi, if_true, Option.bind_eq_bind, Option.bind_some, Option.some.injEq] at h
      exact ⟨s, rfl, by rw [hi]; exact h.symm⟩
    · rw [if_neg hi]
      simp only [hi, if_false, Option.bind_eq_bind, Option.bind_eq_some_iff,
        Option.some.injEq] at h
      obtain ⟨s₁, hs₁, h⟩ := h
      exact ⟨s₁, hs₁, h.symm⟩

theorem scheduleLocked_currentTask [DecidableEq α] {cfg : SchedConfig α} {s s' : Sched α}
    (h : scheduleLocked cfg s = some s') : s'.currentTask = some (getHighestReady cfg s) := by
  obtain ⟨hc, rfl⟩ | ⟨-, s₁, -, rfl⟩ := scheduleLocked_cases h
  · exact hc
  · rfl

end Gracemont
