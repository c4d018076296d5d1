/-
  Gracemont kernel — the invariant of the whole system (ARM64).

  The tasks in a blocking call are those that `LostTasks` sets aside: each waits for
  an object, or was woken and is lost.  Nothing but the operations of the objects
  writes to them, and these write to no other task than the caller and, for its
  priority, the owner of a mutex.

  * `SystemInv`: the invariant;
  * `Stepped`: a step that keeps it, and what it leaves to the tasks that sleep;
  * `SystemInv.setPriority`, `SystemInv.waking`, `SystemInv.block`: what the operations
    of the objects are made of.
-/
import Gracemont.Kernel.System
import Gracemont.Kernel.LostTasks

namespace Gracemont

variable {α : Type}

namespace Kernel

/-- The task is in a blocking call. -/
def waiting (k : Kernel α) (t : α) : Bool :=
  match k.pc t with
  | .own => false
  | .yield _ | .resume _ => true

/-- The task is the first one of a wait list. -/
def HeadOf (k : Kernel α) (t : α) : Prop :=
  ∃ i, (k.sem i).waitList = some t ∨ (k.mutex i).waitList = some t ∨
    (k.event i).waitList = some t ∨ (k.msgq i).sendWait = some t ∨ (k.msgq i).recvWait = some t

theorem waiting_own {k : Kernel α} {t : α} (h : k.pc t = .own) : k.waiting t = false := by
  simp [waiting, h]

theorem own_of_not {k : Kernel α} {t : α} (h : k.waiting t = false) : k.pc t = .own := by
  unfold waiting at h
  split at h
  · assumption
  · cases h
  · cases h

/-- A call that returns at once. -/
theorem setPc_own [DecidableEq α] (k : Kernel α) {t : α} (h : k.pc t = .own) :
    Function.update k.pc t .own = k.pc := by
  rw [← h, Function.update_eq_self]

theorem waiting_yield {k : Kernel α} {t : α} {call : BlockingCall} (h : k.pc t = .yield call) :
    k.waiting t = true := by
  simp [waiting, h]

end Kernel

/-! ## The invariant -/

/-- The owners of the mutexes are tasks, and their priorities are restored to ones
    that there are. -/
def MutexOwners (cfg : SchedConfig α) (s : Sched α) (k : Kernel α) : Prop :=
  ∀ i o, (k.mutex i).owner = some o →
    o ∈ s.taskTable ∧ o ≠ cfg.idleTcb ∧ (k.mutex i).origPriority < cfg.maxPriority

/-- **The invariant.**  The scheduler sees the state `s`, in which the tasks in a
    blocking call are not ready. -/
structure SystemInv (cfg : SchedConfig α) (k : Kernel α) (s : Sched α) (Q : ℕ → List α) : Prop where
  sched : k.sched = s.lost k.waiting
  resting : Resting cfg s Q
  aside : Aside cfg k.waiting s
  active : ∀ c, s.currentTask = some c → (∃ call, k.pc c = .yield call) ∨
    (k.pc c = .own ∧ ((s.tcb c).state = .running ∨ (s.tcb c).state = .ready))
  boot : s.currentTask = none → ∀ t, k.pc t = .own
  own : ∀ t, k.waiting t = false → (s.tcb t).waitObj = none
  heads : ∀ t, k.HeadOf t → k.waiting t = true
  links : ∀ t u, k.waiting t = true → (s.tcb t).next = some u → k.waiting u = true
  owners : MutexOwners cfg s k

/-- A step from `k` to `k'`, with what it leaves to the tasks that sleep. -/
structure Stepped (cfg : SchedConfig α) (k k' : Kernel α) (s s' : Sched α) (Q' : ℕ → List α) :
    Prop where
  inv : SystemInv cfg k' s' Q'
  ticks : s'.systemTicks = s.systemTicks
  table : ∀ t ∈ s.taskTable, t ∈ s'.taskTable
  stays : s.currentTask ≠ none → s'.currentTask ≠ none
  asleep : ∀ t, k.waiting t = false → (s.tcb t).state = .blocked →
    k'.waiting t = false ∧ Kept s.tcb s'.tcb t

section
variable {cfg : SchedConfig α} {k k' k'' : Kernel α} {s s' s'' : Sched α} {Q Q' Q'' : ℕ → List α}

theorem Stepped.refl (h : SystemInv cfg k s Q) : Stepped cfg k k s s Q :=
  ⟨h, rfl, fun _ ht => ht, id, fun _ ht _ => ⟨ht, .of_eq rfl⟩⟩

theorem Stepped.trans (h : Stepped cfg k k' s s' Q') (h' : Stepped cfg k' k'' s' s'' Q'') :
    Stepped cfg k k'' s s'' Q'' := by
  refine ⟨h'.inv, h'.ticks.trans h.ticks, fun t ht => h'.table t (h.table t ht),
    fun hn => h'.stays (h.stays hn), fun t ht hb => ?_⟩
  obtain ⟨ht', hkept⟩ := h.asleep t ht hb
  obtain ⟨ht'', hkept'⟩ := h'.asleep t ht' (hkept.state.trans hb)
  exact ⟨ht'', hkept.trans hkept'⟩

end

/-! ## Operations on the objects -/

section
variable {cfg : SchedConfig α} {k k' : Kernel α} {s s' : Sched α} {Q : ℕ → List α}

/-- Writing to tasks that are on no ready list, and stay unready. -/
theorem Core.apart (h : Core cfg s Q) (hr : s'.readyList = s.readyList)
    (ht : s'.taskTable = s.taskTable)
    (hx : ∀ x, s'.tcb x = s.tcb x ∨ (x ∈ s.taskTable ∧ x ≠ cfg.idleTcb ∧ (∀ p, x ∉ Q p) ∧
      (s'.tcb x).priority < cfg.maxPriority ∧ (s'.tcb x).state ≠ .ready)) : Core cfg s' Q := by
  have hin : ∀ p, ∀ x ∈ Q p, s'.tcb x = s.tcb x := fun p x hp =>
    (hx x).resolve_right fun h' => h'.2.2.1 p hp
  have hidle : s'.tcb cfg.idleTcb = s.tcb cfg.idleTcb :=
    (hx _).resolve_right fun h' => h'.2.1 rfl
  constructor
  · exact h.queues.congr hr (fun p x hp => by rw [hin p x hp]) (fun p x hp => by rw [hin p x hp])
      fun p x hp => by rw [hin p x hp]
  · intro p x hp
    rw [hin p x hp]
    exact h.ready p x hp
  · exact h.bound
  · intro p x hp
    rw [ht]
    exact h.known p x hp
  · intro x hxt hxi hst
    have hsame : s'.tcb x = s.tcb x := (hx x).resolve_right fun h' => h'.2.2.2.2 hst
    rw [hsame] at hst ⊢
    rw [ht] at hxt
    exact h.queued x hxt hxi hst
  · intro x hxt
    rw [ht] at hxt
    rcases hx x with hsame | ⟨-, -, -, hp, -⟩
    · rw [hsame]
      exact h.prio x hxt
    · exact hp
  · intro x hxt hxi
    rw [ht] at hxt
    have hsame : s'.tcb x = s.tcb x := (hx x).resolve_right fun h' => hxt h'.1
    rw [hsame]
    exact h.fresh x hxt hxi
  · rw [hidle]
    exact h.idlePrio
  · rw [hidle]
    exact h.idleState

/-- The ready tasks of `D` count as terminated. -/
def Sched.setAside (D : α → Bool) (s : Sched α) : Sched α :=
  { s with tcb := fun t =>
      if (D t ∧ (s.tcb t).state = .ready) then { s.tcb t with state := .terminated }
      else s.tcb t }

theorem Sched.setAside_of_not {D : α → Bool} {t : α} (h : D t = false) :
    (s.setAside D).tcb t = s.tcb t := by
  simp [setAside, h]

theorem Sched.setAside_field {γ : Type} {D : α → Bool} (g : Tcb α → γ)
    (hg : ∀ c st, g { c with state := st } = g c) (t : α) :
    g ((s.setAside D).tcb t) = g (s.tcb t) := by
  simp only [setAside]
  split
  · exact hg _ _
  · rfl

/-- A task in a blocking call, to the scheduler. -/
theorem Sched.setAside_state {D : α → Bool} {t : α} (hD : D t = true)
    (ht : (s.tcb t).state = .ready ∨ ((s.tcb t).state = .blocked ∧ (s.tcb t).waitObj ≠ none)) :
    ((s.setAside D).tcb t).state = .terminated ∨
      (((s.setAside D).tcb t).state = .blocked ∧ ((s.setAside D).tcb t).waitObj ≠ none) := by
  rcases ht with hr | ⟨hb, hw⟩
  · simp [setAside, hD, hr]
  · have hset : (s.setAside D).tcb t = s.tcb t := if_neg fun h => by simp [hb] at h
    rw [hset]
    exact .inr ⟨hb, hw⟩

theorem Sched.lost_setAside {D : α → Bool}
    (h : ∀ t, D t = true → (s.tcb t).state ≠ .terminated) : (s.setAside D).lost D = s := by
  have htcb : ((s.setAside D).lost D).tcb = s.tcb := by
    funext t
    by_cases hr : D t = true ∧ (s.tcb t).state = .ready
    · have hset : (s.setAside D).tcb t = { s.tcb t with state := .terminated } := if_pos hr
      rw [lost_of_terminated hr.1 (by rw [hset]), hset, ← hr.2]
    · have hset : (s.setAside D).tcb t = s.tcb t := if_neg hr
      have hlost : ¬ (D t = true ∧ ((s.setAside D).tcb t).state = .terminated) := by
        rintro ⟨hD, hst⟩
        rw [hset] at hst
        exact h t hD hst
      exact (if_neg hlost).trans hset
  exact congrArg (fun m => { s with tcb := m }) htcb

/-- The task was in a blocking call before, or it is the caller and goes to
    `task_yield` now. -/
def StaysOrBlocks (cfg : SchedConfig α) (k k' : Kernel α) (s : Sched α) (t : α) : Prop :=
  k'.pc t = k.pc t ∨ (s.currentTask = some t ∧ k.waiting t = false ∧
    (s.tcb t).state = .running ∧ t ≠ cfg.idleTcb ∧ ∃ call, k'.pc t = .yield call)

/-- The block of a task that is in no blocking call keeps its contents but the
    priority, and that too if the task is on a ready list. -/
def KeptOutside (cfg : SchedConfig α) (s : Sched α) (m' : Tcbs α) (t : α) : Prop :=
  m' t = s.tcb t ∨ (t ∈ s.taskTable ∧ t ≠ cfg.idleTcb ∧ (∀ p, ¬ OnReadyList s p t) ∧
    ∃ p, p < cfg.maxPriority ∧ m' t = { s.tcb t with priority := p })

/-- The block of a task in a blocking call. -/
structure Inside (cfg : SchedConfig α) (D : α → Bool) (m' : Tcbs α) (t : α) : Prop where
  priority : (m' t).priority < cfg.maxPriority
  state : (m' t).state = .ready ∨ ((m' t).state = .blocked ∧ (m' t).waitObj ≠ none)
  links : ∀ u, (m' t).next = some u → D u = true

theorem StaysOrBlocks.not_waiting {t : α} (h : StaysOrBlocks cfg k k' s t)
    (ht : k'.waiting t = false) : k.waiting t = false ∧ k'.pc t = k.pc t := by
  rcases h with he | ⟨-, -, -, -, call, he⟩
  · exact ⟨Kernel.waiting_own (he ▸ Kernel.own_of_not ht), he⟩
  · rw [Kernel.waiting_yield he] at ht
    cases ht

theorem StaysOrBlocks.waiting {t : α} (h : StaysOrBlocks cfg k k' s t) (ht : k'.waiting t = true) :
    k.waiting t = true ∨
      (s.currentTask = some t ∧ (s.tcb t).state = .running ∧ t ≠ cfg.idleTcb) := by
  rcases h with he | ⟨hc, -, hst, hti, -⟩
  · refine .inl ?_
    unfold Kernel.waiting at ht ⊢
    rwa [he] at ht
  · exact .inr ⟨hc, hst, hti⟩

/-- A task in a blocking call was known, and not ready. -/
theorem SystemInv.known (h : SystemInv cfg k s Q) {t : α} (hpc : StaysOrBlocks cfg k k' s t)
    (ht : k'.waiting t = true) :
    t ∈ s.taskTable ∧ t ≠ cfg.idleTcb ∧ (s.tcb t).state ≠ .ready := by
  rcases hpc.waiting ht with hD | ⟨hc, hst, hti⟩
  · exact ⟨h.aside.known t hD, h.aside.ne_idle t hD, h.aside.ne_ready hD⟩
  · exact ⟨(h.resting.current t hc).resolve_right hti, hti, by simp [hst]⟩

theorem KeptOutside.kept {m' : Tcbs α} {t : α} (h : KeptOutside cfg s m' t) : Kept s.tcb m' t := by
  rcases h with he | ⟨-, -, -, p, -, he⟩
  · exact .of_eq he
  · constructor
    all_goals rw [he]

/-- An operation on an object leaves the ready lists, and the tasks on them. -/
theorem SystemInv.turned_core (h : SystemInv cfg k s Q) (hpc : ∀ t, StaysOrBlocks cfg k k' s t)
    {m' : Tcbs α} (hfree : ∀ t, k'.waiting t = false → KeptOutside cfg s m' t)
    (hprio : ∀ t, k'.waiting t = true → (m' t).priority < cfg.maxPriority)
    (hstate : ∀ t, k'.waiting t = true → (m' t).state = .terminated ∨
      ((m' t).state = .blocked ∧ (m' t).waitObj ≠ none)) : Core cfg { s with tcb := m' } Q := by
  have hlist : ∀ {t p}, ¬ OnReadyList s p t → t ∉ Q p := fun ht hp =>
    ht (h.resting.on_iff.2 hp)
  refine h.resting.toCore.apart rfl rfl fun t => ?_
  cases ht : k'.waiting t with
  | false =>
    rcases hfree t ht with he | ⟨hk, hti, hQ, p, hp, he⟩
    · exact .inl he
    · have hp' : (m' t).priority < cfg.maxPriority := by
        rw [he]
        exact hp
      have hst : (m' t).state ≠ .ready := by
        rw [he]
        exact fun hr => hlist (hQ _) (h.resting.queued t hk hti hr)
      exact .inr ⟨hk, hti, fun q => hlist (hQ q), hp', hst⟩
  | true =>
    obtain ⟨hk, hti, hr⟩ := h.known (hpc t) ht
    have hst : (m' t).state ≠ .ready := by
      rcases hstate t ht with hst | ⟨hst, -⟩
      · simp [hst]
      · simp [hst]
    exact .inr ⟨hk, hti, h.resting.not_mem hr, hprio t ht, hst⟩

/-- **An operation on an object.** -/
theorem SystemInv.turned (h : SystemInv cfg k s Q)
    (hsched : k'.sched = { s with tcb := k'.sched.tcb })
    (hpc : ∀ t, StaysOrBlocks cfg k k' s t)
    (hout : ∀ t, k'.waiting t = false → KeptOutside cfg s k'.sched.tcb t)
    (hin : ∀ t, k'.waiting t = true → Inside cfg k'.waiting k'.sched.tcb t)
    (hheads : ∀ t, k'.HeadOf t → k'.waiting t = true) (howners : MutexOwners cfg s k') :
    ∃ s', Stepped cfg k k' s s' Q := by
  -- the blocks as the scheduler sees them
  obtain ⟨m', hm'⟩ : ∃ m', m' = (k'.sched.setAside k'.waiting).tcb := ⟨_, rfl⟩
  have hfree : ∀ t, k'.waiting t = false → KeptOutside cfg s m' t := by
    intro t ht
    unfold KeptOutside
    rw [hm', Sched.setAside_of_not ht]
    exact hout t ht
  have hstate : ∀ t, k'.waiting t = true → (m' t).state = .terminated ∨
      ((m' t).state = .blocked ∧ (m' t).waitObj ≠ none) := by
    intro t ht
    rw [hm']
    exact Sched.setAside_state ht (hin t ht).state
  have hcore : Core cfg { s with tcb := m' } Q := by
    refine h.turned_core hpc hfree (fun t ht => ?_) hstate
    rw [hm', Sched.setAside_field Tcb.priority fun _ _ => rfl]
    exact (hin t ht).priority
  have hkept : ∀ t, k'.waiting t = false → Kept s.tcb m' t := fun t ht => (hfree t ht).kept
  refine ⟨{ s with tcb := m' }, ⟨?_, ?_, ⟨?_, ?_, hstate⟩, ?_, ?_, ?_, hheads, ?_, howners⟩, rfl,
    fun _ ht => ht, id, ?_⟩
  · have hlost : (k'.sched.setAside k'.waiting).lost k'.waiting = k'.sched := by
      refine Sched.lost_setAside fun t ht => ?_
      rcases (hin t ht).state with hst | ⟨hst, -⟩
      · simp [hst]
      · simp [hst]
    rw [hm']
    exact hsched.trans (congrArg (fun n => { s with tcb := n.tcb }) hlost.symm)
  · exact h.resting.stay hcore rfl rfl (fun _ ht => ht) h.resting.boot
  · exact fun t ht => (h.known (hpc t) ht).1
  · exact fun t ht => (h.known (hpc t) ht).2.1
  · intro c hc
    rcases hpc c with he | ⟨-, -, -, -, hy⟩
    · rw [he]
      refine (h.active c hc).imp_right fun ⟨hown, hst⟩ => ⟨hown, ?_⟩
      dsimp only
      rw [(hkept c (Kernel.waiting_own (he.trans hown))).state]
      exact hst
    · exact .inl hy
  · intro hn t
    rcases hpc t with he | ⟨hc, -⟩
    · exact he.trans (h.boot hn t)
    · have hn' : s.currentTask = none := hn
      rw [hn'] at hc
      cases hc
  · intro t ht
    exact (hkept t ht).waitObj.trans (h.own t ((hpc t).not_waiting ht).1)
  · intro t u ht hu
    dsimp only at hu
    rw [hm', Sched.setAside_field Tcb.next fun _ _ => rfl] at hu
    exact (hin t ht).links u hu
  · intro t ht hb
    have ht' : k'.waiting t = false := by
      cases ht' : k'.waiting t with
      | false => rfl
      | true =>
        rcases (hpc t).waiting ht' with hD | ⟨-, hst, -⟩
        · rw [hD] at ht
          cases ht
        · rw [hst] at hb
          cases hb
    exact ⟨ht', hkept t ht'⟩

theorem SystemInv.outside (h : SystemInv cfg k s Q) {t : α} (ht : k.waiting t = false) :
    k.sched.tcb t = s.tcb t := by
  rw [h.sched]
  exact Sched.lost_of_not ht

theorem SystemInv.inside (h : SystemInv cfg k s Q) {t : α} (ht : k.waiting t = true) :
    Inside cfg k.waiting k.sched.tcb t := by
  rw [h.sched]
  refine ⟨?_, ?_, fun u hu => ?_⟩
  · rw [Sched.lost_priority]
    exact h.resting.prio t (h.aside.known t ht)
  · rcases h.aside.state t ht with hst | ⟨hst, hw⟩
    · rw [Sched.lost_of_terminated ht hst]
      exact .inl rfl
    · rw [Sched.lost_of_ne (by simp [hst])]
      exact .inr ⟨hst, hw⟩
  · rw [Sched.lost_next] at hu
    exact h.links t u ht hu

theorem SystemInv.setTcb (h : SystemInv cfg k s Q) (m' : Tcbs α) :
    (k.setTcb m').sched = { s with tcb := m' } := by
  unfold Kernel.setTcb
  rw [h.sched]
  rfl

/-- An operation that only writes to an object. -/
theorem SystemInv.objects (h : SystemInv cfg k s Q) (hsched : k'.sched = k.sched)
    (hpc : k'.pc = k.pc) (hheads : ∀ t, k'.HeadOf t → k.waiting t = true)
    (howners : MutexOwners cfg s k') : SystemInv cfg k' s Q := by
  have hw : k'.waiting = k.waiting := by
    funext t
    unfold Kernel.waiting
    rw [hpc]
  refine ⟨?_, h.resting, ?_, ?_, ?_, ?_, ?_, ?_, howners⟩
  · rw [hsched, hw]
    exact h.sched
  · rw [hw]
    exact h.aside
  · rw [hpc]
    exact h.active
  · rw [hpc]
    exact h.boot
  · rw [hw]
    exact h.own
  · rw [hw]
    exact hheads
  · rw [hw]
    exact h.links

theorem Stepped.objects {k₁ : Kernel α} (h : Stepped cfg k k₁ s s' Q)
    (hsched : k'.sched = k₁.sched) (hpc : k'.pc = k₁.pc)
    (hheads : ∀ t, k'.HeadOf t → k₁.waiting t = true) (howners : MutexOwners cfg s' k') :
    Stepped cfg k k' s s' Q := by
  refine ⟨h.inv.objects hsched hpc hheads howners, h.ticks, h.table, h.stays, fun t ht hb => ?_⟩
  obtain ⟨ht', hkept⟩ := h.asleep t ht hb
  refine ⟨?_, hkept⟩
  unfold Kernel.waiting at ht' ⊢
  rwa [hpc]

end

section
variable [DecidableEq α] {cfg : SchedConfig α} {k k' : Kernel α} {s s' : Sched α} {Q : ℕ → List α}

omit [DecidableEq α] in
/-- An operation that no task goes to `task_yield` in. -/
theorem SystemInv.rewritten (h : SystemInv cfg k s Q) {m' : Tcbs α}
    (hout : ∀ t, k.waiting t = false → KeptOutside cfg s m' t)
    (hin : ∀ t, k.waiting t = true → Inside cfg k.waiting m' t) :
    ∃ s', Stepped cfg k (k.setTcb m') s s' Q :=
  h.turned (h.setTcb m') (fun _ => .inl rfl) hout hin h.heads h.owners

/-- Setting the priority of a task that is on no ready list. -/
theorem SystemInv.setPriority (h : SystemInv cfg k s Q) {o : α} {p : ℕ} (ho : o ∈ s.taskTable)
    (hoi : o ≠ cfg.idleTcb)
    (hon : p = (k.sched.tcb o).priority ∨ ∀ q, ¬ OnReadyList k.sched q o)
    (hp : p < cfg.maxPriority) :
    ∃ s', Stepped cfg k (k.setTcb (k.sched.tcb.modify o fun t => { t with priority := p })) s s'
      Q := by
  rcases hon with rfl | hon
  · have hsame : k.sched.tcb.modify o (fun t => { t with priority := (k.sched.tcb o).priority }) =
        k.sched.tcb := Function.update_eq_self ..
    rw [hsame]
    exact ⟨s, .refl h⟩
  obtain ⟨m', hm'⟩ : ∃ m', m' = k.sched.tcb.modify o fun t => { t with priority := p } := ⟨_, rfl⟩
  have hself : m' o = { k.sched.tcb o with priority := p } := by
    rw [hm']
    exact Lib.Store.modify_self ..
  have hne : ∀ t, t ≠ o → m' t = k.sched.tcb t := by
    intro t hto
    rw [hm']
    exact Lib.Store.modify_of_ne _ hto _
  rw [← hm']
  refine h.rewritten (fun t ht => ?_) fun t ht => ?_
  · by_cases hto : t = o
    · subst hto
      refine .inr ⟨ho, hoi, fun q hq => hon q ?_, p, hp, ?_⟩
      · rw [h.sched]
        exact Sched.onReadyList_lost.2 hq
      · rw [hself, h.outside ht]
    · exact .inl ((hne t hto).trans (h.outside ht))
  · have hin := h.inside ht
    by_cases hto : t = o
    · subst hto
      refine ⟨?_, ?_, ?_⟩
      · rw [hself]
        exact hp
      · rw [hself]
        exact hin.state
      · rw [hself]
        exact hin.links
    · refine ⟨?_, ?_, ?_⟩
      · rw [hne t hto]
        exact hin.priority
      · rw [hne t hto]
        exact hin.state
      · rw [hne t hto]
        exact hin.links

/-- What waking tasks does to the blocks, where `D` are the tasks in blocking calls. -/
structure Waking (D : α → Bool) (m m' : Tcbs α) : Prop where
  out : ∀ t, D t = false → m' t = m t
  priority : ∀ t, (m' t).priority = (m t).priority
  state : ∀ t, (m' t).state = .ready ∨
    ((m' t).state = (m t).state ∧ (m' t).waitObj = (m t).waitObj)
  links : ∀ t u, (m' t).next = some u → (m t).next = some u

omit [DecidableEq α] in
theorem Waking.refl (D : α → Bool) (m : Tcbs α) : Waking D m m :=
  ⟨fun _ _ => rfl, fun _ => rfl, fun _ => .inr ⟨rfl, rfl⟩, fun _ _ hu => hu⟩

omit [DecidableEq α] in
theorem Waking.trans {D : α → Bool} {m m' m'' : Tcbs α} (h : Waking D m m')
    (h' : Waking D m' m'') : Waking D m m'' := by
  refine ⟨fun t ht => (h'.out t ht).trans (h.out t ht),
    fun t => (h'.priority t).trans (h.priority t), fun t => ?_,
    fun t u hu => h.links t u (h'.links t u hu)⟩
  rcases h'.state t with hr | ⟨hst, hw⟩
  · exact .inl hr
  · rw [hst, hw]
    exact h.state t

/-- **Waking the first task** of a wait list of tasks in blocking calls. -/
theorem wakeFirst_waking {D : α → Bool} {m : Tcbs α} {list : Option α}
    (hlist : ∀ t, list = some t → D t = true)
    (hlinks : ∀ t u, D t = true → (m t).next = some u → D u = true) :
    Waking D m (wakeFirst m list).1 ∧ ∀ t, (wakeFirst m list).2.1 = some t → D t = true := by
  cases list with
  | none =>
    refine ⟨.refl D m, fun t ht => ?_⟩
    cases ht
  | some w =>
    have hw := hlist w rfl
    refine ⟨⟨fun t ht => wakeFirst_of_ne ?_ fun hn => ?_, fun t => wakeFirst_priority, fun t => ?_,
      fun t u hu => ?_⟩, fun t ht => hlinks w t hw ht⟩
    · rintro rfl
      rw [hw] at ht
      cases ht
    · rw [hlinks w t hw hn] at ht
      cases ht
    · simp only [wakeFirst, waitListRemoveFirst, Lib.Store.modifyAt_some]
      by_cases htw : t = w
      · subst htw
        exact .inl (by simp)
      · refine .inr ?_
        rw [Lib.Store.modify_of_ne _ htw, Lib.Store.modify_of_ne _ htw]
        constructor
        · refine m.modifyAt_field Tcb.state _ ?_ t
          intro c
          rfl
        · refine m.modifyAt_field Tcb.waitObj _ ?_ t
          intro c
          rfl
    · by_cases htw : t = w
      · subst htw
        simp [wakeFirst, waitListRemoveFirst] at hu
      · simp only [wakeFirst, waitListRemoveFirst, Lib.Store.modifyAt_some] at hu
        rw [Lib.Store.modify_of_ne _ htw, Lib.Store.modify_of_ne _ htw] at hu
        refine Eq.trans (Eq.symm ?_) hu
        refine m.modifyAt_field Tcb.next _ ?_ t
        intro c
        rfl

omit [DecidableEq α] in
/-- **Waking tasks.** -/
theorem SystemInv.waking (h : SystemInv cfg k s Q) {m' : Tcbs α}
    (hw : Waking k.waiting k.sched.tcb m') : ∃ s', Stepped cfg k (k.setTcb m') s s' Q := by
  refine h.rewritten (fun t ht => .inl ((hw.out t ht).trans (h.outside ht))) fun t ht => ?_
  have hin := h.inside ht
  refine ⟨?_, ?_, fun u hu => hin.links u (hw.links t u hu)⟩
  · rw [hw.priority]
    exact hin.priority
  · rcases hw.state t with hr | ⟨hst, hwo⟩
    · exact .inl hr
    · rw [hst, hwo]
      exact hin.state

/-- Putting the caller `c` to sleep on a wait list, before its `task_yield`. -/
def Kernel.block (k : Kernel α) (list : Option α) (obj : WaitObj) (c : α) (call : BlockingCall) :
    Kernel α :=
  { k.setTcb (blockOn k.sched.tcb list obj c).1 with pc := Function.update k.pc c (.yield call) }

/-- The caller is the head of the list that it waits on. -/
theorem Kernel.block_head {list : Option α} {obj : WaitObj} {c t : α} {call : BlockingCall}
    (ht : some c = some t) : (k.block list obj c call).waiting t = true := by
  obtain rfl := Option.some.inj ht
  exact Kernel.waiting_yield (Function.update_self ..)

theorem Kernel.block_waiting (list : Option α) (obj : WaitObj) (c : α) (call : BlockingCall)
    (t : α) : (k.block list obj c call).waiting t = if t = c then true else k.waiting t := by
  unfold Kernel.block Kernel.waiting
  by_cases htc : t = c
  · simp [htc]
  · simp [htc]

/-- What `blockOn` does to the other tasks, and to the caller. -/
theorem blockOn_fields {m : Tcbs α} {list : Option α} (obj : WaitObj) {c : α}
    (hlist : list ≠ some c) (t : α) :
    (t = c → ((blockOn m list obj c).1 t).state = .blocked ∧
      ((blockOn m list obj c).1 t).waitObj = some obj ∧
      ((blockOn m list obj c).1 t).next = list) ∧
    (t ≠ c → ((blockOn m list obj c).1 t).state = (m t).state ∧
      ((blockOn m list obj c).1 t).waitObj = (m t).waitObj ∧
      ((blockOn m list obj c).1 t).next = (m t).next) := by
  simp only [blockOn, waitListAdd]
  constructor
  · rintro rfl
    rw [Lib.Store.modifyAt_of_ne _ hlist]
    simp
  · intro htc
    refine ⟨?_, ?_, ?_⟩
    · refine (Lib.Store.modifyAt_field Tcb.state _ _ ?_ t).trans (by simp [htc])
      intro b
      rfl
    · refine (Lib.Store.modifyAt_field Tcb.waitObj _ _ ?_ t).trans (by simp [htc])
      intro b
      rfl
    · refine (Lib.Store.modifyAt_field Tcb.next _ _ ?_ t).trans (by simp [htc])
      intro b
      rfl

/-- **The caller goes to sleep** on a wait list of tasks in blocking calls. -/
theorem SystemInv.block (h : SystemInv cfg k s Q) {c : α} (hcur : k.sched.currentTask = some c)
    (hci : c ≠ cfg.idleTcb) (hown : k.pc c = .own) (hrun : (k.sched.tcb c).state = .running)
    {list : Option α} (hlist : ∀ t, list = some t → k.waiting t = true) (obj : WaitObj)
    (call : BlockingCall) : ∃ s', Stepped cfg k (k.block list obj c call) s s' Q := by
  have hwc := Kernel.waiting_own hown
  have hc : s.currentTask = some c := by
    rw [h.sched] at hcur
    exact hcur
  have hst : (s.tcb c).state = .running := by rw [← h.outside hwc, hrun]
  have hlc : list ≠ some c := by
    intro he
    rw [hlist c he] at hwc
    cases hwc
  have hw := k.block_waiting list obj c call
  have hmono : ∀ t, k.waiting t = true → (k.block list obj c call).waiting t = true := by
    intro t ht
    rw [hw]
    split
    · rfl
    · exact ht
  have hprio : ∀ t, ((blockOn k.sched.tcb list obj c).1 t).priority = (k.sched.tcb t).priority :=
    fun t => blockOn_priority
  refine h.turned (h.setTcb _) (fun t => ?_) (fun t ht => .inl ?_) (fun t ht => ?_)
    (fun t ht => hmono t (h.heads t ht)) h.owners
  · by_cases htc : t = c
    · subst htc
      exact .inr ⟨hc, hwc, hst, hci, call, Function.update_self ..⟩
    · exact .inl (Function.update_of_ne htc ..)
  · rw [hw] at ht
    split at ht
    · cases ht
    · rename_i htc
      refine (blockOn_of_ne obj htc fun he => ?_).trans (h.outside ht)
      rw [hlist t he] at ht
      cases ht
  · obtain ⟨hself, hother⟩ := blockOn_fields (m := k.sched.tcb) obj hlc t
    by_cases htc : t = c
    · obtain ⟨hb, hwo, hn⟩ := hself htc
      have hp : ((blockOn k.sched.tcb list obj c).1 t).priority < cfg.maxPriority := by
        rw [hprio, htc, h.outside hwc]
        exact h.resting.prio c ((h.resting.current c hc).resolve_right hci)
      refine ⟨hp, .inr ⟨hb, ?_⟩, fun u hu => hmono u (hlist u ?_)⟩
      · intro he
        cases hwo.symm.trans he
      · exact hn.symm.trans hu
    · have ht' : k.waiting t = true := by
        rw [hw, if_neg htc] at ht
        exact ht
      have hin := h.inside ht'
      obtain ⟨hb, hwo, hn⟩ := hother htc
      have hp : ((blockOn k.sched.tcb list obj c).1 t).priority < cfg.maxPriority := by
        rw [hprio]
        exact hin.priority
      refine ⟨hp, ?_, fun u hu => hmono u (hin.links u ?_)⟩
      · have hs := hin.state
        rw [← hb, ← hwo] at hs
        exact hs
      · exact hn.symm.trans hu

end

end Gracemont
