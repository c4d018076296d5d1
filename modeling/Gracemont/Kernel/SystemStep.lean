/-
  Gracemont kernel — the operations keep the invariant of the system (ARM64).

  * `SystemSafe`: the operations that do not run into a ready list that is broken;
  * `SystemInv.semPost` and so on, one lemma for each operation, and `SystemInv.step`;
  * `SystemInv.schedulerTick`: the tick, which wakes the tasks whose sleep is over.
-/
import Gracemont.Kernel.SystemInv

namespace Gracemont

variable {α : Type}

/-! ## The condition -/

/-- The first turn of the call ends at `task_yield`. -/
def BlockingCall.Blocks (k : Kernel α) (c : α) : BlockingCall → Prop
  | .semWait i => (k.sem i).count ≤ 0
  | .mutexLock i => ∃ o, (k.mutex i).owner = some o ∧ o ≠ c
  | .eventWait i cond => ¬ ((cond.waitAll ∧ (k.event i).flags &&& cond.mask = cond.mask) ∨
      (¬ cond.waitAll ∧ (k.event i).flags &&& cond.mask ≠ 0))
  | .msgqSend i _ timeout => (k.msgq i).capacity ≤ (k.msgq i).count ∧ timeout ≠ 0
  | .msgqRecv i _ timeout => (k.msgq i).count = 0 ∧ timeout ≠ 0

/-- The operations in which no task that is on a ready list goes to sleep, terminates
    or has its priority set, and no requeued idle task is picked; and `task_create` is
    not given a block that is in use. -/
def SystemSafe [DecidableEq α] (cfg : SchedConfig α) (k : Kernel α) : KernelOp α → Prop
  | .sched (.taskCreate tcb entry priority stack) => ∀ t, tcb = some t → entry ≠ none →
    stack ≠ none → priority < cfg.maxPriority → k.sched.taskTable.length < cfg.maxTasks →
    t ∈ k.sched.taskTable → (k.sched.tcb t).state = .suspended ∨ (k.sched.tcb t).state = .terminated
  | .sched .taskYield => ∀ c, k.sched.currentTask = some c →
    X86.IdleLast cfg k.sched fun t => t = c ∧ (k.sched.tcb c).state = .running
  | .sched (.taskSleep _) | .sched .taskTerminate =>
    (∀ c, k.sched.currentTask = some c → (k.sched.tcb c).state = .running) ∧
      X86.IdleLast cfg k.sched fun _ => False
  | .sched .schedulerTick => ∀ c, k.sched.currentTask = some c → c ≠ cfg.idleTcb →
    (k.sched.tcb c).remainingSlice = 1 → X86.IdleLast cfg k.sched fun t =>
      Due cfg k.sched t ∨ (t = c ∧ (k.sched.tcb c).state = .running)
  | .yield => X86.IdleLast cfg k.sched fun _ => False
  | .call call => ∀ c, k.caller cfg = some c → call.Blocks k c →
    (k.sched.tcb c).state = .running ∧ ∀ i o, call = .mutexLock i → (k.mutex i).owner = some o →
      (k.sched.tcb o).priority < (k.sched.tcb c).priority → ∀ p, ¬ OnReadyList k.sched p o
  | .mutexUnlock i => ∀ c, k.caller cfg = some c → (k.mutex i).owner = some c →
    (k.mutex i).lockCount = 1 → (k.mutex i).origPriority = (k.sched.tcb c).priority ∨
      ∀ p, ¬ OnReadyList k.sched p c
  | _ => True

/-! ## The operations -/

section
variable {cfg : SchedConfig α} {k k' : Kernel α} {s s' : Sched α} {Q Q' : ℕ → List α} {i : ℕ}

variable (k) in
/-- The first tasks of the wait lists after an operation on a semaphore. -/
theorem headOf_sem {sem : Semaphore α} {t : α} (h : k'.HeadOf t)
    (hs : k'.sem = Function.update k.sem i sem) (hm : k'.mutex = k.mutex)
    (he : k'.event = k.event) (hq : k'.msgq = k.msgq) : k.HeadOf t ∨ sem.waitList = some t := by
  obtain ⟨j, hj⟩ := h
  rw [hm, he, hq, hs] at hj
  by_cases hji : j = i
  · subst hji
    rw [Function.update_self] at hj
    rcases hj with hj | hj
    · exact .inr hj
    · exact .inl ⟨j, .inr hj⟩
  · rw [Function.update_of_ne hji] at hj
    exact .inl ⟨j, hj⟩

variable (k) in
theorem headOf_mutex {mutex : Mutex α} {t : α} (h : k'.HeadOf t) (hs : k'.sem = k.sem)
    (hm : k'.mutex = Function.update k.mutex i mutex) (he : k'.event = k.event)
    (hq : k'.msgq = k.msgq) : k.HeadOf t ∨ mutex.waitList = some t := by
  obtain ⟨j, hj⟩ := h
  rw [hs, he, hq, hm] at hj
  by_cases hji : j = i
  · subst hji
    rw [Function.update_self] at hj
    rcases hj with hj | hj | hj
    · exact .inl ⟨j, .inl hj⟩
    · exact .inr hj
    · exact .inl ⟨j, .inr (.inr hj)⟩
  · rw [Function.update_of_ne hji] at hj
    exact .inl ⟨j, hj⟩

variable (k) in
theorem headOf_event {event : Event α} {t : α} (h : k'.HeadOf t) (hs : k'.sem = k.sem)
    (hm : k'.mutex = k.mutex) (he : k'.event = Function.update k.event i event)
    (hq : k'.msgq = k.msgq) : k.HeadOf t ∨ event.waitList = some t := by
  obtain ⟨j, hj⟩ := h
  rw [hs, hm, hq, he] at hj
  by_cases hji : j = i
  · subst hji
    rw [Function.update_self] at hj
    rcases hj with hj | hj | hj | hj
    · exact .inl ⟨j, .inl hj⟩
    · exact .inl ⟨j, .inr (.inl hj)⟩
    · exact .inr hj
    · exact .inl ⟨j, .inr (.inr (.inr hj))⟩
  · rw [Function.update_of_ne hji] at hj
    exact .inl ⟨j, hj⟩

variable (k) in
theorem headOf_msgq {mq : Msgqueue α} {t : α} (h : k'.HeadOf t) (hs : k'.sem = k.sem)
    (hm : k'.mutex = k.mutex) (he : k'.event = k.event)
    (hq : k'.msgq = Function.update k.msgq i mq) :
    k.HeadOf t ∨ mq.sendWait = some t ∨ mq.recvWait = some t := by
  obtain ⟨j, hj⟩ := h
  rw [hs, hm, he, hq] at hj
  by_cases hji : j = i
  · subst hji
    rw [Function.update_self] at hj
    rcases hj with hj | hj | hj | hj
    · exact .inl ⟨j, .inl hj⟩
    · exact .inl ⟨j, .inr (.inl hj)⟩
    · exact .inl ⟨j, .inr (.inr (.inl hj))⟩
    · exact .inr hj
  · rw [Function.update_of_ne hji] at hj
    exact .inl ⟨j, hj⟩

/-- The owners of the mutexes after an operation on one of them. -/
theorem MutexOwners.update {mutex : Mutex α} (h : MutexOwners cfg s k)
    (hm : k'.mutex = Function.update k.mutex i mutex)
    (hi : ∀ o, mutex.owner = some o → o ∈ s.taskTable ∧ o ≠ cfg.idleTcb ∧
      mutex.origPriority < cfg.maxPriority) : MutexOwners cfg s k' := by
  intro j o ho
  rw [hm] at ho ⊢
  by_cases hji : j = i
  · subst hji
    rw [Function.update_self] at ho ⊢
    exact hi o ho
  · rw [Function.update_of_ne hji] at ho ⊢
    exact h j o ho

/-- The `task_yield` of a blocking call is behind the caller. -/
theorem Stepped.resumed [DecidableEq α] (h : Stepped cfg k k' s s' Q') {c : α}
    {call : BlockingCall} (hpc : k'.pc c = .yield call) (hc : s'.currentTask ≠ some c) :
    Stepped cfg k { k' with pc := Function.update k'.pc c (.resume call) } s s' Q' := by
  have hw : Kernel.waiting { k' with pc := Function.update k'.pc c (.resume call) } =
      k'.waiting := by
    funext t
    unfold Kernel.waiting
    by_cases htc : t = c
    · subst htc
      simp [hpc]
    · simp [htc]
  have hi := h.inv
  refine ⟨⟨?_, hi.resting, ?_, fun c' hc' => ?_, fun hn => ?_, ?_, ?_, ?_, hi.owners⟩, h.ticks,
    h.table, h.stays, ?_⟩
  · rw [hw]
    exact hi.sched
  · rw [hw]
    exact hi.aside
  · have hne : c' ≠ c := by
      rintro rfl
      exact hc hc'
    dsimp only
    rw [Function.update_of_ne hne]
    exact hi.active c' hc'
  · have hown := hi.boot hn c
    rw [hpc] at hown
    cases hown
  · rw [hw]
    exact hi.own
  · rw [hw]
    exact hi.heads
  · rw [hw]
    exact hi.links
  · rw [hw]
    exact h.asleep

/-- **A call of the scheduler** keeps the invariant. -/
theorem SystemInv.scheduled (h : SystemInv cfg k s Q) (hc : Called cfg s s' Q')
    (hkept : ∀ t, k.waiting t = true → Kept s.tcb s'.tcb t) :
    SystemInv cfg { k with sched := s'.lost k.waiting } s' Q' := by
  have hside : Aside cfg k.waiting s' := h.aside.keep hc.table hkept
  refine ⟨rfl, hc.resting, hside, fun c hcur => ?_, fun hn => ?_, fun t ht => ?_, h.heads,
    fun t u ht hu => ?_, fun i o ho => ?_⟩
  · rcases hc.goesOn c hcur with hr | ⟨hcur', hor⟩
    · exact .inr ⟨Kernel.own_of_not (hside.not_of_running hr), .inl hr⟩
    · refine (h.active c hcur').imp_right fun ⟨hown, hst⟩ => ⟨hown, ?_⟩
      rcases hor with hsame | ⟨-, hr⟩
      · rw [hsame]
        exact hst
      · exact .inr hr
  · refine h.boot ?_
    by_contra hne
    exact hc.stays hne hn
  · exact (hc.waitObj t).trans (h.own t ht)
  · rw [(hkept t ht).next] at hu
    exact h.links t u ht hu
  · obtain ⟨ho, hoi, hp⟩ := h.owners i o ho
    exact ⟨hc.table o ho, hoi, hp⟩

theorem SystemInv.off (h : SystemInv cfg k s Q) {t : α}
    (ht : k.waiting t = true ∨ (s.tcb t).state = .blocked) : Off s.tcb t := by
  rcases ht with ht | hb
  · exact h.aside.off ht
  · simp [Off, hb]

/-- A call that leaves the tasks alone that are neither ready nor running. -/
theorem SystemInv.called (h : SystemInv cfg k s Q) (hc : Called cfg s s' Q')
    (hticks : s'.systemTicks = s.systemTicks)
    (hapart : ∀ t, Off s.tcb t → k.waiting t = true ∨ (s.tcb t).state = .blocked →
      s'.tcb t = s.tcb t) :
    Stepped cfg k { k with sched := s'.lost k.waiting } s s' Q' := by
  have hkept : ∀ t, k.waiting t = true ∨ (s.tcb t).state = .blocked → Kept s.tcb s'.tcb t :=
    fun t ht => .of_eq (hapart t (h.off ht) ht)
  exact ⟨h.scheduled hc fun t ht => hkept t (.inl ht), hticks, hc.table, hc.stays,
    fun t ht hb => ⟨ht, hkept t (.inr hb)⟩⟩

theorem SystemInv.currentTask (h : SystemInv cfg k s Q) : k.sched.currentTask = s.currentTask :=
  h.sched ▸ rfl

end

section
variable [DecidableEq α] {cfg : SchedConfig α} {k k' : Kernel α} {s s' : Sched α}
  {Q Q' : ℕ → List α} {fuel i : ℕ} {woken : List α} {c : α}

theorem SystemInv.caller (h : SystemInv cfg k s Q) (hc : k.caller cfg = some c) :
    k.sched.currentTask = some c ∧ c ≠ cfg.idleTcb ∧ c ∈ s.taskTable := by
  obtain ⟨hcur, hci⟩ := Option.filter_eq_some_iff.1 hc
  have hci' : c ≠ cfg.idleTcb := by simpa using hci
  exact ⟨hcur, hci', (h.resting.current c (h.currentTask.symm.trans hcur)).resolve_right hci'⟩

/-- **Waking the first task** of a wait list. -/
theorem SystemInv.wakes (h : SystemInv cfg k s Q) {list : Option α}
    (hlist : ∀ t, list = some t → k.waiting t = true) :
    ∃ s', Stepped cfg k (k.setTcb (wakeFirst k.sched.tcb list).1) s s' Q ∧
      ∀ t, (wakeFirst k.sched.tcb list).2.1 = some t → k.waiting t = true := by
  obtain ⟨hw, hlist'⟩ := wakeFirst_waking hlist fun t u ht => (h.inside ht).links u
  obtain ⟨s', hs'⟩ := h.waking hw
  exact ⟨s', hs', hlist'⟩

/-- The loop of `event_set`. -/
theorem eventWake_waking {D : α → Bool} {m m' : Tcbs α} {list list' : Option α}
    {woken' : List α}
    (h : Lib.Loop.run eventWakeBody fuel (m, list, woken) = some (m', list', woken'))
    (hlist : ∀ t, list = some t → D t = true)
    (hlinks : ∀ t u, D t = true → (m t).next = some u → D u = true) :
    Waking D m m' ∧ ∀ t, list' = some t → D t = true := by
  induction fuel generalizing m list woken with
  | zero => cases h
  | succ fuel ih =>
    obtain ⟨hw, hlist₁⟩ := wakeFirst_waking hlist hlinks
    cases list with
    | none =>
      cases h
      exact ⟨.refl D m, hlist⟩
    | some t =>
      obtain ⟨hw', hlist'⟩ := ih h hlist₁ fun t u ht hu => hlinks t u ht (hw.links t u hu)
      exact ⟨hw.trans hw', hlist'⟩

/-- **`sem_post`.** -/
theorem SystemInv.semPost (h : SystemInv cfg k s Q)
    (hs : kernelStep cfg fuel k (.semPost i) = some (k', woken)) :
    ∃ s', Stepped cfg k k' s s' Q := by
  obtain ⟨rfl, -⟩ := Prod.mk.inj (Option.some.inj hs)
  obtain ⟨s', hs', hlist⟩ := h.wakes fun t ht => h.heads t ⟨i, .inl ht⟩
  refine ⟨s', hs'.objects rfl rfl (fun t ht => ?_) hs'.inv.owners⟩
  have hor : k.HeadOf t ∨ (wakeFirst k.sched.tcb (k.sem i).waitList).2.1 = some t :=
    headOf_sem k ht rfl rfl rfl rfl
  exact hor.elim (h.heads t) (hlist t)

/-- **`event_set`.** -/
theorem SystemInv.eventSet (h : SystemInv cfg k s Q) {mask : BitVec 32}
    (hs : kernelStep cfg fuel k (.eventSet i mask) = some (k', woken)) :
    ∃ s', Stepped cfg k k' s s' Q := by
  obtain ⟨⟨m, event, woken₁⟩, he, hs⟩ := Option.bind_eq_some_iff.1 hs
  obtain ⟨⟨m, list, woken₁⟩, hr, he⟩ := Option.bind_eq_some_iff.1 he
  cases he
  cases hs
  obtain ⟨hw, hlist⟩ := eventWake_waking hr (fun t ht => h.heads t ⟨i, .inr (.inr (.inl ht))⟩)
    fun t u ht => (h.inside ht).links u
  obtain ⟨s', hs'⟩ := h.waking hw
  refine ⟨s', hs'.objects rfl rfl (fun t ht => ?_) hs'.inv.owners⟩
  have hor : k.HeadOf t ∨ list = some t := headOf_event k ht rfl rfl rfl rfl
  exact hor.elim (h.heads t) (hlist t)

/-- **`mutex_unlock`.** -/
theorem SystemInv.mutexUnlock (h : SystemInv cfg k s Q) (hsafe : SystemSafe cfg k (.mutexUnlock i))
    (hs : kernelStep cfg fuel k (.mutexUnlock i) = some (k', woken)) :
    ∃ s', Stepped cfg k k' s s' Q := by
  obtain ⟨c, hc, hs⟩ := Option.bind_eq_some_iff.1 hs
  obtain ⟨hcur, hci, hct⟩ := h.caller hc
  obtain ⟨r, hu⟩ : ∃ r, Gracemont.mutexUnlock k.sched.tcb (k.mutex i) c = r := ⟨_, rfl⟩
  have hk : { k with mutex := Function.update k.mutex i r.2.1 }.setTcb r.1 = k' := by
    subst hu
    exact (Prod.mk.inj (Option.some.inj hs)).1
  subst hk
  unfold Gracemont.mutexUnlock at hu
  have hhead : ∀ t, (k.mutex i).waitList = some t → k.waiting t = true := fun t ht =>
    h.heads t ⟨i, .inr (.inl ht)⟩
  have hlast : 0 < (k.mutex i).lockCount - 1 ↔ (k.mutex i).lockCount ≠ 1 := by bv_omega
  simp only [hlast] at hu
  split_ifs at hu with ho hl
  · subst hu
    refine ⟨s, (Stepped.refl h).objects rfl rfl (fun t ht => ?_) (h.owners.update rfl (h.owners i))⟩
    have hor := headOf_mutex k ht rfl rfl rfl rfl
    exact hor.elim (h.heads t) (hhead t)
  · subst hu
    refine ⟨s, (Stepped.refl h).objects rfl rfl (fun t ht => ?_) (h.owners.update rfl (h.owners i))⟩
    have hor := headOf_mutex k ht rfl rfl rfl rfl
    exact hor.elim (h.heads t) (hhead t)
  · -- the priority is restored, then the first task is woken
    obtain ⟨-, -, hp⟩ := h.owners i c (not_not.1 ho)
    obtain ⟨s₁, h₁⟩ := h.setPriority hct hci (hsafe c hc (not_not.1 ho) (not_not.1 hl)) hp
    obtain ⟨s', h', hlist⟩ := h₁.inv.wakes hhead
    subst hu
    refine ⟨s', (h₁.trans h').objects rfl rfl (fun t ht => ?_) (h'.inv.owners.update rfl ?_)⟩
    · have hor := headOf_mutex k ht rfl rfl rfl rfl
      exact hor.elim (h.heads t) (hlist t)
    · intro o hn
      cases hn

/-- **`sem_wait`.** -/
theorem SystemInv.semWait (h : SystemInv cfg k s Q) (hc : k.caller cfg = some c)
    (hown : k.pc c = .own)
    (hrun : (BlockingCall.semWait i).Blocks k c → (k.sched.tcb c).state = .running)
    (ht : turn k c true (.semWait i) = (k', woken)) : ∃ s', Stepped cfg k k' s s' Q := by
  obtain ⟨hcur, hci, hct⟩ := h.caller hc
  obtain ⟨r, hr⟩ : ∃ r, Gracemont.semWait (.sem i) k.sched.tcb (k.sem i) c = r := ⟨_, rfl⟩
  have hk : ({ k with sem := Function.update k.sem i r.2.1 }.setTcb r.1).setPc c (.semWait i)
      r.2.2 = k' := by
    subst hr
    exact (Prod.mk.inj ht).1
  subst hk
  have hhead : ∀ t, (k.sem i).waitList = some t → k.waiting t = true := fun t ht =>
    h.heads t ⟨i, .inl ht⟩
  unfold Gracemont.semWait at hr
  split_ifs at hr with hcount
  · obtain ⟨s', hs'⟩ := h.block hcur hci hown (hrun hcount) hhead (.sem i) (.semWait i)
    subst hr
    refine ⟨s', hs'.objects rfl rfl (fun t ht => ?_) hs'.inv.owners⟩
    rcases headOf_sem (k.block (k.sem i).waitList (.sem i) c (.semWait i)) ht rfl rfl rfl rfl with
      ht | ht
    · exact hs'.inv.heads t ht
    · exact Kernel.block_head ht
  · subst hr
    refine ⟨s, (Stepped.refl h).objects rfl ?_ (fun t ht => ?_) h.owners⟩
    · exact k.setPc_own hown
    · exact (headOf_sem k ht rfl rfl rfl rfl).elim (h.heads t) (hhead t)

/-- **`mutex_lock`.** -/
theorem SystemInv.mutexLock (h : SystemInv cfg k s Q) (hc : k.caller cfg = some c)
    (hown : k.pc c = .own)
    (hrun : (BlockingCall.mutexLock i).Blocks k c → (k.sched.tcb c).state = .running ∧
      ∀ o, (k.mutex i).owner = some o → (k.sched.tcb o).priority < (k.sched.tcb c).priority →
        ∀ p, ¬ OnReadyList k.sched p o)
    (ht : turn k c true (.mutexLock i) = (k', woken)) : ∃ s', Stepped cfg k k' s s' Q := by
  obtain ⟨hcur, hci, hct⟩ := h.caller hc
  obtain ⟨r, hr⟩ : ∃ r, Gracemont.mutexLock (.mutex i) k.sched.tcb (k.mutex i) c = r := ⟨_, rfl⟩
  have hk : ({ k with mutex := Function.update k.mutex i r.2.1 }.setTcb r.1).setPc c
      (.mutexLock i) r.2.2 = k' := by
    subst hr
    exact (Prod.mk.inj ht).1
  subst hk
  have hhead : ∀ t, (k.mutex i).waitList = some t → k.waiting t = true := fun t ht =>
    h.heads t ⟨i, .inr (.inl ht)⟩
  have hcp : (k.sched.tcb c).priority < cfg.maxPriority := by
    rw [h.outside (Kernel.waiting_own hown)]
    exact h.resting.prio c hct
  unfold Gracemont.mutexLock at hr
  split_ifs at hr with hrec
  · subst hr
    refine ⟨s, (Stepped.refl h).objects rfl (k.setPc_own hown) (fun t ht => ?_)
      (h.owners.update rfl (h.owners i))⟩
    exact (headOf_mutex k ht rfl rfl rfl rfl).elim (h.heads t) (hhead t)
  unfold mutexLockLoop at hr
  cases ho : (k.mutex i).owner with
  | none =>
    rw [ho] at hr
    subst hr
    refine ⟨s, (Stepped.refl h).objects rfl (k.setPc_own hown) (fun t ht => ?_)
      (h.owners.update rfl fun o he => ?_)⟩
    · exact (headOf_mutex k ht rfl rfl rfl rfl).elim (h.heads t) (hhead t)
    · obtain rfl := Option.some.inj he
      exact ⟨hct, hci, hcp⟩
  | some o =>
    rw [ho] at hr hrec
    obtain ⟨hst, hboost⟩ := hrun ⟨o, ho, fun he => hrec (he ▸ rfl)⟩
    obtain ⟨hot, hoi, -⟩ := h.owners i o ho
    -- the owner is boosted, then the caller goes to sleep
    obtain ⟨m, hm, s₁, h₁, hst₁⟩ : ∃ m, (if (k.sched.tcb o).priority < (k.sched.tcb c).priority
        then k.sched.tcb.modify o fun t => { t with priority := (k.sched.tcb c).priority }
        else k.sched.tcb) = m ∧ ∃ s₁, Stepped cfg k (k.setTcb m) s s₁ Q ∧
          (m c).state = .running := by
      by_cases hlt : (k.sched.tcb o).priority < (k.sched.tcb c).priority
      · obtain ⟨s₁, h₁⟩ := h.setPriority hot hoi (.inr (hboost o ho hlt)) hcp
        refine ⟨_, if_pos hlt, s₁, h₁, ?_⟩
        exact (Lib.Store.modify_field Tcb.state _ _ rfl c).trans hst
      · exact ⟨_, if_neg hlt, s, .refl h, hst⟩
    obtain ⟨s', h'⟩ := h₁.inv.block hcur hci hown hst₁ hhead (.mutex i) (.mutexLock i)
    simp only [hm] at hr
    subst hr
    refine ⟨s', (h₁.trans h').objects rfl rfl (fun t ht => ?_)
      (h'.inv.owners.update rfl fun o' he => ?_)⟩
    · rcases headOf_mutex ((k.setTcb m).block (k.mutex i).waitList (.mutex i) c (.mutexLock i)) ht
        rfl rfl rfl rfl with ht | ht
      · exact h'.inv.heads t ht
      · exact Kernel.block_head ht
    · exact h'.inv.owners i o' (ho.trans he)

/-- **`event_wait`.** -/
theorem SystemInv.eventWait (h : SystemInv cfg k s Q) (hc : k.caller cfg = some c)
    (hown : k.pc c = .own) {cond : EventCond}
    (hrun : (BlockingCall.eventWait i cond).Blocks k c → (k.sched.tcb c).state = .running)
    (ht : turn k c true (.eventWait i cond) = (k', woken)) : ∃ s', Stepped cfg k k' s s' Q := by
  obtain ⟨hcur, hci, hct⟩ := h.caller hc
  obtain ⟨r, hr⟩ : ∃ r, Gracemont.eventWait (.event i) k.sched.tcb (k.event i) c cond = r :=
    ⟨_, rfl⟩
  have hk : ({ k with event := Function.update k.event i r.2.1 }.setTcb r.1).setPc c
      (.eventWait i cond) r.2.2 = k' := by
    subst hr
    exact (Prod.mk.inj ht).1
  subst hk
  have hhead : ∀ t, (k.event i).waitList = some t → k.waiting t = true := fun t ht =>
    h.heads t ⟨i, .inr (.inr (.inl ht))⟩
  unfold Gracemont.eventWait at hr
  by_cases hmet : (cond.waitAll ∧ (k.event i).flags &&& cond.mask = cond.mask) ∨
      (¬ cond.waitAll ∧ (k.event i).flags &&& cond.mask ≠ 0)
  · simp only [if_pos hmet] at hr
    subst hr
    refine ⟨s, (Stepped.refl h).objects rfl (k.setPc_own hown) (fun t ht => ?_) h.owners⟩
    refine (headOf_event k ht rfl rfl rfl rfl).elim (h.heads t) fun ht => hhead t ?_
    split at ht
    · exact ht
    · exact ht
  · obtain ⟨s', hs'⟩ := h.block hcur hci hown (hrun hmet) hhead (.event i) (.eventWait i cond)
    simp only [if_neg hmet] at hr
    subst hr
    refine ⟨s', hs'.objects rfl rfl (fun t ht => ?_) hs'.inv.owners⟩
    rcases headOf_event (k.block (k.event i).waitList (.event i) c (.eventWait i cond)) ht
      rfl rfl rfl rfl with ht | ht
    · exact hs'.inv.heads t ht
    · exact Kernel.block_head ht

omit [DecidableEq α] in
/-- The first tasks of the two lists of a queue wait. -/
theorem SystemInv.msgq_heads (h : SystemInv cfg k s Q) (i : ℕ) :
    (∀ t, (k.msgq i).sendWait = some t → k.waiting t = true) ∧
      ∀ t, (k.msgq i).recvWait = some t → k.waiting t = true :=
  ⟨fun t ht => h.heads t ⟨i, .inr (.inr (.inr (.inl ht)))⟩,
    fun t ht => h.heads t ⟨i, .inr (.inr (.inr (.inr ht)))⟩⟩

/-- **`msgq_send`.** -/
theorem SystemInv.msgqSend (h : SystemInv cfg k s Q) (hc : k.caller cfg = some c)
    (hown : k.pc c = .own) {msg : ℕ → BitVec 8} {timeout : BitVec 32}
    (hrun : (BlockingCall.msgqSend i msg timeout).Blocks k c → (k.sched.tcb c).state = .running)
    (ht : turn k c true (.msgqSend i msg timeout) = (k', woken)) :
    ∃ s', Stepped cfg k k' s s' Q := by
  obtain ⟨hcur, hci, hct⟩ := h.caller hc
  obtain ⟨r, hr⟩ : ∃ r, Gracemont.msgqSend (.msgq i) k.sched.tcb (k.msgq i) c msg timeout = r :=
    ⟨_, rfl⟩
  have hk : ({ k with msgq := Function.update k.msgq i r.2.1 }.setTcb r.1).setPc c
      (.msgqSend i msg timeout) r.2.2.1 = k' := by
    subst hr
    exact (Prod.mk.inj ht).1
  subst hk
  obtain ⟨hsend, hrecv⟩ := h.msgq_heads i
  unfold Gracemont.msgqSend at hr
  split_ifs at hr with hfull htime
  · subst hr
    refine ⟨s, (Stepped.refl h).objects rfl (k.setPc_own hown) (fun t ht => ?_) h.owners⟩
    exact (headOf_msgq k ht rfl rfl rfl rfl).elim (h.heads t) fun ht => ht.elim (hsend t) (hrecv t)
  · obtain ⟨s', hs'⟩ := h.block hcur hci hown (hrun ⟨hfull, htime⟩) hsend (.msgq i)
      (.msgqSend i msg timeout)
    subst hr
    refine ⟨s', hs'.objects rfl rfl (fun t ht => ?_) hs'.inv.owners⟩
    rcases headOf_msgq (k.block (k.msgq i).sendWait (.msgq i) c (.msgqSend i msg timeout)) ht
      rfl rfl rfl rfl with ht | ht | ht
    · exact hs'.inv.heads t ht
    · exact Kernel.block_head ht
    · exact hs'.inv.heads t ⟨i, .inr (.inr (.inr (.inr ht)))⟩
  · obtain ⟨s', hs', hlist⟩ := h.wakes hrecv
    subst hr
    refine ⟨s', hs'.objects rfl (k.setPc_own hown) (fun t ht => ?_) hs'.inv.owners⟩
    exact (headOf_msgq k ht rfl rfl rfl rfl).elim (h.heads t) fun ht => ht.elim (hsend t) (hlist t)

/-- **`msgq_recv`.** -/
theorem SystemInv.msgqRecv (h : SystemInv cfg k s Q) (hc : k.caller cfg = some c)
    (hown : k.pc c = .own) {msg : ℕ → BitVec 8} {timeout : BitVec 32}
    (hrun : (BlockingCall.msgqRecv i msg timeout).Blocks k c → (k.sched.tcb c).state = .running)
    (ht : turn k c true (.msgqRecv i msg timeout) = (k', woken)) :
    ∃ s', Stepped cfg k k' s s' Q := by
  obtain ⟨hcur, hci, hct⟩ := h.caller hc
  obtain ⟨r, hr⟩ : ∃ r, Gracemont.msgqRecv (.msgq i) k.sched.tcb (k.msgq i) c msg timeout = r :=
    ⟨_, rfl⟩
  have hk : ({ k with msgq := Function.update k.msgq i r.2.1 }.setTcb r.1).setPc c
      (.msgqRecv i msg timeout) r.2.2.1 = k' := by
    subst hr
    exact (Prod.mk.inj ht).1
  subst hk
  obtain ⟨hsend, hrecv⟩ := h.msgq_heads i
  unfold Gracemont.msgqRecv at hr
  split_ifs at hr with hempty htime
  · subst hr
    refine ⟨s, (Stepped.refl h).objects rfl (k.setPc_own hown) (fun t ht => ?_) h.owners⟩
    exact (headOf_msgq k ht rfl rfl rfl rfl).elim (h.heads t) fun ht => ht.elim (hsend t) (hrecv t)
  · obtain ⟨s', hs'⟩ := h.block hcur hci hown (hrun ⟨hempty, htime⟩) hrecv (.msgq i)
      (.msgqRecv i msg timeout)
    subst hr
    refine ⟨s', hs'.objects rfl rfl (fun t ht => ?_) hs'.inv.owners⟩
    rcases headOf_msgq (k.block (k.msgq i).recvWait (.msgq i) c (.msgqRecv i msg timeout)) ht
      rfl rfl rfl rfl with ht | ht | ht
    · exact hs'.inv.heads t ht
    · exact hs'.inv.heads t ⟨i, .inr (.inr (.inr (.inl ht)))⟩
    · exact Kernel.block_head ht
  · obtain ⟨s', hs', hlist⟩ := h.wakes hsend
    subst hr
    refine ⟨s', hs'.objects rfl (k.setPc_own hown) (fun t ht => ?_) hs'.inv.owners⟩
    exact (headOf_msgq k ht rfl rfl rfl rfl).elim (h.heads t) fun ht => ht.elim (hlist t) (hrecv t)

/-- **A blocking call**, up to its `task_yield` or its return. -/
theorem SystemInv.call (h : SystemInv cfg k s Q) {call : BlockingCall}
    (hsafe : SystemSafe cfg k (.call call))
    (hs : kernelStep cfg fuel k (.call call) = some (k', woken)) :
    ∃ s', Stepped cfg k k' s s' Q := by
  obtain ⟨c, hc, hs⟩ := Option.bind_eq_some_iff.1 hs
  have hrun := hsafe c hc
  cases hown : k.pc c with
  | own =>
    simp only [hown] at hs
    have ht := Option.some.inj hs
    cases call with
    | semWait i => exact h.semWait hc hown (fun hb => (hrun hb).1) ht
    | mutexLock i =>
      exact h.mutexLock hc hown (fun hb => ⟨(hrun hb).1, fun o => (hrun hb).2 i o rfl⟩) ht
    | eventWait i cond => exact h.eventWait hc hown (fun hb => (hrun hb).1) ht
    | msgqSend i msg timeout => exact h.msgqSend hc hown (fun hb => (hrun hb).1) ht
    | msgqRecv i msg timeout => exact h.msgqRecv hc hown (fun hb => (hrun hb).1) ht
  | yield call' =>
    simp only [hown] at hs
    cases hs
  | resume call' =>
    simp only [hown] at hs
    cases hs

/-- **`sem_trywait`.** -/
theorem SystemInv.semTrywait (h : SystemInv cfg k s Q)
    (hs : kernelStep cfg fuel k (.semTrywait i) = some (k', woken)) : Stepped cfg k k' s s Q := by
  obtain ⟨r, hr⟩ : ∃ r, Gracemont.semTrywait (k.sem i) = r := ⟨_, rfl⟩
  have hk : { k with sem := Function.update k.sem i r.1 } = k' := by
    subst hr
    exact (Prod.mk.inj (Option.some.inj hs)).1
  subst hk
  have hlist : r.1.waitList = (k.sem i).waitList := by
    subst hr
    unfold Gracemont.semTrywait
    split
    · rfl
    · rfl
  refine (Stepped.refl h).objects rfl rfl (fun t ht => ?_) h.owners
  refine (headOf_sem k ht rfl rfl rfl rfl).elim (h.heads t) fun ht => h.heads t ⟨i, .inl ?_⟩
  exact hlist.symm.trans ht

/-- **`mutex_trylock`.** -/
theorem SystemInv.mutexTrylock (h : SystemInv cfg k s Q)
    (hs : kernelStep cfg fuel k (.mutexTrylock i) = some (k', woken)) :
    Stepped cfg k k' s s Q := by
  obtain ⟨c, hc, hs⟩ := Option.bind_eq_some_iff.1 hs
  obtain ⟨hcur, hci, hct⟩ := h.caller hc
  obtain ⟨r, hr⟩ : ∃ r, Gracemont.mutexTrylock k.sched.tcb (k.mutex i) c = r := ⟨_, rfl⟩
  have hk : { k with mutex := Function.update k.mutex i r.1 } = k' := by
    subst hr
    exact (Prod.mk.inj (Option.some.inj hs)).1
  subst hk
  have hcp : (k.sched.tcb c).priority < cfg.maxPriority := by
    rw [h.sched, Sched.lost_priority]
    exact h.resting.prio c hct
  obtain ⟨hlist, howner⟩ : r.1.waitList = (k.mutex i).waitList ∧ ∀ o, r.1.owner = some o →
      o ∈ s.taskTable ∧ o ≠ cfg.idleTcb ∧ r.1.origPriority < cfg.maxPriority := by
    subst hr
    unfold Gracemont.mutexTrylock
    split_ifs
    · refine ⟨rfl, fun o ho => ?_⟩
      obtain rfl := Option.some.inj ho
      exact ⟨hct, hci, hcp⟩
    · exact ⟨rfl, h.owners i⟩
    · exact ⟨rfl, h.owners i⟩
  refine (Stepped.refl h).objects rfl rfl (fun t ht => ?_) (h.owners.update rfl howner)
  refine (headOf_mutex k ht rfl rfl rfl rfl).elim (h.heads t) fun ht => ?_
  exact h.heads t ⟨i, .inr (.inl (hlist.symm.trans ht))⟩

/-- **`event_clear`.** -/
theorem SystemInv.eventClear (h : SystemInv cfg k s Q) {mask : BitVec 32}
    (hs : kernelStep cfg fuel k (.eventClear i mask) = some (k', woken)) :
    Stepped cfg k k' s s Q := by
  obtain ⟨rfl, -⟩ := Prod.mk.inj (Option.some.inj hs)
  refine (Stepped.refl h).objects rfl rfl (fun t ht => ?_) h.owners
  refine (headOf_event k ht rfl rfl rfl rfl).elim (h.heads t) fun ht => ?_
  exact h.heads t ⟨i, .inr (.inr (.inl ht))⟩

/-- What a call of the scheduler leaves of the rest of the kernel. -/
theorem kernelStep_sched {op : Op α}
    (hs : kernelStep cfg fuel k (.sched op) = some (k', woken)) :
    ∃ sched, step cfg k.sched op = some sched ∧ (op = .schedulerTick ∨ ∀ c,
        k.sched.currentTask = some c → k.pc c = .own) ∧
      (k' = { k with sched := sched } ∨ ∃ t entry priority stack,
        op = .taskCreate (some t) entry priority stack ∧
        (taskCreate cfg k.sched (some t) entry priority stack).2 = .ok ∧
        k' = { k with sched := sched, pc := Function.update k.pc t .own }) := by
  obtain ⟨sched, hstep, hs⟩ := Option.bind_eq_some_iff.1 hs
  refine ⟨sched, hstep, ?_⟩
  have hown : (∀ call, k.sched.currentTask.map k.pc ≠ some (.yield call)) →
      (∀ call, k.sched.currentTask.map k.pc ≠ some (.resume call)) →
      ∀ c, k.sched.currentTask = some c → k.pc c = .own := by
    intro hy hr c hc
    simp only [hc, Option.map_some] at hy hr
    cases hpc : k.pc c with
    | own => rfl
    | yield call => exact absurd (congrArg some hpc) (hy call)
    | resume call => exact absurd (congrArg some hpc) (hr call)
  split at hs
  · cases hs
    exact ⟨.inl rfl, .inl rfl⟩
  · cases hs
  · cases hs
  · rename_i t entry priority stack _ hy hr
    refine ⟨.inr (hown hy hr), ?_⟩
    split_ifs at hs with hok
    · cases hs
      exact .inr ⟨t, entry, priority, stack, rfl, hok, rfl⟩
    · cases hs
      exact .inl rfl
  · rename_i hy hr
    cases hs
    exact ⟨.inr (hown hy hr), .inl rfl⟩


/-- **`task_yield`.** -/
theorem SystemInv.taskYield (h : SystemInv cfg k s Q)
    (hsafe : SystemSafe cfg k (.sched .taskYield))
    (hs : kernelStep cfg fuel k (.sched .taskYield) = some (k', woken)) :
    ∃ s' Q', Stepped cfg k k' s s' Q' := by
  obtain ⟨sched, hstep, -, rfl | ⟨t, entry, priority, stack, hop, -⟩⟩ := kernelStep_sched hs
  swap
  · cases hop
  simp only [Gracemont.step] at hstep
  split_ifs at hstep with hci
  obtain ⟨c, hc, -⟩ := Option.bind_eq_some_iff.1 hstep
  have hcur : s.currentTask = some c := h.currentTask.symm.trans hc
  have hci' : c ≠ cfg.idleTcb := fun he => hci (he ▸ hc)
  have hct := (h.resting.current c hcur).resolve_right hci'
  have hidle := hsafe c hc
  rw [h.sched] at hidle hstep
  obtain ⟨s', Q', -, hl', hcalled, hticks, hapart⟩ :=
    h.resting.yield h.aside hcur (h.resting.prio c hct) fun h0 => by
      refine (h.resting.above (Sched.idleLast_lost hidle fun t ht => ht)
        (h0.resolve_right hci')).imp_right ?_
      rintro ⟨t, ⟨rfl, hr⟩, hpt⟩
      exact ⟨(Sched.lost_state_iff (by simp) (by simp)).1 hr, hpt⟩
  rw [hl'] at hstep
  cases hstep
  exact ⟨s', Q', h.called hcalled hticks fun t ht _ => hapart t ht⟩

/-- **The caller goes to sleep or terminates.** -/
theorem SystemInv.leave (h : SystemInv cfg k s Q) {sched : Sched α} {f : Tcb α → Tcb α}
    (hc : k.sched.currentTask = some c) (hci : c ≠ cfg.idleTcb)
    (hrun : (k.sched.tcb c).state = .running)
    (hidle : X86.IdleLast cfg k.sched fun _ => False)
    (hs : scheduleLocked cfg (k.sched.modify c f) = some sched)
    (hfp : ∀ t, (f t).priority = t.priority) (hfw : ∀ t, (f t).waitObj = t.waitObj)
    (hfs : ∀ t, (f t).state ≠ .ready) (hfr : ∀ t, (f t).state ≠ .running) :
    ∃ s' Q', Stepped cfg k { k with sched := sched } s s' Q' ∧ s'.tcb c = f (s.tcb c) := by
  have hcur : s.currentTask = some c := h.currentTask.symm.trans hc
  rw [h.sched] at hidle hs hrun
  obtain ⟨s', Q', -, hl', hcalled, hticks, hapart, hself⟩ :=
    h.resting.leave h.aside hcur hci ((Sched.lost_state_iff (by simp) (by simp)).1 hrun)
      (fun h0 => by
        refine (h.resting.above (Sched.idleLast_lost hidle fun t ht => ht) h0).resolve_right ?_
        rintro ⟨t, ht, -⟩
        exact ht) hfp hfw hfs hfr
  rw [hl'] at hs
  cases hs
  exact ⟨s', Q', h.called hcalled hticks fun t ht _ => hapart t ht, hself⟩

/-- **`task_sleep`.** -/
theorem SystemInv.taskSleep (h : SystemInv cfg k s Q) {ticks : ℕ}
    (hsafe : SystemSafe cfg k (.sched (.taskSleep ticks)))
    (hs : kernelStep cfg fuel k (.sched (.taskSleep ticks)) = some (k', woken)) :
    ∃ c s' Q', Stepped cfg k k' s s' Q' ∧ k.sched.currentTask = some c ∧ c ∈ s.taskTable ∧
      k'.waiting c = false ∧
      s'.tcb c = { s.tcb c with
        state := .blocked, wakeTick := cfg.port.tick (s.systemTicks + ticks) } := by
  obtain ⟨sched, hstep, hown, rfl | ⟨t, entry, priority, stack, hop, -⟩⟩ := kernelStep_sched hs
  swap
  · cases hop
  simp only [Gracemont.step] at hstep
  split_ifs at hstep with hci
  obtain ⟨c, hc, hstep⟩ := Option.bind_eq_some_iff.1 hstep
  have hci' : c ≠ cfg.idleTcb := fun he => hci (he ▸ hc)
  have hct := (h.resting.current c (h.currentTask.symm.trans hc)).resolve_right hci'
  have hticks : k.sched.systemTicks = s.systemTicks := by
    rw [h.sched]
    rfl
  obtain ⟨s', Q', hs', hself⟩ := h.leave hc hci' (hsafe.1 c hc) hsafe.2 hstep (fun _ => rfl)
    (fun _ => rfl) (fun _ => by simp) fun _ => by simp
  rw [hticks] at hself
  refine ⟨c, s', Q', hs', hc, hct, Kernel.waiting_own ?_, hself⟩
  exact hown.resolve_left (by simp) c hc

/-- **`task_terminate`.** -/
theorem SystemInv.taskTerminate (h : SystemInv cfg k s Q)
    (hsafe : SystemSafe cfg k (.sched .taskTerminate))
    (hs : kernelStep cfg fuel k (.sched .taskTerminate) = some (k', woken)) :
    ∃ s' Q', Stepped cfg k k' s s' Q' := by
  obtain ⟨sched, hstep, hown, rfl | ⟨t, entry, priority, stack, hop, -⟩⟩ := kernelStep_sched hs
  swap
  · cases hop
  simp only [Gracemont.step] at hstep
  split_ifs at hstep with hci
  obtain ⟨c, hc, hstep⟩ := Option.bind_eq_some_iff.1 hstep
  obtain ⟨s', Q', hs', -⟩ := h.leave hc (fun he => hci (he ▸ hc)) (hsafe.1 c hc) hsafe.2
    hstep (fun _ => rfl) (fun _ => rfl) (fun _ => by simp) fun _ => by simp
  exact ⟨s', Q', hs'⟩

/-- **`task_start`.** -/
theorem SystemInv.taskStart (h : SystemInv cfg k s Q) {tcb : Option α}
    (hs : kernelStep cfg fuel k (.sched (.taskStart tcb)) = some (k', woken)) :
    ∃ s' Q', Stepped cfg k k' s s' Q' := by
  obtain ⟨sched, hstep, -, rfl | ⟨t, entry, priority, stack, hop, -⟩⟩ := kernelStep_sched hs
  swap
  · cases hop
  simp only [Gracemont.step] at hstep
  split_ifs at hstep with hti
  have hon : ∀ c, s.currentTask = some c → (s.tcb c).state ≠ .suspended := by
    intro c hc
    rcases h.active c hc with ⟨call, hy⟩ | ⟨-, hst | hst⟩
    · rcases h.aside.state c (Kernel.waiting_yield hy) with hst | ⟨hst, -⟩
      · simp [hst]
      · simp [hst]
    · simp [hst]
    · simp [hst]
  obtain ⟨s', Q', st, -, hl', hcalled, hticks, hapart⟩ := h.resting.start h.aside hti hon
  rw [h.sched, hl'] at hstep
  cases hstep
  refine ⟨s', Q', h.called hcalled hticks fun t ht hor => hapart t ht ?_⟩
  rcases hor with hw | hb
  · rcases h.aside.state t hw with hst | ⟨hst, -⟩
    · simp [hst]
    · simp [hst]
  · simp [hb]

/-- **`task_create`** with a block that is not in use. -/
theorem SystemInv.taskCreate (h : SystemInv cfg k s Q) {tcb : Option α} {entry : Option ℕ}
    {priority : ℕ} {stack : Option ℕ}
    (hsafe : SystemSafe cfg k (.sched (.taskCreate tcb entry priority stack)))
    (hs : kernelStep cfg fuel k (.sched (.taskCreate tcb entry priority stack)) =
      some (k', woken)) :
    ∃ s', Stepped cfg k k' s s' Q := by
  obtain ⟨sched, hstep, -, hk⟩ := kernelStep_sched hs
  simp only [Gracemont.step] at hstep
  split_ifs at hstep with hi
  have hfree : ∀ t, tcb = some t → entry ≠ none → stack ≠ none → priority < cfg.maxPriority →
      s.taskTable.length < cfg.maxTasks → k.waiting t = false ∧ (s.tcb t).waitObj = none ∧
        (s.tcb t).state ≠ .blocked ∧ s.currentTask ≠ some t ∧
        (t ∈ s.taskTable → (s.tcb t).state ≠ .ready) := by
    intro t ht he hst hp hlen
    have hti : t ≠ cfg.idleTcb := fun heq => hi (heq ▸ ht)
    by_cases htab : t ∈ s.taskTable
    · have hlen' : k.sched.taskTable.length < cfg.maxTasks := by
        rw [h.sched]
        exact hlen
      have htab' : t ∈ k.sched.taskTable := by
        rw [h.sched]
        exact htab
      have hstate := hsafe t ht he hst hp hlen' htab'
      have hw : k.waiting t = false := by
        cases hw : k.waiting t with
        | false => rfl
        | true =>
          rcases (h.inside hw).state with hr | ⟨hb, -⟩
          · simp [hr] at hstate
          · simp [hb] at hstate
      rw [h.outside hw] at hstate
      refine ⟨hw, h.own t hw, ?_, fun hc => ?_, fun _ => ?_⟩
      · rcases hstate with hst | hst
        all_goals simp [hst]
      · rcases h.active t hc with ⟨call, hy⟩ | ⟨-, hr | hr⟩
        · rw [Kernel.waiting_yield hy] at hw
          cases hw
        · simp [hr] at hstate
        · simp [hr] at hstate
      · rcases hstate with hst | hst
        all_goals simp [hst]
    · have hw : k.waiting t = false := by
        cases hw : k.waiting t with
        | false => rfl
        | true => exact absurd (h.aside.known t hw) htab
      refine ⟨hw, h.own t hw, ?_, fun hc => ?_, fun hm => absurd hm htab⟩
      · simp [h.resting.fresh t htab hti]
      · exact (h.resting.current t hc).elim htab hti
  have hlost := taskCreate_lost fun t h1 h2 h3 h4 h5 => (hfree t h1 h2 h3 h4 h5).1
  obtain ⟨hcalled, hticks, hapart⟩ := h.resting.create hi hfree
  have hstepped := h.called hcalled hticks fun t _ => hapart t
  rw [h.sched, hlost] at hstep
  cases hstep
  rcases hk with rfl | ⟨t, entry', priority', stack', hop, hok, rfl⟩
  · exact ⟨_, hstepped⟩
  · -- the block was in no blocking call
    cases hop
    obtain ⟨he, hst, hp, hlen⟩ := taskCreate_ok hok
    rw [h.sched] at hlen
    have hw := (hfree t rfl he hst hp hlen).1
    rw [k.setPc_own (Kernel.own_of_not hw)]
    exact ⟨_, hstepped⟩

/-- **`scheduler_start`**, before which no task is in a blocking call. -/
theorem SystemInv.schedulerStart (h : SystemInv cfg k s Q)
    (hs : kernelStep cfg fuel k (.sched .schedulerStart) = some (k', woken)) :
    ∃ s' Q', Stepped cfg k k' s s' Q' := by
  obtain ⟨sched, hstep, -, rfl | ⟨t, entry, priority, stack, hop, -⟩⟩ := kernelStep_sched hs
  swap
  · cases hop
  simp only [Gracemont.step] at hstep
  split_ifs at hstep with hr
  have hrun : s.schedulerRunning = false := by
    rw [h.sched] at hr
    simpa using hr
  have hcur : s.currentTask = none := by
    by_contra hne
    rw [h.resting.started.2 hne] at hrun
    cases hrun
  have hown : ∀ t, k.waiting t = false := fun t => Kernel.waiting_own (h.boot hcur t)
  rw [h.sched, Sched.lost_none hown] at hstep
  have hinv : Inv cfg s Q := by
    refine ⟨h.resting.toCore, fun c hc => ?_, h.resting.current, h.resting.started,
      h.resting.boot⟩
    rw [hcur] at hc
    cases hc
  have hi := h.resting.boot hcur
  obtain ⟨Q', hi'⟩ := hinv.schedulerStart hrun hstep
  obtain ⟨htab, hticks, hapart⟩ := schedulerStart_apart hinv hi hstep
  have hobj :=
    X86.schedulerStart_kept h.resting.toCore (h.own _ (hown _)) (hinv.createIdle hi) hstep
  have hnot : ∀ {t}, k.waiting t ≠ true := fun {t} ht => by
    rw [hown t] at ht
    cases ht
  refine ⟨sched, Q', ⟨⟨?_, .of_inv hi', ⟨fun t ht => absurd ht hnot, fun t ht => absurd ht hnot,
    fun t ht => absurd ht hnot⟩, fun c hc => ?_, fun _ => h.boot hcur, fun t ht => ?_, h.heads,
    fun t u ht => absurd ht hnot, fun i o ho => ?_⟩, hticks, htab, fun hn => absurd hcur hn,
    fun t ht hb => ⟨ht, .of_eq (hapart t (h.off (.inr hb)))⟩⟩⟩
  · exact (Sched.lost_none hown).symm
  · exact .inr ⟨h.boot hcur c, .inl (hi'.running c hc)⟩
  · exact (hobj.waitObj t).trans (h.own t ht)
  · obtain ⟨ho, hoi, hp⟩ := h.owners i o ho
    exact ⟨htab o ho, hoi, hp⟩

/-- **`task_yield`** in a blocking call: the caller is not picked again. -/
theorem SystemInv.yield (h : SystemInv cfg k s Q) (hsafe : SystemSafe cfg k .yield)
    (hs : kernelStep cfg fuel k .yield = some (k', woken)) :
    ∃ s' Q', Stepped cfg k k' s s' Q' := by
  obtain ⟨c, hc, hs⟩ := Option.bind_eq_some_iff.1 hs
  obtain ⟨hcur, hci, hct⟩ := h.caller hc
  have hcur' : s.currentTask = some c := h.currentTask.symm.trans hcur
  cases hpc : k.pc c with
  | own =>
    simp only [hpc] at hs
    cases hs
  | resume call =>
    simp only [hpc] at hs
    cases hs
  | yield call =>
    simp only [hpc] at hs
    obtain ⟨sched, hy, hs⟩ := Option.bind_eq_some_iff.1 hs
    obtain ⟨rfl, -⟩ := Prod.mk.inj (Option.some.inj hs)
    have hw := Kernel.waiting_yield hpc
    obtain ⟨s', Q', hs', hl', hcalled, hticks, hapart⟩ :=
      h.resting.yield h.aside hcur' (h.resting.prio c hct) fun h0 => by
        have hidle : X86.IdleLast cfg k.sched fun _ => False := hsafe
        rw [h.sched] at hidle
        refine .inl ((h.resting.above (Sched.idleLast_lost hidle fun t ht => ht)
          (h0.resolve_right hci)).resolve_right ?_)
        rintro ⟨t, ht, -⟩
        exact ht
    rw [h.sched, hl'] at hy
    cases hy
    have hstepped := h.called hcalled hticks fun t ht _ => hapart t ht
    have hne : s'.currentTask ≠ some c := by
      have hst : (s.tcb c).state ≠ .running := h.aside.ne_running hw
      have heq : Gracemont.taskYield cfg s = scheduleLocked cfg s := by
        simp [Gracemont.taskYield, hcur', hst]
      rw [heq] at hs'
      rw [scheduleLocked_currentTask hs']
      intro he
      have hD := h.aside.highest h.resting.toCore
      rw [Option.some.inj he, hw] at hD
      cases hD
    exact ⟨s', Q', hstepped.resumed hpc hne⟩

/-- No task goes on after the `task_yield` of a blocking call. -/
theorem SystemInv.resume (h : SystemInv cfg k s Q) : kernelStep cfg fuel k .resume = none := by
  cases hc : k.caller cfg with
  | none => simp [kernelStep, hc]
  | some c =>
    obtain ⟨hcur, -, -⟩ := h.caller hc
    rcases h.active c (h.currentTask.symm.trans hcur) with ⟨call, hy⟩ | ⟨hown, -⟩
    · simp [kernelStep, hc, hy]
    · simp [kernelStep, hc, hown]

variable (fuel) in
/-- **`scheduler_tick`** makes the sleepers that are due ready, and leaves the others
    and the tasks that wait for an object alone. -/
theorem SystemInv.schedulerTick (h : SystemInv cfg k s Q)
    (hc : k.sched.currentTask ≠ none) (hsafe : SystemSafe cfg k (.sched .schedulerTick)) :
    ∃ k' s' Q', kernelStep cfg fuel k (.sched .schedulerTick) = some (k', []) ∧
      k'.pc = k.pc ∧ SystemInv cfg k' s' Q' ∧ s'.systemTicks = tickNow cfg s ∧
      s'.currentTask ≠ none ∧ (∀ t ∈ s.taskTable, t ∈ s'.taskTable) ∧
      (∀ t, Off s.tcb t → ¬ Due cfg s t → Kept s.tcb s'.tcb t) ∧
      ∀ t, Due cfg s t → MadeReady s' t := by
  obtain ⟨c, hc⟩ := Option.ne_none_iff_exists'.1 hc
  have hcur : s.currentTask = some c := h.currentTask.symm.trans hc
  have hwd : ∀ t, k.waiting t = true → ¬ Due cfg s t := by
    rintro t ht ⟨-, hb, hwo, -⟩
    rcases h.aside.state t ht with hst | ⟨-, hw⟩
    · rw [hst] at hb
      cases hb
    · exact hw hwo
  have hcd : ¬ Due cfg s c := by
    rcases h.active c hcur with ⟨call, hy⟩ | ⟨-, hst⟩
    · exact hwd c (Kernel.waiting_yield hy)
    · rintro ⟨-, hb, -⟩
      rcases hst with hst | hst
      all_goals
        rw [hst] at hb
        cases hb
  have hidle : c ≠ cfg.idleTcb → (s.tcb c).remainingSlice = 1 →
      X86.IdleLast cfg s fun t => Due cfg s t ∨ (t = c ∧ (s.tcb c).state = .running) := by
    intro hci h1
    have hi := hsafe c hc hci
    rw [h.sched, Sched.lost_remainingSlice] at hi
    refine Sched.idleLast_lost (hi h1) fun t ht => ?_
    refine ht.imp Sched.due_lost.1 fun ⟨htc, hr⟩ => ⟨htc, ?_⟩
    exact (Sched.lost_state_iff (by simp) (by simp)).1 hr
  obtain ⟨s', Q', -, hl', hcalled, hticks, hkept, hready⟩ :=
    h.resting.tick h.aside hcur hcd hidle
  have hi := h.scheduled hcalled fun t ht => hkept t (h.aside.off ht) (hwd t ht)
  have hstep : Gracemont.step cfg k.sched .schedulerTick = some (s'.lost k.waiting) := by
    rw [h.sched]
    exact hl'
  exact ⟨{ k with sched := s'.lost k.waiting }, s', Q', Option.bind_eq_some_iff.2 ⟨_, hstep, rfl⟩,
    rfl, hi, hticks, hcalled.stays (by simp [hcur]), hcalled.table, hkept, hready⟩

/-- **Every safe operation** but the tick keeps the invariant, and leaves the tasks
    that sleep alone. -/
theorem SystemInv.step (h : SystemInv cfg k s Q) (hport : cfg.port = .arm64) {op : KernelOp α}
    (hop : op ≠ .sched .schedulerTick) (hsafe : SystemSafe cfg k op)
    (hs : kernelStep cfg fuel k op = some (k', woken)) : ∃ s' Q', Stepped cfg k k' s s' Q' := by
  cases op with
  | sched op =>
    cases op with
    | taskCreate tcb entry priority stack =>
      obtain ⟨s', hs'⟩ := h.taskCreate hsafe hs
      exact ⟨s', Q, hs'⟩
    | taskStart tcb => exact h.taskStart hs
    | taskYield => exact h.taskYield hsafe hs
    | taskSleep ticks =>
      obtain ⟨-, s', Q', hs', -⟩ := h.taskSleep hsafe hs
      exact ⟨s', Q', hs'⟩
    | taskTerminate => exact h.taskTerminate hsafe hs
    | schedulerTick => exact absurd rfl hop
    | schedulerStart => exact h.schedulerStart hs
    | clock now =>
      simp [kernelStep, Gracemont.step, hport] at hs
  | call call =>
    obtain ⟨s', hs'⟩ := h.call hsafe hs
    exact ⟨s', Q, hs'⟩
  | yield => exact h.yield hsafe hs
  | resume =>
    rw [h.resume] at hs
    cases hs
  | semTrywait i => exact ⟨s, Q, h.semTrywait hs⟩
  | semPost i =>
    obtain ⟨s', hs'⟩ := h.semPost hs
    exact ⟨s', Q, hs'⟩
  | mutexTrylock i => exact ⟨s, Q, h.mutexTrylock hs⟩
  | mutexUnlock i =>
    obtain ⟨s', hs'⟩ := h.mutexUnlock hsafe hs
    exact ⟨s', Q, hs'⟩
  | eventSet i mask =>
    obtain ⟨s', hs'⟩ := h.eventSet hs
    exact ⟨s', Q, hs'⟩
  | eventClear i mask => exact ⟨s, Q, h.eventClear hs⟩

end

end Gracemont
