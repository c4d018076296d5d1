/-
  Gracemont kernel — exclusivity of the task links (X86_64).

  Between publishing itself on a wait list and its `task_yield`, the running
  task may be blocked, or ready again; everywhere else it is in state
  `TASK_RUNNING`, and on no list.  This is `KernelInv`; each operation keeps it
  if it is `Safe`, and over runs of safe operations it gives
  `lists_exclusive_of_safe`.

  When a wake-up comes before the `task_yield` of the task it wakes, and
  `schedule_locked` picks that task again, it stays on its ready list; it may
  then take the object and go on with its own code, or go to sleep once more:
  `lists_exclusive_broken`.
-/
import Gracemont.Kernel.WaitLists
import Gracemont.Kernel.X86System

namespace Gracemont

namespace X86

variable {α : Type} {cfg : SchedConfig α} {k k' : Kernel α} {Q Q' : ℕ → List α}
  {W W' : WaitObj → List α}

/-! ## The invariant -/

/-- The running task `c` is in state `TASK_RUNNING`; or it is before the
    `task_yield` of a blocking call, and waits or has been woken already. -/
def Kernel.Active (cfg : SchedConfig α) (k : Kernel α) (c : α) : Prop :=
  (k.sched.tcb c).state = .running ∨
    ((∃ call, k.pc c = .yield call) ∧ c ≠ cfg.idleTcb ∧
      ((k.sched.tcb c).state = .ready ∨
        ((k.sched.tcb c).state = .blocked ∧ (k.sched.tcb c).waitObj ≠ none)))

/-- The invariant between two operations. -/
structure KernelInv (cfg : SchedConfig α) (k : Kernel α) (Q : ℕ → List α)
    (W : WaitObj → List α) : Prop extends Lists cfg k.sched k.waitList Q W where
  current : ∀ c, k.sched.currentTask = some c → c ∈ k.sched.taskTable ∨ c = cfg.idleTcb
  active : ∀ c, k.sched.currentTask = some c → k.Active cfg c
  started : k.sched.schedulerRunning = true ↔ k.sched.currentTask ≠ none
  boot : k.sched.currentTask = none → ∀ p, cfg.idleTcb ∉ Q p

namespace KernelInv
variable {c : α}

/-- **List exclusivity**, from the invariant. -/
theorem listsExclusive (h : KernelInv cfg k Q W) : ListsExclusive k := by
  have hready : ∀ p t, k.OnList (.ready p) t ↔ t ∈ Q p := by
    intro p t
    exact (h.queues.ring p).reaches_iff
  have hwait : ∀ o t, k.OnList (.wait o) t ↔ t ∈ W o := by
    intro o t
    exact (h.chain o).reaches_iff
  refine ⟨fun p => ⟨_, h.queues.ring p⟩, fun o => ⟨_, h.chain o⟩, ?_, ?_⟩
  · intro t a b ha hb
    cases a with
    | ready p =>
      cases b with
      | ready q => rw [h.disjoint ((hready p t).1 ha) ((hready q t).1 hb)]
      | wait o => exact absurd ((hready p t).1 ha) (h.unqueued ((hwait o t).1 hb) p)
    | wait o =>
      cases b with
      | ready q => exact absurd ((hready q t).1 hb) (h.unqueued ((hwait o t).1 ha) q)
      | wait o' => rw [h.apart ((hwait o t).1 ha) ((hwait o' t).1 hb)]
  · intro c hc hown a ha
    have hrun : (k.sched.tcb c).state = .running := by
      rcases h.active c hc with hrun | ⟨⟨call, hpc⟩, -⟩
      · exact hrun
      · rw [hpc] at hown
        exact absurd trivial hown
    cases a with
    | ready p =>
      have hst := h.toCore.ready p c ((hready p c).1 ha)
      rw [hrun] at hst
      cases hst
    | wait o =>
      have hst := h.asleep o c ((hwait o c).1 ha)
      rw [hrun] at hst
      cases hst

/-- Outside the `task_yield` of blocking calls, the running task is running. -/
theorem running (h : KernelInv cfg k Q W) (hc : k.sched.currentTask = some c)
    (hpc : ∀ call, k.pc c ≠ .yield call) : (k.sched.tcb c).state = .running := by
  rcases h.active c hc with hrun | ⟨⟨call, hy⟩, -⟩
  · exact hrun
  · exact absurd hy (hpc call)

/-- The scheduler invariant, while the running task is running. -/
theorem inv (h : KernelInv cfg k Q W)
    (hrun : ∀ c, k.sched.currentTask = some c → (k.sched.tcb c).state = .running) :
    Inv cfg k.sched Q :=
  ⟨h.toCore, hrun, h.current, h.started, h.boot⟩

theorem of_inv (hl : Lists cfg k'.sched k'.waitList Q' W') (hi : Inv cfg k'.sched Q') :
    KernelInv cfg k' Q' W' :=
  ⟨hl, hi.current, fun c hc => .inl (hi.running c hc), hi.started, hi.boot⟩

/-- An operation that does not switch tasks. -/
theorem stay (h : KernelInv cfg k Q W) (hl : Lists cfg k'.sched k'.waitList Q' W')
    (hcur : k'.sched.currentTask = k.sched.currentTask)
    (hrun : k'.sched.schedulerRunning = k.sched.schedulerRunning)
    (htab : ∀ t ∈ k.sched.taskTable, t ∈ k'.sched.taskTable)
    (hact : ∀ c, k.sched.currentTask = some c → k'.Active cfg c)
    (hboot : k.sched.currentTask = none → ∀ p, cfg.idleTcb ∉ Q' p) : KernelInv cfg k' Q' W' := by
  refine ⟨hl, fun c hc => ?_, fun c hc => ?_, ?_, fun hn => ?_⟩
  · rw [hcur] at hc
    exact (h.current c hc).imp (htab c) id
  · rw [hcur] at hc
    exact hact c hc
  · rw [hrun, hcur]
    exact h.started
  · rw [hcur] at hn
    exact hboot hn

/-- An operation that leaves the scheduler and the wait lists alone. -/
theorem same (h : KernelInv cfg k Q W) (hs : k'.sched = k.sched) (hw : k'.waitList = k.waitList)
    (hact : ∀ c, k.sched.currentTask = some c → k'.Active cfg c) : KernelInv cfg k' Q W := by
  have hl : Lists cfg k'.sched k'.waitList Q W := by
    rw [hs, hw]
    exact h.toLists
  refine h.stay hl ?_ ?_ ?_ hact h.boot
  · rw [hs]
  · rw [hs]
  · rw [hs]
    exact fun _ ht => ht

/-- An operation on an object that leaves its wait list alone. -/
theorem obj_same (h : KernelInv cfg k Q W) {o : WaitObj} {list : Option α}
    (hs : k'.sched = k.sched) (hw : k'.waitList = Function.update k.waitList o list)
    (hlist : list = k.waitList o) (hpc : k'.pc = k.pc) : KernelInv cfg k' Q W := by
  rw [hlist, Function.update_eq_self] at hw
  refine h.same hs hw fun c hc => ?_
  unfold Kernel.Active
  rw [hs, hpc]
  exact h.active c hc

/-- **Wake-ups**, wherever the running task is. -/
theorem roused (h : KernelInv cfg k Q W) (hl : Lists cfg k'.sched k'.waitList Q' W')
    (hr : Roused k.sched k'.sched) (hpc : k'.pc = k.pc)
    (hidle : ∀ p, cfg.idleTcb ∈ Q' p → cfg.idleTcb ∈ Q p) : KernelInv cfg k' Q' W' := by
  refine h.stay hl hr.currentTask hr.schedulerRunning ?_ ?_ fun hn p hi => h.boot hn p (hidle p hi)
  · rw [hr.taskTable]
    exact fun _ ht => ht
  · intro c hc
    unfold Kernel.Active
    rw [hpc]
    rcases hr.state c with ⟨hst, hw⟩ | ⟨hb, hready⟩
    · rw [hst, hw]
      exact h.active c hc
    · rcases h.active c hc with hrun | ⟨hy, hci, -⟩
      · rw [hb] at hrun
        cases hrun
      · exact .inr ⟨hy, hci, .inl hready⟩

end KernelInv

/-! ## The operations -/

section
variable [DecidableEq α]

namespace KernelInv
variable {c : α}

/-- **A turn** of the running task. -/
theorem turn (h : KernelInv cfg k Q W) (hc : k.sched.currentTask = some c)
    (hci : c ≠ cfg.idleTcb) (hpc : ∀ call, k.pc c ≠ .yield call) (first : Bool)
    (call : BlockingCall) : ∃ W', KernelInv cfg (turn k c first call) Q W' := by
  have hrun := h.running hc hpc
  have hct := (h.current c hc).resolve_right hci
  rcases turn_cases k c first call with ⟨hs, hw, -⟩ | ⟨hs, hw, hp⟩
  · refine ⟨W, h.same hs hw fun c' hc' => ?_⟩
    obtain rfl := Option.some.inj (hc.symm.trans hc')
    refine .inl ?_
    rw [hs]
    exact hrun
  · have hl := h.toLists.block hrun hct hci call.obj
    have hcm : c ∈ Function.update W call.obj (c :: W call.obj) call.obj := by simp
    refine ⟨Function.update W call.obj (c :: W call.obj), h.stay ?_ ?_ ?_ ?_ ?_ h.boot⟩
    · rw [hs, hw]
      exact hl
    · rw [hs]
    · rw [hs]
    · rw [hs]
      exact fun _ ht => ht
    · intro c' hc'
      obtain rfl := Option.some.inj (hc.symm.trans hc')
      refine .inr ⟨⟨call, by rw [hp, Function.update_self]⟩, hci, .inr ?_⟩
      rw [hs]
      exact ⟨hl.asleep _ c hcm, hl.waiting hcm⟩

/-! ### Wake-ups -/

/-- Waking the first task of a wait list, if there is one. -/
theorem wakeOne (h : KernelInv cfg k Q W) (o : WaitObj)
    (hs : taskReadyAdd k.sched (wakeFirst k.sched.tcb (k.waitList o)).1
      (wakeFirst k.sched.tcb (k.waitList o)).2.2 = some k'.sched)
    (hw : k'.waitList = Function.update k.waitList o (wakeFirst k.sched.tcb (k.waitList o)).2.1)
    (hpc : k'.pc = k.pc) : ∃ Q' W', KernelInv cfg k' Q' W' := by
  cases hW : W o with
  | nil =>
    have hhead : k.waitList o = none := by
      rw [(h.chain o).head_eq, hW]
      rfl
    rw [hhead, wakeFirst_none] at hs hw
    have hsched : k'.sched = k.sched := (Option.some.inj hs).symm
    exact ⟨Q, W, h.obj_same hsched hw hhead.symm hpc⟩
  | cons t l =>
    obtain ⟨m, list, s', hm, hs', hr, hl⟩ := h.toLists.wake hW
    rw [hm] at hs hw
    obtain rfl : k'.sched = s' := Option.some.inj (hs.symm.trans hs')
    rw [← hw] at hl
    refine ⟨_, _, h.roused hl hr hpc fun p hi => ?_⟩
    rcases mem_enqueue.1 hi with hi | ⟨-, hi⟩
    · exact hi
    · exact absurd hi.symm (h.ne_idle (o := o) (by simp [hW]))

/-- **`sem_post`.** -/
theorem semPost (h : KernelInv cfg k Q W) {fuel i : ℕ}
    (hs : kernelStep cfg fuel k (.semPost i) = some k') : ∃ Q' W', KernelInv cfg k' Q' W' := by
  obtain ⟨sched, hadd, hs⟩ := Option.bind_eq_some_iff.1 hs
  have hsem : k'.sem = Function.update k.sem i
      { count := (k.sem i).count + 1,
        waitList := (wakeFirst k.sched.tcb (k.sem i).waitList).2.1 } := by
    cases hs
    rfl
  obtain ⟨rfl, hpc, hm, he⟩ : k'.sched = sched ∧ k'.pc = k.pc ∧ k'.mutex = k.mutex ∧
      k'.event = k.event := by
    cases hs
    exact ⟨rfl, rfl, rfl, rfl⟩
  exact h.wakeOne (.sem i) hadd (waitList_sem hsem hm he) hpc

/-- **`mutex_unlock`.** -/
theorem mutexUnlock (h : KernelInv cfg k Q W) {fuel i : ℕ}
    (hs : kernelStep cfg fuel k (.mutexUnlock i) = some k') : ∃ Q' W', KernelInv cfg k' Q' W' := by
  obtain ⟨c, hc, hs⟩ := Option.bind_eq_some_iff.1 hs
  obtain ⟨sched, hadd, hs⟩ := Option.bind_eq_some_iff.1 hs
  have hmutex : k'.mutex = Function.update k.mutex i
      (X86.mutexUnlock k.sched.tcb (k.mutex i) c).2.1 := by
    cases hs
    rfl
  have hadd : taskReadyAdd k.sched (X86.mutexUnlock k.sched.tcb (k.mutex i) c).1
      (X86.mutexUnlock k.sched.tcb (k.mutex i) c).2.2 = some sched := hadd
  obtain ⟨rfl, hpc, hsem, he⟩ : k'.sched = sched ∧ k'.pc = k.pc ∧ k'.sem = k.sem ∧
      k'.event = k.event := by
    cases hs
    exact ⟨rfl, rfl, rfl, rfl⟩
  have hw := waitList_mutex hsem hmutex he
  unfold X86.mutexUnlock at hadd hw
  dsimp only at hadd hw
  -- a call that releases nothing leaves the wait list alone
  have hkeep : k'.sched = k.sched →
      k'.waitList = Function.update k.waitList (.mutex i) (k.mutex i).waitList →
      ∃ Q' W', KernelInv cfg k' Q' W' :=
    fun hsched hw => ⟨Q, W, h.obj_same hsched hw rfl hpc⟩
  split_ifs at hadd hw
  · exact hkeep (Option.some.inj hadd).symm hw
  · exact hkeep (Option.some.inj hadd).symm hw
  · exact h.wakeOne (.mutex i) hadd hw hpc

/-- **`event_set`.** -/
theorem eventSet (h : KernelInv cfg k Q W) {fuel i : ℕ} {mask : BitVec 32}
    (hs : kernelStep cfg fuel k (.eventSet i mask) = some k') :
    ∃ Q' W', KernelInv cfg k' Q' W' := by
  obtain ⟨⟨sched, event, woken⟩, he, hs⟩ := Option.bind_eq_some_iff.1 hs
  have hw : k'.waitList = Function.update k.waitList (.event i) event.waitList := by
    cases hs
    exact waitList_event rfl rfl rfl
  obtain ⟨rfl, hpc⟩ : k'.sched = sched ∧ k'.pc = k.pc := by
    cases hs
    exact ⟨rfl, rfl⟩
  obtain ⟨r, hrun, he⟩ := Option.bind_eq_some_iff.1 he
  obtain ⟨s', Q', hall, hr, hl, hidle⟩ := h.toLists.wakeAll (o := .event i) rfl []
  cases Lib.Loop.run_unique hrun hall
  obtain ⟨rfl, hnone⟩ : s' = k'.sched ∧ event.waitList = none := by
    cases he
    exact ⟨rfl, rfl⟩
  rw [← hnone, ← hw] at hl
  exact ⟨Q', _, h.roused hl hr hpc hidle⟩

/-! ### Task switches -/

omit [DecidableEq α] in
theorem above {s : Sched α} (h : Core cfg s Q) (hidle : IdleLast cfg s fun _ => False)
    (h0 : s.readyList 0 = some cfg.idleTcb) : ∃ p t, t ∈ Q p ∧ 0 < p := by
  obtain ⟨t, -, hon, hpt⟩ := hidle h0
  obtain ⟨p, hp⟩ := hon.resolve_right id
  have ht := h.on_iff.1 hp
  exact ⟨p, t, ht, by rwa [h.queues.prio p t ht] at hpt⟩

theorem caller_spec (hc : k.caller cfg = some c) :
    k.sched.currentTask = some c ∧ c ≠ cfg.idleTcb := by
  obtain ⟨hc, hci⟩ := Option.filter_eq_some_iff.1 hc
  exact ⟨hc, by simpa using hci⟩

/-- **The `task_yield`** of a blocking call or of `task_start`. -/
theorem yield (h : KernelInv cfg k Q W) (hsafe : Safe cfg k .yield) {fuel : ℕ}
    (hs : kernelStep cfg fuel k .yield = some k') : ∃ Q', KernelInv cfg k' Q' W := by
  obtain ⟨c, hcaller, hs⟩ := Option.bind_eq_some_iff.1 hs
  obtain ⟨pc, -, hs⟩ := Option.bind_eq_some_iff.1 hs
  obtain ⟨sched, hy, hs⟩ := Option.bind_eq_some_iff.1 hs
  obtain ⟨hc, hci⟩ := caller_spec hcaller
  obtain ⟨hon, hoff⟩ := hsafe c hc
  obtain ⟨s', Q', hs', hl, hor⟩ := h.toLists.yield (h.started.2 (by simp [hc])) hc (h.current c hc)
    (fun hst => h.toCore.takeover (hon hst)) fun hst => ⟨hci, above h.toCore (hoff hst).2⟩
  obtain rfl : sched = s' := Option.some.inj (hy.symm.trans hs')
  rcases hor with hi | ⟨-, hst, hhi⟩
  · cases hs
    exact ⟨Q', of_inv hl hi⟩
  · exact absurd hhi (hoff hst).1

/-- The calls that only a task makes, in its own code. -/
theorem own_step {op : Op α} (hop : op = .taskYield ∨ (∃ ticks, op = .taskSleep ticks) ∨
      op = .taskTerminate) {fuel : ℕ} (hs : kernelStep cfg fuel k (.sched op) = some k') :
    ∃ sched, step cfg k.sched op = some sched ∧ k' = { k with sched := sched } ∧
      ∀ c, k.sched.currentTask = some c → k.pc c = .own := by
  obtain ⟨sched, hstep, hs⟩ := Option.bind_eq_some_iff.1 hs
  refine ⟨sched, hstep, ?_⟩
  rcases hop with rfl | ⟨ticks, rfl⟩ | rfl
  all_goals
    dsimp only at hs
    split_ifs at hs with hown
    cases hs
    refine ⟨rfl, fun c hc => ?_⟩
    simpa [hc] using hown

/-- **`task_sleep` and `task_terminate`**: the running task leaves. -/
theorem leave (h : KernelInv cfg k Q W) (hc : k.sched.currentTask = some c)
    (hci : c ≠ cfg.idleTcb) (hpc : k.pc c = .own) (hidle : IdleLast cfg k.sched fun _ => False)
    {f : Tcb α → Tcb α} (hfp : ∀ t, (f t).priority = t.priority) (hfs : ∀ t, (f t).state ≠ .ready)
    (hfw : ∀ t, (f t).waitObj = t.waitObj) {sched : Sched α}
    (hs : scheduleLocked cfg (k.sched.modify c f) = some sched) :
    ∃ Q', KernelInv cfg { k with sched := sched } Q' W := by
  have hrun := h.running hc (by simp [hpc])
  have hinv := h.inv fun c' hc' => by
    obtain rfl := Option.some.inj (hc.symm.trans hc')
    exact hrun
  have hsafe : k.sched.readyList 0 = some cfg.idleTcb →
      ∃ t, t ≠ cfg.idleTcb ∧ (∃ p, OnReadyList k.sched p t) ∧ 0 < (k.sched.tcb t).priority := by
    intro h0
    obtain ⟨t, hti, hon, hpt⟩ := hidle h0
    exact ⟨t, hti, hon.resolve_right id, hpt⟩
  obtain ⟨s', Q', hs', hi⟩ := hinv.leave hc hci hsafe hfp hfs
  obtain rfl : sched = s' := Option.some.inj (hs.symm.trans hs')
  have hcore := h.toCore.leave hrun ((h.current c hc).resolve_right hci) hci hfp hfs
  have hleft : WaitersKept k.sched.tcb (k.sched.modify c f).tcb :=
    .modify_of (fun hb => absurd (hb.symm.trans hrun) (by decide)) hfw
  exact ⟨Q', of_inv (h.kept hi.toCore (hleft.trans (scheduleLocked_kept hcore hs))) hi⟩

/-- **The calls of the running task** in its own code. -/
theorem taskYield (h : KernelInv cfg k Q W) (hsafe : Safe cfg k (.sched .taskYield)) {fuel : ℕ}
    (hs : kernelStep cfg fuel k (.sched .taskYield) = some k') : ∃ Q', KernelInv cfg k' Q' W := by
  obtain ⟨sched, hstep, rfl, hown⟩ := own_step (.inl rfl) hs
  simp only [step] at hstep
  split_ifs at hstep with hi
  obtain ⟨c, hc, -⟩ := Option.bind_eq_some_iff.1 hstep
  have hrun := h.running hc (by simp [hown c hc])
  obtain ⟨s', Q', hs', hl, hor⟩ := h.toLists.yield (h.started.2 (by simp [hc])) hc (h.current c hc)
    (fun _ => h.toCore.takeover (hsafe c hc)) fun hst => absurd hrun hst
  obtain rfl : sched = s' := Option.some.inj (hstep.symm.trans hs')
  rcases hor with hinv | ⟨-, hst, -⟩
  · exact ⟨Q', of_inv hl hinv⟩
  · exact absurd hrun hst

theorem taskSleep (h : KernelInv cfg k Q W) {ticks : ℕ}
    (hsafe : Safe cfg k (.sched (.taskSleep ticks))) {fuel : ℕ}
    (hs : kernelStep cfg fuel k (.sched (.taskSleep ticks)) = some k') :
    ∃ Q', KernelInv cfg k' Q' W := by
  obtain ⟨sched, hstep, rfl, hown⟩ := own_step (.inr (.inl ⟨ticks, rfl⟩)) hs
  simp only [step] at hstep
  split_ifs at hstep with hi
  obtain ⟨c, hc, hstep⟩ := Option.bind_eq_some_iff.1 hstep
  have hci : c ≠ cfg.idleTcb := fun he => hi (he ▸ hc)
  refine h.leave hc hci (hown c hc) hsafe ?_ ?_ ?_ hstep
  · exact fun _ => rfl
  · simp
  · exact fun _ => rfl

theorem taskTerminate (h : KernelInv cfg k Q W) (hsafe : Safe cfg k (.sched .taskTerminate))
    {fuel : ℕ} (hs : kernelStep cfg fuel k (.sched .taskTerminate) = some k') :
    ∃ Q', KernelInv cfg k' Q' W := by
  obtain ⟨sched, hstep, rfl, hown⟩ := own_step (.inr (.inr rfl)) hs
  simp only [step] at hstep
  split_ifs at hstep with hi
  obtain ⟨c, hc, hstep⟩ := Option.bind_eq_some_iff.1 hstep
  have hci : c ≠ cfg.idleTcb := fun he => hi (he ▸ hc)
  refine h.leave hc hci (hown c hc) hsafe ?_ ?_ ?_ hstep
  · exact fun _ => rfl
  · simp
  · exact fun _ => rfl

/-! ### Creating and starting tasks -/

/-- What the critical section of `task_start` does: a suspended task joins the
    ready list of its priority, and the caller goes to `task_yield` if that is
    above its own. -/
theorem startAdd (h : KernelInv cfg k Q W) {tcb : Option α} (hi : tcb ≠ some cfg.idleTcb)
    {s₁ : Sched α} {yields : Bool} (hs : taskStartAdd k.sched tcb = some (s₁, yields)) :
    ∃ Q₁, Lists cfg s₁ k.waitList Q₁ W ∧ s₁.currentTask = k.sched.currentTask ∧
      s₁.schedulerRunning = k.sched.schedulerRunning ∧ s₁.taskTable = k.sched.taskTable ∧
      (∀ c, k.sched.currentTask = some c → (s₁.tcb c).state = (k.sched.tcb c).state ∧
        (s₁.tcb c).waitObj = (k.sched.tcb c).waitObj) ∧
      (∀ p, cfg.idleTcb ∈ Q₁ p → cfg.idleTcb ∈ Q p) ∧
      (yields = true → ∃ c t, k.sched.currentTask = some c ∧ t ≠ cfg.idleTcb ∧
        t ∈ Q₁ (s₁.tcb t).priority ∧ (s₁.tcb c).priority < (s₁.tcb t).priority) := by
  have hnone : ∀ {s₁ : Sched α} {yields : Bool}, some (k.sched, false) = some (s₁, yields) →
      s₁ = k.sched ∧ yields = false := by
    intro s₁ yields he
    cases he
    exact ⟨rfl, rfl⟩
  unfold taskStartAdd at hs
  cases tcb with
  | none =>
    obtain ⟨rfl, rfl⟩ := hnone hs
    exact ⟨Q, h.toLists, rfl, rfl, rfl, fun _ _ => ⟨rfl, rfl⟩, fun _ hi => hi, by simp⟩
  | some t =>
    dsimp only at hs
    split_ifs at hs with hsus
    swap
    · obtain ⟨rfl, rfl⟩ := hnone hs
      exact ⟨Q, h.toLists, rfl, rfl, rfl, fun _ _ => ⟨rfl, rfl⟩, fun _ hi => hi, by simp⟩
    have hti : t ≠ cfg.idleTcb := fun he => hi (he ▸ rfl)
    have htab : t ∈ k.sched.taskTable := by
      by_contra hm
      rw [h.fresh t hm hti] at hsus
      cases hsus
    have htQ : ∀ p, t ∉ Q p := h.not_mem (by simp [hsus])
    obtain ⟨s₂, hs₂, hcore, hrel, hst⟩ := h.toCore.add htQ (.inl htab) (h.prio t htab)
    rw [hs₂] at hs
    obtain ⟨rfl, hy⟩ : s₂ = s₁ ∧ preempts s₂ t = yields := by
      cases hs
      exact ⟨rfl, rfl⟩
    refine ⟨_, h.kept hcore (readyListAdd_kept h.toCore htQ (by simp [hsus]) hs₂),
      hrel.currentTask, hrel.schedulerRunning, hrel.taskTable, fun c hc => ?_, fun p hp => ?_, ?_⟩
    · have hct : c ≠ t := by
        rintro rfl
        rcases h.active c hc with ha | ⟨-, -, ha | ⟨ha, -⟩⟩
        all_goals
          rw [hsus] at ha
          cases ha
      exact ⟨by rw [hst, if_neg hct], hrel.waitObj c⟩
    · rcases mem_enqueue.1 hp with hp | ⟨-, hp⟩
      · exact hp
      · exact absurd hp.symm hti
    · rintro rfl
      unfold preempts at hy
      split at hy
      · rename_i cur _ hcur
        refine ⟨cur, t, hrel.currentTask.symm.trans hcur, hti, ?_, by simpa using hy⟩
        exact mem_enqueue.2 (.inr ⟨hrel.priority t, rfl⟩)
      · cases hy

/-- **`task_start`** by a task, up to its `task_yield`. -/
theorem taskStart (h : KernelInv cfg k Q W) {tcb : Option α} {fuel : ℕ}
    (hs : kernelStep cfg fuel k (.taskStart tcb) = some k') : ∃ Q', KernelInv cfg k' Q' W := by
  obtain ⟨c, hcaller, hs⟩ := Option.bind_eq_some_iff.1 hs
  obtain ⟨hc, -⟩ := caller_spec hcaller
  split_ifs at hs with hpc
  obtain ⟨⟨s₁, yields⟩, hadd, hs⟩ := Option.bind_eq_some_iff.1 hs
  cases hs
  obtain ⟨hown, hi⟩ := not_or.1 hpc
  obtain ⟨Q₁, hl, hcur, hrun, htab, hact, hidle, -⟩ := h.startAdd hi hadd
  refine ⟨Q₁, h.stay hl hcur hrun ?_ (fun c' hc' => ?_) fun hn p hp => h.boot hn p (hidle p hp)⟩
  · rw [htab]
    exact fun _ ht => ht
  · obtain rfl := Option.some.inj (hc.symm.trans hc')
    have hr := h.running hc (by simp [not_not.1 hown])
    exact .inl ((hact c hc).1.trans hr)

/-- **`task_start`** from an interrupt handler. -/
theorem taskStart_irq (h : KernelInv cfg k Q W) {tcb : Option α} {fuel : ℕ}
    (hs : kernelStep cfg fuel k (.sched (.taskStart tcb)) = some k') :
    ∃ Q', KernelInv cfg k' Q' W := by
  obtain ⟨sched, hstep, hs⟩ := Option.bind_eq_some_iff.1 hs
  cases hs
  simp only [step] at hstep
  split_ifs at hstep with hi
  rw [taskStart_eq] at hstep
  obtain ⟨⟨s₁, yields⟩, hadd, hy⟩ := Option.bind_eq_some_iff.1 hstep
  obtain ⟨Q₁, hl, hcur, hrun, htab, hact, hidle, habove⟩ := h.startAdd hi hadd
  have hstay : KernelInv cfg { k with sched := s₁ } Q₁ W := by
    refine h.stay hl hcur hrun ?_ (fun c hc => ?_) fun hn p hp => h.boot hn p (hidle p hp)
    · rw [htab]
      exact fun _ ht => ht
    · unfold Kernel.Active
      obtain ⟨hst, hw⟩ := hact c hc
      rw [hst, hw]
      exact h.active c hc
  cases yields with
  | false =>
    cases hy
    exact ⟨Q₁, hstay⟩
  | true =>
    obtain ⟨c, t, hc, hti, htQ, hlt⟩ := habove rfl
    have hc₁ : s₁.currentTask = some c := hcur.trans hc
    have hlt₁ : 0 < (s₁.tcb t).priority := by omega
    obtain ⟨s', Q', hs', hl', hor⟩ := hl.yield (hstay.started.2 (by simp [hc₁])) hc₁
      (hstay.current c hc₁) (fun _ => ⟨_, t, htQ, hti, by omega, fun h0 => by omega⟩) fun hst => by
        refine ⟨?_, fun _ => ⟨_, t, htQ, hlt₁⟩⟩
        rcases hstay.active c hc₁ with hr | ⟨-, hci, -⟩
        · exact absurd hr hst
        · exact hci
    obtain rfl : sched = s' := Option.some.inj (hy.symm.trans hs')
    rcases hor with hinv | ⟨rfl, -, -⟩
    · exact ⟨Q', of_inv hl' hinv⟩
    · exact ⟨Q₁, hstay⟩

/-- What `task_create` accepts is not in use. -/
theorem create_free (h : KernelInv cfg k Q W) {tcb : Option α} {entry : Option ℕ} {priority : ℕ}
    {stack : Option ℕ} (hi : tcb ≠ some cfg.idleTcb)
    (hsafe : Safe cfg k (.sched (.taskCreate tcb entry priority stack))) {t : α}
    (ht : tcb = some t) (he : entry ≠ none) (hst : stack ≠ none) (hp : priority < cfg.maxPriority)
    (hlen : k.sched.taskTable.length < cfg.maxTasks) :
    (k.sched.tcb t).state ≠ .blocked ∧ (t ∈ k.sched.taskTable → (k.sched.tcb t).state ≠ .ready) ∧
      k.sched.currentTask ≠ some t := by
  have hti : t ≠ cfg.idleTcb := fun heq => hi (heq ▸ ht)
  by_cases htab : t ∈ k.sched.taskTable
  · have hstate := hsafe t ht he hst hp hlen htab
    refine ⟨?_, fun _ => ?_, fun hc => ?_⟩
    · rcases hstate with hs | hs
      all_goals simp [hs]
    · rcases hstate with hs | hs
      all_goals simp [hs]
    · rcases h.active t hc with ha | ⟨-, -, ha | ⟨ha, -⟩⟩
      all_goals
        rw [ha] at hstate
        simp at hstate
  · refine ⟨?_, fun hm => absurd hm htab, fun hc => ?_⟩
    · rw [h.fresh t htab hti]
      decide
    · rcases h.current t hc with hm | hm
      · exact htab hm
      · exact hti hm

/-- **`task_create`.** -/
theorem taskCreate (h : KernelInv cfg k Q W) {tcb : Option α} {entry : Option ℕ} {priority : ℕ}
    {stack : Option ℕ} (hsafe : Safe cfg k (.sched (.taskCreate tcb entry priority stack)))
    {fuel : ℕ} (hs : kernelStep cfg fuel k (.sched (.taskCreate tcb entry priority stack)) =
      some k') : KernelInv cfg k' Q W := by
  obtain ⟨sched, hstep, hs⟩ := Option.bind_eq_some_iff.1 hs
  simp only [step] at hstep
  split_ifs at hstep with hi
  obtain rfl := Option.some.inj hstep
  have hfree := fun {t} => h.create_free (t := t) hi hsafe
  have hcore := h.toCore.create hi fun t h1 h2 h3 h4 h5 => (hfree h1 h2 h3 h4 h5).2.1
  have hkept : WaitersKept k.sched.tcb
      (Gracemont.taskCreate cfg k.sched tcb entry priority stack).1.tcb :=
    taskCreate_kept fun t h1 h2 h3 h4 h5 =>
      ⟨(hfree h1 h2 h3 h4 h5).1, h.not_waiting (hfree h1 h2 h3 h4 h5).1⟩
  obtain ⟨hcur, hrun, htab⟩ := @taskCreate_scheduler _ cfg k.sched _ tcb entry priority stack
  have hsame : ∀ c, k.sched.currentTask = some c →
      (Gracemont.taskCreate cfg k.sched tcb entry priority stack).1.tcb c = k.sched.tcb c := by
    intro c hc
    refine taskCreate_of_ne fun t h1 h2 h3 h4 h5 => ?_
    rintro rfl
    exact (hfree h1 h2 h3 h4 h5).2.2 hc
  -- the running task stays where it is in its code
  obtain ⟨hsched, hw, hpc⟩ :
      k'.sched = (Gracemont.taskCreate cfg k.sched tcb entry priority stack).1 ∧
      k'.waitList = k.waitList ∧ ∀ c, k.sched.currentTask = some c → k'.pc c = k.pc c := by
    cases tcb with
    | none =>
      cases hs
      exact ⟨rfl, rfl, fun _ _ => rfl⟩
    | some t =>
      dsimp only at hs
      split_ifs at hs with hok
      · cases hs
        obtain ⟨h2, h3, h4, h5⟩ := taskCreate_ok hok
        refine ⟨rfl, rfl, fun c hc => ?_⟩
        have hct : c ≠ t := by
          rintro rfl
          exact (hfree rfl h2 h3 h4 h5).2.2 hc
        simp [hct]
      · cases hs
        exact ⟨rfl, rfl, fun _ _ => rfl⟩
  have hl := h.kept hcore hkept
  rw [← hsched, ← hw] at hl
  refine h.stay hl ?_ ?_ ?_ (fun c hc => ?_) h.boot
  · rw [hsched, hcur]
  · rw [hsched, hrun]
  · rw [hsched]
    exact htab
  · unfold Kernel.Active
    rw [hsched, hsame c hc, hpc c hc]
    exact h.active c hc

/-- **`scheduler_start`.** -/
theorem schedulerStart (h : KernelInv cfg k Q W) {fuel : ℕ}
    (hs : kernelStep cfg fuel k (.sched .schedulerStart) = some k') :
    ∃ Q', KernelInv cfg k' Q' W := by
  obtain ⟨sched, hstep, hs⟩ := Option.bind_eq_some_iff.1 hs
  cases hs
  simp only [step] at hstep
  split_ifs at hstep with hr
  have hcur : k.sched.currentTask = none := by
    by_contra hne
    exact hr (h.started.2 hne)
  have hinv := h.inv fun c hc => by
    rw [hcur] at hc
    cases hc
  obtain ⟨Q', hi⟩ := hinv.schedulerStart (by simpa using hr) hstep
  have hkept := schedulerStart_kept h.toCore (h.not_waiting (idle_awake h.toCore))
    (hinv.createIdle (h.boot hcur)) hstep
  exact ⟨Q', of_inv (h.kept hi.toCore hkept) hi⟩

/-- **The X86_64 timer interrupt** writes the tick counter. -/
theorem clock (h : KernelInv cfg k Q W) {now : ℕ} {fuel : ℕ}
    (hs : kernelStep cfg fuel k (.sched (.clock now)) = some k') : KernelInv cfg k' Q W := by
  obtain ⟨sched, hstep, hs⟩ := Option.bind_eq_some_iff.1 hs
  cases hs
  simp only [step] at hstep
  split at hstep
  · cases hstep
  · cases hstep
    have hcore : Core cfg { k.sched with systemTicks := cfg.port.tick now } Q :=
      h.toCore.congr rfl rfl (fun _ => rfl) (fun _ => rfl) (fun _ => rfl) fun _ => rfl
    exact h.stay (h.kept hcore (.refl _)) rfl rfl (fun _ ht => ht) h.active h.boot

/-! ### The tick -/

/-- The time slice of the running task, which may be waiting or woken. -/
theorem tickSlice (h : KernelInv cfg k Q W) (hc : k.sched.currentTask = some c)
    (hci : c ≠ cfg.idleTcb)
    (hon : (k.sched.tcb c).remainingSlice = 1 → (∀ call, k.pc c ≠ .yield call) →
      Takeover cfg k.sched Q c)
    (hoff : (k.sched.tcb c).remainingSlice = 1 → (∃ call, k.pc c = .yield call) →
      k.sched.readyList 0 = some cfg.idleTcb → (∃ p t, t ∈ Q p ∧ 0 < p) ∨
        ((k.sched.tcb c).state = .running ∧ 0 < (k.sched.tcb c).priority))
    {sched : Sched α} (hs : tickSlice cfg k.sched c = some sched) :
    ∃ Q', KernelInv cfg { k with sched := sched } Q' W := by
  obtain ⟨f, hf, heq⟩ := tickSlice_cases cfg k.sched c
  have hl : Lists cfg (k.sched.modify c f) k.waitList Q W :=
    h.kept (h.toCore.count c hf) (.modify hf.waitObj hf.next hf.prev hf.state)
  have hst : ∀ t, ((k.sched.modify c f).tcb t).state = (k.sched.tcb t).state :=
    fun t => Lib.Store.modify_field Tcb.state _ _ (hf.state _) t
  have hprio : ((k.sched.modify c f).tcb c).priority = (k.sched.tcb c).priority :=
    Lib.Store.modify_field Tcb.priority _ _ (hf.priority _) c
  have hstay : KernelInv cfg { k with sched := k.sched.modify c f } Q W := by
    refine h.stay hl rfl rfl (fun _ ht => ht) (fun c' hc' => ?_) h.boot
    have hw : ((k.sched.modify c f).tcb c').waitObj = (k.sched.tcb c').waitObj :=
      Lib.Store.modify_field Tcb.waitObj _ _ (hf.waitObj _) c'
    unfold Kernel.Active
    rw [hst, hw]
    exact h.active c' hc'
  have hrunning := h.started.2 (by simp [hc])
  have hct := (h.current c hc).resolve_right hci
  rw [heq] at hs
  split_ifs at hs with h1
  swap
  · cases hs
    exact ⟨Q, hstay⟩
  by_cases hr : (k.sched.tcb c).state = .running
  · by_cases hy : ∃ call, k.pc c = .yield call
    · -- picked again, the task still has its own `task_yield` before it
      obtain ⟨s', Q', hs', hl', hor⟩ := hl.yield_again hrunning hc hct hci ((hst c).trans hr)
        fun h0 => by
          rw [hprio]
          exact (hoff h1 hy h0).imp id And.right
      obtain rfl : sched = s' := Option.some.inj (hs.symm.trans hs')
      rcases hor with hinv | ⟨hc', hrun', htab, hready⟩
      · exact ⟨Q', of_inv hl' hinv⟩
      · refine ⟨Q', hstay.stay hl' (hc'.trans hc.symm) hrun' ?_ (fun c' hc'' => ?_) fun hn => ?_⟩
        · rw [htab]
          exact fun _ ht => ht
        · obtain rfl := Option.some.inj (hc.symm.trans hc'')
          exact .inr ⟨hy, hci, .inl hready⟩
        · exact absurd (hc.symm.trans hn) (by simp)
    · have htake : Takeover cfg (k.sched.modify c f) Q c := by
        obtain ⟨q, t, htq, hti, hcq, hq0⟩ := hon h1 fun call hp => hy ⟨call, hp⟩
        exact ⟨q, t, htq, hti, by rwa [hprio], hq0⟩
      obtain ⟨s', Q', hs', hl', hor⟩ := hl.yield hrunning hc (h.current c hc) (fun _ => htake)
        fun hn => absurd ((hst c).trans hr) hn
      obtain rfl : sched = s' := Option.some.inj (hs.symm.trans hs')
      rcases hor with hinv | ⟨rfl, -, -⟩
      · exact ⟨Q', of_inv hl' hinv⟩
      · exact ⟨Q, hstay⟩
  · have hy : ∃ call, k.pc c = .yield call := ((h.active c hc).resolve_left hr).1
    obtain ⟨s', Q', hs', hl', hor⟩ := hl.yield hrunning hc (h.current c hc)
      (fun hr' => absurd ((hst c).symm.trans hr') hr) fun _ => ⟨hci, fun h0 =>
        (hoff h1 hy h0).resolve_right fun hr' => hr hr'.1⟩
    obtain rfl : sched = s' := Option.some.inj (hs.symm.trans hs')
    rcases hor with hinv | ⟨rfl, -, -⟩
    · exact ⟨Q', of_inv hl' hinv⟩
    · exact ⟨Q, hstay⟩

/-- **`scheduler_tick`**, wherever the running task is. -/
theorem schedulerTick (h : KernelInv cfg k Q W) (hsafe : Safe cfg k (.sched .schedulerTick))
    {fuel : ℕ} (hs : kernelStep cfg fuel k (.sched .schedulerTick) = some k') :
    ∃ Q', KernelInv cfg k' Q' W := by
  obtain ⟨sched, hstep, hs⟩ := Option.bind_eq_some_iff.1 hs
  cases hs
  have hcore : Core cfg { k.sched with systemTicks := tickNow cfg k.sched } Q :=
    h.toCore.congr rfl rfl (fun _ => rfl) (fun _ => rfl) (fun _ => rfl) fun _ => rfl
  obtain ⟨s₁, Q₁, hs₁, hw, hdue⟩ := hcore.wakeSleepers (L := k.sched.taskTable) fun _ ht => ht
  have hkept := wakeSleepers_kept hcore (fun _ ht => ht) hs₁
  change WaitersKept k.sched.tcb s₁.tcb at hkept
  simp only [step] at hstep
  rw [schedulerTick_eq, hs₁, Option.bind_some] at hstep
  have hcur : s₁.currentTask = k.sched.currentTask := hw.relinked.currentTask
  have hst : ∀ c, k.sched.currentTask = some c →
      (s₁.tcb c).state = (k.sched.tcb c).state := by
    intro c hc
    rcases h.active c hc with ha | ⟨-, -, ha | ⟨hb, hwo⟩⟩
    · exact hw.awake c (by simp [ha])
    · exact hw.awake c (by simp [ha])
    · rw [hb]
      exact (hkept.keep c hb hwo).2.2
  have hstay : KernelInv cfg { k with sched := s₁ } Q₁ W := by
    refine h.stay (h.kept hw.core hkept) hcur hw.relinked.schedulerRunning ?_ (fun c hc => ?_)
      fun hn p hp => h.boot hn p (hw.idle h.toCore hp)
    · intro t ht
      exact hw.relinked.taskTable.symm ▸ ht
    · unfold Kernel.Active
      rw [hst c hc, hkept.waitObj]
      exact h.active c hc
  rw [hcur] at hstep
  cases hc : k.sched.currentTask with
  | none =>
    simp only [hc] at hstep
    split at hstep
    · cases hstep
    · cases hstep
      exact ⟨Q₁, hstay⟩
  | some c =>
    simp only [hc] at hstep
    split_ifs at hstep with hci
    · cases hstep
      exact ⟨Q₁, hstay⟩
    have hslice : (s₁.tcb c).remainingSlice = (k.sched.tcb c).remainingSlice :=
      hw.relinked.remainingSlice c
    have hprio : (s₁.tcb c).priority = (k.sched.tcb c).priority := hw.relinked.priority c
    refine hstay.tickSlice (hcur.trans hc) hci (fun h1 hy => ?_) (fun h1 hy h0 => ?_) hstep
    · exact hw.takeover h.toCore hdue ((hsafe c hc hci (hslice.symm.trans h1)).1 hy)
    · obtain ⟨t, -, hon, hpt⟩ := (hsafe c hc hci (hslice.symm.trans h1)).2 hy
        (hw.idle_head h.toCore ((hw.core.queues.ring 0).head_eq.symm.trans h0))
      rcases hon with hon | hon | ⟨rfl, hr⟩
      · exact .inl ⟨_, t, hw.queued h.toCore hdue (.inl hon), hpt⟩
      · exact .inl ⟨_, t, hw.queued h.toCore hdue (.inr hon), hpt⟩
      · exact .inr ⟨(hst t hc).trans hr, by rwa [← hprio] at hpt⟩

/-- **Every safe operation keeps the invariant.** -/
theorem step (h : KernelInv cfg k Q W) {op : KernelOp α} (hsafe : Safe cfg k op) {fuel : ℕ}
    (hs : kernelStep cfg fuel k op = some k') : ∃ Q' W', KernelInv cfg k' Q' W' := by
  cases op with
  | sched op =>
    cases op with
    | taskCreate tcb entry priority stack => exact ⟨Q, W, h.taskCreate hsafe hs⟩
    | taskStart tcb =>
      obtain ⟨Q', h'⟩ := h.taskStart_irq hs
      exact ⟨Q', W, h'⟩
    | taskYield =>
      obtain ⟨Q', h'⟩ := h.taskYield hsafe hs
      exact ⟨Q', W, h'⟩
    | taskSleep ticks =>
      obtain ⟨Q', h'⟩ := h.taskSleep hsafe hs
      exact ⟨Q', W, h'⟩
    | taskTerminate =>
      obtain ⟨Q', h'⟩ := h.taskTerminate hsafe hs
      exact ⟨Q', W, h'⟩
    | schedulerTick =>
      obtain ⟨Q', h'⟩ := h.schedulerTick hsafe hs
      exact ⟨Q', W, h'⟩
    | schedulerStart =>
      obtain ⟨Q', h'⟩ := h.schedulerStart hs
      exact ⟨Q', W, h'⟩
    | clock now => exact ⟨Q, W, h.clock hs⟩
  | taskStart tcb =>
    obtain ⟨Q', h'⟩ := h.taskStart hs
    exact ⟨Q', W, h'⟩
  | call call =>
    obtain ⟨c, hcaller, hs⟩ := Option.bind_eq_some_iff.1 hs
    obtain ⟨hc, hci⟩ := caller_spec hcaller
    split at hs
    case h_1 hpc =>
      cases hs
      obtain ⟨W', h'⟩ := h.turn hc hci (by simp [hpc]) true call
      exact ⟨Q, W', h'⟩
    case h_2 => cases hs
  | yield =>
    obtain ⟨Q', h'⟩ := h.yield hsafe hs
    exact ⟨Q', W, h'⟩
  | resume =>
    obtain ⟨c, hcaller, hs⟩ := Option.bind_eq_some_iff.1 hs
    obtain ⟨hc, hci⟩ := caller_spec hcaller
    split at hs
    case h_1 call hpc =>
      cases hs
      obtain ⟨W', h'⟩ := h.turn hc hci (by simp [hpc]) false call
      exact ⟨Q, W', h'⟩
    case h_2 => cases hs
  | semTrywait i =>
    have hw : (semTrywait (k.sem i)).1.waitList = (k.sem i).waitList := by
      unfold semTrywait
      split_ifs
      · rfl
      · rfl
    cases hs
    exact ⟨Q, W, h.obj_same rfl (waitList_sem rfl rfl rfl) hw rfl⟩
  | semPost i => exact h.semPost hs
  | mutexTrylock i =>
    obtain ⟨c, -, hs⟩ := Option.bind_eq_some_iff.1 hs
    have hw : (mutexTrylock (k.mutex i) c).1.waitList = (k.mutex i).waitList := by
      unfold mutexTrylock
      split_ifs
      · rfl
      · rfl
      · rfl
    cases hs
    exact ⟨Q, W, h.obj_same rfl (waitList_mutex rfl rfl rfl) hw rfl⟩
  | mutexUnlock i => exact h.mutexUnlock hs
  | eventSet i mask => exact h.eventSet hs
  | eventClear i mask =>
    have hw : (eventClear (k.event i) mask).waitList = (k.event i).waitList := rfl
    cases hs
    exact ⟨Q, W, h.obj_same rfl (waitList_event rfl rfl rfl) hw rfl⟩

/-- The invariant holds at boot. -/
theorem boot_inv (h0 : (kernelLts cfg).init k) :
    KernelInv cfg k (fun _ => []) fun _ => [] := by
  obtain ⟨hsched, hsem, hmutex, hevent, -⟩ := h0
  have hinv := inv_boot (α := α) cfg
  have hnone : ∀ o, k.waitList o = none := by
    intro o
    cases o with
    | sem i =>
      obtain ⟨n, hn⟩ := hsem i
      simp [Kernel.waitList, hn, semInit]
    | mutex i => simp [Kernel.waitList, hmutex, mutexInit]
    | event i => simp [Kernel.waitList, hevent, eventInit]
    | msgq i => rfl
  rw [← hsched] at hinv
  have hwait : ∀ t, (k.sched.tcb t).waitObj = none := by
    intro t
    rw [hsched]
    rfl
  refine of_inv ⟨hinv.toCore, fun o => ?_, fun o t => ?_, fun o t ht => by cases ht⟩ hinv
  · rw [hnone]
    exact Lib.chain_nil
  · simp [hwait]

end KernelInv

/-- **List exclusivity of the task links.**  Along every run of safe operations,
    in any interleaving, each task is on at most one wait list or ready list,
    and the task that executes its own code is on none. -/
theorem lists_exclusive_of_safe (cfg : SchedConfig α) {tr : List (KernelOp α)} {k : Kernel α}
    (h : ((kernelLts cfg).restrict (Safe cfg)).Run tr k) : ListsExclusive k := by
  have hinv : ∃ Q W, KernelInv cfg k Q W := by
    refine h.rule (P := fun _ k => ∃ Q W, KernelInv cfg k Q W) ?_ ?_
    · intro k h0
      exact ⟨_, _, KernelInv.boot_inv h0⟩
    · rintro tr k op k' ⟨Q, W, hk⟩ ⟨hsafe, fuel, hs⟩
      exact hk.step hsafe hs
  obtain ⟨Q, W, hk⟩ := hinv
  exact hk.listsExclusive

end

/-- The kernel at boot, with semaphores of count 0. -/
def demoBoot : Kernel (Fin 3) where
  sched := .boot
  sem _ := semInit 0
  mutex _ := mutexInit
  event _ := eventInit
  pc _ := .own

theorem demoBoot_init : (kernelLts (demoConfig .x86_64)).init demoBoot :=
  ⟨rfl, fun _ => ⟨0, rfl⟩, fun _ => rfl, fun _ => rfl, fun _ => rfl⟩

/-- Task 1 waits, and is woken before its `task_yield`; task 2 runs, and yields. -/
def demoWoken : List (KernelOp (Fin 3)) :=
  [.sched (.taskCreate (some 1) (some 0) 1 (some 0)),
    .sched (.taskCreate (some 2) (some 0) 1 (some 0)), .sched (.taskStart (some 1)),
    .sched (.taskStart (some 2)), .sched .schedulerStart, .call (.semWait 0), .semPost 0, .yield,
    .sched .taskYield, .resume]

theorem demoWoken_runs :
    (Lib.Lts.exec (kernelStep (demoConfig .x86_64) 0) demoBoot demoWoken).isSome := by
  decide +kernel

theorem lists_exclusive_of_safe_woken : ∃ k,
    Lib.Lts.exec (kernelStep (demoConfig .x86_64) 0) demoBoot demoWoken = some k ∧
    k.sched.currentTask = some 1 ∧ k.pc 1 = .own ∧ ListsExclusive k := by
  refine ⟨_, (Option.some_get demoWoken_runs).symm, by decide +kernel, by decide +kernel,
    lists_exclusive_of_safe (demoConfig .x86_64) (Lib.Lts.run_of_exec_restrict
      (kernelLts_step _ 0) demoBoot_init (Option.some_get demoWoken_runs).symm
      fun i hi => ?_)⟩
  have hi : i = 0 ∨ i = 1 ∨ i = 2 ∨ i = 3 ∨ i = 4 ∨ i = 5 ∨ i = 6 ∨ i = 7 ∨ i = 8 ∨ i = 9 := by
    simp only [demoWoken, List.length_cons, List.length_nil] at hi
    omega
  rcases hi with rfl | rfl | rfl | rfl | rfl | rfl | rfl | rfl | rfl | rfl
  · rintro t ⟨⟩
    decide +kernel
  · rintro t ⟨⟩
    decide +kernel
  · trivial
  · trivial
  · trivial
  · trivial
  · trivial
  · intro c hc
    obtain rfl : c = 1 := by
      revert c
      decide +kernel
    refine ⟨fun hr => absurd hr (by decide +kernel), fun _ => ⟨by decide +kernel, fun h0 => ?_⟩⟩
    exact absurd h0 (by decide +kernel)
  · intro c hc
    obtain rfl : c = 2 := by
      revert c
      decide +kernel
    exact ⟨1, by decide, Or.inl ⟨1, [1], by decide +kernel, by decide⟩, by decide +kernel,
      by decide +kernel⟩
  · trivial

/-- A task alone waits on a semaphore that is posted before its `task_yield`. -/
def demoEarly : List (KernelOp (Fin 3)) :=
  [.sched (.taskCreate (some 1) (some 0) 1 (some 0)), .sched (.taskStart (some 1)),
    .sched .schedulerStart, .call (.semWait 0), .semPost 0, .yield, .resume]

theorem demoEarly_runs :
    (Lib.Lts.exec (kernelStep (demoConfig .x86_64) 0) demoBoot demoEarly).isSome := by
  decide +kernel

/-- The task then waits on the semaphore again. -/
theorem demoEarly_again_runs : (Lib.Lts.exec (kernelStep (demoConfig .x86_64) 0) demoBoot
    (demoEarly ++ [.call (.semWait 0)])).isSome := by
  decide +kernel

/-- **A wake-up before the `task_yield`** of the task it wakes: `schedule_locked`
    picks the task again and leaves it on its ready list, where it executes its
    own code; and when it waits again, it is on two lists. -/
theorem lists_exclusive_broken :
    (∃ k, (kernelLts (demoConfig .x86_64)).Run demoEarly k ∧ k.sched.currentTask = some 1 ∧
      k.pc 1 = .own ∧ k.OnList (.ready 1) 1 ∧ ¬ ListsExclusive k) ∧
    ∃ k, (kernelLts (demoConfig .x86_64)).Run (demoEarly ++ [.call (.semWait 0)]) k ∧
      k.OnList (.ready 1) 1 ∧ k.OnList (.wait (.sem 0)) 1 ∧ ¬ ListsExclusive k := by
  have honList : ∀ {k : Kernel (Fin 3)} {list : TaskList}, k.head list = some 1 →
      k.OnList list 1 := by
    intro k list hhead
    unfold Kernel.OnList
    rw [hhead]
    exact .here
  constructor
  · have hrun : (kernelLts (demoConfig .x86_64)).Run demoEarly _ := Lib.Lts.run_of_exec
      (kernelLts_step _ 0) demoBoot_init (Option.some_get demoEarly_runs).symm
    refine ⟨_, hrun, ?_⟩
    generalize hk : (Lib.Lts.exec _ _ _).get demoEarly_runs = k
    have hc : k.sched.currentTask = some 1 := by
      subst hk
      decide +kernel
    have hpc : k.pc 1 = .own := by
      subst hk
      decide +kernel
    have hready : k.OnList (.ready 1) 1 := by
      refine honList ?_
      subst hk
      decide +kernel
    refine ⟨hc, hpc, hready, fun h => h.own 1 hc ?_ _ hready⟩
    rw [hpc]
    exact id
  · have hrun : (kernelLts (demoConfig .x86_64)).Run (demoEarly ++ [.call (.semWait 0)]) _ :=
      Lib.Lts.run_of_exec (kernelLts_step _ 0) demoBoot_init
        (Option.some_get demoEarly_again_runs).symm
    refine ⟨_, hrun, ?_⟩
    generalize hk : (Lib.Lts.exec _ _ _).get demoEarly_again_runs = k
    have hready : k.OnList (.ready 1) 1 := by
      refine honList ?_
      subst hk
      decide +kernel
    have hwait : k.OnList (.wait (.sem 0)) 1 := by
      refine honList ?_
      subst hk
      decide +kernel
    refine ⟨hready, hwait, fun h => ?_⟩
    cases h.one 1 _ _ hready hwait

end X86

end Gracemont
