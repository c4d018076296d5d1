/-
  Gracemont kernel — priority inheritance and the ready lists (ARM64).

  A task that owns a mutex and was preempted is on the ready list of its
  priority.  A `mutex_lock` by a task of higher priority raises the priority and
  leaves the task on that list; `ready_list_remove`, which goes by the priority,
  then works on another list.  There is no state in which this does no harm
  (`boost_breaks_ready_lists`).

  * `ReadyRings`, `ReadyExact`: what the ready lists are meant to be;
  * `Boosts`: the turn of `mutex_lock` raises the priority of a listed task;
  * `Boosted`: what the turn does to the blocks.
-/
import Gracemont.Kernel.PriorityInv
import Gracemont.Kernel.System

namespace Gracemont

variable {α : Type}

/-- Every ready list is a ring through ready tasks of its priority. -/
def ReadyRings (cfg : SchedConfig α) (s : Sched α) : Prop :=
  ∀ p < cfg.maxPriority, ∃ l, Lib.Ring s.tcb.next s.tcb.prev (s.readyList p) l ∧
    ∀ t ∈ l, (s.tcb t).state = .ready ∧ (s.tcb t).priority = p

/-- **The ready lists** hold exactly the ready tasks, each in the list of its
    priority. -/
structure ReadyExact (cfg : SchedConfig α) (s : Sched α) : Prop where
  rings : ReadyRings cfg s
  complete : ∀ t ∈ s.taskTable, t ≠ cfg.idleTcb → (s.tcb t).state = .ready →
    OnReadyList s (s.tcb t).priority t

/-- The operation is a turn of the running task `c` in the loop of `mutex_lock`,
    and the mutex has an owner of lower priority, which is on the ready list of
    its priority. -/
structure Boosts [DecidableEq α] (cfg : SchedConfig α) (k : Kernel α) (op : KernelOp α) (c o : α)
    (i : ℕ) : Prop where
  caller : k.caller cfg = some c
  enters : (op = .call (.mutexLock i) ∧ k.pc c = .own) ∨
    (op = .resume ∧ k.pc c = .resume (.mutexLock i) ∧ (k.sched.tcb c).waitResult = .ok)
  owner : (k.mutex i).owner = some o
  listed : OnReadyList k.sched (k.sched.tcb o).priority o
  bound : (k.sched.tcb o).priority < cfg.maxPriority
  higher : (k.sched.tcb o).priority < (k.sched.tcb c).priority

/-! ## The boost -/

/-- Between `s` and `s₁`, the task `c` raised the priority of `o` and went to
    sleep on a wait list. -/
structure Boosted (s s₁ : Sched α) (c o : α) : Prop where
  current : s₁.currentTask = some c
  readyList : s₁.readyList = s.readyList
  next : ∀ u, u ≠ c → (s₁.tcb u).next = (s.tcb u).next
  prev : ∀ u, u ≠ c → (s₁.tcb u).prev = some c ∨ (s₁.tcb u).prev = (s.tcb u).prev
  blocked : (s₁.tcb c).state = .blocked
  raised : (s₁.tcb o).priority = (s.tcb c).priority
  priority : ∀ u, u ≠ o → (s₁.tcb u).priority = (s.tcb u).priority

section
variable [DecidableEq α] {cfg : SchedConfig α} {k : Kernel α} {op : KernelOp α}
variable {s s₁ s₂ : Sched α} {c o : α} {i : ℕ}

theorem blockOn_next {m : Tcbs α} {list : Option α} {obj : WaitObj} {t u : α} (hu : u ≠ t) :
    ((blockOn m list obj t).1 u).next = (m u).next := by
  simp only [blockOn, waitListAdd]
  rw [Lib.Store.modifyAt_field Tcb.next _ _ fun _ => by rfl,
    Lib.Store.modify_of_ne _ hu, Lib.Store.modify_of_ne _ hu, Lib.Store.modify_of_ne _ hu]

theorem blockOn_prev {m : Tcbs α} {list : Option α} {obj : WaitObj} {t u : α} (hu : u ≠ t) :
    ((blockOn m list obj t).1 u).prev = some t ∨
      ((blockOn m list obj t).1 u).prev = (m u).prev := by
  simp only [blockOn, waitListAdd]
  by_cases hlist : list = some u
  · subst hlist
    exact .inl (by simp)
  · refine .inr ?_
    rw [Lib.Store.modifyAt_of_ne _ hlist, Lib.Store.modify_of_ne _ hu,
      Lib.Store.modify_of_ne _ hu, Lib.Store.modify_of_ne _ hu]

/-- **The turn of `mutex_lock`** boosts the owner, and the caller is before its
    `task_yield`. -/
theorem Boosts.boosted (h : Boosts cfg k op c o i) (fuel : ℕ) :
    ∃ k₁, kernelStep cfg fuel k op = some (k₁, []) ∧ Boosted k.sched k₁.sched c o ∧
      k₁.pc c = .yield (.mutexLock i) := by
  obtain ⟨hcur, -⟩ := Option.filter_eq_some_iff.1 h.caller
  have hco : o ≠ c := by
    intro he
    have hlt := h.higher
    rw [he] at hlt
    exact Nat.lt_irrefl _ hlt
  have hloop : mutexLockLoop (.mutex i) k.sched.tcb (k.mutex i) c = _ :=
    mutexLockLoop_owned h.owner
  -- both turns end in the loop
  obtain ⟨first, hstep, hturn⟩ : ∃ first : Bool, kernelStep cfg fuel k op =
      some (turn k c first (.mutexLock i)) ∧
      (if first then mutexLock (.mutex i) k.sched.tcb (k.mutex i) c
        else mutexResume (.mutex i) k.sched.tcb (k.mutex i) c) =
        mutexLockLoop (.mutex i) k.sched.tcb (k.mutex i) c := by
    obtain ⟨rfl, hpc⟩ | ⟨rfl, hpc, hok⟩ := h.enters
    · refine ⟨true, ?_, ?_⟩
      · simp only [kernelStep, h.caller, Option.bind_eq_bind, Option.bind_some, hpc]
      · refine (if_pos rfl).trans (if_neg ?_)
        rw [h.owner]
        exact fun he => hco (Option.some.inj he)
    · refine ⟨false, ?_, ?_⟩
      · simp only [kernelStep, h.caller, Option.bind_eq_bind, Option.bind_some, hpc]
      · exact (if_neg Bool.false_ne_true).trans (if_neg (not_not.2 hok))
  rw [hstep]
  simp only [turn, hturn, hloop]
  refine ⟨_, rfl, ?_, ?_⟩
  · constructor
    · exact hcur
    · rfl
    · intro u hu
      refine (blockOn_next hu).trans ?_
      unfold boost
      split_ifs
      · rw [Lib.Store.modify_field Tcb.next _ _ (by rfl)]
      · rfl
    · intro u hu
      have hboost : (boost k.sched.tcb o c u).prev = (k.sched.tcb u).prev := by
        unfold boost
        split_ifs
        · rw [Lib.Store.modify_field Tcb.prev _ _ (by rfl)]
        · rfl
      rw [← hboost]
      exact blockOn_prev hu
    · exact blockOn_state.trans (if_pos rfl)
    · refine blockOn_priority.trans ((boost_priority o).trans ?_)
      rw [if_pos ⟨rfl, h.higher⟩]
    · intro u hu
      refine blockOn_priority.trans ((boost_priority o).trans ?_)
      rw [if_neg fun he => hu he.1]
  · exact Function.update_self ..

/-! ## The ready lists after it -/

omit [DecidableEq α] in
/-- **The list of the old priority** is no ring of ready tasks of this priority:
    following it, one comes to `o`, which has another one, or to `c`, which is
    not ready. -/
theorem Boosted.not_rings (h : Boosted s s₁ c o) (hlisted : OnReadyList s (s.tcb o).priority o)
    (hbound : (s.tcb o).priority < cfg.maxPriority)
    (hhigher : (s.tcb o).priority < (s.tcb c).priority) : ¬ ReadyRings cfg s₁ := by
  intro hrings
  obtain ⟨l, hl, hmem⟩ := hlisted
  obtain ⟨l₁, hl₁, hl₁all⟩ := hrings _ hbound
  rw [h.readyList] at hl₁
  obtain ⟨a, b, rfl⟩ := List.append_of_mem hmem
  have hclosed : ∀ x y, x ∈ l₁ → s₁.tcb.next x = some y → y ∈ l₁ := fun x y hx hy =>
    hl₁.next_mem hx hy
  have hhead : ∀ x, (a ++ o :: b).head? = some x → x ∈ l₁ := by
    intro x hx
    rw [← hl.head_eq] at hx
    rw [hx] at hl₁
    exact hl₁.head_mem
  by_cases hc : c ∈ a
  · obtain ⟨a, a', rfl, hca⟩ := List.eq_append_cons_of_mem hc
    rw [List.append_assoc, List.cons_append] at hl hhead
    have hcl : c ∈ l₁ := hl.seg.reach hclosed (fun x hx => h.next x fun he => hca (he ▸ hx)) hhead
    have hready := (hl₁all c hcl).1
    rw [h.blocked] at hready
    cases hready
  · have hol : o ∈ l₁ := hl.seg.reach hclosed (fun x hx => h.next x fun he => hc (he ▸ hx)) hhead
    have hprio := (hl₁all o hol).2
    rw [h.raised] at hprio
    omega

/-! ## The ready lists after `task_yield` -/

/-- What `task_yield` of the blocked caller switches to: the head of the highest
    ready list. -/
theorem Boosted.yield (h : Boosted s s₁ c o) (hyield : taskYield cfg s₁ = some s₂) {p : ℕ}
    (hp : p < cfg.maxPriority) (hlist : s.readyList p ≠ none)
    (hc : ∀ q < cfg.maxPriority, s.readyList q ≠ some c) :
    ∃ x q, p ≤ q ∧ q < cfg.maxPriority ∧ s.readyList q = some x ∧ ∃ s',
      (if x = cfg.idleTcb then some s₁ else readyListRemove s₁ x) = some s' ∧
      s₂.readyList = s'.readyList ∧ (∀ u, (s₂.tcb u).next = (s'.tcb u).next) ∧
      ∀ u, (s₂.tcb u).priority = (s'.tcb u).priority := by
  have hsched : scheduleLocked cfg s₁ = some s₂ := by
    rw [← hyield]
    simp [taskYield, h.current, h.blocked]
  cases hx : highestReady s₁.readyList cfg.maxPriority with
  | none =>
    rw [h.readyList] at hx
    exact absurd (highestReady_none.1 hx p hp) hlist
  | some x =>
    have hhigh : getHighestReady cfg s₁ = x := by rw [getHighestReady, hx, Option.getD_some]
    rw [h.readyList] at hx
    obtain ⟨q, hq, hqx, habove⟩ := highestReady_some.1 hx
    have hpq : p ≤ q := by
      by_contra hlt
      exact hlist (habove p (Nat.lt_of_not_le hlt) hp)
    obtain ⟨hcur, -⟩ | ⟨-, s', hs', rfl⟩ := scheduleLocked_cases hsched
    · rw [h.current, hhigh] at hcur
      exact absurd (hqx.trans hcur.symm) (hc q hq)
    · rw [hhigh] at hs'
      refine ⟨x, q, hpq, hq, hqx, s', hs', rfl, fun u => ?_, fun u => ?_⟩
      · exact Lib.Store.modify_field Tcb.next _ _ rfl u
      · exact Lib.Store.modify_field Tcb.priority _ _ rfl u

omit [DecidableEq α] in
/-- The way to `o` is as it was, so that one comes to `o` on a ring with its head. -/
theorem Boosted.reaches (h : Boosted s s₁ c o) {next prev : α → Option α} {head u v : Option α}
    {a b l : List α} (hseg : Lib.Seg s.tcb.next s.tcb.prev u (a ++ o :: b) v)
    (hnext : ∀ y ∈ a, next y = (s₁.tcb y).next) (hac : ∀ y ∈ a, y ≠ c)
    (hhead : head = (a ++ o :: b).head?) (hl : Lib.Ring next prev head l) : o ∈ l := by
  refine hseg.reach (fun y z hy hz => hl.next_mem hy hz) ?_ ?_
  · intro y hy
    exact (hnext y hy).trans (h.next y (hac y hy))
  · intro y hy
    rw [hhead, hy] at hl
    exact hl.head_mem

omit [DecidableEq α] in
/-- Behind the head `y` of a ring comes the way to `o`: the predecessor of `y` is
    the last task, so not before `o`. -/
theorem ring_tail {next prev : α → Option α} {head : Option α} {y : α} {a b : List α}
    (hl : Lib.Ring next prev head (y :: (a ++ o :: b))) :
    (∃ z, next y = some z ∧ z ≠ y ∧ (a ++ o :: b).head? = some z) ∧ y ∉ a ∧
      (∀ u ∈ a, prev y ≠ some u) ∧ ∃ v, Lib.Seg next prev (some y) (a ++ o :: b) v := by
  obtain ⟨hprev, hnext, hseg⟩ := hl.seg
  obtain ⟨hynd, hnd⟩ := List.nodup_cons.1 hl.nodup
  obtain ⟨z, hz⟩ : ∃ z, (a ++ o :: b).head? = some z := by
    cases a with
    | nil => exact ⟨o, rfl⟩
    | cons z a => exact ⟨z, rfl⟩
  have hlast : (y :: (a ++ o :: b)).getLast? = (o :: b).getLast? := by
    rw [List.getLast?_cons, List.getLast?_append, List.getLast?_cons]
    rfl
  refine ⟨⟨z, ?_, ?_, hz⟩, fun hy => hynd (List.mem_append_left _ hy), fun u hu hpu => ?_, _, hseg⟩
  · rw [hnext, hz]
    rfl
  · rintro rfl
    exact hynd (List.mem_of_head? hz)
  · have hu' : (o :: b).getLast? = some u := by
      rw [← hlast]
      exact hprev.symm.trans hpu
    exact (List.nodup_append.1 hnd).2.2 u hu u (List.mem_of_getLast? hu') rfl

/-- **After `task_yield`**, following the list of the old priority, one still
    comes to `o`, or to a block that is unlinked. -/
theorem Boosted.not_rings_yield (h : Boosted s s₁ c o) (hrunning : (s.tcb c).state = .running)
    (hrings : ReadyRings cfg s) (hlisted : OnReadyList s (s.tcb o).priority o)
    (hbound : (s.tcb o).priority < cfg.maxPriority)
    (hhigher : (s.tcb o).priority < (s.tcb c).priority) (hyield : taskYield cfg s₁ = some s₂) :
    ¬ ReadyRings cfg s₂ := by
  intro hrings₂
  obtain ⟨l, hl, hlall⟩ := hrings _ hbound
  obtain ⟨l', hl', hol⟩ := hlisted
  obtain rfl := hl'.unique hl
  have hnotc : ∀ {q : ℕ} {l : List α}, (∀ t ∈ l, (s.tcb t).state = .ready ∧
      (s.tcb t).priority = q) → ∀ u ∈ l, u ≠ c := by
    rintro q l hall u hu rfl
    have hready := (hall u hu).1
    rw [hrunning] at hready
    cases hready
  have hlist : s.readyList (s.tcb o).priority ≠ none := by
    intro hnone
    rw [hnone] at hl
    rw [hl.head_none] at hol
    cases hol
  have hcaller : ∀ q < cfg.maxPriority, s.readyList q ≠ some c := by
    intro q hq hqc
    obtain ⟨lq, hlq, hlqall⟩ := hrings q hq
    rw [hqc] at hlq
    exact hnotc hlqall c hlq.head_mem rfl
  obtain ⟨x, q, hpq, hq, hqx, s', hs', hready₂, hnext₂, hprio₂⟩ :=
    h.yield hyield hbound hlist hcaller
  obtain ⟨lq, hlq, hlqall⟩ := hrings q hq
  have hxmem : x ∈ lq := by
    rw [hqx] at hlq
    exact hlq.head_mem
  have hxc : x ≠ c := hnotc hlqall x hxmem
  obtain ⟨l₂, hl₂, hl₂all⟩ := hrings₂ _ hbound
  rw [hready₂] at hl₂
  -- a task of the list keeps its old priority, and `o` does not have it
  have hoff : (s'.tcb o).priority = (s₁.tcb o).priority → o ∉ l₂ := by
    intro hprio hol
    have hp := (hl₂all o hol).2
    rw [hprio₂, hprio, h.raised] at hp
    omega
  obtain ⟨a, b, rfl⟩ := List.append_of_mem hol
  have hac : ∀ y ∈ a, y ≠ c := fun y hy => hnotc hlall y (List.mem_append_left _ hy)
  by_cases hidle : x = cfg.idleTcb
  · -- nothing is unlinked
    rw [if_pos hidle] at hs'
    obtain rfl := Option.some.inj hs'
    exact hoff rfl (h.reaches hl.seg (fun y _ => hnext₂ y) hac
      ((congrFun h.readyList _).trans hl.head_eq) hl₂)
  rw [if_neg hidle] at hs'
  obtain ⟨hnone, hkeep, hprio, hother, hhead⟩ := readyListRemove_next hs'
  by_cases hxo : x = o
  · -- the owner itself is unlinked, from a list that it is not on
    subst hxo
    have hqp : q = (s.tcb x).priority := ((hlqall x hxmem).2).symm
    have hne : (s.tcb x).priority ≠ (s₁.tcb x).priority := by
      rw [h.raised]
      omega
    rw [hother _ hne, h.readyList, ← hqp, hqx] at hl₂
    exact hl₂.next_ne_none hl₂.head_mem ((hnext₂ x).trans hnone)
  have hxprio : (s₁.tcb x).priority = q := (h.priority x hxo).trans (hlqall x hxmem).2
  rw [hxprio] at hother hhead
  have hpred : ∀ y ≠ c, (s₁.tcb x).prev = some y → (s.tcb x).prev = some y := by
    intro y hyc hy
    obtain hp | hp := h.prev x hxc
    · exact absurd (Option.some.inj (hy.symm.trans hp)) hyc
    · exact hp.symm.trans hy
  by_cases hqp : q = (s.tcb o).priority
  · -- another task of the list is unlinked, its head
    subst hqp
    obtain rfl := hlq.unique hl
    rw [hqx] at hl
    obtain ⟨rest, hrest⟩ := hl.head_some
    cases a with
    | nil => exact hxo (List.cons.inj hrest).1.symm
    | cons y a =>
      obtain rfl : y = x := (List.cons.inj hrest).1
      obtain ⟨⟨z, hz, hzy, hhz⟩, hya, hlast, v, hseg⟩ := ring_tail hl
      have hac' : ∀ u ∈ a, u ≠ c := fun u hu => hac u (List.mem_cons_of_mem y hu)
      have hz₁ : (s₁.tcb y).next = some z := (h.next y hxc).trans hz
      refine hoff (hprio o) (h.reaches hseg (fun u hu => ?_) hac' ?_ hl₂)
      · refine (hnext₂ u).trans (hkeep u (fun he => hya (he ▸ hu)) fun hu' => ?_)
        exact hlast u hu (hpred u (hac' u hu) hu')
      · rw [hhead (by rw [h.readyList]; exact hqx) (by rw [hz₁]; simpa using hzy), hz₁, hhz]
  · -- a task of another list is unlinked
    refine hoff (hprio o) (h.reaches hl.seg (fun y hy => ?_) hac ?_ hl₂)
    · have hyl := (hlall y (List.mem_append_left _ hy)).2
      refine (hnext₂ y).trans (hkeep y ?_ fun hy' => ?_)
      · rintro rfl
        exact hqp ((hlqall y hxmem).2.symm.trans hyl)
      · exact hqp ((hlqall y (hlq.prev_mem hxmem (hpred y (hac y hy) hy'))).2.symm.trans hyl)
    · rw [hother _ (Ne.symm hqp), h.readyList, hl.head_eq]

/-- **Boosting a task on a ready list** always breaks the ready lists: they are
    wrong after the turn of `mutex_lock` that boosts, and if they were rings
    before and the caller was running, they are also wrong after its
    `task_yield`. -/
theorem boost_breaks_ready_lists (h : Boosts cfg k op c o i) (fuel : ℕ) :
    ∃ k₁, kernelStep cfg fuel k op = some (k₁, []) ∧ ¬ ReadyExact cfg k₁.sched ∧
      (ReadyRings cfg k.sched → (k.sched.tcb c).state = .running →
        ∀ k₂ woken, kernelStep cfg fuel k₁ .yield = some (k₂, woken) →
          ¬ ReadyExact cfg k₂.sched) := by
  obtain ⟨k₁, hstep, hboost, -⟩ := h.boosted fuel
  refine ⟨k₁, hstep, fun hex => ?_, fun hrings hrunning k₂ woken hyield hex => ?_⟩
  · exact hboost.not_rings h.listed h.bound h.higher hex.rings
  · obtain ⟨c', -, hyield⟩ := Option.bind_eq_some_iff.1 hyield
    split at hyield
    · obtain ⟨s₂, hs₂, hyield⟩ := Option.bind_eq_some_iff.1 hyield
      obtain ⟨rfl, -⟩ := Prod.mk.inj (Option.some.inj hyield)
      exact hboost.not_rings_yield hrunning hrings h.listed h.bound h.higher hs₂ hex.rings
    · cases hyield

end

/-- The task 1 of priority 1 owns the mutex 0 and is preempted by the task 2 of
    priority 5. -/
def demoPreempted : List (KernelOp (Fin 3)) :=
  [.sched (.taskCreate (some 1) (some 0) 1 (some 0)),
    .sched (.taskCreate (some 2) (some 0) 5 (some 0)), .sched (.taskStart (some 1)),
    .sched .schedulerStart, .call (.mutexLock 0), .sched (.taskStart (some 2))]

theorem demoPreempted_runs :
    (Lib.Lts.exec (kernelNext (demoConfig .arm64) 0) demoKernel demoPreempted).isSome := by
  decide +kernel

theorem demoKernel_init : (kernelLts (demoConfig .arm64)).init demoKernel :=
  ⟨rfl, fun _ => ⟨0, rfl⟩, fun _ => rfl, fun _ => rfl, fun _ => ⟨some fun _ => 0, 1, 1, rfl⟩,
    fun _ => rfl⟩

theorem boost_breaks_ready_lists_preempted : ∃ k, (kernelLts (demoConfig .arm64)).Run
    demoPreempted k ∧ ∃ k₁, kernelStep (demoConfig .arm64) 0 k (.call (.mutexLock 0)) =
      some (k₁, []) ∧ ¬ ReadyExact (demoConfig .arm64) k₁.sched := by
  have hrun := kernelLts_run demoKernel_init (Option.some_get demoPreempted_runs).symm
  refine ⟨_, hrun, ?_⟩
  generalize hk : (Lib.Lts.exec _ _ _).get demoPreempted_runs = k
  have hboosts : Boosts (demoConfig .arm64) k (.call (.mutexLock 0)) 2 1 0 := by
    subst hk
    refine ⟨by decide +kernel, .inl ⟨rfl, by rfl⟩, by decide +kernel,
      ⟨[1], by decide +kernel, by decide⟩, by decide +kernel, by decide +kernel⟩
  obtain ⟨k₁, hstep, hex, -⟩ := boost_breaks_ready_lists hboosts 0
  exact ⟨k₁, hstep, hex⟩

theorem demoBoost_runs : (Lib.Lts.exec (kernelNext (demoConfig .arm64) 0) demoKernel
    (demoPreempted ++ [.call (.mutexLock 0), .yield])).isSome := by decide +kernel

/-- **A list with an unlinked head.**  After the `mutex_lock` of the task 2 the
    task 1 runs, and is the head of the ready list of priority 1. -/
theorem unlinked_head : ∃ k, (kernelLts (demoConfig .arm64)).Run
    (demoPreempted ++ [.call (.mutexLock 0), .yield]) k ∧ k.sched.currentTask = some 1 ∧
      k.sched.readyList 1 = some 1 ∧ (k.sched.tcb 1).next = none ∧
      ¬ ReadyExact (demoConfig .arm64) k.sched := by
  refine ⟨_, kernelLts_run demoKernel_init (Option.some_get demoBoost_runs).symm, ?_⟩
  generalize hk : (Lib.Lts.exec _ _ _).get demoBoost_runs = k
  have hhead : k.sched.readyList 1 = some 1 ∧ (k.sched.tcb 1).next = none := by
    subst hk
    decide +kernel
  refine ⟨by subst hk; decide +kernel, hhead.1, hhead.2, fun hex => ?_⟩
  obtain ⟨l, hl, -⟩ := hex.rings 1 (by decide)
  rw [hhead.1] at hl
  exact hl.next_ne_none hl.head_mem hhead.2

end Gracemont
