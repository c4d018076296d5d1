/-
  Gracemont kernel — event flags, for both ports.

  One event and the tasks that use it, in any interleaving, with `task_yield`
  as a pair of events as for semaphores: a task resumes once it is no longer
  blocked.  The state holds the scheduler too, since `event_set` of the X86_64
  port hands each waiter to `task_ready_add` inside its loop.  Of the scheduler
  the system only uses that it leaves blocked tasks alone (`Elsewhere`) and
  keeps its ready lists in order (`ReadyInOrder`).

  A condition is a property of the bits of the flags (`EventCond.Holds`), and
  setting more flags keeps it.  The main result is `event_flags`.
-/
import Gracemont.Kernel.ReadyList
import Gracemont.Kernel.SemInv

namespace Gracemont

variable {α : Type}

/-! ## Conditions -/

/-- What `event_wait` waits for: all the bits of its mask, or one of them. -/
def EventCond.Holds (cond : EventCond) (flags : BitVec 32) : Prop :=
  if cond.waitAll then ∀ i, cond.mask.getLsbD i = true → flags.getLsbD i = true
  else ∃ i, cond.mask.getLsbD i = true ∧ flags.getLsbD i = true

/-- The flags that a successful `event_wait` leaves. -/
def EventCond.after (cond : EventCond) (flags : BitVec 32) : BitVec 32 :=
  if cond.clear then flags &&& ~~~cond.mask else flags

namespace EventCond
variable (cond : EventCond) {flags flags' : BitVec 32}

/-- The test of `event_wait`. -/
theorem holds_iff : (cond.waitAll ∧ flags &&& cond.mask = cond.mask) ∨
    (¬ cond.waitAll ∧ flags &&& cond.mask ≠ 0) ↔ cond.Holds flags := by
  have hbit : ∀ i, (flags &&& cond.mask).getLsbD i = (flags.getLsbD i && cond.mask.getLsbD i) :=
    fun i => BitVec.getLsbD_and
  have hzero : ∀ i, (0 : BitVec 32).getLsbD i = false := fun i => BitVec.getLsbD_zero
  unfold Holds
  split_ifs with hall
  · simp only [hall, not_true, true_and, false_and, or_false]
    constructor
    · intro h i hi
      have hi' := hbit i
      rw [h, hi, Bool.and_true] at hi'
      exact hi'.symm
    · intro h
      apply BitVec.eq_of_getLsbD_eq
      intro i _
      rw [hbit]
      cases hm : cond.mask.getLsbD i with
      | false => rw [Bool.and_false]
      | true => rw [h i hm, Bool.and_true]
  · simp only [hall, not_false_eq_true, true_and, false_and, false_or, Bool.false_eq_true]
    constructor
    · intro h
      by_contra hnone
      refine h (BitVec.eq_of_getLsbD_eq fun i _ => ?_)
      rw [hbit, hzero]
      by_contra hi
      rw [Bool.not_eq_false, Bool.and_eq_true] at hi
      exact hnone ⟨i, hi.2, hi.1⟩
    · rintro ⟨i, hm, hf⟩ h
      have hi := hbit i
      rw [h, hm, hf, hzero] at hi
      cases hi

variable {cond}

/-- **Monotonicity.**  More flags keep a condition. -/
theorem Holds.mono (h : cond.Holds flags)
    (hle : ∀ i, flags.getLsbD i = true → flags'.getLsbD i = true) : cond.Holds flags' := by
  unfold Holds at h ⊢
  split_ifs at h ⊢
  · exact fun i hi => hle i (h i hi)
  · obtain ⟨i, hm, hf⟩ := h
    exact ⟨i, hm, hle i hf⟩

/-- Clearing flags satisfies no condition. -/
theorem Holds.of_clear {mask : BitVec 32} (h : cond.Holds (flags &&& ~~~mask)) :
    cond.Holds flags := by
  refine h.mono fun i hi => ?_
  rw [BitVec.getLsbD_and, Bool.and_eq_true] at hi
  exact hi.1

theorem Holds.of_after {cond' : EventCond} (h : cond.Holds (cond'.after flags)) :
    cond.Holds flags := by
  unfold after at h
  split_ifs at h
  · exact h.of_clear
  · exact h

theorem after_getLsbD (cond : EventCond) {i : ℕ} (hi : i < 32) : (cond.after flags).getLsbD i =
    (flags.getLsbD i && !(cond.clear && cond.mask.getLsbD i)) := by
  unfold after
  cases hc : cond.clear with
  | false => simp
  | true => simp [hi]

end EventCond

/-! ## The loop of `event_set` on X86_64 -/

section
variable [DecidableEq α]

/-- The body of the loop, with `task_ready_add`; `inr none` is the dereference
    of a null pointer. -/
def X86.eventWakeBody : Sched α × Option α × List α →
    (Sched α × Option α × List α) ⊕ Option (Sched α × Option α × List α)
  | (s, list, woken) =>
    let (m, list, waiter) := wakeFirst s.tcb list
    let s := { s with tcb := m }
    match waiter with
    | none => .inr (some (s, list, woken))
    | some t => match readyListAdd s t with
      | none => .inr none
      | some s => .inl (s, list, woken ++ [t])

/-- `event_set`, and the tasks it woke. -/
def X86.eventSet (fuel : ℕ) (s : Sched α) (event : Event α) (mask : BitVec 32) :
    Option (Sched α × Event α × List α) := do
  let event := { event with flags := event.flags ||| mask }
  let r ← Lib.Loop.run X86.eventWakeBody fuel (s, event.waitList, [])
  let (s, list, woken) ← r
  some (s, { event with waitList := list }, woken)

end

/-! ## An event in use -/

/-- An event in use; `waiting t`: the task `t` is in the `task_yield` of
    `event_wait`, with these arguments. -/
structure EventUse (α : Type) where
  sched : Sched α
  event : Event α
  waiting : α → Option EventCond

/-- The turns on the event, with their outcomes. -/
inductive EventTurn (α : Type) where
  | wait (t : α) (cond : EventCond) (r : Option (BitVec 32))
  | resume (t : α) (r : Option (BitVec 32))
  | set (mask : BitVec 32) (woken : List α)
  | clear (mask : BitVec 32)
  | sched

/-- The ready lists are rings of ready tasks. -/
def ReadyInOrder (s : Sched α) : Prop :=
  ∃ Q, ReadyQueues s Q ∧ ∀ p, ∀ t ∈ Q p, (s.tcb t).state = .ready

/-- The task is on no ready list. -/
def Unlisted (s : Sched α) (t : α) : Prop :=
  ∀ p l, Lib.Ring s.tcb.next s.tcb.prev (s.readyList p) l → t ∉ l

section
variable [DecidableEq α]

/-- One turn of `event_wait`. -/
def EventUse.waitTurn (obj : WaitObj) (s : EventUse α) (t : α) (cond : EventCond)
    (r : Option (BitVec 32)) (s' : EventUse α) : Prop :=
  Unlisted s.sched t ∧ ∃ m event, eventWait obj s.sched.tcb s.event t cond = (m, event, r) ∧
    s' = ⟨{ s.sched with tcb := m }, event,
      Function.update s.waiting t (if r.isNone then some cond else none)⟩

/-- One turn.  The calls are made by running tasks, which are on no ready list;
    a task resumes when it is not blocked any more. -/
def eventStep (port : Port) (obj : WaitObj) (s : EventUse α) : EventTurn α → EventUse α → Prop
  | .wait t cond r, s' => s.waiting t = none ∧ s.waitTurn obj t cond r s'
  | .resume t r, s' => (s.sched.tcb t).state ≠ .blocked ∧
    ∃ cond, s.waiting t = some cond ∧ s.waitTurn obj t cond r s'
  | .set mask woken, s' => match port with
    | .arm64 => ∃ fuel m event, eventSet fuel s.sched.tcb s.event mask = some (m, event, woken) ∧
      s' = ⟨{ s.sched with tcb := m }, event, s.waiting⟩
    | .x86_64 => ∃ fuel sched event,
      X86.eventSet fuel s.sched s.event mask = some (sched, event, woken) ∧
      s' = ⟨sched, event, s.waiting⟩
  | .clear mask, s' => s' = ⟨s.sched, eventClear s.event mask, s.waiting⟩
  | .sched, s' => ∃ sched, Elsewhere obj s.sched.tcb sched.tcb ∧ ReadyInOrder sched ∧
    s' = ⟨sched, s.event, s.waiting⟩

/-- The event as a transition system, from `event_init`. -/
def eventLts (port : Port) (obj : WaitObj) : Lib.Lts (EventUse α) (EventTurn α) :=
  ⟨fun s => s.event = eventInit ∧ ReadyInOrder s.sched ∧ (∀ t, ¬ BlockedOn obj s.sched.tcb t) ∧
    ∀ t, s.waiting t = none, eventStep port obj⟩

/-! ## Ready lists and wait lists -/

variable {s s' : Sched α} {Q : ℕ → List α} {t x : α}

omit [DecidableEq α] in
theorem ReadyQueues.not_mem (h : ReadyQueues s Q) (ht : Unlisted s t) (p : ℕ) : t ∉ Q p :=
  ht p _ (h.ring p)

omit [DecidableEq α] in
/-- Writes to blocks that are on no ready list. -/
theorem ReadyQueues.frame (h : ReadyQueues s Q) (hr : s'.readyList = s.readyList)
    (hx : ∀ p, ∀ x ∈ Q p, s'.tcb x = s.tcb x) : ReadyQueues s' Q := by
  refine h.congr hr ?_ ?_ ?_
  · intro p x hm
    rw [hx p x hm]
  · intro p x hm
    rw [hx p x hm]
  · intro p x hm
    rw [hx p x hm]

/-- `ready_list_add` does not write to a block that is on no ready list. -/
theorem readyListAdd_frame (h : ReadyQueues s Q) (ht : ∀ p, t ∉ Q p) (hx : ∀ p, x ∉ Q p)
    (hne : x ≠ t) (hs : readyListAdd s t = some s') : s'.tcb x = s.tcb x := by
  cases hhd : s.readyList (s.tcb t).priority with
  | none =>
    rw [readyListAdd_empty hhd] at hs
    cases hs
    simp [hne]
  | some head =>
    have hring := h.ring (s.tcb t).priority
    rw [hhd] at hring
    obtain ⟨tail, htm, hz⟩ := hring.prev_some
    have hhm := hring.head_mem
    have hht : head ≠ t := fun he => ht _ (he ▸ hhm)
    have hxh : x ≠ head := fun he => hx _ (he ▸ hhm)
    have hxl : x ≠ tail := fun he => hx _ (he ▸ htm)
    rw [readyListAdd_cons hhd hz hht] at hs
    cases hs
    simp [hne, hxh, hxl]

/-- The wait list `W` of the tasks blocked on an object, beside the ready lists
    `Q`. -/
structure Waiters (obj : WaitObj) (s : Sched α) (list : Option α) (W : List α)
    (Q : ℕ → List α) : Prop where
  chain : Lib.Chain s.tcb.next s.tcb.prev list W
  blocked : ∀ t, t ∈ W ↔ BlockedOn obj s.tcb t
  queues : ReadyQueues s Q
  ready : ∀ p, ∀ t ∈ Q p, (s.tcb t).state = .ready

namespace Waiters
variable {obj : WaitObj} {list : Option α} {W : List α}

omit [DecidableEq α] in
/-- No task is on both kinds of list. -/
theorem apart (h : Waiters obj s list W Q) (ht : t ∈ W) (p : ℕ) : t ∉ Q p := by
  intro hp
  have hb := ((h.blocked t).1 ht).1
  rw [h.ready p t hp] at hb
  cases hb

/-- A running task goes to sleep. -/
theorem block (h : Waiters obj s list W Q) (ht : t ∉ W) (hQ : ∀ p, t ∉ Q p) :
    Waiters obj { s with tcb := (blockOn s.tcb list obj t).1 } (some t) (t :: W) Q := by
  obtain ⟨m, hm, hc, hst, hwo, hother, -⟩ := blockOn_spec obj h.chain ht
  have hkeep : ∀ p, ∀ x ∈ Q p, m x = s.tcb x := by
    intro p x hx
    have hxt : x ≠ t := fun he => hQ p (he ▸ hx)
    have hb := blockOn_frame h.chain obj hxt fun hW => h.apart hW p hx
    rwa [hm] at hb
  rw [hm]
  refine ⟨hc, ?_, h.queues.frame rfl hkeep, ?_⟩
  · intro x
    by_cases hx : x = t
    · subst hx
      simp [BlockedOn, hst, hwo]
    · obtain ⟨h1, h2⟩ := hother x hx
      unfold BlockedOn
      rw [h1, h2, List.mem_cons, or_iff_right hx]
      exact h.blocked x
  · intro p x hx
    show (m x).state = .ready
    rw [hkeep p x hx]
    exact h.ready p x hx

/-- The first waiter is woken. -/
theorem wake (h : Waiters obj s list (t :: W) Q) :
    ∃ m list', wakeFirst s.tcb list = (m, list', some t) ∧
      Waiters obj { s with tcb := m } list' W Q := by
  obtain ⟨m, list', hm, hc, hst, hwo, -, hother⟩ := wakeFirst_spec h.chain
  have hnd := (List.nodup_cons.1 h.chain.nodup).1
  have hkeep : ∀ p, ∀ x ∈ Q p, m x = s.tcb x := by
    intro p x hx
    have hw := wakeFirst_frame h.chain fun hW => h.apart hW p hx
    rwa [hm] at hw
  refine ⟨m, list', hm, hc, ?_, h.queues.frame rfl hkeep, ?_⟩
  · intro x
    by_cases hx : x = t
    · subst hx
      simp [BlockedOn, hst, hnd]
    · obtain ⟨h1, h2, -⟩ := hother x hx
      have hb := h.blocked x
      rw [List.mem_cons, or_iff_right hx] at hb
      unfold BlockedOn at hb ⊢
      rw [h1, h2]
      exact hb
  · intro p x hx
    show (m x).state = .ready
    rw [hkeep p x hx]
    exact h.ready p x hx

/-- A woken task is handed to `task_ready_add`. -/
theorem readyAdd (h : Waiters obj s list W Q) (ht : t ∉ W) (hQ : ∀ p, t ∉ Q p) :
    ∃ s' Q', readyListAdd s t = some s' ∧ Waiters obj s' list W Q' := by
  obtain ⟨s', hs', hq, hrel, hst⟩ := readyListAdd_spec h.queues hQ
  have hkeep : ∀ x ∈ W, s'.tcb x = s.tcb x := by
    intro x hx
    exact readyListAdd_frame h.queues hQ (h.apart hx) (fun he => ht (he ▸ hx)) hs'
  refine ⟨s', _, hs', h.chain.congr ?_ ?_, ?_, hq, ?_⟩
  · intro x hx
    exact congrArg Tcb.next (hkeep x hx)
  · intro x hx
    exact congrArg Tcb.prev (hkeep x hx)
  · intro x
    unfold BlockedOn
    rw [hst, hrel.waitObj]
    split_ifs with hx
    · subst hx
      simp [ht]
    · exact h.blocked x
  · intro p x hx
    rw [hst]
    split_ifs with hxt
    · rfl
    · by_cases hp : p = (s.tcb t).priority
      · subst hp
        rw [Function.update_self, List.mem_append, List.mem_singleton, or_iff_left hxt] at hx
        exact h.ready _ x hx
      · rw [Function.update_of_ne hp] at hx
        exact h.ready p x hx

/-- The loop of `event_set` on ARM64 wakes every waiter. -/
theorem wakeAll (h : Waiters obj s list W Q) (woken : List α) :
    ∃ m, Lib.Loop.run eventWakeBody (W.length + 1) (s.tcb, list, woken) =
        some (m, none, woken ++ W) ∧ Waiters obj { s with tcb := m } none [] Q := by
  induction W generalizing s list woken with
  | nil =>
    obtain rfl : list = none := h.chain.head_eq
    refine ⟨s.tcb, ?_, h⟩
    rw [List.append_nil]
    rfl
  | cons t W ih =>
    obtain ⟨m, list', hm, hw⟩ := h.wake
    obtain ⟨m', hrun, hw'⟩ := ih hw (woken ++ [t])
    refine ⟨m', ?_, hw'⟩
    rw [List.append_assoc, List.singleton_append] at hrun
    rw [← hrun, List.length_cons, Lib.Loop.run]
    simp only [eventWakeBody, hm]

/-- The loop of `event_set` on X86_64 wakes every waiter. -/
theorem x86_wakeAll (h : Waiters obj s list W Q) (woken : List α) :
    ∃ s' Q', Lib.Loop.run X86.eventWakeBody (W.length + 1) (s, list, woken) =
        some (some (s', none, woken ++ W)) ∧ Waiters obj s' none [] Q' := by
  induction W generalizing s list woken Q with
  | nil =>
    obtain rfl : list = none := h.chain.head_eq
    refine ⟨s, Q, ?_, h⟩
    rw [List.append_nil]
    rfl
  | cons t W ih =>
    have hnd := (List.nodup_cons.1 h.chain.nodup).1
    obtain ⟨m, list', hm, hw⟩ := h.wake
    obtain ⟨s₁, Q₁, hs₁, hw₁⟩ := hw.readyAdd hnd (h.apart (List.mem_cons_self ..))
    obtain ⟨s', Q', hrun, hw'⟩ := ih hw₁ (woken ++ [t])
    refine ⟨s', Q', ?_, hw'⟩
    rw [List.append_assoc, List.singleton_append] at hrun
    rw [← hrun, List.length_cons, Lib.Loop.run]
    simp only [X86.eventWakeBody, hm, hs₁]

end Waiters

/-! ## The invariant -/

/-- Every waiter waits for a condition that does not hold. -/
structure EventInv (obj : WaitObj) (s : EventUse α) (W : List α) : Prop where
  waiters : ∃ Q, Waiters obj s.sched s.event.waitList W Q
  unmet : ∀ t ∈ W, ∃ cond, s.waiting t = some cond ∧ ¬ cond.Holds s.event.flags

namespace EventInv
variable {obj : WaitObj} {port : Port} {s s' : EventUse α} {W : List α} {t : α}

/-- A turn of `event_wait`: the task goes to sleep, or its condition holds. -/
theorem waitTurn_cases {m : Tcbs α} {event event' : Event α} {cond : EventCond}
    {m' : Tcbs α} {r : Option (BitVec 32)} (h : eventWait obj m event t cond = (m', event', r)) :
    (¬ cond.Holds event.flags ∧ r = none ∧ m' = (blockOn m event.waitList obj t).1 ∧
      event' = { event with waitList := some t }) ∨
    (cond.Holds event.flags ∧ r = some event.flags ∧ m' = m ∧
      event' = { event with flags := cond.after event.flags }) := by
  unfold eventWait at h
  simp only at h
  split_ifs at h with hc hclear
  · cases h
    exact Or.inr ⟨cond.holds_iff.1 hc, rfl, rfl, by rw [EventCond.after, if_pos hclear]⟩
  · cases h
    exact Or.inr ⟨cond.holds_iff.1 hc, rfl, rfl, by rw [EventCond.after, if_neg hclear]⟩
  · cases h
    exact Or.inl ⟨fun hm => hc (cond.holds_iff.2 hm), rfl, rfl, rfl⟩

theorem waitTurn (hI : EventInv obj s W) (ht : t ∉ W) {cond : EventCond}
    {r : Option (BitVec 32)} (hs : s.waitTurn obj t cond r s') : ∃ W', EventInv obj s' W' := by
  obtain ⟨hout, m, event, h, rfl⟩ := hs
  obtain ⟨Q, hw⟩ := hI.waiters
  rcases waitTurn_cases h with ⟨hc, rfl, rfl, rfl⟩ | ⟨hc, rfl, rfl, rfl⟩
  · refine ⟨t :: W, ⟨Q, hw.block ht (hw.queues.not_mem hout)⟩, ?_⟩
    intro x hx
    by_cases hxt : x = t
    · subst hxt
      exact ⟨cond, by simp, hc⟩
    · obtain ⟨cond', h1, h2⟩ := hI.unmet x ((List.mem_cons.1 hx).resolve_left hxt)
      exact ⟨cond', by simpa [hxt] using h1, h2⟩
  · refine ⟨W, ⟨Q, hw⟩, ?_⟩
    intro x hx
    have hxt : x ≠ t := fun he => ht (he ▸ hx)
    obtain ⟨cond', h1, h2⟩ := hI.unmet x hx
    exact ⟨cond', by simpa [hxt] using h1, fun hm => h2 hm.of_after⟩

/-- **`event_set`** empties the wait list. -/
theorem set (hI : EventInv obj s W) {mask : BitVec 32} {woken : List α}
    (hs : eventStep port obj s (.set mask woken) s') : EventInv obj s' [] := by
  obtain ⟨Q, hw⟩ := hI.waiters
  cases port with
  | arm64 =>
    obtain ⟨fuel, m, event, h, rfl⟩ := hs
    obtain ⟨m', hrun, hw'⟩ := hw.wakeAll []
    obtain ⟨⟨m₁, list, woken₁⟩, hr, he⟩ := Option.bind_eq_some_iff.1 h
    cases Lib.Loop.run_unique hr hrun
    cases he
    exact ⟨⟨Q, hw'⟩, by simp⟩
  | x86_64 =>
    obtain ⟨fuel, sched, event, h, rfl⟩ := hs
    obtain ⟨sched', Q', hrun, hw'⟩ := hw.x86_wakeAll []
    obtain ⟨r, hr, he⟩ := Option.bind_eq_some_iff.1 h
    cases Lib.Loop.run_unique hr hrun
    cases he
    exact ⟨⟨Q', hw'⟩, by simp⟩

/-- `event_set` returns. -/
theorem set_returns (hI : EventInv obj s W) (mask : BitVec 32) :
    ∃ s', eventStep port obj s (.set mask W) s' := by
  obtain ⟨Q, hw⟩ := hI.waiters
  cases port with
  | arm64 =>
    obtain ⟨m', hrun, -⟩ := hw.wakeAll []
    exact ⟨_, W.length + 1, m', _, by simp only [eventSet, hrun]; rfl, rfl⟩
  | x86_64 =>
    obtain ⟨sched', Q', hrun, -⟩ := hw.x86_wakeAll []
    exact ⟨_, W.length + 1, sched', _, by simp only [X86.eventSet, hrun]; rfl, rfl⟩

/-- What the rest of the kernel does leaves the waiters alone. -/
theorem sched (hI : EventInv obj s W) (hs : eventStep port obj s .sched s') : EventInv obj s' W := by
  obtain ⟨sched', he, ⟨Q', hq, hr⟩, rfl⟩ := hs
  obtain ⟨Q, hw⟩ := hI.waiters
  have hkeep : ∀ x ∈ W, sched'.tcb x = s.sched.tcb x := by
    intro x hx
    exact he.keep x ((hw.blocked x).1 hx)
  refine ⟨⟨Q', hw.chain.congr ?_ ?_, ?_, hq, hr⟩, hI.unmet⟩
  · intro x hx
    exact congrArg Tcb.next (hkeep x hx)
  · intro x hx
    exact congrArg Tcb.prev (hkeep x hx)
  · intro x
    constructor
    · intro hx
      unfold BlockedOn
      rw [hkeep x hx]
      exact (hw.blocked x).1 hx
    · intro hx
      exact (hw.blocked x).2 (he.fresh x hx)

theorem step (hI : EventInv obj s W) {e : EventTurn α} (hs : eventStep port obj s e s') :
    ∃ W', EventInv obj s' W' := by
  have hasleep : ∀ x ∈ W, (s.sched.tcb x).state = .blocked := by
    intro x hx
    obtain ⟨Q, hw⟩ := hI.waiters
    exact ((hw.blocked x).1 hx).1
  cases e with
  | wait t cond r =>
    obtain ⟨hnone, hs⟩ := hs
    refine hI.waitTurn (fun ht => ?_) hs
    obtain ⟨cond', hc, -⟩ := hI.unmet t ht
    rw [hnone] at hc
    cases hc
  | resume t r =>
    obtain ⟨hst, cond, -, hs⟩ := hs
    exact hI.waitTurn (fun ht => hst (hasleep t ht)) hs
  | set mask woken => exact ⟨[], hI.set hs⟩
  | clear mask =>
    cases hs
    refine ⟨W, hI.waiters, fun t ht => ?_⟩
    obtain ⟨cond, hc, hunmet⟩ := hI.unmet t ht
    exact ⟨cond, hc, fun hm => hunmet hm.of_clear⟩
  | sched => exact ⟨W, hI.sched hs⟩

theorem of_run {tr : List (EventTurn α)} (h : (eventLts port obj).Run tr s) :
    ∃ W, EventInv obj s W := by
  induction h with
  | start h0 =>
    obtain ⟨he, ⟨Q, hq, hr⟩, hb, -⟩ := h0
    refine ⟨[], ⟨Q, ?_, ?_, hq, hr⟩, by simp⟩
    · rw [he]
      exact Lib.chain_nil
    · intro t
      simpa using hb t
  | snoc _ hs ih =>
    obtain ⟨W, hI⟩ := ih
    exact hI.step hs

end EventInv

/-- A turn of `event_wait` with these arguments, in which it returns `flags`. -/
def EventTurn.Returns (s : EventUse α) (t : α) (cond : EventCond) (flags : BitVec 32) :
    EventTurn α → Prop
  | .wait u cond' r => u = t ∧ cond' = cond ∧ r = some flags
  | .resume u r => u = t ∧ s.waiting t = some cond ∧ r = some flags
  | _ => False

/-- **Event flags.**  In any interleaving, the wait list holds tasks whose
    conditions do not hold; and a turn in which `event_wait` returns starts with
    flags for which its condition holds, reports these flags, and clears the
    bits of its mask, when asked to, and no other. -/
theorem event_flags (port : Port) (obj : WaitObj) {tr : List (EventTurn α)} {s : EventUse α}
    (h : (eventLts port obj).Run tr s) :
    (∃ W, Lib.Chain s.sched.tcb.next s.sched.tcb.prev s.event.waitList W ∧
      ∀ t ∈ W, ∃ cond, s.waiting t = some cond ∧ ¬ cond.Holds s.event.flags) ∧
    ∀ e s', eventStep port obj s e s' → ∀ t cond flags, e.Returns s t cond flags →
      cond.Holds s.event.flags ∧ flags = s.event.flags ∧
        ∀ i < 32, s'.event.flags.getLsbD i =
          (s.event.flags.getLsbD i && !(cond.clear && cond.mask.getLsbD i)) := by
  constructor
  · obtain ⟨W, hI⟩ := EventInv.of_run h
    obtain ⟨Q, hw⟩ := hI.waiters
    exact ⟨W, hw.chain, hI.unmet⟩
  · intro e s' hs t cond flags hr
    have hturn : s.waitTurn obj t cond (some flags) s' := by
      cases e with
      | wait u cond' r =>
        obtain ⟨rfl, rfl, rfl⟩ := hr
        exact hs.2
      | resume u r =>
        obtain ⟨rfl, hw, rfl⟩ := hr
        obtain ⟨-, cond', hw', hs⟩ := hs
        obtain rfl := Option.some.inj (hw.symm.trans hw')
        exact hs
      | set => exact hr.elim
      | clear => exact hr.elim
      | sched => exact hr.elim
    obtain ⟨-, m, event, he, rfl⟩ := hturn
    rcases EventInv.waitTurn_cases he with ⟨-, hr, -, -⟩ | ⟨hc, hr, -, rfl⟩
    · cases hr
    · exact ⟨hc, Option.some.inj hr, fun i hi => cond.after_getLsbD hi⟩

/-- Task 1 waits for the bits 0 and 1, to clear them. -/
def demoCond : EventCond := ⟨3, true, true⟩

omit [DecidableEq α] in
/-- With empty ready lists, no task is on one. -/
theorem unlisted_of_empty {s : Sched α} (h : ∀ p, s.readyList p = none) (t : α) :
    Unlisted s t := by
  intro p l hl ht
  rw [h p] at hl
  rw [hl.head_none] at ht
  cases ht

theorem event_flags_woken : ∃ s s' : EventUse (Fin 2),
    (eventLts .arm64 (.event 0)).Run [.wait 1 demoCond none, .set 7 [1]] s ∧
    eventStep .arm64 (.event 0) s (.resume 1 (some 7)) s' ∧ demoCond.Holds s.event.flags ∧
    ∀ i < 32, s'.event.flags.getLsbD i =
      (s.event.flags.getLsbD i && !(demoCond.clear && demoCond.mask.getLsbD i)) := by
  have h₀ : (eventLts .arm64 (.event 0)).Run ([] : List (EventTurn (Fin 2)))
      ⟨.boot, eventInit, fun _ => none⟩ := by
    refine .start ⟨rfl, ⟨fun _ => [], ⟨fun _ => Lib.ring_nil, ?_⟩, ?_⟩, ?_, fun _ => rfl⟩
    · simp
    · simp
    · simp [BlockedOn, Sched.boot, Tcb.zero]
  have h₁ := h₀.snoc (e := EventTurn.wait 1 demoCond none)
    ⟨rfl, unlisted_of_empty (fun _ => rfl) 1, _, _, rfl, rfl⟩
  have h₂ := h₁.snoc (e := EventTurn.set 7 [1]) ⟨2, _, _, rfl, rfl⟩
  obtain ⟨s, hrun, hw, s', hstep⟩ : ∃ s : EventUse (Fin 2),
      (eventLts .arm64 (.event 0)).Run [.wait 1 demoCond none, .set 7 [1]] s ∧
      s.waiting 1 = some demoCond ∧ ∃ s', eventStep .arm64 (.event 0) s (.resume 1 (some 7)) s' :=
    ⟨_, h₂, rfl, _, by decide, demoCond, rfl, unlisted_of_empty (fun _ => rfl) 1, _, _, rfl, rfl⟩
  obtain ⟨hc, -, hbits⟩ := (event_flags .arm64 (.event 0) hrun).2 _ _ hstep 1 demoCond 7
    ⟨rfl, hw, rfl⟩
  exact ⟨s, s', hrun, hstep, hc, hbits⟩

end

end Gracemont
