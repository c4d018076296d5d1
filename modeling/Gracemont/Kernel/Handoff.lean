/-
  Gracemont kernel — to whom a mutex is handed over, for both ports.

  `wait_list_add` inserts a task at the front of the wait list, and
  `wait_list_remove_first` takes it from there: whatever the priorities, the task
  that came last is woken first.

  * `HandOff`: what an unlock has to do;
  * `handoffLts`: one mutex and its waiters, in order of arrival, in any interleaving;
  * `handoff_run`: the wait list has them in the opposite order;
  * `mutex_handoff_iff`.
-/
import Gracemont.Kernel.MutexInv
import Gracemont.Kernel.PriorityInv

namespace Gracemont

variable {α : Type} [DecidableEq α]

/-! ## Statement -/

/-- The head of the wait list of a mutex. -/
def mutexWaitList : (port : Port) → PortMutex port α → Option α
  | .arm64, mutex => Mutex.waitList mutex
  | .x86_64, mutex => X86.Mutex.waitList mutex

/-- **A hand-off** from the blocks `m`, with these waiters: one of the highest
    priority is woken, if there are any, the others stay on the wait list, and
    nobody else is woken. -/
structure HandOff (m : Tcbs α) (waiters : List α) (m' : Tcbs α) (list woken : Option α) :
    Prop where
  some_woken : woken = none → waiters = []
  highest : ∀ w, woken = some w → w ∈ waiters ∧ ∀ u ∈ waiters, (m u).priority ≤ (m w).priority
  ready : ∀ w, woken = some w →
    (m' w).state = .ready ∧ (m' w).waitObj = none ∧ (m' w).waitResult = .ok
  rest : ∃ W, Lib.Chain m'.next m'.prev list W ∧ ∀ u, u ∈ W ↔ u ∈ waiters ∧ woken ≠ some u
  others : ∀ u, woken ≠ some u → (m' u).state = (m u).state ∧ (m' u).waitObj = (m u).waitObj ∧
    (m' u).waitResult = (m u).waitResult

/-! ## Waking the first task of a list -/

/-- The same blocks, up to their priorities. -/
structure SameButPriority (m m' : Tcbs α) : Prop where
  next : m'.next = m.next
  prev : m'.prev = m.prev
  rest : ∀ u, (m' u).state = (m u).state ∧ (m' u).waitObj = (m u).waitObj ∧
    (m' u).waitResult = (m u).waitResult

omit [DecidableEq α] in
theorem SameButPriority.refl (m : Tcbs α) : SameButPriority m m :=
  ⟨rfl, rfl, fun _ => ⟨rfl, rfl, rfl⟩⟩

theorem SameButPriority.modify (m : Tcbs α) (t : α) (p : ℕ) :
    SameButPriority m (m.modify t fun c => { c with priority := p }) := by
  refine ⟨m.next_modify_same t fun _ => rfl, m.prev_modify_same t fun _ => rfl, fun u => ?_⟩
  refine ⟨?_, ?_, ?_⟩
  · exact m.modify_field Tcb.state t rfl u
  · exact m.modify_field Tcb.waitObj t rfl u
  · exact m.modify_field Tcb.waitResult t rfl u

theorem SameButPriority.boost (m : Tcbs α) (o t : α) : SameButPriority m (boost m o t) := by
  unfold Gracemont.boost
  split_ifs
  · exact .modify m o _
  · exact .refl m

/-- **The first task is woken**: a hand-off exactly if it has the highest priority. -/
theorem wakeFirst_handOff_iff {m m₁ : Tcbs α} {list : Option α} {W waiters : List α}
    (hm : SameButPriority m m₁) (hc : Lib.Chain m.next m.prev list W)
    (hW : ∀ u, u ∈ W ↔ u ∈ waiters) :
    HandOff m waiters (wakeFirst m₁ list).1 (wakeFirst m₁ list).2.1 (wakeFirst m₁ list).2.2 ↔
      ∀ w ∈ W.head?, ∀ u ∈ waiters, (m u).priority ≤ (m w).priority := by
  have hc₁ : Lib.Chain m₁.next m₁.prev list W := by
    rw [hm.next, hm.prev]
    exact hc
  cases W with
  | nil =>
    obtain rfl : list = none := hc.head_eq
    have hnone : waiters = [] :=
      List.eq_nil_iff_forall_not_mem.2 fun u hu => List.not_mem_nil ((hW u).2 hu)
    refine iff_of_true ?_ ?_
    · refine ⟨fun _ => hnone, ?_, ?_, ⟨[], hc₁, ?_⟩, fun u _ => hm.rest u⟩
      · intro w hw
        cases hw
      · intro w hw
        cases hw
      · intro u
        simp [hnone]
    · intro w hw
      cases hw
  | cons t W =>
    obtain ⟨m', list', hwake, hchain, hst, hobj, hres, hother⟩ := wakeFirst_spec hc₁
    have htW : t ∉ W := (List.nodup_cons.1 hc.nodup).1
    rw [hwake]
    constructor
    · intro h w hw
      cases hw
      exact (h.highest t rfl).2
    · intro hmax
      refine ⟨?_, ?_, ?_, ⟨W, hchain, ?_⟩, ?_⟩
      · intro h
        cases h
      · intro w hw
        cases hw
        exact ⟨(hW t).1 List.mem_cons_self, hmax t rfl⟩
      · intro w hw
        cases hw
        exact ⟨hst, hobj, hres⟩
      · intro u
        rw [← hW u, List.mem_cons]
        constructor
        · intro hu
          refine ⟨.inr hu, fun he => ?_⟩
          cases he
          exact htW hu
        · rintro ⟨rfl | hu, hne⟩
          · exact absurd rfl hne
          · exact hu
      · intro u hu
        obtain ⟨h1, h2, h3⟩ := hother u fun he => hu (he ▸ rfl)
        obtain ⟨k1, k2, k3⟩ := hm.rest u
        exact ⟨h1.trans k1, h2.trans k2, h3.trans k3⟩

/-! ## Turns -/

section
variable {obj : WaitObj} {m m' : Tcbs α} {t : α} {W : List α}

/-- The tasks on the wait list after a turn with the outcome `r`. -/
def afterTurn (t : α) (r : Option Status) (W : List α) : List α :=
  match r with
  | none => t :: W
  | some _ => W

theorem mutexLockLoop_chain {mutex mutex' : Mutex α} {r : Option Status}
    (hc : Lib.Chain m.next m.prev mutex.waitList W) (ht : t ∉ W)
    (h : mutexLockLoop obj m mutex t = (m', mutex', r)) :
    Lib.Chain m'.next m'.prev mutex'.waitList (afterTurn t r W) := by
  cases ho : mutex.owner with
  | none =>
    rw [mutexLockLoop_free ho] at h
    cases h
    exact hc
  | some o =>
    rw [mutexLockLoop_owned ho] at h
    cases h
    have hboost := SameButPriority.boost m o t
    have hc₁ : Lib.Chain (boost m o t).next (boost m o t).prev mutex.waitList W := by
      rw [hboost.next, hboost.prev]
      exact hc
    obtain ⟨m₂, hblock, hchain, -⟩ := blockOn_spec obj hc₁ ht
    rw [hblock]
    exact hchain

theorem X86.mutexLockLoop_chain {mutex mutex' : X86.Mutex α} {r : Option Status}
    (hc : Lib.Chain m.next m.prev mutex.waitList W) (ht : t ∉ W)
    (h : X86.mutexLockLoop obj m mutex t = (m', mutex', r)) :
    Lib.Chain m'.next m'.prev mutex'.waitList (afterTurn t r W) := by
  unfold X86.mutexLockLoop at h
  split_ifs at h
  · obtain ⟨m₂, hblock, hchain, -⟩ := blockOn_spec obj hc ht
    rw [hblock] at h
    cases h
    exact hchain
  · cases h
    exact hc

/-- **A turn that tries to lock** puts a task that goes to sleep at the front. -/
theorem lock_chain {port : Port} {mutex mutex' : PortMutex port α} {r : Option Status}
    (hc : Lib.Chain m.next m.prev (mutexWaitList port mutex) W) (ht : t ∉ W)
    (h : (mutexApi obj port).lock m mutex t = (m', mutex', r) ∨
      (mutexApi obj port).resume m mutex t = (m', mutex', r)) :
    Lib.Chain m'.next m'.prev (mutexWaitList port mutex') (afterTurn t r W) := by
  cases port with
  | arm64 =>
    rcases h with h | h
    · change mutexLock obj m mutex t = _ at h
      unfold mutexLock at h
      split_ifs at h
      · cases h
        exact hc
      · exact mutexLockLoop_chain hc ht h
    · change mutexResume obj m mutex t = _ at h
      unfold mutexResume at h
      split_ifs at h
      · cases h
        exact hc
      · exact mutexLockLoop_chain hc ht h
  | x86_64 =>
    rcases h with h | h
    · change X86.mutexLock obj m mutex t = _ at h
      unfold X86.mutexLock at h
      split_ifs at h
      · cases h
        exact hc
      · exact X86.mutexLockLoop_chain hc ht h
    · change X86.mutexResume obj m mutex t = _ at h
      unfold X86.mutexResume at h
      split_ifs at h
      · cases h
        exact hc
      · exact X86.mutexLockLoop_chain hc ht h

theorem trylock_waitList {port : Port} {mutex mutex' : PortMutex port α} {r : Status}
    (h : (mutexApi obj port).trylock m mutex t = (mutex', r)) :
    mutexWaitList port mutex' = mutexWaitList port mutex := by
  cases port with
  | arm64 =>
    change mutexTrylock m mutex t = _ at h
    unfold mutexTrylock at h
    split_ifs at h
    all_goals
      cases h
      rfl
  | x86_64 =>
    change X86.mutexTrylock mutex t = _ at h
    unfold X86.mutexTrylock at h
    split_ifs at h
    all_goals
      cases h
      rfl

/-- The unlock is the outermost one of the owner. -/
def LastUnlock (obj : WaitObj) (port : Port) (mutex : PortMutex port α) (t : α) : Prop :=
  ((mutexApi obj port).held mutex).owner = some t ∧ ((mutexApi obj port).held mutex).count = 1

/-- **The outermost unlock** wakes the first task of the wait list. -/
theorem unlock_last {port : Port} {mutex : PortMutex port α} (h : LastUnlock obj port mutex t)
    (m : Tcbs α) : ∃ m₁ mutex', SameButPriority m m₁ ∧
      (mutexApi obj port).unlock m mutex t = ((wakeFirst m₁ (mutexWaitList port mutex)).1, mutex',
        (wakeFirst m₁ (mutexWaitList port mutex)).2.2) ∧
      mutexWaitList port mutex' = (wakeFirst m₁ (mutexWaitList port mutex)).2.1 := by
  obtain ⟨howner, hcount⟩ := h
  have hlast : ¬ (0 : BitVec 32) < 1 - 1 := by decide
  cases port with
  | arm64 =>
    change Mutex.owner mutex = some t at howner
    change Mutex.lockCount mutex = 1 at hcount
    generalize hm : m.modify t (fun c => { c with priority := Mutex.origPriority mutex }) = m₁
    have hrun : mutexUnlock m mutex t = ((wakeFirst m₁ (Mutex.waitList mutex)).1,
        ⟨none, 1 - 1, Mutex.origPriority mutex, (wakeFirst m₁ (Mutex.waitList mutex)).2.1⟩,
        (wakeFirst m₁ (Mutex.waitList mutex)).2.2) := by
      unfold mutexUnlock
      rw [if_neg (not_not.2 howner), ← hm]
      simp only [hcount]
      rw [if_neg hlast]
    exact ⟨m₁, _, hm ▸ .modify m t (Mutex.origPriority mutex), hrun, rfl⟩
  | x86_64 =>
    change X86.Mutex.owner mutex = some t at howner
    change X86.Mutex.recursion mutex = 1 at hcount
    have hrun : X86.mutexUnlock m mutex t = ((wakeFirst m (X86.Mutex.waitList mutex)).1,
        ⟨0, none, (wakeFirst m (X86.Mutex.waitList mutex)).2.1, 1 - 1⟩,
        (wakeFirst m (X86.Mutex.waitList mutex)).2.2) := by
      unfold X86.mutexUnlock
      rw [if_neg (not_not.2 howner)]
      simp only [hcount]
      rw [if_neg hlast]
    exact ⟨m, _, .refl m, hrun, rfl⟩

/-- Any other unlock leaves the wait list. -/
theorem unlock_early {port : Port} {mutex mutex' : PortMutex port α} {w : Option α}
    (hl : ¬ LastUnlock obj port mutex t)
    (h : (mutexApi obj port).unlock m mutex t = (m', mutex', w)) :
    m' = m ∧ w = none ∧ mutexWaitList port mutex' = mutexWaitList port mutex := by
  cases port with
  | arm64 =>
    change mutexUnlock m mutex t = _ at h
    unfold mutexUnlock at h
    simp only [pos_sub_one_iff] at h
    split_ifs at h with ho hc
    · cases h
      exact ⟨rfl, rfl, rfl⟩
    · cases h
      exact ⟨rfl, rfl, rfl⟩
    · exact absurd ⟨not_not.1 ho, not_not.1 hc⟩ hl
  | x86_64 =>
    change X86.mutexUnlock m mutex t = _ at h
    unfold X86.mutexUnlock at h
    simp only [pos_sub_one_iff] at h
    split_ifs at h with ho hc
    · cases h
      exact ⟨rfl, rfl, rfl⟩
    · cases h
      exact ⟨rfl, rfl, rfl⟩
    · exact absurd ⟨not_not.1 ho, not_not.1 hc⟩ hl

end

/-! ## A mutex and its waiters -/

/-- A mutex in use; `waiters`: the tasks blocked on it, in order of arrival. -/
structure HandoffUse (port : Port) (α : Type) where
  tcb : Tcbs α
  mutex : PortMutex port α
  waiters : List α

variable (port : Port) (obj : WaitObj)

/-- One turn.  A task that is blocked makes no call; the rest of the system leaves
    the links of the waiters, and may change everything else, their priorities too. -/
def handoffStep (s : HandoffUse port α) : MutexEvent α → HandoffUse port α → Prop
  | .lock t r, s' => t ∉ s.waiters ∧ ∃ m mutex,
    (mutexApi obj port).lock s.tcb s.mutex t = (m, mutex, r) ∧
    s' = ⟨m, mutex, if r = none then s.waiters ++ [t] else s.waiters⟩
  | .resume t r, s' => t ∉ s.waiters ∧ ∃ m mutex,
    (mutexApi obj port).resume s.tcb s.mutex t = (m, mutex, r) ∧
    s' = ⟨m, mutex, if r = none then s.waiters ++ [t] else s.waiters⟩
  | .trylock t r, s' => ∃ mutex,
    (mutexApi obj port).trylock s.tcb s.mutex t = (mutex, r) ∧ s' = ⟨s.tcb, mutex, s.waiters⟩
  | .unlock t, s' => ∃ m mutex w,
    (mutexApi obj port).unlock s.tcb s.mutex t = (m, mutex, w) ∧
    s' = ⟨m, mutex, s.waiters.filter fun u => w ≠ some u⟩
  | .sched, s' => ∃ m : Tcbs α,
    (∀ u ∈ s.waiters, (m u).next = (s.tcb u).next ∧ (m u).prev = (s.tcb u).prev) ∧
    s' = ⟨m, s.mutex, s.waiters⟩

/-- The mutex as a transition system, from `mutex_init`. -/
def handoffLts : Lib.Lts (HandoffUse port α) (MutexEvent α) :=
  ⟨fun s => s.mutex = (mutexApi obj port).init ∧ s.waiters = [], handoffStep port obj⟩

variable {port obj} {s s' : HandoffUse port α}

/-- The wait list has the waiters, the last one first. -/
def Listed (s : HandoffUse port α) : Prop :=
  Lib.Chain s.tcb.next s.tcb.prev (mutexWaitList port s.mutex) s.waiters.reverse

/-- A task that goes to sleep is the last one to arrive. -/
theorem Listed.arrive {m : Tcbs α} {mutex : PortMutex port α} {t : α} {r : Option Status}
    (h : Listed s) (ht : t ∉ s.waiters)
    (hl : (mutexApi obj port).lock s.tcb s.mutex t = (m, mutex, r) ∨
      (mutexApi obj port).resume s.tcb s.mutex t = (m, mutex, r)) :
    Listed ⟨m, mutex, if r = none then s.waiters ++ [t] else s.waiters⟩ := by
  have hc := lock_chain h (fun hm => ht (List.mem_reverse.1 hm)) hl
  cases r with
  | none =>
    simp only [Listed, if_true, List.reverse_append, List.reverse_singleton,
      List.singleton_append]
    exact hc
  | some r => exact hc

/-- A task that is woken is the last one that arrived. -/
theorem Listed.depart {m : Tcbs α} {mutex : PortMutex port α} {t : α} {w : Option α}
    (h : Listed s) (hl : (mutexApi obj port).unlock s.tcb s.mutex t = (m, mutex, w)) :
    Listed ⟨m, mutex, s.waiters.filter fun u => w ≠ some u⟩ := by
  by_cases hlast : LastUnlock obj port s.mutex t
  swap
  · obtain ⟨rfl, rfl, hlist⟩ := unlock_early hlast hl
    have hall : (s.waiters.filter fun u => (none : Option α) ≠ some u) = s.waiters :=
      List.filter_eq_self.2 fun u _ => by simp
    rw [Listed, hall, hlist]
    exact h
  obtain ⟨m₁, mutex', hm, hunlock, hlist⟩ := unlock_last hlast s.tcb
  rw [hunlock] at hl
  cases hl
  have hc : Lib.Chain m₁.next m₁.prev (mutexWaitList port s.mutex) s.waiters.reverse := by
    rw [hm.next, hm.prev]
    exact h
  rw [Listed, hlist]
  generalize mutexWaitList port s.mutex = list at hc
  rcases List.eq_nil_or_concat' s.waiters with hnil | ⟨W, x, hW⟩
  · rw [hnil] at hc ⊢
    obtain rfl : list = none := hc.head_eq
    exact hc
  · rw [hW, List.reverse_append] at hc
    obtain ⟨m', list', hwake, hchain, -⟩ := wakeFirst_spec hc
    have hx : x ∉ W := fun hm => (List.nodup_cons.1 hc.nodup).1 (List.mem_reverse.2 hm)
    have hrest : (s.waiters.filter fun u => some x ≠ some u) = W := by
      rw [hW, List.filter_append, List.filter_eq_self.2 fun u hu => ?_]
      · simp
      · have hne : x ≠ u := fun he => hx (he ▸ hu)
        simp [hne]
    rw [hwake]
    simp only [hrest]
    exact hchain

theorem Listed.step (h : Listed s) {e : MutexEvent α} (hs : handoffStep port obj s e s') :
    Listed s' := by
  cases e with
  | lock t r =>
    obtain ⟨ht, m, mutex, hl, rfl⟩ := hs
    exact h.arrive ht (.inl hl)
  | resume t r =>
    obtain ⟨ht, m, mutex, hl, rfl⟩ := hs
    exact h.arrive ht (.inr hl)
  | trylock t r =>
    obtain ⟨mutex, hl, rfl⟩ := hs
    rw [Listed, trylock_waitList hl]
    exact h
  | unlock t =>
    obtain ⟨m, mutex, w, hl, rfl⟩ := hs
    exact h.depart hl
  | sched =>
    obtain ⟨m, hkeep, rfl⟩ := hs
    refine Lib.Chain.congr h ?_ ?_
    · intro u hu
      exact (hkeep u (List.mem_reverse.1 hu)).1
    · intro u hu
      exact (hkeep u (List.mem_reverse.1 hu)).2

theorem handoff_run {tr : List (MutexEvent α)} (h : (handoffLts port obj).Run tr s) :
    Listed s := by
  refine h.rule (P := fun _ s => Listed s) ?_ ?_
  · rintro s ⟨hmutex, hnone⟩
    have hlist : mutexWaitList port s.mutex = none := by
      rw [hmutex]
      cases port with
      | arm64 => rfl
      | x86_64 => rfl
    rw [Listed, hnone, hlist]
    exact Lib.chain_nil
  · rintro tr s e s' hI hs
    exact hI.step hs

/-- **Hand-off order.**  In every state that is reached, with any priorities and any
    order of arrival, in both ports: the outermost unlock by the owner is a hand-off
    exactly if the waiter that arrived last has the highest priority. -/
theorem mutex_handoff_iff {tr : List (MutexEvent α)} (h : (handoffLts port obj).Run tr s) {t : α}
    (hlast : LastUnlock obj port s.mutex t) :
    HandOff s.tcb s.waiters ((mutexApi obj port).unlock s.tcb s.mutex t).1
        (mutexWaitList port ((mutexApi obj port).unlock s.tcb s.mutex t).2.1)
        ((mutexApi obj port).unlock s.tcb s.mutex t).2.2 ↔
      ∀ w ∈ s.waiters.getLast?, ∀ u ∈ s.waiters, (s.tcb u).priority ≤ (s.tcb w).priority := by
  obtain ⟨m₁, mutex', hm, hunlock, hlist⟩ := unlock_last hlast s.tcb
  rw [hunlock, hlist, ← List.head?_reverse]
  exact wakeFirst_handOff_iff hm (handoff_run h) fun u => List.mem_reverse

/-! ## Two waiters -/

/-- Tasks of the priorities 1, 5 and 9. -/
def demoContention (port : Port) : HandoffUse port (Fin 3) where
  tcb t := { Tcb.zero with priority := if t = 0 then 1 else if t = 1 then 5 else 9 }
  mutex := (mutexApi (.mutex 0) port).init
  waiters := []

/-- The task 0 has the mutex, and two tasks come in ascending priority. -/
def demoAscending : List (MutexEvent (Fin 3)) :=
  [.lock 0 (some .ok), .lock 1 none, .lock 2 none]

theorem mutex_handoff_ascending : ∃ s, (handoffLts .arm64 (.mutex 0)).Run demoAscending s ∧
    HandOff s.tcb s.waiters ((mutexApi (.mutex 0) .arm64).unlock s.tcb s.mutex 0).1
      (mutexWaitList .arm64 ((mutexApi (.mutex 0) .arm64).unlock s.tcb s.mutex 0).2.1)
      ((mutexApi (.mutex 0) .arm64).unlock s.tcb s.mutex 0).2.2 := by
  have h₀ : (handoffLts .arm64 (.mutex 0)).Run [] (demoContention .arm64) := .start ⟨rfl, rfl⟩
  have h₁ := h₀.snoc (e := MutexEvent.lock 0 (some .ok)) ⟨by decide, _, _, rfl, rfl⟩
  have h₂ := h₁.snoc (e := MutexEvent.lock 1 none) ⟨by decide, _, _, rfl, rfl⟩
  have h₃ := h₂.snoc (e := MutexEvent.lock 2 none) ⟨by decide, _, _, rfl, rfl⟩
  refine ⟨_, h₃, (mutex_handoff_iff h₃ ⟨rfl, rfl⟩).2 fun w hw u hu => ?_⟩
  obtain rfl : 2 = w := Option.some.inj hw
  have hwaiters : u ∈ ([1, 2] : List (Fin 3)) := hu
  rcases List.mem_cons.1 hwaiters with rfl | hlast
  · decide
  · obtain rfl := List.mem_singleton.1 hlast
    exact Nat.le_refl _

/-- The two tasks in descending priority. -/
def demoDescending : List (MutexEvent (Fin 3)) :=
  [.lock 0 (some .ok), .lock 2 none, .lock 1 none]

/-- The task of the lower priority is woken, in both ports. -/
theorem mutex_handoff_descending :
    (∃ s, (handoffLts .arm64 (.mutex 0)).Run demoDescending s ∧
      LastUnlock (.mutex 0) .arm64 s.mutex 0 ∧
      ¬ HandOff s.tcb s.waiters ((mutexApi (.mutex 0) .arm64).unlock s.tcb s.mutex 0).1
        (mutexWaitList .arm64 ((mutexApi (.mutex 0) .arm64).unlock s.tcb s.mutex 0).2.1)
        ((mutexApi (.mutex 0) .arm64).unlock s.tcb s.mutex 0).2.2) ∧
    ∃ s, (handoffLts .x86_64 (.mutex 0)).Run demoDescending s ∧
      LastUnlock (.mutex 0) .x86_64 s.mutex 0 ∧
      ¬ HandOff s.tcb s.waiters ((mutexApi (.mutex 0) .x86_64).unlock s.tcb s.mutex 0).1
        (mutexWaitList .x86_64 ((mutexApi (.mutex 0) .x86_64).unlock s.tcb s.mutex 0).2.1)
        ((mutexApi (.mutex 0) .x86_64).unlock s.tcb s.mutex 0).2.2 := by
  constructor
  · have h₀ : (handoffLts .arm64 (.mutex 0)).Run [] (demoContention .arm64) := .start ⟨rfl, rfl⟩
    have h₁ := h₀.snoc (e := MutexEvent.lock 0 (some .ok)) ⟨by decide, _, _, rfl, rfl⟩
    have h₂ := h₁.snoc (e := MutexEvent.lock 2 none) ⟨by decide, _, _, rfl, rfl⟩
    have h₃ := h₂.snoc (e := MutexEvent.lock 1 none) ⟨by decide, _, _, rfl, rfl⟩
    refine ⟨_, h₃, ⟨rfl, rfl⟩, fun h => ?_⟩
    have hmax := (h.highest 1 rfl).2 2 (by decide)
    exact absurd hmax (by decide)
  · have h₀ : (handoffLts .x86_64 (.mutex 0)).Run [] (demoContention .x86_64) := .start ⟨rfl, rfl⟩
    have h₁ := h₀.snoc (e := MutexEvent.lock 0 (some .ok)) ⟨by decide, _, _, rfl, rfl⟩
    have h₂ := h₁.snoc (e := MutexEvent.lock 2 none) ⟨by decide, _, _, rfl, rfl⟩
    have h₃ := h₂.snoc (e := MutexEvent.lock 1 none) ⟨by decide, _, _, rfl, rfl⟩
    refine ⟨_, h₃, ⟨rfl, rfl⟩, fun h => ?_⟩
    have hmax := (h.highest 1 rfl).2 2 (by decide)
    exact absurd hmax (by decide)

end Gracemont
