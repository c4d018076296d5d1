/-
  Gracemont kernel — priority inheritance (`mutex_lock`, `mutex_trylock`,
  `mutex_unlock` of the ARM64 port).

  Any number of mutexes and tasks, in any interleaving, with `task_yield` as a
  pair of events as for one mutex.  The rest of the kernel may do anything but
  change priorities and block tasks on mutexes.

  Every mutex saves the priority that its owner had when it took it, and an
  unlock restores it, whatever other mutexes the task holds, and whatever
  happened to its priority since.  `PrioritySafe` says of a step that this, and
  the two things that `mutex_lock` leaves out, do no harm; in runs of such steps
  the priorities are right (`priorities_of_safe`).
-/
import Gracemont.Kernel.MutexInv
import Gracemont.Kernel.SemInv

namespace Gracemont

variable {α : Type}

/-- The mutexes in use; `base` is the priority that a task was created with, and
    `waiting t` the mutex for which the task is in the `task_yield` of
    `mutex_lock`. -/
structure MutexesUse (α : Type) where
  tcb : Tcbs α
  mutex : ℕ → Mutex α
  base : α → ℕ
  waiting : α → Option ℕ

namespace MutexesUse
variable (s : MutexesUse α)

def prio (t : α) : ℕ := (s.tcb t).priority

def Owns (t : α) (i : ℕ) : Prop := (s.mutex i).owner = some t

def Blocked (t : α) (i : ℕ) : Prop := BlockedOn (.mutex i) s.tcb t

end MutexesUse

/-- **Priority inheritance.**  The owner of a mutex has at least the priority of
    every task blocked on it, and a task that owns no mutex has the priority that
    it was created with. -/
structure Inherits (s : MutexesUse α) : Prop where
  owner : ∀ t u i, s.Owns t i → s.Blocked u i → s.prio u ≤ s.prio t
  base : ∀ t, (∀ i, ¬ s.Owns t i) → s.prio t = s.base t

/-- The turns on the mutexes. -/
inductive MutexesEvent (α : Type) where
  | lock (t : α) (i : ℕ)
  | resume (t : α) (i : ℕ)
  | trylock (t : α) (i : ℕ)
  | unlock (t : α) (i : ℕ)
  | sched

section
variable [DecidableEq α]

/-- The state after a turn of `mutex_lock` on the mutex `i`. -/
def MutexesUse.locked (s : MutexesUse α) (t : α) (i : ℕ)
    (turn : Tcbs α × Mutex α × Option Status) : MutexesUse α where
  tcb := turn.1
  mutex := Function.update s.mutex i turn.2.1
  base := s.base
  waiting := Function.update s.waiting t (if turn.2.2.isNone then some i else none)

/-- One turn. -/
def mutexesStep (s : MutexesUse α) : MutexesEvent α → MutexesUse α → Prop
  | .lock t i, s' => s.waiting t = none ∧
    s' = s.locked t i (mutexLock (.mutex i) s.tcb (s.mutex i) t)
  | .resume t i, s' => s.waiting t = some i ∧
    s' = s.locked t i (mutexResume (.mutex i) s.tcb (s.mutex i) t)
  | .trylock t i, s' => s.waiting t = none ∧
    s' = { s with mutex := Function.update s.mutex i (mutexTrylock s.tcb (s.mutex i) t).1 }
  | .unlock t i, s' => s.waiting t = none ∧
    s' = { s with
      tcb := (mutexUnlock s.tcb (s.mutex i) t).1
      mutex := Function.update s.mutex i (mutexUnlock s.tcb (s.mutex i) t).2.1 }
  | .sched, s' => ∃ m, (∀ t, (m t).priority = s.prio t) ∧
    (∀ t i, BlockedOn (.mutex i) m t → s.Blocked t i) ∧ s' = { s with tcb := m }

/-- The mutexes as a transition system, from `mutex_init`. -/
def mutexesLts : Lib.Lts (MutexesUse α) (MutexesEvent α) where
  init s := (∀ i, s.mutex i = mutexInit) ∧ (∀ t, s.waiting t = none) ∧
    (∀ t, s.prio t = s.base t) ∧ ∀ t i, ¬ s.Blocked t i
  step := mutexesStep

end

/-! ## The condition -/

/-- Taking the free mutex `i`: nobody who is still blocked on it has a higher
    priority. -/
def TakeSafe (s : MutexesUse α) (t : α) (i : ℕ) : Prop :=
  (s.mutex i).owner = none → ∀ u, s.Blocked u i → s.prio u ≤ s.prio t

/-- Boosting the owner of `i`: if the owner is blocked on a mutex itself, then the
    owner of that one has already this priority. -/
def BoostSafe (s : MutexesUse α) (t : α) (i : ℕ) : Prop :=
  ∀ o, s.Owns o i → o ≠ t → s.prio o < s.prio t →
    ∀ j p, s.Blocked o j → s.Owns p j → p ≠ o → s.prio t ≤ s.prio p

/-- The last unlock of `i`: the priority saved in it is at least that of everybody
    blocked on the other mutexes of the task, and its own priority if there are
    none; and at most that of the owner of a mutex that the task is blocked on
    (a task that runs is not blocked, if the scheduler is right). -/
structure RestoreSafe (s : MutexesUse α) (t : α) (i : ℕ) : Prop where
  others : ∀ j, j ≠ i → s.Owns t j → ∀ u, u ≠ t → s.Blocked u j →
    s.prio u ≤ (s.mutex i).origPriority
  none : (∀ j, j ≠ i → ¬ s.Owns t j) → (s.mutex i).origPriority = s.base t
  blocked : ∀ j p, s.Blocked t j → s.Owns p j → p ≠ t → (s.mutex i).origPriority ≤ s.prio p

/-- The step does no harm to the priorities. -/
def PrioritySafe (s : MutexesUse α) : MutexesEvent α → Prop
  | .lock t i | .resume t i => TakeSafe s t i ∧ BoostSafe s t i
  | .trylock t i => TakeSafe s t i
  | .unlock t i => s.Owns t i → (s.mutex i).lockCount = 1 → RestoreSafe s t i
  | .sched => True

/-! ## The turns -/

section
variable [DecidableEq α] {m : Tcbs α} {list : Option α} {obj obj' : WaitObj} {t u : α}

theorem blockOn_state :
    ((blockOn m list obj t).1 u).state = if u = t then .blocked else (m u).state := by
  simp only [blockOn, waitListAdd]
  rw [Lib.Store.modifyAt_field Tcb.state _ _ fun _ => by rfl,
    Lib.Store.modify_field Tcb.state _ _ (by rfl), Lib.Store.modify_field Tcb.state _ _ (by rfl),
    Lib.Store.modify_apply]
  split
  · rfl
  · rfl

/-- Going to sleep blocks the task on the object, and no other. -/
theorem blockOn_blocked :
    BlockedOn obj' (blockOn m list obj t).1 u ↔ if u = t then obj' = obj else BlockedOn obj' m u := by
  have hobj : ((blockOn m list obj t).1 u).waitObj = if u = t then some obj else (m u).waitObj := by
    simp only [blockOn, waitListAdd]
    rw [Lib.Store.modifyAt_field Tcb.waitObj _ _ fun _ => by rfl,
      Lib.Store.modify_field Tcb.waitObj _ _ (by rfl),
      Lib.Store.modify_field Tcb.waitObj _ _ (by rfl), Lib.Store.modify_apply]
    split
    · rfl
    · rfl
  unfold BlockedOn
  rw [blockOn_state, hobj]
  by_cases hu : u = t
  · simp [hu, eq_comm]
  · simp [hu]

/-- Waking blocks nobody. -/
theorem wakeFirst_blocked (h : BlockedOn obj (wakeFirst m list).1 u) : BlockedOn obj m u := by
  cases list with
  | none => exact h
  | some w =>
    simp only [wakeFirst, waitListRemoveFirst, Lib.Store.modifyAt_some] at h
    by_cases hu : u = w
    · subst hu
      have hstate := h.1
      rw [Lib.Store.modify_self] at hstate
      cases hstate
    · unfold BlockedOn at h ⊢
      rw [Lib.Store.modify_of_ne _ hu, Lib.Store.modify_of_ne _ hu,
        Lib.Store.modifyAt_field Tcb.state _ _ fun _ => by rfl,
        Lib.Store.modifyAt_field Tcb.waitObj _ _ fun _ => by rfl] at h
      exact h

/-- The block of the owner after the boost of `mutex_lock`. -/
def boost (m : Tcbs α) (owner task : α) : Tcbs α :=
  if (m owner).priority < (m task).priority then
    m.modify owner fun t => { t with priority := (m task).priority }
  else m

theorem boost_priority (o : α) : (boost m o t u).priority =
    if u = o ∧ (m o).priority < (m t).priority then (m t).priority else (m u).priority := by
  unfold boost
  by_cases hlt : (m o).priority < (m t).priority
  · rw [if_pos hlt, Lib.Store.modify_apply]
    by_cases hu : u = o
    · simp [hu, hlt]
    · simp [hu]
  · rw [if_neg hlt, if_neg fun h => hlt h.2]

theorem boost_blocked (o : α) : BlockedOn obj (boost m o t) u ↔ BlockedOn obj m u := by
  unfold boost BlockedOn
  split
  · rw [Lib.Store.modify_field Tcb.state _ _ (by rfl), Lib.Store.modify_field Tcb.waitObj _ _ (by rfl)]
  · exact Iff.rfl

theorem mutexLockLoop_owned {mutex : Mutex α} {o : α} (h : mutex.owner = some o) :
    mutexLockLoop obj m mutex t = ((blockOn (boost m o t) mutex.waitList obj t).1,
      { mutex with waitList := (blockOn (boost m o t) mutex.waitList obj t).2 }, none) := by
  unfold mutexLockLoop
  rw [h]
  rfl

theorem mutexLockLoop_free {mutex : Mutex α} (h : mutex.owner = none) :
    mutexLockLoop obj m mutex t =
      (m, { mutex with owner := some t, lockCount := 1, origPriority := (m t).priority },
        some .ok) := by
  unfold mutexLockLoop
  rw [h]

end

/-! ## Steps -/

section
variable [DecidableEq α] {s s' : MutexesUse α} {t : α} {i : ℕ}

omit [DecidableEq α] in
/-- A turn after which no priority and no owner is different, and nobody else is
    blocked. -/
theorem Inherits.congr (h : Inherits s) (hb : s'.base = s.base) (hp : ∀ u, s'.prio u = s.prio u)
    (ho : ∀ u j, s'.Owns u j ↔ s.Owns u j) (hbl : ∀ u j, s'.Blocked u j → s.Blocked u j) :
    Inherits s' := by
  constructor
  · intro x u j hx hu
    rw [hp, hp]
    exact h.owner x u j ((ho x j).1 hx) (hbl u j hu)
  · intro x hx
    rw [hp, hb]
    exact h.base x fun j hj => hx j ((ho x j).2 hj)

omit [DecidableEq α] in
/-- The owners after an assignment to the mutex `i` that keeps its owner. -/
theorem owns_update {mutex : Mutex α} (h : s'.mutex = Function.update s.mutex i mutex)
    (ho : mutex.owner = (s.mutex i).owner) (u : α) (j : ℕ) : s'.Owns u j ↔ s.Owns u j := by
  unfold MutexesUse.Owns
  rw [h, Function.update_apply]
  split_ifs with hj
  · rw [ho, hj]
  · exact Iff.rfl

omit [DecidableEq α] in
/-- Taking a free mutex. -/
theorem Inherits.take (h : Inherits s) (hsafe : TakeSafe s t i) (hfree : (s.mutex i).owner = none)
    {mutex : Mutex α} (hm : s'.mutex = Function.update s.mutex i mutex) (ho : mutex.owner = some t)
    (hb : s'.base = s.base) (ht : s'.tcb = s.tcb) : Inherits s' := by
  have howns : ∀ u j, s'.Owns u j ↔ if j = i then u = t else s.Owns u j := by
    intro u j
    unfold MutexesUse.Owns
    rw [hm, Function.update_apply]
    split_ifs
    · rw [ho, Option.some.injEq, eq_comm]
    · exact Iff.rfl
  constructor
  · intro x u j hx hu
    have hu : s.Blocked u j := by
      unfold MutexesUse.Blocked at hu ⊢
      rwa [ht] at hu
    unfold MutexesUse.prio
    rw [ht]
    rw [howns] at hx
    split_ifs at hx with hj
    · subst hj hx
      exact hsafe hfree u hu
    · exact h.owner x u j hx hu
  · intro x hx
    have hxt : x ≠ t := fun he => hx i ((howns x i).2 (by rw [if_pos rfl]; exact he))
    unfold MutexesUse.prio
    rw [ht, hb]
    refine h.base x fun j hj => hx j ((howns x j).2 ?_)
    split_ifs with hji
    · subst hji
      unfold MutexesUse.Owns at hj
      rw [hfree] at hj
      cases hj
    · exact hj

/-- Waiting for an owned mutex. -/
theorem Inherits.wait (h : Inherits s) (hsafe : BoostSafe s t i) {o : α} (ho : s.Owns o i)
    {mutex : Mutex α} (hm : s'.mutex = Function.update s.mutex i mutex)
    (hmo : mutex.owner = (s.mutex i).owner) (hb : s'.base = s.base)
    (hp : ∀ u, s'.prio u = if u = o ∧ s.prio o < s.prio t then s.prio t else s.prio u)
    (hbl : ∀ u j, s'.Blocked u j ↔ if u = t then j = i else s.Blocked u j) : Inherits s' := by
  have howns := owns_update hm hmo
  have hle : ∀ u, s.prio u ≤ s'.prio u := by
    intro u
    rw [hp]
    split_ifs with hu
    · rw [hu.1]
      exact Nat.le_of_lt hu.2
    · exact Nat.le_refl _
  constructor
  · intro x u j hx hu
    rw [howns] at hx
    rw [hbl] at hu
    split_ifs at hu with hut
    · -- the task that waits, and the owner that it boosts
      subst hut hu
      obtain rfl : o = x := Option.some.inj (ho.symm.trans hx)
      have hu : s'.prio u = s.prio u := by
        rw [hp]
        split_ifs
        · rfl
        · rfl
      rw [hu, hp o]
      by_cases hlt : s.prio o < s.prio u
      · exact Nat.le_of_eq (by rw [if_pos ⟨rfl, hlt⟩])
      · rw [if_neg fun he => hlt he.2]
        exact Nat.le_of_not_lt hlt
    · by_cases hboost : u = o ∧ s.prio o < s.prio t
      · -- the owner waits itself
        by_cases hxo : x = o
        · exact Nat.le_of_eq (by rw [hxo, hboost.1])
        · rw [hp u, if_pos hboost]
          refine Nat.le_trans ?_ (hle x)
          obtain ⟨rfl, hlt⟩ := hboost
          exact hsafe u ho hut hlt j x hu hx hxo
      · rw [hp u, if_neg hboost]
        exact Nat.le_trans (h.owner x u j hx hu) (hle x)
  · intro x hx
    have hxo : x ≠ o := fun he => hx i ((howns x i).2 (he ▸ ho))
    rw [hp x, if_neg fun he => hxo he.1, hb]
    exact h.base x fun j hj => hx j ((howns x j).2 hj)

/-- The last unlock. -/
theorem Inherits.restore (h : Inherits s) (hsafe : RestoreSafe s t i) (ho : s.Owns t i)
    {mutex : Mutex α} (hm : s'.mutex = Function.update s.mutex i mutex) (hmo : mutex.owner = none)
    (hb : s'.base = s.base)
    (hp : ∀ u, s'.prio u = if u = t then (s.mutex i).origPriority else s.prio u)
    (hbl : ∀ u j, s'.Blocked u j → s.Blocked u j) : Inherits s' := by
  have howns : ∀ u j, s'.Owns u j ↔ j ≠ i ∧ s.Owns u j := by
    intro u j
    unfold MutexesUse.Owns
    rw [hm, Function.update_apply]
    split_ifs with hj
    · simp [hmo, hj]
    · simp [hj]
  constructor
  · intro x u j hx hu
    obtain ⟨hji, hx⟩ := (howns x j).1 hx
    have hu := hbl u j hu
    rw [hp x, hp u]
    by_cases hxt : x = t
    · subst hxt
      by_cases hux : u = x
      · exact Nat.le_of_eq (by rw [hux])
      · rw [if_neg hux, if_pos rfl]
        exact hsafe.others j hji hx u hux hu
    · rw [if_neg hxt]
      by_cases hut : u = t
      · subst hut
        rw [if_pos rfl]
        exact hsafe.blocked j x hu hx hxt
      · rw [if_neg hut]
        exact h.owner x u j hx hu
  · intro x hx
    rw [hp x, hb]
    by_cases hxt : x = t
    · subst hxt
      rw [if_pos rfl]
      exact hsafe.none fun j hji hj => hx j ((howns x j).2 ⟨hji, hj⟩)
    · rw [if_neg hxt]
      refine h.base x fun j hj => hx j ((howns x j).2 ⟨?_, hj⟩)
      rintro rfl
      exact hxt (Option.some.inj (hj.symm.trans ho))

/-- The loop of `mutex_lock`. -/
theorem Inherits.lockLoop (h : Inherits s) (htake : TakeSafe s t i) (hboost : BoostSafe s t i) :
    Inherits (s.locked t i (mutexLockLoop (.mutex i) s.tcb (s.mutex i) t)) := by
  cases ho : (s.mutex i).owner with
  | none =>
    rw [mutexLockLoop_free ho]
    exact h.take htake ho rfl rfl rfl rfl
  | some o =>
    rw [mutexLockLoop_owned ho]
    refine h.wait hboost ho rfl rfl rfl (fun u => ?_) fun u j => ?_
    · exact blockOn_priority.trans (boost_priority o)
    · refine blockOn_blocked.trans ?_
      split_ifs
      · rw [WaitObj.mutex.injEq]
      · exact boost_blocked o

/-- `mutex_unlock`. -/
theorem Inherits.unlock (h : Inherits s)
    (hsafe : s.Owns t i → (s.mutex i).lockCount = 1 → RestoreSafe s t i) :
    Inherits { s with
      tcb := (mutexUnlock s.tcb (s.mutex i) t).1
      mutex := Function.update s.mutex i (mutexUnlock s.tcb (s.mutex i) t).2.1 } := by
  simp only [mutexUnlock]
  split_ifs with ho hcount
  · exact h.congr rfl (fun _ => rfl) (owns_update rfl rfl) fun _ _ hu => hu
  · exact h.congr rfl (fun _ => rfl) (owns_update rfl rfl) fun _ _ hu => hu
  · have ho := not_not.1 ho
    have hlast : (s.mutex i).lockCount = 1 := by
      by_contra hne
      exact hcount ((pos_sub_one_iff _).2 hne)
    refine h.restore (hsafe ho hlast) ho rfl rfl rfl (fun u => ?_) fun u j hu => ?_
    · refine wakeFirst_priority.trans ?_
      rw [Lib.Store.modify_apply]
      split_ifs
      · rfl
      · rfl
    · have hu := wakeFirst_blocked hu
      unfold BlockedOn at hu
      rwa [Lib.Store.modify_field Tcb.state _ _ (by rfl),
        Lib.Store.modify_field Tcb.waitObj _ _ (by rfl)] at hu

/-- Every step that does no harm keeps the priorities right. -/
theorem inherits_step {e : MutexesEvent α} (h : Inherits s) (hstep : mutexesStep s e s')
    (hsafe : PrioritySafe s e) : Inherits s' := by
  cases e with
  | lock t i =>
    obtain ⟨-, rfl⟩ := hstep
    unfold mutexLock
    split_ifs
    · exact h.congr rfl (fun _ => rfl) (owns_update rfl rfl) fun _ _ hu => hu
    · exact h.lockLoop hsafe.1 hsafe.2
  | resume t i =>
    obtain ⟨-, rfl⟩ := hstep
    unfold mutexResume
    split_ifs
    · exact h.congr rfl (fun _ => rfl) (owns_update rfl rfl) fun _ _ hu => hu
    · exact h.lockLoop hsafe.1 hsafe.2
  | trylock t i =>
    obtain ⟨-, rfl⟩ := hstep
    unfold mutexTrylock
    split_ifs with hfree
    · exact h.take hsafe hfree rfl rfl rfl rfl
    · exact h.congr rfl (fun _ => rfl) (owns_update rfl rfl) fun _ _ hu => hu
    · exact h.congr rfl (fun _ => rfl) (owns_update rfl rfl) fun _ _ hu => hu
  | unlock t i =>
    obtain ⟨-, rfl⟩ := hstep
    exact h.unlock hsafe
  | sched =>
    obtain ⟨m, hprio, hblocked, rfl⟩ := hstep
    exact h.congr rfl hprio (fun _ _ => Iff.rfl) hblocked

theorem inherits_init (h : (mutexesLts (α := α)).init s) : Inherits s := by
  obtain ⟨hinit, -, hbase, -⟩ := h
  constructor
  · intro x u j hx _
    unfold MutexesUse.Owns at hx
    rw [hinit] at hx
    cases hx
  · intro x _
    exact hbase x

end

/-! ## Runs -/

section
variable [DecidableEq α]

/-- **Priorities.**  In a run whose steps all do no harm, the owner of a mutex
    has at least the priority of every task blocked on it, and a task without a
    mutex has its own priority. -/
theorem priorities_of_safe {s : MutexesUse α} {tr : List (MutexesEvent α)}
    (h : ((mutexesLts (α := α)).restrict PrioritySafe).Run tr s) : Inherits s := by
  refine Lib.Lts.Run.rule (P := fun _ s => Inherits s) ?_ ?_ h
  · intro s hs
    exact inherits_init hs
  · rintro - s e s' hs ⟨hsafe, hstep⟩
    exact inherits_step hs hstep hsafe

end

/-- A task of priority 1 and one of priority 5, and mutexes after
    `mutex_init`. -/
def demoMutexes : MutexesUse (Fin 2) where
  tcb t := { Tcb.zero with priority := if t = 0 then 1 else 5 }
  mutex _ := mutexInit
  base t := if t = 0 then 1 else 5
  waiting _ := none

theorem demoMutexes_init : (mutexesLts (α := Fin 2)).init demoMutexes := by
  refine ⟨fun _ => rfl, fun _ => rfl, fun _ => rfl, fun _ _ h => ?_⟩
  cases h.1

/-- The owner of one mutex is boosted, and unlocks it. -/
theorem priorities_of_safe_boost : ∃ s, (mutexesLts (α := Fin 2)).Run
    [.lock 0 0, .lock 1 0, .unlock 0 0, .resume 1 0] s ∧ s.Owns 1 0 ∧ s.prio 0 = 1 ∧
      Inherits s := by
  have h₀ : (mutexesLts.restrict PrioritySafe).Run [] demoMutexes := .start demoMutexes_init
  have h₁ := h₀.snoc (e := MutexesEvent.lock 0 0) ⟨⟨?_, ?_⟩, rfl, rfl⟩
  · have h₂ := h₁.snoc (e := MutexesEvent.lock 1 0) ⟨⟨?_, ?_⟩, rfl, rfl⟩
    · have h₃ := h₂.snoc (e := MutexesEvent.unlock 0 0) ⟨fun _ _ => ⟨?_, ?_, ?_⟩, rfl, rfl⟩
      · have h₄ := h₃.snoc (e := MutexesEvent.resume 1 0) ⟨⟨?_, ?_⟩, rfl, rfl⟩
        · exact ⟨_, h₄.of_restrict, rfl, rfl, priorities_of_safe h₄⟩
        · intro _ u hu
          match u with
          | 0 => exact absurd hu.1 (by decide)
          | 1 => exact absurd hu.1 (by decide)
        · intro o ho
          cases ho
      · intro j hj ho
        simp [MutexesUse.Owns, MutexesUse.locked, Function.update_of_ne hj, demoMutexes,
          mutexInit] at ho
      · intro _
        rfl
      · intro j p hb
        exact absurd hb.1 (by decide)
    · intro h
      cases h
    · intro o ho _ _ j p hb
      obtain rfl : (0 : Fin 2) = o := Option.some.inj ho
      exact absurd hb.1 (by decide)
  · intro _ u hu
    cases hu.1
  · intro o ho
    cases ho

/-- **An unlock takes the boost away.**  The task of priority 5 is blocked on the
    mutex 0 of a task that has unlocked the mutex 1, and has priority 1 again. -/
theorem boost_lost : ∃ s, (mutexesLts (α := Fin 2)).Run
    [.lock 0 0, .lock 0 1, .lock 1 0, .unlock 0 1] s ∧ s.Owns 0 0 ∧ s.Blocked 1 0 ∧
      s.prio 0 = 1 ∧ s.prio 1 = 5 ∧ ¬ Inherits s := by
  have h₀ : mutexesLts.Run [] demoMutexes := .start demoMutexes_init
  have h₁ := h₀.snoc (e := MutexesEvent.lock 0 0) ⟨rfl, rfl⟩
  have h₂ := h₁.snoc (e := MutexesEvent.lock 0 1) ⟨rfl, rfl⟩
  have h₃ := h₂.snoc (e := MutexesEvent.lock 1 0) ⟨rfl, rfl⟩
  have h₄ := h₃.snoc (e := MutexesEvent.unlock 0 1) ⟨rfl, rfl⟩
  refine ⟨_, h₄, rfl, ⟨rfl, rfl⟩, rfl, rfl, ?_⟩
  intro h
  exact absurd (h.owner 0 1 0 rfl ⟨rfl, rfl⟩) (by decide)

end Gracemont
