/-
  Gracemont kernel — synchronisation objects (`kernel/sync.c` of both ports).

  A call that may block is cut at its `task_yield`: a *turn* is one critical
  section, from the call (or from the return of `task_yield`) to the next
  `task_yield` or to the return.  A turn maps the task control blocks and the
  object; its outcome is `none` when the task goes to `task_yield`.

  The X86_64 port hands a woken task to `task_ready_add`; the functions here
  return the task taken off the wait list.

  * `waitListAdd`, `waitListRemoveFirst`, `blockOn`, `wakeFirst`: wait lists;
  * `sem…`, `mutex…`, `event…`, `msgq…`: the turns of the API.
-/
import Mathlib.Data.Int.Notation
import Gracemont.Kernel.Types
import Gracemont.Lib.Links
import Gracemont.Lib.Loop

namespace Gracemont

variable {α : Type} [DecidableEq α]

/-! ## Wait lists -/

/-- `wait_list_add`. -/
def waitListAdd (m : Tcbs α) (list : Option α) (task : α) : Tcbs α × Option α :=
  let m := m.modify task fun t => { t with next := list }
  let m := m.modify task fun t => { t with prev := none }
  let m := m.modifyAt list fun t => { t with prev := some task }
  (m, some task)

/-- `wait_list_remove_first`: the new list, and the task removed. -/
def waitListRemoveFirst (m : Tcbs α) (list : Option α) : Tcbs α × Option α × Option α :=
  match list with
  | none => (m, none, none)
  | some task =>
    let list := (m task).next
    let m := m.modifyAt list fun t => { t with prev := none }
    let m := m.modify task fun t => { t with next := none }
    (m, list, some task)

/-- Putting the running task to sleep on a wait list, before `task_yield`. -/
def blockOn (m : Tcbs α) (list : Option α) (obj : WaitObj) (task : α) : Tcbs α × Option α :=
  let m := m.modify task fun t => { t with state := .blocked, waitObj := some obj }
  waitListAdd m list task

/-- Waking the first task of a wait list. -/
def wakeFirst (m : Tcbs α) (list : Option α) : Tcbs α × Option α × Option α :=
  let (m, list, waiter) := waitListRemoveFirst m list
  (m.modifyAt waiter fun t => { t with waitObj := none, waitResult := .ok, state := .ready },
    list, waiter)

/-! ## Semaphores -/

/-- `semaphore_t`. -/
structure Semaphore (α : Type) where
  count : ℤ
  waitList : Option α

/-- `sem_init`. -/
def semInit (initial : ℤ) : Semaphore α := ⟨initial, none⟩

/-- The loop of `sem_wait`, up to its next `task_yield` or its return. -/
def semWait (obj : WaitObj) (m : Tcbs α) (sem : Semaphore α) (task : α) :
    Tcbs α × Semaphore α × Option Status :=
  if sem.count ≤ 0 then
    let (m, list) := blockOn m sem.waitList obj task
    (m, { sem with waitList := list }, none)
  else (m, { sem with count := sem.count - 1 }, some .ok)

/-- `sem_wait` after `task_yield`. -/
def semResume (obj : WaitObj) (m : Tcbs α) (sem : Semaphore α) (task : α) :
    Tcbs α × Semaphore α × Option Status :=
  if (m task).waitResult ≠ .ok then (m, sem, some (m task).waitResult)
  else semWait obj m sem task

/-- `sem_trywait`. -/
def semTrywait (sem : Semaphore α) : Semaphore α × Status :=
  if 0 < sem.count then ({ sem with count := sem.count - 1 }, .ok) else (sem, .wouldBlock)

/-- `sem_post`, and the task it woke. -/
def semPost (m : Tcbs α) (sem : Semaphore α) : Tcbs α × Semaphore α × Option α :=
  let sem := { sem with count := sem.count + 1 }
  let (m, list, task) := wakeFirst m sem.waitList
  (m, { sem with waitList := list }, task)

/-! ## Mutexes of the ARM64 port -/

/-- `mutex_t` of the ARM64 port. -/
structure Mutex (α : Type) where
  owner : Option α
  lockCount : BitVec 32
  origPriority : ℕ
  waitList : Option α

/-- `mutex_init`. -/
def mutexInit : Mutex α := ⟨none, 0, 0, none⟩

/-- The loop of `mutex_lock`, up to its next `task_yield` or its return. -/
def mutexLockLoop (obj : WaitObj) (m : Tcbs α) (mutex : Mutex α) (task : α) :
    Tcbs α × Mutex α × Option Status :=
  match mutex.owner with
  | some owner =>
    let m :=
      if (m owner).priority < (m task).priority then
        m.modify owner fun t => { t with priority := (m task).priority }
      else m
    let (m, list) := blockOn m mutex.waitList obj task
    (m, { mutex with waitList := list }, none)
  | none =>
    (m, { mutex with owner := some task, lockCount := 1, origPriority := (m task).priority },
      some .ok)

/-- `mutex_lock`, up to its first `task_yield` or its return. -/
def mutexLock (obj : WaitObj) (m : Tcbs α) (mutex : Mutex α) (task : α) :
    Tcbs α × Mutex α × Option Status :=
  if mutex.owner = some task then
    (m, { mutex with lockCount := mutex.lockCount + 1 }, some .ok)
  else mutexLockLoop obj m mutex task

/-- `mutex_lock` after `task_yield`. -/
def mutexResume (obj : WaitObj) (m : Tcbs α) (mutex : Mutex α) (task : α) :
    Tcbs α × Mutex α × Option Status :=
  if (m task).waitResult ≠ .ok then (m, mutex, some (m task).waitResult)
  else mutexLockLoop obj m mutex task

/-- `mutex_trylock`. -/
def mutexTrylock (m : Tcbs α) (mutex : Mutex α) (task : α) : Mutex α × Status :=
  if mutex.owner = none then
    ({ mutex with owner := some task, lockCount := 1, origPriority := (m task).priority }, .ok)
  else if mutex.owner = some task then
    ({ mutex with lockCount := mutex.lockCount + 1 }, .ok)
  else (mutex, .wouldBlock)

/-- `mutex_unlock`, and the task it woke. -/
def mutexUnlock (m : Tcbs α) (mutex : Mutex α) (task : α) : Tcbs α × Mutex α × Option α :=
  if mutex.owner ≠ some task then (m, mutex, none)
  else
    let mutex := { mutex with lockCount := mutex.lockCount - 1 }
    if 0 < mutex.lockCount then (m, mutex, none)
    else
      let m := m.modify task fun t => { t with priority := mutex.origPriority }
      let mutex := { mutex with owner := none }
      let (m, list, waiter) := wakeFirst m mutex.waitList
      (m, { mutex with waitList := list }, waiter)

/-! ## Mutexes of the X86_64 port -/

namespace X86

/-- `mutex_t` of the X86_64 port. -/
structure Mutex (α : Type) where
  locked : BitVec 32
  owner : Option α
  waitList : Option α
  recursion : BitVec 32

/-- `mutex_init`. -/
def mutexInit : Mutex α := ⟨0, none, none, 0⟩

/-- The loop of `mutex_lock`, up to its next `task_yield` or its return. -/
def mutexLockLoop (obj : WaitObj) (m : Tcbs α) (mutex : Mutex α) (task : α) :
    Tcbs α × Mutex α × Option Status :=
  if mutex.locked ≠ 0 then
    let (m, list) := blockOn m mutex.waitList obj task
    (m, { mutex with waitList := list }, none)
  else (m, { mutex with locked := 1, owner := some task, recursion := 1 }, some .ok)

/-- `mutex_lock`, up to its first `task_yield` or its return. -/
def mutexLock (obj : WaitObj) (m : Tcbs α) (mutex : Mutex α) (task : α) :
    Tcbs α × Mutex α × Option Status :=
  if mutex.owner = some task then
    (m, { mutex with recursion := mutex.recursion + 1 }, some .ok)
  else mutexLockLoop obj m mutex task

/-- `mutex_lock` after `task_yield`. -/
def mutexResume (obj : WaitObj) (m : Tcbs α) (mutex : Mutex α) (task : α) :
    Tcbs α × Mutex α × Option Status :=
  if (m task).waitResult ≠ .ok then (m, mutex, some (m task).waitResult)
  else mutexLockLoop obj m mutex task

/-- `mutex_trylock`. -/
def mutexTrylock (mutex : Mutex α) (task : α) : Mutex α × Status :=
  if mutex.locked = 0 then ({ mutex with locked := 1, owner := some task, recursion := 1 }, .ok)
  else if mutex.owner = some task then ({ mutex with recursion := mutex.recursion + 1 }, .ok)
  else (mutex, .wouldBlock)

/-- `mutex_unlock`, and the task it woke. -/
def mutexUnlock (m : Tcbs α) (mutex : Mutex α) (task : α) : Tcbs α × Mutex α × Option α :=
  if mutex.owner ≠ some task then (m, mutex, none)
  else
    let mutex := { mutex with recursion := mutex.recursion - 1 }
    if 0 < mutex.recursion then (m, mutex, none)
    else
      let mutex := { mutex with locked := 0, owner := none }
      let (m, list, waiter) := wakeFirst m mutex.waitList
      (m, { mutex with waitList := list }, waiter)

end X86

/-! ## Event flags -/

/-- `event_t`. -/
structure Event (α : Type) where
  flags : BitVec 32
  waitList : Option α

/-- `event_init`. -/
def eventInit : Event α := ⟨0, none⟩

/-- The arguments `mask`, `wait_all` and `clear` of `event_wait`. -/
structure EventCond where
  mask : BitVec 32
  waitAll : Bool
  clear : Bool
  deriving DecidableEq

/-- The loop of `event_wait`, up to its next `task_yield` or its return; the
    outcome is what it stores in `flags_out`. -/
def eventWait (obj : WaitObj) (m : Tcbs α) (event : Event α) (task : α) (cond : EventCond) :
    Tcbs α × Event α × Option (BitVec 32) :=
  let found := event.flags &&& cond.mask
  if (cond.waitAll ∧ found = cond.mask) ∨ (¬ cond.waitAll ∧ found ≠ 0) then
    (m, if cond.clear then { event with flags := event.flags &&& ~~~cond.mask } else event,
      some event.flags)
  else
    let (m, list) := blockOn m event.waitList obj task
    (m, { event with waitList := list }, none)

/-- The loop of `event_set`: `inr` when the wait list is empty. -/
def eventWakeBody : Tcbs α × Option α × List α →
    (Tcbs α × Option α × List α) ⊕ (Tcbs α × Option α × List α)
  | (m, list, woken) =>
    let (m, list, waiter) := wakeFirst m list
    match waiter with
    | none => .inr (m, list, woken)
    | some t => .inl (m, list, woken ++ [t])

/-- `event_set`, and the tasks it woke. -/
def eventSet (fuel : ℕ) (m : Tcbs α) (event : Event α) (mask : BitVec 32) :
    Option (Tcbs α × Event α × List α) := do
  let event := { event with flags := event.flags ||| mask }
  let (m, list, woken) ← Lib.Loop.run eventWakeBody fuel (m, event.waitList, [])
  some (m, { event with waitList := list }, woken)

/-- `event_clear`. -/
def eventClear (event : Event α) (mask : BitVec 32) : Event α :=
  { event with flags := event.flags &&& ~~~mask }

/-! ## Message queues of the ARM64 port -/

/-- `msgqueue_t`; `buffer` is the memory at `mq->buffer`. -/
structure Msgqueue (α : Type) where
  buffer : ℕ → BitVec 8
  msgSize : ℕ
  capacity : ℕ
  head : ℕ
  tail : ℕ
  count : ℕ
  sendWait : Option α
  recvWait : Option α

/-- `msgq_init` over a memory; `NULL` when an argument is invalid. -/
def msgqInit (buffer : Option (ℕ → BitVec 8)) (msgSize capacity : ℕ) : Option (Msgqueue α) :=
  match buffer with
  | none => none
  | some buffer =>
    if msgSize = 0 ∨ capacity = 0 then none
    else some ⟨buffer, msgSize, capacity, 0, 0, 0, none, none⟩

/-- The loop `for (i = 0; i < n; i++) dst[i] = src[i]`, for `dst` and `src` at
    offsets into two memories. -/
def copyBytes (dst : ℕ → BitVec 8) (dstOff : ℕ) (src : ℕ → BitVec 8) (srcOff : ℕ) :
    ℕ → (ℕ → BitVec 8)
  | 0 => dst
  | i + 1 => Function.update (copyBytes dst dstOff src srcOff i) (dstOff + i) (src (srcOff + i))

/-- `msgq_send`, up to its next `task_yield` or its return, and the task it
    woke. -/
def msgqSend (obj : WaitObj) (m : Tcbs α) (mq : Msgqueue α) (task : α) (msg : ℕ → BitVec 8)
    (timeout : BitVec 32) : Tcbs α × Msgqueue α × Option Status × Option α :=
  if mq.capacity ≤ mq.count then
    if timeout = 0 then (m, mq, some .wouldBlock, none)
    else
      let (m, list) := blockOn m mq.sendWait obj task
      (m, { mq with sendWait := list }, none, none)
  else
    let dst := mq.tail * mq.msgSize % 2 ^ 64
    let mq := { mq with buffer := copyBytes mq.buffer dst msg 0 mq.msgSize }
    let mq := { mq with tail := sizeAdd mq.tail 1 % mq.capacity }
    let mq := { mq with count := sizeAdd mq.count 1 }
    let (m, list, waiter) := wakeFirst m mq.recvWait
    (m, { mq with recvWait := list }, some .ok, waiter)

/-- `msgq_recv` likewise; `msg` is the memory of the caller's buffer, which the
    outcome holds as the call leaves it. -/
def msgqRecv (obj : WaitObj) (m : Tcbs α) (mq : Msgqueue α) (task : α) (msg : ℕ → BitVec 8)
    (timeout : BitVec 32) :
    Tcbs α × Msgqueue α × Option (Status × (ℕ → BitVec 8)) × Option α :=
  if mq.count = 0 then
    if timeout = 0 then (m, mq, some (.wouldBlock, msg), none)
    else
      let (m, list) := blockOn m mq.recvWait obj task
      (m, { mq with recvWait := list }, none, none)
  else
    let src := mq.head * mq.msgSize % 2 ^ 64
    let msg := copyBytes msg 0 mq.buffer src mq.msgSize
    let mq := { mq with head := sizeAdd mq.head 1 % mq.capacity }
    let mq := { mq with count := mq.count - 1 }
    let (m, list, waiter) := wakeFirst m mq.sendWait
    (m, { mq with sendWait := list }, some (.ok, msg), waiter)

/-! ## Wait lists as chains -/

section
variable {m : Tcbs α} {list : Option α} {obj : WaitObj} {task : α} {W : List α}

variable (obj) in
/-- Going to sleep: the task is at the front of the wait list, blocked on the
    object; nothing else changed but links. -/
theorem blockOn_spec (hc : Lib.Chain m.next m.prev list W) (ht : task ∉ W) :
    ∃ m', blockOn m list obj task = (m', some task) ∧
      Lib.Chain (Tcbs.next m') (Tcbs.prev m') (some task) (task :: W) ∧
      (m' task).state = .blocked ∧ (m' task).waitObj = some obj ∧
      (∀ t, t ≠ task → (m' t).state = (m t).state ∧ (m' t).waitObj = (m t).waitObj) ∧
      ∀ t, (m' t).waitResult = (m t).waitResult := by
  refine ⟨_, rfl, ?_, ?_, ?_, fun t hne => ⟨?_, ?_⟩, fun t => ?_⟩
  · have hpush := hc.push ht
    cases list with
    | none => simpa using hpush
    | some y => simpa using hpush
  all_goals
    simp only [Lib.Store.modifyAt_field Tcb.state, Lib.Store.modifyAt_field Tcb.waitObj,
      Lib.Store.modifyAt_field Tcb.waitResult, implies_true]
  · simp
  · simp
  · simp [hne]
  · simp [hne]
  · simp [Lib.Store.modify_field Tcb.waitResult]

/-- Going to sleep touches the task and the first one on the list only. -/
theorem blockOn_of_ne {x : α} (obj : WaitObj) (hx : x ≠ task) (hl : list ≠ some x) :
    (blockOn m list obj task).1 x = m x := by
  simp only [blockOn, waitListAdd]
  rw [Lib.Store.modifyAt_of_ne _ hl, Lib.Store.modify_of_ne _ hx, Lib.Store.modify_of_ne _ hx,
    Lib.Store.modify_of_ne _ hx]

theorem blockOn_frame (hc : Lib.Chain m.next m.prev list W) (obj : WaitObj) {x : α}
    (hx : x ≠ task) (hW : x ∉ W) : (blockOn m list obj task).1 x = m x :=
  blockOn_of_ne obj hx fun he => hW (List.mem_of_head? (hc.head_eq.symm.trans he))

/-- Waking touches the first two tasks on the list only. -/
theorem wakeFirst_of_ne {x : α} (hx : x ≠ task) (hl : (m task).next ≠ some x) :
    (wakeFirst m (some task)).1 x = m x := by
  simp only [wakeFirst, waitListRemoveFirst, Lib.Store.modifyAt_some]
  rw [Lib.Store.modify_of_ne _ hx, Lib.Store.modify_of_ne _ hx, Lib.Store.modifyAt_of_ne _ hl]

theorem wakeFirst_frame (hc : Lib.Chain m.next m.prev list (task :: W)) {x : α}
    (hx : x ∉ task :: W) : (wakeFirst m list).1 x = m x := by
  obtain rfl : list = some task := hc.head_eq
  have hnext : (m task).next = W.head?.or none := hc.seg.2.1
  refine wakeFirst_of_ne (fun he => hx (he ▸ List.mem_cons_self)) fun he => ?_
  rw [hnext, Option.or_none] at he
  exact hx (List.mem_cons_of_mem _ (List.mem_of_head? he))

/-- Going to sleep leaves the priorities alone. -/
theorem blockOn_priority {x : α} :
    ((blockOn m list obj task).1 x).priority = (m x).priority := by
  simp only [blockOn, waitListAdd]
  rw [Lib.Store.modifyAt_field Tcb.priority _ _ (fun c => by rfl),
    Lib.Store.modify_field Tcb.priority _ _ (by rfl),
    Lib.Store.modify_field Tcb.priority _ _ (by rfl),
    Lib.Store.modify_field Tcb.priority _ _ (by rfl)]

/-- Waking leaves the priorities alone. -/
theorem wakeFirst_priority {x : α} : ((wakeFirst m list).1 x).priority = (m x).priority := by
  cases list with
  | none => rfl
  | some w =>
    simp only [wakeFirst, waitListRemoveFirst, Lib.Store.modifyAt_some]
    rw [Lib.Store.modify_field Tcb.priority _ _ (by rfl),
      Lib.Store.modify_field Tcb.priority _ _ (by rfl),
      Lib.Store.modifyAt_field Tcb.priority _ _ (fun c => by rfl)]

/-- Going to sleep leaves the wait results alone. -/
theorem blockOn_result (x : α) :
    ((blockOn m list obj task).1 x).waitResult = (m x).waitResult := by
  simp only [blockOn, waitListAdd]
  rw [Lib.Store.modifyAt_field Tcb.waitResult _ _ (fun c => by rfl),
    Lib.Store.modify_field Tcb.waitResult _ _ (by rfl),
    Lib.Store.modify_field Tcb.waitResult _ _ (by rfl),
    Lib.Store.modify_field Tcb.waitResult _ _ (by rfl)]

/-- Waking stores no other wait result than `STATUS_OK`. -/
theorem wakeFirst_result (list : Option α) (x : α) :
    ((wakeFirst m list).1 x).waitResult = (m x).waitResult ∨
      ((wakeFirst m list).1 x).waitResult = .ok := by
  cases list with
  | none => exact .inl rfl
  | some t =>
    simp only [wakeFirst, waitListRemoveFirst, Lib.Store.modifyAt_some]
    by_cases hx : x = t
    · subst hx
      exact .inr (by rw [Lib.Store.modify_self])
    · refine .inl ?_
      rw [Lib.Store.modify_of_ne _ hx, Lib.Store.modify_of_ne _ hx,
        Lib.Store.modifyAt_field Tcb.waitResult _ _ (fun c => by rfl)]

theorem wakeFirst_none : wakeFirst m none = (m, none, none) := rfl

/-- Waking: the first task leaves the wait list, ready, with result
    `STATUS_OK`; nothing else changed but links. -/
theorem wakeFirst_spec (hc : Lib.Chain m.next m.prev list (task :: W)) :
    ∃ m' list', wakeFirst m list = (m', list', some task) ∧
      Lib.Chain (Tcbs.next m') (Tcbs.prev m') list' W ∧
      (m' task).state = .ready ∧ (m' task).waitObj = none ∧ (m' task).waitResult = .ok ∧
      ∀ t, t ≠ task → (m' t).state = (m t).state ∧ (m' t).waitObj = (m t).waitObj ∧
        (m' t).waitResult = (m t).waitResult := by
  obtain rfl : list = some task := hc.head_eq
  have hpop := hc.pop
  refine ⟨_, _, rfl, ?_, ?_, ?_, ?_, fun t hne => ⟨?_, ?_, ?_⟩⟩
  · have hl : Tcbs.next m task = (m task).next := rfl
    rw [hl] at hpop
    cases hn : (m task).next with
    | none => rw [hn] at hpop; simpa using hpop
    | some y => rw [hn] at hpop; simpa using hpop
  · simp
  · simp
  · simp
  all_goals
    rw [Lib.Store.modifyAt_some, Lib.Store.modify_of_ne _ hne, Lib.Store.modify_of_ne _ hne]
  · refine m.modifyAt_field Tcb.state _ ?_ t
    intro c; rfl
  · refine m.modifyAt_field Tcb.waitObj _ ?_ t
    intro c; rfl
  · refine m.modifyAt_field Tcb.waitResult _ ?_ t
    intro c; rfl

/-- A task taken off a wait list has no successor. -/
theorem wakeFirst_next {m' : Tcbs α} {list' : Option α}
    (h : wakeFirst m list = (m', list', some task)) : (m' task).next = none := by
  cases list with
  | none => cases h
  | some t =>
    obtain ⟨rfl, rfl, ht⟩ : _ ∧ _ ∧ some t = some task := by
      simpa only [wakeFirst, waitListRemoveFirst, Prod.mk.injEq] using h
    obtain rfl := Option.some.inj ht
    simp

theorem wakeFirst_woken : (wakeFirst m list).2.2 = list := by
  cases list <;> rfl

/-- Taking a task off a wait list gives nobody a successor who had none. -/
theorem wakeFirst_keeps (h : (m task).next = none) : ((wakeFirst m list).1 task).next = none := by
  cases list with
  | none => exact h
  | some t =>
    simp only [wakeFirst, waitListRemoveFirst, Lib.Store.modifyAt_some]
    rw [Lib.Store.modify_field Tcb.next _ t (by rfl)]
    by_cases ht : task = t
    · subst ht; simp
    · rw [Lib.Store.modify_of_ne _ ht, Lib.Store.modifyAt_field Tcb.next _ _ (fun c => by rfl), h]

end

/-! ## Who is woken -/

section
variable (m : Tcbs α) (task : α)

theorem semPost_woken (sem : Semaphore α) : (semPost m sem).2.2 = sem.waitList := wakeFirst_woken

theorem semPost_next {sem : Semaphore α} {t : α} (h : (semPost m sem).2.2 = some t) :
    ((semPost m sem).1 t).next = none := wakeFirst_next (by rw [← h]; rfl)

theorem mutexUnlock_woken (mutex : Mutex α) : (mutexUnlock m mutex task).2.2 =
    if mutex.owner = some task ∧ mutex.lockCount = 1 then mutex.waitList else none := by
  have hlast : 0 < mutex.lockCount - 1 ↔ mutex.lockCount ≠ 1 := by bv_omega
  simp only [mutexUnlock, hlast]
  by_cases ho : mutex.owner = some task
  · by_cases hl : mutex.lockCount = 1
    · rw [if_neg (not_not.2 ho), if_neg (not_not.2 hl), if_pos ⟨ho, hl⟩]
      exact wakeFirst_woken
    · rw [if_neg (not_not.2 ho), if_pos hl, if_neg (fun h => hl h.2)]
  · rw [if_pos ho, if_neg (fun h => ho h.1)]

theorem mutexUnlock_next {mutex : Mutex α} {t : α} (h : (mutexUnlock m mutex task).2.2 = some t) :
    ((mutexUnlock m mutex task).1 t).next = none := by
  simp only [mutexUnlock] at h ⊢
  split_ifs at h ⊢
  exact wakeFirst_next (by rw [← h])

variable (obj : WaitObj) (mq : Msgqueue α) (msg : ℕ → BitVec 8) (timeout : BitVec 32)

theorem msgqSend_woken : (msgqSend obj m mq task msg timeout).2.2.2 =
    if mq.capacity ≤ mq.count then none else mq.recvWait := by
  unfold msgqSend
  split_ifs
  · rfl
  · rfl
  · exact wakeFirst_woken

theorem msgqSend_next {t : α} (h : (msgqSend obj m mq task msg timeout).2.2.2 = some t) :
    ((msgqSend obj m mq task msg timeout).1 t).next = none := by
  simp only [msgqSend] at h ⊢
  split_ifs at h ⊢
  exact wakeFirst_next (by rw [← h])

theorem msgqRecv_woken : (msgqRecv obj m mq task msg timeout).2.2.2 =
    if mq.count = 0 then none else mq.sendWait := by
  unfold msgqRecv
  split_ifs
  · rfl
  · rfl
  · exact wakeFirst_woken

theorem msgqRecv_next {t : α} (h : (msgqRecv obj m mq task msg timeout).2.2.2 = some t) :
    ((msgqRecv obj m mq task msg timeout).1 t).next = none := by
  simp only [msgqRecv] at h ⊢
  split_ifs at h ⊢
  exact wakeFirst_next (by rw [← h])

/-- The loop of `event_set`: the tasks it has woken have no successor, and it
    only ever wakes more. -/
theorem eventWake_run {fuel : ℕ} {m m' : Tcbs α} {list list' : Option α} {woken woken' : List α}
    (h : Lib.Loop.run eventWakeBody fuel (m, list, woken) = some (m', list', woken'))
    (hw : ∀ t ∈ woken, (m t).next = none) :
    (∀ t ∈ woken', (m' t).next = none) ∧ ∃ l, woken' = woken ++ l ∧ (l = [] ↔ list = none) := by
  induction fuel generalizing m list woken with
  | zero => cases h
  | succ fuel ih =>
    cases list with
    | none =>
      cases h
      exact ⟨hw, [], by simp⟩
    | some t =>
      have hw' : ∀ u ∈ woken ++ [t], ((wakeFirst m (some t)).1 u).next = none := by
        intro u hu
        rcases List.mem_append.1 hu with hu | hu
        · exact wakeFirst_keeps (hw u hu)
        · obtain rfl := List.mem_singleton.1 hu
          have hpop : wakeFirst m (some u) = ((wakeFirst m (some u)).1, _, some u) := rfl
          exact wakeFirst_next hpop
      obtain ⟨h1, l, rfl, -⟩ := ih h hw'
      exact ⟨h1, [t] ++ l, by simp⟩

end

end Gracemont
