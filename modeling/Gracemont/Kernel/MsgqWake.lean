/-
  Gracemont kernel — who is woken by a message queue (ARM64 port).

  The queue of `MsgqInv`, where a task goes on after `task_yield` only once a
  waker has taken it off its wait list, and nothing else touches the tasks that
  are blocked on the queue.  Beside its state are the tasks that a `msgq_send`
  or a `msgq_recv` woke and that have not gone on yet.

  A queue has two sides that do the same: the senders, whose units are the free
  slots, and the receivers, whose units are the messages.  What one side takes
  it gives to the other (`Wakeups.take`).

  The main result is `msgq_wakeups`: nobody waits beside a unit that no woken
  task is going to take.
-/
import Gracemont.Kernel.MsgqInv
import Gracemont.Kernel.SemInv
import Gracemont.Lib.Roster

namespace Gracemont

variable {α : Type}

/-! ## The system -/

/-- What the rest of the kernel may do: anything but touch the tasks blocked on
    the queue, or block others on it. -/
structure SleepersKept (obj : WaitObj) (m m' : Tcbs α) : Prop where
  keep : ∀ t, BlockedOn obj m t → m' t = m t
  fresh : ∀ t, BlockedOn obj m' t → BlockedOn obj m t

/-- A task goes on once it is not blocked on the queue any more. -/
def Orderly (obj : WaitObj) (s : MsgqUse α) : MsgqEvent α → Prop
  | .sendResume t _ _ _ | .recvResume t _ _ _ => ¬BlockedOn obj s.tcb t
  | .sched m => SleepersKept obj s.tcb m
  | .send _ _ _ _ | .recv _ _ _ _ => True

/-- The tasks that were woken and have not gone on. -/
structure MsgqWoken (α : Type) where
  senders : List α
  receivers : List α

section
variable [DecidableEq α]

/-- The queue, from `msgq_init` on, when nobody is blocked on it. -/
def msgqYieldLts (obj : WaitObj) (cfg : MsgqConfig) : Lib.Lts (MsgqUse α) (MsgqEvent α) :=
  ⟨fun s => (msgqLts obj cfg).init s ∧ ∀ t, ¬BlockedOn obj s.tcb t,
    fun s e s' => Orderly obj s e ∧ msgqStep obj s e s'⟩

/-- A send wakes a receiver, a receive wakes a sender, and a task that goes on
    is not among them any more. -/
def wokenNext (obj : WaitObj) (s : MsgqUse α) (e : MsgqEvent α) (_ : MsgqUse α)
    (g : MsgqWoken α) : MsgqWoken α :=
  match e with
  | .send t msg timeout _ =>
    ⟨g.senders, (msgqSend obj s.tcb s.mq t msg timeout).2.2.2.toList ++ g.receivers⟩
  | .sendResume t msg timeout _ =>
    ⟨g.senders.erase t, (msgqSend obj s.tcb s.mq t msg timeout).2.2.2.toList ++ g.receivers⟩
  | .recv t msg timeout _ =>
    ⟨(msgqRecv obj s.tcb s.mq t msg timeout).2.2.2.toList ++ g.senders, g.receivers⟩
  | .recvResume t msg timeout _ =>
    ⟨(msgqRecv obj s.tcb s.mq t msg timeout).2.2.2.toList ++ g.senders, g.receivers.erase t⟩
  | .sched _ => g

/-- The queue with the tasks that it woke. -/
def msgqWakeLts (obj : WaitObj) (cfg : MsgqConfig) :
    Lib.Lts (MsgqUse α × MsgqWoken α) (MsgqEvent α) :=
  (msgqYieldLts obj cfg).track (fun _ => ⟨[], []⟩) (wokenNext obj)

end

/-! ## One side -/

/-- One side of the queue: the tasks `W` on its wait list, the tasks `A` that
    were woken, and its `n` units. -/
structure Side (m : Tcbs α) (list : Option α) (W A : List α) (n : ℕ) (inCall : α → Prop) :
    Prop where
  chain : Lib.Chain m.next m.prev list W
  inCall : ∀ t, inCall t ↔ t ∈ W ∨ t ∈ A
  apart : ∀ t ∈ A, t ∉ W
  nodup : A.Nodup
  covered : W ≠ [] → n ≤ A.length

namespace Side
variable {m m' : Tcbs α} {list list' : Option α} {W A : List α} {n : ℕ} {inCall inCall' : α → Prop}

/-- Nobody is in a call. -/
theorem empty (h : ∀ t, ¬inCall t) : Side m none [] [] n inCall where
  chain := Lib.chain_nil
  inCall t := by simpa using h t
  apart t ht := by cases ht
  nodup := List.nodup_nil
  covered hne := absurd rfl hne

/-- Only the tasks on the wait list matter. -/
theorem congr (h : Side m list W A n inCall) (hm : ∀ x ∈ W, m' x = m x) :
    Side m' list W A n inCall :=
  ⟨h.chain.congr (fun x hx => congrArg Tcb.next (hm x hx))
    (fun x hx => congrArg Tcb.prev (hm x hx)), h.inCall, h.apart, h.nodup, h.covered⟩

/-- One more unit, for which the first task is woken. -/
theorem wake {t : α} (h : Side m list (t :: W) A n inCall)
    (hchain : Lib.Chain (Tcbs.next m') (Tcbs.prev m') list' W) :
    Side m' list' W (t :: A) (n + 1) inCall := by
  have htA : t ∉ A := fun ht => h.apart t ht List.mem_cons_self
  have htW := (List.nodup_cons.1 h.chain.nodup).1
  refine ⟨hchain, fun x => ?_, fun x hx => ?_, List.nodup_cons.2 ⟨htA, h.nodup⟩, fun _ => ?_⟩
  · rw [h.inCall, List.mem_cons, List.mem_cons]
    tauto
  · rcases List.mem_cons.1 hx with rfl | hx
    · exact htW
    · exact fun hmem => h.apart x hx (List.mem_cons_of_mem _ hmem)
  · have hcov := h.covered (List.cons_ne_nil t W)
    rw [List.length_cons]
    omega

variable [DecidableEq α] {t : α}

theorem mem_erase (h : Side m list W A n inCall) {x : α} : x ∈ A.erase t ↔ x ≠ t ∧ x ∈ A :=
  h.nodup.mem_erase_iff

/-- A task ends its call, with a unit or because there is none. -/
theorem leave (h : Side m list W A n inCall) (ht : t ∉ W)
    (hcall : ∀ x, inCall' x ↔ x ≠ t ∧ inCall x) : Side m list W (A.erase t) (n - 1) inCall' := by
  refine ⟨h.chain, fun x => ?_, fun x hx => h.apart x (List.mem_of_mem_erase hx),
    h.nodup.erase t, fun hW => ?_⟩
  · rw [hcall, h.inCall, h.mem_erase]
    constructor
    · rintro ⟨hne, hx | hx⟩
      · exact .inl hx
      · exact .inr ⟨hne, hx⟩
    · rintro (hx | ⟨hne, hx⟩)
      · exact ⟨fun he => ht (he ▸ hx), .inl hx⟩
      · exact ⟨hne, .inr hx⟩
  · have hcov := h.covered hW
    rw [List.length_erase]
    split <;> omega

/-- A task goes to sleep where there is no unit. -/
theorem sleep (h : Side m list W A 0 inCall)
    (hchain : Lib.Chain (Tcbs.next m') (Tcbs.prev m') list' (t :: W))
    (hcall : ∀ x, inCall' x ↔ x = t ∨ inCall x) : Side m' list' (t :: W) (A.erase t) 0 inCall' := by
  refine ⟨hchain, fun x => ?_, fun x hx => ?_, h.nodup.erase t, fun _ => Nat.zero_le _⟩
  · rw [hcall, h.inCall, h.mem_erase, List.mem_cons]
    by_cases hx : x = t
    · simp [hx]
    · simp [hx]
  · obtain ⟨hne, hx⟩ := h.mem_erase.1 hx
    exact fun hmem => (List.mem_cons.1 hmem).elim hne (h.apart x hx)

end Side

/-! ## Both sides -/

/-- The side of the task at hand and the other one, of which a task is on one at
    most. -/
structure Wakeups (obj : WaitObj) (m : Tcbs α) (own other : Option α) (ownCall otherCall : α → Prop)
    (W A W' A' : List α) (n n' : ℕ) : Prop where
  own : Side m own W A n ownCall
  other : Side m other W' A' n' otherCall
  exclusive : ∀ t, ownCall t → ¬otherCall t
  blocked : ∀ t, t ∈ W ∨ t ∈ W' ↔ BlockedOn obj m t

namespace Wakeups
variable {obj : WaitObj} {m m' : Tcbs α} {own other : Option α}
  {ownCall ownCall' otherCall : α → Prop} {W A W' A' : List α} {n n' : ℕ}

theorem swap (h : Wakeups obj m own other ownCall otherCall W A W' A' n n') :
    Wakeups obj m other own otherCall ownCall W' A' W A n' n :=
  ⟨h.other, h.own, fun t ht ht' => h.exclusive t ht' ht, fun t => or_comm.trans (h.blocked t)⟩

/-- No task waits on both sides. -/
theorem disjoint (h : Wakeups obj m own other ownCall otherCall W A W' A' n n') {x : α}
    (hx : x ∈ W) : x ∉ W' := fun hx' =>
  h.exclusive x ((h.own.inCall x).2 (.inl hx)) ((h.other.inCall x).2 (.inl hx'))

variable [DecidableEq α] {t : α}

/-- A task ends its call without a unit. -/
theorem quit (h : Wakeups obj m own other ownCall otherCall W A W' A' 0 n') (ht : t ∉ W)
    (hcall : ∀ x, ownCall' x ↔ x ≠ t ∧ ownCall x) :
    Wakeups obj m own other ownCall' otherCall W (A.erase t) W' A' 0 n' :=
  ⟨h.own.leave ht hcall, h.other, fun x hx => h.exclusive x ((hcall x).1 hx).2, h.blocked⟩

/-- A task goes to sleep. -/
theorem sleep (h : Wakeups obj m own other ownCall otherCall W A W' A' 0 n') (ht : t ∉ W)
    (ht' : t ∉ W') (hother : ¬otherCall t) (hcall : ∀ x, ownCall' x ↔ x = t ∨ ownCall x) :
    Wakeups obj (blockOn m own obj t).1 (blockOn m own obj t).2 other ownCall' otherCall (t :: W)
      (A.erase t) W' A' 0 n' := by
  obtain ⟨m₁, hm₁, hchain, hstate, hobj, hrest, -⟩ := blockOn_spec obj h.own.chain ht
  refine ⟨?_, h.other.congr fun x hx => ?_, fun x hx => ?_, fun x => ?_⟩
  · rw [hm₁]
    exact h.own.sleep hchain hcall
  · exact blockOn_frame h.own.chain obj (fun he => ht' (he ▸ hx)) fun hmem => h.disjoint hmem hx
  · rcases (hcall x).1 hx with rfl | hx
    · exact hother
    · exact h.exclusive x hx
  · rw [hm₁]
    by_cases hx : x = t
    · subst hx
      simp [BlockedOn, hstate, hobj]
    · obtain ⟨h1, h2⟩ := hrest x hx
      have hb := h.blocked x
      unfold BlockedOn at hb ⊢
      rw [h1, h2, List.mem_cons, or_iff_right hx]
      exact hb

/-- **Taking a unit** gives one to the other side, which wakes its first task. -/
theorem take (h : Wakeups obj m own other ownCall otherCall W A W' A' n n') (ht : t ∉ W)
    (hcall : ∀ x, ownCall' x ↔ x ≠ t ∧ ownCall x) :
    Wakeups obj (wakeFirst m other).1 own (wakeFirst m other).2.1 ownCall' otherCall W (A.erase t)
      W'.tail ((wakeFirst m other).2.2.toList ++ A') (n - 1) (n' + 1) := by
  have hexcl : ∀ x, ownCall' x → ¬otherCall x := fun x hx => h.exclusive x ((hcall x).1 hx).2
  cases W' with
  | nil =>
    have hnull : other = none := h.other.chain.head_eq
    subst hnull
    have hmore : Side m none [] A' (n' + 1) otherCall :=
      ⟨h.other.chain, h.other.inCall, h.other.apart, h.other.nodup, fun hne => absurd rfl hne⟩
    exact ⟨h.own.leave ht hcall, hmore, hexcl, h.blocked⟩
  | cons u rest =>
    obtain ⟨m₁, list, hw, hchain, hstate, hobj, -, hrest⟩ := wakeFirst_spec h.other.chain
    have hu : u ∉ W := fun hu => h.disjoint hu List.mem_cons_self
    rw [hw]
    refine ⟨(h.own.leave ht hcall).congr fun x hx => ?_, h.other.wake hchain, hexcl, fun x => ?_⟩
    · have hsame := wakeFirst_frame h.other.chain (h.disjoint hx)
      rwa [hw] at hsame
    · have hb := h.blocked x
      by_cases hx : x = u
      · subst hx
        have hnot := (List.nodup_cons.1 h.other.chain.nodup).1
        simp [BlockedOn, hstate, hu, hnot]
      · obtain ⟨h1, h2, -⟩ := hrest x hx
        rw [List.mem_cons, or_iff_right hx] at hb
        unfold BlockedOn at hb ⊢
        rw [h1, h2]
        exact hb

end Wakeups

/-! ## The turns -/

/-- The task is in a `msgq_send`. -/
def Sending (call : Option MsgqCall) : Prop := ∃ msg timeout, call = some (.send msg timeout)

/-- The task is in a `msgq_recv`. -/
def Receiving (call : Option MsgqCall) : Prop := ∃ msg timeout, call = some (.recv msg timeout)

theorem Sending.not_receiving {call : Option MsgqCall} (h : Sending call) : ¬Receiving call := by
  obtain ⟨msg, timeout, rfl⟩ := h
  rintro ⟨msg', timeout', he⟩
  cases he

theorem pending_some {ρ : Type} (call : MsgqCall) (r : ρ) : pending call (some r) = none := rfl

theorem pending_none {ρ : Type} (call : MsgqCall) :
    pending call (none : Option ρ) = some call := rfl

section
variable [DecidableEq α] {call : α → Option MsgqCall} {t : α} {c : Option MsgqCall}

/-- The calls of the other side. -/
theorem call_other {P : Option MsgqCall → Prop} (hc : ¬P c) (ht : ¬P (call t)) :
    (fun x => P (Function.update call t c x)) = fun x => P (call x) :=
  funext fun x => propext (Lib.update_keep hc ht x)

end

/-- The two sides of the queue. -/
structure MsgqWakeInv (obj : WaitObj) (cfg : MsgqConfig) (s : MsgqUse α) (g : MsgqWoken α) :
    Prop where
  wf : MsgqWf cfg s.mq
  sides : ∃ W W', Wakeups obj s.tcb s.mq.sendWait s.mq.recvWait (fun t => Sending (s.call t))
    (fun t => Receiving (s.call t)) W g.senders W' g.receivers (cfg.capacity - s.mq.count)
    s.mq.count

section
variable {obj : WaitObj} {cfg : MsgqConfig} {s s' : MsgqUse α} {g : MsgqWoken α}
  {t : α} {msg : ℕ → BitVec 8} {timeout : BitVec 32}

theorem not_sending_none : ¬Sending none := by
  rintro ⟨msg, timeout, he⟩
  cases he

theorem not_receiving_none : ¬Receiving none := by
  rintro ⟨msg, timeout, he⟩
  cases he

/-- What goes on elsewhere leaves both sides alone. -/
theorem MsgqWakeInv.sched (h : MsgqWakeInv obj cfg s g) {m : Tcbs α}
    (hm : SleepersKept obj s.tcb m) : MsgqWakeInv obj cfg ⟨m, s.mq, s.call⟩ g := by
  obtain ⟨W, W', hw⟩ := h.sides
  have hkeep : ∀ t, t ∈ W ∨ t ∈ W' → m t = s.tcb t := fun t ht => hm.keep t ((hw.blocked t).1 ht)
  refine ⟨h.wf, W, W', hw.own.congr fun t ht => hkeep t (.inl ht),
    hw.other.congr fun t ht => hkeep t (.inr ht), hw.exclusive,
    fun t => ⟨fun ht => ?_, fun ht => ?_⟩⟩
  · show (m t).state = .blocked ∧ (m t).waitObj = some obj
    rw [hkeep t ht]
    exact (hw.blocked t).1 ht
  · exact (hw.blocked t).2 (hm.fresh t ht)

variable [DecidableEq α]

/-- What a turn of `msgq_send` does: it would block, goes to sleep, or stores
    its message. -/
theorem msgqSend_cases (obj : WaitObj) (m : Tcbs α) (mq : Msgqueue α) (t : α) (msg : ℕ → BitVec 8)
    (timeout : BitVec 32) :
    (mq.capacity ≤ mq.count ∧ msgqSend obj m mq t msg timeout = (m, mq, some .wouldBlock, none)) ∨
    (mq.capacity ≤ mq.count ∧ msgqSend obj m mq t msg timeout =
      ((blockOn m mq.sendWait obj t).1,
        { mq with sendWait := (blockOn m mq.sendWait obj t).2 }, none, none)) ∨
    (mq.count < mq.capacity ∧ ∃ mq', msgqSend obj m mq t msg timeout =
      ((wakeFirst m mq.recvWait).1, mq', some .ok, (wakeFirst m mq.recvWait).2.2) ∧
      mq'.sendWait = mq.sendWait ∧ mq'.recvWait = (wakeFirst m mq.recvWait).2.1 ∧
      mq'.count = sizeAdd mq.count 1) := by
  unfold msgqSend
  split_ifs with hfull ht
  · exact .inl ⟨hfull, rfl⟩
  · exact .inr (.inl ⟨hfull, rfl⟩)
  · exact .inr (.inr ⟨by omega, _, rfl, rfl, rfl, rfl⟩)

/-- What a turn of `msgq_recv` does. -/
theorem msgqRecv_cases (obj : WaitObj) (m : Tcbs α) (mq : Msgqueue α) (t : α) (msg : ℕ → BitVec 8)
    (timeout : BitVec 32) :
    (mq.count = 0 ∧
      msgqRecv obj m mq t msg timeout = (m, mq, some (.wouldBlock, msg), none)) ∨
    (mq.count = 0 ∧ msgqRecv obj m mq t msg timeout =
      ((blockOn m mq.recvWait obj t).1,
        { mq with recvWait := (blockOn m mq.recvWait obj t).2 }, none, none)) ∨
    (0 < mq.count ∧ ∃ mq' out, msgqRecv obj m mq t msg timeout =
      ((wakeFirst m mq.sendWait).1, mq', some (.ok, out), (wakeFirst m mq.sendWait).2.2) ∧
      mq'.recvWait = mq.recvWait ∧ mq'.sendWait = (wakeFirst m mq.sendWait).2.1 ∧
      mq'.count = mq.count - 1) := by
  unfold msgqRecv
  split_ifs with hempty ht
  · exact .inl ⟨hempty, rfl⟩
  · exact .inr (.inl ⟨hempty, rfl⟩)
  · exact .inr (.inr ⟨by omega, _, _, rfl, rfl, rfl, rfl⟩)

/-- **A turn of `msgq_send`**, of a task that is not on a wait list. -/
theorem MsgqWakeInv.send (h : MsgqWakeInv obj cfg s g) {r : Option Status}
    (ht : ¬BlockedOn obj s.tcb t) (hcall : ¬Receiving (s.call t))
    (hs : sendTurn obj s t msg timeout = (r, s')) :
    MsgqWakeInv obj cfg s' ⟨g.senders.erase t,
      (msgqSend obj s.tcb s.mq t msg timeout).2.2.2.toList ++ g.receivers⟩ := by
  obtain ⟨W, W', hw⟩ := h.sides
  have htW : t ∉ W := fun hmem => ht ((hw.blocked t).1 (.inl hmem))
  have htW' : t ∉ W' := fun hmem => ht ((hw.blocked t).1 (.inr hmem))
  have hcap := h.wf.capacity
  have hcount := h.wf.count
  have hend : ∀ x, Sending (Function.update s.call t none x) ↔ x ≠ t ∧ Sending (s.call x) :=
    Lib.update_lose not_sending_none
  have hother : (fun x => Receiving (Function.update s.call t none x)) =
      fun x => Receiving (s.call x) := call_other not_receiving_none hcall
  unfold sendTurn at hs
  rcases msgqSend_cases obj s.tcb s.mq t msg timeout with
    ⟨hfull, hx⟩ | ⟨hfull, hx⟩ | ⟨hroom, mq', hx, hsend, hrecv, hmore⟩
  · have hwf := (msgqSend_spec h.wf hx).1
    rw [hx] at hs ⊢
    cases hs
    have hzero : cfg.capacity - s.mq.count = 0 := by omega
    refine ⟨hwf, W, W', ?_⟩
    dsimp only
    rw [pending_some, hother, hzero]
    rw [hzero] at hw
    exact hw.quit htW hend
  · have hwf := (msgqSend_spec h.wf hx).1
    rw [hx] at hs ⊢
    cases hs
    have hzero : cfg.capacity - s.mq.count = 0 := by omega
    have hsnd : Sending (some (.send msg timeout)) := ⟨msg, timeout, rfl⟩
    refine ⟨hwf, t :: W, W', ?_⟩
    dsimp only
    rw [pending_none, call_other hsnd.not_receiving hcall, hzero]
    rw [hzero] at hw
    exact hw.sleep htW htW' hcall (Lib.update_gain hsnd)
  · have hwf := (msgqSend_spec h.wf hx).1
    rw [hx] at hs ⊢
    cases hs
    have hone : mq'.count = s.mq.count + 1 := by
      rw [hmore]
      exact Nat.mod_eq_of_lt (cfg.succ_lt (by omega))
    have hless : cfg.capacity - mq'.count = cfg.capacity - s.mq.count - 1 := by omega
    refine ⟨hwf, W, W'.tail, ?_⟩
    dsimp only
    rw [pending_some, hother, hless, hone, hsend, hrecv]
    exact hw.take htW hend

/-- **A turn of `msgq_recv`**, of a task that is not on a wait list. -/
theorem MsgqWakeInv.recv (h : MsgqWakeInv obj cfg s g) {r : Option (Status × (ℕ → BitVec 8))}
    (ht : ¬BlockedOn obj s.tcb t) (hcall : ¬Sending (s.call t))
    (hs : recvTurn obj s t msg timeout = (r, s')) :
    MsgqWakeInv obj cfg s' ⟨(msgqRecv obj s.tcb s.mq t msg timeout).2.2.2.toList ++ g.senders,
      g.receivers.erase t⟩ := by
  obtain ⟨W, W', hw⟩ := h.sides
  have hw := hw.swap
  have htW : t ∉ W := fun hmem => ht ((hw.blocked t).1 (.inr hmem))
  have htW' : t ∉ W' := fun hmem => ht ((hw.blocked t).1 (.inl hmem))
  have hcap := h.wf.capacity
  have hcount := h.wf.count
  have hend : ∀ x, Receiving (Function.update s.call t none x) ↔ x ≠ t ∧ Receiving (s.call x) :=
    Lib.update_lose not_receiving_none
  have hother : (fun x => Sending (Function.update s.call t none x)) =
      fun x => Sending (s.call x) := call_other not_sending_none hcall
  unfold recvTurn at hs
  rcases msgqRecv_cases obj s.tcb s.mq t msg timeout with
    ⟨hempty, hx⟩ | ⟨hempty, hx⟩ | ⟨hpos, mq', out, hx, hrecv, hsend, hless⟩
  · have hwf := (msgqRecv_spec h.wf hx).1
    rw [hx] at hs ⊢
    cases hs
    refine ⟨hwf, W, W', ?_⟩
    dsimp only
    rw [pending_some, hother]
    rw [hempty] at hw ⊢
    exact (hw.quit htW' hend).swap
  · have hwf := (msgqRecv_spec h.wf hx).1
    rw [hx] at hs ⊢
    cases hs
    have hrcv : Receiving (some (.recv msg timeout)) := ⟨msg, timeout, rfl⟩
    have hsnd : ¬Sending (some (.recv msg timeout)) := fun h => h.not_receiving hrcv
    refine ⟨hwf, W, t :: W', ?_⟩
    dsimp only
    rw [pending_none, call_other hsnd hcall]
    rw [hempty] at hw ⊢
    exact (hw.sleep htW' htW hcall (Lib.update_gain hrcv)).swap
  · have hwf := (msgqRecv_spec h.wf hx).1
    rw [hx] at hs ⊢
    cases hs
    have hmore : cfg.capacity - mq'.count = cfg.capacity - s.mq.count + 1 := by omega
    refine ⟨hwf, W.tail, W', ?_⟩
    dsimp only
    rw [pending_some, hother, hmore, hless, hrecv, hsend]
    exact (hw.take htW' hend).swap

theorem msgqStep_wakes {e : MsgqEvent α} (h : MsgqWakeInv obj cfg s g) (ho : Orderly obj s e)
    (hs : msgqStep obj s e s') : MsgqWakeInv obj cfg s' (wokenNext obj s e s' g) := by
  obtain ⟨W, W', hw⟩ := h.sides
  -- a task that is in no call is on neither list, and was not woken
  have hfresh : ∀ {t}, s.call t = none → ¬BlockedOn obj s.tcb t ∧ t ∉ g.senders ∧
      t ∉ g.receivers := fun {t} hnone => by
    have hS : ¬Sending (s.call t) := hnone ▸ not_sending_none
    have hR : ¬Receiving (s.call t) := hnone ▸ not_receiving_none
    refine ⟨fun hb => ?_, fun hmem => hS ((hw.own.inCall t).2 (.inr hmem)),
      fun hmem => hR ((hw.other.inCall t).2 (.inr hmem))⟩
    rcases (hw.blocked t).2 hb with hmem | hmem
    · exact hS ((hw.own.inCall t).2 (.inl hmem))
    · exact hR ((hw.other.inCall t).2 (.inl hmem))
  cases e with
  | send t msg timeout r =>
    obtain ⟨hcall, hturn⟩ := hs
    obtain ⟨hb, hS, -⟩ := hfresh hcall
    have hnext := h.send hb (hcall ▸ not_receiving_none) hturn
    rwa [List.erase_of_not_mem hS] at hnext
  | sendResume t msg timeout r =>
    obtain ⟨hcall, hturn⟩ := hs
    have hsnd : Sending (s.call t) := ⟨msg, timeout, hcall⟩
    exact h.send ho hsnd.not_receiving hturn
  | recv t msg timeout r =>
    obtain ⟨hcall, hturn⟩ := hs
    obtain ⟨hb, -, hR⟩ := hfresh hcall
    have hnext := h.recv hb (hcall ▸ not_sending_none) hturn
    rwa [List.erase_of_not_mem hR] at hnext
  | recvResume t msg timeout r =>
    obtain ⟨hcall, hturn⟩ := hs
    have hrcv : Receiving (s.call t) := ⟨msg, timeout, hcall⟩
    exact h.recv ho (fun hsnd => hsnd.not_receiving hrcv) hturn
  | sched m =>
    cases hs
    exact h.sched ho

theorem msgqWake_run {tr : List (MsgqEvent α)} (h : (msgqWakeLts obj cfg).Run tr (s, g)) :
    MsgqWakeInv obj cfg s g := by
  refine h.track_rule (P := fun s g => MsgqWakeInv obj cfg s g) ?_ ?_
  · rintro s ⟨⟨hinit, hcall⟩, hb⟩
    obtain ⟨hnull, hnull', hzero⟩ : s.mq.sendWait = none ∧ s.mq.recvWait = none ∧
        s.mq.count = 0 := by
      have hm := cfg.msgSize_pos
      have hc := cfg.capacity_pos
      rw [msgqInit, if_neg (by omega)] at hinit
      rw [← Option.some.inj hinit]
      exact ⟨rfl, rfl, rfl⟩
    have hnoS : ∀ t, ¬Sending (s.call t) := fun t => (hcall t).symm ▸ not_sending_none
    have hnoR : ∀ t, ¬Receiving (s.call t) := fun t => (hcall t).symm ▸ not_receiving_none
    have hstart : (msgqLts obj cfg).Run [] s := .start ⟨hinit, hcall⟩
    refine ⟨(msgq_run hstart).1, [], [], ?_, ?_, fun t ht => absurd ht (hnoS t),
      fun t => by simpa using hb t⟩
    · rw [hnull]
      exact Side.empty hnoS
    · rw [hnull']
      exact Side.empty hnoR
  · rintro s g e s' hinv ⟨ho, hs⟩
    exact msgqStep_wakes hinv ho hs

/-- **Wake-ups.**  In any interleaving: while receivers wait, there are at most
    as many messages as receivers that were woken and have not gone on, and
    while senders wait, at most as many free slots as such senders; so nobody
    waits beside a message or a slot that none of them is going to take. -/
theorem msgq_wakeups (obj : WaitObj) (cfg : MsgqConfig) {tr : List (MsgqEvent α)}
    (h : (msgqWakeLts obj cfg).Run tr (s, g)) :
    ((s.mq.recvWait ≠ none → s.mq.count ≤ g.receivers.length) ∧
      (s.mq.sendWait ≠ none → s.mq.capacity - s.mq.count ≤ g.senders.length)) ∧
    ((g.receivers.length < s.mq.count → s.mq.recvWait = none) ∧
      (g.senders.length < s.mq.capacity - s.mq.count → s.mq.sendWait = none)) ∧
    (g.receivers.Nodup ∧ ∀ t ∈ g.receivers, Receiving (s.call t) ∧ ¬BlockedOn obj s.tcb t) ∧
    (g.senders.Nodup ∧ ∀ t ∈ g.senders, Sending (s.call t) ∧ ¬BlockedOn obj s.tcb t) := by
  have hinv := msgqWake_run h
  obtain ⟨W, W', hw⟩ := hinv.sides
  have hsend : s.mq.sendWait ≠ none → s.mq.capacity - s.mq.count ≤ g.senders.length := fun hne => by
    rw [hinv.wf.capacity]
    refine hw.own.covered fun he => hne ?_
    subst he
    exact hw.own.chain.head_eq
  have hrecv : s.mq.recvWait ≠ none → s.mq.count ≤ g.receivers.length := fun hne => by
    refine hw.other.covered fun he => hne ?_
    subst he
    exact hw.other.chain.head_eq
  refine ⟨⟨hrecv, hsend⟩, ⟨fun hlt => ?_, fun hlt => ?_⟩, ⟨hw.other.nodup, fun t ht => ?_⟩,
    hw.own.nodup, fun t ht => ?_⟩
  · by_contra hne
    have hle := hrecv hne
    omega
  · by_contra hne
    have hle := hsend hne
    omega
  · have hcall := (hw.other.inCall t).2 (.inr ht)
    refine ⟨hcall, fun hb => ((hw.blocked t).2 hb).elim (fun hmem => ?_) (hw.other.apart t ht)⟩
    exact hw.exclusive t ((hw.own.inCall t).2 (.inl hmem)) hcall
  · have hcall := (hw.own.inCall t).2 (.inr ht)
    refine ⟨hcall, fun hb => ((hw.blocked t).2 hb).elim (hw.own.apart t ht) fun hmem => ?_⟩
    exact hw.exclusive t hcall ((hw.other.inCall t).2 (.inl hmem))

end

def demoWakeQueue : MsgqConfig := ⟨1, 1, fun _ => 0, by decide, by decide, by decide⟩

/-- Two tasks wait for a message, a third one sends one, which wakes one of them,
    and takes it back. -/
theorem msgq_wakeups_stolen : ∃ (tr : List (MsgqEvent (Fin 3))) (s : MsgqUse (Fin 3))
    (g : MsgqWoken (Fin 3)), (msgqWakeLts (.msgq 0) demoWakeQueue).Run tr (s, g) ∧
      s.mq.recvWait = some 0 ∧ g.receivers = [1] ∧ s.mq.count ≤ g.receivers.length := by
  have h₀ : (msgqWakeLts (.msgq 0) demoWakeQueue).Run ([] : List (MsgqEvent (Fin 3)))
      (⟨fun _ => { Tcb.zero with state := .running }, ⟨fun _ => 0, 1, 1, 0, 0, 0, none, none⟩,
        fun _ => none⟩, ⟨[], []⟩) :=
    .start ⟨⟨⟨rfl, fun _ => rfl⟩, fun _ hb => by cases hb.1⟩, rfl⟩
  have h₁ := h₀.snoc_track (e := .recv 0 (fun _ => 0) 1 none) ⟨trivial, rfl, rfl⟩
  have h₂ := h₁.snoc_track (e := .recv 1 (fun _ => 0) 1 none) ⟨trivial, rfl, rfl⟩
  have h₃ := h₂.snoc_track (e := .send 2 (fun _ => 7) 1 (some .ok)) ⟨trivial, rfl, rfl⟩
  have h₄ := h₃.snoc_track (e := .recv 2 (fun _ => 0) 1 (some (.ok, _))) ⟨trivial, rfl, rfl⟩
  exact ⟨_, _, _, h₄, rfl, rfl, (msgq_wakeups _ _ h₄).1.1 (by decide)⟩

end Gracemont
