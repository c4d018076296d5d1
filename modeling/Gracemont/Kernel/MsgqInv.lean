/-
  Gracemont kernel — message queues as bounded queues (ARM64 port).

  One message queue and the tasks that use it, in any interleaving.  A call that
  goes to `task_yield` ends its event with outcome `none`; its next turn, an
  event `sendResume` or `recvResume`, may come at any time, so that nothing is
  assumed about the scheduler.  The event `sched` is anything that happens to
  the task control blocks in between.

  `msgqContents` is the queue of messages that the ring buffer stands for; the
  main result is `msgq_fifo`.
-/
import Gracemont.Kernel.Sync
import Gracemont.Lib.RingBuffer
import Gracemont.Lib.Trace

namespace Gracemont

variable {α : Type}

/-- The first `size` bytes of a memory from an offset, as a list. -/
def bytesAt (mem : ℕ → BitVec 8) (off size : ℕ) : List (BitVec 8) :=
  (List.range size).map fun i => mem (off + i)

/-- A blocking call in its `task_yield`. -/
inductive MsgqCall where
  | send (msg : ℕ → BitVec 8) (timeout : BitVec 32)
  | recv (msg : ℕ → BitVec 8) (timeout : BitVec 32)

/-- A message queue in use, and what each task is blocked in. -/
structure MsgqUse (α : Type) where
  tcb : Tcbs α
  mq : Msgqueue α
  call : α → Option MsgqCall

/-- The turns on the queue, with their outcomes. -/
inductive MsgqEvent (α : Type) where
  | send (t : α) (msg : ℕ → BitVec 8) (timeout : BitVec 32) (r : Option Status)
  | sendResume (t : α) (msg : ℕ → BitVec 8) (timeout : BitVec 32) (r : Option Status)
  | recv (t : α) (msg : ℕ → BitVec 8) (timeout : BitVec 32)
      (r : Option (Status × (ℕ → BitVec 8)))
  | recvResume (t : α) (msg : ℕ → BitVec 8) (timeout : BitVec 32)
      (r : Option (Status × (ℕ → BitVec 8)))
  | sched (m : Tcbs α)

/-- The call goes on, after a turn with outcome `none`. -/
def pending {ρ : Type} (call : MsgqCall) (r : Option ρ) : Option MsgqCall :=
  if r.isNone then some call else none

/-- The size and the capacity of a queue, and the buffer of
    `capacity * msg_size` bytes, which is in the address space. -/
structure MsgqConfig where
  msgSize : ℕ
  capacity : ℕ
  buffer : ℕ → BitVec 8
  msgSize_pos : 0 < msgSize
  capacity_pos : 0 < capacity
  fits : capacity * msgSize < 2 ^ 64

section
variable [DecidableEq α]

/-- A turn of `msgq_send`. -/
def sendTurn (obj : WaitObj) (s : MsgqUse α) (t : α) (msg : ℕ → BitVec 8) (timeout : BitVec 32) :
    Option Status × MsgqUse α :=
  let (m, mq, r, _) := msgqSend obj s.tcb s.mq t msg timeout
  (r, ⟨m, mq, Function.update s.call t (pending (.send msg timeout) r)⟩)

/-- A turn of `msgq_recv`. -/
def recvTurn (obj : WaitObj) (s : MsgqUse α) (t : α) (msg : ℕ → BitVec 8) (timeout : BitVec 32) :
    Option (Status × (ℕ → BitVec 8)) × MsgqUse α :=
  let (m, mq, r, _) := msgqRecv obj s.tcb s.mq t msg timeout
  (r, ⟨m, mq, Function.update s.call t (pending (.recv msg timeout) r)⟩)

/-- One turn: a first one, or another one of a call that is in `task_yield`. -/
def msgqStep (obj : WaitObj) (s : MsgqUse α) : MsgqEvent α → MsgqUse α → Prop
  | .send t msg timeout r, s' => s.call t = none ∧ sendTurn obj s t msg timeout = (r, s')
  | .sendResume t msg timeout r, s' =>
    s.call t = some (.send msg timeout) ∧ sendTurn obj s t msg timeout = (r, s')
  | .recv t msg timeout r, s' => s.call t = none ∧ recvTurn obj s t msg timeout = (r, s')
  | .recvResume t msg timeout r, s' =>
    s.call t = some (.recv msg timeout) ∧ recvTurn obj s t msg timeout = (r, s')
  | .sched m, s' => s' = ⟨m, s.mq, s.call⟩

/-- The queue as a transition system, from `msgq_init`. -/
def msgqLts (obj : WaitObj) (cfg : MsgqConfig) : Lib.Lts (MsgqUse α) (MsgqEvent α) :=
  ⟨fun s => msgqInit (some cfg.buffer) cfg.msgSize cfg.capacity = some s.mq ∧
    ∀ t, s.call t = none, msgqStep obj⟩

end

/-! ## Messages -/

/-- The message that an event sends. -/
def sentBy (cfg : MsgqConfig) : MsgqEvent α → List (List (BitVec 8))
  | .send _ msg _ (some .ok) | .sendResume _ msg _ (some .ok) => [bytesAt msg 0 cfg.msgSize]
  | _ => []

/-- The message that an event receives. -/
def receivedBy (cfg : MsgqConfig) : MsgqEvent α → List (List (BitVec 8))
  | .recv _ _ _ (some (.ok, msg)) | .recvResume _ _ _ (some (.ok, msg)) =>
    [bytesAt msg 0 cfg.msgSize]
  | _ => []

/-- The messages sent in a trace, in order. -/
def sent (cfg : MsgqConfig) (tr : List (MsgqEvent α)) : List (List (BitVec 8)) :=
  tr.flatMap (sentBy cfg)

/-- The messages received in a trace, in order. -/
def received (cfg : MsgqConfig) (tr : List (MsgqEvent α)) : List (List (BitVec 8)) :=
  tr.flatMap (receivedBy cfg)

/-- The event returns `STATUS_WOULD_BLOCK`. -/
def WouldBlock : MsgqEvent α → Prop
  | .send _ _ _ r | .sendResume _ _ _ r => r = some .wouldBlock
  | .recv _ _ _ r | .recvResume _ _ _ r => r.map Prod.fst = some .wouldBlock
  | .sched _ => False

/-- The messages in the queue, oldest first. -/
def msgqContents (mq : Msgqueue α) : List (List (BitVec 8)) :=
  Lib.RingBuffer.contents (fun i => bytesAt mq.buffer (i * mq.msgSize) mq.msgSize) mq.capacity
    mq.head mq.count

/-! ## Copying -/

theorem copyBytes_apply (dst src : ℕ → BitVec 8) (d o x : ℕ) : ∀ n,
    copyBytes dst d src o n x = if d ≤ x ∧ x < d + n then src (o + (x - d)) else dst x
  | 0 => by simp [copyBytes]
  | n + 1 => by
    rw [copyBytes, Function.update_apply, copyBytes_apply dst src d o x n]
    by_cases hx : x = d + n
    · subst hx
      simp
    · rw [if_neg hx]
      by_cases hlt : d ≤ x ∧ x < d + n
      · rw [if_pos hlt, if_pos ⟨hlt.1, by omega⟩]
      · rw [if_neg hlt, if_neg (by omega)]

/-- What was copied. -/
theorem bytesAt_copy (dst src : ℕ → BitVec 8) (d o n : ℕ) :
    bytesAt (copyBytes dst d src o n) d n = bytesAt src o n := by
  unfold bytesAt
  refine List.map_congr_left fun i hi => ?_
  have hi := List.mem_range.1 hi
  rw [copyBytes_apply, if_pos (by omega), Nat.add_sub_cancel_left]

/-- What lies outside of the copy. -/
theorem bytesAt_copy_apart (dst src : ℕ → BitVec 8) {d o n a k : ℕ}
    (h : a + k ≤ d ∨ d + n ≤ a) : bytesAt (copyBytes dst d src o n) a k = bytesAt dst a k := by
  unfold bytesAt
  refine List.map_congr_left fun i hi => ?_
  have hi := List.mem_range.1 hi
  rw [copyBytes_apply, if_neg (by omega)]

/-! ## The ring buffer -/

section
variable {obj : WaitObj} {cfg : MsgqConfig} {mq mq' : Msgqueue α}

/-- The indices of a queue of the given size and capacity. -/
structure MsgqWf (cfg : MsgqConfig) (mq : Msgqueue α) : Prop where
  msgSize : mq.msgSize = cfg.msgSize
  capacity : mq.capacity = cfg.capacity
  head : mq.head < cfg.capacity
  tail : mq.tail = (mq.head + mq.count) % cfg.capacity
  count : mq.count ≤ cfg.capacity

/-- The wait lists are no part of the ring buffer. -/
theorem MsgqWf.congr (h : MsgqWf cfg mq) (hm : mq'.msgSize = mq.msgSize)
    (hc : mq'.capacity = mq.capacity) (hh : mq'.head = mq.head) (ht : mq'.tail = mq.tail)
    (hn : mq'.count = mq.count) : MsgqWf cfg mq' :=
  ⟨hm.trans h.msgSize, hc.trans h.capacity, hh ▸ h.head, by rw [ht, hh, hn]; exact h.tail,
    hn ▸ h.count⟩

/-- The byte offset of a slot does not overflow, and a slot ends where the next
    one begins or before. -/
theorem MsgqConfig.offset (cfg : MsgqConfig) {i : ℕ} (hi : i < cfg.capacity) :
    i * cfg.msgSize % 2 ^ 64 = i * cfg.msgSize := by
  refine Nat.mod_eq_of_lt (Nat.lt_of_le_of_lt (Nat.mul_le_mul_right _ ?_) cfg.fits)
  omega

theorem MsgqConfig.succ_lt (cfg : MsgqConfig) {i : ℕ} (hi : i < cfg.capacity) :
    i + 1 < 2 ^ 64 := by
  have h1 : cfg.capacity * 1 ≤ cfg.capacity * cfg.msgSize :=
    Nat.mul_le_mul_left _ cfg.msgSize_pos
  have h2 := cfg.fits
  omega

theorem slot_apart {i j n : ℕ} (h : i ≠ j) : i * n + n ≤ j * n ∨ j * n + n ≤ i * n := by
  rcases Nat.lt_or_gt_of_ne h with h | h
  · left; rw [← Nat.succ_mul]; exact Nat.mul_le_mul_right _ h
  · right; rw [← Nat.succ_mul]; exact Nat.mul_le_mul_right _ h

variable [DecidableEq α] {m m' : Tcbs α} {t : α} {msg : ℕ → BitVec 8} {timeout : BitVec 32}
  {woken : Option α}

/-- **A send** appends its message, or leaves the ring buffer alone; when it
    would block it changes nothing. -/
theorem msgqSend_spec {r : Option Status} (hw : MsgqWf cfg mq)
    (h : msgqSend obj m mq t msg timeout = (m', mq', r, woken)) :
    MsgqWf cfg mq' ∧ (r = some .wouldBlock → mq' = mq) ∧
      if r = some .ok then msgqContents mq' = msgqContents mq ++ [bytesAt msg 0 cfg.msgSize]
      else msgqContents mq' = msgqContents mq := by
  have hcap := cfg.capacity_pos
  unfold msgqSend at h
  split_ifs at h with hfull ht
  · cases h
    exact ⟨hw, fun _ => rfl, by simp⟩
  · cases h
    exact ⟨hw.congr rfl rfl rfl rfl rfl, by simp, by simp [msgqContents]⟩
  · rcases hwk : wakeFirst m mq.recvWait with ⟨m₁, list, w⟩
    simp only [hwk] at h
    cases h
    have hlt : mq.count < cfg.capacity := by rw [hw.capacity] at hfull; omega
    have htail : mq.tail < cfg.capacity := by rw [hw.tail]; exact Nat.mod_lt _ hcap
    have hoff := cfg.offset htail
    have hinc : sizeAdd mq.tail 1 = mq.tail + 1 := Nat.mod_eq_of_lt (cfg.succ_lt htail)
    have hcnt : sizeAdd mq.count 1 = mq.count + 1 := Nat.mod_eq_of_lt (cfg.succ_lt hlt)
    refine ⟨⟨hw.msgSize, hw.capacity, hw.head, ?_, ?_⟩, by simp, ?_⟩
    · simp only [hinc, hcnt, hw.capacity]
      rw [hw.tail, Lib.RingBuffer.tail_push]
    · simp only [hcnt]; omega
    · simp only [if_true, msgqContents, hcnt, hw.msgSize, hw.capacity, hoff]
      refine Lib.RingBuffer.contents_push hlt ?_ fun i hi hne => ?_
      · rw [← hw.tail]; exact bytesAt_copy ..
      · rw [← hw.tail] at hne
        exact bytesAt_copy_apart _ _ (slot_apart hne)

/-- **A receive** takes the oldest message, or leaves the ring buffer alone;
    when it would block it changes nothing. -/
theorem msgqRecv_spec {r : Option (Status × (ℕ → BitVec 8))} (hw : MsgqWf cfg mq)
    (h : msgqRecv obj m mq t msg timeout = (m', mq', r, woken)) :
    MsgqWf cfg mq' ∧ (r.map Prod.fst = some .wouldBlock → mq' = mq) ∧
      match (r : Option (Status × (ℕ → BitVec 8))) with
      | some (.ok, out) => msgqContents mq = bytesAt out 0 cfg.msgSize :: msgqContents mq'
      | _ => msgqContents mq' = msgqContents mq := by
  unfold msgqRecv at h
  split_ifs at h with hempty ht
  · cases h
    exact ⟨hw, fun _ => rfl, rfl⟩
  · cases h
    exact ⟨hw.congr rfl rfl rfl rfl rfl, by simp, rfl⟩
  · rcases hwk : wakeFirst m mq.sendWait with ⟨m₁, list, w⟩
    simp only [hwk] at h
    cases h
    have hoff := cfg.offset hw.head
    have hinc : sizeAdd mq.head 1 = mq.head + 1 := Nat.mod_eq_of_lt (cfg.succ_lt hw.head)
    have hpos : 0 < mq.count := by omega
    have hcnt := hw.count
    refine ⟨⟨hw.msgSize, hw.capacity, ?_, ?_, by simp only; omega⟩, by simp, ?_⟩
    · simp only [hw.capacity]; exact Nat.mod_lt _ cfg.capacity_pos
    · simp only [hinc, hw.capacity]
      rw [hw.tail, Lib.RingBuffer.tail_pop hpos]
    · simp only [msgqContents, hinc, hw.msgSize, hw.capacity, hoff]
      rw [Lib.RingBuffer.contents_pop hw.head hpos, bytesAt_copy]

end

/-! ## Runs -/

section
variable [DecidableEq α] {obj : WaitObj} {cfg : MsgqConfig} {tr : List (MsgqEvent α)}
  {s s' : MsgqUse α}

/-- One turn: the ring buffer stays well formed, what is sent is appended, what
    is received is removed, and a turn that would block changes nothing. -/
theorem msgqStep_spec {e : MsgqEvent α} (hw : MsgqWf cfg s.mq) (hs : msgqStep obj s e s') :
    MsgqWf cfg s'.mq ∧ (WouldBlock e → s'.mq = s.mq) ∧
      receivedBy cfg e ++ msgqContents s'.mq = msgqContents s.mq ++ sentBy cfg e := by
  have send : ∀ {t msg timeout r}, sendTurn obj s t msg timeout = (r, s') → MsgqWf cfg s'.mq ∧
      (r = some .wouldBlock → s'.mq = s.mq) ∧
      msgqContents s'.mq = msgqContents s.mq ++ sentBy cfg (.send t msg timeout r) := by
    intro t msg timeout r h
    rcases hx : msgqSend obj s.tcb s.mq t msg timeout with ⟨m, mq, r', woken⟩
    simp only [sendTurn, hx, Prod.mk.injEq] at h
    obtain ⟨rfl, rfl⟩ := h
    obtain ⟨h1, h2, h3⟩ := msgqSend_spec hw hx
    refine ⟨h1, h2, ?_⟩
    by_cases hr : r' = some .ok
    · subst hr; simpa [sentBy] using h3
    · rw [if_neg hr] at h3
      rw [h3]
      rcases r' with _ | r'
      · simp [sentBy]
      · cases r' <;> simp_all [sentBy]
  have recv : ∀ {t msg timeout r}, recvTurn obj s t msg timeout = (r, s') → MsgqWf cfg s'.mq ∧
      (r.map Prod.fst = some .wouldBlock → s'.mq = s.mq) ∧
      receivedBy cfg (.recv t msg timeout r) ++ msgqContents s'.mq = msgqContents s.mq := by
    intro t msg timeout r h
    rcases hx : msgqRecv obj s.tcb s.mq t msg timeout with ⟨m, mq, r', woken⟩
    simp only [recvTurn, hx, Prod.mk.injEq] at h
    obtain ⟨rfl, rfl⟩ := h
    obtain ⟨h1, h2, h3⟩ := msgqRecv_spec hw hx
    refine ⟨h1, h2, ?_⟩
    rcases r' with _ | ⟨r', out⟩
    · simpa [receivedBy] using h3
    · cases r' <;> simpa [receivedBy, eq_comm] using h3
  cases e with
  | send t msg timeout r =>
    obtain ⟨h1, h2, h3⟩ := send hs.2
    exact ⟨h1, h2, by simpa [receivedBy] using h3⟩
  | sendResume t msg timeout r =>
    obtain ⟨h1, h2, h3⟩ := send hs.2
    have he : sentBy cfg (.sendResume t msg timeout r) = sentBy cfg (.send t msg timeout r) := by
      rcases r with _ | r
      · rfl
      · cases r <;> rfl
    exact ⟨h1, h2, by rw [he]; simpa [receivedBy] using h3⟩
  | recv t msg timeout r =>
    obtain ⟨h1, h2, h3⟩ := recv hs.2
    exact ⟨h1, h2, by simpa [sentBy] using h3⟩
  | recvResume t msg timeout r =>
    obtain ⟨h1, h2, h3⟩ := recv hs.2
    have he : receivedBy cfg (.recvResume t msg timeout r) =
        receivedBy cfg (.recv t msg timeout r) := by
      rcases r with _ | ⟨r, out⟩
      · rfl
      · cases r <;> rfl
    exact ⟨h1, h2, by rw [he]; simpa [sentBy] using h3⟩
  | sched m =>
    cases hs
    exact ⟨hw, by simp [WouldBlock], by simp [receivedBy, sentBy]⟩

theorem msgq_run (h : (msgqLts obj cfg).Run tr s) :
    MsgqWf cfg s.mq ∧ received cfg tr ++ msgqContents s.mq = sent cfg tr := by
  refine h.rule (P := fun tr s => MsgqWf cfg s.mq ∧
    received cfg tr ++ msgqContents s.mq = sent cfg tr) ?_ ?_
  · rintro s ⟨hinit, -⟩
    unfold msgqInit at hinit
    have hm := cfg.msgSize_pos
    have hc := cfg.capacity_pos
    simp only at hinit
    rw [if_neg (by omega)] at hinit
    rw [← Option.some.inj hinit]
    exact ⟨⟨rfl, rfl, hc, by simp, Nat.zero_le _⟩, rfl⟩
  · rintro tr s e s' ⟨hw, hf⟩ hs
    obtain ⟨hw', -, hstep⟩ := msgqStep_spec hw hs
    refine ⟨hw', ?_⟩
    simp only [sent, received, List.flatMap_append, List.flatMap_singleton] at hf ⊢
    rw [List.append_assoc, hstep, ← List.append_assoc, hf]

/-- **A message queue is a bounded queue.**  In any interleaving of sends and
    receives, blocking or not: the messages received are a prefix of those
    sent, byte for byte, the rest being in the queue; and a call that would
    block changes nothing. -/
theorem msgq_fifo (h : (msgqLts obj cfg).Run tr s) :
    s.mq.count ≤ cfg.capacity ∧ s.mq.tail = (s.mq.head + s.mq.count) % cfg.capacity ∧
      received cfg tr ++ msgqContents s.mq = sent cfg tr ∧ received cfg tr <+: sent cfg tr ∧
      ∀ e s', msgqStep obj s e s' → WouldBlock e → s'.mq.head = s.mq.head ∧
        s'.mq.tail = s.mq.tail ∧ s'.mq.count = s.mq.count ∧ s'.mq.buffer = s.mq.buffer := by
  obtain ⟨hw, hf⟩ := msgq_run h
  refine ⟨hw.count, hw.tail, hf, ⟨_, hf⟩, fun e s' hs hb => ?_⟩
  rw [(msgqStep_spec hw hs).2.1 hb]
  exact ⟨rfl, rfl, rfl, rfl⟩

/-- A queue of two messages of two bytes. -/
def demoMsgq : MsgqConfig := ⟨2, 2, fun _ => 0, by decide, by decide, by decide⟩

/-- The queue of `demoMsgq`, empty, then holding one and two messages. -/
def demoMsgqUse : MsgqUse (Fin 2) :=
  ⟨fun _ => Tcb.zero, ⟨fun _ => 0, 2, 2, 0, 0, 0, none, none⟩, fun _ => none⟩

def demoMsgqSent : Option Status × MsgqUse (Fin 2) :=
  sendTurn (.msgq 0) demoMsgqUse 0 (fun i => if i = 0 then 1 else 2) 0

def demoMsgqSentTwo : Option Status × MsgqUse (Fin 2) :=
  sendTurn (.msgq 0) demoMsgqSent.2 0 (fun i => if i = 0 then 3 else 4) 0

/-- Two messages of two bytes are sent, and the first one is received. -/
theorem msgq_fifo_send_recv : ∃ (tr : List (MsgqEvent (Fin 2))) (s : MsgqUse (Fin 2)),
    (msgqLts (.msgq 0) demoMsgq).Run tr s ∧ sent demoMsgq tr = [[1, 2], [3, 4]] ∧
      received demoMsgq tr = [[1, 2]] ∧ msgqContents s.mq = [[3, 4]] ∧
      received demoMsgq tr ++ msgqContents s.mq = sent demoMsgq tr := by
  have h₀ : (msgqLts (.msgq 0) demoMsgq).Run [] demoMsgqUse := .start ⟨rfl, fun _ => rfl⟩
  have h₁ : (msgqLts (.msgq 0) demoMsgq).Run _ demoMsgqSent.2 := h₀.snoc
    (e := MsgqEvent.send 0 (fun i => if i = 0 then 1 else 2) 0 demoMsgqSent.1) ⟨rfl, rfl⟩
  have h₂ : (msgqLts (.msgq 0) demoMsgq).Run _ demoMsgqSentTwo.2 := h₁.snoc
    (e := MsgqEvent.send 0 (fun i => if i = 0 then 3 else 4) 0 demoMsgqSentTwo.1) ⟨rfl, rfl⟩
  have h₃ := h₂.snoc (e := MsgqEvent.recv 1 (fun _ => 0) 0
    (recvTurn (.msgq 0) demoMsgqSentTwo.2 1 (fun _ => 0) 0).1) ⟨rfl, rfl⟩
  exact ⟨_, _, h₃, by decide +kernel, by decide +kernel, by decide +kernel, (msgq_fifo h₃).2.2.1⟩

end

end Gracemont
