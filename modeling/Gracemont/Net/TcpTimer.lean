/-
  Gracemont networking — the timer of TCP, and how long TIME_WAIT lasts.

  `tcp_timer` measures every timeout from `last_tx_time` in `tcp_rto`.  It alone
  assigns that, and only where a timer is active, which no code makes it.  So all
  of them are measured from the start of the clock, also that of a socket which
  has just entered TIME_WAIT.

  * `SocketCall.run_tcpRto`: no other call changes `tcp_rto`;
  * `tcpTimer_idle`: what `tcp_timer` does as long as no timer is active;
  * `ClockState`, `clockLts`: the runs of the socket API over time;
  * `time_wait_kept_iff`: TIME_WAIT lasts for two segment lifetimes exactly if
    each early timer call comes while the clock has not shown them yet.
-/
import Gracemont.Net.KeptField
import Gracemont.Net.SocketLists

namespace Gracemont

variable {α σ : Type}

/-! ## `tcp_rto` -/

section
variable [DecidableEq α] [DecidableEq σ] (cfg : NetConfig α) (s : NetStack α σ) (x : σ)

omit [DecidableEq α] in
/-- Frames have nothing to do with it. -/
theorem tcpRto_kept : KeptField fun s : NetStack α σ => s.tcpRto :=
  ⟨fun _ _ _ => rfl, fun h => h.tcpRto, fun _ _ _ => rfl⟩

theorem tcpSendSegment_tcpRto (flags : BitVec 8) (data : Option α) :
    (tcpSendSegment cfg s x flags data).1.tcpRto = s.tcpRto :=
  tcpRto_kept.tcpSendSegment cfg s x flags data

variable {cfg s x} {s' : NetStack α σ}

/-! ### Calls -/

theorem tcpOutput_tcpRto (zb : α) : (tcpOutput cfg s x zb).1.tcpRto = s.tcpRto := by
  unfold tcpOutput
  split_ifs
  · rfl
  · exact tcpSendSegment_tcpRto cfg s x _ _

omit [DecidableEq α] [DecidableEq σ] in
theorem okOr_tcpRto {n : ℤ} {r : NetStack α σ × Status} : (okOr n r).1.tcpRto = r.1.tcpRto := by
  rcases r with ⟨s₁, st⟩
  cases st
  all_goals rfl

theorem sockClose_tcpRto {fuel : ℕ} {fd n : ℤ} (h : sockClose cfg fuel s fd = some (s', n)) :
    s'.tcpRto = s.tcpRto := by
  unfold sockClose at h
  rcases hx : s.lookup fd with _ | y
  · rw [hx] at h
    cases h
    rfl
  rw [hx] at h
  simp only at h
  generalize hfin : (if (s.sock y).type = sockStream ∧ (s.sock y).state = .established then _
    else s) = s₁ at h
  have hs₁ : s₁.tcpRto = s.tcpRto := by
    rw [← hfin]
    split_ifs
    · exact tcpSendSegment_tcpRto cfg _ y _ _
    · rfl
  obtain ⟨⟨s₂, q₂⟩, hrx, h⟩ := Option.bind_eq_some_iff.1 h
  obtain ⟨⟨s₃, q₃⟩, htx, h⟩ := Option.bind_eq_some_iff.1 h
  have hs₂ : s₂.tcpRto = s₁.tcpRto := (Transmitted.flush cfg hrx).tcpRto
  have hs₃ : s₃.tcpRto = s₂.tcpRto := (Transmitted.flush cfg htx).tcpRto
  cases h
  exact hs₃.trans (hs₂.trans hs₁)

omit [DecidableEq α] in
theorem waitRx_tcpRto (h : s.waitRx x = some s') : s'.tcpRto = s.tcpRto := by
  unfold NetStack.waitRx at h
  split_ifs at h
  cases h
  rfl

omit [DecidableEq α] in
theorem waitTx_tcpRto (h : s.waitTx x = some s') : s'.tcpRto = s.tcpRto := by
  unfold NetStack.waitTx at h
  split_ifs at h
  cases h
  rfl

theorem popRx_tcpRto (s : NetStack α σ) (x : σ) : (popRx s x).1.tcpRto = s.tcpRto := by
  unfold popRx
  rcases zbufQueuePop s.pool.zb (s.sock x).rxQueue with ⟨m, q, zb⟩
  rfl

omit [DecidableEq α] in
theorem sockSocket_tcpRto (type : ℤ) (mem : Option σ) :
    (sockSocket s type mem).1.tcpRto = s.tcpRto := by
  rcases mem with _ | y
  · rfl
  · rfl

omit [DecidableEq α] in
theorem sockBind_tcpRto (fd : ℤ) (addr : Sockaddr) :
    (sockBind s fd addr).1.tcpRto = s.tcpRto := by
  unfold sockBind
  rcases s.lookup fd with _ | y
  · rfl
  · rfl

omit [DecidableEq α] in
theorem sockListen_tcpRto (fd : ℤ) : (sockListen s fd).1.tcpRto = s.tcpRto := by
  unfold sockListen
  rcases s.lookup fd with _ | y
  · rfl
  simp only
  split_ifs
  · rfl
  · rfl

theorem sockConnect_tcpRto (fd : ℤ) (addr : Sockaddr) :
    (sockConnect cfg s fd addr).1.tcpRto = s.tcpRto := by
  unfold sockConnect
  rcases s.lookup fd with _ | y
  · rfl
  · exact tcpSendSegment_tcpRto cfg _ y _ _

omit [DecidableEq σ] in
/-- What is sent in a new buffer. -/
theorem allocTx_tcpRto (size : BitVec 16) {f : NetStack α σ → α → NetStack α σ × ℤ}
    (hf : ∀ s zb, (f s zb).1.tcpRto = s.tcpRto) :
    (match s.allocTx size with
      | (s, none) => (s, -1)
      | (s, some zb) => f s zb).1.tcpRto = s.tcpRto := by
  have hrto := (Transmitted.allocTx s size).tcpRto
  generalize s.allocTx size = r at hrto ⊢
  rcases r with ⟨s₁, _ | zb⟩
  · exact hrto
  · exact (hf s₁ zb).trans hrto

theorem sockSend_tcpRto (fd : ℤ) (data : List (BitVec 8)) :
    (sockSend cfg s fd data).1.tcpRto = s.tcpRto := by
  unfold sockSend
  rcases s.lookup fd with _ | y
  · rfl
  · exact allocTx_tcpRto _ fun s zb => okOr_tcpRto.trans (tcpOutput_tcpRto zb)

theorem sockSendZbuf_tcpRto (fd : ℤ) (zb : α) :
    (sockSendZbuf cfg s fd zb).1.tcpRto = s.tcpRto := by
  unfold sockSendZbuf
  rcases s.lookup fd with _ | y
  · rfl
  · exact okOr_tcpRto.trans (tcpOutput_tcpRto zb)

omit [DecidableEq σ] in
theorem sockSendto_tcpRto (fd : ℤ) (data : List (BitVec 8)) (dst : Sockaddr) :
    (sockSendto cfg s fd data dst).1.tcpRto = s.tcpRto := by
  unfold sockSendto
  rcases s.lookup fd with _ | y
  · rfl
  simp only
  split_ifs
  · rfl
  · exact allocTx_tcpRto _ fun s zb =>
      okOr_tcpRto.trans (Transmitted.udpOutput cfg _ zb _ dst).tcpRto

theorem sockRecvResume_tcpRto {len : ℕ} {r : NetStack α σ × ℤ × List (BitVec 8)}
    (h : sockRecvResume cfg s x len = some r) : r.1.tcpRto = s.tcpRto := by
  obtain ⟨s₁, hwait, h⟩ := Option.bind_eq_some_iff.1 h
  have hpop := (popRx_tcpRto s₁ x).trans (waitRx_tcpRto hwait)
  generalize popRx s₁ x = p at hpop h
  rcases p with ⟨s₂, _ | zb⟩
  · cases h
    exact hpop
  · cases h
    exact hpop

theorem sockRecvfromResume_tcpRto {len : ℕ} {r : NetStack α σ × ℤ × Sockaddr × List (BitVec 8)}
    (h : sockRecvfromResume cfg s x len = some r) : r.1.tcpRto = s.tcpRto := by
  obtain ⟨s₁, hwait, h⟩ := Option.bind_eq_some_iff.1 h
  have hpop := (popRx_tcpRto s₁ x).trans (waitRx_tcpRto hwait)
  generalize popRx s₁ x = p at hpop h
  rcases p with ⟨s₂, _ | zb⟩
  · cases h
    exact hpop
  · cases h
    exact hpop

theorem sockRecvZbufResume_tcpRto {r : NetStack α σ × Option α}
    (h : sockRecvZbufResume s x = some r) : r.1.tcpRto = s.tcpRto := by
  obtain ⟨s₁, hwait, h⟩ := Option.bind_eq_some_iff.1 h
  cases h
  exact (popRx_tcpRto s₁ x).trans (waitRx_tcpRto hwait)

/-- **Only `tcp_timer` changes `tcp_rto`.** -/
theorem SocketCall.run_tcpRto {fuel : ℕ} {call : SocketCall α σ}
    (h : call.run cfg fuel s = some s') (hcall : call ≠ .timer) : s'.tcpRto = s.tcpRto := by
  cases call with
  | timer => exact absurd rfl hcall
  | arrive zb => exact tcpRto_kept.tcpInput cfg h
  | socket type mem =>
    simp only [run] at h
    split_ifs at h
    cases h
    exact sockSocket_tcpRto type mem
  | bind fd addr =>
    cases h
    exact sockBind_tcpRto fd addr
  | listen fd =>
    cases h
    exact sockListen_tcpRto fd
  | connect fd addr =>
    cases h
    exact sockConnect_tcpRto fd addr
  | send fd data =>
    cases h
    exact sockSend_tcpRto fd data
  | sendZbuf fd zb =>
    cases h
    exact sockSendZbuf_tcpRto fd zb
  | sendto fd data dst =>
    cases h
    exact sockSendto_tcpRto fd data dst
  | accepted fd y =>
    obtain ⟨r, hr, rfl⟩ := Option.map_eq_some_iff.1 h
    obtain ⟨s₁, hwait, hr⟩ := Option.bind_eq_some_iff.1 hr
    cases hr
    exact waitRx_tcpRto hwait
  | connected y =>
    obtain ⟨r, hr, rfl⟩ := Option.map_eq_some_iff.1 h
    obtain ⟨s₁, hwait, hr⟩ := Option.bind_eq_some_iff.1 hr
    cases hr
    exact waitTx_tcpRto hwait
  | received y len =>
    obtain ⟨r, hr, rfl⟩ := Option.map_eq_some_iff.1 h
    exact sockRecvResume_tcpRto hr
  | receivedZbuf y =>
    obtain ⟨r, hr, rfl⟩ := Option.map_eq_some_iff.1 h
    exact sockRecvZbufResume_tcpRto hr
  | receivedFrom y len =>
    obtain ⟨r, hr, rfl⟩ := Option.map_eq_some_iff.1 h
    exact sockRecvfromResume_tcpRto hr
  | close fd =>
    obtain ⟨r, hr, rfl⟩ := Option.map_eq_some_iff.1 h
    exact sockClose_tcpRto hr

/-! ## The timer -/

omit [DecidableEq α] [DecidableEq σ] in
/-- A timer that is not active does not expire. -/
theorem rtoExpired_idle (h : ∀ i, (s.tcpRto i).timerActive = false) (y : σ) :
    rtoExpired s y = false := by
  unfold rtoExpired rtoOf
  simp only [h, Bool.false_eq_true, false_and, decide_false]

omit [DecidableEq α] in
theorem timerTimeWait_tcpRto (s : NetStack α σ) (y : σ) :
    (timerTimeWait s y).tcpRto = s.tcpRto ∧ (timerTimeWait s y).ticks = s.ticks := by
  unfold timerTimeWait
  split_ifs
  · exact ⟨rfl, rfl⟩
  · exact ⟨rfl, rfl⟩

/-- The loop, as long as no timer is active. -/
theorem timerLoop_idle {fuel : ℕ} {head : Option σ} (hidle : ∀ i, (s.tcpRto i).timerActive = false)
    (h : Lib.Loop.run (timerBody cfg) fuel (s, head) = some s') :
    ∃ l, Lib.Path (s.sock.field Socket.next) head l ∧ s' = l.foldl timerTimeWait s := by
  induction fuel generalizing s head with
  | zero => cases h
  | succ fuel ih =>
    rcases head with _ | y
    · cases h
      exact ⟨[], rfl, rfl⟩
    have hrto := (timerTimeWait_tcpRto s y).1
    have hidle' : ∀ i, ((timerTimeWait s y).tcpRto i).timerActive = false := by
      rw [hrto]
      exact hidle
    have hexpired := rtoExpired_idle hidle' y
    have hbody : timerBody cfg (s, some y) = .inl (timerTimeWait s y, (s.sock y).next) := by
      simp [timerBody, timerSyn, timerEstablished, timerFin, hexpired]
    unfold Lib.Loop.run at h
    rw [hbody] at h
    obtain ⟨l, hpath, rfl⟩ := ih hidle' h
    refine ⟨y :: l, ⟨rfl, hpath.congr fun z _ => ?_⟩, rfl⟩
    exact ((SameLinks.timerTimeWait s y).next z).symm

/-- **Without active timers** `tcp_timer` handles TIME_WAIT for the sockets on
    `tcp_conn_list`, and no other timeout. -/
theorem tcpTimer_idle {fuel : ℕ} (hidle : ∀ i, (s.tcpRto i).timerActive = false)
    (h : tcpTimer cfg fuel s = some s') :
    ∃ l, Lib.Path (s.sock.field Socket.next) s.tcpConnList l ∧ s' = l.foldl timerTimeWait s :=
  timerLoop_idle hidle h

/-- TIME_WAIT is over for a socket, as `tcp_timer` sees it. -/
def TimeWaitOver (s : NetStack α σ) (y : σ) : Prop :=
  (s.sock y).state = .timeWait ∧ msToTicks tcpTimeWaitTime ≤ s.ticks - (rtoOf s y).lastTxTime

instance (s : NetStack α σ) (y : σ) : Decidable (TimeWaitOver s y) :=
  inferInstanceAs (Decidable (_ ∧ _))

omit [DecidableEq α] in
theorem timerTimeWait_sock (s : NetStack α σ) (y z : σ) : (timerTimeWait s y).sock z =
    if z = y ∧ TimeWaitOver s y then { s.sock z with state := .closed } else s.sock z := by
  have heq : (timerTimeWait s y).sock =
      if TimeWaitOver s y then s.sock.modify y fun k => { k with state := .closed } else s.sock :=
    apply_ite NetStack.sock _ _ _
  rw [heq]
  by_cases hover : TimeWaitOver s y
  · rw [if_pos hover, Lib.Store.modify_apply]
    by_cases hz : z = y
    · rw [if_pos hz, if_pos ⟨hz, hover⟩, hz]
    · rw [if_neg hz, if_neg fun h => hz h.1]
  · rw [if_neg hover, if_neg fun h => hover h.2]

omit [DecidableEq α] in
theorem foldl_timerTimeWait_tcpRto (s : NetStack α σ) (l : List σ) :
    (l.foldl timerTimeWait s).tcpRto = s.tcpRto := by
  induction l generalizing s with
  | nil => rfl
  | cons y l ih => exact (ih _).trans (timerTimeWait_tcpRto s y).1

omit [DecidableEq α] in
/-- Handling one socket changes nothing for the others. -/
theorem timerTimeWait_over (s : NetStack α σ) {y z : σ} (h : ¬ (z = y ∧ TimeWaitOver s y)) :
    TimeWaitOver (timerTimeWait s y) z ↔ TimeWaitOver s z := by
  obtain ⟨hrto, hticks⟩ := timerTimeWait_tcpRto s y
  unfold TimeWaitOver rtoOf
  rw [timerTimeWait_sock, if_neg h, hrto, hticks]

omit [DecidableEq α] in
/-- **The sockets that are closed.** -/
theorem foldl_timerTimeWait (s : NetStack α σ) (l : List σ) (z : σ) :
    ((l.foldl timerTimeWait s).sock z).state =
      if z ∈ l ∧ TimeWaitOver s z then .closed else (s.sock z).state := by
  induction l generalizing s with
  | nil => rw [if_neg fun h => List.not_mem_nil h.1]; rfl
  | cons y l ih =>
    rw [List.foldl_cons, ih]
    by_cases hz : z = y ∧ TimeWaitOver s y
    · -- it is closed now, and stays so
      have hmem : z ∈ y :: l ∧ TimeWaitOver s z := by
        obtain ⟨rfl, hover⟩ := hz
        exact ⟨List.mem_cons_self, hover⟩
      rw [timerTimeWait_sock, if_pos hz, if_pos hmem, ite_self]
    · rw [timerTimeWait_sock, if_neg hz]
      refine if_congr ?_ rfl rfl
      rw [timerTimeWait_over s hz, List.mem_cons]
      constructor
      · rintro ⟨hl, hover⟩
        exact ⟨.inr hl, hover⟩
      · rintro ⟨rfl | hl, hover⟩
        · exact absurd ⟨rfl, hover⟩ hz
        · exact ⟨hl, hover⟩

end

/-! ## Runs over time -/

/-- `MS_TO_TICKS(TCP_TIME_WAIT_TIME)`, two segment lifetimes in ticks -/
def timeWaitTicks : ℕ := (msToTicks tcpTimeWaitTime).toNat

/-- The stack, the ticks since the start, and for the sockets in TIME_WAIT when
    they entered it. -/
structure ClockState (α σ : Type) where
  net : NetStack α σ
  now : ℕ
  entered : σ → Option ℕ

/-- A call at a time, with the pool that it meets. -/
structure TimedCall (α σ : Type) where
  time : ℕ
  pool : ZbufPool α
  call : SocketCall α σ

/-- The clock shows the ticks since the start in 32 bits. -/
def TimedCall.env (e : TimedCall α σ) : TcpEnv α := ⟨e.pool, BitVec.ofNat 32 e.time⟩

/-- A call at `time` left the stack `net`. -/
def ClockState.after (s : ClockState α σ) (time : ℕ) (net : NetStack α σ) : ClockState α σ where
  net := net
  now := time
  entered x :=
    if (net.sock x).state = .timeWait then
      if (s.net.sock x).state = .timeWait then s.entered x else some time
    else none

section
variable [DecidableEq α] [DecidableEq σ] (cfg : NetConfig α)

/-- The runs of the socket API over time, from the start with `tcp_rto` zero. -/
def clockLts : Lib.Lts (ClockState α σ) (TimedCall α σ) where
  init s := SocketsStart s.net ∧ (∀ i, s.net.tcpRto i = ⟨0, 0, 0, false⟩) ∧ s.now = 0 ∧
    ∀ x, s.entered x = none
  step s e s' := s.now ≤ e.time ∧
    ∃ net, (socketLts cfg).step s.net (e.env, e.call) net ∧ s' = s.after e.time net

/-- **TIME_WAIT is kept**: the timer closes no socket that entered it less than
    two segment lifetimes ago. -/
def TimeWaitKept (s : ClockState α σ) (e : TimedCall α σ) (s' : ClockState α σ) : Prop :=
  e.call = .timer → ∀ x t, s.entered x = some t → (s'.net.sock x).state = .closed →
    t + timeWaitTicks ≤ e.time

/-- If the timer is called while a socket on `tcp_conn_list` has been in TIME_WAIT
    for less than that, then before the clock shows two segment lifetimes, after
    the start or after it wrapped around. -/
def ClockYoung (s : ClockState α σ) (e : TimedCall α σ) : Prop :=
  e.call = .timer → ∀ x t, s.entered x = some t → OnList s.net s.net.tcpConnList x →
    e.time < t + timeWaitTicks → e.time % 2 ^ 32 < timeWaitTicks

end

/-- No timer is active, and all have the time 0; the sockets with an entry time
    are in TIME_WAIT. -/
structure ClockInv (s : ClockState α σ) : Prop where
  idle : ∀ i, (s.net.tcpRto i).timerActive = false ∧ (s.net.tcpRto i).lastTxTime = 0
  waits : ∀ x t, s.entered x = some t → (s.net.sock x).state = .timeWait

section
variable [DecidableEq α] [DecidableEq σ] {cfg : NetConfig α} {s s' : ClockState α σ}

omit [DecidableEq α] [DecidableEq σ] in
theorem ClockState.after_waits (s : ClockState α σ) (time : ℕ) (net : NetStack α σ) (x : σ) (t : ℕ)
    (h : (s.after time net).entered x = some t) : (net.sock x).state = .timeWait := by
  by_contra hne
  have hnone : (s.after time net).entered x = none := if_neg hne
  rw [hnone] at h
  cases h

/-- The timer call at `e` closes a socket. -/
def TimerCloses (s : ClockState α σ) (e : TimedCall α σ) (x : σ) : Prop :=
  OnList s.net s.net.tcpConnList x ∧ (s.net.sock x).state = .timeWait ∧
    timeWaitTicks ≤ e.time % 2 ^ 32

/-- **A timer call** closes the sockets of its list that are in TIME_WAIT once the
    clock shows two segment lifetimes. -/
theorem ClockInv.timer (h : ClockInv s) {e : TimedCall α σ} {net : NetStack α σ} {fuel : ℕ}
    (hs : tcpTimer cfg fuel (s.net.meets e.env) = some net) :
    net.tcpRto = s.net.tcpRto ∧ ∀ x, (TimerCloses s e x → (net.sock x).state = .closed) ∧
      (¬ TimerCloses s e x → (net.sock x).state = (s.net.sock x).state) := by
  have hrto : ∀ i, ((s.net.meets e.env).tcpRto i).timerActive = false := fun i => (h.idle i).1
  obtain ⟨l, hpath, rfl⟩ := tcpTimer_idle hrto hs
  refine ⟨foldl_timerTimeWait_tcpRto _ l, fun x => ?_⟩
  have hcloses : TimerCloses s e x ↔ x ∈ l ∧ TimeWaitOver (s.net.meets e.env) x := by
    refine and_congr ?_ (and_congr_right fun _ => ?_)
    · constructor
      · rintro ⟨l', hpath', hx⟩
        rw [hpath.unique hpath']
        exact hx
      · intro hx
        exact ⟨l, hpath, hx⟩
    · have hlast : (rtoOf (s.net.meets e.env) x).lastTxTime = 0#32 := (h.idle _).2
      have hticks : (s.net.meets e.env).ticks = BitVec.ofNat 32 e.time := rfl
      rw [hlast, hticks, BitVec.sub_zero, BitVec.le_def, BitVec.toNat_ofNat]
      exact Iff.rfl
  rw [hcloses, foldl_timerTimeWait]
  exact ⟨fun hx => if_pos hx, fun hx => if_neg hx⟩

/-- **A call** keeps the invariant, and TIME_WAIT exactly if the clock is young. -/
theorem ClockInv.step (h : ClockInv s) {e : TimedCall α σ} (hs : (clockLts cfg).step s e s') :
    ClockInv s' ∧ (TimeWaitKept s e s' ↔ ClockYoung s e) := by
  obtain ⟨-, net, ⟨fuel, hrun⟩, rfl⟩ := hs
  have hwaits := s.after_waits e.time net
  by_cases hcall : e.call = .timer
  swap
  · have hcall' : e.call.run cfg fuel (s.net.meets e.env) = some net := hrun
    have hrto : net.tcpRto = (s.net.meets e.env).tcpRto := SocketCall.run_tcpRto hcall' hcall
    refine ⟨⟨fun i => ?_, hwaits⟩, ?_, ?_⟩
    · exact hrto ▸ h.idle i
    · exact fun _ ht => absurd ht hcall
    · exact fun _ ht => absurd ht hcall
  have htimer : tcpTimer cfg fuel (s.net.meets e.env) = some net := by
    have hcall' : e.call.run cfg fuel (s.net.meets e.env) = some net := hrun
    rw [hcall] at hcall'
    exact hcall'
  obtain ⟨hrto, hstate⟩ := h.timer htimer
  refine ⟨⟨fun i => ?_, hwaits⟩, ?_, ?_⟩
  · exact hrto ▸ h.idle i
  · -- a socket that is not young enough would be closed
    intro hkept _ x t ht honlist hearly
    by_contra hyoung
    have hclosed := (hstate x).1 ⟨honlist, h.waits x t ht, Nat.le_of_not_lt hyoung⟩
    exact Nat.not_le.2 hearly (hkept hcall x t ht hclosed)
  · -- a socket that is closed too early is on the list, at a time that is not young
    intro hyoung _ x t ht hclosed
    by_contra hearly
    have hcloses : TimerCloses s e x := by
      by_contra hnot
      have hst := (hstate x).2 hnot
      rw [h.waits x t ht] at hst
      cases hst.symm.trans hclosed
    exact Nat.not_lt.2 hcloses.2.2 (hyoung hcall x t ht hcloses.1 (Nat.lt_of_not_le hearly))

theorem ClockInv.init (h : (clockLts cfg).init s) : ClockInv s := by
  obtain ⟨-, hrto, -, hnone⟩ := h
  refine ⟨fun i => ?_, fun x t ht => ?_⟩
  · rw [hrto i]
    exact ⟨rfl, rfl⟩
  · rw [hnone x] at ht
    cases ht

/-- **When TIME_WAIT lasts for two segment lifetimes.**  In every run of segments,
    timer calls and calls of the API, the timer closes no socket within two
    segment lifetimes of its entry into TIME_WAIT, exactly if each timer call
    that finds one there comes while the clock has not shown them yet. -/
theorem time_wait_kept_iff (cfg : NetConfig α) {tr : List (TimedCall α σ)} {s : ClockState α σ}
    {steps : List (ClockState α σ × TimedCall α σ × ClockState α σ)}
    (h : (clockLts cfg).history.Run tr (s, steps)) :
    (∀ w ∈ steps, TimeWaitKept w.1 w.2.1 w.2.2) ↔ ∀ w ∈ steps, ClockYoung w.1 w.2.1 := by
  have hsteps := (h.history_rule (I := ClockInv)
    (P := fun s e s' => TimeWaitKept s e s' ↔ ClockYoung s e) ?_ ?_).2
  · exact forall₂_congr hsteps
  · intro s hinit
    have hinit' : (clockLts cfg).init s := hinit
    exact .init hinit'
  · intro s e s' hinv hs
    exact hinv.step hs

/-! ## Executions -/

variable (cfg) in
/-- A call, with a bound on its loops. -/
def clockExec (fuel : ℕ) (s : ClockState α σ) (e : TimedCall α σ) : Option (ClockState α σ) :=
  if s.now ≤ e.time then (e.call.run cfg fuel (s.net.meets e.env)).map (s.after e.time) else none

theorem clockExec_step {fuel : ℕ} (s : ClockState α σ) (e : TimedCall α σ) (s' : ClockState α σ)
    (h : clockExec cfg fuel s e = some s') : (clockLts cfg).step s e s' := by
  unfold clockExec at h
  split_ifs at h with hnow
  obtain ⟨net, hrun, rfl⟩ := Option.map_eq_some_iff.1 h
  exact ⟨hnow, net, ⟨fuel, hrun⟩, rfl⟩

end

/-- The start; the hardware address of `10.0.0.2` is known. -/
def demoClock : ClockState (Fin 2) (Fin 2) :=
  ⟨{ demoStack with arpCache := [⟨0x0A000002, fun _ => 4, true⟩] }, 0, fun _ => none⟩

/-- A call at the time `t`, with the buffer 1 free and `z` in the buffer 0. -/
def demoTimed (t : ℕ) (z : Zbuf (Fin 2)) (call : SocketCall (Fin 2) (Fin 2)) :
    TimedCall (Fin 2) (Fin 2) :=
  ⟨t, { demoStack.pool with zb := fun zb => if zb = 0 then z else demoZbuf, freeList := some 1 },
    call⟩

/-- At the time `t` a socket connects to port 8080 of `10.0.0.2` and is closed,
    and the peer closes as well. -/
def demoTimeWait (t : ℕ) : List (TimedCall (Fin 2) (Fin 2)) :=
  let synAck := demoSegment 0x0A000002 8080 80 500 1 (tcpFlagSyn ||| tcpFlagAck) []
  let finAck := demoSegment 0x0A000002 8080 80 501 2 (tcpFlagFin ||| tcpFlagAck) []
  [demoTimed t demoZbuf (.socket sockStream (some 0)), demoTimed t demoZbuf (.bind 0 ⟨0, 80⟩),
    demoTimed t demoZbuf (.connect 0 ⟨0x0A000002, 8080⟩), demoTimed t synAck (.arrive 0),
    demoTimed t demoZbuf (.close 0), demoTimed t finAck (.arrive 0)]

/-- The timer is called at the time `t`. -/
def demoTimer (t : ℕ) : TimedCall (Fin 2) (Fin 2) := demoTimed t demoZbuf .timer

theorem demoClock_init : (clockLts demoNet).init demoClock :=
  ⟨⟨fun _ => rfl, rfl, rfl, rfl⟩, fun _ => rfl, rfl, fun _ => rfl⟩

theorem demoTimeWait_early :
    (Lib.Lts.exec (clockExec demoNet 2) demoClock (demoTimeWait 0 ++ [demoTimer 59999])).map
      (fun s => (s.net.sock 0).state) = some .timeWait := by decide +kernel

theorem demoTimeWait_late : (Lib.Lts.exec (clockExec demoNet 2) demoClock (demoTimeWait 70000)).map
    (fun s => (s.entered 0, (clockExec demoNet 2 s (demoTimer 70001)).map
      fun s => (s.net.sock 0).state)) = some (some 70000, some .closed) := by decide +kernel

/-- In the first minute after the start, TIME_WAIT is kept. -/
theorem time_wait_kept_early : ∃ s steps, (clockLts demoNet).history.Run
      (demoTimeWait 0 ++ [demoTimer 59999]) (s, steps) ∧ (s.net.sock 0).state = .timeWait ∧
    ((∀ w ∈ steps, TimeWaitKept w.1 w.2.1 w.2.2) ↔ ∀ w ∈ steps, ClockYoung w.1 w.2.1) := by
  obtain ⟨s, hexec, hstate⟩ := Option.map_eq_some_iff.1 demoTimeWait_early
  obtain ⟨steps, hrun⟩ :=
    (Lib.Lts.run_of_exec clockExec_step demoClock_init hexec).exists_history
  exact ⟨s, steps, hrun, hstate, time_wait_kept_iff demoNet hrun⟩

/-- **A minute after the start**, the timer closes a socket one tick after it has
    entered TIME_WAIT. -/
theorem time_wait_not_kept : ∃ s steps, (clockLts demoNet).history.Run
      (demoTimeWait 70000 ++ [demoTimer 70001]) (s, steps) ∧ (s.net.sock 0).state = .closed ∧
    ¬ ∀ w ∈ steps, TimeWaitKept w.1 w.2.1 w.2.2 := by
  obtain ⟨s, hexec, hlate⟩ := Option.map_eq_some_iff.1 demoTimeWait_late
  obtain ⟨hentered, htimer⟩ := Prod.mk.inj hlate
  obtain ⟨s', hexec', hclosed⟩ := Option.map_eq_some_iff.1 htimer
  obtain ⟨steps, hrun⟩ :=
    (Lib.Lts.run_of_exec clockExec_step demoClock_init hexec).exists_history
  refine ⟨s', _, hrun.snoc_history (clockExec_step _ _ _ hexec'), hclosed, fun hkept => ?_⟩
  have hlast := hkept _ (List.mem_append_right _ (List.mem_singleton_self _))
  have hle : 70000 + timeWaitTicks ≤ 70001 := hlast rfl 0 70000 hentered hclosed
  revert hle
  decide

end Gracemont
