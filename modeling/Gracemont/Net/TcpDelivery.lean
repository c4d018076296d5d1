/-
  Gracemont networking — in-order delivery.

  The peer cuts one byte stream into segments in any way, and the network loses,
  repeats and reorders them.  Sequence numbers are positions in the stream
  modulo `2 ^ 32`; they are compared for equality only, which is right for
  positions within `2 ^ 31` of that of the receiver.

  * `Honest`: a data segment of the peer;
  * `tcp_in_order_delivery`: what is queued is a prefix of the stream, and
    `rcv_nxt` counts it;
  * `tcp_in_sequence_queued`: segments that are next in sequence are queued, each
    in a buffer of its own.
-/
import Gracemont.Net.TcpOpening

namespace Gracemont

variable {α σ : Type}

/-- The buffer holds a data segment of the peer whose stream is `stream`, from
    the sequence number `iss` on, near the position `pos` of the receiver. -/
structure Honest (stream : List (BitVec 8)) (iss : BitVec 32) (pos : ℕ) (z : Zbuf α) : Prop where
  notFin : hasFlag z.segment.flags tcpFlagFin = false
  hdrLen_ge : tcpHdrLen ≤ z.segment.hdrLen.toNat
  hdrLen_le : z.segment.hdrLen.toNat ≤ z.len.toNat
  data : ∃ p, z.segment.seq = iss + BitVec.ofNat 32 p ∧ p ≤ pos + 2 ^ 31 ∧ pos ≤ p + 2 ^ 31 ∧
    payloadOf (z.pulled z.segment.hdrLen) <+: stream.drop p

section
variable [DecidableEq σ]

/-- The bytes that were put on the receive queue of a socket. -/
def NetStack.received (s : NetStack α σ) (x : σ) : List (BitVec 8) :=
  (s.inbox x).flatMap payloadOf

/-- A connection that is established, with a receiver at the position `start` of
    the stream.  The log is that of the run. -/
structure DeliveryStart (x : σ) (iss : BitVec 32) (start : ℕ) (s : NetStack α σ) : Prop where
  log : s.log = []
  state : (s.sock x).state = .established
  rcvNxt : (s.sock x).rcvNxt = iss + BitVec.ofNat 32 start

/-- What arrives are data segments of the peer. -/
def HonestArrival (x : σ) (stream : List (BitVec 8)) (iss : BitVec 32) (start : ℕ)
    (s : NetStack α σ) : TcpEvent α σ → Prop
  | .arrive env zb => Honest stream iss (start + (s.received x).length) (env.buf zb)
  | .send _ _ _ _ => True

/-- What holds along a run. -/
structure InOrder (x : σ) (stream : List (BitVec 8)) (iss : BitVec 32) (start : ℕ)
    (s : NetStack α σ) : Prop where
  state : (s.sock x).state = .established
  received : s.received x <+: stream.drop start
  rcvNxt : (s.sock x).rcvNxt = iss + BitVec.ofNat 32 (start + (s.received x).length)

end

/-! ## Sequence numbers -/

/-- Near positions with one sequence number are equal. -/
theorem position_unique {iss : BitVec 32} {p q : ℕ} (hp : p ≤ q + 2 ^ 31) (hq : q ≤ p + 2 ^ 31)
    (h : iss + BitVec.ofNat 32 p = iss + BitVec.ofNat 32 q) : p = q := by
  have hpq : BitVec.ofNat 32 p = BitVec.ofNat 32 q := (BitVec.add_right_inj iss).1 h
  have hmod := congrArg BitVec.toNat hpq
  rw [BitVec.toNat_ofNat, BitVec.toNat_ofNat] at hmod
  omega

/-- A data segment keeps a connection established, and moves `rcv_nxt` behind
    the data that it takes. -/
theorem Conn.receive_data {c : Conn} {seg : TcpSegment} (len : BitVec 16) (ticks n : BitVec 32)
    (hst : c.state = .established) (hfin : hasFlag seg.flags tcpFlagFin = false) :
    (c.receive seg len ticks n).state = .established ∧
      (c.receive seg len ticks n).rcvNxt =
        if c.Takes seg len then c.rcvNxt + seg.dataLen len else c.rcvNxt := by
  unfold receive
  simp only [hst, hfin, Bool.false_eq_true, if_false]
  split_ifs
  all_goals exact ⟨hst, rfl⟩

theorem NetStack.received_of_inbox [DecidableEq σ] {s s' : NetStack α σ} {x : σ} {z : Zbuf α}
    {P : Prop} [Decidable P] (h : s'.inbox x = s.inbox x ++ if P then [z] else []) :
    s'.received x = s.received x ++ if P then payloadOf z else [] := by
  rw [received, h, List.flatMap_append]
  split_ifs
  · simp [received]
  · rfl

theorem prefix_append_of_drop {l l' L : List (BitVec 8)} (h : l <+: L) (h' : l' <+: L.drop l.length) :
    l ++ l' <+: L := by
  obtain ⟨t, rfl⟩ := h
  rw [List.drop_left] at h'
  exact (List.prefix_append_right_inj l).2 h'

/-! ## Runs -/

section
variable [DecidableEq α] [DecidableEq σ] {cfg : NetConfig α} {init : NetStack α σ → Prop}
  {x : σ} {stream : List (BitVec 8)} {iss : BitVec 32} {start : ℕ} {s s' : NetStack α σ}

omit [DecidableEq α] in
theorem InOrder.untouched (h : InOrder x stream iss start s) (hu : Untouched x s s') :
    InOrder x stream iss start s' := by
  have hrec : s'.received x = s.received x := by rw [NetStack.received, hu.inbox]; rfl
  refine ⟨?_, ?_, ?_⟩
  · rw [hu.sock]
    exact h.state
  · rw [hrec]
    exact h.received
  · rw [hu.sock, hrec]
    exact h.rcvNxt

/-- **Step.** -/
theorem InOrder.step (h : InOrder x stream iss start s) {e : TcpEvent α σ}
    (he : HonestArrival x stream iss start s e) (hs : (tcpLts cfg init).step s e s') :
    InOrder x stream iss start s' := by
  cases e with
  | send env sock flags data =>
    obtain ⟨hothers, hinbox, n, hsock⟩ := tcpLts_send hs
    by_cases hx : x = sock
    · subst hx
      have hrec : s'.received x = s.received x := by rw [NetStack.received, hinbox]; rfl
      exact ⟨by rw [hsock]; exact h.state, by rw [hrec]; exact h.received,
        by rw [hsock, hrec]; exact h.rcvNxt⟩
    · exact h.untouched (hothers x hx)
  | arrive env zb =>
    rcases tcpLts_arrive hs with hu | ⟨y, n, -, -, hconn, hinbox, -, hothers⟩
    · exact h.untouched (hu x)
    by_cases hx : x = y
    swap
    · exact h.untouched (hothers x hx)
    subst hx
    obtain ⟨hfin, -, hle, p, hseq, hp, hpos, hpay⟩ := he
    generalize env.buf zb = z at *
    have hst : (s.sock x).conn.state = .established := h.state
    obtain ⟨hstate, hrcv⟩ := Conn.receive_data z.len env.ticks n hst hfin
    rw [← hconn] at hstate hrcv
    have hrec := NetStack.received_of_inbox hinbox
    by_cases htakes : (s.sock x).conn.Takes z.segment z.len
    · -- the data starts where the receiver is
      have hsame : iss + BitVec.ofNat 32 p =
          iss + BitVec.ofNat 32 (start + (s.received x).length) := by
        rw [← hseq, htakes.2.2]
        exact h.rcvNxt
      have hhere := position_unique hp hpos hsame
      rw [if_pos htakes] at hrec hrcv
      have hlen : BitVec.ofNat 32 (payloadOf (z.pulled z.segment.hdrLen)).length =
          z.segment.dataLen z.len := by
        rw [payloadOf_length, BitVec.ofNat_toNat]
        rfl
      refine ⟨hstate, ?_, ?_⟩
      · rw [hrec]
        refine prefix_append_of_drop h.received ?_
        rw [List.drop_drop, ← hhere]
        exact hpay
      · have hold : (s.sock x).conn.rcvNxt = _ := h.rcvNxt
        show (s'.sock x).conn.rcvNxt = _
        rw [hrcv, hold, hrec, List.length_append, ← Nat.add_assoc, ← hlen, BitVec.add_assoc,
          ← BitVec.ofNat_add]
    · rw [if_neg htakes] at hrec hrcv
      rw [List.append_nil] at hrec
      refine ⟨hstate, by rw [hrec]; exact h.received, ?_⟩
      rw [hrec]
      exact hrcv.trans h.rcvNxt

/-- **In-order delivery.**  Whatever segments of the peer arrive, in whatever
    order, what was queued for the socket is the stream from the position of the
    receiver on, and `rcv_nxt` has moved by as many bytes. -/
theorem tcp_in_order_delivery {tr : List (TcpEvent α σ)}
    (h : ((tcpLts cfg (DeliveryStart x iss start)).restrict
      (HonestArrival x stream iss start)).Run tr s) :
    s.received x <+: stream.drop start ∧
      (s.sock x).rcvNxt =
        iss + BitVec.ofNat 32 start + BitVec.ofNat 32 (s.received x).length := by
  have hinv : InOrder x stream iss start s := by
    refine h.rule (P := fun _ s => InOrder x stream iss start s) ?_ ?_
    · intro s h0
      have hrec : s.received x = [] := by
        rw [NetStack.received, NetStack.inbox, h0.log]
        rfl
      exact ⟨h0.state, by rw [hrec]; exact List.nil_prefix, by rw [hrec]; exact h0.rcvNxt⟩
    · intro tr s e s' hs hstep
      exact hs.step hstep.1 hstep.2
  refine ⟨hinv.received, ?_⟩
  rw [BitVec.add_assoc, ← BitVec.ofNat_add]
  exact hinv.rcvNxt

/-! ## Buffers of their own -/

/-- The data of a segment that arrives. -/
def TcpEvent.data : TcpEvent α σ → Option (List (BitVec 8))
  | .arrive env zb => some (payloadOf ((env.buf zb).pulled (env.buf zb).segment.hdrLen))
  | .send _ _ _ _ => none

/-- What arrives are data segments for the socket, each the next in sequence. -/
def InSequence (x : σ) (s : NetStack α σ) : TcpEvent α σ → Prop
  | .arrive env zb => Reaches x s env zb ∧
      (s.sock x).conn.Takes (env.buf zb).segment (env.buf zb).len ∧
      hasFlag (env.buf zb).segment.flags tcpFlagFin = false
  | .send _ _ _ _ => True

theorem TcpSegment.HasData.dataLen_ne_zero {seg : TcpSegment} {len : BitVec 16}
    (h : seg.HasData len) : seg.dataLen len ≠ 0#32 := by
  have hlt : seg.hdrLen.toNat < len.toNat := h
  have hsub : (seg.dataLen len).toNat = len.toNat - seg.hdrLen.toNat := by
    rw [TcpSegment.dataLen]
    simp only [BitVec.toNat_setWidth, BitVec.toNat_sub]
    omega
  intro hzero
  rw [hzero, BitVec.toNat_zero] at hsub
  omega

/-- **A segment that is next in sequence** is queued. -/
theorem InSequence.queued {env : TcpEnv α} {zb : α} (h : InSequence x s (.arrive env zb))
    (hs : (tcpLts cfg init).step s (.arrive env zb) s') :
    s'.inbox x = s.inbox x ++ [(env.buf zb).pulled (env.buf zb).segment.hdrLen] := by
  obtain ⟨hreach, htakes, hfin⟩ := h
  rcases tcpLts_arrive hs with hu | ⟨y, n, -, hy, -, hinbox, -, -⟩
  · -- the connection has moved, so it cannot be left alone
    rcases tcpLts_arrive_sock hs x with ⟨-, ⟨n, hconn⟩, -⟩ | ⟨hnot, -⟩
    · obtain ⟨-, hrcv⟩ := Conn.receive_data (env.buf zb).len env.ticks n htakes.1 hfin
      rw [← hconn, (hu x).sock, if_pos htakes] at hrcv
      exact absurd (BitVec.self_eq_add_right.1 hrcv) htakes.2.1.dataLen_ne_zero
    · exact absurd hreach hnot
  · obtain ⟨-, m, hfind⟩ := hreach
    obtain ⟨-, k, hfind'⟩ := hy
    cases tcpFindSocket_unique hfind hfind'
    rw [hinbox, if_pos htakes]

/-- Data that is next in sequence goes to the end of the receive queue. -/
theorem receiveData_rxQueue (cfg : NetConfig α) {s : NetStack α σ} {seg : TcpSegment} {zb : α}
    (hdata : seg.HasData (s.pool.zb zb).len) (hseq : seg.seq = (s.sock x).rcvNxt)
    (m : Lib.Store α (Zbuf α)) : ((receiveData cfg s x seg zb).1.sock x).rxQueue =
      (zbufQueuePush m (s.sock x).rxQueue zb).2 := by
  have hlt : seg.hdrLen.toNat < (s.pool.zb zb).len.toNat := hdata
  have hpull : (s.pull zb (seg.hdrLen.setWidth 16)).sock = s.sock :=
    (Transmitted.pull s zb (seg.hdrLen.setWidth 16)).sock
  have hqueue : ∀ s₁ : NetStack α σ, (s₁.sock x).rxQueue = (s.sock x).rxQueue →
      ((queueRx s₁ x zb).sock x).rxQueue = (zbufQueuePush m (s.sock x).rxQueue zb).2 := by
    intro s₁ hsame
    rw [← hsame]
    refine (congrArg Socket.rxQueue (Lib.Store.modify_self ..)).trans ?_
    rfl
  unfold receiveData
  simp only [if_pos hlt, hpull, if_pos hseq]
  rw [tcpSendSegment_field cfg Socket.rxQueue fun _ _ => rfl]
  -- the post and `rcv_nxt` do not change the queue
  refine (Lib.Store.modify_field Socket.rxQueue _ x (by rfl) x).trans (hqueue _ ?_)
  refine (Lib.Store.modify_field Socket.rxQueue _ x (by rfl) x).trans ?_
  rw [hpull]

theorem receiveEstablished_rxQueue (cfg : NetConfig α) {s : NetStack α σ} {seg : TcpSegment}
    {zb : α} (h : (s.sock x).conn.Takes seg (s.pool.zb zb).len)
    (hfin : hasFlag seg.flags tcpFlagFin = false) (m : Lib.Store α (Zbuf α)) :
    ((receiveEstablished cfg s x seg zb).1.sock x).rxQueue =
      (zbufQueuePush m (s.sock x).rxQueue zb).2 := by
  generalize hs₁ : (if hasFlag seg.flags tcpFlagAck then
    s.modify x fun k => { k with sndUna := seg.ack } else s) = s₁
  -- the acknowledgement changes nothing that the rest depends on
  obtain ⟨hqueue, hrcv, hpool⟩ : (s₁.sock x).rxQueue = (s.sock x).rxQueue ∧
      (s₁.sock x).rcvNxt = (s.sock x).rcvNxt ∧ s₁.pool = s.pool := by
    rw [← hs₁]
    split_ifs
    · exact ⟨Lib.Store.modify_field Socket.rxQueue s.sock x (by rfl) x,
        Lib.Store.modify_field Socket.rcvNxt s.sock x (by rfl) x, rfl⟩
    · exact ⟨rfl, rfl, rfl⟩
  have hdata : seg.HasData (s₁.pool.zb zb).len := by rw [hpool]; exact h.2.1
  have hseq : seg.seq = (s₁.sock x).rcvNxt := h.2.2.trans hrcv.symm
  unfold receiveEstablished
  simp only [hs₁, hfin, Bool.false_eq_true, if_false]
  rw [receiveData_rxQueue cfg hdata hseq m, hqueue]

/-- **A segment that is next in sequence** is at the end of the receive queue. -/
theorem InSequence.rxQueue {env : TcpEnv α} {zb : α} (h : InSequence x s (.arrive env zb))
    (hs : (tcpLts cfg init).step s (.arrive env zb) s') (m : Lib.Store α (Zbuf α)) :
    (s'.sock x).rxQueue = (zbufQueuePush m (s.sock x).rxQueue zb).2 := by
  obtain ⟨⟨hz, n, hfind⟩, htakes, hfin⟩ := h
  obtain ⟨fuel, hs⟩ := hs
  have hst : ((s.meets env).sock x).state = .established := htakes.1
  rw [tcpInput_found hz hfind hs, tcpReceive, hst]
  exact receiveEstablished_rxQueue cfg htakes hfin m

/-- **The receive queue** gets the data of each segment in a buffer of its own. -/
theorem tcp_in_sequence_queued {tr : List (TcpEvent α σ)}
    (h : ((tcpLts cfg fun s => s.log = []).restrict (InSequence x)).Run tr s) :
    (s.inbox x).map payloadOf = tr.filterMap TcpEvent.data := by
  refine h.rule (P := fun tr s => (s.inbox x).map payloadOf = tr.filterMap TcpEvent.data) ?_ ?_
  · intro s hlog
    have hlog : s.log = [] := hlog
    rw [NetStack.inbox, hlog]
    rfl
  · rintro tr s e s' hinbox ⟨hok, hs⟩
    rw [List.filterMap_append, ← hinbox]
    cases e with
    | arrive env zb =>
      rw [hok.queued hs, List.map_append]
      rfl
    | send env sock flags data =>
      obtain ⟨hothers, hsock, -⟩ := tcpLts_send hs
      have hsame : s'.inbox x = s.inbox x := by
        by_cases hx : x = sock
        · rw [hx, hsock]
        · exact (hothers x hx).inbox
      rw [hsame]
      exact (List.append_nil _).symm

end

/-- The bytes 2 and 3 of a stream arrive before 1, and 1 arrives twice; the
    sequence numbers wrap around. -/
def demoReordered : List (TcpEvent (Fin 2) (Fin 2)) :=
  [(0x0, [2, 3]), (0xFFFFFFFF, [1]), (0xFFFFFFFF, [1]), (0x0, [2])].map fun d =>
    demoArrive (demoSegment 0x0A000002 8080 80 d.1 0 tcpFlagAck d.2)

theorem demoReordered_runs :
    (Lib.Lts.exec (tcpExecStep demoNet 2) (demoConn .established 0 0 0xFFFFFFFF)
      demoReordered).isSome := by decide +kernel

theorem tcp_in_order_delivery_reordered : ∃ s : NetStack (Fin 2) (Fin 2),
    s.received 0 = [1, 2] ∧ s.received 0 <+: [1, 2, 3].drop 0 ∧
      (s.sock 0).rcvNxt = 0xFFFFFFFF + BitVec.ofNat 32 0 + BitVec.ofNat 32 (s.received 0).length := by
  have hstart : DeliveryStart 0 0xFFFFFFFF 0 (demoConn .established 0 0 0xFFFFFFFF) :=
    ⟨rfl, rfl, rfl⟩
  refine ⟨_, ?_, tcp_in_order_delivery
    (tcpLts_run_restrict hstart (Option.some_get demoReordered_runs).symm fun i hi => ?_)⟩
  · decide +kernel
  have hi : i = 0 ∨ i = 1 ∨ i = 2 ∨ i = 3 := by
    have hlen : demoReordered.length = 4 := rfl
    omega
  rcases hi with rfl | rfl | rfl | rfl
  · exact ⟨by decide +kernel, by decide +kernel, by decide +kernel, 1, by decide +kernel⟩
  · exact ⟨by decide +kernel, by decide +kernel, by decide +kernel, 0, by decide +kernel⟩
  · exact ⟨by decide +kernel, by decide +kernel, by decide +kernel, 0, by decide +kernel⟩
  · exact ⟨by decide +kernel, by decide +kernel, by decide +kernel, 1, by decide +kernel⟩

end Gracemont
