/-
  Gracemont networking — connections.

  A `Conn` is what a socket keeps of its connection, and `Conn.receive` is what
  a segment does to it.  The state machine of `tcp_input` does this and no more
  (`tcpReceive_spec`): other sockets stay as they are, and the data of a segment
  is queued exactly if the connection takes it.

  * `Conn`, `Conn.receive`, `Conn.Takes`: connections apart from the stack;
  * `NetStack.inbox`: what was put on the receive queue of a socket;
  * `Reacts`: only one socket changes, to a given connection;
  * `tcpInput_spec`: a segment meets no socket, or one that reacts to it.
-/
import Gracemont.Net.TcpLookup
import Gracemont.Net.Transmit

namespace Gracemont

variable {α σ : Type}

/-! ## Connections -/

/-- The connection of a socket. -/
structure Conn where
  state : TcpState
  localPort : BitVec 16
  remoteAddr : Sockaddr
  sndUna : BitVec 32
  sndNxt : BitVec 32
  rcvNxt : BitVec 32
  deriving DecidableEq

def Socket.conn (k : Socket α σ) : Conn :=
  ⟨k.state, k.localAddr.port, k.remoteAddr, k.sndUna, k.sndNxt, k.rcvNxt⟩

namespace TcpSegment
variable (seg : TcpSegment) (len : BitVec 16)

/-- A segment of `len` bytes has data. -/
def HasData : Prop := seg.hdrLen.toNat < len.toNat

instance : Decidable (seg.HasData len) := inferInstanceAs (Decidable (_ < _))

/-- The number of its data bytes. -/
def dataLen : BitVec 32 := (len - seg.hdrLen.setWidth 16).setWidth 32

end TcpSegment

namespace Conn
variable (seg : TcpSegment) (len : BitVec 16)

/-- The connection takes the data of a segment of `len` bytes. -/
def Takes (c : Conn) : Prop :=
  c.state = .established ∧ seg.HasData len ∧ seg.seq = c.rcvNxt

instance (c : Conn) : Decidable (c.Takes seg len) := inferInstanceAs (Decidable (_ ∧ _ ∧ _))

/-- The segment acknowledges something. -/
def acked (c : Conn) : Conn := { c with sndUna := seg.ack }

/-- The data of a segment is received. -/
def gotData (c : Conn) : Conn := { c with rcvNxt := c.rcvNxt + seg.dataLen len }

/-- A FIN is received. -/
def gotFin (state : TcpState) (c : Conn) : Conn :=
  { c with rcvNxt := c.rcvNxt + 1, state := state }

/-- What a segment of `len` bytes does to a connection.  In `LISTEN`, the clock
    is `ticks`, and sending the SYN takes `n` from the sequence space. -/
def receive (ticks n : BitVec 32) (c : Conn) : Conn :=
  match c.state with
  | .listen =>
    if hasFlag seg.flags tcpFlagSyn then
      { c with
        state := .synReceived, remoteAddr := ⟨seg.srcIp, seg.srcPort⟩, rcvNxt := seg.seq + 1
        sndNxt := ticks + n, sndUna := ticks }
    else c
  | .synSent =>
    if seg.flags &&& (tcpFlagSyn ||| tcpFlagAck) = tcpFlagSyn ||| tcpFlagAck then
      { c.acked seg with state := .established, rcvNxt := seg.seq + 1 }
    else c
  | .synReceived =>
    if hasFlag seg.flags tcpFlagAck then { c.acked seg with state := .established } else c
  | .established =>
    let c' := if hasFlag seg.flags tcpFlagAck then c.acked seg else c
    let c' := if c.Takes seg len then c'.gotData seg len else c'
    if hasFlag seg.flags tcpFlagFin then c'.gotFin .closeWait else c'
  | .finWait1 =>
    if hasFlag seg.flags tcpFlagAck then
      if hasFlag seg.flags tcpFlagFin then (c.acked seg).gotFin .timeWait
      else { c.acked seg with state := .finWait2 }
    else c
  | .finWait2 => if hasFlag seg.flags tcpFlagFin then c.gotFin .timeWait else c
  | .lastAck => if hasFlag seg.flags tcpFlagAck then { c with state := .closed } else c
  | .closeWait | .timeWait | .closed | .closing => c

section
variable {seg len} {ticks n : BitVec 32} {c : Conn}

theorem receive_listen (h : c.state = .listen) : c.receive seg len ticks n =
    if hasFlag seg.flags tcpFlagSyn then
      { c with
        state := .synReceived, remoteAddr := ⟨seg.srcIp, seg.srcPort⟩, rcvNxt := seg.seq + 1
        sndNxt := ticks + n, sndUna := ticks }
    else c := by rw [receive, h]

theorem receive_synSent (h : c.state = .synSent) : c.receive seg len ticks n =
    if seg.flags &&& (tcpFlagSyn ||| tcpFlagAck) = tcpFlagSyn ||| tcpFlagAck then
      { c.acked seg with state := .established, rcvNxt := seg.seq + 1 }
    else c := by rw [receive, h]

theorem receive_synReceived (h : c.state = .synReceived) : c.receive seg len ticks n =
    if hasFlag seg.flags tcpFlagAck then { c.acked seg with state := .established } else c := by
  rw [receive, h]

theorem receive_established (h : c.state = .established) : c.receive seg len ticks n =
    let c' := if hasFlag seg.flags tcpFlagAck then c.acked seg else c
    let c' := if c.Takes seg len then c'.gotData seg len else c'
    if hasFlag seg.flags tcpFlagFin then c'.gotFin .closeWait else c' := by rw [receive, h]

theorem receive_finWait1 (h : c.state = .finWait1) : c.receive seg len ticks n =
    if hasFlag seg.flags tcpFlagAck then
      if hasFlag seg.flags tcpFlagFin then (c.acked seg).gotFin .timeWait
      else { c.acked seg with state := .finWait2 }
    else c := by rw [receive, h]

theorem receive_finWait2 (h : c.state = .finWait2) : c.receive seg len ticks n =
    if hasFlag seg.flags tcpFlagFin then c.gotFin .timeWait else c := by rw [receive, h]

theorem receive_lastAck (h : c.state = .lastAck) : c.receive seg len ticks n =
    if hasFlag seg.flags tcpFlagAck then { c with state := .closed } else c := by rw [receive, h]

theorem not_takes (h : c.state ≠ .established) : ¬ c.Takes seg len := fun ht => h ht.1

end

end Conn

/-! ## Sockets -/

/-- The buffer that an event puts on the receive queue of a socket. -/
def NetEvent.queuedOn [DecidableEq σ] (x : σ) : NetEvent α σ → Option (Zbuf α)
  | .queued y _ z => if y = x then some z else none
  | .allocated _ | .freed _ | .sent _ _ => none

/-- What was put on the receive queue of a socket, in order. -/
def NetStack.inbox [DecidableEq σ] (s : NetStack α σ) (x : σ) : List (Zbuf α) :=
  s.log.filterMap (NetEvent.queuedOn x)

/-- A buffer after `zbuf_pull` of a header. -/
def Zbuf.pulled (z : Zbuf α) (hdrLen : BitVec 8) : Zbuf α :=
  { z with data := z.data + hdrLen.toNat, len := z.len - hdrLen.setWidth 16 }

/-- Of the sockets, only `x` changes between `s` and `s'`: its connection is `c`
    then, and the buffers `q` are put on its receive queue. -/
structure Reacts [DecidableEq σ] (x : σ) (s s' : NetStack α σ) (c : Conn) (q : List (Zbuf α)) :
    Prop where
  conn : (s'.sock x).conn = c
  inbox : s'.inbox x = s.inbox x ++ q
  rxQueue : q = [] → (s'.sock x).rxQueue = (s.sock x).rxQueue
  others : ∀ y, y ≠ x → s'.sock y = s.sock y ∧ s'.inbox y = s.inbox y
  next : (s'.sock x).next = (s.sock x).next
  live : s'.live = s.live
  socketTable : s'.socketTable = s.socketTable
  nextFd : s'.nextFd = s.nextFd
  tcpListenList : s'.tcpListenList = s.tcpListenList
  tcpConnList : s'.tcpConnList = s.tcpConnList

namespace Reacts
variable [DecidableEq σ] {x : σ} {s s' s'' : NetStack α σ} {c c' : Conn} {q q' : List (Zbuf α)}

theorem trans (h : Reacts x s s' c q) (h' : Reacts x s' s'' c' q') :
    Reacts x s s'' c' (q ++ q') := by
  refine ⟨h'.conn, ?_, ?_, ?_, h'.next.trans h.next, h'.live.trans h.live,
    h'.socketTable.trans h.socketTable, h'.nextFd.trans h.nextFd,
    h'.tcpListenList.trans h.tcpListenList, h'.tcpConnList.trans h.tcpConnList⟩
  · rw [h'.inbox, h.inbox, List.append_assoc]
  · intro hq
    obtain ⟨hq₁, hq₂⟩ := List.append_eq_nil_iff.1 hq
    exact (h'.rxQueue hq₂).trans (h.rxQueue hq₁)
  · intro y hy
    obtain ⟨hs, hi⟩ := h.others y hy
    obtain ⟨hs', hi'⟩ := h'.others y hy
    exact ⟨hs'.trans hs, hi'.trans hi⟩

/-- A step that changes no socket. -/
theorem of_transmitted (h : Transmitted s s') (x : σ) : Reacts x s s' (s.sock x).conn [] := by
  have hinbox : ∀ y, s'.inbox y = s.inbox y := by
    intro y
    obtain ⟨new, hnew, hq⟩ := h.log
    have hnone : new.filterMap (NetEvent.queuedOn y) = [] := by
      refine List.filterMap_eq_nil_iff.2 fun e he => ?_
      have hnq := hq e he
      cases e with
      | queued z zb b => exact hnq.elim
      | allocated | freed | sent => rfl
    rw [NetStack.inbox, hnew, List.filterMap_append, hnone, List.append_nil]
    rfl
  refine ⟨by rw [h.sock], ?_, fun _ => by rw [h.sock], fun y _ => ⟨by rw [h.sock], hinbox y⟩,
    by rw [h.sock], h.live, h.socketTable, h.nextFd, h.tcpListenList, h.tcpConnList⟩
  rw [hinbox, List.append_nil]

theorem then_transmitted (h : Reacts x s s' c q) (ht : Transmitted s' s'') : Reacts x s s'' c q := by
  have ht' := h.trans (of_transmitted ht x)
  rw [List.append_nil, h.conn] at ht'
  exact ht'

/-- Assignments to the socket. -/
theorem modify (s : NetStack α σ) (x : σ) {f : Socket α σ → Socket α σ}
    (hq : (f (s.sock x)).rxQueue = (s.sock x).rxQueue) (hn : (f (s.sock x)).next = (s.sock x).next) :
    Reacts x s (s.modify x f) (f (s.sock x)).conn [] := by
  have hx : (s.modify x f).sock x = f (s.sock x) := s.sock.modify_self x f
  refine ⟨by rw [hx], (List.append_nil _).symm, fun _ => by rw [hx, hq], ?_, by rw [hx, hn], rfl, rfl,
    rfl, rfl, rfl⟩
  intro y hy
  exact ⟨s.sock.modify_of_ne hy f, rfl⟩

theorem then_modify (h : Reacts x s s' c q) {f : Socket α σ → Socket α σ}
    (hq : (f (s'.sock x)).rxQueue = (s'.sock x).rxQueue)
    (hn : (f (s'.sock x)).next = (s'.sock x).next) :
    Reacts x s (s'.modify x f) (f (s'.sock x)).conn q := by
  have hm := h.trans (modify s' x hq hn)
  rw [List.append_nil] at hm
  exact hm

/-- A buffer is queued. -/
theorem queueRx [DecidableEq α] (s : NetStack α σ) (x : σ) (zb : α) :
    Reacts x s (queueRx s x zb) (s.sock x).conn [s.pool.zb zb] := by
  let f : Socket α σ → Socket α σ := fun k =>
    { k with rxQueue := (zbufQueuePush s.pool.zb (s.sock x).rxQueue zb).2 }
  have hsock : (Gracemont.queueRx s x zb).sock = s.sock.modify x f := rfl
  have hlog : (Gracemont.queueRx s x zb).log = s.log ++ [.queued x zb (s.pool.zb zb)] := rfl
  have hx : (Gracemont.queueRx s x zb).sock x = f (s.sock x) := by
    rw [hsock]
    exact s.sock.modify_self x f
  refine ⟨by rw [hx]; rfl, ?_, ?_, ?_, by rw [hx], rfl, rfl, rfl, rfl, rfl⟩
  · rw [NetStack.inbox, hlog]
    simp [NetStack.inbox, NetEvent.queuedOn]
  · intro h
    cases h
  · intro y hy
    refine ⟨by rw [hsock]; exact s.sock.modify_of_ne hy f, ?_⟩
    rw [NetStack.inbox, hlog]
    simp [NetStack.inbox, NetEvent.queuedOn, Ne.symm hy]

end Reacts

/-! ## The state machine -/

section
variable [DecidableEq α] [DecidableEq σ] (cfg : NetConfig α) {s : NetStack α σ} {x : σ}
  {c : Conn} {q : List (Zbuf α)}

theorem Reacts.then_ack {s₁ : NetStack α σ} (h : Reacts x s s₁ c q) :
    Reacts x s (tcpSendSegment cfg s₁ x tcpFlagAck none).1 c q :=
  h.then_transmitted (tcpSendSegment_ack cfg s₁ x)

omit [DecidableEq α] in
theorem Reacts.then_postRx {s₁ : NetStack α σ} (h : Reacts x s s₁ c q) :
    Reacts x s (postRx s₁ x) c q := by
  have hm := h.then_modify (f := fun k => { k with rxSem := k.rxSem + 1 }) rfl rfl
  rw [← h.conn]
  exact hm

omit [DecidableEq α] in
theorem Reacts.then_postTx {s₁ : NetStack α σ} (h : Reacts x s s₁ c q) :
    Reacts x s (postTx s₁ x) c q := by
  have hm := h.then_modify (f := fun k => { k with txSem := k.txSem + 1 }) rfl rfl
  rw [← h.conn]
  exact hm

omit [DecidableEq α] in
/-- Nothing happens. -/
theorem Reacts.refl (s : NetStack α σ) (x : σ) : Reacts x s s (s.sock x).conn [] :=
  .of_transmitted (.refl s) x

theorem receiveListen_spec (s : NetStack α σ) (x : σ) (seg : TcpSegment) (len : BitVec 16)
    (hst : (s.sock x).state = .listen) : ∃ n, (n = 0 ∨ n = 1) ∧
      Reacts x s (receiveListen cfg s x seg) ((s.sock x).conn.receive seg len s.ticks n) [] := by
  have hconn : (s.sock x).conn.state = .listen := hst
  unfold receiveListen Conn.receive
  simp only [hconn]
  by_cases hsyn : hasFlag seg.flags tcpFlagSyn = true
  · simp only [if_pos hsyn]
    generalize hf : (fun k : Socket α σ => ({ k with
      remoteAddr := ⟨seg.srcIp, seg.srcPort⟩, rcvNxt := seg.seq + 1, sndNxt := s.ticks
      sndUna := s.ticks, state := .synReceived } : Socket α σ)) = f
    have hm : Reacts x s (s.modify x f) (f (s.sock x)).conn [] :=
      .modify s x (by rw [← hf]) (by rw [← hf])
    obtain ⟨n, ht, hn⟩ :=
      tcpSendSegment_spec cfg (s.modify x f) x (tcpFlagSyn ||| tcpFlagAck) none
    refine ⟨n, (hn rfl).imp_right And.right, ?_⟩
    have hsend := hm.then_modify (f := fun k => { k with sndNxt := k.sndNxt + n }) rfl rfl
    have hx : (s.modify x f).sock x = f (s.sock x) := s.sock.modify_self x f
    rw [hx] at hsend
    subst hf
    exact hsend.then_transmitted ht
  · simp only [if_neg hsyn]
    exact ⟨0, .inl rfl, .refl s x⟩

theorem receiveSynSent_spec (s : NetStack α σ) (x : σ) (seg : TcpSegment) (len ticks n)
    (hst : (s.sock x).state = .synSent) :
    Reacts x s (receiveSynSent cfg s x seg) ((s.sock x).conn.receive seg len ticks n) [] := by
  have hconn : (s.sock x).conn.state = .synSent := hst
  unfold receiveSynSent Conn.receive
  simp only [hconn]
  split_ifs
  · exact ((Reacts.modify s x rfl rfl).then_ack cfg).then_postTx
  · exact .refl s x

omit [DecidableEq α] in
theorem receiveSynReceived_spec (s : NetStack α σ) (x : σ) (seg : TcpSegment) (len ticks n)
    (hst : (s.sock x).state = .synReceived) :
    Reacts x s (receiveSynReceived s x seg) ((s.sock x).conn.receive seg len ticks n) [] := by
  have hconn : (s.sock x).conn.state = .synReceived := hst
  unfold receiveSynReceived Conn.receive
  simp only [hconn]
  split_ifs
  · exact (Reacts.modify s x rfl rfl).then_postRx
  · exact .refl s x

omit [DecidableEq σ] in
/-- `zbuf_pull` of a header that is shorter than the segment. -/
theorem pull_eq {zb : α} {seg : TcpSegment} (hdata : seg.HasData (s.pool.zb zb).len) :
    s.pull zb (seg.hdrLen.setWidth 16) = s.setBuf zb ((s.pool.zb zb).pulled seg.hdrLen) := by
  have hlt : seg.hdrLen.toNat < (s.pool.zb zb).len.toNat := hdata
  have hw : (seg.hdrLen.setWidth 16).toNat = seg.hdrLen.toNat := by
    have hh := seg.hdrLen.isLt
    rw [BitVec.toNat_setWidth]
    omega
  have hpull : zbufPull (s.pool.zb zb) (seg.hdrLen.setWidth 16) =
      some ((s.pool.zb zb).pulled seg.hdrLen, (s.pool.zb zb).data + seg.hdrLen.toNat) := by
    unfold zbufPull
    rw [if_neg, hw]
    · rfl
    · rw [BitVec.lt_def, hw]
      omega
  rw [NetStack.pull, hpull]

/-- The data of a segment is queued if it is what comes next. -/
theorem receiveData_spec (s : NetStack α σ) (x : σ) (seg : TcpSegment) (zb : α) :
    Reacts x s (receiveData cfg s x seg zb).1
      (if seg.HasData (s.pool.zb zb).len ∧ seg.seq = (s.sock x).rcvNxt then
        (s.sock x).conn.gotData seg (s.pool.zb zb).len else (s.sock x).conn)
      (if seg.HasData (s.pool.zb zb).len ∧ seg.seq = (s.sock x).rcvNxt then
        [(s.pool.zb zb).pulled seg.hdrLen] else []) := by
  unfold receiveData
  by_cases hdata : seg.HasData (s.pool.zb zb).len
  · have hlt : seg.hdrLen.toNat < (s.pool.zb zb).len.toNat := hdata
    rw [if_pos hlt, pull_eq hdata]
    generalize hz : (s.pool.zb zb).pulled seg.hdrLen = z
    have hlen : z.len = (s.pool.zb zb).len - seg.hdrLen.setWidth 16 := by rw [← hz]; rfl
    have hset : Reacts x s (s.setBuf zb z) (s.sock x).conn [] := .of_transmitted (.setBuf s zb z) x
    have hsock : (s.setBuf zb z).sock = s.sock := rfl
    by_cases hseq : seg.seq = (s.sock x).rcvNxt
    · simp only [hsock, hdata, hseq, and_self, if_true, NetStack.setBuf_zb_self]
      have hm := hset.then_modify
        (f := fun k => { k with rcvNxt := k.rcvNxt + z.len.setWidth 32 }) rfl rfl
      generalize hs : (s.setBuf zb z).modify x _ = s₁ at hm ⊢
      have hzb : s₁.pool.zb zb = z := by
        rw [← hs]
        exact NetStack.setBuf_zb_self s zb z
      have hq := hm.trans (Reacts.queueRx s₁ x zb)
      rw [List.nil_append, hzb, hm.conn] at hq
      rw [hlen] at hq
      exact hq.then_postRx.then_ack cfg
    · simp only [hsock, hseq, and_false, if_false]
      exact hset
  · have hlt : ¬ seg.hdrLen.toNat < (s.pool.zb zb).len.toNat := hdata
    simp only [if_neg hlt, hdata, false_and, if_false]
    exact .refl s x

/-- A FIN is acknowledged. -/
theorem receiveFin_spec (s : NetStack α σ) (x : σ) (state : TcpState) :
    Reacts x s (receiveFin cfg s x state) ((s.sock x).conn.gotFin state) [] :=
  (Reacts.modify s x rfl rfl).then_ack cfg

theorem Reacts.then_fin {s₁ : NetStack α σ} (h : Reacts x s s₁ c q) (state : TcpState) :
    Reacts x s (receiveFin cfg s₁ x state) (c.gotFin state) q := by
  have hfin := h.trans (receiveFin_spec cfg s₁ x state)
  rw [List.append_nil, h.conn] at hfin
  exact hfin

theorem receiveEstablished_spec (s : NetStack α σ) (x : σ) (seg : TcpSegment) (zb : α) (ticks n)
    (hst : (s.sock x).state = .established) :
    Reacts x s (receiveEstablished cfg s x seg zb).1
      ((s.sock x).conn.receive seg (s.pool.zb zb).len ticks n)
      (if (s.sock x).conn.Takes seg (s.pool.zb zb).len then [(s.pool.zb zb).pulled seg.hdrLen]
        else []) := by
  have hconn : (s.sock x).conn.state = .established := hst
  have htakes : (s.sock x).conn.Takes seg (s.pool.zb zb).len ↔
      seg.HasData (s.pool.zb zb).len ∧ seg.seq = (s.sock x).rcvNxt := by
    unfold Conn.Takes
    rw [hconn]
    exact ⟨fun h => h.2, fun h => ⟨rfl, h⟩⟩
  have hack : ∃ s₁, (if hasFlag seg.flags tcpFlagAck then
        s.modify x fun k => { k with sndUna := seg.ack } else s) = s₁ ∧
      Reacts x s s₁ (if hasFlag seg.flags tcpFlagAck then (s.sock x).conn.acked seg
        else (s.sock x).conn) [] ∧
      s₁.pool = s.pool ∧ (s₁.sock x).rcvNxt = (s.sock x).rcvNxt := by
    by_cases ha : hasFlag seg.flags tcpFlagAck = true
    · refine ⟨_, rfl, ?_⟩
      rw [if_pos ha, if_pos ha]
      refine ⟨.modify s x rfl rfl, rfl, ?_⟩
      exact Lib.Store.modify_field Socket.rcvNxt s.sock x (by rfl) x
    · refine ⟨_, rfl, ?_⟩
      rw [if_neg ha, if_neg ha]
      exact ⟨.refl s x, rfl, rfl⟩
  obtain ⟨s₁, hs₁, hreact, hpool, hrcv⟩ := hack
  have hdata := hreact.trans (receiveData_spec cfg s₁ x seg zb)
  rw [List.nil_append, hpool, hrcv, hreact.conn] at hdata
  unfold receiveEstablished Conn.receive
  simp only [hconn, htakes, hs₁]
  by_cases hfin : hasFlag seg.flags tcpFlagFin = true
  · simp only [if_pos hfin]
    exact (hdata.then_fin cfg .closeWait).then_postRx
  · simp only [if_neg hfin]
    exact hdata

theorem receiveFinWait1_spec (s : NetStack α σ) (x : σ) (seg : TcpSegment) (len ticks n)
    (hst : (s.sock x).state = .finWait1) :
    Reacts x s (receiveFinWait1 cfg s x seg) ((s.sock x).conn.receive seg len ticks n) [] := by
  have hconn : (s.sock x).conn.state = .finWait1 := hst
  unfold receiveFinWait1 Conn.receive
  simp only [hconn]
  have hack : Reacts x s (s.modify x fun k => { k with sndUna := seg.ack })
      ((s.sock x).conn.acked seg) [] := .modify s x rfl rfl
  split_ifs
  · exact hack.then_fin cfg .timeWait
  · rw [NetStack.modify_modify]
    exact .modify s x rfl rfl
  · exact .refl s x

/-- **The state machine** does to the connection what `Conn.receive` says, and
    queues the data of the segment exactly if the connection takes it. -/
theorem tcpReceive_spec (s : NetStack α σ) (x : σ) (seg : TcpSegment) (zb : α) :
    ∃ n, (n = 0 ∨ n = 1) ∧ Reacts x s (tcpReceive cfg s x seg zb).1
      ((s.sock x).conn.receive seg (s.pool.zb zb).len s.ticks n)
      (if (s.sock x).conn.Takes seg (s.pool.zb zb).len then [(s.pool.zb zb).pulled seg.hdrLen]
        else []) := by
  have hnot : (s.sock x).state ≠ .established →
      ¬ (s.sock x).conn.Takes seg (s.pool.zb zb).len := fun hne h => hne h.1
  unfold tcpReceive
  cases hst : (s.sock x).state with
  | listen =>
    rw [if_neg (hnot (by rw [hst]; decide))]
    exact receiveListen_spec cfg s x seg _ hst
  | synSent =>
    rw [if_neg (hnot (by rw [hst]; decide))]
    exact ⟨0, .inl rfl, receiveSynSent_spec cfg s x seg _ _ _ hst⟩
  | synReceived =>
    rw [if_neg (hnot (by rw [hst]; decide))]
    exact ⟨0, .inl rfl, receiveSynReceived_spec s x seg _ _ _ hst⟩
  | established => exact ⟨0, .inl rfl, receiveEstablished_spec cfg s x seg zb _ _ hst⟩
  | finWait1 =>
    rw [if_neg (hnot (by rw [hst]; decide))]
    exact ⟨0, .inl rfl, receiveFinWait1_spec cfg s x seg _ _ _ hst⟩
  | finWait2 =>
    have hconn : (s.sock x).conn.state = .finWait2 := hst
    rw [if_neg (hnot (by rw [hst]; decide))]
    refine ⟨0, .inl rfl, ?_⟩
    unfold Conn.receive
    simp only [hconn]
    split_ifs
    · exact receiveFin_spec cfg s x .timeWait
    · exact .refl s x
  | lastAck =>
    have hconn : (s.sock x).conn.state = .lastAck := hst
    rw [if_neg (hnot (by rw [hst]; decide))]
    refine ⟨0, .inl rfl, ?_⟩
    unfold Conn.receive
    simp only [hconn]
    split_ifs
    · exact .modify s x rfl rfl
    · exact .refl s x
  | closeWait | timeWait | closed | closing =>
    rw [if_neg (hnot (by rw [hst]; decide))]
    refine ⟨0, .inl rfl, ?_⟩
    unfold Conn.receive
    rw [show (s.sock x).conn.state = _ from hst]
    exact .refl s x

/-- **What a segment does**: nothing to any socket, or the socket that it is
    for reacts to it. -/
theorem tcpInput_spec {fuel : ℕ} {s s' : NetStack α σ} {zb : α}
    (h : tcpInput cfg fuel s zb = some s') :
    Transmitted s s' ∨ ∃ x n, (n = 0 ∨ n = 1) ∧ (s.pool.zb zb).Intact ∧
      tcpFindSocket s (s.pool.zb zb).segment fuel = some (some x) ∧
      Reacts x s s'
        ((s.sock x).conn.receive (s.pool.zb zb).segment (s.pool.zb zb).len s.ticks n)
        (if (s.sock x).conn.Takes (s.pool.zb zb).segment (s.pool.zb zb).len then
          [(s.pool.zb zb).pulled (s.pool.zb zb).segment.hdrLen] else []) := by
  rcases tcpInput_cases cfg h with rfl | ⟨seg, tcpLen, rfl⟩ | ⟨hz, x, hfind, s₁, rest, hrec, rfl⟩
  · exact .inl (.free s cfg zb)
  · exact .inl ((Transmitted.tcpSendRst cfg s seg tcpLen).trans (.free _ cfg zb))
  · obtain ⟨n, hn, hr⟩ := tcpReceive_spec cfg s x (s.pool.zb zb).segment zb
    rw [hrec] at hr
    refine .inr ⟨x, n, hn, hz, hfind, ?_⟩
    rcases rest with _ | zb'
    · exact hr
    · exact hr.then_transmitted (.free s₁ cfg zb')

end

end Gracemont
