/-
  Gracemont networking — TCP (`net/stack/tcp.c`, the same file in both ports).

  A segment lies in the memory of its buffer, with the IP header in the 20 bytes
  in front of it.  The lists of sockets are walked with a bound (`Lib.Loop`), as
  nothing in the code keeps them null-terminated; `none` is its exhaustion.

  * `tcpSendSegment`, `tcpSendRst`, `tcpOutput`: sending;
  * `tcpFindSocket`: the connection lookup;
  * `tcpReceive`: the state machine, `tcpInput` around it.
-/
import Gracemont.Lib.Loop
import Gracemont.Net.NetStack

namespace Gracemont

/-! ## Segments -/

def tcpFlagFin : BitVec 8 := 0x01
def tcpFlagSyn : BitVec 8 := 0x02
def tcpFlagRst : BitVec 8 := 0x04
def tcpFlagPsh : BitVec 8 := 0x08
def tcpFlagAck : BitVec 8 := 0x10

/-- `sizeof(tcp_hdr_t)` -/
def tcpHdrLen : ℕ := 20

/-- The flag `f` is set. -/
def hasFlag (flags f : BitVec 8) : Bool := flags &&& f ≠ 0

/-- What `tcp_input` reads of a segment and of the IP header. -/
structure TcpSegment where
  srcIp : BitVec 32
  dstIp : BitVec 32
  srcPort : BitVec 16
  dstPort : BitVec 16
  seq : BitVec 32
  ack : BitVec 32
  hdrLen : BitVec 8
  flags : BitVec 8

/-- The segment at `tcp`, with the IP header at `ip`. -/
def tcpSegmentAt (b : ℕ → BitVec 8) (ip tcp : ℕ) : TcpSegment where
  srcIp := be32 b (ip + 12)
  dstIp := be32 b (ip + 16)
  srcPort := be16 b tcp
  dstPort := be16 b (tcp + 2)
  seq := be32 b (tcp + 4)
  ack := be32 b (tcp + 8)
  hdrLen := (b (tcp + 12) >>> 4 &&& 0x0F#8) <<< 2
  flags := b (tcp + 13)

/-- The fields of a `tcp_hdr_t`, in order. -/
def tcpHdr (sport dport : BitVec 16) (seq ack : BitVec 32) (flags : BitVec 8) (win : BitVec 16) :
    List (BitVec 8) :=
  be16Bytes sport ++ be16Bytes dport ++ be32Bytes seq ++ be32Bytes ack ++ [5#8 <<< 4, flags] ++
    be16Bytes win ++ [0, 0] ++ [0, 0]

variable {α σ : Type} [DecidableEq α]

/-! ## Sending -/

section
variable (cfg : NetConfig α)

/-- The header of the RST that answers the segment `seg` of `tcpLen` bytes. -/
def rstHdr (seg : TcpSegment) (tcpLen : BitVec 16) : List (BitVec 8) :=
  let ackSeq := if hasFlag seg.flags tcpFlagSyn then seg.seq + 1 else seg.seq
  let ackSeq := if hasFlag seg.flags tcpFlagFin then ackSeq + 1 else ackSeq
  let ackSeq := ackSeq + (tcpLen.setWidth 32 - seg.hdrLen.setWidth 32)
  if hasFlag seg.flags tcpFlagAck then tcpHdr seg.dstPort seg.srcPort seg.ack 0 tcpFlagRst 0
  else tcpHdr seg.dstPort seg.srcPort 0 ackSeq (tcpFlagRst ||| tcpFlagAck) 0

/-- `tcp_send_rst`, for the incoming segment `seg` of `tcpLen` bytes. -/
def tcpSendRst (s : NetStack α σ) (seg : TcpSegment) (tcpLen : BitVec 16) : NetStack α σ :=
  match s.allocTx 0 with
  | (s, none) => s
  | (s, some zb) =>
    match zbufPush (s.pool.zb zb) tcpHdrLen with
    | none => s.free cfg zb
    | some (z, tcp) =>
      let s := s.setBuf zb { z with space := z.space.putBytes tcp (rstHdr seg tcpLen) }
      (ipOutput cfg s zb seg.dstIp seg.srcIp ipProtoTcp).1

/-- The buffer of a segment to send: the data, or a new one. -/
def segmentBuf (s : NetStack α σ) (data : Option α) : NetStack α σ × Option α :=
  match data with
  | some zb => (s, some zb)
  | none => s.allocTx 0

/-- The header of a segment of a socket. -/
def segmentHdr (k : Socket α σ) (flags : BitVec 8) : List (BitVec 8) :=
  tcpHdr k.localAddr.port k.remoteAddr.port k.sndNxt k.rcvNxt flags (k.rcvWnd.setWidth 16)

variable [DecidableEq σ]

/-- `tcp_send_segment` -/
def tcpSendSegment (s : NetStack α σ) (sock : σ) (flags : BitVec 8) (data : Option α) :
    NetStack α σ × Status :=
  match segmentBuf s data with
  | (s, none) => (s, .noMem)
  | (s, some zb) =>
    match zbufPush (s.pool.zb zb) tcpHdrLen with
    | none => (if data = none then s.free cfg zb else s, .noMem)
    | some (z, tcp) =>
      let k := s.sock sock
      let dataLen := z.len - tcpHdrLen
      let s := s.setBuf zb { z with space := z.space.putBytes tcp (segmentHdr k flags) }
      let s := s.modify sock fun k => { k with
        sndNxt := if hasFlag flags (tcpFlagSyn ||| tcpFlagFin) then k.sndNxt + 1 else k.sndNxt }
      let s := s.modify sock fun k => { k with sndNxt := k.sndNxt + dataLen.setWidth 32 }
      ipOutput cfg s zb k.localAddr.addr k.remoteAddr.addr ipProtoTcp

/-- `tcp_output` -/
def tcpOutput (s : NetStack α σ) (sock : σ) (zb : α) : NetStack α σ × Status :=
  if (s.sock sock).state ≠ .established then (s.free cfg zb, .error)
  else tcpSendSegment cfg s sock (tcpFlagAck ||| tcpFlagPsh) (some zb)

end

/-- The segment in a buffer. -/
def Zbuf.segment (z : Zbuf α) : TcpSegment := tcpSegmentAt z.space.byte (z.data - ipHdrLen) z.data

/-- The segment in a buffer is long enough, and its checksum is right. -/
def Zbuf.Intact (z : Zbuf α) : Prop :=
  tcpHdrLen ≤ z.len.toNat ∧ tcpChecksum z.space.byte (z.data - ipHdrLen) z.data z.len = 0

/-! ## Connection lookup -/

section
variable (s : NetStack α σ) (seg : TcpSegment)

/-- The socket is that of the connection of a segment. -/
def matchesConn (k : Socket α σ) : Bool :=
  k.localAddr.port = seg.dstPort ∧ k.remoteAddr.port = seg.srcPort ∧ k.remoteAddr.addr = seg.srcIp

/-- The body of a loop over a list of sockets, looking for one that meets `p`. -/
def findSockBody (p : Socket α σ → Bool) (cur : Option σ) : Option σ ⊕ Option σ :=
  match cur with
  | none => .inr none
  | some x => if p (s.sock x) then .inr (some x) else .inl (s.sock x).next

/-- `tcp_find_socket` -/
def tcpFindSocket (fuel : ℕ) : Option (Option σ) := do
  match ← Lib.Loop.run (findSockBody s (matchesConn seg)) fuel s.tcpConnList with
  | some x => some (some x)
  | none =>
    Lib.Loop.run (findSockBody s fun k => k.localAddr.port = seg.dstPort) fuel s.tcpListenList

end

/-! ## Input -/

section
variable [DecidableEq σ] (cfg : NetConfig α)

/-- `sem_post` of `rx_sem` and of `tx_sem` -/
def postRx (s : NetStack α σ) (sock : σ) : NetStack α σ :=
  s.modify sock fun k => { k with rxSem := k.rxSem + 1 }
def postTx (s : NetStack α σ) (sock : σ) : NetStack α σ :=
  s.modify sock fun k => { k with txSem := k.txSem + 1 }

/-- `zbuf_queue_push` on the receive queue of a socket. -/
def queueRx (s : NetStack α σ) (sock : σ) (zb : α) : NetStack α σ :=
  let (m, q) := zbufQueuePush s.pool.zb (s.sock sock).rxQueue zb
  let log := s.log ++ [NetEvent.queued sock zb (s.pool.zb zb)]
  let s := { s with pool := { s.pool with zb := m }, log := log }
  s.modify sock fun k => { k with rxQueue := q }

/-- The `TCP_LISTEN` case: the listening socket becomes the connection. -/
def receiveListen (s : NetStack α σ) (sock : σ) (seg : TcpSegment) : NetStack α σ :=
  if hasFlag seg.flags tcpFlagSyn then
    let s := s.modify sock fun k => { k with
      remoteAddr := ⟨seg.srcIp, seg.srcPort⟩
      rcvNxt := seg.seq + 1
      sndNxt := s.ticks
      sndUna := s.ticks
      state := .synReceived }
    (tcpSendSegment cfg s sock (tcpFlagSyn ||| tcpFlagAck) none).1
  else s

/-- The `TCP_SYN_SENT` case. -/
def receiveSynSent (s : NetStack α σ) (sock : σ) (seg : TcpSegment) : NetStack α σ :=
  if seg.flags &&& (tcpFlagSyn ||| tcpFlagAck) = tcpFlagSyn ||| tcpFlagAck then
    let s := s.modify sock fun k => { k with
      rcvNxt := seg.seq + 1, sndUna := seg.ack, state := .established }
    postTx (tcpSendSegment cfg s sock tcpFlagAck none).1 sock
  else s

/-- The `TCP_SYN_RECEIVED` case. -/
def receiveSynReceived (s : NetStack α σ) (sock : σ) (seg : TcpSegment) : NetStack α σ :=
  if hasFlag seg.flags tcpFlagAck then
    postRx (s.modify sock fun k => { k with sndUna := seg.ack, state := .established }) sock
  else s

/-- The data of a segment in `TCP_ESTABLISHED`; and its buffer, unless it was
    queued. -/
def receiveData (s : NetStack α σ) (sock : σ) (seg : TcpSegment) (zb : α) :
    NetStack α σ × Option α :=
  if seg.hdrLen.toNat < (s.pool.zb zb).len.toNat then
    let s := s.pull zb (seg.hdrLen.setWidth 16)
    if seg.seq = (s.sock sock).rcvNxt then
      let s := s.modify sock fun k => { k with
        rcvNxt := k.rcvNxt + (s.pool.zb zb).len.setWidth 32 }
      let s := postRx (queueRx s sock zb) sock
      ((tcpSendSegment cfg s sock tcpFlagAck none).1, none)
    else (s, some zb)
  else (s, some zb)

/-- A FIN: `rcv_nxt` advances, and the state is `state`. -/
def receiveFin (s : NetStack α σ) (sock : σ) (state : TcpState) : NetStack α σ :=
  let s := s.modify sock fun k => { k with rcvNxt := k.rcvNxt + 1, state := state }
  (tcpSendSegment cfg s sock tcpFlagAck none).1

/-- The `TCP_ESTABLISHED` case. -/
def receiveEstablished (s : NetStack α σ) (sock : σ) (seg : TcpSegment) (zb : α) :
    NetStack α σ × Option α :=
  let s := if hasFlag seg.flags tcpFlagAck then s.modify sock fun k => { k with sndUna := seg.ack }
    else s
  let (s, zb) := receiveData cfg s sock seg zb
  if hasFlag seg.flags tcpFlagFin then (postRx (receiveFin cfg s sock .closeWait) sock, zb)
  else (s, zb)

/-- The `TCP_FIN_WAIT_1` case. -/
def receiveFinWait1 (s : NetStack α σ) (sock : σ) (seg : TcpSegment) : NetStack α σ :=
  if hasFlag seg.flags tcpFlagAck then
    let s := s.modify sock fun k => { k with sndUna := seg.ack }
    if hasFlag seg.flags tcpFlagFin then receiveFin cfg s sock .timeWait
    else s.modify sock fun k => { k with state := .finWait2 }
  else s

/-- The state machine of `tcp_input`; and the buffer, unless it was queued. -/
def tcpReceive (s : NetStack α σ) (sock : σ) (seg : TcpSegment) (zb : α) :
    NetStack α σ × Option α :=
  match (s.sock sock).state with
  | .listen => (receiveListen cfg s sock seg, some zb)
  | .synSent => (receiveSynSent cfg s sock seg, some zb)
  | .synReceived => (receiveSynReceived s sock seg, some zb)
  | .established => receiveEstablished cfg s sock seg zb
  | .finWait1 => (receiveFinWait1 cfg s sock seg, some zb)
  | .finWait2 =>
    (if hasFlag seg.flags tcpFlagFin then receiveFin cfg s sock .timeWait else s, some zb)
  | .lastAck =>
    (if hasFlag seg.flags tcpFlagAck then s.modify sock fun k => { k with state := .closed }
      else s, some zb)
  | .closeWait | .timeWait | .closed | .closing => (s, some zb)

/-- `tcp_input` -/
def tcpInput (fuel : ℕ) (s : NetStack α σ) (zb : α) : Option (NetStack α σ) :=
  let z := s.pool.zb zb
  if z.len.toNat < tcpHdrLen then some (s.free cfg zb)
  else if tcpChecksum z.space.byte (z.data - ipHdrLen) z.data z.len ≠ 0 then some (s.free cfg zb)
  else do
    let seg := z.segment
    match ← tcpFindSocket s seg fuel with
    | none =>
      let s := if hasFlag seg.flags tcpFlagRst then s else tcpSendRst cfg s seg z.len
      some (s.free cfg zb)
    | some sock =>
      match tcpReceive cfg s sock seg zb with
      | (s, some zb) => some (s.free cfg zb)
      | (s, none) => some s

/-- **What `tcp_input` does**: it frees the segment, it sends a RST and frees
    it, or the state machine of the socket found receives it. -/
theorem tcpInput_cases {fuel : ℕ} {s s' : NetStack α σ} {zb : α}
    (h : tcpInput cfg fuel s zb = some s') :
    s' = s.free cfg zb ∨
      (∃ seg tcpLen, s' = (tcpSendRst cfg s seg tcpLen).free cfg zb) ∨
      (s.pool.zb zb).Intact ∧ ∃ sock,
        tcpFindSocket s (s.pool.zb zb).segment fuel = some (some sock) ∧
          ∃ s₁ rest, tcpReceive cfg s sock (s.pool.zb zb).segment zb = (s₁, rest) ∧
            s' = rest.elim s₁ (s₁.free cfg) := by
  unfold tcpInput at h
  simp only at h
  by_cases hlen : (s.pool.zb zb).len.toNat < tcpHdrLen
  · rw [if_pos hlen] at h
    exact .inl (Option.some.inj h).symm
  rw [if_neg hlen] at h
  by_cases hsum : tcpChecksum (s.pool.zb zb).space.byte ((s.pool.zb zb).data - ipHdrLen)
      (s.pool.zb zb).data (s.pool.zb zb).len ≠ 0
  · rw [if_pos hsum] at h
    exact .inl (Option.some.inj h).symm
  rw [if_neg hsum] at h
  obtain ⟨found, hfound, h⟩ := Option.bind_eq_some_iff.1 h
  rcases found with _ | sock
  · by_cases hrst : hasFlag (s.pool.zb zb).segment.flags tcpFlagRst = true
    · simp only [if_pos hrst] at h
      exact .inl (Option.some.inj h).symm
    · simp only [if_neg hrst] at h
      exact .inr (.inl ⟨_, _, (Option.some.inj h).symm⟩)
  · rcases hrec : tcpReceive cfg s sock (s.pool.zb zb).segment zb with ⟨s₁, rest⟩
    have hintact : (s.pool.zb zb).Intact := ⟨Nat.le_of_not_lt hlen, not_not.1 hsum⟩
    refine .inr (.inr ⟨hintact, sock, hfound, s₁, rest, hrec, ?_⟩)
    simp only [hrec] at h
    rcases rest with _ | zb'
    · exact (Option.some.inj h).symm
    · exact (Option.some.inj h).symm

end

end Gracemont
