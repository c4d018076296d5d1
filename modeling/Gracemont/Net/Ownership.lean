/-
  Gracemont networking — ownership of buffers.

  `zbuf_alloc_tx` gives a buffer; `zbuf_free`, the driver and a receive queue
  take one.  `Moves s s' f g` says that between `s` and `s'` the stack turned
  the buffers `f` that it owned into `g`, by the events in the log.

  * `Moves.ethOutput`, …, `Moves.udpOutput`: the transmit path takes its buffer
    and leaves none behind; so does sending a segment, unless there is no room
    for the TCP header in front of the data (`Moves.tcpSendSegment`);
  * `Moves.tcpReceive`, …, `Moves.netifInput`: so does the receive path;
  * `netifInput_returns_iff`: the frames for which `netif_input` returns;
  * `rx_buffer_ownership_iff`: the frames whose buffer it takes.
-/
import Gracemont.Lib.Ledger
import Gracemont.Net.IpDelivery
import Gracemont.Net.TcpLookup
import Gracemont.Net.Transmit

namespace Gracemont

variable {α σ : Type}

/-- Which events give a buffer to the stack, and which take one from it. -/
def bufferLedger : Lib.Ledger α (NetEvent α σ) where
  acquire
    | .allocated zb => some zb
    | .freed _ | .sent _ _ | .queued _ _ _ => none
  release
    | .allocated _ => none
    | .freed zb | .sent zb _ | .queued _ zb _ => some zb

/-- Nothing, or a buffer. -/
def owned [DecidableEq α] : Option α → α → ℕ
  | none => 0
  | some zb => Lib.Ledger.unit zb

/-- Between `s` and `s'` the stack turned the buffers `f` into `g`. -/
def Moves [DecidableEq α] (s s' : NetStack α σ) (f g : α → ℕ) : Prop :=
  ∃ new, s'.log = s.log ++ new ∧ bufferLedger.Transfer f g new

namespace Moves
variable [DecidableEq α] {s s' s'' : NetStack α σ} {f g h : α → ℕ}

theorem of_log_eq (hlog : s'.log = s.log) (f : α → ℕ) : Moves s s' f f :=
  ⟨[], by rw [hlog, List.append_nil], .nil f⟩

theorem trans (h₁ : Moves s s' f g) (h₂ : Moves s' s'' g h) : Moves s s'' f h := by
  obtain ⟨new, hnew, ht⟩ := h₁
  obtain ⟨new', hnew', ht'⟩ := h₂
  exact ⟨new ++ new', by rw [hnew', hnew, List.append_assoc], ht.append ht'⟩

/-- What needs no buffer leaves those that there are. -/
theorem keep (h₁ : Moves s s' 0 0) (f : α → ℕ) : Moves s s' f f := by
  obtain ⟨new, hnew, ht⟩ := h₁
  have hf := ht.frame f
  rw [zero_add] at hf
  exact ⟨new, hnew, hf⟩

/-- A new buffer next to what there is. -/
theorem beside {zb : α} (h₁ : Moves s s' 0 (owned (some zb)))
    (h₂ : Moves s' s'' (owned (some zb)) 0) (f : α → ℕ) : Moves s s'' f f :=
  (h₁.trans h₂).keep f

theorem allocTx (s : NetStack α σ) (size : BitVec 16) :
    Moves s (s.allocTx size).1 0 (owned (s.allocTx size).2) := by
  refine ⟨_, rfl, ?_⟩
  show bufferLedger.Transfer 0 (owned (zbufAllocTx s.pool size).2) _
  rcases (zbufAllocTx s.pool size).2 with _ | zb
  · exact .nil 0
  · exact .acquire rfl rfl

theorem free (s : NetStack α σ) (cfg : NetConfig α) (zb : α) :
    Moves s (s.free cfg zb) (owned (some zb)) 0 := ⟨_, rfl, .release rfl rfl⟩

theorem send (s : NetStack α σ) (nif : IpNetif α) (zb : α) :
    Moves s (s.send nif zb).1 (owned (some zb)) 0 := ⟨_, rfl, .release rfl rfl⟩

theorem pull (s : NetStack α σ) (zb : α) (len : BitVec 16) :
    Moves s (s.pull zb len) (owned (some zb)) (owned (some zb)) := by
  unfold NetStack.pull
  rcases zbufPull (s.pool.zb zb) len with _ | ⟨z, p⟩
  · exact of_log_eq rfl _
  · exact of_log_eq rfl _

/-- Assignments to a buffer, before what happens to it. -/
theorem setBuf_then {zb : α} {z : Zbuf α} (h₁ : Moves (s.setBuf zb z) s' f g) : Moves s s' f g := by
  have hset : Moves s (s.setBuf zb z) f f := of_log_eq rfl f
  exact hset.trans h₁

variable (cfg : NetConfig α)

/-! ## Transmit path -/

theorem ethOutput (nif : IpNetif α) (s : NetStack α σ) (zb : α) (dstMac : Fin 6 → BitVec 8)
    (type : BitVec 16) : Moves s (ethOutput cfg nif s zb dstMac type).1 (owned (some zb)) 0 := by
  unfold Gracemont.ethOutput
  rcases zbufPush (s.pool.zb zb) ethHdrLen with _ | ⟨z, eth⟩
  · exact free s cfg zb
  · exact setBuf_then (send _ nif zb)

theorem arpResolve (s : NetStack α σ) (ip : BitVec 32) : Moves s (arpResolve cfg s ip).1 0 0 := by
  unfold Gracemont.arpResolve
  rcases arpFind ip s.arpCache with _ | e
  · rcases cfg.netifDefault with _ | nif
    · exact of_log_eq rfl 0
    · have halloc := allocTx s arpHdrLen
      generalize s.allocTx arpHdrLen = r at halloc ⊢
      rcases r with ⟨s₁, _ | zb⟩
      · exact halloc
      · exact halloc.trans (setBuf_then (ethOutput cfg nif _ zb _ _))
  · exact of_log_eq rfl 0

theorem ipOutput (s : NetStack α σ) (zb : α) (src dst : BitVec 32) (proto : BitVec 8) :
    Moves s (ipOutput cfg s zb src dst proto).1 (owned (some zb)) 0 := by
  unfold Gracemont.ipOutput
  rcases cfg.netifDefault with _ | nif
  · exact free s cfg zb
  simp only
  rcases zbufPush (s.pool.zb zb) ipHdrLen with _ | ⟨z, ip⟩
  · exact free s cfg zb
  simp only
  generalize hz : ({ z with space := _ } : Zbuf α) = z₁
  generalize hs : ({ s.setBuf zb z₁ with ipId := s.ipId + 1 } : NetStack α σ) = s₁
  have h₁ : Moves s s₁ (owned (some zb)) (owned (some zb)) := of_log_eq (hs ▸ rfl) _
  split_ifs
  · exact h₁.trans (ethOutput cfg nif s₁ zb _ _)
  · have hr := h₁.trans ((arpResolve cfg s₁ (nextHop nif dst)).keep _)
    generalize Gracemont.arpResolve cfg s₁ (nextHop nif dst) = r at hr ⊢
    rcases r with ⟨s₂, st, mac⟩
    cases st
    case ok => exact hr.trans (ethOutput cfg nif s₂ zb mac _)
    all_goals exact hr.trans (free s₂ cfg zb)

theorem udpOutput (s : NetStack α σ) (zb : α) (src dst : Sockaddr) :
    Moves s (udpOutput cfg s zb src dst).1 (owned (some zb)) 0 := by
  unfold Gracemont.udpOutput
  rcases zbufPush (s.pool.zb zb) udpHdrLen with _ | ⟨z, udp⟩
  · exact free s cfg zb
  · exact setBuf_then (ipOutput cfg _ zb _ _ _)

theorem tcpSendRst (s : NetStack α σ) (seg : TcpSegment) (tcpLen : BitVec 16) :
    Moves s (tcpSendRst cfg s seg tcpLen) 0 0 := by
  unfold Gracemont.tcpSendRst
  have halloc := allocTx s 0
  generalize s.allocTx 0 = r at halloc ⊢
  rcases r with ⟨s₁, _ | zb⟩
  · exact halloc
  simp only
  rcases zbufPush (s₁.pool.zb zb) tcpHdrLen with _ | ⟨z, tcp⟩
  · exact halloc.trans (free s₁ cfg zb)
  · exact halloc.trans (setBuf_then (ipOutput cfg _ zb _ _ _))

variable [DecidableEq σ]

/-- A segment without data takes nothing. -/
theorem tcpSendSegment_none (s : NetStack α σ) (sock : σ) (flags : BitVec 8) :
    Moves s (tcpSendSegment cfg s sock flags none).1 0 0 := by
  unfold Gracemont.tcpSendSegment segmentBuf
  simp only
  have halloc := allocTx s 0
  generalize s.allocTx 0 = r at halloc ⊢
  rcases r with ⟨s₁, _ | zb⟩
  · exact halloc
  simp only
  rcases zbufPush (s₁.pool.zb zb) tcpHdrLen with _ | ⟨z, tcp⟩
  · exact halloc.trans (free s₁ cfg zb)
  · exact halloc.trans ((of_log_eq rfl _).trans (ipOutput cfg _ zb _ _ _))

/-- A segment with data takes the data if the header fits in front of it. -/
theorem tcpSendSegment_some (s : NetStack α σ) (sock : σ) (flags : BitVec 8) {zb : α}
    (hfit : tcpHdrLen ≤ (s.pool.zb zb).data) :
    Moves s (tcpSendSegment cfg s sock flags (some zb)).1 (owned (some zb)) 0 := by
  unfold Gracemont.tcpSendSegment segmentBuf
  have hpush : ¬ (s.pool.zb zb).data < zbufHead + (tcpHdrLen : BitVec 16).toNat := by
    have h20 : zbufHead + (tcpHdrLen : BitVec 16).toNat = tcpHdrLen := rfl
    omega
  simp only [zbufPush, if_neg hpush]
  exact (of_log_eq rfl _).trans (ipOutput cfg _ zb _ _ _)

/-! ## Receive path -/

omit [DecidableEq σ] in
/-- Steps that only change fields of sockets. -/
theorem then_sock {sock : Lib.Store σ (Socket α σ)} (h₁ : Moves s s' f g) :
    Moves s { s' with sock := sock } f g := h₁.trans (of_log_eq rfl g)

theorem queueRx (s : NetStack α σ) (sock : σ) (zb : α) :
    Moves s (queueRx s sock zb) (owned (some zb)) 0 := ⟨_, rfl, .release rfl rfl⟩

theorem receiveListen (s : NetStack α σ) (sock : σ) (seg : TcpSegment) :
    Moves s (receiveListen cfg s sock seg) 0 0 := by
  unfold Gracemont.receiveListen
  split_ifs
  · exact (of_log_eq rfl 0).trans (tcpSendSegment_none cfg _ sock _)
  · exact of_log_eq rfl 0

theorem receiveSynSent (s : NetStack α σ) (sock : σ) (seg : TcpSegment) :
    Moves s (receiveSynSent cfg s sock seg) 0 0 := by
  unfold Gracemont.receiveSynSent
  split_ifs
  · exact then_sock ((of_log_eq rfl 0).trans (tcpSendSegment_none cfg _ sock _))
  · exact of_log_eq rfl 0

theorem receiveSynReceived (s : NetStack α σ) (sock : σ) (seg : TcpSegment) :
    Moves s (receiveSynReceived s sock seg) 0 0 := by
  unfold Gracemont.receiveSynReceived
  split_ifs
  · exact of_log_eq rfl 0
  · exact of_log_eq rfl 0

theorem receiveFin (s : NetStack α σ) (sock : σ) (state : TcpState) :
    Moves s (receiveFin cfg s sock state) 0 0 :=
  (of_log_eq rfl 0).trans (tcpSendSegment_none cfg _ sock _)

theorem receiveFinWait1 (s : NetStack α σ) (sock : σ) (seg : TcpSegment) :
    Moves s (receiveFinWait1 cfg s sock seg) 0 0 := by
  unfold Gracemont.receiveFinWait1
  split_ifs
  · exact (of_log_eq rfl 0).trans (receiveFin cfg _ sock _)
  · exact of_log_eq rfl 0
  · exact of_log_eq rfl 0

/-- The data of a segment is queued, or the buffer is left. -/
theorem receiveData (s : NetStack α σ) (sock : σ) (seg : TcpSegment) (zb : α) :
    Moves s (receiveData cfg s sock seg zb).1 (owned (some zb))
      (owned (receiveData cfg s sock seg zb).2) := by
  unfold Gracemont.receiveData
  split_ifs with hlen
  · have h₁ := pull s zb (seg.hdrLen.setWidth 16)
    generalize s.pull zb (seg.hdrLen.setWidth 16) = s₁ at h₁ ⊢
    by_cases hseq : seg.seq = (s₁.sock sock).rcvNxt
    · simp only [if_pos hseq]
      generalize hm : s₁.modify sock _ = s₂
      have hq : Moves s (Gracemont.queueRx s₂ sock zb) (owned (some zb)) 0 :=
        (h₁.trans (of_log_eq (hm ▸ rfl) _)).trans (queueRx s₂ sock zb)
      exact (then_sock hq).trans (tcpSendSegment_none cfg _ sock _)
    · simp only [if_neg hseq]
      exact h₁
  · exact of_log_eq rfl _

theorem receiveEstablished (s : NetStack α σ) (sock : σ) (seg : TcpSegment) (zb : α) :
    Moves s (receiveEstablished cfg s sock seg zb).1 (owned (some zb))
      (owned (receiveEstablished cfg s sock seg zb).2) := by
  unfold Gracemont.receiveEstablished
  generalize hs : (if hasFlag seg.flags tcpFlagAck then
    s.modify sock fun k => { k with sndUna := seg.ack } else s) = s₁
  have h₁ : s₁.log = s.log := by
    rw [← hs]
    split_ifs
    · rfl
    · rfl
  have hdata := (of_log_eq h₁ _).trans (receiveData cfg s₁ sock seg zb)
  by_cases hfin : hasFlag seg.flags tcpFlagFin = true
  · simp only [if_pos hfin]
    exact then_sock (hdata.trans ((receiveFin cfg _ sock _).keep _))
  · simp only [if_neg hfin]
    exact hdata

/-- The state machine leaves the buffer, or has queued it. -/
theorem tcpReceive (s : NetStack α σ) (sock : σ) (seg : TcpSegment) (zb : α) :
    Moves s (tcpReceive cfg s sock seg zb).1 (owned (some zb))
      (owned (tcpReceive cfg s sock seg zb).2) := by
  unfold Gracemont.tcpReceive
  cases (s.sock sock).state
  case listen => exact (receiveListen cfg s sock seg).keep _
  case synSent => exact (receiveSynSent cfg s sock seg).keep _
  case synReceived => exact (receiveSynReceived s sock seg).keep _
  case established => exact receiveEstablished cfg s sock seg zb
  case finWait1 => exact (receiveFinWait1 cfg s sock seg).keep _
  case finWait2 =>
    simp only
    split_ifs
    · exact (receiveFin cfg s sock _).keep _
    · exact of_log_eq rfl _
  case lastAck =>
    simp only
    split_ifs
    · exact of_log_eq rfl _
    · exact of_log_eq rfl _
  all_goals exact of_log_eq rfl _

theorem tcpInput {fuel : ℕ} {s s' : NetStack α σ} {zb : α}
    (hin : tcpInput cfg fuel s zb = some s') : Moves s s' (owned (some zb)) 0 := by
  rcases tcpInput_cases cfg hin with rfl | ⟨seg, tcpLen, rfl⟩ | ⟨-, sock, -, s₁, rest, hrec, rfl⟩
  · exact free s cfg zb
  · exact ((tcpSendRst cfg s seg tcpLen).keep _).trans (free _ cfg zb)
  · have h₁ := tcpReceive cfg s sock (s.pool.zb zb).segment zb
    rw [hrec] at h₁
    rcases rest with _ | zb'
    · exact h₁
    · exact h₁.trans (free s₁ cfg zb')

omit [DecidableEq σ] in
theorem arpInput (nif : IpNetif α) (s : NetStack α σ) (zb : α) :
    Moves s (arpInput cfg nif s zb) (owned (some zb)) 0 := by
  unfold Gracemont.arpInput arpReply
  simp only
  split_ifs
  · exact free s cfg zb
  · exact free s cfg zb
  · generalize hs : ({ s with arpCache := _ } : NetStack α σ) = s₁
    have h₁ : Moves s s₁ 0 0 := of_log_eq (hs ▸ rfl) 0
    have halloc := h₁.trans (allocTx s₁ arpHdrLen)
    generalize s₁.allocTx arpHdrLen = r at halloc ⊢
    rcases r with ⟨s₂, _ | reply⟩
    · exact (halloc.keep _).trans (free s₂ cfg zb)
    · exact (halloc.beside (setBuf_then (ethOutput cfg nif _ reply _ _)) _).trans (free _ cfg zb)
  · exact (of_log_eq rfl _).trans (free _ cfg zb)

omit [DecidableEq σ] in
theorem icmpInput (s : NetStack α σ) (zb : α) :
    Moves s (icmpInput cfg s zb) (owned (some zb)) 0 := by
  unfold Gracemont.icmpInput
  simp only
  split_ifs
  · exact free s cfg zb
  · exact setBuf_then (ipOutput cfg _ zb _ _ _)
  · exact free s cfg zb

theorem udpInput (s : NetStack α σ) (zb : α) :
    Moves s (udpInput cfg s zb) (owned (some zb)) 0 := by
  unfold Gracemont.udpInput
  simp only
  split_ifs
  · exact free s cfg zb
  · rcases udpFindSocket s _ with _ | sock
    · exact free s cfg zb
    · simp only
      generalize hm : s.modify sock _ = s₁
      have h₁ : Moves s s₁ (owned (some zb)) (owned (some zb)) := of_log_eq (hm ▸ rfl) _
      exact then_sock ((h₁.trans (pull s₁ zb _)).trans (queueRx _ sock zb))

theorem ipDispatch {fuel : ℕ} {s s' : NetStack α σ} {zb : α} {proto : BitVec 8}
    (hin : ipDispatch cfg fuel s zb proto = some s') : Moves s s' (owned (some zb)) 0 := by
  unfold Gracemont.ipDispatch at hin
  split_ifs at hin
  · cases hin
    exact icmpInput cfg s zb
  · cases hin
    exact udpInput cfg s zb
  · exact tcpInput cfg hin
  · cases hin
    exact free s cfg zb

theorem ipInput {fuel : ℕ} {nif : IpNetif α} {s s' : NetStack α σ} {zb : α}
    (hin : ipInput cfg fuel nif s zb = some s') : Moves s s' (owned (some zb)) 0 := by
  unfold Gracemont.ipInput at hin
  simp only at hin
  split_ifs at hin
  · cases hin
    exact free s cfg zb
  · cases hin
    exact free s cfg zb
  · cases hin
    exact free s cfg zb
  · exact (setBuf_then (pull _ zb _)).trans (ipDispatch cfg hin)

/-- **The receive path** takes the frame, and leaves nothing behind. -/
theorem netifInput {fuel : ℕ} {nif : IpNetif α} {s s' : NetStack α σ} {zb : α}
    (hin : netifInput cfg fuel nif s zb = some s') : Moves s s' (owned (some zb)) 0 := by
  unfold Gracemont.netifInput at hin
  simp only at hin
  split_ifs at hin
  · cases hin
    exact free s cfg zb
  · exact (setBuf_then (pull _ zb _)).trans (ipInput cfg hin)
  · cases hin
    exact (setBuf_then (pull _ zb _)).trans (arpInput cfg nif _ zb)
  · cases hin
    exact (setBuf_then (pull _ zb _)).trans (free _ cfg zb)

end Moves

/-! ## Termination -/

/-- The frame brings an intact segment to `tcp_find_socket`. -/
structure Zbuf.TcpArrives (z : Zbuf α) (nif : IpNetif α) : Prop where
  len : ethHdrLen ≤ z.len.toNat
  type : be16 z.space.byte (z.data + 12) = ethTypeIp
  taken : z.stripEth.IpTaken nif
  proto : z.stripEth.ipProto = ipProtoTcp
  intact : z.stripEth.stripIp.Intact

section
variable [DecidableEq α] [DecidableEq σ] (cfg : NetConfig α) {s : NetStack α σ}
  {conns listeners : List σ}

/-- Both lists of sockets are null-terminated. -/
def SocketLists (s : NetStack α σ) (conns listeners : List σ) : Prop :=
  Lib.Path (s.sock.field Socket.next) s.tcpConnList conns ∧
    Lib.Path (s.sock.field Socket.next) s.tcpListenList listeners

omit [DecidableEq α] [DecidableEq σ] in
theorem SocketLists.lookupEnds (h : SocketLists s conns listeners) (seg : TcpSegment) :
    LookupEnds s seg := by
  obtain ⟨fuel, hfind⟩ := tcpFindSocket_find h.1 h.2 seg
  exact tcpFindSocket_returns_iff.1 ⟨fuel, _, hfind⟩

omit [DecidableEq α] [DecidableEq σ] in
/-- The lookup depends on the sockets and their lists only. -/
theorem Transmitted.lookupEnds {s' : NetStack α σ} {seg : TcpSegment} (h : Transmitted s s') :
    LookupEnds s' seg ↔ LookupEnds s seg := by
  unfold LookupEnds WalkEnds FirstMatch NoMatch
  rw [h.sock, h.tcpConnList, h.tcpListenList]

/-- `tcp_input` returns unless its lookup does not. -/
theorem tcpInput_returns_iff (zb : α) : (∃ fuel s', tcpInput cfg fuel s zb = some s') ↔
    ((s.pool.zb zb).Intact → LookupEnds s (s.pool.zb zb).segment) := by
  constructor
  · rintro ⟨fuel, s', h⟩ ⟨hlen, hsum⟩
    unfold tcpInput at h
    simp only at h
    rw [if_neg (Nat.not_lt.2 hlen), if_neg (not_not.2 hsum)] at h
    obtain ⟨r, hr, -⟩ := Option.bind_eq_some_iff.1 h
    exact tcpFindSocket_returns_iff.1 ⟨fuel, r, hr⟩
  · intro h
    unfold tcpInput
    simp only
    by_cases hlen : (s.pool.zb zb).len.toNat < tcpHdrLen
    · exact ⟨0, _, if_pos hlen⟩
    by_cases hsum : tcpChecksum (s.pool.zb zb).space.byte ((s.pool.zb zb).data - ipHdrLen)
        (s.pool.zb zb).data (s.pool.zb zb).len ≠ 0
    · exact ⟨0, _, (if_neg hlen).trans (if_pos hsum)⟩
    obtain ⟨fuel, found, hfound⟩ :=
      tcpFindSocket_returns_iff.2 (h ⟨Nat.le_of_not_lt hlen, not_not.1 hsum⟩)
    refine ⟨fuel, ?_⟩
    rw [if_neg hlen, if_neg hsum]
    rcases found with _ | sock
    · simp only [hfound, Option.bind_eq_bind, Option.bind_some]
      exact ⟨_, rfl⟩
    · rcases hrec : tcpReceive cfg s sock (s.pool.zb zb).segment zb with ⟨s₁, _ | zb'⟩
      all_goals
        simp only [hfound, Option.bind_eq_bind, Option.bind_some, hrec]
        exact ⟨_, rfl⟩

theorem ipInput_returns_iff (nif : IpNetif α) (zb : α) :
    (∃ fuel s', ipInput cfg fuel nif s zb = some s') ↔
      ((s.pool.zb zb).IpTaken nif → (s.pool.zb zb).ipProto = ipProtoTcp →
        (s.pool.zb zb).stripIp.Intact → LookupEnds s (s.pool.zb zb).stripIp.segment) := by
  by_cases htaken : (s.pool.zb zb).IpTaken nif
  swap
  · simp [ipInput_dropped cfg _ nif s zb htaken, htaken]
  simp only [ipInput_taken cfg _ nif s zb htaken, htaken, true_imp_iff]
  by_cases htcp : (s.pool.zb zb).ipProto = ipProtoTcp
  · have hdispatch : ∀ fuel, ipDispatch cfg fuel (s.setBuf zb (s.pool.zb zb).stripIp) zb
        ipProtoTcp = tcpInput cfg fuel (s.setBuf zb (s.pool.zb zb).stripIp) zb := fun _ => rfl
    simp only [htcp, hdispatch, tcpInput_returns_iff, NetStack.setBuf_zb_self, true_imp_iff]
    exact imp_congr_right fun _ => (Transmitted.setBuf s zb _).lookupEnds
  · refine iff_of_true ⟨0, ?_⟩ fun h => absurd h htcp
    unfold ipDispatch
    rw [if_neg htcp]
    split_ifs
    all_goals exact ⟨_, rfl⟩

/-- **When `netif_input` returns.** -/
theorem netifInput_returns_iff (nif : IpNetif α) (zb : α) :
    (∃ fuel s', netifInput cfg fuel nif s zb = some s') ↔
      ((s.pool.zb zb).TcpArrives nif →
        LookupEnds s (s.pool.zb zb).stripEth.stripIp.segment) := by
  by_cases hlen : (s.pool.zb zb).len.toNat < ethHdrLen
  · exact iff_of_true ⟨0, _, if_pos hlen⟩ fun h => absurd h.len (Nat.not_le.2 hlen)
  by_cases htype : be16 (s.pool.zb zb).space.byte ((s.pool.zb zb).data + 12) = ethTypeIp
  · simp only [netifInput_ip cfg _ nif rfl (Nat.le_of_not_lt hlen) htype, ipInput_returns_iff,
      NetStack.setBuf_zb_self, (Transmitted.setBuf s zb _).lookupEnds]
    exact ⟨fun h harr => h harr.taken harr.proto harr.intact,
      fun h ht hp hi => h ⟨Nat.le_of_not_lt hlen, htype, ht, hp, hi⟩⟩
  · refine iff_of_true ⟨0, ?_⟩ fun h => absurd h.type htype
    unfold netifInput
    simp only
    rw [if_neg hlen, if_neg htype]
    split_ifs
    all_goals exact ⟨_, rfl⟩

/-- **A buffer is consumed** by what was logged after `s`: it is released whenever it
    is owned and not kept, and so once unless `zbuf_alloc_tx` returns it meanwhile;
    and what is allocated is not kept either. -/
def Consumed (zb : α) (s s' : NetStack α σ) : Prop :=
  ∃ new, s'.log = s.log ++ new ∧ bufferLedger.Transfer (owned (some zb)) 0 new ∧
    (NetEvent.allocated zb ∉ new → new.countP (fun e => bufferLedger.release e = some zb) = 1)

/-- Where `netif_input` returns, it has consumed the frame. -/
theorem netifInput_consumed {fuel : ℕ} {nif : IpNetif α} {s' : NetStack α σ} {zb : α}
    (hin : netifInput cfg fuel nif s zb = some s') : Consumed zb s s' := by
  obtain ⟨new, hnew, ht⟩ := Moves.netifInput cfg hin
  refine ⟨new, hnew, ht, fun halloc => ?_⟩
  have hcount := ht.count zb
  have hown : owned (some zb) zb = 1 := Pi.single_eq_same zb 1
  have hacq : new.countP (fun e => bufferLedger.acquire e = some zb) = 0 := by
    refine List.countP_eq_zero.2 fun e he hacq => halloc ?_
    cases e with
    | allocated zb' =>
      obtain rfl : zb' = zb := by simpa [bufferLedger] using hacq
      exact he
    | freed | sent | queued => simp [bufferLedger] at hacq
  rw [hown, hacq, Pi.zero_apply] at hcount
  omega

/-- **Ownership of received buffers.**  `netif_input` consumes the frame, exactly if
    the lookup of the socket comes to an end where the frame is a TCP segment. -/
theorem rx_buffer_ownership_iff (s : NetStack α σ) (nif : IpNetif α) (zb : α) :
    ((∃ fuel s', netifInput cfg fuel nif s zb = some s') ∧
      ∀ fuel s', netifInput cfg fuel nif s zb = some s' → Consumed zb s s') ↔
    ((s.pool.zb zb).TcpArrives nif →
      LookupEnds s (s.pool.zb zb).stripEth.stripIp.segment) :=
  ⟨fun h => (netifInput_returns_iff cfg nif zb).1 h.1,
    fun h => ⟨(netifInput_returns_iff cfg nif zb).2 h, fun _ _ => netifInput_consumed cfg⟩⟩

end

/-- The socket 0 listens, after two calls of `sock_listen`. -/
def demoListenTwice : NetStack (Fin 2) (Fin 2) :=
  let s := { demoStack with socketTable := fun i => if i = 0 then some 0 else none }
  (sockListen (sockListen s 0).1 0).1

/-- A SYN from port 1024 of 10.0.0.2 to port 81 of 10.0.0.1, in a frame. -/
def demoSynFrame : Zbuf (Fin 2) :=
  demoFrame 100 ([2, 2, 2, 2, 2, 2, 3, 3, 3, 3, 3, 3, 8, 0] ++
    [0x45, 0, 0, 40, 0, 0, 0, 0, 64, 6, 0x66, 0xCE] ++ [10, 0, 0, 2, 10, 0, 0, 1] ++
    [4, 0, 0, 81, 0, 0, 0, 100, 0, 0, 0, 0, 0x50, 2, 0xFF, 0xFF, 0x7D, 0x45, 0, 0])

/-- **The list of listeners in a circle**: no listener has the port, and the lookup goes
    round for ever. -/
theorem listen_twice_keeps_frame : ¬ ((∃ fuel s', netifInput demoNet fuel demoNif
      (demoListenTwice.setBuf 0 demoSynFrame) 0 = some s') ∧
    ∀ fuel s', netifInput demoNet fuel demoNif (demoListenTwice.setBuf 0 demoSynFrame) 0 = some s' →
      Consumed 0 (demoListenTwice.setBuf 0 demoSynFrame) s') := by
  rintro ⟨hreturns, -⟩
  have hbuf : (demoListenTwice.setBuf 0 demoSynFrame).pool.zb 0 = demoSynFrame :=
    NetStack.setBuf_zb_self ..
  have harrives : demoSynFrame.TcpArrives demoNif :=
    ⟨by decide, by decide, ⟨by decide, by decide, by decide⟩, by decide, by decide, by decide⟩
  have hends := (netifInput_returns_iff demoNet demoNif 0).1 hreturns
  rw [hbuf] at hends
  obtain ⟨fuel, r, hfind⟩ := tcpFindSocket_returns_iff.2 (hends harrives)
  obtain ⟨found, hconn, hlisten⟩ := Option.bind_eq_some_iff.1 hfind
  obtain rfl : found = none := Lib.Loop.run_unique hconn (m := 1) rfl
  have hfixed : findSockBody (demoListenTwice.setBuf 0 demoSynFrame) (fun k =>
      k.localAddr.port = demoSynFrame.stripEth.stripIp.segment.dstPort) (some 0) =
        .inl (some 0) := by decide
  cases (Lib.Loop.run_of_fixed hfixed fuel).symm.trans hlisten

end Gracemont
