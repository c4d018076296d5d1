/-
  Gracemont networking — what every call of the stack sends.

  All frames come from `ip_output`, or from the two functions of ARP.  So a
  property of the frames that these three send is one of all frames that a call
  sends: the calls of the socket API but `sock_sendto`, the TCP timer, and the
  reactions to received frames.

  * `StackFrames`: the property for the three sources;
  * `StackFrames.call`, `StackFrames.netifInput`: the property for the calls.
-/
import Gracemont.Net.EthFrame
import Gracemont.Net.SendLength
import Gracemont.Net.SocketRun

namespace Gracemont

variable {α σ : Type} [DecidableEq α] {cfg : NetConfig α}

/-- The frames of ARP and the packets of TCP and of ICMP meet `P`. -/
structure StackFrames (cfg : NetConfig α) (P : Zbuf α → Prop) : Prop where
  arp : ∀ {nif : IpNetif α} {dst : Fin 6 → BitVec 8} {z : Zbuf α},
    EthFrame nif.mac dst ethTypeArp z → P z
  tcp : ∀ {σ : Type} (s : NetStack α σ) (zb : α) (src dst : BitVec 32),
    FramesSent P s (ipOutput cfg s zb src dst ipProtoTcp).1
  icmp : ∀ {σ : Type} (s : NetStack α σ) (zb : α) (src dst : BitVec 32),
    FramesSent P s (ipOutput cfg s zb src dst ipProtoIcmp).1

namespace FramesSent
variable {P : Zbuf α → Prop} {s s' s'' : NetStack α σ}

omit [DecidableEq α] in
theorem refl (s : NetStack α σ) : FramesSent P s s := of_log_eq rfl

omit [DecidableEq α] in
/-- Behind a change of buffers and of fields of sockets. -/
theorem after (h : FramesSent P s' s'') (hlog : s'.log = s.log) : FramesSent P s s'' :=
  (of_log_eq hlog).trans h

omit [DecidableEq α] in
/-- In front of one. -/
theorem before (h : FramesSent P s s') (hlog : s''.log = s'.log) : FramesSent P s s'' :=
  h.trans (of_log_eq hlog)

theorem pull (s : NetStack α σ) (zb : α) (len : BitVec 16) : FramesSent P s (s.pull zb len) := by
  unfold NetStack.pull
  rcases zbufPull (s.pool.zb zb) len with _ | ⟨z, p⟩
  · exact refl s
  · exact of_log_eq rfl

variable [DecidableEq σ]

theorem queueRx (s : NetStack α σ) (sock : σ) (zb : α) : FramesSent P s (queueRx s sock zb) :=
  ⟨_, rfl, by simp⟩

omit [DecidableEq α] [DecidableEq σ] in
theorem okOr {n : ℤ} {r : NetStack α σ × Status} (h : FramesSent P s r.1) :
    FramesSent P s (okOr n r).1 := by
  rw [okOr_fst]
  exact h

end FramesSent

namespace StackFrames
variable {P : Zbuf α → Prop} (hP : StackFrames cfg P) {s s' : NetStack α σ}
include hP

/-! ## TCP -/

theorem tcpSendRst (s : NetStack α σ) (seg : TcpSegment) (tcpLen : BitVec 16) :
    FramesSent P s (tcpSendRst cfg s seg tcpLen) := by
  unfold Gracemont.tcpSendRst
  rcases halloc : s.allocTx 0 with ⟨s₁, _ | zb⟩
  · exact .allocTx halloc
  · dsimp only
    rcases zbufPush (s₁.pool.zb zb) tcpHdrLen with _ | ⟨z, tcp⟩
    · exact (FramesSent.allocTx halloc).trans (.free cfg s₁ zb)
    · exact (FramesSent.allocTx halloc).trans ((hP.tcp _ zb _ _).after rfl)

variable [DecidableEq σ]

theorem tcpSendSegment (s : NetStack α σ) (sock : σ) (flags : BitVec 8) (data : Option α) :
    FramesSent P s (tcpSendSegment cfg s sock flags data).1 := by
  have hbuf : FramesSent P s (segmentBuf s data).1 := by
    cases data with
    | none =>
      have halloc : s.allocTx 0 = ((s.allocTx 0).1, (s.allocTx 0).2) := rfl
      exact .allocTx halloc
    | some zb => exact .refl s
  unfold Gracemont.tcpSendSegment
  generalize segmentBuf s data = r at hbuf ⊢
  rcases r with ⟨s₁, _ | zb⟩
  · exact hbuf
  · dsimp only
    rcases zbufPush (s₁.pool.zb zb) tcpHdrLen with _ | ⟨z, tcp⟩
    · dsimp only
      split_ifs
      · exact hbuf.trans (.free cfg s₁ zb)
      · exact hbuf
    · exact hbuf.trans ((hP.tcp _ zb _ _).after rfl)

theorem tcpOutput (s : NetStack α σ) (sock : σ) (zb : α) :
    FramesSent P s (tcpOutput cfg s sock zb).1 := by
  unfold Gracemont.tcpOutput
  split_ifs
  · exact .free cfg s zb
  · exact hP.tcpSendSegment s sock _ _

theorem receiveFin (s : NetStack α σ) (sock : σ) (state : TcpState) :
    FramesSent P s (receiveFin cfg s sock state) :=
  (hP.tcpSendSegment _ sock _ _).after rfl

theorem receiveData (s : NetStack α σ) (sock : σ) (seg : TcpSegment) (zb : α) :
    FramesSent P s (receiveData cfg s sock seg zb).1 := by
  unfold Gracemont.receiveData
  split_ifs with hlen
  · have hpull : FramesSent P s (s.pull zb (seg.hdrLen.setWidth 16)) := .pull s zb _
    generalize s.pull zb (seg.hdrLen.setWidth 16) = s₁ at hpull ⊢
    by_cases hseq : seg.seq = (s₁.sock sock).rcvNxt
    · simp only [if_pos hseq]
      generalize hm : s₁.modify sock _ = s₂
      have hq : FramesSent P s (Gracemont.queueRx s₂ sock zb) :=
        hpull.trans ((FramesSent.queueRx s₂ sock zb).after (hm ▸ rfl))
      exact hq.trans ((hP.tcpSendSegment _ sock _ _).after rfl)
    · simp only [if_neg hseq]
      exact hpull
  · exact .refl s

theorem receiveEstablished (s : NetStack α σ) (sock : σ) (seg : TcpSegment) (zb : α) :
    FramesSent P s (receiveEstablished cfg s sock seg zb).1 := by
  unfold Gracemont.receiveEstablished
  dsimp only
  generalize hs : (if hasFlag seg.flags tcpFlagAck then
    s.modify sock fun k => { k with sndUna := seg.ack } else s) = s₁
  have hlog : s₁.log = s.log := by
    rw [← hs]
    split_ifs
    · rfl
    · rfl
  have hdata := (hP.receiveData s₁ sock seg zb).after hlog
  split_ifs
  · exact (hdata.trans (hP.receiveFin _ sock _)).before rfl
  · exact hdata

/-- The state machine. -/
theorem tcpReceive (s : NetStack α σ) (sock : σ) (seg : TcpSegment) (zb : α) :
    FramesSent P s (tcpReceive cfg s sock seg zb).1 := by
  unfold Gracemont.tcpReceive
  cases (s.sock sock).state with
  | listen =>
    simp only [receiveListen]
    split_ifs
    · exact (hP.tcpSendSegment _ sock _ _).after rfl
    · exact .refl s
  | synSent =>
    simp only [receiveSynSent]
    split_ifs
    · generalize hm : s.modify sock _ = s₁
      have hack := (hP.tcpSendSegment s₁ sock tcpFlagAck none).after (s := s) (hm ▸ rfl)
      exact hack.before rfl
    · exact .refl s
  | synReceived =>
    simp only [receiveSynReceived]
    split_ifs
    · exact .of_log_eq rfl
    · exact .refl s
  | established => exact hP.receiveEstablished s sock seg zb
  | finWait1 =>
    simp only [receiveFinWait1]
    split_ifs
    · exact (hP.receiveFin _ sock _).after rfl
    · exact .of_log_eq rfl
    · exact .refl s
  | finWait2 =>
    simp only
    split_ifs
    · exact hP.receiveFin s sock _
    · exact .refl s
  | lastAck =>
    simp only
    split_ifs
    · exact .of_log_eq rfl
    · exact .refl s
  | closeWait | timeWait | closed | closing => exact .refl s

theorem tcpInput {fuel : ℕ} {zb : α} (h : tcpInput cfg fuel s zb = some s') :
    FramesSent P s s' := by
  rcases tcpInput_cases cfg h with rfl | ⟨seg, tcpLen, rfl⟩ | ⟨-, x, -, s₁, rest, hrec, rfl⟩
  · exact .free cfg s zb
  · exact (hP.tcpSendRst s seg tcpLen).trans (.free cfg _ zb)
  · have hreceive := hP.tcpReceive s x (s.pool.zb zb).segment zb
    rw [hrec] at hreceive
    rcases rest with _ | zb'
    · exact hreceive
    · exact hreceive.trans (.free cfg s₁ zb')

/-! ## The socket API -/

theorem sockSend (fd : ℤ) (data : List (BitVec 8)) :
    FramesSent P s (sockSend cfg s fd data).1 := by
  unfold Gracemont.sockSend
  rcases s.lookup fd with _ | sock
  · exact .refl s
  · rcases halloc : s.allocTx (BitVec.ofNat 16 data.length) with ⟨s₁, _ | zb⟩
    · exact .allocTx halloc
    · exact (FramesSent.allocTx halloc).trans ((hP.tcpOutput _ sock zb).after rfl).okOr

theorem sockSendZbuf (fd : ℤ) (zb : α) : FramesSent P s (sockSendZbuf cfg s fd zb).1 := by
  unfold Gracemont.sockSendZbuf
  rcases s.lookup fd with _ | sock
  · exact .free cfg s zb
  · exact (hP.tcpOutput s sock zb).okOr

theorem sockConnect (fd : ℤ) (addr : Sockaddr) :
    FramesSent P s (sockConnect cfg s fd addr).1 := by
  unfold Gracemont.sockConnect
  rcases s.lookup fd with _ | sock
  · exact .refl s
  · dsimp only
    generalize hm : s.modify sock _ = s₁
    have hsyn := (hP.tcpSendSegment s₁ sock tcpFlagSyn none).after (s := s) (hm ▸ rfl)
    exact hsyn.before rfl

omit hP [DecidableEq σ] in
theorem flush {fuel : ℕ} {q : ZbufQueue α} {r : NetStack α σ × ZbufQueue α}
    (h : Lib.Loop.run (flushBody cfg) fuel (s, q) = some r) : FramesSent P s r.1 := by
  refine Lib.Loop.run_rule (I := fun cur => FramesSent P s cur.1)
    (Q := fun r => FramesSent P s r.1) ?_ ?_ h (.refl s)
  · rintro ⟨s₁, q₁⟩ t hs₁ hbody
    unfold flushBody at hbody
    rcases hp : zbufQueuePop s₁.pool.zb q₁ with ⟨m, q₂, _ | zb⟩
    · simp only [hp] at hbody
      cases hbody
    · simp only [hp] at hbody
      cases hbody
      exact hs₁.trans ((FramesSent.free cfg _ zb).after rfl)
  · rintro ⟨s₁, q₁⟩ b hs₁ hbody
    unfold flushBody at hbody
    rcases hp : zbufQueuePop s₁.pool.zb q₁ with ⟨m, q₂, _ | zb⟩
    · simp only [hp] at hbody
      cases hbody
      exact hs₁
    · simp only [hp] at hbody
      cases hbody

theorem sockClose {fuel : ℕ} {fd n : ℤ} (h : sockClose cfg fuel s fd = some (s', n)) :
    FramesSent P s s' := by
  unfold Gracemont.sockClose at h
  rcases hfd : s.lookup fd with _ | sock
  · simp only [hfd] at h
    cases h
    exact .refl s
  · simp only [hfd, Option.bind_eq_bind, Option.bind_eq_some_iff] at h
    obtain ⟨r₁, h₁, r₂, h₂, h⟩ := h
    cases h
    have hcalls : FramesSent P s r₂.1 := ?_
    · exact hcalls.before rfl
    refine FramesSent.trans ?_ ((flush h₂).after rfl)
    refine FramesSent.trans ?_ (flush h₁)
    split_ifs
    · exact (hP.tcpSendSegment _ sock _ _).after rfl
    · exact .refl s

/-! ## The timer -/

theorem resend (s : NetStack α σ) (sock : σ) (flags : BitVec 8) (data : Option α) :
    FramesSent P s (resend cfg s sock flags data) :=
  (hP.tcpSendSegment _ sock flags data).after rfl

theorem timerSyn (s : NetStack α σ) (sock : σ) : FramesSent P s (timerSyn cfg s sock) := by
  unfold Gracemont.timerSyn
  simp only
  split_ifs
  · exact (hP.resend _ sock _ _).after rfl
  · exact (hP.resend _ sock _ _).after rfl
  · exact .of_log_eq rfl
  · exact .refl s

theorem timerEstablished (s : NetStack α σ) (sock : σ) :
    FramesSent P s (timerEstablished cfg s sock) := by
  unfold Gracemont.timerEstablished
  split_ifs
  · have hback : (rtoBackoff s sock).log = s.log := rfl
    generalize rtoBackoff s sock = s₁ at hback ⊢
    simp only
    rcases zbufQueuePeek (s₁.sock sock).txQueue with _ | zb
    · exact .of_log_eq hback
    · exact (hP.resend _ sock _ _).after hback
  · exact .of_log_eq rfl
  · exact .refl s

theorem timerFin (s : NetStack α σ) (sock : σ) : FramesSent P s (timerFin cfg s sock) := by
  unfold Gracemont.timerFin
  split_ifs
  · exact (hP.resend _ sock _ _).after rfl
  · exact .of_log_eq rfl
  · exact .refl s

omit hP [DecidableEq α] in
theorem timerTimeWait (s : NetStack α σ) (sock : σ) : FramesSent P s (timerTimeWait s sock) := by
  unfold Gracemont.timerTimeWait
  split_ifs
  · exact .of_log_eq rfl
  · exact .refl s

theorem tcpTimer {fuel : ℕ} (h : tcpTimer cfg fuel s = some s') : FramesSent P s s' := by
  refine Lib.Loop.run_rule (I := fun cur => FramesSent P s cur.1) (Q := FramesSent P s) ?_ ?_ h
    (.refl s)
  · rintro ⟨s₁, _ | sock⟩ t hs₁ hbody
    · cases hbody
    · cases hbody
      exact (((hs₁.trans (timerTimeWait s₁ sock)).trans (hP.timerSyn _ sock)).trans
        (hP.timerEstablished _ sock)).trans (hP.timerFin _ sock)
  · rintro ⟨s₁, _ | sock⟩ b hs₁ hbody
    · cases hbody
      exact hs₁
    · cases hbody

/-! ## Calls that send nothing -/

omit hP [DecidableEq α] in
theorem sockSocket (type : ℤ) (mem : Option σ) : FramesSent P s (sockSocket s type mem).1 := by
  cases mem with
  | none => exact .refl s
  | some sock => exact .of_log_eq rfl

omit hP [DecidableEq α] in
theorem sockBind (fd : ℤ) (addr : Sockaddr) : FramesSent P s (sockBind s fd addr).1 := by
  unfold Gracemont.sockBind
  rcases s.lookup fd with _ | sock
  · exact .refl s
  · exact .of_log_eq rfl

omit hP [DecidableEq α] in
theorem sockListen (fd : ℤ) : FramesSent P s (sockListen s fd).1 := by
  unfold Gracemont.sockListen
  rcases s.lookup fd with _ | sock
  · exact .refl s
  · dsimp only
    split_ifs
    · exact .refl s
    · exact .of_log_eq rfl

omit hP [DecidableEq α] in
theorem waitRx {sock : σ} (h : s.waitRx sock = some s') : s'.log = s.log := by
  unfold NetStack.waitRx at h
  split_ifs at h
  cases h
  rfl

omit hP [DecidableEq α] in
theorem waitTx {sock : σ} (h : s.waitTx sock = some s') : s'.log = s.log := by
  unfold NetStack.waitTx at h
  split_ifs at h
  cases h
  rfl

omit hP in
theorem popRx (s : NetStack α σ) (sock : σ) : FramesSent P s (popRx s sock).1 := by
  unfold Gracemont.popRx
  rcases zbufQueuePop s.pool.zb (s.sock sock).rxQueue with ⟨m, q, zb⟩
  exact .of_log_eq rfl

/-! ## All calls -/

/-- **The calls of the socket API** other than `sock_sendto`, the segments and the
    timer. -/
theorem call {fuel : ℕ} {call : SocketCall α σ} (hcall : ∀ fd data dst, call ≠ .sendto fd data dst)
    (h : call.run cfg fuel s = some s') : FramesSent P s s' := by
  cases call with
  | socket type mem =>
    simp only [SocketCall.run] at h
    split_ifs at h
    cases h
    exact sockSocket type mem
  | bind fd addr =>
    cases h
    exact sockBind fd addr
  | listen fd =>
    cases h
    exact sockListen fd
  | accepted fd sock =>
    obtain ⟨r, hr, rfl⟩ := Option.map_eq_some_iff.1 h
    obtain ⟨s₁, hwait, hr⟩ := Option.bind_eq_some_iff.1 hr
    cases hr
    exact .of_log_eq (waitRx hwait)
  | connect fd addr =>
    cases h
    exact hP.sockConnect fd addr
  | connected sock =>
    obtain ⟨r, hr, rfl⟩ := Option.map_eq_some_iff.1 h
    obtain ⟨s₁, hwait, hr⟩ := Option.bind_eq_some_iff.1 hr
    cases hr
    exact .of_log_eq (waitTx hwait)
  | send fd data =>
    cases h
    exact hP.sockSend fd data
  | sendZbuf fd zb =>
    cases h
    exact hP.sockSendZbuf fd zb
  | sendto fd data dst => exact absurd rfl (hcall fd data dst)
  | received sock len =>
    obtain ⟨⟨s₁, r⟩, hr, rfl⟩ := Option.map_eq_some_iff.1 h
    obtain ⟨s₂, hwait, hr⟩ := Option.bind_eq_some_iff.1 hr
    have hpop := popRx (P := P) s₂ sock
    generalize Gracemont.popRx s₂ sock = p at hpop hr
    rcases p with ⟨s₃, _ | zb⟩
    · cases hr
      exact hpop.after (waitRx hwait)
    · cases hr
      exact (hpop.after (waitRx hwait)).trans (.free cfg s₃ zb)
  | receivedZbuf sock =>
    obtain ⟨⟨s₁, r⟩, hr, rfl⟩ := Option.map_eq_some_iff.1 h
    obtain ⟨s₂, hwait, hr⟩ := Option.bind_eq_some_iff.1 hr
    have hpop := popRx (P := P) s₂ sock
    rw [Option.some.inj hr] at hpop
    exact hpop.after (waitRx hwait)
  | receivedFrom sock len =>
    obtain ⟨⟨s₁, r⟩, hr, rfl⟩ := Option.map_eq_some_iff.1 h
    obtain ⟨s₂, hwait, hr⟩ := Option.bind_eq_some_iff.1 hr
    have hpop := popRx (P := P) s₂ sock
    generalize Gracemont.popRx s₂ sock = p at hpop hr
    rcases p with ⟨s₃, _ | zb⟩
    · cases hr
      exact hpop.after (waitRx hwait)
    · cases hr
      exact (hpop.after (waitRx hwait)).trans (.free cfg s₃ zb)
  | close fd =>
    simp only [SocketCall.run, Option.map_eq_some_iff] at h
    obtain ⟨⟨s₁, n⟩, hclose, rfl⟩ := h
    exact hP.sockClose hclose
  | arrive zb => exact hP.tcpInput h
  | timer => exact hP.tcpTimer h

/-! ## The receive path -/

omit [DecidableEq σ] in
theorem icmpInput (s : NetStack α σ) (zb : α) : FramesSent P s (icmpInput cfg s zb) := by
  unfold Gracemont.icmpInput
  dsimp only
  split_ifs
  · exact .free cfg s zb
  · exact (hP.icmp _ zb _ _).after rfl
  · exact .free cfg s zb

omit hP in
theorem udpInput (s : NetStack α σ) (zb : α) : FramesSent P s (udpInput cfg s zb) := by
  unfold Gracemont.udpInput
  dsimp only
  split_ifs
  · exact .free cfg s zb
  · rcases udpFindSocket s _ with _ | sock
    · exact .free cfg s zb
    · dsimp only
      generalize hm : s.modify sock _ = s₁
      have hpull := (FramesSent.pull (P := P) s₁ zb udpHdrLen).after (s := s) (hm ▸ rfl)
      exact (hpull.trans (.queueRx _ sock zb)).before rfl

omit [DecidableEq σ] in
theorem arpInput (nif : IpNetif α) (s : NetStack α σ) (zb : α) :
    FramesSent P s (arpInput cfg nif s zb) :=
  (arpInput_frames cfg nif s zb).mono fun _ h => hP.arp h

/-- **The reactions to a frame.** -/
theorem netifInput {fuel : ℕ} {nif : IpNetif α} {zb : α}
    (h : netifInput cfg fuel nif s zb = some s') : FramesSent P s s' := by
  unfold Gracemont.netifInput at h
  dsimp only at h
  generalize hs : (s.setBuf zb _).pull zb ethHdrLen = s₁ at h
  have hpull : FramesSent P s s₁ := by
    rw [← hs]
    exact (FramesSent.pull _ zb _).after rfl
  split_ifs at h
  · cases h
    exact .free cfg s zb
  · unfold ipInput at h
    dsimp only at h
    split_ifs at h
    · cases h
      exact hpull.trans (.free cfg s₁ zb)
    · cases h
      exact hpull.trans (.free cfg s₁ zb)
    · cases h
      exact hpull.trans (.free cfg s₁ zb)
    · generalize hs₂ : (s₁.setBuf zb _).pull zb _ = s₂ at h
      have hpull₂ : FramesSent P s s₂ := by
        rw [← hs₂]
        exact hpull.trans ((FramesSent.pull _ zb _).after rfl)
      unfold ipDispatch at h
      split_ifs at h
      · cases h
        exact hpull₂.trans (hP.icmpInput s₂ zb)
      · cases h
        exact hpull₂.trans (udpInput s₂ zb)
      · exact hpull₂.trans (hP.tcpInput h)
      · cases h
        exact hpull₂.trans (.free cfg s₂ zb)
  · cases h
    exact hpull.trans (hP.arpInput nif s₁ zb)
  · cases h
    exact hpull.trans (.free cfg s₁ zb)

end StackFrames

end Gracemont
