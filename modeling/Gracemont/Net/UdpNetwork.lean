/-
  Gracemont networking — datagrams between hosts.

  Any number of hosts run the stack on one Ethernet.  The network loses, repeats
  and reorders frames: a frame that was ever sent may arrive at any host, at any
  time and any number of times.  Other stations may send any frame that is no
  datagram.  On every host the whole socket API is in use, with TCP beside UDP.

  * `netifInput_datagram`: what a host does with a datagram;
  * `Lan`, `lanLts`: the hosts and the network;
  * `udp_integrity`: what a socket gets was sent to it, byte for byte.
-/
import Gracemont.Lib.Trace
import Gracemont.Net.IpDelivery
import Gracemont.Net.SocketStream
import Gracemont.Net.UdpFrame

namespace Gracemont

variable {α σ : Type} [DecidableEq α]

/-! ## Receiving -/

/-- The interface takes packets to the address. -/
def TakesAddr (nif : IpNetif α) (dst : BitVec 32) : Prop := dst = nif.ip ∨ dst = ip4AddrBroadcast

/-- The datagram is put on the receive queue of the socket `x`, in the buffer `zb`
    that has become `z`. -/
def takeDatagram [DecidableEq σ] (s : NetStack α σ) (x : σ) (d : Datagram) (zb : α) (z : Zbuf α) :
    NetStack α σ :=
  let s := s.modify x fun k => { k with remoteAddr := d.src }
  postRx (queueRx (s.setBuf zb z) x zb) x

/-- The socket `x` got the datagram, in the buffer `zb`. -/
structure Gets [DecidableEq σ] (x : σ) (d : Datagram) (zb : α) (s s' : NetStack α σ) : Prop where
  queued : ∃ z, payloadOf z = d.data ∧ s'.log = s.log ++ [.queued x zb z]
  remoteAddr : (s'.sock x).remoteAddr = d.src
  others : ∀ y, y ≠ x → s'.sock y = s.sock y

theorem takeDatagram_gets [DecidableEq σ] (s : NetStack α σ) (x : σ) {d : Datagram} (zb : α)
    {z : Zbuf α} (hz : payloadOf z = d.data) : Gets x d zb s (takeDatagram s x d zb z) := by
  refine ⟨⟨z, hz, ?_⟩, ?_, ?_⟩
  · show s.log ++ [NetEvent.queued x zb (((s.modify x _).setBuf zb z).pool.zb zb)] = _
    rw [NetStack.setBuf_zb_self]
  · simp [takeDatagram, postRx, queueRx, NetStack.modify, NetStack.setBuf]
  · intro y hy
    simp [takeDatagram, postRx, queueRx, NetStack.modify, NetStack.setBuf, hy]

section
variable [DecidableEq σ] (cfg : NetConfig α) (fuel : ℕ) (nif : IpNetif α) {s : NetStack α σ} {zb : α}
  {d : Datagram}

omit [DecidableEq σ] in
/-- Finding the socket does not depend on buffers. -/
theorem udpFindSocket_setBuf (z : Zbuf α) (port : BitVec 16) :
    udpFindSocket (s.setBuf zb z) port = udpFindSocket s port := rfl

omit [DecidableEq α] [DecidableEq σ] in
theorem udpFindSocket_some {x : σ} {port : BitVec 16} (h : udpFindSocket s port = some x) :
    (s.sock x).type = sockDgram ∧ (s.sock x).localAddr.port = port := by
  obtain ⟨i, -, hi⟩ := List.exists_of_findSome?_eq_some h
  simpa using (Option.filter_eq_some_iff.1 hi).2

/-- The last part: the buffer starts with the UDP header. -/
theorem udpInput_takes {z : Zbuf α} (hlen : udpHdrLen ≤ z.len.toNat)
    (hsrc : be32 z.space.byte (z.data - ipHdrLen + 12) = d.src.addr)
    (hsport : be16 z.space.byte z.data = d.src.port)
    (hdport : be16 z.space.byte (z.data + 2) = d.dst.port)
    (hdata : bytesFrom z.space.byte (z.data + udpHdrLen) (z.len.toNat - udpHdrLen) = d.data) :
    (udpFindSocket s d.dst.port = none ∧
      udpInput cfg (s.setBuf zb z) zb = (s.setBuf zb z).free cfg zb) ∨
    ∃ x z', udpFindSocket s d.dst.port = some x ∧ payloadOf z' = d.data ∧
      udpInput cfg (s.setBuf zb z) zb = takeDatagram s x d zb z' := by
  unfold udpInput
  rw [NetStack.setBuf_zb_self]
  simp only
  rw [if_neg (Nat.not_lt.2 hlen), hsrc, hsport, hdport, udpFindSocket_setBuf]
  rcases udpFindSocket s d.dst.port with _ | x
  · exact .inl ⟨rfl, rfl⟩
  have hudp : (udpHdrLen : BitVec 16).toNat = udpHdrLen := rfl
  refine .inr ⟨x, { z with data := z.data + udpHdrLen, len := z.len - udpHdrLen }, rfl, ?_, ?_⟩
  · rw [← hdata, payloadOf]
    congr 1
    exact BitVec.toNat_sub_of_le (hudp ▸ hlen)
  · have hmod : ∀ f, (s.setBuf zb z).modify x f = (s.modify x f).setBuf zb z := fun _ => rfl
    dsimp only
    rw [hmod, NetStack.pull_setBuf _ _ _ (hudp ▸ hlen), hudp]
    rfl

omit [DecidableEq α] in
/-- The buffer behind an IP header of 20 bytes. -/
theorem stripIp_twenty {z : Zbuf α} (hihl : z.ihl = 20) (hlen : ipHdrLen ≤ z.len.toNat) :
    z.stripIp.data = z.data + ipHdrLen ∧ z.stripIp.space = z.space ∧
      z.stripIp.len.toNat = z.len.toNat - ipHdrLen := by
  have hle : ¬ z.len < (20 : BitVec 8).setWidth 16 := by
    rw [BitVec.lt_def]
    exact Nat.not_lt.2 hlen
  unfold Zbuf.stripIp zbufPull
  simp only
  rw [hihl, if_neg hle]
  exact ⟨rfl, rfl, BitVec.toNat_sub_of_le hlen⟩

/-- **A packet with a header of 20 bytes** goes to the handler of its protocol, if the
    interface takes its address, without its headers. -/
theorem netifInput_packet {z : Zbuf α} {proto : BitVec 8} (hz : s.pool.zb zb = z)
    (hpacket : IsPacket proto (payloadOf z)) (hihl : octet (payloadOf z) 14 = 0x45)
    (hsum : inetChecksum (octet (payloadOf z)) 14 ipHdrLen = 0) :
    (¬ TakesAddr nif (be32 (octet (payloadOf z)) 30) →
      ∃ z', netifInput cfg fuel nif s zb = some ((s.setBuf zb z').free cfg zb)) ∧
    (TakesAddr nif (be32 (octet (payloadOf z)) 30) → ∃ z', z'.data = z.data + 34 ∧
      z'.space = z.space ∧ z'.len.toNat = z.len.toNat - 34 ∧
      netifInput cfg fuel nif s zb = ipDispatch cfg fuel (s.setBuf zb z') zb proto) := by
  have hlen := hpacket.length
  rw [payloadOf_length, ethHdrLen, ipHdrLen] at hlen
  have htype : be16 z.space.byte (z.data + 12) = ethTypeIp :=
    (be16_payloadOf (by omega)).symm.trans hpacket.type
  rw [netifInput_ip cfg fuel nif hz (by rw [ethHdrLen]; omega) htype]
  have hlen₁ : z.stripEth.len.toNat = z.len.toNat - 14 :=
    BitVec.toNat_sub_of_le (by show 14 ≤ z.len.toNat; omega)
  have hdata₁ : z.stripEth.data = z.data + 14 := rfl
  have hspace₁ : z.stripEth.space = z.space := rfl
  have hbyte : ∀ i, 14 + i < z.len.toNat →
      z.stripEth.space.byte (z.stripEth.data + i) = octet (payloadOf z) (14 + i) := by
    intro i hi
    rw [octet_payloadOf hi, ← Nat.add_assoc]
    rfl
  generalize z.stripEth = z₁ at hlen₁ hdata₁ hspace₁ hbyte
  have hbuf₁ : (s.setBuf zb z₁).pool.zb zb = z₁ := NetStack.setBuf_zb_self ..
  have hdst : z₁.ipDst = be32 (octet (payloadOf z)) 30 := by
    refine be32_congr fun k hk => ?_
    rw [Nat.add_assoc, hbyte _ (by omega), ← Nat.add_assoc]
  rw [← hdst]
  constructor
  · intro hnot
    have hdropped : ¬ ((s.setBuf zb z₁).pool.zb zb).IpTaken nif := by
      rw [hbuf₁]
      exact fun htaken => hnot htaken.dst
    exact ⟨z₁, ipInput_dropped cfg fuel nif _ zb hdropped⟩
  · intro htakes
    have hihl₁ : z₁.ihl = 20 := by
      rw [Zbuf.ihl, show z₁.data = z₁.data + 0 from rfl, hbyte 0 (by omega), hihl]
      rfl
    have htaken : ((s.setBuf zb z₁).pool.zb zb).IpTaken nif := by
      rw [hbuf₁]
      refine ⟨by rw [ipHdrLen]; omega, ?_, htakes⟩
      rw [hihl₁]
      refine (inetChecksum_congr (by decide) fun k hk => ?_).2 hsum
      have hk20 : k < 20 := hk
      exact hbyte k (by omega)
    have hproto : z₁.ipProto = proto := (hbyte 9 (by omega)).trans hpacket.proto
    rw [ipInput_taken cfg fuel nif _ zb htaken, hbuf₁, hproto, NetStack.setBuf_setBuf]
    obtain ⟨hdata₂, hspace₂, hlen₂⟩ := stripIp_twenty hihl₁ (by rw [ipHdrLen]; omega)
    rw [ipHdrLen] at hdata₂ hlen₂
    exact ⟨z₁.stripIp, by omega, hspace₂.trans hspace₁, by omega, rfl⟩

/-- **What a host does with a datagram**: if it has the address and a socket on the
    port, that socket gets the data, else the frame is freed. -/
theorem netifInput_datagram (h : DatagramFrame d (payloadOf (s.pool.zb zb))) :
    ((TakesAddr nif d.dst.addr → udpFindSocket s d.dst.port = none) ∧
      ∃ z, netifInput cfg fuel nif s zb = some ((s.setBuf zb z).free cfg zb)) ∨
    TakesAddr nif d.dst.addr ∧ ∃ x z, udpFindSocket s d.dst.port = some x ∧
      payloadOf z = d.data ∧
      netifInput cfg fuel nif s zb = some (takeDatagram s x d zb z) := by
  generalize hz : s.pool.zb zb = z at h
  have hlen : z.len.toNat = 42 + d.data.length := by
    rw [← payloadOf_length]
    exact h.length
  obtain ⟨hdropped, htaken⟩ := netifInput_packet cfg fuel nif hz h.packet h.ihl h.checksum
  rw [h.dstAddr] at hdropped htaken
  by_cases htakes : TakesAddr nif d.dst.addr
  swap
  · -- the address is that of another host
    exact .inl ⟨fun h => absurd h htakes, hdropped htakes⟩
  obtain ⟨z₂, hdata₂, hspace₂, hlen₂, hin⟩ := htaken htakes
  have hbyte : ∀ i, 34 + i < z.len.toNat →
      z₂.space.byte (z₂.data + i) = octet (payloadOf z) (34 + i) := by
    intro i hi
    rw [hspace₂, hdata₂, octet_payloadOf hi, Nat.add_assoc]
  have hresult : (udpFindSocket s d.dst.port = none ∧
      udpInput cfg (s.setBuf zb z₂) zb = (s.setBuf zb z₂).free cfg zb) ∨
      ∃ x z', udpFindSocket s d.dst.port = some x ∧ payloadOf z' = d.data ∧
        udpInput cfg (s.setBuf zb z₂) zb = takeDatagram s x d zb z' :=
    udpInput_takes cfg (by rw [udpHdrLen]; omega) ?_ ?_ ?_ ?_
  · rw [hin]
    rcases hresult with ⟨hnone, hfree⟩ | ⟨x, z', hx, hz', htakes'⟩
    · exact .inl ⟨fun _ => hnone, z₂, congrArg some hfree⟩
    · exact .inr ⟨htakes, x, z', hx, hz', congrArg some htakes'⟩
  · rw [← h.srcAddr]
    refine be32_congr fun k hk => ?_
    rw [hspace₂, octet_payloadOf (by omega)]
    congr 1
    rw [ipHdrLen]
    omega
  · rw [← h.srcPort, be16, be16, show z₂.data = z₂.data + 0 from rfl, hbyte 0 (by omega),
      Nat.add_assoc, hbyte 1 (by omega)]
  · rw [← h.dstPort, be16, be16, Nat.add_assoc, hbyte 2 (by omega), hbyte 3 (by omega)]
  · have hdrop := h.data
    rw [ethHdrLen, ipHdrLen, udpHdrLen] at hdrop
    rw [← hdrop]
    refine List.ext_getElem ?_ fun j h1 h2 => ?_
    · simp only [bytesFrom, List.length_map, List.length_range, List.length_drop,
        payloadOf_length, udpHdrLen]
      omega
    · have hj : j < d.data.length := by
        simp only [List.length_drop, payloadOf_length] at h2
        omega
      have hj42 : 42 + j < (payloadOf z).length := by
        rw [payloadOf_length]
        omega
      have hread := hbyte (8 + j) (by omega)
      have hget : (payloadOf z)[42 + j]? = some (payloadOf z)[42 + j] :=
        List.getElem?_eq_getElem hj42
      rw [← Nat.add_assoc, ← Nat.add_assoc, octet, hget] at hread
      rw [List.getElem_drop]
      refine Eq.trans ?_ hread
      simp only [bytesFrom, List.getElem_map, List.getElem_range, udpHdrLen]

end

/-! ## From one host to another -/

/-- The buffers on the receive queue of a socket. -/
def RxQueue (s : NetStack α σ) (x : σ) (l : List α) : Prop :=
  Lib.Queue (s.pool.zb.field Zbuf.next) (s.pool.zb.field Zbuf.prev) (s.sock x).rxQueue.head
    (s.sock x).rxQueue.tail l

section
variable [DecidableEq σ] (cfg : NetConfig α) {s : NetStack α σ} {x : σ} {l : List α} {zb : α}

omit [DecidableEq α] in
/-- A post can be taken. -/
theorem waitRx_of_pos (h : (s.sock x).rxSem ≠ 0) :
    s.waitRx x = some (s.modify x fun k => { k with rxSem := k.rxSem - 1 }) := if_neg h

/-- **The datagram** is put at the end of the queue, and posted. -/
theorem takeDatagram_queue (h : RxQueue s x l) (hzb : zb ∉ l) (d : Datagram) (z : Zbuf α) :
    RxQueue (takeDatagram s x d zb z) x (l ++ [zb]) ∧
      payloadOf ((takeDatagram s x d zb z).pool.zb zb) = payloadOf z ∧
      ((takeDatagram s x d zb z).sock x).rxSem = (s.sock x).rxSem + 1 := by
  have hq : Lib.Queue ((s.setBuf zb z).pool.zb.field Zbuf.next)
      ((s.setBuf zb z).pool.zb.field Zbuf.prev) (s.sock x).rxQueue.head
      (s.sock x).rxQueue.tail l := by
    refine Lib.Queue.congr h (fun y hy => ?_) fun y hy => ?_
    all_goals
      have hne : y ≠ zb := fun he => hzb (he ▸ hy)
      simp [NetStack.setBuf, hne]
  obtain ⟨hpush, -⟩ := zbufQueuePush_queue hq hzb
  have hpool : (takeDatagram s x d zb z).pool.zb =
      (zbufQueuePush (s.setBuf zb z).pool.zb (s.sock x).rxQueue zb).1 := by
    simp [takeDatagram, postRx, queueRx, NetStack.modify, NetStack.setBuf]
  have hsock : ((takeDatagram s x d zb z).sock x).rxQueue =
      (zbufQueuePush (s.setBuf zb z).pool.zb (s.sock x).rxQueue zb).2 := by
    simp [takeDatagram, postRx, queueRx, NetStack.modify, NetStack.setBuf]
  refine ⟨?_, ?_, ?_⟩
  · rw [RxQueue, hpool, hsock]
    exact hpush
  · rw [hpool]
    refine (zbufQueuePush_field _ _ zb payloadOf (fun _ _ => rfl) (fun _ _ => rfl) zb).trans ?_
    rw [NetStack.setBuf_zb_self]
  · simp [takeDatagram, postRx, queueRx, NetStack.modify, NetStack.setBuf]

/-- **`sock_recvfrom`** returns the first datagram, as much of it as fits. -/
theorem sockRecvfrom_head (h : RxQueue s x (zb :: l)) (hsem : (s.sock x).rxSem ≠ 0) (len : ℕ) :
    ∃ s', sockRecvfromResume cfg s x len = some (s',
      (((payloadOf (s.pool.zb zb)).take len).length : ℤ), (s.sock x).remoteAddr,
      (payloadOf (s.pool.zb zb)).take len) := by
  obtain ⟨m', k, hpop, -⟩ := zbufQueuePop_cons h
  have hpayload : payloadOf (m' zb) = payloadOf (s.pool.zb zb) := by
    have hfield := zbufQueuePop_field s.pool.zb (s.sock x).rxQueue payloadOf (fun _ _ => rfl)
      (fun _ _ => rfl) zb
    rw [hpop] at hfield
    exact hfield
  unfold sockRecvfromResume
  rw [waitRx_of_pos hsem]
  simp only [Option.bind_eq_bind, Option.bind_some, popRx, NetStack.modify, Lib.Store.modify_self,
    hpop, copyOut, read_min, hpayload]
  exact ⟨_, rfl⟩

/-- **From one host to another.**  If `sock_sendto` returns the length of its data,
    it has sent one frame, and on every host with its address and a socket on its
    port that has nothing to read, the arrival of the frame makes `sock_recvfrom`
    return the data and where they come from. -/
theorem udp_end_to_end {nif : IpNetif α} (hnif : cfg.netifDefault = some nif) (s : NetStack α σ)
    (fd : ℤ) {data : List (BitVec 8)} (dst : Sockaddr) (hfits : FitsZbuf data)
    (hret : (sockSendto cfg s fd data dst).2 = data.length) :
    ∃ sock zb z, dgramSocket s fd = some sock ∧
      (sockSendto cfg s fd data dst).1.log = s.log ++ [.allocated zb, .sent zb z] ∧
      ∀ (cfg' : NetConfig α) (fuel : ℕ) (nif' : IpNetif α) (t : NetStack α σ) (zb' : α) (x : σ),
        payloadOf (t.pool.zb zb') = payloadOf z →
        dst.addr = nif'.ip ∨ dst.addr = ip4AddrBroadcast →
        udpFindSocket t dst.port = some x → RxQueue t x [] →
        ∃ t', netifInput cfg' fuel nif' t zb' = some t' ∧ ∀ len, ∃ t'',
          sockRecvfromResume cfg' t' x len = some (t'', ((data.take len).length : ℤ),
            (datagramOf nif s sock data dst).src, data.take len) := by
  obtain ⟨sock, zb, z, hsock, hlog, hframe⟩ := sockSendto_ok cfg hnif s fd dst hfits hret
  refine ⟨sock, zb, z, hsock, hlog, fun cfg' fuel nif' t zb' x hframe' haccepts hx hempty => ?_⟩
  rw [← hframe'] at hframe
  rcases netifInput_datagram cfg' fuel nif' hframe with ⟨hnone, -⟩ | ⟨-, y, z', hy, hz', hin⟩
  · rw [show udpFindSocket t dst.port = none from hnone haccepts] at hx
    cases hx
  obtain rfl : y = x := Option.some.inj (hy.symm.trans hx)
  obtain ⟨hq, hpayload, hsem⟩ := takeDatagram_queue hempty
    (List.not_mem_nil : zb' ∉ []) (datagramOf nif s sock data dst) z'
  refine ⟨_, hin, fun len => ?_⟩
  obtain ⟨t'', hrecv⟩ := sockRecvfrom_head cfg' hq (by rw [hsem]; exact Nat.succ_ne_zero _) len
  refine ⟨t'', ?_⟩
  rw [hrecv, hpayload, hz', (takeDatagram_gets t y zb' hz').remoteAddr]
  rfl

end

/-! ## The network -/

/-- The frames that the driver got between two states. -/
def newFrames (s s' : NetStack α σ) : List (List (BitVec 8)) :=
  (s'.log.drop s.log.length).filterMap fun e =>
    match e with
    | .sent _ z => some (payloadOf z)
    | _ => none

/-- The hosts; the frames that were sent, and the datagrams that were given to
    `sock_sendto`. -/
structure Lan (ι α σ : Type) where
  host : ι → NetStack α σ
  wire : List (List (BitVec 8))
  sent : List Datagram

/-- A call on a host, a frame that arrives at a host in a buffer, or one that some
    other station sends. -/
inductive LanEvent (ι α σ : Type) where
  | call (i : ι) (env : TcpEnv α) (call : SocketCall α σ)
  | arrive (i : ι) (env : TcpEnv α) (zb : α)
  | inject (f : List (BitVec 8))

section
variable {ι : Type} [DecidableEq ι] [DecidableEq σ] (port : Port) (nif : ι → IpNetif α)

/-- The interface of a host is its default one. -/
def hostConfig (i : ι) : NetConfig α := ⟨port, some (nif i)⟩

/-- What a call adds to the datagrams. -/
def sentFrom (i : ι) (s : NetStack α σ) : SocketCall α σ → List Datagram
  | .sendto fd data dst =>
    ((dgramSocket s fd).map fun sock => datagramOf (nif i) s sock data dst).toList
  | _ => []

/-- A host goes to the state `s'`. -/
def Lan.advance (l : Lan ι α σ) (i : ι) (s' : NetStack α σ) (sent : List Datagram) : Lan ι α σ where
  host := Function.update l.host i s'
  wire := l.wire ++ newFrames (l.host i) s'
  sent := l.sent ++ sent

/-- The runs of the network, with nothing on it at first.  A frame that arrives is
    one that was sent. -/
def lanLts : Lib.Lts (Lan ι α σ) (LanEvent ι α σ) where
  init l := l.wire = [] ∧ l.sent = []
  step l e l' := match e with
    | .call i env call => ∃ fuel s',
        call.run (hostConfig port nif i) fuel ((l.host i).meets env) = some s' ∧
        l' = l.advance i s' (sentFrom nif i ((l.host i).meets env) call)
    | .arrive i env zb => payloadOf (env.buf zb) ∈ l.wire ∧ ∃ fuel s',
        netifInput (hostConfig port nif i) fuel (nif i) ((l.host i).meets env) zb = some s' ∧
        l' = l.advance i s' []
    | .inject f => l' = { l with wire := l.wire ++ [f] }

/-- Other stations send no datagrams, and `sock_sendto` is given data that fit into
    a buffer. -/
def Fair (_ : Lan ι α σ) : LanEvent ι α σ → Prop
  | .call _ _ (.sendto _ data _) => FitsZbuf data
  | .call _ _ _ | .arrive _ _ _ => True
  | .inject f => ¬ IsPacket ipProtoUdp f

/-- **The invariant**: every datagram on the network is one that was sent. -/
def Genuine (l : Lan ι α σ) : Prop :=
  ∀ f ∈ l.wire, IsPacket ipProtoUdp f → ∃ d ∈ l.sent, DatagramFrame d f

omit [DecidableEq α] [DecidableEq ι] [DecidableEq σ] in
/-- The new frames meet what all frames that were sent meet. -/
theorem mem_newFrames {P : Zbuf α → Prop} {s s' : NetStack α σ} (h : FramesSent P s s')
    {f : List (BitVec 8)} (hf : f ∈ newFrames s s') : ∃ z, P z ∧ f = payloadOf z := by
  obtain ⟨new, hnew, hP⟩ := h
  unfold newFrames at hf
  rw [hnew, List.drop_left] at hf
  obtain ⟨e, he, hef⟩ := List.mem_filterMap.1 hf
  cases e with
  | sent zb z =>
    cases hef
    exact ⟨z, hP zb z he, rfl⟩
  | allocated zb => cases hef
  | freed zb => cases hef
  | queued x zb z => cases hef

variable {port nif} {l l' : Lan ι α σ}

omit [DecidableEq α] [DecidableEq σ] in
/-- A host that sends no datagram but those it reports. -/
theorem Genuine.advance (h : Genuine l) {i : ι} {s' : NetStack α σ} {sent : List Datagram}
    (hs : FramesSent (fun z => IsPacket ipProtoUdp (payloadOf z) →
      ∃ d ∈ sent, DatagramFrame d (payloadOf z)) (l.host i) s') :
    Genuine (l.advance i s' sent) := by
  intro f hf hudp
  rcases List.mem_append.1 hf with hf | hf
  · obtain ⟨d, hd, hframe⟩ := h f hf hudp
    exact ⟨d, List.mem_append_left _ hd, hframe⟩
  · obtain ⟨z, hz, rfl⟩ := mem_newFrames hs hf
    obtain ⟨d, hd, hframe⟩ := hz hudp
    exact ⟨d, List.mem_append_right _ hd, hframe⟩

/-- **Step.** -/
theorem Genuine.step (h : Genuine l) {e : LanEvent ι α σ} (he : Fair l e)
    (hs : (lanLts port nif).step l e l') : Genuine l' := by
  have hquiet : ∀ {i : ι} {s' : NetStack α σ}, FramesSent (fun z =>
      ¬ IsPacket ipProtoUdp (payloadOf z)) (l.host i) s' → ∀ sent : List Datagram, FramesSent (fun z =>
      IsPacket ipProtoUdp (payloadOf z) → ∃ d ∈ sent, DatagramFrame d (payloadOf z))
      (l.host i) s' := fun h _ => h.mono fun z hz hudp => absurd hudp hz
  cases e with
  | inject f =>
    obtain rfl : l' = { l with wire := l.wire ++ [f] } := hs
    intro g hg hudp
    rcases List.mem_append.1 hg with hg | hg
    · exact h g hg hudp
    · obtain rfl := List.mem_singleton.1 hg
      exact absurd hudp he
  | arrive i env zb =>
    obtain ⟨-, fuel, s', hrun, rfl⟩ := hs
    have hframes := (stackFrames_notUdp (hostConfig port nif i)).netifInput hrun
    exact h.advance (hquiet (hframes.after (s := l.host i) rfl) [])
  | call i env call =>
    obtain ⟨fuel, s', hrun, rfl⟩ := hs
    refine h.advance ?_
    by_cases hcall : ∀ fd data dst, call ≠ .sendto fd data dst
    · have hframes := (stackFrames_notUdp (hostConfig port nif i)).call hcall hrun
      exact hquiet (hframes.after (s := l.host i) rfl) _
    · obtain ⟨fd, data, dst, rfl⟩ : ∃ fd data dst, call = .sendto fd data dst := by
        simpa using hcall
      cases hrun
      have hnif : (hostConfig port nif i : NetConfig α).netifDefault = some (nif i) := rfl
      have hframes := sockSendto_frames (hostConfig port nif i) hnif ((l.host i).meets env) fd dst he
      refine (hframes.after (s := l.host i) rfl).mono fun z hz hudp => ?_
      obtain ⟨sock, hsock, hframe⟩ := hz hudp
      refine ⟨_, ?_, hframe⟩
      simp [sentFrom, hsock]

/-- **Integrity of datagrams.**  Whatever the hosts do and whatever the network
    loses, repeats and reorders: a datagram that arrives at a host is one that was
    given to `sock_sendto`.  One socket on its port gets it, with its data and its
    source, or, if the host has another address or no such socket, it is freed. -/
theorem udp_integrity {tr : List (LanEvent ι α σ)}
    (h : ((lanLts port nif).restrict Fair).Run tr l) {i : ι} {env : TcpEnv α} {zb : α}
    (hs : (lanLts port nif).step l (.arrive i env zb) l')
    (hudp : IsPacket ipProtoUdp (payloadOf (env.buf zb))) :
    ∃ d ∈ l.sent, DatagramFrame d (payloadOf (env.buf zb)) ∧
      ((TakesAddr (nif i) d.dst.addr ∧ ∃ x, ((l.host i).sock x).type = sockDgram ∧
          ((l.host i).sock x).localAddr.port = d.dst.port ∧ Gets x d zb (l.host i) (l'.host i)) ∨
        (TakesAddr (nif i) d.dst.addr → udpFindSocket (l.host i) d.dst.port = none) ∧
          (l'.host i).log = (l.host i).log ++ [.freed zb] ∧
          ∀ y, (l'.host i).sock y = (l.host i).sock y) := by
  have hinv : Genuine l := by
    refine h.rule (P := fun _ l => Genuine l) ?_ ?_
    · rintro l ⟨hwire, -⟩ f hf
      rw [hwire] at hf
      cases hf
    · intro tr l e l' hl hstep
      exact hl.step hstep.1 hstep.2
  obtain ⟨hwire, fuel, s', hrun, rfl⟩ := hs
  obtain ⟨d, hd, hframe⟩ := hinv _ hwire hudp
  have hhost : (l.advance i s' []).host i = s' := Function.update_self ..
  refine ⟨d, hd, hframe, ?_⟩
  rw [hhost]
  have hmeets : DatagramFrame d (payloadOf (((l.host i).meets env).pool.zb zb)) := hframe
  rcases netifInput_datagram (hostConfig port nif i) fuel (nif i) hmeets with
    ⟨hnone, z, hfree⟩ | ⟨haccepts, x, z, hx, hz, hin⟩
  · rw [hrun] at hfree
    cases hfree
    exact .inr ⟨hnone, rfl, fun y => rfl⟩
  · rw [hrun] at hin
    cases hin
    obtain ⟨htype, hport⟩ := udpFindSocket_some hx
    have hgets := takeDatagram_gets ((l.host i).meets env) x zb hz
    exact .inl ⟨haccepts, x, htype, hport, hgets.queued, hgets.remoteAddr, hgets.others⟩

end

/-! ## Two hosts -/

/-- A host with a datagram socket on port 53 and a free buffer. -/
def demoDgram : NetStack (Fin 2) (Fin 2) :=
  { demoStack with
    pool := { demoStack.pool with freeList := some 0 }
    sock := fun _ => { demoSocket with type := sockDgram, localAddr := ⟨0, 53⟩ }
    socketTable := fun _ => some 0 }

theorem fits_three : FitsZbuf [1, 2, 3] := by
  show 3 ≤ 1920
  decide

theorem demoDgram_sends : (sockSendto demoNet demoDgram 0 [1, 2, 3] ⟨ip4AddrBroadcast, 53⟩).2 =
    ([1, 2, 3] : List (BitVec 8)).length := by decide

/-- Three bytes, to everyone. -/
theorem udp_end_to_end_broadcast : ∃ (zb : Fin 2) (z : Zbuf (Fin 2))
    (t' t'' : NetStack (Fin 2) (Fin 2)), NetEvent.sent zb z ∈ (sockSendto demoNet demoDgram 0 [1, 2, 3] ⟨ip4AddrBroadcast, 53⟩).1.log ∧
    netifInput demoNet 1 demoNif
      { demoDgram with pool := { demoDgram.pool with zb := fun _ => z } } 1 = some t' ∧
    sockRecvfromResume demoNet t' 0 8 = some (t'', 3, ⟨0x0A000001, 53⟩, [1, 2, 3]) := by
  have hnif : demoNet.netifDefault = some demoNif := rfl
  obtain ⟨sock, zb, z, hsock, hlog, harrives⟩ := udp_end_to_end demoNet hnif demoDgram 0
    ⟨ip4AddrBroadcast, 53⟩ fits_three demoDgram_sends
  obtain ⟨t', hin, hrecv⟩ := harrives demoNet 1 demoNif
    { demoDgram with pool := { demoDgram.pool with zb := fun _ => z } } 1 0 rfl (.inr rfl) rfl
    (Lib.queue_nil)
  obtain ⟨t'', hrecv⟩ := hrecv 8
  obtain rfl : sock = 0 := (Option.some.inj hsock).symm
  refine ⟨zb, z, t', t'', ?_, hin, hrecv⟩
  rw [hlog]
  simp

/-- An event, with a bound on the walks over lists of sockets. -/
def lanExec (fuel : ℕ) (l : Lan (Fin 2) (Fin 2) (Fin 2)) :
    LanEvent (Fin 2) (Fin 2) (Fin 2) → Option (Lan (Fin 2) (Fin 2) (Fin 2))
  | .call i env call => (call.run demoNet fuel ((l.host i).meets env)).map fun s' =>
      l.advance i s' (sentFrom (fun _ => demoNif) i ((l.host i).meets env) call)
  | .arrive i env zb =>
    if payloadOf (env.buf zb) ∈ l.wire then
      (netifInput demoNet fuel demoNif ((l.host i).meets env) zb).map fun s' => l.advance i s' []
    else none
  | .inject f => some { l with wire := l.wire ++ [f] }

theorem lanExec_step {fuel : ℕ} (l : Lan (Fin 2) (Fin 2) (Fin 2)) (e : LanEvent (Fin 2) (Fin 2) (Fin 2))
    (l' : Lan (Fin 2) (Fin 2) (Fin 2)) (h : lanExec fuel l e = some l') :
    (lanLts .arm64 fun _ => demoNif).step l e l' := by
  cases e with
  | call i env call =>
    obtain ⟨s', hs', rfl⟩ := Option.map_eq_some_iff.1 h
    exact ⟨fuel, s', hs', rfl⟩
  | arrive i env zb =>
    simp only [lanExec] at h
    split_ifs at h with hwire
    obtain ⟨s', hs', rfl⟩ := Option.map_eq_some_iff.1 h
    exact ⟨hwire, fuel, s', hs', rfl⟩
  | inject f => exact (Option.some.inj h).symm

/-- The frame of three bytes to everyone. -/
def demoBroadcast : List (BitVec 8) :=
  List.replicate 6 0xFF ++ List.replicate 6 2 ++ [8, 0] ++
    [0x45, 0, 0, 31, 0, 0, 0, 0, 64, 17, 0x70, 0xCE, 10, 0, 0, 1, 255, 255, 255, 255] ++
    [0, 53, 0, 53, 0, 11, 0, 0] ++ [1, 2, 3]

/-- The first host sends it. -/
def demoSendto : LanEvent (Fin 2) (Fin 2) (Fin 2) :=
  .call 0 ⟨demoDgram.pool, 0⟩ (.sendto 0 [1, 2, 3] ⟨ip4AddrBroadcast, 53⟩)

/-- What the second host meets when it arrives. -/
def demoHeard : TcpEnv (Fin 2) :=
  ⟨{ demoDgram.pool with zb := fun _ => demoFrame configZbufHeadroom demoBroadcast }, 0⟩

/-- The hosts, with nothing on the network. -/
def demoHosts : Lan (Fin 2) (Fin 2) (Fin 2) := ⟨fun _ => demoDgram, [], []⟩

theorem demoHosts_arrives : (Lib.Lts.exec (lanExec 1) demoHosts
    ([demoSendto] ++ [.arrive 1 demoHeard 1])).isSome := by decide

theorem demoHeard_frame : payloadOf (demoHeard.buf 1) = demoBroadcast := by decide

/-- The three bytes arrive. -/
theorem udp_integrity_broadcast : ∃ l l' : Lan (Fin 2) (Fin 2) (Fin 2),
    ((lanLts .arm64 fun _ => demoNif).restrict Fair).Run [demoSendto] l ∧
    (lanLts .arm64 fun _ => demoNif).step l (.arrive 1 demoHeard 1) l' ∧
    ∃ d ∈ l.sent, DatagramFrame d demoBroadcast := by
  obtain ⟨l', hexec'⟩ := Option.isSome_iff_exists.1 demoHosts_arrives
  obtain ⟨l, hexec, harrives⟩ := Lib.Lts.exec_concat.1 hexec'
  have hrun : ((lanLts .arm64 fun _ => demoNif).restrict Fair).Run [demoSendto] l := by
    refine Lib.Lts.run_of_exec_restrict lanExec_step ⟨rfl, rfl⟩ hexec fun i hi => ?_
    obtain rfl : i = 0 := Nat.lt_one_iff.1 hi
    exact fits_three
  have hstep := lanExec_step l _ l' harrives
  have hudp : IsPacket ipProtoUdp (payloadOf (demoHeard.buf 1)) := by
    rw [demoHeard_frame]
    decide
  obtain ⟨d, hd, hframe, -⟩ := udp_integrity hrun hstep hudp
  rw [demoHeard_frame] at hframe
  exact ⟨l, l', hrun, hstep, d, hd, hframe⟩

end Gracemont
