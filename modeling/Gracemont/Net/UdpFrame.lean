/-
  Gracemont networking — the packets of `ip_output`, byte by byte, and the
  datagrams of `sock_sendto`.

  A station tells the packets of one protocol from all other frames by three
  bytes of their headers, so a frame is read here as the list of its bytes, on
  whatever buffer it lies.

  * `PacketFrame`: a buffer made a packet by `ip_output`;
  * `IsPacket`: a frame that `netif_input` takes to the handler of a protocol;
  * `CarriesPacket`: a frame that carries data in a packet;
  * `Datagram`, `DatagramFrame`: a datagram, and the frames that carry it;
  * `sockSendto_frames`: `sock_sendto` sends its datagram and no other.
-/
import Gracemont.Net.EthFrame
import Gracemont.Net.InetChecksum
import Gracemont.Net.SentFrames

namespace Gracemont

variable {α σ : Type}

/-! ## Packets -/

/-- A packet of the protocol `proto` that was made of the buffer `z₀`, with its
    two headers. -/
structure PacketFrame (proto : BitVec 8) (src dst : BitVec 32) (z₀ z : Zbuf α) : Prop
    extends IpFrame z₀ src dst z where
  type : be16 z.space.byte (z.data + 12) = ethTypeIp
  ihl : z.space.byte (z.data + 14) = 0x45
  proto : z.space.byte (z.data + 23) = proto
  checksum : inetChecksum z.space.byte (z.data + 14) ipHdrLen = 0

/-- The frame is one of ARP, and marked so. -/
structure ArpFrame (z : Zbuf α) : Prop where
  protocol : z.protocol ≠ ethTypeIp
  type : be16 z.space.byte (z.data + 12) = ethTypeArp

/-- The first byte and the protocol of the header. -/
theorem putIpHdr_fields (m : Lib.ByteMem) (ip : ℕ) (len id : BitVec 16) (proto : BitVec 8)
    (src dst : BitVec 32) :
    (putIpHdr m ip len id proto src dst).byte ip = 0x45 ∧
      (putIpHdr m ip len id proto src dst).byte (ip + 9) = proto := by
  unfold putIpHdr
  simp only
  generalize hhdr : [0x45, 0] ++ be16Bytes len ++ be16Bytes id ++ [0, 0] ++ [64, proto] ++ [0, 0] ++
    be32Bytes src ++ be32Bytes dst = hdr
  have hlen : hdr.length = 20 := by
    rw [← hhdr]
    rfl
  have hbyte : ∀ j (hj : j < hdr.length), (m.putBytes ip hdr).byte (ip + j) = hdr[j] := by
    intro j hj
    exact Lib.ByteMem.putBytes_byte _ _ _ hj
  -- the checksum is stored behind both
  have hkeep : ∀ c : BitVec 16, ∀ j < 10,
      (((m.putBytes ip hdr).set (ip + 10) (loByte c)).set (ip + 11) (hiByte c)).byte (ip + j) =
        (m.putBytes ip hdr).byte (ip + j) := by
    intro c j hj
    rw [Lib.ByteMem.set_byte_of_ne _ _ (by omega), Lib.ByteMem.set_byte_of_ne _ _ (by omega)]
  constructor
  · refine (hkeep _ 0 (by decide)).trans ((hbyte 0 (by omega)).trans ?_)
    simp only [← hhdr]
    rfl
  · refine (hkeep _ 9 (by decide)).trans ((hbyte 9 (by omega)).trans ?_)
    simp only [← hhdr]
    rfl

theorem inetChecksum_congr {b b' : ℕ → BitVec 8} {i j len : ℕ} (hlen : len ≤ 65535)
    (h : ∀ k < len, b' (j + k) = b (i + k)) : inetChecksum b' j len = 0 ↔ inetChecksum b i len = 0 := by
  rw [inetChecksum_eq_zero_iff _ _ hlen, inetChecksum_eq_zero_iff _ _ hlen, bytesFrom_congr h]

section
variable [DecidableEq α] (cfg : NetConfig α) {s : NetStack α σ}

/-- `eth_output` sends its buffer behind a header with the type. -/
theorem FramesSent.ethOutput {P : Zbuf α → Prop} (nif : IpNetif α) (s : NetStack α σ) (zb : α)
    (dstMac : Fin 6 → BitVec 8) (type : BitVec 16)
    (hP : ethHdrLen ≤ (s.pool.zb zb).data → ∀ z : Zbuf α,
      z.data = (s.pool.zb zb).data - ethHdrLen → z.len = (s.pool.zb zb).len + ethHdrLen →
      (∀ i, (s.pool.zb zb).data ≤ i → z.space.byte i = (s.pool.zb zb).space.byte i) →
      be16 z.space.byte (z.data + 12) = type → P z) :
    FramesSent P s (ethOutput cfg nif s zb dstMac type).1 := by
  unfold Gracemont.ethOutput
  rcases hpush : zbufPush (s.pool.zb zb) ethHdrLen with _ | ⟨z, eth⟩
  · exact .free cfg s zb
  obtain ⟨hroom, heth, hdata, hlen, hspace⟩ := zbufPush_some (n := ethHdrLen) rfl hpush
  refine ⟨_, rfl, ?_⟩
  intro zb' z' hz
  obtain ⟨-, hz'⟩ := NetEvent.sent.inj (List.mem_singleton.1 hz)
  rw [NetStack.setBuf_zb_self] at hz'
  subst hz'
  refine hP hroom _ (hdata.trans heth) hlen (fun i hi => ?_) ?_
  · rw [← hspace]
    exact (putEthHdr_within _ _ _ _ _).frame i (.inr (by omega))
  · dsimp only
    rw [hdata]
    exact (putEthHdr_at eth dstMac nif.mac z.space type).2.2

/-- What `arp_resolve` sends are requests. -/
theorem arpResolve_arpFrames (s : NetStack α σ) (ip : BitVec 32) :
    FramesSent ArpFrame s (arpResolve cfg s ip).1 := by
  obtain ⟨new, hnew, htype⟩ := arpResolve_frames cfg s ip
  obtain ⟨new', hnew', hip⟩ := Packets.arpResolve (P := fun _ => False) cfg s ip
  obtain rfl : new = new' := List.append_cancel_left (hnew.symm.trans hnew')
  refine ⟨new, hnew, fun zb z hz => ⟨hip zb z hz, ?_⟩⟩
  obtain ⟨_, -, hframe⟩ := htype zb z hz
  exact hframe.type

/-- **What `ip_output` sends** is its packet, or requests of ARP. -/
theorem ipOutput_packets {nif : IpNetif α} (hnif : cfg.netifDefault = some nif)
    (s : NetStack α σ) (zb : α) (src dst : BitVec 32) (proto : BitVec 8) :
    FramesSent (fun z => ArpFrame z ∨
        PacketFrame proto (if src = 0 then nif.ip else src) dst (s.pool.zb zb) z) s
      (ipOutput cfg s zb src dst proto).1 := by
  unfold ipOutput
  simp only [hnif]
  generalize (if src = 0 then nif.ip else src) = src
  rcases hpush : zbufPush (s.pool.zb zb) ipHdrLen with _ | ⟨z, ip⟩
  · exact .free cfg s zb
  obtain ⟨hroom, hip, hdata, hlen, hspace⟩ := zbufPush_some (n := ipHdrLen) rfl hpush
  simp only
  generalize hz : ({ z with space := _ } : Zbuf α) = z₁
  generalize hs : ({ s.setBuf zb z₁ with ipId := s.ipId + 1 } : NetStack α σ) = s₁
  obtain ⟨hkeep, hsrc, hdst⟩ := putIpHdr_spec z.space ip z.len s.ipId proto src dst
  obtain ⟨hver, hproto⟩ := putIpHdr_fields z.space ip z.len s.ipId proto src dst
  have hsum := inetChecksum_putIpHdr z.space ip z.len s.ipId proto src dst
  have h₁ : FramesSent (fun z' => ArpFrame z' ∨ PacketFrame proto src dst (s.pool.zb zb) z') s s₁ :=
    .of_log_eq (hs ▸ rfl)
  have hz₁ : s₁.pool.zb zb = z₁ := by
    rw [← hs]
    exact NetStack.setBuf_zb_self s zb z₁
  have heth : ∀ mac, FramesSent (fun z' => ArpFrame z' ∨ PacketFrame proto src dst (s.pool.zb zb) z')
      s₁ (ethOutput cfg nif s₁ zb mac ethTypeIp).1 := by
    intro mac
    refine .ethOutput cfg nif s₁ zb mac ethTypeIp fun hroom' z' hd hl hb htype => .inr ?_
    rw [hz₁] at hroom' hd hl hb
    subst hz
    simp only at hroom' hd hl hb
    have hstart : z'.data + 14 = ip := by
      unfold ethHdrLen at hroom' hd
      omega
    refine ⟨⟨by omega, by omega, by rw [hl, hlen], ?_, ?_, ?_⟩, htype, ?_, ?_, ?_⟩
    · intro i hi
      rw [hb i (by omega), hkeep i (by omega), hspace]
    · rw [← hip, ← hsrc]
      exact be32_congr fun k _ => hb _ (by omega)
    · rw [← hip, ← hdst]
      exact be32_congr fun k _ => hb _ (by omega)
    · rw [hstart, hb _ (by omega), hver]
    · rw [← hproto, show z'.data + 23 = ip + 9 by omega, hb _ (by omega)]
    · rw [hstart]
      exact (inetChecksum_congr (by decide) fun k _ => hb _ (by omega)).2 hsum
  split_ifs
  · exact h₁.trans (heth _)
  · have harp : FramesSent (fun z' => ArpFrame z' ∨ PacketFrame proto src dst (s.pool.zb zb) z') s₁
        (arpResolve cfg s₁ (nextHop nif dst)).1 :=
      (arpResolve_arpFrames cfg s₁ (nextHop nif dst)).mono fun _ => .inl
    have hok : (arpResolve cfg s₁ (nextHop nif dst)).2.1 = .ok → _ := arpResolve_ok cfg
    generalize arpResolve cfg s₁ (nextHop nif dst) = r at harp hok ⊢
    rcases r with ⟨s₂, st, mac⟩
    cases st
    case ok =>
      obtain rfl : s₂ = s₁ := hok rfl
      exact h₁.trans (heth mac)
    all_goals exact (h₁.trans harp).trans (.free cfg s₂ zb)

end

/-! ## Frames as lists -/

/-- A byte of a frame. -/
def octet (f : List (BitVec 8)) (i : ℕ) : BitVec 8 := f[i]?.getD 0

/-- The frame is a packet of the protocol `proto` by its headers. -/
structure IsPacket (proto : BitVec 8) (f : List (BitVec 8)) : Prop where
  length : ethHdrLen + ipHdrLen ≤ f.length
  type : be16 (octet f) 12 = ethTypeIp
  proto : octet f 23 = proto

instance (proto : BitVec 8) (f : List (BitVec 8)) : Decidable (IsPacket proto f) :=
  decidable_of_iff (ethHdrLen + ipHdrLen ≤ f.length ∧ be16 (octet f) 12 = ethTypeIp ∧
    octet f 23 = proto) ⟨fun h => ⟨h.1, h.2.1, h.2.2⟩, fun h => ⟨h.1, h.2, h.3⟩⟩

section
variable {z : Zbuf α}

theorem octet_payloadOf {i : ℕ} (h : i < z.len.toNat) :
    octet (payloadOf z) i = z.space.byte (z.data + i) := by
  have hi : i < (payloadOf z).length := by rwa [payloadOf_length]
  rw [octet, List.getElem?_eq_getElem hi]
  simp [payloadOf, bytesFrom]

/-- Values in the frame, where the frame is long enough. -/
theorem be16_payloadOf {i : ℕ} (h : i + 1 < z.len.toNat) :
    be16 (octet (payloadOf z)) i = be16 z.space.byte (z.data + i) := by
  rw [be16, be16, octet_payloadOf (by omega), octet_payloadOf h]
  rfl

theorem be32_payloadOf {i : ℕ} (h : i + 3 < z.len.toNat) :
    be32 (octet (payloadOf z)) i = be32 z.space.byte (z.data + i) :=
  be32_congr fun k hk => (octet_payloadOf (by omega)).trans (congrArg _ (by omega))

/-- Frames of ARP are no packets. -/
theorem not_isPacket_of_arp (h : be16 z.space.byte (z.data + 12) = ethTypeArp) (proto : BitVec 8) :
    ¬ IsPacket proto (payloadOf z) := by
  rintro ⟨hlen, htype, -⟩
  rw [payloadOf_length, ethHdrLen, ipHdrLen] at hlen
  rw [be16_payloadOf (by omega), h] at htype
  cases htype

/-- Packets of one protocol are none of another. -/
theorem PacketFrame.not_isPacket {proto proto' : BitVec 8} {src dst : BitVec 32} {z₀ : Zbuf α}
    (h : PacketFrame proto src dst z₀ z) (hne : proto ≠ proto') :
    ¬ IsPacket proto' (payloadOf z) := by
  rintro ⟨hlen, -, hproto⟩
  rw [payloadOf_length, ethHdrLen, ipHdrLen] at hlen
  rw [octet_payloadOf (by omega), h.proto] at hproto
  exact hne hproto

/-- The frame is a packet that carries the data, behind an Ethernet and an IP header. -/
structure CarriesPacket (proto : BitVec 8) (src dst : BitVec 32) (data f : List (BitVec 8)) :
    Prop where
  packet : IsPacket proto f
  ihl : octet f 14 = 0x45
  checksum : inetChecksum (octet f) 14 ipHdrLen = 0
  src : be32 (octet f) 26 = src
  dst : be32 (octet f) 30 = dst
  data : f.drop (ethHdrLen + ipHdrLen) = data

/-- **A packet** carries the data of its buffer. -/
theorem PacketFrame.carries {proto : BitVec 8} {src dst : BitVec 32} {z₀ : Zbuf α}
    (h : PacketFrame proto src dst z₀ z) (hlen : z₀.len.toNat + ipHdrLen + ethHdrLen < 2 ^ 16) :
    CarriesPacket proto src dst (payloadOf z₀) (payloadOf z) := by
  have hroom := h.room
  have hdata := h.data
  have hzlen : z.len.toNat = 34 + z₀.len.toNat := by
    rw [h.len]
    simp only [BitVec.toNat_add, BitVec.natCast_eq_ofNat, BitVec.toNat_ofNat, ipHdrLen,
      ethHdrLen] at hlen ⊢
    omega
  simp only [ipHdrLen, ethHdrLen] at hroom hdata
  have hstart : z.data + 34 = z₀.data := by omega
  refine ⟨⟨?_, ?_, ?_⟩, ?_, ?_, ?_, ?_, ?_⟩
  · rw [payloadOf_length, hzlen, ethHdrLen, ipHdrLen]
    omega
  · rw [be16_payloadOf (by omega)]
    exact h.type
  · rw [octet_payloadOf (by omega)]
    exact h.proto
  · rw [octet_payloadOf (by omega)]
    exact h.ihl
  · refine (inetChecksum_congr (by decide) fun k hk => ?_).2 h.checksum
    rw [ipHdrLen] at hk
    rw [octet_payloadOf (by omega), Nat.add_assoc]
  · rw [be32_payloadOf (by omega), show z.data + 26 = z₀.data - ipHdrLen + 12 by
      rw [ipHdrLen]; omega]
    exact h.src
  · rw [be32_payloadOf (by omega), show z.data + 30 = z₀.data - ipHdrLen + 16 by
      rw [ipHdrLen]; omega]
    exact h.dst
  · rw [payloadOf, hzlen, bytesFrom_append, hstart]
    refine (List.drop_left' (bytesFrom_length ..)).trans ?_
    exact bytesFrom_congr fun k _ => h.bytes _ (Nat.le_add_right ..)

end

section
variable {proto : BitVec 8} {src dst : BitVec 32} {data f : List (BitVec 8)}

theorem octet_drop (f : List (BitVec 8)) (n i : ℕ) : octet (f.drop n) i = octet f (n + i) := by
  rw [octet, octet, List.getElem?_drop]

theorem CarriesPacket.octet (h : CarriesPacket proto src dst data f) (i : ℕ) :
    octet f (34 + i) = octet data i := by
  rw [← h.data, octet_drop]
  rfl

theorem CarriesPacket.length (h : CarriesPacket proto src dst data f) :
    f.length = ethHdrLen + ipHdrLen + data.length := by
  have hle := h.packet.length
  rw [← h.data, List.length_drop]
  omega

end

/-! ## Datagrams -/

/-- A datagram: where it comes from, where it goes, and its data. -/
structure Datagram where
  src : Sockaddr
  dst : Sockaddr
  data : List (BitVec 8)

/-- **The frame carries the datagram**, behind an Ethernet, an IP and a UDP
    header. -/
structure DatagramFrame (d : Datagram) (f : List (BitVec 8)) : Prop where
  length : f.length = ethHdrLen + ipHdrLen + udpHdrLen + d.data.length
  packet : IsPacket ipProtoUdp f
  ihl : octet f 14 = 0x45
  checksum : inetChecksum (octet f) 14 ipHdrLen = 0
  srcAddr : be32 (octet f) 26 = d.src.addr
  dstAddr : be32 (octet f) 30 = d.dst.addr
  srcPort : be16 (octet f) 34 = d.src.port
  dstPort : be16 (octet f) 36 = d.dst.port
  data : f.drop (ethHdrLen + ipHdrLen + udpHdrLen) = d.data

section
variable [DecidableEq α] (cfg : NetConfig α) {s : NetStack α σ}

/-- **What `udp_output` sends** carries the data of its buffer. -/
theorem udpOutput_datagram {nif : IpNetif α} (hnif : cfg.netifDefault = some nif)
    (s : NetStack α σ) (zb : α) (src dst : Sockaddr)
    (hlen : (s.pool.zb zb).len.toNat + udpHdrLen + ipHdrLen + ethHdrLen < 2 ^ 16) :
    FramesSent (fun z => ArpFrame z ∨
        DatagramFrame ⟨⟨if src.addr = 0 then nif.ip else src.addr, src.port⟩, dst,
          payloadOf (s.pool.zb zb)⟩ (payloadOf z)) s (udpOutput cfg s zb src dst).1 := by
  unfold udpOutput
  rcases hpush : zbufPush (s.pool.zb zb) udpHdrLen with _ | ⟨z₁, udp⟩
  · exact .free cfg s zb
  obtain ⟨hroom, hudp, hdata, hl, hspace⟩ := zbufPush_some (n := udpHdrLen) rfl hpush
  dsimp only
  generalize hz : ({ z₁ with space := _ } : Zbuf α) = z₂
  have hpackets := ipOutput_packets cfg hnif (s.setBuf zb z₂) zb src.addr dst.addr ipProtoUdp
  rw [NetStack.setBuf_zb_self] at hpackets
  refine (FramesSent.of_log_eq rfl).trans (hpackets.mono fun z h => h.imp_right fun h => ?_)
  have hz₂len : z₂.len.toNat = udpHdrLen + (s.pool.zb zb).len.toNat := by
    rw [← hz, hl]
    simp only [BitVec.toNat_add, BitVec.natCast_eq_ofNat, BitVec.toNat_ofNat, udpHdrLen, ipHdrLen,
      ethHdrLen] at hlen ⊢
    omega
  have hcarries := h.carries (by omega)
  have hudpLen : (udpHdr src.port dst.port z₁.len).length = udpHdrLen := rfl
  have hstart : z₁.data + udpHdrLen = (s.pool.zb zb).data := by
    rw [hdata, hudp, Nat.sub_add_cancel hroom]
  -- the header, and the data behind it
  have hpayload : payloadOf z₂ = udpHdr src.port dst.port z₁.len ++ payloadOf (s.pool.zb zb) := by
    rw [payloadOf, hz₂len, ← hz, ← hdata, hspace, bytesFrom_append]
    dsimp only
    rw [hstart]
    congr 1
    · exact Lib.ByteMem.read_putBytes ..
    · exact bytesFrom_congr fun k _ => Lib.ByteMem.putBytes_byte_of_le _ _ _ (by omega)
  rw [hpayload] at hcarries
  refine ⟨?_, hcarries.packet, hcarries.ihl, hcarries.checksum, hcarries.src, hcarries.dst, ?_, ?_,
    ?_⟩
  · rw [hcarries.length, List.length_append, hudpLen]
    exact (Nat.add_assoc ..).symm
  · rw [be16, hcarries.octet 0, hcarries.octet 1]
    exact hiByte_append_loByte src.port
  · rw [be16, hcarries.octet 2, hcarries.octet 3]
    exact hiByte_append_loByte dst.port
  · rw [← List.drop_drop, hcarries.data, ← hudpLen, List.drop_left]

/-- A packet of another protocol is no datagram, nor is a frame of ARP. -/
theorem ipOutput_notUdp {proto : BitVec 8} (hproto : proto ≠ ipProtoUdp) (s : NetStack α σ)
    (zb : α) (src dst : BitVec 32) :
    FramesSent (fun z => ¬ IsPacket ipProtoUdp (payloadOf z)) s
      (ipOutput cfg s zb src dst proto).1 := by
  rcases hnif : cfg.netifDefault with _ | nif
  · unfold ipOutput
    rw [hnif]
    exact .free cfg s zb
  · refine (ipOutput_packets cfg hnif s zb src dst proto).mono fun z h => ?_
    rcases h with harp | hpacket
    · exact not_isPacket_of_arp harp.type ipProtoUdp
    · exact hpacket.not_isPacket hproto

/-- **Only `sock_sendto`** sends datagrams. -/
theorem stackFrames_notUdp :
    StackFrames cfg fun z => ¬ IsPacket ipProtoUdp (payloadOf z) where
  arp h := not_isPacket_of_arp h.type ipProtoUdp
  tcp := ipOutput_notUdp cfg (by decide)
  icmp := ipOutput_notUdp cfg (by decide)

/-- The datagram of a call of `sock_sendto` on a socket. -/
def datagramOf [DecidableEq σ] (nif : IpNetif α) (s : NetStack α σ) (sock : σ)
    (data : List (BitVec 8)) (dst : Sockaddr) : Datagram :=
  let src := (s.sock sock).localAddr
  ⟨⟨if src.addr = 0 then nif.ip else src.addr, src.port⟩, dst, data⟩

/-- The copy of data that fit. -/
theorem sendCopy_payload {s₁ : NetStack α σ} {zb : α} {data : List (BitVec 8)}
    (hfits : FitsZbuf data) (hdata : (s₁.pool.zb zb).data = configZbufHeadroom)
    (htail : (s₁.pool.zb zb).tail = configZbufHeadroom) (hlen : (s₁.pool.zb zb).len = 0) :
    payloadOf ((sendCopy s₁ zb data).pool.zb zb) = data := by
  have hle : data.length ≤ 1920 := hfits
  have hmod : data.length % 2 ^ 16 = data.length := Nat.mod_eq_of_lt (by omega)
  have hsize : data.length % 2 ^ 16 ≤ configZbufSize - configZbufHeadroom := by
    rw [hmod]
    exact hfits
  have hread := bytesFrom_putBytes (s₁.pool.zb zb).space configZbufHeadroom data []
  rw [List.append_nil] at hread
  rw [payloadOf, sendCopy_len hsize htail hlen, hmod, sendCopy_zb hsize htail, hdata]
  exact hread

/-- `udp_output` that succeeds has sent one frame, a packet of IP. -/
theorem udpOutput_ok_sent (s : NetStack α σ) (zb : α) (src dst : Sockaddr)
    (h : (udpOutput cfg s zb src dst).2 = .ok) : ∃ z,
    (udpOutput cfg s zb src dst).1.log = s.log ++ [.sent zb z] ∧ z.protocol = ethTypeIp := by
  revert h
  unfold udpOutput
  rcases zbufPush (s.pool.zb zb) udpHdrLen with _ | ⟨z₁, udp⟩
  · intro h
    cases h
  · intro h
    exact ipOutput_ok_sent cfg (s.setBuf zb _) zb h

/-- `sock_sendto` returns -1 and sends nothing, or hands a copy of the data to
    `udp_output`. -/
theorem sockSendto_cases [DecidableEq σ] (s : NetStack α σ) (fd : ℤ) (data : List (BitVec 8))
    (dst : Sockaddr) (hfits : FitsZbuf data) :
    (sockSendto cfg s fd data dst).2 = -1 ∧
      (∀ P, FramesSent P s (sockSendto cfg s fd data dst).1) ∨
    ∃ sock s₁ zb, dgramSocket s fd = some sock ∧ s₁.sock = s.sock ∧
      s₁.log = s.log ++ [.allocated zb] ∧ payloadOf (s₁.pool.zb zb) = data ∧
      sockSendto cfg s fd data dst =
        okOr (toInt32 data.length) (udpOutput cfg s₁ zb (s.sock sock).localAddr dst) := by
  rw [sockSendto_eq]
  unfold sendWith
  rcases dgramSocket s fd with _ | sock
  · exact .inl ⟨rfl, fun P => .refl s⟩
  dsimp only
  rcases halloc : s.allocTx (BitVec.ofNat 16 data.length) with ⟨s₁, _ | zb⟩
  · exact .inl ⟨rfl, fun P => .allocTx halloc⟩
  have hpool : (zbufAllocTx s.pool (BitVec.ofNat 16 data.length)).1 = s₁.pool :=
    congrArg (fun r => r.1.pool) halloc
  have hzb : (zbufAllocTx s.pool (BitVec.ofNat 16 data.length)).2 = some zb :=
    congrArg Prod.snd halloc
  obtain ⟨hdata, htail, hlen⟩ := zbufAllocTx_some (Prod.ext hpool hzb)
  have hsock : s₁.sock = s.sock := (congrArg (fun r => r.1.sock) halloc).symm
  have hlog : s₁.log = s.log ++ [.allocated zb] := by
    have hnew : s.log ++ _ = s₁.log := congrArg (fun r => r.1.log) halloc
    rw [hzb] at hnew
    exact hnew.symm
  refine .inr ⟨sock, sendCopy s₁ zb data, zb, rfl, hsock, hlog,
    sendCopy_payload hfits hdata htail hlen, ?_⟩
  rw [← hsock]
  rfl

section
variable [DecidableEq σ] {nif : IpNetif α} (hnif : cfg.netifDefault = some nif) (s : NetStack α σ)
  (fd : ℤ) {data : List (BitVec 8)} (dst : Sockaddr) (hfits : FitsZbuf data)
include hnif hfits

omit [DecidableEq σ] in
/-- The datagram of a copy. -/
theorem udpOutput_copy {s₁ : NetStack α σ} {zb : α} (src : Sockaddr)
    (hpayload : payloadOf (s₁.pool.zb zb) = data) :
    FramesSent (fun z => ArpFrame z ∨
        DatagramFrame ⟨⟨if src.addr = 0 then nif.ip else src.addr, src.port⟩, dst, data⟩
          (payloadOf z)) s₁ (udpOutput cfg s₁ zb src dst).1 := by
  have hle : data.length ≤ 1920 := hfits
  have hudp := udpOutput_datagram cfg hnif s₁ zb src dst (by
    rw [← payloadOf_length, hpayload, udpHdrLen, ipHdrLen, ethHdrLen]
    omega)
  rw [hpayload] at hudp
  exact hudp

/-- **What `sock_sendto` sends**, of data that fit into a buffer, is the datagram. -/
theorem sockSendto_frames :
    FramesSent (fun z => IsPacket ipProtoUdp (payloadOf z) → ∃ sock, dgramSocket s fd = some sock ∧
        DatagramFrame (datagramOf nif s sock data dst) (payloadOf z)) s
      (sockSendto cfg s fd data dst).1 := by
  rcases sockSendto_cases cfg s fd data dst hfits with
    ⟨-, hnone⟩ | ⟨sock, s₁, zb, hsock, -, hlog, hpayload, hcall⟩
  · exact hnone _
  rw [hcall]
  have halloc : FramesSent (fun z => IsPacket ipProtoUdp (payloadOf z) → ∃ sock,
      dgramSocket s fd = some sock ∧
        DatagramFrame (datagramOf nif s sock data dst) (payloadOf z)) s s₁ :=
    ⟨_, hlog, by simp⟩
  refine halloc.trans (FramesSent.okOr ?_)
  refine (udpOutput_copy cfg hnif dst hfits (s.sock sock).localAddr hpayload).mono
    fun z hz hpacket => ⟨sock, hsock, ?_⟩
  exact hz.resolve_left fun harp => not_isPacket_of_arp harp.type ipProtoUdp hpacket

/-- **`sock_sendto` that succeeds** has sent its datagram. -/
theorem sockSendto_ok (hret : (sockSendto cfg s fd data dst).2 = data.length) : ∃ sock zb z,
    dgramSocket s fd = some sock ∧
      (sockSendto cfg s fd data dst).1.log = s.log ++ [.allocated zb, .sent zb z] ∧
      DatagramFrame (datagramOf nif s sock data dst) (payloadOf z) := by
  rcases sockSendto_cases cfg s fd data dst hfits with
    ⟨hfail, -⟩ | ⟨sock, s₁, zb, hsock, -, hlog, hpayload, hcall⟩
  · rw [hfail] at hret
    omega
  rw [hcall, okOr_snd] at hret
  have hok : (udpOutput cfg s₁ zb (s.sock sock).localAddr dst).2 = .ok := by
    by_contra hne
    rw [if_neg hne] at hret
    omega
  obtain ⟨z, hz, hip⟩ := udpOutput_ok_sent cfg s₁ zb (s.sock sock).localAddr dst hok
  obtain ⟨new, hnew, hframes⟩ :=
    udpOutput_copy cfg hnif dst hfits (s.sock sock).localAddr hpayload
  obtain rfl : new = [.sent zb z] := List.append_cancel_left (hnew.symm.trans hz)
  refine ⟨sock, zb, z, hsock, ?_, ?_⟩
  · rw [hcall, okOr_fst, hz, hlog, List.append_assoc]
    rfl
  · exact (hframes zb z (List.mem_singleton_self _)).resolve_left fun harp => harp.protocol hip

end

end

end Gracemont
