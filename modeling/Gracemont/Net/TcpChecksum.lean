/-
  Gracemont networking — the checksum of the segments that are sent.

  `tcp_send_segment` and `tcp_send_rst` store 0 as the checksum of a segment and
  leave it there, while `tcp_input` drops a segment whose checksum is wrong.  So
  a segment gets through only if its sum happens to be a multiple of `0xFFFF`.

  * `Packets`: what the stack sends between two states;
  * `IpFrame`: a packet that `ip_output` made of a buffer;
  * `TcpEmission`: the two functions that send segments;
  * `tcp_checksum_agreement_iff`: which segments `tcp_input` accepts.
-/
import Gracemont.Net.Transmit

namespace Gracemont

variable {α σ : Type}

/-! ## Packets -/

/-- Every IP packet that was sent between `s` and `s'` meets `P`. -/
def Packets (P : Zbuf α → Prop) (s s' : NetStack α σ) : Prop :=
  ∃ new, s'.log = s.log ++ new ∧ ∀ zb z, NetEvent.sent zb z ∈ new → z.protocol = ethTypeIp → P z

/-- A packet that was made of the buffer `z₀`: its bytes behind the headers,
    and the addresses. -/
structure IpFrame (z₀ : Zbuf α) (src dst : BitVec 32) (z : Zbuf α) : Prop where
  room : ethHdrLen + ipHdrLen ≤ z₀.data
  data : z.data = z₀.data - ipHdrLen - ethHdrLen
  len : z.len = z₀.len + ipHdrLen + ethHdrLen
  bytes : ∀ i, z₀.data ≤ i → z.space.byte i = z₀.space.byte i
  src : be32 z.space.byte (z₀.data - ipHdrLen + 12) = src
  dst : be32 z.space.byte (z₀.data - ipHdrLen + 16) = dst

namespace Packets
variable {P Q : Zbuf α → Prop} {s s' s'' : NetStack α σ}

theorem of_log_eq (h : s'.log = s.log) : Packets P s s' :=
  ⟨[], by rw [h, List.append_nil], by simp⟩

theorem trans (h : Packets P s s') (h' : Packets P s' s'') : Packets P s s'' := by
  obtain ⟨new, hnew, hP⟩ := h
  obtain ⟨new', hnew', hP'⟩ := h'
  refine ⟨new ++ new', by rw [hnew', hnew, List.append_assoc], ?_⟩
  intro zb z hz
  rcases List.mem_append.1 hz with hz | hz
  · exact hP zb z hz
  · exact hP' zb z hz

theorem mono (h : Packets P s s') (hPQ : ∀ z, P z → Q z) : Packets Q s s' := by
  obtain ⟨new, hnew, hP⟩ := h
  exact ⟨new, hnew, fun zb z hz hip => hPQ z (hP zb z hz hip)⟩

variable [DecidableEq α] (cfg : NetConfig α)

theorem free (s : NetStack α σ) (zb : α) : Packets P s (s.free cfg zb) :=
  ⟨[.freed zb], rfl, by simp⟩

theorem allocTx (s : NetStack α σ) (size : BitVec 16) : Packets P s (s.allocTx size).1 := by
  refine ⟨_, rfl, fun zb z hz => ?_⟩
  obtain ⟨zb', -, he⟩ := Option.map_eq_some_iff.1 (Option.mem_toList.1 hz)
  cases he

theorem of_allocTx {size : BitVec 16} {zb : Option α} (h : s.allocTx size = (s', zb)) :
    Packets P s s' := by
  have hnew : Packets P s (s.allocTx size).1 := allocTx s size
  rw [h] at hnew
  exact hnew

end Packets

/-! ## Headers -/

/-- A list that was stored is read back, whatever was stored behind it. -/
theorem bytesFrom_putBytes (m : Lib.ByteMem) (i : ℕ) (l l' : List (BitVec 8)) :
    bytesFrom (m.putBytes i (l ++ l')).byte i l.length = l := by
  have hread : bytesFrom (m.putBytes i l).byte i l.length = l := m.read_putBytes i l
  rw [Lib.ByteMem.putBytes_append, ← hread]
  rw [hread]
  refine (bytesFrom_congr fun k hk => ?_).trans hread
  exact Lib.ByteMem.putBytes_byte_of_lt _ _ _ (by omega)

/-- The IP header is written within its 20 bytes, with the addresses. -/
theorem putIpHdr_spec (m : Lib.ByteMem) (ip : ℕ) (len id : BitVec 16) (proto : BitVec 8)
    (src dst : BitVec 32) :
    (∀ i, ip + ipHdrLen ≤ i → (putIpHdr m ip len id proto src dst).byte i = m.byte i) ∧
      be32 (putIpHdr m ip len id proto src dst).byte (ip + 12) = src ∧
      be32 (putIpHdr m ip len id proto src dst).byte (ip + 16) = dst := by
  unfold putIpHdr
  simp only
  generalize hpre : [0x45, 0] ++ be16Bytes len ++ be16Bytes id ++ [0, 0] ++ [64, proto] ++ [0, 0] =
    pre
  have hlen : pre.length = 12 := by
    rw [← hpre]
    rfl
  have hm : m.putBytes ip (pre ++ be32Bytes src ++ be32Bytes dst) =
      (m.putBytes ip pre).putBytes (ip + 12) (be32Bytes src ++ be32Bytes dst) := by
    rw [List.append_assoc, Lib.ByteMem.putBytes_append, hlen]
  rw [hm]
  have hpre₁ : ∀ i, ip + 12 ≤ i → (m.putBytes ip pre).byte i = m.byte i := by
    intro i hi
    exact Lib.ByteMem.putBytes_byte_of_le _ _ _ (by rw [hlen]; exact hi)
  generalize m.putBytes ip pre = m₁ at hpre₁ ⊢
  generalize inetChecksum _ ip ipHdrLen = checksum
  -- the checksum is stored at 10 and 11
  have hkeep : ∀ (m : Lib.ByteMem) (i : ℕ), ip + 12 ≤ i →
      ((m.set (ip + 10) (loByte checksum)).set (ip + 11) (hiByte checksum)).byte i = m.byte i := by
    intro m i hi
    rw [Lib.ByteMem.set_byte_of_ne _ _ (by omega), Lib.ByteMem.set_byte_of_ne _ _ (by omega)]
  refine ⟨?_, ?_, ?_⟩
  · intro i hi
    unfold ipHdrLen at hi
    have hi8 : ip + 12 + (be32Bytes src ++ be32Bytes dst).length ≤ i := hi
    rw [hkeep _ i (by omega), Lib.ByteMem.putBytes_byte_of_le _ _ _ hi8, hpre₁ i (by omega)]
  · apply be32_of_bytes
    rw [bytesFrom_congr fun k _ => hkeep _ (ip + 12 + k) (by omega)]
    exact bytesFrom_putBytes m₁ (ip + 12) (be32Bytes src) (be32Bytes dst)
  · apply be32_of_bytes
    rw [bytesFrom_congr fun k _ => hkeep _ (ip + 16 + k) (by omega),
      Lib.ByteMem.putBytes_append, ← List.append_nil (be32Bytes dst)]
    exact bytesFrom_putBytes _ (ip + 16) (be32Bytes dst) []

theorem be32_congr {b b' : ℕ → BitVec 8} {i j : ℕ} (h : ∀ k < 4, b' (j + k) = b (i + k)) :
    be32 b' j = be32 b i := by
  have h0 : b' j = b i := h 0 (by decide)
  have h3 : b' (j + 2 + 1) = b (i + 2 + 1) := h 3 (by decide)
  rw [be32, be32, be16, be16, be16, be16, h0, h 1 (by decide), h 2 (by decide), h3]

/-! ## Sending packets -/

/-- `arp_resolve` that succeeds changes nothing. -/
theorem arpResolve_ok [DecidableEq α] (cfg : NetConfig α) {s : NetStack α σ} {ip : BitVec 32} :
    (arpResolve cfg s ip).2.1 = .ok → (arpResolve cfg s ip).1 = s := by
  unfold arpResolve
  rcases arpFind ip s.arpCache with _ | e
  · rcases cfg.netifDefault with _ | nif
    · intro h
      cases h
    · generalize s.allocTx arpHdrLen = r
      rcases r with ⟨s₁, _ | zb⟩
      · intro h
        cases h
      · intro h
        cases h
  · intro _
    rfl

namespace Packets
variable {P : Zbuf α → Prop} {s : NetStack α σ} [DecidableEq α] (cfg : NetConfig α)

/-- `eth_output` sends its buffer behind an Ethernet header. -/
theorem ethOutput (nif : IpNetif α) (s : NetStack α σ) (zb : α) (dstMac : Fin 6 → BitVec 8)
    (type : BitVec 16)
    (hP : type = ethTypeIp → ethHdrLen ≤ (s.pool.zb zb).data → ∀ z : Zbuf α,
      z.data = (s.pool.zb zb).data - ethHdrLen → z.len = (s.pool.zb zb).len + ethHdrLen →
      (∀ i, (s.pool.zb zb).data ≤ i → z.space.byte i = (s.pool.zb zb).space.byte i) → P z) :
    Packets P s (ethOutput cfg nif s zb dstMac type).1 := by
  unfold Gracemont.ethOutput
  rcases hpush : zbufPush (s.pool.zb zb) ethHdrLen with _ | ⟨z, eth⟩
  · exact free cfg s zb
  obtain ⟨hroom, heth, hdata, hlen, hspace⟩ := zbufPush_some (n := ethHdrLen) rfl hpush
  refine ⟨_, rfl, ?_⟩
  intro zb' z' hz hip
  obtain ⟨-, hz'⟩ := NetEvent.sent.inj (List.mem_singleton.1 hz)
  rw [NetStack.setBuf_zb_self] at hz'
  subst hz'
  refine hP hip hroom _ (hdata.trans heth) hlen fun i hi => ?_
  rw [← hspace]
  exact (putEthHdr_within _ _ _ _ _).frame i (.inr (by omega))

/-- What `arp_resolve` sends is no IP packet. -/
theorem arpResolve (s : NetStack α σ) (ip : BitVec 32) : Packets P s (arpResolve cfg s ip).1 := by
  unfold Gracemont.arpResolve
  rcases arpFind ip s.arpCache with _ | e
  · rcases cfg.netifDefault with _ | nif
    · exact of_log_eq rfl
    · have halloc : Packets P s (s.allocTx arpHdrLen).1 := allocTx s arpHdrLen
      generalize s.allocTx arpHdrLen = r at halloc ⊢
      rcases r with ⟨s₁, _ | zb⟩
      · exact halloc
      · refine (halloc.trans (of_log_eq rfl)).trans (ethOutput cfg nif _ zb _ _ fun h => ?_)
        cases h
  · exact of_log_eq rfl

/-- **What `ip_output` sends** is its buffer behind the two headers. -/
theorem ipOutput {nif : IpNetif α} (hnif : cfg.netifDefault = some nif) (s : NetStack α σ) (zb : α)
    (src dst : BitVec 32) (proto : BitVec 8) :
    Packets (IpFrame (s.pool.zb zb) (if src = 0 then nif.ip else src) dst) s
      (ipOutput cfg s zb src dst proto).1 := by
  unfold Gracemont.ipOutput
  simp only [hnif]
  generalize (if src = 0 then nif.ip else src) = src
  rcases hpush : zbufPush (s.pool.zb zb) ipHdrLen with _ | ⟨z, ip⟩
  · exact free cfg s zb
  obtain ⟨hroom, hip, hdata, hlen, hspace⟩ := zbufPush_some (n := ipHdrLen) rfl hpush
  simp only
  generalize hz : ({ z with space := _ } : Zbuf α) = z₁
  generalize hs : ({ s.setBuf zb z₁ with ipId := s.ipId + 1 } : NetStack α σ) = s₁
  obtain ⟨hkeep, hsrc, hdst⟩ := putIpHdr_spec z.space ip z.len s.ipId proto src dst
  have h₁ : Packets (IpFrame (s.pool.zb zb) src dst) s s₁ := of_log_eq (hs ▸ rfl)
  have hz₁ : s₁.pool.zb zb = z₁ := by
    rw [← hs]
    exact NetStack.setBuf_zb_self s zb z₁
  have heth : ∀ mac, Packets (IpFrame (s.pool.zb zb) src dst) s₁
      (Gracemont.ethOutput cfg nif s₁ zb mac ethTypeIp).1 := by
    intro mac
    refine ethOutput cfg nif s₁ zb mac ethTypeIp fun _ hroom' z' hd hl hb => ?_
    rw [hz₁] at hroom' hd hl hb
    subst hz
    simp only at hroom' hd hl hb
    refine ⟨by omega, by omega, by rw [hl, hlen], ?_, ?_, ?_⟩
    · intro i hi
      rw [hb i (by omega), hkeep i (by omega), hspace]
    · rw [← hip, ← hsrc]
      exact be32_congr fun k _ => hb _ (by omega)
    · rw [← hip, ← hdst]
      exact be32_congr fun k _ => hb _ (by omega)
  split_ifs
  · exact h₁.trans (heth _)
  · have harp : Packets (IpFrame (s.pool.zb zb) src dst) s₁
        (Gracemont.arpResolve cfg s₁ (nextHop nif dst)).1 := arpResolve cfg s₁ _
    have hok : (Gracemont.arpResolve cfg s₁ (nextHop nif dst)).2.1 = .ok → _ := arpResolve_ok cfg
    generalize Gracemont.arpResolve cfg s₁ (nextHop nif dst) = r at harp hok ⊢
    rcases r with ⟨s₂, st, mac⟩
    cases st
    case ok =>
      obtain rfl : s₂ = s₁ := hok rfl
      exact h₁.trans (heth mac)
    all_goals exact (h₁.trans harp).trans (free cfg s₂ zb)

end Packets

/-! ## Segments -/

/-- A frame with the segment `segment` behind its Ethernet and IP headers. -/
structure SegmentFrame (src dst : BitVec 32) (segment : List (BitVec 8)) (z : Zbuf α) : Prop where
  len : z.len = BitVec.ofNat 16 (ethHdrLen + ipHdrLen + segment.length)
  segment : bytesFrom z.space.byte (z.data + ethHdrLen + ipHdrLen) segment.length = segment
  src : be32 z.space.byte (z.data + ethHdrLen + 12) = src
  dst : be32 z.space.byte (z.data + ethHdrLen + 16) = dst

/-- The bytes of a buffer lie in its space. -/
def InSpace (z : Zbuf α) : Prop := z.data + z.len.toNat ≤ zbufEnd

/-- A packet made of a buffer with a header pushed in front of its data. -/
theorem IpFrame.segmentFrame {z₀ z₁ z : Zbuf α} {src dst : BitVec 32} {hdr : List (BitVec 8)} {p : ℕ}
    (hpush : zbufPush z₀ tcpHdrLen = some (z₁, p)) (hhdr : hdr.length = tcpHdrLen)
    (h : IpFrame { z₁ with space := z₁.space.putBytes p hdr } src dst z) :
    SegmentFrame src dst (hdr ++ payloadOf z₀) z := by
  obtain ⟨hroom, hp, hdata, hlen, hspace⟩ := zbufPush_some (n := tcpHdrLen) rfl hpush
  have hr : ethHdrLen + ipHdrLen ≤ z₁.data := h.room
  have hd : z.data = z₁.data - ipHdrLen - ethHdrLen := h.data
  have hstart : z.data + ethHdrLen + ipHdrLen = z₁.data := by omega
  have hip : z.data + ethHdrLen = z₁.data - ipHdrLen := by omega
  have hpay : (payloadOf z₀).length = z₀.len.toNat := by simp [payloadOf, bytesFrom]
  refine ⟨?_, ?_, ?_, ?_⟩
  · rw [h.len, hlen, List.length_append, hhdr, hpay]
    apply BitVec.eq_of_toNat_eq
    simp only [BitVec.toNat_add, BitVec.toNat_ofNat, BitVec.natCast_eq_ofNat]
    omega
  · have hbytes : ∀ i, z₁.data ≤ i → z.space.byte i = (z₁.space.putBytes p hdr).byte i := h.bytes
    rw [hstart, List.length_append, bytesFrom_append]
    refine congrArg₂ _ ?_ ?_
    · rw [bytesFrom_congr fun k _ => hbytes (z₁.data + k) (by omega), hdata]
      exact z₁.space.read_putBytes p hdr
    · have hbehind : ∀ k, z.space.byte (z₁.data + hdr.length + k) =
          z₀.space.byte (z₀.data + k) := by
        intro k
        rw [hbytes _ (by omega), Lib.ByteMem.putBytes_byte_of_le _ _ _ (by omega), hspace]
        congr 1
        omega
      rw [hpay]
      exact bytesFrom_congr fun k _ => hbehind k
  · rw [hip]
    exact h.src
  · rw [hip]
    exact h.dst

/-- The two functions that send segments. -/
inductive TcpEmission (α σ : Type) where
  | segment (sock : σ) (flags : BitVec 8) (data : Option α)
  | rst (seg : TcpSegment) (tcpLen : BitVec 16)

namespace TcpEmission

/-- The buffer with the data of the segment. -/
def data : TcpEmission α σ → Option α
  | segment _ _ data => data
  | rst _ _ => none

/-- The call. -/
def run [DecidableEq α] [DecidableEq σ] (cfg : NetConfig α) (s : NetStack α σ) :
    TcpEmission α σ → NetStack α σ
  | segment sock flags data => (tcpSendSegment cfg s sock flags data).1
  | rst seg tcpLen => tcpSendRst cfg s seg tcpLen

variable (s : NetStack α σ)

/-- The segment: its header, with 0 as the checksum, and the data. -/
def bytes : TcpEmission α σ → List (BitVec 8)
  | segment sock flags data =>
    segmentHdr (s.sock sock) flags ++ (data.map fun zb => payloadOf (s.pool.zb zb)).getD []
  | rst seg tcpLen => rstHdr seg tcpLen

/-- The addresses that are handed to `ip_output`, which replaces the source 0
    by that of the interface. -/
def addrs : TcpEmission α σ → BitVec 32 × BitVec 32
  | segment sock _ _ => ((s.sock sock).localAddr.addr, (s.sock sock).remoteAddr.addr)
  | rst seg _ => (seg.dstIp, seg.srcIp)

def src (cfg : NetConfig α) (e : TcpEmission α σ) : BitVec 32 :=
  if (e.addrs s).1 = 0 then (cfg.netifDefault.map IpNetif.ip).getD 0 else (e.addrs s).1

def dst (e : TcpEmission α σ) : BitVec 32 := (e.addrs s).2

end TcpEmission

namespace Packets
variable [DecidableEq α] [DecidableEq σ] (cfg : NetConfig α)

omit [DecidableEq σ] in
/-- A segment whose header was pushed into a buffer. -/
theorem segment {s s₁ : NetStack α σ} {zb : α} {z₀ z₁ : Zbuf α} {p : ℕ} {hdr : List (BitVec 8)}
    {src dst : BitVec 32} (hpush : zbufPush z₀ tcpHdrLen = some (z₁, p)) (hhdr : hdr.length = tcpHdrLen)
    (hlog : s₁.log = s.log)
    (hzb : s₁.pool.zb zb = { z₁ with space := z₁.space.putBytes p hdr }) :
    Packets (SegmentFrame (if src = 0 then (cfg.netifDefault.map IpNetif.ip).getD 0 else src) dst
      (hdr ++ payloadOf z₀)) s (Gracemont.ipOutput cfg s₁ zb src dst ipProtoTcp).1 := by
  refine (of_log_eq hlog).trans ?_
  rcases hnif : cfg.netifDefault with _ | nif
  · have hfree : (Gracemont.ipOutput cfg s₁ zb src dst ipProtoTcp).1 = s₁.free cfg zb := by
      unfold Gracemont.ipOutput
      rw [hnif]
    rw [hfree]
    exact free cfg s₁ zb
  · have hout := ipOutput cfg hnif s₁ zb src dst ipProtoTcp
    rw [hzb] at hout
    exact hout.mono fun z h => h.segmentFrame hpush hhdr

omit [DecidableEq σ] in
/-- A segment in a new buffer. -/
theorem segment_alloc {s s₁ s₂ : NetStack α σ} {zb : α} {z₁ : Zbuf α} {p : ℕ}
    {hdr : List (BitVec 8)} {src dst : BitVec 32} (halloc : s.allocTx 0 = (s₁, some zb))
    (hpush : zbufPush (s₁.pool.zb zb) tcpHdrLen = some (z₁, p)) (hhdr : hdr.length = tcpHdrLen)
    (hlog : s₂.log = s₁.log)
    (hzb : s₂.pool.zb zb = { z₁ with space := z₁.space.putBytes p hdr }) :
    Packets (SegmentFrame (if src = 0 then (cfg.netifDefault.map IpNetif.ip).getD 0 else src) dst
      hdr) s (Gracemont.ipOutput cfg s₂ zb src dst ipProtoTcp).1 := by
  have hempty : payloadOf (s₁.pool.zb zb) = [] := by
    unfold payloadOf
    rw [(NetStack.allocTx_some halloc).2]
    rfl
  have hseg : Packets (SegmentFrame _ dst (hdr ++ payloadOf (s₁.pool.zb zb))) s₁
      (Gracemont.ipOutput cfg s₂ zb src dst ipProtoTcp).1 := segment cfg hpush hhdr hlog hzb
  rw [hempty, List.append_nil] at hseg
  exact (of_allocTx halloc).trans hseg

/-- **What is sent** for a segment, by either function. -/
theorem emission (s : NetStack α σ) (e : TcpEmission α σ) :
    Packets (SegmentFrame (e.src s cfg) (e.dst s) (e.bytes s)) s (e.run cfg s) := by
  cases e with
  | segment sock flags data =>
    show Packets _ s (tcpSendSegment cfg s sock flags data).1
    unfold tcpSendSegment segmentBuf
    rcases data with _ | zb
    · have hbytes : (TcpEmission.segment sock flags none : TcpEmission α σ).bytes s =
          segmentHdr (s.sock sock) flags := List.append_nil _
      have hsock : (s.allocTx 0).1.sock = s.sock := rfl
      rw [hbytes]
      simp only
      rcases halloc : s.allocTx 0 with ⟨s₁, _ | zb⟩
      · exact of_allocTx halloc
      rw [halloc] at hsock
      simp only
      rcases hpush : zbufPush (s₁.pool.zb zb) tcpHdrLen with _ | ⟨z, tcp⟩
      · exact (of_allocTx halloc).trans (free cfg s₁ zb)
      · simp only [TcpEmission.src, TcpEmission.dst, TcpEmission.addrs, ← hsock]
        exact segment_alloc cfg halloc hpush rfl rfl (Function.update_self ..)
    · simp only
      rcases hpush : zbufPush (s.pool.zb zb) tcpHdrLen with _ | ⟨z, tcp⟩
      · exact of_log_eq rfl
      · exact segment cfg hpush rfl rfl (Function.update_self ..)
  | rst seg tcpLen =>
    show Packets _ s (tcpSendRst cfg s seg tcpLen)
    have hlen : (rstHdr seg tcpLen).length = tcpHdrLen := by
      unfold rstHdr
      split_ifs
      all_goals rfl
    unfold tcpSendRst
    rcases halloc : s.allocTx 0 with ⟨s₁, _ | zb⟩
    · exact of_allocTx halloc
    simp only
    rcases hpush : zbufPush (s₁.pool.zb zb) tcpHdrLen with _ | ⟨z, tcp⟩
    · exact (of_allocTx halloc).trans (free cfg s₁ zb)
    · exact segment_alloc cfg halloc hpush hlen rfl (Function.update_self ..)

end Packets

/-! ## Main result -/

/-- The frame `z` arrives unchanged, and `tcp_input` gets it as `r`, with the IP
    header in front of the data. -/
structure Delivered (z r : Zbuf α) : Prop where
  room : ipHdrLen ≤ r.data
  len : r.len = z.len - BitVec.ofNat 16 (ethHdrLen + ipHdrLen)
  bytes : ∀ i < z.len.toNat - ethHdrLen,
    r.space.byte (r.data - ipHdrLen + i) = z.space.byte (z.data + ethHdrLen + i)

/-- What `tcp_input` sees of a segment that was delivered. -/
theorem SegmentFrame.delivered {src dst : BitVec 32} {segment : List (BitVec 8)} {z r : Zbuf α}
    (h : SegmentFrame src dst segment z) (hr : Delivered z r)
    (hlen : ethHdrLen + ipHdrLen + segment.length < 2 ^ 16) :
    be32 r.space.byte (r.data - ipHdrLen + 12) = src ∧
      be32 r.space.byte (r.data - ipHdrLen + 16) = dst ∧
      bytesFrom r.space.byte r.data r.len.toNat = segment := by
  have hroom := hr.room
  have hz : z.len.toNat = ethHdrLen + ipHdrLen + segment.length := by
    rw [h.len, BitVec.toNat_ofNat, Nat.mod_eq_of_lt hlen]
  have h14 : ethHdrLen = 14 := rfl
  have h20 : ipHdrLen = 20 := rfl
  have hrlen : r.len.toNat = segment.length := by
    rw [hr.len, BitVec.toNat_sub, hz, BitVec.toNat_ofNat]
    omega
  have haddr : ∀ o, o + 4 ≤ ipHdrLen → be32 r.space.byte (r.data - ipHdrLen + o) =
      be32 z.space.byte (z.data + ethHdrLen + o) := by
    intro o ho
    refine be32_congr fun k hk => ?_
    have hb := hr.bytes (o + k) (by omega)
    rw [← Nat.add_assoc, ← Nat.add_assoc] at hb
    exact hb
  refine ⟨(haddr 12 (by decide)).trans h.src, (haddr 16 (by decide)).trans h.dst, ?_⟩
  rw [hrlen]
  refine (bytesFrom_congr fun k hk => ?_).trans h.segment
  have hb := hr.bytes (ipHdrLen + k) (by omega)
  have hrk : r.data - ipHdrLen + (ipHdrLen + k) = r.data + k := by omega
  rw [hrk, ← Nat.add_assoc] at hb
  exact hb

theorem TcpEmission.bytes_length (s : NetStack α σ) (e : TcpEmission α σ)
    (hdata : ∀ zb, e.data = some zb → InSpace (s.pool.zb zb)) :
    (e.bytes s).length ≤ tcpHdrLen + zbufEnd := by
  cases e with
  | segment sock flags data =>
    rcases data with _ | zb
    · simp [bytes, segmentHdr, tcpHdr, be16Bytes, be32Bytes, tcpHdrLen]
    · have hin : (s.pool.zb zb).data + (s.pool.zb zb).len.toNat ≤ zbufEnd := hdata zb rfl
      have hhdr : (segmentHdr (s.sock sock) flags).length = tcpHdrLen := rfl
      simp only [bytes, List.length_append, hhdr, Option.map_some, Option.getD_some, payloadOf,
        bytesFrom, List.length_map, List.length_range]
      omega
  | rst seg tcpLen =>
    have hlen : (rstHdr seg tcpLen).length = tcpHdrLen := by
      unfold rstHdr
      split_ifs
      all_goals rfl
    simp only [bytes, hlen]
    omega

section
variable [DecidableEq α] [DecidableEq σ] (cfg : NetConfig α)

/-- **Checksum agreement.**  A segment that was sent, and delivered unchanged,
    passes the check of `tcp_input` exactly if its sum, with 0 in the checksum
    field, is a multiple of `0xFFFF`. -/
theorem tcp_checksum_agreement_iff {s : NetStack α σ} {e : TcpEmission α σ}
    (hdata : ∀ zb, e.data = some zb → InSpace (s.pool.zb zb)) {new : List (NetEvent α σ)}
    (hlog : (e.run cfg s).log = s.log ++ new) {zb : α} {z : Zbuf α}
    (hsent : NetEvent.sent zb z ∈ new) (hip : z.protocol = ethTypeIp) {r : Zbuf α}
    (hr : Delivered z r) :
    tcpChecksum r.space.byte (r.data - ipHdrLen) r.data r.len = 0 ↔
      2 ^ 16 - 1 ∣ tcpSum (e.src s cfg) (e.dst s) (e.bytes s) := by
  obtain ⟨new', hnew, hP⟩ := Packets.emission cfg s e
  obtain rfl : new' = new := List.append_cancel_left (hnew.symm.trans hlog)
  have hframe := hP zb z hsent hip
  have hlen := e.bytes_length s hdata
  have hbound : tcpHdrLen + zbufEnd = 2068 := rfl
  have h34 : ethHdrLen + ipHdrLen = 34 := rfl
  obtain ⟨hsrc, hdst, hbytes⟩ := hframe.delivered hr (by omega)
  rw [tcpChecksum_eq_zero_iff, hsrc, hdst, hbytes]

end

/-- A frame without its Ethernet and IP headers. -/
def Zbuf.stripped (z : Zbuf α) : Zbuf α :=
  { z with data := z.data + ethHdrLen + ipHdrLen, len := z.len - BitVec.ofNat 16 (ethHdrLen + ipHdrLen) }

theorem delivered_stripped (z : Zbuf α) : Delivered z z.stripped := by
  have hdata : z.stripped.data - ipHdrLen = z.data + ethHdrLen := Nat.add_sub_cancel ..
  refine ⟨Nat.le_add_left .., rfl, fun i _ => ?_⟩
  rw [hdata]
  rfl

/-- A stack with a free buffer, and sockets whose peer is a broadcast address. -/
def demoTx : NetStack (Fin 2) (Fin 2) :=
  { demoStack with
    pool := { demoStack.pool with freeList := some 0 }
    sock := fun _ => { demoSocket with remoteAddr := ⟨ip4AddrBroadcast, 8080⟩ } }

/-- The SYN of such a socket. -/
def demoSyn : TcpEmission (Fin 2) (Fin 2) := .segment 0 tcpFlagSyn none

theorem tcp_checksum_agreement_syn : ∃ z, NetEvent.sent 0 z ∈ (demoSyn.run demoNet demoTx).log ∧
    (tcpChecksum z.stripped.space.byte (z.stripped.data - ipHdrLen) z.stripped.data
        z.stripped.len = 0 ↔
      2 ^ 16 - 1 ∣ tcpSum (demoSyn.src demoTx demoNet) (demoSyn.dst demoTx)
        (demoSyn.bytes demoTx)) := by
  have hmem := fun z : Zbuf (Fin 2) => List.mem_cons_of_mem (NetEvent.allocated (σ := Fin 2) 0)
    (List.mem_singleton_self (NetEvent.sent 0 z))
  refine ⟨_, hmem _, ?_⟩
  refine tcp_checksum_agreement_iff demoNet ?_ rfl (hmem _) rfl (delivered_stripped _)
  intro zb h
  cases h

/-- It fails the check. -/
theorem tcp_checksum_wrong : ∃ z, NetEvent.sent 0 z ∈
      (demoSyn.run demoNet demoTx).log ∧
    z.protocol = ethTypeIp ∧ Delivered z z.stripped ∧
    tcpChecksum z.stripped.space.byte (z.stripped.data - ipHdrLen) z.stripped.data z.stripped.len
      ≠ 0 := by
  refine ⟨_, List.mem_cons_of_mem _ (List.mem_singleton_self _), rfl, delivered_stripped _, ?_⟩
  decide +kernel

end Gracemont
