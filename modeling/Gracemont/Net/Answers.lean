/-
  Gracemont networking — the answers of a host: ARP and ICMP echo.

  A request of `arp_resolve` that reaches the host with the address is answered,
  and the answer makes the next call succeed; an echo request is sent back with
  its data.

  * `ArpPacket`, `CarriesArp`: packets of ARP, and the frames that carry them;
  * `arp_exchange`: request and reply;
  * `icmp_echo`: an echo request and its reply.
-/
import Gracemont.Net.ArpCache
import Gracemont.Net.UdpNetwork

namespace Gracemont

variable {α σ : Type} [DecidableEq α]

/-! ## Frames -/

/-- **`eth_output`** with room for the header sends one frame. -/
theorem ethOutput_sent (cfg : NetConfig α) (nif : IpNetif α) (s : NetStack α σ) (zb : α)
    (dstMac : MacAddr) (type : BitVec 16) (hroom : ethHdrLen ≤ (s.pool.zb zb).data) :
    ∃ z, (ethOutput cfg nif s zb dstMac type).1.log = s.log ++ [.sent zb z] ∧
      z.data = (s.pool.zb zb).data - ethHdrLen ∧ z.len = (s.pool.zb zb).len + ethHdrLen ∧
      (∀ i, (s.pool.zb zb).data ≤ i → z.space.byte i = (s.pool.zb zb).space.byte i) ∧
      be16 z.space.byte (z.data + 12) = type ∧ macAt z.space.byte z.data = dstMac ∧
      z.protocol = type := by
  unfold ethOutput
  rw [zbufPush_eq (by decide), if_neg (Nat.not_lt.2 hroom)]
  obtain ⟨hdst, -, htype⟩ := putEthHdr_at ((s.pool.zb zb).data - ethHdrLen) dstMac nif.mac
    (s.pool.zb zb).space type
  refine ⟨_, rfl, ?_⟩
  rw [NetStack.setBuf_zb_self]
  refine ⟨rfl, rfl, fun i hi => ?_, htype, hdst, rfl⟩
  exact (putEthHdr_within _ _ _ _ _).frame i (.inr (by omega))

/-- A packet of ARP. -/
structure ArpPacket where
  oper : BitVec 16
  sha : MacAddr
  spa : BitVec 32
  tha : MacAddr
  tpa : BitVec 32

def ArpPacket.bytes (p : ArpPacket) : List (BitVec 8) := arpHdr p.oper p.sha p.spa p.tha p.tpa

/-- The frame carries the packet of ARP. -/
structure CarriesArp (p : ArpPacket) (f : List (BitVec 8)) : Prop where
  type : be16 (octet f) 12 = ethTypeArp
  data : f.drop ethHdrLen = p.bytes

theorem CarriesArp.length {p : ArpPacket} {f : List (BitVec 8)} (h : CarriesArp p f) :
    f.length = ethHdrLen + arpHdrLen := by
  have hlen := congrArg List.length h.data
  have hbytes : p.bytes.length = 28 := by simp [ArpPacket.bytes, arpHdr, be16Bytes, be32Bytes]
  rw [List.length_drop, hbytes] at hlen
  unfold ethHdrLen arpHdrLen at *
  omega

theorem macAt_of_bytes {b : ℕ → BitVec 8} {i : ℕ} {mac : MacAddr}
    (h : bytesFrom b i 6 = List.ofFn mac) : macAt b i = mac := by
  funext j
  have hj := congrArg (fun l => l[(j : ℕ)]?) h
  simp only [bytesFrom, List.getElem?_map, List.getElem?_range j.isLt, Option.map_some,
    List.getElem?_ofFn, j.isLt, dif_pos, Option.some.injEq] at hj
  exact hj

section
variable {p : ArpPacket} {z : Zbuf α} (h : CarriesArp p (payloadOf z))
include h

omit [DecidableEq α] in
/-- A part of the packet in its buffer. -/
theorem CarriesArp.part {k n : ℕ} (hk : k + n ≤ arpHdrLen) :
    bytesFrom z.space.byte (z.data + ethHdrLen + k) n = (p.bytes.drop k).take n := by
  have hlen := h.length
  rw [← h.data, List.drop_drop]
  refine List.ext_getElem ?_ fun i h1 h2 => ?_
  · simp only [bytesFrom, List.length_map, List.length_range, List.length_take, List.length_drop]
    omega
  · simp only [bytesFrom, List.length_map, List.length_range] at h1
    rw [payloadOf_length] at hlen
    have hi : ethHdrLen + k + i < z.len.toNat := by omega
    have hbyte := octet_payloadOf hi
    have hi' : ethHdrLen + k + i < (payloadOf z).length := by rwa [payloadOf_length]
    rw [octet, List.getElem?_eq_getElem hi'] at hbyte
    simp only [bytesFrom, List.getElem_map, List.getElem_range, List.getElem_take,
      List.getElem_drop]
    rw [Nat.add_assoc, Nat.add_assoc, ← Nat.add_assoc ethHdrLen]
    exact hbyte.symm

omit [DecidableEq α] in
/-- **Reading the packet** where it lies. -/
theorem CarriesArp.fields : be16 z.space.byte (z.data + ethHdrLen) = 1 ∧
    be16 z.space.byte (z.data + ethHdrLen + 2) = ethTypeIp ∧
    be16 z.space.byte (z.data + ethHdrLen + 6) = p.oper ∧
    macAt z.space.byte (z.data + ethHdrLen + 8) = p.sha ∧
    be32 z.space.byte (z.data + ethHdrLen + 14) = p.spa ∧
    be32 z.space.byte (z.data + ethHdrLen + 24) = p.tpa := by
  refine ⟨be16_of_bytes ((h.part (k := 0) (by decide)).trans rfl),
    be16_of_bytes ((h.part (by decide)).trans rfl),
    be16_of_bytes ((h.part (by decide)).trans rfl),
    macAt_of_bytes ((h.part (by decide)).trans rfl),
    be32_of_bytes ((h.part (by decide)).trans rfl),
    be32_of_bytes ((h.part (by decide)).trans rfl)⟩

end

/-! ## Sending -/

section
variable (cfg : NetConfig α) {nif : IpNetif α} {s : NetStack α σ}

/-- A packet of ARP in a new buffer is sent. -/
theorem arpOutput_carries (nif : IpNetif α) {s₁ : NetStack α σ} {zb : α}
    (halloc : s.allocTx arpHdrLen = (s₁, some zb)) (p : ArpPacket) (dstMac : MacAddr) :
    ∃ z, (ethOutput cfg nif (s₁.setBuf zb ((s₁.pool.zb zb).append arpHdrLen p.bytes)) zb dstMac
        ethTypeArp).1.log = s₁.log ++ [.sent zb z] ∧ CarriesArp p (payloadOf z) ∧
      macAt z.space.byte z.data = dstMac := by
  have hpool : (zbufAllocTx s.pool arpHdrLen).1 = s₁.pool := congrArg (fun r => r.1.pool) halloc
  have hzb : (zbufAllocTx s.pool arpHdrLen).2 = some zb := congrArg Prod.snd halloc
  obtain ⟨hdata, htail, hlen⟩ := zbufAllocTx_some (Prod.ext hpool hzb)
  have harp : (arpHdrLen : BitVec 16).toNat = arpHdrLen := rfl
  have hbytes : p.bytes.length = 28 := by
    simp [ArpPacket.bytes, arpHdr, be16Bytes, be32Bytes]
  have happend := Zbuf.append_of_le (s₁.pool.zb zb) arpHdrLen p.bytes (by
    rw [htail, harp]
    decide)
  obtain ⟨z, hz, hzdata, hzlen, hzbytes, htype, hmac, -⟩ := ethOutput_sent cfg nif
    (s₁.setBuf zb ((s₁.pool.zb zb).append arpHdrLen p.bytes)) zb dstMac ethTypeArp (by
      rw [NetStack.setBuf_zb_self, Zbuf.append_data, hdata]
      decide)
  rw [NetStack.setBuf_zb_self, happend] at hzdata hzlen hzbytes
  simp only [hdata, hlen, htail] at hzdata hzlen hzbytes
  have hl : z.len.toNat = 42 := by
    rw [hzlen]
    rfl
  refine ⟨z, hz, ⟨?_, ?_⟩, hmac⟩
  · rw [be16_payloadOf (by omega), htype]
  · have hstart : z.data + 14 = configZbufHeadroom := by
      rw [hzdata]
      rfl
    have hread := bytesFrom_putBytes (s₁.pool.zb zb).space configZbufHeadroom p.bytes []
    rw [List.append_nil, hbytes] at hread
    have hsplit : payloadOf z = bytesFrom z.space.byte z.data 14 ++ p.bytes := by
      rw [payloadOf, hl, show 42 = 14 + 28 from rfl, bytesFrom_append, hstart]
      congr 1
      exact (bytesFrom_congr fun k _ => hzbytes _ (Nat.le_add_right _ k)).trans hread
    rw [hsplit]
    exact List.drop_left' (by simp [bytesFrom, ethHdrLen])

/-- **A request** for an address that is not in the cache. -/
theorem arpResolve_asks (hnif : cfg.netifDefault = some nif) {ip : BitVec 32}
    (hmiss : arpFind ip s.arpCache = none) (hfree : s.pool.freeList ≠ none) :
    ∃ zb z, (arpResolve cfg s ip).2.1 = .wouldBlock ∧
      (arpResolve cfg s ip).1.log = s.log ++ [.allocated zb, .sent zb z] ∧
      CarriesArp ⟨arpOpRequest, nif.mac, nif.ip, macBroadcast, ip⟩ (payloadOf z) := by
  obtain ⟨zb, hzb⟩ := Option.ne_none_iff_exists'.1 hfree
  have harp : (arpHdrLen : BitVec 16).toNat ≤ configZbufSize - configZbufHeadroom := by decide
  obtain ⟨pool', halloc, -⟩ := zbufAllocTx_spec hzb harp
  have hnew : s.allocTx arpHdrLen =
      ({ s with pool := pool', log := s.log ++ [.allocated zb] }, some zb) := by
    unfold NetStack.allocTx
    rw [halloc]
    rfl
  obtain ⟨z, hlog, hcarries, -⟩ := arpOutput_carries cfg nif hnew
    ⟨arpOpRequest, nif.mac, nif.ip, macBroadcast, ip⟩ macBroadcast
  unfold arpResolve
  rw [hmiss, hnif]
  dsimp only
  rw [hnew]
  refine ⟨zb, z, rfl, ?_, hcarries⟩
  refine hlog.trans ?_
  rw [List.append_assoc]
  rfl

variable [DecidableEq σ] {zb : α} {p : ArpPacket}

omit [DecidableEq α] [DecidableEq σ] in
/-- What the frame announces. -/
theorem CarriesArp.sender {z : Zbuf α} (h : CarriesArp p (payloadOf z)) :
    z.arpSender = some (p.spa, p.sha) := by
  have hlen := h.length
  rw [payloadOf_length] at hlen
  obtain ⟨htype, hptype, -, hsha, hspa, -⟩ := h.fields
  have harp := h.type
  rw [be16_payloadOf (by unfold ethHdrLen arpHdrLen at hlen; omega)] at harp
  unfold Zbuf.arpSender
  simp only
  rw [if_pos ⟨hlen.ge, harp, htype, hptype⟩, hsha, hspa]

/-- **The answer** to a request for the address of the host. -/
theorem netifInput_answers (fuel : ℕ) (nif : IpNetif α)
    (h : CarriesArp p (payloadOf (s.pool.zb zb))) :
    ∃ s', netifInput cfg fuel nif s zb = some s' ∧
      s'.arpCache = arpInsert (arpEntry (p.spa, p.sha)) s.arpCache ∧
      (p.oper = arpOpRequest → p.tpa = nif.ip → s.pool.freeList ≠ none → ∃ reply z, NetEvent.sent reply z ∈ s'.log ∧
        CarriesArp ⟨arpOpReply, nif.mac, nif.ip, p.sha, p.spa⟩ (payloadOf z) ∧
        macAt z.space.byte z.data = p.sha) := by
  generalize hz : s.pool.zb zb = z at h
  have hlen := h.length
  rw [payloadOf_length] at hlen
  obtain ⟨htype, hptype, hoper, hsha, hspa, htpa⟩ := h.fields
  have harp := h.type
  rw [be16_payloadOf (by unfold ethHdrLen arpHdrLen at hlen; omega)] at harp
  have heth : (ethHdrLen : BitVec 16).toNat = ethHdrLen := rfl
  have hin : netifInput cfg fuel nif s zb = some (arpInput cfg nif (s.setBuf zb z.stripEth) zb) := by
    unfold netifInput Zbuf.stripEth
    simp only
    rw [hz, if_neg (by omega), harp, if_neg (by decide), if_pos rfl,
      NetStack.pull_setBuf _ _ _ (by rw [heth]; dsimp only; omega), heth]
  refine ⟨_, hin, ?_, fun hreq hme hfree => ?_⟩
  · have hcache := netifInput_arpCache hin
    rw [hz, h.sender] at hcache
    exact hcache
  have hlen₁ : ¬ z.stripEth.len.toNat < arpHdrLen := by
    have hsub : z.stripEth.len.toNat = z.len.toNat - 14 :=
      BitVec.toNat_sub_of_le (by show 14 ≤ z.len.toNat; unfold ethHdrLen at hlen; omega)
    unfold ethHdrLen at hlen
    omega
  unfold arpInput
  rw [NetStack.setBuf_zb_self]
  simp only
  rw [if_neg hlen₁]
  have hdata₁ : z.stripEth.data = z.data + ethHdrLen := rfl
  have hspace₁ : z.stripEth.space = z.space := rfl
  rw [hdata₁, hspace₁, htype, hptype, hoper, hsha, hspa, htpa, if_neg (by simp),
    if_pos ⟨hreq, hme⟩]
  generalize hs : ({ s.setBuf zb z.stripEth with arpCache := _ } : NetStack α σ) = s₁
  obtain ⟨reply, hreply⟩ := Option.ne_none_iff_exists'.1 hfree
  have hfree₁ : s₁.pool.freeList = some reply := hs ▸ hreply
  have harp : (arpHdrLen : BitVec 16).toNat ≤ configZbufSize - configZbufHeadroom := by decide
  obtain ⟨pool', halloc, -⟩ := zbufAllocTx_spec hfree₁ harp
  have hnew : s₁.allocTx arpHdrLen =
      ({ s₁ with pool := pool', log := s₁.log ++ [.allocated reply] }, some reply) := by
    unfold NetStack.allocTx
    rw [halloc]
    rfl
  obtain ⟨z', hlog, hcarries, hmac⟩ := arpOutput_carries cfg nif hnew
    ⟨arpOpReply, nif.mac, nif.ip, p.sha, p.spa⟩ p.sha
  refine ⟨reply, z', ?_, hcarries, hmac⟩
  unfold arpReply
  rw [hnew]
  refine List.mem_append_left _ ?_
  refine (congrArg (NetEvent.sent reply z' ∈ ·) hlog).mpr ?_
  simp

end

/-! ## Request and reply -/

section
variable {cache : List ArpEntry} {ip : BitVec 32} {mac : MacAddr}

/-- An address that the cache does not know is known when its packet finds a place. -/
theorem arpFind_arpInsert (hmiss : arpFind ip cache = none) (hplace : ∃ e ∈ cache, e.valid = false) :
    arpFind ip (arpInsert (arpEntry (ip, mac)) cache) = some (arpEntry (ip, mac)) := by
  induction cache with
  | nil => simp at hplace
  | cons e cache ih =>
    rw [arpInsert]
    by_cases hvalid : e.valid = true
    · rw [if_pos hvalid]
      have hne : ¬ e.ip = ip := by
        intro he
        simp [arpFind, hvalid, he] at hmiss
      have hrest : ∃ e ∈ cache, e.valid = false := by
        obtain ⟨e', he', hinvalid⟩ := hplace
        rcases List.mem_cons.1 he' with rfl | he'
        · rw [hvalid] at hinvalid
          cases hinvalid
        · exact ⟨e', he', hinvalid⟩
      have hmiss' : arpFind ip cache = none := by
        simpa [arpFind, hne] using hmiss
      simpa [arpFind, hne] using ih hmiss' hrest
    · rw [if_neg hvalid]
      simp [arpFind, arpEntry]

end

/-- **The exchange of ARP.**  A call of `arp_resolve` for an address that is not in
    the cache sends one request; when it arrives at the host with the address, a
    reply goes back to the sender, and the host knows the sender; when that
    arrives, the next call returns the hardware address of the host. -/
theorem arp_exchange [DecidableEq σ] (cfg : NetConfig α) {nif : IpNetif α}
    (hnif : cfg.netifDefault = some nif) {s : NetStack α σ} {ip : BitVec 32}
    (hmiss : arpFind ip s.arpCache = none) (hfree : s.pool.freeList ≠ none) :
    ∃ zb z, (arpResolve cfg s ip).2.1 = .wouldBlock ∧
      (arpResolve cfg s ip).1.log = s.log ++ [.allocated zb, .sent zb z] ∧
      ∀ (cfg' : NetConfig α) (fuel : ℕ) (nif' : IpNetif α) (t : NetStack α σ) (zb' : α),
        nif'.ip = ip → payloadOf (t.pool.zb zb') = payloadOf z → t.pool.freeList ≠ none →
        ∃ t' reply z', netifInput cfg' fuel nif' t zb' = some t' ∧
          NetEvent.sent reply z' ∈ t'.log ∧ macAt z'.space.byte z'.data = nif.mac ∧
          (arpFind nif.ip t.arpCache = none → (∃ e ∈ t.arpCache, e.valid = false) →
            (arpResolve cfg' t' nif.ip).2 = (.ok, nif.mac)) ∧
          ∀ (u : NetStack α σ) (zb'' : α), payloadOf (u.pool.zb zb'') = payloadOf z' →
            arpFind ip u.arpCache = none → (∃ e ∈ u.arpCache, e.valid = false) → ∃ u',
              netifInput cfg fuel nif u zb'' = some u' ∧
                (arpResolve cfg u' ip).2 = (.ok, nif'.mac) := by
  obtain ⟨zb, z, hblock, hlog, hreq⟩ := arpResolve_asks cfg hnif hmiss hfree
  have hknown : ∀ (cfg : NetConfig α) {v : NetStack α σ} {ip : BitVec 32} {mac : MacAddr},
      arpFind ip v.arpCache = some (arpEntry (ip, mac)) →
      (arpResolve cfg v ip).2 = (.ok, mac) := by
    intro cfg v ip mac hfind
    unfold arpResolve
    rw [hfind]
    rfl
  refine ⟨zb, z, hblock, hlog, fun cfg' fuel nif' t zb' hip hframe htfree => ?_⟩
  rw [← hframe] at hreq
  obtain ⟨t', hin, hcache, hanswer⟩ := netifInput_answers cfg' fuel nif' hreq
  obtain ⟨reply, z', hsent, hreply, hmac⟩ := hanswer rfl hip.symm htfree
  refine ⟨t', reply, z', hin, hsent, hmac, fun hmiss' hplace => ?_, ?_⟩
  · refine hknown cfg' ?_
    rw [hcache]
    exact arpFind_arpInsert hmiss' hplace
  · intro u zb'' hframe' hmiss' hplace
    rw [← hframe'] at hreply
    obtain ⟨u', hin', hcache', -⟩ := netifInput_answers cfg fuel nif hreply
    refine ⟨u', hin', hknown cfg ?_⟩
    rw [hcache']
    rw [← hip] at hmiss' ⊢
    exact arpFind_arpInsert hmiss' hplace

/-- A host that does not know any address, with the buffer `z`. -/
def demoAsker (z : Zbuf (Fin 2)) : NetStack (Fin 2) (Fin 2) :=
  { demoDgram with
    pool := { demoDgram.pool with zb := fun _ => z }
    arpCache := [{ arpEntry (0, macBroadcast) with valid := false }] }

/-- The interface of a second host. -/
def demoPeer : IpNetif (Fin 2) := { demoNif with mac := fun _ => 3, ip := 0x0A000003 }

theorem demoAsker_miss (z : Zbuf (Fin 2)) (ip : BitVec 32) :
    arpFind ip (demoAsker z).arpCache = none := by
  simp [demoAsker, arpFind]

theorem demoAsker_place (z : Zbuf (Fin 2)) :
    ∃ e ∈ (demoAsker z).arpCache, e.valid = false := ⟨_, List.mem_singleton_self _, rfl⟩

theorem demoAsker_free (z : Zbuf (Fin 2)) : (demoAsker z).pool.freeList ≠ none := by
  simp [demoAsker, demoDgram]

/-- Two hosts that do not know each other. -/
theorem arp_exchange_peer : ∃ t u : NetStack (Fin 2) (Fin 2),
    (arpResolve demoNet (demoAsker demoZbuf) demoPeer.ip).2.1 = .wouldBlock ∧
      (arpResolve ⟨.arm64, some demoPeer⟩ t demoNif.ip).2 = (.ok, demoNif.mac) ∧
      (arpResolve demoNet u demoPeer.ip).2 = (.ok, demoPeer.mac) := by
  have hnif : demoNet.netifDefault = some demoNif := rfl
  obtain ⟨zb, z, hblock, -, hpeer⟩ := arp_exchange demoNet hnif
    (demoAsker_miss demoZbuf demoPeer.ip) (demoAsker_free demoZbuf)
  obtain ⟨t, reply, z', -, -, -, hknown, hreply⟩ := hpeer ⟨.arm64, some demoPeer⟩ 1 demoPeer
    (demoAsker z) 1 rfl rfl (demoAsker_free z)
  obtain ⟨u, -, hfound⟩ := hreply (demoAsker z') 1 rfl (demoAsker_miss z' _)
    (demoAsker_place z')
  have ht := hknown (demoAsker_miss z _) (demoAsker_place z)
  exact ⟨t, u, hblock, ht, hfound⟩

/-! ## Echo -/

/-- **`ip_output`** with room for its headers, to an address that it can resolve,
    hands one frame to the driver. -/
theorem ipOutput_sent (cfg : NetConfig α) {nif : IpNetif α} (hnif : cfg.netifDefault = some nif)
    (s : NetStack α σ) (zb : α) (src dst : BitVec 32) (proto : BitVec 8)
    (hroom : ethHdrLen + ipHdrLen ≤ (s.pool.zb zb).data)
    (hmac : (resolveHop nif s.arpCache dst).isSome) :
    ∃ z, (ipOutput cfg s zb src dst proto).1.log = s.log ++ [.sent zb z] ∧
      PacketFrame proto (if src = 0 then nif.ip else src) dst (s.pool.zb zb) z := by
  have hpackets := ipOutput_packets cfg hnif s zb src dst proto
  obtain ⟨z, hlog, hip⟩ : ∃ z, (ipOutput cfg s zb src dst proto).1.log = s.log ++ [.sent zb z] ∧
      z.protocol = ethTypeIp := by
    unfold ipOutput
    simp only [hnif]
    rw [zbufPush_eq (by decide), if_neg (by omega)]
    dsimp only
    generalize hz : ({ s.pool.zb zb with data := _, len := _, space := _ } : Zbuf α) = z₁
    generalize hs : ({ s.setBuf zb z₁ with ipId := s.ipId + 1 } : NetStack α σ) = s₁
    have hlog : s₁.log = s.log := hs ▸ rfl
    have hcache : s₁.arpCache = s.arpCache := hs ▸ rfl
    have hdata : (s₁.pool.zb zb).data = (s.pool.zb zb).data - ipHdrLen := by
      rw [← hs, ← hz]
      exact congrArg Zbuf.data (NetStack.setBuf_zb_self ..)
    have heth : ∀ mac, ∃ z, (ethOutput cfg nif s₁ zb mac ethTypeIp).1.log =
        s.log ++ [.sent zb z] ∧ z.protocol = ethTypeIp := by
      intro mac
      obtain ⟨z, hsent, -, -, -, -, -, hip⟩ := ethOutput_sent cfg nif s₁ zb mac ethTypeIp
        (by omega)
      exact ⟨z, hlog ▸ hsent, hip⟩
    split_ifs with hbroad
    · exact heth macBroadcast
    · unfold resolveHop at hmac
      rw [if_neg hbroad, Option.isSome_map] at hmac
      obtain ⟨e, he⟩ := Option.isSome_iff_exists.1 hmac
      rw [← hcache] at he
      rw [arpResolve_of_some cfg s₁ he]
      exact heth e.mac
  obtain ⟨new, hnew, hframe⟩ := hpackets
  obtain rfl : new = [.sent zb z] := List.append_cancel_left (hnew.symm.trans hlog)
  exact ⟨z, hlog, (hframe zb z (List.mem_singleton_self _)).resolve_left fun h => h.protocol hip⟩

/-- An echo request to the interface, in a frame of its host. -/
structure EchoRequest (nif : IpNetif α) (f : List (BitVec 8)) : Prop where
  packet : IsPacket ipProtoIcmp f
  length : ethHdrLen + ipHdrLen + icmpHdrLen ≤ f.length
  ihl : octet f 14 = 0x45
  checksum : inetChecksum (octet f) 14 ipHdrLen = 0
  dst : be32 (octet f) 30 = nif.ip
  request : octet f 34 = icmpEchoRequest

/-- The frame is the reply to the request `f`: it goes back, with the same code,
    identifier, number and data. -/
structure EchoReply (nif : IpNetif α) (f f' : List (BitVec 8)) : Prop where
  packet : IsPacket ipProtoIcmp f'
  length : f'.length = f.length
  header : inetChecksum (octet f') 14 ipHdrLen = 0
  src : be32 (octet f') 26 = nif.ip
  dst : be32 (octet f') 30 = be32 (octet f) 26
  reply : octet f' 34 = icmpEchoReply
  code : octet f' 35 = octet f 35
  data : f'.drop 38 = f.drop 38
  checksum : inetChecksum (octet f') 34 (f'.length - 34) = 0

/-- The bytes of the reply that `icmp_input` makes. -/
theorem putIcmpReply_byte (m : Lib.ByteMem) (icmp len : ℕ) :
    (putIcmpReply m icmp len).byte icmp = icmpEchoReply ∧
      ∀ i, i ≠ icmp → i ≠ icmp + 2 → i ≠ icmp + 3 →
        (putIcmpReply m icmp len).byte i = m.byte i := by
  unfold putIcmpReply
  constructor
  · simp only
    rw [Lib.ByteMem.set_byte_of_ne _ _ (by omega), Lib.ByteMem.set_byte_of_ne _ _ (by omega),
      Lib.ByteMem.set_byte_of_ne _ _ (by omega), Lib.ByteMem.set_byte_of_ne _ _ (by omega),
      Lib.ByteMem.set_byte_self]
  · intro i h0 h2 h3
    simp only
    rw [Lib.ByteMem.set_byte_of_ne _ _ h3, Lib.ByteMem.set_byte_of_ne _ _ h2,
      Lib.ByteMem.set_byte_of_ne _ _ h3, Lib.ByteMem.set_byte_of_ne _ _ h2,
      Lib.ByteMem.set_byte_of_ne _ _ h0]

/-- **`icmp_input`** with an echo request makes the reply and gives it to `ip_output`. -/
theorem icmpInput_request (cfg : NetConfig α) (s : NetStack α σ) (zb : α) {z : Zbuf α}
    (hlen : icmpHdrLen ≤ z.len.toNat) (htype : z.space.byte z.data = icmpEchoRequest) :
    icmpInput cfg (s.setBuf zb z) zb =
      (ipOutput cfg (s.setBuf zb { z with space := putIcmpReply z.space z.data z.len.toNat }) zb
        (be32 z.space.byte (z.data - ipHdrLen + 16)) (be32 z.space.byte (z.data - ipHdrLen + 12))
        ipProtoIcmp).1 := by
  unfold icmpInput
  rw [NetStack.setBuf_zb_self]
  simp only
  rw [if_neg (Nat.not_lt.2 hlen), if_pos htype, NetStack.setBuf_setBuf]

omit [DecidableEq α] in
/-- The message of a buffer that `icmp_input` has made a reply: the first byte and the
    checksum are new. -/
theorem payloadOf_icmpReply {z z' : Zbuf α} (hlen : icmpHdrLen ≤ z.len.toNat)
    (hdata : z'.data = z.data) (hlen' : z'.len = z.len)
    (hspace : z'.space = putIcmpReply z.space z.data z.len.toNat) :
    octet (payloadOf z') 0 = icmpEchoReply ∧
      (∀ i, i ≠ 0 → i ≠ 2 → i ≠ 3 → octet (payloadOf z') i = octet (payloadOf z) i) ∧
      inetChecksum (octet (payloadOf z')) 0 (payloadOf z').length = 0 := by
  have hbound := z.len.isLt
  have hhdr : 8 ≤ z.len.toNat := hlen
  obtain ⟨hreply, hkeep⟩ := putIcmpReply_byte z.space z.data z.len.toNat
  have hbyte : ∀ i, i < z.len.toNat → octet (payloadOf z') i =
      (putIcmpReply z.space z.data z.len.toNat).byte (z.data + i) := by
    intro i hi
    rw [octet_payloadOf (hlen' ▸ hi), hspace, hdata]
  refine ⟨(hbyte 0 (by omega)).trans hreply, fun i h0 h2 h3 => ?_, ?_⟩
  · by_cases hi : i < z.len.toNat
    · rw [hbyte i hi, hkeep _ (by omega) (by omega) (by omega), octet_payloadOf hi]
    · have hend : ∀ {y : Zbuf α}, y.len = z.len → octet (payloadOf y) i = 0 := by
        intro y hy
        rw [octet, List.getElem?_eq_none (by rw [payloadOf_length, hy]; omega)]
        rfl
      rw [hend hlen', hend rfl]
  · rw [payloadOf_length, hlen']
    refine (inetChecksum_congr (by omega) fun k hk => ?_).2
      (inetChecksum_putIcmpReply z.space z.data (by omega) hlen)
    rw [Nat.zero_add]
    exact hbyte k hk

omit [DecidableEq α] in
/-- A packet that carries such a message is the reply. -/
theorem EchoRequest.reply_of_carries {nif : IpNetif α} {f f' l l' : List (BitVec 8)}
    (h : EchoRequest nif f) (hf : f.drop (ethHdrLen + ipHdrLen) = l)
    (hf' : CarriesPacket ipProtoIcmp nif.ip (be32 (octet f) 26) l' f') (hlen : l'.length = l.length)
    (hreply : octet l' 0 = icmpEchoReply)
    (hkeep : ∀ i, i ≠ 0 → i ≠ 2 → i ≠ 3 → octet l' i = octet l i) (hmax : l'.length ≤ 65535)
    (hsum : inetChecksum (octet l') 0 l'.length = 0) : EchoReply nif f f' := by
  have hlong := h.length
  have hlength : f'.length = f.length := by
    rw [hf'.length, hlen, ← hf, List.length_drop]
    omega
  refine ⟨hf'.packet, hlength, hf'.checksum, hf'.src, hf'.dst, (hf'.octet 0).trans hreply, ?_, ?_, ?_⟩
  · rw [show 35 = 34 + 1 from rfl, hf'.octet 1, hkeep 1 (by decide) (by decide) (by decide), ← hf,
      octet_drop]
    rfl
  · -- the data starts with the fourth byte of the message
    have hdrop : l'.drop 4 = l.drop 4 := by
      refine List.ext_getElem (by rw [List.length_drop, List.length_drop, hlen]) fun j h1 h2 => ?_
      rw [List.length_drop] at h1 h2
      have hj := hkeep (4 + j) (by omega) (by omega) (by omega)
      rw [octet, octet, List.getElem?_eq_getElem (by omega), List.getElem?_eq_getElem (by omega)] at hj
      rw [List.getElem_drop, List.getElem_drop]
      exact hj
    rw [← hf'.data, ← hf, List.drop_drop, List.drop_drop] at hdrop
    exact hdrop
  · have hmessage : f'.length - 34 = l'.length := by
      rw [hf'.length, ethHdrLen, ipHdrLen]
      omega
    rw [hmessage]
    refine (inetChecksum_congr hmax fun k _ => ?_).2 hsum
    rw [Nat.zero_add]
    exact hf'.octet k

/-- **Echo.**  Every echo request to the interface, of any length and with any data,
    is answered by one reply, if the address that it came from is resolved. -/
theorem icmp_echo [DecidableEq σ] (cfg : NetConfig α) {nif : IpNetif α}
    (hnif : cfg.netifDefault = some nif) (fuel : ℕ) {s : NetStack α σ} {zb : α}
    (h : EchoRequest nif (payloadOf (s.pool.zb zb)))
    (hmac : (resolveHop nif s.arpCache
      (be32 (octet (payloadOf (s.pool.zb zb))) 26)).isSome) :
    ∃ s' z, netifInput cfg fuel nif s zb = some s' ∧ s'.log = s.log ++ [.sent zb z] ∧
      EchoReply nif (payloadOf (s.pool.zb zb)) (payloadOf z) := by
  generalize hz : s.pool.zb zb = z₀ at h hmac
  have hlen := h.length
  rw [payloadOf_length, ethHdrLen, ipHdrLen, icmpHdrLen] at hlen
  have hbound : z₀.len.toNat < 2 ^ 16 := z₀.len.isLt
  obtain ⟨-, htaken⟩ := netifInput_packet cfg fuel nif hz h.packet h.ihl h.checksum
  obtain ⟨z₂, hdata₂, hspace₂, hlen₂, hin⟩ := htaken (.inl h.dst)
  have hsrc : be32 z₂.space.byte (z₂.data - ipHdrLen + 12) = be32 (octet (payloadOf z₀)) 26 := by
    rw [hspace₂, hdata₂, be32_payloadOf (by omega)]
    rfl
  have hdst : be32 z₂.space.byte (z₂.data - ipHdrLen + 16) = nif.ip := by
    rw [hspace₂, hdata₂, ← h.dst, be32_payloadOf (by omega)]
    rfl
  -- the message of the request
  have hicmp : icmpHdrLen ≤ z₂.len.toNat := by
    rw [icmpHdrLen]
    omega
  have hmessage : (payloadOf z₀).drop (ethHdrLen + ipHdrLen) = payloadOf z₂ := by
    rw [payloadOf, payloadOf, hspace₂, hdata₂, hlen₂,
      show z₀.len.toNat = 34 + (z₀.len.toNat - 34) by omega, bytesFrom_append]
    refine (List.drop_left' (bytesFrom_length ..)).trans ?_
    rw [Nat.add_sub_cancel_left]
  have htype : z₂.space.byte z₂.data = icmpEchoRequest := by
    rw [hspace₂, hdata₂, ← octet_payloadOf (by omega)]
    exact h.request
  -- the reply
  have hcall := icmpInput_request cfg s zb hicmp htype
  rw [hsrc, hdst] at hcall
  generalize hz₃ : ({ z₂ with space := putIcmpReply z₂.space z₂.data z₂.len.toNat } : Zbuf α) = z₃
    at hcall
  have hlen₃ : z₃.len = z₂.len := hz₃ ▸ rfl
  obtain ⟨hreply, hkeep, hsum⟩ := payloadOf_icmpReply hicmp (hz₃ ▸ rfl) hlen₃ (hz₃ ▸ rfl)
  have hbuf : (s.setBuf zb z₃).pool.zb zb = z₃ := NetStack.setBuf_zb_self ..
  have hdata₃ : z₃.data = z₀.data + 34 := hz₃ ▸ hdata₂
  obtain ⟨z, hlog, hframe⟩ := ipOutput_sent cfg hnif (s.setBuf zb z₃) zb nif.ip
    (be32 (octet (payloadOf z₀)) 26) ipProtoIcmp
    (by rw [hbuf, hdata₃, ethHdrLen, ipHdrLen]; omega) hmac
  rw [hbuf, ite_self] at hframe
  refine ⟨_, z, ?_, hlog, h.reply_of_carries hmessage (hframe.carries ?_) ?_ hreply hkeep ?_ hsum⟩
  · rw [hin, ipDispatch, if_pos rfl, hcall]
  · rw [hlen₃, hlen₂, ipHdrLen, ethHdrLen]
    omega
  · rw [payloadOf_length, payloadOf_length, hlen₃]
  · rw [payloadOf_length, hlen₃]
    omega

/-- An echo request of two bytes, to the interface. -/
def demoEcho : List (BitVec 8) :=
  List.replicate 6 2 ++ List.replicate 6 3 ++ [8, 0] ++
    [0x45, 0, 0, 30, 0, 0, 0, 0, 64, 1, 0x66, 0xDD, 10, 0, 0, 2, 10, 0, 0, 1] ++
    [8, 0, 0xF7, 0xFC, 0, 1, 0, 2] ++ [0, 0]

/-- A host that has it in a buffer, and knows where it comes from. -/
def demoPinged : NetStack (Fin 2) (Fin 2) :=
  { demoDgram with
    pool := { demoDgram.pool with zb := fun _ => demoFrame configZbufHeadroom demoEcho }
    arpCache := [arpEntry (0x0A000002, fun _ => 3)] }

theorem demoPinged_request : EchoRequest demoNif (payloadOf (demoPinged.pool.zb 1)) := by
  have hframe : payloadOf (demoPinged.pool.zb 1) = demoEcho := by decide
  rw [hframe]
  exact ⟨by decide, by decide, by decide, by decide +kernel, by decide, by decide⟩

/-- It is answered. -/
theorem icmp_echo_two : ∃ (s' : NetStack (Fin 2) (Fin 2)) (z : Zbuf (Fin 2)),
    netifInput demoNet 1 demoNif demoPinged 1 = some s' ∧ s'.log = [.sent 1 z] ∧
      EchoReply demoNif (payloadOf (demoPinged.pool.zb 1)) (payloadOf z) :=
  icmp_echo demoNet (rfl : demoNet.netifDefault = some demoNif) 1 demoPinged_request
    (by decide)

end Gracemont
