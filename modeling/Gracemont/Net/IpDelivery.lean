/-
  Gracemont networking — what `ip_input` hands to layer 4.

  `ip_input` trusts two lengths at once: that of the frame it received, and the
  length of the header in its first byte.  It does not read the total length of
  the datagram, so that padding behind the datagram is taken for its payload,
  and a `zbuf_pull` of a header longer than the frame fails unnoticed.

  * `Zbuf.IpTaken`: the frames that pass the checks;
  * `ipInput_taken`, `ipInput_dropped`: `ip_input` in terms of these;
  * `Zbuf.Trimmed`: a handler gets the payload of the datagram;
  * `ip_delivery_iff`: the frames for which that is so.
-/
import Gracemont.Net.NetInput
import Gracemont.Net.Transmit

namespace Gracemont

variable {α σ : Type}

/-! ## Received frames -/

namespace Zbuf
variable (z : Zbuf α) (nif : IpNetif α)

/-- `IP_HDR_LEN(ip)`, `ntohs(ip->len)`, `ip->proto` and `ntohl(ip->dst)` -/
def ihl : BitVec 8 := (z.space.byte z.data &&& 0x0F#8) <<< 2
def ipLen : BitVec 16 := be16 z.space.byte (z.data + 2)
def ipProto : BitVec 8 := z.space.byte (z.data + 9)
def ipDst : BitVec 32 := be32 z.space.byte (z.data + 16)

/-- The frame passes the checks of `ip_input`. -/
structure IpTaken : Prop where
  len : ipHdrLen ≤ z.len.toNat
  checksum : inetChecksum z.space.byte z.data z.ihl.toNat = 0
  dst : z.ipDst = nif.ip ∨ z.ipDst = ip4AddrBroadcast

/-- **A handler of layer 4** is called. -/
structure IpHandled : Prop extends z.IpTaken nif where
  proto : z.ipProto = ipProtoIcmp ∨ z.ipProto = ipProtoUdp ∨ z.ipProto = ipProtoTcp

/-- The buffer that it gets: `zbuf_pull` may fail. -/
def stripIp : Zbuf α :=
  let z' := { z with l4Offset := z.l3Offset + z.ihl.setWidth 16 }
  match zbufPull z' (z.ihl.setWidth 16) with
  | some (z', _) => z'
  | none => z'

/-- The buffer behind the Ethernet header. -/
def stripEth : Zbuf α :=
  { z with
    data := z.data + ethHdrLen, len := z.len - ethHdrLen, l2Offset := 0, l3Offset := ethHdrLen
    protocol := be16 z.space.byte (z.data + 12) }

/-- **Trimmed and valid**: a handler is called only with a proper header and total
    length, and gets the bytes between the two. -/
def Trimmed : Prop :=
  z.IpHandled nif → ipHdrLen ≤ z.ihl.toNat ∧ z.ihl.toNat ≤ z.ipLen.toNat ∧
    z.ipLen.toNat ≤ z.len.toNat ∧
    payloadOf z.stripIp =
      bytesFrom z.space.byte (z.data + z.ihl.toNat) (z.ipLen.toNat - z.ihl.toNat)

/-- **No padding**: of the frames that a handler is called for, the header is proper
    and the total length is the length that was received. -/
def Unpadded : Prop :=
  z.IpHandled nif → ipHdrLen ≤ z.ihl.toNat ∧ z.ihl.toNat ≤ z.ipLen.toNat ∧
    z.ipLen.toNat = z.len.toNat

theorem ihl_toNat : (z.ihl.setWidth 16).toNat = z.ihl.toNat := by
  have hlt := z.ihl.isLt
  rw [BitVec.toNat_setWidth]
  omega

/-- A header within the frame is pulled. -/
theorem payloadOf_stripIp (h : z.ihl.toNat ≤ z.len.toNat) :
    payloadOf z.stripIp =
      bytesFrom z.space.byte (z.data + z.ihl.toNat) (z.len.toNat - z.ihl.toNat) := by
  have hle : ¬ z.len < z.ihl.setWidth 16 := by
    rw [BitVec.lt_def, ihl_toNat]
    omega
  have hlen : (z.len - z.ihl.setWidth 16).toNat = z.len.toNat - z.ihl.toNat := by
    rw [BitVec.toNat_sub, ihl_toNat]
    have hlt := z.len.isLt
    omega
  unfold stripIp
  simp only [zbufPull, if_neg hle, payloadOf, hlen, ihl_toNat]

/-- **What the handlers get** is right exactly if there is no padding. -/
theorem trimmed_iff : z.Trimmed nif ↔ z.Unpadded nif := by
  refine forall_congr' fun _ => ⟨?_, ?_⟩
  · rintro ⟨hmin, hihl, htotal, hpayload⟩
    have hlen := congrArg List.length hpayload
    rw [z.payloadOf_stripIp (hihl.trans htotal)] at hlen
    simp only [bytesFrom, List.length_map, List.length_range] at hlen
    exact ⟨hmin, hihl, by omega⟩
  · rintro ⟨hmin, hihl, htotal⟩
    refine ⟨hmin, hihl, Nat.le_of_eq htotal, ?_⟩
    rw [z.payloadOf_stripIp (hihl.trans (Nat.le_of_eq htotal)), htotal]

end Zbuf

/-! ## Lower layers -/

section
variable [DecidableEq α]

theorem NetStack.setBuf_setBuf (s : NetStack α σ) (zb : α) (z z' : Zbuf α) :
    (s.setBuf zb z).setBuf zb z' = s.setBuf zb z' := by
  simp [setBuf]

/-- A header within the data is pulled. -/
theorem NetStack.pull_setBuf (s : NetStack α σ) (zb : α) (z : Zbuf α) {n : BitVec 16}
    (h : n.toNat ≤ z.len.toNat) : (s.setBuf zb z).pull zb n =
      s.setBuf zb { z with data := z.data + n.toNat, len := z.len - n } := by
  have hlt : ¬ z.len < n := by
    rw [BitVec.lt_def]
    exact Nat.not_lt.2 h
  unfold pull zbufPull
  rw [setBuf_zb_self, if_neg hlt]
  exact setBuf_setBuf ..

end

/-! ## `ip_input` -/

section
variable [DecidableEq α] [DecidableEq σ] (cfg : NetConfig α) (fuel : ℕ) (nif : IpNetif α)
  (s : NetStack α σ) (zb : α)

omit [DecidableEq σ] in
theorem setBuf_pull :
    (s.setBuf zb { s.pool.zb zb with
        l4Offset := (s.pool.zb zb).l3Offset + (s.pool.zb zb).ihl.setWidth 16 }).pull zb
      ((s.pool.zb zb).ihl.setWidth 16) = s.setBuf zb (s.pool.zb zb).stripIp := by
  unfold NetStack.pull Zbuf.stripIp
  rw [NetStack.setBuf_zb_self]
  simp only
  rcases zbufPull _ _ with _ | ⟨z', p⟩
  · rfl
  · simp [NetStack.setBuf]

/-- **The frames that pass** go to the handler of their protocol. -/
theorem ipInput_taken (h : (s.pool.zb zb).IpTaken nif) : ipInput cfg fuel nif s zb =
    ipDispatch cfg fuel (s.setBuf zb (s.pool.zb zb).stripIp) zb (s.pool.zb zb).ipProto := by
  obtain ⟨hlen, hsum, hdst⟩ := h
  have hdst' : ¬ ((s.pool.zb zb).ipDst ≠ nif.ip ∧ (s.pool.zb zb).ipDst ≠ ip4AddrBroadcast) := by
    rintro ⟨h1, h2⟩
    exact hdst.elim h1 h2
  rw [← setBuf_pull]
  exact (if_neg (Nat.not_lt.2 hlen)).trans ((if_neg (not_not.2 hsum)).trans (if_neg hdst'))

/-- The others are freed. -/
theorem ipInput_dropped (h : ¬ (s.pool.zb zb).IpTaken nif) :
    ipInput cfg fuel nif s zb = some (s.free cfg zb) := by
  unfold ipInput
  simp only
  by_cases hlen : (s.pool.zb zb).len.toNat < ipHdrLen
  · rw [if_pos hlen]
  rw [if_neg hlen]
  by_cases hsum : inetChecksum (s.pool.zb zb).space.byte (s.pool.zb zb).data
      (s.pool.zb zb).ihl.toNat ≠ 0
  · exact if_pos hsum
  by_cases hdst : (s.pool.zb zb).ipDst ≠ nif.ip ∧ (s.pool.zb zb).ipDst ≠ ip4AddrBroadcast
  · exact (if_neg hsum).trans (if_pos hdst)
  · refine absurd ⟨Nat.le_of_not_lt hlen, not_not.1 hsum, ?_⟩ h
    rcases Classical.not_and_iff_not_or_not.1 hdst with hd | hd
    · exact .inl (not_not.1 hd)
    · exact .inr (not_not.1 hd)

/-- An IP packet goes to `ip_input`, without its Ethernet header. -/
theorem netifInput_ip {s : NetStack α σ} {zb : α} {z : Zbuf α}
    (hz : s.pool.zb zb = z) (hlen : ethHdrLen ≤ z.len.toNat)
    (htype : be16 z.space.byte (z.data + 12) = ethTypeIp) :
    netifInput cfg fuel nif s zb = ipInput cfg fuel nif (s.setBuf zb z.stripEth) zb := by
  have heth : (ethHdrLen : BitVec 16).toNat = ethHdrLen := rfl
  unfold netifInput Zbuf.stripEth
  simp only
  rw [hz, if_neg (Nat.not_lt.2 hlen), htype, if_pos rfl,
    NetStack.pull_setBuf _ _ _ (heth ▸ hlen), heth]

/-- **IP input.**  The handlers are called for the frames that pass, and get the
    payload of a valid datagram exactly where no padding follows it. -/
theorem ip_delivery_iff :
    ((s.pool.zb zb).IpHandled nif → ipInput cfg fuel nif s zb =
      ipDispatch cfg fuel (s.setBuf zb (s.pool.zb zb).stripIp) zb (s.pool.zb zb).ipProto) ∧
    (¬ (s.pool.zb zb).IpHandled nif → ∃ z, ipInput cfg fuel nif s zb =
      some ((s.setBuf zb z).free cfg zb)) ∧
    ((s.pool.zb zb).Trimmed nif ↔ (s.pool.zb zb).Unpadded nif) := by
  refine ⟨fun h => ipInput_taken cfg fuel nif s zb h.toIpTaken, fun h => ?_,
    (s.pool.zb zb).trimmed_iff nif⟩
  by_cases htaken : (s.pool.zb zb).IpTaken nif
  · have hproto : ¬ ((s.pool.zb zb).ipProto = ipProtoIcmp ∨ (s.pool.zb zb).ipProto = ipProtoUdp ∨
        (s.pool.zb zb).ipProto = ipProtoTcp) := fun hp => h ⟨htaken, hp⟩
    simp only [not_or] at hproto
    obtain ⟨hicmp, hudp, htcp⟩ := hproto
    refine ⟨(s.pool.zb zb).stripIp, (ipInput_taken cfg fuel nif s zb htaken).trans ?_⟩
    rw [ipDispatch, if_neg hicmp, if_neg hudp, if_neg htcp]
  · refine ⟨s.pool.zb zb, (ipInput_dropped cfg fuel nif s zb htaken).trans ?_⟩
    simp [NetStack.setBuf]

end

/-- A datagram of 28 bytes to 10.0.0.1 in a frame of 46 bytes. -/
def demoPadded : Zbuf (Fin 2) :=
  demoFrame 100 ([0x45, 0, 0, 28, 0, 0, 0, 0, 64, 17, 0x66, 0xCF] ++ [10, 0, 0, 2, 10, 0, 0, 1] ++
    List.replicate 26 0)

theorem demoPadded_untrimmed : ¬ demoPadded.Trimmed demoNif := by
  intro h
  have htaken : demoPadded.IpHandled demoNif := ⟨⟨by decide, by decide, by decide⟩, by decide⟩
  obtain ⟨-, -, -, hpayload⟩ := h htaken
  exact absurd (congrArg List.length hpayload) (by decide)

end Gracemont
