/-
  Gracemont networking — transmissions that fail.

  `tcp_send_segment` advances `snd_nxt` before it calls `ip_output`, which may
  still fail: without an interface, without room for its header or that of
  Ethernet, with an address that is not resolved, or in the driver.

  * `IpSendable`, `ipOutput_ok_iff`: when `ip_output` succeeds;
  * `Atomic`: a call that fails leaves the connection as it was;
  * `SegmentAtomic`: the segments for which that is so;
  * `failed_transmission_iff`.
-/
import Gracemont.Net.EthFrame

namespace Gracemont

variable {α σ : Type} [DecidableEq α]

/-! ## `ip_output` -/

section
variable (cfg : NetConfig α) (nif : IpNetif α) (s : NetStack α σ) (zb : α)

/-- The buffers that the driver gets with the frame of `eth_output`. -/
def ethFramed (z : Zbuf α) (dstMac : Fin 6 → BitVec 8) (type : BitVec 16) : ZbufPool α :=
  (s.setBuf zb { z with
    data := z.data - ethHdrLen, len := z.len + ethHdrLen
    space := putEthHdr z.space (z.data - ethHdrLen) dstMac nif.mac type
    l2Offset := 0, protocol := type }).pool

/-- The packet of `ip_output`. -/
def ipFramed (src dst : BitVec 32) (proto : BitVec 8) : Zbuf α :=
  let z := s.pool.zb zb
  { z with
    data := z.data - ipHdrLen, len := z.len + ipHdrLen
    space := putIpHdr z.space (z.data - ipHdrLen) (z.len + ipHdrLen) s.ipId proto
      (if src = 0 then nif.ip else src) dst }

/-- The hardware address for a packet to `dst`. -/
def HasMac (dst : BitVec 32) (mac : Fin 6 → BitVec 8) : Prop :=
  if isBroadcast nif dst then mac = macBroadcast
  else ∃ e, arpFind (nextHop nif dst) s.arpCache = some e ∧ e.mac = mac

/-- **A packet that can be sent**: there is an interface, there is room for the two
    headers, the address is resolved, and the driver takes the frame. -/
def IpSendable (src dst : BitVec 32) (proto : BitVec 8) : Prop :=
  ∃ nif, cfg.netifDefault = some nif ∧ ipHdrLen + ethHdrLen ≤ (s.pool.zb zb).data ∧
    ∃ mac, HasMac nif s dst mac ∧
      (nif.send (ethFramed nif s zb (ipFramed nif s zb src dst proto) mac ethTypeIp) zb).2 = .ok

omit [DecidableEq α] in
theorem zbufPush_eq {z : Zbuf α} {n : ℕ} (hn : n < 2 ^ 16) : zbufPush z n =
    if z.data < n then none
    else some ({ z with data := z.data - n, len := z.len + n }, z.data - n) := by
  have hlen : ((n : ℕ) : BitVec 16).toNat = n := by
    rw [BitVec.natCast_eq_ofNat, BitVec.toNat_ofNat]
    omega
  unfold zbufPush zbufHead
  rw [hlen, Nat.zero_add]

theorem ethOutput_ok_iff (dstMac : Fin 6 → BitVec 8) (type : BitVec 16) :
    (ethOutput cfg nif s zb dstMac type).2 = .ok ↔ ethHdrLen ≤ (s.pool.zb zb).data ∧
      (nif.send (ethFramed nif s zb (s.pool.zb zb) dstMac type) zb).2 = .ok := by
  unfold ethOutput
  rw [zbufPush_eq (by decide)]
  by_cases hroom : (s.pool.zb zb).data < ethHdrLen
  · rw [if_pos hroom]
    exact iff_of_false Status.noConfusion fun h => Nat.not_le.2 hroom h.1
  · rw [if_neg hroom]
    exact ⟨fun h => ⟨Nat.le_of_not_lt hroom, h⟩, fun h => h.2⟩

theorem arpResolve_of_some {ip : BitVec 32} {e : ArpEntry} (h : arpFind ip s.arpCache = some e) :
    arpResolve cfg s ip = (s, .ok, e.mac) := by
  rw [arpResolve, h]

/-- **`ip_output` succeeds** with the packets that can be sent. -/
theorem ipOutput_ok_iff (src dst : BitVec 32) (proto : BitVec 8) :
    (ipOutput cfg s zb src dst proto).2 = .ok ↔ IpSendable cfg s zb src dst proto := by
  unfold ipOutput IpSendable
  rcases cfg.netifDefault with _ | nif
  · refine iff_of_false Status.noConfusion ?_
    rintro ⟨nif, hnif, -⟩
    cases hnif
  simp only [Option.some.injEq, exists_eq_left']
  rw [zbufPush_eq (by decide)]
  by_cases hroom : (s.pool.zb zb).data < ipHdrLen
  · rw [if_pos hroom]
    exact iff_of_false Status.noConfusion fun h => by omega
  rw [if_neg hroom]
  simp only
  generalize hz : ({ s.pool.zb zb with data := _, len := _, space := _ } : Zbuf α) = z
  generalize hs : ({ s.setBuf zb z with ipId := s.ipId + 1 } : NetStack α σ) = s₁
  have hframed : ipFramed nif s zb src dst proto = z := hz
  have hcache : s₁.arpCache = s.arpCache := by rw [← hs]; rfl
  have hbuf : s₁.pool.zb zb = z := by
    rw [← hs]
    exact s.setBuf_zb_self zb z
  have heth : ∀ mac, ethFramed nif s₁ zb z mac ethTypeIp = ethFramed nif s zb z mac ethTypeIp := by
    intro mac
    rw [← hs]
    simp [ethFramed, NetStack.setBuf]
  have hdata : ethHdrLen ≤ z.data ↔ ipHdrLen + ethHdrLen ≤ (s.pool.zb zb).data := by
    rw [← hz]
    simp only
    omega
  have hout : ∀ mac, (ethOutput cfg nif s₁ zb mac ethTypeIp).2 = .ok ↔
      ipHdrLen + ethHdrLen ≤ (s.pool.zb zb).data ∧
        (nif.send (ethFramed nif s zb z mac ethTypeIp) zb).2 = .ok := by
    intro mac
    rw [ethOutput_ok_iff, hbuf, heth, hdata]
  rw [hframed]
  unfold HasMac
  by_cases hb : isBroadcast nif dst = true
  · simp only [if_pos hb, exists_eq_left]
    exact hout macBroadcast
  · simp only [if_neg hb]
    rcases hfind : arpFind (nextHop nif dst) s.arpCache with _ | e
    · have hnone := arpResolve_miss cfg (hcache ▸ hfind)
      refine iff_of_false ?_ ?_
      · generalize arpResolve cfg s₁ (nextHop nif dst) = r at hnone ⊢
        rcases r with ⟨s₂, status, mac⟩
        cases status
        case ok => exact absurd rfl hnone
        all_goals exact Status.noConfusion
      · rintro ⟨-, mac, ⟨e, he, -⟩, -⟩
        cases he
    · rw [arpResolve_of_some cfg s₁ (hcache ▸ hfind)]
      simp only [Option.some.injEq, exists_eq_left']
      exact hout e.mac

end

/-! ## Segments -/

section
variable [DecidableEq σ] (cfg : NetConfig α) (s : NetStack α σ) (sock : σ)

/-- **A call that fails** leaves the sequence numbers and the state of every socket. -/
def Atomic (s : NetStack α σ) (r : NetStack α σ × Status) : Prop :=
  r.2 ≠ .ok → ∀ x, (r.1.sock x).sndNxt = (s.sock x).sndNxt ∧
    (r.1.sock x).sndUna = (s.sock x).sndUna ∧ (r.1.sock x).rcvNxt = (s.sock x).rcvNxt ∧
    (r.1.sock x).state = (s.sock x).state

/-- The stack with the segment of `zb` in front of its data. -/
def segmented (flags : BitVec 8) (zb : α) : NetStack α σ :=
  let z := s.pool.zb zb
  s.setBuf zb { z with
    data := z.data - tcpHdrLen, len := z.len + tcpHdrLen
    space := z.space.putBytes (z.data - tcpHdrLen) (segmentHdr (s.sock sock) flags) }

/-- **The segment takes no sequence numbers that a failure could lose**: there is no
    buffer or no room for the header, it has no data and no SYN or FIN, or its
    packet can be sent. -/
def SegmentAtomic (flags : BitVec 8) (data : Option α) : Prop :=
  ∀ s₁ zb, segmentBuf s data = (s₁, some zb) → tcpHdrLen ≤ (s₁.pool.zb zb).data →
    (hasFlag flags (tcpFlagSyn ||| tcpFlagFin) = false ∧ (s₁.pool.zb zb).len = 0) ∨
    IpSendable cfg (segmented s₁ sock flags zb) zb (s₁.sock sock).localAddr.addr
      (s₁.sock sock).remoteAddr.addr ipProtoTcp

omit [DecidableEq σ] in
theorem IpSendable.congr {s s' : NetStack α σ} (hpool : s'.pool = s.pool)
    (hcache : s'.arpCache = s.arpCache) (hid : s'.ipId = s.ipId) (zb : α) (src dst : BitVec 32)
    (proto : BitVec 8) :
    IpSendable cfg s' zb src dst proto ↔ IpSendable cfg s zb src dst proto := by
  simp only [IpSendable, HasMac, ethFramed, ipFramed, NetStack.setBuf, hpool, hcache, hid]

/-- The sequence numbers of a segment are at most `2 ^ 16`. -/
theorem sndNxt_advance (n : BitVec 32) (syn : Bool) (len : BitVec 16) :
    (if syn then n + 1 else n) + len.setWidth 32 = n ↔ syn = false ∧ len = 0 := by
  have hn := n.isLt
  have hlen := len.isLt
  have h1 : (1 : BitVec 32).toNat = 1 := rfl
  have h0 : len = 0 ↔ len.toNat = 0 := by
    rw [← BitVec.toNat_inj]
    rfl
  rw [h0, ← BitVec.toNat_inj, BitVec.toNat_add, BitVec.toNat_setWidth]
  cases syn with
  | false =>
    simp only [Bool.false_eq_true, if_false, true_and]
    omega
  | true =>
    refine iff_of_false ?_ fun h => Bool.noConfusion h.1
    rw [if_pos rfl, BitVec.toNat_add, h1, Nat.mod_add_mod]
    omega

/-- **What `tcp_send_segment` does**: it returns before the segment is made, or takes
    its sequence numbers and returns the status of `ip_output`. -/
theorem tcpSendSegment_outcome (flags : BitVec 8) (data : Option α) :
    ((∀ s₁ zb, segmentBuf s data = (s₁, some zb) → (s₁.pool.zb zb).data < tcpHdrLen) ∧
      (tcpSendSegment cfg s sock flags data).1.sock = s.sock) ∨
    ∃ s₁ zb, segmentBuf s data = (s₁, some zb) ∧ tcpHdrLen ≤ (s₁.pool.zb zb).data ∧
      ((tcpSendSegment cfg s sock flags data).2 = .ok ↔
        IpSendable cfg (segmented s₁ sock flags zb) zb (s₁.sock sock).localAddr.addr
          (s₁.sock sock).remoteAddr.addr ipProtoTcp) ∧
      (tcpSendSegment cfg s sock flags data).1.sock = s.sock.modify sock fun k => { k with
        sndNxt := (if hasFlag flags (tcpFlagSyn ||| tcpFlagFin) then k.sndNxt + 1 else k.sndNxt) +
          (s₁.pool.zb zb).len.setWidth 32 } := by
  have hbuf : (segmentBuf s data).1.sock = s.sock := by
    unfold segmentBuf
    cases data with
    | none => rfl
    | some zb => rfl
  unfold tcpSendSegment
  rcases hr : segmentBuf s data with ⟨s₁, _ | zb⟩
  · refine .inl ⟨fun s₂ zb h => ?_, (congrArg (fun r => r.1.sock) hr).symm.trans hbuf⟩
    cases h
  have hbuf : s₁.sock = s.sock := (congrArg (fun r => r.1.sock) hr).symm.trans hbuf
  simp only
  rw [zbufPush_eq (by decide)]
  by_cases hroom : (s₁.pool.zb zb).data < tcpHdrLen
  · rw [if_pos hroom]
    refine .inl ⟨fun s₂ zb' h => ?_, ?_⟩
    · cases h
      exact hroom
    · by_cases hd : data = none
      · simp only [if_pos hd, NetStack.free, hbuf]
      · simp only [if_neg hd, hbuf]
  rw [if_neg hroom]
  refine .inr ⟨s₁, zb, rfl, Nat.le_of_not_lt hroom, ?_⟩
  have hlen : (s₁.pool.zb zb).len + tcpHdrLen - tcpHdrLen = (s₁.pool.zb zb).len :=
    BitVec.add_sub_cancel ..
  simp only [NetStack.modify_modify, hlen]
  constructor
  · exact (ipOutput_ok_iff cfg _ zb _ _ ipProtoTcp).trans
      (IpSendable.congr cfg rfl rfl rfl zb _ _ _)
  · rw [← hbuf]
    exact (Transmitted.ipOutput cfg _ zb _ _ ipProtoTcp).sock

/-- **A segment** leaves the connection as it was if it fails, exactly if it takes no
    sequence numbers or does not fail. -/
theorem tcpSendSegment_atomic_iff (flags : BitVec 8) (data : Option α) :
    Atomic s (tcpSendSegment cfg s sock flags data) ↔ SegmentAtomic cfg s sock flags data := by
  unfold Atomic SegmentAtomic
  obtain ⟨hroom, hsock⟩ | ⟨s₁, zb, hbuf, hroom, hok, hsock⟩ :=
    tcpSendSegment_outcome cfg s sock flags data
  · rw [hsock]
    exact iff_of_true (fun _ x => ⟨rfl, rfl, rfl, rfl⟩)
      fun s₁ zb h hle => absurd hle (Nat.not_le.2 (hroom s₁ zb h))
  rw [hsock, ne_eq, hok]
  have hadvance := sndNxt_advance (s.sock sock).sndNxt
    (hasFlag flags (tcpFlagSyn ||| tcpFlagFin)) (s₁.pool.zb zb).len
  constructor
  · rintro h s₂ zb' hbuf' -
    rw [hbuf] at hbuf'
    cases hbuf'
    refine or_iff_not_imp_right.2 fun hfail => hadvance.1 ?_
    have hx := (h hfail sock).1
    rwa [Lib.Store.modify_self] at hx
  · intro h hfail x
    have hkept := hadvance.2 ((h s₁ zb hbuf hroom).resolve_right hfail)
    by_cases hx : x = sock
    · subst hx
      rw [Lib.Store.modify_self]
      exact ⟨hkept, rfl, rfl, rfl⟩
    · rw [Lib.Store.modify_of_ne _ hx]
      exact ⟨rfl, rfl, rfl, rfl⟩

/-- **Failed transmissions.**  A call of `tcp_send_segment` or `tcp_output` that fails
    leaves the connection unchanged exactly if its segment is one of those. -/
theorem failed_transmission_iff (flags : BitVec 8) (data : Option α) (zb : α) :
    (Atomic s (tcpSendSegment cfg s sock flags data) ↔ SegmentAtomic cfg s sock flags data) ∧
    (Atomic s (tcpOutput cfg s sock zb) ↔ ((s.sock sock).state = .established →
      SegmentAtomic cfg s sock (tcpFlagAck ||| tcpFlagPsh) (some zb))) := by
  refine ⟨tcpSendSegment_atomic_iff cfg s sock flags data, ?_⟩
  unfold tcpOutput
  by_cases hstate : (s.sock sock).state = .established
  · rw [if_neg (not_not.2 hstate), tcpSendSegment_atomic_iff]
    exact ⟨fun h _ => h, fun h => h hstate⟩
  · rw [if_pos hstate]
    refine iff_of_true (fun _ x => ?_) fun h => absurd h hstate
    simp only [NetStack.free, and_self]

end

/-- A connection to 10.0.0.9, which is not in the cache, five bytes to send in the buffer
    0, and the buffer 1 free. -/
def demoUnresolved : NetStack (Fin 2) (Fin 2) :=
  { demoStack with
    pool := ⟨fun zb => if zb = 0 then demoFrame 128 [1, 2, 3, 4, 5] else demoZbuf, some 1, 2, 1, 0⟩
    sock := fun _ => { demoSocket with
      state := .established, remoteAddr := ⟨0x0A000009, 80⟩ } }

/-- An ARP request goes out, the segment is dropped, and `snd_nxt` has moved on. -/
theorem demoUnresolved_advances :
    (tcpOutput demoNet demoUnresolved 0 0).2 = .wouldBlock ∧
      ¬ Atomic demoUnresolved (tcpOutput demoNet demoUnresolved 0 0) := by
  have hstatus : (tcpOutput demoNet demoUnresolved 0 0).2 = .wouldBlock := by decide
  refine ⟨hstatus, fun h => ?_⟩
  have hkept := (h (by rw [hstatus]; decide) 0).1
  exact absurd hkept (by decide)

end Gracemont
