/-
  Gracemont networking — the Ethernet headers of the frames of `eth_output`.

  Every buffer that the stack hands to a driver goes through `eth_output`, which
  pushes the header; the frame starts with it unless the 16-bit length of the
  buffer wraps.

  * `EthFrame`: a buffer that starts with a header;
  * `FramesSent`: what the stack sends between two states;
  * `ethOutput_frames_iff`, `ipOutput_frames_iff`: when the frames have headers;
  * `arpResolve_frames`, `arpInput_frames`: the frames of ARP always have.
-/
import Gracemont.Net.NetInput
import Gracemont.Net.Transmit

namespace Gracemont

open Lib (ByteMem)

variable {α σ : Type}

/-! ## Headers -/

/-- **A frame with its header**: the buffer has the 14 bytes of an Ethernet
    header, and they are the destination, the source and the type. -/
structure EthFrame (src dst : Fin 6 → BitVec 8) (type : BitVec 16) (z : Zbuf α) : Prop where
  len : ethHdrLen ≤ z.len.toNat
  dst : macAt z.space.byte z.data = dst
  src : macAt z.space.byte (z.data + 6) = src
  type : be16 z.space.byte (z.data + 12) = type

section
variable (eth : ℕ) (dst src : Fin 6 → BitVec 8)

/-- The bytes `j` of the two addresses are stored. -/
def EthAddrAt (m : ByteMem) (j : Fin 6) : Prop :=
  m.byte (eth + j) = dst j ∧ m.byte (eth + (6 + j)) = src j

theorem putEthAddr_at (m : ByteMem) (i : Fin 6) :
    EthAddrAt eth dst src (putEthAddr eth dst src m i) i := by
  have hne : eth + i ≠ eth + (6 + i) := by omega
  refine ⟨?_, ByteMem.set_byte_self ..⟩
  rw [putEthAddr, ByteMem.set_byte_of_ne _ _ hne, ByteMem.set_byte_self]

theorem EthAddrAt.putEthAddr {m : ByteMem} {i j : Fin 6} (h : EthAddrAt eth dst src m j)
    (hne : j ≠ i) : EthAddrAt eth dst src (putEthAddr eth dst src m i) j := by
  have hj := j.isLt
  have hi := i.isLt
  have hval : (j : ℕ) ≠ i := Fin.val_ne_of_ne hne
  obtain ⟨hdst, hsrc⟩ := h
  constructor
  · rw [Gracemont.putEthAddr, ByteMem.set_byte_of_ne _ _ (by omega),
      ByteMem.set_byte_of_ne _ _ (by omega)]
    exact hdst
  · rw [Gracemont.putEthAddr, ByteMem.set_byte_of_ne _ _ (by omega),
      ByteMem.set_byte_of_ne _ _ (by omega)]
    exact hsrc

/-- The loop stores the bytes that it comes to, and keeps those stored before. -/
theorem putEthAddrs_at (j : Fin 6) (l : List (Fin 6)) (m : ByteMem)
    (h : j ∈ l ∨ EthAddrAt eth dst src m j) :
    EthAddrAt eth dst src (l.foldl (putEthAddr eth dst src) m) j := by
  induction l generalizing m with
  | nil => exact h.resolve_left List.not_mem_nil
  | cons i l ih =>
    refine ih _ ?_
    by_cases hij : j = i
    · subst hij
      exact .inr (putEthAddr_at ..)
    · refine h.imp (fun hmem => (List.mem_cons.1 hmem).resolve_left hij) fun hm => ?_
      exact hm.putEthAddr eth dst src hij

/-- **The header** is read back. -/
theorem putEthHdr_at (m : ByteMem) (type : BitVec 16) :
    macAt (putEthHdr m eth dst src type).byte eth = dst ∧
      macAt (putEthHdr m eth dst src type).byte (eth + 6) = src ∧
      be16 (putEthHdr m eth dst src type).byte (eth + 12) = type := by
  have haddr : ∀ j : Fin 6, EthAddrAt eth dst src (putEthHdr m eth dst src type) j := by
    intro j
    have hj := j.isLt
    have hall : j ∈ [0, 1, 2, 3, 4, 5] := by
      revert j
      decide
    obtain ⟨hdst, hsrc⟩ := putEthAddrs_at eth dst src j _ m (.inl hall)
    constructor
    · rw [putEthHdr, putBe16, ByteMem.set_byte_of_ne _ _ (by omega),
        ByteMem.set_byte_of_ne _ _ (by omega)]
      exact hdst
    · rw [putEthHdr, putBe16, ByteMem.set_byte_of_ne _ _ (by omega),
        ByteMem.set_byte_of_ne _ _ (by omega)]
      exact hsrc
  refine ⟨funext fun j => (haddr j).1, funext fun j => ?_, ?_⟩
  · rw [macAt, Nat.add_assoc]
    exact (haddr j).2
  · rw [be16, putEthHdr, putBe16, ByteMem.set_byte_self, ByteMem.set_byte_of_ne _ _ (by omega),
      ByteMem.set_byte_self, hiByte_append_loByte]

end

section
variable {src dst : Fin 6 → BitVec 8} {type : BitVec 16} {z : Zbuf α}

/-- A buffer whose header was stored has it unless the length wrapped. -/
theorem ethFrame_iff {m : ByteMem} {len : BitVec 16} (hlen : z.len = len + ethHdrLen)
    (hspace : z.space = putEthHdr m z.data dst src type) :
    EthFrame src dst type z ↔ len.toNat + ethHdrLen < 2 ^ 16 := by
  have hz : z.len.toNat = (len.toNat + 14) % 2 ^ 16 := by
    rw [hlen, BitVec.toNat_add]
    rfl
  have hlt := len.isLt
  obtain ⟨hdst, hsrc, htype⟩ := putEthHdr_at z.data dst src m type
  constructor
  · intro h
    have := h.len
    unfold ethHdrLen at this ⊢
    omega
  · intro h
    unfold ethHdrLen at h
    exact ⟨by unfold ethHdrLen; omega, by rw [hspace]; exact hdst, by rw [hspace]; exact hsrc,
      by rw [hspace]; exact htype⟩

/-- A frame that is built in a new buffer. -/
theorem Zbuf.append_pushEthHdr_frame (hdata : z.data = configZbufHeadroom) (hlen : z.len = 0)
    (len : BitVec 16) (bytes : List (BitVec 8)) :
    EthFrame src dst type ((z.append len bytes).pushEthHdr dst src type) := by
  have hroom : ethHdrLen ≤ (z.append len bytes).data := by
    rw [Zbuf.append_data, hdata]
    decide
  have hle := z.append_len_le len bytes hlen
  rw [Zbuf.pushEthHdr_of_le _ _ _ _ hroom]
  have hfits : (z.append len bytes).len.toNat + ethHdrLen < 2 ^ 16 :=
    Nat.lt_of_le_of_lt (Nat.add_le_add_right hle _) (by decide)
  exact (ethFrame_iff rfl rfl).2 hfits

end

/-! ## What the stack sends -/

/-- Every frame that was sent between `s` and `s'` meets `P`. -/
def FramesSent (P : Zbuf α → Prop) (s s' : NetStack α σ) : Prop :=
  ∃ new, s'.log = s.log ++ new ∧ ∀ zb z, NetEvent.sent zb z ∈ new → P z

namespace FramesSent
variable {P Q : Zbuf α → Prop} {s s' s'' : NetStack α σ}

theorem of_log_eq (h : s'.log = s.log) : FramesSent P s s' :=
  ⟨[], by rw [h, List.append_nil], by simp⟩

theorem trans (h : FramesSent P s s') (h' : FramesSent P s' s'') : FramesSent P s s'' := by
  obtain ⟨new, hnew, hP⟩ := h
  obtain ⟨new', hnew', hP'⟩ := h'
  refine ⟨new ++ new', by rw [hnew', hnew, List.append_assoc], ?_⟩
  intro zb z hz
  rcases List.mem_append.1 hz with hz | hz
  · exact hP zb z hz
  · exact hP' zb z hz

theorem mono (h : FramesSent P s s') (hPQ : ∀ z, P z → Q z) : FramesSent Q s s' := by
  obtain ⟨new, hnew, hP⟩ := h
  exact ⟨new, hnew, fun zb z hz => hPQ z (hP zb z hz)⟩

theorem congr_log (h : s'.log = s.log) : FramesSent P s s'' ↔ FramesSent P s' s'' := by
  unfold FramesSent
  rw [h]

variable [DecidableEq α] (cfg : NetConfig α)

theorem free (s : NetStack α σ) (zb : α) : FramesSent P s (s.free cfg zb) :=
  ⟨[.freed zb], rfl, by simp⟩

theorem allocTx {size : BitVec 16} {zb : Option α} (h : s.allocTx size = (s', zb)) :
    FramesSent P s s' := by
  have hs : s' = (s.allocTx size).1 := (congrArg Prod.fst h).symm
  subst hs
  refine ⟨_, rfl, fun zb z hz => ?_⟩
  obtain ⟨zb', -, he⟩ := Option.map_eq_some_iff.1 (Option.mem_toList.1 hz)
  cases he

omit [DecidableEq α] in
/-- One frame is sent. -/
theorem send_iff (nif : IpNetif α) (zb : α) :
    FramesSent P s (s.send nif zb).1 ↔ P (s.pool.zb zb) := by
  constructor
  · rintro ⟨new, hnew, hP⟩
    obtain rfl : new = [.sent zb (s.pool.zb zb)] := List.append_cancel_left hnew.symm
    exact hP zb _ (List.mem_singleton_self _)
  · intro h
    refine ⟨[.sent zb (s.pool.zb zb)], rfl, fun zb' z hz => ?_⟩
    cases List.mem_singleton.1 hz
    exact h

end FramesSent

section
variable [DecidableEq α] (cfg : NetConfig α) (nif : IpNetif α) (s : NetStack α σ) (zb : α)

/-- **The frames of `eth_output`** have their headers unless the length wraps. -/
theorem ethOutput_frames_iff (dstMac : Fin 6 → BitVec 8) (type : BitVec 16) :
    FramesSent (EthFrame nif.mac dstMac type) s (ethOutput cfg nif s zb dstMac type).1 ↔
      (ethHdrLen ≤ (s.pool.zb zb).data → (s.pool.zb zb).len.toNat + ethHdrLen < 2 ^ 16) := by
  unfold ethOutput
  cases hpush : zbufPush (s.pool.zb zb) ethHdrLen with
  | none =>
    refine iff_of_true (.free cfg s zb) fun hroom => ?_
    have hlen : (ethHdrLen : BitVec 16).toNat = ethHdrLen := rfl
    rw [zbufPush, hlen, zbufHead, Nat.zero_add, if_neg (Nat.not_lt.2 hroom)] at hpush
    cases hpush
  | some r =>
    obtain ⟨z, eth⟩ := r
    obtain ⟨hroom, heth, hdata, hlen, hspace⟩ := zbufPush_some (n := ethHdrLen) rfl hpush
    dsimp only
    generalize hz : ({ z with space := _, l2Offset := _, protocol := _ } : Zbuf α) = z₁
    have hlog : (s.setBuf zb z₁).log = s.log := rfl
    have hframe : EthFrame nif.mac dstMac type z₁ ↔
        (s.pool.zb zb).len.toNat + ethHdrLen < 2 ^ 16 := by
      subst hz
      refine ethFrame_iff (m := z.space) hlen ?_
      dsimp only
      rw [hdata]
    rw [FramesSent.congr_log hlog, FramesSent.send_iff, NetStack.setBuf_zb_self, hframe]
    exact ⟨fun h _ => h, fun h => h hroom⟩

/-- A packet of ARP, in a new buffer. -/
theorem arpOutput_frames {s₁ : NetStack α σ} (halloc : s.allocTx arpHdrLen = (s₁, some zb))
    (arp : List (BitVec 8)) (dstMac : Fin 6 → BitVec 8) :
    FramesSent (EthFrame nif.mac dstMac ethTypeArp) s
      (ethOutput cfg nif (s₁.setBuf zb ((s₁.pool.zb zb).append arpHdrLen arp)) zb dstMac
        ethTypeArp).1 := by
  obtain ⟨-, hlen⟩ := NetStack.allocTx_some halloc
  refine (FramesSent.allocTx halloc).trans ?_
  refine (FramesSent.congr_log (s := s₁) rfl).2 ((ethOutput_frames_iff cfg nif _ zb _ _).2 ?_)
  intro _
  rw [NetStack.setBuf_zb_self]
  have hle := (s₁.pool.zb zb).append_len_le arpHdrLen arp hlen
  exact Nat.lt_of_le_of_lt (Nat.add_le_add_right hle _) (by decide)

/-- **The frames of `arp_resolve`** go to everyone. -/
theorem arpResolve_frames (ip : BitVec 32) :
    FramesSent (fun z => ∃ nif, cfg.netifDefault = some nif ∧
      EthFrame nif.mac macBroadcast ethTypeArp z) s (arpResolve cfg s ip).1 := by
  unfold arpResolve
  rcases arpFind ip s.arpCache with _ | e
  · rcases hnif : cfg.netifDefault with _ | nif
    · exact .of_log_eq rfl
    · rcases halloc : s.allocTx arpHdrLen with ⟨s₁, _ | zb⟩
      · exact .allocTx halloc
      · refine (arpOutput_frames cfg nif s zb halloc _ macBroadcast).mono fun z hz => ?_
        exact ⟨nif, rfl, hz⟩
  · exact .of_log_eq rfl

variable {s} in
/-- `arp_resolve` fails for an address that is not in the cache. -/
theorem arpResolve_miss {ip : BitVec 32} (h : arpFind ip s.arpCache = none) :
    (arpResolve cfg s ip).2.1 ≠ .ok := by
  unfold arpResolve
  rw [h]
  rcases cfg.netifDefault with _ | nif
  · intro hst
    cases hst
  · dsimp only
    generalize s.allocTx arpHdrLen = r
    rcases r with ⟨s₁, _ | zb⟩
    · intro hst
      cases hst
    · intro hst
      cases hst

theorem arpReply_frames (sha : Fin 6 → BitVec 8) (spa : BitVec 32) :
    FramesSent (EthFrame nif.mac sha ethTypeArp) s (arpReply cfg nif s sha spa) := by
  unfold arpReply
  rcases halloc : s.allocTx arpHdrLen with ⟨s₁, _ | reply⟩
  · exact .allocTx halloc
  · exact arpOutput_frames cfg nif s reply halloc _ sha

/-- **The frames of `arp_input`** go to the sender of the request. -/
theorem arpInput_frames :
    FramesSent (EthFrame nif.mac
      (macAt (s.pool.zb zb).space.byte ((s.pool.zb zb).data + 8)) ethTypeArp) s
      (arpInput cfg nif s zb) := by
  unfold arpInput
  dsimp only
  generalize macAt (s.pool.zb zb).space.byte ((s.pool.zb zb).data + 8) = sha
  split_ifs
  · exact .free cfg s zb
  · exact .free cfg s zb
  · refine FramesSent.trans ?_ (.free cfg _ zb)
    exact FramesSent.trans (.of_log_eq rfl) (arpReply_frames cfg nif _ sha _)
  · exact FramesSent.trans (.of_log_eq rfl) (.free cfg _ zb)

/-- The hardware address that `ip_output` sends a packet to, if it knows it. -/
def resolveHop (cache : List ArpEntry) (dst : BitVec 32) : Option (Fin 6 → BitVec 8) :=
  if isBroadcast nif dst then some macBroadcast
  else (arpFind (nextHop nif dst) cache).map ArpEntry.mac

/-- What `ip_output` should send: the packet to the next hop, or, if that is not
    in the cache, an ARP request. -/
def HopFrame (dst : BitVec 32) (z : Zbuf α) : Prop :=
  match resolveHop nif s.arpCache dst with
  | some mac => EthFrame nif.mac mac ethTypeIp z
  | none => EthFrame nif.mac macBroadcast ethTypeArp z

/-- **The frames of `ip_output`** have their headers, with the address of the next
    hop, unless the length of the packet wraps when it is sent. -/
theorem ipOutput_frames_iff (src dst : BitVec 32) (proto : BitVec 8) :
    FramesSent (fun z => ∃ nif, cfg.netifDefault = some nif ∧ HopFrame nif s dst z) s
        (ipOutput cfg s zb src dst proto).1 ↔
      ∀ nif, cfg.netifDefault = some nif → ipHdrLen + ethHdrLen ≤ (s.pool.zb zb).data →
        (resolveHop nif s.arpCache dst).isSome →
        ((s.pool.zb zb).len + ipHdrLen).toNat + ethHdrLen < 2 ^ 16 := by
  unfold ipOutput
  rcases hnif : cfg.netifDefault with _ | nif
  · refine iff_of_true (.free cfg s zb) fun nif h => ?_
    cases h
  simp only [Option.some.injEq, exists_eq_left', forall_eq']
  generalize (if src = 0 then nif.ip else src) = src
  cases hpush : zbufPush (s.pool.zb zb) ipHdrLen with
  | none =>
    refine iff_of_true (.free cfg s zb) fun hroom => ?_
    have hlen : (ipHdrLen : BitVec 16).toNat = ipHdrLen := rfl
    rw [zbufPush, hlen, zbufHead, Nat.zero_add,
      if_neg (Nat.not_lt.2 (Nat.le_of_add_right_le hroom))] at hpush
    cases hpush
  | some r =>
    obtain ⟨z, ip⟩ := r
    obtain ⟨hroom, hip, hdata, hlen, -⟩ := zbufPush_some (n := ipHdrLen) rfl hpush
    dsimp only
    generalize hz : ({ z with space := _ } : Zbuf α) = z₁
    generalize hs : ({ s.setBuf zb z₁ with ipId := s.ipId + 1 } : NetStack α σ) = s₁
    have hlog : s₁.log = s.log := hs ▸ rfl
    have hcache : s₁.arpCache = s.arpCache := hs ▸ rfl
    have hz₁ : s₁.pool.zb zb = z₁ := by
      rw [← hs]
      exact NetStack.setBuf_zb_self s zb z₁
    have hz₁data : z₁.data + ipHdrLen = (s.pool.zb zb).data := by
      subst hz
      dsimp only
      omega
    have hz₁len : z₁.len = (s.pool.zb zb).len + ipHdrLen := by
      rw [← hlen, ← hz]
    -- the packet to an address that is known
    have hsend : ∀ mac, resolveHop nif s.arpCache dst = some mac →
        (FramesSent (HopFrame nif s dst) s (ethOutput cfg nif s₁ zb mac ethTypeIp).1 ↔
          (ipHdrLen + ethHdrLen ≤ (s.pool.zb zb).data →
            (resolveHop nif s.arpCache dst).isSome →
            ((s.pool.zb zb).len + ipHdrLen).toNat + ethHdrLen < 2 ^ 16)) := by
      intro mac hmac
      have hframe : HopFrame nif s dst = EthFrame nif.mac mac ethTypeIp := by
        funext z
        rw [HopFrame, hmac]
      rw [hframe, FramesSent.congr_log hlog, ethOutput_frames_iff, hz₁, hz₁len, hmac]
      constructor
      · intro h hroom' _
        exact h (by omega)
      · intro h hroom'
        exact h (by omega) rfl
    split_ifs with hbroadcast
    · exact hsend _ (if_pos hbroadcast)
    · cases hfind : arpFind (nextHop nif dst) s.arpCache with
      | some e =>
        have hresolve : arpResolve cfg s₁ (nextHop nif dst) = (s₁, .ok, e.mac) := by
          rw [arpResolve, hcache, hfind]
        rw [hresolve]
        exact hsend e.mac (by rw [resolveHop, if_neg hbroadcast, hfind, Option.map_some])
      | none =>
        have hmac : resolveHop nif s.arpCache dst = none := by
          rw [resolveHop, if_neg hbroadcast, hfind, Option.map_none]
        have hframe : HopFrame nif s dst = EthFrame nif.mac macBroadcast ethTypeArp := by
          funext z
          rw [HopFrame, hmac]
        refine iff_of_true ?_ fun _ h => ?_
        · have harp := arpResolve_frames cfg s₁ (nextHop nif dst)
          have hmiss := arpResolve_miss cfg (hcache ▸ hfind)
          generalize arpResolve cfg s₁ (nextHop nif dst) = r at harp hmiss ⊢
          obtain ⟨s₂, st, mac⟩ := r
          have hrequest : FramesSent (HopFrame nif s dst) s s₂ := by
            rw [hframe, FramesSent.congr_log hlog]
            refine harp.mono fun z hz => ?_
            obtain ⟨nif', hnif', hz⟩ := hz
            cases hnif.symm.trans hnif'
            exact hz
          cases st
          case ok => exact absurd rfl hmiss
          all_goals exact hrequest.trans (.free cfg s₂ zb)
        · rw [hmac] at h
          cases h

end

end Gracemont
