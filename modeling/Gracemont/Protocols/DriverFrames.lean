/-
  Gracemont protocols — the Ethernet headers of the frames handed to drivers.

  There are four places that call the `send` of an interface.  `eth_output`,
  `pnio_rt_send` and `pnio_send_alarm` push an Ethernet header first, each on its
  own; `pnio_dcp_input` hands over its Identify response without one, so that the
  frame starts with the frame id.

  * `IdentifyAnswered`: which requests are answered;
  * `pnioDcpInput_frames_iff`: the response never has a header;
  * `TxPath`: the ways to a driver;
  * `driver_frames_iff`: when a frame has its header.
-/
import Gracemont.Net.EthFrame
import Gracemont.Protocols.ProfinetDcp

namespace Gracemont

open Lib (ByteMem)

variable {α σ : Type}

/-! ## Identify requests -/

section
variable (data : ℕ → BitVec 8) (name : StationName)

/-- The block at `offset` does not name another station: as far as the name in it
    and that of the station go, they are the same, and a longer one has a NUL. -/
def NamesStation (offset : BitVec 16) : Prop :=
  dcpBlockIs data dcpOptDevice dcpSuboptDevName offset →
    (∀ i (h : i < name.chars.length), i < (dcpBlockLen data offset).toNat →
      data (offset.toNat + 4 + i) = name.chars[i]) ∧
    (name.chars.length < (dcpBlockLen data offset).toNat →
      data (offset.toNat + 4 + name.chars.length) = 0)

theorem dcpNameMatches_iff (reqName : ℕ → BitVec 8) (blockLen i : ℕ) (chars : List (BitVec 8)) :
    dcpNameMatches reqName blockLen i chars ↔
      (∀ j (h : j < chars.length), i + j < blockLen → reqName (i + j) = chars[j]) ∧
        (i + chars.length < blockLen → reqName (i + chars.length) = 0) := by
  induction chars generalizing i with
  | nil =>
    unfold dcpNameMatches
    rw [decide_eq_true_iff, not_and, not_not]
    exact ⟨fun h => ⟨nofun, h⟩, fun h => h.2⟩
  | cons c chars ih =>
    have hlen : (c :: chars).length = chars.length + 1 := rfl
    unfold dcpNameMatches
    simp only [hlen]
    split_ifs with hend hne
    · refine iff_of_true rfl ⟨fun j _ hj => ?_, fun hj => ?_⟩
      · omega
      · omega
    · refine iff_of_false (by decide) fun h => hne ?_
      exact h.1 0 (Nat.succ_pos _) (by omega)
    · rw [ih]
      have hstep : ∀ j, i + 1 + j = i + (j + 1) := by omega
      simp only [hstep]
      refine and_congr_left fun _ => ⟨fun h j hj hlt => ?_, fun h j hj hlt => ?_⟩
      · cases j with
        | zero => exact not_not.1 hne
        | succ j => exact h j (Nat.lt_of_succ_lt_succ hj) hlt
      · exact h (j + 1) (Nat.succ_lt_succ hj) hlt

theorem dcpIdentifyBlock_iff (isMatch : Bool) (offset : BitVec 16) :
    dcpIdentifyBlock data name isMatch offset ↔ isMatch ∧ NamesStation data name offset := by
  unfold dcpIdentifyBlock NamesStation
  split_ifs with hname hmatches
  · rw [dcpNameMatches_iff] at hmatches
    simp only [Nat.zero_add] at hmatches
    exact ⟨fun h => ⟨h, fun _ => hmatches⟩, fun h => h.1⟩
  · rw [dcpNameMatches_iff] at hmatches
    simp only [Nat.zero_add] at hmatches
    exact iff_of_false (by decide) fun h => hmatches (h.2 hname)
  · exact ⟨fun h => ⟨h, fun hb => absurd hb hname⟩, fun h => h.1⟩

/-- The loop over blocks is left with a match if no block names another station. -/
theorem dcpIdentifyBlocks_iff (offsets : List (BitVec 16)) (isMatch : Bool) :
    offsets.foldl (dcpIdentifyBlock data name) isMatch ↔
      isMatch ∧ ∀ offset ∈ offsets, NamesStation data name offset := by
  induction offsets generalizing isMatch with
  | nil => simp
  | cons offset offsets ih =>
    rw [List.foldl_cons, ih, dcpIdentifyBlock_iff, List.forall_mem_cons, and_assoc]

end

/-- **A request that is answered**: it is an Identify request, the loop over its
    blocks ends, none of them names another station, and there is a free buffer. -/
structure IdentifyAnswered (pool : ZbufPool α) (dev : PnioStation α) (zb : α) : Prop where
  len : dcpHdrLen ≤ (pool.zb zb).len.toNat
  service : (pool.zb zb).dcp 0 = dcpServiceIdentify ∧ (pool.zb zb).dcp 1 = dcpServiceTypeRequest
  names : ∃ offsets,
    Lib.Cursor.Visits (pool.zb zb).dcpMore (dcpNext (pool.zb zb).dcpData) 0 offsets ∧
      ∀ offset ∈ offsets, NamesStation (pool.zb zb).dcpData dev.nameOfStation offset
  buffer : pool.freeList ≠ none

/-- The source address in the Ethernet header of a received frame, which is in
    front of its data when the header was pulled. -/
def Zbuf.requester (z : Zbuf α) : Fin 6 → BitVec 8 := macAt z.space.byte (z.data - ethHdrLen + 6)

/-! ## The Identify response -/

/-- **The response has no header**: in the place of the type is the first block. -/
theorem dcpResponse_type {resp : Zbuf α} (hdata : resp.tail = resp.data) (dev : PnioStation α)
    (xid : BitVec 32) :
    be16 (resp.dcpResponse dev xid).space.byte ((resp.dcpResponse dev xid).data + 12) = 0x0202 := by
  have hblocks : ∃ rest, dcpResponseBlocks dev = dcpOptDevice :: dcpSuboptDevName :: rest := by
    simp only [dcpResponseBlocks, List.append_assoc, List.cons_append]
    exact ⟨_, rfl⟩
  obtain ⟨rest, hblocks⟩ := hblocks
  have hlen : (dcpResponseHdr xid).length = 10 := rfl
  unfold Zbuf.dcpResponse
  simp only [hlen, hblocks, hdata, Nat.add_assoc, Nat.reduceAdd]
  generalize resp.space.putBytes resp.data (dcpResponseHdr xid) = m
  have htail : ∀ (m : ByteMem) (n : BitVec 16) (i : ℕ), resp.data + 12 ≤ i →
      (m.putBytes (resp.data + 10) (be16Bytes n)).byte i = m.byte i := by
    intro m n i hi
    exact ByteMem.putBytes_byte_of_le _ _ _ hi
  rw [be16, htail _ _ _ (by omega), htail _ _ _ (by omega)]
  have hfirst := ByteMem.putBytes_byte m (resp.data + 12)
    (dcpOptDevice :: dcpSuboptDevName :: rest) (i := 0) (Nat.succ_pos _)
  have hsecond := ByteMem.putBytes_byte m (resp.data + 12)
    (dcpOptDevice :: dcpSuboptDevName :: rest) (i := 1) (by simp)
  rw [Nat.add_zero] at hfirst
  rw [hfirst, hsecond, List.getElem_cons_zero, List.getElem_cons_succ, List.getElem_cons_zero]
  rfl

section
variable [DecidableEq α] {port : Port} {pool : ZbufPool α} {dev : PnioStation α} {zb : α}

theorem dcpRespond_sent {pool' : ZbufPool α} {resp : α} {xid : BitVec 32}
    (h : (dcpRespond port pool dev zb xid).sent = some (pool', resp)) (src dst : Fin 6 → BitVec 8) :
    ¬ EthFrame src dst ethTypeProfinet (pool'.zb resp) := by
  unfold dcpRespond at h
  rcases halloc : zbufAllocTx pool 256 with ⟨pool₁, _ | resp₁⟩
  · rw [halloc] at h
    cases h
  · rw [halloc] at h
    cases h
    obtain ⟨hdata, htail, -⟩ := zbufAllocTx_some halloc
    intro hframe
    have htype := hframe.type
    simp only [Function.update_self] at htype
    rw [dcpResponse_type (htail.trans hdata.symm)] at htype
    exact absurd htype (by decide)

theorem dcpRespond_sent_of_free (h : pool.freeList ≠ none) (xid : BitVec 32) :
    ∃ pool' resp, (dcpRespond port pool dev zb xid).sent = some (pool', resp) := by
  obtain ⟨resp, hresp⟩ := Option.ne_none_iff_exists'.1 h
  have hsize : (256 : BitVec 16).toNat ≤ configZbufSize - configZbufHeadroom := by decide
  obtain ⟨pool', halloc, -⟩ := zbufAllocTx_spec hresp hsize
  unfold dcpRespond
  rw [halloc]
  exact ⟨_, _, rfl⟩

theorem dcpRespond_of_no_free (h : pool.freeList = none) (xid : BitVec 32) :
    (dcpRespond port pool dev zb xid).sent = none := by
  obtain ⟨pool', halloc⟩ := zbufAllocTx_none h 256
  unfold dcpRespond
  rw [halloc]

/-- `pnio_dcp_input` sends exactly when it answers. -/
theorem pnioDcpInput_sent_iff : (∃ fuel r, pnioDcpInput fuel port pool dev zb = some r ∧
    r.sent ≠ none) ↔ IdentifyAnswered pool dev zb := by
  constructor
  · rintro ⟨fuel, r, hr, hsent⟩
    unfold pnioDcpInput at hr
    dsimp only at hr
    split_ifs at hr with hlen hidentify hset
    · cases hr
      exact absurd rfl hsent
    · obtain ⟨isMatch, hrun, rfl⟩ := Option.map_eq_some_iff.1 hr
      obtain ⟨offsets, hvisits, hfold⟩ := Lib.Cursor.returns_iff.1 ⟨fuel, hrun⟩
      cases isMatch with
      | false => exact absurd rfl hsent
      | true =>
        refine ⟨Nat.le_of_not_lt hlen, hidentify, ⟨offsets, hvisits, ?_⟩, fun hfree => ?_⟩
        · exact ((dcpIdentifyBlocks_iff ..).1 hfold).2
        · exact hsent (dcpRespond_of_no_free hfree _)
    · obtain ⟨dev', -, rfl⟩ := Option.map_eq_some_iff.1 hr
      exact absurd rfl hsent
    · cases hr
      exact absurd rfl hsent
  · rintro ⟨hlen, hservice, ⟨offsets, hvisits, hnames⟩, hfree⟩
    have hmatch := (dcpIdentifyBlocks_iff (pool.zb zb).dcpData dev.nameOfStation offsets true).2
      ⟨rfl, hnames⟩
    obtain ⟨fuel, hrun⟩ := Lib.Cursor.returns_iff.2 ⟨offsets, hvisits, hmatch⟩
    have hsent : ∃ pool' resp, (dcpRespond port pool dev zb (be32 (pool.zb zb).dcp 2)).sent =
        some (pool', resp) := dcpRespond_sent_of_free hfree _
    obtain ⟨pool', resp, hsent⟩ := hsent
    refine ⟨fuel, dcpRespond port pool dev zb (be32 (pool.zb zb).dcp 2), ?_, by simp [hsent]⟩
    exact pnioDcpInput_identify hlen hservice hrun

/-- **The frames of `pnio_dcp_input`** never have a header. -/
theorem pnioDcpInput_no_frame {fuel : ℕ} {r : DcpInput α} {pool' : ZbufPool α} {resp : α}
    (hr : pnioDcpInput fuel port pool dev zb = some r) (hsent : r.sent = some (pool', resp))
    (src dst : Fin 6 → BitVec 8) : ¬ EthFrame src dst ethTypeProfinet (pool'.zb resp) :=
  dcpRespond_sent (pnioDcpInput_sent hr hsent) src dst

/-! ## Cyclic data and alarms -/

/-- Both are built in a new buffer, and get their header last. -/
theorem builtFrame {pool₁ : ZbufPool α} {size type : BitVec 16} {src dst : Fin 6 → BitVec 8}
    (halloc : zbufAllocTx pool size = (pool₁, some zb)) (len : BitVec 16)
    (bytes : List (BitVec 8)) :
    EthFrame src dst type (Function.update pool₁.zb zb
      (((pool₁.zb zb).append len bytes).pushEthHdr dst src type) zb) := by
  obtain ⟨hdata, -, hlen⟩ := zbufAllocTx_some halloc
  rw [Function.update_self]
  exact Zbuf.append_pushEthHdr_frame hdata hlen len bytes

/-- **The frames of `pnio_rt_send`** have their headers. -/
theorem pnioRtSend_frame {dev : PnioDevice α} {now : BitVec 64} {pool' : ZbufPool α}
    (h : (pnioRtSend pool dev now).sent = some (pool', zb)) :
    ∃ ar, dev.ar.head? = some ar ∧
      EthFrame dev.netif.mac ar.peerMac ethTypeProfinet (pool'.zb zb) := by
  unfold pnioRtSend at h
  rcases har : dev.ar with _ | ⟨ar, rest⟩
  · rw [har] at h
    cases h
  · rw [har] at h
    dsimp only at h
    split_ifs at h
    rcases halloc : zbufAllocTx pool (pnioDataLen dev.slots + ethHdrLen) with ⟨pool₁, _ | zb₁⟩
    · rw [halloc] at h
      cases h
    · rw [halloc] at h
      cases h
      exact ⟨ar, rfl, builtFrame halloc _ _⟩

/-- **The frames of `pnio_send_alarm`** have their headers. -/
theorem pnioSendAlarm_frame {dev : PnioDevice α} {alarm : PnioAlarm} {pool' : ZbufPool α}
    (h : (pnioSendAlarm pool dev alarm).sent = some (pool', zb)) :
    ∃ ar, dev.ar.head? = some ar ∧
      EthFrame dev.netif.mac ar.peerMac ethTypeProfinet (pool'.zb zb) := by
  unfold pnioSendAlarm at h
  rcases har : dev.ar with _ | ⟨ar, rest⟩
  · rw [har] at h
    cases h
  · rw [har] at h
    dsimp only at h
    split_ifs at h
    rcases halloc : zbufAllocTx pool (32 + alarm.dataLength + ethHdrLen) with ⟨pool₁, _ | zb₁⟩
    · rw [halloc] at h
      cases h
    · rw [halloc] at h
      cases h
      exact ⟨ar, rfl, builtFrame halloc _ _⟩

end

/-! ## All ways to a driver -/

/-- A call of one of the functions that send, in any state.  The functions that
    call `eth_output` are `ip_output`, `arp_resolve` and `arp_input`. -/
inductive TxPath (α σ : Type) where
  | ethOutput (cfg : NetConfig α) (nif : IpNetif α) (s : NetStack α σ) (zb : α)
      (dstMac : Fin 6 → BitVec 8) (type : BitVec 16)
  | ipOutput (cfg : NetConfig α) (s : NetStack α σ) (zb : α) (src dst : BitVec 32)
      (proto : BitVec 8)
  | arpResolve (cfg : NetConfig α) (s : NetStack α σ) (ip : BitVec 32)
  | arpInput (cfg : NetConfig α) (nif : IpNetif α) (s : NetStack α σ) (zb : α)
  | pnioRtSend (pool : ZbufPool α) (dev : PnioDevice α) (now : BitVec 64)
  | pnioSendAlarm (pool : ZbufPool α) (dev : PnioDevice α) (alarm : PnioAlarm)
  | pnioDcpInput (port : Port) (pool : ZbufPool α) (dev : PnioStation α) (zb : α)

namespace TxPath
variable [DecidableEq α]

/-- **Frames with headers**: every buffer that the call hands to an interface starts
    with an Ethernet header from that interface, to the next hop (of ARP: to
    everyone, or to the sender of the request), to the peer of the first relation,
    or to the sender of the request. -/
def Framed : TxPath α σ → Prop
  | ethOutput cfg nif s zb dstMac type =>
    FramesSent (EthFrame nif.mac dstMac type) s (Gracemont.ethOutput cfg nif s zb dstMac type).1
  | ipOutput cfg s zb src dst proto =>
    FramesSent (fun z => ∃ nif, cfg.netifDefault = some nif ∧ HopFrame nif s dst z) s
      (Gracemont.ipOutput cfg s zb src dst proto).1
  | arpResolve cfg s ip =>
    FramesSent (fun z => ∃ nif, cfg.netifDefault = some nif ∧
      EthFrame nif.mac macBroadcast ethTypeArp z) s (Gracemont.arpResolve cfg s ip).1
  | arpInput cfg nif s zb =>
    FramesSent (EthFrame nif.mac
      (macAt (s.pool.zb zb).space.byte ((s.pool.zb zb).data + 8)) ethTypeArp) s
      (Gracemont.arpInput cfg nif s zb)
  | pnioRtSend pool dev now => ∀ pool' zb,
    (Gracemont.pnioRtSend pool dev now).sent = some (pool', zb) → ∃ ar, dev.ar.head? = some ar ∧
      EthFrame dev.netif.mac ar.peerMac ethTypeProfinet (pool'.zb zb)
  | pnioSendAlarm pool dev alarm => ∀ pool' zb,
    (Gracemont.pnioSendAlarm pool dev alarm).sent = some (pool', zb) →
      ∃ ar, dev.ar.head? = some ar ∧
        EthFrame dev.netif.mac ar.peerMac ethTypeProfinet (pool'.zb zb)
  | pnioDcpInput port pool dev zb => ∀ fuel r pool' resp,
    Gracemont.pnioDcpInput fuel port pool dev zb = some r → r.sent = some (pool', resp) →
      EthFrame dev.netif.mac (pool.zb zb).requester ethTypeProfinet (pool'.zb resp)

/-- The 16-bit length of the buffer does not wrap if it is sent with its headers,
    and the request is not one that is answered. -/
def Harmless : TxPath α σ → Prop
  | ethOutput _ _ s zb _ _ =>
    ethHdrLen ≤ (s.pool.zb zb).data → (s.pool.zb zb).len.toNat + ethHdrLen < 2 ^ 16
  | ipOutput cfg s zb _ dst _ => ∀ nif, cfg.netifDefault = some nif →
    ipHdrLen + ethHdrLen ≤ (s.pool.zb zb).data → (resolveHop nif s.arpCache dst).isSome →
      ((s.pool.zb zb).len + ipHdrLen).toNat + ethHdrLen < 2 ^ 16
  | pnioDcpInput _ pool dev zb => ¬ IdentifyAnswered pool dev zb
  | arpResolve .. | arpInput .. | pnioRtSend .. | pnioSendAlarm .. => True

end TxPath

section
variable [DecidableEq α]

/-- The request of `pnio_dcp_input` that is answered is the one that fails. -/
theorem pnioDcpInput_frames_iff (port : Port) (pool : ZbufPool α) (dev : PnioStation α) (zb : α)
    (src dst : Fin 6 → BitVec 8) :
    (∀ fuel r pool' resp, pnioDcpInput fuel port pool dev zb = some r →
      r.sent = some (pool', resp) → EthFrame src dst ethTypeProfinet (pool'.zb resp)) ↔
    ¬ IdentifyAnswered pool dev zb := by
  have hanswered : (∃ fuel r, pnioDcpInput fuel port pool dev zb = some r ∧ r.sent ≠ none) ↔
      IdentifyAnswered pool dev zb := pnioDcpInput_sent_iff
  rw [← hanswered]
  constructor
  · rintro h ⟨fuel, r, hr, hsent⟩
    obtain ⟨⟨pool', resp⟩, hsent⟩ := Option.ne_none_iff_exists'.1 hsent
    exact pnioDcpInput_no_frame hr hsent src dst (h fuel r pool' resp hr hsent)
  · intro h fuel r pool' resp hr hsent
    exact absurd ⟨fuel, r, hr, by simp [hsent]⟩ h

/-- **The frames handed to drivers** have their Ethernet headers exactly if no
    length wraps and no Identify request is answered. -/
theorem driver_frames_iff (path : TxPath α σ) : path.Framed ↔ path.Harmless := by
  cases path with
  | ethOutput cfg nif s zb dstMac type => exact ethOutput_frames_iff cfg nif s zb dstMac type
  | ipOutput cfg s zb src dst proto => exact ipOutput_frames_iff cfg s zb src dst proto
  | arpResolve cfg s ip => exact iff_of_true (arpResolve_frames cfg s ip) trivial
  | arpInput cfg nif s zb => exact iff_of_true (arpInput_frames cfg nif s zb) trivial
  | pnioRtSend pool dev now => exact iff_of_true (fun _ _ h => pnioRtSend_frame h) trivial
  | pnioSendAlarm pool dev alarm => exact iff_of_true (fun _ _ h => pnioSendAlarm_frame h) trivial
  | pnioDcpInput port pool dev zb => exact pnioDcpInput_frames_iff port pool dev zb _ _

end

/-- The device of `profinet_task`, with its name, and with a driver that accepts
    everything. -/
def demoStation : PnioStation (Fin 2) :=
  { demoPnio [] with
    nameOfStation := .ofBytes
      [0x72, 0x74, 0x6F, 0x73, 0x2D, 0x64, 0x65, 0x76, 0x69, 0x63, 0x65]
    vendorId := 0x1234, deviceId := 0x5678, deviceRole := 1
    ipAddr := 0x0A000001, netmask := 0xFFFFFF00, gateway := 0x0A0000FE }

/-- An Identify request for all stations, without blocks, and a free buffer. -/
def demoIdentify : ZbufPool (Fin 2) where
  zb := fun zb =>
    if zb = 0 then demoFrame ethHdrLen [0xFE, 0xFE, 5, 0, 0, 0, 0, 1, 0, 0, 0, 0] else demoZbuf
  freeList := some 1
  totalCount := 2
  freeCount := 1
  allocFailures := 0

/-- **The response without a header.**  The frame on the wire starts with the frame
    id and the DCP header, where its destination should be. -/
theorem identify_response_headless :
    (∃ r pool' resp, pnioDcpInput 1 .arm64 demoIdentify demoStation 0 = some r ∧
      r.sent = some (pool', resp) ∧
      (pool'.zb resp).space.read (pool'.zb resp).data 6 = [0xFE, 0xFC, 5, 1, 0, 0]) ∧
    ¬ (TxPath.pnioDcpInput .arm64 demoIdentify demoStation 0 : TxPath (Fin 2) (Fin 2)).Framed := by
  refine ⟨⟨_, _, _, rfl, rfl, by decide⟩, fun h => ?_⟩
  have htype := (h 1 _ _ _ rfl rfl).type
  exact absurd htype (by decide)

end Gracemont
