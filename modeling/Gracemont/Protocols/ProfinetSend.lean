/-
  Gracemont protocols — the frames of `pnio_rt_send`.

  The length is computed with a status byte for every plugged subslot, but a
  plugged subslot without input data writes none.  `RtFrame` says what a frame
  is meant to be; the frames are like this exactly if there is no such subslot
  and the length fits a buffer (`rt_send_iff`).

  * `frameLen`: the length of a frame, as a number;
  * `Sends`: a frame is handed to the driver.
-/
import Gracemont.Protocols.Profinet

namespace Gracemont

open Lib (ByteMem)

variable {α : Type}

/-! ## The layout of a frame -/

/-- The input data and the status of a plugged subslot. -/
def PnioSubslot.inputPart (sub : PnioSubslot) : List (BitVec 8) :=
  if sub.plugged then sub.inputBytes ++ [sub.iops] else []

/-- The input data and the status of every plugged subslot, in order. -/
def cyclicInputs (slots : List PnioSlot) : List (BitVec 8) :=
  slots.flatMap fun slot => slot.subslots.flatMap PnioSubslot.inputPart

/-- The length of the frame behind the Ethernet header. -/
def frameLen (slots : List PnioSlot) : ℕ := 2 + (cyclicInputs slots).length + 4

/-- Every plugged subslot has input data. -/
def EveryInput (slots : List PnioSlot) : Prop :=
  ∀ slot ∈ slots, ∀ sub ∈ slot.subslots, sub.plugged → sub.inputLength ≠ 0

/-- **A cyclic frame**, in the buffer `z` whose memory was `m` before.  The
    length does not wrap; behind the Ethernet header are the frame id, the data
    and status of each plugged subslot, the cycle counter and the two status
    bytes; and as many bytes were written as the frame has, every one of them. -/
structure RtFrame (dev : PnioDevice α) (ar : PnioAr) (m : ByteMem) (z : Zbuf α) : Prop where
  dataLen : (pnioDataLen dev.slots).toNat = frameLen dev.slots
  len : z.len.toNat = ethHdrLen + (pnioDataLen dev.slots).toNat
  bytes : z.space.read (z.data + ethHdrLen) (pnioDataLen dev.slots).toNat =
    [hiByte ar.inputFrameId, loByte ar.inputFrameId] ++ cyclicInputs dev.slots ++
      [hiByte (dev.cycleCount.setWidth 16), loByte (dev.cycleCount.setWidth 16),
        pnioStatusPrimary ||| pnioStatusValid ||| pnioStatusState, 0]
  written : ∃ ws, z.space.written = ws ++ m.written ∧ ws.length = z.len.toNat ∧
    ∀ i < z.len.toNat, z.data + i ∈ ws

/-- `pnio_rt_send` finds an active relation `ar` and the free buffer `zb`, and
    asks for a buffer size (of 16 bits) that it gets. -/
structure Sends (pool : ZbufPool α) (dev : PnioDevice α) (ar : PnioAr) (zb : α) : Prop where
  relation : dev.ar.head? = some ar ∧ ar.active
  buffer : pool.freeList = some zb
  size : (frameLen dev.slots + ethHdrLen) % 2 ^ 16 ≤ configZbufSize - configZbufHeadroom

/-! ## Lengths -/

theorem inputPart_length (sub : PnioSubslot) :
    sub.inputPart.length = if sub.plugged then sub.inputLength.toNat + 1 else 0 := by
  unfold PnioSubslot.inputPart PnioSubslot.inputBytes
  split_ifs
  · simp
  · rfl

/-- The inner loop of the computation of `data_len`. -/
theorem subslotsLen (subs : List PnioSubslot) (len : BitVec 16) :
    subs.foldl (fun len sub => if sub.plugged then len + (sub.inputLength + 1) else len) len =
      len + BitVec.ofNat 16 (subs.flatMap PnioSubslot.inputPart).length := by
  induction subs generalizing len with
  | nil => simp
  | cons sub subs ih =>
    rw [List.foldl_cons, ih, List.flatMap_cons, List.length_append, inputPart_length]
    split_ifs
    · rw [BitVec.ofNat_add, BitVec.ofNat_add, BitVec.ofNat_toNat, BitVec.setWidth_eq,
        BitVec.add_assoc]
      rfl
    · rw [Nat.zero_add]

/-- `data_len` is the length of the frame in 16 bits. -/
theorem pnioDataLen_eq (slots : List PnioSlot) :
    pnioDataLen slots = BitVec.ofNat 16 (frameLen slots) := by
  have hloop : ∀ (slots : List PnioSlot) (len : BitVec 16),
      slots.foldl (fun len slot => slot.subslots.foldl
        (fun len sub => if sub.plugged then len + (sub.inputLength + 1) else len) len) len =
        len + BitVec.ofNat 16 (cyclicInputs slots).length := by
    intro slots
    induction slots with
    | nil => simp [cyclicInputs]
    | cons slot slots ih =>
      intro len
      have hcons : cyclicInputs (slot :: slots) =
          slot.subslots.flatMap PnioSubslot.inputPart ++ cyclicInputs slots := rfl
      rw [List.foldl_cons, ih, subslotsLen, hcons, List.length_append, BitVec.ofNat_add,
        BitVec.add_assoc]
  rw [pnioDataLen, hloop, frameLen, BitVec.ofNat_add, BitVec.ofNat_add]
  rfl

/-! ## What the loops leave out -/

theorem send_sublist (sub : PnioSubslot) : sub.send.Sublist sub.inputPart := by
  unfold PnioSubslot.send PnioSubslot.inputPart
  split_ifs with h1 h2 h2
  · exact List.Sublist.refl _
  · exact absurd h1.1 h2
  · exact List.nil_sublist _
  · exact List.Sublist.refl _

theorem send_eq_iff (sub : PnioSubslot) : sub.send = sub.inputPart ↔
    (sub.plugged → sub.inputLength ≠ 0) := by
  unfold PnioSubslot.send PnioSubslot.inputPart
  by_cases hplug : sub.plugged
  · by_cases hlen : sub.inputLength = 0
    · simp [hplug, hlen]
    · have hpos : 0 < sub.inputLength := by
        rw [BitVec.lt_def]
        exact Nat.pos_of_ne_zero fun h => hlen (BitVec.eq_of_toNat_eq h)
      simp [hplug]
  · simp [hplug]

/-- Parts that are sublists: the whole has the same length exactly if no part
    lacks anything. -/
theorem flatMap_length_iff {β γ : Type} {f g : β → List γ} {l : List β}
    (h : ∀ x ∈ l, (f x).Sublist (g x)) :
    (l.flatMap f).Sublist (l.flatMap g) ∧
      ((l.flatMap f).length = (l.flatMap g).length ↔ ∀ x ∈ l, f x = g x) := by
  induction l with
  | nil => simp
  | cons x l ih =>
    rw [List.forall_mem_cons] at h
    obtain ⟨hsub, hiff⟩ := ih h.2
    refine ⟨h.1.append hsub, ?_⟩
    rw [List.flatMap_cons, List.flatMap_cons, List.length_append, List.length_append,
      List.forall_mem_cons, ← hiff, ← h.1.length_eq]
    have h1 := h.1.length_le
    have h2 := hsub.length_le
    omega

theorem sentInputs_length_iff (slots : List PnioSlot) :
    (sentInputs slots).length = (cyclicInputs slots).length ↔ EveryInput slots := by
  have hslot : ∀ slot : PnioSlot, (slot.subslots.flatMap PnioSubslot.send).Sublist
      (slot.subslots.flatMap PnioSubslot.inputPart) ∧
      (slot.subslots.flatMap PnioSubslot.send = slot.subslots.flatMap PnioSubslot.inputPart ↔
        ∀ sub ∈ slot.subslots, sub.plugged → sub.inputLength ≠ 0) := by
    intro slot
    obtain ⟨hsub, hiff⟩ := flatMap_length_iff fun sub (_ : sub ∈ slot.subslots) => send_sublist sub
    refine ⟨hsub, ?_⟩
    rw [← hsub.length_eq, hiff]
    exact forall₂_congr fun sub _ => send_eq_iff sub
  rw [sentInputs, cyclicInputs, (flatMap_length_iff fun slot _ => (hslot slot).1).2]
  exact forall₂_congr fun slot _ => (hslot slot).2

theorem EveryInput.sentInputs_eq {slots : List PnioSlot} (h : EveryInput slots) :
    sentInputs slots = cyclicInputs slots := by
  refine List.flatMap_congr fun slot hslot => List.flatMap_congr fun sub hsub => ?_
  exact (send_eq_iff sub).2 (h slot hslot sub hsub)

/-! ## The function -/

section
variable [DecidableEq α] {pool : ZbufPool α} {dev : PnioDevice α} {ar : PnioAr} {zb : α}
variable (now : BitVec 64)

/-- The size that `pnio_rt_send` asks for. -/
theorem dataLen_add (slots : List PnioSlot) : (pnioDataLen slots + ethHdrLen : BitVec 16).toNat =
    (frameLen slots + ethHdrLen) % 2 ^ 16 := by
  have hhdr : ((ethHdrLen : ℕ) : BitVec 16) = BitVec.ofNat 16 ethHdrLen := rfl
  rw [hhdr, pnioDataLen_eq, ← BitVec.ofNat_add, BitVec.toNat_ofNat]

/-- The bytes that are written behind the Ethernet header. -/
def rtBytes (dev : PnioDevice α) (ar : PnioAr) : List (BitVec 8) :=
  pnioRtBytes dev ar (sentInputs dev.slots)

omit [DecidableEq α] in
theorem rtBytes_length : (rtBytes dev ar).length = 2 + (sentInputs dev.slots).length + 4 := by
  simp [rtBytes, pnioRtBytes]
  omega

/-- The buffer that is handed to the driver. -/
theorem pnioRtSend_sent (h : Sends pool dev ar zb) :
    ∃ pool', (pnioRtSend pool dev now).sent = some (pool', zb) ∧
      ((pnioDataLen dev.slots).toNat ≤ configZbufSize - configZbufHeadroom →
        (pool'.zb zb).data + ethHdrLen = configZbufHeadroom ∧
        (pool'.zb zb).len = pnioDataLen dev.slots + ethHdrLen ∧
        (pool'.zb zb).space = putEthHdr
          ((pool.zb zb).space.putBytes configZbufHeadroom (rtBytes dev ar)) (pool'.zb zb).data
          ar.peerMac dev.netif.mac ethTypeProfinet) ∧
      (configZbufSize - configZbufHeadroom < (pnioDataLen dev.slots).toNat →
        (pool'.zb zb).len = ethHdrLen) := by
  obtain ⟨rest, hdev⟩ : ∃ rest, dev.ar = ar :: rest := by
    cases hl : dev.ar with
    | nil =>
      have := h.relation.1
      rw [hl] at this
      cases this
    | cons ar' rest =>
      have := h.relation.1
      rw [hl] at this
      exact ⟨rest, by rw [Option.some.inj this]⟩
  have hsize : (pnioDataLen dev.slots + ethHdrLen : BitVec 16).toNat ≤
      configZbufSize - configZbufHeadroom := by
    rw [dataLen_add]
    exact h.size
  obtain ⟨pool₁, halloc, hdata, htail, hlen, hspace⟩ := zbufAllocTx_spec h.buffer hsize
  have hzero : ∀ x : BitVec 16, 0 + x = x := fun x => BitVec.zero_add x
  simp only [pnioRtSend, hdev, h.relation.2, not_true_eq_false, if_false, halloc]
  refine ⟨_, rfl, ?_, ?_⟩
  · intro hfit
    have hbuilt := Zbuf.built (pool₁.zb zb) (pnioDataLen dev.slots)
      (pnioRtBytes dev ar (sentInputs dev.slots)) ar.peerMac dev.netif.mac ethTypeProfinet hdata
      htail hlen hfit
    rw [hspace] at hbuilt
    simp only [Function.update_self]
    exact hbuilt
  · intro hbig
    rw [Zbuf.append_of_lt, Zbuf.pushEthHdr_of_le]
    · simp only [Function.update_self, hlen, hzero]
    · rw [hdata]
      decide
    · rw [htail]
      simp only [zbufEnd, zbufHead, configZbufSize, configZbufHeadroom] at hbig ⊢
      omega

/-- Without a relation or a buffer, or with a size that is too large, nothing is
    sent. -/
theorem pnioRtSend_none (h : ∀ ar zb, ¬ Sends pool dev ar zb) :
    (pnioRtSend pool dev now).sent = none := by
  cases hdev : dev.ar with
  | nil => simp only [pnioRtSend, hdev]
  | cons ar rest =>
    by_cases hactive : ar.active
    · have halloc : ∃ pool', zbufAllocTx pool (pnioDataLen dev.slots + ethHdrLen) =
          (pool', none) := by
        cases hfree : pool.freeList with
        | none => exact zbufAllocTx_none hfree _
        | some zb =>
          refine zbufAllocTx_large (Nat.lt_of_not_le fun hs => ?_)
          rw [dataLen_add] at hs
          exact h ar zb ⟨⟨by rw [hdev]; rfl, hactive⟩, hfree, hs⟩
      obtain ⟨pool', halloc⟩ := halloc
      simp only [pnioRtSend, hdev, hactive, not_true_eq_false, if_false, halloc]
    · rw [pnioRtSend, hdev]
      exact congrArg RtSend.sent (if_pos hactive)

/-- The condition for a frame of this device. -/
theorem rtFrame_iff (h : Sends pool dev ar zb) {pool' : ZbufPool α}
    (hsent : (pnioRtSend pool dev now).sent = some (pool', zb)) :
    RtFrame dev ar (pool.zb zb).space (pool'.zb zb) ↔
      EveryInput dev.slots ∧
        ethHdrLen + frameLen dev.slots ≤ configZbufSize - configZbufHeadroom := by
  obtain ⟨pool'', hsent', hfits, hbig⟩ := pnioRtSend_sent now h
  obtain ⟨rfl, -⟩ : pool' = pool'' ∧ zb = zb := by
    simpa [hsent] using hsent'
  have hhdr : ((ethHdrLen : ℕ) : BitVec 16).toNat = 14 := rfl
  have hsize := h.size
  have hlen : (pnioDataLen dev.slots).toNat = frameLen dev.slots % 2 ^ 16 := by
    rw [pnioDataLen_eq, BitVec.toNat_ofNat]
  have hlt := (pnioDataLen dev.slots).isLt
  have hframe : frameLen dev.slots = 2 + (cyclicInputs dev.slots).length + 4 := rfl
  have hsentLen : (rtBytes dev ar).length = 2 + (sentInputs dev.slots).length + 4 := rtBytes_length
  obtain ⟨ws, hws, hwslen, hwscover⟩ := putEthHdr_written ((pool.zb zb).space.putBytes
    configZbufHeadroom (rtBytes dev ar)) (pool'.zb zb).data ar.peerMac dev.netif.mac ethTypeProfinet
  rw [ByteMem.putBytes_written, ← List.append_assoc] at hws
  have hroom : configZbufSize - configZbufHeadroom = 1920 := rfl
  have heth : ethHdrLen = 14 := rfl
  constructor
  · intro hrt
    have hwrap := hrt.dataLen
    have hzlen := hrt.len
    by_cases hfit : (pnioDataLen dev.slots).toNat ≤ configZbufSize - configZbufHeadroom
    · obtain ⟨-, -, hspace⟩ := hfits hfit
      -- as many bytes were written as the frame has
      obtain ⟨ws', hws', hwslen', -⟩ := hrt.written
      have hlog := hws'.symm.trans ((congrArg ByteMem.written hspace).trans hws)
      have hlength := congrArg List.length hlog
      simp only [List.length_append, List.length_reverse, List.length_range'] at hlength
      refine ⟨(sentInputs_length_iff _).1 ?_, ?_⟩
      · omega
      · omega
    · have hz := congrArg BitVec.toNat (hbig (Nat.lt_of_not_le hfit))
      rw [hhdr] at hz
      omega
  · rintro ⟨hinput, hfit⟩
    have hcount := (sentInputs_length_iff _).2 hinput
    obtain ⟨hdata, hzlen, hspace⟩ := hfits (by omega)
    have hzlen := (congrArg BitVec.toNat hzlen).trans (dataLen_add dev.slots)
    refine ⟨by omega, by omega, ?_, ?_⟩
    · have hread : (pool'.zb zb).space.read ((pool'.zb zb).data + ethHdrLen)
          (rtBytes dev ar).length = rtBytes dev ar := by
        rw [hdata]
        refine Eq.trans (ByteMem.read_congr fun i _ => ?_) (ByteMem.read_putBytes
          (pool.zb zb).space configZbufHeadroom (rtBytes dev ar))
        rw [hspace]
        exact (putEthHdr_within ..).frame _ (Or.inr (by omega))
      have hl : (pnioDataLen dev.slots).toNat = (rtBytes dev ar).length := by omega
      rw [hl, hread, rtBytes, hinput.sentInputs_eq]
      rfl
    · refine ⟨_, (congrArg ByteMem.written hspace).trans hws, ?_, ?_⟩
      · simp only [List.length_append, List.length_reverse, List.length_range']
        omega
      · intro i hi
        by_cases hi14 : i < ethHdrLen
        · exact List.mem_append_left _ (hwscover i hi14)
        · refine List.mem_append_right _ (List.mem_reverse.2 (List.mem_range'_1.2 ?_))
          omega

/-- **The frames of `pnio_rt_send`.**  Any frame that is sent is as it should be
    exactly if either none is sent, or every plugged subslot has input data and
    the frame fits a buffer. -/
theorem rt_send_iff (pool : ZbufPool α) (dev : PnioDevice α) (now : BitVec 64) :
    (∀ pool' zb, (pnioRtSend pool dev now).sent = some (pool', zb) →
      ∃ ar, dev.ar.head? = some ar ∧ RtFrame dev ar (pool.zb zb).space (pool'.zb zb)) ↔
    ((∃ ar zb, Sends pool dev ar zb) → EveryInput dev.slots ∧
      ethHdrLen + frameLen dev.slots ≤ configZbufSize - configZbufHeadroom) := by
  by_cases hsends : ∃ ar zb, Sends pool dev ar zb
  · obtain ⟨ar, zb, hs⟩ := hsends
    obtain ⟨pool', hsent, -⟩ := pnioRtSend_sent now hs
    constructor
    · intro h _
      obtain ⟨ar', har', hrt⟩ := h pool' zb hsent
      obtain rfl : ar = ar' := Option.some.inj (hs.relation.1.symm.trans har')
      exact (rtFrame_iff now hs hsent).1 hrt
    · intro h pool'' zb'' hsent''
      obtain ⟨rfl, rfl⟩ : pool' = pool'' ∧ zb = zb'' := by
        simpa [hsent] using hsent''
      exact ⟨ar, hs.relation.1, (rtFrame_iff now hs hsent).2 (h ⟨ar, zb, hs⟩)⟩
  · have hnone := pnioRtSend_none now fun ar zb hs => hsends ⟨ar, zb, hs⟩
    refine iff_of_true ?_ fun h => absurd h hsends
    intro pool' zb hsent
    rw [hnone] at hsent
    cases hsent

end

/-- **The frames of `profinet_task`.**  The access point of the device has no
    input data; the last byte of the frame, the transfer status, is not written. -/
theorem transfer_status_unwritten : ∃ pool' zb,
    (pnioRtSend (zbufPoolInit demoZbufs fun _ => demoZbuf)
      (demoPnio [⟨0, [demoSubslot 0 0]⟩, ⟨1, [demoSubslot 8 8]⟩]) 0).sent = some (pool', zb) ∧
    (pool'.zb zb).len = 30 ∧ (pool'.zb zb).data + 29 ∉ (pool'.zb zb).space.written ∧
    ∀ ar m, ¬ RtFrame (demoPnio [⟨0, [demoSubslot 0 0]⟩, ⟨1, [demoSubslot 8 8]⟩]) ar m
      (pool'.zb zb) := by
  refine ⟨_, _, rfl, by decide, by decide, ?_⟩
  intro ar m h
  obtain ⟨ws, hws, -, hcover⟩ := h.written
  have hlast := List.mem_append_left m.written (hcover 29 (by decide))
  rw [← hws] at hlast
  exact absurd hlast (by decide)

end Gracemont
