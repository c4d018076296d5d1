/-
  Gracemont protocols — the cycle of a PROFINET IO device
  (`pnio_device_poll` of `protocols/profinet/profinet.c`).

  The loop goes over the relations and calls `pnio_rt_send` for each that is
  active, but that function is not told which one, and sends for the first
  relation, if it is active.

  * `pnioDevicePoll`, with the calls of `pnio_rt_send`;
  * `pollLoop_keys`: whom the frames are for;
  * `poll_covers_iff`: when every active relation gets its frame.
-/
import Gracemont.Protocols.DriverFrames
import Gracemont.Protocols.ProfinetSend

namespace Gracemont

open Lib (ByteMem)

variable {α : Type}

/-- `pnio_device_t` with what `pnio_device_poll` checks. -/
structure PnioCyclic (α : Type) extends PnioDevice α where
  running : Bool
  cycleTimeUs : BitVec 32

/-- What `pnio_device_poll` leaves, and for each call of `pnio_rt_send` the pool
    before it, and the buffer that it hands to the driver, with the pool then. -/
structure Poll (α : Type) where
  pool : ZbufPool α
  dev : PnioDevice α
  calls : List (ZbufPool α × Option (ZbufPool α × α))

/-- The buffers that are sent. -/
def Poll.sent (p : Poll α) : List (ZbufPool α × α) := p.calls.filterMap Prod.snd

section
variable [DecidableEq α] (clock : ℕ → BitVec 64)

/-- The loop over the relations, from the relation `i` on; `clock i` is what the
    call for this relation reads from the clock. -/
def pollLoop : ℕ → List PnioAr → ZbufPool α → PnioDevice α → Poll α
  | _, [], pool, dev => ⟨pool, dev, []⟩
  | i, ar :: ars, pool, dev =>
    if ar.active then
      let r := pnioRtSend pool dev (clock i)
      let rest := pollLoop (i + 1) ars r.pool r.dev
      { rest with calls := (pool, r.sent) :: rest.calls }
    else pollLoop (i + 1) ars pool dev

/-- `elapsed >= (dev->cycle_time_us / 1000)`, where `elapsed` is a `tick_t`. -/
def PnioCyclic.elapsed (port : Port) (dev : PnioCyclic α) (now : BitVec 64) : Bool :=
  (dev.cycleTimeUs / 1000).toNat ≤ port.tick (now - dev.lastCycleTime).toNat

/-- `pnio_device_poll` at the tick `now`. -/
def pnioDevicePoll (port : Port) (pool : ZbufPool α) (dev : PnioCyclic α) (now : BitVec 64) :
    Poll α :=
  if ¬ dev.running then ⟨pool, dev.toPnioDevice, []⟩
  else if dev.elapsed port now then pollLoop clock 0 dev.ar pool dev.toPnioDevice
  else ⟨pool, dev.toPnioDevice, []⟩

end

/-! ## Whom a frame is for -/

/-- The frame id and the destination of a relation, and those of a frame. -/
def PnioAr.key (ar : PnioAr) : BitVec 16 × (Fin 6 → BitVec 8) := (ar.inputFrameId, ar.peerMac)

def Zbuf.rtKey (z : Zbuf α) : BitVec 16 × (Fin 6 → BitVec 8) :=
  (be16 z.frame ethHdrLen, macAt z.space.byte z.data)

def Poll.keys (p : Poll α) : List (BitVec 16 × (Fin 6 → BitVec 8)) :=
  p.sent.map fun s => (s.1.zb s.2).rtKey

/-- What `n` calls of `pnio_rt_send` send. -/
def PnioDevice.firstKeys (dev : PnioDevice α) (n : ℕ) : List (BitVec 16 × (Fin 6 → BitVec 8)) :=
  match dev.ar with
  | [] => []
  | ar :: _ => if ar.active then List.replicate n ar.key else []

theorem firstKeys_add (dev : PnioDevice α) (n k : ℕ) :
    dev.firstKeys (n + k) = dev.firstKeys n ++ dev.firstKeys k := by
  unfold PnioDevice.firstKeys
  split
  · rfl
  · split_ifs
    · exact List.replicate_add ..
    · rfl

section
variable [DecidableEq α] {pool : ZbufPool α} {dev : PnioDevice α}

/-- A call keeps the relations and the slots. -/
theorem pnioRtSend_keeps (pool : ZbufPool α) (dev : PnioDevice α) (now : BitVec 64) :
    (pnioRtSend pool dev now).dev.ar = dev.ar ∧
      (pnioRtSend pool dev now).dev.slots = dev.slots := by
  cases hdev : dev.ar with
  | nil =>
    simp only [pnioRtSend, hdev]
    exact ⟨trivial, trivial⟩
  | cons ar rest =>
    by_cases hactive : ar.active
    · rcases halloc : zbufAllocTx pool (pnioDataLen dev.slots + ethHdrLen) with ⟨pool₁, _ | zb⟩
      · simp only [pnioRtSend, hdev, hactive, not_true_eq_false, if_false, halloc]
        exact ⟨trivial, trivial⟩
      · simp only [pnioRtSend, hdev, hactive, not_true_eq_false, if_false, halloc]
        exact ⟨trivial, trivial⟩
    · simp only [pnioRtSend, hdev, hactive]
      exact ⟨hdev, rfl⟩

/-- **A call sends for the first relation**, if it is active. -/
theorem pnioRtSend_keys (hfree : pool.freeList ≠ none)
    (hfit : ethHdrLen + frameLen dev.slots ≤ configZbufSize - configZbufHeadroom)
    (now : BitVec 64) :
    ((pnioRtSend pool dev now).sent.toList.map fun s => (s.1.zb s.2).rtKey) = dev.firstKeys 1 := by
  obtain ⟨zb, hfree⟩ := Option.ne_none_iff_exists'.1 hfree
  have hroom : configZbufSize - configZbufHeadroom = 1920 := rfl
  have heth : ethHdrLen = 14 := rfl
  by_cases hrelation : ∃ ar, dev.ar.head? = some ar ∧ ar.active
  · obtain ⟨ar, har, hactive⟩ := hrelation
    obtain ⟨rest, hdev⟩ : ∃ rest, dev.ar = ar :: rest := List.head?_eq_some_iff.1 har
    have hsends : Sends pool dev ar zb := ⟨⟨har, hactive⟩, hfree, by omega⟩
    obtain ⟨pool', hsent, hfits, -⟩ := pnioRtSend_sent now hsends
    have hlen : (pnioDataLen dev.slots).toNat = frameLen dev.slots := by
      rw [pnioDataLen_eq, BitVec.toNat_ofNat]
      omega
    obtain ⟨hdata, -, hspace⟩ := hfits (by omega)
    obtain ⟨ar', har', hframe⟩ := pnioRtSend_frame hsent
    obtain rfl : ar = ar' := Option.some.inj (har.symm.trans har')
    have hcount : (rtBytes dev ar).length = 2 + (sentInputs dev.slots).length + 4 := rtBytes_length
    have hbyte : ∀ i (hi : i < (rtBytes dev ar).length),
        (pool'.zb zb).frame (ethHdrLen + i) = (rtBytes dev ar)[i] := by
      intro i hi
      rw [Zbuf.frame, ← Nat.add_assoc, hdata, hspace, (putEthHdr_within ..).frame _ (Or.inr ?_),
        ByteMem.putBytes_byte _ _ _ hi]
      omega
    have hid : be16 (pool'.zb zb).frame ethHdrLen = ar.inputFrameId := by
      have hhi := hbyte 0 (by omega)
      have hlo := hbyte 1 (by omega)
      rw [Nat.add_zero] at hhi
      rw [be16, hhi, hlo]
      exact hiByte_append_loByte _
    simp only [PnioDevice.firstKeys, hdev, hactive, if_true, hsent, Option.toList_some,
      List.map_cons, List.map_nil, List.replicate_one, Zbuf.rtKey, hid, hframe.dst, PnioAr.key]
  · have hnone := pnioRtSend_none now fun ar zb (hs : Sends pool dev ar zb) =>
      hrelation ⟨ar, hs.relation⟩
    rw [hnone, PnioDevice.firstKeys]
    cases hdev : dev.ar with
    | nil => rfl
    | cons ar rest =>
      have hactive : ¬ ar.active := fun h => hrelation ⟨ar, by rw [hdev]; rfl, h⟩
      simp [hactive]

variable (clock : ℕ → BitVec 64)

/-- **The frames of the loop**: as many as there are active relations, all of them
    for the first. -/
theorem pollLoop_keys (i : ℕ) (ars : List PnioAr)
    (hfit : ethHdrLen + frameLen dev.slots ≤ configZbufSize - configZbufHeadroom)
    (hfree : ∀ call ∈ (pollLoop clock i ars pool dev).calls, call.1.freeList ≠ none) :
    (pollLoop clock i ars pool dev).keys = dev.firstKeys (ars.countP (·.active)) := by
  induction ars generalizing i pool dev with
  | nil =>
    have hzero := firstKeys_add dev 0 0
    exact (List.self_eq_append_left.1 hzero).symm
  | cons ar ars ih =>
    by_cases hactive : ar.active
    · obtain ⟨har, hslots⟩ := pnioRtSend_keeps pool dev (clock i)
      rw [pollLoop, if_pos hactive] at hfree ⊢
      rw [List.forall_mem_cons] at hfree
      have hrest := ih (i + 1) (hslots ▸ hfit) hfree.2
      have hfirst : (pnioRtSend pool dev (clock i)).dev.firstKeys = dev.firstKeys := by
        funext n
        rw [PnioDevice.firstKeys, har, PnioDevice.firstKeys]
      rw [List.countP_cons_of_pos hactive, Nat.add_comm (List.countP _ ars), firstKeys_add,
        ← pnioRtSend_keys hfree.1 hfit (clock i), ← hfirst, ← hrest]
      cases hsent : (pnioRtSend pool dev (clock i)).sent with
      | none => simp [Poll.keys, Poll.sent, hsent]
      | some s => simp [Poll.keys, Poll.sent, hsent]
    · rw [pollLoop, if_neg hactive] at hfree ⊢
      rw [List.countP_cons_of_neg hactive]
      exact ih (i + 1) hfit hfree

/-! ## All relations -/

/-- **Every active relation gets one frame**, and no other does. -/
def PollCovers (port : Port) (pool : ZbufPool α) (dev : PnioCyclic α) (now : BitVec 64) : Prop :=
  (pnioDevicePoll clock port pool dev now).keys.Perm ((dev.ar.filter (·.active)).map PnioAr.key)

/-- **The frames of `pnio_device_poll`**, when the cycle time is over, and there is a
    buffer for each call: they are for the active relations exactly if, unless
    there is none, the first one is active, and they all have its frame id and
    its peer. -/
theorem poll_covers_iff {port : Port} {dev : PnioCyclic α} {now : BitVec 64}
    (hrunning : dev.running) (helapsed : dev.elapsed port now)
    (hfit : ethHdrLen + frameLen dev.slots ≤ configZbufSize - configZbufHeadroom)
    (hfree : ∀ call ∈ (pnioDevicePoll clock port pool dev now).calls, call.1.freeList ≠ none) :
    PollCovers clock port pool dev now ↔ ∀ ar ∈ dev.ar, ar.active →
      ∃ first, dev.ar.head? = some first ∧ first.active ∧ ar.key = first.key := by
  have hpoll : pnioDevicePoll clock port pool dev now =
      pollLoop clock 0 dev.ar pool dev.toPnioDevice := by
    simp only [pnioDevicePoll, hrunning, not_true_eq_false, if_false, helapsed, if_true]
  rw [hpoll] at hfree
  rw [PollCovers, hpoll, pollLoop_keys clock 0 dev.ar hfit hfree, PnioDevice.firstKeys]
  cases hdev : dev.ar with
  | nil => simp
  | cons first rest =>
    have hhead : ∀ ar, (first :: rest).head? = some ar ↔ ar = first := by
      intro ar
      rw [List.head?_cons, Option.some_inj, eq_comm]
    simp only [hhead, exists_eq_left]
    by_cases hfirst : first.active
    · have hlen : (((first :: rest).filter (·.active)).map PnioAr.key).length =
          (first :: rest).countP (·.active) := by
        rw [List.length_map, List.countP_eq_length_filter]
      simp only [hfirst, if_true, true_and]
      rw [List.perm_comm, List.perm_replicate, List.eq_replicate_iff, and_iff_right hlen,
        List.forall_mem_map]
      simp only [List.mem_filter, and_imp]
    · rw [if_neg hfirst, List.nil_perm, List.map_eq_nil_iff, List.filter_eq_nil_iff]
      simp only [hfirst, Bool.false_eq_true, false_and, imp_false]

end

/-- A device with a second relation, to another peer, and its cycle time over. -/
def demoTwoRelations : PnioCyclic (Fin 2) :=
  { demoPnio [] with
    ar := [⟨true, 0x8001, 0x8000, fun _ => 0x0E⟩, ⟨true, 0x8003, 0x8002, fun _ => 0x0F⟩]
    running := true
    cycleTimeUs := 1000 }

/-- **The second relation gets no frame**, and the first one gets two. -/
theorem second_relation_missed :
    (pnioDevicePoll (fun _ => 5) .arm64 (zbufPoolInit demoZbufs fun _ => demoZbuf)
      demoTwoRelations 5).keys.map Prod.fst = [0x8001, 0x8001] ∧
    ¬ PollCovers (fun _ => 5) .arm64 (zbufPoolInit demoZbufs fun _ => demoZbuf)
      demoTwoRelations 5 := by
  have hkeys : (pnioDevicePoll (fun _ => 5) .arm64 (zbufPoolInit demoZbufs fun _ => demoZbuf)
      demoTwoRelations 5).keys.map Prod.fst = [0x8001, 0x8001] := by decide
  refine ⟨hkeys, fun h => ?_⟩
  have hperm := h.map Prod.fst
  rw [hkeys] at hperm
  have hids : ((demoTwoRelations.ar.filter (·.active)).map PnioAr.key).map Prod.fst =
      [0x8001, 0x8003] := by decide
  rw [hids] at hperm
  exact absurd hperm (by decide)

/-- The condition at this device. -/
theorem second_relation_not_covered :
    ¬ PollCovers (fun _ => 5) .arm64 (zbufPoolInit demoZbufs fun _ => demoZbuf)
      demoTwoRelations 5 := by
  rw [poll_covers_iff (fun _ => 5) rfl (by decide) (by decide) (by decide)]
  intro h
  have hmem : ⟨true, 0x8003, 0x8002, fun _ => 0x0F⟩ ∈ demoTwoRelations.ar :=
    List.mem_cons_of_mem _ (List.mem_singleton_self _)
  obtain ⟨first, hfirst, -, hkey⟩ := h _ hmem rfl
  cases hfirst
  exact absurd (congrArg Prod.fst hkey) (by decide)

end Gracemont
