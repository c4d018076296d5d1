/-
  Gracemont drivers — the buffers posted for reception (`eth_rx_add_buffer` and
  `eth_rx_fill` of `drivers/eth/eth.c`, ARM64 port).

  A buffer is allocated for `CONFIG_ZBUF_SIZE` bytes, the whole of one; `zbuf_alloc`
  takes off the headroom before it compares.

  * `RxAreas`, `RxPosts`: what is posted;
  * `ethRxAddBuffer_posts_iff`: an allocator that gives a buffer suffices;
  * `ethRxFill`: the loop;
  * `eth_rx_posting_never`: with `zbuf_alloc_rx`, nothing is posted.
-/
import Gracemont.Drivers.Eth
import Gracemont.Lib.Loop

namespace Gracemont

open Lib

section
variable {α : Type} [DecidableEq α]

/-! ## What is posted -/

/-- The areas of two descriptors follow each other in the buffer at `base`. -/
def RxAreas (base : BitVec 64) (hdr data : VringDesc) : Prop :=
  ∃ i j : ℕ, hdr.addr = base + BitVec.ofNat 64 i ∧ data.addr = base + BitVec.ofNat 64 j ∧
    i + hdr.len.toNat = j ∧ j + data.len.toNat ≤ configZbufSize

/-- **A posting**: the call succeeds, and a chain of a header and a data descriptor,
    with their areas in its buffer, is in the available ring. -/
structure RxPosts (dmaAddr : α → BitVec 64)
    (r : ZbufPool α × EthDev α × Status × Option (Posted α)) : Prop where
  status : r.2.2.1 = .ok
  chain : ∃ hdr data zb, r.2.2.2 = some ⟨hdr, [hdr, data], zb⟩ ∧ hdr ≠ data ∧
    (r.2.1.rxq.desc hdr).flags = vringDescFWrite ||| vringDescFNext ∧
    (r.2.1.rxq.desc hdr).next = data ∧ (r.2.1.rxq.desc data).flags = vringDescFWrite ∧
    r.2.1.rxq.buffers hdr = some zb ∧
    r.2.1.rxq.availRing ((r.2.1.rxq.availIdx - 1).toNat % r.2.1.rxq.num.toNat) = hdr ∧
    RxAreas (dmaAddr zb) (r.2.1.rxq.desc hdr) (r.2.1.rxq.desc data)

variable {num : ℕ} {d : VirtqDev} {flight : List (Posted α)} (dmaAddr : α → BitVec 64)
  (pool : ZbufPool α) {dev : EthDev α}

/-- A buffer is posted while there are two descriptors. -/
theorem ethRxPost_posts (h : VirtqInv .rx num dev.rxq d flight)
    (hfree : 2 ≤ dev.rxq.numFree.toNat) (zb : α) :
    RxPosts dmaAddr (ethRxPost dmaAddr pool dev zb) := by
  obtain ⟨vq₁, hdr, vq₂, data, halloc₁, halloc₂, hpost⟩ := h.post_rx hfree
  have hne : hdr ≠ data := by
    obtain ⟨free, hdesc⟩ := (hpost ⟨0, 0, 0, data⟩ ⟨0, 0, 0, 0⟩ zb rfl).descs
    have hnodup := hdesc.splits.nodup_used
    intro he
    subst he
    exact (List.nodup_cons.1 hnodup).1 List.mem_cons_self
  unfold ethRxPost
  rw [halloc₁]
  dsimp only
  rw [halloc₂]
  have hring : ∀ slot : BitVec 16 → ℕ, Function.update vq₂.availRing (slot vq₂.availIdx) hdr
      (slot (vq₂.availIdx + 1 - 1)) = hdr := by
    intro slot
    have hidx : vq₂.availIdx + 1 - 1 = vq₂.availIdx := BitVec.add_sub_cancel ..
    rw [hidx, Function.update_self]
  refine ⟨rfl, hdr, data, zb, rfl, hne, ?_, ?_, ?_, ?_, hring fun i => i.toNat % vq₂.num.toNat,
    0, virtioNetHdrSize, ?_, ?_, ?_⟩
  all_goals simp [virtqPublish, Virtqueue.setDesc, hne, virtioNetHdrSize, configZbufSize,
    configZbufHeadroom]

/-- **With two descriptors**, a posting succeeds exactly if a buffer is allocated. -/
theorem ethRxAddBuffer_posts_iff (h : VirtqInv .rx num dev.rxq d flight)
    (hfree : 2 ≤ dev.rxq.numFree.toNat)
    (alloc : ZbufPool α → BitVec 16 → ZbufPool α × Option α) :
    RxPosts dmaAddr (ethRxAddBuffer alloc dmaAddr pool dev) ↔
      (alloc pool (BitVec.ofNat 16 configZbufSize)).2.isSome := by
  have hfew : ¬ dev.rxq.numFree < 2 := BitVec.not_lt.2 hfree
  unfold ethRxAddBuffer
  rw [if_neg hfew]
  rcases alloc pool (BitVec.ofNat 16 configZbufSize) with ⟨pool', _ | zb⟩
  · exact iff_of_false (fun hp => Status.noConfusion hp.status) Bool.noConfusion
  · exact iff_of_true (ethRxPost_posts dmaAddr pool' h hfree zb) rfl

/-! ## The loop -/

/-- The body of the loop of `eth_rx_fill`. -/
def ethRxFillBody (alloc : ZbufPool α → BitVec 16 → ZbufPool α × Option α)
    (dmaAddr : α → BitVec 64) (s : ZbufPool α × EthDev α) :
    (ZbufPool α × EthDev α) ⊕ (ZbufPool α × EthDev α) :=
  match ethRxAddBuffer alloc dmaAddr s.1 s.2 with
  | (pool, dev, .ok, _) => .inl (pool, dev)
  | (pool, dev, _, _) => .inr (pool, dev)

/-- `eth_rx_fill`, with at most `fuel` calls. -/
def ethRxFill (alloc : ZbufPool α → BitVec 16 → ZbufPool α × Option α)
    (dmaAddr : α → BitVec 64) (fuel : ℕ) (s : ZbufPool α × EthDev α) :
    Option (ZbufPool α × EthDev α) :=
  Loop.run (ethRxFillBody alloc dmaAddr) fuel s

/-- The descriptors or the buffers are exhausted. -/
def RxExhausted (s : ZbufPool α × EthDev α) : Prop :=
  s.2.rxq.numFree.toNat < 2 ∨ s.1.freeList = none

/-! ## `zbuf_alloc_rx` -/

/-- No buffer has `CONFIG_ZBUF_SIZE` bytes behind its headroom. -/
theorem zbufAllocRx_full : zbufAllocRx pool (BitVec.ofNat 16 configZbufSize) = (pool, none) := by
  have hlarge : configZbufSize - configZbufHeadroom <
      (BitVec.ofNat 16 configZbufSize).toNat := by decide
  unfold zbufAllocRx zbufAlloc
  rw [if_pos hlarge]
  rfl

variable (dev)

/-- The call fails and changes nothing. -/
theorem ethRxAddBuffer_fails :
    ethRxAddBuffer zbufAllocRx dmaAddr pool dev = (pool, dev, .noMem, none) := by
  unfold ethRxAddBuffer
  rw [zbufAllocRx_full]
  split_ifs
  · rfl
  · rfl

/-- **Posting of receive buffers.**  In no state does `eth_rx_add_buffer` post a buffer,
    and `eth_rx_fill` ends where it starts: with the descriptors or the buffers
    exhausted exactly if they were so before. -/
theorem eth_rx_posting_never :
    ¬ RxPosts dmaAddr (ethRxAddBuffer zbufAllocRx dmaAddr pool dev) ∧
    (∀ fuel, ethRxFill zbufAllocRx dmaAddr (fuel + 1) (pool, dev) = some (pool, dev)) ∧
    ((∀ fuel s, ethRxFill zbufAllocRx dmaAddr fuel (pool, dev) = some s → RxExhausted s) ↔
      RxExhausted (pool, dev)) := by
  have hadd := ethRxAddBuffer_fails dmaAddr pool dev
  have hbody : ethRxFillBody zbufAllocRx dmaAddr (pool, dev) = .inr (pool, dev) := by
    unfold ethRxFillBody
    rw [hadd]
  have hfill : ∀ fuel, ethRxFill zbufAllocRx dmaAddr (fuel + 1) (pool, dev) =
      some (pool, dev) := by
    intro fuel
    rw [ethRxFill, Loop.run, hbody]
  refine ⟨?_, hfill, ?_⟩
  · rw [hadd]
    exact fun h => Status.noConfusion h.status
  · constructor
    · intro h
      exact h 1 _ (hfill 0)
    · intro h fuel s hs
      rw [Loop.run_unique hs (hfill 0)]
      exact h

end

/-- Four free descriptors and two free buffers. -/
theorem demoEthStart_deaf : ¬ RxExhausted (demoEthStart.pool, demoEthStart.dev) ∧
    ¬ RxPosts (fun _ => 0)
      (ethRxAddBuffer zbufAllocRx (fun _ => 0) demoEthStart.pool demoEthStart.dev) := by
  constructor
  · rintro (hfew | hnone)
    · exact absurd hfew (by decide)
    · exact absurd hnone (by decide)
  · intro h
    exact absurd h.status (by decide)

end Gracemont
