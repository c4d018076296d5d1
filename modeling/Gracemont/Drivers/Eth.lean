/-
  Gracemont drivers — the virtio network device (`drivers/eth/eth.c`, ARM64
  port).

  Reception posts empty buffers, in chains of a header and a data descriptor;
  transmission posts each packet in one descriptor.  Each critical section is a
  function; those that post return the chain, and `eth_rx_process` the buffer
  that it hands to `netif_input`.  `dma_addr` is a constant of each buffer.

  * `ethRxAddBuffer`, `ethRxProcess`, `ethSend`, `ethTxProcess`: the driver;
  * `ethLts`: the driver with a device on both queues, which takes the heads in
    order and reports each one once, at any time;
  * `virtqueues_safe`: both queues account for their descriptors and buffers.
-/
import Gracemont.Drivers.Virtqueue
import Gracemont.Lib.Trace
import Gracemont.Net.Zbuf

namespace Gracemont

open Lib

/-! ## The driver -/

/-- `VIRTIO_NET_HDR_SIZE` -/
def virtioNetHdrSize : ℕ := 12

/-- `VRING_DESC_F_NEXT` -/
def vringDescFNext : BitVec 16 := 1

/-- `VRING_DESC_F_WRITE` -/
def vringDescFWrite : BitVec 16 := 2

/-- `eth_dev_t` -/
structure EthDev (α : Type) where
  rxq : Virtqueue α
  txq : Virtqueue α
  rxPackets : BitVec 64
  txPackets : BitVec 64
  rxBytes : BitVec 64
  txBytes : BitVec 64
  rxErrors : BitVec 64
  txErrors : BitVec 64

section
variable {α : Type} [DecidableEq α]

/-- The part of `eth_rx_add_buffer` that has a buffer: also the chain posted. -/
def ethRxPost (dmaAddr : α → BitVec 64) (pool : ZbufPool α) (dev : EthDev α) (zb : α) :
    ZbufPool α × EthDev α × Status × Option (Posted α) :=
  let reserve := fun z => zbufReserve z (BitVec.ofNat 16 virtioNetHdrSize)
  let pool := { pool with zb := pool.zb.modify zb reserve }
  let (vq, hdrIdx) := virtqAllocDesc dev.rxq
  let (vq, dataIdx) := virtqAllocDesc vq
  match hdrIdx, dataIdx with
  | some hdr, some data =>
    let vq := vq.setDesc hdr
      ⟨dmaAddr zb, BitVec.ofNat 32 virtioNetHdrSize, vringDescFWrite ||| vringDescFNext, data⟩
    let vq := vq.setDesc data
      ⟨dmaAddr zb + BitVec.ofNat 64 virtioNetHdrSize,
        BitVec.ofNat 32 (configZbufSize - virtioNetHdrSize - configZbufHeadroom),
        vringDescFWrite, 0⟩
    (pool, { dev with rxq := virtqPublish vq hdr zb }, .ok, some ⟨hdr, [hdr, data], zb⟩)
  | hdrIdx, _ =>
    let vq := match hdrIdx with
      | some hdr => virtqFreeDesc vq hdr
      | none => vq
    (zbufFree .arm64 pool (some zb), { dev with rxq := vq }, .noMem, none)

/-- `eth_rx_add_buffer`; `alloc` is `zbuf_alloc_rx`. -/
def ethRxAddBuffer (alloc : ZbufPool α → BitVec 16 → ZbufPool α × Option α)
    (dmaAddr : α → BitVec 64) (pool : ZbufPool α) (dev : EthDev α) :
    ZbufPool α × EthDev α × Status × Option (Posted α) :=
  if dev.rxq.numFree < 2 then (pool, dev, .noMem, none)
  else
    match alloc pool (BitVec.ofNat 16 configZbufSize) with
    | (pool, none) => (pool, dev, .noMem, none)
    | (pool, some zb) => ethRxPost dmaAddr pool dev zb

/-- The buffer of a used element, and what `eth_rx_process` does with it outside
    the lock, up to `netif_input`. -/
def ethRxDeliver (pool : ZbufPool α) (dev : EthDev α) (zb : Option α) (len : BitVec 32) :
    ZbufPool α × EthDev α × Option α :=
  match zb with
  | some zb =>
    if virtioNetHdrSize < len.toNat then
      let zlen := (len - BitVec.ofNat 32 virtioNetHdrSize).setWidth 16
      let data := zbufHead + virtioNetHdrSize
      let fill := fun z : Zbuf α => { z with data := data, len := zlen, tail := data + zlen.toNat }
      let pool := { pool with zb := pool.zb.modify zb fill }
      (pool, { dev with rxPackets := dev.rxPackets + 1,
                        rxBytes := dev.rxBytes + zlen.setWidth 64 }, some zb)
    else
      (zbufFree .arm64 pool (some zb), { dev with rxErrors := dev.rxErrors + 1 }, none)
  | none => (pool, { dev with rxErrors := dev.rxErrors + 1 }, none)

/-- A round of the loop of `eth_rx_process`, up to its `eth_rx_add_buffer`;
    `none` when the loop ends. -/
def ethRxProcess (pool : ZbufPool α) (dev : EthDev α) :
    Option (ZbufPool α × EthDev α × Option α) :=
  (virtqUsed dev.rxq).map fun used =>
    let vq := dev.rxq
    let zb := vq.buffers used.head
    let vq := { vq with buffers := Function.update vq.buffers used.head none }
    let nextIdx := vq.next used.head
    let vq := virtqFreeDesc vq used.head
    let vq := virtqFreeDesc vq nextIdx
    let vq := { vq with lastUsedIdx := vq.lastUsedIdx + 1 }
    ethRxDeliver pool { dev with rxq := vq } zb used.len

/-- `eth_send`: also the chain posted. -/
def ethSend (dmaAddr : α → BitVec 64) (pool : ZbufPool α) (dev : EthDev α) (zb : Option α) :
    ZbufPool α × EthDev α × Status × Option (Posted α) :=
  match zb with
  | none => (pool, dev, .invalid, none)
  | some zb =>
    let fail := fun (pool : ZbufPool α) =>
      (zbufFree .arm64 pool (some zb), { dev with txErrors := dev.txErrors + 1 }, Status.noMem,
        (none : Option (Posted α)))
    if (pool.zb zb).len = 0 then (zbufFree .arm64 pool (some zb), dev, .invalid, none)
    else if dev.txq.numFree < 2 then fail pool
    else
      match zbufPush (pool.zb zb) (BitVec.ofNat 16 virtioNetHdrSize) with
      | none => fail pool
      | some (z, hdr) =>
        let z := { z with space := z.space.putBytes hdr (List.replicate virtioNetHdrSize 0) }
        let pool := { pool with zb := pool.zb.modify zb fun _ => z }
        match virtqAllocDesc dev.txq with
        | (_, none) => fail pool
        | (vq, some descIdx) =>
          let addr := dmaAddr zb + BitVec.ofNat 64 (z.data - zbufHead)
          let vq := vq.setDesc descIdx ⟨addr, z.len.setWidth 32, 0, 0⟩
          (pool, { dev with txq := virtqPublish vq descIdx zb, txPackets := dev.txPackets + 1,
                            txBytes := dev.txBytes +
                              (z.len.setWidth 64 - BitVec.ofNat 64 virtioNetHdrSize) },
            .ok, some ⟨descIdx, [descIdx], zb⟩)

/-- A round of the loop of `eth_tx_process`. -/
def ethTxProcess (pool : ZbufPool α) (dev : EthDev α) : Option (ZbufPool α × EthDev α) :=
  (virtqUsed dev.txq).map fun used =>
    let vq := dev.txq
    let zb := vq.buffers used.head
    let vq := { vq with buffers := Function.update vq.buffers used.head none }
    let vq := virtqFreeDesc vq used.head
    let vq := { vq with lastUsedIdx := vq.lastUsedIdx + 1 }
    (zbufFree .arm64 pool zb, { dev with txq := vq })

/-! ## The system -/

/-- The driver, the device's side of both queues, and the chains in flight:
    those posted whose head the driver has not taken back. -/
structure EthUse (α : Type) where
  pool : ZbufPool α
  dev : EthDev α
  rxDev : VirtqDev
  txDev : VirtqDev
  rxFlight : List (Posted α)
  txFlight : List (Posted α)

/-- The driver posts a buffer, processes a used element or sends; the device
    takes a head or reports one; or somebody else uses the buffers. -/
inductive EthEvent (α : Type) where
  | rxAdd
  | rxProcess
  | send (zb : Option α)
  | txProcess
  | rxFetch
  | rxReport (head : BitVec 16) (len : BitVec 32)
  | txFetch
  | txReport (head : BitVec 16) (len : BitVec 32)
  | pool (pool : ZbufPool α)

/-- The chains in flight without the one that a used element reports. -/
def withoutUsed {α : Type} (used : Option VringUsedElem) (flight : List (Posted α)) :
    List (Posted α) :=
  match used with
  | some e => flight.eraseP fun p => p.head = e.head
  | none => flight

/-- One event. -/
def ethNext (alloc : ZbufPool α → BitVec 16 → ZbufPool α × Option α) (dmaAddr : α → BitVec 64)
    (s : EthUse α) : EthEvent α → Option (EthUse α)
  | .rxAdd =>
    let (pool, dev, _, posted) := ethRxAddBuffer alloc dmaAddr s.pool s.dev
    some { s with pool := pool, dev := dev, rxFlight := posted.toList ++ s.rxFlight }
  | .rxProcess =>
    (ethRxProcess s.pool s.dev).map fun (pool, dev, _) =>
      { s with pool := pool, dev := dev, rxFlight := withoutUsed (virtqUsed s.dev.rxq) s.rxFlight }
  | .send zb =>
    let (pool, dev, _, posted) := ethSend dmaAddr s.pool s.dev zb
    some { s with pool := pool, dev := dev, txFlight := posted.toList ++ s.txFlight }
  | .txProcess =>
    (ethTxProcess s.pool s.dev).map fun (pool, dev) =>
      { s with pool := pool, dev := dev, txFlight := withoutUsed (virtqUsed s.dev.txq) s.txFlight }
  | .rxFetch => (s.rxDev.fetch s.dev.rxq).map fun d => { s with rxDev := d }
  | .rxReport head len =>
    (s.rxDev.report s.dev.rxq head len).map fun (vq, d) =>
      { s with dev := { s.dev with rxq := vq }, rxDev := d }
  | .txFetch => (s.txDev.fetch s.dev.txq).map fun d => { s with txDev := d }
  | .txReport head len =>
    (s.txDev.report s.dev.txq head len).map fun (vq, d) =>
      { s with dev := { s.dev with txq := vq }, txDev := d }
  | .pool pool => some { s with pool := pool }

/-- A queue after `virtq_init`, with a size that is a power of two. -/
def VirtqStart (vq : Virtqueue α) : Prop :=
  (∃ max, virtqInit max true Virtqueue.zero = (.ok, vq)) ∧ ∃ k, vq.num.toNat = 2 ^ k

/-- The driver, from `eth_init` on. -/
def ethLts (alloc : ZbufPool α → BitVec 16 → ZbufPool α × Option α) (dmaAddr : α → BitVec 64) :
    Lts (EthUse α) (EthEvent α) :=
  .ofFun (fun s => VirtqStart s.dev.rxq ∧ VirtqStart s.dev.txq ∧ s.rxDev = ⟨0, []⟩ ∧
    s.txDev = ⟨0, []⟩ ∧ s.rxFlight = [] ∧ s.txFlight = []) (ethNext alloc dmaAddr)

end

/-! ## What the driver keeps -/

section
variable {α : Type} {num : ℕ} {d : VirtqDev} {flight : List (Posted α)}

/-- What a posting did: nothing was posted, or a chain of descriptors that no
    chain in flight has. -/
def PostedInv (dir : Direction) (num : ℕ) (d : VirtqDev) (flight : List (Posted α))
    (vq : Virtqueue α) (posted : Option (Posted α)) : Prop :=
  VirtqInv dir num vq d (posted.toList ++ flight) ∧
    ∀ p, posted = some p → p.descs.Nodup ∧ ∀ i ∈ p.descs, i ∉ flight.flatMap Posted.descs

theorem PostedInv.none {dir : Direction} {vq : Virtqueue α} (h : VirtqInv dir num vq d flight) :
    PostedInv dir num d flight vq none := by
  refine ⟨h, ?_⟩
  intro p hp
  cases hp

/-- The descriptors of a chain posted are its own. -/
theorem PostedInv.some {dir : Direction} {vq : Virtqueue α} {p : Posted α}
    (h : VirtqInv dir num vq d (p :: flight)) : PostedInv dir num d flight vq (some p) := by
  refine ⟨h, ?_⟩
  intro q hq
  obtain rfl := Option.some.inj hq
  obtain ⟨free, hdesc⟩ := h.descs
  obtain ⟨hnodup, -, hapart⟩ := List.nodup_append.1 hdesc.splits.nodup_used
  refine ⟨hnodup, ?_⟩
  intro i hi hmem
  exact hapart i hi i hmem rfl

variable [DecidableEq α] (pool : ZbufPool α) {dev : EthDev α}

theorem ethRxPost_spec (h : VirtqInv .rx num dev.rxq d flight) (hfree : 2 ≤ dev.rxq.numFree.toNat)
    (dmaAddr : α → BitVec 64) (zb : α) :
    PostedInv .rx num d flight (ethRxPost dmaAddr pool dev zb).2.1.rxq
        (ethRxPost dmaAddr pool dev zb).2.2.2 ∧
      (ethRxPost dmaAddr pool dev zb).2.1.txq = dev.txq := by
  obtain ⟨vq₁, hdr, vq₂, data, halloc₁, halloc₂, hpost⟩ := h.post_rx hfree
  unfold ethRxPost
  rw [halloc₁]
  dsimp only
  rw [halloc₂]
  exact ⟨PostedInv.some (hpost _ _ zb rfl), rfl⟩

theorem ethRxAddBuffer_spec (h : VirtqInv .rx num dev.rxq d flight)
    (alloc : ZbufPool α → BitVec 16 → ZbufPool α × Option α) (dmaAddr : α → BitVec 64) :
    PostedInv .rx num d flight (ethRxAddBuffer alloc dmaAddr pool dev).2.1.rxq
        (ethRxAddBuffer alloc dmaAddr pool dev).2.2.2 ∧
      (ethRxAddBuffer alloc dmaAddr pool dev).2.1.txq = dev.txq := by
  unfold ethRxAddBuffer
  split_ifs with hfew
  · exact ⟨PostedInv.none h, rfl⟩
  · have hfree : 2 ≤ dev.rxq.numFree.toNat := by
      have hle := BitVec.not_lt.1 hfew
      exact hle
    cases halloc : alloc pool (BitVec.ofNat 16 configZbufSize) with
    | mk pool' zb =>
      cases zb with
      | none => exact ⟨PostedInv.none h, rfl⟩
      | some zb => exact ethRxPost_spec pool' h hfree dmaAddr zb

theorem ethSend_spec (h : VirtqInv .tx num dev.txq d flight) (dmaAddr : α → BitVec 64)
    (zb : Option α) :
    PostedInv .tx num d flight (ethSend dmaAddr pool dev zb).2.1.txq
        (ethSend dmaAddr pool dev zb).2.2.2 ∧
      (ethSend dmaAddr pool dev zb).2.1.rxq = dev.rxq := by
  cases zb with
  | none => exact ⟨PostedInv.none h, rfl⟩
  | some zb =>
    unfold ethSend
    dsimp only
    split_ifs with hempty hfew
    · exact ⟨PostedInv.none h, rfl⟩
    · exact ⟨PostedInv.none h, rfl⟩
    · have hfree : 2 ≤ dev.txq.numFree.toNat := by
        have hle := BitVec.not_lt.1 hfew
        exact hle
      obtain ⟨vq₁, i, halloc, hpost⟩ := h.post_tx (by omega)
      cases hpush : zbufPush (pool.zb zb) (BitVec.ofNat 16 virtioNetHdrSize) with
      | none => exact ⟨PostedInv.none h, rfl⟩
      | some r =>
        dsimp only
        rw [halloc]
        exact ⟨PostedInv.some (hpost _ zb), rfl⟩

theorem ethRxDeliver_queues (dev : EthDev α) (zb : Option α)
    (len : BitVec 32) :
    (ethRxDeliver pool dev zb len).2.1.rxq = dev.rxq ∧
      (ethRxDeliver pool dev zb len).2.1.txq = dev.txq := by
  cases zb with
  | none => exact ⟨rfl, rfl⟩
  | some zb =>
    unfold ethRxDeliver
    dsimp only
    split_ifs
    · exact ⟨rfl, rfl⟩
    · exact ⟨rfl, rfl⟩

theorem ethRxProcess_spec (h : VirtqInv .rx num dev.rxq d flight)
    {r : ZbufPool α × EthDev α × Option α} (hr : ethRxProcess pool dev = some r) :
    VirtqInv .rx num r.2.1.rxq d (withoutUsed (virtqUsed dev.rxq) flight) ∧
      r.2.1.txq = dev.txq := by
  obtain ⟨used, hused, rfl⟩ := Option.map_eq_some_iff.1 hr
  rw [hused]
  dsimp only
  rw [(ethRxDeliver_queues ..).1, (ethRxDeliver_queues ..).2]
  exact ⟨h.process_rx hused, rfl⟩

theorem ethTxProcess_spec (h : VirtqInv .tx num dev.txq d flight) {r : ZbufPool α × EthDev α}
    (hr : ethTxProcess pool dev = some r) :
    VirtqInv .tx num r.2.txq d (withoutUsed (virtqUsed dev.txq) flight) ∧
      r.2.rxq = dev.rxq := by
  obtain ⟨used, hused, rfl⟩ := Option.map_eq_some_iff.1 hr
  rw [hused]
  exact ⟨h.process_tx hused, rfl⟩

/-! ## The run -/

/-- Both queues. -/
structure EthInv (rxNum txNum : ℕ) (s : EthUse α) : Prop where
  rx : VirtqInv .rx rxNum s.dev.rxq s.rxDev s.rxFlight
  tx : VirtqInv .tx txNum s.dev.txq s.txDev s.txFlight

variable {rxNum txNum : ℕ} {alloc : ZbufPool α → BitVec 16 → ZbufPool α × Option α}
  {dmaAddr : α → BitVec 64} {s s' : EthUse α}

theorem EthInv.step (h : EthInv rxNum txNum s) {e : EthEvent α}
    (hs : ethNext alloc dmaAddr s e = some s') : EthInv rxNum txNum s' := by
  cases e with
  | rxAdd =>
    obtain rfl := Option.some.inj hs
    obtain ⟨hrx, htx⟩ := ethRxAddBuffer_spec s.pool h.rx alloc dmaAddr
    have hkeep : VirtqInv .tx txNum (ethRxAddBuffer alloc dmaAddr s.pool s.dev).2.1.txq s.txDev
        s.txFlight := by
      rw [htx]
      exact h.tx
    exact ⟨hrx.1, hkeep⟩
  | rxProcess =>
    obtain ⟨r, hr, rfl⟩ := Option.map_eq_some_iff.1 hs
    obtain ⟨hrx, htx⟩ := ethRxProcess_spec s.pool h.rx hr
    refine ⟨hrx, ?_⟩
    dsimp only
    rw [htx]
    exact h.tx
  | send zb =>
    obtain rfl := Option.some.inj hs
    obtain ⟨htx, hrx⟩ := ethSend_spec s.pool h.tx dmaAddr zb
    have hkeep : VirtqInv .rx rxNum (ethSend dmaAddr s.pool s.dev zb).2.1.rxq s.rxDev
        s.rxFlight := by
      rw [hrx]
      exact h.rx
    exact ⟨hkeep, htx.1⟩
  | txProcess =>
    obtain ⟨r, hr, rfl⟩ := Option.map_eq_some_iff.1 hs
    obtain ⟨htx, hrx⟩ := ethTxProcess_spec s.pool h.tx hr
    refine ⟨?_, htx⟩
    dsimp only
    rw [hrx]
    exact h.rx
  | rxFetch =>
    obtain ⟨d, hd, rfl⟩ := Option.map_eq_some_iff.1 hs
    exact ⟨h.rx.fetch hd, h.tx⟩
  | rxReport head len =>
    obtain ⟨⟨vq, d⟩, hd, rfl⟩ := Option.map_eq_some_iff.1 hs
    exact ⟨h.rx.report hd, h.tx⟩
  | txFetch =>
    obtain ⟨d, hd, rfl⟩ := Option.map_eq_some_iff.1 hs
    exact ⟨h.rx, h.tx.fetch hd⟩
  | txReport head len =>
    obtain ⟨⟨vq, d⟩, hd, rfl⟩ := Option.map_eq_some_iff.1 hs
    exact ⟨h.rx, h.tx.report hd⟩
  | pool p =>
    obtain rfl := Option.some.inj hs
    exact ⟨h.rx, h.tx⟩

omit [DecidableEq α] in
/-- A size that is a power of two divides the range of the indices. -/
theorem VirtqStart.inv {vq : Virtqueue α} (h : VirtqStart vq) (dir : Direction) :
    VirtqInv dir vq.num.toNat vq ⟨0, []⟩ [] := by
  obtain ⟨⟨max, hinit⟩, k, hk⟩ := h
  refine virtqInit_inv hinit (fun _ => rfl) ?_ dir
  have hlt : vq.num.toNat < 2 ^ 16 := vq.num.isLt
  rw [hk] at hlt ⊢
  exact Nat.pow_dvd_pow 2 (Nat.pow_lt_pow_iff_right (by decide) |>.1 hlt).le

theorem eth_run {tr : List (EthEvent α)} (h : (ethLts alloc dmaAddr).Run tr s) :
    ∃ rxNum txNum, EthInv rxNum txNum s := by
  refine h.rule (P := fun _ s => ∃ rxNum txNum, EthInv rxNum txNum s) ?_ ?_
  · rintro s ⟨hrx, htx, hrd, htd, hrf, htf⟩
    refine ⟨s.dev.rxq.num.toNat, s.dev.txq.num.toNat, ?_, ?_⟩
    · rw [hrd, hrf]
      exact hrx.inv .rx
    · rw [htd, htf]
      exact htx.inv .tx
  · rintro tr s e s' ⟨rxNum, txNum, hI⟩ hs
    exact ⟨rxNum, txNum, hI.step hs⟩

/-! ## Safety -/

/-- What holds of a queue with its chains in flight. -/
structure VirtqSafe (dir : Direction) (vq : Virtqueue α) (flight : List (Posted α)) : Prop where
  /-- the free list, with as many descriptors as `num_free` says, and the chains
      in flight have each descriptor once -/
  partition : ∃ free, Threaded vq.next virtqNone vq.freeHead free ∧
    vq.numFree.toNat = free.length ∧ (free ++ flight.flatMap Posted.descs).Nodup ∧
    ∀ i, i ∈ free ∨ i ∈ flight.flatMap Posted.descs ↔ i.toNat < vq.num.toNat
  /-- the chains are those of the descriptor table -/
  chains : ∀ p ∈ flight, p.descs = dir.chain vq p.head
  /-- each head in flight has its buffer, and nothing else has one -/
  buffers : (flight.map Posted.head).Nodup ∧ (∀ p ∈ flight, vq.buffers p.head = some p.zb) ∧
    ∀ i zb, vq.buffers i = some zb → ∃ p ∈ flight, p.head = i
  /-- what the used ring reports is in flight -/
  used : ∀ e, virtqUsed vq = some e → ∃ p ∈ flight, p.head = e.head

omit [DecidableEq α] in
theorem VirtqInv.safe {dir : Direction} {vq : Virtqueue α} (h : VirtqInv dir num vq d flight) :
    VirtqSafe dir vq flight := by
  obtain ⟨free, hdesc⟩ := h.descs
  refine ⟨⟨free, hdesc.threaded, hdesc.count, hdesc.splits.nodup_append, ?_⟩, h.chains,
    ⟨h.heads_nodup, h.buffers, ?_⟩, ?_⟩
  · intro i
    rw [← List.mem_append, hdesc.splits.perm.mem_iff, h.rings.num_eq]
    exact mem_descriptors hdesc.size
  · intro i zb hi
    by_contra hno
    have hnone := h.empty i fun hmem => hno (List.mem_map.1 hmem)
    rw [hnone] at hi
    cases hi
  · intro e he
    obtain ⟨p, hhead, hp⟩ := h.used he
    exact ⟨p, hp.symm.subset List.mem_cons_self, hhead⟩

/-- **Virtqueues.**  In any order of postings, transmissions and completions,
    for any allocator: each descriptor of a queue is free or in one chain in
    flight, `num_free` counts the free ones, each head in flight has its buffer
    and nothing else does, and what is posted next is not in flight. -/
theorem virtqueues_safe (alloc : ZbufPool α → BitVec 16 → ZbufPool α × Option α)
    (dmaAddr : α → BitVec 64) {tr : List (EthEvent α)} (h : (ethLts alloc dmaAddr).Run tr s) :
    VirtqSafe .rx s.dev.rxq s.rxFlight ∧ VirtqSafe .tx s.dev.txq s.txFlight ∧
    (∀ p, (ethRxAddBuffer alloc dmaAddr s.pool s.dev).2.2.2 = some p →
      p.descs.Nodup ∧ ∀ i ∈ p.descs, i ∉ s.rxFlight.flatMap Posted.descs) ∧
    ∀ zb p, (ethSend dmaAddr s.pool s.dev zb).2.2.2 = some p →
      p.descs.Nodup ∧ ∀ i ∈ p.descs, i ∉ s.txFlight.flatMap Posted.descs := by
  obtain ⟨rxNum, txNum, hI⟩ := eth_run h
  refine ⟨hI.rx.safe, hI.tx.safe, ?_, ?_⟩
  · exact (ethRxAddBuffer_spec s.pool hI.rx alloc dmaAddr).1.2
  · intro zb
    exact (ethSend_spec s.pool hI.tx dmaAddr zb).1.2

end

/-- An allocator that has buffers. -/
def demoEthAlloc (pool : ZbufPool (Fin 2)) (size : BitVec 16) : ZbufPool (Fin 2) × Option (Fin 2) :=
  zbufAllocRx pool (size - 128)

def demoEthStart : EthUse (Fin 2) :=
  let vq := (virtqInit 4 true (Virtqueue.zero (α := Fin 2))).2
  ⟨zbufPoolInit demoZbufs fun _ => demoZbuf, ⟨vq, vq, 0, 0, 0, 0, 0, 0⟩, ⟨0, []⟩, ⟨0, []⟩, [], []⟩

/-- Two buffers are posted, and the device fills the second one first. -/
def demoEthRun : List (EthEvent (Fin 2)) :=
  [.rxAdd, .rxAdd, .rxFetch, .rxFetch, .rxReport 2 60, .rxProcess]

theorem virtqueues_safe_demo : ∃ s, (ethLts demoEthAlloc fun _ => 0).Run demoEthRun s ∧
    s.rxFlight.map Posted.descs = [[0, 1]] ∧ VirtqSafe .rx s.dev.rxq s.rxFlight := by
  have h0 : (ethLts demoEthAlloc fun _ => 0).init demoEthStart :=
    ⟨⟨⟨4, rfl⟩, 2, rfl⟩, ⟨⟨4, rfl⟩, 2, rfl⟩, rfl, rfl, rfl, rfl⟩
  have hout : (Lts.exec (ethNext demoEthAlloc fun _ => 0) demoEthStart demoEthRun).map
      (fun s => s.rxFlight.map Posted.descs) = some [[0, 1]] := by
    decide +kernel
  obtain ⟨s, hs, hs'⟩ := Option.map_eq_some_iff.1 hout
  have hrun : (ethLts demoEthAlloc fun _ => 0).Run demoEthRun s := Lts.run_exec h0 hs
  exact ⟨s, hrun, hs', (virtqueues_safe demoEthAlloc (fun _ => 0) hrun).1⟩

end Gracemont
