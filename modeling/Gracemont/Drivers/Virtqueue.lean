/-
  Gracemont drivers — virtqueues (`drivers/eth/eth.c`, ARM64 port).

  A queue has a table of descriptors.  The free ones are linked through `next`
  from `free_head` on, up to `0xFFFF`; the others belong to chains that the
  device has been given.  The head of a chain goes to the device through the
  available ring and comes back through the used ring; both have 16-bit
  indices that wrap.

  * `virtqInit`, `virtqAllocDesc`, `virtqFreeDesc`: the functions of the source,
    and `virtqPublish`, what both directions do with a new chain;
  * `VirtqDev`: a device that takes the heads in order and reports each one
    once;
  * `VirtqInv`: descriptors, rings and buffers of a queue with its chains in
    flight, kept by every operation.
-/
import Mathlib.Tactic.SplitIfs
import Gracemont.Kernel.Types
import Gracemont.Lib.FreeList
import Gracemont.Lib.IndexRing

namespace Gracemont

open Lib

/-! ## The queue -/

/-- `VIRTQ_SIZE` -/
def virtqSize : ℕ := 256

/-- The end of the free list. -/
def virtqNone : BitVec 16 := 0xFFFF

/-- `vring_desc_t` -/
structure VringDesc where
  addr : BitVec 64
  len : BitVec 32
  flags : BitVec 16
  next : BitVec 16
  deriving DecidableEq, Repr

/-- `vring_used_elem_t` -/
structure VringUsedElem where
  id : BitVec 32
  len : BitVec 32
  deriving DecidableEq, Repr

/-- `virtqueue_t`, with the memory of its rings; a `zbuf_t *` is an element of
    `α`. -/
structure Virtqueue (α : Type) where
  num : BitVec 16
  freeHead : BitVec 16
  numFree : BitVec 16
  lastUsedIdx : BitVec 16
  desc : BitVec 16 → VringDesc
  availIdx : BitVec 16
  availRing : ℕ → BitVec 16
  usedIdx : BitVec 16
  usedRing : ℕ → VringUsedElem
  buffers : BitVec 16 → Option α

namespace Virtqueue
variable {α : Type}

/-- A queue in zero-initialised static storage. -/
def zero : Virtqueue α :=
  ⟨0, 0, 0, 0, fun _ => ⟨0, 0, 0, 0⟩, 0, fun _ => 0, 0, fun _ => ⟨0, 0⟩, fun _ => none⟩

/-- The link of a descriptor. -/
def next (vq : Virtqueue α) (i : BitVec 16) : BitVec 16 := (vq.desc i).next

/-- `vq->desc[i] = d` -/
def setDesc (vq : Virtqueue α) (i : BitVec 16) (d : VringDesc) : Virtqueue α :=
  { vq with desc := Function.update vq.desc i d }

theorem setDesc_next_self (vq : Virtqueue α) (i : BitVec 16) (d : VringDesc) :
    (vq.setDesc i d).next i = d.next := by
  simp [setDesc, next]

theorem setDesc_next_of_ne (vq : Virtqueue α) {i x : BitVec 16} (h : x ≠ i) (d : VringDesc) :
    (vq.setDesc i d).next x = vq.next x := by
  simp [setDesc, next, h]

end Virtqueue

section
variable {α : Type}

/-- `virtq_init`, for a device that offers `max` descriptors; `mem` tells whether
    `dma_alloc` succeeds. -/
def virtqInit (max : BitVec 32) (mem : Bool) (vq : Virtqueue α) : Status × Virtqueue α :=
  if max = 0 then (.error, vq)
  else
    let max := if virtqSize < max.toNat then virtqSize else max.toNat
    let num := BitVec.ofNat 16 max
    let vq := { vq with num := num, freeHead := 0, numFree := num, lastUsedIdx := 0 }
    if !mem then (.noMem, vq)
    else
      -- the memory is cleared, then the free list is linked
      let next := fun i : BitVec 16 =>
        if i.toNat < max - 1 then i + 1 else if i.toNat = max - 1 then virtqNone else 0
      (.ok, { vq with
        desc := fun i => ⟨0, 0, 0, next i⟩, availIdx := 0, availRing := fun _ => 0, usedIdx := 0,
        usedRing := fun _ => ⟨0, 0⟩ })

/-- `virtq_alloc_desc`; `none` is `-1`. -/
def virtqAllocDesc (vq : Virtqueue α) : Virtqueue α × Option (BitVec 16) :=
  if vq.numFree = 0 then (vq, none)
  else
    let idx := vq.freeHead
    ({ vq with freeHead := (vq.desc idx).next, numFree := vq.numFree - 1 }, some idx)

/-- `virtq_free_desc` -/
def virtqFreeDesc (vq : Virtqueue α) (idx : BitVec 16) : Virtqueue α :=
  let vq := vq.setDesc idx { vq.desc idx with next := vq.freeHead }
  { vq with freeHead := idx, numFree := vq.numFree + 1 }

/-- A new chain: its buffer is saved, and its head is added to the available
    ring. -/
def virtqPublish (vq : Virtqueue α) (head : BitVec 16) (zb : α) : Virtqueue α :=
  let vq := { vq with buffers := Function.update vq.buffers head (some zb) }
  let slot := vq.availIdx.toNat % vq.num.toNat
  let vq := { vq with availRing := Function.update vq.availRing slot head }
  { vq with availIdx := vq.availIdx + 1 }

/-- The used element to process, unless there is none. -/
def virtqUsed (vq : Virtqueue α) : Option VringUsedElem :=
  if vq.lastUsedIdx = vq.usedIdx then none
  else some (vq.usedRing (vq.lastUsedIdx.toNat % vq.num.toNat))

end

/-! ## The device -/

/-- The device's index into the available ring, and the heads it has taken and
    not reported. -/
structure VirtqDev where
  lastAvailIdx : BitVec 16
  held : List (BitVec 16)
  deriving DecidableEq, Repr

namespace VirtqDev
variable {α : Type}

/-- The device takes the next head. -/
def fetch (vq : Virtqueue α) (d : VirtqDev) : Option VirtqDev :=
  if d.lastAvailIdx = vq.availIdx then none
  else some ⟨d.lastAvailIdx + 1, d.held ++ [vq.availRing (d.lastAvailIdx.toNat % vq.num.toNat)]⟩

/-- The device reports one of the heads it holds. -/
def report (vq : Virtqueue α) (d : VirtqDev) (head : BitVec 16) (len : BitVec 32) :
    Option (Virtqueue α × VirtqDev) :=
  if head ∈ d.held then
    let slot := vq.usedIdx.toNat % vq.num.toNat
    let ring := Function.update vq.usedRing slot ⟨head.setWidth 32, len⟩
    some ({ vq with usedRing := ring, usedIdx := vq.usedIdx + 1 },
      { d with held := d.held.erase head })
  else none

end VirtqDev

/-! ## Descriptors -/

/-- The descriptors of a queue of size `num`. -/
def descriptors (num : ℕ) : List (BitVec 16) := (List.range num).map (BitVec.ofNat 16)

theorem descriptors_nodup {num : ℕ} (h : num ≤ virtqSize) : (descriptors num).Nodup := by
  refine List.Nodup.map_on ?_ List.nodup_range
  intro i hi j hj hij
  have hi := List.mem_range.1 hi
  have hj := List.mem_range.1 hj
  have hij := congrArg BitVec.toNat hij
  unfold virtqSize at h
  rw [BitVec.toNat_ofNat, BitVec.toNat_ofNat] at hij
  omega

theorem mem_descriptors {num : ℕ} (h : num ≤ virtqSize) {i : BitVec 16} :
    i ∈ descriptors num ↔ i.toNat < num := by
  unfold virtqSize at h
  rw [descriptors, List.mem_map]
  constructor
  · rintro ⟨n, hn, rfl⟩
    have hn := List.mem_range.1 hn
    rw [BitVec.toNat_ofNat]
    omega
  · intro hi
    exact ⟨i.toNat, List.mem_range.2 hi, BitVec.ofNat_toNat 16 i⟩

theorem ne_virtqNone {num : ℕ} (h : num ≤ virtqSize) {i : BitVec 16} (hi : i ∈ descriptors num) :
    i ≠ virtqNone := by
  rintro rfl
  have hlt := (mem_descriptors h).1 hi
  have hnone : virtqNone.toNat = 65535 := rfl
  unfold virtqSize at h
  omega

/-- The free descriptors, linked and counted, beside those `used`. -/
structure DescInv {α : Type} (num : ℕ) (vq : Virtqueue α) (used free : List (BitVec 16)) :
    Prop where
  size : num ≤ virtqSize
  threaded : Threaded vq.next virtqNone vq.freeHead free
  splits : Splits (descriptors num) free used
  count : vq.numFree.toNat = free.length

namespace DescInv
variable {α : Type} {num : ℕ} {vq vq' : Virtqueue α} {used free : List (BitVec 16)}
  {i : BitVec 16}

theorem length (h : DescInv num vq used free) : free.length + used.length = num := by
  rw [h.splits.length, descriptors, List.length_map, List.length_range]

/-- Only the links of the free descriptors and the two counters matter. -/
theorem congr (h : DescInv num vq used free) (hn : ∀ x ∈ free, vq'.next x = vq.next x)
    (hf : vq'.freeHead = vq.freeHead) (hc : vq'.numFree = vq.numFree) :
    DescInv num vq' used free :=
  ⟨h.size, hf ▸ h.threaded.congr hn, h.splits, hc ▸ h.count⟩

/-- A descriptor in use may be filled in. -/
theorem setDesc (h : DescInv num vq used free) (hi : i ∈ used) (d : VringDesc) :
    DescInv num (vq.setDesc i d) used free := by
  refine h.congr ?_ rfl rfl
  intro x hx
  have hne : x ≠ i := fun he => h.splits.not_used hx (he ▸ hi)
  exact vq.setDesc_next_of_ne hne d

/-- **`virtq_alloc_desc`** hands out a free descriptor while there is one. -/
theorem alloc (h : DescInv num vq used free) (hpos : 0 < vq.numFree.toNat) :
    ∃ i free', free = i :: free' ∧
      virtqAllocDesc vq =
        ({ vq with freeHead := (vq.desc i).next, numFree := vq.numFree - 1 }, some i) ∧
      DescInv num { vq with freeHead := (vq.desc i).next, numFree := vq.numFree - 1 } (i :: used)
        free' := by
  have hcount := h.count
  cases free with
  | nil =>
    rw [List.length_nil] at hcount
    omega
  | cons i free =>
    obtain ⟨hhead, -, hrest⟩ := h.threaded
    have hne : vq.numFree ≠ 0 := by
      intro he
      rw [he] at hpos
      exact absurd hpos (by decide)
    refine ⟨i, free, rfl, ?_, h.size, ?_, h.splits.take, ?_⟩
    · rw [virtqAllocDesc, if_neg hne, hhead]
    · exact hrest
    · have hone : (1 : BitVec 16).toNat = 1 := rfl
      rw [List.length_cons] at hcount
      change (vq.numFree - 1).toNat = _
      rw [BitVec.toNat_sub, hone]
      omega

/-- **`virtq_free_desc`** gives a descriptor back. -/
theorem give (h : DescInv num vq (i :: used) free) :
    DescInv num (virtqFreeDesc vq i) used (i :: free) := by
  have hi : i ∈ i :: used := List.mem_cons_self
  have hne : i ≠ virtqNone := ne_virtqNone h.size (h.splits.mem_used hi)
  have hlen := h.length
  have hsize := h.size
  refine ⟨h.size, ?_, h.splits.give, ?_⟩
  · refine h.threaded.push hne ?_ ?_
    · exact vq.setDesc_next_self i _
    · intro y hy
      have hyi : y ≠ i := fun he => h.splits.not_used hy (he ▸ hi)
      exact vq.setDesc_next_of_ne hyi _
  · have hone : (1 : BitVec 16).toNat = 1 := rfl
    have hcount := h.count
    unfold virtqSize at hsize
    rw [List.length_cons] at hlen ⊢
    change (vq.numFree + 1).toNat = _
    rw [BitVec.toNat_add, hone, hcount]
    omega

end DescInv

/-! ## Rings -/

/-- `uint16_t desc_idx = vq->used->ring[used_idx].id` -/
def VringUsedElem.head (e : VringUsedElem) : BitVec 16 := e.id.setWidth 16

theorem VringUsedElem.head_mk (h : BitVec 16) (len : BitVec 32) :
    (⟨h.setWidth 32, len⟩ : VringUsedElem).head = h := by
  simp [VringUsedElem.head]

/-- Each of the heads is waiting in the available ring, held by the device, or
    done and in the used ring. -/
structure RingsInv {α : Type} (num : ℕ) (vq : Virtqueue α) (d : VirtqDev)
    (heads : List (BitVec 16)) : Prop where
  num_eq : vq.num.toNat = num
  length : heads.length ≤ num
  rings : ∃ waiting done, IndexRing num vq.availRing d.lastAvailIdx vq.availIdx waiting ∧
    IndexRing num vq.usedRing vq.lastUsedIdx vq.usedIdx done ∧
    (waiting ++ d.held ++ done.map VringUsedElem.head).Perm heads

namespace RingsInv
variable {α : Type} {num : ℕ} {vq vq' : Virtqueue α} {d d' : VirtqDev}
  {heads heads' : List (BitVec 16)}

/-- The order of the heads does not matter. -/
theorem perm (h : RingsInv num vq d heads) (hp : heads.Perm heads') : RingsInv num vq d heads' := by
  obtain ⟨waiting, done, hw, hd, hperm⟩ := h.rings
  exact ⟨h.num_eq, hp.length_eq ▸ h.length, waiting, done, hw, hd, hperm.trans hp⟩

/-- A new chain waits in the available ring. -/
theorem publish (h : RingsInv num vq d heads) (hroom : heads.length < num) (head : BitVec 16)
    (zb : α) : RingsInv num (virtqPublish vq head zb) d (head :: heads) := by
  obtain ⟨waiting, done, hw, hd, hperm⟩ := h.rings
  have hlen := hperm.length_eq
  simp only [List.length_append] at hlen
  refine ⟨h.num_eq, hroom, waiting ++ [head], done, ?_, hd, ?_⟩
  · unfold virtqPublish
    dsimp only
    rw [h.num_eq]
    exact hw.push (by omega)
  · have hmiddle : (waiting ++ [head] ++ d.held ++ done.map VringUsedElem.head).Perm
        (head :: (waiting ++ d.held ++ done.map VringUsedElem.head)) := by
      simp
    exact hmiddle.trans (hperm.cons head)

/-- The device takes a head that waits. -/
theorem fetch (h : RingsInv num vq d heads) (hd : d.fetch vq = some d') :
    RingsInv num vq d' heads := by
  obtain ⟨waiting, done, hw, hdone, hperm⟩ := h.rings
  unfold VirtqDev.fetch at hd
  split_ifs at hd with hempty
  obtain rfl := Option.some.inj hd
  cases waiting with
  | nil => exact absurd (hw.first_eq_next.2 rfl) hempty
  | cons head waiting =>
    obtain ⟨hslot, hw'⟩ := hw.pop
    refine ⟨h.num_eq, h.length, waiting, done, hw', hdone, ?_⟩
    dsimp only
    rw [h.num_eq, hslot]
    refine List.Perm.trans ?_ hperm
    have hmiddle : waiting ++ (d.held ++ [head]) ++ done.map VringUsedElem.head =
        waiting ++ d.held ++ head :: done.map VringUsedElem.head := by simp
    rw [hmiddle]
    exact List.perm_middle

/-- The device reports a head that it holds. -/
theorem report (h : RingsInv num vq d heads) {head : BitVec 16} {len : BitVec 32}
    (hr : d.report vq head len = some (vq', d')) : RingsInv num vq' d' heads := by
  obtain ⟨waiting, done, hw, hdone, hperm⟩ := h.rings
  unfold VirtqDev.report at hr
  split_ifs at hr with hmem
  obtain ⟨rfl, rfl⟩ := Prod.mk.inj (Option.some.inj hr)
  have hheld := List.perm_cons_erase hmem
  have hroom : done.length < num := by
    have hlen := hperm.length_eq
    have hle := h.length
    have hpos := List.length_pos_of_mem hmem
    simp only [List.length_append, List.length_map] at hlen
    omega
  refine ⟨h.num_eq, h.length, waiting, done ++ [⟨head.setWidth 32, len⟩], hw, ?_, ?_⟩
  · dsimp only
    rw [h.num_eq]
    exact hdone.push hroom
  · refine List.Perm.trans ?_ hperm
    rw [List.map_append, List.map_singleton, VringUsedElem.head_mk, List.append_assoc,
      List.append_assoc]
    refine List.Perm.append_left waiting ?_
    have hback : (d.held.erase head ++ (done.map VringUsedElem.head ++ [head])).Perm
        (head :: d.held.erase head ++ done.map VringUsedElem.head) := by
      rw [← List.append_assoc]
      exact List.perm_append_singleton ..
    exact hback.trans (hheld.symm.append_right _)

/-- The driver takes a head that is done. -/
theorem process (h : RingsInv num vq d heads) {e : VringUsedElem} (he : virtqUsed vq = some e) :
    e.head ∈ heads ∧
      RingsInv num { vq with lastUsedIdx := vq.lastUsedIdx + 1 } d (heads.erase e.head) := by
  obtain ⟨waiting, done, hw, hdone, hperm⟩ := h.rings
  unfold virtqUsed at he
  split_ifs at he with hempty
  have he := Option.some.inj he
  cases done with
  | nil => exact absurd (hdone.first_eq_next.2 rfl) hempty
  | cons b done =>
    obtain ⟨hslot, hdone'⟩ := hdone.pop
    rw [h.num_eq, hslot] at he
    subst he
    have hfront : heads.Perm (b.head :: (waiting ++ d.held ++ done.map VringUsedElem.head)) := by
      exact hperm.symm.trans List.perm_middle
    have hless := List.length_erase_le (a := b.head) (l := heads)
    have herase := hfront.erase b.head
    rw [List.erase_cons_head] at herase
    exact ⟨hfront.symm.subset List.mem_cons_self, h.num_eq, hless.trans h.length, waiting, done,
      hw, hdone', herase.symm⟩

end RingsInv

/-! ## Chains -/

/-- A chain that was posted: its head, its descriptors and its buffer. -/
structure Posted (α : Type) where
  head : BitVec 16
  descs : List (BitVec 16)
  zb : α
  deriving DecidableEq, Repr

/-- The direction of a queue. -/
inductive Direction
  | rx | tx

/-- The chain that starts at a head: two descriptors for reception, one for
    transmission. -/
def Direction.chain {α : Type} (dir : Direction) (vq : Virtqueue α) (head : BitVec 16) :
    List (BitVec 16) :=
  match dir with
  | .rx => [head, vq.next head]
  | .tx => [head]

theorem Direction.chain_congr {α : Type} (dir : Direction) {vq vq' : Virtqueue α}
    {head : BitVec 16} (h : vq'.next head = vq.next head) :
    dir.chain vq' head = dir.chain vq head := by
  cases dir <;> simp [chain, h]

theorem Direction.head_mem_chain {α : Type} (dir : Direction) (vq : Virtqueue α)
    (head : BitVec 16) : head ∈ dir.chain vq head := by
  cases dir <;> simp [chain]

/-- Chains that share no descriptor have different heads. -/
theorem heads_nodup {α : Type} {flight : List (Posted α)}
    (h : (flight.flatMap Posted.descs).Nodup) (hh : ∀ p ∈ flight, p.head ∈ p.descs) :
    (flight.map Posted.head).Nodup := by
  induction flight with
  | nil => exact List.nodup_nil
  | cons p flight ih =>
    rw [List.flatMap_cons, List.nodup_append] at h
    obtain ⟨-, hrest, hapart⟩ := h
    rw [List.map_cons, List.nodup_cons]
    refine ⟨?_, ih hrest fun q hq => hh q (List.mem_cons_of_mem p hq)⟩
    intro hmem
    obtain ⟨q, hq, hqp⟩ := List.mem_map.1 hmem
    have hin := List.mem_flatMap_of_mem hq (hh q (List.mem_cons_of_mem p hq))
    exact hapart p.head (hh p List.mem_cons_self) q.head hin hqp.symm

/-- There are at least as many descriptors in flight as heads. -/
theorem heads_length_le {α : Type} {flight : List (Posted α)}
    (hh : ∀ p ∈ flight, p.head ∈ p.descs) :
    flight.length ≤ (flight.flatMap Posted.descs).length := by
  induction flight with
  | nil => exact Nat.le_refl 0
  | cons p flight ih =>
    have hpos := List.length_pos_of_mem (hh p List.mem_cons_self)
    have hle := ih fun q hq => hh q (List.mem_cons_of_mem p hq)
    rw [List.flatMap_cons, List.length_append, List.length_cons]
    omega

/-! ## The invariant -/

/-- A queue with its chains in flight. -/
structure VirtqInv {α : Type} (dir : Direction) (num : ℕ) (vq : Virtqueue α) (d : VirtqDev)
    (flight : List (Posted α)) : Prop where
  descs : ∃ free, DescInv num vq (flight.flatMap Posted.descs) free
  rings : RingsInv num vq d (flight.map Posted.head)
  chains : ∀ p ∈ flight, p.descs = dir.chain vq p.head
  buffers : ∀ p ∈ flight, vq.buffers p.head = some p.zb
  empty : ∀ i, i ∉ flight.map Posted.head → vq.buffers i = none

/-- What a driver leaves alone while it links or unlinks descriptors. -/
structure SameRings {α : Type} (vq vq' : Virtqueue α) : Prop where
  num : vq'.num = vq.num
  lastUsedIdx : vq'.lastUsedIdx = vq.lastUsedIdx
  availIdx : vq'.availIdx = vq.availIdx
  availRing : vq'.availRing = vq.availRing
  usedIdx : vq'.usedIdx = vq.usedIdx
  usedRing : vq'.usedRing = vq.usedRing
  buffers : vq'.buffers = vq.buffers

theorem SameRings.rings {α : Type} {num : ℕ} {vq vq' : Virtqueue α} {d : VirtqDev}
    {heads : List (BitVec 16)} (hs : SameRings vq vq') (h : RingsInv num vq d heads) :
    RingsInv num vq' d heads := by
  obtain ⟨waiting, done, hw, hd, hperm⟩ := h.rings
  refine ⟨hs.num ▸ h.num_eq, h.length, waiting, done, ?_, ?_, hperm⟩
  · rw [hs.availRing, hs.availIdx]
    exact hw
  · rw [hs.usedRing, hs.usedIdx, hs.lastUsedIdx]
    exact hd

namespace VirtqInv
variable {α : Type} {dir : Direction} {num : ℕ} {vq vq' : Virtqueue α} {d d' : VirtqDev}
  {flight flight' : List (Posted α)} {p : Posted α}

theorem head_mem (h : VirtqInv dir num vq d flight) : ∀ p ∈ flight, p.head ∈ p.descs := by
  intro p hp
  rw [h.chains p hp]
  exact dir.head_mem_chain vq p.head

theorem heads_nodup (h : VirtqInv dir num vq d flight) : (flight.map Posted.head).Nodup := by
  obtain ⟨free, hdesc⟩ := h.descs
  exact Gracemont.heads_nodup hdesc.splits.nodup_used h.head_mem

/-- The device takes a head. -/
theorem fetch (h : VirtqInv dir num vq d flight) (hd : d.fetch vq = some d') :
    VirtqInv dir num vq d' flight :=
  ⟨h.descs, h.rings.fetch hd, h.chains, h.buffers, h.empty⟩

/-- The device reports a head. -/
theorem report (h : VirtqInv dir num vq d flight) {head : BitVec 16} {len : BitVec 32}
    (hr : d.report vq head len = some (vq', d')) : VirtqInv dir num vq' d' flight := by
  have hrings := h.rings.report hr
  unfold VirtqDev.report at hr
  split_ifs at hr
  obtain ⟨rfl, rfl⟩ := Prod.mk.inj (Option.some.inj hr)
  obtain ⟨free, hdesc⟩ := h.descs
  exact ⟨⟨free, hdesc.congr (fun _ _ => rfl) rfl rfl⟩, hrings, h.chains, h.buffers, h.empty⟩

/-- **Posting** a chain of descriptors that were free. -/
theorem post (h : VirtqInv dir num vq d flight) (hs : SameRings vq vq') {free : List (BitVec 16)}
    (hdesc : DescInv num vq' (p.descs ++ flight.flatMap Posted.descs) free)
    (hchain : p.descs = dir.chain vq' p.head)
    (hnext : ∀ q ∈ flight, vq'.next q.head = vq.next q.head) :
    VirtqInv dir num (virtqPublish vq' p.head p.zb) d (p :: flight) := by
  have hhead : p.head ∈ p.descs := hchain ▸ dir.head_mem_chain vq' p.head
  have hnew : p.head ∉ flight.map Posted.head := by
    intro hmem
    obtain ⟨q, hq, hqp⟩ := List.mem_map.1 hmem
    have hin := List.mem_flatMap_of_mem hq (h.head_mem q hq)
    exact (List.nodup_append.1 hdesc.splits.nodup_used).2.2 p.head hhead q.head hin hqp.symm
  have hroom : (flight.map Posted.head).length < num := by
    have hle := heads_length_le h.head_mem
    have hpos := List.length_pos_of_mem hhead
    have hlen := hdesc.length
    rw [List.length_append] at hlen
    rw [List.length_map]
    omega
  refine ⟨⟨free, hdesc.congr (fun _ _ => rfl) rfl rfl⟩,
    (hs.rings h.rings).publish hroom p.head p.zb, ?_, ?_, ?_⟩
  · intro q hq
    rcases List.mem_cons.1 hq with rfl | hq
    · exact hchain
    · rw [h.chains q hq]
      exact (dir.chain_congr (hnext q hq)).symm
  · intro q hq
    change Function.update vq'.buffers p.head (some p.zb) q.head = some q.zb
    rcases List.mem_cons.1 hq with rfl | hq
    · rw [Function.update_self]
    · have hne : q.head ≠ p.head := fun he => hnew (he ▸ List.mem_map_of_mem hq)
      rw [Function.update_of_ne hne, hs.buffers]
      exact h.buffers q hq
  · intro i hi
    change Function.update vq'.buffers p.head (some p.zb) i = none
    rw [List.map_cons, List.mem_cons, not_or] at hi
    rw [Function.update_of_ne hi.1, hs.buffers]
    exact h.empty i hi.2

/-- The chain that a used element reports is in flight. -/
theorem used (h : VirtqInv dir num vq d flight) {e : VringUsedElem}
    (he : virtqUsed vq = some e) :
    ∃ p, p.head = e.head ∧ flight.Perm (p :: flight.eraseP fun q => q.head = e.head) := by
  obtain ⟨hmem, -⟩ := h.rings.process he
  obtain ⟨q, hq, hhead⟩ := List.mem_map.1 hmem
  obtain ⟨p, l₁, l₂, -, hp, hflight, herase⟩ :=
    List.exists_of_eraseP (p := fun q : Posted α => decide (q.head = e.head)) hq
      (by simpa using hhead)
  refine ⟨p, by simpa using hp, ?_⟩
  rw [herase, hflight]
  exact List.perm_middle

/-- **Processing** a used element: the descriptors of its chain are freed, and
    its buffer is taken. -/
theorem process (h : VirtqInv dir num vq d flight) {e : VringUsedElem}
    (he : virtqUsed vq = some e) (hp : flight.Perm (p :: flight')) (hhead : p.head = e.head)
    (hs : SameRings vq vq') {free : List (BitVec 16)}
    (hdesc : DescInv num vq' (flight'.flatMap Posted.descs) free)
    (hnext : ∀ q ∈ flight', vq'.next q.head = vq.next q.head) :
    VirtqInv dir num
      { vq' with buffers := Function.update vq'.buffers e.head none,
                 lastUsedIdx := vq'.lastUsedIdx + 1 } d flight' := by
  have hheads : (flight.map Posted.head).Perm (e.head :: flight'.map Posted.head) := by
    rw [← hhead]
    exact hp.map Posted.head
  have hmem : ∀ q ∈ flight', q ∈ flight := fun q hq => hp.symm.subset (List.mem_cons_of_mem p hq)
  have hgone : e.head ∉ flight'.map Posted.head :=
    (List.nodup_cons.1 (hheads.nodup_iff.1 h.heads_nodup)).1
  have hrings : RingsInv num { vq with lastUsedIdx := vq.lastUsedIdx + 1 } d
      (flight'.map Posted.head) := by
    have herase := hheads.erase e.head
    rw [List.erase_cons_head] at herase
    exact (h.rings.process he).2.perm herase
  refine ⟨⟨free, hdesc.congr (fun _ _ => rfl) rfl rfl⟩, ?_, ?_, ?_, ?_⟩
  · obtain ⟨waiting, done, hw, hd, hperm⟩ := hrings.rings
    refine ⟨hs.num ▸ h.rings.num_eq, hrings.length, waiting, done, ?_, ?_, hperm⟩
    · dsimp only
      rw [hs.availRing, hs.availIdx]
      exact hw
    · dsimp only
      rw [hs.usedRing, hs.usedIdx, hs.lastUsedIdx]
      exact hd
  · intro q hq
    rw [h.chains q (hmem q hq)]
    exact (dir.chain_congr (hnext q hq)).symm
  · intro q hq
    have hne : q.head ≠ e.head := fun he => hgone (he ▸ List.mem_map_of_mem hq)
    dsimp only
    rw [Function.update_of_ne hne, hs.buffers]
    exact h.buffers q (hmem q hq)
  · intro i hi
    dsimp only
    by_cases hie : i = e.head
    · rw [hie, Function.update_self]
    · rw [Function.update_of_ne hie, hs.buffers]
      refine h.empty i fun hmem => ?_
      exact (List.mem_cons.1 (hheads.subset hmem)).elim hie hi

end VirtqInv

/-! ## The start -/

/-- What `virtq_init` leaves when it succeeds: a size that fits, and all
    descriptors linked in order. -/
theorem virtqInit_ok {α : Type} {max : BitVec 32} {mem : Bool} {vq₀ vq : Virtqueue α}
    (h : virtqInit max mem vq₀ = (.ok, vq)) :
    ∃ n, n + 1 ≤ virtqSize ∧ vq.num.toNat = n + 1 ∧ vq.numFree.toNat = n + 1 ∧ vq.freeHead = 0 ∧
      (∀ i : BitVec 16, vq.next i =
        if i.toNat < n then i + 1 else if i.toNat = n then virtqNone else 0) ∧
      vq.lastUsedIdx = 0 ∧ vq.availIdx = 0 ∧ vq.usedIdx = 0 ∧ vq.buffers = vq₀.buffers := by
  obtain ⟨n, hn, hmin⟩ : ∃ n, n + 1 ≤ virtqSize ∧ (max ≠ 0 →
      (if virtqSize < max.toNat then virtqSize else max.toNat) = n + 1) := by
    by_cases hmax : max = 0
    · exact ⟨0, by decide, fun hne => absurd hmax hne⟩
    · have hpos : max.toNat ≠ 0 := fun he => hmax (BitVec.eq_of_toNat_eq he)
      split_ifs with hlt
      · exact ⟨255, by decide, fun _ => rfl⟩
      · exact ⟨max.toNat - 1, by omega, fun _ => by omega⟩
  have hle : n + 1 ≤ 256 := hn
  have hnat : (BitVec.ofNat 16 (n + 1)).toNat = n + 1 := by
    rw [BitVec.toNat_ofNat]
    omega
  unfold virtqInit at h
  by_cases hmax : max = 0
  · rw [if_pos hmax] at h
    cases h
  · rw [if_neg hmax] at h
    dsimp only at h
    rw [hmin hmax] at h
    cases mem with
    | false => cases h
    | true =>
      obtain ⟨-, rfl⟩ := Prod.mk.inj h
      exact ⟨n, hn, hnat, hnat, rfl, fun _ => rfl, rfl, rfl, rfl, rfl⟩

theorem virtqInit_inv {α : Type} {max : BitVec 32} {mem : Bool} {vq₀ vq : Virtqueue α}
    (h : virtqInit max mem vq₀ = (.ok, vq)) (hbuf : ∀ i, vq₀.buffers i = none)
    (hnum : vq.num.toNat ∣ 2 ^ 16) (dir : Direction) :
    VirtqInv dir vq.num.toNat vq ⟨0, []⟩ [] := by
  obtain ⟨n, hn, hsize, hfree, hhead, hnext, hlast, havail, hused, hbuf'⟩ := virtqInit_ok h
  have hlt : vq.num.toNat < 2 ^ 16 := vq.num.isLt
  have hle : n + 1 ≤ 256 := hn
  rw [hsize] at hnum hlt ⊢
  refine ⟨⟨descriptors (n + 1), hn, ?_, ⟨?_, descriptors_nodup hn⟩, ?_⟩,
    ⟨hsize, Nat.zero_le _, [], [], .empty hnum hlt havail.symm, ?_, .refl _⟩, ?_, ?_, ?_⟩
  · have hnat : ∀ i ≤ n, (BitVec.ofNat 16 i).toNat = i := by
      intro i hi
      rw [BitVec.toNat_ofNat]
      omega
    have hlink := @Threaded.range' (BitVec 16) vq.next virtqNone (BitVec.ofNat 16) 0 n
    simp only [Nat.zero_add] at hlink
    rw [hhead, descriptors, List.range_eq_range']
    refine hlink ?_ ?_ ?_
    · intro i hi
      exact ne_virtqNone hn (List.mem_map_of_mem (List.mem_range.2 (by omega)))
    · intro i hi
      rw [hnext, hnat i (by omega), if_pos hi]
      exact (BitVec.ofNat_add ..).symm
    · rw [hnext, hnat n (Nat.le_refl n), if_neg (Nat.lt_irrefl n), if_pos rfl]
  · rw [List.flatMap_nil, List.append_nil]
  · rw [hfree, descriptors, List.length_map, List.length_range]
  · exact .empty hnum hlt (hlast.trans hused.symm)
  · intro p hp
    cases hp
  · intro p hp
    cases hp
  · intro i _
    rw [hbuf']
    exact hbuf i

/-! ## The two directions -/

namespace VirtqInv
variable {α : Type} {num : ℕ} {vq : Virtqueue α} {d : VirtqDev} {flight : List (Posted α)}

/-- What is in flight is not a descriptor that was free. -/
theorem next_of_free {dir : Direction} (h : VirtqInv dir num vq d flight) {i : BitVec 16}
    {used : List (BitVec 16)} (hused : (i :: used).Nodup)
    (hsub : ∀ x ∈ flight.flatMap Posted.descs, x ∈ used) {p : Posted α} (hp : p ∈ flight) :
    p.head ≠ i := by
  rintro rfl
  have hin := List.mem_flatMap_of_mem hp (h.head_mem p hp)
  exact (List.nodup_cons.1 hused).1 (hsub p.head hin)

/-- **Posting for transmission**: one descriptor. -/
theorem post_tx (h : VirtqInv .tx num vq d flight) (hfree : 0 < vq.numFree.toNat) :
    ∃ vq₁ i, virtqAllocDesc vq = (vq₁, some i) ∧ ∀ c zb,
      VirtqInv .tx num (virtqPublish (vq₁.setDesc i c) i zb) d (⟨i, [i], zb⟩ :: flight) := by
  obtain ⟨free, hdesc⟩ := h.descs
  obtain ⟨i, free₁, rfl, halloc, hdesc₁⟩ := hdesc.alloc hfree
  refine ⟨_, i, halloc, ?_⟩
  intro c zb
  have hdesc₂ := hdesc₁.setDesc List.mem_cons_self c
  refine h.post (p := ⟨i, [i], zb⟩) ⟨rfl, rfl, rfl, rfl, rfl, rfl, rfl⟩ hdesc₂ rfl ?_
  intro q hq
  have hne := h.next_of_free hdesc₁.splits.nodup_used (fun _ hx => hx) hq
  exact Virtqueue.setDesc_next_of_ne _ hne c

/-- **Posting for reception**: the header descriptor is linked to the one for
    data. -/
theorem post_rx (h : VirtqInv .rx num vq d flight) (hfree : 2 ≤ vq.numFree.toNat) :
    ∃ vq₁ hdr vq₂ data, virtqAllocDesc vq = (vq₁, some hdr) ∧
      virtqAllocDesc vq₁ = (vq₂, some data) ∧ ∀ c c' zb, c.next = data →
      VirtqInv .rx num (virtqPublish ((vq₂.setDesc hdr c).setDesc data c') hdr zb) d
        (⟨hdr, [hdr, data], zb⟩ :: flight) := by
  obtain ⟨free, hdesc⟩ := h.descs
  obtain ⟨hdr, free₁, rfl, halloc₁, hdesc₁⟩ := hdesc.alloc (by omega)
  have hmore : 0 < (vq.numFree - 1).toNat := by
    have hcount := hdesc.count
    have hcount₁ := hdesc₁.count
    rw [List.length_cons] at hcount
    change (vq.numFree - 1).toNat = _ at hcount₁
    omega
  obtain ⟨data, free₂, rfl, halloc₂, hdesc₂⟩ := hdesc₁.alloc hmore
  refine ⟨_, hdr, _, data, halloc₁, halloc₂, ?_⟩
  intro c c' zb hc
  have hused := hdesc₂.splits.nodup_used
  have hne : hdr ≠ data := fun he => (List.nodup_cons.1 hused).1 (he ▸ List.mem_cons_self)
  have hdesc₄ := (hdesc₂.setDesc (List.mem_cons_of_mem data List.mem_cons_self) c).setDesc
    List.mem_cons_self c'
  have hdesc₅ : DescInv num _ ([hdr, data] ++ flight.flatMap Posted.descs) free₂ :=
    ⟨hdesc₄.size, hdesc₄.threaded, hdesc₄.splits.congr_used (List.Perm.swap ..), hdesc₄.count⟩
  refine h.post (p := ⟨hdr, [hdr, data], zb⟩) ⟨rfl, rfl, rfl, rfl, rfl, rfl, rfl⟩ hdesc₅ ?_ ?_
  · rw [Direction.chain, Virtqueue.setDesc_next_of_ne _ hne, Virtqueue.setDesc_next_self, hc]
  · intro q hq
    have hdata := h.next_of_free hused (fun _ hx => List.mem_cons_of_mem hdr hx) hq
    have hhdr := h.next_of_free hdesc₁.splits.nodup_used (fun _ hx => hx) hq
    rw [Virtqueue.setDesc_next_of_ne _ hdata, Virtqueue.setDesc_next_of_ne _ hhdr]
    rfl

/-- **Completion of a transmission.** -/
theorem process_tx (h : VirtqInv .tx num vq d flight) {e : VringUsedElem}
    (he : virtqUsed vq = some e) :
    VirtqInv .tx num
      { virtqFreeDesc vq e.head with
          buffers := Function.update vq.buffers e.head none
          lastUsedIdx := vq.lastUsedIdx + 1 } d (flight.eraseP fun p => p.head = e.head) := by
  obtain ⟨p, hhead, hp⟩ := h.used he
  obtain ⟨free, hdesc⟩ := h.descs
  have hdescs : p.descs = [e.head] := by
    rw [h.chains p (hp.symm.subset List.mem_cons_self), Direction.chain, hhead]
  have hused := hp.flatMap_right Posted.descs
  rw [List.flatMap_cons, hdescs] at hused
  have hfree := DescInv.give
    ⟨hdesc.size, hdesc.threaded, hdesc.splits.congr_used hused.symm, hdesc.count⟩
  refine h.process he hp hhead ⟨rfl, rfl, rfl, rfl, rfl, rfl, rfl⟩ hfree ?_
  intro q hq
  refine Virtqueue.setDesc_next_of_ne _ ?_ _
  have hheads := (hp.map Posted.head).nodup_iff.1 h.heads_nodup
  rw [List.map_cons, hhead] at hheads
  exact fun hqe => (List.nodup_cons.1 hheads).1 (List.mem_map.2 ⟨q, hq, hqe⟩)

/-- **Completion of a reception**: both descriptors of the chain are freed. -/
theorem process_rx (h : VirtqInv .rx num vq d flight) {e : VringUsedElem}
    (he : virtqUsed vq = some e) :
    VirtqInv .rx num
      { virtqFreeDesc (virtqFreeDesc vq e.head) (vq.next e.head) with
          buffers := Function.update vq.buffers e.head none
          lastUsedIdx := vq.lastUsedIdx + 1 } d (flight.eraseP fun p => p.head = e.head) := by
  obtain ⟨p, hhead, hp⟩ := h.used he
  obtain ⟨free, hdesc⟩ := h.descs
  have hdescs : p.descs = [e.head, vq.next e.head] := by
    rw [h.chains p (hp.symm.subset List.mem_cons_self), Direction.chain, hhead]
  have hused := hp.flatMap_right Posted.descs
  rw [List.flatMap_cons, hdescs] at hused
  have hfree := DescInv.give (DescInv.give
    ⟨hdesc.size, hdesc.threaded, hdesc.splits.congr_used hused.symm, hdesc.count⟩)
  refine h.process he hp hhead ⟨rfl, rfl, rfl, rfl, rfl, rfl, rfl⟩ hfree ?_
  intro q hq
  have hnodup := hdesc.splits.congr_used hused.symm |>.nodup_used
  obtain ⟨-, -, hapart⟩ := List.nodup_append.1 hnodup
  have hin := List.mem_flatMap_of_mem hq (h.head_mem q (hp.symm.subset (List.mem_cons_of_mem p hq)))
  have hne : ∀ i ∈ [e.head, vq.next e.head], q.head ≠ i := by
    intro i hi hqi
    exact hapart i hi q.head hin hqi.symm
  exact (Virtqueue.setDesc_next_of_ne _ (hne _ (by simp)) _).trans
    (Virtqueue.setDesc_next_of_ne _ (hne _ (by simp)) _)

end VirtqInv

end Gracemont
