/-
  Gracemont kernel — the invariant of aligned and DMA allocation.

  `DmaInv`: the invariants of the heap and of the pool, and that the pointer before each
  region in the heap is still the one that `heap_alloc` returned.  An operation of the
  heap changes headers, which are apart from all that is handed out (`allocate`,
  `release`); a store changes what is handed out, which is apart from all headers and from
  these pointers (`store`).
-/
import Mathlib.Data.List.Pairwise
import Gracemont.Kernel.DmaAlloc

namespace Gracemont

open Lib

variable {cfg : DmaConfig} {k r k' : KernelMem} {bs : List ℕ} {s s' : DmaState} {q : Region}

/-! ## Alignment -/

theorem raiseAlignment_pow (i : ℕ) : raiseAlignment (2 ^ i) = 2 ^ max i 4 := by
  have halign : heapBlockAlign = 2 ^ 4 := rfl
  rw [raiseAlignment, halign]
  split_ifs with h
  · rw [Nat.max_eq_right (Nat.le_of_lt ((Nat.pow_lt_pow_iff_right (by decide)).1 h))]
  · rw [Nat.max_eq_left ((Nat.pow_le_pow_iff_right (by decide)).1 (Nat.le_of_not_lt h))]

/-- **The aligned address**: the first multiple of the alignment with room for a pointer
    before it. -/
theorem alignedAddress_spec {raw j : ℕ} (h : raw + 8 + 2 ^ j ≤ 2 ^ 64) :
    2 ^ j ∣ alignedAddress raw (2 ^ j) ∧ raw + 8 ≤ alignedAddress raw (2 ^ j) ∧
      alignedAddress raw (2 ^ j) < raw + 8 + 2 ^ j := by
  have hpos : 0 < 2 ^ j := Nat.two_pow_pos j
  have hmask : (BitVec.ofNat 64 (2 ^ j) - 1#64).toNat = 2 ^ j - 1 := by
    rw [BitVec.toNat_sub, BitVec.toNat_ofNat, BitVec.toNat_ofNat]
    omega
  have hsum : (BitVec.ofNat 64 raw + 8#64 + BitVec.ofNat 64 (2 ^ j) - 1#64).toNat =
      raw + 8 + 2 ^ j - 1 := by
    rw [BitVec.toNat_sub, BitVec.toNat_add, BitVec.toNat_add, BitVec.toNat_ofNat,
      BitVec.toNat_ofNat, BitVec.toNat_ofNat, BitVec.toNat_ofNat]
    omega
  have haddr : alignedAddress raw (2 ^ j) = (raw + 8 + 2 ^ j - 1) / 2 ^ j * 2 ^ j := by
    rw [alignedAddress, and_not_lowMask _ hmask, hsum]
  have hdiv := Nat.div_add_mod' (raw + 8 + 2 ^ j - 1) (2 ^ j)
  have hmod := Nat.mod_lt (raw + 8 + 2 ^ j - 1) hpos
  rw [haddr]
  exact ⟨Nat.dvd_mul_left .., by omega, by omega⟩

theorem backPtr_eq {ptr : ℕ} (h8 : 8 ≤ ptr) (hlt : ptr < 2 ^ 64) : backPtr ptr = ptr - 8 := by
  rw [backPtr, BitVec.toNat_sub, BitVec.toNat_ofNat, BitVec.toNat_ofNat]
  omega

/-! ## What an operation leaves -/

namespace Settles

theorem refl (k r : KernelMem) : Settles k r r :=
  ⟨rfl, rfl, fun _ _ _ => rfl, fun _ _ => rfl⟩

/-- The headers of the blocks, after an operation that changes some of them, and no byte
    of one. -/
theorem mem_eq (hset : Settles k r k') {hcfg : HeapConfig} {h : Heap} (hB : Blocks hcfg h bs)
    (htouch : Touches bs k.heap r.heap)
    (hw : ∀ b ∈ bs, ∀ i < heapBlockSize, r.mem.byte (b + i) = k.mem.byte (b + i)) {b : ℕ}
    (hb : b ∈ bs) : k'.heap.mem b = r.heap.mem b := by
  refine hset.header b (hw b hb) fun c hcb h1 h2 => htouch c fun hc => ?_
  have hmin : heapBlockSize ≤ heapMinSize := by decide
  rcases Nat.lt_or_gt_of_ne hcb with hlt | hlt
  · have := hB.apart hc hb hlt
    have := hB.size_pos hc
    omega
  · have := hB.apart hb hc hlt
    have := hB.size_pos hb
    omega

/-- The bytes that are in no header. -/
theorem byte_eq (hset : Settles k r k') (htouch : Touches bs k.heap r.heap) {a : ℕ}
    (ha : ∀ b ∈ bs, a < b ∨ b + heapBlockSize ≤ a) : k'.mem.byte a = r.mem.byte a := by
  refine hset.byte a fun c h1 h2 => htouch c fun hc => ?_
  have := ha c hc
  omega

end Settles

/-! ## The invariant -/

/-- A region is aligned, held, and its pointer is in place. -/
structure Region.Ok (k : KernelMem) (q : Region) : Prop where
  aligned : q.alignment ∣ q.ptr
  block : ∀ raw, q.raw = some raw → raw + 8 ≤ q.ptr ∧
    (∀ a, q.ptr - 8 ≤ a → a < q.ptr + q.size → a ∈ payload k.heap raw) ∧
    loadPtr k.mem (q.ptr - 8) = raw ∧ q.ptr < 2 ^ 64
  page : q.raw = none → q.size ≤ 4096 ∧ q.dma = true
  pages : q.dma = true → (1 < dmaPages q.size ↔ q.raw ≠ none)

/-- **The invariant.** -/
structure DmaInv (cfg : DmaConfig) (s : DmaState) : Prop where
  heap : ∃ bs, HeapInv cfg.toHeapConfig s.heapUse bs
  pool : MempoolInv cfg.pages s.poolUse
  regions : ∀ q ∈ s.regions, q.Ok s.k

/-- A region only depends on the size of its block, and on the pointer before it. -/
theorem Region.Ok.congr (hq : q.Ok k)
    (hsize : ∀ raw, q.raw = some raw →
      (k'.heap.mem (raw - heapBlockSize)).size = (k.heap.mem (raw - heapBlockSize)).size)
    (hbyte : ∀ raw, q.raw = some raw → ∀ a, q.ptr - 8 ≤ a → a < q.ptr →
      k'.mem.byte a = k.mem.byte a) : q.Ok k' := by
  refine ⟨hq.aligned, fun raw hraw => ?_, hq.page, hq.pages⟩
  obtain ⟨hle, hin, hload, hlt⟩ := hq.block raw hraw
  refine ⟨hle, ?_, ?_, hlt⟩
  · rwa [payload_congr (hsize raw hraw)]
  · rw [loadPtr_congr fun i hi => hbyte raw hraw _ (by omega) (by omega), hload]

theorem Region.Ok.settle (hq : q.Ok k) (hset : Settles k r k') {hcfg : HeapConfig} {h : Heap}
    (hB : Blocks hcfg h bs) (htouch : Touches bs k.heap r.heap)
    (hw : ∀ b ∈ bs, ∀ i < heapBlockSize, r.mem.byte (b + i) = k.mem.byte (b + i))
    (hraw : ∀ raw, q.raw = some raw → raw - heapBlockSize ∈ bs ∧
      (r.heap.mem (raw - heapBlockSize)).size = (k.heap.mem (raw - heapBlockSize)).size ∧
      (∀ a ∈ payload k.heap raw, ∀ b ∈ bs, a < b ∨ b + heapBlockSize ≤ a) ∧
      ∀ a, q.ptr - 8 ≤ a → a < q.ptr → r.mem.byte a = k.mem.byte a) : q.Ok k' := by
  refine hq.congr (fun raw hr => ?_) fun raw hr a h1 h2 => ?_
  · obtain ⟨hb, hsize, -⟩ := hraw raw hr
    rw [hset.mem_eq hB htouch hw hb, hsize]
  · obtain ⟨-, -, hap, hbyte⟩ := hraw raw hr
    have ha := (hq.block raw hr).2.1 a h1 (by omega)
    exact (hset.byte_eq htouch (hap a ha)).trans (hbyte a h1 h2)

theorem Region.Ok.mem_payload (hq : q.Ok k) {raw a : ℕ} (hraw : q.raw = some raw)
    (ha : a ∈ q.bytes) : a ∈ payload k.heap raw := by
  obtain ⟨hlo, hhi⟩ := ha
  exact (hq.block raw hraw).2.1 a (by omega) hhi

theorem DmaState.mem_live {raw : ℕ} (hq : q ∈ s.regions) (hraw : q.raw = some raw) :
    raw ∈ s.heapUse.live :=
  List.mem_append_right _ (List.mem_filterMap.2 ⟨q, hq, hraw⟩)

/-- Regions of one block are the same. -/
theorem DmaState.raw_inj (hn : s.heapUse.live.Nodup) {q' : Region} (hq : q ∈ s.regions)
    (hq' : q' ∈ s.regions) {raw : ℕ} (hraw : q.raw = some raw) (hraw' : q'.raw = some raw) :
    q = q' := by
  by_contra hne
  have hpair := List.pairwise_filterMap.1 (List.nodup_append.1 hn).2.1
  have hsymm : Std.Symm fun x y : Region => ∀ a, x.raw = some a → ∀ b, y.raw = some b → a ≠ b :=
    ⟨fun x y hxy a ha b hb he => hxy b hb a ha he.symm⟩
  exact hpair.forall hq hq' hne raw hraw raw hraw' rfl

theorem DmaState.plain_ne (hn : s.heapUse.live.Nodup) {p raw : ℕ} (hp : p ∈ s.plain)
    (hq : q ∈ s.regions) (hraw : q.raw = some raw) : p ≠ raw :=
  (List.nodup_append.1 hn).2.2 p hp raw (List.mem_filterMap.2 ⟨q, hq, hraw⟩)

namespace DmaInv

/-- The pool after an operation on the heap. -/
theorem pool_settle (hI : DmaInv cfg s) (hset : Settles s.k r k') {h : Heap}
    (hB : Blocks cfg.toHeapConfig h bs) (htouch : Touches bs s.k.heap r.heap)
    (hpool : r.pool = s.k.pool)
    (hbyte : ∀ a, a < cfg.heapMemory ∨ cfg.heapMemory + cfg.heapSize ≤ a →
      r.mem.byte a = s.k.mem.byte a) : MempoolInv cfg.pages ⟨k'.mem, k'.pool, s.pages⟩ := by
  rw [hset.pool, hpool]
  refine hI.pool.congr fun a ha => ?_
  have hin : cfg.dmaPool ≤ a ∧ a < cfg.dmaPool + cfg.dmaPoolSize / 4096 * 4096 := by
    by_contra hout
    refine ha (.inr ?_)
    change a < cfg.dmaPool ∨ cfg.dmaPool + cfg.dmaPoolSize / 4096 * 4096 ≤ a
    omega
  have hout : a < cfg.heapMemory ∨ cfg.heapMemory + cfg.heapSize ≤ a := by
    have := cfg.apart
    omega
  exact (hset.byte_eq htouch (hB.header_le hout)).trans (hbyte a hout)

/-- **The heap allocates**, and writes into the new payload. -/
theorem allocate (hI : DmaInv cfg s) {fuel n : ℕ} {h : Heap} {p : Option ℕ} {mem : ByteMem}
    (ha : heapAlloc fuel s.k.heap n = some (h, p))
    (hmem : ∀ a, (∀ x, p = some x → a ∉ payload h x) → mem.byte a = s.k.mem.byte a)
    (hset : Settles s.k { s.k with heap := h, mem := mem } k') :
    (∃ bs, HeapInv cfg.toHeapConfig ⟨k'.heap, p.toList ++ s.heapUse.live⟩ bs) ∧
      MempoolInv cfg.pages ⟨k'.mem, k'.pool, s.pages⟩ ∧ (∀ q ∈ s.regions, q.Ok k') ∧
      ∀ x, p = some x → heapRound n ≤ (k'.heap.mem (x - heapBlockSize)).size ∧
        ∀ a ∈ payload k'.heap x, k'.mem.byte a = mem.byte a := by
  obtain ⟨bs, hH⟩ := hI.heap
  obtain ⟨⟨bs', hH', htouch⟩, hsize, hround⟩ := hH.alloc ha
  have hnew : ∀ x, p = some x → x ∈ p.toList ++ s.heapUse.live := fun x hx => by simp [hx]
  have hw : ∀ b ∈ bs', ∀ i < heapBlockSize, mem.byte (b + i) = s.k.mem.byte (b + i) :=
    fun b hb i hi => hmem _ fun x hx hin => by
      have := hH'.header_apart (hnew x hx) hb hin
      omega
  have hheap : ∀ b ∈ bs', k'.heap.mem b = h.mem b := fun b hb => hset.mem_eq hH'.blocks htouch hw hb
  have hmem_bs : ∀ x ∈ p.toList ++ s.heapUse.live, x - heapBlockSize ∈ bs' := fun x hx => by
    obtain ⟨y, z, hbs, -, -⟩ := hH'.block hx
    rw [hbs]
    simp
  refine ⟨⟨bs', hH'.congr hheap hset.freeList⟩, ?_, fun q hq => ?_, fun x hx => ?_⟩
  · refine hI.pool_settle hset hH'.blocks htouch rfl fun a hout => hmem a fun x hx hin => ?_
    have := hH'.payload_le (hnew x hx) hin
    omega
  · refine (hI.regions q hq).settle hset hH'.blocks htouch hw fun raw hraw => ?_
    have hlive := DmaState.mem_live hq hraw
    have hlive' : raw ∈ p.toList ++ s.heapUse.live := List.mem_append_right _ hlive
    obtain ⟨-, -, -, -, hraw_eq⟩ := hH.block hlive
    have hs := hsize (raw - heapBlockSize) (hraw_eq ▸ hlive)
    refine ⟨hmem_bs raw hlive', hs, fun a ha b hb => ?_, fun a h1 h2 => hmem a fun x hx hin => ?_⟩
    · exact hH'.header_apart hlive' hb (payload_congr hs ▸ ha)
    · -- the new payload is another one
      have hne : x ≠ raw := fun he => by
        have hnd := hH'.nodup
        rw [hx] at hnd
        exact (List.nodup_cons.1 hnd).1 (he ▸ hlive)
      have hdisj := hH'.disjoint (hnew x hx) hlive' hne
      refine Set.disjoint_left.1 hdisj hin ?_
      rw [payload_congr hs]
      exact ((hI.regions q hq).block raw hraw).2.1 a h1 (by omega)
  · have hs : (k'.heap.mem (x - heapBlockSize)).size = (h.mem (x - heapBlockSize)).size := by
      rw [hheap _ (hmem_bs x (hnew x hx))]
    refine ⟨hs ▸ hround x hx, fun a hin => hset.byte_eq htouch fun b hb => ?_⟩
    exact hH'.header_apart (hnew x hx) hb (payload_congr hs ▸ hin)

/-- **The heap releases a block.** -/
theorem release (hI : DmaInv cfg s) {fuel p : ℕ} {h : Heap} (hp : p ∈ s.heapUse.live)
    (hf : heapFree fuel s.k.heap (some p) = some h)
    (hset : Settles s.k { s.k with heap := h } k') :
    (∃ bs, HeapInv cfg.toHeapConfig
        ⟨k'.heap, s.heapUse.live.filter fun x => some x ≠ some p⟩ bs) ∧
      MempoolInv cfg.pages ⟨k'.mem, k'.pool, s.pages⟩ ∧
      ∀ q ∈ s.regions, q.raw ≠ some p → q.Ok k' := by
  obtain ⟨bs, hH⟩ := hI.heap
  obtain ⟨⟨bs', hH', hsub⟩, hsize, htouch⟩ := hH.free hp hf
  have hw : ∀ b ∈ bs, ∀ i < heapBlockSize, s.k.mem.byte (b + i) = s.k.mem.byte (b + i) :=
    fun _ _ _ _ => rfl
  refine ⟨⟨bs', hH'.congr (fun b hb => hset.mem_eq hH.blocks htouch hw (hsub b hb))
    hset.freeList⟩, hI.pool_settle hset hH.blocks htouch rfl fun _ _ => rfl, fun q hq hne => ?_⟩
  refine (hI.regions q hq).settle hset hH.blocks htouch hw fun raw hraw => ?_
  have hlive := DmaState.mem_live hq hraw
  obtain ⟨y, z, hbs, -, hraw_eq⟩ := hH.block hlive
  refine ⟨by rw [hbs]; simp, hsize _ (hraw_eq ▸ hlive) (hraw_eq ▸ fun he => hne (he ▸ hraw)),
    fun a ha b hb => hH.header_apart hlive hb ha, fun _ _ _ => rfl⟩

/-- **A store** to a payload, or outside of the heap. -/
theorem store (hI : DmaInv cfg s) {mem : ByteMem} {pool : Mempool}
    (hmem : ∀ a, mem.byte a ≠ s.k.mem.byte a → (∃ q ∈ s.regions, q.raw ≠ none ∧ a ∈ q.bytes) ∨
      (∃ p ∈ s.plain, a ∈ payload s.k.heap p) ∨
      a < cfg.heapMemory ∨ cfg.heapMemory + cfg.heapSize ≤ a)
    (hset : Settles s.k { s.k with mem := mem, pool := pool } k') :
    (∃ bs, HeapInv cfg.toHeapConfig ⟨k'.heap, s.heapUse.live⟩ bs) ∧
      (∀ out, MempoolInv cfg.pages ⟨mem, pool, out⟩ → MempoolInv cfg.pages ⟨k'.mem, k'.pool, out⟩) ∧
      ∀ q ∈ s.regions, q.Ok k' := by
  obtain ⟨bs, hH⟩ := hI.heap
  have htouch : Touches bs s.k.heap s.k.heap := .refl bs _
  have hw : ∀ b ∈ bs, ∀ i < heapBlockSize, mem.byte (b + i) = s.k.mem.byte (b + i) := by
    intro b hb i hi
    by_contra hne
    rcases hmem _ hne with ⟨q, hq, hraw, hin⟩ | ⟨p, hp, hin⟩ | hout
    · obtain ⟨raw, hraw⟩ := Option.ne_none_iff_exists'.1 hraw
      have hin' := (hI.regions q hq).mem_payload hraw hin
      have := hH.header_apart (DmaState.mem_live hq hraw) hb hin'
      omega
    · have := hH.header_apart (List.mem_append_left _ hp) hb hin
      omega
    · have := hH.blocks.header_le hout b hb
      omega
  refine ⟨⟨bs, hH.congr (fun b hb => hset.mem_eq hH.blocks htouch hw hb) hset.freeList⟩,
    fun out hpool => ?_, fun q hq => ?_⟩
  · rw [hset.pool]
    exact hpool.congr fun a _ => hset.byte a fun _ _ _ => rfl
  refine (hI.regions q hq).settle hset hH.blocks htouch hw fun raw hraw => ?_
  have hlive := DmaState.mem_live hq hraw
  obtain ⟨y, z, hbs, -, -⟩ := hH.block hlive
  obtain ⟨hle, hin, -⟩ := (hI.regions q hq).block raw hraw
  refine ⟨by rw [hbs]; simp, rfl, fun a ha b hb => hH.header_apart hlive hb ha,
    fun a h1 h2 => ?_⟩
  -- the pointer is before the region, and in the payload of no other
  by_contra hne
  have ha := hin a h1 (by omega)
  rcases hmem a hne with ⟨q', hq', hraw', hin'⟩ | ⟨p, hp, hin'⟩ | hout
  · obtain ⟨raw', hraw'⟩ := Option.ne_none_iff_exists'.1 hraw'
    have hin'' := (hI.regions q' hq').mem_payload hraw' hin'
    by_cases hne' : raw' = raw
    · obtain rfl := DmaState.raw_inj hH.nodup hq hq' hraw (hne' ▸ hraw')
      have := hin'.1
      omega
    · have hdisj := hH.disjoint (DmaState.mem_live hq' hraw') hlive hne'
      exact Set.disjoint_left.1 hdisj hin'' ha
  · have hne' : p ≠ raw := DmaState.plain_ne hH.nodup hp hq hraw
    exact Set.disjoint_left.1 (hH.disjoint (List.mem_append_left _ hp) hlive hne') hin' ha
  · have := hH.payload_le hlive ha
    omega

end DmaInv

end Gracemont
