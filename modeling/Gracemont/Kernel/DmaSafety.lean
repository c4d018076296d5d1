/-
  Gracemont kernel — the safety of aligned and DMA allocation.

  Every call keeps `DmaInv`, and what it returns is held: the block of the heap for an
  aligned region has room for the alignment, the pointer and the size, unless one of the
  additions wraps.  `dma_alloc` lets sizes through that do.

  * `dma_regions`: no region is misaligned, too short, shared, or given back to the wrong
    allocator, in all runs in which no call of `dma_alloc` wraps; and a call keeps it so
    only if it does not wrap, or returns `NULL`.
-/
import Gracemont.Kernel.DmaInv
import Gracemont.Kernel.HeapFit

namespace Gracemont

open Lib

variable {cfg : DmaConfig} {k r k' : KernelMem} {bs : List ℕ} {s s' : DmaState} {q : Region}

/-! ## The lists of the regions -/

/-- What is left without one pointer. -/
theorem filter_ne_perm {l l' : List ℕ} {p : ℕ} (h : l.Perm (p :: l')) (hn : l.Nodup) :
    (l.filter fun x => some x ≠ some p).Perm l' := by
  have hp : p ∉ l' := (List.nodup_cons.1 (h.nodup_iff.1 hn)).1
  have hall : l'.filter (fun x => some x ≠ some p) = l' :=
    List.filter_eq_self.2 fun x hx => by
      have hne : x ≠ p := fun he => hp (he ▸ hx)
      simpa using hne
  have hf := h.filter fun x => decide (some x ≠ some p)
  rwa [List.filter_cons_of_neg (by simp), hall] at hf

namespace DmaState

theorem raws_perm (hq : q ∈ s.regions) {raw : ℕ} (hraw : q.raw = some raw) :
    s.heapUse.live.Perm (raw :: (s.plain ++ (s.regions.erase q).filterMap Region.raw)) := by
  have h := (List.perm_cons_erase hq).filterMap Region.raw
  rw [List.filterMap_cons_some hraw] at h
  exact (h.append_left s.plain).trans List.perm_middle

theorem raws_perm_none (hq : q ∈ s.regions) (hraw : q.raw = none) :
    s.heapUse.live.Perm (s.plain ++ (s.regions.erase q).filterMap Region.raw) := by
  have h := (List.perm_cons_erase hq).filterMap Region.raw
  rw [List.filterMap_cons_none hraw] at h
  exact h.append_left s.plain

theorem pages_perm (hq : q ∈ s.regions) (hraw : q.raw = none) :
    s.pages.Perm (q.ptr :: ((s.regions.erase q).filter fun r => r.raw = none).map Region.ptr) := by
  have h := ((List.perm_cons_erase hq).filter fun r => decide (r.raw = none)).map Region.ptr
  rwa [List.filter_cons_of_pos (by simpa using hraw), List.map_cons] at h

theorem pages_perm_some (hq : q ∈ s.regions) (hraw : q.raw ≠ none) :
    s.pages.Perm (((s.regions.erase q).filter fun r => r.raw = none).map Region.ptr) := by
  have h := ((List.perm_cons_erase hq).filter fun r => decide (r.raw = none)).map Region.ptr
  rwa [List.filter_cons_of_neg (by simpa using hraw)] at h

end DmaState

/-! ## Release -/

namespace DmaInv

/-- The pointers of the heap are not `NULL`. -/
theorem live_ne_zero (hI : DmaInv cfg s) {p : ℕ} (hp : p ∈ s.heapUse.live) : p ≠ 0 := by
  obtain ⟨bs, hH⟩ := hI.heap
  obtain ⟨b, -, -, rfl⟩ := (hH.live p).1 hp
  exact Nat.succ_ne_zero _

/-- **`heap_free_aligned`** finds the block of the region. -/
theorem heapFreeAligned_eq (hI : DmaInv cfg s) (hq : q ∈ s.regions) (hraw : q.raw ≠ none)
    (fuel : ℕ) : heapFreeAligned fuel s.k q.ptr = q.release fuel s.k := by
  obtain ⟨raw, hraw⟩ := Option.ne_none_iff_exists'.1 hraw
  obtain ⟨hle, -, hload, hlt⟩ := (hI.regions q hq).block raw hraw
  have hne := hI.live_ne_zero (DmaState.mem_live hq hraw)
  have hptr : q.ptr ≠ 0 := by omega
  have hback : heapPtr (loadPtr s.k.mem (backPtr q.ptr)) = some raw := by
    rw [backPtr_eq (by omega) hlt, hload, heapPtr, if_neg hne]
  rw [heapFreeAligned, if_neg hptr, Region.release, hraw]
  dsimp only
  rw [hback]
  exact Option.map_eq_bind.symm

/-- **`dma_free`** gives the region back to the allocator it is from. -/
theorem dmaFree_eq (hI : DmaInv cfg s) (hq : q ∈ s.regions) (hdma : q.dma = true) (fuel : ℕ) :
    dmaFree fuel s.k q.ptr q.size = q.release fuel s.k := by
  have hiff := (hI.regions q hq).pages hdma
  by_cases hraw : q.raw = none
  · have hpages : ¬ 1 < dmaPages q.size := fun h => hiff.1 h hraw
    rw [dmaFree, if_neg hpages, Region.release, hraw]
  · rw [dmaFree, if_pos (hiff.2 hraw)]
    exact hI.heapFreeAligned_eq hq hraw fuel

/-- A page is one of the pool. -/
theorem mem_blocks (hI : DmaInv cfg s) (hq : q ∈ s.regions) (hraw : q.raw = none) :
    q.ptr ∈ cfg.pages.blocks := by
  obtain ⟨free, -, hsplit⟩ := hI.pool.chain
  exact hsplit.mem_used (List.mem_map.2 ⟨q, List.mem_filter.2 ⟨hq, by simpa using hraw⟩, rfl⟩)

theorem page_le (hI : DmaInv cfg s) (hq : q ∈ s.regions) (hraw : q.raw = none) :
    cfg.dmaPool ≤ q.ptr ∧ q.ptr + 4096 ≤ cfg.dmaPool + cfg.dmaPoolSize := by
  obtain ⟨h1, h2⟩ := MempoolConfig.block_le (hI.mem_blocks hq hraw)
  change cfg.dmaPool ≤ q.ptr at h1
  change q.ptr + 4096 ≤ cfg.dmaPool + cfg.dmaPoolSize / 4096 * 4096 at h2
  omega

/-- **Giving back a region** keeps the invariant. -/
theorem giveBack (hI : DmaInv cfg s) (hq : q ∈ s.regions) {fuel : ℕ}
    (hrel : q.release fuel s.k = some k) (hset : Settles s.k k k') :
    DmaInv cfg ⟨k', s.plain, s.regions.erase q⟩ := by
  have hsub : ∀ x ∈ s.regions.erase q, x ∈ s.regions := fun x hx => List.mem_of_mem_erase hx
  by_cases hraw : q.raw = none
  · -- a page goes back to the pool
    rw [Region.release, hraw] at hrel
    cases hrel
    have hle := hI.page_le hq hraw
    have hpos := cfg.pool_pos
    have hptr : q.ptr ≠ 0 := by omega
    have hfree : dmaPoolFree s.k q.ptr = { s.k with
        mem := storePtr s.k.mem q.ptr s.k.pool.freeList
        pool := { s.k.pool with freeList := q.ptr } } := by
      rw [dmaPoolFree, mempoolFree, if_neg hptr]
    rw [hfree] at hset
    have hout : ∀ a, (storePtr s.k.mem q.ptr s.k.pool.freeList).byte a ≠ s.k.mem.byte a →
        a < cfg.heapMemory ∨ cfg.heapMemory + cfg.heapSize ≤ a := fun a ha => by
      -- the link is in the page
      have hin : q.ptr ≤ a ∧ a < q.ptr + 8 := by
        by_contra hout
        exact ha (storePtr_byte (by omega))
      have := cfg.apart
      omega
    obtain ⟨⟨bs, hH⟩, hkeep, hok⟩ := hI.store (fun a ha => .inr (.inr (hout a ha))) hset
    have hperm := DmaState.pages_perm hq hraw
    have hleft := hperm.erase q.ptr
    rw [List.erase_cons_head] at hleft
    have hpool := (hI.pool.free (hperm.mem_iff.2 List.mem_cons_self)).perm hleft.symm
    exact ⟨⟨bs, hH.perm (DmaState.raws_perm_none hq hraw).symm⟩, hkeep _ hpool,
      fun x hx => hok x (hsub x hx)⟩
  · obtain ⟨raw, hraw'⟩ := Option.ne_none_iff_exists'.1 hraw
    rw [Region.release, hraw'] at hrel
    obtain ⟨h, hf, rfl⟩ := Option.map_eq_some_iff.1 hrel
    have hlive := DmaState.mem_live hq hraw'
    obtain ⟨⟨bs, hH⟩, hpool, hok⟩ := hI.release hlive hf hset
    obtain ⟨bs₀, hH₀⟩ := hI.heap
    have hperm := filter_ne_perm (DmaState.raws_perm hq hraw') hH₀.nodup
    refine ⟨⟨bs, hH.perm hperm.symm⟩, ?_, fun x hx => hok x (hsub x hx) fun hx' => ?_⟩
    · exact hpool.perm (DmaState.pages_perm_some hq hraw).symm
    · -- no other region is in this block
      obtain rfl := DmaState.raw_inj hH₀.nodup (hsub x hx) hq hx' hraw'
      have hnd := (DmaState.raws_perm hq hraw').nodup_iff.1 hH₀.nodup
      exact (List.nodup_cons.1 hnd).1
        (List.mem_append_right _ (List.mem_filterMap.2 ⟨x, hx, hraw'⟩))

end DmaInv

/-! ## Allocation -/

/-- What `heap_alloc_aligned` does. -/
theorem heapAllocAligned_cases {fuel size alignment p : ℕ}
    (ha : heapAllocAligned fuel k size alignment = some (r, p)) :
    (∃ h, heapAlloc fuel k.heap (alignedTotal size (raiseAlignment alignment)) = some (h, none) ∧
      rawOf fuel k size alignment = none ∧ p = 0 ∧ r = { k with heap := h }) ∨
    ∃ h raw, heapAlloc fuel k.heap (alignedTotal size (raiseAlignment alignment)) =
        some (h, some raw) ∧
      rawOf fuel k size alignment = some raw ∧ p = alignedAddress raw (raiseAlignment alignment) ∧
      r = { k with heap := h, mem := storePtr k.mem (backPtr p) raw } := by
  rw [heapAllocAligned] at ha
  obtain ⟨⟨h, raw⟩, hh, ha⟩ := Option.bind_eq_some_iff.1 ha
  have hraw : rawOf fuel k size alignment = raw := by
    rw [rawOf, hh]
    rfl
  cases raw with
  | none =>
    cases ha
    exact .inl ⟨h, hh, hraw, rfl, rfl⟩
  | some raw =>
    cases ha
    exact .inr ⟨h, raw, hh, hraw, rfl, rfl⟩

theorem heapAllocAligned_eq {fuel size alignment raw : ℕ} {h : Heap}
    (hh : heapAlloc fuel k.heap (alignedTotal size (raiseAlignment alignment)) =
      some (h, some raw)) :
    heapAllocAligned fuel k size alignment =
        some ({ k with
          heap := h
          mem := storePtr k.mem (backPtr (alignedAddress raw (raiseAlignment alignment))) raw },
          alignedAddress raw (raiseAlignment alignment)) ∧
      rawOf fuel k size alignment = some raw := by
  rw [heapAllocAligned, rawOf]
  dsimp only
  rw [hh]
  exact ⟨rfl, rfl⟩

/-- **The block has room**: the aligned address leaves a pointer before it, and the size
    after it, as long as their sum does not wrap. -/
theorem HeapInv.aligned_held {hcfg : HeapConfig} {u : HeapUse} (hI : HeapInv hcfg u bs)
    (hcfg_le : hcfg.heapMemory + hcfg.heapSize ≤ 2 ^ 64) {raw size j : ℕ} (hraw : raw ∈ u.live)
    (hround : heapRound (alignedTotal size (2 ^ j)) ≤ (u.heap.mem (raw - heapBlockSize)).size)
    (hlt : size + 2 ^ j + 8 + 47 < 2 ^ 64) :
    2 ^ j ∣ alignedAddress raw (2 ^ j) ∧ raw + 8 ≤ alignedAddress raw (2 ^ j) ∧
      alignedAddress raw (2 ^ j) < 2 ^ 64 ∧
      ∀ a, raw ≤ a → a < alignedAddress raw (2 ^ j) + size → a ∈ payload u.heap raw := by
  have hpos : 0 < 2 ^ j := Nat.two_pow_pos j
  have htotal : alignedTotal size (2 ^ j) = size + 2 ^ j + 8 := by
    unfold alignedTotal sizeAdd
    omega
  obtain ⟨b, hb, -, rfl⟩ := (hI.live raw).1 hraw
  rw [htotal, heapRound_eq hlt, Nat.add_sub_cancel] at hround
  have hroom := (le_blockBytes (size + 2 ^ j + 8)).trans hround
  have hend := (hI.blocks.size_le hb).2
  have hfits : b + heapBlockSize + 8 + 2 ^ j ≤ 2 ^ 64 := by omega
  obtain ⟨hdvd, hlo, hhi⟩ := alignedAddress_spec hfits
  refine ⟨hdvd, hlo, by omega, fun a h1 h2 => ⟨h1, ?_⟩⟩
  rw [Nat.add_sub_cancel]
  omega

namespace DmaInv

/-- **`heap_alloc_aligned`** keeps the invariant, unless the size of the block wraps. -/
theorem allocAligned (hI : DmaInv cfg s) {fuel size i p : ℕ} {dma : Bool}
    (ha : heapAllocAligned fuel s.k size (2 ^ i) = some (r, p)) (hset : Settles s.k r k')
    (hlt : rawOf fuel s.k size (2 ^ i) ≠ none → size + raiseAlignment (2 ^ i) + 8 + 47 < 2 ^ 64)
    (hdma : dma = true → 1 < dmaPages size) :
    DmaInv cfg ⟨k', s.plain,
      s.handOut ⟨p, size, 2 ^ i, rawOf fuel s.k size (2 ^ i), dma⟩⟩ := by
  obtain ⟨h, hh, -, rfl, rfl⟩ | ⟨h, raw, hh, hraw, rfl, rfl⟩ := heapAllocAligned_cases ha
  · obtain ⟨hH, hpool, hok, -⟩ := hI.allocate hh (fun _ _ => rfl) hset
    exact ⟨hH, hpool, hok⟩
  · have hlt := hlt (by rw [hraw]; exact Option.some_ne_none raw)
    rw [raiseAlignment_pow] at hh hlt hset ⊢
    obtain ⟨bs₀, hH₀⟩ := hI.heap
    obtain ⟨⟨bs₁, hH₁, -⟩, -, hround₁⟩ := hH₀.alloc hh
    obtain ⟨-, hlo, hmax, hin⟩ := hH₁.aligned_held cfg.heap_le List.mem_cons_self
      (hround₁ raw rfl) hlt
    generalize hp : alignedAddress raw (2 ^ max i 4) = p at *
    rw [backPtr_eq (by omega) hmax] at hset
    have hstore : ∀ a, (∀ x, some raw = some x → a ∉ payload h x) →
        (storePtr s.k.mem (p - 8) raw).byte a = s.k.mem.byte a := fun a ha => by
      refine storePtr_byte ?_
      by_contra hne
      exact ha raw rfl (hin a (by omega) (by omega))
    obtain ⟨⟨bs, hH⟩, hpool, hok, hnew⟩ := hI.allocate hh hstore hset
    obtain ⟨hround, hbyte⟩ := hnew raw rfl
    obtain ⟨hdvd, -, -, hin'⟩ := hH.aligned_held cfg.heap_le List.mem_cons_self hround hlt
    rw [hp] at hdvd hin'
    have hraw64 : raw < 2 ^ 64 := by omega
    have hload : loadPtr k'.mem (p - 8) = raw := by
      have hkept : ∀ j < 8,
          k'.mem.byte (p - 8 + j) = (storePtr s.k.mem (p - 8) raw).byte (p - 8 + j) :=
        fun j hj => hbyte _ (hin' _ (by omega) (by omega))
      rw [loadPtr_congr hkept]
      exact loadPtr_storePtr hraw64 ..
    have hp0 : p ≠ 0 := by omega
    have hnewok : Region.Ok k' ⟨p, size, 2 ^ i, some raw, dma⟩ := by
      have halign : 2 ^ i ∣ 2 ^ max i 4 := Nat.pow_dvd_pow 2 (Nat.le_max_left i 4)
      refine ⟨Nat.dvd_trans halign hdvd, ?_, by rintro ⟨⟩, fun hd => ?_⟩
      · rintro x ⟨⟩
        exact ⟨hlo, fun a h1 h2 => hin' a (by dsimp only at h1; omega) h2, hload, hmax⟩
      · exact iff_of_true (hdma hd) (Option.some_ne_none raw)
    rw [hraw, DmaState.handOut, if_neg hp0]
    refine ⟨⟨bs, hH.perm List.perm_middle⟩, hpool, fun q hq => ?_⟩
    rcases List.mem_cons.1 hq with rfl | hq
    · exact hnewok
    · exact hok q hq

/-- **The pool of `dma_alloc`** keeps the invariant, if what it returns is long enough. -/
theorem allocPage (hI : DmaInv cfg s) {size : ℕ} (hpages : ¬ 1 < dmaPages size)
    (hset : Settles s.k { s.k with pool := (mempoolAlloc s.k.mem s.k.pool).1 } k')
    (hsize : (mempoolAlloc s.k.mem s.k.pool).2 ≠ 0 → size ≤ 4096) :
    DmaInv cfg ⟨k', s.plain,
      s.handOut ⟨(mempoolAlloc s.k.mem s.k.pool).2, size, 4096, none, true⟩⟩ := by
  obtain ⟨⟨bs, hH⟩, hkeep, hok⟩ := hI.store (fun a ha => absurd rfl ha) hset
  have hpool := hkeep _ (mempoolStep_inv (e := .alloc) hI.pool rfl)
  generalize hr : mempoolAlloc s.k.mem s.k.pool = m at *
  have hm : mempoolAlloc s.poolUse.mem s.poolUse.pool = m := hr
  rw [hm] at hpool
  rw [DmaState.handOut]
  by_cases hp : m.2 = 0
  · rw [if_pos hp] at hpool ⊢
    exact ⟨⟨bs, hH⟩, hpool, hok⟩
  · rw [if_neg hp] at hpool ⊢
    have hblock : m.2 ∈ cfg.pages.blocks := by
      obtain ⟨free, -, hsplit⟩ := hpool.chain
      exact hsplit.mem_used List.mem_cons_self
    have hdvd : 4096 ∣ m.2 := by
      obtain ⟨j, -, hj⟩ := MempoolConfig.mem_blocks.1 hblock
      rw [hj]
      exact Nat.dvd_add cfg.pool_aligned (Nat.dvd_mul_left 4096 j)
    refine ⟨⟨bs, hH⟩, hpool, fun q hq => ?_⟩
    rcases List.mem_cons.1 hq with rfl | hq
    · refine ⟨hdvd, by rintro x ⟨⟩, fun _ => ⟨hsize hp, rfl⟩, fun _ => ?_⟩
      exact iff_of_false hpages fun hne => hne rfl
    · exact hok q hq

/-- **Initialization.** -/
theorem start {headers : Store ℕ HeapBlock} {mem : ByteMem}
    (hk : s.k = dmaPoolInit cfg ⟨heapInit cfg.toHeapConfig headers, mem, ⟨0, 0, 0, 0⟩⟩)
    (hplain : s.plain = []) (hregions : s.regions = []) : DmaInv cfg s := by
  obtain ⟨k, plain, regions⟩ := s
  obtain rfl : plain = [] := hplain
  obtain rfl : regions = [] := hregions
  have hpos := cfg.pool_pos
  rw [dmaPoolInit] at hk
  cases hinit : mempoolInit mem cfg.dmaPool 4096 (cfg.dmaPoolSize / 4096) with
  | none =>
    rw [hinit] at hk
    obtain rfl : k = _ := hk
    refine ⟨⟨_, heapInv_init cfg.toHeapConfig headers⟩,
      ⟨hpos, Nat.succ_pos 4095, [], rfl, ?_, ?_⟩, ?_⟩
    · -- there is no page
      have hzero : cfg.dmaPoolSize / 4096 = 0 := by
        by_contra hne
        rw [mempoolInit, if_neg (by omega)] at hinit
        cases hinit
      change [].Perm ((List.range (cfg.dmaPoolSize / 4096)).map _)
      rw [hzero]
      exact .nil
    · exact MempoolConfig.blocks_nodup (Nat.succ_pos 4095)
    · exact fun q hq => absurd hq List.not_mem_nil
  | some r =>
    rw [hinit] at hk
    obtain rfl : k = _ := hk
    exact ⟨⟨_, heapInv_init cfg.toHeapConfig headers⟩, mempoolInit_inv rfl hinit,
      fun q hq => absurd hq List.not_mem_nil⟩

end DmaInv

/-! ## Sizes that wrap -/

theorem dmaPages_iff {size : ℕ} (h : size < 2 ^ 64) :
    1 < dmaPages size ↔ 4096 < size ∧ size + 4095 < 2 ^ 64 := by
  unfold dmaPages sizeAdd
  omega

/-- A size for which the block wraps becomes the smallest block. -/
theorem heapRound_alignedTotal {size : ℕ} (hlt : size + 4095 < 2 ^ 64)
    (hwrap : 2 ^ 64 ≤ size + 4096 + 8 + 47) : heapRound (alignedTotal size 4096) = heapMinSize := by
  by_cases hle : size + 4096 + 8 < 2 ^ 64
  · have htotal : alignedTotal size 4096 = size + 4096 + 8 := by
      unfold alignedTotal sizeAdd
      omega
    rw [htotal]
    exact heapRound_wrap hle (by omega)
  · have htotal : alignedTotal size 4096 ≤ 8 := by
      unfold alignedTotal sizeAdd
      omega
    rw [heapRound_eq (by omega), blockBytes]
    have hmin : heapMinSize = 48 := rfl
    have hsize : heapBlockSize = 32 := rfl
    omega

namespace DmaInv

/-- When it wraps, the heap returns `NULL` for the size zero, or if it has no block. -/
theorem wrapped_none_iff (hI : DmaInv cfg s) {fuel size : ℕ} {h : Heap} {p : Option ℕ}
    (ha : heapAlloc fuel s.k.heap (alignedTotal size 4096) = some (h, p))
    (hlt : size + 4095 < 2 ^ 64) (hwrap : 2 ^ 64 ≤ size + 4096 + 8 + 47) :
    p = none ↔ s.k.heap.freeList = none ∨ size + 4096 + 8 = 2 ^ 64 := by
  obtain ⟨bs, hH⟩ := hI.heap
  have hmin := heapRound_alignedTotal hlt hwrap
  have hfree : s.k.heap.freeList = none ↔ freeBlocks s.k.heap bs = [] :=
    hH.blocks.freeList_eq_none (s := s.heapUse)
  have hzero : alignedTotal size 4096 = 0 ↔ size + 4096 + 8 = 2 ^ 64 := by
    unfold alignedTotal sizeAdd
    omega
  rw [hfree, ← hzero]
  obtain ⟨rfl, -, hnone⟩ | ⟨b, hne, rfl, -, hfind⟩ := heapAlloc_cases hH.blocks ha
  · refine iff_of_true rfl (hnone.symm.imp_left fun hall => ?_)
    refine List.eq_nil_iff_forall_not_mem.2 fun b hb => ?_
    have hsmall := hall b hb
    have := hH.blocks.size_pos (mem_freeBlocks.1 hb).1
    omega
  · refine iff_of_false (Option.some_ne_none _) ?_
    rintro (hnil | h0)
    · have hb := List.mem_of_find?_eq_some hfind
      change b ∈ freeBlocks s.k.heap bs at hb
      rw [hnil] at hb
      exact absurd hb List.not_mem_nil
    · exact hne h0

/-! ## Runs -/

/-- A call that does nothing. -/
theorem idle (hI : DmaInv cfg s) (hset : Settles s.k s.k k') :
    DmaInv cfg ⟨k', s.plain, s.regions⟩ := by
  obtain ⟨hH, hkeep, hok⟩ := hI.store (fun a ha => absurd rfl ha) hset
  exact ⟨hH, hkeep _ hI.pool, hok⟩

/-- **`heap_free`** -/
theorem free (hI : DmaInv cfg s) {fuel ptr : ℕ} {h : Heap} (hp : ptr = 0 ∨ ptr ∈ s.plain)
    (hf : heapFree fuel s.k.heap (heapPtr ptr) = some h)
    (hset : Settles s.k { s.k with heap := h } k') :
    DmaInv cfg ⟨k', s.plain.erase ptr, s.regions⟩ := by
  by_cases h0 : ptr = 0
  · have hnot : ptr ∉ s.plain := fun hm => hI.live_ne_zero (List.mem_append_left _ hm) h0
    rw [heapPtr, if_pos h0] at hf
    cases hf
    rw [List.erase_of_not_mem hnot]
    exact hI.idle hset
  · have hmem := hp.resolve_left h0
    rw [heapPtr, if_neg h0] at hf
    obtain ⟨⟨bs, hH⟩, hpool, hok⟩ := hI.release (List.mem_append_left _ hmem) hf hset
    obtain ⟨bs₀, hH₀⟩ := hI.heap
    have hperm := (List.perm_cons_erase hmem).append_right (s.regions.filterMap Region.raw)
    rw [List.cons_append] at hperm
    exact ⟨⟨bs, hH.perm (filter_ne_perm hperm hH₀.nodup).symm⟩, hpool, fun q hq =>
      hok q hq fun hraw => DmaState.plain_ne hH₀.nodup hmem hq hraw rfl⟩

/-- A region of the heap is inside of the heap. -/
theorem region_le (hI : DmaInv cfg s) (hq : q ∈ s.regions) (hraw : q.raw ≠ none) {a : ℕ}
    (ha : a ∈ q.bytes) : cfg.heapMemory ≤ a ∧ a < cfg.heapMemory + cfg.heapSize := by
  obtain ⟨bs, hH⟩ := hI.heap
  obtain ⟨raw, hraw⟩ := Option.ne_none_iff_exists'.1 hraw
  exact hH.payload_le (DmaState.mem_live hq hraw) ((hI.regions q hq).mem_payload hraw ha)

/-- **A store of the application.** -/
theorem write (hI : DmaInv cfg s) {a : ℕ} {v : BitVec 8} (ha : s.Writable cfg a)
    (hset : Settles s.k { s.k with mem := s.k.mem.set a v } k') :
    DmaInv cfg ⟨k', s.plain, s.regions⟩ := by
  obtain ⟨bs₀, hH₀⟩ := hI.heap
  have hapart := cfg.apart
  have hend : cfg.heapEnd = cfg.heapMemory + cfg.heapSize := rfl
  -- a page is in the pool, everything else is not
  have hwhere : ((∃ q ∈ s.regions, q.raw ≠ none ∧ a ∈ q.bytes) ∨
      (∃ p ∈ s.plain, a ∈ payload s.k.heap p) ∨
      a < cfg.heapMemory ∨ cfg.heapMemory + cfg.heapSize ≤ a) ∧
      MempoolState.Writable cfg.pages s.poolUse a := by
    rw [MempoolState.Writable]
    change _ ∧ ((∃ b ∈ s.pages, b ≤ a ∧ a < b + 4096) ∨ a < cfg.dmaPool ∨
      cfg.dmaPool + cfg.dmaPoolSize / 4096 * 4096 ≤ a)
    rcases ha with ⟨q, hq, hin⟩ | ⟨p, hp, hin⟩ | ⟨hheap, hpool⟩
    · by_cases hraw : q.raw = none
      · have hle := hI.page_le hq hraw
        have hsize := ((hI.regions q hq).page hraw).1
        obtain ⟨h1, h2⟩ := hin
        refine ⟨.inr (.inr (by omega)), .inl ⟨q.ptr, ?_, h1, by omega⟩⟩
        exact List.mem_map.2 ⟨q, List.mem_filter.2 ⟨hq, by simpa using hraw⟩, rfl⟩
      · have := hI.region_le hq hraw hin
        exact ⟨.inl ⟨q, hq, hraw, hin⟩, .inr (by omega)⟩
    · have := hH₀.payload_le (List.mem_append_left _ hp) hin
      exact ⟨.inr (.inl ⟨p, hp, hin⟩), .inr (by omega)⟩
    · exact ⟨.inr (.inr (by omega)), .inr (by omega)⟩
  have hmem : ∀ b, (s.k.mem.set a v).byte b ≠ s.k.mem.byte b → b = a := fun b hb => by
    by_contra hne
    exact hb (ByteMem.set_byte_of_ne _ _ hne)
  obtain ⟨hH, hkeep, hok⟩ := hI.store (fun b hb => hmem b hb ▸ hwhere.1) hset
  exact ⟨hH, hkeep _ (hI.pool.write v hwhere.2), hok⟩

/-- **`dma_alloc`** keeps the invariant under the condition. -/
theorem dmaAlloc (hI : DmaInv cfg s) {fuel p : ℕ} {size : BitVec 64}
    (hok : DmaOk s (.dmaAlloc size))
    (ha : Gracemont.dmaAlloc fuel s.k size.toNat = some (k, p)) (hset : Settles s.k k k') :
    DmaInv cfg ⟨k', s.plain, s.handOut ⟨p, size.toNat, 4096,
      if 1 < dmaPages size.toNat then rawOf fuel s.k size.toNat 4096 else none, true⟩⟩ := by
  have hlt := size.isLt
  have hiff := dmaPages_iff hlt
  change _ ∨ _ ∨ _ at hok
  rw [Gracemont.dmaAlloc] at ha
  by_cases hpages : 1 < dmaPages size.toNat
  · rw [if_pos hpages] at ha ⊢
    obtain ⟨hbig, hfits⟩ := hiff.1 hpages
    refine hI.allocAligned (i := 12) ha hset (fun hraw => ?_) fun _ => hpages
    change size.toNat + 4096 + 8 + 47 < 2 ^ 64
    by_contra hwrap
    refine hraw ?_
    obtain ⟨h, hh, hnone, -⟩ | ⟨h, raw, hh, -⟩ := heapAllocAligned_cases ha
    · exact hnone
    · have hnone := (hI.wrapped_none_iff hh hfits (by omega)).2 (by
        rcases hok with hok | ⟨hok, -⟩ | ⟨-, hok⟩
        · omega
        · omega
        · exact hok)
      exact absurd hnone (Option.some_ne_none raw)
  · rw [if_neg hpages] at ha ⊢
    cases ha
    refine hI.allocPage hpages hset fun hne => ?_
    by_contra hbig
    rcases hok with hok | ⟨-, hok⟩ | ⟨hok, -⟩
    · omega
    · refine hne ?_
      rw [mempoolAlloc, if_neg (not_not.2 hok)]
    · omega

/-- **Every call keeps the invariant**, with the condition on `dma_alloc`. -/
theorem step (hI : DmaInv cfg s) {e : DmaEvent} (hok : DmaOk s e) (hs : dmaStep cfg s e s') :
    DmaInv cfg s' := by
  obtain ⟨k', plain', regions'⟩ := s'
  cases e with
  | alloc size =>
    obtain ⟨fuel, h, p, ha, hset, rfl, rfl⟩ := hs
    obtain ⟨⟨bs, hH⟩, hpool, hregions, -⟩ := hI.allocate ha (fun _ _ => rfl) hset
    exact ⟨⟨bs, hH.perm (by rw [DmaState.heapUse, List.append_assoc])⟩, hpool, hregions⟩
  | free ptr =>
    obtain ⟨hp, fuel, h, hf, hset, rfl, rfl⟩ := hs
    exact hI.free hp hf hset
  | allocAligned size alignment =>
    obtain ⟨⟨i, hi⟩, hlt, fuel, k, p, ha, hset, rfl, rfl⟩ := hs
    rw [hi] at ha hlt ⊢
    exact hI.allocAligned ha hset (fun _ => hlt) (by rintro ⟨⟩)
  | freeAligned ptr =>
    obtain ⟨fuel, k, hf, hset, rfl, ⟨rfl, rfl⟩ | ⟨q, hq, rfl, hdma, rfl⟩⟩ := hs
    · rw [heapFreeAligned, if_pos rfl] at hf
      cases hf
      exact hI.idle hset
    · have hraw : q.raw ≠ none := fun hnone => by
        have := ((hI.regions q hq).page hnone).2
        rw [hdma] at this
        cases this
      exact hI.giveBack hq (hI.heapFreeAligned_eq hq hraw fuel ▸ hf) hset
  | dmaAlloc size =>
    obtain ⟨fuel, k, p, ha, hset, rfl, rfl⟩ := hs
    exact hI.dmaAlloc hok ha hset
  | dmaFree ptr size =>
    obtain ⟨fuel, k, hf, hset, rfl, ⟨rfl, rfl⟩ | ⟨q, hq, rfl, ⟨hdma, hsize⟩, rfl⟩⟩ := hs
    · rw [Gracemont.dmaFree] at hf
      split_ifs at hf
      · rw [heapFreeAligned, if_pos rfl] at hf
        cases hf
        exact hI.idle hset
      · rw [dmaPoolFree, mempoolFree, if_pos rfl] at hf
        cases hf
        exact hI.idle hset
    · rw [← hsize] at hf
      exact hI.giveBack hq (hI.dmaFree_eq hq hdma fuel ▸ hf) hset
  | write a v =>
    obtain ⟨ha, hset, rfl, rfl⟩ := hs
    exact hI.write ha hset

/-- Two regions do not overlap: they are in two blocks, in two pages, or in a block and a
    page. -/
theorem disjoint (hI : DmaInv cfg s) {q q' : Region} (hq : q ∈ s.regions) (hq' : q' ∈ s.regions)
    (hraws : ∀ a, q.raw = some a → ∀ b, q'.raw = some b → a ≠ b)
    (hpages : q.raw = none → q'.raw = none → q.ptr ≠ q'.ptr) : Disjoint q.bytes q'.bytes := by
  obtain ⟨bs, hH⟩ := hI.heap
  have hapart := cfg.apart
  refine Set.disjoint_left.2 fun a ha ha' => ?_
  rcases hraw : q.raw with _ | raw <;> rcases hraw' : q'.raw with _ | raw'
  · have h1 := ((hI.regions q hq).page hraw).1
    have h2 := ((hI.regions q' hq').page hraw').1
    have hblocks := MempoolConfig.block_apart (hI.mem_blocks hq hraw) (hI.mem_blocks hq' hraw')
      (hpages hraw hraw')
    change q.ptr + 4096 ≤ q'.ptr ∨ q'.ptr + 4096 ≤ q.ptr at hblocks
    obtain ⟨h3, h4⟩ := ha
    obtain ⟨h5, h6⟩ := ha'
    omega
  · have h1 := ((hI.regions q hq).page hraw).1
    have hle := hI.page_le hq hraw
    have hin := hI.region_le hq' (hraw' ▸ Option.some_ne_none raw') ha'
    obtain ⟨h3, h4⟩ := ha
    omega
  · have h1 := ((hI.regions q' hq').page hraw').1
    have hle := hI.page_le hq' hraw'
    have hin := hI.region_le hq (hraw ▸ Option.some_ne_none raw) ha
    obtain ⟨h3, h4⟩ := ha'
    omega
  · have hdisj := hH.disjoint (DmaState.mem_live hq hraw) (DmaState.mem_live hq' hraw')
      (hraws raw hraw raw' hraw')
    exact Set.disjoint_left.1 hdisj ((hI.regions q hq).mem_payload hraw ha)
      ((hI.regions q' hq').mem_payload hraw' ha')

/-- **The invariant gives safety.** -/
theorem safe (hI : DmaInv cfg s) : DmaSafe cfg s := by
  obtain ⟨bs, hH⟩ := hI.heap
  refine ⟨fun q hq => ?_, ?_, fun q hq p hp => Set.disjoint_left.2 fun a ha ha' => ?_, bs, hH⟩
  · have hok := hI.regions q hq
    refine ⟨hok.aligned, fun raw hraw => ?_, fun hraw => ⟨hI.mem_blocks hq hraw, (hok.page hraw).1⟩,
      fun hdma => ?_, hI.dmaFree_eq hq, ?_⟩
    · obtain ⟨hle, hin, -⟩ := hok.block raw hraw
      exact ⟨hle, hin⟩
    · refine hI.heapFreeAligned_eq hq fun hraw => ?_
      have := (hok.page hraw).2
      rw [hdma] at this
      cases this
    · rcases hraw : q.raw with _ | raw
      · exact ⟨0, dmaPoolFree s.k q.ptr, by rw [Region.release, hraw]⟩
      · have hlive : ∀ p, some raw = some p → p ∈ s.heapUse.live := by
          rintro p ⟨⟩
          exact DmaState.mem_live hq hraw
        obtain ⟨fuel, h, hf⟩ := heapFree_returns hH hlive
        refine ⟨fuel, { s.k with heap := h }, ?_⟩
        rw [Region.release, hraw]
        exact congrArg (Option.map _) hf
  · have hraws := List.pairwise_filterMap.1 (List.nodup_append.1 hH.nodup).2.1
    obtain ⟨free, -, hsplit⟩ := hI.pool.chain
    have hpages := List.pairwise_filter.1 (List.pairwise_map.1 hsplit.nodup_used)
    refine (hraws.and hpages).imp_of_mem fun hq hq' h => hI.disjoint hq hq' h.1 fun h1 h2 => ?_
    exact h.2 (by simpa using h1) (by simpa using h2)
  · by_cases hraw : q.raw = none
    · have h1 := ((hI.regions q hq).page hraw).1
      have hle := hI.page_le hq hraw
      have hin := hH.payload_le (List.mem_append_left _ hp) ha'
      have hapart := cfg.apart
      obtain ⟨h3, h4⟩ := ha
      change cfg.heapMemory ≤ a ∧ a < cfg.heapMemory + cfg.heapSize at hin
      omega
    · obtain ⟨raw, hraw⟩ := Option.ne_none_iff_exists'.1 hraw
      have hin := (hI.regions q hq).mem_payload hraw ha
      have hdisj := hH.disjoint (List.mem_append_left _ hp) (DmaState.mem_live hq hraw)
        (DmaState.plain_ne hH.nodup hp hq hraw)
      exact Set.disjoint_left.1 hdisj ha' hin

end DmaInv

namespace DmaInv

/-- **The condition is exact** for a call. -/
theorem dmaAlloc_safe_iff (hI : DmaInv cfg s) (size : BitVec 64) :
    (∀ s', dmaStep cfg s (.dmaAlloc size) s' → DmaSafe cfg s') ↔ DmaOk s (.dmaAlloc size) := by
  refine ⟨fun h => ?_, fun hok s' hs => (hI.step hok hs).safe⟩
  by_contra hnot
  change ¬ (_ ∨ _ ∨ _) at hnot
  obtain ⟨hwrap, hnot⟩ := not_or.1 hnot
  obtain ⟨hpool, hheap⟩ := not_or.1 hnot
  have hlt := size.isLt
  have hiff := dmaPages_iff hlt
  by_cases hpages : 1 < dmaPages size.toNat
  · -- the block is too small
    obtain ⟨hbig, hfits⟩ := hiff.1 hpages
    obtain ⟨bs, hH⟩ := hI.heap
    obtain ⟨fuel, ⟨h', p⟩, hh⟩ := heapAlloc_returns hH.blocks (alignedTotal size.toNat 4096)
    rcases p with _ | raw
    · exact hheap ⟨hfits, (hI.wrapped_none_iff hh hfits (by omega)).1 rfl⟩
    obtain ⟨⟨bs', hH', -⟩, -⟩ := hH.alloc hh
    have hh' : heapAlloc fuel s.k.heap (alignedTotal size.toNat (raiseAlignment 4096)) = _ := hh
    obtain ⟨ha, hraw⟩ := heapAllocAligned_eq hh'
    have hcall : Gracemont.dmaAlloc fuel s.k size.toNat = _ := (if_pos hpages).trans ha
    have hsafe := h ⟨_, s.plain, s.handOut _⟩ ⟨fuel, _, _, hcall, .refl s.k _, rfl, rfl⟩
    rw [DmaState.handOut, if_pos hpages, hraw] at hsafe
    by_cases hp0 : alignedAddress raw (raiseAlignment 4096) = 0
    · -- `NULL` is returned, and the block is lost
      rw [if_pos hp0] at hsafe
      obtain ⟨bs'', hH''⟩ := hsafe.blocks
      have hlive := (hH'.live_iff hH'' raw).1 List.mem_cons_self
      exact (List.nodup_cons.1 hH'.nodup).1 hlive
    · rw [if_neg hp0] at hsafe
      obtain ⟨hle, hin⟩ := (hsafe.regions _ List.mem_cons_self).block raw rfl
      dsimp only at hle hin
      have h1 := hH'.payload_le List.mem_cons_self (hin _ (Nat.sub_le _ 8) (by omega))
      have h2 := hH'.payload_le List.mem_cons_self
        (hin (alignedAddress raw (raiseAlignment 4096) + (size.toNat - 1)) (by omega) (by omega))
      have hsize := cfg.size_lt
      omega
  · -- the page is too short
    have hfree : s.k.pool.freeList ≠ 0 := fun h0 => hpool ⟨by omega, h0⟩
    have hm : mempoolAlloc s.k.mem s.k.pool =
        ({ s.k.pool with freeList := loadPtr s.k.mem s.k.pool.freeList }, s.k.pool.freeList) :=
      if_pos hfree
    have ha : Gracemont.dmaAlloc 0 s.k size.toNat =
        some ({ s.k with pool := (mempoolAlloc s.k.mem s.k.pool).1 }, s.k.pool.freeList) := by
      rw [Gracemont.dmaAlloc, if_neg hpages, hm]
    have hsafe := h ⟨_, s.plain, s.handOut _⟩ ⟨0, _, _, ha, .refl s.k _, rfl, rfl⟩
    rw [DmaState.handOut, if_neg hpages, if_neg hfree] at hsafe
    have hsize := ((hsafe.regions _ List.mem_cons_self).page rfl).2
    dsimp only at hsize
    omega

end DmaInv

/-- **Aligned and DMA allocation**: in all runs in which the calls of `dma_alloc` meet the
    condition, every region is aligned, held, apart from the others, and given back to the
    allocator it is from; and the next call of `dma_alloc` keeps it so exactly if it meets
    the condition. -/
theorem dma_regions (cfg : DmaConfig) {tr : List DmaEvent} {s : DmaState}
    (hr : ((dmaLts cfg).restrict DmaOk).Run tr s) :
    DmaSafe cfg s ∧ ∀ size : BitVec 64,
      (∀ s', dmaStep cfg s (.dmaAlloc size) s' → DmaSafe cfg s') ↔ DmaOk s (.dmaAlloc size) := by
  have hI : DmaInv cfg s := by
    refine hr.rule (P := fun _ s => DmaInv cfg s) ?_ ?_
    · rintro s ⟨⟨headers, mem, hk⟩, hplain, hregions⟩
      exact .start hk hplain hregions
    · rintro tr s e s' hI ⟨hok, hs⟩
      exact hI.step hok hs
  exact ⟨hI.safe, hI.dmaAlloc_safe_iff⟩

/-- The heap of 64 KB at address 0x100000, and a pool of two pages after it. -/
def demoDma : DmaConfig where
  toHeapConfig := demoHeap
  dmaPool := 0x110000
  dmaPoolSize := 0x2000
  pool_aligned := ⟨0x110, rfl⟩
  pool_pos := by decide
  heap_le := by decide
  pool_le := by decide
  apart := .inl (by decide)

/-- The state at the start. -/
def demoDmaStart : DmaState :=
  ⟨dmaPoolInit demoDma ⟨heapInit demoHeap fun _ => ⟨0, false, none, none⟩, ⟨fun _ => 0, []⟩,
    ⟨0, 0, 0, 0⟩⟩, [], []⟩

/-- The state after the first page was returned for `size` bytes. -/
def demoDmaPage (size : ℕ) : DmaState :=
  ⟨{ demoDmaStart.k with pool := (mempoolAlloc demoDmaStart.k.mem demoDmaStart.k.pool).1 }, [],
    [⟨0x110000, size, 4096, none, true⟩]⟩

/-- The calls `dma_alloc(100)` and `dma_alloc(5000)`. -/
theorem dma_regions_two : ∃ s, s.regions.map Region.size = [5000, 100] ∧ DmaSafe demoDma s := by
  have h0 : ((dmaLts demoDma).restrict DmaOk).Run [] demoDmaStart :=
    .start ⟨⟨_, _, rfl⟩, rfl, rfl⟩
  have h1 : ((dmaLts demoDma).restrict DmaOk).Run [.dmaAlloc 100] (demoDmaPage 100) := h0.snoc
    ⟨.inl (by decide), 0, _, _, if_neg (by decide), .refl _ _, rfl, by decide⟩
  obtain ⟨h, hh⟩ : ∃ h, heapAlloc 2 (demoDmaPage 100).k.heap
      (alignedTotal 5000 (raiseAlignment 4096)) = some (h, some 0x100020) := ⟨_, rfl⟩
  have hcall := (heapAllocAligned_eq hh).1
  have h2 : ((dmaLts demoDma).restrict DmaOk).Run [.dmaAlloc 100, .dmaAlloc 5000]
      ⟨_, [], _⟩ := h1.snoc
    ⟨.inl (by decide), 2, _, _, (if_pos (by decide)).trans hcall, .refl _ _, rfl, by rfl⟩
  exact ⟨_, rfl, (dma_regions demoDma h2).1⟩

/-- The first page is returned for `dma_alloc(SIZE_MAX)`. -/
theorem demoDma_wraps : ∃ s, (dmaLts demoDma).Run [.dmaAlloc (BitVec.ofNat 64 (2 ^ 64 - 1))] s ∧
    ¬ DmaSafe demoDma s := by
  have h0 : (dmaLts demoDma).Run [] demoDmaStart := .start ⟨⟨_, _, rfl⟩, rfl, rfl⟩
  have h1 : (dmaLts demoDma).Run [.dmaAlloc (BitVec.ofNat 64 (2 ^ 64 - 1))]
      (demoDmaPage (2 ^ 64 - 1)) := h0.snoc
    ⟨0, _, _, if_neg (by decide), .refl _ _, rfl, by decide⟩
  refine ⟨_, h1, fun hsafe => ?_⟩
  have hsize := ((hsafe.regions _ List.mem_cons_self).page rfl).2
  exact absurd hsize (by decide)

end Gracemont
