/-
  Gracemont kernel — the region of a memory pool (`kernel/memory.c`, the same in both
  ports).

  `mempool_init` rounds the block size up to 16 bytes, and puts the blocks that far
  apart; the caller has set aside `blockCount` times the size it asked for.

  * `PoolRegion`, `regionLts`: a pool of any block size in use;
  * `RegionSafe`: nothing but the region is written, and the blocks are inside of it;
  * `mempool_region_iff`: so it is for the multiples of 16, and for a single block that
    can hold a pointer.
-/
import Gracemont.Kernel.Mempool

namespace Gracemont

open Lib

/-- A region for `mempool_init`: as many bytes as the blocks that are asked for. -/
structure PoolRegion where
  base : ℕ
  blockSize : ℕ
  blockCount : ℕ
  base_pos : 0 < base
  size_pos : 1 ≤ blockSize
  count_pos : 1 ≤ blockCount
  fits : base + blockCount * blockSize ≤ 2 ^ 64

namespace PoolRegion
variable (r : PoolRegion)

/-- The end of the region. -/
def limit : ℕ := r.base + r.blockCount * r.blockSize

/-- How far apart the blocks are. -/
def stride : ℕ := (r.blockSize + 15) % 2 ^ 64 / 16 * 16

/-- A caller writes inside of the blocks that are handed out, or outside of the
    region. -/
def Writable (s : MempoolState) (a : ℕ) : Prop :=
  (∃ b ∈ s.outstanding, b ≤ a ∧ a < b + r.blockSize) ∨ a < r.base ∨ r.limit ≤ a

instance (s : MempoolState) (a : ℕ) : Decidable (r.Writable s a) :=
  inferInstanceAs (Decidable (_ ∨ _))

end PoolRegion

variable (r : PoolRegion)

/-- The steps of a pool: as in `mempoolStep`, for any block size. -/
def regionStep (s : MempoolState) : MempoolEvent → Option MempoolState
  | .alloc =>
    let r := mempoolAlloc s.mem s.pool
    some ⟨s.mem, r.1, if r.2 = 0 then s.outstanding else r.2 :: s.outstanding⟩
  | .free block =>
    if block = 0 ∨ block ∈ s.outstanding then
      let r := mempoolFree s.mem s.pool block
      some ⟨r.1, r.2, s.outstanding.erase block⟩
    else none
  | .write a v => if r.Writable s a then some { s with mem := s.mem.set a v } else none

/-- The runs of the pool after `mempool_init`. -/
def regionLts : Lts MempoolState MempoolEvent :=
  .ofFun (fun s => s.outstanding = [] ∧ ∃ mem,
    mempoolInit mem r.base r.blockSize r.blockCount = some (s.mem, s.pool)) (regionStep r)

/-- `mempool_init` and all calls after it write inside of the region only, and return
    blocks that are inside of it. -/
structure RegionSafe : Prop where
  init : ∀ mem mem' pool, mempoolInit mem r.base r.blockSize r.blockCount = some (mem', pool) →
    ByteMem.Within r.base r.limit mem mem'
  free : ∀ tr s, (regionLts r).Run tr s → ∀ block ∈ s.outstanding,
    ByteMem.Within r.base r.limit s.mem (mempoolFree s.mem s.pool block).1
  alloc : ∀ tr s, (regionLts r).Run tr s → (mempoolAlloc s.mem s.pool).2 ≠ 0 →
    r.base ≤ (mempoolAlloc s.mem s.pool).2 ∧ (mempoolAlloc s.mem s.pool).2 + r.blockSize ≤ r.limit

/-! ## Initialization -/

variable {r} {mem mem' : ByteMem} {pool : Mempool} {s : MempoolState}

theorem within_storePtr_iff {lo hi a p : ℕ} :
    ByteMem.Within lo hi mem (storePtr mem a p) ↔ lo ≤ a ∧ a + 8 ≤ hi := by
  have hne : leBytes 8 p ≠ [] := List.ne_nil_of_length_pos (by rw [leBytes_length]; decide)
  rw [storePtr, ByteMem.within_putBytes_iff hne, leBytes_length]

theorem linkBlocks_within {blockSize n lo hi block : ℕ} (hlo : lo ≤ block)
    (hhi : block + n * blockSize + 8 ≤ hi) :
    ByteMem.Within lo hi mem (linkBlocks blockSize mem block n) := by
  induction n generalizing mem block with
  | zero => exact within_storePtr_iff.2 ⟨hlo, by omega⟩
  | succ n ih =>
    rw [Nat.succ_mul] at hhi
    exact (within_storePtr_iff.2 ⟨hlo, by omega⟩).trans (ih (by omega) (by omega))

/-- The loop writes the link of the last block. -/
theorem linkBlocks_written (mem : ByteMem) (blockSize n block : ℕ) :
    ∃ ws, (linkBlocks blockSize mem block n).written = ws ++ mem.written ∧
      ∀ i < 8, block + n * blockSize + i ∈ ws := by
  induction n generalizing mem block with
  | zero =>
    refine ⟨_, ByteMem.putBytes_written .., fun i hi => ?_⟩
    rw [leBytes_length, List.mem_reverse, List.mem_range'_1]
    omega
  | succ n ih =>
    obtain ⟨ws, hws, hmem⟩ := ih (storePtr mem block (block + blockSize)) (block + blockSize)
    obtain ⟨ws₀, hws₀⟩ : ∃ ws₀, (storePtr mem block (block + blockSize)).written =
        ws₀ ++ mem.written := ⟨_, ByteMem.putBytes_written ..⟩
    refine ⟨ws ++ ws₀, by rw [linkBlocks, hws, hws₀, List.append_assoc], fun i hi => ?_⟩
    refine List.mem_append_left _ ?_
    have := hmem i hi
    rwa [Nat.add_assoc block, Nat.add_comm blockSize, ← Nat.succ_mul] at this

theorem linkBlocks_within_iff {blockSize n lo hi block : ℕ} (hlo : lo ≤ block) :
    ByteMem.Within lo hi mem (linkBlocks blockSize mem block n) ↔
      block + n * blockSize + 8 ≤ hi := by
  refine ⟨fun h => ?_, linkBlocks_within hlo⟩
  obtain ⟨ws, hws, hin⟩ := h.log
  obtain ⟨ws', hws', hmem⟩ := linkBlocks_written mem blockSize n block
  obtain rfl := List.append_cancel_right (hws.symm.trans hws')
  have := (hin _ (hmem 7 (by decide))).2
  omega

theorem PoolRegion.le_limit (r : PoolRegion) {n : ℕ} (hn : n ≤ r.blockCount) :
    n * r.blockSize ≤ r.limit :=
  Nat.le_trans (Nat.mul_le_mul_right _ hn) (Nat.le_add_left ..)

/-- With two blocks the rounding does not wrap. -/
theorem PoolRegion.stride_eq (r : PoolRegion) (h : 2 ≤ r.blockCount) :
    r.stride = (r.blockSize + 15) / 16 * 16 := by
  have hfits : r.limit ≤ 2 ^ 64 := r.fits
  have htwo := r.le_limit h
  have hlt : r.blockSize + 15 < 2 ^ 64 := by omega
  rw [PoolRegion.stride, Nat.mod_eq_of_lt hlt]

/-- What `mempool_init` does. -/
theorem PoolRegion.init_eq (r : PoolRegion) (mem : ByteMem) :
    mempoolInit mem r.base r.blockSize r.blockCount =
      some (linkBlocks r.stride mem r.base (r.blockCount - 1),
        ⟨r.base, r.stride, r.blockCount, r.base⟩) := by
  have hbase := r.base_pos
  have hsize := r.size_pos
  have hcount := r.count_pos
  rw [mempoolInit, if_neg (by omega)]
  rfl

/-! ## Block sizes that are right -/

/-- With a multiple of 16 the blocks are where the caller put them. -/
def PoolRegion.config (r : PoolRegion) (h : 16 ∣ r.blockSize) : MempoolConfig :=
  ⟨r.base, r.blockSize, r.blockCount, h, r.fits⟩

theorem regionLts_aligned (h : 16 ∣ r.blockSize) {tr : List MempoolEvent}
    (hr : (regionLts r).Run tr s) : (mempoolLts (r.config h)).Run tr s := by
  refine Lts.Run.mono ?_ ?_ hr
  · exact fun _ h0 => h0
  · intro s e s' hs
    cases e with
    | alloc => exact hs
    | free block => exact hs
    | write a v => exact hs

theorem mempoolFree_within {lo hi block : ℕ} (h : block ≠ 0 → lo ≤ block ∧ block + 8 ≤ hi) :
    ByteMem.Within lo hi s.mem (mempoolFree s.mem s.pool block).1 := by
  rw [mempoolFree]
  by_cases hnull : block = 0
  · rw [if_pos hnull]
    exact .refl ..
  · rw [if_neg hnull]
    exact within_storePtr_iff.2 (h hnull)

theorem regionSafe_of_aligned (h : 16 ∣ r.blockSize) : RegionSafe r := by
  have hsize := r.size_pos
  have hle : 16 ≤ r.blockSize := (r.config h).size_le hsize
  have hinv : ∀ {tr s}, (regionLts r).Run tr s → MempoolInv (r.config h) s := by
    intro tr s hr
    refine (regionLts_aligned h hr).rule (P := fun _ s => MempoolInv (r.config h) s) ?_ ?_
    · rintro s ⟨h0, mem, hinit⟩
      exact mempoolInit_inv h0 hinit
    · intro tr s e s' hs he
      exact mempoolStep_inv hs he
  have hblock : ∀ {b}, b ∈ (r.config h).blocks → r.base ≤ b ∧ b + r.blockSize ≤ r.limit :=
    fun hb => MempoolConfig.block_le hb
  constructor
  · intro mem mem' pool hinit
    rw [r.init_eq] at hinit
    obtain ⟨rfl, -⟩ := Prod.mk.inj (Option.some.inj hinit)
    have hstride : r.stride = r.blockSize := by
      have hbase := r.base_pos
      have hfits : r.base + r.blockCount * r.blockSize ≤ 2 ^ 64 := r.fits
      have hone : r.blockSize ≤ r.blockCount * r.blockSize :=
        Nat.le_mul_of_pos_left _ r.count_pos
      unfold PoolRegion.stride
      omega
    obtain ⟨n, hn⟩ : ∃ n, r.blockCount = n + 1 := ⟨r.blockCount - 1, by have := r.count_pos; omega⟩
    refine linkBlocks_within (Nat.le_refl _) ?_
    rw [hstride, PoolRegion.limit, hn, Nat.add_sub_cancel, Nat.succ_mul]
    omega
  · intro tr s hr block hb
    obtain ⟨free, -, hsplit⟩ := (hinv hr).chain
    have := hblock (hsplit.mem_used hb)
    exact mempoolFree_within fun _ => by omega
  · intro tr s hr hne
    obtain ⟨i, hi, heq⟩ := ((hinv hr).safe.alloc hne).1
    exact hblock (MempoolConfig.mem_blocks.2 ⟨i, hi, heq⟩)

/-- The one block of a pool is free, or handed out. -/
def OneBlock (r : PoolRegion) (s : MempoolState) : Prop :=
  (s.pool.freeList = r.base ∧ loadPtr s.mem r.base = 0 ∧ s.outstanding = []) ∨
    (s.pool.freeList = 0 ∧ s.outstanding = [r.base])

theorem oneBlock_step (h8 : 8 ≤ r.blockSize) {s s' : MempoolState}
    {e : MempoolEvent} (h : OneBlock r s) (hs : regionStep r s e = some s') : OneBlock r s' := by
  have hbase : r.base ≠ 0 := Nat.pos_iff_ne_zero.1 r.base_pos
  cases e with
  | alloc =>
    cases hs
    obtain ⟨hfree, hlink, hout⟩ | ⟨hfree, hout⟩ := h
    · refine .inr ?_
      simp only [mempoolAlloc, hfree, if_pos hbase, hlink, hout, if_neg hbase, and_self]
    · refine .inr ?_
      simp only [mempoolAlloc, hfree, ne_eq, not_true_eq_false, if_false, if_true, hout, and_self]
  | free block =>
    rw [regionStep] at hs
    split at hs
    · rename_i hguard
      cases hs
      by_cases hnull : block = 0
      · rw [mempoolFree, if_pos hnull, List.erase_of_not_mem]
        · exact h
        · obtain ⟨-, -, hout⟩ | ⟨-, hout⟩ := h
          · rw [hout]
            exact List.not_mem_nil
          · rw [hout, List.mem_singleton]
            omega
      · obtain ⟨-, -, hout⟩ | ⟨hfree, hout⟩ := h
        · rw [hout] at hguard
          exact absurd (hguard.resolve_left hnull) List.not_mem_nil
        · have hblock := hguard.resolve_left hnull
          rw [hout, List.mem_singleton] at hblock
          subst hblock
          rw [mempoolFree, if_neg hnull, hfree, hout, List.erase_cons_head]
          exact .inl ⟨rfl, loadPtr_storePtr (by decide) .., rfl⟩
    · cases hs
  | write a v =>
    rw [regionStep] at hs
    split at hs
    · rename_i ha
      cases hs
      obtain ⟨hfree, hlink, hout⟩ | hused := h
      · refine .inl ⟨hfree, ?_, hout⟩
        rw [← hlink]
        refine loadPtr_congr fun i hi => ByteMem.set_byte_of_ne _ _ ?_
        have hlimit : r.base + r.blockSize ≤ r.limit :=
          Nat.add_le_add_left (Nat.le_mul_of_pos_left _ r.count_pos) _
        rcases ha with ⟨b, hb, -⟩ | ha
        · rw [hout] at hb
          cases hb
        · omega
      · exact .inr hused
    · cases hs

theorem regionSafe_of_single (h1 : r.blockCount = 1) (h8 : 8 ≤ r.blockSize) : RegionSafe r := by
  have hlimit : r.limit = r.base + r.blockSize := by rw [PoolRegion.limit, h1, Nat.one_mul]
  have hinv : ∀ {tr s}, (regionLts r).Run tr s → OneBlock r s := by
    intro tr s hr
    refine hr.rule (P := fun _ s => OneBlock r s) ?_ fun tr s e s' hs he => oneBlock_step h8 hs he
    rintro s ⟨h0, mem, hinit⟩
    rw [r.init_eq, h1] at hinit
    obtain ⟨hmem, hpool⟩ := Prod.mk.inj (Option.some.inj hinit)
    refine .inl ⟨by rw [← hpool], ?_, h0⟩
    rw [← hmem]
    exact loadPtr_storePtr (by decide) ..
  constructor
  · intro mem mem' pool hinit
    rw [r.init_eq, h1] at hinit
    obtain ⟨rfl, -⟩ := Prod.mk.inj (Option.some.inj hinit)
    exact linkBlocks_within (Nat.le_refl _) (by omega)
  · intro tr s hr block hb
    obtain ⟨-, -, hout⟩ | ⟨-, hout⟩ := hinv hr
    · rw [hout] at hb
      cases hb
    · rw [hout, List.mem_singleton] at hb
      exact mempoolFree_within fun _ => by omega
  · intro tr s hr hne
    obtain ⟨hfree, -, -⟩ | ⟨hfree, -⟩ := hinv hr
    · rw [mempoolAlloc, hfree, if_pos (Nat.pos_iff_ne_zero.1 r.base_pos)]
      exact ⟨Nat.le_refl _, Nat.le_of_eq hlimit.symm⟩
    · rw [mempoolAlloc, hfree] at hne
      exact absurd rfl hne

/-! ## Block sizes that are rounded up -/

/-- Allocations until the last block of the chain is at its head. -/
theorem run_allocs {tr : List MempoolEvent} {l : List ℕ} {x : ℕ} (hr : (regionLts r).Run tr s)
    (h : Threaded (loadPtr s.mem) 0 s.pool.freeList (l ++ [x])) :
    ∃ tr s', (regionLts r).Run tr s' ∧ (mempoolAlloc s'.mem s'.pool).2 = x ∧ x ≠ 0 := by
  induction l generalizing tr s with
  | nil =>
    obtain ⟨hhead, hne, -⟩ := h
    refine ⟨tr, s, hr, ?_, hne⟩
    rw [mempoolAlloc, if_pos (hhead ▸ hne)]
    exact hhead
  | cons y l ih =>
    obtain ⟨hhead, hne, hrest⟩ := h
    have hstep : (regionLts r).step s .alloc
        ⟨s.mem, { s.pool with freeList := loadPtr s.mem y }, y :: s.outstanding⟩ := by
      have halloc : mempoolAlloc s.mem s.pool = ({ s.pool with freeList := loadPtr s.mem y }, y) := by
        rw [mempoolAlloc, hhead, if_pos hne]
      change regionStep r s .alloc = _
      rw [regionStep, halloc]
      dsimp only
      rw [if_neg hne]
    exact ih (hr.snoc hstep) hrest

/-- If `mempool_init` stays inside of the region and two blocks are apart by more than
    their size, the last one ends outside. -/
theorem RegionSafe.aligned (h : RegionSafe r) (h2 : 2 ≤ r.blockCount) : 16 ∣ r.blockSize := by
  obtain ⟨n, hn⟩ : ∃ n, r.blockCount = n + 1 := ⟨r.blockCount - 1, by omega⟩
  have hinit := r.init_eq ⟨fun _ => 0, []⟩
  rw [hn, Nat.add_sub_cancel] at hinit
  have hwithin : r.base + n * r.stride + 8 ≤ r.limit :=
    (linkBlocks_within_iff (Nat.le_refl _)).1 (h.init _ _ _ (by rw [hn]; exact hinit))
  have hfits : r.limit ≤ 2 ^ 64 := r.fits
  have hround := r.stride_eq h2
  have hstride : 8 ≤ r.stride := by
    have := r.size_pos
    omega
  have hthread : Threaded (loadPtr (linkBlocks r.stride ⟨fun _ => 0, []⟩ r.base n)) 0 r.base _ :=
    linkBlocks_threaded hstride r.base_pos (by omega)
  rw [List.range_succ, List.map_append, List.map_singleton] at hthread
  have hstart : (regionLts r).Run [] ⟨linkBlocks r.stride ⟨fun _ => 0, []⟩ r.base n,
      ⟨r.base, r.stride, n + 1, r.base⟩, []⟩ :=
    .start ⟨rfl, _, by rw [hn]; exact hinit⟩
  obtain ⟨tr, s, hr, hlast, hne⟩ := run_allocs hstart hthread
  have hend := (h.alloc tr s hr (hlast ▸ hne)).2
  rw [hlast, PoolRegion.limit, hn, Nat.succ_mul] at hend
  -- so the blocks are no further apart than their size
  have hle : n * r.stride ≤ n * r.blockSize := by omega
  have hsize := Nat.le_of_mul_le_mul_left hle (by omega)
  omega

/-- **The region of a pool**, for every region: the pool stays inside of it exactly if
    the block size is a multiple of 16, or there is one block that can hold a pointer. -/
theorem mempool_region_iff (r : PoolRegion) :
    RegionSafe r ↔ 16 ∣ r.blockSize ∨ (r.blockCount = 1 ∧ 8 ≤ r.blockSize) := by
  constructor
  · intro h
    by_cases h1 : r.blockCount = 1
    · refine .inr ⟨h1, ?_⟩
      have hinit := r.init_eq ⟨fun _ => 0, []⟩
      have hwithin := (linkBlocks_within_iff (Nat.le_refl _)).1 (h.init _ _ _ hinit)
      rw [PoolRegion.limit, h1] at hwithin
      omega
    · have := r.count_pos
      exact .inl (h.aligned (by omega))
  · rintro (h | ⟨h1, h8⟩)
    · exact regionSafe_of_aligned h
    · exact regionSafe_of_single h1 h8

/-- Two blocks of 24 bytes. -/
def demoRegion : PoolRegion := ⟨0x1000, 24, 2, by decide, by decide, by decide, by decide⟩

/-- The second block is returned at 0x1020, and the region ends at 0x1030. -/
theorem demoRegion_overruns : ¬ RegionSafe demoRegion := by
  intro h
  have := h.aligned (by decide)
  revert this
  decide

end Gracemont
