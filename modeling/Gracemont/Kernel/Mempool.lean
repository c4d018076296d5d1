/-
  Gracemont kernel — memory pools (`kernel/memory.c`, the same in both ports).

  A pool divides a region into blocks; the first word of a free block points to
  the next one.  Addresses are numbers below `2 ^ 64`, with `0` for `NULL`, and
  a pointer in memory is eight bytes, the lowest first.

  * `mempoolInit`, `mempoolAlloc`, `mempoolFree`: the API;
  * `mempoolLts`: a pool in use, by callers who free what they hold and write
    anything but the free blocks;
  * `mempool_safe`: the free blocks are chained, and apart from those handed
    out; `mempoolAlloc` returns one of the first, unless there is none.
-/
import Mathlib.Data.List.Perm.Subperm
import Gracemont.Lib.FreeList
import Gracemont.Lib.Scan
import Gracemont.Lib.Trace

namespace Gracemont

open Lib

/-! ## The pool -/

/-- `*(void **)a` -/
def loadPtr (mem : ByteMem) (a : ℕ) : ℕ := ofLe (mem.read a 8)

/-- `*(void **)a = p` -/
def storePtr (mem : ByteMem) (a p : ℕ) : ByteMem := mem.putBytes a (leBytes 8 p)

/-- `mempool_t` -/
structure Mempool where
  base : ℕ
  blockSize : ℕ
  blockCount : ℕ
  freeList : ℕ
  deriving DecidableEq, Repr

/-- The loop of `mempool_init`: `n` more blocks after `block`. -/
def linkBlocks (blockSize : ℕ) : ByteMem → ℕ → ℕ → ByteMem
  | mem, block, 0 => storePtr mem block 0
  | mem, block, n + 1 =>
    linkBlocks blockSize (storePtr mem block (block + blockSize)) (block + blockSize) n

/-- `mempool_init`: the memory and the pool, unless the arguments are invalid. -/
def mempoolInit (mem : ByteMem) (base blockSize blockCount : ℕ) : Option (ByteMem × Mempool) :=
  if base = 0 ∨ blockSize = 0 ∨ blockCount = 0 then none
  else
    -- `(block_size + 15) & ~15`
    let blockSize := (blockSize + 15) % 2 ^ 64 / 16 * 16
    some (linkBlocks blockSize mem base (blockCount - 1), ⟨base, blockSize, blockCount, base⟩)

/-- `mempool_alloc`: the pool and the block. -/
def mempoolAlloc (mem : ByteMem) (pool : Mempool) : Mempool × ℕ :=
  if pool.freeList ≠ 0 then ({ pool with freeList := loadPtr mem pool.freeList }, pool.freeList)
  else (pool, 0)

/-- `mempool_free` -/
def mempoolFree (mem : ByteMem) (pool : Mempool) (block : ℕ) : ByteMem × Mempool :=
  if block = 0 then (mem, pool)
  else (storePtr mem block pool.freeList, { pool with freeList := block })

/-! ## A pool in use -/

/-- The arguments of `mempool_init`, for a region inside the address space. -/
structure MempoolConfig where
  base : ℕ
  blockSize : ℕ
  blockCount : ℕ
  aligned : 16 ∣ blockSize
  fits : base + blockCount * blockSize ≤ 2 ^ 64

namespace MempoolConfig
variable (cfg : MempoolConfig)

/-- The address of a block. -/
def block (i : ℕ) : ℕ := cfg.base + i * cfg.blockSize

/-- All blocks of the region. -/
def blocks : List ℕ := (List.range cfg.blockCount).map cfg.block

end MempoolConfig

/-- The memory, the pool, and the blocks that were handed out and not freed. -/
structure MempoolState where
  mem : ByteMem
  pool : Mempool
  outstanding : List ℕ

inductive MempoolEvent
  | alloc
  | free (block : ℕ)
  /-- somebody writes a byte -/
  | write (a : ℕ) (v : BitVec 8)
  deriving DecidableEq

variable (cfg : MempoolConfig)

/-- A caller may write inside of the blocks that are handed out; what is not in
    the region is not the pool's. -/
def MempoolState.Writable (s : MempoolState) (a : ℕ) : Prop :=
  (∃ b ∈ s.outstanding, b ≤ a ∧ a < b + cfg.blockSize) ∨
    a < cfg.base ∨ cfg.base + cfg.blockCount * cfg.blockSize ≤ a

instance (s : MempoolState) (a : ℕ) : Decidable (s.Writable cfg a) :=
  inferInstanceAs (Decidable (_ ∨ _))

/-- A block is freed only while it is handed out; to free `NULL` does nothing. -/
def mempoolStep (s : MempoolState) : MempoolEvent → Option MempoolState
  | .alloc =>
    let r := mempoolAlloc s.mem s.pool
    some ⟨s.mem, r.1, if r.2 = 0 then s.outstanding else r.2 :: s.outstanding⟩
  | .free block =>
    if block = 0 ∨ block ∈ s.outstanding then
      let r := mempoolFree s.mem s.pool block
      some ⟨r.1, r.2, s.outstanding.erase block⟩
    else none
  | .write a v => if s.Writable cfg a then some { s with mem := s.mem.set a v } else none

/-- The runs of a pool after `mempool_init`. -/
def mempoolLts : Lts MempoolState MempoolEvent :=
  .ofFun (fun s => s.outstanding = [] ∧ ∃ mem,
    mempoolInit mem cfg.base cfg.blockSize cfg.blockCount = some (s.mem, s.pool)) (mempoolStep cfg)

/-! ## Pointers in memory -/

theorem loadPtr_storePtr {p : ℕ} (hp : p < 2 ^ 64) (mem : ByteMem) (a : ℕ) :
    loadPtr (storePtr mem a p) a = p := by
  have hread : (storePtr mem a p).read a 8 = leBytes 8 p := by
    have h := ByteMem.read_putBytes mem a (leBytes 8 p)
    rwa [leBytes_length] at h
  rw [loadPtr, hread, ofLe_leBytes]
  exact Nat.mod_eq_of_lt hp

/-- A pointer only depends on its own bytes. -/
theorem loadPtr_congr {mem mem' : ByteMem} {a : ℕ}
    (h : ∀ i < 8, mem'.byte (a + i) = mem.byte (a + i)) : loadPtr mem' a = loadPtr mem a := by
  rw [loadPtr, loadPtr, ByteMem.read_congr h]

theorem storePtr_byte {mem : ByteMem} {a p b : ℕ} (h : b < a ∨ a + 8 ≤ b) :
    (storePtr mem a p).byte b = mem.byte b := by
  rcases h with h | h
  · exact ByteMem.putBytes_byte_of_lt _ _ _ h
  · exact ByteMem.putBytes_byte_of_le _ _ _ (by rw [leBytes_length]; exact h)

theorem loadPtr_storePtr_of_apart {mem : ByteMem} {a b p : ℕ} (h : b + 8 ≤ a ∨ a + 8 ≤ b) :
    loadPtr (storePtr mem a p) b = loadPtr mem b :=
  loadPtr_congr fun i hi => storePtr_byte (by omega)

/-! ## The blocks -/

namespace MempoolConfig
variable {cfg}

theorem mem_blocks {b : ℕ} : b ∈ cfg.blocks ↔ ∃ i < cfg.blockCount, b = cfg.block i := by
  rw [blocks, List.mem_map]
  constructor
  · rintro ⟨i, hi, rfl⟩
    exact ⟨i, List.mem_range.1 hi, rfl⟩
  · rintro ⟨i, hi, rfl⟩
    exact ⟨i, List.mem_range.2 hi, rfl⟩

/-- Different blocks do not overlap. -/
theorem block_apart {a b : ℕ} (ha : a ∈ cfg.blocks) (hb : b ∈ cfg.blocks) (h : a ≠ b) :
    a + cfg.blockSize ≤ b ∨ b + cfg.blockSize ≤ a := by
  obtain ⟨i, -, rfl⟩ := mem_blocks.1 ha
  obtain ⟨j, -, rfl⟩ := mem_blocks.1 hb
  unfold block at h ⊢
  rcases Nat.lt_trichotomy i j with hij | rfl | hij
  · have := Nat.mul_le_mul_right cfg.blockSize (Nat.succ_le_of_lt hij)
    rw [Nat.succ_mul] at this
    omega
  · exact absurd rfl h
  · have := Nat.mul_le_mul_right cfg.blockSize (Nat.succ_le_of_lt hij)
    rw [Nat.succ_mul] at this
    omega

/-- Every block is inside of the region. -/
theorem block_le {b : ℕ} (hb : b ∈ cfg.blocks) :
    cfg.base ≤ b ∧ b + cfg.blockSize ≤ cfg.base + cfg.blockCount * cfg.blockSize := by
  obtain ⟨i, hi, rfl⟩ := mem_blocks.1 hb
  have := Nat.mul_le_mul_right cfg.blockSize (Nat.succ_le_of_lt hi)
  rw [Nat.succ_mul] at this
  unfold block
  omega

theorem blocks_nodup (hsize : 0 < cfg.blockSize) : cfg.blocks.Nodup := by
  refine List.Nodup.map_on (fun i _ j _ hij => ?_) List.nodup_range
  exact Nat.eq_of_mul_eq_mul_right hsize (Nat.add_left_cancel hij)

end MempoolConfig

/-! ## Initialization -/

/-- The loop writes from its first block on. -/
theorem linkBlocks_byte {blockSize n : ℕ} {mem : ByteMem} {block b : ℕ} (h : b < block) :
    (linkBlocks blockSize mem block n).byte b = mem.byte b := by
  induction n generalizing mem block with
  | zero => exact storePtr_byte (.inl h)
  | succ n ih => rw [linkBlocks, ih (by omega), storePtr_byte (.inl h)]

/-- The loop links its blocks in order, as long as their addresses do not wrap. -/
theorem linkBlocks_threaded {blockSize n : ℕ} (hsize : 8 ≤ blockSize) {mem : ByteMem} {block : ℕ}
    (hpos : 0 < block) (hfits : block + n * blockSize < 2 ^ 64) :
    Threaded (loadPtr (linkBlocks blockSize mem block n)) 0 block
      ((List.range (n + 1)).map fun i => block + i * blockSize) := by
  induction n generalizing mem block with
  | zero =>
    have hone : (List.range (0 + 1)).map (fun i => block + i * blockSize) = [block] := by simp
    rw [hone]
    exact ⟨rfl, by omega, loadPtr_storePtr (by decide) mem block⟩
  | succ n ih =>
    have htail : ((List.range (n + 1 + 1)).map fun i => block + i * blockSize) =
        block :: (List.range (n + 1)).map fun i => block + blockSize + i * blockSize := by
      rw [List.range_succ_eq_map, List.map_cons, List.map_map, Nat.zero_mul, Nat.add_zero]
      refine congrArg _ (List.map_congr_left fun i _ => ?_)
      change block + (i + 1) * blockSize = _
      rw [Nat.succ_mul]
      omega
    have hmul : (n + 1) * blockSize = n * blockSize + blockSize := Nat.succ_mul ..
    have hlink : loadPtr (linkBlocks blockSize mem block (n + 1)) block = block + blockSize := by
      rw [linkBlocks, loadPtr_congr fun i hi => linkBlocks_byte (by omega)]
      exact loadPtr_storePtr (by omega) mem block
    rw [htail]
    refine ⟨rfl, by omega, ?_⟩
    rw [hlink]
    exact ih (by omega) (by omega)

/-! ## The invariant -/

/-- The free blocks are chained from `free_list` on, and apart from those that
    were handed out. -/
structure MempoolInv (s : MempoolState) : Prop where
  base_pos : 0 < cfg.base
  size_pos : 0 < cfg.blockSize
  chain : ∃ free, Threaded (loadPtr s.mem) 0 s.pool.freeList free ∧
    Splits cfg.blocks free s.outstanding

variable {cfg}

/-- There is room for a pointer in a block. -/
theorem MempoolConfig.size_le (h : 0 < cfg.blockSize) : 16 ≤ cfg.blockSize := by
  obtain ⟨k, hk⟩ := cfg.aligned
  omega

theorem mempoolInit_inv {s : MempoolState} (h0 : s.outstanding = []) {mem : ByteMem}
    (h : mempoolInit mem cfg.base cfg.blockSize cfg.blockCount = some (s.mem, s.pool)) :
    MempoolInv cfg s := by
  rw [mempoolInit] at h
  split at h
  · cases h
  · rename_i hvalid
    have hsize : (cfg.blockSize + 15) % 2 ^ 64 / 16 * 16 = cfg.blockSize := by
      obtain ⟨k, hk⟩ := cfg.aligned
      have hone : cfg.blockSize ≤ cfg.blockCount * cfg.blockSize :=
        Nat.le_mul_of_pos_left _ (by omega)
      have hfits := cfg.fits
      omega
    dsimp only at h
    rw [hsize] at h
    have hle := cfg.size_le (by omega)
    obtain ⟨hmem, hpool⟩ := Prod.mk.inj (Option.some.inj h)
    obtain ⟨n, hn⟩ : ∃ n, cfg.blockCount = n + 1 := ⟨cfg.blockCount - 1, by omega⟩
    have hfits := cfg.fits
    rw [hn] at hfits
    refine ⟨by omega, by omega, cfg.blocks, ?_, ?_⟩
    · rw [← hmem, ← hpool, hn, MempoolConfig.blocks, hn]
      rw [Nat.succ_mul] at hfits
      rw [Nat.add_sub_cancel]
      exact linkBlocks_threaded (by omega) (by omega) (by omega)
    · rw [h0]
      exact ⟨by rw [List.append_nil], MempoolConfig.blocks_nodup (by omega)⟩

/-- What `mempool_alloc` returns is the first free block. -/
theorem mempoolAlloc_spec {mem : ByteMem} {pool : Mempool} {free : List ℕ}
    (h : Threaded (loadPtr mem) 0 pool.freeList free) :
    (free = [] ∧ mempoolAlloc mem pool = (pool, 0)) ∨
    ∃ block rest, free = block :: rest ∧ block ≠ 0 ∧
      mempoolAlloc mem pool = ({ pool with freeList := loadPtr mem block }, block) ∧
      Threaded (loadPtr mem) 0 (loadPtr mem block) rest := by
  rw [mempoolAlloc]
  by_cases hnull : pool.freeList = 0
  · exact .inl ⟨h.null_iff.1 hnull, if_neg (not_not.2 hnull)⟩
  · obtain ⟨rest, hfree, hrest⟩ := h.pop hnull
    exact .inr ⟨pool.freeList, rest, hfree, hnull, if_pos hnull, hrest⟩

/-- The chain only depends on the bytes that nobody may write. -/
theorem MempoolInv.congr {s : MempoolState} (h : MempoolInv cfg s) {mem : ByteMem}
    (hm : ∀ a, ¬ s.Writable cfg a → mem.byte a = s.mem.byte a) :
    MempoolInv cfg { s with mem := mem } := by
  obtain ⟨free, hchain, hsplit⟩ := h.chain
  have hsize := cfg.size_le h.size_pos
  refine ⟨h.base_pos, h.size_pos, free, hchain.congr fun y hy => ?_, hsplit⟩
  refine loadPtr_congr fun i hi => hm _ fun ha => ?_
  have hy' := hsplit.mem_free hy
  have hle := MempoolConfig.block_le hy'
  rcases ha with ⟨b, hb, hlo, hhi⟩ | hout
  · have hne : y ≠ b := fun he => hsplit.not_used hy (he ▸ hb)
    have hapart := MempoolConfig.block_apart hy' (hsplit.mem_used hb) hne
    omega
  · omega

/-- The order in which the blocks were handed out does not matter. -/
theorem MempoolInv.perm {s : MempoolState} (h : MempoolInv cfg s) {out : List ℕ}
    (hp : out.Perm s.outstanding) : MempoolInv cfg { s with outstanding := out } := by
  obtain ⟨free, hchain, hsplit⟩ := h.chain
  exact ⟨h.base_pos, h.size_pos, free, hchain, hsplit.congr_used hp⟩

/-- A write that misses the free blocks leaves the chain. -/
theorem MempoolInv.write {s : MempoolState} (h : MempoolInv cfg s) {a : ℕ} (v : BitVec 8)
    (ha : s.Writable cfg a) : MempoolInv cfg { s with mem := s.mem.set a v } :=
  h.congr fun _ hb => ByteMem.set_byte_of_ne _ _ fun he => hb (he ▸ ha)

theorem MempoolInv.free {s : MempoolState} (h : MempoolInv cfg s) {block : ℕ}
    (hb : block ∈ s.outstanding) :
    MempoolInv cfg ⟨storePtr s.mem block s.pool.freeList, { s.pool with freeList := block },
      s.outstanding.erase block⟩ := by
  obtain ⟨free, hchain, hsplit⟩ := h.chain
  have hsize := cfg.size_le h.size_pos
  have hbase := h.base_pos
  have hfits := cfg.fits
  have hb' := hsplit.mem_used hb
  have hle := MempoolConfig.block_le hb'
  have hlt : s.pool.freeList < 2 ^ 64 := by
    cases free with
    | nil =>
      have hnull := hchain.null_iff.2 rfl
      omega
    | cons y rest =>
      have hley := MempoolConfig.block_le (hsplit.mem_free List.mem_cons_self)
      have hhead := hchain.1
      omega
  refine ⟨hbase, h.size_pos, block :: free, ?_, ?_⟩
  · have hnull : block ≠ 0 := by omega
    refine hchain.push hnull (loadPtr_storePtr hlt ..) fun y hy => ?_
    have hne : y ≠ block := fun he => hsplit.not_used hy (he ▸ hb)
    have hapart := MempoolConfig.block_apart (hsplit.mem_free hy) hb' hne
    exact loadPtr_storePtr_of_apart (by omega)
  · exact (hsplit.congr_used (List.perm_cons_erase hb).symm).give

theorem mempoolStep_inv {s s' : MempoolState} {e : MempoolEvent} (h : MempoolInv cfg s)
    (hs : mempoolStep cfg s e = some s') : MempoolInv cfg s' := by
  cases e with
  | alloc =>
    cases hs
    obtain ⟨free, hchain, hsplit⟩ := h.chain
    rcases mempoolAlloc_spec hchain with ⟨-, halloc⟩ | ⟨block, rest, rfl, hne, halloc, hrest⟩
    · rw [halloc]
      exact h
    · rw [halloc]
      dsimp only
      rw [if_neg hne]
      exact ⟨h.base_pos, h.size_pos, rest, hrest, hsplit.take⟩
  | free block =>
    rw [mempoolStep] at hs
    split at hs
    · rename_i hguard
      cases hs
      by_cases hnull : block = 0
      · -- `NULL` is no block
        obtain ⟨free, hchain, hsplit⟩ := h.chain
        have hnot : block ∉ s.outstanding := fun hb => by
          have := (MempoolConfig.block_le (hsplit.mem_used hb)).1
          have := h.base_pos
          omega
        rw [mempoolFree, if_pos hnull, List.erase_of_not_mem hnot]
        exact h
      · rw [mempoolFree, if_neg hnull]
        exact h.free (hguard.resolve_left hnull)
    · cases hs
  | write a v =>
    rw [mempoolStep] at hs
    split at hs
    · rename_i ha
      cases hs
      exact h.write v ha
    · cases hs

/-! ## Safety -/

variable (cfg)

/-- What a caller can rely on. -/
structure MempoolSafe (s : MempoolState) : Prop where
  /-- the chain of the free blocks ends, with none of them handed out; each of
      the blocks is free or handed out -/
  chain : ∃ free, Threaded (loadPtr s.mem) 0 s.pool.freeList free ∧ free.Nodup ∧
    (∀ b ∈ free, b ∉ s.outstanding) ∧ (∀ b, b ∈ free ∨ b ∈ s.outstanding ↔ b ∈ cfg.blocks) ∧
    free.length + s.outstanding.length = cfg.blockCount
  /-- no block is handed out twice -/
  nodup : s.outstanding.Nodup
  /-- what `mempool_alloc` returns is a block that is not handed out -/
  alloc : (mempoolAlloc s.mem s.pool).2 ≠ 0 →
    (∃ i < cfg.blockCount, (mempoolAlloc s.mem s.pool).2 = cfg.block i) ∧
      (mempoolAlloc s.mem s.pool).2 ∉ s.outstanding
  /-- it returns `NULL` if and only if all are -/
  exhausted : (mempoolAlloc s.mem s.pool).2 = 0 ↔ s.outstanding.length = cfg.blockCount

variable {cfg}

theorem MempoolInv.safe {s : MempoolState} (h : MempoolInv cfg s) : MempoolSafe cfg s := by
  obtain ⟨free, hchain, hsplit⟩ := h.chain
  have hlen : free.length + s.outstanding.length = cfg.blockCount := by
    rw [hsplit.length, MempoolConfig.blocks, List.length_map, List.length_range]
  refine ⟨⟨free, hchain, hsplit.nodup_free, fun b hb => hsplit.not_used hb, fun b => ?_, hlen⟩,
    hsplit.nodup_used, fun hne => ?_, ?_⟩
  · rw [← List.mem_append, hsplit.perm.mem_iff]
  · rcases mempoolAlloc_spec hchain with ⟨-, halloc⟩ | ⟨block, rest, rfl, -, halloc, -⟩
    · rw [halloc] at hne
      exact absurd rfl hne
    · rw [halloc]
      exact ⟨MempoolConfig.mem_blocks.1 (hsplit.mem_free List.mem_cons_self),
        hsplit.not_used List.mem_cons_self⟩
  · rcases mempoolAlloc_spec hchain with ⟨rfl, halloc⟩ | ⟨block, rest, rfl, hne, halloc, -⟩
    · rw [halloc]
      rw [List.length_nil, Nat.zero_add] at hlen
      exact ⟨fun _ => hlen, fun _ => rfl⟩
    · rw [halloc]
      rw [List.length_cons] at hlen
      exact ⟨fun he => absurd he hne, fun he => by omega⟩

/-- **Memory pools.**  After any sequence of allocations, frees of blocks that
    are handed out, and writes by the callers. -/
theorem mempool_safe (cfg : MempoolConfig) {tr : List MempoolEvent} {s : MempoolState}
    (h : (mempoolLts cfg).Run tr s) : MempoolSafe cfg s := by
  have hinv : MempoolInv cfg s := by
    refine h.rule (P := fun _ s => MempoolInv cfg s) ?_ ?_
    · rintro s ⟨h0, mem, hinit⟩
      exact mempoolInit_inv h0 hinit
    · intro tr s e s' hs he
      exact mempoolStep_inv hs he
  exact hinv.safe

def demoMempool : MempoolConfig := ⟨0x1000, 64, 2, ⟨4, rfl⟩, by decide⟩

def demoMempoolStart : MempoolState :=
  ⟨linkBlocks 64 ⟨fun _ => 0, []⟩ 0x1000 1, ⟨0x1000, 64, 2, 0x1000⟩, []⟩

/-- Two blocks are taken, one is written over and freed. -/
def demoMempoolRun : List MempoolEvent := [.alloc, .alloc, .write 0x1000 0xFF, .alloc, .free 0x1000]

theorem mempool_safe_demo : ∃ s, (mempoolLts demoMempool).Run demoMempoolRun s ∧
    s.outstanding = [0x1040] ∧ MempoolSafe demoMempool s := by
  have h0 : (mempoolLts demoMempool).init demoMempoolStart := ⟨rfl, ⟨fun _ => 0, []⟩, rfl⟩
  have hout : (Lts.exec (mempoolStep demoMempool) demoMempoolStart demoMempoolRun).map
      MempoolState.outstanding = some [0x1040] := by
    decide +kernel
  obtain ⟨s, hs, hs'⟩ := Option.map_eq_some_iff.1 hout
  have hrun : (mempoolLts demoMempool).Run demoMempoolRun s := Lts.run_exec h0 hs
  exact ⟨s, hrun, hs', mempool_safe demoMempool hrun⟩

end Gracemont
