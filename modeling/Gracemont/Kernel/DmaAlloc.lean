/-
  Gracemont kernel — aligned and DMA allocation (`kernel/memory.c`, the same in both
  ports).

  `heap_alloc_aligned` asks the heap for more than it needs, and keeps the pointer of the
  heap in the eight bytes before the address it returns.  `dma_alloc` takes pages from a
  pool, and anything longer from the heap.  A pointer is its address, `0` for `NULL`.

  * `heapAllocAligned`, `heapFreeAligned`, `dmaPoolInit`, `dmaAlloc`, `dmaFree`;
  * `dmaLts`: the heap and the pool in use, with the regions that are handed out;
  * `DmaSafe`: what the callers rely on.
-/
import Gracemont.Kernel.HeapInv
import Gracemont.Kernel.Mempool

namespace Gracemont

open Lib

/-! ## The functions -/

/-- The memory: the headers of the heap, the bytes, and `dma_mempool`. -/
structure KernelMem where
  heap : Heap
  mem : ByteMem
  pool : Mempool

/-- The arrays `heap_memory` and `dma_pool` of a build. -/
structure DmaConfig extends HeapConfig where
  dmaPool : ℕ
  dmaPoolSize : ℕ
  pool_aligned : 4096 ∣ dmaPool
  pool_pos : 0 < dmaPool
  heap_le : heapMemory + heapSize ≤ 2 ^ 64
  pool_le : dmaPool + dmaPoolSize ≤ 2 ^ 64
  apart : heapMemory + heapSize ≤ dmaPool ∨ dmaPool + dmaPoolSize ≤ heapMemory

/-- A pointer for `heap_free`. -/
def heapPtr (p : ℕ) : Option ℕ := if p = 0 then none else some p

/-- At least `HEAP_BLOCK_ALIGN`. -/
def raiseAlignment (alignment : ℕ) : ℕ :=
  if alignment < heapBlockAlign then heapBlockAlign else alignment

/-- `size + alignment + sizeof(void *)` -/
def alignedTotal (size alignment : ℕ) : ℕ := sizeAdd (sizeAdd size alignment) 8

/-- `((uintptr_t)raw + sizeof(void *) + alignment - 1) & ~(alignment - 1)` -/
def alignedAddress (raw alignment : ℕ) : ℕ :=
  ((BitVec.ofNat 64 raw + 8#64 + BitVec.ofNat 64 alignment - 1#64) &&&
    ~~~(BitVec.ofNat 64 alignment - 1#64)).toNat

/-- The address of `((void **)ptr)[-1]`. -/
def backPtr (ptr : ℕ) : ℕ := (BitVec.ofNat 64 ptr - 8#64).toNat

/-- `heap_alloc_aligned` -/
def heapAllocAligned (fuel : ℕ) (k : KernelMem) (size alignment : ℕ) : Option (KernelMem × ℕ) := do
  let alignment := raiseAlignment alignment
  let (heap, raw) ← heapAlloc fuel k.heap (alignedTotal size alignment)
  match raw with
  | none => some ({ k with heap := heap }, 0)
  | some raw =>
    let aligned := alignedAddress raw alignment
    some ({ k with heap := heap, mem := storePtr k.mem (backPtr aligned) raw }, aligned)

/-- `heap_free_aligned` -/
def heapFreeAligned (fuel : ℕ) (k : KernelMem) (ptr : ℕ) : Option KernelMem :=
  if ptr = 0 then some k
  else do
    let raw := loadPtr k.mem (backPtr ptr)
    let heap ← heapFree fuel k.heap (heapPtr raw)
    some { k with heap := heap }

/-- `dma_pool_init` -/
def dmaPoolInit (cfg : DmaConfig) (k : KernelMem) : KernelMem :=
  match mempoolInit k.mem cfg.dmaPool 4096 (cfg.dmaPoolSize / 4096) with
  | some (mem, pool) => { k with mem := mem, pool := pool }
  | none => k

/-- `(size + 4095) / 4096` -/
def dmaPages (size : ℕ) : ℕ := sizeAdd size 4095 / 4096

/-- `dma_alloc` -/
def dmaAlloc (fuel : ℕ) (k : KernelMem) (size : ℕ) : Option (KernelMem × ℕ) :=
  if 1 < dmaPages size then heapAllocAligned fuel k size 4096
  else
    let r := mempoolAlloc k.mem k.pool
    some ({ k with pool := r.1 }, r.2)

/-- `mempool_free(&dma_mempool, ptr)` -/
def dmaPoolFree (k : KernelMem) (ptr : ℕ) : KernelMem :=
  let r := mempoolFree k.mem k.pool ptr
  { k with mem := r.1, pool := r.2 }

/-- `dma_free` -/
def dmaFree (fuel : ℕ) (k : KernelMem) (ptr size : ℕ) : Option KernelMem :=
  if 1 < dmaPages size then heapFreeAligned fuel k ptr else some (dmaPoolFree k ptr)

/-! ## The allocators in use -/

/-- A region that is handed out, by `dma_alloc` or by `heap_alloc_aligned`: in the block
    of the heap that `heap_alloc` returned for it, or else in the pool. -/
structure Region where
  ptr : ℕ
  size : ℕ
  alignment : ℕ
  raw : Option ℕ
  dma : Bool
  deriving DecidableEq

/-- The bytes of a region. -/
def Region.bytes (r : Region) : Set ℕ := {a | r.ptr ≤ a ∧ a < r.ptr + r.size}

/-- The memory, the pointers of `heap_alloc`, and the other regions that are handed out. -/
structure DmaState where
  k : KernelMem
  plain : List ℕ
  regions : List Region

namespace DmaState
variable (s : DmaState)

/-- The heap in use. -/
def heapUse : HeapUse := ⟨s.k.heap, s.plain ++ s.regions.filterMap Region.raw⟩

/-- The pages that are handed out. -/
def pages : List ℕ := (s.regions.filter fun r => r.raw = none).map Region.ptr

/-- The pool in use. -/
def poolUse : MempoolState := ⟨s.k.mem, s.k.pool, s.pages⟩

/-- The application writes what is handed out to it, and what is neither in the heap nor
    in the pool. -/
def Writable (cfg : DmaConfig) (a : ℕ) : Prop :=
  (∃ r ∈ s.regions, a ∈ r.bytes) ∨ (∃ p ∈ s.plain, a ∈ payload s.k.heap p) ∨
    ((a < cfg.heapMemory ∨ cfg.heapEnd ≤ a) ∧
      (a < cfg.dmaPool ∨ cfg.dmaPool + cfg.dmaPoolSize ≤ a))

end DmaState

/-- What an operation on the memory `k` leaves, if it assigns the headers and the bytes of
    `r`.  A header is in the bytes of the heap: the bytes of a header that changed are
    arbitrary, and so are the headers of which a byte, or an overlapping header, changed. -/
structure Settles (k r k' : KernelMem) : Prop where
  freeList : k'.heap.freeList = r.heap.freeList
  pool : k'.pool = r.pool
  header : ∀ b, (∀ i < heapBlockSize, r.mem.byte (b + i) = k.mem.byte (b + i)) →
    (∀ c, c ≠ b → c < b + heapBlockSize → b < c + heapBlockSize → r.heap.mem c = k.heap.mem c) →
    k'.heap.mem b = r.heap.mem b
  byte : ∀ a, (∀ c, c ≤ a → a < c + heapBlockSize → r.heap.mem c = k.heap.mem c) →
    k'.mem.byte a = r.mem.byte a

/-- Calls to the allocators, and stores of the application. -/
inductive DmaEvent where
  | alloc (size : BitVec 64)
  | free (ptr : ℕ)
  | allocAligned (size alignment : BitVec 64)
  | freeAligned (ptr : ℕ)
  | dmaAlloc (size : BitVec 64)
  | dmaFree (ptr : ℕ) (size : BitVec 64)
  | write (a : ℕ) (v : BitVec 8)

/-- What `heap_alloc` returns inside of `heap_alloc_aligned`. -/
def rawOf (fuel : ℕ) (k : KernelMem) (size alignment : ℕ) : Option ℕ :=
  (heapAlloc fuel k.heap (alignedTotal size (raiseAlignment alignment))).bind Prod.snd

/-- The regions after one more was returned, unless it is `NULL`. -/
def DmaState.handOut (s : DmaState) (r : Region) : List Region :=
  if r.ptr = 0 then s.regions else r :: s.regions

/-- The regions after one at `ptr` that meets `P` was given back; `NULL` is none. -/
def DmaState.GiveBack (s : DmaState) (ptr : ℕ) (P : Region → Prop) (regions : List Region) : Prop :=
  (ptr = 0 ∧ regions = s.regions) ∨
    ∃ r ∈ s.regions, r.ptr = ptr ∧ P r ∧ regions = s.regions.erase r

/-- One event.  The alignments are powers of two for which the size of the block does not
    wrap, with the pointer, the header and the rounding of the heap added to it.  What is
    given back is handed out, and was returned by the function of the same name for the
    same size. -/
def dmaStep (cfg : DmaConfig) (s : DmaState) : DmaEvent → DmaState → Prop
  | .alloc size, s' => ∃ fuel h p, heapAlloc fuel s.k.heap size.toNat = some (h, p) ∧
    Settles s.k { s.k with heap := h } s'.k ∧ s'.plain = p.toList ++ s.plain ∧
    s'.regions = s.regions
  | .free ptr, s' => (ptr = 0 ∨ ptr ∈ s.plain) ∧
    ∃ fuel h, heapFree fuel s.k.heap (heapPtr ptr) = some h ∧
    Settles s.k { s.k with heap := h } s'.k ∧ s'.plain = s.plain.erase ptr ∧
    s'.regions = s.regions
  | .allocAligned size alignment, s' => (∃ i, alignment.toNat = 2 ^ i) ∧
    size.toNat + raiseAlignment alignment.toNat + 8 + 47 < 2 ^ 64 ∧
    ∃ fuel k p, heapAllocAligned fuel s.k size.toNat alignment.toNat = some (k, p) ∧
    Settles s.k k s'.k ∧ s'.plain = s.plain ∧ s'.regions = s.handOut
      ⟨p, size.toNat, alignment.toNat, rawOf fuel s.k size.toNat alignment.toNat, false⟩
  | .freeAligned ptr, s' => ∃ fuel k, heapFreeAligned fuel s.k ptr = some k ∧
    Settles s.k k s'.k ∧ s'.plain = s.plain ∧ s.GiveBack ptr (fun r => r.dma = false) s'.regions
  | .dmaAlloc size, s' => ∃ fuel k p, dmaAlloc fuel s.k size.toNat = some (k, p) ∧
    Settles s.k k s'.k ∧ s'.plain = s.plain ∧ s'.regions = s.handOut ⟨p, size.toNat, 4096,
      if 1 < dmaPages size.toNat then rawOf fuel s.k size.toNat 4096 else none, true⟩
  | .dmaFree ptr size, s' => ∃ fuel k, dmaFree fuel s.k ptr size.toNat = some k ∧
    Settles s.k k s'.k ∧ s'.plain = s.plain ∧
    s.GiveBack ptr (fun r => r.dma = true ∧ r.size = size.toNat) s'.regions
  | .write a v, s' => s.Writable cfg a ∧ Settles s.k { s.k with mem := s.k.mem.set a v } s'.k ∧
    s'.plain = s.plain ∧ s'.regions = s.regions

/-- The runs after `heap_init` and `dma_pool_init`, over whatever was in the memory. -/
def dmaLts (cfg : DmaConfig) : Lts DmaState DmaEvent :=
  ⟨fun s => (∃ headers mem, s.k = dmaPoolInit cfg ⟨heapInit cfg.toHeapConfig headers, mem,
    ⟨0, 0, 0, 0⟩⟩) ∧ s.plain = [] ∧ s.regions = [], dmaStep cfg⟩

/-! ## What the callers rely on -/

/-- `dma_pool` as the region of a pool. -/
def DmaConfig.pages (cfg : DmaConfig) : MempoolConfig where
  base := cfg.dmaPool
  blockSize := 4096
  blockCount := cfg.dmaPoolSize / 4096
  aligned := by decide
  fits := by
    have := cfg.pool_le
    omega

/-- The release of a region by the allocator it is from. -/
def Region.release (fuel : ℕ) (k : KernelMem) (r : Region) : Option KernelMem :=
  match r.raw with
  | some raw => (heapFree fuel k.heap (some raw)).map fun h => { k with heap := h }
  | none => some (dmaPoolFree k r.ptr)

/-- A region is aligned and held by a block of the heap, with the eight bytes before it,
    or by a page; and it is given back to where it is from. -/
structure Region.Safe (cfg : DmaConfig) (s : DmaState) (r : Region) : Prop where
  aligned : r.alignment ∣ r.ptr
  block : ∀ raw, r.raw = some raw → raw + 8 ≤ r.ptr ∧
    ∀ a, r.ptr - 8 ≤ a → a < r.ptr + r.size → a ∈ payload s.k.heap raw
  page : r.raw = none → r.ptr ∈ cfg.pages.blocks ∧ r.size ≤ 4096
  freeAligned : r.dma = false → ∀ fuel, heapFreeAligned fuel s.k r.ptr = r.release fuel s.k
  dmaFree : r.dma = true → ∀ fuel, dmaFree fuel s.k r.ptr r.size = r.release fuel s.k
  returns : ∃ fuel k, r.release fuel s.k = some k

/-- **Safety**: the regions are safe and do not overlap; the blocks in use are those that
    were handed out, and none twice. -/
structure DmaSafe (cfg : DmaConfig) (s : DmaState) : Prop where
  regions : ∀ r ∈ s.regions, r.Safe cfg s
  apart : s.regions.Pairwise fun r r' => Disjoint r.bytes r'.bytes
  plain : ∀ r ∈ s.regions, ∀ p ∈ s.plain, Disjoint r.bytes (payload s.k.heap p)
  blocks : ∃ bs, HeapInv cfg.toHeapConfig s.heapUse bs

/-- The condition on a call: of the sizes that wrap, `dma_alloc` only gets those for which
    it returns `NULL`. -/
def DmaOk (s : DmaState) : DmaEvent → Prop
  | .dmaAlloc size => size.toNat + 4096 + 8 + 47 < 2 ^ 64 ∨
    (2 ^ 64 ≤ size.toNat + 4095 ∧ s.k.pool.freeList = 0) ∨
    (size.toNat + 4095 < 2 ^ 64 ∧
      (s.k.heap.freeList = none ∨ size.toNat + 4096 + 8 = 2 ^ 64))
  | _ => True

end Gracemont
