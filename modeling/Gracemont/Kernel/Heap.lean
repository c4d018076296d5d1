/-
  Gracemont kernel — the heap (`kernel/memory.c`, the same in both ports).

  A pointer to a block is its address; `Heap.mem` holds the block headers.  The
  sizes are `size_t` values, whose additions wrap.  The loops over the free list
  and over the blocks take a bound on their iterations (`Lib.Loop`).

  * `heapInit`, `heapAlloc`, `heapFree`, `heapGetStats`: the API;
  * `HeapEvent`, `heapLts`: the heap in use, with the live allocations.
-/
import Gracemont.Kernel.Types
import Gracemont.Lib.Loop
import Gracemont.Lib.Trace

namespace Gracemont

/-- `heap_block_t`. -/
structure HeapBlock where
  size : ℕ
  used : Bool
  next : Option ℕ
  prev : Option ℕ
  deriving DecidableEq

/-- `sizeof(heap_block_t)`. -/
def heapBlockSize : ℕ := 32

/-- `HEAP_BLOCK_ALIGN`. -/
def heapBlockAlign : ℕ := 16

/-- `HEAP_MIN_SIZE`. -/
def heapMinSize : ℕ := heapBlockSize + heapBlockAlign

/-- The array `heap_memory` of a build: its address, and `CONFIG_HEAP_SIZE`. -/
structure HeapConfig where
  heapMemory : ℕ
  heapSize : ℕ
  aligned : heapBlockAlign ∣ heapMemory
  size_aligned : heapBlockAlign ∣ heapSize
  size_min : heapMinSize ≤ heapSize
  size_lt : heapSize < 2 ^ 63

/-- The end of `heap_memory`. -/
def HeapConfig.heapEnd (cfg : HeapConfig) : ℕ := cfg.heapMemory + cfg.heapSize

/-- The block headers and `heap_free_list`. -/
structure Heap where
  mem : Lib.Store ℕ HeapBlock
  freeList : Option ℕ

namespace Heap

/-- Assignment to fields of the header at `b`. -/
def modify (h : Heap) (b : ℕ) (f : HeapBlock → HeapBlock) : Heap :=
  { h with mem := h.mem.modify b f }

/-- Assignment through a pointer, unless it is `NULL`. -/
def modifyAt (h : Heap) (b : Option ℕ) (f : HeapBlock → HeapBlock) : Heap :=
  { h with mem := h.mem.modifyAt b f }

variable (h : Heap) (b : ℕ) (p : Option ℕ) (f : HeapBlock → HeapBlock)

@[simp] theorem modify_mem : (h.modify b f).mem = h.mem.modify b f := rfl
@[simp] theorem modify_freeList : (h.modify b f).freeList = h.freeList := rfl
@[simp] theorem modifyAt_mem : (h.modifyAt p f).mem = h.mem.modifyAt p f := rfl
@[simp] theorem modifyAt_freeList : (h.modifyAt p f).freeList = h.freeList := rfl

end Heap

/-- `heap_init`, over whatever was in the memory. -/
def heapInit (cfg : HeapConfig) (mem : Lib.Store ℕ HeapBlock) : Heap where
  mem := mem.modify cfg.heapMemory fun _ => ⟨cfg.heapSize, false, none, none⟩
  freeList := some cfg.heapMemory

/-! ## Allocation -/

/-- `(size + sizeof(heap_block_t) + HEAP_BLOCK_ALIGN - 1) & ~(HEAP_BLOCK_ALIGN - 1)`,
    and at least `HEAP_MIN_SIZE`. -/
def heapRound (size : ℕ) : ℕ :=
  let size := sizeAdd size (heapBlockSize + heapBlockAlign - 1)
  let size := size - size % heapBlockAlign
  if size < heapMinSize then heapMinSize else size

/-- The loop of `heap_alloc`, looking for the first free block that is big
    enough. -/
def fitBody (mem : Lib.Store ℕ HeapBlock) (size : ℕ) : Option ℕ → Option ℕ ⊕ Option ℕ
  | none => .inr none
  | some block =>
    if (mem block).used = false ∧ size ≤ (mem block).size then .inr (some block)
    else .inl (mem block).next

/-- Splitting a block of `heap_alloc`. -/
def splitBlock (h : Heap) (block size : ℕ) : Heap :=
  let new := block + size
  let h := h.modify new fun _ =>
    ⟨(h.mem block).size - size, false, (h.mem block).next, some block⟩
  let h := h.modifyAt (h.mem block).next fun b => { b with prev := some new }
  let h := h.modify block fun b => { b with next := some new }
  h.modify block fun b => { b with size := size }

/-- Removing a block from the free list. -/
def unlinkBlock (h : Heap) (block : ℕ) : Heap :=
  let h := match (h.mem block).prev with
    | some p => h.modify p fun b => { b with next := (h.mem block).next }
    | none => { h with freeList := (h.mem block).next }
  h.modifyAt (h.mem block).next fun b => { b with prev := (h.mem block).prev }

/-- What `heap_alloc` does with the block it found. -/
def takeBlock (h : Heap) (block size : ℕ) : Heap :=
  let h := if sizeAdd size heapMinSize ≤ (h.mem block).size then splitBlock h block size else h
  let h := h.modify block fun b => { b with used := true }
  unlinkBlock h block

/-- `heap_alloc`. -/
def heapAlloc (fuel : ℕ) (h : Heap) (size : ℕ) : Option (Heap × Option ℕ) :=
  if size = 0 then some (h, none)
  else do
    match ← Lib.Loop.run (fitBody h.mem (heapRound size)) fuel h.freeList with
    | none => some (h, none)
    | some block => some (takeBlock h block (heapRound size), some (block + heapBlockSize))

/-! ## Release -/

/-- The loop of `heap_free`, looking for the place of a block in the free list:
    the variables are `prev_free` and `next_free`. -/
def placeBody (mem : Lib.Store ℕ HeapBlock) (block : ℕ) :
    Option ℕ × Option ℕ → (Option ℕ × Option ℕ) ⊕ (Option ℕ × Option ℕ)
  | (prevFree, none) => .inr (prevFree, none)
  | (prevFree, some nextFree) =>
    if nextFree < block then .inl (some nextFree, (mem nextFree).next)
    else .inr (prevFree, some nextFree)

/-- Inserting a block into the free list. -/
def insertBlock (h : Heap) (block : ℕ) (prevFree nextFree : Option ℕ) : Heap :=
  let h := h.modify block fun b => { b with prev := prevFree }
  let h := h.modify block fun b => { b with next := nextFree }
  let h := match prevFree with
    | some p => h.modify p fun b => { b with next := some block }
    | none => { h with freeList := some block }
  h.modifyAt nextFree fun b => { b with prev := some block }

/-- Merging the block `n` into the block `p` before it. -/
def absorbBlock (h : Heap) (p n : ℕ) : Heap :=
  let h := h.modify p fun b => { b with size := sizeAdd b.size (h.mem n).size }
  let h := h.modify p fun b => { b with next := (h.mem n).next }
  h.modifyAt (h.mem n).next fun b => { b with prev := some p }

/-- Coalescing with the next block. -/
def coalesceNext (h : Heap) (block : ℕ) (nextFree : Option ℕ) : Heap :=
  match nextFree with
  | some n => if block + (h.mem block).size = n then absorbBlock h block n else h
  | none => h

/-- Coalescing with the previous block. -/
def coalescePrev (h : Heap) (block : ℕ) (prevFree : Option ℕ) : Heap :=
  match prevFree with
  | some p => if p + (h.mem p).size = block then absorbBlock h p block else h
  | none => h

/-- `heap_free`. -/
def heapFree (fuel : ℕ) (h : Heap) (ptr : Option ℕ) : Option Heap :=
  match ptr with
  | none => some h
  | some ptr => do
    let block := ptr - heapBlockSize
    let h := h.modify block fun b => { b with used := false }
    let (prevFree, nextFree) ← Lib.Loop.run (placeBody h.mem block) fuel (none, h.freeList)
    let h := insertBlock h block prevFree nextFree
    let h := coalesceNext h block nextFree
    some (coalescePrev h block prevFree)

/-! ## Statistics -/

/-- `heap_stats_t`. -/
structure HeapStats where
  totalSize : ℕ
  usedSize : ℕ
  freeSize : ℕ
  largestFree : ℕ
  blockCount : ℕ
  deriving DecidableEq

/-- The walk over the blocks of `heap_get_stats`. -/
def statsBody (cfg : HeapConfig) (mem : Lib.Store ℕ HeapBlock) :
    ℕ × HeapStats → (ℕ × HeapStats) ⊕ (ℕ × HeapStats)
  | (block, stats) =>
    if block < cfg.heapEnd then
      let size := (mem block).size
      let stats := { stats with blockCount := sizeAdd stats.blockCount 1 }
      let stats :=
        if (mem block).used then { stats with usedSize := sizeAdd stats.usedSize size }
        else
          let stats := { stats with freeSize := sizeAdd stats.freeSize size }
          if stats.largestFree < size then { stats with largestFree := size } else stats
      .inl (block + size, stats)
    else .inr (block, stats)

/-- `heap_get_stats`, with the address at which the walk ends. -/
def heapGetStats (cfg : HeapConfig) (fuel : ℕ) (h : Heap) : Option (ℕ × HeapStats) :=
  Lib.Loop.run (statsBody cfg h.mem) fuel (cfg.heapMemory, ⟨cfg.heapSize, 0, 0, 0, 0⟩)

/-! ## The heap in use -/

/-- The heap and the pointers handed out and not freed. -/
structure HeapUse where
  heap : Heap
  live : List ℕ

/-- The bytes of the live allocation at `ptr`: what follows its header. -/
def payload (h : Heap) (ptr : ℕ) : Set ℕ :=
  {x | ptr ≤ x ∧ x < ptr - heapBlockSize + (h.mem (ptr - heapBlockSize)).size}

/-- Calls to the heap, and stores of the application into its allocations;
    these overwrite whatever a header was in the bytes before. -/
inductive HeapEvent where
  | alloc (size : ℕ)
  | free (ptr : Option ℕ)
  | store (mem : Lib.Store ℕ HeapBlock)

/-- One event: only live pointers (or `NULL`) are freed, and the application
    stores to live payloads only. -/
def heapStep (s : HeapUse) : HeapEvent → HeapUse → Prop
  | .alloc size, s' => ∃ fuel h ptr, heapAlloc fuel s.heap size = some (h, ptr) ∧
    s' = ⟨h, ptr.toList ++ s.live⟩
  | .free ptr, s' => (∀ p, ptr = some p → p ∈ s.live) ∧ ∃ fuel h, heapFree fuel s.heap ptr = some h ∧
    s' = ⟨h, s.live.filter fun p => some p ≠ ptr⟩
  | .store mem, s' => (∀ b, (∀ p ∈ s.live, ∀ x ∈ payload s.heap p, x < b ∨ b + heapBlockSize ≤ x) →
      mem b = s.heap.mem b) ∧ s' = ⟨⟨mem, s.heap.freeList⟩, s.live⟩

/-- The heap as a transition system, from `heap_init`. -/
def heapLts (cfg : HeapConfig) : Lib.Lts HeapUse HeapEvent :=
  ⟨fun s => ∃ mem, s = ⟨heapInit cfg mem, []⟩, heapStep⟩

end Gracemont
