/-
  Gracemont kernel — what `heap_alloc` returns.

  * `heap_alloc_size_iff`: the bytes that were asked for are inside the block, unless
    the size wraps when the header is added to it;
  * `heap_alloc_first_fit`: for sizes up to that of the heap it returns the first
    free range of the heap that is long enough, and `NULL` only if there is none.
-/
import Gracemont.Kernel.HeapInv

namespace Gracemont

variable {cfg : HeapConfig} {h' : Heap} {s : HeapUse} {bs : List ℕ} {size fuel : ℕ}

/-! ## The size of a block -/

/-- The bytes of the block for an allocation: the header and the payload, in units
    of 16 bytes. -/
def blockBytes (size : ℕ) : ℕ :=
  max heapMinSize ((size + heapBlockSize + 15) / 16 * 16)

theorem heapRound_eq (h : size + 47 < 2 ^ 64) : heapRound size = blockBytes size := by
  have hadd : sizeAdd size (32 + 16 - 1) = size + 47 := Nat.mod_eq_of_lt h
  simp only [heapRound, blockBytes, heapMinSize, heapBlockSize, heapBlockAlign, hadd]
  split_ifs <;> omega

/-- A size that wraps becomes the smallest block. -/
theorem heapRound_wrap (h : size < 2 ^ 64) (hwrap : 2 ^ 64 ≤ size + 47) :
    heapRound size = heapMinSize := by
  have hadd : sizeAdd size (32 + 16 - 1) = size + 47 - 2 ^ 64 := by
    unfold sizeAdd
    omega
  simp only [heapRound, heapMinSize, heapBlockSize, heapBlockAlign, hadd]
  split_ifs <;> omega

theorem le_blockBytes (size : ℕ) : size + heapBlockSize ≤ blockBytes size := by
  unfold blockBytes
  omega

/-- The free list is empty exactly if no block is free. -/
theorem Blocks.freeList_eq_none (hB : Blocks cfg s.heap bs) :
    s.heap.freeList = none ↔ freeBlocks s.heap bs = [] := by
  rw [hB.free.head_eq, List.head?_eq_none_iff]

/-- What is asked for is inside the block that is returned, and inside the heap. -/
def HoldsSize (cfg : HeapConfig) (s : HeapUse) (size : ℕ) : Prop :=
  ∀ fuel h' p, heapAlloc fuel s.heap size = some (h', some p) →
    ∀ x, p ≤ x → x < p + size → x ∈ payload h' p ∧ cfg.heapMemory ≤ x ∧ x < cfg.heapEnd

theorem HeapInv.holdsSize_iff (hI : HeapInv cfg s bs) (hlt : size < 2 ^ 64) :
    HoldsSize cfg s size ↔ size + 47 < 2 ^ 64 ∨ s.heap.freeList = none := by
  -- what is known of the block that is returned
  have hblock : ∀ {fuel h' p}, heapAlloc fuel s.heap size = some (h', some p) →
      ∃ b ∈ freeBlocks s.heap bs, p = b + heapBlockSize ∧
        heapRound size ≤ (h'.mem b).size ∧
        cfg.heapMemory ≤ b ∧ b + (h'.mem b).size ≤ cfg.heapMemory + cfg.heapSize := by
    intro fuel h' p ha
    obtain ⟨hnone, -⟩ | ⟨b, -, hp, rfl, hfind⟩ := heapAlloc_cases hI.blocks ha
    · cases hnone
    · cases hp
      have hb := List.mem_of_find?_eq_some hfind
      have hfit : heapRound size ≤ (s.heap.mem b).size := by simpa using List.find?_some hfind
      obtain ⟨-, hle, -, bs', hI', -⟩ := hI.take hb (heapRound_dvd _) (heapRound_min _) hfit
      obtain ⟨c, hc, -, hbc⟩ := (hI'.live _).1 List.mem_cons_self
      obtain rfl : b = c := by omega
      exact ⟨b, hb, rfl, hle, hI'.blocks.size_le hc⟩
  constructor
  · intro h
    by_contra hnot
    rw [not_or, not_lt] at hnot
    obtain ⟨hwrap, hfree⟩ := hnot
    obtain ⟨fuel, ⟨h', ptr⟩, ha⟩ := heapAlloc_returns hI.blocks size
    have hmin := heapRound_wrap hlt hwrap
    obtain ⟨rfl, -, hnone⟩ | ⟨b, -, rfl, -, -⟩ := heapAlloc_cases hI.blocks ha
    · -- every free block has the smallest size
      refine hfree (hI.blocks.freeList_eq_none.2 (List.eq_nil_iff_forall_not_mem.2 fun b hb => ?_))
      have hb' := (hnone.resolve_left (by omega)) b hb
      have := hI.blocks.size_pos (mem_freeBlocks.1 hb).1
      omega
    · obtain ⟨c, -, hp, -, hlo, hhi⟩ := hblock ha
      have hcfg := cfg.size_lt
      obtain ⟨⟨-, hin⟩, -⟩ := h fuel h' _ ha (b + heapBlockSize + (size - 1)) (by omega) (by omega)
      obtain rfl : b = c := by omega
      rw [Nat.add_sub_cancel] at hin
      omega
  · rintro hok fuel h' p ha x hlo hhi
    obtain ⟨b, hb, rfl, hle, hmem, hend⟩ := hblock ha
    rcases hok with hok | hnone
    · have hround := le_blockBytes size
      rw [heapRound_eq hok] at hle
      refine ⟨⟨hlo, ?_⟩, by omega, ?_⟩
      · rw [Nat.add_sub_cancel]
        omega
      · unfold HeapConfig.heapEnd
        omega
    · rw [hI.blocks.freeList_eq_none.1 hnone] at hb
      cases hb

/-- **The size of an allocation**, in every state that the heap can come to: what is
    asked for is in the block exactly if the size does not wrap, or nothing is free. -/
theorem heap_alloc_size_iff (cfg : HeapConfig) {tr : List HeapEvent} {s : HeapUse}
    (hr : (heapLts cfg).Run tr s) (size : BitVec 64) :
    HoldsSize cfg s size.toNat ↔ size.toNat + 47 < 2 ^ 64 ∨ s.heap.freeList = none := by
  obtain ⟨bs, hI⟩ := heapInv_run hr
  exact hI.holdsSize_iff size.isLt

/-- The heap before the first allocation. -/
def demoHeapStart : HeapUse := ⟨heapInit demoHeap fun _ => ⟨0, false, none, none⟩, []⟩

theorem demoHeapStart_run : (heapLts demoHeap).Run [] demoHeapStart := .start ⟨_, rfl⟩

theorem heap_alloc_size_small : HoldsSize demoHeap demoHeapStart 100 :=
  (heap_alloc_size_iff demoHeap demoHeapStart_run 100).2 (.inl (by decide))

/-- For `SIZE_MAX` bytes it returns a block of 48. -/
theorem demoHeapStart_wraps : (heapLts demoHeap).Run [] demoHeapStart ∧
    (heapAlloc 2 demoHeapStart.heap (2 ^ 64 - 1)).map Prod.snd = some (some 0x100020) ∧
    ¬ HoldsSize demoHeap demoHeapStart (2 ^ 64 - 1) := by
  refine ⟨demoHeapStart_run, rfl, fun h => ?_⟩
  have hno := ((heapInv_init demoHeap _).holdsSize_iff (by omega)).1 h
  revert hno
  decide

/-! ## First fit -/

/-- The bytes of the live block whose payload is at `p`. -/
def liveBlock (h : Heap) (p : ℕ) : Set ℕ :=
  {x | p - heapBlockSize ≤ x ∧ x < p - heapBlockSize + (h.mem (p - heapBlockSize)).size}

/-- The addresses from `a` to `e` are in the heap, and in no live block. -/
structure FreeRange (cfg : HeapConfig) (s : HeapUse) (a e : ℕ) : Prop where
  pos : a < e
  lo : cfg.heapMemory ≤ a
  hi : e ≤ cfg.heapEnd
  free : ∀ p ∈ s.live, ∀ x ∈ liveBlock s.heap p, x < a ∨ e ≤ x

/-- No free range is longer. -/
structure MaximalFree (cfg : HeapConfig) (s : HeapUse) (a e : ℕ) : Prop where
  range : FreeRange cfg s a e
  maximal : ∀ a' e', FreeRange cfg s a' e' → a' ≤ a → e ≤ e' → a' = a ∧ e' = e

namespace HeapInv
variable {a b e : ℕ}

/-- A block that a free range meets is free. -/
theorem free_of_mem (hI : HeapInv cfg s bs) (hr : FreeRange cfg s a e) (hb : b ∈ bs) {x : ℕ}
    (hax : a ≤ x) (hxe : x < e) (hbx : b ≤ x) (hxb : x < b + (s.heap.mem b).size) :
    (s.heap.mem b).used = false := by
  rw [Bool.eq_false_iff]
  intro hu
  have hx : x ∈ liveBlock s.heap (b + heapBlockSize) := by
    rw [liveBlock, Nat.add_sub_cancel]
    exact ⟨hbx, hxb⟩
  rcases hr.free _ ((hI.live _).2 ⟨b, hb, hu, rfl⟩) x hx with h | h
  · omega
  · omega

/-- **A free range is inside one free block**, as no two of them touch. -/
theorem block_of_range (hI : HeapInv cfg s bs) (hr : FreeRange cfg s a e) :
    ∃ b ∈ freeBlocks s.heap bs, b ≤ a ∧ e ≤ b + (s.heap.mem b).size := by
  have hpos := hr.pos
  have hhi := hr.hi
  obtain ⟨b, hb, hba, hab⟩ := hI.blocks.tiles.cover hr.lo (Nat.lt_of_lt_of_le hpos hhi)
  rw [Lib.Store.field_apply] at hab
  have hbf := hI.free_of_mem hr hb (Nat.le_refl a) hpos hba hab
  refine ⟨b, mem_freeBlocks.2 ⟨hb, hbf⟩, hba, Nat.le_of_not_lt fun hlt => ?_⟩
  -- the range would go on in the next block
  have hlo := hr.lo
  obtain ⟨c, hc, hcz, hzc⟩ := hI.blocks.tiles.cover (z := b + (s.heap.mem b).size) (by omega)
    (Nat.lt_of_lt_of_le hlt hhi)
  rw [Lib.Store.field_apply] at hzc
  have hcf := hI.free_of_mem hr hc (Nat.le_of_lt hab) hlt hcz hzc
  refine hI.coalesced b hb c hc ?_ hbf hcf
  rcases Nat.lt_trichotomy b c with hbc | rfl | hbc
  · have := hI.blocks.apart hb hc hbc
    omega
  · omega
  · have := hI.blocks.apart hc hb hbc
    omega

theorem range_of_block (hI : HeapInv cfg s bs) (hb : b ∈ freeBlocks s.heap bs) :
    FreeRange cfg s b (b + (s.heap.mem b).size) := by
  obtain ⟨hbm, hbf⟩ := mem_freeBlocks.1 hb
  have hsize := hI.blocks.size_pos hbm
  have hmin : 0 < heapMinSize := by decide
  obtain ⟨hlo, hhi⟩ := hI.blocks.size_le hbm
  refine ⟨by omega, hlo, hhi, fun p hp x hx => ?_⟩
  obtain ⟨c, hc, hcu, rfl⟩ := (hI.live p).1 hp
  obtain ⟨hcx, hxc⟩ := hx
  rw [Nat.add_sub_cancel] at hcx hxc
  rcases Nat.lt_trichotomy b c with hbc | rfl | hbc
  · have := hI.blocks.apart hbm hc hbc
    omega
  · rw [hbf] at hcu
    cases hcu
  · have := hI.blocks.apart hc hbm hbc
    omega

/-- **The maximal free ranges are the free blocks.** -/
theorem maximalFree_iff (hI : HeapInv cfg s bs) : MaximalFree cfg s a e ↔
    a ∈ freeBlocks s.heap bs ∧ e = a + (s.heap.mem a).size := by
  constructor
  · intro h
    obtain ⟨b, hb, hba, heb⟩ := hI.block_of_range h.range
    obtain ⟨rfl, rfl⟩ := h.maximal _ _ (hI.range_of_block hb) hba heb
    exact ⟨hb, rfl⟩
  · rintro ⟨ha, rfl⟩
    have hra := hI.range_of_block ha
    refine ⟨hra, fun a' e' h' haa hee => ?_⟩
    obtain ⟨b, hb, hba, heb⟩ := hI.block_of_range h'
    have hpos := hra.pos
    -- two blocks with a common address are the same
    obtain rfl : b = a := by
      rcases Nat.lt_trichotomy b a with hlt | heq | hlt
      · have := hI.blocks.apart (mem_freeBlocks.1 hb).1 (mem_freeBlocks.1 ha).1 hlt
        omega
      · exact heq
      · omega
    omega

/-- The first free block that fits is the first maximal free range that does. -/
theorem find_least (hI : HeapInv cfg s bs) {n : ℕ}
    (hf : (freeBlocks s.heap bs).find? (fun b => n ≤ (s.heap.mem b).size) = some b) :
    MaximalFree cfg s b (b + (s.heap.mem b).size) ∧ n ≤ (s.heap.mem b).size ∧
      ∀ a e, MaximalFree cfg s a e → a + n ≤ e → b ≤ a := by
  obtain ⟨hfit, x, y, hxy, hx⟩ := List.find?_eq_some_iff_append.1 hf
  refine ⟨hI.maximalFree_iff.2 ⟨List.mem_of_find?_eq_some hf, rfl⟩, by simpa using hfit,
    fun a e h hae => ?_⟩
  obtain ⟨ha, rfl⟩ := hI.maximalFree_iff.1 h
  have hsorted : (freeBlocks s.heap bs).Pairwise (· < ·) :=
    hI.blocks.tiles.sorted.sublist List.filter_sublist
  rw [hxy] at ha hsorted
  rcases List.mem_append.1 ha with ha | ha
  · have hno := hx a ha
    simp only [Bool.not_eq_true', decide_eq_false_iff_not] at hno
    omega
  · rcases List.mem_cons.1 ha with rfl | ha
    · exact Nat.le_refl _
    · have hby := (List.pairwise_append.1 hsorted).2.1
      exact Nat.le_of_lt ((List.pairwise_cons.1 hby).1 a ha)

end HeapInv

/-- **First fit.**  In every state that the heap can come to, `heap_alloc` returns for
    every size up to that of the heap: `NULL` exactly if no range of the heap as long as
    the block is free, and else the payload of a block at the lowest address where a
    maximal free range that long starts. -/
theorem heap_alloc_first_fit (cfg : HeapConfig) {tr : List HeapEvent} {s : HeapUse}
    (hr : (heapLts cfg).Run tr s) {size : ℕ} (hpos : 1 ≤ size) (hle : size ≤ cfg.heapSize) :
    (∃ fuel r, heapAlloc fuel s.heap size = some r) ∧
    ∀ fuel h' ptr, heapAlloc fuel s.heap size = some (h', ptr) →
      (ptr = none ↔ ¬ ∃ a, FreeRange cfg s a (a + blockBytes size)) ∧
      ∀ p, ptr = some p → ∃ a e, p = a + heapBlockSize ∧ MaximalFree cfg s a e ∧
        a + blockBytes size ≤ e ∧
        ∀ a' e', MaximalFree cfg s a' e' → a' + blockBytes size ≤ e' → a ≤ a' := by
  obtain ⟨bs, hI⟩ := heapInv_run hr
  have hlt := cfg.size_lt
  have hround : heapRound size = blockBytes size := heapRound_eq (by omega)
  refine ⟨heapAlloc_returns hI.blocks size, fun fuel h' ptr ha => ?_⟩
  obtain ⟨rfl, -, hnone⟩ | ⟨b, -, rfl, -, hfind⟩ := heapAlloc_cases hI.blocks ha
  · refine ⟨⟨fun _ => ?_, fun _ => rfl⟩, fun p hp => by cases hp⟩
    rintro ⟨a, hrange⟩
    obtain ⟨b, hb, hba, hbe⟩ := hI.block_of_range hrange
    have := hnone.resolve_left (by omega) b hb
    omega
  · rw [hround] at hfind
    obtain ⟨hmax, hfit, hleast⟩ := hI.find_least hfind
    refine ⟨⟨fun h => (Option.some_ne_none _ h).elim, fun h => (h ⟨b, ?_⟩).elim⟩, fun p hp => ?_⟩
    · have hrange := hmax.range
      have hbytes := le_blockBytes size
      have hhi := hrange.hi
      exact ⟨by omega, hrange.lo, by omega, fun p hp x hx => by
        have := hrange.free p hp x hx
        omega⟩
    · cases hp
      exact ⟨b, _, rfl, hmax, by omega, hleast⟩

/-- The first allocation is at the start of the heap. -/
theorem heap_alloc_first_fit_start :
    (∃ fuel r, heapAlloc fuel demoHeapStart.heap 100 = some r) ∧
    ∀ fuel h' ptr, heapAlloc fuel demoHeapStart.heap 100 = some (h', ptr) →
      (ptr = none ↔ ¬ ∃ a, FreeRange demoHeap demoHeapStart a (a + blockBytes 100)) ∧
      ∀ p, ptr = some p → ∃ a e, p = a + heapBlockSize ∧ MaximalFree demoHeap demoHeapStart a e ∧
        a + blockBytes 100 ≤ e ∧
        ∀ a' e', MaximalFree demoHeap demoHeapStart a' e' → a' + blockBytes 100 ≤ e' → a ≤ a' :=
  heap_alloc_first_fit demoHeap demoHeapStart_run (by decide) (by decide)

end Gracemont
