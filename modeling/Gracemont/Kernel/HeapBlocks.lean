/-
  Gracemont kernel — the blocks of the heap.

  `Blocks cfg h bs`: the blocks at the addresses `bs` tile the heap, and the
  free list runs through the unused ones.  Unlinking, splitting, inserting and
  merging each keep it, for the new list of blocks (`Blocks.unlink`,
  `Blocks.split`, `Blocks.insert`, `Blocks.absorb`); the loops of the allocator
  are loops over these lists.
-/
import Gracemont.Kernel.Heap
import Gracemont.Lib.Links
import Gracemont.Lib.Tiling

namespace Gracemont

/-- The unused blocks among `bs`. -/
def freeBlocks (h : Heap) (bs : List ℕ) : List ℕ := bs.filter fun b => (h.mem b).used = false

/-- The blocks `bs` tile the heap, and its free list links the unused ones. -/
structure Blocks (cfg : HeapConfig) (h : Heap) (bs : List ℕ) : Prop where
  tiles : Lib.Tiles (h.mem.field HeapBlock.size) cfg.heapMemory bs cfg.heapEnd
  sizes : ∀ b ∈ bs, heapBlockAlign ∣ (h.mem b).size ∧ heapMinSize ≤ (h.mem b).size
  free : Lib.Chain (h.mem.field HeapBlock.next) (h.mem.field HeapBlock.prev) h.freeList
    (freeBlocks h bs)

variable {cfg : HeapConfig} {h h' : Heap} {bs x y : List ℕ} {b n : ℕ}

theorem mem_freeBlocks : b ∈ freeBlocks h bs ↔ b ∈ bs ∧ (h.mem b).used = false := by
  simp [freeBlocks]

theorem freeBlocks_append : freeBlocks h (x ++ y) = freeBlocks h x ++ freeBlocks h y := by
  simp [freeBlocks]

theorem freeBlocks_cons_free (hb : (h.mem b).used = false) :
    freeBlocks h (b :: y) = b :: freeBlocks h y := by simp [freeBlocks, hb]

theorem freeBlocks_cons_used (hb : (h.mem b).used = true) :
    freeBlocks h (b :: y) = freeBlocks h y := by simp [freeBlocks, hb]

theorem freeBlocks_congr {l : List ℕ} (hu : ∀ b ∈ l, (h'.mem b).used = (h.mem b).used) :
    freeBlocks h' l = freeBlocks h l := by
  unfold freeBlocks
  exact List.filter_congr fun b hb => by rw [hu b hb]

namespace Blocks

/-- The free list before and after a free block. -/
theorem free_split (hB : Blocks cfg h (x ++ b :: y)) (hb : (h.mem b).used = false) :
    Lib.Chain (h.mem.field HeapBlock.next) (h.mem.field HeapBlock.prev) h.freeList
      (freeBlocks h x ++ b :: freeBlocks h y) := by
  have := hB.free
  rwa [freeBlocks_append, freeBlocks_cons_free hb] at this

/-- The headers outside `bs` do not matter. -/
theorem congr (hB : Blocks cfg h bs) (hm : ∀ b ∈ bs, h'.mem b = h.mem b)
    (hf : h'.freeList = h.freeList) : Blocks cfg h' bs := by
  constructor
  · exact hB.tiles.congr fun b hb => by simp [hm b hb]
  · intro b hb
    rw [hm b hb]; exact hB.sizes b hb
  · have hfr : freeBlocks h' bs = freeBlocks h bs := freeBlocks_congr fun b hb => by rw [hm b hb]
    rw [hfr, hf]
    have hf : ∀ b ∈ freeBlocks h bs, h'.mem b = h.mem b := fun b hb => hm b (mem_freeBlocks.1 hb).1
    exact hB.free.congr (fun b hb => congrArg HeapBlock.next (hf b hb))
      fun b hb => congrArg HeapBlock.prev (hf b hb)

theorem apart (hB : Blocks cfg h bs) {c : ℕ} (hb : b ∈ bs) (hc : c ∈ bs) (hbc : b < c) :
    b + (h.mem b).size ≤ c := hB.tiles.apart hb hc hbc

theorem size_le (hB : Blocks cfg h bs) (hb : b ∈ bs) :
    cfg.heapMemory ≤ b ∧ b + (h.mem b).size ≤ cfg.heapMemory + cfg.heapSize := by
  obtain ⟨h1, h2, -⟩ := hB.tiles.mem hb
  exact ⟨h1, h2⟩

theorem size_pos (hB : Blocks cfg h bs) (hb : b ∈ bs) : heapMinSize ≤ (h.mem b).size :=
  (hB.sizes b hb).2

end Blocks

/-! ## The link operations in closed form -/

theorem unlinkBlock_eq (hp : (h.mem b).prev ≠ some b) : unlinkBlock h b =
    ⟨(h.mem.modifyAt (h.mem b).prev fun c => { c with next := (h.mem b).next }).modifyAt
      (h.mem b).next fun c => { c with prev := (h.mem b).prev },
      if (h.mem b).prev.isNone then (h.mem b).next else h.freeList⟩ := by
  unfold unlinkBlock
  cases hpr : (h.mem b).prev with
  | none => simp [Heap.modifyAt, hpr]
  | some p =>
    have hbp : b ≠ p := by rintro rfl; exact hp hpr
    simp [Heap.modifyAt, Heap.modify, hbp, hpr]

theorem splitBlock_eq (hn : 0 < n) : splitBlock h b n =
    ⟨((h.mem.modify (b + n) fun _ =>
        ⟨(h.mem b).size - n, false, (h.mem b).next, some b⟩).modifyAt (h.mem b).next
        fun c => { c with prev := some (b + n) }).modify b
        fun c => { c with next := some (b + n), size := n }, h.freeList⟩ := by
  have hne : b ≠ b + n := by omega
  unfold splitBlock
  simp only [Heap.modifyAt, Heap.modify, Lib.Store.modify_modify, Lib.Store.modify_of_ne _ hne]

theorem insertBlock_eq (h : Heap) (b : ℕ) (p n : Option ℕ) : insertBlock h b p n =
    ⟨((h.mem.modify b fun c => { c with prev := p, next := n }).modifyAt p
        fun c => { c with next := some b }).modifyAt n fun c => { c with prev := some b },
      if p.isNone then some b else h.freeList⟩ := by
  unfold insertBlock
  cases p with
  | none => simp [Heap.modifyAt, Heap.modify]
  | some p => simp [Heap.modifyAt, Heap.modify]

theorem absorbBlock_eq {p : ℕ} (hpn : p ≠ n) : absorbBlock h p n =
    ⟨(h.mem.modify p fun c => { c with
        size := sizeAdd c.size (h.mem n).size, next := (h.mem n).next }).modifyAt (h.mem n).next
        fun c => { c with prev := some p }, h.freeList⟩ := by
  unfold absorbBlock
  simp [Heap.modifyAt, Heap.modify, hpn.symm]

/-! ## The fields after the link operations -/

section
variable (hp : (h.mem b).prev ≠ some b)
include hp

theorem unlinkBlock_next : (unlinkBlock h b).mem.field HeapBlock.next =
    Lib.setAt (h.mem.field HeapBlock.next) (h.mem b).prev (h.mem b).next := by
  rw [unlinkBlock_eq hp, Lib.Store.field_modifyAt_same _ _ _ (by simp),
    Lib.Store.field_modifyAt _ _ _ (v := (h.mem b).next) (by simp)]

theorem unlinkBlock_prev : (unlinkBlock h b).mem.field HeapBlock.prev =
    Lib.setAt (h.mem.field HeapBlock.prev) (h.mem b).next (h.mem b).prev := by
  rw [unlinkBlock_eq hp, Lib.Store.field_modifyAt _ _ _ (v := (h.mem b).prev) (by simp),
    Lib.Store.field_modifyAt_same _ _ _ (by simp)]

theorem unlinkBlock_size : (unlinkBlock h b).mem.field HeapBlock.size = h.mem.field HeapBlock.size := by
  simp [unlinkBlock_eq hp]

theorem unlinkBlock_used : (unlinkBlock h b).mem.field HeapBlock.used = h.mem.field HeapBlock.used := by
  simp [unlinkBlock_eq hp]

end

section
variable (hn : 0 < n)
include hn

theorem splitBlock_next : (splitBlock h b n).mem.field HeapBlock.next = Function.update
    (Function.update (h.mem.field HeapBlock.next) (b + n) (h.mem b).next) b (some (b + n)) := by
  simp [splitBlock_eq hn]

theorem splitBlock_prev : (splitBlock h b n).mem.field HeapBlock.prev = Lib.setAt
    (Function.update (h.mem.field HeapBlock.prev) (b + n) (some b)) (h.mem b).next
    (some (b + n)) := by
  rw [splitBlock_eq hn, Lib.Store.field_modify_same _ _ _ (by simp),
    Lib.Store.field_modifyAt _ _ _ (v := some (b + n)) (by simp), Lib.Store.field_modify]

theorem splitBlock_size : (splitBlock h b n).mem.field HeapBlock.size = Function.update
    (Function.update (h.mem.field HeapBlock.size) (b + n) ((h.mem b).size - n)) b n := by
  simp [splitBlock_eq hn]

theorem splitBlock_used : (splitBlock h b n).mem.field HeapBlock.used =
    Function.update (h.mem.field HeapBlock.used) (b + n) false := by
  simp [splitBlock_eq hn]

end

section
variable (h : Heap) (b : ℕ) (p n : Option ℕ)

theorem insertBlock_next : (insertBlock h b p n).mem.field HeapBlock.next =
    Lib.setAt (Function.update (h.mem.field HeapBlock.next) b n) p (some b) := by
  rw [insertBlock_eq, Lib.Store.field_modifyAt_same _ _ _ (by simp),
    Lib.Store.field_modifyAt _ _ _ (v := some b) (by simp), Lib.Store.field_modify]

theorem insertBlock_prev : (insertBlock h b p n).mem.field HeapBlock.prev =
    Lib.setAt (Function.update (h.mem.field HeapBlock.prev) b p) n (some b) := by
  rw [insertBlock_eq, Lib.Store.field_modifyAt _ _ _ (v := some b) (by simp),
    Lib.Store.field_modifyAt_same _ _ _ (by simp), Lib.Store.field_modify]

theorem insertBlock_size : (insertBlock h b p n).mem.field HeapBlock.size =
    h.mem.field HeapBlock.size := by simp [insertBlock_eq]

theorem insertBlock_used : (insertBlock h b p n).mem.field HeapBlock.used =
    h.mem.field HeapBlock.used := by simp [insertBlock_eq]

end

section
variable {p : ℕ} (hpn : p ≠ n)
include hpn

theorem absorbBlock_next : (absorbBlock h p n).mem.field HeapBlock.next =
    Function.update (h.mem.field HeapBlock.next) p (h.mem n).next := by
  simp [absorbBlock_eq hpn]

theorem absorbBlock_prev : (absorbBlock h p n).mem.field HeapBlock.prev =
    Lib.setAt (h.mem.field HeapBlock.prev) (h.mem n).next (some p) := by
  rw [absorbBlock_eq hpn, Lib.Store.field_modifyAt _ _ _ (v := some p) (by simp),
    Lib.Store.field_modify_same _ _ _ (by simp)]

theorem absorbBlock_size : (absorbBlock h p n).mem.field HeapBlock.size =
    Function.update (h.mem.field HeapBlock.size) p (sizeAdd (h.mem p).size (h.mem n).size) := by
  simp [absorbBlock_eq hpn]

theorem absorbBlock_used : (absorbBlock h p n).mem.field HeapBlock.used =
    h.mem.field HeapBlock.used := by simp [absorbBlock_eq hpn]

end

/-! ## The operations on the blocks -/

theorem Blocks.notMem (hB : Blocks cfg h (x ++ b :: y)) : b ∉ x ∧ b ∉ y := by
  have := List.nodup_middle.1 hB.tiles.nodup
  simpa using (List.nodup_cons.1 this).1

/-- The blocks only depend on the fields of their headers. -/
theorem Blocks.of_fields (hB : Blocks cfg h bs)
    (hs : h'.mem.field HeapBlock.size = h.mem.field HeapBlock.size)
    (hf : Lib.Chain (h'.mem.field HeapBlock.next) (h'.mem.field HeapBlock.prev) h'.freeList
      (freeBlocks h' bs)) : Blocks cfg h' bs := by
  refine ⟨hs ▸ hB.tiles, fun b hb => ?_, hf⟩
  have hsb : (h'.mem b).size = (h.mem b).size := congrFun hs b
  rw [hsb]
  exact hB.sizes b hb

/-- **Allocation unlinks the block.** -/
theorem Blocks.unlink (hB : Blocks cfg h (x ++ b :: y)) (hb : (h.mem b).used = false)
    (hh : h' = unlinkBlock (h.modify b fun c => { c with used := true }) b) :
    Blocks cfg h' (x ++ b :: y) ∧ h'.mem.field HeapBlock.size = h.mem.field HeapBlock.size ∧
      h'.mem.field HeapBlock.used = Function.update (h.mem.field HeapBlock.used) b true := by
  have hch := hB.free_split hb
  have hp : (h.mem b).prev = (freeBlocks h x).getLast? := by
    have : (h.mem b).prev = _ := (Lib.seg_append.1 hch.seg).2.1
    simpa using this
  have hpr : ((h.modify b fun c => { c with used := true }).mem b).prev ≠ some b := by
    rw [Heap.modify_mem, Lib.Store.modify_self, hp]
    exact fun he => hB.notMem.1 (mem_freeBlocks.1 (List.mem_of_getLast? he)).1
  have hsize : h'.mem.field HeapBlock.size = h.mem.field HeapBlock.size := by
    rw [hh, unlinkBlock_size hpr]; simp
  have hused : h'.mem.field HeapBlock.used = Function.update (h.mem.field HeapBlock.used) b true := by
    rw [hh, unlinkBlock_used hpr]; simp
  have hother : ∀ c, c ≠ b → (h'.mem c).used = (h.mem c).used := fun c hc => by
    have := congrFun hused c
    rwa [Function.update_of_ne hc] at this
  refine ⟨hB.of_fields hsize ?_, hsize, hused⟩
  have hfr : freeBlocks h' (x ++ b :: y) = freeBlocks h x ++ freeBlocks h y := by
    have hbu : (h'.mem b).used = true := by
      have := congrFun hused b
      rwa [Function.update_self] at this
    rw [freeBlocks_append, freeBlocks_cons_used hbu,
      freeBlocks_congr fun c hc => hother c (ne_of_mem_of_not_mem hc hB.notMem.1),
      freeBlocks_congr fun c hc => hother c (ne_of_mem_of_not_mem hc hB.notMem.2)]
  have hrem := hch.remove
  rw [hfr, hh, unlinkBlock_next hpr, unlinkBlock_prev hpr, unlinkBlock_eq hpr]
  simpa using hrem

theorem Blocks.before (hB : Blocks cfg h (x ++ b :: y)) {c : ℕ} (hc : c ∈ x) :
    c + (h.mem c).size ≤ b := (hB.tiles.around.1.mem hc).2.1

theorem Blocks.after (hB : Blocks cfg h (x ++ b :: y)) {c : ℕ} (hc : c ∈ y) :
    b + (h.mem b).size ≤ c := (hB.tiles.around.2.2.mem hc).1

/-- The links of a free block. -/
theorem Blocks.links (hB : Blocks cfg h (x ++ b :: y)) (hb : (h.mem b).used = false) :
    (h.mem b).prev = (freeBlocks h x).getLast? ∧ (h.mem b).next = (freeBlocks h y).head? := by
  have hs := (Lib.seg_append.1 (hB.free_split hb).seg).2
  obtain ⟨hp, hn, -⟩ := hs
  exact ⟨by simpa using hp, by simpa using hn⟩

/-- **Splitting a free block.** -/
theorem Blocks.split (hB : Blocks cfg h (x ++ b :: y)) (hb : (h.mem b).used = false)
    (hna : heapBlockAlign ∣ n) (hn : heapMinSize ≤ n) (hlt : n + heapMinSize ≤ (h.mem b).size)
    (hh : h' = splitBlock h b n) :
    Blocks cfg h' (x ++ b :: (b + n) :: y) ∧
      h'.mem.field HeapBlock.size = Function.update
        (Function.update (h.mem.field HeapBlock.size) (b + n) ((h.mem b).size - n)) b n ∧
      h'.mem.field HeapBlock.used = Function.update (h.mem.field HeapBlock.used) (b + n) false := by
  have hmin : 0 < heapMinSize := by decide
  have hn0 : 0 < n := by omega
  have hsize := splitBlock_size (h := h) (b := b) hn0
  have hused := splitBlock_used (h := h) (b := b) hn0
  rw [← hh] at hsize hused
  have hnew : ∀ c ∈ x ++ b :: y, c ≠ b + n := by
    intro c hc
    rcases List.mem_append.1 hc with hc | hc
    · have := hB.before hc
      have := hB.size_pos (b := c) (by simp [hc])
      omega
    rcases List.mem_cons.1 hc with rfl | hc
    · omega
    · have := hB.after hc
      omega
  have hsz : ∀ c, c ≠ b → c ≠ b + n → (h'.mem c).size = (h.mem c).size := fun c h1 h2 => by
    have := congrFun hsize c
    rwa [Function.update_of_ne h1, Function.update_of_ne h2] at this
  have hsb : (h'.mem b).size = n := by simpa using congrFun hsize b
  have hsn : (h'.mem (b + n)).size = (h.mem b).size - n := by
    have := congrFun hsize (b + n)
    rwa [Function.update_of_ne (by omega), Function.update_self] at this
  have hxy : ∀ c ∈ x ++ y, c ≠ b ∧ c ≠ b + n := fun c hc => by
    refine ⟨fun he => ?_, hnew c ?_⟩
    · rw [he] at hc
      exact (List.mem_append.1 hc).elim hB.notMem.1 hB.notMem.2
    · rcases List.mem_append.1 hc with hc | hc <;> simp [hc]
  have hus : ∀ c ∈ x ++ b :: y, (h'.mem c).used = (h.mem c).used := fun c hc => by
    have := congrFun hused c
    rwa [Function.update_of_ne (hnew c hc)] at this
  refine ⟨⟨?_, ?_, ?_⟩, hsize, hused⟩
  · exact hB.tiles.split hn0 (by simp; omega) (by simpa using hsb) (by simpa using hsn)
      fun c hc => hsz c (hxy c hc).1 (hxy c hc).2
  · intro c hc
    have hdvd := (hB.sizes b (by simp)).1
    rcases List.mem_append.1 hc with hc | hc
    · rw [hsz c (hxy c (by simp [hc])).1 (hxy c (by simp [hc])).2]
      exact hB.sizes c (by simp [hc])
    rcases List.mem_cons.1 hc with rfl | hc
    · rw [hsb]; exact ⟨hna, hn⟩
    rcases List.mem_cons.1 hc with rfl | hc
    · rw [hsn]; exact ⟨Nat.dvd_sub hdvd hna, by omega⟩
    · rw [hsz c (hxy c (by simp [hc])).1 (hxy c (by simp [hc])).2]
      exact hB.sizes c (by simp [hc])
  · -- the new block comes right after `b` in the free list
    have hfn : (h'.mem (b + n)).used = false := by simpa using congrFun hused (b + n)
    have hfb : (h'.mem b).used = false := by rw [hus b (by simp), hb]
    have hfr : freeBlocks h' (x ++ b :: (b + n) :: y) =
        (freeBlocks h x ++ [b]) ++ (b + n) :: freeBlocks h y := by
      rw [freeBlocks_append, freeBlocks_cons_free hfb, freeBlocks_cons_free hfn,
        freeBlocks_congr fun c hc => hus c (by simp [hc]),
        freeBlocks_congr (l := y) fun c hc => hus c (by simp [hc])]
      simp
    have hch : Lib.Chain (h.mem.field HeapBlock.next) (h.mem.field HeapBlock.prev) h.freeList
        ((freeBlocks h x ++ [b]) ++ freeBlocks h y) := by
      simpa using hB.free_split hb
    have hins := hch.insert (x := b + n) fun hm => by
      rw [List.append_assoc, List.singleton_append] at hm
      refine hnew (b + n) ?_ rfl
      rcases List.mem_append.1 hm with hm | hm
      · simp [(mem_freeBlocks.1 hm).1]
      · rcases List.mem_cons.1 hm with hm | hm
        · omega
        · simp [(mem_freeBlocks.1 hm).1]
    rw [hfr, hh, splitBlock_next hn0, splitBlock_prev hn0, splitBlock_eq hn0, (hB.links hb).2]
    simpa using hins

/-- **Release inserts the block into the free list.** -/
theorem Blocks.insert (hB : Blocks cfg h (x ++ b :: y)) (hb : (h.mem b).used = true)
    (hh : h' = insertBlock (h.modify b fun c => { c with used := false }) b
      (freeBlocks h x).getLast? (freeBlocks h y).head?) :
    Blocks cfg h' (x ++ b :: y) ∧ h'.mem.field HeapBlock.size = h.mem.field HeapBlock.size ∧
      h'.mem.field HeapBlock.used = Function.update (h.mem.field HeapBlock.used) b false := by
  have hsize : h'.mem.field HeapBlock.size = h.mem.field HeapBlock.size := by
    rw [hh, insertBlock_size]; simp
  have hused : h'.mem.field HeapBlock.used =
      Function.update (h.mem.field HeapBlock.used) b false := by
    rw [hh, insertBlock_used]; simp
  have hother : ∀ c, c ≠ b → (h'.mem c).used = (h.mem c).used := fun c hc => by
    have := congrFun hused c
    rwa [Function.update_of_ne hc] at this
  refine ⟨hB.of_fields hsize ?_, hsize, hused⟩
  have hfr : freeBlocks h' (x ++ b :: y) = freeBlocks h x ++ b :: freeBlocks h y := by
    have hbu : (h'.mem b).used = false := by simpa using congrFun hused b
    rw [freeBlocks_append, freeBlocks_cons_free hbu,
      freeBlocks_congr fun c hc => hother c (ne_of_mem_of_not_mem hc hB.notMem.1),
      freeBlocks_congr fun c hc => hother c (ne_of_mem_of_not_mem hc hB.notMem.2)]
  have hch := hB.free
  rw [freeBlocks_append, freeBlocks_cons_used hb] at hch
  have hins := hch.insert (x := b) fun hm => by
    rcases List.mem_append.1 hm with hm | hm
    exacts [hB.notMem.1 (mem_freeBlocks.1 hm).1, hB.notMem.2 (mem_freeBlocks.1 hm).1]
  rw [hfr, hh, insertBlock_next, insertBlock_prev, insertBlock_eq]
  simpa using hins

/-- **Merging two neighbouring free blocks.** -/
theorem Blocks.absorb {p : ℕ} (hB : Blocks cfg h (x ++ p :: n :: y))
    (hp : (h.mem p).used = false) (hn : (h.mem n).used = false) (hh : h' = absorbBlock h p n) :
    Blocks cfg h' (x ++ p :: y) ∧
      h'.mem.field HeapBlock.size = Function.update (h.mem.field HeapBlock.size) p
        ((h.mem p).size + (h.mem n).size) ∧
      h'.mem.field HeapBlock.used = h.mem.field HeapBlock.used := by
  obtain ⟨hpx, hpy⟩ := hB.notMem
  have hpn : p ≠ n := fun he => hpy (by simp [he])
  have hpn' : p + (h.mem p).size = n := by
    have := hB.tiles.around.2.2
    exact this.1.symm
  -- the sum of the sizes is the size of a part of the heap
  have hadd : sizeAdd (h.mem p).size (h.mem n).size = (h.mem p).size + (h.mem n).size := by
    have h1 := hB.size_le (b := p) (by simp)
    have h2 := hB.size_le (b := n) (by simp)
    have := cfg.size_lt
    unfold sizeAdd
    omega
  have hsize := absorbBlock_size (h := h) hpn
  have hused := absorbBlock_used (h := h) hpn
  rw [← hh] at hsize hused
  rw [hadd] at hsize
  have hxy : ∀ c ∈ x ++ y, c ≠ p := fun c hc he => by
    rw [he] at hc
    exact (List.mem_append.1 hc).elim hpx fun hy => hpy (by simp [hy])
  have hsz : ∀ c ∈ x ++ y, (h'.mem c).size = (h.mem c).size := fun c hc => by
    have := congrFun hsize c
    rwa [Function.update_of_ne (hxy c hc)] at this
  have hsp : (h'.mem p).size = (h.mem p).size + (h.mem n).size := by
    simpa using congrFun hsize p
  refine ⟨⟨hB.tiles.merge (by simpa using hsp) fun c hc => hsz c hc, ?_, ?_⟩, hsize, hused⟩
  · intro c hc
    rcases List.mem_append.1 hc with hc | hc
    · rw [hsz c (by simp [hc])]; exact hB.sizes c (by simp [hc])
    rcases List.mem_cons.1 hc with rfl | hc
    · obtain ⟨h1, h2⟩ := hB.sizes c (by simp)
      obtain ⟨h3, -⟩ := hB.sizes n (by simp)
      rw [hsp]
      exact ⟨Nat.dvd_add h1 h3, by omega⟩
    · rw [hsz c (by simp [hc])]; exact hB.sizes c (by simp [hc])
  · have hus : ∀ c, (h'.mem c).used = (h.mem c).used := fun c => congrFun hused c
    have hfr : freeBlocks h' (x ++ p :: y) = (freeBlocks h x ++ [p]) ++ freeBlocks h y := by
      rw [freeBlocks_append, freeBlocks_cons_free ((hus p).trans hp),
        freeBlocks_congr fun c _ => hus c, freeBlocks_congr (l := y) fun c _ => hus c]
      simp
    have hch : Lib.Chain (h.mem.field HeapBlock.next) (h.mem.field HeapBlock.prev) h.freeList
        ((freeBlocks h x ++ [p]) ++ n :: freeBlocks h y) := by
      have := hB.free_split hp
      rw [freeBlocks_cons_free hn] at this
      simpa using this
    have hnp : (h.mem n).prev = some p := by
      have : (h.mem n).prev = _ := (Lib.seg_append.1 hch.seg).2.1
      simpa using this
    have hrem := hch.remove
    rw [hfr, hh, absorbBlock_next hpn, absorbBlock_prev hpn, absorbBlock_eq hpn]
    simpa [hnp] using hrem

/-! ## The headers that an operation writes -/

/-- No header but those at `bs` changes from `h` to `h'`. -/
def Touches (bs : List ℕ) (h h' : Heap) : Prop := ∀ c ∉ bs, h'.mem c = h.mem c

namespace Touches

theorem refl (bs : List ℕ) (h : Heap) : Touches bs h h := fun _ _ => rfl

theorem trans {h'' : Heap} (h₁ : Touches bs h h') (h₂ : Touches bs h' h'') : Touches bs h h'' :=
  fun c hc => (h₂ c hc).trans (h₁ c hc)

theorem mono {bs' : List ℕ} (h₁ : Touches bs h h') (hsub : ∀ c ∈ bs, c ∈ bs') : Touches bs' h h' :=
  fun c hc => h₁ c fun hm => hc (hsub c hm)

end Touches

theorem Blocks.prev_mem (hB : Blocks cfg h (x ++ b :: y)) (hb : (h.mem b).used = false) {p : ℕ}
    (hp : (h.mem b).prev = some p) : p ∈ x :=
  (mem_freeBlocks.1 (List.mem_of_getLast? ((hB.links hb).1 ▸ hp))).1

theorem Blocks.next_mem (hB : Blocks cfg h (x ++ b :: y)) (hb : (h.mem b).used = false)
    (hn : (h.mem b).next = some n) : n ∈ y :=
  (mem_freeBlocks.1 (List.mem_of_head? ((hB.links hb).2 ▸ hn))).1

theorem Blocks.unlink_touches (hB : Blocks cfg h (x ++ b :: y)) (hb : (h.mem b).used = false) :
    Touches (x ++ b :: y) h (unlinkBlock (h.modify b fun c => { c with used := true }) b) := by
  have hprev : ((h.modify b fun c => { c with used := true }).mem b).prev = (h.mem b).prev := by
    simp
  have hnext : ((h.modify b fun c => { c with used := true }).mem b).next = (h.mem b).next := by
    simp
  have hne : ((h.modify b fun c => { c with used := true }).mem b).prev ≠ some b := by
    rw [hprev]
    exact fun he => hB.notMem.1 (hB.prev_mem hb he)
  rw [unlinkBlock_eq hne, hprev, hnext]
  intro c hc
  have hcb : c ≠ b := fun he => hc (by simp [he])
  have hp : (h.mem b).prev ≠ some c := fun he => hc (by simp [hB.prev_mem hb he])
  have hn : (h.mem b).next ≠ some c := fun he => hc (by simp [hB.next_mem hb he])
  dsimp only
  rw [Lib.Store.modifyAt_of_ne _ hn, Lib.Store.modifyAt_of_ne _ hp, Heap.modify_mem,
    Lib.Store.modify_of_ne _ hcb]

theorem Blocks.split_touches (hB : Blocks cfg h (x ++ b :: y)) (hb : (h.mem b).used = false)
    (hn : 0 < n) : Touches (x ++ b :: (b + n) :: y) h (splitBlock h b n) := by
  rw [splitBlock_eq hn]
  intro c hc
  have hcb : c ≠ b := fun he => hc (by simp [he])
  have hcn : c ≠ b + n := fun he => hc (by simp [he])
  have hnext : (h.mem b).next ≠ some c := fun he => hc (by simp [hB.next_mem hb he])
  dsimp only
  rw [Lib.Store.modify_of_ne _ hcb, Lib.Store.modifyAt_of_ne _ hnext, Lib.Store.modify_of_ne _ hcn]

/-- The neighbours of a block in the free list are blocks. -/
theorem insert_touches (hb : b ∈ bs) {p n : Option ℕ} (hp : ∀ c, p = some c → c ∈ bs)
    (hn : ∀ c, n = some c → c ∈ bs) :
    Touches bs h (insertBlock (h.modify b fun c => { c with used := false }) b p n) := by
  rw [insertBlock_eq]
  intro c hc
  have hcb : c ≠ b := fun he => hc (he ▸ hb)
  dsimp only
  rw [Lib.Store.modifyAt_of_ne _ (fun he => hc (hn c he)),
    Lib.Store.modifyAt_of_ne _ (fun he => hc (hp c he)), Lib.Store.modify_of_ne _ hcb,
    Heap.modify_mem, Lib.Store.modify_of_ne _ hcb]

theorem Blocks.absorb_touches {p : ℕ} (hB : Blocks cfg h (x ++ p :: n :: y))
    (hn : (h.mem n).used = false) : Touches (x ++ p :: n :: y) h (absorbBlock h p n) := by
  have hpn : p ≠ n := fun he => hB.notMem.2 (by simp [he])
  have hB' : Blocks cfg h ((x ++ [p]) ++ n :: y) := by simpa using hB
  rw [absorbBlock_eq hpn]
  intro c hc
  have hcp : c ≠ p := fun he => hc (by simp [he])
  have hnext : (h.mem n).next ≠ some c := fun he => hc (by simp [hB'.next_mem hn he])
  dsimp only
  rw [Lib.Store.modifyAt_of_ne _ hnext, Lib.Store.modify_of_ne _ hcp]

/-! ## The loops -/

/-- **First fit**: the loop of `heap_alloc` finds the first block of the free
    list that is big enough. -/
theorem fit_returns {mem : Lib.Store ℕ HeapBlock} (size : ℕ) {next prev : ℕ → Option ℕ}
    (hn : next = mem.field HeapBlock.next) {fl : List ℕ} (hu : ∀ b ∈ fl, (mem b).used = false) :
    ∀ {q : Option ℕ}, Lib.Seg next prev q fl none →
      Lib.Loop.Returns (fitBody mem size) fl.head? (fl.find? fun b => size ≤ (mem b).size) := by
  induction fl with
  | nil => exact fun _ => .of_inr rfl
  | cons b fl ih =>
    rintro q ⟨-, hb, hs⟩
    have hbu := hu b (by simp)
    by_cases hfit : size ≤ (mem b).size
    · exact .of_inr (by simp [fitBody, hbu, hfit])
    · have hnext : (mem b).next = fl.head? := by
        rw [Option.or_none, hn] at hb; exact hb
      refine .of_inl (t := fl.head?) (by simp [fitBody, hfit, hnext]) ?_
      rw [List.find?_cons_of_neg (by simpa using hfit)]
      exact ih (fun c hc => hu c (by simp [hc])) hs

/-- The loop of `heap_free` stops between the blocks below and above `b`. -/
theorem place_returns (mem : Lib.Store ℕ HeapBlock) {next prev : ℕ → Option ℕ}
    (hn : next = mem.field HeapBlock.next) {l₁ l₂ : List ℕ} (h₁ : ∀ c ∈ l₁, c < b)
    (h₂ : ∀ c ∈ l₂, b < c) : ∀ {q : Option ℕ}, Lib.Seg next prev q (l₁ ++ l₂) none →
      Lib.Loop.Returns (placeBody mem b) (q, (l₁ ++ l₂).head?) (l₁.getLast?.or q, l₂.head?) := by
  induction l₁ with
  | nil =>
    intro q _
    rcases l₂ with _ | ⟨c, l₂⟩
    · exact .of_inr rfl
    · have := h₂ c (by simp)
      exact .of_inr (by simp [placeBody]; omega)
  | cons c l₁ ih =>
    rintro q ⟨-, hc, hs⟩
    have hnext : (mem c).next = (l₁ ++ l₂).head? := by
      rw [Option.or_none, hn] at hc; exact hc
    refine .of_inl (t := (some c, (l₁ ++ l₂).head?)) ?_ ?_
    · have := h₁ c (by simp)
      simp [placeBody, this, hnext]
    · have hlast : (c :: l₁).getLast?.or q = l₁.getLast?.or (some c) := by
        rw [List.getLast?_cons]; cases l₁.getLast? <;> rfl
      rw [hlast]
      exact ih (fun d hd => h₁ d (by simp [hd])) hs

/-- **The walk of `heap_get_stats`** visits the blocks and ends at the end. -/
theorem stats_returns {mem : Lib.Store ℕ HeapBlock} : ∀ {bs : List ℕ} {a : ℕ} (stats : HeapStats),
    Lib.Tiles (mem.field HeapBlock.size) a bs cfg.heapEnd →
    stats.usedSize + stats.freeSize + (cfg.heapEnd - a) < 2 ^ 64 →
    ∃ stats', Lib.Loop.Returns (statsBody cfg mem) (a, stats) (cfg.heapEnd, stats') ∧
      stats'.totalSize = stats.totalSize ∧
      stats'.usedSize + stats'.freeSize = stats.usedSize + stats.freeSize + (cfg.heapEnd - a)
  | [], a, stats, ht, _ => by
    obtain rfl : a = cfg.heapEnd := ht
    exact ⟨stats, .of_inr (by simp [statsBody]), rfl, by simp⟩
  | b :: bs, a, stats, ht, hlt => by
    obtain ⟨rfl, hpos, hrest⟩ := ht
    have hle := hrest.le
    rw [Lib.Store.field_apply] at hpos hrest hle
    have hlt' : b < cfg.heapEnd := by omega
    obtain ⟨st, hst, hsum⟩ : ∃ st, statsBody cfg mem (b, stats) = .inl (b + (mem b).size, st) ∧
        st.totalSize = stats.totalSize ∧
        st.usedSize + st.freeSize = stats.usedSize + stats.freeSize + (mem b).size := by
      refine ⟨_, if_pos hlt', ?_⟩
      have h1 : (stats.usedSize + (mem b).size) % 2 ^ 64 = stats.usedSize + (mem b).size :=
        Nat.mod_eq_of_lt (by omega)
      have h2 : (stats.freeSize + (mem b).size) % 2 ^ 64 = stats.freeSize + (mem b).size :=
        Nat.mod_eq_of_lt (by omega)
      simp only [sizeAdd, h1, h2]
      split_ifs <;> simp only [true_and] <;> omega
    obtain ⟨htot, hsum⟩ := hsum
    obtain ⟨stats', hr, ht', hs'⟩ := stats_returns st hrest (by omega)
    exact ⟨stats', .of_inl hst hr, by omega, by omega⟩

end Gracemont
