/-
  Gracemont kernel — the heap invariant.

  `HeapWf` is what the heap and the live allocations satisfy after any sequence
  of calls (`heap_wf`): the blocks tile the heap, the free list holds the unused
  ones by address, no two neighbours are free, and live payloads do not overlap.
  The inductive form `HeapInv` names the blocks.  In `heap_free` neighbours are
  free between the insertion and the two merges; `FreeTouch` says which.
-/
import Mathlib.Order.CompletePartialOrder
import Gracemont.Kernel.HeapBlocks

namespace Gracemont

/-- The free neighbours `b`, `c` in memory are all among the pairs `P`. -/
def FreeTouch (h : Heap) (bs : List ℕ) (P : ℕ → ℕ → Prop) : Prop :=
  ∀ b ∈ bs, ∀ c ∈ bs, c = b + (h.mem b).size → (h.mem b).used = false → (h.mem c).used = false →
    P b c

/-- **The heap invariant** with its blocks. -/
structure HeapInv (cfg : HeapConfig) (s : HeapUse) (bs : List ℕ) : Prop where
  blocks : Blocks cfg s.heap bs
  coalesced : FreeTouch s.heap bs fun _ _ => False
  live : ∀ p, p ∈ s.live ↔ ∃ b ∈ bs, (s.heap.mem b).used = true ∧ p = b + heapBlockSize
  nodup : s.live.Nodup

variable {cfg : HeapConfig} {h h' : Heap} {bs x y : List ℕ} {b n : ℕ} {s s' : HeapUse}

/-! ## Allocation -/

theorem heapRound_dvd (size : ℕ) : heapBlockAlign ∣ heapRound size := by
  unfold heapRound
  simp only
  split_ifs
  · decide
  · exact Nat.dvd_sub_mod _

theorem heapRound_min (size : ℕ) : heapMinSize ≤ heapRound size := by
  unfold heapRound
  simp only
  split_ifs <;> omega

/-- What `heap_alloc` leaves of a fitting free block: the block, used, and
    perhaps a free rest. -/
theorem Blocks.take (hB : Blocks cfg h (x ++ b :: y)) (hb : (h.mem b).used = false)
    (hc : FreeTouch h (x ++ b :: y) fun _ _ => False) (hna : heapBlockAlign ∣ n)
    (hn : heapMinSize ≤ n) (hfit : n ≤ (h.mem b).size) :
    ∃ z, Blocks cfg (takeBlock h b n) (x ++ b :: (z ++ y)) ∧
      FreeTouch (takeBlock h b n) (x ++ b :: (z ++ y)) (fun _ _ => False) ∧
      (((takeBlock h b n).mem b).used = true ∧ n ≤ ((takeBlock h b n).mem b).size) ∧
      (∀ c ∈ x ++ y, ((takeBlock h b n).mem c).used = (h.mem c).used ∧
        ((takeBlock h b n).mem c).size = (h.mem c).size) ∧
      (∀ c ∈ z, ((takeBlock h b n).mem c).used = false) ∧
      Touches (x ++ b :: (z ++ y)) h (takeBlock h b n) := by
  have hne : ∀ c ∈ x ++ y, c ≠ b := fun c hc he => by
    rw [he] at hc
    exact (List.mem_append.1 hc).elim hB.notMem.1 hB.notMem.2
  have hlt := cfg.size_lt
  have hsb := hB.size_le (b := b) (by simp)
  have hadd : sizeAdd n heapMinSize = n + heapMinSize := by
    have : heapMinSize = 48 := rfl
    unfold sizeAdd
    omega
  by_cases hsplit : sizeAdd n heapMinSize ≤ (h.mem b).size
  · -- a rest of at least `HEAP_MIN_SIZE` is split off
    rw [hadd] at hsplit
    obtain ⟨hB₁, hsize₁, hused₁⟩ := hB.split hb hna hn hsplit rfl
    have hmin : 0 < heapMinSize := by decide
    have hnb : b ≠ b + n := by omega
    have hb₁ : ((splitBlock h b n).mem b).used = false := by
      have := congrFun hused₁ b
      rw [Function.update_of_ne hnb] at this
      exact this.trans hb
    obtain ⟨hB', hsize, hused⟩ := hB₁.unlink hb₁ rfl
    have heq : takeBlock h b n =
        unlinkBlock ((splitBlock h b n).modify b fun c => { c with used := true }) b := by
      unfold takeBlock; rw [if_pos (hadd ▸ hsplit)]
    rw [← heq, hsize₁] at hsize
    rw [← heq, hused₁] at hused
    rw [← heq] at hB'
    have hnew : ∀ c ∈ x ++ y, c ≠ b + n := fun c hc => by
      rcases List.mem_append.1 hc with hc | hc
      · have := hB.before hc
        omega
      · have := hB.after hc
        omega
    have hsz : ∀ c ∈ x ++ y, ((takeBlock h b n).mem c).size = (h.mem c).size := fun c hc => by
      have := congrFun hsize c
      rwa [Function.update_of_ne (hne c hc), Function.update_of_ne (hnew c hc)] at this
    have hus : ∀ c ∈ x ++ y, ((takeBlock h b n).mem c).used = (h.mem c).used := fun c hc => by
      have := congrFun hused c
      rwa [Function.update_of_ne (hne c hc), Function.update_of_ne (hnew c hc)] at this
    have hbu : ((takeBlock h b n).mem b).used = true := by simpa using congrFun hused b
    have hbn : ((takeBlock h b n).mem b).size = n := by simpa using congrFun hsize b
    have hsn : ((takeBlock h b n).mem (b + n)).size = (h.mem b).size - n := by
      have := congrFun hsize (b + n)
      rwa [Function.update_of_ne hnb.symm, Function.update_self] at this
    have hnu : ((takeBlock h b n).mem (b + n)).used = false := by
      have := congrFun hused (b + n)
      rwa [Function.update_of_ne hnb.symm, Function.update_self] at this
    have hold : ∀ {c}, c ∈ x ++ b :: (b + n) :: y → c ≠ b → c = b + n ∨ c ∈ x ++ y := by
      intro c hc hcb
      simpa [hcb, or_left_comm, or_comm] using hc
    have htouch : Touches (x ++ b :: (b + n) :: y) h (takeBlock h b n) :=
      heq ▸ (hB.split_touches hb (by omega)).trans (hB₁.unlink_touches hb₁)
    refine ⟨[b + n], hB', fun c hc' d hd hcd hcf hdf => ?_, ⟨hbu, hbn.ge⟩,
      fun c hc => ⟨hus c hc, hsz c hc⟩, by simpa using hnu, htouch⟩
    have hcb : c ≠ b := by rintro rfl; simp [hbu] at hcf
    have hdb : d ≠ b := by rintro rfl; simp [hbu] at hdf
    rcases hold hd hdb with rfl | hdo
    · -- nothing ends where the rest begins, but `b`
      rcases hold hc' hcb with rfl | hco
      · rw [hsn] at hcd; omega
      · rw [hsz c hco] at hcd
        rcases List.mem_append.1 hco with hx | hy
        · have := hB.before hx
          omega
        · have := hB.after hy
          omega
    have hdm : d ∈ x ++ b :: y := by rcases List.mem_append.1 hdo with hd | hd <;> simp [hd]
    rcases hold hc' hcb with rfl | hco
    · -- the rest ends where `b` ended
      rw [hsn] at hcd
      exact hc b (by simp) d hdm (by omega) hb (hus d hdo ▸ hdf)
    · have hcm : c ∈ x ++ b :: y := by rcases List.mem_append.1 hco with hc | hc <;> simp [hc]
      exact hc c hcm d hdm (hsz c hco ▸ hcd) (hus c hco ▸ hcf) (hus d hdo ▸ hdf)
  · -- the whole block
    obtain ⟨hB', hsize, hused⟩ := hB.unlink hb rfl
    have heq : takeBlock h b n = unlinkBlock (h.modify b fun c => { c with used := true }) b := by
      unfold takeBlock; rw [if_neg hsplit]
    rw [← heq] at hB' hsize hused
    have hother : ∀ c, c ≠ b → ((takeBlock h b n).mem c).used = (h.mem c).used := fun c hc => by
      have := congrFun hused c
      rwa [Function.update_of_ne hc] at this
    have hbu : ((takeBlock h b n).mem b).used = true := by simpa using congrFun hused b
    have hsz : ∀ c, ((takeBlock h b n).mem c).size = (h.mem c).size := fun c => congrFun hsize c
    refine ⟨[], hB', fun c hc' d hd hcd hcf hdf => ?_, ⟨hbu, hfit.trans (hsz b).ge⟩,
      fun c hc => ⟨hother c (hne c hc), hsz c⟩, by simp, heq ▸ hB.unlink_touches hb⟩
    have hcb : c ≠ b := by rintro rfl; simp [hbu] at hcf
    have hdb : d ≠ b := by rintro rfl; simp [hbu] at hdf
    exact hc c hc' d hd (hsz c ▸ hcd) (hother c hcb ▸ hcf) (hother d hdb ▸ hdf)

theorem heapAlloc_returns (hB : Blocks cfg h bs) (size : ℕ) :
    ∃ fuel r, heapAlloc fuel h size = some r := by
  by_cases h0 : size = 0
  · exact ⟨0, (h, none), by simp [heapAlloc, h0]⟩
  · obtain ⟨fuel, hf⟩ := fit_returns (heapRound size) rfl
      (fun b hb => (mem_freeBlocks.1 hb).2) hB.free.seg
    rw [← hB.free.head_eq] at hf
    refine ⟨fuel, ?_⟩
    simp only [heapAlloc, if_neg h0, hf]
    cases (freeBlocks h bs).find? _ with
    | none => exact ⟨_, rfl⟩
    | some b => exact ⟨_, rfl⟩

/-- What `heap_alloc` can do. -/
theorem heapAlloc_cases (hB : Blocks cfg h bs) {fuel size : ℕ} {ptr : Option ℕ}
    (ha : heapAlloc fuel h size = some (h', ptr)) :
    (ptr = none ∧ h' = h ∧
      (size = 0 ∨ ∀ b ∈ freeBlocks h bs, (h.mem b).size < heapRound size)) ∨
    ∃ b, size ≠ 0 ∧ ptr = some (b + heapBlockSize) ∧ h' = takeBlock h b (heapRound size) ∧
      (freeBlocks h bs).find? (fun b => heapRound size ≤ (h.mem b).size) = some b := by
  unfold heapAlloc at ha
  split_ifs at ha with h0
  · cases ha
    exact .inl ⟨rfl, rfl, .inl h0⟩
  have hret := fit_returns (heapRound size) rfl (fun b hb => (mem_freeBlocks.1 hb).2) hB.free.seg
  rw [← hB.free.head_eq] at hret
  obtain ⟨r, hr, ha⟩ := Option.bind_eq_some_iff.1 ha
  rw [hret.eq_of_run hr] at ha
  rcases hfind : (freeBlocks h bs).find? fun b => heapRound size ≤ (h.mem b).size with _ | b
  · rw [hfind] at ha
    cases ha
    exact .inl ⟨rfl, rfl, .inr fun b hb => by simpa using List.find?_eq_none.1 hfind b hb⟩
  · rw [hfind] at ha
    cases ha
    exact .inr ⟨b, h0, rfl, rfl, rfl⟩

/-- **Taking a fitting free block.** -/
theorem HeapInv.take (hI : HeapInv cfg s bs) (hb : b ∈ freeBlocks s.heap bs)
    (hna : heapBlockAlign ∣ n) (hn : heapMinSize ≤ n) (hfit : n ≤ (s.heap.mem b).size) :
    b + heapBlockSize ∉ s.live ∧ n ≤ ((takeBlock s.heap b n).mem b).size ∧
      (∀ c, c + heapBlockSize ∈ s.live →
        ((takeBlock s.heap b n).mem c).size = (s.heap.mem c).size) ∧
      ∃ bs', HeapInv cfg ⟨takeBlock s.heap b n, (b + heapBlockSize) :: s.live⟩ bs' ∧
        Touches bs' s.heap (takeBlock s.heap b n) := by
  obtain ⟨hbm, hbf⟩ := mem_freeBlocks.1 hb
  obtain ⟨x, y, rfl⟩ := List.append_of_mem hbm
  obtain ⟨z, hB', hc', ⟨hbu, hbn⟩, hxy, hz, htouch⟩ :=
    hI.blocks.take hbf hI.coalesced hna hn hfit
  have hnew : b + heapBlockSize ∉ s.live := fun hm => by
    obtain ⟨c, hcm, hcu, hbc⟩ := (hI.live _).1 hm
    obtain rfl : b = c := by omega
    rw [hbf] at hcu; cases hcu
  -- a live block is another one
  have hlive : ∀ c, c + heapBlockSize ∈ s.live →
      c ∈ x ++ y ∧ (s.heap.mem c).used = true := fun c hm => by
    obtain ⟨d, hd, hdu, hcd⟩ := (hI.live _).1 hm
    obtain rfl : c = d := by omega
    have hcb : c ≠ b := by rintro rfl; rw [hbf] at hdu; cases hdu
    exact ⟨by simpa [hcb] using hd, hdu⟩
  refine ⟨hnew, hbn, fun c hm => (hxy c (hlive c hm).1).2, _,
    ⟨hB', hc', fun p => ?_, List.nodup_cons.2 ⟨hnew, hI.nodup⟩⟩, htouch⟩
  show p ∈ (b + heapBlockSize) :: s.live ↔ _
  rw [List.mem_cons]
  constructor
  · rintro (rfl | hp)
    · exact ⟨b, by simp, hbu, rfl⟩
    · obtain ⟨c, -, -, rfl⟩ := (hI.live _).1 hp
      obtain ⟨hcm, hcu⟩ := hlive c hp
      exact ⟨c, by rcases List.mem_append.1 hcm with hc | hc <;> simp [hc],
        (hxy c hcm).1.trans hcu, rfl⟩
  · rintro ⟨c, hc, hcu, rfl⟩
    by_cases hcb : c = b
    · exact Or.inl (by rw [hcb])
    have hcz : c ∉ z := fun hm => by
      have := hz c hm
      rw [this] at hcu; cases hcu
    have hcm : c ∈ x ++ y := by simpa [hcb, hcz] using hc
    refine Or.inr ((hI.live _).2 ⟨c, ?_, (hxy c hcm).1 ▸ hcu, rfl⟩)
    rcases List.mem_append.1 hcm with hc | hc <;> simp [hc]

/-- **`heap_alloc`** keeps the invariant and the sizes of the live blocks, and returns
    a block of the rounded size. -/
theorem HeapInv.alloc (hI : HeapInv cfg s bs) {fuel size : ℕ} {ptr : Option ℕ}
    (ha : heapAlloc fuel s.heap size = some (h', ptr)) :
    (∃ bs', HeapInv cfg ⟨h', ptr.toList ++ s.live⟩ bs' ∧ Touches bs' s.heap h') ∧
      (∀ c, c + heapBlockSize ∈ s.live → (h'.mem c).size = (s.heap.mem c).size) ∧
      ∀ p, ptr = some p → heapRound size ≤ (h'.mem (p - heapBlockSize)).size := by
  obtain ⟨rfl, rfl, -⟩ | ⟨b, -, rfl, rfl, hfind⟩ := heapAlloc_cases hI.blocks ha
  · exact ⟨⟨bs, hI, .refl bs s.heap⟩, fun _ _ => rfl, by rintro p ⟨⟩⟩
  · have hfit : heapRound size ≤ (s.heap.mem b).size := by simpa using List.find?_some hfind
    obtain ⟨-, hle, hsize, bs', hI', htouch⟩ := hI.take (List.mem_of_find?_eq_some hfind)
      (heapRound_dvd size) (heapRound_min size) hfit
    refine ⟨⟨bs', hI', htouch⟩, hsize, ?_⟩
    rintro p ⟨⟩
    rwa [Nat.add_sub_cancel]

/-! ## Release -/

theorem le_of_getLast {l : List ℕ} (hl : l.Pairwise (· < ·)) {z c : ℕ} (hz : l.getLast? = some z)
    (hc : c ∈ l) : c ≤ z := by
  obtain ⟨i, rfl⟩ := List.getLast?_eq_some_iff.1 hz
  rcases List.mem_append.1 hc with hc | hc
  · exact Nat.le_of_lt ((List.pairwise_append.1 hl).2.2 c hc z (by simp))
  · rw [List.mem_singleton.1 hc]

theorem head_le {l : List ℕ} (hl : l.Pairwise (· < ·)) {z c : ℕ} (hz : l.head? = some z)
    (hc : c ∈ l) : z ≤ c := by
  obtain ⟨i, rfl⟩ := List.head?_eq_some_iff.1 hz
  rcases List.mem_cons.1 hc with rfl | hc
  · exact Nat.le_refl _
  · exact Nat.le_of_lt ((List.pairwise_cons.1 hl).1 c hc)

/-- `o` is the last free block below `b`. -/
def IsPrevFree (h : Heap) (bs : List ℕ) (b : ℕ) (o : Option ℕ) : Prop :=
  (∀ p, o = some p → p ∈ bs ∧ (h.mem p).used = false ∧ p < b) ∧
    ∀ c ∈ bs, (h.mem c).used = false → c < b → ∃ p, o = some p ∧ c ≤ p

/-- `o` is the first free block above `b`. -/
def IsNextFree (h : Heap) (bs : List ℕ) (b : ℕ) (o : Option ℕ) : Prop :=
  (∀ n, o = some n → n ∈ bs ∧ (h.mem n).used = false ∧ b < n) ∧
    ∀ c ∈ bs, (h.mem c).used = false → b < c → ∃ n, o = some n ∧ n ≤ c

/-- **Coalescing with the next block**: after it no free block follows `b`. -/
theorem Blocks.coalesceNext (hB : Blocks cfg h bs) (hb : b ∈ bs) (hbf : (h.mem b).used = false)
    {o : Option ℕ} (ho : IsNextFree h bs b o) (ht : FreeTouch h bs fun c d => c = b ∨ d = b)
    (hh : h' = coalesceNext h b o) :
    ∃ bs', Blocks cfg h' bs' ∧ FreeTouch h' bs' (fun _ d => d = b) ∧
      h'.mem.field HeapBlock.used = h.mem.field HeapBlock.used ∧
      (∀ c ∈ bs', c ∈ bs) ∧ (∀ c ∈ bs, c ≤ b ∨ (h.mem c).used = true → c ∈ bs') ∧
      (∀ c, c ≠ b → (h'.mem c).size = (h.mem c).size) ∧ Touches bs h h' := by
  by_cases hmerge : ∃ n, o = some n ∧ b + (h.mem b).size = n
  · obtain ⟨n, rfl, hbn⟩ := hmerge
    obtain ⟨hn, hnf, -⟩ := ho.1 n rfl
    obtain ⟨x, y, rfl⟩ := hB.tiles.adjacent hb (hbn ▸ hn)
    rw [Lib.Store.field_apply, hbn] at hB ht hb hn ⊢
    have heq : h' = absorbBlock h b n := by
      rw [hh]; unfold Gracemont.coalesceNext; simp only [if_pos hbn]
    obtain ⟨hB', hsize, hused⟩ := hB.absorb hbf hnf heq
    have hus : ∀ c, (h'.mem c).used = (h.mem c).used := fun c => congrFun hused c
    have hsz : ∀ c, c ≠ b → (h'.mem c).size = (h.mem c).size := fun c hc => by
      have := congrFun hsize c
      rwa [Function.update_of_ne hc] at this
    have hsb : (h'.mem b).size = (h.mem b).size + (h.mem n).size := by simpa using congrFun hsize b
    have hsub : ∀ c ∈ x ++ b :: y, c ∈ x ++ b :: n :: y := fun c hc => by
      rcases List.mem_append.1 hc with hc | hc
      · simp [hc]
      · rcases List.mem_cons.1 hc with rfl | hc <;> simp [*]
    refine ⟨_, hB', fun c hc d hd hcd hcf hdf => ?_, hused, hsub, fun c hc hcb => ?_, hsz,
      heq ▸ hB.absorb_touches hnf⟩
    · rw [hus] at hcf hdf
      by_cases hcb : c = b
      · -- a free block after the merged one was a neighbour of `n`
        subst hcb
        rw [hsb] at hcd
        have hmin : heapMinSize ≤ (h.mem n).size := hB.size_pos hn
        have hpos : 0 < heapMinSize := by decide
        rcases ht n hn d (hsub d hd) (by omega) hnf hdf with he | he
        · have := (ho.1 n rfl).2.2
          omega
        · exact he
      · rw [hsz c hcb] at hcd
        exact (ht c (hsub c hc) d (hsub d hd) hcd hcf hdf).resolve_left hcb
    · have hcn : c ≠ n := by
        rintro rfl
        rcases hcb with hcb | hcb
        · have := (ho.1 c rfl).2.2
          omega
        · rw [hnf] at hcb; cases hcb
      simpa [hcn] using hc
  · have heq : h' = h := by
      rw [hh]; unfold Gracemont.coalesceNext
      cases o with
      | none => rfl
      | some n => exact if_neg fun he => hmerge ⟨n, rfl, he⟩
    subst heq
    refine ⟨bs, hB, fun c hc d hd hcd hcf hdf => ?_, rfl, fun _ hc => hc, fun _ hc _ => hc,
      fun _ _ => rfl, .refl bs h'⟩
    rcases ht c hc d hd hcd hcf hdf with rfl | he
    · -- the free neighbour would be the first free block above
      exfalso
      have hmin : heapMinSize ≤ (h'.mem c).size := hB.size_pos hc
      have hpos : 0 < heapMinSize := by decide
      obtain ⟨n, rfl, hnd⟩ := ho.2 d hd hdf (by omega)
      obtain ⟨hn, -, hcn⟩ := ho.1 n rfl
      have := hB.apart hc hn hcn
      exact hmerge ⟨n, rfl, by omega⟩
    · exact he

/-- **Coalescing with the previous block**: then no two free blocks touch. -/
theorem Blocks.coalescePrev (hB : Blocks cfg h bs) (hb : b ∈ bs) (hbf : (h.mem b).used = false)
    {o : Option ℕ} (ho : IsPrevFree h bs b o) (ht : FreeTouch h bs fun _ d => d = b)
    (hh : h' = coalescePrev h b o) :
    ∃ bs', Blocks cfg h' bs' ∧ FreeTouch h' bs' (fun _ _ => False) ∧
      h'.mem.field HeapBlock.used = h.mem.field HeapBlock.used ∧
      (∀ c ∈ bs', c ∈ bs) ∧ (∀ c ∈ bs, (h.mem c).used = true → c ∈ bs') ∧
      (∀ c, (h.mem c).used = true → (h'.mem c).size = (h.mem c).size) ∧ Touches bs h h' := by
  by_cases hmerge : ∃ p, o = some p ∧ p + (h.mem p).size = b
  · obtain ⟨p, rfl, hpb⟩ := hmerge
    obtain ⟨hp, hpf, hlt⟩ := ho.1 p rfl
    obtain ⟨x, y, rfl⟩ := hB.tiles.adjacent hp (by simpa [hpb] using hb)
    rw [Lib.Store.field_apply, hpb] at hB ht hb hp ⊢
    have heq : h' = absorbBlock h p b := by
      rw [hh]; unfold Gracemont.coalescePrev; simp only [if_pos hpb]
    obtain ⟨hB', hsize, hused⟩ := hB.absorb hpf hbf heq
    have hus : ∀ c, (h'.mem c).used = (h.mem c).used := fun c => congrFun hused c
    have hsp : (h'.mem p).size = (h.mem p).size + (h.mem b).size := by simpa using congrFun hsize p
    have hsub : ∀ c ∈ x ++ p :: y, c ∈ x ++ p :: b :: y := fun c hc => by
      rcases List.mem_append.1 hc with hc | hc
      · simp [hc]
      · rcases List.mem_cons.1 hc with rfl | hc <;> simp [*]
    have hbn : b ∉ x ++ p :: y := fun hm => by
      obtain ⟨h1, h2⟩ := (List.append_assoc x [p] (b :: y) ▸ hB : Blocks cfg h ((x ++ [p]) ++ b :: y)).notMem
      rcases List.mem_append.1 hm with hm | hm
      · exact h1 (by simp [hm])
      · rcases List.mem_cons.1 hm with hm | hm
        exacts [h1 (by simp [hm]), h2 hm]
    refine ⟨_, hB', fun c hc d hd hcd hcf hdf => ?_, hused, hsub, fun c hc hcu => ?_,
      fun c hcu => ?_, heq ▸ hB.absorb_touches hbf⟩
    · rw [hus] at hcf hdf
      refine hbn ?_
      by_cases hcp : c = p
      · subst hcp
        rw [hsp] at hcd
        rw [← ht b hb d (hsub d hd) (by omega) hbf hdf]
        exact hd
      · have hsz : (h'.mem c).size = (h.mem c).size := by
          have := congrFun hsize c
          rwa [Function.update_of_ne hcp] at this
        rw [hsz] at hcd
        rw [← ht c (hsub c hc) d (hsub d hd) hcd hcf hdf]
        exact hd
    · have hcb : c ≠ b := by rintro rfl; rw [hbf] at hcu; cases hcu
      simpa [hcb] using hc
    · have hcp : c ≠ p := by rintro rfl; rw [hpf] at hcu; cases hcu
      have := congrFun hsize c
      rwa [Function.update_of_ne hcp] at this
  · have heq : h' = h := by
      rw [hh]; unfold Gracemont.coalescePrev
      cases o with
      | none => rfl
      | some p => exact if_neg fun he => hmerge ⟨p, rfl, he⟩
    subst heq
    refine ⟨bs, hB, fun c hc d hd hcd hcf hdf => ?_, rfl, fun _ hc => hc, fun _ hc _ => hc,
      fun _ _ => rfl, .refl bs h'⟩
    -- the free neighbour would be the last free block below
    obtain rfl := ht c hc d hd hcd hcf hdf
    have hmin : heapMinSize ≤ (h'.mem c).size := hB.size_pos hc
    have hpos : 0 < heapMinSize := by decide
    obtain ⟨p, rfl, hcp⟩ := ho.2 c hc hcf (by omega)
    obtain ⟨hp, -, hpd⟩ := ho.1 p rfl
    have := hB.apart hp hd hpd
    rcases Nat.lt_or_eq_of_le hcp with hlt | rfl
    · have := hB.apart hc hp hlt
      omega
    · exact hmerge ⟨c, rfl, hcd.symm⟩

/-- The place of a block in the free list, once it is marked unused. -/
theorem Blocks.isNextFree (hB : Blocks cfg h (x ++ b :: y))
    (hus : ∀ c, c ≠ b → (h'.mem c).used = (h.mem c).used) :
    IsNextFree h' (x ++ b :: y) b (freeBlocks h y).head? := by
  have hsort : (freeBlocks h y).Pairwise (· < ·) :=
    (hB.tiles.sorted.sublist (by simp)).sublist List.filter_sublist
  have hpos := hB.tiles.around.2.1
  refine ⟨fun n hn => ?_, fun c hc hcf hbc => ?_⟩
  · obtain ⟨hny, hnf⟩ := mem_freeBlocks.1 (List.mem_of_head? hn)
    have := hB.after hny
    rw [Lib.Store.field_apply] at hpos
    have hne : n ≠ b := by omega
    exact ⟨by simp [hny], (hus n hne).trans hnf, by omega⟩
  · have hcy : c ∈ y := by
      rcases List.mem_append.1 hc with hc | hc
      · have := hB.before hc
        omega
      · exact (List.mem_cons.1 hc).resolve_left (by omega)
    have hcm : c ∈ freeBlocks h y := mem_freeBlocks.2 ⟨hcy, hus c (by omega) ▸ hcf⟩
    cases hf : freeBlocks h y with
    | nil => rw [hf] at hcm; cases hcm
    | cons n l => exact ⟨n, rfl, head_le hsort (by rw [hf]; rfl) hcm⟩

theorem Blocks.isPrevFree (hB : Blocks cfg h (x ++ b :: y))
    (hus : ∀ c, c ≠ b → (h'.mem c).used = (h.mem c).used) (hsub : ∀ c ∈ bs, c ∈ x ++ b :: y)
    (hkeep : ∀ c ∈ x ++ b :: y, c ≤ b → c ∈ bs) :
    IsPrevFree h' bs b (freeBlocks h x).getLast? := by
  have hsort : (freeBlocks h x).Pairwise (· < ·) :=
    (hB.tiles.sorted.sublist (by simp)).sublist List.filter_sublist
  refine ⟨fun p hp => ?_, fun c hc hcf hcb => ?_⟩
  · obtain ⟨hpx, hpf⟩ := mem_freeBlocks.1 (List.mem_of_getLast? hp)
    have h1 := hB.before hpx
    have h2 := hB.size_pos (b := p) (by simp [hpx])
    have hmin : 0 < heapMinSize := by decide
    have hne : p ≠ b := by omega
    exact ⟨hkeep p (by simp [hpx]) (by omega), (hus p hne).trans hpf, by omega⟩
  · have hcx : c ∈ x := by
      rcases List.mem_append.1 (hsub c hc) with hc | hc
      · exact hc
      · rcases List.mem_cons.1 hc with hc | hc
        · omega
        · have := hB.after hc
          omega
    have hcm : c ∈ freeBlocks h x := mem_freeBlocks.2 ⟨hcx, hus c (by omega) ▸ hcf⟩
    cases hl : (freeBlocks h x).getLast? with
    | none => rw [List.getLast?_eq_none_iff.1 hl] at hcm; cases hcm
    | some p => exact ⟨p, rfl, le_of_getLast hsort hl hcm⟩

/-- The block of a live pointer. -/
theorem HeapInv.block (hI : HeapInv cfg s bs) {p : ℕ} (hp : p ∈ s.live) :
    ∃ x y, bs = x ++ (p - heapBlockSize) :: y ∧ (s.heap.mem (p - heapBlockSize)).used = true ∧
      p = p - heapBlockSize + heapBlockSize := by
  obtain ⟨b, hb, hbu, rfl⟩ := (hI.live p).1 hp
  rw [Nat.add_sub_cancel]
  obtain ⟨x, y, rfl⟩ := List.append_of_mem hb
  exact ⟨x, y, rfl, hbu, rfl⟩

/-- The loop of `heap_free` on a block that is in use. -/
theorem Blocks.place (hB : Blocks cfg h (x ++ b :: y)) (hbu : (h.mem b).used = true) :
    Lib.Loop.Returns (placeBody (h.modify b fun c => { c with used := false }).mem b)
      (none, h.freeList) ((freeBlocks h x).getLast?, (freeBlocks h y).head?) := by
  have hch := hB.free
  rw [freeBlocks_append, freeBlocks_cons_used hbu] at hch
  have hret := place_returns (h.modify b fun c => { c with used := false }).mem (b := b)
    (by simp) (fun c hc => ?_) (fun c hc => ?_) hch.seg
  · rwa [← hch.head_eq, Option.or_none] at hret
  · have h1 := hB.before (mem_freeBlocks.1 hc).1
    have h2 := hB.size_pos (b := c) (by simp [(mem_freeBlocks.1 hc).1])
    have hmin : 0 < heapMinSize := by decide
    omega
  · have h1 := hB.after (mem_freeBlocks.1 hc).1
    have h2 := hB.size_pos (b := b) (by simp)
    have hmin : 0 < heapMinSize := by decide
    omega

theorem heapFree_returns (hI : HeapInv cfg s bs) {ptr : Option ℕ}
    (hp : ∀ p, ptr = some p → p ∈ s.live) : ∃ fuel h', heapFree fuel s.heap ptr = some h' := by
  cases ptr with
  | none => exact ⟨0, s.heap, rfl⟩
  | some p =>
    obtain ⟨x, y, rfl, hbu, -⟩ := hI.block (hp p rfl)
    obtain ⟨fuel, hf⟩ := hI.blocks.place hbu
    refine ⟨fuel, ?_⟩
    simp only [heapFree, Heap.modify_freeList, hf]
    exact ⟨_, rfl⟩

/-- **`heap_free`** of a live pointer keeps the invariant, and the sizes of the other
    live blocks. -/
theorem HeapInv.free (hI : HeapInv cfg s bs) {p fuel : ℕ} (hp : p ∈ s.live)
    (hf : heapFree fuel s.heap (some p) = some h') :
    (∃ bs', HeapInv cfg ⟨h', s.live.filter fun q => some q ≠ some p⟩ bs' ∧ ∀ c ∈ bs', c ∈ bs) ∧
      (∀ c, c + heapBlockSize ∈ s.live → c + heapBlockSize ≠ p →
        (h'.mem c).size = (s.heap.mem c).size) ∧ Touches bs s.heap h' := by
  obtain ⟨x, y, rfl, hbu, hpb⟩ := hI.block hp
  obtain ⟨r, hr, hf⟩ := Option.bind_eq_some_iff.1 hf
  rw [(hI.blocks.place hbu).eq_of_run hr] at hf
  generalize p - heapBlockSize = b at *
  obtain ⟨hB₁, hsize₁, hused₁⟩ := hI.blocks.insert hbu rfl
  simp only [Option.some.injEq] at hf
  generalize hh₁ : insertBlock (s.heap.modify b fun c => { c with used := false }) b
    (freeBlocks s.heap x).getLast? (freeBlocks s.heap y).head? = h₁ at *
  have hb₁ : (h₁.mem b).used = false := by simpa using congrFun hused₁ b
  have hother₁ : ∀ c, c ≠ b → (h₁.mem c).used = (s.heap.mem c).used := fun c hc => by
    have := congrFun hused₁ c
    rwa [Function.update_of_ne hc] at this
  have ht₁ : FreeTouch h₁ (x ++ b :: y) fun c d => c = b ∨ d = b := by
    intro c hc d hd hcd hcf hdf
    by_contra hne
    have hcb : c ≠ b := fun he => hne (Or.inl he)
    have hdb : d ≠ b := fun he => hne (Or.inr he)
    have hsz : (h₁.mem c).size = (s.heap.mem c).size := congrFun hsize₁ c
    exact hI.coalesced c hc d hd (hsz ▸ hcd) (hother₁ c hcb ▸ hcf) (hother₁ d hdb ▸ hdf)
  obtain ⟨bs₂, hB₂, ht₂, hused₂, hsub₂, hkeep₂, hsize₂, htouch₂⟩ := hB₁.coalesceNext (by simp) hb₁
    (hI.blocks.isNextFree hother₁) ht₁ rfl
  have hus₂ : ∀ c, ((coalesceNext h₁ b (freeBlocks s.heap y).head?).mem c).used = (h₁.mem c).used :=
    fun c => congrFun hused₂ c
  have hprev := hI.blocks.isPrevFree (fun c hc => (hus₂ c).trans (hother₁ c hc)) hsub₂
    fun c hc hcb => hkeep₂ c hc (Or.inl hcb)
  obtain ⟨bs₃, hB₃, ht₃, hused₃, hsub₃, hkeep₃, hsize₃, htouch₃⟩ := hB₂.coalescePrev
    (hkeep₂ b (by simp) (Or.inl (Nat.le_refl _))) ((hus₂ b).trans hb₁) hprev ht₂ rfl
  rw [hf] at hB₃ ht₃ hused₃ hsize₃ htouch₃
  have hus₃ : ∀ c, c ≠ b → (h'.mem c).used = (s.heap.mem c).used := fun c hc =>
    (congrFun hused₃ c).trans ((hus₂ c).trans (hother₁ c hc))
  have hb₃ : (h'.mem b).used = false := (congrFun hused₃ b).trans ((hus₂ b).trans hb₁)
  have htouch₁ : Touches (x ++ b :: y) s.heap h₁ := hh₁ ▸ insert_touches (by simp)
    (fun c hc => by simp [(mem_freeBlocks.1 (List.mem_of_getLast? hc)).1])
    fun c hc => by simp [(mem_freeBlocks.1 (List.mem_of_head? hc)).1]
  refine ⟨⟨bs₃, ⟨hB₃, ht₃, fun q => ?_, hI.nodup.filter _⟩, fun c hc => hsub₂ c (hsub₃ c hc)⟩,
    fun c hc hcp => ?_, htouch₁.trans (htouch₂.trans (htouch₃.mono hsub₂))⟩
  swap
  · obtain ⟨d, -, hdu, hcd⟩ := (hI.live _).1 hc
    obtain rfl : c = d := Nat.add_right_cancel hcd
    have hcb : c ≠ b := by rintro rfl; exact hcp hpb.symm
    have hcu : (h₁.mem c).used = true := (hother₁ c hcb).trans hdu
    exact (hsize₃ c ((hus₂ c).trans hcu)).trans ((hsize₂ c hcb).trans (congrFun hsize₁ c))
  have hq : q ∈ s.live.filter (fun q => some q ≠ some p) ↔ q ∈ s.live ∧ q ≠ p := by simp
  show q ∈ s.live.filter _ ↔ _
  rw [hq, hI.live]
  constructor
  · rintro ⟨⟨c, hc, hcu, rfl⟩, hcp⟩
    have hcb : c ≠ b := by rintro rfl; exact hcp hpb.symm
    have hcu₁ : (h₁.mem c).used = true := (hother₁ c hcb).trans hcu
    exact ⟨c, hkeep₃ c (hkeep₂ c hc (Or.inr hcu₁)) ((hus₂ c).trans hcu₁), (hus₃ c hcb).trans hcu, rfl⟩
  · rintro ⟨c, hc, hcu, rfl⟩
    have hcb : c ≠ b := by rintro rfl; rw [hb₃] at hcu; cases hcu
    exact ⟨⟨c, hsub₂ c (hsub₃ c hc), hus₃ c hcb ▸ hcu, rfl⟩, by omega⟩

/-! ## Runs -/

theorem heapInv_init (cfg : HeapConfig) (mem : Lib.Store ℕ HeapBlock) :
    HeapInv cfg ⟨heapInit cfg mem, []⟩ [cfg.heapMemory] := by
  have hmem : (heapInit cfg mem).mem cfg.heapMemory = ⟨cfg.heapSize, false, none, none⟩ := by
    simp [heapInit]
  have hmin : 0 < heapMinSize := by decide
  have hsize := cfg.size_min
  constructor
  · constructor
    · refine ⟨rfl, ?_, ?_⟩
      · rw [Lib.Store.field_apply, hmem]
        exact Nat.lt_of_lt_of_le hmin hsize
      · rw [Lib.Store.field_apply, hmem]; rfl
    · intro b hb
      rw [List.mem_singleton.1 hb, hmem]
      exact ⟨cfg.size_aligned, cfg.size_min⟩
    · have hfr : freeBlocks (heapInit cfg mem) [cfg.heapMemory] = [cfg.heapMemory] := by
        simp [freeBlocks, hmem]
      rw [hfr]
      refine ⟨rfl, by simp, ?_⟩
      simp [hmem]
  · intro b hb c hc hcb _ _
    rw [List.mem_singleton.1 hb, List.mem_singleton.1 hc, hmem] at hcb
    simp only at hcb
    omega
  · simp [hmem]
  · exact List.nodup_nil

/-- Live payloads are apart from all headers. -/
theorem HeapInv.header_apart (hI : HeapInv cfg s bs) {p a : ℕ} (hp : p ∈ s.live) (hb : b ∈ bs)
    (ha : a ∈ payload s.heap p) : a < b ∨ b + heapBlockSize ≤ a := by
  obtain ⟨c, hc, -, rfl⟩ := (hI.live p).1 hp
  obtain ⟨h1, h2⟩ := ha
  rw [Nat.add_sub_cancel] at h2
  have hbb : heapBlockSize ≤ heapMinSize := by decide
  rcases Nat.lt_trichotomy c b with hcb | rfl | hcb
  · have := hI.blocks.apart hc hb hcb
    omega
  · omega
  · have := hI.blocks.apart hb hc hcb
    have := hI.blocks.size_pos hb
    omega

/-- The headers are inside of the heap. -/
theorem Blocks.header_le (hB : Blocks cfg h bs) {a : ℕ}
    (ha : a < cfg.heapMemory ∨ cfg.heapMemory + cfg.heapSize ≤ a) :
    ∀ b ∈ bs, a < b ∨ b + heapBlockSize ≤ a := by
  intro b hb
  have hmin : heapBlockSize ≤ heapMinSize := by decide
  have := hB.size_le hb
  have := hB.size_pos hb
  omega

theorem payload_congr {p : ℕ}
    (hsize : (h'.mem (p - heapBlockSize)).size = (h.mem (p - heapBlockSize)).size) :
    payload h' p = payload h p := by
  unfold payload
  rw [hsize]

/-- The order of the live pointers does not matter. -/
theorem HeapInv.perm (hI : HeapInv cfg s bs) {live : List ℕ} (hp : live.Perm s.live) :
    HeapInv cfg ⟨s.heap, live⟩ bs :=
  ⟨hI.blocks, hI.coalesced, fun p => hp.mem_iff.trans (hI.live p), hp.nodup_iff.2 hI.nodup⟩

/-- The headers determine what is in use. -/
theorem HeapInv.live_iff {live live' bs' : List ℕ} (hI : HeapInv cfg ⟨h, live⟩ bs)
    (hI' : HeapInv cfg ⟨h, live'⟩ bs') (p : ℕ) : p ∈ live ↔ p ∈ live' := by
  obtain rfl := hI.blocks.tiles.unique hI'.blocks.tiles
  exact (hI.live p).trans (hI'.live p).symm

/-- A live payload is inside of the heap. -/
theorem HeapInv.payload_le (hI : HeapInv cfg s bs) {p a : ℕ} (hp : p ∈ s.live)
    (ha : a ∈ payload s.heap p) : cfg.heapMemory ≤ a ∧ a < cfg.heapMemory + cfg.heapSize := by
  obtain ⟨b, hb, -, rfl⟩ := (hI.live p).1 hp
  obtain ⟨h1, h2⟩ := ha
  rw [Nat.add_sub_cancel] at h2
  have := hI.blocks.size_le hb
  omega

/-- The invariant depends on the headers of the blocks only. -/
theorem HeapInv.congr (hI : HeapInv cfg s bs) {h : Heap} (hm : ∀ b ∈ bs, h.mem b = s.heap.mem b)
    (hf : h.freeList = s.heap.freeList) : HeapInv cfg ⟨h, s.live⟩ bs := by
  refine ⟨hI.blocks.congr hm hf, fun b hb c hc hcb hbf hcf => ?_, fun p => ?_, hI.nodup⟩
  · simp only [hm b hb, hm c hc] at hcb hbf hcf
    exact hI.coalesced b hb c hc hcb hbf hcf
  · rw [hI.live]
    constructor
    · rintro ⟨b, hb, hbu, rfl⟩
      exact ⟨b, hb, by simpa [hm b hb] using hbu, rfl⟩
    · rintro ⟨b, hb, hbu, rfl⟩
      exact ⟨b, hb, by simpa [hm b hb] using hbu, rfl⟩

/-- **Stores of the application** do not touch the headers. -/
theorem HeapInv.store (hI : HeapInv cfg s bs) {mem : Lib.Store ℕ HeapBlock}
    (hm : ∀ b, (∀ p ∈ s.live, ∀ x ∈ payload s.heap p, x < b ∨ b + heapBlockSize ≤ x) →
      mem b = s.heap.mem b) : HeapInv cfg ⟨⟨mem, s.heap.freeList⟩, s.live⟩ bs :=
  hI.congr (fun b hb => hm b fun _ hp _ hx => hI.header_apart hp hb hx) rfl

theorem HeapInv.step (hI : HeapInv cfg s bs) {e : HeapEvent} (hs : heapStep s e s') :
    ∃ bs', HeapInv cfg s' bs' := by
  cases e with
  | alloc size =>
    obtain ⟨fuel, h, ptr, ha, rfl⟩ := hs
    obtain ⟨⟨bs', hI', -⟩, -⟩ := hI.alloc ha
    exact ⟨bs', hI'⟩
  | free ptr =>
    obtain ⟨hp, fuel, h, hf, rfl⟩ := hs
    cases ptr with
    | none =>
      cases hf
      refine ⟨bs, hI.blocks, hI.coalesced, fun p => ?_, hI.nodup.filter _⟩
      rw [← hI.live]; simp
    | some p =>
      obtain ⟨⟨bs', hI', -⟩, -⟩ := hI.free (hp p rfl) hf
      exact ⟨bs', hI'⟩
  | store mem =>
    obtain ⟨hm, rfl⟩ := hs
    exact ⟨bs, hI.store hm⟩

theorem heapInv_run {tr : List HeapEvent} (hr : (heapLts cfg).Run tr s) :
    ∃ bs, HeapInv cfg s bs := by
  refine hr.rule (P := fun _ s => ∃ bs, HeapInv cfg s bs) ?_ ?_
  · rintro s ⟨mem, rfl⟩
    exact ⟨_, heapInv_init cfg mem⟩
  · rintro tr s e s' ⟨bs, hI⟩ hs
    exact hI.step hs

/-! ## The invariant in full -/

/-- What holds of the heap and its live allocations, with the blocks `bs`. -/
structure HeapWf (cfg : HeapConfig) (s : HeapUse) (bs : List ℕ) : Prop where
  tiles : Lib.Tiles (s.heap.mem.field HeapBlock.size) cfg.heapMemory bs cfg.heapEnd
  sizes : ∀ b ∈ bs, heapBlockAlign ∣ (s.heap.mem b).size ∧ heapMinSize ≤ (s.heap.mem b).size
  free : ∃ fl, Lib.Chain (s.heap.mem.field HeapBlock.next) (s.heap.mem.field HeapBlock.prev)
    s.heap.freeList fl ∧ fl.Pairwise (· < ·) ∧ ∀ b, b ∈ fl ↔ b ∈ bs ∧ (s.heap.mem b).used = false
  coalesced : ∀ b ∈ bs, ∀ c ∈ bs, c = b + (s.heap.mem b).size →
    ¬ ((s.heap.mem b).used = false ∧ (s.heap.mem c).used = false)
  live : ∀ p, p ∈ s.live ↔ ∃ b ∈ bs, (s.heap.mem b).used = true ∧ p = b + heapBlockSize
  disjoint : s.live.Pairwise fun p q => Disjoint (payload s.heap p) (payload s.heap q)
  stats : ∃ fuel stats, heapGetStats cfg fuel s.heap = some (cfg.heapEnd, stats) ∧
    stats.totalSize = cfg.heapSize ∧ stats.usedSize + stats.freeSize = stats.totalSize
  empty : s.live = [] → bs = [cfg.heapMemory] ∧ s.heap.freeList = some cfg.heapMemory ∧
    s.heap.mem cfg.heapMemory = ⟨cfg.heapSize, false, none, none⟩
  alloc_returns : ∀ size, ∃ fuel r, heapAlloc fuel s.heap size = some r
  free_returns : ∀ p ∈ s.live, ∃ fuel h, heapFree fuel s.heap (some p) = some h

theorem HeapInv.disjoint (hI : HeapInv cfg s bs) {p q : ℕ} (hp : p ∈ s.live) (hq : q ∈ s.live)
    (hpq : p ≠ q) : Disjoint (payload s.heap p) (payload s.heap q) := by
  obtain ⟨b, hb, -, rfl⟩ := (hI.live p).1 hp
  obtain ⟨c, hc, -, rfl⟩ := (hI.live q).1 hq
  refine Set.disjoint_left.2 fun x hx hx' => ?_
  obtain ⟨h1, h2⟩ := hx
  obtain ⟨h3, h4⟩ := hx'
  rw [Nat.add_sub_cancel] at h2 h4
  rcases Nat.lt_trichotomy b c with hbc | rfl | hbc
  · have := hI.blocks.apart hb hc hbc
    omega
  · exact hpq rfl
  · have := hI.blocks.apart hc hb hbc
    omega

/-- Without live allocations there is one block. -/
theorem HeapInv.empty (hI : HeapInv cfg s bs) (hl : s.live = []) :
    bs = [cfg.heapMemory] ∧ s.heap.freeList = some cfg.heapMemory ∧
      s.heap.mem cfg.heapMemory = ⟨cfg.heapSize, false, none, none⟩ := by
  have hfree : ∀ b ∈ bs, (s.heap.mem b).used = false := fun b hb => by
    by_contra hu
    have := (hI.live _).2 ⟨b, hb, by simpa using hu, rfl⟩
    rw [hl] at this; cases this
  have hend : cfg.heapMemory < cfg.heapEnd := by
    have := cfg.size_min
    have hmin : 0 < heapMinSize := by decide
    unfold HeapConfig.heapEnd
    omega
  have htiles := hI.blocks.tiles
  rcases bs with _ | ⟨b, bs⟩
  · exact absurd htiles (Nat.ne_of_lt hend)
  obtain ⟨rfl, -, hrest⟩ := htiles
  rcases bs with _ | ⟨c, bs⟩
  · have hch := hI.blocks.free
    rw [freeBlocks_cons_free (hfree _ (by simp)), show freeBlocks s.heap [] = [] from rfl] at hch
    obtain ⟨hp, hn, -⟩ := hch.seg
    refine ⟨rfl, hch.head_eq, ?_⟩
    have hsize : cfg.heapMemory + (s.heap.mem cfg.heapMemory).size = cfg.heapEnd := hrest
    have hu := hfree cfg.heapMemory (by simp)
    cases hm : s.heap.mem cfg.heapMemory with
    | mk size used next prev =>
      simp only [Lib.Store.field_apply, hm] at hp hn hsize hu
      unfold HeapConfig.heapEnd at hsize
      obtain rfl : size = cfg.heapSize := by omega
      simp [hp, hn, hu]
  · -- two first blocks would both be free
    exact (hI.coalesced cfg.heapMemory (by simp) c (by simp) hrest.1 (hfree _ (by simp))
      (hfree c (by simp))).elim

/-- **The heap invariant**: it holds after any sequence of allocations, releases
    of live pointers and stores to live payloads. -/
theorem heap_wf (cfg : HeapConfig) {tr : List HeapEvent} {s : HeapUse}
    (hr : (heapLts cfg).Run tr s) : ∃ bs, HeapWf cfg s bs := by
  obtain ⟨bs, hI⟩ := heapInv_run hr
  refine ⟨bs, hI.blocks.tiles, hI.blocks.sizes, ⟨freeBlocks s.heap bs, hI.blocks.free,
    hI.blocks.tiles.sorted.sublist List.filter_sublist, fun b => mem_freeBlocks⟩,
    fun b hb c hc hcb hbc => hI.coalesced b hb c hc hcb hbc.1 hbc.2, hI.live, ?_, ?_, hI.empty,
    heapAlloc_returns hI.blocks, fun p hp => heapFree_returns hI (by rintro q ⟨⟩; exact hp)⟩
  · exact hI.nodup.imp_of_mem fun hp hq hpq => hI.disjoint hp hq hpq
  · have hlt := cfg.size_lt
    have hend : cfg.heapEnd - cfg.heapMemory = cfg.heapSize := by
      unfold HeapConfig.heapEnd; omega
    obtain ⟨stats, ⟨fuel, hf⟩, htot, hsum⟩ := stats_returns ⟨cfg.heapSize, 0, 0, 0, 0⟩
      hI.blocks.tiles (by simp only; omega)
    exact ⟨fuel, stats, hf, htot, by simp only at htot hsum; omega⟩

/-- The heap of 64 KB at address 0x100000. -/
def demoHeap : HeapConfig :=
  ⟨0x100000, 0x10000, by decide, by decide, by decide, by decide⟩

/-- An allocation of 100 bytes and its release. -/
theorem heap_wf_alloc_free : ∃ s bs, s.live = [] ∧ HeapWf demoHeap s bs := by
  have h0 : (heapLts demoHeap).Run [] ⟨heapInit demoHeap fun _ => ⟨0, false, none, none⟩, []⟩ :=
    .start ⟨_, rfl⟩
  have h1 := h0.snoc (e := HeapEvent.alloc 100) ⟨2, _, _, rfl, rfl⟩
  have h2 := h1.snoc (e := HeapEvent.free (some 0x100020)) ⟨by rintro p ⟨⟩; decide, 2, _, rfl, rfl⟩
  obtain ⟨bs, hbs⟩ := heap_wf demoHeap h2
  exact ⟨_, bs, rfl, hbs⟩

end Gracemont
