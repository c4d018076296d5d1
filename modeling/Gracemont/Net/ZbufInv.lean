/-
  Gracemont networking — reference counting of zero-copy buffers.

  The pool is run together with the number of outstanding references to each
  buffer.  `refcount` is half of the 32-bit word that the atomics work on, and
  `zbuf_free` compares the whole word (the new one on ARM64) with 1, so that
  the flags count as references: `RefSafe` says that a call does not meet this.

  * `ZbufState`, `ZbufOp`, `zbufLts`: the runs of the pool and its users;
  * `Conserved`: what the free list and `free_count` are meant to satisfy;
  * `zbuf_conserved_iff`: a run is conserving exactly if its calls are safe.
-/
import Mathlib.Data.List.Perm.Subperm
import Gracemont.Lib.Trace
import Gracemont.Net.Zbuf

namespace Gracemont

variable {α : Type}

/-- The pool, and the number of outstanding references to each buffer. -/
structure ZbufState (α : Type) where
  pool : ZbufPool α
  refs : Lib.Store α ℕ

/-- The calls, and `store`: the holder of a reference assigns to the fields of
    a buffer, all but `refcount`; it does not set `ZBUF_F_SHARED`. -/
inductive ZbufOp (α : Type) where
  | alloc (size : BitVec 16)
  | allocTx (size : BitVec 16)
  | allocRx (size : BitVec 16)
  | ref (zb : α)
  | free (zb : α)
  | unref (zb : α)
  | store (zb : α) (z : Zbuf α)

/-- **Conservation.**  The free list holds exactly the buffers without
    outstanding references, and `free_count` is their number. -/
structure Conserved (cfg : ZbufConfig α) (s : ZbufState α) : Prop where
  list : ∃ l, Lib.Chain (s.pool.zb.field Zbuf.next) (s.pool.zb.field Zbuf.prev) s.pool.freeList l ∧
    (∀ b, b ∈ l ↔ b ∈ cfg.buffers ∧ s.refs b = 0) ∧ s.pool.freeCount.toNat = l.length
  count : s.pool.freeCount.toNat = cfg.buffers.countP fun b => s.refs b = 0

/-- Dropping a reference to a buffer in this state does what it should. -/
def DropSafe (port : Port) (z : Zbuf α) : Prop :=
  (z.flags ≠ 0 → z.refcount ≠ 1) ∧ (port = .arm64 → z.flags = 0 → z.refcount ≠ 2)

/-- The calls that do not meet the other half of the reference word. -/
def RefSafe (port : Port) (s : ZbufState α) : ZbufOp α → Prop
  | .ref zb => (s.pool.zb zb).refcount ≠ 0xFFFF
  | .free zb | .unref zb => DropSafe port (s.pool.zb zb)
  | _ => True

/-! ## The inductive invariant -/

/-- The invariant, for the buffers `l` of the free list. -/
structure ZbufInv (cfg : ZbufConfig α) (s : ZbufState α) (l : List α) : Prop where
  chain : Lib.Chain (s.pool.zb.field Zbuf.next) (s.pool.zb.field Zbuf.prev) s.pool.freeList l
  free : ∀ b, b ∈ l ↔ b ∈ cfg.buffers ∧ s.refs b = 0
  known : ∀ b, 0 < s.refs b → b ∈ cfg.buffers
  count : s.pool.freeCount.toNat = l.length
  held : ∀ b, 0 < s.refs b → (s.pool.zb b).refcount.toNat = s.refs b ∧
    (s.pool.zb b).flags &&& zbufFShared = 0

variable {cfg : ZbufConfig α} {port : Port} {s s' : ZbufState α} {l : List α} {b : α}

theorem ZbufInv.conserved (h : ZbufInv cfg s l) : Conserved cfg s := by
  have hperm : l.Perm (cfg.buffers.filter fun b => s.refs b = 0) := by
    refine (List.perm_ext_iff_of_nodup h.chain.nodup (cfg.nodup.filter _)).2 fun b => ?_
    simp [h.free]
  refine ⟨⟨l, h.chain, h.free, h.count⟩, ?_⟩
  rw [h.count, hperm.length_eq, List.countP_eq_length_filter]

theorem ZbufInv.notMem (h : ZbufInv cfg s l) (hb : 0 < s.refs b) : b ∉ l := by
  intro hm
  have := ((h.free b).1 hm).2
  omega

/-- What `zbuf_free` compares with 1, and what it should compare with 1. -/
theorem dropSafe_iff {z : Zbuf α} (hr : 0 < z.refcount.toNat) : DropSafe port z ↔
    (1 < (atomicSub port z.word 1).2 ↔ 1 < z.refcount.toNat) := by
  have hword := z.word_toNat
  obtain ⟨hsub, -, -⟩ := z.setWord_sub hr
  have hflags : z.flags = 0 ↔ z.flags.toNat = 0 := BitVec.toNat_inj.symm
  have h1 : z.refcount = 1 ↔ z.refcount.toNat = 1 := BitVec.toNat_inj.symm
  have h2 : z.refcount = 2 ↔ z.refcount.toNat = 2 := BitVec.toNat_inj.symm
  have hone : (1 : BitVec 32).toNat = 1 := rfl
  unfold DropSafe
  rw [Ne, Ne, Ne, hflags, h1, h2, BitVec.lt_def, hone]
  cases port with
  | arm64 =>
    simp only [atomicSub, hsub, true_implies]
    omega
  | x86_64 =>
    simp only [atomicSub, hword, reduceCtorEq, false_implies, and_true]
    omega

/-! ## Runs -/

variable [DecidableEq α]

/-- One call, by a holder of a reference. -/
def zbufStep (port : Port) (s : ZbufState α) : ZbufOp α → Option (ZbufState α)
  | .alloc size =>
    let (pool, zb) := zbufAlloc s.pool size
    some ⟨pool, s.refs.modifyAt zb (· + 1)⟩
  | .allocTx size =>
    let (pool, zb) := zbufAllocTx s.pool size
    some ⟨pool, s.refs.modifyAt zb (· + 1)⟩
  | .allocRx size =>
    let (pool, zb) := zbufAllocRx s.pool size
    some ⟨pool, s.refs.modifyAt zb (· + 1)⟩
  | .ref zb =>
    if 0 < s.refs zb then some ⟨zbufRef port s.pool (some zb), s.refs.modify zb (· + 1)⟩
    else none
  | .free zb =>
    if 0 < s.refs zb then some ⟨zbufFree port s.pool (some zb), s.refs.modify zb (· - 1)⟩
    else none
  | .unref zb =>
    if 0 < s.refs zb then some ⟨zbufUnref port s.pool (some zb), s.refs.modify zb (· - 1)⟩
    else none
  | .store zb z =>
    if 0 < s.refs zb ∧ z.refcount = (s.pool.zb zb).refcount ∧ z.flags &&& zbufFShared = 0 then
      some { s with pool.zb := Function.update s.pool.zb zb z }
    else none

/-- The pool and its users, from `zbuf_pool_init`. -/
def zbufLts (cfg : ZbufConfig α) (port : Port) : Lib.Lts (ZbufState α) (ZbufOp α) :=
  .ofFun (fun s => ∃ m, s = ⟨zbufPoolInit cfg m, fun _ => 0⟩) (zbufStep port)

/-- The buffer whose references a call counts. -/
def ZbufOp.counted : ZbufOp α → Option α
  | .ref zb | .free zb | .unref zb => some zb
  | _ => none

/-- After the call the buffers are conserved, and if it counts references, the
    flags are as before. -/
def Conserves (cfg : ZbufConfig α) (port : Port) (s : ZbufState α) (op : ZbufOp α) : Prop :=
  ∀ s', zbufStep port s op = some s' → Conserved cfg s' ∧
    (op.counted ≠ none → ∀ b, (s'.pool.zb b).flags = (s.pool.zb b).flags)

/-! ## What a call preserves -/

/-- The loop of `zbuf_pool_init`. -/
theorem foldl_link_chain (bs : List α) : ∀ (l : List α) (pool : ZbufPool α), (bs ++ l).Nodup →
    Lib.Chain (pool.zb.field Zbuf.next) (pool.zb.field Zbuf.prev) pool.freeList l →
    ∃ pool', bs.foldl (fun pool zb =>
        ({ pool with zb := pool.zb.modify zb Zbuf.fresh } : ZbufPool α).link zb) pool = pool' ∧
      Lib.Chain (pool'.zb.field Zbuf.next) (pool'.zb.field Zbuf.prev) pool'.freeList
        (bs.reverse ++ l) ∧ pool'.freeCount = pool.freeCount := by
  induction bs with
  | nil => intro l pool _ h; exact ⟨pool, rfl, h, rfl⟩
  | cons b bs ih =>
    intro l pool hnd h
    have hb : b ∉ l := fun hm => (List.nodup_cons.1 hnd).1 (List.mem_append_right _ hm)
    have hfresh : Lib.Chain ((pool.zb.modify b Zbuf.fresh).field Zbuf.next)
        ((pool.zb.modify b Zbuf.fresh).field Zbuf.prev) pool.freeList l := by
      rw [Lib.Store.field_modify_same Zbuf.next _ _ fun _ => by rfl,
        Lib.Store.field_modify_same Zbuf.prev _ _ fun _ => by rfl]
      exact h
    obtain ⟨pool', hp, hc, hf⟩ := ih _ _ (List.nodup_middle.2 hnd)
      (ZbufPool.link_chain { pool with zb := pool.zb.modify b Zbuf.fresh } hfresh hb)
    exact ⟨pool', hp, by simpa using hc, hf⟩

/-- `zbuf_pool_init`: all buffers are free. -/
theorem zbufInv_init (cfg : ZbufConfig α) (m : Lib.Store α (Zbuf α)) :
    ZbufInv cfg ⟨zbufPoolInit cfg m, fun _ => 0⟩ cfg.buffers.reverse := by
  obtain ⟨pool, hp, hc, hf⟩ := foldl_link_chain cfg.buffers []
    ⟨m, none, cfg.buffers.length, cfg.buffers.length, 0⟩ (by simpa using cfg.nodup) Lib.chain_nil
  obtain rfl : zbufPoolInit cfg m = pool := hp
  have hlt := cfg.count_lt
  refine ⟨by simpa using hc, by simp, ?_, ?_, ?_⟩
  · intro b hb; cases hb
  · rw [hf]
    simp only [BitVec.natCast_eq_ofNat, BitVec.toNat_ofNat, List.length_reverse]
    omega
  · intro b hb; cases hb

/-- Assignments to a buffer by a holder. -/
theorem ZbufInv.assign (h : ZbufInv cfg s l) (hb : 0 < s.refs b) {f : Zbuf α → Zbuf α}
    (hr : (f (s.pool.zb b)).refcount = (s.pool.zb b).refcount)
    (hf : (f (s.pool.zb b)).flags &&& zbufFShared = 0) :
    ZbufInv cfg { s with pool.zb := s.pool.zb.modify b f } l := by
  refine ⟨h.chain.congr (fun x hx => ?_) (fun x hx => ?_), h.free, h.known, h.count, fun x hx => ?_⟩
  · have hne : x ≠ b := ne_of_mem_of_not_mem hx (h.notMem hb)
    simp [hne]
  · have hne : x ≠ b := ne_of_mem_of_not_mem hx (h.notMem hb)
    simp [hne]
  · show (s.pool.zb.modify b f x).refcount.toNat = _ ∧ (s.pool.zb.modify b f x).flags &&& _ = _
    by_cases hxb : x = b
    · subst hxb
      rw [Lib.Store.modify_self, hr]
      exact ⟨(h.held x hx).1, hf⟩
    · rw [Lib.Store.modify_of_ne _ hxb]
      exact h.held x hx

/-- The first free buffer is taken off the free list. -/
theorem ZbufInv.pop (h : ZbufInv cfg s (b :: l)) :
    ZbufInv cfg ⟨{ s.pool with
      zb := (s.pool.zb.modifyAt (s.pool.zb b).next fun z => { z with prev := none }).modify b
        Zbuf.reset, freeList := (s.pool.zb b).next, freeCount := s.pool.freeCount - 1 },
      s.refs.modify b (· + 1)⟩ l := by
  have hchain := h.chain
  rw [h.chain.head_eq] at hchain
  have hbl : b ∉ l := (List.nodup_cons.1 hchain.nodup).1
  obtain ⟨hb, hrefs⟩ := (h.free b).1 (by simp)
  have hcount := h.count
  rw [List.length_cons] at hcount
  refine ⟨hchain.pop.congr (fun x hx => ?_) (fun x hx => ?_), fun x => ?_, fun x hx => ?_, ?_,
    fun x hx => ?_⟩
  · have hne : x ≠ b := ne_of_mem_of_not_mem hx hbl
    have hmod := Lib.Store.modifyAt_field Zbuf.next s.pool.zb (s.pool.zb b).next
      (f := fun z => { z with prev := none }) (fun _ => by rfl) x
    simp [hne, hmod]
  · have hne : x ≠ b := ne_of_mem_of_not_mem hx hbl
    have hmod := Lib.Store.field_modifyAt Zbuf.prev s.pool.zb (s.pool.zb b).next
      (f := fun z => { z with prev := none }) (v := none) (fun _ => by rfl)
    simpa [hne] using congrFun hmod x
  · by_cases hxb : x = b
    · subst hxb; simp [hbl]
    · have hx := h.free x
      rw [List.mem_cons, or_iff_right hxb] at hx
      simpa [hxb] using hx
  · by_cases hxb : x = b
    · subst hxb; exact hb
    · exact h.known x (by simpa [hxb] using hx)
  · have h1 : (1 : BitVec 32).toNat = 1 := rfl
    have hlt := s.pool.freeCount.isLt
    rw [BitVec.toNat_sub]
    omega
  · by_cases hxb : x = b
    · subst hxb
      simp only [Lib.Store.modify_self, hrefs]
      exact ⟨rfl, by simp only [Zbuf.reset]; decide⟩
    · obtain ⟨h1, h2⟩ := h.held x (by simpa [hxb] using hx)
      simp only [Lib.Store.modify_of_ne _ hxb]
      rw [Lib.Store.modifyAt_field Zbuf.refcount _ _ fun _ => by rfl,
        Lib.Store.modifyAt_field Zbuf.flags _ _ fun _ => by rfl]
      exact ⟨h1, h2⟩

/-- `zbuf_alloc` -/
theorem ZbufInv.alloc (h : ZbufInv cfg s l) {size : BitVec 16} {pool : ZbufPool α} {zb : Option α}
    (ha : zbufAlloc s.pool size = (pool, zb)) :
    (∃ l', ZbufInv cfg ⟨pool, s.refs.modifyAt zb (· + 1)⟩ l') ∧
      ∀ b, zb = some b → (pool.zb b).flags = zbufFDma := by
  unfold zbufAlloc at ha
  split_ifs at ha
  · cases ha
    exact ⟨⟨l, h⟩, fun b hb => by cases hb⟩
  have hchain := h.chain
  cases hfl : s.pool.freeList with
  | none =>
    rw [hfl] at ha hchain
    cases ha
    exact ⟨⟨l, hchain, h.free, h.known, h.count, h.held⟩, fun b hb => by cases hb⟩
  | some b =>
    rw [hfl] at ha hchain
    cases ha
    obtain ⟨t, rfl⟩ := hchain.head_some
    refine ⟨⟨t, h.pop⟩, fun b hb => ?_⟩
    cases hb
    simp [Zbuf.reset]

/-- `zbuf_alloc`, and then assignments to the fields of the new buffer. -/
theorem ZbufInv.allocWith (h : ZbufInv cfg s l) {size : BitVec 16} {pool : ZbufPool α}
    {zb : Option α} (ha : zbufAlloc s.pool size = (pool, zb)) {f : Zbuf α → Zbuf α}
    (hr : ∀ z, (f z).refcount = z.refcount)
    (hf : ∀ z, z.flags = zbufFDma → (f z).flags &&& zbufFShared = 0) :
    ∃ l', ZbufInv cfg ⟨{ pool with zb := pool.zb.modifyAt zb f }, s.refs.modifyAt zb (· + 1)⟩ l' := by
  obtain ⟨⟨l', hl'⟩, hflags⟩ := h.alloc ha
  cases zb with
  | none => exact ⟨l', hl'⟩
  | some b => exact ⟨l', hl'.assign (by simp) (hr _) (hf _ (hflags b rfl))⟩

/-- `zbuf_free` of a held buffer. -/
theorem ZbufInv.free_eq (h : ZbufInv cfg s l) (hb : 0 < s.refs b) :
    zbufFree port s.pool (some b) =
      if 1 < (atomicSub port (s.pool.zb b).word 1).2 then
        s.pool.setWord b ((s.pool.zb b).word - 1)
      else (s.pool.setWord b ((s.pool.zb b).word - 1)).giveBack b := by
  have hsh : ¬ (s.pool.zb b).flags &&& zbufFShared ≠ 0 := not_not.2 (h.held b hb).2
  cases port <;> simp only [zbufFree, atomicSub, if_neg hsh]

theorem ZbufPool.setWord_flags (pool : ZbufPool α) {w : BitVec 32}
    (hw : ((pool.zb b).setWord w).flags = (pool.zb b).flags) (x : α) :
    ((pool.setWord b w).zb x).flags = (pool.zb x).flags :=
  Lib.Store.modify_field Zbuf.flags _ _ hw x

/-- Counting the references to a held buffer. -/
theorem ZbufInv.setWord (h : ZbufInv cfg s l) (hb : 0 < s.refs b) {w : BitVec 32} {n : ℕ}
    (hn : 0 < n) (hw : ((s.pool.zb b).setWord w).refcount.toNat = n)
    (hf : ((s.pool.zb b).setWord w).flags = (s.pool.zb b).flags) :
    ZbufInv cfg ⟨s.pool.setWord b w, Function.update s.refs b n⟩ l := by
  have hne : ∀ x ∈ l, x ≠ b := fun x hx => ne_of_mem_of_not_mem hx (h.notMem hb)
  have hrefs : ∀ x, Function.update s.refs b n x = 0 ↔ s.refs x = 0 := by
    intro x
    by_cases hxb : x = b
    · subst hxb
      rw [Function.update_self]
      omega
    · rw [Function.update_of_ne hxb]
  refine ⟨h.chain.congr (fun x hx => ?_) (fun x hx => ?_), fun x => ?_, fun x hx => ?_, h.count,
    fun x hx => ?_⟩
  · simp [ZbufPool.setWord, hne x hx]
  · simp [ZbufPool.setWord, hne x hx]
  · rw [h.free, hrefs]
  · have hx0 := (hrefs x).not.1 (Nat.pos_iff_ne_zero.1 hx)
    exact h.known x (by omega)
  · have hx0 := (hrefs x).not.1 (Nat.pos_iff_ne_zero.1 hx)
    obtain ⟨h1, h2⟩ := h.held x (by omega)
    refine ⟨?_, by rw [ZbufPool.setWord_flags _ hf, h2]⟩
    by_cases hxb : x = b
    · subst hxb
      simpa [ZbufPool.setWord] using hw
    · simpa [ZbufPool.setWord, hxb] using h1

/-- Dropping the last reference, and returning the buffer to the pool. -/
theorem ZbufInv.giveBack (h : ZbufInv cfg s l) (hb : 0 < s.refs b) {w : BitVec 32}
    (hf : ((s.pool.zb b).setWord w).flags = (s.pool.zb b).flags) :
    ZbufInv cfg ⟨(s.pool.setWord b w).giveBack b, Function.update s.refs b 0⟩ (b :: l) := by
  have hbl := h.notMem hb
  have hne : ∀ x ∈ l, x ≠ b := fun x hx => ne_of_mem_of_not_mem hx hbl
  have hchain : Lib.Chain ((s.pool.setWord b w).zb.field Zbuf.next)
      ((s.pool.setWord b w).zb.field Zbuf.prev) (s.pool.setWord b w).freeList l := by
    refine h.chain.congr (fun x hx => ?_) (fun x hx => ?_)
    · simp [ZbufPool.setWord, hne x hx]
    · simp [ZbufPool.setWord, hne x hx]
  have hlen : l.length < cfg.buffers.length := by
    have hsub : (b :: l) ⊆ cfg.buffers := by
      intro x hx
      rcases List.mem_cons.1 hx with rfl | hx
      · exact h.known x hb
      · exact ((h.free x).1 hx).1
    exact (List.Nodup.subperm (List.nodup_cons.2 ⟨hbl, h.chain.nodup⟩) hsub).length_le
  refine ⟨ZbufPool.link_chain _ hchain hbl, fun x => ?_, fun x hx => ?_, ?_, fun x hx => ?_⟩
  · by_cases hxb : x = b
    · subst hxb
      simpa using h.known x hb
    · rw [List.mem_cons, or_iff_right hxb, h.free]
      simp [hxb]
  · by_cases hxb : x = b
    · subst hxb; simp at hx
    · exact h.known x (by simpa [hxb] using hx)
  · have hcount := h.count
    have hlt := cfg.count_lt
    have h1 : (1 : BitVec 32).toNat = 1 := rfl
    show (s.pool.freeCount + 1).toNat = _
    rw [BitVec.toNat_add, List.length_cons]
    omega
  · by_cases hxb : x = b
    · subst hxb; simp at hx
    · have hx0 : 0 < s.refs x := by simpa [hxb] using hx
      have hsame : (s.pool.setWord b w).zb x = s.pool.zb x := by simp [ZbufPool.setWord, hxb]
      simp only [ZbufPool.giveBack, Function.update_of_ne hxb]
      rw [ZbufPool.link_field _ Zbuf.refcount (fun _ _ => rfl) fun _ _ => rfl,
        ZbufPool.link_field _ Zbuf.flags (fun _ _ => rfl) fun _ _ => rfl, hsame]
      exact h.held x hx0

/-- **A safe drop.**  The buffer goes back to the pool exactly if the reference
    was the last one. -/
theorem ZbufInv.drop (h : ZbufInv cfg s l) (hb : 0 < s.refs b)
    (hsafe : DropSafe port (s.pool.zb b)) :
    (∃ l', ZbufInv cfg ⟨zbufFree port s.pool (some b), s.refs.modify b (· - 1)⟩ l') ∧
      ∀ x, ((zbufFree port s.pool (some b)).zb x).flags = (s.pool.zb x).flags := by
  have hr := (h.held b hb).1
  obtain ⟨-, hcount, hflags⟩ := (s.pool.zb b).setWord_sub (by omega)
  rw [dropSafe_iff (by omega), hr] at hsafe
  rw [h.free_eq hb]
  by_cases hlast : s.refs b = 1
  · rw [if_neg (by rw [hsafe]; omega)]
    have hrefs : s.refs.modify b (· - 1) = Function.update s.refs b 0 := by
      simp [Lib.Store.modify, hlast]
    rw [hrefs]
    refine ⟨⟨_, h.giveBack hb hflags⟩, fun x => ?_⟩
    simp only [ZbufPool.giveBack]
    rw [ZbufPool.link_field _ Zbuf.flags (fun _ _ => rfl) fun _ _ => rfl,
      ZbufPool.setWord_flags _ hflags]
  · rw [if_pos (by rw [hsafe]; omega)]
    exact ⟨⟨l, h.setWord hb (show 0 < s.refs b - 1 by omega) (by rw [hcount, hr]) hflags⟩,
      ZbufPool.setWord_flags _ hflags⟩

/-- A drop that is not safe loses a buffer, or returns one in use. -/
theorem ZbufInv.dropSafe (h : ZbufInv cfg s l) (hb : 0 < s.refs b)
    (hc : Conserved cfg ⟨zbufFree port s.pool (some b), s.refs.modify b (· - 1)⟩) :
    DropSafe port (s.pool.zb b) := by
  have hr := (h.held b hb).1
  obtain ⟨l', hl', hmem, hlen⟩ := hc.list
  have hb' := hmem b
  rw [h.free_eq hb] at hl' hlen
  rw [dropSafe_iff (by omega), hr]
  simp only [Lib.Store.modify_self] at hb'
  by_cases hkeep : 1 < (atomicSub port (s.pool.zb b).word 1).2
  · -- kept: one more buffer without references, but the counter is as before
    rw [if_pos hkeep] at hlen
    refine ⟨fun _ => ?_, fun _ => hkeep⟩
    by_contra hlast
    have hperm : l'.Perm (b :: l) := by
      refine (List.perm_ext_iff_of_nodup hl'.nodup
        (List.nodup_cons.2 ⟨h.notMem hb, h.chain.nodup⟩)).2 fun x => ?_
      by_cases hxb : x = b
      · subst hxb
        simp only [hb', h.known x hb, List.mem_cons_self, iff_true, true_and]
        omega
      · rw [hmem, List.mem_cons, or_iff_right hxb, h.free]
        simp [hxb]
    have hcount : s.pool.freeCount.toNat = l'.length := hlen
    rw [h.count, hperm.length_eq, List.length_cons] at hcount
    omega
  · -- returned: the buffer is the first one of the free list
    rw [if_neg hkeep] at hl'
    have hhead : some b = l'.head? := hl'.head_eq
    have := (hb'.1 (List.mem_of_head? hhead.symm)).2
    exact ⟨fun hk => absurd hk hkeep, fun _ => by omega⟩

/-- `zbuf_ref` of a held buffer whose counter does not overflow. -/
theorem ZbufInv.ref (port : Port) (h : ZbufInv cfg s l) (hb : 0 < s.refs b)
    (hsafe : (s.pool.zb b).refcount ≠ 0xFFFF) :
    ZbufInv cfg ⟨zbufRef port s.pool (some b), s.refs.modify b (· + 1)⟩ l ∧
      ∀ x, ((zbufRef port s.pool (some b)).zb x).flags = (s.pool.zb x).flags := by
  have hr := (h.held b hb).1
  have hadd : (atomicAdd port (s.pool.zb b).word 1).1 = (s.pool.zb b).word + 1 := by
    cases port <;> rfl
  obtain ⟨hcount, hflags⟩ := (s.pool.zb b).setWord_add hsafe
  simp only [zbufRef, hadd]
  exact ⟨h.setWord hb (Nat.succ_pos _) (by rw [hcount, hr]) hflags, ZbufPool.setWord_flags _ hflags⟩

/-- **Step.**  A safe call preserves the invariant, and the flags if it counts
    references. -/
theorem ZbufInv.step {op : ZbufOp α} (h : ZbufInv cfg s l) (hsafe : RefSafe port s op)
    (hs : zbufStep port s op = some s') : (∃ l', ZbufInv cfg s' l') ∧
      (op.counted ≠ none → ∀ b, (s'.pool.zb b).flags = (s.pool.zb b).flags) := by
  cases op with
  | alloc size =>
    rcases ha : zbufAlloc s.pool size with ⟨pool, zb⟩
    simp only [zbufStep, ha] at hs
    cases hs
    exact ⟨(h.alloc ha).1, fun hn => absurd rfl hn⟩
  | allocTx size =>
    rcases ha : zbufAlloc s.pool size with ⟨pool, zb⟩
    simp only [zbufStep, zbufAllocTx, ha] at hs
    cases hs
    refine ⟨h.allocWith ha (fun _ => by rfl) fun z hz => ?_, fun hn => absurd rfl hn⟩
    simp only [hz]
    decide
  | allocRx size =>
    rcases ha : zbufAlloc s.pool size with ⟨pool, zb⟩
    simp only [zbufStep, zbufAllocRx, ha] at hs
    cases hs
    refine ⟨h.allocWith ha (fun _ => by rfl) fun z hz => ?_, fun hn => absurd rfl hn⟩
    simp only [hz]
    decide
  | ref zb =>
    obtain ⟨hb, hs⟩ := Option.ite_none_right_eq_some.1 hs
    cases hs
    obtain ⟨hinv, hflags⟩ := h.ref port hb hsafe
    exact ⟨⟨l, hinv⟩, fun _ => hflags⟩
  | free zb =>
    obtain ⟨hb, hs⟩ := Option.ite_none_right_eq_some.1 hs
    cases hs
    obtain ⟨hinv, hflags⟩ := h.drop hb hsafe
    exact ⟨hinv, fun _ => hflags⟩
  | unref zb =>
    obtain ⟨hb, hs⟩ := Option.ite_none_right_eq_some.1 hs
    cases hs
    obtain ⟨hinv, hflags⟩ := h.drop hb hsafe
    exact ⟨hinv, fun _ => hflags⟩
  | store zb z =>
    obtain ⟨⟨hb, hr, hf⟩, hs⟩ := Option.ite_none_right_eq_some.1 hs
    cases hs
    exact ⟨⟨l, h.assign (f := fun _ => z) hb hr hf⟩, fun hn => absurd rfl hn⟩

/-- A call that conserves the buffers, and the flags, is safe. -/
theorem ZbufInv.refSafe {op : ZbufOp α} (h : ZbufInv cfg s l) (hc : Conserves cfg port s op)
    (hs : zbufStep port s op = some s') : RefSafe port s op := by
  obtain ⟨hcons, hflags⟩ := hc s' hs
  cases op with
  | ref zb =>
    obtain ⟨hb, hs⟩ := Option.ite_none_right_eq_some.1 hs
    cases hs
    intro hr
    have hadd : (atomicAdd port (s.pool.zb zb).word 1).1 = (s.pool.zb zb).word + 1 := by
      cases port <;> rfl
    have hzb := hflags (by simp [ZbufOp.counted]) zb
    simp only [zbufRef, ZbufPool.setWord, Lib.Store.modify_self, hadd] at hzb
    exact (s.pool.zb zb).setWord_overflow hr hzb
  | free zb =>
    obtain ⟨hb, hs⟩ := Option.ite_none_right_eq_some.1 hs
    cases hs
    exact h.dropSafe hb hcons
  | unref zb =>
    obtain ⟨hb, hs⟩ := Option.ite_none_right_eq_some.1 hs
    cases hs
    exact h.dropSafe hb hcons
  | _ => trivial

/-! ## Every run -/

/-- **Reference counting and conservation.**  The calls of a run conserve the
    buffers exactly if they are safe; the buffers are conserved in every state
    that safe calls lead to. -/
theorem zbuf_conserved_iff (cfg : ZbufConfig α) (port : Port) (tr : List (ZbufOp α))
    (s : ZbufState α) :
    (((zbufLts cfg port).restrict (Conserves cfg port)).Run tr s ↔
      ((zbufLts cfg port).restrict (RefSafe port)).Run tr s) ∧
    (((zbufLts cfg port).restrict (RefSafe port)).Run tr s → Conserved cfg s) := by
  refine And.imp_right (fun hinv h => ?_)
    (Lib.Lts.restrict_iff (I := fun s => ∃ l, ZbufInv cfg s l) ?_ ?_)
  · obtain ⟨l, hl⟩ := hinv h
    exact hl.conserved
  · rintro s ⟨m, rfl⟩
    exact ⟨_, zbufInv_init cfg m⟩
  · rintro s op s' ⟨l, hl⟩ hs
    refine ⟨⟨fun hc => hl.refSafe hc hs, fun hsafe s' hs' => ?_⟩, fun hsafe => (hl.step hsafe hs).1⟩
    obtain ⟨⟨l', hl'⟩, hflags⟩ := hl.step hsafe hs'
    exact ⟨hl'.conserved, hflags⟩

def demoPool : ZbufState (Fin 2) := ⟨zbufPoolInit demoZbufs fun _ => demoZbuf, fun _ => 0⟩

/-- A buffer is allocated and freed. -/
def demoFree : List (ZbufOp (Fin 2)) := [.alloc 64, .free 1]

/-- A buffer without flags, two references, and one of them is dropped. -/
def demoShare : List (ZbufOp (Fin 2)) :=
  [.alloc 64, .store 1 { demoZbuf with refcount := 1 }, .ref 1, .free 1]

theorem demoFree_runs (port : Port) :
    (Lib.Lts.exec (zbufStep port) demoPool demoFree).isSome := by
  cases port <;> decide +kernel

theorem demoShare_runs : (Lib.Lts.exec (zbufStep .arm64) demoPool demoShare).isSome := by
  decide +kernel

/-- **A freed buffer is lost** in both ports, because its flags count as
    references; on ARM64 a buffer without flags is returned to the pool while a
    reference remains. -/
theorem zbuf_not_conserved :
    (∀ port, ∃ s, (zbufLts demoZbufs port).Run demoFree s ∧ (∀ b, s.refs b = 0) ∧
      s.pool.freeCount = 1 ∧ ¬ Conserved demoZbufs s) ∧
    ∃ s, (zbufLts demoZbufs .arm64).Run demoShare s ∧ s.refs 1 = 1 ∧ s.pool.freeList = some 1 ∧
      ¬ Conserved demoZbufs s := by
  constructor
  · intro port
    refine ⟨_, Lib.Lts.run_exec_get ⟨_, rfl⟩ (demoFree_runs port), ?_, ?_, fun hc => ?_⟩
    · cases port <;> decide +kernel
    · cases port <;> decide +kernel
    · have hcount := hc.count
      revert hcount
      cases port <;> decide +kernel
  · refine ⟨_, Lib.Lts.run_exec_get ⟨_, rfl⟩ demoShare_runs, ?_, ?_, fun hc => ?_⟩
    · decide +kernel
    · decide +kernel
    · have hcount := hc.count
      revert hcount
      decide +kernel

end Gracemont
