/-
  Gracemont networking — zero-copy buffers (`net/buffer/zbuf.c`, the same file
  in both ports; the atomics are those of each port's `rtos_types.h`).

  A `zbuf_t *` is an element of `α`, and the pool holds the memory of all
  buffers.  The pointers into a buffer are offsets into the space behind its
  header, whose bytes are `space`; `head` and `end` are the two ends of the
  space, which only `zbuf_pool_init` assigns, and so they are constants.
  Left out is `dma_addr`, which no function here reads.

  * `atomicAdd`, `atomicSub`: 32-bit atomics on the word that `refcount` and
    `flags` share;
  * `zbufPoolInit`, `zbufAlloc`, `zbufFree`, `zbufRef`, …: the pool;
  * `zbufPush`, `zbufPull`, `zbufPut`: data manipulation.
-/
import Mathlib.Data.List.Nodup
import Gracemont.Kernel.Types
import Gracemont.Lib.ByteMem
import Gracemont.Lib.Links

namespace Gracemont

/-- `CONFIG_ZBUF_SIZE` -/
def configZbufSize : ℕ := 2048

/-- `CONFIG_ZBUF_HEADROOM` -/
def configZbufHeadroom : ℕ := 128

/-! ## Buffer flags -/

def zbufFTx : BitVec 16 := 1 <<< 0
def zbufFRx : BitVec 16 := 1 <<< 1
def zbufFDma : BitVec 16 := 1 <<< 2
def zbufFShared : BitVec 16 := 1 <<< 3

/-! ## Data -/

/-- `zbuf_t`, with the bytes of the buffer that follow it. -/
structure Zbuf (α : Type) where
  data : ℕ
  tail : ℕ
  len : BitVec 16
  size : BitVec 16
  refcount : BitVec 16
  flags : BitVec 16
  protocol : BitVec 16
  l2Offset : BitVec 16
  l3Offset : BitVec 16
  l4Offset : BitVec 16
  netif : Option ℕ
  hash : BitVec 32
  next : Option α
  prev : Option α
  timestamp : BitVec 64
  space : Lib.ByteMem

/-- `zbuf_pool_t`, and the memory of its buffers. -/
structure ZbufPool (α : Type) where
  zb : Lib.Store α (Zbuf α)
  freeList : Option α
  totalCount : BitVec 32
  freeCount : BitVec 32
  allocFailures : BitVec 32

/-- `zb->head` -/
def zbufHead : ℕ := 0

/-- `zb->end` -/
def zbufEnd : ℕ := zbufHead + configZbufSize

/-- The buffers that the pool memory is cut into, in order; their number is
    `CONFIG_ZBUF_COUNT`, a `uint32_t`. -/
structure ZbufConfig (α : Type) where
  buffers : List α
  nodup : buffers.Nodup
  count_lt : buffers.length < 2 ^ 32

variable {α : Type}

/-! ## Atomics -/

/-- `atomic_add`: the word stored and the value returned, the new one on ARM64
    and the old one on X86_64. -/
def atomicAdd (port : Port) (word val : BitVec 32) : BitVec 32 × BitVec 32 :=
  match port with
  | .arm64 => (word + val, word + val)
  | .x86_64 => (word + val, word)

/-- `atomic_sub` likewise. -/
def atomicSub (port : Port) (word val : BitVec 32) : BitVec 32 × BitVec 32 :=
  match port with
  | .arm64 => (word - val, word - val)
  | .x86_64 => (word - val, word)

namespace Zbuf

/-- The 32-bit word at `&zb->refcount`. -/
def word (z : Zbuf α) : BitVec 32 := z.flags ++ z.refcount

/-- A store of that word. -/
def setWord (z : Zbuf α) (w : BitVec 32) : Zbuf α :=
  { z with refcount := w.extractLsb' 0 16, flags := w.extractLsb' 16 16 }

variable (z : Zbuf α) (w : BitVec 32)

theorem word_toNat : z.word.toNat = z.flags.toNat * 2 ^ 16 + z.refcount.toNat := by
  have hr := z.refcount.isLt
  rw [word, BitVec.toNat_append, ← Nat.shiftLeft_add_eq_or_of_lt hr, Nat.shiftLeft_eq]

theorem setWord_refcount : (z.setWord w).refcount.toNat = w.toNat % 2 ^ 16 := by
  simp [setWord]

theorem setWord_flags : (z.setWord w).flags.toNat = w.toNat / 2 ^ 16 := by
  have hw := w.isLt
  simp only [setWord, BitVec.extractLsb'_toNat, Nat.shiftRight_eq_div_pow]
  omega

/-- Counting up keeps the flags unless the counter overflows. -/
theorem setWord_add (h : z.refcount ≠ 0xFFFF) :
    (z.setWord (z.word + 1)).refcount.toNat = z.refcount.toNat + 1 ∧
      (z.setWord (z.word + 1)).flags = z.flags := by
  have hr : z.refcount.toNat ≠ 0xFFFF := fun he => h (BitVec.eq_of_toNat_eq he)
  have hlt := z.refcount.isLt
  have hf := z.flags.isLt
  have hw : (z.word + 1).toNat = z.flags.toNat * 2 ^ 16 + (z.refcount.toNat + 1) := by
    rw [BitVec.toNat_add, word_toNat]
    have h1 : (1 : BitVec 32).toNat = 1 := rfl
    omega
  refine ⟨?_, BitVec.eq_of_toNat_eq ?_⟩
  · rw [setWord_refcount, hw]; omega
  · rw [setWord_flags, hw]; omega

/-- The overflow of the counter changes the flags. -/
theorem setWord_overflow (h : z.refcount = 0xFFFF) : (z.setWord (z.word + 1)).flags ≠ z.flags := by
  intro he
  have hf := z.flags.isLt
  have he := congrArg BitVec.toNat he
  have h1 : (1 : BitVec 32).toNat = 1 := rfl
  have hr : z.refcount.toNat = 0xFFFF := congrArg BitVec.toNat h
  rw [setWord_flags, BitVec.toNat_add, word_toNat, hr, h1] at he
  omega

/-- Counting down a positive counter keeps the flags. -/
theorem setWord_sub (h : 0 < z.refcount.toNat) :
    (z.word - 1).toNat = z.flags.toNat * 2 ^ 16 + (z.refcount.toNat - 1) ∧
      (z.setWord (z.word - 1)).refcount.toNat = z.refcount.toNat - 1 ∧
      (z.setWord (z.word - 1)).flags = z.flags := by
  have hlt := z.refcount.isLt
  have hf := z.flags.isLt
  have hw : (z.word - 1).toNat = z.flags.toNat * 2 ^ 16 + (z.refcount.toNat - 1) := by
    rw [BitVec.toNat_sub, word_toNat]
    have h1 : (1 : BitVec 32).toNat = 1 := rfl
    omega
  refine ⟨hw, ?_, BitVec.eq_of_toNat_eq ?_⟩
  · rw [setWord_refcount, hw]; omega
  · rw [setWord_flags, hw]; omega

end Zbuf


/-! ## The pool -/

/-- A buffer as `zbuf_pool_init` fills it in, before it is linked. -/
def Zbuf.fresh (z : Zbuf α) : Zbuf α :=
  { z with
    data := zbufHead + configZbufHeadroom, tail := zbufHead + configZbufHeadroom, len := 0,
    size := configZbufSize, refcount := 0, flags := zbufFDma, protocol := 0, netif := none,
    timestamp := 0 }

section
variable [DecidableEq α]

/-- Adding to the free list. -/
def ZbufPool.link (pool : ZbufPool α) (zb : α) : ZbufPool α :=
  let m := pool.zb.modify zb fun z => { z with next := pool.freeList }
  let m := m.modify zb fun z => { z with prev := none }
  let m := m.modifyAt pool.freeList fun z => { z with prev := some zb }
  { pool with zb := m, freeList := some zb }

section
variable {b : α} {l : List α}

/-- Linking a buffer only assigns to links. -/
theorem ZbufPool.link_field {γ : Type} (pool : ZbufPool α) (g : Zbuf α → γ)
    (hn : ∀ z v, g { z with next := v } = g z)
    (hp : ∀ z v, g { z with prev := v } = g z) (x : α) :
    g ((pool.link b).zb x) = g (pool.zb x) := by
  show g (Lib.Store.modifyAt _ _ _ x) = _
  rw [Lib.Store.modifyAt_field g _ _ fun z => hp z _, Lib.Store.modify_field g _ _ (hp _ _),
    Lib.Store.modify_field g _ _ (hn _ _)]

theorem ZbufPool.link_chain (pool : ZbufPool α)
    (h : Lib.Chain (pool.zb.field Zbuf.next) (pool.zb.field Zbuf.prev) pool.freeList l)
    (hb : b ∉ l) : Lib.Chain ((pool.link b).zb.field Zbuf.next) ((pool.link b).zb.field Zbuf.prev)
      (pool.link b).freeList (b :: l) := by
  have hnext : (pool.link b).zb.field Zbuf.next =
      Function.update (pool.zb.field Zbuf.next) b pool.freeList := by
    refine (Lib.Store.field_modifyAt_same Zbuf.next _ _ ?_).trans (by simp)
    intro z; rfl
  have hprev : (pool.link b).zb.field Zbuf.prev =
      Lib.setAt (Function.update (pool.zb.field Zbuf.prev) b none) pool.freeList (some b) := by
    refine (Lib.Store.field_modifyAt Zbuf.prev _ _ (v := some b) ?_).trans (by simp)
    intro z; rfl
  rw [hnext, hprev]
  exact h.push hb

end

/-- `zbuf_pool_init`, over memory `m`. -/
def zbufPoolInit (cfg : ZbufConfig α) (m : Lib.Store α (Zbuf α)) : ZbufPool α :=
  cfg.buffers.foldl
    (fun pool zb =>
      ({ pool with zb := pool.zb.modify zb Zbuf.fresh } : ZbufPool α).link zb)
    { zb := m, freeList := none, totalCount := cfg.buffers.length,
      freeCount := cfg.buffers.length, allocFailures := 0 }

/-- The state of a buffer that `zbuf_alloc` hands out. -/
def Zbuf.reset (z : Zbuf α) : Zbuf α :=
  { z with
    data := zbufHead + configZbufHeadroom, tail := zbufHead + configZbufHeadroom, len := 0,
    refcount := 1, flags := zbufFDma, protocol := 0, l2Offset := 0, l3Offset := 0, l4Offset := 0,
    netif := none, hash := 0, timestamp := 0, next := none, prev := none }

/-- `zbuf_alloc` -/
def zbufAlloc (pool : ZbufPool α) (size : BitVec 16) : ZbufPool α × Option α :=
  if configZbufSize - configZbufHeadroom < size.toNat then (pool, none)
  else match pool.freeList with
    | none => ({ pool with allocFailures := pool.allocFailures + 1 }, none)
    | some zb =>
      let list := (pool.zb zb).next
      let m := pool.zb.modifyAt list fun z => { z with prev := none }
      let m := m.modify zb Zbuf.reset
      ({ pool with zb := m, freeList := list, freeCount := pool.freeCount - 1 }, some zb)

/-- `zbuf_alloc_tx` -/
def zbufAllocTx (pool : ZbufPool α) (size : BitVec 16) : ZbufPool α × Option α :=
  let (pool, zb) := zbufAlloc pool size
  ({ pool with zb := pool.zb.modifyAt zb fun z => { z with flags := z.flags ||| zbufFTx } }, zb)

/-- `zbuf_alloc_rx` -/
def zbufAllocRx (pool : ZbufPool α) (size : BitVec 16) : ZbufPool α × Option α :=
  let (pool, zb) := zbufAlloc pool size
  ({ pool with
      zb := pool.zb.modifyAt zb fun z =>
        { z with flags := z.flags ||| zbufFRx, data := zbufHead, tail := zbufHead } }, zb)

theorem zbufAllocTx_none {pool : ZbufPool α} (hb : pool.freeList = none) (size : BitVec 16) :
    ∃ pool', zbufAllocTx pool size = (pool', none) := by
  simp only [zbufAllocTx, zbufAlloc, hb]
  split_ifs
  · exact ⟨_, rfl⟩
  · exact ⟨_, rfl⟩

theorem zbufAllocTx_large {pool : ZbufPool α} {size : BitVec 16}
    (hs : configZbufSize - configZbufHeadroom < size.toNat) :
    ∃ pool', zbufAllocTx pool size = (pool', none) := by
  simp only [zbufAllocTx, zbufAlloc, if_pos hs]
  exact ⟨_, rfl⟩

/-- **A transmit buffer** is the first free buffer, empty behind the headroom. -/
theorem zbufAllocTx_spec {pool : ZbufPool α} {b : α} (hb : pool.freeList = some b)
    {size : BitVec 16} (hs : size.toNat ≤ configZbufSize - configZbufHeadroom) :
    ∃ pool', zbufAllocTx pool size = (pool', some b) ∧
      (pool'.zb b).data = configZbufHeadroom ∧ (pool'.zb b).tail = configZbufHeadroom ∧
      (pool'.zb b).len = 0 ∧ (pool'.zb b).space = (pool.zb b).space := by
  simp only [zbufAllocTx, zbufAlloc, hb, if_neg (Nat.not_lt.2 hs)]
  refine ⟨_, rfl, ?_⟩
  have hspace := Lib.Store.modifyAt_field Zbuf.space pool.zb (pool.zb b).next
    (f := fun z => { z with prev := none }) (fun _ => by rfl) b
  simp [Zbuf.reset, zbufHead, hspace]

theorem zbufAllocTx_some {pool pool' : ZbufPool α} {size : BitVec 16} {b : α}
    (h : zbufAllocTx pool size = (pool', some b)) :
    (pool'.zb b).data = configZbufHeadroom ∧ (pool'.zb b).tail = configZbufHeadroom ∧
      (pool'.zb b).len = 0 := by
  by_cases hs : size.toNat ≤ configZbufSize - configZbufHeadroom
  · cases hfree : pool.freeList with
    | none =>
      obtain ⟨pool₁, hnone⟩ := zbufAllocTx_none hfree size
      rw [hnone] at h
      cases h
    | some x =>
      obtain ⟨pool₁, hsome, hdata, htail, hlen, -⟩ := zbufAllocTx_spec hfree hs
      rw [hsome] at h
      cases h
      exact ⟨hdata, htail, hlen⟩
  · obtain ⟨pool₁, hnone⟩ : ∃ pool₁, zbufAllocTx pool size = (pool₁, none) :=
      zbufAllocTx_large (Nat.lt_of_not_le hs)
    rw [hnone] at h
    cases h

/-- Allocating does not touch the bytes of any buffer. -/
theorem zbufAllocTx_space (pool : ZbufPool α) (size : BitVec 16) (x : α) :
    ((zbufAllocTx pool size).1.zb x).space = (pool.zb x).space := by
  have halloc : ((zbufAlloc pool size).1.zb x).space = (pool.zb x).space := by
    unfold zbufAlloc
    split_ifs
    · rfl
    · split
      · rfl
      · exact (Lib.Store.modify_field Zbuf.space _ _ (f := Zbuf.reset) rfl x).trans
          (Lib.Store.modifyAt_field Zbuf.space _ _ (f := fun z => { z with prev := none })
            (fun _ => rfl) x)
  exact (Lib.Store.modifyAt_field Zbuf.space _ _
    (f := fun z => { z with flags := z.flags ||| zbufFTx }) (fun _ => rfl) x).trans halloc

/-- A store of the word at `&zb->refcount`. -/
def ZbufPool.setWord (pool : ZbufPool α) (zb : α) (w : BitVec 32) : ZbufPool α :=
  { pool with zb := pool.zb.modify zb fun z => z.setWord w }

/-- Returning a buffer to the pool. -/
def ZbufPool.giveBack (pool : ZbufPool α) (zb : α) : ZbufPool α :=
  let pool := pool.link zb
  { pool with freeCount := pool.freeCount + 1 }

/-- `zbuf_free` -/
def zbufFree (port : Port) (pool : ZbufPool α) (zb : Option α) : ZbufPool α :=
  match zb with
  | none => pool
  | some zb =>
    if (pool.zb zb).flags &&& zbufFShared ≠ 0 then pool
    else
      let (word, result) := atomicSub port (pool.zb zb).word 1
      let pool := pool.setWord zb word
      if 1 < result then pool else pool.giveBack zb

/-- `zbuf_free` only assigns to the reference word and to links. -/
theorem zbufFree_field {γ : Type} (port : Port) (pool : ZbufPool α) (zb : Option α)
    (g : Zbuf α → γ) (hw : ∀ (z : Zbuf α) w, g (z.setWord w) = g z)
    (hn : ∀ z v, g { z with next := v } = g z) (hp : ∀ z v, g { z with prev := v } = g z) (x : α) :
    g ((zbufFree port pool zb).zb x) = g (pool.zb x) := by
  cases zb with
  | none => rfl
  | some zb =>
    have hword : ∀ w, g ((pool.setWord zb w).zb x) = g (pool.zb x) := by
      intro w
      exact Lib.Store.modify_field g pool.zb zb (f := fun z => z.setWord w) (hw _ w) x
    simp only [zbufFree]
    split_ifs
    · rfl
    · exact hword _
    · exact (ZbufPool.link_field _ g hn hp x).trans (hword _)

/-- `zbuf_free` does not touch another buffer, unless it is the first free one. -/
theorem zbufFree_of_ne (port : Port) (pool : ZbufPool α) {zb x : α} (hx : x ≠ zb)
    (hfree : pool.freeList ≠ some x) : (zbufFree port pool (some zb)).zb x = pool.zb x := by
  simp only [zbufFree]
  split_ifs
  · rfl
  · simp only [ZbufPool.setWord, Lib.Store.modify_of_ne _ hx]
  · simp only [ZbufPool.giveBack, ZbufPool.link, ZbufPool.setWord,
      Lib.Store.modifyAt_of_ne _ hfree, Lib.Store.modify_of_ne _ hx]

/-- `zbuf_unref` -/
def zbufUnref (port : Port) (pool : ZbufPool α) (zb : Option α) : ZbufPool α :=
  zbufFree port pool zb

/-- `zbuf_ref` -/
def zbufRef (port : Port) (pool : ZbufPool α) (zb : Option α) : ZbufPool α :=
  match zb with
  | none => pool
  | some zb => pool.setWord zb (atomicAdd port (pool.zb zb).word 1).1

end

/-! ## Data manipulation -/

/-- `zbuf_push`: the buffer and the new `data`, or `NULL`. -/
def zbufPush (z : Zbuf α) (len : BitVec 16) : Option (Zbuf α × ℕ) :=
  if z.data < zbufHead + len.toNat then none
  else some ({ z with data := z.data - len.toNat, len := z.len + len }, z.data - len.toNat)

theorem zbufPush_some {z z' : Zbuf α} {len : BitVec 16} {n p : ℕ} (hn : len.toNat = n)
    (h : zbufPush z len = some (z', p)) :
    n ≤ z.data ∧ p = z.data - n ∧ z'.data = p ∧ z'.len = z.len + len ∧ z'.space = z.space := by
  unfold zbufPush at h
  rw [hn] at h
  split_ifs at h with hroom
  cases h
  refine ⟨?_, rfl, rfl, rfl, rfl⟩
  unfold zbufHead at hroom
  omega

/-- `zbuf_pull` likewise. -/
def zbufPull (z : Zbuf α) (len : BitVec 16) : Option (Zbuf α × ℕ) :=
  if z.len < len then none
  else some ({ z with data := z.data + len.toNat, len := z.len - len }, z.data + len.toNat)

/-- `zbuf_put`: the buffer and its old `tail`, or `NULL`. -/
def zbufPut (z : Zbuf α) (len : BitVec 16) : Option (Zbuf α × ℕ) :=
  if zbufEnd < z.tail + len.toNat then none
  else some ({ z with tail := z.tail + len.toNat, len := z.len + len }, z.tail)

/-- `zbuf_reserve` -/
def zbufReserve (z : Zbuf α) (len : BitVec 16) : Zbuf α :=
  { z with data := z.data + len.toNat, tail := z.data + len.toNat }

/-- A pool of two buffers. -/
def demoZbufs : ZbufConfig (Fin 2) := ⟨[0, 1], by decide, by decide⟩

/-- The same buffers, with the first one first on the free list. -/
def demoZbufsTurned : ZbufConfig (Fin 2) := ⟨[1, 0], by decide, by decide⟩

/-- A buffer before `zbuf_pool_init`. -/
def demoZbuf : Zbuf (Fin 2) :=
  ⟨0, 0, 0, 0, 0, 0, 0, 0, 0, 0, none, 0, none, none, 0, ⟨fun _ => 0, []⟩⟩

end Gracemont
