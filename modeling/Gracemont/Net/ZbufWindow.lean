/-
  Gracemont networking — the window of a zero-copy buffer (`net/buffer/zbuf.c`,
  the same file in both ports).

  The functions that depend on `CONFIG_ZBUF_SIZE` and `CONFIG_ZBUF_HEADROOM` are
  stated for any values of these; at the values that the project ships they are
  those of `Net/Zbuf` (`shipped_alloc` and so on).

  * `Zbuf.Shows`: `data`, `tail` and `len` are a window of the buffer;
  * `Zbuf.Shows.push`, …: each function does to it what `Lib.Window` says;
  * `zbuf_window`: the windows of the buffers in every run.
-/
import Gracemont.Lib.Trace
import Gracemont.Lib.Window
import Gracemont.Net.Zbuf

namespace Gracemont

/-- `CONFIG_ZBUF_SIZE` and `CONFIG_ZBUF_HEADROOM` -/
structure ZbufParams where
  size : ℕ
  headroom : ℕ
  size_lt : size < 2 ^ 16
  headroom_le : headroom ≤ size

/-- The values that the project ships. -/
def ZbufParams.shipped : ZbufParams := ⟨configZbufSize, configZbufHeadroom, by decide, by decide⟩

variable {α : Type}

/-! ## Functions -/

namespace ZbufParams
variable (c : ZbufParams)

/-- `zb->end` -/
def zbufEnd : ℕ := zbufHead + c.size

/-- A buffer as `zbuf_pool_init` fills it in, before it is linked. -/
def fresh (z : Zbuf α) : Zbuf α :=
  { z with
    data := zbufHead + c.headroom, tail := zbufHead + c.headroom, len := 0
    size := BitVec.ofNat 16 c.size, refcount := 0, flags := zbufFDma, protocol := 0, netif := none
    timestamp := 0 }

/-- The state of a buffer that `zbuf_alloc` hands out. -/
def allocated (z : Zbuf α) : Zbuf α :=
  { z with
    data := zbufHead + c.headroom, tail := zbufHead + c.headroom, len := 0, refcount := 1
    flags := zbufFDma, protocol := 0, l2Offset := 0, l3Offset := 0, l4Offset := 0, netif := none
    hash := 0, timestamp := 0, next := none, prev := none }

/-- `zbuf_put`: the buffer and its old `tail`, or `NULL`. -/
def zbufPut (z : Zbuf α) (len : BitVec 16) : Option (Zbuf α × ℕ) :=
  if c.zbufEnd < z.tail + len.toNat then none
  else some ({ z with tail := z.tail + len.toNat, len := z.len + len }, z.tail)

/-- `zbuf_reset` -/
def zbufReset (z : Zbuf α) : Zbuf α :=
  { z with
    data := zbufHead + c.headroom, tail := zbufHead + c.headroom, len := 0, protocol := 0
    l2Offset := 0, l3Offset := 0, l4Offset := 0 }

theorem shipped_put (z : Zbuf α) (len : BitVec 16) :
    shipped.zbufPut z len = Gracemont.zbufPut z len := rfl

variable [DecidableEq α]

/-- `zbuf_pool_init`, over memory `m`. -/
def zbufPoolInit (cfg : ZbufConfig α) (m : Lib.Store α (Zbuf α)) : ZbufPool α :=
  cfg.buffers.foldl
    (fun pool zb => ({ pool with zb := pool.zb.modify zb c.fresh } : ZbufPool α).link zb)
    { zb := m, freeList := none, totalCount := cfg.buffers.length,
      freeCount := cfg.buffers.length, allocFailures := 0 }

/-- `zbuf_alloc` -/
def zbufAlloc (pool : ZbufPool α) (size : BitVec 16) : ZbufPool α × Option α :=
  if c.size - c.headroom < size.toNat then (pool, none)
  else match pool.freeList with
    | none => ({ pool with allocFailures := pool.allocFailures + 1 }, none)
    | some zb =>
      let list := (pool.zb zb).next
      let m := pool.zb.modifyAt list fun z => { z with prev := none }
      let m := m.modify zb c.allocated
      ({ pool with zb := m, freeList := list, freeCount := pool.freeCount - 1 }, some zb)

/-- `zbuf_alloc_tx` -/
def zbufAllocTx (pool : ZbufPool α) (size : BitVec 16) : ZbufPool α × Option α :=
  let (pool, zb) := c.zbufAlloc pool size
  ({ pool with zb := pool.zb.modifyAt zb fun z => { z with flags := z.flags ||| zbufFTx } }, zb)

/-- `zbuf_alloc_rx` -/
def zbufAllocRx (pool : ZbufPool α) (size : BitVec 16) : ZbufPool α × Option α :=
  let (pool, zb) := c.zbufAlloc pool size
  ({ pool with
      zb := pool.zb.modifyAt zb fun z =>
        { z with flags := z.flags ||| zbufFRx, data := zbufHead, tail := zbufHead } }, zb)

theorem shipped_poolInit (cfg : ZbufConfig α) (m : Lib.Store α (Zbuf α)) :
    shipped.zbufPoolInit cfg m = Gracemont.zbufPoolInit cfg m := rfl

theorem shipped_allocTx (pool : ZbufPool α) (size : BitVec 16) :
    shipped.zbufAllocTx pool size = Gracemont.zbufAllocTx pool size := rfl

theorem shipped_allocRx (pool : ZbufPool α) (size : BitVec 16) :
    shipped.zbufAllocRx pool size = Gracemont.zbufAllocRx pool size := rfl

end ZbufParams

/-- `zbuf_trim` -/
def zbufTrim (z : Zbuf α) (len : BitVec 16) : Zbuf α :=
  let len := if z.len < len then z.len else len
  { z with tail := z.tail - len.toNat, len := z.len - len }

/-! ## Windows -/

/-- `data`, `tail` and `len` are those of a window. -/
structure Zbuf.Shows {cap : ℕ} (z : Zbuf α) (w : Lib.Window cap) : Prop where
  data : z.data = w.lo
  tail : z.tail = w.hi
  len : z.len.toNat = w.len

namespace Zbuf.Shows
variable {cap : ℕ} {z z' : Zbuf α} {w w' : Lib.Window cap} {n : BitVec 16}

theorem congr (h : z.Shows w) (hd : z'.data = z.data) (ht : z'.tail = z.tail)
    (hl : z'.len = z.len) : z'.Shows w := ⟨hd.trans h.data, ht.trans h.tail, hl ▸ h.len⟩

/-- A buffer without data. -/
theorem empty (p : ℕ) (hp : p ≤ cap) (hd : z.data = p) (ht : z.tail = p) (hl : z.len = 0) :
    z.Shows (Lib.Window.empty p hp) := by
  refine ⟨hd, ht, ?_⟩
  rw [hl, Lib.Window.empty_len]
  rfl

/-- The length of a window fits into 16 bits. -/
theorem add_len (h : z.Shows w) (hcap : cap < 2 ^ 16) (hlen : w'.len = w.len + n.toNat) :
    (z.len + n).toNat = w'.len := by
  have hle := w'.len_le
  rw [BitVec.toNat_add, h.len, hlen]
  omega

theorem sub_len (h : z.Shows w) (hn : n.toNat ≤ w.len) : (z.len - n).toNat = w.len - n.toNat := by
  have hlt := z.len.isLt
  have hlen := h.len
  rw [BitVec.toNat_sub]
  omega

theorem lt_iff (h : z.Shows w) : z.len < n ↔ w.len < n.toNat := by rw [BitVec.lt_def, h.len]

/-- **`zbuf_push`** -/
theorem push (h : z.Shows w) (hcap : cap < 2 ^ 16) (n : BitVec 16) :
    (zbufPush z n = none ∧ w.push n.toNat = none) ∨
      ∃ z' w', zbufPush z n = some (z', w'.lo) ∧ w.push n.toNat = some w' ∧ z'.Shows w' := by
  unfold zbufPush zbufHead
  rw [h.data, Nat.zero_add]
  by_cases hn : w.lo < n.toNat
  · exact .inl ⟨if_pos hn, Lib.Window.push_eq_none hn⟩
  · obtain ⟨w', hw', hlo, hhi, hlen⟩ := Lib.Window.push_eq_some (Nat.le_of_not_lt hn)
    rw [if_neg hn, ← hlo]
    exact .inr ⟨_, w', rfl, hw', rfl, h.tail.trans hhi.symm, h.add_len hcap hlen⟩

/-- **`zbuf_pull`** -/
theorem pull (h : z.Shows w) (n : BitVec 16) :
    (zbufPull z n = none ∧ w.pull n.toNat = none) ∨
      ∃ z' w', zbufPull z n = some (z', w'.lo) ∧ w.pull n.toNat = some w' ∧ z'.Shows w' := by
  unfold zbufPull
  rw [h.data]
  by_cases hn : z.len < n
  · exact .inl ⟨if_pos hn, Lib.Window.pull_eq_none (h.lt_iff.1 hn)⟩
  · have hle := Nat.le_of_not_lt fun hlt => hn (h.lt_iff.2 hlt)
    obtain ⟨w', hw', hlo, hhi, hlen⟩ := Lib.Window.pull_eq_some hle
    rw [if_neg hn, ← hlo]
    exact .inr ⟨_, w', rfl, hw', rfl, h.tail.trans hhi.symm, (h.sub_len hle).trans hlen.symm⟩

/-- **`zbuf_trim`** -/
theorem trim (h : z.Shows w) (n : BitVec 16) : (zbufTrim z n).Shows (w.trim n.toNat) := by
  have hmin : (if z.len < n then z.len else n).toNat = min n.toNat w.len := by
    have hlen := h.len
    split_ifs with hn
    · have hlt := h.lt_iff.1 hn
      omega
    · have hle := Nat.le_of_not_lt fun hlt => hn (h.lt_iff.2 hlt)
      omega
  refine ⟨h.data, ?_, ?_⟩
  · simp only [zbufTrim, hmin, h.tail]
    rfl
  · have hle : (if z.len < n then z.len else n).toNat ≤ w.len := by
      rw [hmin]
      exact Nat.min_le_right ..
    rw [Lib.Window.trim_len, ← hmin]
    exact h.sub_len hle

/-- **Pulling what was pushed** restores the buffer. -/
theorem pull_push (h : z.Shows w) (hcap : cap < 2 ^ 16) {p : ℕ}
    (hpush : zbufPush z n = some (z', p)) : zbufPull z' n = some (z, z.data) := by
  obtain ⟨hnone, -⟩ | ⟨z₁, w₁, h₁, hw₁, hs₁⟩ := h.push hcap n
  · rw [hpush] at hnone
    cases hnone
  obtain ⟨rfl, -⟩ := Prod.mk.inj (Option.some.inj (h₁.symm.trans hpush))
  have hback := Lib.Window.pull_push hw₁
  obtain ⟨-, hnone⟩ | ⟨z₂, w₂, h₂, hw₂, hs₂⟩ := hs₁.pull n
  · rw [hback] at hnone
    cases hnone
  obtain rfl := Option.some.inj (hback.symm.trans hw₂)
  -- the other fields are not touched on the way
  have hframe : z₂ = { z with data := z₂.data, len := z₂.len } := by
    unfold zbufPush at hpush
    unfold zbufPull at h₂
    split_ifs at hpush h₂
    cases hpush
    obtain ⟨rfl, -⟩ := Prod.mk.inj (Option.some.inj h₂)
    rfl
  have hd : z₂.data = z.data := hs₂.data.trans h.data.symm
  have hl : z₂.len = z.len := BitVec.eq_of_toNat_eq (hs₂.len.trans h.len.symm)
  rw [h₂, ← h.data, hframe, hd, hl]

end Zbuf.Shows

namespace ZbufParams
variable {c : ZbufParams} {z z' : Zbuf α} {w : Lib.Window c.size} {n : BitVec 16}

/-- The window in front of which is the headroom. -/
def start (c : ZbufParams) : Lib.Window c.size := .empty c.headroom c.headroom_le

/-- **`zbuf_put`** -/
theorem put_shows (h : z.Shows w) (n : BitVec 16) :
    (c.zbufPut z n = none ∧ w.put n.toNat = none) ∨
      ∃ z' w', c.zbufPut z n = some (z', w.hi) ∧ w.put n.toNat = some w' ∧ z'.Shows w' := by
  unfold zbufPut zbufEnd zbufHead
  rw [h.tail, Nat.zero_add]
  by_cases hn : c.size < w.hi + n.toNat
  · exact .inl ⟨if_pos hn, Lib.Window.put_eq_none hn⟩
  · obtain ⟨w', hw', hlo, hhi, hlen⟩ := Lib.Window.put_eq_some (Nat.le_of_not_lt hn)
    rw [if_neg hn, ← hhi]
    exact .inr ⟨_, w', rfl, hw', h.data.trans hlo.symm, rfl, h.add_len c.size_lt hlen⟩

/-- **Trimming what was put** restores the buffer. -/
theorem trim_put (h : z.Shows w) {p : ℕ} (hput : c.zbufPut z n = some (z', p)) :
    zbufTrim z' n = z := by
  obtain ⟨hnone, -⟩ | ⟨z₁, w₁, h₁, hw₁, hs₁⟩ := put_shows h n
  · rw [hput] at hnone
    cases hnone
  obtain ⟨rfl, -⟩ := Prod.mk.inj (Option.some.inj (h₁.symm.trans hput))
  have hs₂ := hs₁.trim n
  rw [Lib.Window.trim_put hw₁] at hs₂
  have hframe : zbufTrim z₁ n = { z with
      tail := (zbufTrim z₁ n).tail, len := (zbufTrim z₁ n).len } := by
    unfold zbufPut at hput
    split_ifs at hput
    cases hput
    rfl
  have ht : (zbufTrim z₁ n).tail = z.tail := hs₂.tail.trans h.tail.symm
  have hl : (zbufTrim z₁ n).len = z.len := BitVec.eq_of_toNat_eq (hs₂.len.trans h.len.symm)
  rw [hframe, ht, hl]

/-- **`zbuf_reserve`** of an empty buffer. -/
theorem reserve_shows (h : z.Shows w) (hempty : z.len = 0) (hroom : z.tail + n.toNat ≤ c.zbufEnd) :
    ∃ w' : Lib.Window c.size, (zbufReserve z n).Shows w' := by
  have hlen : w.hi - w.lo = 0 := by
    have hl := h.len
    rw [hempty] at hl
    exact hl.symm
  have hle := w.lo_le
  have hd := h.data
  have ht := h.tail
  have hfit : z.data + n.toNat ≤ c.size := by
    simp only [zbufEnd, zbufHead] at hroom
    omega
  exact ⟨_, .empty _ hfit rfl rfl hempty⟩

end ZbufParams

/-! ## Runs -/

/-- The calls, on any buffer. -/
inductive ZbufCall (α : Type) where
  | alloc (size : BitVec 16)
  | allocTx (size : BitVec 16)
  | allocRx (size : BitVec 16)
  | free (zb : Option α)
  | push (zb : α) (len : BitVec 16)
  | pull (zb : α) (len : BitVec 16)
  | put (zb : α) (len : BitVec 16)
  | trim (zb : α) (len : BitVec 16)
  | reset (zb : α)
  | reserve (zb : α) (len : BitVec 16)

variable [DecidableEq α]

/-- The buffer `zb` becomes `z`. -/
def ZbufPool.store (pool : ZbufPool α) (zb : α) (z : Zbuf α) : ZbufPool α :=
  { pool with zb := Function.update pool.zb zb z }

/-- The buffer `zb` becomes the one of a result that is not `NULL`. -/
def ZbufPool.storeSome (pool : ZbufPool α) (zb : α) (r : Option (Zbuf α × ℕ)) : ZbufPool α :=
  match r with
  | none => pool
  | some (z, _) => pool.store zb z

namespace ZbufParams
variable (c : ZbufParams) (port : Port)

/-- One call; `zbuf_reserve` is called on an empty buffer with enough tailroom. -/
def call (pool : ZbufPool α) : ZbufCall α → Option (ZbufPool α)
  | .alloc size => some (c.zbufAlloc pool size).1
  | .allocTx size => some (c.zbufAllocTx pool size).1
  | .allocRx size => some (c.zbufAllocRx pool size).1
  | .free zb => some (zbufFree port pool zb)
  | .push zb len => some (pool.storeSome zb (zbufPush (pool.zb zb) len))
  | .pull zb len => some (pool.storeSome zb (zbufPull (pool.zb zb) len))
  | .put zb len => some (pool.storeSome zb (c.zbufPut (pool.zb zb) len))
  | .trim zb len => some (pool.store zb (zbufTrim (pool.zb zb) len))
  | .reset zb => some (pool.store zb (c.zbufReset (pool.zb zb)))
  | .reserve zb len =>
    if (pool.zb zb).len = 0 ∧ (pool.zb zb).tail + len.toNat ≤ c.zbufEnd then
      some (pool.store zb (zbufReserve (pool.zb zb) len))
    else none

/-- The call returns `NULL`. -/
def Fails (pool : ZbufPool α) : ZbufCall α → Prop
  | .push zb len => zbufPush (pool.zb zb) len = none
  | .pull zb len => zbufPull (pool.zb zb) len = none
  | .put zb len => c.zbufPut (pool.zb zb) len = none
  | _ => False

/-- The runs from `zbuf_pool_init`. -/
def zbufCalls (cfg : ZbufConfig α) : Lib.Lts (ZbufPool α) (ZbufCall α) :=
  .ofFun (fun pool => ∃ m, pool = c.zbufPoolInit cfg m) (c.call port)

/-- **The window** of a buffer lies in the buffer, and `len` is its length. -/
structure InWindow (z : Zbuf α) : Prop where
  head : zbufHead ≤ z.data
  data : z.data ≤ z.tail
  tail : z.tail ≤ c.zbufEnd
  len : z.len.toNat = z.tail - z.data

/-- What a call does beyond keeping the windows: it writes no byte of any
    buffer, nothing at all if it returns `NULL`, and is undone by its opposite. -/
structure Lawful (cfg : ZbufConfig α) (pool : ZbufPool α) (e : ZbufCall α) (pool' : ZbufPool α) :
    Prop where
  bytes : ∀ zb, (pool'.zb zb).space = (pool.zb zb).space
  failed : c.Fails pool e → pool' = pool
  pull_push : ∀ zb ∈ cfg.buffers, ∀ len, e = .push zb len → ¬ c.Fails pool e →
    c.call port pool' (.pull zb len) = some pool
  trim_put : ∀ zb ∈ cfg.buffers, ∀ len, e = .put zb len → ¬ c.Fails pool e →
    c.call port pool' (.trim zb len) = some pool

/-- Every buffer of the pool shows a window. -/
def Windows (cfg : ZbufConfig α) (pool : ZbufPool α) : Prop :=
  ∀ zb ∈ cfg.buffers, ∃ w : Lib.Window c.size, (pool.zb zb).Shows w

end ZbufParams

namespace ZbufParams
variable {c : ZbufParams} {cfg : ZbufConfig α} {port : Port} {pool pool' : ZbufPool α}

omit [DecidableEq α] in
theorem inWindow_of_shows {z : Zbuf α} {w : Lib.Window c.size} (h : z.Shows w) : c.InWindow z := by
  obtain ⟨hd, ht, hl⟩ := h
  refine ⟨Nat.zero_le _, ?_, ?_, ?_⟩
  · rw [hd, ht]
    exact w.lo_le
  · rw [ht, zbufEnd, zbufHead, Nat.zero_add]
    exact w.hi_le
  · rw [hd, ht, hl]
    rfl

/-! ### Windows -/

omit [DecidableEq α] in
/-- A call that keeps the three fields of every buffer. -/
theorem Windows.congr (h : c.Windows cfg pool) (hd : ∀ x, (pool'.zb x).data = (pool.zb x).data)
    (ht : ∀ x, (pool'.zb x).tail = (pool.zb x).tail) (hl : ∀ x, (pool'.zb x).len = (pool.zb x).len) :
    c.Windows cfg pool' := by
  intro zb hzb
  obtain ⟨w, hw⟩ := h zb hzb
  exact ⟨w, hw.congr (hd zb) (ht zb) (hl zb)⟩

/-- A call that assigns to one buffer. -/
theorem Windows.store (h : c.Windows cfg pool) {zb : α} {z : Zbuf α}
    (hz : zb ∈ cfg.buffers → ∃ w : Lib.Window c.size, z.Shows w) :
    c.Windows cfg (pool.store zb z) := by
  intro x hx
  simp only [ZbufPool.store, Function.update_apply]
  split_ifs with he
  · subst he
    exact hz hx
  · exact h x hx

/-- What `zbuf_alloc` does to the buffers: it clears a link, and fills in the
    buffer that it returns. -/
theorem zbufAlloc_zb (pool : ZbufPool α) (size : BitVec 16) :
    ((c.zbufAlloc pool size).1.zb = pool.zb ∧ (c.zbufAlloc pool size).2 = none) ∨
      ∃ zb, (c.zbufAlloc pool size).2 = some zb ∧ (c.zbufAlloc pool size).1.zb =
        (pool.zb.modifyAt (pool.zb zb).next fun z => { z with prev := none }).modify zb
          c.allocated := by
  unfold zbufAlloc
  split_ifs
  · exact .inl ⟨rfl, rfl⟩
  · split
    · exact .inl ⟨rfl, rfl⟩
    · exact .inr ⟨_, rfl, rfl⟩

/-- A field that clearing a link keeps, at every buffer but the one returned. -/
theorem zbufAlloc_field {γ : Type} (g : Zbuf α → γ) (hg : ∀ z, g { z with prev := none } = g z)
    (pool : ZbufPool α) (size : BitVec 16) {x : α} (hx : (c.zbufAlloc pool size).2 ≠ some x) :
    g ((c.zbufAlloc pool size).1.zb x) = g (pool.zb x) := by
  obtain ⟨hzb, -⟩ | ⟨zb, hr, hzb⟩ := zbufAlloc_zb (c := c) pool size
  · rw [hzb]
  · have hne : x ≠ zb := fun he => hx (he ▸ hr)
    rw [hzb, Lib.Store.modify_of_ne _ hne]
    exact Lib.Store.modifyAt_field g _ _ hg x

/-- The buffer that `zbuf_alloc` returns is empty. -/
theorem zbufAlloc_some (pool : ZbufPool α) (size : BitVec 16) {zb : α}
    (h : (c.zbufAlloc pool size).2 = some zb) : ∃ z,
      (c.zbufAlloc pool size).1.zb zb = c.allocated z ∧ z.space = (pool.zb zb).space := by
  obtain ⟨-, hr⟩ | ⟨zb', hr, hzb⟩ := zbufAlloc_zb (c := c) pool size
  · rw [hr] at h
    cases h
  · obtain rfl : zb' = zb := Option.some.inj (hr.symm.trans h)
    refine ⟨_, (congrFun hzb zb').trans (Lib.Store.modify_self ..), ?_⟩
    exact Lib.Store.modifyAt_field Zbuf.space _ _ (f := fun z => { z with prev := none })
      (fun _ => rfl) zb'

omit [DecidableEq α] in
theorem allocated_shows (z : Zbuf α) : (c.allocated z).Shows c.start :=
  .empty c.headroom c.headroom_le (Nat.zero_add _) (Nat.zero_add _) rfl

theorem Windows.alloc (h : c.Windows cfg pool) (size : BitVec 16) :
    c.Windows cfg (c.zbufAlloc pool size).1 := by
  intro x hx
  by_cases hr : (c.zbufAlloc pool size).2 = some x
  · obtain ⟨z, hz, -⟩ := zbufAlloc_some pool size hr
    rw [hz]
    exact ⟨_, allocated_shows z⟩
  · obtain ⟨w, hw⟩ := h x hx
    exact ⟨w, hw.congr (zbufAlloc_field Zbuf.data (fun _ => rfl) pool size hr)
      (zbufAlloc_field Zbuf.tail (fun _ => rfl) pool size hr)
      (zbufAlloc_field Zbuf.len (fun _ => rfl) pool size hr)⟩

theorem Windows.allocTx (h : c.Windows cfg pool) (size : BitVec 16) :
    c.Windows cfg (c.zbufAllocTx pool size).1 := by
  refine (h.alloc size).congr ?_ ?_ ?_
  · exact Lib.Store.modifyAt_field Zbuf.data _ _ fun _ => rfl
  · exact Lib.Store.modifyAt_field Zbuf.tail _ _ fun _ => rfl
  · exact Lib.Store.modifyAt_field Zbuf.len _ _ fun _ => rfl

theorem Windows.allocRx (h : c.Windows cfg pool) (size : BitVec 16) :
    c.Windows cfg (c.zbufAllocRx pool size).1 := by
  intro x hx
  simp only [zbufAllocRx]
  by_cases hr : (c.zbufAlloc pool size).2 = some x
  · obtain ⟨z, hz, -⟩ := zbufAlloc_some pool size hr
    rw [hr, Lib.Store.modifyAt_some, Lib.Store.modify_self, hz]
    exact ⟨_, .empty 0 (Nat.zero_le _) rfl rfl rfl⟩
  · rw [Lib.Store.modifyAt_of_ne _ hr]
    exact h.alloc size x hx

theorem Windows.storeSome (h : c.Windows cfg pool) {zb : α} {r : Option (Zbuf α × ℕ)}
    (hr : zb ∈ cfg.buffers → r = none ∨
      ∃ z p, ∃ w : Lib.Window c.size, r = some (z, p) ∧ z.Shows w) :
    c.Windows cfg (pool.storeSome zb r) := by
  rcases r with _ | ⟨z, p⟩
  · exact h
  · refine h.store fun hzb => ?_
    obtain hnone | ⟨z', p', w, hr', hw⟩ := hr hzb
    · cases hnone
    · cases hr'
      exact ⟨w, hw⟩

/-- **A call keeps the windows.** -/
theorem Windows.call (h : c.Windows cfg pool) {e : ZbufCall α}
    (he : c.call port pool e = some pool') : c.Windows cfg pool' := by
  cases e with
  | alloc size =>
    cases he
    exact h.alloc size
  | allocTx size =>
    cases he
    exact h.allocTx size
  | allocRx size =>
    cases he
    exact h.allocRx size
  | free zb =>
    cases he
    refine h.congr ?_ ?_ ?_
    · exact zbufFree_field port pool zb Zbuf.data (fun _ _ => rfl) (fun _ _ => rfl) fun _ _ => rfl
    · exact zbufFree_field port pool zb Zbuf.tail (fun _ _ => rfl) (fun _ _ => rfl) fun _ _ => rfl
    · exact zbufFree_field port pool zb Zbuf.len (fun _ _ => rfl) (fun _ _ => rfl) fun _ _ => rfl
  | push zb len =>
    cases he
    refine h.storeSome fun hzb => ?_
    obtain ⟨w, hw⟩ := h zb hzb
    exact (hw.push c.size_lt len).imp And.left fun ⟨z', w', hz', _, hw'⟩ => ⟨z', _, w', hz', hw'⟩
  | pull zb len =>
    cases he
    refine h.storeSome fun hzb => ?_
    obtain ⟨w, hw⟩ := h zb hzb
    exact (hw.pull len).imp And.left fun ⟨z', w', hz', _, hw'⟩ => ⟨z', _, w', hz', hw'⟩
  | put zb len =>
    cases he
    refine h.storeSome fun hzb => ?_
    obtain ⟨w, hw⟩ := h zb hzb
    exact (put_shows hw len).imp And.left fun ⟨z', w', hz', _, hw'⟩ => ⟨z', _, w', hz', hw'⟩
  | trim zb len =>
    cases he
    refine h.store fun hzb => ?_
    obtain ⟨w, hw⟩ := h zb hzb
    exact ⟨_, hw.trim len⟩
  | reset zb =>
    cases he
    exact h.store fun _ => ⟨c.start, .empty c.headroom c.headroom_le (Nat.zero_add _)
      (Nat.zero_add _) rfl⟩
  | reserve zb len =>
    unfold ZbufParams.call at he
    dsimp only at he
    split_ifs at he with hroom
    cases he
    refine h.store fun hzb => ?_
    obtain ⟨w, hw⟩ := h zb hzb
    exact reserve_shows hw hroom.1 hroom.2

/-! ### Steps -/

/-- A field that a call leaves alone. -/
theorem store_field {γ : Type} (g : Zbuf α → γ) {zb : α} {z : Zbuf α} (hz : g z = g (pool.zb zb))
    (x : α) : g ((pool.store zb z).zb x) = g (pool.zb x) := by
  simp only [ZbufPool.store, Function.update_apply]
  split_ifs with he
  · rw [hz, he]
  · rfl

theorem storeSome_field {γ : Type} (g : Zbuf α → γ) {zb : α} {r : Option (Zbuf α × ℕ)}
    (hr : ∀ z p, r = some (z, p) → g z = g (pool.zb zb)) (x : α) :
    g ((pool.storeSome zb r).zb x) = g (pool.zb x) := by
  rcases r with _ | ⟨z, p⟩
  · rfl
  · exact store_field g (hr z p rfl) x

theorem zbufAlloc_space (pool : ZbufPool α) (size : BitVec 16) (x : α) :
    ((c.zbufAlloc pool size).1.zb x).space = (pool.zb x).space := by
  by_cases hr : (c.zbufAlloc pool size).2 = some x
  · obtain ⟨z, hz, hspace⟩ := zbufAlloc_some pool size hr
    rw [hz, ← hspace]
    rfl
  · exact zbufAlloc_field Zbuf.space (fun _ => rfl) pool size hr

/-- **No call writes a byte** of a buffer. -/
theorem call_space {e : ZbufCall α} (he : c.call port pool e = some pool') (x : α) :
    (pool'.zb x).space = (pool.zb x).space := by
  cases e with
  | alloc size =>
    cases he
    exact zbufAlloc_space pool size x
  | allocTx size =>
    cases he
    refine Eq.trans ?_ (zbufAlloc_space (c := c) pool size x)
    exact Lib.Store.modifyAt_field Zbuf.space _ _ (fun _ => by rfl) x
  | allocRx size =>
    cases he
    refine Eq.trans ?_ (zbufAlloc_space (c := c) pool size x)
    exact Lib.Store.modifyAt_field Zbuf.space _ _ (fun _ => by rfl) x
  | free zb =>
    cases he
    exact zbufFree_field port pool zb Zbuf.space (fun _ _ => rfl) (fun _ _ => rfl)
      (fun _ _ => rfl) x
  | push zb len =>
    cases he
    refine storeSome_field Zbuf.space (fun z p hr => ?_) x
    unfold zbufPush at hr
    split_ifs at hr
    cases hr
    rfl
  | pull zb len =>
    cases he
    refine storeSome_field Zbuf.space (fun z p hr => ?_) x
    unfold zbufPull at hr
    split_ifs at hr
    obtain ⟨rfl, -⟩ := Prod.mk.inj (Option.some.inj hr)
    rfl
  | put zb len =>
    cases he
    refine storeSome_field Zbuf.space (fun z p hr => ?_) x
    unfold zbufPut at hr
    split_ifs at hr
    cases hr
    rfl
  | trim zb len =>
    cases he
    exact store_field Zbuf.space (by rfl) x
  | reset zb =>
    cases he
    exact store_field Zbuf.space (by rfl) x
  | reserve zb len =>
    unfold ZbufParams.call at he
    dsimp only at he
    split_ifs at he
    cases he
    exact store_field Zbuf.space (by rfl) x

/-- **A call that returns `NULL`** changes nothing. -/
theorem call_failed {e : ZbufCall α} (he : c.call port pool e = some pool')
    (hf : c.Fails pool e) : pool' = pool := by
  cases e with
  | push zb len =>
    cases he
    rw [show zbufPush (pool.zb zb) len = none from hf]
    rfl
  | pull zb len =>
    cases he
    rw [show zbufPull (pool.zb zb) len = none from hf]
    rfl
  | put zb len =>
    cases he
    rw [show c.zbufPut (pool.zb zb) len = none from hf]
    rfl
  | _ => exact hf.elim

/-- Two stores to one buffer, the second of what was there. -/
theorem store_store (zb : α) (z : Zbuf α) : (pool.store zb z).store zb (pool.zb zb) = pool := by
  simp only [ZbufPool.store, Function.update_idem, Function.update_eq_self]

theorem call_pull_push (h : c.Windows cfg pool) {zb : α} (hzb : zb ∈ cfg.buffers) {len : BitVec 16}
    (he : c.call port pool (.push zb len) = some pool') (hf : ¬ c.Fails pool (.push zb len)) :
    c.call port pool' (.pull zb len) = some pool := by
  obtain ⟨w, hw⟩ := h zb hzb
  obtain ⟨⟨z, p⟩, hz⟩ := Option.ne_none_iff_exists'.1 hf
  cases he
  have hpull : zbufPull ((pool.storeSome zb (zbufPush (pool.zb zb) len)).zb zb) len =
      some (pool.zb zb, (pool.zb zb).data) := by
    rw [hz]
    simp only [ZbufPool.storeSome, ZbufPool.store, Function.update_self]
    exact hw.pull_push c.size_lt hz
  simp only [ZbufParams.call, hpull]
  rw [hz]
  exact congrArg some (store_store zb z)

theorem call_trim_put (h : c.Windows cfg pool) {zb : α} (hzb : zb ∈ cfg.buffers) {len : BitVec 16}
    (he : c.call port pool (.put zb len) = some pool') (hf : ¬ c.Fails pool (.put zb len)) :
    c.call port pool' (.trim zb len) = some pool := by
  obtain ⟨w, hw⟩ := h zb hzb
  obtain ⟨⟨z, p⟩, hz⟩ := Option.ne_none_iff_exists'.1 hf
  cases he
  have htrim : zbufTrim ((pool.storeSome zb (c.zbufPut (pool.zb zb) len)).zb zb) len =
      pool.zb zb := by
    rw [hz]
    simp only [ZbufPool.storeSome, ZbufPool.store, Function.update_self]
    exact trim_put hw hz
  simp only [ZbufParams.call, htrim]
  rw [hz]
  exact congrArg some (store_store zb z)

/-! ### Runs -/

/-- After `zbuf_pool_init` every buffer shows the empty window behind the
    headroom. -/
theorem windows_init (cfg : ZbufConfig α) (m : Lib.Store α (Zbuf α)) :
    c.Windows cfg (c.zbufPoolInit cfg m) := by
  have hfold : ∀ (bs : List α) (pool : ZbufPool α) (done : α → Prop),
      (∀ x, done x → ∃ w : Lib.Window c.size, (pool.zb x).Shows w) →
      ∀ x, done x ∨ x ∈ bs → ∃ w : Lib.Window c.size, ((bs.foldl (fun pool zb =>
        ({ pool with zb := pool.zb.modify zb c.fresh } : ZbufPool α).link zb) pool).zb x).Shows
          w := by
    intro bs
    induction bs with
    | nil =>
      intro pool done hdone x hx
      exact hdone x (hx.resolve_right (by simp))
    | cons b bs ih =>
      intro pool done hdone x hx
      refine ih _ (fun x => done x ∨ x = b) (fun x hx => ?_) x ?_
      · have hlink : ∀ {γ : Type} (g : Zbuf α → γ), (∀ z v, g { z with next := v } = g z) →
            (∀ z v, g { z with prev := v } = g z) →
            g ((({ pool with zb := pool.zb.modify b c.fresh } : ZbufPool α).link b).zb x) =
              g (pool.zb.modify b c.fresh x) :=
          fun g hn hp => ZbufPool.link_field _ g hn hp x
        have hshows : ∃ w : Lib.Window c.size, (pool.zb.modify b c.fresh x).Shows w := by
          by_cases hxb : x = b
          · rw [hxb, Lib.Store.modify_self]
            exact ⟨c.start, .empty c.headroom c.headroom_le (Nat.zero_add _) (Nat.zero_add _) rfl⟩
          · rw [Lib.Store.modify_of_ne _ hxb]
            exact hdone x (hx.resolve_right hxb)
        obtain ⟨w, hw⟩ := hshows
        exact ⟨w, hw.congr (hlink Zbuf.data (fun _ _ => rfl) fun _ _ => rfl)
          (hlink Zbuf.tail (fun _ _ => rfl) fun _ _ => rfl)
          (hlink Zbuf.len (fun _ _ => rfl) fun _ _ => rfl)⟩
      · rw [List.mem_cons] at hx
        tauto
  intro x hx
  exact hfold cfg.buffers _ (fun _ => False) (fun _ h => h.elim) x (.inr hx)

/-- **Buffer windows.**  In every run, with any sizes of buffer and headroom, every
    buffer of the pool keeps its window, and every call is lawful. -/
theorem zbuf_window (c : ZbufParams) (cfg : ZbufConfig α) (port : Port) {tr : List (ZbufCall α)}
    {pool : ZbufPool α} {steps : List (ZbufPool α × ZbufCall α × ZbufPool α)}
    (h : (c.zbufCalls port cfg).history.Run tr (pool, steps)) :
    (∀ zb ∈ cfg.buffers, c.InWindow (pool.zb zb)) ∧
      ∀ w ∈ steps, c.Lawful port cfg w.1 w.2.1 w.2.2 := by
  have hrun := h.history_rule (I := c.Windows cfg) (P := c.Lawful port cfg) ?_ ?_
  · refine ⟨fun zb hzb => ?_, hrun.2⟩
    obtain ⟨w, hw⟩ := hrun.1 zb hzb
    exact inWindow_of_shows hw
  · rintro pool ⟨m, rfl⟩
    exact windows_init cfg m
  · intro pool e pool' hw he
    refine ⟨hw.call he, call_space he, call_failed he, ?_, ?_⟩
    · rintro zb hzb len rfl hf
      exact call_pull_push hw hzb he hf
    · rintro zb hzb len rfl hf
      exact call_trim_put hw hzb he hf

/-- A buffer is allocated, filled and trimmed, and gets and loses a header. -/
def demoCalls : List (ZbufCall (Fin 2)) :=
  [.allocTx 64, .put 1 20, .push 1 14, .push 1 200, .pull 1 14, .trim 1 4]

theorem zbuf_window_demo : ∃ pool, (shipped.zbufCalls .arm64 demoZbufs).Run demoCalls pool ∧
    ∀ zb ∈ demoZbufs.buffers, shipped.InWindow (pool.zb zb) := by
  have hexec : (Lib.Lts.exec (shipped.call .arm64) (shipped.zbufPoolInit demoZbufs fun _ => demoZbuf)
    demoCalls).isSome := rfl
  have hrun : (shipped.zbufCalls .arm64 demoZbufs).Run demoCalls _ :=
    Lib.Lts.run_exec_get ⟨_, rfl⟩ hexec
  obtain ⟨steps, hsteps⟩ := hrun.exists_history
  exact ⟨_, hrun, (zbuf_window shipped demoZbufs .arm64 hsteps).1⟩

end ZbufParams

end Gracemont
