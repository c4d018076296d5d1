/-
  Gracemont networking — where the buffers of the pool lie in `zbuf_memory`
  (`net/buffer/zbuf.c`, `include/zbuf.h` and the `Kconfig` of both ports).

  `zbuf_pool_init` cuts the memory of the pool into buffers, each a `zbuf_t`
  and `CONFIG_ZBUF_SIZE` bytes, without looking at the end of the memory.
  Addresses are offsets into `zbuf_memory`.

  * `structSize`: the size of a structure by the rules of C;
  * `zbufLayout_tiles`: the buffers are disjoint;
  * `zbuf_layout_iff`: when the last of them lies inside the memory.
-/
import Mathlib.Order.CompletePartialOrder
import Gracemont.Kernel.Types
import Gracemont.Lib.Tiling

namespace Gracemont

/-! ## Configuration -/

/-- `CONFIG_ZBUF_COUNT`, `CONFIG_ZBUF_SIZE`, `CONFIG_ZBUF_HEADROOM` and
    `CONFIG_ZBUF_POOL_SIZE` -/
structure ZbufKconfig where
  count : ℕ
  size : ℕ
  headroom : ℕ
  poolSize : ℕ
  deriving DecidableEq

/-- The default values, which are also those of the `defconfig`. -/
def ZbufKconfig.default : ZbufKconfig := ⟨1024, 2048, 128, 2097152⟩

/-- The `range` lines of `Kconfig`; `CONFIG_ZBUF_POOL_SIZE` has none on X86_64,
    where it is an `int`. -/
structure ZbufKconfig.Admitted (port : Port) (c : ZbufKconfig) : Prop where
  count : 64 ≤ c.count ∧ c.count ≤ 8192
  size : 256 ≤ c.size ∧ c.size ≤ 65536
  headroom : (match port with | .arm64 => 32 | .x86_64 => 64) ≤ c.headroom ∧ c.headroom ≤ 512
  poolSize : match port with
    | .arm64 => 65536 ≤ c.poolSize ∧ c.poolSize ≤ 16777216
    | .x86_64 => c.poolSize < 2 ^ 31

/-! ## Layout -/

/-- The next multiple of `align`. -/
def alignUp (n align : ℕ) : ℕ := (n + (align - 1)) / align * align

/-- The size of a structure whose fields have these sizes and alignments. -/
def structSize (fields : List (ℕ × ℕ)) : ℕ :=
  alignUp (fields.foldl (fun off f => alignUp off f.2 + f.1) 0)
    (fields.foldl (fun a f => max a f.2) 1)

/-- The fields of `zbuf_t`: `head`, `data`, `tail`, `end`; `len`, `size`,
    `refcount`, `flags`; `protocol`, `l2_offset`, `l3_offset`, `l4_offset`;
    `netif`, `hash`; `dma_addr`; `next`, `prev`; `timestamp`; `_pad`. -/
def zbufFields : List (ℕ × ℕ) :=
  [(8, 8), (8, 8), (8, 8), (8, 8), (2, 2), (2, 2), (2, 2), (2, 2), (2, 2), (2, 2), (2, 2), (2, 2),
    (8, 8), (4, 4), (8, 8), (8, 8), (8, 8), (8, 8), (8, 1)]

/-- `sizeof(zbuf_t)` -/
def sizeofZbuf : ℕ := structSize zbufFields

theorem sizeofZbuf_eq : sizeofZbuf = 104 := by decide

namespace ZbufKconfig
variable (c : ZbufKconfig)

/-- `buf_total` -/
def bufTotal : BitVec 64 :=
  let bufTotal := BitVec.ofNat 64 (sizeofZbuf + c.size)
  (bufTotal + 63#64) &&& ~~~63#64

/-- The loop of `zbuf_pool_init`: the `n` buffers from `ptr` on. -/
def buffersFrom (ptr : ℕ) : ℕ → List ℕ
  | 0 => []
  | n + 1 => ptr :: buffersFrom (ptr + c.bufTotal.toNat) n

/-- The buffers that `zbuf_pool_init` lays out. -/
def zbufLayout : List ℕ := c.buffersFrom 0 c.count

/-- The bytes of the buffer at `p`: its header and its data. -/
def bytes (p : ℕ) : Set ℕ := Set.Ico p (p + sizeofZbuf + c.size)

/-- The buffers are pairwise disjoint and lie inside `zbuf_memory`. -/
structure LayoutSafe : Prop where
  disjoint : c.zbufLayout.Pairwise fun p q => Disjoint (c.bytes p) (c.bytes q)
  inside : ∀ p ∈ c.zbufLayout, c.bytes p ⊆ Set.Ico 0 c.poolSize

end ZbufKconfig

/-! ## Results -/

namespace ZbufKconfig
variable {c : ZbufKconfig}

/-- The stride is the size of a buffer, rounded up to 64 bytes. -/
theorem bufTotal_toNat (h : c.size ≤ 65536) : c.bufTotal.toNat = (c.size + 167) / 64 * 64 := by
  have hmask := and_not_lowMask (BitVec.ofNat 64 (sizeofZbuf + c.size) + 63#64)
    (by decide : (63#64).toNat = 2 ^ 6 - 1)
  have h63 : (63#64).toNat = 63 := rfl
  rw [bufTotal, hmask, BitVec.toNat_add, BitVec.toNat_ofNat, sizeofZbuf_eq]
  omega

/-- **The buffers tile** the memory from its start on. -/
theorem buffersFrom_tiles (h : 0 < c.bufTotal.toNat) (n ptr : ℕ) :
    Lib.Tiles (fun _ => c.bufTotal.toNat) ptr (c.buffersFrom ptr n)
      (ptr + n * c.bufTotal.toNat) := by
  induction n generalizing ptr with
  | zero => simp [buffersFrom]
  | succ n ih =>
    refine ⟨rfl, h, ?_⟩
    rw [Nat.succ_mul, Nat.add_comm (n * _), ← Nat.add_assoc]
    exact ih _

/-- The last buffer. -/
theorem last_mem (n ptr : ℕ) : ptr + n * c.bufTotal.toNat ∈ c.buffersFrom ptr (n + 1) := by
  induction n generalizing ptr with
  | zero => simp [buffersFrom]
  | succ n ih =>
    rw [buffersFrom, Nat.succ_mul, Nat.add_comm (n * _), ← Nat.add_assoc]
    exact List.mem_cons_of_mem _ (ih _)

/-- **The layout** is safe if and only if the last buffer ends inside the memory. -/
theorem layoutSafe_iff (hcount : 0 < c.count) (hsize : c.size ≤ 65536) :
    c.LayoutSafe ↔
      (c.count - 1) * ((c.size + 167) / 64 * 64) + (104 + c.size) ≤ c.poolSize := by
  have htotal := bufTotal_toNat hsize
  have htiles := buffersFrom_tiles (c := c) (by omega) c.count 0
  obtain ⟨n, hn⟩ : ∃ n, c.count = n + 1 := ⟨c.count - 1, by omega⟩
  rw [← htotal, hn, Nat.add_sub_cancel]
  constructor
  · intro h
    have hlast : 0 + n * c.bufTotal.toNat ∈ c.zbufLayout := by
      rw [zbufLayout, hn]
      exact last_mem n 0
    have hin := h.inside _ hlast
    rw [bytes, Set.Ico_subset_Ico_iff (by rw [sizeofZbuf_eq]; omega), sizeofZbuf_eq] at hin
    omega
  · intro h
    constructor
    · refine htiles.sorted.imp_of_mem fun hp hq hlt => ?_
      have hapart := htiles.apart hp hq hlt
      rw [bytes, bytes, Set.Ico_disjoint_Ico, sizeofZbuf_eq]
      omega
    · intro p hp
      have hend := (htiles.mem hp).2.1
      have hsucc : c.count * c.bufTotal.toNat = n * c.bufTotal.toNat + c.bufTotal.toNat := by
        rw [hn, Nat.succ_mul]
      rw [bytes, sizeofZbuf_eq]
      refine Set.Ico_subset_Ico (Nat.zero_le _) ?_
      omega

/-- **Pool layout.**  For every configuration that `Kconfig` admits, the buffers
    are disjoint and inside `zbuf_memory` if and only if the last of them ends
    inside it. -/
theorem zbuf_layout_iff (port : Port) (h : c.Admitted port) : c.LayoutSafe ↔
    (c.count - 1) * ((c.size + 167) / 64 * 64) + (104 + c.size) ≤ c.poolSize :=
  layoutSafe_iff (Nat.lt_of_lt_of_le (by decide) h.count.1) h.size.2

/-- Half of the default number of buffers fits. -/
theorem zbuf_layout_half : (ZbufKconfig.mk 512 2048 128 2097152).LayoutSafe :=
  (zbuf_layout_iff .arm64 ⟨by decide, by decide, by decide, by decide⟩).2 (by decide)

/-- **The default configuration** is admitted in both ports, and the last of its
    buffers end behind the pool memory. -/
theorem zbuf_layout_default : (∀ port, default.Admitted port) ∧ ¬ default.LayoutSafe := by
  constructor
  · intro port
    cases port with
    | arm64 => exact ⟨by decide, by decide, by decide, by decide⟩
    | x86_64 => exact ⟨by decide, by decide, by decide, by decide⟩
  · rw [layoutSafe_iff (by decide) (by decide)]
    decide

end ZbufKconfig

end Gracemont
