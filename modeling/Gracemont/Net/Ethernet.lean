/-
  Gracemont networking — network interfaces and Ethernet headers
  (`include/net_stack.h`, the byte order functions of `net/stack/net_core.c`).

  * `be16`, `putBe16`: 16-bit values in network byte order, as `htons` and the
    shifts of the protocols make them;
  * `Netif`: an interface, with the driver's `send`;
  * `Zbuf.frame`: the bytes of a frame;
  * `Zbuf.append`, `Zbuf.pushEthHdr`: building a frame in a buffer.
-/
import Gracemont.Net.Zbuf

namespace Gracemont

/-! ## Byte order -/

/-- The big-endian 16-bit value at `i`. -/
def be16 (b : ℕ → BitVec 8) (i : ℕ) : BitVec 16 := b i ++ b (i + 1)

/-- `val >> 8` and `val & 0xFF` -/
def hiByte (val : BitVec 16) : BitVec 8 := (val >>> 8).setWidth 8
def loByte (val : BitVec 16) : BitVec 8 := (val &&& 0xFF).setWidth 8

theorem be16_toNat (b : ℕ → BitVec 8) (i : ℕ) :
    (be16 b i).toNat = (b i).toNat * 2 ^ 8 + (b (i + 1)).toNat := by
  rw [be16, BitVec.toNat_append, ← Nat.shiftLeft_add_eq_or_of_lt (b (i + 1)).isLt,
    Nat.shiftLeft_eq]

theorem hiByte_toNat (val : BitVec 16) : (hiByte val).toNat = val.toNat / 2 ^ 8 := by
  have hlt := val.isLt
  simp only [hiByte, BitVec.toNat_setWidth, BitVec.toNat_ushiftRight, Nat.shiftRight_eq_div_pow]
  omega

theorem loByte_toNat (val : BitVec 16) : (loByte val).toNat = val.toNat % 2 ^ 8 := by
  simp only [loByte, BitVec.toNat_setWidth, BitVec.toNat_and]
  have hmask : val.toNat &&& (0xFF : BitVec 16).toNat = val.toNat % 2 ^ 8 :=
    Nat.and_two_pow_sub_one_eq_mod val.toNat 8
  rw [hmask, Nat.mod_mod]

theorem hiByte_append_loByte (val : BitVec 16) : hiByte val ++ loByte val = val := by
  apply BitVec.eq_of_toNat_eq
  rw [BitVec.toNat_append, ← Nat.shiftLeft_add_eq_or_of_lt (loByte val).isLt, Nat.shiftLeft_eq,
    hiByte_toNat, loByte_toNat]
  omega

/-- A big-endian store of a 16-bit value. -/
def putBe16 (m : Lib.ByteMem) (a : ℕ) (val : BitVec 16) : Lib.ByteMem :=
  (m.set a (hiByte val)).set (a + 1) (loByte val)

/-! ## Interfaces -/

/-- `netif_t`: the address, and the driver's `send` on the buffers of a pool. -/
structure Netif (α : Type) where
  mac : Fin 6 → BitVec 8
  send : ZbufPool α → α → ZbufPool α × Status

/-- `ETH_HDR_LEN` -/
def ethHdrLen : ℕ := 14

/-- The stores of byte `i` of the two addresses. -/
def putEthAddr (eth : ℕ) (dst src : Fin 6 → BitVec 8) (m : Lib.ByteMem) (i : Fin 6) :
    Lib.ByteMem :=
  (m.set (eth + i) (dst i)).set (eth + (6 + i)) (src i)

/-- The stores into the `eth_hdr_t` at `eth`. -/
def putEthHdr (m : Lib.ByteMem) (eth : ℕ) (dst src : Fin 6 → BitVec 8) (type : BitVec 16) :
    Lib.ByteMem :=
  putBe16 ([0, 1, 2, 3, 4, 5].foldl (putEthAddr eth dst src) m) (eth + 12) type

section
variable (m : Lib.ByteMem) (eth : ℕ) (dst src : Fin 6 → BitVec 8) (type : BitVec 16)

/-- The header is written within its 14 bytes. -/
theorem putEthHdr_within : Lib.ByteMem.Within eth (eth + ethHdrLen) m
    (putEthHdr m eth dst src type) := by
  have hset : ∀ (m : Lib.ByteMem) (i : ℕ) (v : BitVec 8), i < 14 →
      Lib.ByteMem.Within eth (eth + ethHdrLen) m (m.set (eth + i) v) := by
    intro m i v hi
    have hlen : ethHdrLen = 14 := rfl
    exact .set (by omega) (by omega) m v
  have haddr : ∀ (l : List (Fin 6)) (m : Lib.ByteMem),
      Lib.ByteMem.Within eth (eth + ethHdrLen) m (l.foldl (putEthAddr eth dst src) m) := by
    intro l
    induction l with
    | nil => exact Lib.ByteMem.Within.refl _ _
    | cons i l ih =>
      intro m
      have hi := i.isLt
      exact ((hset m _ _ (by omega)).trans (hset _ _ _ (by omega))).trans (ih _)
  exact (haddr _ m).trans ((hset _ 12 _ (by decide)).trans (hset _ 13 _ (by decide)))

/-- Every byte of it is written, and once. -/
theorem putEthHdr_written : ∃ ws, (putEthHdr m eth dst src type).written = ws ++ m.written ∧
    ws.length = ethHdrLen ∧ ∀ i < ethHdrLen, eth + i ∈ ws := by
  refine ⟨[13, 12, 11, 5, 10, 4, 9, 3, 8, 2, 7, 1, 6, 0].map (eth + ·), ?_, rfl, ?_⟩
  · rfl
  · intro i hi
    refine List.mem_map_of_mem ?_
    unfold ethHdrLen at hi
    revert i
    decide

end

/-- The memory from `zb->data` on. -/
def Zbuf.frame {α : Type} (z : Zbuf α) (i : ℕ) : BitVec 8 := z.space.byte (z.data + i)

/-! ## Frames to send -/

section
variable {α : Type} (z : Zbuf α) (len : BitVec 16) (bytes : List (BitVec 8))

/-- `p = zbuf_put(zb, len)`, and `bytes` stored through `p`. -/
def Zbuf.append : Zbuf α :=
  match zbufPut z len with
  | some (z, p) => { z with space := z.space.putBytes p bytes }
  -- the stores go through a null pointer, to no buffer
  | none => z

theorem Zbuf.append_of_le (h : z.tail + len.toNat ≤ zbufEnd) : z.append len bytes =
    { z with
      tail := z.tail + len.toNat, len := z.len + len
      space := z.space.putBytes z.tail bytes } := by
  have hput : zbufPut z len =
      some ({ z with tail := z.tail + len.toNat, len := z.len + len }, z.tail) :=
    if_neg (Nat.not_lt.2 h)
  rw [Zbuf.append, hput]

theorem Zbuf.append_of_lt (h : zbufEnd < z.tail + len.toNat) : z.append len bytes = z := by
  have hput : zbufPut z len = none := if_pos h
  rw [Zbuf.append, hput]

theorem Zbuf.append_data : (z.append len bytes).data = z.data := by
  by_cases h : z.tail + len.toNat ≤ zbufEnd
  · rw [Zbuf.append_of_le _ _ _ h]
  · rw [Zbuf.append_of_lt _ _ _ (Nat.lt_of_not_le h)]

/-- An empty buffer does not grow beyond its end. -/
theorem Zbuf.append_len_le (hlen : z.len = 0) : (z.append len bytes).len.toNat ≤ zbufEnd := by
  by_cases h : z.tail + len.toNat ≤ zbufEnd
  · rw [Zbuf.append_of_le _ _ _ h, hlen]
    have hzero : (0 + len : BitVec 16) = len := BitVec.zero_add len
    simp only [hzero]
    omega
  · rw [Zbuf.append_of_lt _ _ _ (Nat.lt_of_not_le h), hlen]
    exact Nat.zero_le _

variable (dst src : Fin 6 → BitVec 8) (type : BitVec 16)

/-- `eth = zbuf_push(zb, ETH_HDR_LEN)`, and the header stored at `eth`. -/
def Zbuf.pushEthHdr : Zbuf α :=
  match zbufPush z ethHdrLen with
  | some (z, eth) => { z with space := putEthHdr z.space eth dst src type }
  | none => z

theorem Zbuf.pushEthHdr_of_le (h : ethHdrLen ≤ z.data) : z.pushEthHdr dst src type =
    { z with
      data := z.data - ethHdrLen, len := z.len + ethHdrLen
      space := putEthHdr z.space (z.data - ethHdrLen) dst src type } := by
  have hpush : zbufPush z ethHdrLen =
      some ({ z with data := z.data - ethHdrLen, len := z.len + ethHdrLen },
        z.data - ethHdrLen) := by
    refine if_neg (Nat.not_lt.2 ?_)
    rw [zbufHead, Nat.zero_add]
    exact h
  rw [Zbuf.pushEthHdr, hpush]

/-- **A frame built in a new buffer**: it starts with the header, and whatever is
    not stored is as it was. -/
theorem Zbuf.built (hdata : z.data = configZbufHeadroom) (htail : z.tail = configZbufHeadroom)
    (hlen : z.len = 0) (h : len.toNat ≤ configZbufSize - configZbufHeadroom) :
    ((z.append len bytes).pushEthHdr dst src type).data + ethHdrLen = configZbufHeadroom ∧
      ((z.append len bytes).pushEthHdr dst src type).len = len + ethHdrLen ∧
      ((z.append len bytes).pushEthHdr dst src type).space =
        putEthHdr (z.space.putBytes configZbufHeadroom bytes)
          ((z.append len bytes).pushEthHdr dst src type).data dst src type := by
  have hfit : z.tail + len.toNat ≤ zbufEnd := by
    rw [htail]
    simp only [zbufEnd, zbufHead, configZbufSize, configZbufHeadroom] at h ⊢
    omega
  have hzero : 0 + len = len := BitVec.zero_add len
  rw [Zbuf.append_of_le _ _ _ hfit, Zbuf.pushEthHdr_of_le _ _ _ _ (by rw [hdata]; decide)]
  simp only [hdata, htail, hlen, hzero]
  exact ⟨rfl, trivial, trivial⟩

end

end Gracemont
