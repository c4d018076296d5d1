/-
  Gracemont networking — checksums (`inet_checksum`, `inet_pseudo_checksum` of
  `net/stack/net_core.c`, `tcp_checksum` of `net/stack/tcp.c`).

  The two ports are little-endian: `inet_checksum` adds words as the processor
  reads them, `tcp_checksum` adds big-endian words.

  * `be32`, `be16Bytes`, `be32Bytes`: network byte order;
  * `foldCarries`: the loop that folds a sum into 16 bits, which takes at most
    two passes (`foldCarries_lt`);
  * `inetChecksum`, `inetPseudoChecksum`, `tcpChecksum`;
  * `tcpChecksum_eq_zero_iff`: the segments that `tcp_checksum` accepts.
-/
import Gracemont.Lib.OnesComplement
import Gracemont.Net.Ethernet

namespace Gracemont

/-! ## Byte order -/

/-- The big-endian 32-bit value at `i`. -/
def be32 (b : ℕ → BitVec 8) (i : ℕ) : BitVec 32 := be16 b i ++ be16 b (i + 2)

/-- The little-endian 16-bit value at `i`. -/
def le16 (b : ℕ → BitVec 8) (i : ℕ) : BitVec 16 := b (i + 1) ++ b i

/-- A 16-bit value in network byte order. -/
def be16Bytes (val : BitVec 16) : List (BitVec 8) := [hiByte val, loByte val]

/-- `val >> 16` and `val & 0xFFFF` -/
def hiWord (val : BitVec 32) : BitVec 16 := (val >>> 16).setWidth 16
def loWord (val : BitVec 32) : BitVec 16 := (val &&& 0xFFFF).setWidth 16

/-- A 32-bit value in network byte order. -/
def be32Bytes (val : BitVec 32) : List (BitVec 8) := be16Bytes (hiWord val) ++ be16Bytes (loWord val)

/-- `htons`, a swap of the bytes. -/
def htons (h : BitVec 16) : BitVec 16 := ((h &&& 0xFF) <<< 8) ||| ((h >>> 8) &&& 0xFF)

/-! ## Sums -/

/-- A pass of the loop `while (sum >> 16)`. -/
def carryPass (sum : BitVec 32) : BitVec 32 :=
  if sum >>> 16 = 0 then sum else (sum &&& 0xFFFF#32) + (sum >>> 16)

/-- The loop `while (sum >> 16)`. -/
def foldCarries (sum : BitVec 32) : BitVec 32 := carryPass (carryPass sum)

/-- The loop of `inet_checksum` over `len` bytes at `i`. -/
def sumLe16 (b : ℕ → BitVec 8) : ℕ → BitVec 32 → ℕ → BitVec 32
  | _, sum, 0 => sum
  | i, sum, 1 => sum + (b i).setWidth 32
  | i, sum, len + 2 => sumLe16 b (i + 2) (sum + (le16 b i).setWidth 32) len

/-- `inet_checksum` -/
def inetChecksum (b : ℕ → BitVec 8) (i len : ℕ) : BitVec 16 :=
  ~~~ ((foldCarries (sumLe16 b i 0 len)).setWidth 16)

/-- `inet_pseudo_checksum` -/
def inetPseudoChecksum (src dst : BitVec 32) (proto : BitVec 8) (len : BitVec 16) : BitVec 16 :=
  let sum : BitVec 32 := 0
  let sum := sum + ((src >>> 16) &&& 0xFFFF#32)
  let sum := sum + (src &&& 0xFFFF#32)
  let sum := sum + ((dst >>> 16) &&& 0xFFFF#32)
  let sum := sum + (dst &&& 0xFFFF#32)
  let sum := sum + (htons (proto.setWidth 16)).setWidth 32
  let sum := sum + (htons len).setWidth 32
  (foldCarries sum).setWidth 16

/-- `IP_PROTO_ICMP`, `IP_PROTO_TCP` and `IP_PROTO_UDP` -/
def ipProtoIcmp : BitVec 8 := 1
def ipProtoTcp : BitVec 8 := 6
def ipProtoUdp : BitVec 8 := 17

/-- The loop of `tcp_checksum` over `remaining` bytes at `i`. -/
def sumBe16 (b : ℕ → BitVec 8) : ℕ → BitVec 32 → ℕ → BitVec 32
  | _, sum, 0 => sum
  | i, sum, 1 => sum + ((b i).setWidth 32 <<< 8)
  | i, sum, remaining + 2 => sumBe16 b (i + 2) (sum + (be16 b i).setWidth 32) remaining

/-- `tcp_checksum` of the segment at `tcp`, with the IP header at `ip`. -/
def tcpChecksum (b : ℕ → BitVec 8) (ip tcp : ℕ) (tcpLen : BitVec 16) : BitVec 16 :=
  let sum := (inetPseudoChecksum (be32 b (ip + 12)) (be32 b (ip + 16)) ipProtoTcp tcpLen).setWidth 32
  ~~~ ((foldCarries (sumBe16 b tcp sum tcpLen.toNat)).setWidth 16)

/-! ## Folding -/

theorem carryPass_toNat (sum : BitVec 32) :
    (carryPass sum).toNat = Lib.endAround 16 sum.toNat := by
  have hlt := sum.isLt
  have hshift : (sum >>> 16).toNat = sum.toNat / 2 ^ 16 := by
    rw [BitVec.toNat_ushiftRight, Nat.shiftRight_eq_div_pow]
  have hmask : (sum &&& 0xFFFF#32).toNat = sum.toNat % 2 ^ 16 := by
    rw [BitVec.toNat_and]
    exact Nat.and_two_pow_sub_one_eq_mod sum.toNat 16
  unfold carryPass
  by_cases h0 : sum >>> 16 = 0
  · have hq : sum.toNat / 2 ^ 16 = 0 := by
      rw [← hshift, h0]
      rfl
    rw [if_pos h0, Lib.endAround_eq_self (by omega)]
  · rw [if_neg h0, BitVec.toNat_add, hmask, hshift, Lib.endAround]
    omega

/-- A folded sum fits into 16 bits, so the loop is over. -/
theorem foldCarries_lt (sum : BitVec 32) : (foldCarries sum).toNat < 2 ^ 16 := by
  have hlt := sum.isLt
  rw [foldCarries, carryPass_toNat, carryPass_toNat, Lib.endAround, Lib.endAround]
  omega

theorem foldCarries_modEq (sum : BitVec 32) :
    (foldCarries sum).toNat ≡ sum.toNat [MOD 2 ^ 16 - 1] := by
  rw [foldCarries, carryPass_toNat, carryPass_toNat]
  exact (Lib.endAround_modEq 16 _).trans (Lib.endAround_modEq 16 _)

theorem foldCarries_pos (sum : BitVec 32) : 0 < (foldCarries sum).toNat ↔ 0 < sum.toNat := by
  rw [foldCarries, carryPass_toNat, carryPass_toNat, Lib.endAround_pos, Lib.endAround_pos]

/-- **The complement of a folded sum** is zero exactly if the sum is a positive
    multiple of `0xFFFF`. -/
theorem not_foldCarries_eq_zero (sum : BitVec 32) :
    ~~~ ((foldCarries sum).setWidth 16) = 0 ↔ 0 < sum.toNat ∧ 2 ^ 16 - 1 ∣ sum.toNat := by
  rw [← Lib.allOnes_iff (by decide) (foldCarries_lt sum) (foldCarries_modEq sum)
    (foldCarries_pos sum), ← BitVec.toNat_inj, BitVec.toNat_not, BitVec.toNat_setWidth,
    Nat.mod_eq_of_lt (foldCarries_lt sum)]
  have hlt := foldCarries_lt sum
  have h0 : (0 : BitVec 16).toNat = 0 := rfl
  omega

/-! ## Accepted segments -/

/-- The sum of big-endian words, the last byte of an odd number being the high
    byte of a word. -/
def beSum : List (BitVec 8) → ℕ
  | [] => 0
  | [v] => v.toNat * 2 ^ 8
  | v :: w :: l => (v ++ w).toNat + beSum l

/-- The bytes from `i` on. -/
def bytesFrom (b : ℕ → BitVec 8) (i len : ℕ) : List (BitVec 8) :=
  (List.range len).map fun j => b (i + j)

/-- The sum of the pseudo header, with the byte order that the code gives to
    its last two words. -/
def pseudoSum (src dst : BitVec 32) (proto : BitVec 8) (len : BitVec 16) : ℕ :=
  (hiWord src).toNat + (loWord src).toNat + (hiWord dst).toNat + (loWord dst).toNat +
    (htons (proto.setWidth 16)).toNat + (htons len).toNat

theorem bytesFrom_succ (b : ℕ → BitVec 8) (i len : ℕ) :
    bytesFrom b i (len + 1) = b i :: bytesFrom b (i + 1) len := by
  unfold bytesFrom
  rw [List.range_succ_eq_map, List.map_cons, List.map_map]
  refine congrArg₂ _ rfl (List.map_congr_left fun j _ => ?_)
  exact congrArg b (by simp only [Nat.succ_eq_add_one]; omega)

theorem bytesFrom_length (b : ℕ → BitVec 8) (i n : ℕ) : (bytesFrom b i n).length = n := by
  simp [bytesFrom]

theorem bytesFrom_append (b : ℕ → BitVec 8) (i m n : ℕ) :
    bytesFrom b i (m + n) = bytesFrom b i m ++ bytesFrom b (i + m) n := by
  simp [bytesFrom, List.range_add, Nat.add_assoc]

theorem beSum_le (l : List (BitVec 8)) : beSum l ≤ (l.length + 1) / 2 * (2 ^ 16 - 1) := by
  induction l using beSum.induct with
  | case1 => simp [beSum]
  | case2 v =>
    have hv := v.isLt
    simp only [beSum, List.length_singleton]
    omega
  | case3 v w l ih =>
    have hvw := (v ++ w).isLt
    simp only [beSum, List.length_cons]
    have hlen : (l.length + 1 + 1 + 1) / 2 = (l.length + 1) / 2 + 1 := by omega
    rw [hlen, Nat.add_mul]
    omega

/-- **The loop** adds the words, as long as the sum fits into 32 bits. -/
theorem sumBe16_toNat (b : ℕ → BitVec 8) (i : ℕ) (sum : BitVec 32) (len : ℕ)
    (h : sum.toNat + beSum (bytesFrom b i len) < 2 ^ 32) :
    (sumBe16 b i sum len).toNat = sum.toNat + beSum (bytesFrom b i len) := by
  induction i, sum, len using sumBe16.induct b with
  | case1 i sum => rfl
  | case2 i sum =>
    have hi := (b i).isLt
    have hshift : ((b i).setWidth 32 <<< 8).toNat = (b i).toNat * 2 ^ 8 := by
      rw [BitVec.toNat_shiftLeft, BitVec.toNat_setWidth, Nat.shiftLeft_eq]
      omega
    rw [bytesFrom_succ] at h ⊢
    simp only [bytesFrom, List.range_zero, List.map_nil, beSum] at h ⊢
    rw [sumBe16, BitVec.toNat_add, hshift]
    omega
  | case3 i sum len ih =>
    have hi2 : i + 1 + 1 = i + 2 := rfl
    rw [bytesFrom_succ, bytesFrom_succ, hi2] at h ⊢
    have hw : ((be16 b i).setWidth 32).toNat = (b i ++ b (i + 1)).toNat := by
      have hlt := (be16 b i).isLt
      rw [BitVec.toNat_setWidth, be16]
      unfold be16 at hlt
      omega
    simp only [beSum] at h ⊢
    have hsum : (sum + (be16 b i).setWidth 32).toNat = sum.toNat + (b i ++ b (i + 1)).toNat := by
      rw [BitVec.toNat_add, hw]
      omega
    rw [sumBe16, ih (by rw [hsum]; omega), hsum]
    omega

theorem mask_toNat (val : BitVec 32) : (val &&& 0xFFFF#32).toNat = (loWord val).toNat := by
  have hmask : (val &&& 0xFFFF#32).toNat = val.toNat % 2 ^ 16 := by
    rw [BitVec.toNat_and]
    exact Nat.and_two_pow_sub_one_eq_mod _ 16
  have hlo : (loWord val).toNat = (val &&& 0xFFFF#32).toNat % 2 ^ 16 := by
    rw [loWord, BitVec.toNat_setWidth]
    rfl
  rw [hlo, hmask, Nat.mod_mod]

theorem loWord_shift (val : BitVec 32) : loWord (val >>> 16) = hiWord val := by
  apply BitVec.eq_of_toNat_eq
  have hlt := val.isLt
  have hshift : (val >>> 16).toNat = val.toNat / 2 ^ 16 := by
    rw [BitVec.toNat_ushiftRight, Nat.shiftRight_eq_div_pow]
  have hmask : ((val >>> 16) &&& 0xFFFF#32).toNat = (val >>> 16).toNat % 2 ^ 16 := by
    rw [BitVec.toNat_and]
    exact Nat.and_two_pow_sub_one_eq_mod _ 16
  rw [← mask_toNat, hmask, hiWord, BitVec.toNat_setWidth]

/-- The sum of `inet_pseudo_checksum` before it is folded. -/
theorem pseudoSum_toNat (src dst : BitVec 32) (proto : BitVec 8) (len : BitVec 16) :
    ((0 : BitVec 32) + ((src >>> 16) &&& 0xFFFF#32) + (src &&& 0xFFFF#32) +
      ((dst >>> 16) &&& 0xFFFF#32) + (dst &&& 0xFFFF#32) +
      (htons (proto.setWidth 16)).setWidth 32 + (htons len).setWidth 32).toNat =
    pseudoSum src dst proto len := by
  have h0 : (0 : BitVec 32).toNat = 0 := rfl
  have h1 := (hiWord src).isLt
  have h2 := (loWord src).isLt
  have h3 := (hiWord dst).isLt
  have h4 := (loWord dst).isLt
  have h5 := (htons (proto.setWidth 16)).isLt
  have h6 := (htons len).isLt
  simp only [BitVec.toNat_add, mask_toNat, loWord_shift, BitVec.toNat_setWidth, h0]
  unfold pseudoSum
  omega

/-- The folded sum of the pseudo header. -/
theorem inetPseudoChecksum_spec (src dst : BitVec 32) (proto : BitVec 8) (len : BitVec 16) :
    (inetPseudoChecksum src dst proto len).toNat ≡ pseudoSum src dst proto len [MOD 2 ^ 16 - 1] ∧
      (0 < (inetPseudoChecksum src dst proto len).toNat ↔ 0 < pseudoSum src dst proto len) := by
  have hsum := pseudoSum_toNat src dst proto len
  unfold inetPseudoChecksum
  simp only
  generalize (0 : BitVec 32) + ((src >>> 16) &&& 0xFFFF#32) + (src &&& 0xFFFF#32) +
    ((dst >>> 16) &&& 0xFFFF#32) + (dst &&& 0xFFFF#32) +
    (htons (proto.setWidth 16)).setWidth 32 + (htons len).setWidth 32 = sum at hsum ⊢
  rw [BitVec.toNat_setWidth, Nat.mod_eq_of_lt (foldCarries_lt sum), ← hsum]
  exact ⟨foldCarries_modEq sum, foldCarries_pos sum⟩

/-- The sum that `tcp_checksum` folds, up to multiples of `0xFFFF`. -/
def tcpSum (src dst : BitVec 32) (segment : List (BitVec 8)) : ℕ :=
  pseudoSum src dst ipProtoTcp (BitVec.ofNat 16 segment.length) + beSum segment

/-- **`tcp_checksum` accepts** the segments whose sum is a multiple of `0xFFFF`. -/
theorem tcpChecksum_eq_zero_iff (b : ℕ → BitVec 8) (ip tcp : ℕ) (tcpLen : BitVec 16) :
    tcpChecksum b ip tcp tcpLen = 0 ↔
      2 ^ 16 - 1 ∣ tcpSum (be32 b (ip + 12)) (be32 b (ip + 16)) (bytesFrom b tcp tcpLen.toNat) := by
  have hlen : (bytesFrom b tcp tcpLen.toNat).length = tcpLen.toNat := by simp [bytesFrom]
  have hle := beSum_le (bytesFrom b tcp tcpLen.toNat)
  have htcp := tcpLen.isLt
  generalize hsrc : be32 b (ip + 12) = src
  generalize hdst : be32 b (ip + 16) = dst
  obtain ⟨hmod, hpos⟩ := inetPseudoChecksum_spec src dst ipProtoTcp tcpLen
  have hp := (inetPseudoChecksum src dst ipProtoTcp tcpLen).isLt
  have hwide : ((inetPseudoChecksum src dst ipProtoTcp tcpLen).setWidth 32).toNat =
      (inetPseudoChecksum src dst ipProtoTcp tcpLen).toNat := by
    rw [BitVec.toNat_setWidth]
    omega
  have hhalf : (tcpLen.toNat + 1) / 2 * (2 ^ 16 - 1) ≤ 2 ^ 15 * (2 ^ 16 - 1) :=
    Nat.mul_le_mul_right _ (by omega)
  rw [hlen] at hle
  -- the word of the protocol keeps the sum positive
  have hproto : 0 < pseudoSum src dst ipProtoTcp tcpLen := by
    have h6 : (htons (ipProtoTcp.setWidth 16)).toNat = 0x600 := by decide
    unfold pseudoSum
    omega
  have hbound : ((inetPseudoChecksum src dst ipProtoTcp tcpLen).setWidth 32).toNat +
      beSum (bytesFrom b tcp tcpLen.toNat) < 2 ^ 32 := by
    rw [hwide]
    omega
  have hsum := sumBe16_toNat b tcp _ tcpLen.toNat hbound
  have hlen16 : BitVec.ofNat 16 tcpLen.toNat = tcpLen := by simp
  have hiff := (hmod.add_right (beSum (bytesFrom b tcp tcpLen.toNat))).dvd_iff
    (dvd_refl (2 ^ 16 - 1))
  unfold tcpChecksum
  rw [hsrc, hdst]
  simp only
  rw [not_foldCarries_eq_zero, hsum, hwide, tcpSum, hlen, hlen16, hiff]
  exact ⟨fun h => h.2, fun h => ⟨Nat.add_pos_left (hpos.2 hproto) _, h⟩⟩

/-! ## Values that are stored -/

theorem hiWord_append_loWord (val : BitVec 32) : hiWord val ++ loWord val = val := by
  apply BitVec.eq_of_toNat_eq
  have hlt := val.isLt
  have hhi : (hiWord val).toNat = val.toNat / 2 ^ 16 := by
    rw [hiWord, BitVec.toNat_setWidth, BitVec.toNat_ushiftRight, Nat.shiftRight_eq_div_pow]
    omega
  have hlo : (loWord val).toNat = val.toNat % 2 ^ 16 := by
    rw [← mask_toNat, BitVec.toNat_and]
    exact Nat.and_two_pow_sub_one_eq_mod _ 16
  rw [BitVec.toNat_append, ← Nat.shiftLeft_add_eq_or_of_lt (loWord val).isLt, Nat.shiftLeft_eq,
    hhi, hlo]
  omega

/-- A value that is stored in network byte order is read back. -/
theorem be16_of_bytes {b : ℕ → BitVec 8} {i : ℕ} {val : BitVec 16}
    (h : bytesFrom b i 2 = be16Bytes val) : be16 b i = val := by
  have hval : [b i, b (i + 1)] = [hiByte val, loByte val] := h
  simp only [List.cons.injEq, and_true] at hval
  rw [be16, hval.1, hval.2, hiByte_append_loByte]

theorem be32_of_bytes {b : ℕ → BitVec 8} {i : ℕ} {val : BitVec 32}
    (h : bytesFrom b i 4 = be32Bytes val) : be32 b i = val := by
  have hval : [b i, b (i + 1), b (i + 2), b (i + 3)] =
      [hiByte (hiWord val), loByte (hiWord val), hiByte (loWord val), loByte (loWord val)] := h
  simp only [List.cons.injEq, and_true] at hval
  obtain ⟨h0, h1, h2, h3⟩ := hval
  have h3' : i + 2 + 1 = i + 3 := rfl
  rw [be32, be16, be16, h3', h0, h1, h2, h3, hiByte_append_loByte, hiByte_append_loByte,
    hiWord_append_loWord]

theorem bytesFrom_congr {b b' : ℕ → BitVec 8} {i j n : ℕ} (h : ∀ k < n, b' (j + k) = b (i + k)) :
    bytesFrom b' j n = bytesFrom b i n :=
  List.map_congr_left fun k hk => h k (List.mem_range.1 hk)

end Gracemont
