/-
  Gracemont networking — the Internet checksum.

  `inet_checksum` adds the words of a packet as a little-endian processor reads
  them and stores the complement as such a processor does.  Reading the words
  in network byte order multiplies the sum by 256 modulo `0xFFFF`, which swaps
  the bytes of the folded sum, so that the stored bytes are those of the
  checksum in network byte order.

  * `leSum`: the sum without a bound; `sumLe16_toNat`: no carry is lost;
  * `beWords`, `rfcChecksum`: the checksum of RFC 1071;
  * `inetChecksum_toNat`: the folded sum, with its bytes swapped;
  * `inet_checksum_stored`: what the stored checksum does.
-/
import Gracemont.Net.NetInput

namespace Gracemont

/-! ## The loop -/

/-- The sum of little-endian words, the last byte of an odd number being the low
    byte of a word. -/
def leSum : List (BitVec 8) → ℕ
  | [] => 0
  | [v] => v.toNat
  | v :: w :: l => (w ++ v).toNat + leSum l

theorem append_toNat (v w : BitVec 8) : (v ++ w).toNat = v.toNat * 2 ^ 8 + w.toNat := by
  rw [BitVec.toNat_append, ← Nat.shiftLeft_add_eq_or_of_lt w.isLt, Nat.shiftLeft_eq]

theorem leSum_le (l : List (BitVec 8)) : leSum l ≤ (l.length + 1) / 2 * (2 ^ 16 - 1) := by
  induction l using leSum.induct with
  | case1 => simp [leSum]
  | case2 v =>
    have hv := v.isLt
    simp only [leSum, List.length_singleton]
    omega
  | case3 v w l ih =>
    have hwv := (w ++ v).isLt
    simp only [leSum, List.length_cons]
    have hlen : (l.length + 1 + 1 + 1) / 2 = (l.length + 1) / 2 + 1 := by omega
    rw [hlen, Nat.add_mul]
    omega

/-- **The accumulator** is the sum of the words, as long as that fits into 32 bits. -/
theorem sumLe16_toNat (b : ℕ → BitVec 8) (i : ℕ) (sum : BitVec 32) (len : ℕ)
    (h : sum.toNat + leSum (bytesFrom b i len) < 2 ^ 32) :
    (sumLe16 b i sum len).toNat = sum.toNat + leSum (bytesFrom b i len) := by
  induction i, sum, len using sumLe16.induct b with
  | case1 i sum => rfl
  | case2 i sum =>
    rw [bytesFrom_succ] at h ⊢
    simp only [bytesFrom, List.range_zero, List.map_nil, leSum] at h ⊢
    rw [sumLe16, BitVec.toNat_add, BitVec.toNat_setWidth]
    have hi := (b i).isLt
    omega
  | case3 i sum len ih =>
    have hi2 : i + 1 + 1 = i + 2 := rfl
    rw [bytesFrom_succ, bytesFrom_succ, hi2] at h ⊢
    simp only [leSum] at h ⊢
    have hw : ((le16 b i).setWidth 32).toNat = (b (i + 1) ++ b i).toNat := by
      have hlt := (b (i + 1) ++ b i).isLt
      rw [le16, BitVec.toNat_setWidth]
      omega
    have hsum : (sum + (le16 b i).setWidth 32).toNat = sum.toNat + (b (i + 1) ++ b i).toNat := by
      rw [BitVec.toNat_add, hw]
      omega
    rw [sumLe16, ih (by rw [hsum]; omega), hsum]
    omega

/-- The sum of up to 65535 bytes fits into 32 bits. -/
theorem leSum_lt (b : ℕ → BitVec 8) (i : ℕ) {len : ℕ} (h : len ≤ 65535) :
    leSum (bytesFrom b i len) < 2 ^ 32 := by
  have hle := leSum_le (bytesFrom b i len)
  have hlen : (bytesFrom b i len).length = len := by simp [bytesFrom]
  have hhalf : (len + 1) / 2 * (2 ^ 16 - 1) ≤ 2 ^ 15 * (2 ^ 16 - 1) :=
    Nat.mul_le_mul_right _ (by omega)
  rw [hlen] at hle
  omega

/-- **No overflow**: the accumulator of `inet_checksum` is the sum of the words. -/
theorem inetChecksum_sum (b : ℕ → BitVec 8) (i : ℕ) {len : ℕ} (h : len ≤ 65535) :
    (sumLe16 b i 0 len).toNat = leSum (bytesFrom b i len) := by
  have h0 : (0 : BitVec 32).toNat = 0 := rfl
  rw [sumLe16_toNat b i 0 len (by rw [h0, Nat.zero_add]; exact leSum_lt b i h), h0, Nat.zero_add]

/-- The packets that `inet_checksum` accepts. -/
theorem inetChecksum_eq_zero_iff (b : ℕ → BitVec 8) (i : ℕ) {len : ℕ} (h : len ≤ 65535) :
    inetChecksum b i len = 0 ↔
      0 < leSum (bytesFrom b i len) ∧ 2 ^ 16 - 1 ∣ leSum (bytesFrom b i len) := by
  rw [inetChecksum, not_foldCarries_eq_zero, inetChecksum_sum b i h]

/-! ## Network byte order -/

/-- The words of a packet in network byte order, an odd number of bytes being padded
    with zero. -/
def beWords : List (BitVec 8) → List ℕ
  | [] => []
  | [v] => [v.toNat * 2 ^ 8]
  | v :: w :: l => (v ++ w).toNat :: beWords l

/-- The checksum of RFC 1071: the complement of the one's complement sum. -/
def rfcChecksum (l : List (BitVec 8)) : BitVec 16 :=
  ~~~ BitVec.ofNat 16 (Lib.onesSum 16 (beWords l))

theorem beWords_sum (l : List (BitVec 8)) : (beWords l).sum = beSum l := by
  induction l using beWords.induct with
  | case1 => rfl
  | case2 v => simp [beWords, beSum]
  | case3 v w l ih => rw [beWords, List.sum_cons, ih, beSum]

theorem beWords_lt (l : List (BitVec 8)) : ∀ v ∈ beWords l, v < 2 ^ 16 := by
  induction l using beWords.induct with
  | case1 => exact List.forall_mem_nil _
  | case2 v =>
    have hv := v.isLt
    rw [beWords, List.forall_mem_singleton]
    omega
  | case3 v w l ih =>
    rw [beWords, List.forall_mem_cons]
    exact ⟨(v ++ w).isLt, ih⟩

/-- **The two byte orders**: the sums differ by the factor 256. -/
theorem leSum_modEq (l : List (BitVec 8)) : leSum l ≡ 2 ^ 8 * beSum l [MOD 2 ^ 16 - 1] := by
  have hcarry : ∀ n : ℕ, n ≡ 2 ^ 16 * n [MOD 2 ^ 16 - 1] := by
    intro n
    have hn : 2 ^ 16 * n = n + (2 ^ 16 - 1) * n := by omega
    rw [hn]
    exact Nat.ModEq.symm (by simp [Nat.ModEq])
  induction l using leSum.induct with
  | case1 => rfl
  | case2 v =>
    rw [leSum, beSum]
    calc v.toNat ≡ 2 ^ 16 * v.toNat [MOD 2 ^ 16 - 1] := hcarry v.toNat
      _ = 2 ^ 8 * (v.toNat * 2 ^ 8) := by omega
  | case3 v w l ih =>
    rw [leSum, beSum, append_toNat, append_toNat, Nat.mul_add]
    refine Nat.ModEq.add ?_ ih
    calc w.toNat * 2 ^ 8 + v.toNat
        ≡ w.toNat * 2 ^ 8 + 2 ^ 16 * v.toNat [MOD 2 ^ 16 - 1] := (hcarry v.toNat).add_left _
      _ = 2 ^ 8 * (v.toNat * 2 ^ 8 + w.toNat) := by omega

theorem leSum_pos (l : List (BitVec 8)) : 0 < leSum l ↔ 0 < beSum l := by
  induction l using leSum.induct with
  | case1 => rfl
  | case2 v =>
    rw [leSum, beSum]
    omega
  | case3 v w l ih =>
    rw [leSum, beSum, append_toNat, append_toNat]
    omega

/-- **The folded sum** is the one's complement sum in network byte order, with its
    bytes swapped. -/
theorem foldCarries_sumLe16 (b : ℕ → BitVec 8) (i : ℕ) {len : ℕ} (h : len ≤ 65535) :
    (foldCarries (sumLe16 b i 0 len)).toNat =
      Lib.onesSum 16 (beWords (bytesFrom b i len)) % 2 ^ 8 * 2 ^ 8 +
        Lib.onesSum 16 (beWords (bytesFrom b i len)) / 2 ^ 8 := by
  obtain ⟨hlt, hmod, hpos⟩ := Lib.onesSum_spec (beWords_lt (bytesFrom b i len))
  rw [beWords_sum] at hmod hpos
  generalize Lib.onesSum 16 (beWords (bytesFrom b i len)) = r at hlt hmod hpos ⊢
  have hswap : 2 ^ 8 * r ≡ r % 2 ^ 8 * 2 ^ 8 + r / 2 ^ 8 [MOD 2 ^ 16 - 1] := by
    have hr : 2 ^ 8 * r = r % 2 ^ 8 * 2 ^ 8 + r / 2 ^ 8 + (2 ^ 16 - 1) * (r / 2 ^ 8) := by omega
    rw [hr]
    simp [Nat.ModEq]
  refine Lib.folded_unique (w := 16) (foldCarries_lt _) (by omega) ?_ ?_
  · have hfold := foldCarries_modEq (sumLe16 b i 0 len)
    rw [inetChecksum_sum b i h] at hfold
    exact (hfold.trans (leSum_modEq _)).trans ((hmod.symm.mul_left _).trans hswap)
  · rw [foldCarries_pos, inetChecksum_sum b i h, leSum_pos, ← hpos]
    omega

/-- The bytes of a complement. -/
theorem complement_bytes {x y : ℕ} (hx : x < 2 ^ 8) (hy : y < 2 ^ 8) :
    (65535 - (x * 2 ^ 8 + y)) / 2 ^ 8 = 255 - x ∧ (65535 - (x * 2 ^ 8 + y)) % 2 ^ 8 = 255 - y := by
  omega

/-- **The checksum** as it is stored is that of RFC 1071 in network byte order. -/
theorem inetChecksum_bytes (b : ℕ → BitVec 8) (i : ℕ) {len : ℕ} (h : len ≤ 65535) :
    [loByte (inetChecksum b i len), hiByte (inetChecksum b i len)] =
      be16Bytes (rfcChecksum (bytesFrom b i len)) := by
  have hfold := foldCarries_sumLe16 b i h
  have hlt := foldCarries_lt (sumLe16 b i 0 len)
  obtain ⟨hr, -, -⟩ := Lib.onesSum_spec (beWords_lt (bytesFrom b i len))
  have hle : (inetChecksum b i len).toNat =
      65535 - (foldCarries (sumLe16 b i 0 len)).toNat := by
    rw [inetChecksum, BitVec.toNat_not, BitVec.toNat_setWidth, Nat.mod_eq_of_lt hlt]
  have hbe : (rfcChecksum (bytesFrom b i len)).toNat =
      65535 - Lib.onesSum 16 (beWords (bytesFrom b i len)) := by
    rw [rfcChecksum, BitVec.toNat_not, BitVec.toNat_ofNat, Nat.mod_eq_of_lt hr]
  generalize Lib.onesSum 16 (beWords (bytesFrom b i len)) = r at hfold hr hbe
  have hdiv : r / 2 ^ 8 < 2 ^ 8 := by omega
  have hmod : r % 2 ^ 8 < 2 ^ 8 := Nat.mod_lt _ (by decide)
  obtain ⟨hhi₁, hlo₁⟩ := complement_bytes hdiv hmod
  obtain ⟨hhi₂, hlo₂⟩ := complement_bytes hmod hdiv
  rw [Nat.div_add_mod' r (2 ^ 8), ← hbe] at hhi₁ hlo₁
  rw [← hfold, ← hle] at hhi₂ hlo₂
  have hlo : loByte (inetChecksum b i len) = hiByte (rfcChecksum (bytesFrom b i len)) := by
    apply BitVec.eq_of_toNat_eq
    rw [loByte_toNat, hiByte_toNat, hlo₂, hhi₁]
  have hhi : hiByte (inetChecksum b i len) = loByte (rfcChecksum (bytesFrom b i len)) := by
    apply BitVec.eq_of_toNat_eq
    rw [loByte_toNat, hiByte_toNat, hhi₂, hlo₁]
  rw [hlo, hhi, be16Bytes]

/-! ## Storing the checksum -/

/-- The 16-bit field at `field` is zeroed. -/
def zeroField (m : Lib.ByteMem) (field : ℕ) : Lib.ByteMem := (m.set field 0).set (field + 1) 0

/-- The checksum of the `len` bytes at `i` is stored into the field at `field`, as the
    processor stores it. -/
def storeChecksum (m : Lib.ByteMem) (i len field : ℕ) : Lib.ByteMem :=
  let checksum := inetChecksum m.byte i len
  (m.set field (loByte checksum)).set (field + 1) (hiByte checksum)

theorem leSum_append {l₁ : List (BitVec 8)} (l₂ : List (BitVec 8)) (h : l₁.length % 2 = 0) :
    leSum (l₁ ++ l₂) = leSum l₁ + leSum l₂ := by
  induction l₁ using leSum.induct with
  | case1 => simp [leSum]
  | case2 v => cases h
  | case3 v w l ih =>
    simp only [List.length_cons] at h
    rw [List.cons_append, List.cons_append, leSum, leSum, ih (by omega), Nat.add_assoc]

/-- A word in the middle of a packet. -/
theorem leSum_split (b : ℕ → BitVec 8) (i k n : ℕ) :
    leSum (bytesFrom b i (2 * k + (2 + n))) = leSum (bytesFrom b i (2 * k)) +
      ((b (i + 2 * k + 1) ++ b (i + 2 * k)).toNat + leSum (bytesFrom b (i + 2 * k + 2) n)) := by
  have hlen : (bytesFrom b i (2 * k)).length % 2 = 0 := by simp [bytesFrom]
  rw [bytesFrom_append, leSum_append _ hlen, bytesFrom_append b (i + 2 * k) 2 n]
  rfl

section
variable {m : Lib.ByteMem} {i len k : ℕ}

/-- The field adds the checksum to the sum. -/
theorem leSum_storeChecksum (hk : 2 * k + 2 ≤ len) (h0 : m.byte (i + 2 * k) = 0)
    (h1 : m.byte (i + 2 * k + 1) = 0) :
    leSum (bytesFrom (storeChecksum m i len (i + 2 * k)).byte i len) =
      leSum (bytesFrom m.byte i len) + (inetChecksum m.byte i len).toNat := by
  obtain ⟨n, rfl⟩ := Nat.exists_eq_add_of_le hk
  have hword : ∀ c : BitVec 16, (hiByte c ++ loByte c).toNat = c.toNat := by
    intro c
    rw [append_toNat, hiByte_toNat, loByte_toNat, Nat.div_add_mod']
  have hzero : ((0 : BitVec 8) ++ (0 : BitVec 8)).toNat = 0 := rfl
  rw [Nat.add_assoc]
  unfold storeChecksum
  simp only
  generalize inetChecksum m.byte i (2 * k + (2 + n)) = c
  have hother : ∀ j, j ≠ i + 2 * k → j ≠ i + 2 * k + 1 →
      ((m.set (i + 2 * k) (loByte c)).set (i + 2 * k + 1) (hiByte c)).byte j = m.byte j := by
    intro j hj hj1
    rw [Lib.ByteMem.set_byte_of_ne _ _ hj1, Lib.ByteMem.set_byte_of_ne _ _ hj]
  have hlo : ((m.set (i + 2 * k) (loByte c)).set (i + 2 * k + 1) (hiByte c)).byte (i + 2 * k) =
      loByte c := by
    rw [Lib.ByteMem.set_byte_of_ne _ _ (by omega), Lib.ByteMem.set_byte_self]
  rw [leSum_split, leSum_split, h0, h1, hzero, Lib.ByteMem.set_byte_self, hlo, hword,
    bytesFrom_congr fun j hj => hother (i + j) (by omega) (by omega),
    bytesFrom_congr fun j _ => hother (i + 2 * k + 2 + j) (by omega) (by omega)]
  omega

/-- **A stored checksum** is accepted. -/
theorem inetChecksum_storeChecksum (hlen : len ≤ 65535) (hk : 2 * k + 2 ≤ len)
    (h0 : m.byte (i + 2 * k) = 0) (h1 : m.byte (i + 2 * k + 1) = 0) :
    inetChecksum (storeChecksum m i len (i + 2 * k)).byte i len = 0 := by
  have hlt := foldCarries_lt (sumLe16 m.byte i 0 len)
  have hmod := foldCarries_modEq (sumLe16 m.byte i 0 len)
  have hpos := foldCarries_pos (sumLe16 m.byte i 0 len)
  have hc : (inetChecksum m.byte i len).toNat =
      65535 - (foldCarries (sumLe16 m.byte i 0 len)).toNat := by
    rw [inetChecksum, BitVec.toNat_not, BitVec.toNat_setWidth, Nat.mod_eq_of_lt hlt]
  rw [inetChecksum_sum m.byte i hlen] at hmod hpos
  rw [inetChecksum_eq_zero_iff _ i hlen, leSum_storeChecksum hk h0 h1, hc]
  generalize (foldCarries (sumLe16 m.byte i 0 len)).toNat = r at hlt hmod hpos ⊢
  refine ⟨by omega, ?_⟩
  have hsum : r + (65535 - r) = 2 ^ 16 - 1 := by omega
  refine (Nat.modEq_zero_iff_dvd).1 ((hmod.symm.add_right _).trans ?_)
  rw [hsum]
  simp [Nat.ModEq]

end

/-- The header that `ip_output` makes is accepted by `ip_input`. -/
theorem inetChecksum_putIpHdr (m : Lib.ByteMem) (ip : ℕ) (len id : BitVec 16) (proto : BitVec 8)
    (src dst : BitVec 32) :
    inetChecksum (putIpHdr m ip len id proto src dst).byte ip ipHdrLen = 0 := by
  unfold putIpHdr
  simp only
  generalize hhdr : [0x45, 0] ++ be16Bytes len ++ be16Bytes id ++ [0, 0] ++ [64, proto] ++ [0, 0] ++
    be32Bytes src ++ be32Bytes dst = hdr
  have hlen : hdr.length = 20 := by
    rw [← hhdr]
    rfl
  have hbyte : ∀ j (hj : j < hdr.length), (m.putBytes ip hdr).byte (ip + j) = hdr[j] := by
    intro j hj
    exact Lib.ByteMem.putBytes_byte _ _ _ hj
  refine inetChecksum_storeChecksum (k := 5) (by decide) (by decide) ?_ ?_
  · rw [hbyte 10 (by omega)]
    simp only [← hhdr]
    rfl
  · rw [Nat.add_assoc, hbyte 11 (by omega)]
    simp only [← hhdr]
    rfl

/-- So is the reply that `icmp_input` makes, by the checksum of ICMP. -/
theorem inetChecksum_putIcmpReply (m : Lib.ByteMem) (icmp : ℕ) {len : ℕ} (hlen : len ≤ 65535)
    (hhdr : icmpHdrLen ≤ len) : inetChecksum (putIcmpReply m icmp len).byte icmp len = 0 := by
  have hk : 2 * 1 + 2 ≤ len := by
    unfold icmpHdrLen at hhdr
    omega
  refine inetChecksum_storeChecksum (k := 1) hlen hk ?_ ?_
  · rw [Lib.ByteMem.set_byte_of_ne _ _ (by omega), Lib.ByteMem.set_byte_self]
  · rw [Lib.ByteMem.set_byte_self]

/-- **The Internet checksum.**  With the checksum of a packet in one of its words, the
    checksum of the packet is zero; and the bytes of that word are those of the
    checksum of RFC 1071 in network byte order.  No addition overflows. -/
theorem inet_checksum_stored (m : Lib.ByteMem) (i : ℕ) {len k : ℕ} (hlen : len ≤ 65535)
    (hk : 2 * k + 2 ≤ len) :
    let zeroed := zeroField m (i + 2 * k)
    let stored := storeChecksum zeroed i len (i + 2 * k)
    inetChecksum stored.byte i len = 0 ∧
      bytesFrom stored.byte (i + 2 * k) 2 =
        be16Bytes (rfcChecksum (bytesFrom zeroed.byte i len)) ∧
      ∀ b : ℕ → BitVec 8,
        (sumLe16 b i 0 len).toNat = leSum (bytesFrom b i len) ∧
        (foldCarries (sumLe16 b i 0 len)).toNat =
          Lib.endAround 16 (Lib.endAround 16 (leSum (bytesFrom b i len))) := by
  intro zeroed stored
  have h0 : zeroed.byte (i + 2 * k) = 0 :=
    (Lib.ByteMem.set_byte_of_ne _ _ (by omega)).trans (Lib.ByteMem.set_byte_self ..)
  have h1 : zeroed.byte (i + 2 * k + 1) = 0 := Lib.ByteMem.set_byte_self ..
  refine ⟨inetChecksum_storeChecksum hlen hk h0 h1, ?_, fun b => ⟨inetChecksum_sum b i hlen, ?_⟩⟩
  · rw [← inetChecksum_bytes zeroed.byte i hlen]
    have hlo : stored.byte (i + 2 * k) = loByte (inetChecksum zeroed.byte i len) :=
      (Lib.ByteMem.set_byte_of_ne _ _ (by omega)).trans (Lib.ByteMem.set_byte_self ..)
    have hhi : stored.byte (i + 2 * k + 1) = hiByte (inetChecksum zeroed.byte i len) :=
      Lib.ByteMem.set_byte_self ..
    rw [← hlo, ← hhi]
    rfl
  · rw [foldCarries, carryPass_toNat, carryPass_toNat, inetChecksum_sum b i hlen]

/-- Five bytes with the checksum in the second word. -/
theorem demo_checksum_stored :
    let zeroed := zeroField ((Lib.ByteMem.mk (fun _ => 0) []).putBytes 0 [0x12, 0x34, 9, 9, 0x56]) 2
    bytesFrom (storeChecksum zeroed 0 5 2).byte 0 5 = [0x12, 0x34, 0x97, 0xCB, 0x56] ∧
      inetChecksum (storeChecksum zeroed 0 5 2).byte 0 5 = 0 :=
  ⟨by decide, (inet_checksum_stored _ 0 (k := 1) (by decide) (by decide)).1⟩

end Gracemont
