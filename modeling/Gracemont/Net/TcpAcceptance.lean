/-
  Gracemont networking — which segments `tcp_input` takes for intact.

  `inet_pseudo_checksum` swaps the bytes of the protocol and of the length, as
  if its other words had been read by a little-endian processor, while they and
  those of the segment are added in network byte order.  Swapping multiplies by
  256, so the code's sum is off by `255 * (len + 6)`, which is a multiple of
  `0xFFFF` for one length in 257.

  * `tcpInput_eq`: `tcp_input` in front of its checksum and behind it;
  * `Zbuf.RfcValid`: the one's complement sum of RFC 793 is `0xFFFF`;
  * `tcpSum_modEq`: the two sums;
  * `tcp_acceptance_iff`: when the code's check is that of RFC 793.
-/
import Gracemont.Net.InetChecksum

namespace Gracemont

variable {α σ : Type}

/-! ## The check -/

instance (z : Zbuf α) : Decidable z.Intact := inferInstanceAs (Decidable (_ ∧ _))

section
variable [DecidableEq α] [DecidableEq σ] (cfg : NetConfig α)

/-- `tcp_input` behind the verification of the checksum. -/
def tcpVerified (fuel : ℕ) (s : NetStack α σ) (zb : α) : Option (NetStack α σ) := do
  let z := s.pool.zb zb
  let seg := z.segment
  match ← tcpFindSocket s seg fuel with
  | none =>
    let s := if hasFlag seg.flags tcpFlagRst then s else tcpSendRst cfg s seg z.len
    some (s.free cfg zb)
  | some sock =>
    match tcpReceive cfg s sock seg zb with
    | (s, some zb) => some (s.free cfg zb)
    | (s, none) => some s

/-- **`tcp_input`** goes past the verification exactly with intact segments. -/
theorem tcpInput_eq (fuel : ℕ) (s : NetStack α σ) (zb : α) : tcpInput cfg fuel s zb =
    if (s.pool.zb zb).Intact then tcpVerified cfg fuel s zb else some (s.free cfg zb) := by
  unfold tcpInput
  simp only
  by_cases hlen : (s.pool.zb zb).len.toNat < tcpHdrLen
  · rw [if_pos hlen, if_neg fun h : (s.pool.zb zb).Intact => Nat.not_le.2 hlen h.1]
  rw [if_neg hlen]
  by_cases hsum : tcpChecksum (s.pool.zb zb).space.byte ((s.pool.zb zb).data - ipHdrLen)
      (s.pool.zb zb).data (s.pool.zb zb).len ≠ 0
  · rw [if_pos hsum, if_neg fun h : (s.pool.zb zb).Intact => hsum h.2]
  · have hintact : (s.pool.zb zb).Intact := ⟨Nat.le_of_not_lt hlen, not_not.1 hsum⟩
    rw [if_neg hsum, if_pos hintact]
    rfl

end

/-! ## The sum of RFC 793 -/

/-- The pseudo header of RFC 793. -/
def pseudoHeader (src dst : BitVec 32) (len : BitVec 16) : List (BitVec 8) :=
  be32Bytes src ++ be32Bytes dst ++ [0, ipProtoTcp] ++ be16Bytes len

namespace Zbuf
variable (z : Zbuf α)

/-- The pseudo header and the segment in a buffer, with the IP header in front. -/
def rfcBytes : List (BitVec 8) :=
  pseudoHeader z.segment.srcIp z.segment.dstIp z.len ++ bytesFrom z.space.byte z.data z.len.toNat

/-- **A valid segment**: the one's complement sum is `0xFFFF`.  The addresses of the
    pseudo header are those that `tcp_input` reads at `data - 20`, where the IP header
    is if it has no options. -/
def RfcValid : Prop := Lib.onesSum 16 (beWords z.rfcBytes) = 0xFFFF

/-- **The code's check is that of RFC 793** for this segment: both agree whatever is
    in a segment of its length, or neither accepts it. -/
def SumsAgree : Prop :=
  if z.len.toNat < tcpHdrLen then ¬ 65535 ∣ beSum z.rfcBytes
  else 257 ∣ z.len.toNat + 6 ∨
    ¬ 65535 ∣ beSum z.rfcBytes ∧ ¬ 65535 ∣ beSum z.rfcBytes + 255 * (z.len.toNat + 6)

end Zbuf

theorem htons_toNat (h : BitVec 16) :
    (htons h).toNat = h.toNat % 2 ^ 8 * 2 ^ 8 + h.toNat / 2 ^ 8 := by
  have hlt := h.isLt
  have hmask : ∀ n : ℕ, n &&& (0xFF : BitVec 16).toNat = n % 2 ^ 8 := fun n =>
    Nat.and_two_pow_sub_one_eq_mod n 8
  have hlo : ((h &&& 0xFF) <<< 8).toNat = (h.toNat % 2 ^ 8) <<< 8 := by
    rw [BitVec.toNat_shiftLeft, BitVec.toNat_and, hmask, Nat.shiftLeft_eq]
    omega
  have hhi : ((h >>> 8) &&& 0xFF).toNat = h.toNat / 2 ^ 8 := by
    rw [BitVec.toNat_and, hmask, BitVec.toNat_ushiftRight, Nat.shiftRight_eq_div_pow]
    omega
  rw [htons, BitVec.toNat_or, hlo, hhi, ← Nat.shiftLeft_add_eq_or_of_lt (by omega),
    Nat.shiftLeft_eq]

/-- A swap of the bytes multiplies by 256. -/
theorem htons_modEq (h : BitVec 16) : (htons h).toNat ≡ 256 * h.toNat [MOD 65535] := by
  have hlt := h.isLt
  have hsum : 256 * h.toNat =
      h.toNat % 2 ^ 8 * 2 ^ 8 + h.toNat / 2 ^ 8 + 65535 * (h.toNat / 2 ^ 8) := by
    omega
  rw [htons_toNat, hsum]
  simp [Nat.ModEq]

namespace Zbuf
variable (z : Zbuf α)

/-- The sum of RFC 793, word by word. -/
theorem beSum_rfcBytes : beSum z.rfcBytes =
    (hiWord z.segment.srcIp).toNat + (loWord z.segment.srcIp).toNat +
      (hiWord z.segment.dstIp).toNat + (loWord z.segment.dstIp).toNat + 6 + z.len.toNat +
      beSum (bytesFrom z.space.byte z.data z.len.toNat) := by
  have h6 : ((0 : BitVec 8) ++ ipProtoTcp).toNat = 6 := rfl
  simp only [rfcBytes, pseudoHeader, be32Bytes, be16Bytes, List.cons_append, List.nil_append,
    beSum, hiByte_append_loByte, h6]
  omega

theorem rfcValid_iff : z.RfcValid ↔ 65535 ∣ beSum z.rfcBytes := by
  obtain ⟨hlt, hmod, hpos⟩ := Lib.onesSum_spec (beWords_lt z.rfcBytes)
  rw [beWords_sum] at hmod hpos
  have hall := Lib.allOnes_iff (by decide) hlt hmod hpos
  -- the word of the protocol keeps the sum positive
  have hproto : 0 < beSum z.rfcBytes := by
    rw [z.beSum_rfcBytes]
    omega
  exact hall.trans ⟨fun h => h.2, fun h => ⟨hproto, h⟩⟩

/-- **The code's sum** is that of RFC 793 with `255 * (len + 6)` added. -/
theorem tcpSum_modEq : tcpSum z.segment.srcIp z.segment.dstIp
      (bytesFrom z.space.byte z.data z.len.toNat) ≡
    beSum z.rfcBytes + 255 * (z.len.toNat + 6) [MOD 65535] := by
  have hlen : (bytesFrom z.space.byte z.data z.len.toNat).length = z.len.toNat := by
    simp [bytesFrom]
  have hlen16 : BitVec.ofNat 16 z.len.toNat = z.len := by simp
  have hproto : (htons (ipProtoTcp.setWidth 16)).toNat = 256 * 6 := by decide
  rw [tcpSum, pseudoSum, hlen, hlen16, hproto, z.beSum_rfcBytes]
  generalize (hiWord z.segment.srcIp).toNat + (loWord z.segment.srcIp).toNat +
    (hiWord z.segment.dstIp).toNat + (loWord z.segment.dstIp).toNat = addresses
  generalize beSum (bytesFrom z.space.byte z.data z.len.toNat) = sum
  calc addresses + 256 * 6 + (htons z.len).toNat + sum
      ≡ addresses + 256 * 6 + 256 * z.len.toNat + sum [MOD 65535] :=
        ((htons_modEq z.len).add_left _).add_right _
    _ = addresses + 6 + z.len.toNat + sum + 255 * (z.len.toNat + 6) := by omega

theorem intact_iff : z.Intact ↔ tcpHdrLen ≤ z.len.toNat ∧
    65535 ∣ beSum z.rfcBytes + 255 * (z.len.toNat + 6) := by
  have hsum := tcpChecksum_eq_zero_iff z.space.byte (z.data - ipHdrLen) z.data z.len
  have hmod := z.tcpSum_modEq.dvd_iff (dvd_refl 65535)
  exact and_congr_right fun _ => hsum.trans hmod

end Zbuf

/-- **TCP checksum acceptance.**  `tcp_input` goes past the verification with the
    intact segments, and these are the valid ones exactly where the two sums agree. -/
theorem tcp_acceptance_iff [DecidableEq α] [DecidableEq σ] (cfg : NetConfig α) (fuel : ℕ)
    (s : NetStack α σ) (zb : α) :
    (tcpInput cfg fuel s zb = if (s.pool.zb zb).Intact then tcpVerified cfg fuel s zb
      else some (s.free cfg zb)) ∧
    (((s.pool.zb zb).Intact ↔ (s.pool.zb zb).RfcValid) ↔ (s.pool.zb zb).SumsAgree) := by
  refine ⟨tcpInput_eq cfg fuel s zb, ?_⟩
  generalize s.pool.zb zb = z
  rw [z.intact_iff, z.rfcValid_iff, Zbuf.SumsAgree]
  by_cases hlen : z.len.toNat < tcpHdrLen
  · rw [if_pos hlen]
    constructor
    · intro h hvalid
      exact Nat.not_le.2 hlen (h.2 hvalid).1
    · intro h
      exact iff_of_false (fun hi => Nat.not_le.2 hlen hi.1) h
  rw [if_neg hlen]
  have hlong : tcpHdrLen ≤ z.len.toNat := Nat.le_of_not_lt hlen
  -- both accept only if the difference of the sums is a multiple
  have hboth : 65535 ∣ beSum z.rfcBytes →
      (65535 ∣ beSum z.rfcBytes + 255 * (z.len.toNat + 6) ↔ 257 ∣ z.len.toNat + 6) := by
    intro hvalid
    rw [Nat.dvd_add_right hvalid, show 65535 = 255 * 257 from rfl,
      Nat.mul_dvd_mul_iff_left (by decide)]
  constructor
  · intro h
    by_cases hvalid : 65535 ∣ beSum z.rfcBytes
    · exact .inl ((hboth hvalid).1 (h.2 hvalid).2)
    · exact .inr ⟨hvalid, fun hi => hvalid (h.1 ⟨hlong, hi⟩)⟩
  · rintro (hlength | ⟨hvalid, hintact⟩)
    · have hmul : 65535 ∣ 255 * (z.len.toNat + 6) := by
        rw [show 65535 = 255 * 257 from rfl]
        exact Nat.mul_dvd_mul_left 255 hlength
      rw [Nat.dvd_add_left hmul]
      exact ⟨fun h => h.2, fun h => ⟨hlong, h⟩⟩
    · exact iff_of_false (fun h => hintact h.2) hvalid

/-- A SYN from port 1024 of 10.0.0.2 to port 80 of 10.0.0.1, with the IP header in
    front of it; its checksum is right. -/
def demoValidSyn : Zbuf (Fin 2) :=
  { demoFrame 100 ([0x45, 0, 0, 40] ++ [0, 0, 0, 0, 64, 6, 0, 0] ++ [10, 0, 0, 2, 10, 0, 0, 1] ++
      [4, 0, 0, 80, 0, 0, 0, 100, 0, 0, 0, 0, 0x50, 2, 0xFF, 0xFF, 0x97, 0x2C, 0, 0]) with
    data := 120, len := 20 }

theorem demoValidSyn_dropped : demoValidSyn.RfcValid ∧ ¬ demoValidSyn.Intact := by
  refine ⟨?_, ?_⟩
  · unfold Zbuf.RfcValid
    decide
  · decide

end Gracemont
