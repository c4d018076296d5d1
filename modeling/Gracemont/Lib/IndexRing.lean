/-
  Rings with free-running indices.

  A ring of `cap` slots with the indices of a producer and a consumer, which are
  counters of `w` bits that wrap; the slot of an index is its value modulo
  `cap`.  This is consistent when `cap` divides `2 ^ w`.
-/
import Gracemont.Lib.RingBuffer

namespace Lib

/-- Between the index `first` of the consumer and `next` of the producer the ring
    holds the elements `l`, the oldest first. -/
structure IndexRing {β : Type*} {w : ℕ} (cap : ℕ) (slot : ℕ → β) (first next : BitVec w)
    (l : List β) : Prop where
  dvd : cap ∣ 2 ^ w
  lt : cap < 2 ^ w
  next_eq : next = first + BitVec.ofNat w l.length
  length : l.length ≤ cap
  contents : RingBuffer.contents slot cap (first.toNat % cap) l.length = l

namespace IndexRing
variable {β : Type*} {w cap : ℕ} {slot : ℕ → β} {first next : BitVec w} {l : List β} {b : β}

/-- Moving an index moves its slot. -/
theorem slot_add (h : cap ∣ 2 ^ w) (i : BitVec w) (n : ℕ) :
    (i + BitVec.ofNat w n).toNat % cap = (i.toNat % cap + n) % cap := by
  rw [BitVec.toNat_add, BitVec.toNat_ofNat, Nat.add_mod_mod, Nat.mod_mod_of_dvd _ h,
    Nat.mod_add_mod]

theorem cap_pos (h : IndexRing cap slot first next l) : 0 < cap :=
  Nat.pos_of_dvd_of_pos h.dvd (Nat.two_pow_pos w)

/-- The ring is empty when both indices are equal. -/
theorem first_eq_next (h : IndexRing cap slot first next l) : first = next ↔ l = [] := by
  have hlen := h.length
  have hlt := h.lt
  constructor
  · intro he
    have hz : BitVec.ofNat w l.length = 0 := by
      have hnext := h.next_eq
      rw [← he] at hnext
      exact BitVec.self_eq_add_right.1 hnext
    have hn := congrArg BitVec.toNat hz
    rw [BitVec.toNat_ofNat, Nat.mod_eq_of_lt (by omega)] at hn
    exact List.eq_nil_of_length_eq_zero (by simpa using hn)
  · rintro rfl
    simpa using h.next_eq.symm

theorem empty (hdvd : cap ∣ 2 ^ w) (hlt : cap < 2 ^ w) (he : first = next) :
    IndexRing cap slot first next [] :=
  ⟨hdvd, hlt, by simp [he], Nat.zero_le _, rfl⟩

/-- **Producing**: the slot of `next` is written. -/
theorem push (h : IndexRing cap slot first next l) (hroom : l.length < cap) :
    IndexRing cap (Function.update slot (next.toNat % cap) b) first (next + 1) (l ++ [b]) := by
  have hslot : next.toNat % cap = (first.toNat % cap + l.length) % cap := by
    rw [h.next_eq, slot_add h.dvd]
  have hlen : (l ++ [b]).length = l.length + 1 := by simp
  have hone : BitVec.ofNat w (l.length + 1) = BitVec.ofNat w l.length + 1 := BitVec.ofNat_add ..
  refine ⟨h.dvd, h.lt, ?_, by omega, ?_⟩
  · rw [hlen, hone, h.next_eq, BitVec.add_assoc]
  · have hsame : ∀ i < cap, i ≠ (first.toNat % cap + l.length) % cap →
        Function.update slot (next.toNat % cap) b i = slot i := by
      intro i _ hi
      exact Function.update_of_ne (hslot ▸ hi) b slot
    have hnew : Function.update slot (next.toNat % cap) b
        ((first.toNat % cap + l.length) % cap) = b := by
      rw [hslot, Function.update_self]
    rw [hlen, RingBuffer.contents_push hroom hnew hsame, h.contents]

/-- **Consuming**: the slot of `first` holds the oldest element. -/
theorem pop (h : IndexRing cap slot first next (b :: l)) :
    slot (first.toNat % cap) = b ∧ IndexRing cap slot (first + 1) next l := by
  have hpos : 0 < l.length + 1 := Nat.succ_pos _
  have hlen := h.length
  have hcontents := h.contents
  have hnext := h.next_eq
  rw [List.length_cons] at hlen hcontents hnext
  rw [RingBuffer.contents_pop (Nat.mod_lt _ h.cap_pos) hpos, Nat.add_sub_cancel] at hcontents
  obtain ⟨hb, hl⟩ := List.cons.inj hcontents
  have hone : BitVec.ofNat w (l.length + 1) = 1 + BitVec.ofNat w l.length := by
    rw [Nat.add_comm, BitVec.ofNat_add]
    rfl
  refine ⟨hb, h.dvd, h.lt, ?_, by omega, ?_⟩
  · rw [hnext, hone, BitVec.add_assoc]
  · have hslot := slot_add h.dvd first 1
    rw [show first + BitVec.ofNat w 1 = first + 1 from rfl] at hslot
    rw [hslot]
    exact hl

end IndexRing

end Lib
