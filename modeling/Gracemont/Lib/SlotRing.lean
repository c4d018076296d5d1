/-
  Rings that keep one slot free.

  A ring of `cap` slots with the index `head` of the next slot to write and
  `tail` of the next one to read; it is empty when they are equal, so it is
  full with `cap - 1` elements.  `Holds` relates it to the queue it stands for.
-/
import Gracemont.Lib.RingBuffer

namespace Lib

/-- The slots, the next one to write and the next one to read. -/
structure SlotRing (β : Type*) where
  slot : ℕ → β
  head : ℕ
  tail : ℕ

namespace SlotRing
variable {β : Type*}

/-- Append, unless the ring is full. -/
def put (cap : ℕ) (r : SlotRing β) (b : β) : Option (SlotRing β) :=
  if (r.head + 1) % cap = r.tail then none
  else some { r with slot := Function.update r.slot r.head b, head := (r.head + 1) % cap }

/-- Remove the oldest element, unless the ring is empty. -/
def get (cap : ℕ) (r : SlotRing β) : Option (β × SlotRing β) :=
  if r.tail = r.head then none
  else some (r.slot r.tail, { r with tail := (r.tail + 1) % cap })

/-- The ring holds the elements `l`, the oldest first. -/
structure Holds (cap : ℕ) (r : SlotRing β) (l : List β) : Prop where
  tail_lt : r.tail < cap
  room : l.length < cap
  head : r.head = (r.tail + l.length) % cap
  contents : RingBuffer.contents r.slot cap r.tail l.length = l

namespace Holds
variable {cap : ℕ} {r r' : SlotRing β} {l : List β} {b : β}

theorem empty (hcap : 0 < cap) (hh : r.head = 0) (ht : r.tail = 0) : Holds cap r [] where
  tail_lt := by omega
  room := by simpa using hcap
  head := by simp [hh, ht]
  contents := rfl

theorem head_lt (h : Holds cap r l) : r.head < cap := by
  rw [h.head]
  exact Nat.mod_lt _ (Nat.zero_lt_of_lt h.tail_lt)

/-- The ring is empty when both indices agree. -/
theorem tail_eq_head (h : Holds cap r l) : r.tail = r.head ↔ l = [] := by
  constructor
  · intro he
    have hz : (r.tail + 0) % cap = (r.tail + l.length) % cap := by
      rw [← h.head, ← he, Nat.add_zero, Nat.mod_eq_of_lt h.tail_lt]
    have hlen := RingBuffer.index_inj (Nat.zero_lt_of_lt h.tail_lt) h.room hz
    exact List.eq_nil_of_length_eq_zero hlen.symm
  · rintro rfl
    rw [h.head, List.length_nil, Nat.add_zero, Nat.mod_eq_of_lt h.tail_lt]

/-- It is full when the slot after `head` is the next one to read. -/
theorem full_iff (h : Holds cap r l) : (r.head + 1) % cap = r.tail ↔ l.length + 1 = cap := by
  have hnext : (r.head + 1) % cap = (r.tail + (l.length + 1)) % cap := by
    rw [h.head, RingBuffer.tail_push]
  constructor
  · intro he
    rcases Nat.lt_or_eq_of_le (Nat.succ_le_of_lt h.room) with hlt | heq
    · have hz : (r.tail + (l.length + 1)) % cap = (r.tail + 0) % cap := by
        rw [← hnext, he, Nat.add_zero, Nat.mod_eq_of_lt h.tail_lt]
      have hlen := RingBuffer.index_inj hlt (Nat.zero_lt_of_lt h.tail_lt) hz
      omega
    · exact heq
  · intro he
    rw [hnext, he, Nat.add_mod_right, Nat.mod_eq_of_lt h.tail_lt]

theorem put_eq_none (h : Holds cap r l) : r.put cap b = none ↔ l.length + 1 = cap := by
  rw [← h.full_iff]
  unfold put
  split <;> simp_all

/-- **Appending.** -/
theorem put (h : Holds cap r l) (hput : r.put cap b = some r') : Holds cap r' (l ++ [b]) := by
  have hroom : l.length + 1 ≠ cap := fun he => by
    rw [h.put_eq_none.2 he] at hput
    cases hput
  unfold SlotRing.put at hput
  split at hput
  · cases hput
  · obtain rfl := Option.some.inj hput
    have hlt := h.room
    have hlen : (l ++ [b]).length = l.length + 1 := by simp
    refine ⟨h.tail_lt, by omega, ?_, ?_⟩
    · rw [hlen, h.head, RingBuffer.tail_push]
    · have hsame : ∀ i < cap, i ≠ (r.tail + l.length) % cap →
          Function.update r.slot r.head b i = r.slot i := fun i _ hi =>
        Function.update_of_ne (h.head ▸ hi) b r.slot
      have hnew : Function.update r.slot r.head b ((r.tail + l.length) % cap) = b := by
        rw [h.head, Function.update_self]
      rw [hlen, RingBuffer.contents_push hlt hnew hsame, h.contents]

theorem get_nil (h : Holds cap r []) : r.get cap = none :=
  if_pos (h.tail_eq_head.2 rfl)

/-- **Removing** the oldest element. -/
theorem get_cons (h : Holds cap r (b :: l)) : ∃ r', r.get cap = some (b, r') ∧ Holds cap r' l := by
  have hne : r.tail ≠ r.head := fun he => List.cons_ne_nil b l (h.tail_eq_head.1 he)
  have hpos : 0 < l.length + 1 := Nat.succ_pos _
  have hroom := h.room
  have hcontents := h.contents
  rw [List.length_cons] at hroom hcontents
  rw [RingBuffer.contents_pop h.tail_lt hpos, Nat.add_sub_cancel] at hcontents
  obtain ⟨hb, hl⟩ := List.cons.inj hcontents
  refine ⟨_, by rw [SlotRing.get, if_neg hne, hb], ?_, by omega, ?_, hl⟩
  · exact Nat.mod_lt _ (Nat.zero_lt_of_lt h.tail_lt)
  · have hpop := @RingBuffer.tail_pop cap r.tail _ hpos
    rw [Nat.add_sub_cancel] at hpop
    exact h.head.trans hpop.symm

end Holds
end SlotRing

end Lib
