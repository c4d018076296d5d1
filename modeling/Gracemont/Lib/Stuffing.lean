/-
  Stuffing: letters that must not occur in a text are sent as an escape and a
  code.

  * `Stuffing.stuff`, `Stuffing.unstuff`: the two directions, of which the
    second one leaves an escape at the end of a text as it is;
  * `Stuffing.unstuff_stuff_append`: what was stuffed comes back, and then
    what follows it;
  * `Stuffing.not_mem_stuff`: no special letter but the escape is sent.
-/
import Mathlib.Data.Nat.Notation

namespace Lib

/-- The letters that are escaped, and their codes. -/
structure Stuffing (α : Type*) where
  esc : α
  special : α → Prop
  mask : α → α
  special_esc : special esc
  mask_mask : ∀ a, special a → mask (mask a) = a
  mask_plain : ∀ a, special a → ¬special (mask a)

namespace Stuffing
variable {α : Type*} (c : Stuffing α)

/-- What is sent of one letter. -/
def stuffOne [DecidablePred c.special] (a : α) : List α :=
  if c.special a then [c.esc, c.mask a] else [a]

def stuff [DecidablePred c.special] (l : List α) : List α := l.flatMap c.stuffOne

def unstuff [DecidableEq α] : List α → List α
  | [] => []
  | [a] => [a]
  | a :: b :: l => if a = c.esc then c.mask b :: unstuff l else a :: unstuff (b :: l)

variable {c}

/-! ## Sending -/

section
variable [DecidablePred c.special]

theorem stuff_cons (a : α) (l : List α) : c.stuff (a :: l) = c.stuffOne a ++ c.stuff l :=
  List.flatMap_cons

theorem stuff_append (l m : List α) : c.stuff (l ++ m) = c.stuff l ++ c.stuff m :=
  List.flatMap_append

/-- No special letter but the escape is sent. -/
theorem not_mem_stuff {a : α} (ha : c.special a) (hne : a ≠ c.esc) (l : List α) :
    a ∉ c.stuff l := by
  intro h
  obtain ⟨b, -, hb⟩ := List.mem_flatMap.1 h
  unfold stuffOne at hb
  split at hb
  case isTrue hspecial =>
    rcases List.mem_cons.1 hb with hesc | hmask
    · exact hne hesc
    · exact c.mask_plain b hspecial (List.mem_singleton.1 hmask ▸ ha)
  case isFalse hplain => exact hplain (List.mem_singleton.1 hb ▸ ha)

end

/-! ## Receiving -/

section
variable [DecidableEq α]

theorem unstuff_esc (b : α) (l : List α) :
    c.unstuff (c.esc :: b :: l) = c.mask b :: c.unstuff l := by
  rw [unstuff, if_pos rfl]

theorem unstuff_plain {a : α} (h : a ≠ c.esc) (l : List α) :
    c.unstuff (a :: l) = a :: c.unstuff l := by
  cases l with
  | nil => rfl
  | cons b l => rw [unstuff, if_neg h]

/-- What was stuffed comes back, and the receiver is ready for what follows. -/
theorem unstuff_stuff_append [DecidablePred c.special] (l m : List α) :
    c.unstuff (c.stuff l ++ m) = l ++ c.unstuff m := by
  induction l with
  | nil => rfl
  | cons a l ih =>
    rw [stuff_cons, List.append_assoc, List.cons_append]
    by_cases ha : c.special a
    · rw [stuffOne, if_pos ha, List.cons_append, List.cons_append, unstuff_esc, c.mask_mask a ha,
        List.nil_append, ih]
    · have hne : a ≠ c.esc := fun he => ha (he ▸ c.special_esc)
      rw [stuffOne, if_neg ha, List.cons_append, List.nil_append, unstuff_plain hne, ih]

theorem unstuff_stuff [DecidablePred c.special] (l : List α) : c.unstuff (c.stuff l) = l := by
  have h := c.unstuff_stuff_append l []
  rwa [List.append_nil, unstuff, List.append_nil] at h

end

end Stuffing

end Lib
