/-
  Lists whose elements are named by their positions.

  When the element at a position is removed, the positions behind it move up by one
  (`renumber`).  In a list without repetitions, the positions of the elements
  that stay are the renumbered ones (`getElem?_erase`).
-/
import Mathlib.Data.List.Nodup
import Mathlib.Logic.Function.Basic

namespace Lib

namespace Positions

/-- The position `j` after the position `i` was removed. -/
def renumber (i j : ℕ) : ℕ := if i < j then j - 1 else j

theorem renumber_of_lt {i j : ℕ} (h : j < i) : renumber i j = j := if_neg (by omega)

variable {α β : Type*} {l : List α} {i j : ℕ} {a b : α}

theorem getElem?_eraseIdx_renumber (h : j ≠ i) : (l.eraseIdx i)[renumber i j]? = l[j]? := by
  rw [renumber, List.getElem?_eraseIdx]
  split_ifs with hij hlt hlt
  · omega
  · rw [Nat.sub_add_cancel (by omega)]
  · rfl
  · omega

/-- Positions are names. -/
theorem eq_iff (hl : l.Nodup) (hi : l[i]? = some a) (hj : l[j]? = some b) : j = i ↔ b = a := by
  obtain ⟨hi, rfl⟩ := List.getElem?_eq_some_iff.1 hi
  obtain ⟨hj, rfl⟩ := List.getElem?_eq_some_iff.1 hj
  exact hl.getElem_inj_iff.symm

theorem getElem?_append {l' : List α} (h : l[j]? = some b) : (l ++ l')[j]? = some b := by
  obtain ⟨hj, -⟩ := List.getElem?_eq_some_iff.1 h
  rw [List.getElem?_append_left hj, h]

/-- Names that refer to something under one relation do so under a weaker one. -/
theorem rel_imp {R S : β → α → Prop} (h : ∀ b a, R b a → S b a) {p : Option β} {q : Option α}
    (hpq : Option.Rel R p q) : Option.Rel S p q := by
  cases hpq with
  | none => exact .none
  | some hr => exact .some (h _ _ hr)

variable [DecidableEq α]

theorem eraseIdx_eq_erase (hl : l.Nodup) (hi : l[i]? = some a) : l.eraseIdx i = l.erase a := by
  obtain ⟨hlt, rfl⟩ := List.getElem?_eq_some_iff.1 hi
  exact (hl.erase_get ⟨i, hlt⟩).symm

/-- **An element that stays** is at its renumbered position. -/
theorem getElem?_erase (hl : l.Nodup) (hi : l[i]? = some a) (hj : l[j]? = some b) (h : b ≠ a) :
    (l.erase a)[renumber i j]? = some b := by
  rw [← eraseIdx_eq_erase hl hi, getElem?_eraseIdx_renumber, hj]
  exact fun hji => h ((eq_iff hl hi hj).1 hji)

/-- A change at a position is one of the element there. -/
theorem map_modify (hl : l.Nodup) (hi : l[i]? = some a) (f : α → β) (g : β → β) :
    (l.map f).modify i g = l.map (Function.update f a (g (f a))) := by
  refine List.ext_getElem? fun k => ?_
  rw [List.getElem?_modify, List.getElem?_map, List.getElem?_map]
  cases hk : l[k]? with
  | none => rfl
  | some b =>
    have hki : i = k ↔ b = a := eq_comm.trans (eq_iff hl hi hk)
    by_cases hb : b = a
    · simp [hki, hb]
    · simp [hki, hb]

end Positions

end Lib
