/-
  Rosters.

  A table `f` gives each `x` its state.  A roster lists those whose state has a
  property, each one once; `Function.update` moves one of them into the roster,
  out of it, or past it.
-/
import Mathlib.Data.List.Nodup
import Mathlib.Logic.Function.Basic

namespace Lib

section
variable {α γ : Type*} [DecidableEq α] {P : γ → Prop} {f : α → γ} {t : α} {v : γ}

/-- The one updated has the property no more. -/
theorem update_lose (hv : ¬P v) (x : α) : P (Function.update f t v x) ↔ x ≠ t ∧ P (f x) := by
  rw [Function.update_apply]
  split
  · rename_i hx
    simp [hx, hv]
  · rename_i hx
    simp [hx]

/-- The one updated has the property. -/
theorem update_gain (hv : P v) (x : α) : P (Function.update f t v x) ↔ x = t ∨ P (f x) := by
  rw [Function.update_apply]
  split
  · rename_i hx
    simp [hx, hv]
  · rename_i hx
    simp [hx]

/-- The one updated has the property neither before nor after. -/
theorem update_keep (hv : ¬P v) (ht : ¬P (f t)) (x : α) :
    P (Function.update f t v x) ↔ P (f x) := by
  rw [update_lose hv, and_iff_right_iff_imp]
  rintro hx rfl
  exact ht hx

end

/-- The list `l` holds the members of `p`, each one once. -/
structure Roster {α : Type*} (p : α → Prop) (l : List α) : Prop where
  nodup : l.Nodup
  mem : ∀ x, x ∈ l ↔ p x

namespace Roster
variable {α γ : Type*}

theorem nil {p : α → Prop} (h : ∀ x, ¬p x) : Roster p [] :=
  ⟨List.nodup_nil, fun x => by simpa using h x⟩

section
variable [DecidableEq α] {P : γ → Prop} {f : α → γ} {t : α} {v : γ} {l : List α}

/-- One more. -/
theorem gain (h : Roster (fun x => P (f x)) l) (ht : ¬P (f t)) (hv : P v) :
    Roster (fun x => P (Function.update f t v x)) (t :: l) := by
  refine ⟨List.nodup_cons.2 ⟨fun hm => ht ((h.mem t).1 hm), h.nodup⟩, fun x => ?_⟩
  rw [List.mem_cons, h.mem, update_gain hv]

/-- One less. -/
theorem lose (h : Roster (fun x => P (f x)) l) (hv : ¬P v) :
    Roster (fun x => P (Function.update f t v x)) (l.erase t) := by
  refine ⟨h.nodup.erase t, fun x => ?_⟩
  rw [h.nodup.mem_erase_iff, h.mem, update_lose hv]

theorem length_lose (h : Roster (fun x => P (f x)) l) (ht : P (f t)) :
    l.length = (l.erase t).length + 1 := by
  have hm := (h.mem t).2 ht
  have hpos := List.length_pos_of_mem hm
  rw [List.length_erase_of_mem hm]
  omega

/-- The same ones. -/
theorem keep (h : Roster (fun x => P (f x)) l) (ht : ¬P (f t)) (hv : ¬P v) :
    Roster (fun x => P (Function.update f t v x)) l :=
  ⟨h.nodup, fun x => (h.mem x).trans (update_keep hv ht x).symm⟩

end
end Roster

end Lib
