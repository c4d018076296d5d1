/-
  Free lists threaded through the free nodes.

  The nodes that are free are linked through themselves up to a null node; the
  others are in use, and their links are anybody's.

  * `Threaded next null a l`: from `a` on the links lead through `l` to `null`;
  * `Splits all free used`: each node once, free or in use.
-/
import Mathlib.Data.List.Nodup
import Mathlib.Data.List.Perm.Basic

namespace Lib

variable {α : Type*}

/-! ## Links -/

/-- The nodes from `a` on are those of `l`, and the last link is `null`. -/
def Threaded (next : α → α) (null : α) : α → List α → Prop
  | a, [] => a = null
  | a, x :: l => a = x ∧ x ≠ null ∧ Threaded next null (next x) l

namespace Threaded
variable {next next' : α → α} {null a : α} {l : List α}

/-- Only the links of the nodes matter. -/
theorem congr (h : Threaded next null a l) (hn : ∀ x ∈ l, next' x = next x) :
    Threaded next' null a l := by
  induction l generalizing a with
  | nil => exact h
  | cons x l ih =>
    obtain ⟨rfl, hne, hl⟩ := h
    refine ⟨rfl, hne, ?_⟩
    rw [hn a List.mem_cons_self]
    exact ih hl fun y hy => hn y (List.mem_cons_of_mem _ hy)

/-- A node in front, linked to the head so far. -/
theorem push (h : Threaded next null a l) {x : α} (hx : x ≠ null) (hlink : next' x = a)
    (hn : ∀ y ∈ l, next' y = next y) : Threaded next' null x (x :: l) :=
  ⟨rfl, hx, hlink ▸ h.congr hn⟩

theorem null_iff (h : Threaded next null a l) : a = null ↔ l = [] := by
  cases l with
  | nil => exact ⟨fun _ => rfl, fun _ => h⟩
  | cons x l =>
    obtain ⟨rfl, hne, -⟩ := h
    exact ⟨fun he => absurd he hne, fun he => by cases he⟩

/-- The head off the list. -/
theorem pop (h : Threaded next null a l) (ha : a ≠ null) :
    ∃ l', l = a :: l' ∧ Threaded next null (next a) l' := by
  cases l with
  | nil => exact absurd h ha
  | cons x l =>
    obtain ⟨rfl, -, hl⟩ := h
    exact ⟨l, rfl, hl⟩

/-- Nodes that are numbered and linked in order. -/
theorem range' {f : ℕ → α} (k n : ℕ) (hne : ∀ i ≤ k + n, f i ≠ null)
    (hnext : ∀ i < k + n, next (f i) = f (i + 1)) (hlast : next (f (k + n)) = null) :
    Threaded next null (f k) ((List.range' k (n + 1)).map f) := by
  induction n generalizing k with
  | zero => exact ⟨rfl, hne k (Nat.le_refl k), hlast⟩
  | succ n ih =>
    rw [List.range'_succ, List.map_cons]
    refine ⟨rfl, hne k (by omega), ?_⟩
    rw [hnext k (by omega)]
    refine ih (k + 1) ?_ ?_ ?_
    · intro i hi
      exact hne i (by omega)
    · intro i hi
      exact hnext i (by omega)
    · rwa [Nat.add_assoc, Nat.add_comm 1 n]

end Threaded

/-! ## Free and used nodes -/

/-- Each of the nodes `all` is free or in use, and not both. -/
structure Splits (all free used : List α) : Prop where
  perm : (free ++ used).Perm all
  nodup : all.Nodup

namespace Splits
variable {all free used : List α} {x : α}

theorem nodup_append (h : Splits all free used) : (free ++ used).Nodup := h.perm.nodup_iff.2 h.nodup

theorem nodup_free (h : Splits all free used) : free.Nodup := (List.nodup_append.1 h.nodup_append).1

theorem nodup_used (h : Splits all free used) : used.Nodup :=
  (List.nodup_append.1 h.nodup_append).2.1

theorem not_used (h : Splits all free used) (hx : x ∈ free) : x ∉ used := fun hu =>
  (List.nodup_append.1 h.nodup_append).2.2 x hx x hu rfl

theorem length (h : Splits all free used) : free.length + used.length = all.length := by
  rw [← List.length_append, h.perm.length_eq]

theorem mem_free (h : Splits all free used) (hx : x ∈ free) : x ∈ all :=
  h.perm.subset (List.mem_append_left _ hx)

theorem mem_used (h : Splits all free used) (hx : x ∈ used) : x ∈ all :=
  h.perm.subset (List.mem_append_right _ hx)

/-- Taking a free node. -/
theorem take (h : Splits all (x :: free) used) : Splits all free (x :: used) :=
  ⟨List.perm_middle.trans h.perm, h.nodup⟩

/-- Giving a node back. -/
theorem give (h : Splits all free (x :: used)) : Splits all (x :: free) used :=
  ⟨List.perm_middle.symm.trans h.perm, h.nodup⟩

/-- The order in which nodes are in use does not matter. -/
theorem congr_used {used' : List α} (h : Splits all free used) (hp : used'.Perm used) :
    Splits all free used' := ⟨(hp.append_left free).trans h.perm, h.nodup⟩

end Splits

end Lib
