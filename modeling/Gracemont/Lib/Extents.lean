/-
  Extents: data at consecutive addresses.

  `coalesce` joins each extent to the one before if that ends where it starts.
  The result holds the same data at the same addresses (`coalesce_holds`), and no
  two of its extents touch exactly if no two of the given ones overlap
  (`coalesce_apart_iff`): an extent without data counts as overlapping where it
  lies strictly inside another.

  `entries` are the extents of a table from addresses to data, in order.
-/
import Mathlib.Data.Int.Order.Basic
import Mathlib.Data.List.AList
import Mathlib.Data.List.Chain
import Mathlib.Data.List.Sort

namespace Lib

/-- Data from an address on. -/
structure Extent (β : Type*) where
  start : ℤ
  data : List β

variable {β : Type*}

/-- Two elements of a list of which any two are related, in the order of the list. -/
theorem pairwise_either {α : Type*} {R : α → α → Prop} {l : List α} (h : l.Pairwise R) {x y : α}
    (hx : x ∈ l) (hy : y ∈ l) (hxy : x ≠ y) : R x y ∨ R y x := by
  have : Std.Symm fun x y => R x y ∨ R y x := ⟨fun _ _ => Or.symm⟩
  exact (h.imp (S := fun x y => R x y ∨ R y x) Or.inl).forall hx hy hxy

namespace Extent

/-- The address behind the data. -/
def stop (e : Extent β) : ℤ := e.start + e.data.length

/-- The extent has `b` at the address `a`. -/
def Holds (e : Extent β) (a : ℤ) (b : β) : Prop := ∃ i : ℕ, e.data[i]? = some b ∧ e.start + i = a

/-- `e` ends before `f` starts, or where it starts. -/
def Before (e f : Extent β) : Prop := e.stop ≤ f.start

/-- `e` ends before `f` starts, with a gap. -/
def Apart (e f : Extent β) : Prop := e.stop < f.start

theorem start_le_stop (e : Extent β) : e.start ≤ e.stop := by
  unfold stop
  omega

instance : Trans (Before (β := β)) (Before (β := β)) (Before (β := β)) :=
  ⟨fun {_ f _} hef hfg => Int.le_trans hef (Int.le_trans f.start_le_stop hfg)⟩

instance : Trans (Apart (β := β)) (Apart (β := β)) (Apart (β := β)) :=
  ⟨fun {_ f _} hef hfg => Int.lt_of_lt_of_le hef (Int.le_trans f.start_le_stop (Int.le_of_lt hfg))⟩

variable {e f : Extent β} {a : ℤ} {b : β} {l : List (Extent β)}

theorem Holds.mem (h : e.Holds a b) : e.start ≤ a ∧ a < e.stop := by
  obtain ⟨i, hi, rfl⟩ := h
  obtain ⟨hi, -⟩ := List.getElem?_eq_some_iff.1 hi
  unfold stop
  omega

/-- Of extents that do not overlap, only one has data at an address. -/
theorem eq_of_holds (hl : l.Pairwise Before) (he : e ∈ l) (hf : f ∈ l) (ha : e.Holds a b)
    {b' : β} (ha' : f.Holds a b') : e = f := by
  by_contra hne
  have hmem := ha.mem
  have hmem' := ha'.mem
  rcases pairwise_either hl he hf hne with h | h
  · unfold Before at h
    omega
  · unfold Before at h
    omega

/-- No other extent starts inside an extent. -/
theorem eq_of_inside (hl : l.Pairwise Before) (he : e ∈ l) (hf : f ∈ l)
    (h : e.start < f.start) (h' : f.start < e.stop) : e = f := by
  by_contra hne
  have hstop := f.start_le_stop
  rcases pairwise_either hl he hf hne with h | h
  · unfold Before at h
    omega
  · unfold Before at h
    omega

/-! ## Joining -/

/-- `f` joined to `e`. -/
def join (e f : Extent β) : Extent β := ⟨e.start, e.data ++ f.data⟩

@[simp] theorem join_start : (e.join f).start = e.start := rfl

@[simp] theorem join_data : (e.join f).data = e.data ++ f.data := rfl

theorem join_stop (h : f.start = e.stop) : (e.join f).stop = f.stop := by
  unfold stop at h ⊢
  rw [join_start, join_data, List.length_append]
  omega

theorem join_holds (h : f.start = e.stop) : (e.join f).Holds a b ↔ e.Holds a b ∨ f.Holds a b := by
  unfold stop at h
  constructor
  · rintro ⟨i, hi, ha⟩
    rcases Nat.lt_or_ge i e.data.length with hlt | hge
    · exact Or.inl ⟨i, by rwa [join_data, List.getElem?_append_left hlt] at hi, ha⟩
    · rw [join_data, List.getElem?_append_right hge] at hi
      rw [join_start] at ha
      exact Or.inr ⟨i - e.data.length, hi, by omega⟩
  · rintro (⟨i, hi, ha⟩ | ⟨i, hi, ha⟩)
    · obtain ⟨hlt, -⟩ := List.getElem?_eq_some_iff.1 hi
      exact ⟨i, by rwa [join_data, List.getElem?_append_left hlt], ha⟩
    · refine ⟨e.data.length + i, ?_, ?_⟩
      · rwa [join_data, List.getElem?_append_right (Nat.le_add_right ..), Nat.add_sub_cancel_left]
      · rw [join_start]
        omega

/-- The extents from `current` on, each joined to the one before if it follows it. -/
def coalesceFrom (current : Extent β) : List (Extent β) → List (Extent β)
  | [] => [current]
  | e :: l =>
    if e.start ≠ current.stop then current :: coalesceFrom e l
    else coalesceFrom (current.join e) l

def coalesce : List (Extent β) → List (Extent β)
  | [] => []
  | e :: l => coalesceFrom e l

theorem coalesceFrom_holds (e : Extent β) (l : List (Extent β)) :
    (∃ s ∈ coalesceFrom e l, s.Holds a b) ↔ ∃ f ∈ e :: l, f.Holds a b := by
  induction l generalizing e with
  | nil => exact Iff.rfl
  | cons f l ih =>
    rw [coalesceFrom]
    split_ifs with hstart
    · rw [List.exists_mem_cons_iff, ih, List.exists_mem_cons_iff (a := e)]
    · rw [ih, List.exists_mem_cons_iff, join_holds (not_not.1 hstart), List.exists_mem_cons_iff,
        List.exists_mem_cons_iff, or_assoc]

/-- **The joined extents have the same data** at the same addresses. -/
theorem coalesce_holds : (∃ s ∈ coalesce l, s.Holds a b) ↔ ∃ e ∈ l, e.Holds a b := by
  cases l with
  | nil => exact Iff.rfl
  | cons e l => exact coalesceFrom_holds e l

theorem coalesceFrom_head (e : Extent β) (l : List (Extent β)) :
    ∃ s l', coalesceFrom e l = s :: l' ∧ s.start = e.start := by
  induction l generalizing e with
  | nil => exact ⟨e, [], rfl, rfl⟩
  | cons f l ih =>
    rw [coalesceFrom]
    split_ifs with hstart
    · exact ⟨e, _, rfl, rfl⟩
    · exact ih (e.join f)

theorem coalesceFrom_isChain (e : Extent β) (l : List (Extent β)) :
    (coalesceFrom e l).IsChain Apart ↔ (e :: l).IsChain Before := by
  induction l generalizing e with
  | nil => simp [coalesceFrom]
  | cons f l ih =>
    rw [coalesceFrom, List.isChain_cons_cons]
    split_ifs with hstart
    · obtain ⟨s, l', hs, hhead⟩ := coalesceFrom_head f l
      rw [← ih, hs, List.isChain_cons_cons]
      refine and_congr_left fun _ => ?_
      unfold Apart Before
      omega
    · rw [not_not] at hstart
      rw [ih]
      have hbefore : Before e f := Int.le_of_eq hstart.symm
      cases l with
      | nil => simp [hbefore]
      | cons g l =>
        rw [List.isChain_cons_cons, List.isChain_cons_cons, Before, join_stop hstart]
        exact (and_iff_right hbefore).symm

/-- **The joined extents do not touch** exactly if the given ones do not overlap. -/
theorem coalesce_apart_iff : (coalesce l).Pairwise Apart ↔ l.Pairwise Before := by
  rw [← List.isChain_iff_pairwise, ← List.isChain_iff_pairwise]
  cases l with
  | nil => exact iff_of_true .nil .nil
  | cons e l => exact coalesceFrom_isChain e l

/-! ## Tables -/

/-- The extents of a table, in the order of their addresses. -/
def entries (m : AList fun _ : ℤ => List β) : List (Extent β) :=
  (m.keys.insertionSort (· ≤ ·)).map fun a => ⟨a, (m.lookup a).getD []⟩

variable {m : AList fun _ : ℤ => List β}

theorem mem_entries : e ∈ entries m ↔ m.lookup e.start = some e.data := by
  unfold entries
  rw [List.mem_map]
  constructor
  · rintro ⟨a, ha, rfl⟩
    rw [List.mem_insertionSort, ← AList.mem_keys, ← AList.lookup_isSome] at ha
    obtain ⟨v, hv⟩ := Option.isSome_iff_exists.1 ha
    simp [hv]
  · intro h
    refine ⟨e.start, ?_, by simp [h]⟩
    rw [List.mem_insertionSort, ← AList.mem_keys, ← AList.lookup_isSome, h]
    rfl

theorem entries_unique (he : e ∈ entries m) (hf : f ∈ entries m) (h : e.start = f.start) :
    e = f := by
  have hdata := mem_entries.1 he
  rw [h, mem_entries.1 hf] at hdata
  obtain ⟨start, data⟩ := e
  obtain ⟨start', data'⟩ := f
  cases h
  cases hdata
  rfl

theorem entries_pairwise (m : AList fun _ : ℤ => List β) :
    (entries m).Pairwise fun e f => e.start < f.start := by
  unfold entries
  rw [List.pairwise_map]
  have hnodup := (List.perm_insertionSort (· ≤ ·) m.keys).nodup_iff.2 m.keys_nodup
  exact (List.pairwise_insertionSort (· ≤ ·) m.keys).imp₂ (fun _ _ => lt_of_le_of_ne) hnodup

end Extent

end Lib
