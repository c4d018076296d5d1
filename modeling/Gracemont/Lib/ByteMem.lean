/-
  Memories of bytes that record their writes.

  A `ByteMem` holds the bytes at the offsets of one region, and the offsets
  written so far, last write first.  `putBytes` writes a list of bytes in order,
  as a loop over a moving pointer does; `Within lo hi m m'` is that only offsets
  in `[lo, hi)` were written between `m` and `m'`.
-/
import Mathlib.Logic.Function.Basic
import Mathlib.Data.List.Basic
import Mathlib.Data.Nat.Notation

namespace Lib

/-- A region of bytes with the log of its writes. -/
structure ByteMem where
  byte : ℕ → BitVec 8
  written : List ℕ

namespace ByteMem

/-- A write. -/
def set (m : ByteMem) (a : ℕ) (v : BitVec 8) : ByteMem :=
  ⟨Function.update m.byte a v, a :: m.written⟩

/-- The bytes of `l` written from the offset `a` on. -/
def putBytes (m : ByteMem) (a : ℕ) : List (BitVec 8) → ByteMem
  | [] => m
  | v :: l => (m.set a v).putBytes (a + 1) l

/-- The `n` bytes from the offset `a` on. -/
def read (m : ByteMem) (a n : ℕ) : List (BitVec 8) := (List.range n).map fun i => m.byte (a + i)

variable (m : ByteMem) (a b : ℕ) (v : BitVec 8) (l : List (BitVec 8))

@[simp] theorem set_written : (m.set a v).written = a :: m.written := rfl

@[simp] theorem set_byte_self : (m.set a v).byte a = v := Function.update_self ..

@[simp] theorem set_byte_of_ne {a b : ℕ} (h : b ≠ a) : (m.set a v).byte b = m.byte b :=
  Function.update_of_ne h ..

@[simp] theorem putBytes_nil : m.putBytes a [] = m := rfl

@[simp] theorem putBytes_cons : m.putBytes a (v :: l) = (m.set a v).putBytes (a + 1) l := rfl

theorem putBytes_append (l' : List (BitVec 8)) :
    m.putBytes a (l ++ l') = (m.putBytes a l).putBytes (a + l.length) l' := by
  induction l generalizing m a with
  | nil => simp
  | cons v l ih =>
    rw [List.cons_append, putBytes_cons, ih, putBytes_cons, List.length_cons]
    congr 1
    omega

/-- The log of a sequential write. -/
theorem putBytes_written :
    (m.putBytes a l).written = (List.range' a l.length).reverse ++ m.written := by
  induction l generalizing m a with
  | nil => simp
  | cons v l ih => rw [putBytes_cons, ih]; simp [List.range'_succ]

theorem putBytes_byte_of_lt {b : ℕ} (h : b < a) : (m.putBytes a l).byte b = m.byte b := by
  induction l generalizing m a with
  | nil => rfl
  | cons v l ih => rw [putBytes_cons, ih _ _ (by omega), set_byte_of_ne _ _ (by omega)]

theorem putBytes_byte_of_le {b : ℕ} (h : a + l.length ≤ b) :
    (m.putBytes a l).byte b = m.byte b := by
  induction l generalizing m a with
  | nil => rfl
  | cons v l ih =>
    rw [List.length_cons] at h
    rw [putBytes_cons, ih _ _ (by omega), set_byte_of_ne _ _ (by omega)]

/-- **What a sequential write leaves.** -/
theorem putBytes_byte {i : ℕ} (h : i < l.length) : (m.putBytes a l).byte (a + i) = l[i] := by
  induction l generalizing m a i with
  | nil => simp at h
  | cons v l ih =>
    rw [putBytes_cons]
    cases i with
    | zero => rw [putBytes_byte_of_lt _ _ _ (by omega)]; simp
    | succ i =>
      have := ih (m.set a v) (a + 1) (i := i) (by simpa using h)
      rw [show a + (i + 1) = a + 1 + i by omega, this]
      rfl

@[simp] theorem read_length (n : ℕ) : (m.read a n).length = n := by simp [read]

theorem read_eq_iff {n : ℕ} : m.read a n = l ↔
    l.length = n ∧ ∀ i (h : i < l.length), m.byte (a + i) = l[i] := by
  constructor
  · rintro rfl
    exact ⟨by simp, fun i h => by simp [read]⟩
  · rintro ⟨rfl, h⟩
    exact List.ext_getElem (by simp) fun i _ hi => by simp [read, h i hi]

theorem read_add (n k : ℕ) : m.read a (n + k) = m.read a n ++ m.read (a + n) k := by
  simp [read, List.range_add, Nat.add_assoc]

theorem read_succ (n : ℕ) : m.read a (n + 1) = m.byte a :: m.read (a + 1) n := by
  rw [Nat.add_comm, read_add]
  rfl

/-- Reads only depend on the bytes read. -/
theorem read_congr {m m' : ByteMem} {a n : ℕ} (h : ∀ i < n, m'.byte (a + i) = m.byte (a + i)) :
    m'.read a n = m.read a n :=
  List.map_congr_left fun i hi => h i (List.mem_range.1 hi)

theorem read_putBytes : (m.putBytes a l).read a l.length = l :=
  (read_eq_iff ..).2 ⟨rfl, fun _ h => putBytes_byte _ _ _ h⟩

/-- `m'` comes from `m` by writes at offsets in `[lo, hi)`. -/
structure Within (lo hi : ℕ) (m m' : ByteMem) : Prop where
  log : ∃ ws, m'.written = ws ++ m.written ∧ ∀ a ∈ ws, lo ≤ a ∧ a < hi
  frame : ∀ a, a < lo ∨ hi ≤ a → m'.byte a = m.byte a

namespace Within
variable {m m₁ m₂ : ByteMem} {lo hi : ℕ}

theorem refl (lo hi : ℕ) (m : ByteMem) : Within lo hi m m :=
  ⟨⟨[], rfl, by simp⟩, fun _ _ => rfl⟩

theorem set {a : ℕ} (h1 : lo ≤ a) (h2 : a < hi) (m : ByteMem) (v : BitVec 8) :
    Within lo hi m (m.set a v) := by
  refine ⟨⟨[a], rfl, by simp [h1, h2]⟩, fun b hb => set_byte_of_ne _ _ ?_⟩
  omega

theorem trans (h : Within lo hi m m₁) (h' : Within lo hi m₁ m₂) : Within lo hi m m₂ := by
  obtain ⟨ws, hw, hin⟩ := h.log
  obtain ⟨ws', hw', hin'⟩ := h'.log
  refine ⟨⟨ws' ++ ws, by rw [hw', hw, List.append_assoc], fun a ha => ?_⟩, fun a ha => ?_⟩
  · rcases List.mem_append.1 ha with ha | ha
    · exact hin' a ha
    · exact hin a ha
  · rw [h'.frame a ha, h.frame a ha]

theorem mono {lo' hi' : ℕ} (h : Within lo hi m m₁) (hl : lo' ≤ lo) (hh : hi ≤ hi') :
    Within lo' hi' m m₁ := by
  obtain ⟨ws, hw, hin⟩ := h.log
  refine ⟨⟨ws, hw, fun a ha => ?_⟩, fun a ha => h.frame a (by omega)⟩
  have := hin a ha
  omega

end Within

/-- A sequential write is in a range that holds all its bytes. -/
theorem within_putBytes_iff {lo hi a : ℕ} {m : ByteMem} {l : List (BitVec 8)} (hl : l ≠ []) :
    Within lo hi m (m.putBytes a l) ↔ lo ≤ a ∧ a + l.length ≤ hi := by
  have hpos : 0 < l.length := List.length_pos_iff.2 hl
  constructor
  · rintro ⟨⟨ws, hws, hin⟩, -⟩
    rw [putBytes_written] at hws
    obtain rfl := List.append_cancel_right hws
    have hmem : ∀ i < l.length, a + i ∈ (List.range' a l.length).reverse := fun i hi =>
      List.mem_reverse.2 (List.mem_range'_1.2 ⟨by omega, by omega⟩)
    have hfirst := hin _ (hmem 0 hpos)
    have hlast := hin _ (hmem (l.length - 1) (by omega))
    omega
  · rintro ⟨hlo, hhi⟩
    refine ⟨⟨_, putBytes_written .., fun b hb => ?_⟩, fun b hb => ?_⟩
    · have hb := List.mem_range'_1.1 (List.mem_reverse.1 hb)
      omega
    · rcases hb with hb | hb
      · exact putBytes_byte_of_lt _ _ _ (by omega)
      · exact putBytes_byte_of_le _ _ _ (by omega)

end ByteMem

end Lib
