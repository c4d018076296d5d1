/-
  Tilings of an interval of addresses by blocks.

  `Tiles size a bs e`: the blocks at the addresses `bs`, of the sizes `size`,
  fill `[a, e)` without gaps.  A block may be split in two (`Tiles.split`) and
  two neighbours may be merged (`Tiles.merge`).
-/
import Mathlib.Data.List.Basic
import Mathlib.Order.Interval.Set.Disjoint

namespace Lib

variable {size size' : ℕ → ℕ}

/-- The blocks `bs` fill the interval from `a` to `e`. -/
def Tiles (size : ℕ → ℕ) : ℕ → List ℕ → ℕ → Prop
  | a, [], e => a = e
  | a, b :: bs, e => b = a ∧ 0 < size b ∧ Tiles size (a + size b) bs e

@[simp] theorem tiles_nil (a e : ℕ) : Tiles size a [] e ↔ a = e := Iff.rfl

@[simp] theorem tiles_cons (a b e : ℕ) (bs : List ℕ) :
    Tiles size a (b :: bs) e ↔ b = a ∧ 0 < size b ∧ Tiles size (a + size b) bs e := Iff.rfl

theorem tiles_append {x y : List ℕ} : ∀ {a e : ℕ}, Tiles size a (x ++ y) e ↔
    ∃ m, Tiles size a x m ∧ Tiles size m y e := by
  induction x with
  | nil => simp
  | cons b x ih =>
    intro a e
    simp only [List.cons_append, tiles_cons, ih]
    constructor
    · rintro ⟨h1, h2, m, h3, h4⟩
      exact ⟨m, ⟨h1, h2, h3⟩, h4⟩
    · rintro ⟨m, ⟨h1, h2, h3⟩, h4⟩
      exact ⟨h1, h2, m, h3, h4⟩

/-- A tiling only depends on the sizes of its own blocks. -/
theorem Tiles.congr {bs : List ℕ} (hs : ∀ b ∈ bs, size' b = size b) :
    ∀ {a e : ℕ}, Tiles size a bs e → Tiles size' a bs e := by
  induction bs with
  | nil => simp
  | cons b bs ih =>
    rintro a e ⟨h1, h2, h3⟩
    rw [tiles_cons, hs b (by simp)]
    exact ⟨h1, h2, ih (fun c hc => hs c (by simp [hc])) h3⟩

theorem Tiles.le {bs : List ℕ} : ∀ {a e : ℕ}, Tiles size a bs e → a ≤ e := by
  induction bs with
  | nil => rintro a e rfl; exact Nat.le_refl _
  | cons b bs ih =>
    rintro a e ⟨-, -, h⟩
    have := ih h
    omega

/-- Every block lies inside the interval. -/
theorem Tiles.mem {bs : List ℕ} {b : ℕ} (hb : b ∈ bs) : ∀ {a e : ℕ}, Tiles size a bs e →
    a ≤ b ∧ b + size b ≤ e ∧ 0 < size b := by
  induction bs with
  | nil => cases hb
  | cons c bs ih =>
    rintro a e ⟨rfl, h2, h3⟩
    rcases List.mem_cons.1 hb with rfl | hb
    · exact ⟨Nat.le_refl _, h3.le, h2⟩
    · have := ih hb h3
      omega

/-- The sizes determine the blocks. -/
theorem Tiles.unique {bs : List ℕ} : ∀ {bs' : List ℕ} {a e : ℕ}, Tiles size a bs e →
    Tiles size a bs' e → bs = bs' := by
  induction bs with
  | nil =>
    rintro (_ | ⟨c, bs'⟩) a e rfl h
    · rfl
    · have hlt := Tiles.mem List.mem_cons_self h
      omega
  | cons b bs ih =>
    rintro (_ | ⟨c, bs'⟩) a e ⟨rfl, h2, h3⟩ h
    · obtain rfl : b = e := h
      have hle := h3.le
      omega
    · obtain ⟨rfl, -, h⟩ := h
      rw [ih h3 h]

/-- The blocks before and after a given one. -/
theorem Tiles.around {x y : List ℕ} {b a e : ℕ} (h : Tiles size a (x ++ b :: y) e) :
    Tiles size a x b ∧ 0 < size b ∧ Tiles size (b + size b) y e := by
  obtain ⟨m, h1, rfl, h2, h3⟩ := tiles_append.1 h
  exact ⟨h1, h2, h3⟩

/-- The addresses of a tiling increase. -/
theorem Tiles.sorted {bs : List ℕ} : ∀ {a e : ℕ}, Tiles size a bs e → bs.Pairwise (· < ·) := by
  induction bs with
  | nil => exact fun _ => List.Pairwise.nil
  | cons b bs ih =>
    rintro a e ⟨rfl, h2, h3⟩
    refine List.pairwise_cons.2 ⟨fun c hc => ?_, ih h3⟩
    have := (h3.mem hc).1
    omega

theorem Tiles.nodup {bs : List ℕ} {a e : ℕ} (h : Tiles size a bs e) : bs.Nodup :=
  h.sorted.imp Nat.ne_of_lt

/-- **Blocks do not overlap.** -/
theorem Tiles.apart {bs : List ℕ} {a e b c : ℕ} (h : Tiles size a bs e) (hb : b ∈ bs)
    (hc : c ∈ bs) (hbc : b < c) : b + size b ≤ c := by
  obtain ⟨x, y, rfl⟩ := List.append_of_mem hb
  obtain ⟨h1, h2, h3⟩ := h.around
  rcases List.mem_append.1 hc with hc | hc
  · have := h1.mem hc
    omega
  · rcases List.mem_cons.1 hc with rfl | hc
    · omega
    · exact (h3.mem hc).1

/-- **Every address belongs to a block.** -/
theorem Tiles.cover {bs : List ℕ} {z : ℕ} : ∀ {a e : ℕ}, Tiles size a bs e → a ≤ z → z < e →
    ∃ b ∈ bs, b ≤ z ∧ z < b + size b := by
  induction bs with
  | nil =>
    rintro a e rfl h1 h2
    omega
  | cons b bs ih =>
    rintro a e ⟨rfl, -, h3⟩ h1 h2
    by_cases hz : z < b + size b
    · exact ⟨b, by simp, h1, hz⟩
    · obtain ⟨c, hc, hcz⟩ := ih h3 (by omega) h2
      exact ⟨c, by simp [hc], hcz⟩

/-- Two blocks without a gap between them are neighbours in the list. -/
theorem Tiles.adjacent {bs : List ℕ} {a e b : ℕ} (h : Tiles size a bs e) (hb : b ∈ bs)
    (hn : b + size b ∈ bs) : ∃ x y, bs = x ++ b :: (b + size b) :: y := by
  obtain ⟨x, y, rfl⟩ := List.append_of_mem hb
  obtain ⟨h1, h2, h3⟩ := h.around
  refine ⟨x, y.tail, ?_⟩
  rcases List.mem_append.1 hn with hn | hn
  · have := h1.mem hn
    omega
  rcases List.mem_cons.1 hn with hn | hn
  · omega
  rcases y with _ | ⟨c, y⟩
  · cases hn
  · rw [h3.1]; rfl

/-- **Splitting a block** into one of size `n` and one of the rest. -/
theorem Tiles.split {x y : List ℕ} {a e b n : ℕ} (h : Tiles size a (x ++ b :: y) e) (hn : 0 < n)
    (hlt : n < size b) (hb : size' b = n) (hnew : size' (b + n) = size b - n)
    (hs : ∀ c ∈ x ++ y, size' c = size c) : Tiles size' a (x ++ b :: (b + n) :: y) e := by
  obtain ⟨h1, h2, h3⟩ := h.around
  refine tiles_append.2 ⟨b, h1.congr fun c hc => hs c (by simp [hc]), rfl, by omega, ?_⟩
  rw [hb, tiles_cons, hnew]
  refine ⟨rfl, by omega, ?_⟩
  rw [show b + n + (size b - n) = b + size b by omega]
  exact h3.congr fun c hc => hs c (by simp [hc])

/-- **Merging two neighbours.** -/
theorem Tiles.merge {x y : List ℕ} {a e b c : ℕ} (h : Tiles size a (x ++ b :: c :: y) e)
    (hb : size' b = size b + size c) (hs : ∀ d ∈ x ++ y, size' d = size d) :
    Tiles size' a (x ++ b :: y) e := by
  obtain ⟨h1, h2, rfl, h3, h4⟩ := h.around
  refine tiles_append.2 ⟨b, h1.congr fun d hd => hs d (by simp [hd]), rfl, by omega, ?_⟩
  rw [hb, ← Nat.add_assoc]
  exact h4.congr fun d hd => hs d (by simp [hd])

end Lib
