/-
  Windows of a buffer.

  A window is the part of a buffer of `cap` cells that is in use.  It grows and
  shrinks at both ends; what would leave the buffer, or take more cells than
  there are, is refused.

  * `push`, `pull`: the front;
  * `put`, `trim`: the back.
-/
import Mathlib.Data.Nat.Notation
import Mathlib.Tactic.Ext

namespace Lib

/-- The cells from `lo` to `hi` of a buffer. -/
@[ext] structure Window (cap : ℕ) where
  lo : ℕ
  hi : ℕ
  lo_le : lo ≤ hi
  hi_le : hi ≤ cap

namespace Window
variable {cap : ℕ}

/-- The number of cells in use. -/
def len (w : Window cap) : ℕ := w.hi - w.lo

/-- No cell in use, at `p`. -/
def empty (p : ℕ) (hp : p ≤ cap) : Window cap := ⟨p, p, Nat.le_refl _, hp⟩

/-- Growing at the front. -/
def push (w : Window cap) (n : ℕ) : Option (Window cap) :=
  if n ≤ w.lo then some ⟨w.lo - n, w.hi, Nat.le_trans (Nat.sub_le ..) w.lo_le, w.hi_le⟩ else none

/-- Shrinking at the front. -/
def pull (w : Window cap) (n : ℕ) : Option (Window cap) :=
  if h : n ≤ w.len then
    some ⟨w.lo + n, w.hi, by have := w.lo_le; unfold len at h; omega, w.hi_le⟩
  else none

/-- Growing at the back. -/
def put (w : Window cap) (n : ℕ) : Option (Window cap) :=
  if h : w.hi + n ≤ cap then some ⟨w.lo, w.hi + n, Nat.le_add_right_of_le w.lo_le, h⟩ else none

/-- Shrinking at the back, by what there is. -/
def trim (w : Window cap) (n : ℕ) : Window cap :=
  ⟨w.lo, w.hi - min n w.len, by have := w.lo_le; unfold len; omega,
    Nat.le_trans (Nat.sub_le ..) w.hi_le⟩

variable {w w' : Window cap} {n : ℕ}

@[simp] theorem empty_len (p : ℕ) (hp : p ≤ cap) : (empty p hp).len = 0 := Nat.sub_self p

theorem len_le (w : Window cap) : w.len ≤ cap := Nat.le_trans (Nat.sub_le ..) w.hi_le

theorem push_eq_some (h : n ≤ w.lo) : ∃ w', w.push n = some w' ∧ w'.lo = w.lo - n ∧ w'.hi = w.hi ∧
    w'.len = w.len + n := by
  refine ⟨_, if_pos h, rfl, rfl, ?_⟩
  have hle := w.lo_le
  simp only [len]
  omega

theorem push_eq_none (h : w.lo < n) : w.push n = none := if_neg (Nat.not_le.2 h)

theorem pull_eq_some (h : n ≤ w.len) : ∃ w', w.pull n = some w' ∧ w'.lo = w.lo + n ∧
    w'.hi = w.hi ∧ w'.len = w.len - n :=
  ⟨_, dif_pos h, rfl, rfl, Nat.sub_add_eq ..⟩

theorem pull_eq_none (h : w.len < n) : w.pull n = none := dif_neg (Nat.not_le.2 h)

theorem put_eq_some (h : w.hi + n ≤ cap) : ∃ w', w.put n = some w' ∧ w'.lo = w.lo ∧
    w'.hi = w.hi + n ∧ w'.len = w.len + n := by
  refine ⟨_, dif_pos h, rfl, rfl, ?_⟩
  have hle := w.lo_le
  simp only [len]
  omega

theorem put_eq_none (h : cap < w.hi + n) : w.put n = none := dif_neg (Nat.not_le.2 h)

theorem trim_len (w : Window cap) (n : ℕ) : (w.trim n).len = w.len - min n w.len := by
  have hle := w.lo_le
  simp only [trim, len]
  omega

/-- **Pulling what was pushed** restores the window. -/
theorem pull_push (h : w.push n = some w') : w'.pull n = some w := by
  by_cases hn : n ≤ w.lo
  · obtain ⟨v, hv, hlo, hhi, hlen⟩ := push_eq_some hn
    rw [h] at hv
    obtain rfl := Option.some.inj hv
    obtain ⟨u, hu, hlo', hhi', -⟩ := pull_eq_some (w := w') (n := n) (by omega)
    rw [hu]
    congr 1
    ext
    · omega
    · omega
  · rw [push_eq_none (Nat.lt_of_not_le hn)] at h
    cases h

/-- **Trimming what was put** restores the window. -/
theorem trim_put (h : w.put n = some w') : w'.trim n = w := by
  by_cases hn : w.hi + n ≤ cap
  · obtain ⟨v, hv, hlo, hhi, hlen⟩ := put_eq_some hn
    rw [h] at hv
    obtain rfl := Option.some.inj hv
    ext
    · exact hlo
    · simp only [trim]
      omega
  · rw [put_eq_none (Nat.lt_of_not_le hn)] at h
    cases h

end Window

end Lib
