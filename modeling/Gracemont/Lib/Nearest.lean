/-
  Nearest integers.

  `IsNearest n a d`: no integer is nearer to `a / d` than `n`.  Over a common
  denominator that is a statement about integers (`isNearest_iff`), and rounding
  half up gives a nearest one (`isNearest_roundHalfUp`).
-/
import Mathlib.Algebra.Order.Field.Basic
import Mathlib.Algebra.Order.Ring.Abs
import Mathlib.Algebra.Order.Ring.Rat
import Mathlib.Tactic.Linarith
import Mathlib.Tactic.Ring

namespace Lib

/-- No integer is nearer to `a / d`. -/
def IsNearest (n a d : ℤ) : Prop := ∀ m : ℤ, |n * d - a| ≤ |m * d - a|

variable {n a d : ℤ}

/-- At most half a unit away. -/
theorem isNearest_iff (hd : 0 < d) : IsNearest n a d ↔ 2 * |n * d - a| ≤ d := by
  constructor
  · intro h
    have hup := h (n + 1)
    have hdown := h (n - 1)
    rw [add_mul, one_mul] at hup
    rw [sub_mul, one_mul] at hdown
    -- one of the neighbours is on the other side of `a`
    rcases abs_cases (n * d - a) with ⟨habs, hs⟩ | ⟨habs, hs⟩
    · rcases abs_cases (n * d - d - a) with ⟨h', -⟩ | ⟨h', -⟩ <;> omega
    · rcases abs_cases (n * d + d - a) with ⟨h', -⟩ | ⟨h', -⟩ <;> omega
  · intro h m
    rcases lt_trichotomy m n with hm | rfl | hm
    · have hle : (m + 1) * d ≤ n * d := Int.mul_le_mul_of_nonneg_right hm hd.le
      rw [add_mul, one_mul] at hle
      have hself := le_abs_self (n * d - a)
      have hneg := neg_le_abs (m * d - a)
      omega
    · exact le_refl _
    · have hle : (n + 1) * d ≤ m * d := Int.mul_le_mul_of_nonneg_right hm hd.le
      rw [add_mul, one_mul] at hle
      have hneg := neg_le_abs (n * d - a)
      have hself := le_abs_self (m * d - a)
      omega

/-- The denominator does not matter. -/
theorem isNearest_mul {k : ℤ} (hk : 0 < k) : IsNearest n (k * a) (k * d) ↔ IsNearest n a d := by
  refine forall_congr' fun m => ?_
  have hfactor : ∀ x : ℤ, |x * (k * d) - k * a| = k * |x * d - a| := fun x => by
    rw [show x * (k * d) - k * a = k * (x * d - a) by ring, abs_mul, abs_of_pos hk]
  rw [hfactor, hfactor]
  exact mul_le_mul_iff_right₀ hk

/-- An integer more in the number and in what is near it. -/
theorem isNearest_add_mul (k : ℤ) : IsNearest (n + k) (a + k * d) d ↔ IsNearest n a d := by
  constructor
  · intro h m
    have := h (m + k)
    rwa [add_mul, add_mul, add_sub_add_right_eq_sub, add_sub_add_right_eq_sub] at this
  · intro h m
    have := h (m - k)
    rw [sub_mul] at this
    rw [add_mul, add_sub_add_right_eq_sub]
    rwa [show m * d - (a + k * d) = m * d - k * d - a by ring]

/-- **Rounding half up** gives a nearest integer. -/
theorem isNearest_roundHalfUp {a d : ℕ} (hd : 0 < d) : IsNearest ((2 * a / d + 1) / 2 : ℕ) a d := by
  rw [isNearest_iff (by exact_mod_cast hd)]
  have hlo : 2 * a / d * d ≤ 2 * a := Nat.div_mul_le_self ..
  have hhi : 2 * a < (2 * a / d + 1) * d := Nat.lt_mul_of_div_lt (Nat.lt_succ_self _) hd
  generalize 2 * a / d = q at *
  have hf : 2 * ((q + 1) / 2) * d ≤ (q + 1) * d := Nat.mul_le_mul_right d (Nat.mul_div_le ..)
  have hf' : q * d ≤ 2 * ((q + 1) / 2) * d := Nat.mul_le_mul_right d (by omega)
  generalize (q + 1) / 2 = f at *
  rw [add_mul, one_mul] at hf hhi
  rw [mul_assoc] at hf hf'
  have hcast : (f : ℤ) * (d : ℤ) = ((f * d : ℕ) : ℤ) := by push_cast; ring
  rw [hcast]
  rcases abs_cases (((f * d : ℕ) : ℤ) - (a : ℤ)) with ⟨h, -⟩ | ⟨h, -⟩ <;> omega

/-- In fractions of a field. -/
theorem isNearest_iff_div {s : ℤ} (hd : 0 < d) (hs : 0 < s) : IsNearest n (s * a) d ↔
    ∀ m : ℤ, |(n / s : ℚ) - a / d| ≤ |(m / s : ℚ) - a / d| := by
  have hd' : (0 : ℚ) < d := by exact_mod_cast hd
  have hs' : (0 : ℚ) < s := by exact_mod_cast hs
  have hfactor : ∀ x : ℤ, |(x / s : ℚ) - a / d| = (|x * d - s * a| : ℤ) / (s * d : ℚ) := fun x => by
    rw [div_sub_div _ _ hs'.ne' hd'.ne', abs_div, abs_of_pos (mul_pos hs' hd')]
    push_cast
    rfl
  refine forall_congr' fun m => ?_
  rw [hfactor, hfactor, div_le_div_iff_of_pos_right (mul_pos hs' hd'), Int.cast_le]

end Lib
