/-
  Integers in floating point.

  With a precision of `p` bits an integer is a number if it has at most `p` bits in
  front of a power of two (`IsFloat`).  `roundFloat` rounds the others to nearest, ties
  to even: the result is a number, and no number is nearer (`roundFloat_nearest`); so a
  number is left alone, and a sum is as near as its terms allow.
-/
import Mathlib.Algebra.Order.Ring.Int
import Mathlib.Tactic.Linarith
import Mathlib.Tactic.Ring
import Gracemont.Lib.Nearest

namespace Lib

/-- An integer of at most `p` bits times a power of two. -/
def IsFloat (p : ℕ) (z : ℤ) : Prop := ∃ (m : ℤ) (e : ℕ), |m| < 2 ^ p ∧ z = m * 2 ^ e

/-- `n / d` rounded to nearest, ties to even. -/
def roundHalfEven (n d : ℕ) : ℕ :=
  if 2 * (n % d) < d ∨ 2 * (n % d) = d ∧ n / d % 2 = 0 then n / d else n / d + 1

/-- The bits of `n` that are too many. -/
def excessBits (p n : ℕ) : ℕ := n.log2 + 1 - p

/-- A natural number rounded to `p` bits. -/
def roundFloatNat (p n : ℕ) : ℕ := roundHalfEven n (2 ^ excessBits p n) * 2 ^ excessBits p n

/-- An integer rounded to `p` bits. -/
def roundFloat (p : ℕ) (z : ℤ) : ℤ :=
  if z < 0 then -(roundFloatNat p z.natAbs : ℤ) else roundFloatNat p z.natAbs

variable {p n : ℕ} {z d : ℤ}

theorem roundHalfEven_nearest {d : ℕ} (hd : 0 < d) : IsNearest (roundHalfEven n d : ℕ) n d := by
  rw [isNearest_iff (by exact_mod_cast hd)]
  have hdiv := Nat.div_add_mod n d
  have hmod := Nat.mod_lt n hd
  have hcast : ∀ q : ℕ, (q : ℤ) * (d : ℤ) = ((q * d : ℕ) : ℤ) := fun q => by push_cast; rfl
  unfold roundHalfEven
  split_ifs with h
  · rw [hcast, Nat.mul_comm]
    rcases abs_cases (((d * (n / d) : ℕ) : ℤ) - (n : ℤ)) with ⟨habs, -⟩ | ⟨habs, -⟩ <;> omega
  · rw [hcast, Nat.add_mul, Nat.one_mul, Nat.mul_comm]
    rcases abs_cases (((d * (n / d) + d : ℕ) : ℤ) - (n : ℤ)) with ⟨habs, -⟩ | ⟨habs, -⟩ <;> omega

theorem roundHalfEven_one (n : ℕ) : roundHalfEven n 1 = n := by
  rw [roundHalfEven, if_pos, Nat.div_one]
  left
  rw [Nat.mod_one]
  decide

theorem roundHalfEven_le (n d : ℕ) : roundHalfEven n d ≤ n / d + 1 := by
  unfold roundHalfEven
  split_ifs <;> omega

theorem lt_two_pow_excessBits (p n : ℕ) : n < 2 ^ p * 2 ^ excessBits p n := by
  rw [← Nat.pow_add]
  refine Nat.lt_of_lt_of_le Nat.lt_log2_self (Nat.pow_le_pow_right (by decide) ?_)
  unfold excessBits
  omega

/-- A number with excess bits uses all of its precision. -/
theorem two_pow_excessBits_le (hp : 0 < p) (h : excessBits p n ≠ 0) :
    2 ^ p * 2 ^ excessBits p n ≤ 2 * n := by
  unfold excessBits at h ⊢
  have hn : n ≠ 0 := by
    rintro rfl
    rw [Nat.log2_zero] at h
    omega
  have hlog := Nat.log2_self_le hn
  have hexp : p + (n.log2 + 1 - p) = n.log2 + 1 := by omega
  rw [← Nat.pow_add, hexp, Nat.pow_succ]
  omega

theorem IsFloat.neg (h : IsFloat p z) : IsFloat p (-z) := by
  obtain ⟨m, e, hm, rfl⟩ := h
  exact ⟨-m, e, by rwa [abs_neg], (neg_mul ..).symm⟩

/-- Up to 2^p every integer is a number. -/
theorem isFloat_of_abs_le (hp : 0 < p) (h : |z| ≤ 2 ^ p) : IsFloat p z := by
  rcases h.lt_or_eq with hlt | heq
  · exact ⟨z, 0, hlt, by rw [pow_zero, mul_one]⟩
  · have hone : (1 : ℤ) < 2 ^ p := one_lt_pow₀ (by decide) (by omega)
    rcases abs_cases z with ⟨habs, -⟩ | ⟨habs, -⟩
    · exact ⟨1, p, by rwa [abs_one], by rw [one_mul, ← heq, habs]⟩
    · exact ⟨-1, p, by rwa [abs_neg, abs_one], by rw [neg_one_mul, ← heq, habs, neg_neg]⟩

theorem roundFloatNat_isFloat (hp : 0 < p) (n : ℕ) : IsFloat p (roundFloatNat p n) := by
  have hdiv : n / 2 ^ excessBits p n < 2 ^ p :=
    Nat.div_lt_of_lt_mul (by rw [Nat.mul_comm]; exact lt_two_pow_excessBits p n)
  have hle : roundHalfEven n (2 ^ excessBits p n) ≤ 2 ^ p := (roundHalfEven_le ..).trans hdiv
  obtain ⟨m, e, hm, hfloat⟩ := isFloat_of_abs_le (z := roundHalfEven n (2 ^ excessBits p n)) hp
    (by rw [Nat.abs_cast]; exact_mod_cast hle)
  refine ⟨m, e + excessBits p n, hm, ?_⟩
  rw [roundFloatNat]
  push_cast
  rw [hfloat, pow_add, mul_assoc]

/-- **No number is nearer.** -/
theorem roundFloatNat_nearest (hp : 0 < p) (hd : IsFloat p d) :
    |(roundFloatNat p n : ℤ) - n| ≤ |d - n| := by
  by_cases hex : excessBits p n = 0
  · rw [roundFloatNat, hex, pow_zero, roundHalfEven_one, Nat.mul_one, sub_self, abs_zero]
    exact abs_nonneg _
  · have hnear := roundHalfEven_nearest (n := n) (d := 2 ^ excessBits p n) (Nat.two_pow_pos _)
    have hfull := two_pow_excessBits_le hp hex
    obtain ⟨q, rfl⟩ : ∃ q, p = q + 1 := ⟨p - 1, by omega⟩
    rw [roundFloatNat]
    generalize roundHalfEven n (2 ^ excessBits (q + 1) n) = r at *
    generalize excessBits (q + 1) n = k at *
    have hhalf : (2 ^ q * 2 ^ k : ℤ) ≤ n := by
      rw [Nat.pow_succ] at hfull
      have hle : 2 ^ q * 2 ^ k ≤ n := by
        linarith
      exact_mod_cast hle
    push_cast at hnear ⊢
    by_cases hlt : d < 2 ^ q * 2 ^ k
    · -- the least number with `q + 1` bits in front of `2 ^ k` is in between
      refine (hnear (2 ^ q)).trans ?_
      rw [abs_sub_comm, abs_of_nonneg (by linarith), abs_sub_comm, abs_of_nonneg (by linarith)]
      linarith
    · -- a number from there on is a multiple of `2 ^ k`
      obtain ⟨m, e, hm, rfl⟩ := hd
      have hke : k ≤ e := by
        by_contra hek
        obtain ⟨j, rfl⟩ : ∃ j, k = e + j + 1 := ⟨k - e - 1, by omega⟩
        refine hlt ?_
        have hmlt : m < 2 ^ (q + 1) := (le_abs_self m).trans_lt hm
        have hj : (1 : ℤ) ≤ 2 ^ j := one_le_pow₀ (by decide)
        calc m * 2 ^ e < 2 ^ (q + 1) * 2 ^ e := mul_lt_mul_of_pos_right hmlt (by positivity)
          _ ≤ 2 ^ (q + 1) * 2 ^ e * 2 ^ j := le_mul_of_one_le_right (by positivity) hj
          _ = 2 ^ q * 2 ^ (e + j + 1) := by ring
      obtain ⟨j, rfl⟩ : ∃ j, e = j + k := ⟨e - k, by omega⟩
      have hmul := hnear (m * 2 ^ j)
      rwa [mul_assoc, ← pow_add] at hmul

theorem roundFloatNat_eq_self (hp : 0 < p) (h : n < 2 ^ p) : roundFloatNat p n = n := by
  have hex : excessBits p n = 0 := by
    unfold excessBits
    rcases Nat.eq_zero_or_pos n with rfl | hn
    · rw [Nat.log2_zero]
      omega
    · have hlog := (Nat.log2_lt hn.ne').2 h
      omega
  rw [roundFloatNat, hex, pow_zero, roundHalfEven_one, Nat.mul_one]

/-- Numbers bound what is rounded. -/
theorem le_roundFloatNat {d : ℕ} (hp : 0 < p) (hd : IsFloat p d) (h : d ≤ n) :
    d ≤ roundFloatNat p n := by
  have hnear := roundFloatNat_nearest (n := n) hp hd
  rw [abs_sub_comm (d : ℤ), abs_of_nonneg (show (0 : ℤ) ≤ n - d by omega), abs_le] at hnear
  omega

theorem roundFloat_isFloat (hp : 0 < p) (z : ℤ) : IsFloat p (roundFloat p z) := by
  unfold roundFloat
  split_ifs
  · exact (roundFloatNat_isFloat hp _).neg
  · exact roundFloatNat_isFloat hp _

/-- **Rounding to nearest.** -/
theorem roundFloat_nearest (hp : 0 < p) (z : ℤ) (hd : IsFloat p d) :
    |roundFloat p z - z| ≤ |d - z| := by
  unfold roundFloat
  split_ifs with hneg
  · have hz : z = -(z.natAbs : ℤ) := by omega
    have hnear := roundFloatNat_nearest (n := z.natAbs) hp hd.neg
    have hflip : ∀ x : ℤ, |-x - z| = |x - z.natAbs| := fun x => by
      rw [← abs_neg]
      congr 1
      omega
    have hd' : |-d - z.natAbs| = |d - z| := by rw [← hflip, neg_neg]
    rw [hflip, ← hd']
    exact hnear
  · have hz : z = z.natAbs := by omega
    have hnear := roundFloatNat_nearest (n := z.natAbs) hp hd
    rwa [← hz] at hnear

/-- A number is left alone. -/
theorem roundFloat_eq_self_iff (hp : 0 < p) : roundFloat p z = z ↔ IsFloat p z := by
  constructor
  · intro h
    rw [← h]
    exact roundFloat_isFloat hp z
  · intro h
    have hnear := roundFloat_nearest hp z h
    rw [sub_self, abs_zero] at hnear
    exact sub_eq_zero.1 (abs_nonpos_iff.1 hnear)

end Lib
