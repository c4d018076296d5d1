/-
  One's complement sums.

  The sum of `w`-bit words is kept in a wider number, and the digits above the
  lowest `w` bits are added back to them (`endAround`).  This keeps the sum
  modulo `2 ^ w - 1` and does not turn a positive sum into zero, which determines
  a sum that is folded into `w` bits (`folded_unique`); so it has all bits set
  exactly if it was a positive multiple of `2 ^ w - 1` (`allOnes_iff`).

  `onesSum` is the one's complement sum itself, with the carry of each addition.
-/
import Mathlib.Algebra.GroupWithZero.Nat
import Mathlib.Data.Nat.ModEq

namespace Lib

variable {w r s : ℕ}

/-- The end-around carry: the digits above the lowest `w` bits, added to them. -/
def endAround (w s : ℕ) : ℕ := s % 2 ^ w + s / 2 ^ w

theorem endAround_modEq (w s : ℕ) : endAround w s ≡ s [MOD 2 ^ w - 1] := by
  have hpos : 0 < 2 ^ w := Nat.two_pow_pos w
  have hone : 2 ^ w ≡ 1 [MOD 2 ^ w - 1] := by
    have hsub : 2 ^ w = 2 ^ w - 1 + 1 := by omega
    calc 2 ^ w = 2 ^ w - 1 + 1 := hsub
      _ ≡ 1 [MOD 2 ^ w - 1] := by simp [Nat.ModEq]
  calc endAround w s = s % 2 ^ w + 1 * (s / 2 ^ w) := by rw [endAround, Nat.one_mul]
    _ ≡ s % 2 ^ w + 2 ^ w * (s / 2 ^ w) [MOD 2 ^ w - 1] :=
      (Nat.ModEq.refl _).add (hone.symm.mul_right _)
    _ = s := Nat.mod_add_div s (2 ^ w)

theorem endAround_pos : 0 < endAround w s ↔ 0 < s := by
  have hs := Nat.mod_add_div s (2 ^ w)
  unfold endAround
  constructor
  · intro h
    by_contra h0
    obtain rfl : s = 0 := by omega
    simp at h
  · intro h
    by_contra h0
    obtain ⟨hm, hd⟩ := Nat.add_eq_zero_iff.1 (Nat.eq_zero_of_not_pos h0)
    rw [hm, hd] at hs
    omega

theorem endAround_eq_self (h : s < 2 ^ w) : endAround w s = s := by
  rw [endAround, Nat.mod_eq_of_lt h, Nat.div_eq_of_lt h, Nat.add_zero]

/-- **All ones.**  The folded sum `r` of `s` is all ones exactly if `s` is a
    positive multiple of `2 ^ w - 1`. -/
theorem allOnes_iff (hw : 0 < w) (hr : r < 2 ^ w) (hrs : r ≡ s [MOD 2 ^ w - 1])
    (hpos : 0 < r ↔ 0 < s) : r = 2 ^ w - 1 ↔ 0 < s ∧ 2 ^ w - 1 ∣ s := by
  have h2 : 2 ≤ 2 ^ w := Nat.le_self_pow (by omega) 2
  rw [← hpos, ← Nat.modEq_zero_iff_dvd]
  constructor
  · rintro rfl
    exact ⟨by omega, hrs.symm.trans (by simp [Nat.ModEq])⟩
  · rintro ⟨h0, hdvd⟩
    obtain ⟨k, rfl⟩ := Nat.modEq_zero_iff_dvd.1 (hrs.trans hdvd)
    have hk : k = 1 := by
      have hk0 : k ≠ 0 := by
        rintro rfl
        simp at h0
      by_contra hne
      have hle : (2 ^ w - 1) * 2 ≤ (2 ^ w - 1) * k := Nat.mul_le_mul_left _ (by omega)
      omega
    rw [hk, Nat.mul_one]

/-- **A folded sum is determined** modulo `2 ^ w - 1` and by its being zero or not. -/
theorem folded_unique {r r' : ℕ} (hr : r < 2 ^ w) (hr' : r' < 2 ^ w)
    (h : r ≡ r' [MOD 2 ^ w - 1]) (hpos : 0 < r ↔ 0 < r') : r = r' := by
  wlog hle : r ≤ r' generalizing r r'
  · exact (this hr' hr h.symm hpos.symm (Nat.le_of_not_le hle)).symm
  obtain ⟨k, hk⟩ := (Nat.modEq_iff_dvd' hle).1 h
  rcases k with _ | _ | k
  · omega
  · omega
  · have hk2 : (2 ^ w - 1) * 2 ≤ (2 ^ w - 1) * (k + 1 + 1) := Nat.mul_le_mul_left _ (by omega)
    omega

/-! ## One's complement addition -/

/-- The one's complement sum of words. -/
def onesSum (w : ℕ) (l : List ℕ) : ℕ := l.foldl (fun s v => endAround w (s + v)) 0

theorem endAround_add_lt {v : ℕ} (hs : s < 2 ^ w) (hv : v < 2 ^ w) :
    endAround w (s + v) < 2 ^ w := by
  unfold endAround
  by_cases hlt : s + v < 2 ^ w
  · rw [Nat.mod_eq_of_lt hlt, Nat.div_eq_of_lt hlt]
    exact hlt
  · have hdiv : (s + v) / 2 ^ w = 1 := Nat.div_eq_of_lt_le (by omega) (by omega)
    have hmod : (s + v) % 2 ^ w = s + v - 2 ^ w := by
      rw [Nat.mod_eq_sub_mod (by omega), Nat.mod_eq_of_lt (by omega)]
    rw [hdiv, hmod]
    omega

/-- **The one's complement sum** fits into a word, and is the sum up to multiples of
    `2 ^ w - 1`, zero only if all words are. -/
theorem onesSum_spec {l : List ℕ} (hl : ∀ v ∈ l, v < 2 ^ w) :
    onesSum w l < 2 ^ w ∧ onesSum w l ≡ l.sum [MOD 2 ^ w - 1] ∧
      (0 < onesSum w l ↔ 0 < l.sum) := by
  have hfold : ∀ s < 2 ^ w, l.foldl (fun s v => endAround w (s + v)) s < 2 ^ w ∧
      l.foldl (fun s v => endAround w (s + v)) s ≡ s + l.sum [MOD 2 ^ w - 1] ∧
      (0 < l.foldl (fun s v => endAround w (s + v)) s ↔ 0 < s + l.sum) := by
    induction l with
    | nil =>
      intro s hs
      exact ⟨hs, Nat.ModEq.refl _, Iff.rfl⟩
    | cons v l ih =>
      intro s hs
      have hv : v < 2 ^ w := hl v List.mem_cons_self
      obtain ⟨hlt, hmod, hpos⟩ :=
        ih (fun u hu => hl u (List.mem_cons_of_mem v hu)) _ (endAround_add_lt hs hv)
      rw [List.foldl_cons, List.sum_cons, ← Nat.add_assoc]
      refine ⟨hlt, hmod.trans ((endAround_modEq w (s + v)).add_right _), hpos.trans ?_⟩
      have hcarry := endAround_pos (w := w) (s := s + v)
      omega
  have h := hfold 0 (Nat.two_pow_pos w)
  rw [Nat.zero_add] at h
  exact h

end Lib
