/-
  Gracemont drivers — the baud rate of the PL011 (`drivers/uart/uart.c`, ARM64 port).

  The clock is divided by 16 times the baud rate: `UART_IBRD` has the integer part,
  `UART_FBRD` the fraction in units of 1/64, six bits wide.

  * `uartSetBaudrate`: what is programmed;
  * `uart_baudrate_iff`: it is in range, and the nearest divisor there is, except where
    the fraction rounds up to a whole, or its product with 8 wraps.
-/
import Mathlib.Data.BitVec
import Gracemont.Lib.Nearest

namespace Gracemont

/-- The divisor registers. -/
structure BaudDivisors where
  ibrd : BitVec 32
  fbrd : BitVec 32
  deriving DecidableEq, Repr

/-- `uart_set_baudrate`: what it writes to `UART_IBRD` and `UART_FBRD`. -/
def uartSetBaudrate (clock baud : BitVec 32) : BaudDivisors :=
  let divider := clock / (16 * baud)
  let remainder := clock % (16 * baud)
  let fraction := (8 * remainder / baud + 1) / 2
  ⟨divider, fraction⟩

/-- The fraction fits its six bits, and no other divisor in units of 1/64 is nearer to
    `clock / (16 * baud)`. -/
def BaudExact (clock baud : BitVec 32) : Prop :=
  let r := uartSetBaudrate clock baud
  r.fbrd.toNat ≤ 63 ∧ ∀ m : ℤ,
    |((r.ibrd.toNat : ℚ) + r.fbrd.toNat / 64) - clock.toNat / (16 * baud.toNat)| ≤
      |(m / 64 : ℚ) - clock.toNat / (16 * baud.toNat)|

variable {clock baud : BitVec 32}

/-- The registers as numbers; only the product with 8 can wrap. -/
theorem uartSetBaudrate_toNat (hpos : 0 < baud.toNat) (hle : 16 * baud.toNat ≤ clock.toNat) :
    (uartSetBaudrate clock baud).ibrd.toNat = clock.toNat / (16 * baud.toNat) ∧
    (uartSetBaudrate clock baud).fbrd.toNat =
      (8 * (clock.toNat % (16 * baud.toNat)) % 2 ^ 32 / baud.toNat + 1) / 2 := by
  have hden : (16 * baud).toNat = 16 * baud.toNat := by
    rw [BitVec.toNat_mul]
    exact Nat.mod_eq_of_lt (Nat.lt_of_le_of_lt hle clock.isLt)
  refine ⟨by rw [uartSetBaudrate, BitVec.toNat_udiv, hden], ?_⟩
  have hprod : (8 * (clock % (16 * baud)) / baud).toNat =
      8 * (clock.toNat % (16 * baud.toNat)) % 2 ^ 32 / baud.toNat := by
    rw [BitVec.toNat_udiv, BitVec.toNat_mul, BitVec.toNat_umod, hden]
    rfl
  -- the quotient is below 128
  have hmod : clock.toNat % (16 * baud.toNat) < 16 * baud.toNat := Nat.mod_lt _ (by omega)
  have hquot : 8 * (clock.toNat % (16 * baud.toNat)) % 2 ^ 32 / baud.toNat < 128 :=
    Nat.div_lt_of_lt_mul (by omega)
  have hsucc : (8 * (clock % (16 * baud)) / baud + 1).toNat =
      8 * (clock.toNat % (16 * baud.toNat)) % 2 ^ 32 / baud.toNat + 1 := by
    rw [BitVec.toNat_add, hprod]
    have hone : (1 : BitVec 32).toNat = 1 := rfl
    omega
  rw [uartSetBaudrate, BitVec.toNat_udiv, hsucc]
  rfl

/-- The divisor is the nearest one exactly if its fraction is that of the rest. -/
theorem nearest_fraction_iff {c b f : ℕ} (hb : 0 < b) :
    (∀ m : ℤ, |(((c / (16 * b) : ℕ) : ℚ) + f / 64) - c / (16 * b)| ≤
      |(m / 64 : ℚ) - c / (16 * b)|) ↔ Lib.IsNearest f (4 * (c % (16 * b)) : ℕ) b := by
  have hsum : c = 16 * b * (c / (16 * b)) + c % (16 * b) := (Nat.div_add_mod ..).symm
  set q := c / (16 * b)
  set r := c % (16 * b)
  have hdiv := Lib.isNearest_iff_div (n := f + 64 * q) (a := c) (d := 16 * b) (s := 64)
    (by omega) (by omega)
  have hscale : (64 * c : ℤ) = 16 * ((4 * r : ℕ) + 64 * q * b) := by
    rw [hsum]
    push_cast
    ring
  rw [hscale, Lib.isNearest_mul (by omega), Lib.isNearest_add_mul] at hdiv
  rw [hdiv]
  refine forall_congr' fun m => ?_
  have hnum : ((f + 64 * q : ℤ) / (64 : ℤ) : ℚ) = q + f / 64 := by
    push_cast
    ring
  push_cast at hnum ⊢
  rw [hnum]

/-- **The baud rate**, for every clock and every rate that it can be divided down to. -/
theorem uart_baudrate_iff (clock baud : BitVec 32) (hpos : 1 ≤ baud.toNat)
    (hle : baud.toNat ≤ clock.toNat / 16) : BaudExact clock baud ↔
      8 * (clock.toNat % (16 * baud.toNat)) < 2 ^ 32 ∧
        8 * (clock.toNat % (16 * baud.toNat)) < 127 * baud.toNat := by
  have hclock := clock.isLt
  have hdiv : 16 * baud.toNat ≤ clock.toNat := by omega
  obtain ⟨hibrd, hfbrd⟩ := uartSetBaudrate_toNat hpos hdiv
  unfold BaudExact
  simp only [hibrd, hfbrd]
  rw [nearest_fraction_iff hpos]
  generalize clock.toNat % (16 * baud.toNat) = r
  set b := baud.toNat
  by_cases hwrap : 8 * r < 2 ^ 32
  · -- the fraction is rounded half up
    have hhalf : 8 * r % 2 ^ 32 = 2 * (4 * r) := by omega
    have hnear := Lib.isNearest_roundHalfUp (a := 4 * r) hpos
    rw [hhalf, and_iff_left hnear, and_iff_right hwrap]
    have hlt : 2 * (4 * r) / b < 127 ↔ 2 * (4 * r) < 127 * b := Nat.div_lt_iff_lt_mul hpos
    omega
  · -- what is lost is more than a unit
    refine iff_of_false (fun h => ?_) fun h => hwrap h.1
    have hnear := (Lib.isNearest_iff (by omega)).1 h.2
    have hlow : 8 * r % 2 ^ 32 / b * b ≤ 8 * r % 2 ^ 32 := Nat.div_mul_le_self ..
    generalize 8 * r % 2 ^ 32 / b = q at *
    have hf : 2 * ((q + 1) / 2) * b ≤ (q + 1) * b := Nat.mul_le_mul_right b (Nat.mul_div_le ..)
    generalize (q + 1) / 2 = f at *
    rw [add_mul, one_mul] at hf
    rw [mul_assoc] at hf
    have hcast : (f : ℤ) * (b : ℤ) = ((f * b : ℕ) : ℤ) := by push_cast; ring
    rw [hcast] at hnear
    have hneg := neg_le_abs (((f * b : ℕ) : ℤ) - ((4 * r : ℕ) : ℤ))
    omega

/-- 115200 baud from the clock of 24 MHz. -/
theorem uart_baudrate_24MHz : BaudExact 24000000 115200 :=
  (uart_baudrate_iff 24000000 115200 (by decide) (by decide)).2 (by decide)

/-- 307 baud from the same clock: the fraction of 0.993 becomes 64/64. -/
theorem uartSetBaudrate_overflows : uartSetBaudrate 24000000 307 = ⟨4885, 64⟩ ∧
    ¬ BaudExact 24000000 307 :=
  ⟨by decide, fun h => absurd h.1 (by decide)⟩

end Gracemont
