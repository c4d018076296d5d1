/-
  Cyclic redundancy checks, the lowest bit first.

  The register holds a remainder by the generator `poly`, both with their bits
  in reverse order, and each bit of a message moves it down one place.

  * `bitStep`, `bitSteps`, `byteStep`, `remainder`: the check bit by bit;
  * `bitSteps_xor`, `bitSteps_low`: the steps are linear, and do nothing but
    move where the low bits are clear;
  * `tableStep_eq_byteStep`: a whole byte from a table of 256 remainders;
  * `remainder_bytesOf`: the bytes of the register itself clear it;
  * `remainder_set_ne`: another byte in one place gives another remainder;
  * `remainder_xor`, `feedBits_burst`, `feedBits_odd`: an error adds the remainder of
    its pattern, which is not zero for a burst that fits the register, nor for an odd
    number of bits;
  * `bitStep_setWidth`: the same step in a wider register;
  * `crc32`: the check of Ethernet and of archives.
-/
import Mathlib.Data.Nat.Notation

namespace Lib

namespace Crc
variable {w : ℕ} (poly : BitVec w)

/-! ## Bit by bit -/

/-- One place down, less the generator if a one falls out. -/
def bitStep (x : BitVec w) : BitVec w :=
  if x.getLsbD 0 then x >>> 1 ^^^ poly else x >>> 1

/-- `n` places down. -/
def bitSteps : ℕ → BitVec w → BitVec w
  | 0, x => x
  | n + 1, x => bitSteps n (bitStep poly x)

/-- The remainder with one more byte. -/
def byteStep (x : BitVec w) (b : BitVec 8) : BitVec w := bitSteps poly 8 (x ^^^ b.setWidth w)

/-- The remainder with the bytes of a message, from `x` on. -/
def remainder (x : BitVec w) (l : List (BitVec 8)) : BitVec w := l.foldl (byteStep poly) x

variable {poly}

/-- What falls out of a sum is the sum of what falls out. -/
theorem bitStep_xor (x y : BitVec w) :
    bitStep poly (x ^^^ y) = bitStep poly x ^^^ bitStep poly y := by
  have hcancel : ∀ a b : BitVec w, a ^^^ poly ^^^ (b ^^^ poly) = a ^^^ b := fun a b => by
    rw [BitVec.xor_assoc, ← BitVec.xor_assoc poly, BitVec.xor_comm poly, BitVec.xor_assoc b,
      BitVec.xor_self, BitVec.xor_zero]
  simp only [bitStep, BitVec.getLsbD_xor, BitVec.ushiftRight_xor_distrib]
  cases hx : x.getLsbD 0 <;> cases hy : y.getLsbD 0
  · rfl
  · exact BitVec.xor_assoc ..
  · change x >>> 1 ^^^ y >>> 1 ^^^ poly = x >>> 1 ^^^ poly ^^^ y >>> 1
    rw [BitVec.xor_assoc, BitVec.xor_comm _ poly, BitVec.xor_assoc]
  · exact (hcancel ..).symm

theorem bitSteps_xor (n : ℕ) (x y : BitVec w) :
    bitSteps poly n (x ^^^ y) = bitSteps poly n x ^^^ bitSteps poly n y := by
  induction n generalizing x y with
  | zero => rfl
  | succ n ih => rw [bitSteps, bitStep_xor, ih]; rfl

/-- Where the low bits are clear nothing falls out. -/
theorem bitSteps_low {n : ℕ} {x : BitVec w} (hx : ∀ i < n, x.getLsbD i = false) :
    bitSteps poly n x = x >>> n := by
  induction n generalizing x with
  | zero => simp [bitSteps]
  | succ n ih =>
    have hstep : bitStep poly x = x >>> 1 := by
      simp [bitStep, hx 0 n.succ_pos]
    rw [bitSteps, hstep, ih fun i hi => ?_, ← BitVec.shiftRight_add, Nat.add_comm]
    rw [BitVec.getLsbD_ushiftRight]
    exact hx _ (by omega)

/-! ## Byte by byte -/

/-- One byte with a table of remainders. -/
def tableStep (table : BitVec 8 → BitVec w) (x : BitVec w) (b : BitVec 8) : BitVec w :=
  x >>> 8 ^^^ table ((x ^^^ b.setWidth w).setWidth 8)

/-- The low byte of a register, and the bits above it. -/
theorem low_xor_high (x : BitVec w) :
    ∃ y : BitVec w, x = (x.setWidth 8).setWidth w ^^^ y ∧ y >>> 8 = x >>> 8 ∧
      ∀ i < 8, y.getLsbD i = false := by
  have hbit : ∀ i, (x ^^^ (x.setWidth 8).setWidth w).getLsbD i =
      (x.getLsbD i && decide (8 ≤ i)) := fun i => by
    simp only [BitVec.getLsbD_xor, BitVec.getLsbD_setWidth]
    by_cases hw : i < w
    · by_cases hi : i < 8
      · simp [hw, hi, show ¬8 ≤ i by omega]
      · simp [hi, show 8 ≤ i by omega]
    · simp [BitVec.getLsbD_of_ge x i (by omega)]
  refine ⟨x ^^^ (x.setWidth 8).setWidth w, ?_, BitVec.eq_of_getLsbD_eq fun i _ => ?_, ?_⟩
  · rw [BitVec.xor_comm x, ← BitVec.xor_assoc, BitVec.xor_self, BitVec.zero_xor]
  · rw [BitVec.getLsbD_ushiftRight, BitVec.getLsbD_ushiftRight, hbit]
    simp
  · intro i hi
    rw [hbit, decide_eq_false (by omega), Bool.and_false]

/-- A table of the remainders of the single bytes does a byte at a time. -/
theorem tableStep_eq_byteStep {table : BitVec 8 → BitVec w}
    (ht : ∀ i, table i = bitSteps poly 8 (i.setWidth w)) (x : BitVec w) (b : BitVec 8) :
    tableStep table x b = byteStep poly x b := by
  obtain ⟨y, hy, hhigh, hlow⟩ := low_xor_high (x ^^^ b.setWidth w)
  have hb : (x ^^^ b.setWidth w) >>> 8 = x >>> 8 := by
    have : b.setWidth w >>> 8 = 0#w := by
      refine BitVec.eq_of_getLsbD_eq fun i _ => ?_
      rw [BitVec.getLsbD_ushiftRight, BitVec.getLsbD_setWidth,
        BitVec.getLsbD_of_ge b _ (by omega)]
      simp
    rw [BitVec.ushiftRight_xor_distrib, this, BitVec.xor_zero]
  rw [byteStep, hy, bitSteps_xor, ← ht, bitSteps_low hlow, hhigh, hb, tableStep,
    BitVec.xor_comm]

/-! ## The register's own bytes -/

/-- The `n` low bytes, the lowest first. -/
def bytesOf : ℕ → BitVec w → List (BitVec 8)
  | 0, _ => []
  | n + 1, x => x.setWidth 8 :: bytesOf n (x >>> 8)

/-- Its low byte moves a register down by eight places. -/
theorem byteStep_low (x : BitVec w) : byteStep poly x (x.setWidth 8) = x >>> 8 := by
  obtain ⟨y, hy, hhigh, hlow⟩ := low_xor_high x
  have hxor : x ^^^ (x.setWidth 8).setWidth w = y :=
    (BitVec.xor_left_inj ((x.setWidth 8).setWidth w)).1 <| by
      rw [BitVec.xor_assoc, BitVec.xor_self, BitVec.xor_zero, BitVec.xor_comm y]
      exact hy
  rw [byteStep, hxor, bitSteps_low hlow, hhigh]

/-- The residue: what the bytes of a register leave of it. -/
theorem remainder_bytesOf (n : ℕ) (x : BitVec w) :
    remainder poly x (bytesOf n x) = x >>> (8 * n) := by
  induction n generalizing x with
  | zero => simp [bytesOf, remainder]
  | succ n ih =>
    have hcons : remainder poly x (bytesOf (n + 1) x) =
        remainder poly (byteStep poly x (x.setWidth 8)) (bytesOf n (x >>> 8)) := rfl
    rw [hcons, byteStep_low, ih, ← BitVec.shiftRight_add]
    congr 1
    omega

theorem remainder_append (x : BitVec w) (l m : List (BitVec 8)) :
    remainder poly x (l ++ m) = remainder poly (remainder poly x l) m := List.foldl_append

/-! ## Errors

  The top bit of the generator tells whether a one fell out, so that no step
  forgets anything. -/

theorem bitStep_eq_zero (hp : poly.msb = true) {x : BitVec w} (h : bitStep poly x = 0#w) :
    x = 0#w := by
  have hmsb : (x >>> 1).msb = false := by
    rw [BitVec.msb_ushiftRight]
    rfl
  cases h0 : x.getLsbD 0 with
  | true =>
    have : x >>> 1 = poly := by
      rw [bitStep, if_pos h0] at h
      exact BitVec.xor_eq_zero_iff.1 h
    rw [this, hp] at hmsb
    exact absurd hmsb (by decide)
  | false =>
    have hshift : x >>> 1 = 0#w := by rwa [bitStep, h0, if_neg (by decide)] at h
    refine BitVec.eq_of_getLsbD_eq fun i _ => ?_
    rw [BitVec.getLsbD_zero]
    cases i with
    | zero => exact h0
    | succ i =>
      have := congrArg (fun y => BitVec.getLsbD y i) hshift
      simpa [BitVec.getLsbD_ushiftRight, Nat.add_comm] using this

theorem bitSteps_eq_zero (hp : poly.msb = true) {n : ℕ} {x : BitVec w}
    (h : bitSteps poly n x = 0#w) : x = 0#w := by
  induction n generalizing x with
  | zero => exact h
  | succ n ih => exact bitStep_eq_zero hp (ih h)

/-- Different registers stay different. -/
theorem bitSteps_inj (hp : poly.msb = true) {n : ℕ} {x y : BitVec w}
    (h : bitSteps poly n x = bitSteps poly n y) : x = y := by
  refine BitVec.xor_eq_zero_iff.1 (bitSteps_eq_zero hp (n := n) ?_)
  rw [bitSteps_xor, h, BitVec.xor_self]

theorem byteStep_inj (hp : poly.msb = true) {x y : BitVec w} {b : BitVec 8}
    (h : byteStep poly x b = byteStep poly y b) : x = y :=
  (BitVec.xor_left_inj _).1 (bitSteps_inj hp h)

/-- A byte that fits the register can be told from every other one. -/
theorem byteStep_byte_inj (hp : poly.msb = true) (hw : 8 ≤ w) {x : BitVec w} {b c : BitVec 8}
    (h : byteStep poly x b = byteStep poly x c) : b = c := by
  have hwide : b.setWidth w = c.setWidth w := (BitVec.xor_right_inj _).1 (bitSteps_inj hp h)
  have hback := congrArg (BitVec.setWidth 8) hwide
  rwa [BitVec.setWidth_setWidth (by omega), BitVec.setWidth_setWidth (by omega),
    BitVec.setWidth_eq, BitVec.setWidth_eq] at hback

theorem remainder_inj (hp : poly.msb = true) {l : List (BitVec 8)} {x y : BitVec w}
    (h : remainder poly x l = remainder poly y l) : x = y := by
  induction l generalizing x y with
  | nil => exact h
  | cons b l ih => exact byteStep_inj hp (ih h)

/-- An error in one byte is seen, wherever it is in the message. -/
theorem remainder_set_ne (hp : poly.msb = true) (hw : 8 ≤ w) (x : BitVec w)
    {l : List (BitVec 8)} {i : ℕ} (hi : i < l.length) {b : BitVec 8} (hb : b ≠ l[i]) :
    remainder poly x (l.set i b) ≠ remainder poly x l := by
  have hsplit : remainder poly x l = remainder poly x (l.take i ++ l[i] :: l.drop (i + 1)) := by
    rw [List.getElem_cons_drop, List.take_append_drop]
  intro h
  rw [List.set_eq_take_append_cons_drop, if_pos hi, hsplit, remainder_append,
    remainder_append] at h
  exact hb (byteStep_byte_inj hp hw (remainder_inj hp h))

/-! ## Error patterns

  What an error does to a remainder is the remainder of its pattern, which is taken
  bit by bit, in the order in which a serial line sends the bits of a byte. -/

/-- The remainder with the bits of a message, from `x` on. -/
def feedBits (poly x : BitVec w) (l : List Bool) : BitVec w :=
  l.foldl (fun x b => bitStep poly (x ^^^ (BitVec.ofBool b).setWidth w)) x

/-- The bits of a message, the lowest of each byte first. -/
def lineBits (l : List (BitVec 8)) : List Bool :=
  l.flatMap fun b => (List.range 8).map b.getLsbD

/-- The register with these bits, from the lowest on. -/
def packBits : List Bool → BitVec w
  | [] => 0#w
  | b :: l => (BitVec.ofBool b).setWidth w ^^^ packBits l <<< 1

theorem packBits_getLsbD (l : List Bool) (i : ℕ) :
    (packBits l : BitVec w).getLsbD i = (decide (i < w) && l.getD i false) := by
  induction l generalizing i with
  | nil => simp [packBits]
  | cons b l ih =>
    rw [packBits, BitVec.getLsbD_xor, BitVec.getLsbD_shiftLeft, BitVec.getLsbD_setWidth]
    cases i with
    | zero => simp
    | succ i =>
      rw [Nat.add_sub_cancel, ih]
      by_cases hi : i + 1 < w
      · simp [hi, show i < w by omega]
      · simp [hi]

/-- As many bits as the register has may be put into it at once. -/
theorem feedBits_eq {l : List Bool} (hl : l.length ≤ w) (x : BitVec w) :
    feedBits poly x l = bitSteps poly l.length (x ^^^ packBits l) := by
  induction l generalizing x with
  | nil => simp [feedBits, packBits, bitSteps]
  | cons b l ih =>
    rw [List.length_cons] at hl
    have hback : bitStep poly ((packBits l : BitVec w) <<< 1) = packBits l := by
      have hlow : ((packBits l : BitVec w) <<< 1).getLsbD 0 = false := by
        simp
      rw [bitStep, hlow, if_neg (by decide)]
      refine BitVec.eq_of_getLsbD_eq fun i hi => ?_
      rw [BitVec.getLsbD_ushiftRight, BitVec.getLsbD_shiftLeft, packBits_getLsbD,
        packBits_getLsbD]
      by_cases hi' : 1 + i < w
      · simp [hi']
      · have hnone : l[i]? = none := List.getElem?_eq_none (by omega)
        simp [hi', hnone]
    have hstep : bitStep poly (x ^^^ packBits (b :: l)) =
        bitStep poly (x ^^^ (BitVec.ofBool b).setWidth w) ^^^ packBits l := by
      rw [packBits, ← BitVec.xor_assoc, bitStep_xor, hback]
    have hcons : feedBits poly x (b :: l) =
        feedBits poly (bitStep poly (x ^^^ (BitVec.ofBool b).setWidth w)) l := rfl
    rw [hcons, ih (by omega), List.length_cons, bitSteps, hstep]

theorem feedBits_append (x : BitVec w) (l m : List Bool) :
    feedBits poly x (l ++ m) = feedBits poly (feedBits poly x l) m := List.foldl_append

/-- Clear bits only move the register. -/
theorem feedBits_clear {l : List Bool} (hl : ∀ b ∈ l, b = false) (x : BitVec w) :
    feedBits poly x l = bitSteps poly l.length x := by
  induction l generalizing x with
  | nil => rfl
  | cons b l ih =>
    obtain rfl := hl b (List.mem_cons_self ..)
    have hcons : feedBits poly x (false :: l) = feedBits poly (bitStep poly x) l := by
      simp [feedBits]
    rw [hcons, ih fun b hb => hl b (List.mem_cons_of_mem _ hb)]
    rfl

theorem remainder_eq_feedBits (hw : 8 ≤ w) (x : BitVec w) (l : List (BitVec 8)) :
    remainder poly x l = feedBits poly x (lineBits l) := by
  induction l generalizing x with
  | nil => rfl
  | cons b l ih =>
    have hpack : packBits ((List.range 8).map b.getLsbD) = b.setWidth w := by
      refine BitVec.eq_of_getLsbD_eq fun i hi => ?_
      rw [packBits_getLsbD, BitVec.getLsbD_setWidth, List.getD_eq_getElem?_getD, List.getElem?_map]
      by_cases hi8 : i < 8
      · simp [List.getElem?_range hi8]
      · rw [List.getElem?_eq_none (by simp; omega), BitVec.getLsbD_of_ge b i (by omega)]
        rfl
    have hbyte : feedBits poly x ((List.range 8).map b.getLsbD) = byteStep poly x b := by
      rw [feedBits_eq (by simpa using hw), hpack]
      simp [byteStep]
    have hcons : lineBits (b :: l) = (List.range 8).map b.getLsbD ++ lineBits l :=
      List.flatMap_cons
    rw [hcons, feedBits_append, hbyte, ← ih]
    rfl

/-- **Linearity**: the remainders of a message and of an error add up. -/
theorem remainder_xor {l e : List (BitVec 8)} (h : l.length = e.length) (x y : BitVec w) :
    remainder poly (x ^^^ y) (List.zipWith (· ^^^ ·) l e) =
      remainder poly x l ^^^ remainder poly y e := by
  induction l generalizing e x y with
  | nil =>
    obtain rfl := List.eq_nil_of_length_eq_zero h.symm
    rfl
  | cons b l ih =>
    obtain ⟨c, e, rfl⟩ := List.exists_cons_of_length_eq_add_one h.symm
    have hstep : byteStep poly (x ^^^ y) (b ^^^ c) = byteStep poly x b ^^^ byteStep poly y c := by
      have hsum : x ^^^ y ^^^ (b ^^^ c).setWidth w =
          x ^^^ b.setWidth w ^^^ (y ^^^ c.setWidth w) := by
        rw [BitVec.setWidth_xor, BitVec.xor_assoc, BitVec.xor_assoc, ← BitVec.xor_assoc y,
          BitVec.xor_comm y, BitVec.xor_assoc (b.setWidth w)]
      rw [byteStep, hsum, bitSteps_xor, byteStep, byteStep]
    have hrest := ih (Nat.succ.inj h) (byteStep poly x b) (byteStep poly y c)
    rw [← hstep] at hrest
    exact hrest

/-- The ones of the pattern are among `w` neighbours, and there is one. -/
def Burst (w : ℕ) (l : List Bool) : Prop :=
  true ∈ l ∧ ∃ p, ∀ i, l[i]? = some true → p ≤ i ∧ i < p + w

/-- **A burst no longer than the register** leaves something. -/
theorem feedBits_burst (hp : poly.msb = true) {l : List Bool} (h : Burst w l) :
    feedBits poly 0#w l ≠ 0#w := by
  obtain ⟨hmem, p, hwithin⟩ := h
  have hsplit : l = l.take p ++ ((l.drop p).take w ++ l.drop (p + w)) := by
    rw [← List.drop_drop, List.take_append_drop, List.take_append_drop]
  have hbefore : ∀ b ∈ l.take p, b = false := by
    intro b hb
    obtain ⟨i, hi, rfl⟩ := List.mem_iff_getElem.1 hb
    rw [List.length_take] at hi
    rw [List.getElem_take]
    refine Bool.eq_false_iff.2 fun hne => ?_
    have := hwithin i (by rw [List.getElem?_eq_getElem (by omega), hne])
    omega
  have hbehind : ∀ b ∈ l.drop (p + w), b = false := by
    intro b hb
    obtain ⟨i, hi, rfl⟩ := List.mem_iff_getElem.1 hb
    rw [List.length_drop] at hi
    rw [List.getElem_drop]
    refine Bool.eq_false_iff.2 fun hne => ?_
    have := hwithin (p + w + i) (by rw [List.getElem?_eq_getElem (by omega), hne])
    omega
  have hzero : ∀ n, bitSteps poly n 0#w = 0#w := by
    intro n
    rw [bitSteps_low fun i _ => BitVec.getLsbD_zero]
    simp
  have hlen : ((l.drop p).take w).length ≤ w := by
    rw [List.length_take]
    exact Nat.min_le_left ..
  intro hfeed
  rw [hsplit, feedBits_append, feedBits_clear hbefore, hzero, feedBits_append,
    feedBits_clear hbehind] at hfeed
  have hpack := bitSteps_eq_zero hp hfeed
  rw [feedBits_eq hlen] at hpack
  have hpack := bitSteps_eq_zero hp hpack
  rw [BitVec.zero_xor] at hpack
  -- so there was no one among the neighbours either
  rw [hsplit, List.mem_append, List.mem_append] at hmem
  rcases hmem with hmem | hmem | hmem
  · exact absurd (hbefore _ hmem) (by decide)
  · obtain ⟨i, hi, hget⟩ := List.mem_iff_getElem.1 hmem
    have hbit := congrArg (fun x => BitVec.getLsbD x i) hpack
    have hiw : i < w := by omega
    simp only [packBits_getLsbD, BitVec.getLsbD_zero, hiw, decide_true, Bool.true_and,
      List.getD_eq_getElem?_getD, List.getElem?_eq_getElem hi, hget, Option.getD_some] at hbit
    exact absurd hbit (by decide)
  · exact absurd (hbehind _ hmem) (by decide)

/-- Whether the number of ones among the `n` lowest bits is odd. -/
def parityBelow (x : BitVec w) : ℕ → Bool
  | 0 => false
  | n + 1 => xor (parityBelow x n) (x.getLsbD n)

/-- Whether the number of ones is odd. -/
def parity (x : BitVec w) : Bool := parityBelow x w

theorem parityBelow_xor (x y : BitVec w) (n : ℕ) :
    parityBelow (x ^^^ y) n = xor (parityBelow x n) (parityBelow y n) := by
  induction n with
  | zero => rfl
  | succ n ih =>
    rw [parityBelow, parityBelow, parityBelow, ih, BitVec.getLsbD_xor]
    cases parityBelow x n <;> cases parityBelow y n <;> cases x.getLsbD n <;>
      cases y.getLsbD n <;> rfl

theorem parityBelow_shift (x : BitVec w) (n : ℕ) :
    xor (parityBelow (x >>> 1) n) (x.getLsbD 0) = parityBelow x (n + 1) := by
  induction n with
  | zero => simp [parityBelow]
  | succ n ih =>
    rw [parityBelow, parityBelow, ← ih, BitVec.getLsbD_ushiftRight, Nat.add_comm 1]
    cases parityBelow (x >>> 1) n <;> cases x.getLsbD 0 <;> cases x.getLsbD (n + 1) <;> rfl

/-- Where a one falls out, a generator with an odd number of ones puts one back. -/
theorem bitStep_parity (hp : parity poly = true) (x : BitVec w) :
    parity (bitStep poly x) = parity x := by
  have hall : xor (parity (x >>> 1)) (x.getLsbD 0) = parity x := by
    rw [parity, parityBelow_shift, parityBelow, BitVec.getLsbD_of_ge x w (Nat.le_refl w),
      Bool.xor_false]
    rfl
  unfold bitStep
  cases h0 : x.getLsbD 0 with
  | false =>
    rw [h0, Bool.xor_false] at hall
    exact hall
  | true =>
    rw [h0] at hall
    rw [if_pos rfl, parity, parityBelow_xor, ← hall]
    exact congrArg (xor (parity (x >>> 1))) hp

theorem parity_ofBool (hw : 0 < w) (b : Bool) : parity ((BitVec.ofBool b).setWidth w) = b := by
  have hbelow : ∀ n, n < w → parityBelow ((BitVec.ofBool b).setWidth w) (n + 1) = b := by
    intro n hn
    induction n with
    | zero => simp [parityBelow, hw]
    | succ n ih =>
      rw [parityBelow, ih (by omega)]
      simp
  obtain ⟨n, rfl⟩ := Nat.exists_eq_add_one_of_ne_zero (Nat.ne_of_gt hw)
  exact hbelow n (Nat.lt_succ_self n)

theorem feedBits_parity (hw : 0 < w) (hp : parity poly = true) (x : BitVec w) (l : List Bool) :
    parity (feedBits poly x l) = xor (parity x) (decide (l.count true % 2 = 1)) := by
  induction l generalizing x with
  | nil => simp [feedBits]
  | cons b l ih =>
    have hcons : feedBits poly x (b :: l) =
        feedBits poly (bitStep poly (x ^^^ (BitVec.ofBool b).setWidth w)) l := rfl
    have hsum : parity (x ^^^ (BitVec.ofBool b).setWidth w) = xor (parity x) b := by
      rw [parity, parityBelow_xor]
      exact congrArg (xor (parity x)) (parity_ofBool hw b)
    rw [hcons, ih, bitStep_parity hp, hsum, Bool.xor_assoc]
    congr 1
    cases b with
    | false => simp
    | true =>
      rw [List.count_cons_self]
      rcases Nat.mod_two_eq_zero_or_one (l.count true) with h | h
      · simp [h, Nat.add_mod]
      · simp [h, Nat.add_mod]

/-- **An odd number of ones** leaves something. -/
theorem feedBits_odd (hw : 0 < w) (hp : parity poly = true) {l : List Bool}
    (h : l.count true % 2 = 1) : feedBits poly 0#w l ≠ 0#w := by
  have hzero : parity (0#w) = false := by
    have hbelow : ∀ n, parityBelow (0#w) n = false := by
      intro n
      induction n with
      | zero => rfl
      | succ n ih => rw [parityBelow, ih, BitVec.getLsbD_zero]; rfl
    exact hbelow w
  intro hfeed
  have hparity := feedBits_parity hw hp 0#w l
  rw [hfeed, hzero, decide_eq_true h] at hparity
  exact absurd hparity (by decide)

/-! ## Wider registers -/

/-- The bits above the generator's stay clear. -/
theorem bitStep_setWidth {v : ℕ} (h : w ≤ v) (x : BitVec w) :
    bitStep (poly.setWidth v) (x.setWidth v) = (bitStep poly x).setWidth v := by
  have hshift : (x.setWidth v) >>> 1 = (x >>> 1).setWidth v := by
    refine BitVec.eq_of_getLsbD_eq fun i hi => ?_
    simp only [BitVec.getLsbD_ushiftRight, BitVec.getLsbD_setWidth, hi, decide_true,
      Bool.true_and]
    by_cases hv : 1 + i < v
    · simp [hv]
    · simp [hv, BitVec.getLsbD_of_ge x (1 + i) (by omega)]
  have hlow : (x.setWidth v).getLsbD 0 = x.getLsbD 0 := by
    rw [BitVec.getLsbD_setWidth]
    by_cases hv : 0 < v
    · simp [hv]
    · simp [hv, BitVec.getLsbD_of_ge x 0 (by omega)]
  rw [bitStep, bitStep, hlow, hshift]
  cases x.getLsbD 0
  · rfl
  · exact (BitVec.setWidth_xor ..).symm

/-- The CRC-32 of Ethernet frames and of archives. -/
def crc32 (l : List (BitVec 8)) : BitVec 32 := ~~~remainder 0xEDB88320#32 0xFFFFFFFF#32 l

-- the check value of the nine digits
example : crc32 [0x31, 0x32, 0x33, 0x34, 0x35, 0x36, 0x37, 0x38, 0x39] = 0xCBF43926 := by
  decide +kernel

end Crc

end Lib
