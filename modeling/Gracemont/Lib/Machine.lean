/-
  Register machines over a memory of bytes.

  Registers hold 64-bit words.  Addresses are words too and wrap around; a word
  is stored in eight bytes, the lowest first.  The program counter is a
  register like the others, so that a jump is a load or a move; `exec` runs
  instructions in a straight line.

  * `exec_saves`, `exec_loads`: a row of stores, or of loads, relative to one
    register;
  * `Switcher`: a routine that saves registers at one address and restores them
    from another; `Switcher.roundTrip` is what a save and a later restore do;
  * `Away`: what may happen in between.
-/
import Mathlib.Algebra.Group.Nat.Defs
import Mathlib.Data.List.Nodup
import Mathlib.Logic.Function.Basic

namespace Lib

abbrev Word := BitVec 64

/-- The `n` bytes from `a` on. -/
def InRange (a : Word) (n : ℕ) (x : Word) : Prop := (x - a).toNat < n

instance (a : Word) (n : ℕ) (x : Word) : Decidable (InRange a n x) :=
  inferInstanceAs (Decidable (_ < _))

theorem InRange.mono {a x : Word} {n m : ℕ} (h : InRange a n x) (hnm : n ≤ m) : InRange a m x :=
  Nat.lt_of_lt_of_le h hnm

theorem InRange.offset_toNat {a x : Word} {o : ℕ} (h : InRange (a + BitVec.ofNat 64 o) 8 x)
    (ho : o + 8 < 2 ^ 64) : o ≤ (x - a).toNat ∧ (x - a).toNat < o + 8 := by
  unfold InRange at h
  have hx : x - a = (x - (a + BitVec.ofNat 64 o)) + BitVec.ofNat 64 o := by
    rw [← BitVec.sub_sub, BitVec.sub_add_cancel]
  rw [hx, BitVec.toNat_add, BitVec.toNat_ofNat, Nat.mod_eq_of_lt (show o < 2 ^ 64 by omega),
    Nat.mod_eq_of_lt (by omega)]
  omega

/-- The word at the offset `o` of a region. -/
theorem InRange.offset {a x : Word} {o n : ℕ} (h : InRange (a + BitVec.ofNat 64 o) 8 x)
    (ho : o + 8 ≤ n) (hn : n < 2 ^ 64) : InRange a n x := by
  have hx := h.offset_toNat (by omega)
  unfold InRange
  omega

/-- Words at offsets that are eight apart do not overlap. -/
theorem InRange.apart {a x : Word} {o p : ℕ} (h : InRange (a + BitVec.ofNat 64 o) 8 x)
    (hop : o + 8 ≤ p ∨ p + 8 ≤ o) (ho : o + 8 < 2 ^ 64) (hp : p + 8 < 2 ^ 64) :
    ¬ InRange (a + BitVec.ofNat 64 p) 8 x := by
  intro h'
  unfold InRange at h h'
  generalize hy : x - (a + BitVec.ofNat 64 o) = y at h
  have hx : x - (a + BitVec.ofNat 64 p) = y + BitVec.ofNat 64 o - BitVec.ofNat 64 p := by
    rw [← hy, ← BitVec.sub_sub, ← BitVec.sub_sub, BitVec.sub_add_cancel]
  rw [hx] at h'
  have hon : (BitVec.ofNat 64 o).toNat = o := Nat.mod_eq_of_lt (by omega)
  have hpn : (BitVec.ofNat 64 p).toNat = p := Nat.mod_eq_of_lt (by omega)
  rw [BitVec.toNat_sub, BitVec.toNat_add, hon, hpn] at h'
  omega

/-- Slots of eight bytes at offsets that do not overlap. -/
def Slots {β : Type} (slots : List (ℕ × β)) : Prop :=
  (slots.Pairwise fun p q => p.1 + 8 ≤ q.1 ∨ q.1 + 8 ≤ p.1) ∧ ∀ p ∈ slots, p.1 + 8 < 2 ^ 64

theorem Slots.map {β γ : Type} {slots : List (ℕ × β)} (h : Slots slots) (f : β → γ) :
    Slots (slots.map fun p => (p.1, f p.2)) := by
  refine ⟨List.pairwise_map.2 h.1, fun p hp => ?_⟩
  obtain ⟨q, hq, rfl⟩ := List.mem_map.1 hp
  exact h.2 q hq

/-! ## Memory -/

abbrev Memory := Word → BitVec 8

namespace Memory

/-- The byte `k` of the word at `a`. -/
def byte (m : Memory) (a : Word) (k : ℕ) : BitVec 8 := m (a + BitVec.ofNat 64 k)

def load (m : Memory) (a : Word) : Word :=
  m.byte a 7 ++ m.byte a 6 ++ m.byte a 5 ++ m.byte a 4 ++ m.byte a 3 ++ m.byte a 2 ++ m.byte a 1 ++
    m.byte a 0

def store (m : Memory) (a v : Word) : Memory := fun x =>
  if InRange a 8 x then (v >>> (8 * (x - a).toNat)).setWidth 8 else m x

variable (m : Memory) (a v : Word)

theorem offset_toNat {k : ℕ} (hk : k < 8) : (a + BitVec.ofNat 64 k - a).toNat = k := by
  bv_omega

theorem store_byte {k : ℕ} (hk : k < 8) : (m.store a v).byte a k = (v >>> (8 * k)).setWidth 8 := by
  have hin : InRange a 8 (a + BitVec.ofNat 64 k) := by
    rw [InRange, offset_toNat a hk]
    exact hk
  rw [byte, store, if_pos hin, offset_toNat a hk]

theorem store_of_not_inRange {x : Word} (h : ¬ InRange a 8 x) : m.store a v x = m x := if_neg h

/-- **A load gives what was stored.** -/
theorem load_store : (m.store a v).load a = v := by
  unfold load
  simp (disch := decide) only [store_byte]
  apply BitVec.eq_of_getLsbD_eq
  intro i hi
  simp only [BitVec.getLsbD_append, BitVec.getLsbD_setWidth, BitVec.getLsbD_ushiftRight]
  grind

variable {m a}

/-- **Frame.**  A load only depends on its eight bytes. -/
theorem load_congr {m' : Memory} (h : ∀ x, InRange a 8 x → m' x = m x) : m'.load a = m.load a := by
  have hbyte : ∀ k < 8, m'.byte a k = m.byte a k := by
    intro k hk
    refine h _ ?_
    unfold InRange
    rw [offset_toNat a hk]
    exact hk
  simp (disch := decide) only [load, hbyte]

/-- Storing words at offsets of `a`. -/
def putWords (m : Memory) (a : Word) : List (ℕ × Word) → Memory
  | [] => m
  | p :: l => (m.store (a + BitVec.ofNat 64 p.1) p.2).putWords a l

/-- Stores change nothing else. -/
theorem putWords_frame {l : List (ℕ × Word)} {x : Word}
    (h : ∀ p ∈ l, ¬ InRange (a + BitVec.ofNat 64 p.1) 8 x) : m.putWords a l x = m x := by
  induction l generalizing m with
  | nil => rfl
  | cons p l ih =>
    have hrest := ih (m := m.store (a + BitVec.ofNat 64 p.1) p.2) fun q hq =>
      h q (List.mem_cons_of_mem p hq)
    exact hrest.trans (store_of_not_inRange _ _ _ (h p (List.mem_cons_self ..)))

/-- **The stored words can be loaded.** -/
theorem putWords_load {l : List (ℕ × Word)} (hl : Slots l) {p : ℕ × Word} (hp : p ∈ l) :
    (m.putWords a l).load (a + BitVec.ofNat 64 p.1) = p.2 := by
  induction l generalizing m with
  | nil => cases hp
  | cons q l ih =>
    obtain ⟨hpair, hbound⟩ := hl
    obtain ⟨hq, hpair⟩ := List.pairwise_cons.1 hpair
    rcases List.mem_cons.1 hp with rfl | hp
    · -- the later stores keep the first one
      have hkeep : ((m.store (a + BitVec.ofNat 64 p.1) p.2).putWords a l).load
            (a + BitVec.ofNat 64 p.1) =
          (m.store (a + BitVec.ofNat 64 p.1) p.2).load (a + BitVec.ofNat 64 p.1) := by
        refine load_congr fun x hx => putWords_frame fun r hr => ?_
        exact hx.apart (hq r hr) (hbound p (List.mem_cons_self ..))
          (hbound r (List.mem_cons_of_mem p hr))
      exact hkeep.trans (load_store ..)
    · exact ih ⟨hpair, fun p hp => hbound p (List.mem_cons_of_mem q hp)⟩ hp

/-- A word beside the stored ones. -/
theorem putWords_load_apart {l : List (ℕ × Word)} {b : Word}
    (h : ∀ p ∈ l, ∀ x, InRange b 8 x → ¬ InRange (a + BitVec.ofNat 64 p.1) 8 x) :
    (m.putWords a l).load b = m.load b :=
  load_congr fun x hx => putWords_frame fun p hp => h p hp x hx

end Memory

/-! ## The machine -/

/-- The registers and the memory. -/
structure Machine (R : Type) where
  reg : R → Word
  mem : Memory

/-- Instructions; `base` and `off` address memory, and `loadPair` reads `base`
    before it writes. -/
inductive Instr (R : Type) where
  | load (dst base : R) (off : ℕ)
  | store (base : R) (off : ℕ) (src : R)
  | loadPair (dst₁ dst₂ base : R) (off : ℕ)
  | move (dst src : R)
  | add (dst : R) (c : Word)

section
variable {R : Type} [DecidableEq R]

/-- The address `[base, off]`. -/
def Machine.addr (m : Machine R) (base : R) (off : ℕ) : Word := m.reg base + BitVec.ofNat 64 off

def Machine.set (m : Machine R) (r : R) (v : Word) : Machine R :=
  { m with reg := Function.update m.reg r v }

@[simp] theorem Machine.set_mem (m : Machine R) (r : R) (v : Word) : (m.set r v).mem = m.mem := rfl

@[simp] theorem Machine.set_reg (m : Machine R) (r : R) (v : Word) :
    (m.set r v).reg = Function.update m.reg r v := rfl

def Instr.exec (m : Machine R) : Instr R → Machine R
  | .load dst base off => m.set dst (m.mem.load (m.addr base off))
  | .store base off src => { m with mem := m.mem.store (m.addr base off) (m.reg src) }
  | .loadPair dst₁ dst₂ base off =>
    (m.set dst₁ (m.mem.load (m.addr base off))).set dst₂ (m.mem.load (m.addr base (off + 8)))
  | .move dst src => m.set dst (m.reg src)
  | .add dst c => m.set dst (m.reg dst + c)

/-- The instructions of `is` in a row. -/
def exec (is : List (Instr R)) (m : Machine R) : Machine R := is.foldl Instr.exec m

@[simp] theorem exec_nil (m : Machine R) : exec [] m = m := rfl

@[simp] theorem exec_cons (i : Instr R) (is : List (Instr R)) (m : Machine R) :
    exec (i :: is) m = exec is (i.exec m) := rfl

theorem exec_append (is js : List (Instr R)) (m : Machine R) :
    exec (is ++ js) m = exec js (exec is m) := List.foldl_append

/-- A pair of loads as two loads. -/
def Instr.unpair : Instr R → List (Instr R)
  | .loadPair dst₁ dst₂ base off => [.load dst₁ base off, .load dst₂ base (off + 8)]
  | i => [i]

/-- The first load of a pair keeps the base. -/
def Instr.KeepsBase : Instr R → Prop
  | .loadPair dst₁ _ base _ => dst₁ ≠ base
  | _ => True

instance : DecidablePred (Instr.KeepsBase (R := R)) := fun
  | .loadPair dst₁ _ base _ => inferInstanceAs (Decidable (dst₁ ≠ base))
  | .load .. | .store .. | .move .. | .add .. => isTrue trivial

theorem exec_unpair_one {i : Instr R} (h : i.KeepsBase) (m : Machine R) :
    exec i.unpair m = i.exec m := by
  cases i with
  | loadPair dst₁ dst₂ base off =>
    have hne : base ≠ dst₁ := Ne.symm h
    simp [Instr.unpair, Instr.exec, Machine.addr, Machine.set, hne]
  | load => rfl
  | store => rfl
  | move => rfl
  | add => rfl

theorem exec_unpair {is : List (Instr R)} (h : ∀ i ∈ is, i.KeepsBase) (m : Machine R) :
    exec (is.flatMap Instr.unpair) m = exec is m := by
  induction is generalizing m with
  | nil => rfl
  | cons i is ih =>
    rw [List.flatMap_cons, exec_append, exec_unpair_one (h i (List.mem_cons_self ..)), exec_cons]
    exact ih (fun j hj => h j (List.mem_cons_of_mem i hj)) _

/-! ### Rows of stores and loads -/

/-- Storing registers at offsets of `base`. -/
def saves (base : R) (slots : List (ℕ × R)) : List (Instr R) :=
  slots.map fun p => .store base p.1 p.2

/-- Loading registers from offsets of `base`. -/
def loads (base : R) (slots : List (ℕ × R)) : List (Instr R) :=
  slots.map fun p => .load p.2 base p.1

theorem exec_saves (base : R) (slots : List (ℕ × R)) (m : Machine R) :
    exec (saves base slots) m =
      { m with mem := m.mem.putWords (m.reg base) (slots.map fun p => (p.1, m.reg p.2)) } := by
  induction slots generalizing m with
  | nil => rfl
  | cons p slots ih => exact ih _

theorem exec_saves_reg (base : R) (slots : List (ℕ × R)) (m : Machine R) :
    (exec (saves base slots) m).reg = m.reg := by
  rw [exec_saves]

theorem exec_saves_frame {base : R} {slots : List (ℕ × R)} {m : Machine R} {x : Word}
    (h : ∀ p ∈ slots, ¬ InRange (m.addr base p.1) 8 x) :
    (exec (saves base slots) m).mem x = m.mem x := by
  rw [exec_saves]
  refine Memory.putWords_frame fun q hq => ?_
  obtain ⟨p, hp, rfl⟩ := List.mem_map.1 hq
  exact h p hp

/-- **The stored registers can be loaded.** -/
theorem exec_saves_load (base : R) {slots : List (ℕ × R)} (hs : Slots slots) (m : Machine R)
    {p : ℕ × R} (hp : p ∈ slots) :
    (exec (saves base slots) m).mem.load (m.addr base p.1) = m.reg p.2 := by
  have hmem : (p.1, m.reg p.2) ∈ slots.map fun p => (p.1, m.reg p.2) :=
    List.mem_map.2 ⟨p, hp, rfl⟩
  have hload := Memory.putWords_load (m := m.mem) (a := m.reg base) (hs.map m.reg) hmem
  rw [exec_saves]
  exact hload

theorem exec_loads_mem (base : R) (slots : List (ℕ × R)) (m : Machine R) :
    (exec (loads base slots) m).mem = m.mem := by
  induction slots generalizing m with
  | nil => rfl
  | cons p slots ih => exact ih _

/-- Loads change no other register. -/
theorem exec_loads_of_not_mem {base r : R} {slots : List (ℕ × R)} (h : r ∉ slots.map Prod.snd)
    (m : Machine R) : (exec (loads base slots) m).reg r = m.reg r := by
  induction slots generalizing m with
  | nil => rfl
  | cons p slots ih =>
    rw [List.map_cons, List.mem_cons, not_or] at h
    exact (ih h.2 _).trans (Function.update_of_ne h.1 ..)

/-- **A row of loads.** -/
theorem exec_loads_reg {base : R} {slots : List (ℕ × R)} (hnd : (slots.map Prod.snd).Nodup)
    (hb : base ∉ slots.map Prod.snd) (m : Machine R) {p : ℕ × R} (hp : p ∈ slots) :
    (exec (loads base slots) m).reg p.2 = m.mem.load (m.addr base p.1) := by
  induction slots generalizing m with
  | nil => cases hp
  | cons q slots ih =>
    rw [List.map_cons, List.nodup_cons] at hnd
    rw [List.map_cons, List.mem_cons, not_or] at hb
    rcases List.mem_cons.1 hp with rfl | hp
    · exact (exec_loads_of_not_mem hnd.1 _).trans (Function.update_self ..)
    · have hrest := ih hnd.2 hb.2 (Instr.exec m (.load q.2 base q.1)) hp
      have haddr : (Instr.exec m (.load q.2 base q.1)).addr base p.1 = m.addr base p.1 := by
        simp [Machine.addr, Instr.exec, hb.1]
      rw [haddr] at hrest
      exact hrest

end

/-! ## Switching between saved states -/

/-- A routine that saves values at the address in `prev` and restores registers
    from the address in `next`. -/
structure Switcher (R : Type) where
  switch : Machine R → Machine R
  prev : R
  next : R
  size : ℕ
  saved : List (ℕ × (Machine R → Word))
  restored : List (ℕ × R)
  size_lt : size < 2 ^ 64
  fits : ∀ p ∈ restored, p.1 + 8 ≤ size
  saves : ∀ m, ∀ p ∈ saved, (switch m).mem.load (m.reg prev + BitVec.ofNat 64 p.1) = p.2 m
  frame : ∀ m x, ¬ InRange (m.reg prev) size x → (switch m).mem x = m.mem x
  restores : ∀ m, ∀ p ∈ restored,
    (switch m).reg p.2 = (switch m).mem.load (m.reg next + BitVec.ofNat 64 p.1)

namespace Switcher
variable {R : Type} (S : Switcher R) {K : Word → Prop} {m m' : Machine R}

/-- What runs while the bytes of `K` are left alone: other code, and switches
    that save elsewhere. -/
inductive Away (K : Word → Prop) : Machine R → Machine R → Prop
  | refl (m : Machine R) : Away K m m
  | code {m m' m'' : Machine R} : Away K m m' → (∀ x, K x → m''.mem x = m'.mem x) → Away K m m''
  | switch {m m' : Machine R} : Away K m m' → (∀ x, K x → ¬ InRange (m'.reg S.prev) S.size x) →
      Away K m (S.switch m')

variable {S}

theorem Away.mem (h : S.Away K m m') {x : Word} (hx : K x) : m'.mem x = m.mem x := by
  induction h with
  | refl => rfl
  | code _ hk ih => exact (hk x hx).trans ih
  | switch _ hk ih => exact (S.frame _ x (hk x hx)).trans ih

/-- **Restoring what is in memory**, after a switch that saves elsewhere. -/
theorem restore_eq {m₀ : Machine R} (h : S.Away K m₀ m) (hK : ∀ x, InRange (m.reg S.next) S.size x → K x)
    (hprev : ∀ x, K x → ¬ InRange (m.reg S.prev) S.size x) {p : ℕ × R} (hp : p ∈ S.restored) :
    (S.switch m).reg p.2 = m₀.mem.load (m.reg S.next + BitVec.ofNat 64 p.1) := by
  rw [S.restores m p hp]
  refine Memory.load_congr fun x hx => ?_
  have hx : K x := hK x (hx.offset (S.fits p hp) S.size_lt)
  exact (S.frame m x (hprev x hx)).trans (h.mem hx)

/-- **Round trip.**  A switch away from a saved state and, after anything that
    leaves it alone, a switch back restore what was saved. -/
theorem roundTrip {m₀ m₂ : Machine R}
    (h : S.Away (InRange (m₀.reg S.prev) S.size) (S.switch m₀) m₂) (hnext : m₂.reg S.next = m₀.reg S.prev)
    (hprev : ∀ x, InRange (m₀.reg S.prev) S.size x → ¬ InRange (m₂.reg S.prev) S.size x)
    {o : ℕ} {r : R} {f : Machine R → Word} (hr : (o, r) ∈ S.restored) (hf : (o, f) ∈ S.saved) :
    (S.switch m₂).reg r = f m₀ := by
  have hK : ∀ x, InRange (m₂.reg S.next) S.size x → InRange (m₀.reg S.prev) S.size x := by
    intro x hx
    rw [hnext] at hx
    exact hx
  rw [restore_eq h hK hprev hr, hnext]
  exact S.saves m₀ (o, f) hf

end Switcher

end Lib
