/-
  Gracemont kernel — the data of `rtos_types.h`: status codes, task states and
  the task control block, for the ARM64 and the X86_64 port.

  A task control block is addressed by an element of `α` (the value of a
  `tcb_t *`), so that the memory of all blocks is a map `α → Tcb α`.  The
  saved registers, the name and the stack of a block are left out: no
  scheduling or synchronisation function reads them.
-/
import Mathlib.Algebra.Group.Nat.Defs
import Mathlib.Algebra.GroupWithZero.Nat
import Mathlib.Data.List.Basic
import Mathlib.Tactic.SplitIfs
import Gracemont.Lib.Store

namespace Gracemont

/-- `size_t` addition. -/
def sizeAdd (a b : ℕ) : ℕ := (a + b) % 2 ^ 64

/-- Clearing the low bits rounds down to a multiple of a power of two. -/
theorem and_not_lowMask (x : BitVec 64) {m : BitVec 64} {k : ℕ} (hm : m.toNat = 2 ^ k - 1) :
    (x &&& ~~~m).toNat = x.toNat / 2 ^ k * 2 ^ k := by
  have hshift : x &&& ~~~m = x >>> k <<< k := by
    apply BitVec.eq_of_getLsbD_eq
    intro i hi
    have hbit : m.getLsbD i = decide (i < k) := by
      rw [BitVec.getLsbD, hm]
      exact Nat.testBit_two_pow_sub_one k i
    simp only [BitVec.getLsbD_and, BitVec.getLsbD_not, BitVec.getLsbD_shiftLeft,
      BitVec.getLsbD_ushiftRight, hbit]
    grind
  have hle : x.toNat / 2 ^ k * 2 ^ k ≤ x.toNat := Nat.div_mul_le_self ..
  have hlt := x.isLt
  rw [hshift, BitVec.toNat_shiftLeft, BitVec.toNat_ushiftRight, Nat.shiftLeft_eq,
    Nat.shiftRight_eq_div_pow, Nat.mod_eq_of_lt (by omega)]

/-! Numerals are the addresses in the small memories of runs on fixed inputs. -/

instance neZero_two : NeZero 2 := ⟨by decide⟩
instance neZero_three : NeZero 3 := ⟨by decide⟩
instance neZero_four : NeZero 4 := ⟨by decide⟩
instance neZero_sixtyFive : NeZero 65 := ⟨by decide⟩

/-- The two ports of the kernel. -/
inductive Port where
  | arm64 | x86_64
  deriving DecidableEq, Repr

namespace Port

/-- The bits of `tick_t`. -/
def tickBits : Port → ℕ
  | .arm64 => 32
  | .x86_64 => 64

variable (port : Port)

/-- Conversion to `tick_t`.  The values of this type are numbers below
    `2 ^ port.tickBits`. -/
def tick (n : ℕ) : ℕ := n % 2 ^ port.tickBits

/-- `n - 1` on a `tick_t`. -/
def tickPred (n : ℕ) : ℕ := if n = 0 then 2 ^ port.tickBits - 1 else n - 1

/-- A tick counts down to zero from one only. -/
theorem tickPred_eq_zero {n : ℕ} : port.tickPred n = 0 ↔ n = 1 := by
  have hmax : 2 ^ port.tickBits - 1 ≠ 0 := by cases port <;> decide
  unfold tickPred
  split_ifs with h
  · exact iff_of_false hmax (by omega)
  · omega

theorem tickPred_of_pos {n : ℕ} (h : n ≠ 0) : port.tickPred n = n - 1 := if_neg h

end Port

/-- The status codes of `status_t`. -/
inductive Status where
  | ok | error | timeout | busy | noMem | invalid | wouldBlock
  deriving DecidableEq, Repr

/-- `task_state_t`. -/
inductive TaskState where
  | ready | running | blocked | suspended | terminated
  deriving DecidableEq, Repr

/-- The address of a synchronisation object, as stored in `wait_obj`. -/
inductive WaitObj where
  | sem (i : ℕ) | mutex (i : ℕ) | event (i : ℕ) | msgq (i : ℕ)
  deriving DecidableEq, Repr

/-- `tcb_t`.  The fields `totalTicks` and `switches` exist in the X86_64 port
    only, `timeSlice` in the ARM64 port only.  Ticks are a `tick_t` of the port. -/
structure Tcb (α : Type) where
  id : ℕ
  priority : ℕ
  state : TaskState
  wakeTick : ℕ
  timeSlice : ℕ
  remainingSlice : ℕ
  next : Option α
  prev : Option α
  waitObj : Option WaitObj
  waitResult : Status
  totalTicks : BitVec 64
  switches : BitVec 64

/-- A block in zero-initialised static storage. -/
def Tcb.zero {α : Type} : Tcb α :=
  ⟨0, 0, .ready, 0, 0, 0, none, none, none, .ok, 0, 0⟩

/-- The memory of all task control blocks. -/
abbrev Tcbs (α : Type) := Lib.Store α (Tcb α)

namespace Tcbs
variable {α : Type}

/-- The `next` pointers. -/
def next (m : Tcbs α) : α → Option α := fun t => (m t).next

/-- The `prev` pointers. -/
def prev (m : Tcbs α) : α → Option α := fun t => (m t).prev

variable [DecidableEq α]

@[simp] theorem next_modify (m : Tcbs α) (t : α) (f : Tcb α → Tcb α) :
    next (m.modify t f) = Function.update m.next t (f (m t)).next := m.field_modify Tcb.next t f

@[simp] theorem prev_modify (m : Tcbs α) (t : α) (f : Tcb α → Tcb α) :
    prev (m.modify t f) = Function.update m.prev t (f (m t)).prev := m.field_modify Tcb.prev t f

/-- Assignments to other fields keep the `next` pointers. -/
@[simp high] theorem next_modify_same (m : Tcbs α) (t : α) {f : Tcb α → Tcb α}
    (h : ∀ c, (f c).next = c.next) : next (m.modify t f) = m.next :=
  m.field_modify_same Tcb.next t h

/-- Assignments to other fields keep the `prev` pointers. -/
@[simp high] theorem prev_modify_same (m : Tcbs α) (t : α) {f : Tcb α → Tcb α}
    (h : ∀ c, (f c).prev = c.prev) : prev (m.modify t f) = m.prev :=
  m.field_modify_same Tcb.prev t h

end Tcbs

end Gracemont
