/-
  Gracemont kernel — `arch_context_switch` (`arch/x86_64/context.asm`,
  `arch/arm64/startup.S`).

  The routines are transcribed instruction by instruction, over the registers
  that they use.  Each saves its caller's registers in the task control block
  `prev` and loads those of `next`; as a `Lib.Switcher` it says which value goes
  to which offset, and which register comes back from it.

  A task that is switched away from and back is to go on as after a return from
  its call (`Abi.Returned`).  On ARM64 it does; on X86_64 the stack pointer is
  saved with the return address still on the stack, and the task goes on by a
  jump that does not pop it (`round_trip_iff`).
-/
import Gracemont.Kernel.Types
import Gracemont.Lib.Machine

namespace Gracemont

open Lib

/-- The calling convention of a port. -/
structure Abi (R : Type) where
  sp : R
  pc : R
  arg₀ : R
  arg₁ : R
  calleeSaved : List R
  returnAddress : Machine R → Word
  returnSp : Machine R → Word

/-- `m` is as after a normal return from the call entered in `m₀`. -/
def Abi.Returned {R : Type} (abi : Abi R) (m₀ m : Machine R) : Prop :=
  m.reg abi.pc = abi.returnAddress m₀ ∧ m.reg abi.sp = abi.returnSp m₀ ∧
    ∀ r ∈ abi.calleeSaved, m.reg r = m₀.reg r

/-! ## X86_64 -/

namespace X86

inductive Reg where
  | rax | rbx | rbp | rsp | rsi | rdi | r12 | r13 | r14 | r15 | rip
  deriving DecidableEq

/-- A call pushes the return address. -/
def abi : Abi Reg where
  sp := .rsp
  pc := .rip
  arg₀ := .rdi
  arg₁ := .rsi
  calleeSaved := [.rbx, .rbp, .r12, .r13, .r14, .r15]
  returnAddress m := m.mem.load (m.reg .rsp)
  returnSp m := m.reg .rsp + 8

/-- `arch_context_switch` -/
def archContextSwitch : List (Instr Reg) :=
  [.load .rax .rsp 0,
    .store .rdi 56 .rax,
    .store .rdi 8 .rbx,
    .store .rdi 16 .rbp,
    .store .rdi 24 .r12,
    .store .rdi 32 .r13,
    .store .rdi 40 .r14,
    .store .rdi 48 .r15,
    .store .rdi 0 .rsp,
    .load .rsp .rsi 0,
    .load .rbx .rsi 8,
    .load .rbp .rsi 16,
    .load .r12 .rsi 24,
    .load .r13 .rsi 32,
    .load .r14 .rsi 40,
    .load .r15 .rsi 48,
    .load .rip .rsi 56]

/-- What is saved where, once the return address is in `rax`. -/
def saveSlots : List (ℕ × Reg) :=
  [(56, .rax), (8, .rbx), (16, .rbp), (24, .r12), (32, .r13), (40, .r14), (48, .r15), (0, .rsp)]

def loadSlots : List (ℕ × Reg) :=
  [(0, .rsp), (8, .rbx), (16, .rbp), (24, .r12), (32, .r13), (40, .r14), (48, .r15), (56, .rip)]

/-- The return address is loaded. -/
def getReturn (m : Machine Reg) : Machine Reg := m.set .rax (m.mem.load (m.reg .rsp))

theorem getReturn_reg {r : Reg} (h : r ≠ .rax) (m : Machine Reg) :
    (getReturn m).reg r = m.reg r :=
  Function.update_of_ne h ..

theorem getReturn_addr (m : Machine Reg) (o : ℕ) :
    (getReturn m).addr .rdi o = m.reg .rdi + BitVec.ofNat 64 o := by
  rw [Machine.addr, getReturn_reg (by decide)]

theorem getReturn_mem (m : Machine Reg) : (getReturn m).mem = m.mem := rfl

theorem slots_saveSlots : Slots saveSlots := by
  unfold Slots saveSlots
  constructor
  · decide
  · decide

theorem saveSlots_le : ∀ p ∈ saveSlots, p.1 + 8 ≤ 64 := by decide

theorem exec_archContextSwitch (m : Machine Reg) : exec archContextSwitch m =
    exec (loads .rsi loadSlots) (exec (saves .rdi saveSlots) (getReturn m)) := by
  have hzero : m.addr .rsp 0 = m.reg .rsp := BitVec.add_zero _
  have hlist : archContextSwitch = .load .rax .rsp 0 ::
      (saves .rdi saveSlots ++ loads .rsi loadSlots) := rfl
  rw [hlist, exec_cons, exec_append, Instr.exec, hzero, getReturn]

/-- `arch_context_switch` saves and restores. -/
def switcher : Switcher Reg where
  switch := exec archContextSwitch
  prev := .rdi
  next := .rsi
  size := 64
  saved := saveSlots.map fun p => (p.1, fun m => (getReturn m).reg p.2)
  restored := loadSlots
  size_lt := by decide
  fits := by decide
  saves m p hp := by
    obtain ⟨q, hq, rfl⟩ := List.mem_map.1 hp
    have hsaved := exec_saves_load .rdi slots_saveSlots (getReturn m) hq
    rw [getReturn_addr] at hsaved
    rw [exec_archContextSwitch, exec_loads_mem]
    exact hsaved
  frame m x hx := by
    rw [exec_archContextSwitch, exec_loads_mem, exec_saves_frame, getReturn_mem]
    intro p hp h
    rw [getReturn_addr] at h
    exact hx (h.offset (saveSlots_le p hp) (by decide))
  restores m p hp := by
    rw [exec_archContextSwitch, exec_loads_mem, exec_loads_reg (by decide) (by decide) _ hp,
      Machine.addr, exec_saves_reg, getReturn_reg (by decide)]

end X86

/-! ## ARM64 -/

namespace Arm64

instance neZero_registers : NeZero 31 := ⟨by decide⟩

/-- The registers; `x i` is `x0` to `x30`. -/
inductive Reg where
  | x (i : Fin 31) | sp | pc | elr | spsr
  deriving DecidableEq

/-- A call leaves the return address in `x30`. -/
def abi : Abi Reg where
  sp := .sp
  pc := .pc
  arg₀ := .x 0
  arg₁ := .x 1
  calleeSaved := [.x 19, .x 20, .x 21, .x 22, .x 23, .x 24, .x 25, .x 26, .x 27, .x 28, .x 29]
  returnAddress m := m.reg (.x 30)
  returnSp m := m.reg .sp

/-- `stp` -/
def stp (a b base : Reg) (off : ℕ) : List (Instr Reg) :=
  [.store base off a, .store base (off + 8) b]

/-- `ldp` -/
def ldp (a b base : Reg) (off : ℕ) : List (Instr Reg) := [.loadPair a b base off]

/-- `arch_context_switch` -/
def archContextSwitch : List (Instr Reg) :=
  [.move (.x 2) .sp,
    .store (.x 0) 0 (.x 2)] ++
  stp (.x 19) (.x 20) (.x 0) 8 ++
  stp (.x 21) (.x 22) (.x 0) 24 ++
  stp (.x 23) (.x 24) (.x 0) 40 ++
  stp (.x 25) (.x 26) (.x 0) 56 ++
  stp (.x 27) (.x 28) (.x 0) 72 ++
  stp (.x 29) (.x 30) (.x 0) 88 ++
  [.move (.x 2) .elr,
    .move (.x 3) .spsr] ++
  stp (.x 2) (.x 3) (.x 0) 256 ++
  [.load (.x 2) (.x 1) 0,
    .move .sp (.x 2)] ++
  ldp (.x 19) (.x 20) (.x 1) 8 ++
  ldp (.x 21) (.x 22) (.x 1) 24 ++
  ldp (.x 23) (.x 24) (.x 1) 40 ++
  ldp (.x 25) (.x 26) (.x 1) 56 ++
  ldp (.x 27) (.x 28) (.x 1) 72 ++
  ldp (.x 29) (.x 30) (.x 1) 88 ++
  ldp (.x 2) (.x 3) (.x 1) 256 ++
  [.move .elr (.x 2),
    .move .spsr (.x 3),
    .move .pc (.x 30)]

/-- The slots of `x19` to `x30`. -/
def calleeSlots : List (ℕ × Reg) :=
  [(8, .x 19), (16, .x 20), (24, .x 21), (32, .x 22), (40, .x 23), (48, .x 24), (56, .x 25),
    (64, .x 26), (72, .x 27), (80, .x 28), (88, .x 29), (96, .x 30)]

/-- The slots of `elr` and `spsr`, by way of `x2` and `x3`. -/
def statusSlots : List (ℕ × Reg) := [(256, .x 2), (264, .x 3)]

/-- `sp` is saved by way of `x2`. -/
def getSp (m : Machine Reg) : Machine Reg := m.set (.x 2) (m.reg .sp)

def getStatus (m : Machine Reg) : Machine Reg :=
  (m.set (.x 2) (m.reg .elr)).set (.x 3) (m.reg .spsr)

/-- Saving to `x0`. -/
def saveContext (m : Machine Reg) : Machine Reg :=
  exec (saves (.x 0) statusSlots)
    (getStatus (exec (saves (.x 0) ((0, .x 2) :: calleeSlots)) (getSp m)))

/-- Loading the stack pointer from `x1`. -/
def loadSp (m : Machine Reg) : Machine Reg :=
  (m.set (.x 2) (m.mem.load (m.addr (.x 1) 0))).set .sp (m.mem.load (m.addr (.x 1) 0))

/-- Loading the other registers from `x1`. -/
def loadContext (m : Machine Reg) : Machine Reg :=
  exec (loads (.x 1) statusSlots) (exec (loads (.x 1) calleeSlots) (loadSp m))

/-- The moves at the end, the last of which is `ret`. -/
def finish (m : Machine Reg) : Machine Reg :=
  ((m.set .elr (m.reg (.x 2))).set .spsr (m.reg (.x 3))).set .pc (m.reg (.x 30))

theorem exec_getSp (m : Machine Reg) : Instr.exec m (.move (.x 2) .sp) = getSp m := rfl

theorem exec_getStatus (m : Machine Reg) :
    Instr.exec (Instr.exec m (.move (.x 2) .elr)) (.move (.x 3) .spsr) = getStatus m := rfl

theorem exec_loadSp (m : Machine Reg) :
    Instr.exec (Instr.exec m (.load (.x 2) (.x 1) 0)) (.move .sp (.x 2)) = loadSp m := rfl

theorem exec_finish (m : Machine Reg) : Instr.exec (Instr.exec (Instr.exec m (.move .elr (.x 2)))
    (.move .spsr (.x 3))) (.move .pc (.x 30)) = finish m := rfl

theorem archContextSwitch_unpair : archContextSwitch.flatMap Instr.unpair =
    .move (.x 2) .sp ::
    (saves (.x 0) ((0, .x 2) :: calleeSlots) ++
      .move (.x 2) .elr :: .move (.x 3) .spsr ::
    (saves (.x 0) statusSlots ++
      .load (.x 2) (.x 1) 0 :: .move .sp (.x 2) ::
    (loads (.x 1) calleeSlots ++
    (loads (.x 1) statusSlots ++
      [.move .elr (.x 2), .move .spsr (.x 3), .move .pc (.x 30)])))) := rfl

theorem archContextSwitch_keepsBase : ∀ i ∈ archContextSwitch, i.KeepsBase := by decide

theorem exec_archContextSwitch (m : Machine Reg) :
    exec archContextSwitch m = finish (loadContext (saveContext m)) := by
  rw [← exec_unpair archContextSwitch_keepsBase, archContextSwitch_unpair]
  simp only [exec_cons, exec_append, exec_nil]
  rw [exec_getSp, exec_getStatus, exec_loadSp, exec_finish, loadContext, saveContext]

theorem slots_spSlots : Slots ((0, .x 2) :: calleeSlots) := by
  unfold Slots calleeSlots
  constructor
  · decide
  · decide

theorem slots_statusSlots : Slots statusSlots := by
  unfold Slots statusSlots
  constructor
  · decide
  · decide

theorem spSlots_le : ∀ p ∈ (0, Reg.x 2) :: calleeSlots, p.1 + 8 ≤ 104 := by decide

theorem statusSlots_mem : ∀ p ∈ statusSlots, 256 ≤ p.1 ∧ p.1 + 8 ≤ 272 := by decide

theorem getSp_reg {r : Reg} (h : r ≠ .x 2) (m : Machine Reg) : (getSp m).reg r = m.reg r :=
  Function.update_of_ne h ..

theorem getStatus_reg {r : Reg} (h₂ : r ≠ .x 2) (h₃ : r ≠ .x 3) (m : Machine Reg) :
    (getStatus m).reg r = m.reg r :=
  (Function.update_of_ne h₃ ..).trans (Function.update_of_ne h₂ ..)

theorem loadSp_reg {r : Reg} (h₂ : r ≠ .x 2) (hsp : r ≠ .sp) (m : Machine Reg) :
    (loadSp m).reg r = m.reg r :=
  (Function.update_of_ne hsp ..).trans (Function.update_of_ne h₂ ..)

/-- The machine between the two rows of stores. -/
def halfSaved (m : Machine Reg) : Machine Reg :=
  getStatus (exec (saves (.x 0) ((0, .x 2) :: calleeSlots)) (getSp m))

theorem saveContext_eq (m : Machine Reg) :
    saveContext m = exec (saves (.x 0) statusSlots) (halfSaved m) := rfl

theorem halfSaved_reg {r : Reg} (h₂ : r ≠ .x 2) (h₃ : r ≠ .x 3) (m : Machine Reg) :
    (halfSaved m).reg r = m.reg r := by
  rw [halfSaved, getStatus_reg h₂ h₃, exec_saves_reg, getSp_reg h₂]

theorem halfSaved_mem (m : Machine Reg) : (halfSaved m).mem =
    (exec (saves (.x 0) ((0, .x 2) :: calleeSlots)) (getSp m)).mem := rfl

/-- Both rows are stored relative to the caller's `x0`. -/
theorem halfSaved_addr (m : Machine Reg) (o : ℕ) :
    (halfSaved m).addr (.x 0) o = m.reg (.x 0) + BitVec.ofNat 64 o := by
  rw [Machine.addr, halfSaved_reg (by decide) (by decide)]

theorem getSp_addr (m : Machine Reg) (o : ℕ) :
    (getSp m).addr (.x 0) o = m.reg (.x 0) + BitVec.ofNat 64 o := by
  rw [Machine.addr, getSp_reg (by decide)]

/-- Saving changes no register but `x2` and `x3`. -/
theorem saveContext_reg {r : Reg} (h₂ : r ≠ .x 2) (h₃ : r ≠ .x 3) (m : Machine Reg) :
    (saveContext m).reg r = m.reg r := by
  rw [saveContext_eq, exec_saves_reg, halfSaved_reg h₂ h₃]

theorem saveContext_frame {m : Machine Reg} {x : Word} (hx : ¬ InRange (m.reg (.x 0)) 272 x) :
    (saveContext m).mem x = m.mem x := by
  have hstatus : (saveContext m).mem x = (halfSaved m).mem x := by
    rw [saveContext_eq]
    refine exec_saves_frame fun p hp h => ?_
    rw [halfSaved_addr] at h
    exact hx (h.offset (statusSlots_mem p hp).2 (by decide))
  have hcallee : (halfSaved m).mem x = (getSp m).mem x := by
    rw [halfSaved_mem]
    refine exec_saves_frame fun p hp h => ?_
    rw [getSp_addr] at h
    have hle := spSlots_le p hp
    exact hx (h.offset (by omega) (by decide))
  rw [hstatus, hcallee]
  rfl

theorem saveContext_callee (m : Machine Reg) {p : ℕ × Reg} (hp : p ∈ (0, .x 2) :: calleeSlots) :
    (saveContext m).mem.load (m.reg (.x 0) + BitVec.ofNat 64 p.1) = (getSp m).reg p.2 := by
  have hsaved := exec_saves_load (.x 0) slots_spSlots (getSp m) hp
  rw [getSp_addr, ← halfSaved_mem] at hsaved
  -- the second row keeps the first one
  refine Eq.trans (Memory.load_congr fun x hx => ?_) hsaved
  rw [saveContext_eq]
  refine exec_saves_frame fun q hq => ?_
  rw [halfSaved_addr]
  have hp' := spSlots_le p hp
  have hq' := statusSlots_mem q hq
  exact InRange.apart hx (by omega) (by omega) (by omega)

/-- `x2` and `x3` carry `elr` and `spsr`. -/
theorem getStatus_congr {m m' : Machine Reg} (he : m'.reg .elr = m.reg .elr)
    (hs : m'.reg .spsr = m.reg .spsr) {p : ℕ × Reg} (hp : p ∈ statusSlots) :
    (getStatus m').reg p.2 = (getStatus m).reg p.2 := by
  simp only [statusSlots, List.mem_cons, List.not_mem_nil, or_false] at hp
  rcases hp with rfl | rfl
  · exact he
  · exact hs

theorem saveContext_status (m : Machine Reg) {p : ℕ × Reg} (hp : p ∈ statusSlots) :
    (saveContext m).mem.load (m.reg (.x 0) + BitVec.ofNat 64 p.1) = (getStatus m).reg p.2 := by
  have hkeep : ∀ r, r ≠ .x 2 →
      (exec (saves (.x 0) ((0, .x 2) :: calleeSlots)) (getSp m)).reg r = m.reg r := by
    intro r hr
    rw [exec_saves_reg, getSp_reg hr]
  have hsaved := exec_saves_load (.x 0) slots_statusSlots (halfSaved m) hp
  rw [halfSaved_addr, ← saveContext_eq] at hsaved
  rw [hsaved, halfSaved]
  exact getStatus_congr (hkeep .elr (by decide)) (hkeep .spsr (by decide)) hp

theorem loadSp_mem (m : Machine Reg) : (loadSp m).mem = m.mem := rfl

theorem loadContext_mem (m : Machine Reg) : (loadContext m).mem = m.mem := by
  rw [loadContext, exec_loads_mem, exec_loads_mem, loadSp_mem]

theorem loadContext_sp (m : Machine Reg) :
    (loadContext m).reg .sp = m.mem.load (m.addr (.x 1) 0) := by
  rw [loadContext, exec_loads_of_not_mem (by decide), exec_loads_of_not_mem (by decide), loadSp,
    Machine.set_reg, Function.update_self]

theorem calleeSlots_not_status : ∀ p ∈ calleeSlots, p.2 ∉ statusSlots.map Prod.snd := by decide

theorem loadContext_callee (m : Machine Reg) {p : ℕ × Reg} (hp : p ∈ calleeSlots) :
    (loadContext m).reg p.2 = m.mem.load (m.reg (.x 1) + BitVec.ofNat 64 p.1) := by
  rw [loadContext, exec_loads_of_not_mem (calleeSlots_not_status p hp),
    exec_loads_reg (by decide) (by decide) _ hp, loadSp_mem, Machine.addr,
    loadSp_reg (by decide) (by decide)]

theorem calleeSlots_not_status' : ∀ p ∈ calleeSlots, p.2 ≠ .elr ∧ p.2 ≠ .spsr ∧ p.2 ≠ .pc := by
  decide

theorem finish_callee (m : Machine Reg) {p : ℕ × Reg} (hp : p ∈ calleeSlots) :
    (finish m).reg p.2 = m.reg p.2 := by
  obtain ⟨h₁, h₂, h₃⟩ := calleeSlots_not_status' p hp
  simp only [finish, Machine.set_reg]
  rw [Function.update_of_ne h₃, Function.update_of_ne h₂, Function.update_of_ne h₁]

theorem finish_mem (m : Machine Reg) : (finish m).mem = m.mem := rfl

theorem finish_sp (m : Machine Reg) : (finish m).reg .sp = m.reg .sp := by
  simp [finish]

theorem finish_pc (m : Machine Reg) : (finish m).reg .pc = m.reg (.x 30) := by
  rw [finish, Machine.set_reg, Function.update_self]

/-- `arch_context_switch` saves and restores. -/
def switcher : Switcher Reg where
  switch := exec archContextSwitch
  prev := .x 0
  next := .x 1
  size := 272
  saved := (((0, .x 2) :: calleeSlots).map fun p => (p.1, fun m => (getSp m).reg p.2)) ++
    statusSlots.map fun p => (p.1, fun m => (getStatus m).reg p.2)
  restored := (0, .sp) :: (96, .pc) :: calleeSlots
  size_lt := by decide
  fits := by decide
  saves m p hp := by
    rw [exec_archContextSwitch, finish_mem, loadContext_mem]
    rcases List.mem_append.1 hp with hp | hp
    · obtain ⟨q, hq, rfl⟩ := List.mem_map.1 hp
      exact saveContext_callee m hq
    · obtain ⟨q, hq, rfl⟩ := List.mem_map.1 hp
      exact saveContext_status m hq
  frame m x hx := by
    rw [exec_archContextSwitch, finish_mem, loadContext_mem, saveContext_frame hx]
  restores m p hp := by
    have hnext : (saveContext m).reg (.x 1) = m.reg (.x 1) :=
      saveContext_reg (by decide) (by decide) m
    rw [exec_archContextSwitch, finish_mem, loadContext_mem, ← hnext]
    rcases List.mem_cons.1 hp with rfl | hp
    · rw [finish_sp]
      exact loadContext_sp (saveContext m)
    · rcases List.mem_cons.1 hp with rfl | hp
      · have h30 : (96, Reg.x 30) ∈ calleeSlots := by decide
        rw [finish_pc]
        exact loadContext_callee (saveContext m) h30
      · rw [finish_callee _ hp]
        exact loadContext_callee (saveContext m) hp

end Arm64

/-! ## Both ports -/

/-- The registers of a port. -/
def Port.Reg : Port → Type
  | .arm64 => Arm64.Reg
  | .x86_64 => X86.Reg

def Port.abi : (port : Port) → Abi port.Reg
  | .arm64 => Arm64.abi
  | .x86_64 => X86.abi

def Port.switcher : (port : Port) → Switcher port.Reg
  | .arm64 => Arm64.switcher
  | .x86_64 => X86.switcher

/-- The context of the task that calls the switch. -/
def Context {p : Port} (m : Machine p.Reg) : Word → Prop :=
  InRange (m.reg p.switcher.prev) p.switcher.size

section
variable {port : Port}

/-- On ARM64 a task goes on as after a return. -/
theorem Arm64.returned {m₀ m₂ : Machine Arm64.Reg}
    (haway : switcher.Away (InRange (m₀.reg (.x 0)) 272) (switcher.switch m₀) m₂)
    (hnext : m₂.reg (.x 1) = m₀.reg (.x 0))
    (hprev : ∀ x, InRange (m₀.reg (.x 0)) 272 x → ¬ InRange (m₂.reg (.x 0)) 272 x) :
    abi.Returned m₀ (switcher.switch m₂) := by
  have hback : ∀ {o : ℕ} {r q : Reg}, (o, r) ∈ switcher.restored →
      (o, q) ∈ (0, Reg.x 2) :: calleeSlots → (switcher.switch m₂).reg r = (getSp m₀).reg q := by
    intro o r q hr hq
    have hsaved : (o, fun m => (getSp m).reg q) ∈ switcher.saved :=
      List.mem_append_left _ (List.mem_map.2 ⟨(o, q), hq, rfl⟩)
    exact Switcher.roundTrip haway hnext hprev hr hsaved
  refine ⟨?_, ?_, fun r hr => ?_⟩
  · have hpc : (96, Reg.pc) ∈ switcher.restored := by decide
    have h30 : (96, Reg.x 30) ∈ (0, Reg.x 2) :: calleeSlots := by decide
    exact (hback hpc h30).trans (getSp_reg (by decide) m₀)
  · have hsp : (0, Reg.sp) ∈ switcher.restored := by decide
    have hx2 : (getSp m₀).reg (.x 2) = m₀.reg .sp := by
      rw [getSp, Machine.set_reg, Function.update_self]
    exact (hback hsp (List.mem_cons_self ..)).trans hx2
  · have hslots : ∀ r ∈ abi.calleeSaved, r ∈ calleeSlots.map Prod.snd ∧ r ≠ .x 2 := by decide
    obtain ⟨hmem, hne⟩ := hslots r hr
    obtain ⟨⟨o, r⟩, hp, rfl⟩ := List.mem_map.1 hmem
    have hr' : (o, r) ∈ switcher.restored := List.mem_cons_of_mem _ (List.mem_cons_of_mem _ hp)
    refine (hback hr' (List.mem_cons_of_mem _ hp)).trans ?_
    exact getSp_reg hne m₀

/-- On X86_64 a task goes on with the stack pointer that it had in the call. -/
theorem X86.back_rsp {m₀ m₂ : Machine X86.Reg}
    (haway : switcher.Away (InRange (m₀.reg .rdi) 64) (switcher.switch m₀) m₂)
    (hnext : m₂.reg .rsi = m₀.reg .rdi)
    (hprev : ∀ x, InRange (m₀.reg .rdi) 64 x → ¬ InRange (m₂.reg .rdi) 64 x) :
    (switcher.switch m₂).reg .rsp = m₀.reg .rsp := by
  have hr : (0, Reg.rsp) ∈ switcher.restored := by decide
  have hf : (0, fun m => (getReturn m).reg .rsp) ∈ switcher.saved :=
    List.mem_map.2 ⟨(0, .rsp), by decide, rfl⟩
  rw [← getReturn_reg (r := .rsp) (by decide) m₀]
  exact Switcher.roundTrip haway hnext hprev hr hf

theorem X86.not_returned {m₀ m : Machine X86.Reg} (h : m.reg .rsp = m₀.reg .rsp) :
    ¬ abi.Returned m₀ m := by
  rintro ⟨-, hsp, -⟩
  have heq : m₀.reg .rsp = m₀.reg .rsp + 8 := h.symm.trans hsp
  bv_omega

/-- **Round trip.**  A task that calls `arch_context_switch` and, after anything
    that leaves its context alone, is switched back to goes on as after a return
    from its call exactly if the port is ARM64. -/
theorem round_trip_iff {m₀ m₂ : Machine port.Reg}
    (haway : port.switcher.Away (Context m₀) (port.switcher.switch m₀) m₂)
    (hnext : m₂.reg port.switcher.next = m₀.reg port.switcher.prev)
    (hprev : ∀ x, Context m₀ x → ¬ Context m₂ x) :
    port.abi.Returned m₀ (port.switcher.switch m₂) ↔ port = .arm64 := by
  cases port with
  | arm64 =>
    refine iff_of_true ?_ rfl
    exact Arm64.returned haway hnext hprev
  | x86_64 =>
    refine iff_of_false ?_ (by decide)
    exact X86.not_returned (X86.back_rsp haway hnext hprev)

end

theorem inRange_demo (n : ℕ) (hn : n ≤ 4096) (x : Word) (h : InRange 0x1000 n x) :
    ¬ InRange 0x2000 n x := by
  unfold InRange at h ⊢
  bv_omega

namespace Arm64

/-- A task with its block at 0x1000 switches to one with its block at 0x2000. -/
def demoLeave : Machine Reg where
  reg r := match r with
    | .x i => if i = 0 then 0x1000 else if i = 1 then 0x2000 else BitVec.ofNat 64 (100 + i)
    | .sp => 0x8000
    | _ => 0
  mem _ := 0

/-- The other task switches back. -/
def demoReturn : Machine Reg :=
  ((switcher.switch demoLeave).set (.x 0) 0x2000).set (.x 1) 0x1000

theorem round_trip_demo : abi.Returned demoLeave (switcher.switch demoReturn) := by
  have haway : Port.arm64.switcher.Away (Context (p := .arm64) demoLeave)
      (switcher.switch demoLeave) demoReturn := .code (.refl _) fun _ _ => rfl
  have happart : ∀ x, Context (p := .arm64) demoLeave x → ¬ Context (p := .arm64) demoReturn x :=
    fun x hx => inRange_demo 272 (by decide) x hx
  exact (round_trip_iff haway rfl happart).2 rfl

end Arm64

namespace X86

/-- A task with its block at 0x1000 switches to one with its block at 0x2000. -/
def demoLeave : Machine Reg where
  reg r := match r with
    | .rdi => 0x1000
    | .rsi => 0x2000
    | .rsp => 0x8000
    | _ => 0
  mem _ := 0

/-- The other task switches back. -/
def demoReturn : Machine Reg := ((switcher.switch demoLeave).set .rdi 0x2000).set .rsi 0x1000

/-- **The return address stays on the stack.** -/
theorem no_round_trip : switcher.Away (InRange (demoLeave.reg .rdi) 64) (switcher.switch demoLeave)
      demoReturn ∧ demoReturn.reg .rsi = demoLeave.reg .rdi ∧
    (switcher.switch demoReturn).reg .rsp = 0x8000 ∧
    ¬ abi.Returned demoLeave (switcher.switch demoReturn) := by
  have haway : switcher.Away (InRange (demoLeave.reg .rdi) 64) (switcher.switch demoLeave)
      demoReturn := .code (.refl _) fun _ _ => rfl
  have hrsp : (switcher.switch demoReturn).reg .rsp = demoLeave.reg .rsp :=
    back_rsp haway rfl fun x hx => inRange_demo 64 (by decide) x hx
  exact ⟨haway, rfl, hrsp, not_returned hrsp⟩

end X86

end Gracemont
