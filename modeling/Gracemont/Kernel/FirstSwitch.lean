/-
  Gracemont kernel — the first activation of a task (`task_create` of both ports,
  `arch_first_switch`, `arch_context_switch`, `task_entry_trampoline`).

  `task_create` prepares the context of a task that has never run, so that a
  switch to it leads to a call of its entry function.  Between the creation and
  the first switch, `Lib.Switcher.Away` leaves the context and the stack alone.
  The code that makes the call, and goes on when it returns, is the trampoline
  on X86_64 and the C function `task_entry_wrapper` on ARM64; of the latter the
  size of its stack frame is left open.

  * `X86.createContext`, `Arm64.createContext`: the context in memory;
  * `Boot`: what a port's first activation consists of; `Boot.Activates` is what
    it is meant to lead to;
  * `activates_iff`: it does on X86_64; on ARM64, where the offsets written and
    read do not agree, it depends on what was in the block before.
-/
import Gracemont.Kernel.ContextSwitch

namespace Gracemont

open Lib

/-! ## What is asked of a port -/

/-- The first activation of a task on a port. `enter` runs from `start` to the
    call of the entry function, `leave` from `afterEntry`, where that call
    returns, to the next function. -/
structure Boot (R : Type) where
  abi : Abi R
  switcher : Switcher R
  archFirstSwitch : Machine R → Machine R
  createContext : Memory → (tcb entry arg stack stackSize : Word) → Memory
  start : Word
  enter : Machine R → Machine R
  afterEntry : Word
  leave : Machine R → Machine R
  taskTerminate : Word

namespace Boot
variable {R : Type} (B : Boot R)

/-- The call of the entry function made in `m₁` has returned in `m₂`: as the
    calling convention says, and what is on the stack above is unchanged. -/
def EntryReturned (stack stackSize : Word) (m₁ m₂ : Machine R) : Prop :=
  B.abi.Returned m₁ m₂ ∧ ∀ x, InRange stack stackSize.toNat x →
    (B.abi.returnSp m₁ - stack).toNat ≤ (x - stack).toNat → m₂.mem x = m₁.mem x

/-- From `m` on, there is one call of `entry` with `arg`, on the given stack, and
    if it returns, `task_terminate` is reached. -/
structure Activates (entry arg stack stackSize : Word) (m : Machine R) : Prop where
  starts : m.reg B.abi.pc = B.start
  calls : (B.enter m).reg B.abi.pc = entry
  passes : (B.enter m).reg B.abi.arg₀ = arg
  onStack : InRange stack stackSize.toNat ((B.enter m).reg B.abi.sp)
  exits : ∀ m₂, B.EntryReturned stack stackSize (B.enter m) m₂ →
    m₂.reg B.abi.pc = B.afterEntry ∧ (B.leave m₂).reg B.abi.pc = B.taskTerminate

/-- The context and the stack of a task. -/
def Own (tcb stack stackSize : Word) (x : Word) : Prop :=
  InRange tcb B.switcher.size x ∨ InRange stack stackSize.toNat x

/-- `m` is reached after the creation of a task, which has not run. -/
structure Created (mem : Memory) (tcb entry arg stack stackSize : Word) (m : Machine R) : Prop where
  apart : ∀ x, InRange stack stackSize.toNat x → ¬ InRange tcb B.switcher.size x
  away : ∃ m₀ : Machine R, m₀.mem = B.createContext mem tcb entry arg stack stackSize ∧
    B.switcher.Away (B.Own tcb stack stackSize) m₀ m

/-- The two ways into a task that has never run. -/
inductive Entry where
  | archFirstSwitch | archContextSwitch
  deriving DecidableEq

/-- The routine called in `m` is called for the task `tcb`; a switch is called
    by another task. -/
def Calls (tcb stack stackSize : Word) (m : Machine R) : Entry → Prop
  | .archFirstSwitch => m.reg B.abi.arg₀ = tcb
  | .archContextSwitch => m.reg B.switcher.next = tcb ∧
    ∀ x, B.Own tcb stack stackSize x → ¬ InRange (m.reg B.switcher.prev) B.switcher.size x

def run (m : Machine R) : Entry → Machine R
  | .archFirstSwitch => B.archFirstSwitch m
  | .archContextSwitch => B.switcher.switch m

end Boot

/-- `sp & ~0xF` -/
def alignDown (sp : Word) : Word := sp &&& ~~~15#64

theorem alignDown_eq (sp : Word) : alignDown sp = sp - BitVec.ofNat 64 (sp.toNat % 16) := by
  have hmask : (alignDown sp).toNat = sp.toNat / 2 ^ 4 * 2 ^ 4 := and_not_lowMask sp (by decide)
  apply BitVec.eq_of_toNat_eq
  rw [hmask, BitVec.toNat_sub, BitVec.toNat_ofNat]
  have hlt := sp.isLt
  omega

/-- The aligned top of a stack, as an offset. -/
theorem alignDown_top (stack stackSize : Word) (h : 16 ≤ stackSize.toNat) :
    ∃ n, stackSize.toNat < n + 16 ∧ n ≤ stackSize.toNat ∧
      alignDown (stack + stackSize) = stack + BitVec.ofNat 64 n := by
  refine ⟨stackSize.toNat - (stack + stackSize).toNat % 16, by omega, by omega, ?_⟩
  rw [alignDown_eq]
  have hlt := stackSize.isLt
  apply BitVec.eq_of_toNat_eq
  simp only [BitVec.toNat_sub, BitVec.toNat_add, BitVec.toNat_ofNat]
  omega

/-! ## X86_64 -/

namespace X86

/-- The addresses of the code: `task_entry_trampoline`, the instructions behind
    its two calls, `task_exit_handler` and `task_terminate`. -/
structure Layout where
  trampoline : Word
  afterEntry : Word
  afterExit : Word
  exitHandler : Word
  terminate : Word

/-- The stack pointer that `task_create` prepares. -/
def createSp (stack stackSize : Word) : Word := alignDown (stack + stackSize) - 24

/-- The stack frame and the context that `task_create` writes. -/
def createContext (L : Layout) (mem : Memory) (tcb entry arg stack stackSize : Word) : Memory :=
  let sp := createSp stack stackSize
  let mem := mem.putWords sp [(0, entry), (8, arg), (16, L.exitHandler)]
  mem.putWords tcb [(0, sp), (8, 0), (16, 0), (24, 0), (32, 0), (40, 0), (48, 0),
    (56, L.trampoline)]

/-- `arch_first_switch`; `sti` is left out. -/
def archFirstSwitch : List (Instr Reg) :=
  [.load .rsp .rdi 0,
    .load .rbx .rdi 8,
    .load .rbp .rdi 16,
    .load .r12 .rdi 24,
    .load .r13 .rdi 32,
    .load .r14 .rdi 40,
    .load .r15 .rdi 48,
    .load .rip .rdi 56]

/-- `pop r` -/
def pop (r : Reg) : List (Instr Reg) := [.load r .rsp 0, .add .rsp 8]

/-- `call r`, with the return address `ret`. -/
def call (r : Reg) (ret : Word) (m : Machine Reg) : Machine Reg where
  reg := Function.update (Function.update m.reg .rsp (m.reg .rsp - 8)) .rip (m.reg r)
  mem := m.mem.store (m.reg .rsp - 8) ret

/-- `task_entry_trampoline`, up to its first call. -/
def trampolineEnter (L : Layout) (m : Machine Reg) : Machine Reg :=
  call .rax L.afterEntry (exec (pop .rax ++ pop .rdi) m)

/-- `task_exit_handler`, which calls `task_terminate`. -/
def taskExitHandler (L : Layout) (m : Machine Reg) : Machine Reg :=
  if m.reg .rip = L.exitHandler then m.set .rip L.terminate else m

/-- `task_entry_trampoline` behind its first call, and `task_exit_handler`. -/
def trampolineLeave (L : Layout) (m : Machine Reg) : Machine Reg :=
  taskExitHandler L (call .rax L.afterExit (exec (pop .rax) m))

def boot (L : Layout) : Boot Reg where
  abi := abi
  switcher := switcher
  archFirstSwitch := exec archFirstSwitch
  createContext := createContext L
  start := L.trampoline
  enter := trampolineEnter L
  afterEntry := L.afterEntry
  leave := trampolineLeave L
  taskTerminate := L.terminate

section
variable {L : Layout} {m : Machine Reg} {tcb entry arg stack stackSize : Word} {mem : Memory}

theorem exec_pop {r : Reg} (h : r ≠ .rsp) (m : Machine Reg) : exec (pop r) m =
    (m.set r (m.mem.load (m.reg .rsp))).set .rsp (m.reg .rsp + 8) := by
  have hzero : m.addr .rsp 0 = m.reg .rsp := BitVec.add_zero _
  simp [pop, Instr.exec, hzero, h.symm]

/-- What the trampoline calls, with what. -/
theorem trampolineEnter_spec (L : Layout) (m : Machine Reg) :
    (trampolineEnter L m).reg .rip = m.mem.load (m.reg .rsp) ∧
    (trampolineEnter L m).reg .rdi = m.mem.load (m.reg .rsp + 8) ∧
    (trampolineEnter L m).reg .rsp = m.reg .rsp + 8 ∧
    (trampolineEnter L m).mem = m.mem.store (m.reg .rsp + 8) L.afterEntry := by
  have hsp : m.reg .rsp + 8 + 8 - 8 = m.reg .rsp + 8 := BitVec.add_sub_cancel _ _
  rw [trampolineEnter, exec_append, exec_pop (by decide), exec_pop (by decide)]
  refine ⟨?_, ?_, ?_, ?_⟩
  · simp [call]
  · simp [call]
  · simp only [call, Machine.set_mem, Machine.set_reg, Function.update_self]
    exact hsp
  · simp only [call, Machine.set_mem, Machine.set_reg, Function.update_self]
    rw [hsp]

theorem trampolineLeave_rip (L : Layout) {m : Machine Reg}
    (h : m.mem.load (m.reg .rsp) = L.exitHandler) : (trampolineLeave L m).reg .rip = L.terminate := by
  rw [trampolineLeave, exec_pop (by decide)]
  simp [taskExitHandler, call, h]

theorem createSp_eq (stack : Word) (h : 39 ≤ stackSize.toNat) : ∃ k, k + 24 ≤ stackSize.toNat ∧
    createSp stack stackSize = stack + BitVec.ofNat 64 k := by
  obtain ⟨n, hlt, hle, htop⟩ := alignDown_top stack stackSize (by omega)
  refine ⟨n - 24, by omega, ?_⟩
  have hn : BitVec.ofNat 64 n = BitVec.ofNat 64 (n - 24) + 24 := by
    rw [show (24 : Word) = BitVec.ofNat 64 24 from rfl, ← BitVec.ofNat_add]
    congr 1
    omega
  rw [createSp, htop, hn, ← BitVec.add_assoc, BitVec.add_sub_cancel]

/-- What `task_create` wrote to the context. -/
theorem createContext_context {p : ℕ × Word} (hp : p ∈ [(0, createSp stack stackSize), (8, 0),
    (16, 0), (24, 0), (32, 0), (40, 0), (48, 0), (56, L.trampoline)]) :
    (createContext L mem tcb entry arg stack stackSize).load (tcb + BitVec.ofNat 64 p.1) = p.2 := by
  refine Memory.putWords_load ?_ hp
  unfold Slots
  constructor
  · simp
  · simp

/-- What `task_create` wrote to the stack. -/
theorem createContext_stack (h : 39 ≤ stackSize.toNat)
    (hapart : ∀ x, InRange stack stackSize.toNat x → ¬ InRange tcb 64 x) {p : ℕ × Word}
    (hp : p ∈ [(0, entry), (8, arg), (16, L.exitHandler)]) :
    (createContext L mem tcb entry arg stack stackSize).load
      (createSp stack stackSize + BitVec.ofNat 64 p.1) = p.2 := by
  have hstack : (mem.putWords (createSp stack stackSize)
      [(0, entry), (8, arg), (16, L.exitHandler)]).load
        (createSp stack stackSize + BitVec.ofNat 64 p.1) = p.2 := by
    refine Memory.putWords_load ?_ hp
    unfold Slots
    constructor
    · simp
    · simp
  refine Eq.trans (Memory.load_congr fun x hx => ?_) hstack
  -- the context is beside the stack
  refine Memory.putWords_frame fun q hq hqx => ?_
  obtain ⟨k, hk, hsp⟩ := createSp_eq stack h
  have hp16 : p.1 ≤ 16 := by
    simp only [List.mem_cons, List.not_mem_nil, or_false] at hp
    rcases hp with rfl | rfl | rfl
    all_goals simp
  have hq56 : q.1 + 8 ≤ 64 := by
    simp only [List.mem_cons, List.not_mem_nil, or_false] at hq
    rcases hq with rfl | rfl | rfl | rfl | rfl | rfl | rfl | rfl
    all_goals simp
  have hlt := stackSize.isLt
  rw [hsp, BitVec.add_assoc, ← BitVec.ofNat_add] at hx
  exact hapart x (hx.offset (by omega) hlt) (hqx.offset hq56 (by decide))

/-- **The trampoline.** -/
theorem activates (h : 39 ≤ stackSize.toNat) (hrip : m.reg .rip = L.trampoline)
    (hrsp : m.reg .rsp = createSp stack stackSize)
    (hmem : ∀ p ∈ [(0, entry), (8, arg), (16, L.exitHandler)],
      m.mem.load (createSp stack stackSize + BitVec.ofNat 64 p.1) = p.2) :
    (boot L).Activates entry arg stack stackSize m := by
  obtain ⟨k, hk, hsp⟩ := createSp_eq stack h
  obtain ⟨hcall, hpass, hspe, hmeme⟩ := trampolineEnter_spec L m
  have hlt := stackSize.isLt
  have hsp8 : m.reg .rsp + 8 = stack + BitVec.ofNat 64 (k + 8) := by
    rw [hrsp, hsp, BitVec.add_assoc, BitVec.ofNat_add]
    rfl
  have hsp16 : m.reg .rsp + 8 + 8 = stack + BitVec.ofNat 64 (k + 16) := by
    rw [hsp8, BitVec.add_assoc]
    congr 1
    exact (BitVec.ofNat_add (k + 8) 8).symm
  have hw : ∀ p ∈ [(0, entry), (8, arg), (16, L.exitHandler)],
      m.mem.load (stack + BitVec.ofNat 64 (k + p.1)) = p.2 := by
    intro p hp
    rw [← hmem p hp, hsp, BitVec.add_assoc, BitVec.ofNat_add]
  refine ⟨hrip, ?_, ?_, ?_, ?_⟩
  · refine hcall.trans ?_
    rw [hrsp, hsp]
    exact hw (0, entry) (by simp)
  · refine hpass.trans ?_
    rw [hsp8]
    exact hw (8, arg) (by simp)
  · change InRange stack stackSize.toNat ((trampolineEnter L m).reg .rsp)
    rw [hspe, hsp8]
    unfold InRange
    rw [BitVec.add_comm, BitVec.add_sub_cancel, BitVec.toNat_ofNat, Nat.mod_eq_of_lt (by omega)]
    omega
  · rintro m₂ ⟨⟨hpc, hsp₂, -⟩, hkeep⟩
    have hret : (trampolineEnter L m).mem.load ((trampolineEnter L m).reg .rsp) = L.afterEntry := by
      rw [hspe, hmeme, Memory.load_store]
    have hsp₂ : m₂.reg .rsp = stack + BitVec.ofNat 64 (k + 16) := by
      rw [← hsp16, ← hspe]
      exact hsp₂
    refine ⟨hpc.trans hret, trampolineLeave_rip L ?_⟩
    -- the exit handler is above the frame of the call
    have hexit : m.mem.load (stack + BitVec.ofNat 64 (k + 16)) = L.exitHandler :=
      hw (16, L.exitHandler) (by simp)
    rw [hsp₂, ← hexit]
    refine Memory.load_congr fun x hx => ?_
    have hoff := hx.offset_toNat (by omega)
    have habove : (trampolineEnter L m).reg .rsp + 8 - stack = BitVec.ofNat 64 (k + 16) := by
      rw [hspe, hsp16, BitVec.add_comm, BitVec.add_sub_cancel]
    have hx₂ : m₂.mem x = (trampolineEnter L m).mem x := by
      refine hkeep x (hx.offset (by omega) hlt) ?_
      change ((trampolineEnter L m).reg .rsp + 8 - stack).toNat ≤ _
      rw [habove, BitVec.toNat_ofNat, Nat.mod_eq_of_lt (by omega)]
      exact hoff.1
    rw [hx₂, hmeme, hsp8]
    refine Memory.store_of_not_inRange _ _ _ fun hx8 => ?_
    exact hx8.apart (p := k + 16) (by omega) (by omega) (by omega) hx

/-- Both routines load the context that `task_create` wrote. -/
theorem activates_run (h : 39 ≤ stackSize.toNat)
    (hc : (boot L).Created mem tcb entry arg stack stackSize m) (e : Boot.Entry)
    (hcall : (boot L).Calls tcb stack stackSize m e) :
    (boot L).Activates entry arg stack stackSize ((boot L).run m e) := by
  obtain ⟨m₀, hm₀, haway⟩ := hc.away
  have hm₀ : m₀.mem = createContext L mem tcb entry arg stack stackSize := hm₀
  have hctx : ∀ p ∈ loadSlots, ((boot L).run m e).reg p.2 = m₀.mem.load (tcb + BitVec.ofNat 64 p.1) := by
    intro p hp
    cases e with
    | archFirstSwitch =>
      obtain rfl : m.reg .rdi = tcb := hcall
      have hlist : archFirstSwitch = loads .rdi loadSlots := rfl
      change (exec archFirstSwitch m).reg p.2 = _
      rw [hlist, exec_loads_reg (by decide) (by decide) m hp]
      refine Memory.load_congr fun x hx => haway.mem (.inl ?_)
      exact hx.offset (switcher.fits p hp) switcher.size_lt
    | archContextSwitch =>
      obtain ⟨hnext, hprev⟩ := hcall
      have hK : ∀ x, InRange (m.reg switcher.next) switcher.size x →
          (boot L).Own tcb stack stackSize x := by
        intro x hx
        rw [show m.reg switcher.next = tcb from hnext] at hx
        exact .inl hx
      refine (Switcher.restore_eq haway hK hprev hp).trans ?_
      exact congrArg (fun a => m₀.mem.load (a + BitVec.ofNat 64 p.1)) hnext
  have hown : ∀ x, (boot L).Own tcb stack stackSize x → ((boot L).run m e).mem x = m₀.mem x := by
    intro x hx
    cases e with
    | archFirstSwitch =>
      have hlist : archFirstSwitch = loads .rdi loadSlots := rfl
      change (exec archFirstSwitch m).mem x = _
      rw [hlist, exec_loads_mem]
      exact haway.mem hx
    | archContextSwitch => exact (switcher.frame m x (hcall.2 x hx)).trans (haway.mem hx)
  refine activates h ?_ ?_ ?_
  · rw [hctx (56, .rip) (by decide), hm₀]
    exact createContext_context (p := (56, L.trampoline)) (by simp)
  · rw [hctx (0, .rsp) (by decide), hm₀]
    exact createContext_context (p := (0, createSp stack stackSize)) (by simp)
  · intro p hp
    rw [← createContext_stack h hc.apart hp, ← hm₀]
    refine Memory.load_congr fun x hx => hown x (.inr ?_)
    obtain ⟨k, hk, hsp⟩ := createSp_eq stack h
    have hp16 : p.1 ≤ 16 := by
      simp only [List.mem_cons, List.not_mem_nil, or_false] at hp
      rcases hp with rfl | rfl | rfl
      all_goals simp
    rw [hsp, BitVec.add_assoc, ← BitVec.ofNat_add] at hx
    exact hx.offset (by omega) stackSize.isLt

end

end X86

/-! ## ARM64 -/

namespace Arm64

/-- The addresses of the code: `task_entry_wrapper`, where its call of the entry
    function returns, and `task_terminate`; and the size of its frame. -/
structure Layout where
  wrapper : Word
  afterEntry : Word
  terminate : Word
  frame : ℕ

/-- The stack pointer that `task_create` prepares. -/
def createSp (stack stackSize : Word) : Word := alignDown (stack + stackSize) - 272

/-- The context that `task_create` writes: `regs[i]` is at the offset `8 + 8 * i`. -/
def createContext (L : Layout) (mem : Memory) (tcb entry arg stack stackSize : Word) : Memory :=
  mem.putWords tcb [(8, entry), (16, arg), (240, 0), (248, 0), (256, L.wrapper), (264, 0x305),
    (0, createSp stack stackSize)]

/-- `arch_first_switch`, up to `x30`. -/
def firstSwitchCallee : List (Instr Reg) :=
  [.load (.x 2) (.x 0) 0,
    .move .sp (.x 2)] ++
  ldp (.x 19) (.x 20) (.x 0) 8 ++
  ldp (.x 21) (.x 22) (.x 0) 24 ++
  ldp (.x 23) (.x 24) (.x 0) 40 ++
  ldp (.x 25) (.x 26) (.x 0) 56 ++
  ldp (.x 27) (.x 28) (.x 0) 72 ++
  ldp (.x 29) (.x 30) (.x 0) 88

/-- `arch_first_switch`; `msr daifclr` is left out. -/
def archFirstSwitch : List (Instr Reg) :=
  firstSwitchCallee ++
  ldp (.x 0) (.x 1) (.x 0) 104 ++
  [.move .pc (.x 30)]

/-- `task_entry_wrapper` (`entry`, `arg`), up to its call of `entry`. -/
def wrapperEnter (L : Layout) (m : Machine Reg) : Machine Reg :=
  (((m.set .sp (m.reg .sp - BitVec.ofNat 64 L.frame)).set (.x 30) L.afterEntry).set .pc
    (m.reg (.x 0))).set (.x 0) (m.reg (.x 1))

/-- `task_entry_wrapper` behind the call of `entry`. -/
def wrapperLeave (L : Layout) (m : Machine Reg) : Machine Reg := m.set .pc L.terminate

def boot (L : Layout) : Boot Reg where
  abi := abi
  switcher := switcher
  archFirstSwitch := exec archFirstSwitch
  createContext := createContext L
  start := L.wrapper
  enter := wrapperEnter L
  afterEntry := L.afterEntry
  leave := wrapperLeave L
  taskTerminate := L.terminate

/-- What was in the block, or in the registers, before happens to be what
    `task_entry_wrapper` needs. -/
def Coincides (L : Layout) (mem : Memory) (tcb entry arg : Word) (m : Machine Reg) :
    Boot.Entry → Prop
  | .archFirstSwitch => mem.load (tcb + 96) = L.wrapper ∧ mem.load (tcb + 104) = entry ∧
    mem.load (tcb + 112) = arg
  | .archContextSwitch => mem.load (tcb + 96) = L.wrapper ∧ m.reg (.x 0) = entry ∧ tcb = arg

section
variable {L : Layout} {m : Machine Reg} {tcb entry arg stack stackSize : Word} {mem : Memory}

/-- The stack pointer of the wrapper's call is on the stack. -/
theorem createSp_inRange (h : 287 + L.frame ≤ stackSize.toNat) :
    InRange stack stackSize.toNat (createSp stack stackSize - BitVec.ofNat 64 L.frame) := by
  obtain ⟨n, hlt, hle, htop⟩ := alignDown_top stack stackSize (by omega)
  have hsize := stackSize.isLt
  have hoff : createSp stack stackSize - BitVec.ofNat 64 L.frame - stack =
      BitVec.ofNat 64 (n - 272 - L.frame) := by
    have hn : BitVec.ofNat 64 n =
        BitVec.ofNat 64 (n - 272 - L.frame) + BitVec.ofNat 64 L.frame + 272 := by
      rw [show (272 : Word) = BitVec.ofNat 64 272 from rfl, ← BitVec.ofNat_add, ← BitVec.ofNat_add]
      congr 1
      omega
    rw [createSp, htop, hn, ← BitVec.add_assoc, BitVec.add_sub_cancel, ← BitVec.add_assoc,
      BitVec.add_sub_cancel, BitVec.add_comm, BitVec.add_sub_cancel]
  unfold InRange
  rw [hoff, BitVec.toNat_ofNat, Nat.mod_eq_of_lt (by omega)]
  omega

/-- The stack pointer that `task_create` wrote. -/
theorem createContext_sp : (createContext L mem tcb entry arg stack stackSize).load
    (tcb + BitVec.ofNat 64 0) = createSp stack stackSize := by
  refine Memory.putWords_load (p := (0, createSp stack stackSize)) ?_ (by simp)
  unfold Slots
  constructor
  · simp
  · simp

/-- What `task_create` did not write. -/
theorem createContext_leftover {o : ℕ} (ho : 24 ≤ o) (ho' : o + 8 ≤ 240) :
    (createContext L mem tcb entry arg stack stackSize).load (tcb + BitVec.ofNat 64 o) =
      mem.load (tcb + BitVec.ofNat 64 o) := by
  refine Memory.putWords_load_apart fun p hp x hx => hx.apart ?_ (by omega) ?_
  · simp only [List.mem_cons, List.not_mem_nil, or_false] at hp
    rcases hp with rfl | rfl | rfl | rfl | rfl | rfl | rfl
    all_goals
      dsimp only
      omega
  · simp only [List.mem_cons, List.not_mem_nil, or_false] at hp
    rcases hp with rfl | rfl | rfl | rfl | rfl | rfl | rfl
    all_goals simp

/-- Loading the stack pointer from `x0`. -/
def firstSp (m : Machine Reg) : Machine Reg :=
  (m.set (.x 2) (m.mem.load (m.addr (.x 0) 0))).set .sp (m.mem.load (m.addr (.x 0) 0))

theorem firstSp_reg {r : Reg} (h₂ : r ≠ .x 2) (hsp : r ≠ .sp) (m : Machine Reg) :
    (firstSp m).reg r = m.reg r :=
  (Function.update_of_ne hsp ..).trans (Function.update_of_ne h₂ ..)

theorem firstSp_mem (m : Machine Reg) : (firstSp m).mem = m.mem := rfl

theorem exec_firstSp (m : Machine Reg) :
    Instr.exec (Instr.exec m (.load (.x 2) (.x 0) 0)) (.move .sp (.x 2)) = firstSp m := rfl

theorem firstSwitchCallee_unpair : firstSwitchCallee.flatMap Instr.unpair =
    .load (.x 2) (.x 0) 0 :: .move .sp (.x 2) :: loads (.x 0) calleeSlots := rfl

theorem firstSwitchCallee_keepsBase : ∀ i ∈ firstSwitchCallee, i.KeepsBase := by decide

/-- The machine before the last three loads. -/
def calleeLoaded (m : Machine Reg) : Machine Reg := exec (loads (.x 0) calleeSlots) (firstSp m)

theorem exec_firstSwitchCallee (m : Machine Reg) : exec firstSwitchCallee m = calleeLoaded m := by
  rw [← exec_unpair firstSwitchCallee_keepsBase, firstSwitchCallee_unpair, exec_cons, exec_cons,
    exec_firstSp, calleeLoaded]

theorem calleeLoaded_mem (m : Machine Reg) : (calleeLoaded m).mem = m.mem := by
  rw [calleeLoaded, exec_loads_mem, firstSp_mem]

theorem calleeLoaded_x0 (m : Machine Reg) : (calleeLoaded m).reg (.x 0) = m.reg (.x 0) := by
  rw [calleeLoaded, exec_loads_of_not_mem (by decide), firstSp_reg (by decide) (by decide)]

theorem calleeLoaded_sp (m : Machine Reg) :
    (calleeLoaded m).reg .sp = m.mem.load (m.reg (.x 0) + BitVec.ofNat 64 0) := by
  rw [calleeLoaded, exec_loads_of_not_mem (by decide), firstSp, Machine.set_reg,
    Function.update_self, Machine.addr]

theorem calleeLoaded_x30 (m : Machine Reg) :
    (calleeLoaded m).reg (.x 30) = m.mem.load (m.reg (.x 0) + BitVec.ofNat 64 96) := by
  have h30 : (96, Reg.x 30) ∈ calleeSlots := by decide
  have hload : (exec (loads (.x 0) calleeSlots) (firstSp m)).reg (.x 30) = _ :=
    exec_loads_reg (by decide) (by decide) (firstSp m) h30
  rw [calleeLoaded, hload, firstSp_mem, Machine.addr, firstSp_reg (by decide) (by decide)]

/-- **`arch_first_switch`.** -/
theorem archFirstSwitch_spec (m : Machine Reg) :
    (exec archFirstSwitch m).reg .pc = m.mem.load (m.reg (.x 0) + BitVec.ofNat 64 96) ∧
    (exec archFirstSwitch m).reg .sp = m.mem.load (m.reg (.x 0) + BitVec.ofNat 64 0) ∧
    (exec archFirstSwitch m).reg (.x 0) = m.mem.load (m.reg (.x 0) + BitVec.ofNat 64 104) ∧
    (exec archFirstSwitch m).reg (.x 1) = m.mem.load (m.reg (.x 0) + BitVec.ofNat 64 112) := by
  rw [archFirstSwitch, exec_append, exec_append, exec_firstSwitchCallee]
  simp only [ldp, exec_cons, exec_nil, Instr.exec]
  refine ⟨?_, ?_, ?_, ?_⟩
  · rw [Machine.set_reg, Function.update_self, ← calleeLoaded_x30]
    simp
  · rw [← calleeLoaded_sp]
    simp
  · simp [Machine.addr, calleeLoaded_mem, calleeLoaded_x0]
  · simp [Machine.addr, calleeLoaded_mem, calleeLoaded_x0]

/-- `arch_context_switch` keeps the registers that it does not use. -/
theorem archContextSwitch_arg {r : Reg} (hr : r = .x 0 ∨ r = .x 1) (m : Machine Reg) :
    (exec archContextSwitch m).reg r = m.reg r := by
  have hne : r ≠ .x 2 ∧ r ≠ .x 3 ∧ r ≠ .sp ∧ r ≠ .elr ∧ r ≠ .spsr ∧ r ≠ .pc ∧
      r ∉ calleeSlots.map Prod.snd ∧ r ∉ statusSlots.map Prod.snd := by
    rcases hr with rfl | rfl
    · decide
    · decide
  obtain ⟨h₂, h₃, hsp, he, hs, hpc, hcallee, hstatus⟩ := hne
  rw [exec_archContextSwitch]
  have hfinish : ∀ n : Machine Reg, (finish n).reg r = n.reg r := by
    intro n
    simp only [finish, Machine.set_reg]
    rw [Function.update_of_ne hpc, Function.update_of_ne hs, Function.update_of_ne he]
  rw [hfinish, loadContext, exec_loads_of_not_mem hstatus, exec_loads_of_not_mem hcallee,
    loadSp_reg h₂ hsp, saveContext_reg h₂ h₃]

theorem wrapperEnter_spec (L : Layout) (m : Machine Reg) :
    (wrapperEnter L m).reg .pc = m.reg (.x 0) ∧ (wrapperEnter L m).reg (.x 0) = m.reg (.x 1) ∧
    (wrapperEnter L m).reg .sp = m.reg .sp - BitVec.ofNat 64 L.frame ∧
    (wrapperEnter L m).reg (.x 30) = L.afterEntry := by
  simp [wrapperEnter]

/-- **The wrapper.**  It must be reached, with the entry function and its
    argument in `x0` and `x1`. -/
theorem activates_iff_regs (h : 287 + L.frame ≤ stackSize.toNat)
    (hsp : m.reg .sp = createSp stack stackSize) :
    (boot L).Activates entry arg stack stackSize m ↔
      m.reg .pc = L.wrapper ∧ m.reg (.x 0) = entry ∧ m.reg (.x 1) = arg := by
  obtain ⟨hpc, hx0, hspe, hx30⟩ := wrapperEnter_spec L m
  constructor
  · rintro ⟨hstart, hcalls, hpasses, -, -⟩
    exact ⟨hstart, hpc.symm.trans hcalls, hx0.symm.trans hpasses⟩
  · rintro ⟨hstart, hcalls, hpasses⟩
    refine ⟨hstart, hpc.trans hcalls, hx0.trans hpasses, ?_, ?_⟩
    · change InRange stack stackSize.toNat ((wrapperEnter L m).reg .sp)
      rw [hspe, hsp]
      exact createSp_inRange h
    · rintro m₂ ⟨⟨hret, -⟩, -⟩
      refine ⟨hret.trans hx30, ?_⟩
      change (m₂.set .pc L.terminate).reg .pc = L.terminate
      rw [Machine.set_reg, Function.update_self]

/-- Both routines load a context whose `x30`, and `x0` and `x1`, `task_create` did
    not write. -/
theorem activates_run_iff (h : 287 + L.frame ≤ stackSize.toNat)
    (hc : (boot L).Created mem tcb entry arg stack stackSize m) (e : Boot.Entry)
    (hcall : (boot L).Calls tcb stack stackSize m e) :
    (boot L).Activates entry arg stack stackSize ((boot L).run m e) ↔
      Coincides L mem tcb entry arg m e := by
  obtain ⟨m₀, hm₀, haway⟩ := hc.away
  have hm₀ : m₀.mem = createContext L mem tcb entry arg stack stackSize := hm₀
  have hkept : ∀ o, o + 8 ≤ 272 →
      m.mem.load (tcb + BitVec.ofNat 64 o) = m₀.mem.load (tcb + BitVec.ofNat 64 o) := by
    intro o ho
    refine Memory.load_congr fun x hx => haway.mem (.inl ?_)
    exact hx.offset ho switcher.size_lt
  have hleft : ∀ o, 24 ≤ o → o + 8 ≤ 240 →
      m₀.mem.load (tcb + BitVec.ofNat 64 o) = mem.load (tcb + BitVec.ofNat 64 o) := by
    intro o ho ho'
    rw [hm₀]
    exact createContext_leftover ho ho'
  have hsp₀ : m₀.mem.load (tcb + BitVec.ofNat 64 0) = createSp stack stackSize := by
    rw [hm₀]
    exact createContext_sp
  cases e with
  | archFirstSwitch =>
    obtain rfl : m.reg (.x 0) = tcb := hcall
    obtain ⟨hpc, hsp, hx0, hx1⟩ := archFirstSwitch_spec m
    rw [hkept 96 (by decide), hleft 96 (by decide) (by decide)] at hpc
    rw [hkept 0 (by decide), hsp₀] at hsp
    rw [hkept 104 (by decide), hleft 104 (by decide) (by decide)] at hx0
    rw [hkept 112 (by decide), hleft 112 (by decide) (by decide)] at hx1
    change (boot L).Activates entry arg stack stackSize (exec archFirstSwitch m) ↔ _
    rw [activates_iff_regs h hsp, hpc, hx0, hx1]
    exact Iff.rfl
  | archContextSwitch =>
    obtain ⟨hnext, hprev⟩ := hcall
    have hnext : m.reg (.x 1) = tcb := hnext
    have hK : ∀ x, InRange (m.reg switcher.next) switcher.size x →
        (boot L).Own tcb stack stackSize x := by
      intro x hx
      exact .inl (hnext ▸ hx)
    have hback : ∀ p ∈ switcher.restored,
        (switcher.switch m).reg p.2 = m₀.mem.load (tcb + BitVec.ofNat 64 p.1) := by
      intro p hp
      refine (Switcher.restore_eq haway hK hprev hp).trans ?_
      exact congrArg (fun a => m₀.mem.load (a + BitVec.ofNat 64 p.1)) hnext
    have hpc : (exec archContextSwitch m).reg .pc = mem.load (tcb + BitVec.ofNat 64 96) :=
      (hback (96, .pc) (by decide)).trans (hleft 96 (by decide) (by decide))
    have hsp : (exec archContextSwitch m).reg .sp = createSp stack stackSize :=
      (hback (0, .sp) (by decide)).trans hsp₀
    change (boot L).Activates entry arg stack stackSize (exec archContextSwitch m) ↔ _
    rw [activates_iff_regs h hsp, hpc, archContextSwitch_arg (.inl rfl),
      archContextSwitch_arg (.inr rfl), hnext]
    exact Iff.rfl

end

end Arm64

/-! ## Both ports -/

/-- The code of a port in memory. -/
def Port.Layout : Port → Type
  | .arm64 => Arm64.Layout
  | .x86_64 => X86.Layout

def Port.boot : (p : Port) → p.Layout → Boot p.Reg
  | .arm64 => Arm64.boot
  | .x86_64 => X86.boot

/-- A stack that is large enough. -/
def Port.minStack : (p : Port) → p.Layout → ℕ
  | .arm64, L => 287 + Arm64.Layout.frame L
  | .x86_64, _ => 39

/-- On ARM64, the leftovers coincide. -/
def Port.Coincides : (p : Port) → p.Layout → Memory → (tcb entry arg : Word) → Machine p.Reg →
    Boot.Entry → Prop
  | .arm64, L => Arm64.Coincides L
  | .x86_64, _ => fun _ _ _ _ _ _ => True

/-- **First activation.**  The first switch to a task that was created with a large
    enough stack leads to one call of its entry function with its argument, on its
    own stack, and from the return of that call to `task_terminate`: always on
    X86_64, and on ARM64 exactly if the leftovers coincide. -/
theorem activates_iff {p : Port} (L : p.Layout) {mem : Memory}
    {tcb entry arg stack stackSize : Word} {m : Machine p.Reg}
    (hstack : p.minStack L ≤ stackSize.toNat)
    (hc : (p.boot L).Created mem tcb entry arg stack stackSize m) (e : Boot.Entry)
    (hcall : (p.boot L).Calls tcb stack stackSize m e) :
    (p.boot L).Activates entry arg stack stackSize ((p.boot L).run m e) ↔
      p.Coincides L mem tcb entry arg m e := by
  cases p with
  | arm64 => exact Arm64.activates_run_iff hstack hc e hcall
  | x86_64 => exact iff_of_true (X86.activates_run hstack hc e hcall) trivial

theorem inRange_stack (n : ℕ) (hn : n ≤ 4096) (x : Word) (h : InRange 0x8000 4096 x) :
    ¬ InRange 0x1000 n x := by
  unfold InRange at h ⊢
  bv_omega

namespace X86

def demoLayout : Layout := ⟨0x400, 0x405, 0x407, 0x500, 0x600⟩

/-- A task has been created, and `arch_first_switch` is called for it. -/
def demoFirst : Machine Reg where
  reg r := if r = .rdi then 0x1000 else 0
  mem := createContext demoLayout (fun _ => 0) 0x1000 0x700 42 0x8000 4096

theorem activates_demo : (boot demoLayout).Activates 0x700 42 0x8000 4096
    ((boot demoLayout).run demoFirst .archFirstSwitch) := by
  have hcreated : (Port.x86_64.boot demoLayout).Created (fun _ => 0) 0x1000 0x700 42 0x8000 4096
      demoFirst := ⟨inRange_stack 64 (by decide), demoFirst, rfl, .refl _⟩
  have hstack : Port.x86_64.minStack demoLayout ≤ (4096 : Word).toNat := by decide
  exact (activates_iff (p := .x86_64) demoLayout hstack hcreated .archFirstSwitch rfl).2 trivial

end X86

namespace Arm64

def demoLayout : Layout := ⟨0x400, 0x404, 0x600, 16⟩

/-- A task has been created in a zeroed block, and `arch_first_switch` is called
    for it. -/
def demoFirst : Machine Reg where
  reg r := if r = .x 0 then 0x1000 else 0
  mem := createContext demoLayout (fun _ => 0) 0x1000 0x700 42 0x8000 4096

/-- **A task in a zeroed block is entered at the address 0.** -/
theorem entered_at_zero :
    (boot demoLayout).Created (fun _ => 0) 0x1000 0x700 42 0x8000 4096 demoFirst ∧
    (boot demoLayout).Calls 0x1000 0x8000 4096 demoFirst .archFirstSwitch ∧
    ((boot demoLayout).run demoFirst .archFirstSwitch).reg .pc = 0 ∧
    ¬ (boot demoLayout).Activates 0x700 42 0x8000 4096
      ((boot demoLayout).run demoFirst .archFirstSwitch) := by
  have hcreated : (boot demoLayout).Created (fun _ => 0) 0x1000 0x700 42 0x8000 4096 demoFirst :=
    ⟨inRange_stack 272 (by decide), demoFirst, rfl, .refl _⟩
  have hpc : (exec archFirstSwitch demoFirst).reg .pc = 0 := by
    refine (archFirstSwitch_spec demoFirst).1.trans ?_
    have hleft : (createContext demoLayout (fun _ => 0) 0x1000 0x700 42 0x8000 4096).load
        (0x1000 + BitVec.ofNat 64 96) = Memory.load (fun _ => 0) (0x1000 + BitVec.ofNat 64 96) :=
      createContext_leftover (by decide) (by decide)
    exact hleft
  refine ⟨hcreated, rfl, hpc, fun h => ?_⟩
  have hstart : (0 : Word) = 0x400 := hpc.symm.trans h.starts
  revert hstart
  decide

end Arm64

end Gracemont
