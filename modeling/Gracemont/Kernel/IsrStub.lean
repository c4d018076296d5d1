/-
  Gracemont kernel — the interrupt stubs of the X86_64 port
  (`arch/x86_64/interrupt_vectors.asm`), with the C handlers' view of the stack
  (`interrupt_frame_t`).

  A stub has three parts: what it does up to its conditional jump (`isrSave`),
  the call of one of the handlers, and the way back (`isrRestore`).  The stack
  at the call is one list of words (`saved_holds`).

  The way back is right (`returns`).  The word with `ds`, which the stub pushes
  last, is in no field of the C type: every field is read one slot off, and the
  stub takes the error code for the vector.
-/
import Gracemont.Kernel.Types
import Gracemont.Lib.PushDown

namespace Gracemont.Isr

open Lib

inductive Reg where
  | rax | rbx | rcx | rdx | rsi | rdi | rbp | rsp
  | r8 | r9 | r10 | r11 | r12 | r13 | r14 | r15
  | rip | rflags | cs | ss | ds | es
  deriving DecidableEq

/-- The general-purpose registers, without `rsp`, as the stub pushes them. -/
def general : List Reg :=
  [.rax, .rbx, .rcx, .rdx, .rsi, .rdi, .rbp, .r8, .r9, .r10, .r11, .r12, .r13, .r14, .r15]

/-! ## Instructions -/

/-- The low 16 bits of a register are replaced. -/
def setLow (old new : Word) : Word := (old &&& ~~~0xffff) ||| (new &&& 0xffff)

/-- One bit of a word is replaced. -/
def setBit (w : Word) (i : ℕ) (b : Bool) : Word :=
  if b then w ||| BitVec.twoPow 64 i else w &&& ~~~(BitVec.twoPow 64 i)

/-- The status bits after the comparison of `a` with `b`: CF, PF, AF, ZF, SF, OF. -/
def statusBits (a b : Word) : List (ℕ × Bool) :=
  [(0, a.ult b), (2, (List.range 8).countP (a - b).getLsbD % 2 == 0),
    (4, (a.setWidth 4).ult (b.setWidth 4)), (6, a == b), (7, (a - b).msb),
    (11, a.msb != b.msb && (a - b).msb != a.msb)]

@[simp] theorem setBit_self (w : Word) {i : ℕ} (hi : i < 64) (b : Bool) :
    (setBit w i b).getLsbD i = b := by
  cases b
  · simp [setBit, hi]
  · simp [setBit, hi]

theorem setBit_of_ne (w : Word) {i j : ℕ} (hij : i ≠ j) (b : Bool) :
    (setBit w i b).getLsbD j = w.getLsbD j := by
  cases b
  · rcases Nat.lt_or_ge j 64 with hj | hj
    · simp [setBit, hj, Ne.symm hij]
    · simp [setBit, hj, BitVec.getLsbD_of_ge]
  · simp [setBit, hij]

def compareFlags (flags a b : Word) : Word :=
  (statusBits a b).foldl (fun w p => setBit w p.1 p.2) flags

/-- `mov16` and `movImm16` are the moves to and from `ax` and the segment registers. -/
inductive Instr where
  | push (src : Reg)
  | pushImm (c : Word)
  | pop (dst : Reg)
  | mov (dst src : Reg)
  | mov16 (dst src : Reg)
  | movImm16 (dst : Reg) (c : Word)
  | load (dst base : Reg) (off : ℕ)
  | cmp (r : Reg) (c : Word)
  | add (r : Reg) (c : Word)
  | iretq

def interruptReturn (m : Machine Reg) : Machine Reg :=
  let m := m.popRegs .rsp [.rip, .cs, .rflags]
  (m.set .ss (m.mem.load (m.addr .rsp 8))).set .rsp (m.mem.load (m.reg .rsp))

def Instr.exec (m : Machine Reg) : Instr → Machine Reg
  | .push src => m.push .rsp (m.reg src)
  | .pushImm c => m.push .rsp c
  | .pop dst => m.pop .rsp dst
  | .mov dst src => m.set dst (m.reg src)
  | .mov16 dst src => m.set dst (setLow (m.reg dst) (m.reg src))
  | .movImm16 dst c => m.set dst (setLow (m.reg dst) c)
  | .load dst base off => m.set dst (m.mem.load (m.addr base off))
  | .cmp r c => m.set .rflags (compareFlags (m.reg .rflags) (m.reg r) c)
  | .add r c => m.set r (m.reg r + c)
  | .iretq => interruptReturn m

def exec (is : List Instr) (m : Machine Reg) : Machine Reg := is.foldl Instr.exec m

theorem exec_append (is js : List Instr) (m : Machine Reg) :
    exec (is ++ js) m = exec js (exec is m) := List.foldl_append

theorem exec_push (rs : List Reg) (m : Machine Reg) :
    exec (rs.map .push) m = m.pushRegs .rsp rs := List.foldl_map ..

theorem exec_pop (rs : List Reg) (m : Machine Reg) :
    exec (rs.map .pop) m = m.popRegs .rsp rs := List.foldl_map ..

/-! ## The stubs -/

/-- The vectors that have a stub. -/
abbrev Vector : Type := {v : ℕ // v < 48 ∨ v = 255}

/-- The CPU pushes an error code (`ISR_ERRCODE`). -/
def hasErrorCode (v : Vector) : Bool := decide (v.1 ∈ [8, 10, 11, 12, 13, 14, 17, 21])

/-- `ISR_NOERRCODE`, `ISR_ERRCODE` -/
def isr (v : Vector) : List Instr :=
  if hasErrorCode v then [.pushImm (BitVec.ofNat 64 v.1)]
  else [.pushImm 0, .pushImm (BitVec.ofNat 64 v.1)]

/-- `isr_common_stub`, up to `jl` -/
def isrSave : List Instr :=
  [.push .rax, .push .rbx, .push .rcx, .push .rdx, .push .rsi, .push .rdi, .push .rbp, .push .r8,
    .push .r9, .push .r10, .push .r11, .push .r12, .push .r13, .push .r14, .push .r15,
    .mov16 .rax .ds, .push .rax,
    .movImm16 .rax 0x10, .mov16 .ds .rax, .mov16 .es .rax,
    .mov .rdi .rsp,
    .load .rax .rsp 136, .cmp .rax 32]

inductive Handler where
  | exceptionHandler | irqHandler
  deriving DecidableEq

/-- `jl .exception` -/
def isrHandler (m : Machine Reg) : Handler :=
  if (m.reg .rflags).getLsbD 7 != (m.reg .rflags).getLsbD 11 then .exceptionHandler
  else .irqHandler

/-- `isr_common_stub`, from `.done` on -/
def isrRestore : List Instr :=
  [.pop .rax, .mov16 .ds .rax, .mov16 .es .rax,
    .pop .r15, .pop .r14, .pop .r13, .pop .r12, .pop .r11, .pop .r10, .pop .r9, .pop .r8,
    .pop .rbp, .pop .rdi, .pop .rsi, .pop .rdx, .pop .rcx, .pop .rbx, .pop .rax,
    .add .rsp 16, .iretq]

/-! ## The frame of the handlers -/

/-- `interrupt_frame_t` -/
structure InterruptFrame where
  r15 : Word
  r14 : Word
  r13 : Word
  r12 : Word
  r11 : Word
  r10 : Word
  r9 : Word
  r8 : Word
  rbp : Word
  rdi : Word
  rsi : Word
  rdx : Word
  rcx : Word
  rbx : Word
  rax : Word
  intNo : Word
  errorCode : Word
  rip : Word
  cs : Word
  rflags : Word
  rsp : Word
  ss : Word
  deriving DecidableEq

/-- `sizeof(interrupt_frame_t)` -/
def frameSize : ℕ := 176

/-- The fields at an address. -/
def frameAt (mem : Memory) (p : Word) : InterruptFrame :=
  let word i := mem.load (p + BitVec.ofNat 64 (8 * i))
  ⟨word 0, word 1, word 2, word 3, word 4, word 5, word 6, word 7, word 8, word 9, word 10, word 11,
    word 12, word 13, word 14, word 15, word 16, word 17, word 18, word 19, word 20, word 21⟩

/-! ## An interrupt -/

/-- The state of the CPU when the interrupt comes.  Of the reserved bits of
    `rflags`, bit 1 is set and bit 3 is clear. -/
structure Interrupted extends Machine Reg where
  bitOne : (reg .rflags).getLsbD 1 = true
  bitThree : (reg .rflags).getLsbD 3 = false

/-- What the CPU pushes. -/
def hardware (cpu : Machine Reg) (v : Vector) (code : Word) : List Word :=
  [cpu.reg .ss, cpu.reg .rsp, cpu.reg .rflags, cpu.reg .cs, cpu.reg .rip] ++
    if hasErrorCode v then [code] else []

/-- The CPU delivers the interrupt: it pushes on the stack at `top` and loads
    `ss`, `cs`, `rip` and `rflags`. -/
def deliver (cpu : Machine Reg) (top : Word) (gate : Reg → Word) (v : Vector) (code : Word) :
    Machine Reg :=
  let m := (cpu.set .rsp top).pushAll .rsp (hardware cpu v code)
  { m with reg r := if r = .ss ∨ r = .cs ∨ r = .rip ∨ r = .rflags then gate r else m.reg r }

/-- The state at the call of the handler. -/
def atCall (cpu : Machine Reg) (top : Word) (gate : Reg → Word) (v : Vector) (code : Word) :
    Machine Reg :=
  exec (isr v ++ isrSave) (deliver cpu top gate v code)

/-- The error code, or the dummy. -/
def errorCode (v : Vector) (code : Word) : Word := if hasErrorCode v then code else 0

/-- What the fields are to hold. -/
def interruptedFrame (cpu : Machine Reg) (v : Vector) (code : Word) : InterruptFrame where
  r15 := cpu.reg .r15
  r14 := cpu.reg .r14
  r13 := cpu.reg .r13
  r12 := cpu.reg .r12
  r11 := cpu.reg .r11
  r10 := cpu.reg .r10
  r9 := cpu.reg .r9
  r8 := cpu.reg .r8
  rbp := cpu.reg .rbp
  rdi := cpu.reg .rdi
  rsi := cpu.reg .rsi
  rdx := cpu.reg .rdx
  rcx := cpu.reg .rcx
  rbx := cpu.reg .rbx
  rax := cpu.reg .rax
  intNo := BitVec.ofNat 64 v.1
  errorCode := errorCode v code
  rip := cpu.reg .rip
  cs := cpu.reg .cs
  rflags := cpu.reg .rflags
  rsp := cpu.reg .rsp
  ss := cpu.reg .ss

/-- The handler has returned and left the frame as it was. -/
def FrameKept (m m' : Machine Reg) : Prop :=
  m'.reg .rsp = m.reg .rsp ∧ ∀ x, InRange (m.reg .rdi) frameSize x → m'.mem x = m.mem x

/-- The interrupted code goes on as if nothing had happened. -/
def Restored (cpu m : Machine Reg) : Prop :=
  ∀ r ∈ general ++ [.rsp, .rip, .rflags], m.reg r = cpu.reg r

section
variable (cpu : Machine Reg) (top : Word) (gate : Reg → Word) (v : Vector) (code : Word)

/-- Exceptions go to the one handler and interrupt requests to the other. -/
def CallsHandler : Prop :=
  isrHandler (atCall cpu top gate v code) =
    if v.1 < 32 then .exceptionHandler else .irqHandler

/-- The argument points to what was interrupted. -/
def PassesFrame : Prop :=
  frameAt (atCall cpu top gate v code).mem ((atCall cpu top gate v code).reg .rdi) =
    interruptedFrame cpu v code

def Returns : Prop :=
  ∀ m', FrameKept (atCall cpu top gate v code) m' → Restored cpu (exec isrRestore m')

end

/-! ## What lies on the stack -/

theorem compareFlags_seven (f a b : Word) : (compareFlags f a b).getLsbD 7 = (a - b).msb := by
  simp only [compareFlags, statusBits, List.foldl_cons, List.foldl_nil]
  rw [setBit_of_ne _ (by decide), setBit_self _ (by decide)]

theorem compareFlags_eleven (f a b : Word) :
    (compareFlags f a b).getLsbD 11 = (a.msb != b.msb && (a - b).msb != a.msb) := by
  simp only [compareFlags, statusBits, List.foldl_cons, List.foldl_nil]
  rw [setBit_self _ (by decide)]

/-- `jl` compares with the sign. -/
theorem compareFlags_less (f a b : Word) :
    ((compareFlags f a b).getLsbD 7 != (compareFlags f a b).getLsbD 11) =
      decide (a.toInt < b.toInt) := by
  have hsub := BitVec.toNat_sub a b
  have ha := a.isLt
  have hb := b.isLt
  have hma := BitVec.msb_eq_decide a
  have hmb := BitVec.msb_eq_decide b
  have hms := BitVec.msb_eq_decide (a - b)
  rw [compareFlags_seven, compareFlags_eleven, BitVec.toInt_eq_toNat_cond,
    BitVec.toInt_eq_toNat_cond, hma, hmb, hms, hsub]
  clear hma hmb hms hsub
  generalize a.toNat = x at *
  generalize b.toNat = y at *
  generalize hd : decide (2 ^ (64 - 1) ≤ (2 ^ 64 - y + x) % 2 ^ 64) = d
  -- with equal signs the difference does not overflow; otherwise the signs decide
  rcases Nat.lt_or_ge x (2 ^ 63) with hx | hx
  · rw [if_pos (by omega), decide_eq_false (show ¬ 2 ^ (64 - 1) ≤ x by omega)]
    rcases Nat.lt_or_ge y (2 ^ 63) with hy | hy
    · rw [if_pos (by omega), decide_eq_false (show ¬ 2 ^ (64 - 1) ≤ y by omega), ← hd]
      refine (Bool.bne_false _).trans (decide_eq_decide.2 ?_)
      omega
    · rw [if_neg (by omega), decide_eq_true (show 2 ^ (64 - 1) ≤ y by omega),
        decide_eq_false (by omega)]
      cases d
      · rfl
      · rfl
  · rw [if_neg (by omega), decide_eq_true (show 2 ^ (64 - 1) ≤ x by omega)]
    rcases Nat.lt_or_ge y (2 ^ 63) with hy | hy
    · rw [if_pos (by omega), decide_eq_false (show ¬ 2 ^ (64 - 1) ≤ y by omega),
        decide_eq_true (by omega)]
      cases d
      · rfl
      · rfl
    · rw [if_neg (by omega), decide_eq_true (show 2 ^ (64 - 1) ≤ y by omega), ← hd]
      refine (Bool.bne_false _).trans (decide_eq_decide.2 ?_)
      omega

/-- The words above the stub's own. -/
def delivered (cpu : Machine Reg) (v : Vector) (code : Word) : List Word :=
  [BitVec.ofNat 64 v.1, errorCode v code, cpu.reg .rip, cpu.reg .cs, cpu.reg .rflags,
    cpu.reg .rsp, cpu.reg .ss]

/-- The word with `ds`. -/
def dsWord (cpu : Machine Reg) : Word := setLow (cpu.reg .rax) (cpu.reg .ds)

/-- The stack at the call. -/
def saved (cpu : Machine Reg) (v : Vector) (code : Word) : List Word :=
  dsWord cpu :: (general.reverse.map cpu.reg ++ delivered cpu v code)

section
variable (cpu : Machine Reg) (top : Word) (gate : Reg → Word) (v : Vector) (code : Word)

theorem deliver_reg {r : Reg} (hr : r ∈ .ds :: general) :
    (deliver cpu top gate v code).reg r = cpu.reg r := by
  have hne : r ≠ .rsp ∧ ¬ (r = .ss ∨ r = .cs ∨ r = .rip ∨ r = .rflags) := by
    revert r
    decide
  rw [deliver]
  refine (if_neg hne.2).trans ?_
  rw [Machine.pushAll_of_ne hne.1, Machine.set_reg, Function.update_of_ne hne.1]

theorem deliver_holds :
    (deliver cpu top gate v code).Holds .rsp (hardware cpu v code).reverse := by
  have hlen : (hardware cpu v code).length ≤ 6 := by
    unfold hardware
    split <;> simp
  have hstart : (cpu.set .rsp top).Holds .rsp [] := trivial
  have hpushed := hstart.pushAll (hardware cpu v code) (by rw [List.length_nil]; omega)
  rw [List.append_nil] at hpushed
  exact hpushed

/-- After `isr`, it does not matter any more who pushed the error code. -/
theorem isr_holds :
    (exec (isr v) (deliver cpu top gate v code)).Holds .rsp (delivered cpu v code) ∧
    ∀ r ∈ Reg.ds :: general, (exec (isr v) (deliver cpu top gate v code)).reg r = cpu.reg r := by
  have hstack := deliver_holds cpu top gate v code
  have hreg := fun r (hr : r ∈ Reg.ds :: general) => deliver_reg cpu top gate v code hr
  have hne : ∀ r ∈ Reg.ds :: general, r ≠ .rsp := by decide
  generalize deliver cpu top gate v code = m at hstack hreg
  cases hv : hasErrorCode v with
  | true =>
    simp only [hardware, hv, isr, delivered, errorCode, if_true] at hstack ⊢
    refine ⟨hstack.push (by simp) _, fun r hr => ?_⟩
    exact (Machine.push_of_ne (hne r hr) _).trans (hreg r hr)
  | false =>
    simp only [hardware, hv, isr, delivered, errorCode, Bool.false_eq_true, if_false,
      List.append_nil] at hstack ⊢
    refine ⟨(hstack.push (by simp) _).push (by simp) _, fun r hr => ?_⟩
    exact (Machine.push_of_ne (hne r hr) _).trans
      ((Machine.push_of_ne (hne r hr) _).trans (hreg r hr))

/-- The last part of `isrSave`. -/
def isrDispatch : List Instr :=
  [.movImm16 .rax 0x10, .mov16 .ds .rax, .mov16 .es .rax, .mov .rdi .rsp, .load .rax .rsp 136,
    .cmp .rax 32]

/-- The machine with all registers saved. -/
def pushed (m : Machine Reg) : Machine Reg :=
  exec [.mov16 .rax .ds, .push .rax] (m.pushRegs .rsp general)

theorem exec_isrSave (m : Machine Reg) : exec isrSave m = exec isrDispatch (pushed m) := by
  have hlist : isrSave = general.map .push ++ ([.mov16 .rax .ds, .push .rax] ++ isrDispatch) := rfl
  rw [hlist, exec_append, exec_append, exec_push, pushed]

theorem pushed_holds {m : Machine Reg} {vs : List Word} (h : m.Holds .rsp vs)
    (hlen : vs.length ≤ 7) :
    (pushed m).Holds .rsp (dsWord m :: (general.reverse.map m.reg ++ vs)) := by
  have hregs := h.pushAll (general.map m.reg) (by simp [general]; omega)
  have hkept : ∀ r : Reg, r ≠ .rsp → (m.pushRegs .rsp general).reg r = m.reg r := fun r hr => by
    rw [Machine.pushRegs_eq (by decide), Machine.pushAll_of_ne hr]
  have hword : setLow ((m.pushRegs .rsp general).reg .rax) ((m.pushRegs .rsp general).reg .ds) =
      dsWord m := by
    rw [hkept _ (by decide), hkept _ (by decide), dsWord]
  rw [← Machine.pushRegs_eq (by decide), ← List.map_reverse] at hregs
  have hds := (hregs.set (r := .rax) (by decide) (dsWord m)).push
    (by simp [general]; omega) (dsWord m)
  have hpushed : pushed m =
      ((m.pushRegs .rsp general).set .rax (dsWord m)).push .rsp (dsWord m) := by
    rw [← hword]
    simp [pushed, exec, Instr.exec]
  rw [hpushed]
  exact hds

theorem exec_isrDispatch (m : Machine Reg) :
    (exec isrDispatch m).mem = m.mem ∧
    (exec isrDispatch m).reg .rsp = m.reg .rsp ∧ (exec isrDispatch m).reg .rdi = m.reg .rsp ∧
    (exec isrDispatch m).reg .rflags =
      compareFlags (m.reg .rflags) (m.mem.load (m.reg .rsp + BitVec.ofNat 64 136)) 32 := by
  simp [isrDispatch, exec, Instr.exec, Machine.addr]

/-- **The stack at the call**, with the pointer to it in `rdi`. -/
theorem saved_holds :
    (atCall cpu top gate v code).Holds .rsp (saved cpu v code) ∧
    (atCall cpu top gate v code).reg .rdi = (atCall cpu top gate v code).reg .rsp := by
  obtain ⟨hstack, hreg⟩ := isr_holds cpu top gate v code
  rw [atCall, exec_append, exec_isrSave]
  generalize exec (isr v) (deliver cpu top gate v code) = m at hstack hreg
  obtain ⟨hmem, hsp, hdi, -⟩ := exec_isrDispatch (pushed m)
  have hpushed := pushed_holds hstack (by simp [delivered])
  have hds : dsWord m = dsWord cpu := by
    rw [dsWord, dsWord, hreg _ (by decide), hreg _ (by decide)]
  have hgeneral : general.reverse.map m.reg = general.reverse.map cpu.reg :=
    List.map_congr_left fun r hr => hreg r (List.mem_cons_of_mem _ (List.mem_reverse.1 hr))
  rw [hds, hgeneral] at hpushed
  refine ⟨?_, hdi.trans hsp.symm⟩
  unfold Machine.Holds
  rw [hmem, hsp]
  exact hpushed

/-- The word in a slot of the stack. -/
theorem saved_get {i : ℕ} (hi : i < 23) :
    (atCall cpu top gate v code).mem.load
      ((atCall cpu top gate v code).reg .rdi + BitVec.ofNat 64 (8 * i)) =
    (saved cpu v code).getD i 0 := by
  obtain ⟨hstack, hdi⟩ := saved_holds cpu top gate v code
  have hlen : i < (saved cpu v code).length := hi
  rw [hdi, hstack.get hlen, List.getD_eq_getElem?_getD, List.getElem?_eq_getElem hlen]
  rfl

/-! ## The call -/

/-- **The stub goes by the error code**, as a signed number. -/
theorem isrHandler_atCall : isrHandler (atCall cpu top gate v code) =
    if (errorCode v code).toInt < 32 then .exceptionHandler else .irqHandler := by
  have hslot := saved_get cpu top gate v code (i := 17) (by decide)
  have hcode : (saved cpu v code).getD 17 0 = errorCode v code := rfl
  rw [hcode] at hslot
  rw [atCall, exec_append, exec_isrSave] at hslot ⊢
  generalize pushed (exec (isr v) (deliver cpu top gate v code)) = m at hslot
  obtain ⟨hmem, -, hdi, hflags⟩ := exec_isrDispatch m
  rw [hmem, hdi] at hslot
  rw [isrHandler, hflags, hslot, compareFlags_less]
  simp

/-- Every interrupt request goes to `exception_handler`. -/
theorem irq_exceptionHandler (hv : hasErrorCode v = false) :
    isrHandler (atCall cpu top gate v code) = .exceptionHandler := by
  rw [isrHandler_atCall, errorCode, hv]
  rfl

theorem callsHandler_iff : CallsHandler cpu top gate v code ↔
    ((errorCode v code).toInt < 32 ↔ v.1 < 32) := by
  rw [CallsHandler, isrHandler_atCall]
  split
  · split <;> simp [*]
  · split <;> simp [*]

/-- **The handlers read every field one slot off.** -/
theorem frameAt_atCall :
    frameAt (atCall cpu top gate v code).mem ((atCall cpu top gate v code).reg .rdi) =
      { r15 := dsWord cpu, r14 := cpu.reg .r15, r13 := cpu.reg .r14, r12 := cpu.reg .r13,
        r11 := cpu.reg .r12, r10 := cpu.reg .r11, r9 := cpu.reg .r10, r8 := cpu.reg .r9,
        rbp := cpu.reg .r8, rdi := cpu.reg .rbp, rsi := cpu.reg .rdi, rdx := cpu.reg .rsi,
        rcx := cpu.reg .rdx, rbx := cpu.reg .rcx, rax := cpu.reg .rbx, intNo := cpu.reg .rax,
        errorCode := BitVec.ofNat 64 v.1, rip := errorCode v code, cs := cpu.reg .rip,
        rflags := cpu.reg .cs, rsp := cpu.reg .rflags, ss := cpu.reg .rsp } := by
  simp (disch := decide) only [frameAt, saved_get]
  rfl

/-- A vector that is its own error code does not look like `rflags`. -/
theorem errorCode_ne_rflags {f : Word} (hone : f.getLsbD 1 = true) (hthree : f.getLsbD 3 = false)
    (hv : BitVec.ofNat 64 v.1 = errorCode v code) : f ≠ BitVec.ofNat 64 v.1 := by
  rintro rfl
  cases hcode : hasErrorCode v with
  | true =>
    have hbits : ∀ n ∈ [8, 10, 11, 12, 13, 14, 17, 21],
        (BitVec.ofNat 64 n).getLsbD 1 = true → (BitVec.ofNat 64 n).getLsbD 3 = true := by decide
    rw [hbits v.1 (of_decide_eq_true hcode) hone] at hthree
    cases hthree
  | false =>
    rw [errorCode, hcode] at hv
    rw [hv] at hone
    simp at hone

/-- **No frame is what was interrupted.** -/
theorem not_passesFrame (cpu : Interrupted) : ¬ PassesFrame cpu.toMachine top gate v code := by
  intro h
  rw [PassesFrame, frameAt_atCall] at h
  have hv : BitVec.ofNat 64 v.1 = errorCode v code := congrArg InterruptFrame.errorCode h
  have hip : errorCode v code = cpu.reg .rip := congrArg InterruptFrame.rip h
  have hcs : cpu.reg .rip = cpu.reg .cs := congrArg InterruptFrame.cs h
  have hflags : cpu.reg .cs = cpu.reg .rflags := congrArg InterruptFrame.rflags h
  refine errorCode_ne_rflags v code cpu.bitOne cpu.bitThree hv ?_
  rw [← hflags, ← hcs, ← hip, hv]

end

/-! ## The way back -/

/-- The words that the C type covers. -/
def frameWords (cpu : Machine Reg) (v : Vector) (code : Word) : List Word :=
  dsWord cpu :: (general.reverse.map cpu.reg ++ BitVec.ofNat 64 v.1 :: errorCode v code ::
    ([Reg.rip, Reg.cs, Reg.rflags].map cpu.reg ++ [cpu.reg .rsp]))

/-- The segment registers are restored. -/
def segments (m : Machine Reg) : Machine Reg :=
  exec [.mov16 .ds .rax, .mov16 .es .rax] (m.pop .rsp .rax)

theorem exec_isrRestore (m : Machine Reg) : exec isrRestore m =
    exec [.add .rsp 16, .iretq] ((segments m).popRegs .rsp general.reverse) := by
  have hlist : isrRestore = .pop .rax :: ([.mov16 .ds .rax, .mov16 .es .rax] ++
      (general.reverse.map .pop ++ [.add .rsp 16, .iretq])) := rfl
  have hcons : ∀ is, exec (.pop .rax :: is) m = exec is (m.pop .rsp .rax) := fun _ => rfl
  rw [hlist, hcons, exec_append, exec_append, exec_pop, segments]

theorem segments_holds {m : Machine Reg} {w : Word} {vs : List Word} (h : m.Holds .rsp (w :: vs)) :
    (segments m).Holds .rsp vs := by
  have hrax : Reg.rax ≠ .rsp := by decide
  obtain ⟨-, hstack⟩ := h.pop hrax
  exact (hstack.set (r := .ds) (by decide) _).set (r := .es) (by decide) _

/-- `iretq` -/
theorem interruptReturn_holds {m : Machine Reg} {f : Reg → Word} {w : Word}
    (h : m.Holds .rsp ([Reg.rip, Reg.cs, Reg.rflags].map f ++ [w])) :
    (interruptReturn m).reg .rip = f .rip ∧ (interruptReturn m).reg .rflags = f .rflags ∧
    (interruptReturn m).reg .rsp = w ∧
    ∀ r ∈ general, (interruptReturn m).reg r = m.reg r := by
  obtain ⟨hregs, hsp⟩ := h.popRegs (by decide) (by decide)
  have hkept : ∀ r : Reg, r ≠ .rsp → r ≠ .ss →
      (interruptReturn m).reg r = (m.popRegs .rsp [.rip, .cs, .rflags]).reg r := fun r hr hs =>
    (Function.update_of_ne hr ..).trans (Function.update_of_ne hs ..)
  refine ⟨?_, ?_, ?_, fun r hr => ?_⟩
  · exact (hkept .rip (by decide) (by decide)).trans (hregs .rip (by simp))
  · exact (hkept .rflags (by decide) (by decide)).trans (hregs .rflags (by simp))
  · simp only [interruptReturn, Machine.set_reg, Function.update_self]
    exact hsp.1
  · have hne : r ≠ .rsp ∧ r ≠ .ss ∧ r ∉ [Reg.rip, Reg.cs, Reg.rflags] := by
      revert r
      decide
    rw [hkept r hne.1 hne.2.1, Machine.popRegs_of_not_mem hne.1 hne.2.2]

/-- **The registers come back** from a stack with the words of the frame. -/
theorem isrRestore_restored {cpu m : Machine Reg} (v : Vector) (code : Word)
    (h : m.Holds .rsp (frameWords cpu v code)) : Restored cpu (exec isrRestore m) := by
  obtain ⟨hregs, hstack⟩ := (segments_holds h).popRegs (by decide) (by decide)
  obtain ⟨hip, hflags, hsp, hkept⟩ := interruptReturn_holds hstack.drop_two
  have hexec : exec isrRestore m = interruptReturn
      (((segments m).popRegs .rsp general.reverse).set .rsp
        (((segments m).popRegs .rsp general.reverse).reg .rsp + 16)) := exec_isrRestore m
  rw [hexec]
  intro r hr
  rcases List.mem_append.1 hr with hr | hr
  · have hne : r ≠ .rsp := by
      rintro rfl
      revert hr
      decide
    rw [hkept r hr, Machine.set_reg, Function.update_of_ne hne]
    exact hregs r (List.mem_reverse.2 hr)
  · simp only [List.mem_cons, List.not_mem_nil, or_false] at hr
    rcases hr with rfl | rfl | rfl
    · exact hsp
    · exact hip
    · exact hflags

/-- **The stub returns to the interrupted code.** -/
theorem returns (cpu : Machine Reg) (top : Word) (gate : Reg → Word) (v : Vector) (code : Word) :
    Returns cpu top gate v code := by
  intro m' hkept
  obtain ⟨hstack, hdi⟩ := saved_holds cpu top gate v code
  have hsplit : saved cpu v code = frameWords cpu v code ++ [cpu.reg .ss] := by
    simp [saved, frameWords, delivered]
  rw [hsplit] at hstack
  refine isrRestore_restored v code ?_
  unfold Machine.Holds
  rw [hkept.1]
  refine Stacked.congr ?_ (fun x hx => hkept.2 x ?_) hstack.left
  · simp [frameWords, general]
  · rw [hdi]
    exact hx

/-- **The stub is wrong for every interrupt.**  It calls the right handler exactly if
    the error code is on the same side of 32 as the vector; it never passes the
    frame; it always returns to the interrupted code. -/
theorem isr_common_stub_never (cpu : Interrupted) (top : Word) (gate : Reg → Word) (v : Vector)
    (code : Word) :
    ¬ (CallsHandler cpu.toMachine top gate v code ∧ PassesFrame cpu.toMachine top gate v code ∧
      Returns cpu.toMachine top gate v code) ∧
    (CallsHandler cpu.toMachine top gate v code ↔ ((errorCode v code).toInt < 32 ↔ v.1 < 32)) ∧
    ¬ PassesFrame cpu.toMachine top gate v code ∧ Returns cpu.toMachine top gate v code :=
  ⟨fun h => not_passesFrame top gate v code cpu h.2.1, callsHandler_iff ..,
    not_passesFrame top gate v code cpu,
    returns cpu.toMachine top gate v code⟩

def demoInterrupted : Interrupted where
  reg r := if r = .rflags then 0x202 else if r = .rip then 0x401000 else 0
  mem _ := 0
  bitOne := by decide
  bitThree := by decide

def demoTimerVector : Vector := ⟨32, by decide⟩

/-- A timer interrupt: `exception_handler` is called, and reads 0 for the vector. -/
theorem demoTimer_exception :
    isrHandler (atCall demoInterrupted.toMachine 0x9000 (fun _ => 0) demoTimerVector 0) =
      .exceptionHandler ∧
    (frameAt (atCall demoInterrupted.toMachine 0x9000 (fun _ => 0) demoTimerVector 0).mem
      ((atCall demoInterrupted.toMachine 0x9000 (fun _ => 0) demoTimerVector 0).reg .rdi)).intNo =
      0 ∧
    ¬ CallsHandler demoInterrupted.toMachine 0x9000 (fun _ => 0) demoTimerVector 0 ∧
    ¬ PassesFrame demoInterrupted.toMachine 0x9000 (fun _ => 0) demoTimerVector 0 := by
  refine ⟨irq_exceptionHandler _ _ _ _ _ rfl, ?_, fun h => ?_, not_passesFrame _ _ _ _ _⟩
  · rw [frameAt_atCall]
    rfl
  · have hle := (callsHandler_iff ..).1 h
    revert hle
    decide

end Gracemont.Isr
