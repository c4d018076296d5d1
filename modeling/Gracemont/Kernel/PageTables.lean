/-
  Gracemont kernel — the page tables of the X86_64 port (`boot/multiboot2.asm`, `mmu.c`).

  The boot code clears one PML4, one PDPT and two page directories, and maps the first
  2 GB with huge pages, at the bottom and in the higher half.  `mmu_map_page` and
  `mmu_unmap_page` walk over these tables, and give up at an entry that is absent or
  huge.

  * `setupPageTables`, `mmuMapPage`, `mmuUnmapPage`, `mmuGetPhys`;
  * `Represents`: what the 2048 entries of the four tables are;
  * `BootMapped`: the tables are those of the boot code, which holds in every run;
  * `page_mapping_frame`: a mapping affects its own page only.
-/
import Mathlib.Data.BitVec
import Mathlib.Tactic.SplitIfs
import Gracemont.Kernel.Types
import Gracemont.Lib.Machine
import Gracemont.Lib.Trace

namespace Gracemont

open Lib

/-! ## The tables -/

def PTE_PRESENT : Word := 1
def PTE_WRITABLE : Word := 1 <<< 1
def PTE_HUGE : Word := 1 <<< 7

/-- Bits 12-51. -/
def PTE_ADDR_MASK : Word := 0x000FFFFFFFFFF000

/-- `PML4_INDEX`, `PDPT_INDEX`, `PD_INDEX` and `PT_INDEX`, by their shifts. -/
def vaIndex (shift : ℕ) (va : Word) : Word := (va >>> shift) &&& 0x1FF

def PML4_INDEX : Word → Word := vaIndex 39
def PDPT_INDEX : Word → Word := vaIndex 30
def PD_INDEX : Word → Word := vaIndex 21
def PT_INDEX : Word → Word := vaIndex 12

/-- Where the linker puts the tables.  Those of the boot code follow one another from
    `pml4_table` on, aligned to pages, in the 2 GB that it maps. -/
structure BootTables where
  pml4Table : BitVec 32
  kernelPtTable : Word
  aligned : pml4Table.toNat % 4096 = 0
  below : pml4Table.toNat + 4096 * 4 ≤ 2 ^ 31

namespace BootTables

def pdptTable (t : BootTables) : BitVec 32 := t.pml4Table + 4096

def pdTable (t : BootTables) : BitVec 32 := t.pml4Table + 4096 * 2

end BootTables

/-! ## The boot code -/

/-- `rep stosb` with a zero in `al`. -/
def repStosb (mem : Memory) (edi : BitVec 32) : ℕ → Memory
  | 0 => mem
  | ecx + 1 => repStosb (Function.update mem (edi.setWidth 64) 0) (edi + 1) ecx

/-- `mov [a], eax` -/
def movMem32 (mem : Memory) (a eax : BitVec 32) : Memory := fun x =>
  if InRange (a.setWidth 64) 4 x then (eax >>> (8 * (x - a.setWidth 64).toNat)).setWidth 8
  else mem x

/-- The loop at `.map_pd`. -/
def mapPd (mem : Memory) (edi eax : BitVec 32) : ℕ → Memory
  | 0 => mem
  | ecx + 1 => mapPd (movMem32 mem edi eax) (edi + 8) (eax + 0x200000) ecx

def setupPageTables (t : BootTables) (mem : Memory) : Memory :=
  let mem := repStosb mem t.pml4Table (4096 * 4)
  let mem := movMem32 mem t.pml4Table (t.pdptTable ||| 0x03)
  let mem := movMem32 mem (t.pml4Table + 256 * 8) (t.pdptTable ||| 0x03)
  let mem := movMem32 mem t.pdptTable (t.pdTable ||| 0x03)
  let mem := movMem32 mem (t.pdptTable + 8) ((t.pdTable + 4096) ||| 0x03)
  mapPd mem t.pdTable 0x83 (512 * 2)

/-! ## The kernel -/

/-- `table[idx]` -/
def tableEntry (mem : Memory) (table idx : Word) : Word := mem.load (table + 8 * idx)

/-- `table[idx] = v` -/
def setTableEntry (mem : Memory) (table idx v : Word) : Memory := mem.store (table + 8 * idx) v

/-- The flush of the TLB leaves the memory as it is. -/
def mmuMapPage (t : BootTables) (mem : Memory) (virt phys flags : Word) : Memory :=
  let pml4 := t.pml4Table.setWidth 64
  if tableEntry mem pml4 (PML4_INDEX virt) &&& PTE_PRESENT = 0 then mem else
  let pdpt := tableEntry mem pml4 (PML4_INDEX virt) &&& PTE_ADDR_MASK
  if tableEntry mem pdpt (PDPT_INDEX virt) &&& PTE_PRESENT = 0 then mem else
  if tableEntry mem pdpt (PDPT_INDEX virt) &&& PTE_HUGE ≠ 0 then mem else
  let pd := tableEntry mem pdpt (PDPT_INDEX virt) &&& PTE_ADDR_MASK
  if tableEntry mem pd (PD_INDEX virt) &&& PTE_HUGE ≠ 0 then mem else
  let mem :=
    if tableEntry mem pd (PD_INDEX virt) &&& PTE_PRESENT = 0 then
      setTableEntry mem pd (PD_INDEX virt) (t.kernelPtTable ||| PTE_PRESENT ||| PTE_WRITABLE)
    else mem
  let pt := tableEntry mem pd (PD_INDEX virt) &&& PTE_ADDR_MASK
  setTableEntry mem pt (PT_INDEX virt) ((phys &&& PTE_ADDR_MASK) ||| flags ||| PTE_PRESENT)

def mmuUnmapPage (t : BootTables) (mem : Memory) (virt : Word) : Memory :=
  let pml4 := t.pml4Table.setWidth 64
  if tableEntry mem pml4 (PML4_INDEX virt) &&& PTE_PRESENT = 0 then mem else
  let pdpt := tableEntry mem pml4 (PML4_INDEX virt) &&& PTE_ADDR_MASK
  if tableEntry mem pdpt (PDPT_INDEX virt) &&& PTE_PRESENT = 0 then mem else
  if tableEntry mem pdpt (PDPT_INDEX virt) &&& PTE_HUGE ≠ 0 then mem else
  let pd := tableEntry mem pdpt (PDPT_INDEX virt) &&& PTE_ADDR_MASK
  if tableEntry mem pd (PD_INDEX virt) &&& PTE_PRESENT = 0 then mem else
  if tableEntry mem pd (PD_INDEX virt) &&& PTE_HUGE ≠ 0 then mem else
  let pt := tableEntry mem pd (PD_INDEX virt) &&& PTE_ADDR_MASK
  setTableEntry mem pt (PT_INDEX virt) 0

def mmuGetPhys (t : BootTables) (mem : Memory) (virt : Word) : Word :=
  let pml4 := t.pml4Table.setWidth 64
  if tableEntry mem pml4 (PML4_INDEX virt) &&& PTE_PRESENT = 0 then 0 else
  let pdpt := tableEntry mem pml4 (PML4_INDEX virt) &&& PTE_ADDR_MASK
  if tableEntry mem pdpt (PDPT_INDEX virt) &&& PTE_PRESENT = 0 then 0 else
  if tableEntry mem pdpt (PDPT_INDEX virt) &&& PTE_HUGE ≠ 0 then
    (tableEntry mem pdpt (PDPT_INDEX virt) &&& PTE_ADDR_MASK) + (virt &&& 0x3FFFFFFF) else
  let pd := tableEntry mem pdpt (PDPT_INDEX virt) &&& PTE_ADDR_MASK
  if tableEntry mem pd (PD_INDEX virt) &&& PTE_PRESENT = 0 then 0 else
  if tableEntry mem pd (PD_INDEX virt) &&& PTE_HUGE ≠ 0 then
    (tableEntry mem pd (PD_INDEX virt) &&& PTE_ADDR_MASK) + (virt &&& 0x1FFFFF) else
  let pt := tableEntry mem pd (PD_INDEX virt) &&& PTE_ADDR_MASK
  if tableEntry mem pt (PT_INDEX virt) &&& PTE_PRESENT = 0 then 0 else
  (tableEntry mem pt (PT_INDEX virt) &&& PTE_ADDR_MASK) + (virt &&& 0xFFF)

/-! ## Runs -/

/-- A call, or a write of the rest of the kernel. -/
inductive PagingEvent
  | mapPage (virt phys flags : Word)
  | unmapPage (virt : Word)
  | write

/-- The byte `x` is one of the four tables. -/
def BootTables.Owns (t : BootTables) (x : Word) : Prop :=
  InRange (t.pml4Table.setWidth 64) (4096 * 4) x

/-- One step: the rest of the kernel leaves the tables as they are. -/
inductive PagingStep (t : BootTables) : Memory → PagingEvent → Memory → Prop
  | mapPage {mem : Memory} {virt phys flags : Word} :
      PagingStep t mem (.mapPage virt phys flags) (mmuMapPage t mem virt phys flags)
  | unmapPage {mem : Memory} {virt : Word} :
      PagingStep t mem (.unmapPage virt) (mmuUnmapPage t mem virt)
  | write {mem mem' : Memory} (h : ∀ x, t.Owns x → mem' x = mem x) : PagingStep t mem .write mem'

/-- The kernel from the end of the boot code on, over any memory before it. -/
def pagingLts (t : BootTables) : Lts Memory PagingEvent :=
  ⟨fun mem => ∃ before, mem = setupPageTables t before, PagingStep t⟩

/-- `v` is in the page at `virt`. -/
def InPage (virt v : Word) : Prop := InRange virt 4096 v

/-! ## What the boot code leaves -/

section Cells
variable {t : BootTables} {mem : Memory}

/-- The entry `i` of the tables, which follow one another. -/
def BootTables.cell (t : BootTables) (i : ℕ) : Word :=
  t.pml4Table.setWidth 64 + BitVec.ofNat 64 (8 * i)

/-- The entry `i`, as the boot code addresses it. -/
def BootTables.cell32 (t : BootTables) (i : ℕ) : BitVec 32 := t.pml4Table + BitVec.ofNat 32 (8 * i)

theorem BootTables.cell32_setWidth {i : ℕ} (hi : i < 2048) :
    (t.cell32 i).setWidth 64 = t.cell i := by
  have hbelow := t.below
  unfold cell32 cell
  apply BitVec.eq_of_toNat_eq
  simp only [BitVec.toNat_setWidth, BitVec.toNat_add, BitVec.toNat_ofNat]
  omega

theorem BootTables.cell_owned {i : ℕ} (hi : i < 2048) {x : Word} (h : InRange (t.cell i) 8 x) :
    t.Owns x := by
  unfold cell at h
  exact h.offset (by omega) (by omega)

/-- A move leaves the upper half of an entry as it is. -/
theorem movMem32_load {a v w : BitVec 32} (h : mem.load (a.setWidth 64) = w.setWidth 64) :
    (movMem32 mem a v).load (a.setWidth 64) = v.setWidth 64 := by
  have hlow : ∀ k < 4, (movMem32 mem a v).byte (a.setWidth 64) k = (v >>> (8 * k)).setWidth 8 := by
    intro k hk
    have hin : InRange (a.setWidth 64) 4 (a.setWidth 64 + BitVec.ofNat 64 k) := by
      rw [InRange, Memory.offset_toNat _ (by omega)]
      exact hk
    rw [Memory.byte, movMem32, if_pos hin, Memory.offset_toNat _ (by omega)]
  have hhigh : ∀ k, 4 ≤ k → k < 8 →
      (movMem32 mem a v).byte (a.setWidth 64) k = mem.byte (a.setWidth 64) k := by
    intro k hk hk8
    refine if_neg ?_
    rw [InRange, Memory.offset_toNat _ hk8]
    omega
  unfold Memory.load at h ⊢
  simp (disch := decide) only [hlow, hhigh]
  apply BitVec.eq_of_getLsbD_eq
  intro i hi
  have hbit := congrArg (BitVec.getLsbD · i) h
  simp only [BitVec.getLsbD_append, BitVec.getLsbD_setWidth, BitVec.getLsbD_ushiftRight] at hbit ⊢
  grind

/-- A move leaves the other entries as they are. -/
theorem movMem32_load_apart {i j : ℕ} {v : BitVec 32} (hi : i < 2048) (hj : j < 2048)
    (hne : j ≠ i) : (movMem32 mem (t.cell32 i) v).load (t.cell j) = mem.load (t.cell j) := by
  refine Memory.load_congr fun x hx => if_neg fun hin => ?_
  rw [t.cell32_setWidth hi] at hin
  exact InRange.apart hx (by omega) (by omega) (by omega) (hin.mono (by omega))

/-- The entries of the tables are the values of `f`. -/
def Represents (t : BootTables) (f : ℕ → BitVec 32) (mem : Memory) : Prop :=
  ∀ i < 2048, mem.load (t.cell i) = (f i).setWidth 64

theorem Represents.mov {f : ℕ → BitVec 32} (h : Represents t f mem) {i : ℕ} (hi : i < 2048)
    (v : BitVec 32) : Represents t (Function.update f i v) (movMem32 mem (t.cell32 i) v) := by
  intro j hj
  by_cases hne : j = i
  · subst hne
    have hold := h j hj
    rw [← t.cell32_setWidth hj] at hold ⊢
    rw [Function.update_self]
    exact movMem32_load hold
  · rw [Function.update_of_ne hne, movMem32_load_apart hi hj hne]
    exact h j hj

/-- `f`, with `n` entries for 2 MB each from `i` on. -/
def hugeFrom (f : ℕ → BitVec 32) (i n : ℕ) (eax : BitVec 32) (j : ℕ) : BitVec 32 :=
  if i ≤ j ∧ j < i + n then eax + BitVec.ofNat 32 (0x200000 * (j - i)) else f j

/-- The loop fills the entries from `i` on. -/
theorem Represents.mapPd {f : ℕ → BitVec 32} {n i : ℕ} {eax : BitVec 32} (h : Represents t f mem)
    (hn : i + n ≤ 2048) : Represents t (hugeFrom f i n eax) (mapPd mem (t.cell32 i) eax n) := by
  induction n generalizing mem f i eax with
  | zero =>
    intro j hj
    rw [hugeFrom, if_neg (by omega)]
    exact h j hj
  | succ n ih =>
    have hcell : t.cell32 i + 8 = t.cell32 (i + 1) := by
      unfold BootTables.cell32
      rw [Nat.mul_add, BitVec.ofNat_add, BitVec.add_assoc]
      rfl
    have hrest : Represents t (hugeFrom (Function.update f i eax) (i + 1) n (eax + 0x200000))
        (Gracemont.mapPd (movMem32 mem (t.cell32 i) eax) (t.cell32 (i + 1)) (eax + 0x200000) n) :=
      ih (h.mov (by omega) eax) (by omega)
    intro j hj
    rw [Gracemont.mapPd, hcell, hrest j hj]
    congr 1
    unfold hugeFrom
    split_ifs with h1 h2 h2
    · have hk : 0x200000 * (j - i) = 0x200000 + 0x200000 * (j - (i + 1)) := by omega
      rw [hk, BitVec.ofNat_add, BitVec.add_assoc]
      rfl
    · omega
    · obtain rfl : j = i := by omega
      simp
    · exact Function.update_of_ne (by omega) ..

/-- `rep stosb` clears its range. -/
theorem repStosb_eq {edi : BitVec 32} {n : ℕ} (hn : edi.toNat + n < 2 ^ 32) (x : Word) :
    repStosb mem edi n x = if InRange (edi.setWidth 64) n x then 0 else mem x := by
  induction n generalizing mem edi with
  | zero => rfl
  | succ n ih =>
    have hnext : (edi + 1).toNat = edi.toNat + 1 := by
      bv_omega
    have hsplit : InRange (edi.setWidth 64) (n + 1) x ↔
        InRange ((edi + 1).setWidth 64) n x ∨ x = edi.setWidth 64 := by
      unfold InRange
      bv_omega
    rw [repStosb, ih (by omega)]
    by_cases hin : InRange ((edi + 1).setWidth 64) n x
    · rw [if_pos hin, if_pos (hsplit.2 (.inl hin))]
    · rw [if_neg hin]
      by_cases hx : x = edi.setWidth 64
      · rw [if_pos (hsplit.2 (.inr hx)), hx, Function.update_self]
      · rw [if_neg (fun h => (hsplit.1 h).elim hin hx), Function.update_of_ne hx]

/-- The entries of the boot code: the PDPT twice, its two page directories, and the huge
    pages of these. -/
def bootEntry (t : BootTables) : ℕ → BitVec 32 :=
  hugeFrom
    (Function.update (Function.update (Function.update (Function.update (fun _ => 0)
      0 (t.pdptTable ||| 0x03)) 256 (t.pdptTable ||| 0x03)) 512 (t.pdTable ||| 0x03))
      513 ((t.pdTable + 4096) ||| 0x03))
    1024 (512 * 2) 0x83

/-- The tables are as the boot code left them. -/
def BootMapped (t : BootTables) (mem : Memory) : Prop := Represents t (bootEntry t) mem

/-- **The tables after the boot code.** -/
theorem setupPageTables_bootMapped (before : Memory) :
    BootMapped t (setupPageTables t before) := by
  have hclear : Represents t (fun _ => 0) (repStosb before t.pml4Table (4096 * 4)) := by
    intro i hi
    have hbyte : ∀ k < 8, (repStosb before t.pml4Table (4096 * 4)).byte (t.cell i) k = 0 := by
      intro k hk
      have hbelow := t.below
      have hin : InRange (t.cell i) 8 (t.cell i + BitVec.ofNat 64 k) := by
        rw [InRange, Memory.offset_toNat _ hk]
        exact hk
      rw [Memory.byte, repStosb_eq (by omega)]
      exact if_pos (t.cell_owned hi hin)
    simp (disch := decide) only [Memory.load, hbyte]
    rfl
  have hcells : t.cell32 0 = t.pml4Table ∧ t.cell32 256 = t.pml4Table + 256 * 8 ∧
      t.cell32 512 = t.pdptTable ∧ t.cell32 513 = t.pdptTable + 8 ∧
      t.cell32 1024 = t.pdTable := by
    unfold BootTables.cell32 BootTables.pdptTable BootTables.pdTable
    refine ⟨?_, ?_, ?_, ?_, ?_⟩ <;> bv_omega
  obtain ⟨h0, h256, h512, h513, h1024⟩ := hcells
  have hpml4 := (hclear.mov (i := 0) (by omega) (t.pdptTable ||| 0x03)).mov (i := 256) (by omega)
    (t.pdptTable ||| 0x03)
  have hpdpt := (hpml4.mov (i := 512) (by omega) (t.pdTable ||| 0x03)).mov (i := 513) (by omega)
    ((t.pdTable + 4096) ||| 0x03)
  have hall : Represents t (bootEntry t) _ := hpdpt.mapPd (i := 1024) (n := 512 * 2) (by omega)
  rw [h0, h256, h512, h513, h1024] at hall
  exact hall

end Cells

/-! ## Entries as numbers -/

theorem flag_eq_zero {w flag : Word} (k : ℕ) (hflag : flag = BitVec.twoPow 64 k) (hk : k < 64) :
    w &&& flag = 0 ↔ w.toNat / 2 ^ k % 2 = 0 := by
  have hbit : w.getLsbD k = decide (w.toNat / 2 ^ k % 2 = 1) := by
    rw [BitVec.getLsbD, Nat.testBit_eq_decide_div_mod_eq]
  have hne : BitVec.twoPow 64 k ≠ 0 := by
    intro h
    have hone := congrArg (BitVec.getLsbD · k) h
    simp [hk] at hone
  rw [hflag, BitVec.and_twoPow, hbit]
  split_ifs with h
  · exact iff_of_false hne (by simpa using h)
  · exact iff_of_true rfl (by simpa using h)

theorem present_eq_zero {w : Word} : w &&& PTE_PRESENT = 0 ↔ w.toNat % 2 = 0 := by
  have h : w &&& PTE_PRESENT = 0 ↔ w.toNat / 2 ^ 0 % 2 = 0 :=
    flag_eq_zero 0 (by decide) (by decide)
  rwa [Nat.pow_zero, Nat.div_one] at h

theorem huge_eq_zero {w : Word} : w &&& PTE_HUGE = 0 ↔ w.toNat / 128 % 2 = 0 :=
  flag_eq_zero 7 (by decide) (by decide)

/-- The address of an entry below 2^52. -/
theorem addrMask_toNat {w : Word} (h : w.toNat < 2 ^ 52) :
    (w &&& PTE_ADDR_MASK).toNat = w.toNat / 4096 * 4096 := by
  have hmask : PTE_ADDR_MASK = BitVec.ofNat 64 (2 ^ 52 - 1) &&& ~~~0xFFF := by decide
  have hlow : w &&& BitVec.ofNat 64 (2 ^ 52 - 1) = w := by
    apply BitVec.eq_of_toNat_eq
    rw [BitVec.toNat_and, BitVec.toNat_ofNat, Nat.mod_eq_of_lt (by decide),
      Nat.and_two_pow_sub_one_eq_mod, Nat.mod_eq_of_lt h]
  rw [hmask, ← BitVec.and_assoc, hlow]
  exact and_not_lowMask w (k := 12) rfl

theorem vaIndex_toNat (shift : ℕ) (va : Word) :
    (vaIndex shift va).toNat = va.toNat / 2 ^ shift % 512 := by
  rw [vaIndex, BitVec.toNat_and, BitVec.toNat_ushiftRight, Nat.shiftRight_eq_div_pow]
  exact Nat.and_two_pow_sub_one_eq_mod _ 9

/-- An entry for a table at `a`. -/
theorem tableFlags_toNat {a : BitVec 32} (ha : a.toNat % 4096 = 0) :
    (a ||| 0x03).toNat = a.toNat + 3 := by
  have h := Nat.two_pow_add_eq_or_of_lt (i := 12) (b := 3) (by decide) (a.toNat / 4096)
  rw [BitVec.toNat_or]
  have hsplit : 2 ^ 12 * (a.toNat / 4096) = a.toNat := by omega
  rw [hsplit] at h
  exact h.symm

/-! ## The walk over the tables of the boot code -/

section Walk
variable {t : BootTables} {mem : Memory}

/-- An entry of a table that starts at the entry `n`. -/
theorem BootMapped.entry (h : BootMapped t mem) {table idx : Word} {n : ℕ}
    (htable : table = t.cell n) (hidx : n + idx.toNat < 2048) :
    tableEntry mem table idx = (bootEntry t (n + idx.toNat)).setWidth 64 := by
  have hcell : table + 8 * idx = t.cell (n + idx.toNat) := by
    have hmul : BitVec.ofNat 64 (8 * idx.toNat) = 8 * idx := by
      rw [BitVec.ofNat_mul, BitVec.ofNat_toNat, BitVec.setWidth_eq]
      rfl
    rw [htable, BootTables.cell, BootTables.cell, Nat.mul_add, BitVec.ofNat_add, hmul,
      BitVec.add_assoc]
  rw [tableEntry, hcell]
  exact h _ hidx

theorem bootEntry_pml4 {i : ℕ} (hi : i < 512) :
    bootEntry t i = if i = 0 ∨ i = 256 then t.pdptTable ||| 0x03 else 0 := by
  rw [bootEntry, hugeFrom, if_neg (by omega)]
  grind [Function.update_apply]

theorem bootEntry_pdpt {i : ℕ} (hi : i < 512) :
    bootEntry t (512 + i) =
      if i = 0 then t.pdTable ||| 0x03 else if i = 1 then (t.pdTable + 4096) ||| 0x03 else 0 := by
  rw [bootEntry, hugeFrom, if_neg (by omega)]
  grind [Function.update_apply]

/-- The huge pages: entry `i` is for the 2 MB from `i * 2 MB` on. -/
theorem bootEntry_pd {i : ℕ} (hi : i < 1024) :
    (bootEntry t (1024 + i)).toNat = 0x83 + 0x200000 * i := by
  have hfirst : (0x83 : BitVec 32).toNat = 0x83 := rfl
  rw [bootEntry, hugeFrom, if_pos (by omega), Nat.add_sub_cancel_left, BitVec.toNat_add,
    BitVec.toNat_ofNat, hfirst]
  omega

/-- An entry for one of the boot code's tables. -/
theorem tableFlags_walk {a : BitVec 32} (ha : a.toNat % 4096 = 0) :
    (a ||| 0x03).setWidth 64 &&& PTE_PRESENT ≠ 0 ∧ (a ||| 0x03).setWidth 64 &&& PTE_HUGE = 0 ∧
      (a ||| 0x03).setWidth 64 &&& PTE_ADDR_MASK = a.setWidth 64 := by
  have hlt := a.isLt
  have hflags : ((a ||| 0x03).setWidth 64).toNat = a.toNat + 3 := by
    rw [BitVec.toNat_setWidth, tableFlags_toNat ha]
    omega
  refine ⟨?_, ?_, ?_⟩
  · rw [Ne, present_eq_zero, hflags]
    omega
  · rw [huge_eq_zero, hflags]
    omega
  · apply BitVec.eq_of_toNat_eq
    rw [addrMask_toNat (by omega), hflags, BitVec.toNat_setWidth]
    omega

/-- `v` is in the first 2 GB, or in the same of the higher half: the indices that the boot
    code filled. -/
def BootCovers (v : Word) : Prop :=
  (v.toNat / 2 ^ 39 % 512 = 0 ∨ v.toNat / 2 ^ 39 % 512 = 256) ∧ v.toNat / 2 ^ 30 % 512 < 2

instance (v : Word) : Decidable (BootCovers v) := inferInstanceAs (Decidable (_ ∧ _))

/-- The directory for the GB of `v`. -/
def BootTables.directory (t : BootTables) (v : Word) : Word :=
  t.cell (1024 + 512 * (v.toNat / 2 ^ 30 % 512))

theorem BootMapped.pml4_walk (h : BootMapped t mem) (v : Word) :
    (v.toNat / 2 ^ 39 % 512 = 0 ∨ v.toNat / 2 ^ 39 % 512 = 256) ∧
        tableEntry mem (t.pml4Table.setWidth 64) (PML4_INDEX v) &&& PTE_PRESENT ≠ 0 ∧
        tableEntry mem (t.pml4Table.setWidth 64) (PML4_INDEX v) &&& PTE_ADDR_MASK =
          t.pdptTable.setWidth 64 ∨
      ¬ (v.toNat / 2 ^ 39 % 512 = 0 ∨ v.toNat / 2 ^ 39 % 512 = 256) ∧
        tableEntry mem (t.pml4Table.setWidth 64) (PML4_INDEX v) &&& PTE_PRESENT = 0 := by
  have hidx : (PML4_INDEX v).toNat = v.toNat / 2 ^ 39 % 512 := vaIndex_toNat 39 v
  have hlt : v.toNat / 2 ^ 39 % 512 < 512 := Nat.mod_lt _ (by decide)
  have haligned : t.pdptTable.toNat % 4096 = 0 := by
    have ha := t.aligned
    have hbelow := t.below
    unfold BootTables.pdptTable
    bv_omega
  have htable : t.pml4Table.setWidth 64 = t.cell 0 := by
    unfold BootTables.cell
    simp
  rw [h.entry htable (by omega), Nat.zero_add, hidx, bootEntry_pml4 hlt]
  split_ifs with hin
  · obtain ⟨hpresent, -, hmask⟩ := tableFlags_walk haligned
    exact .inl ⟨hin, hpresent, hmask⟩
  · exact .inr ⟨hin, by decide⟩

theorem BootMapped.pdpt_walk (h : BootMapped t mem) (v : Word) :
    v.toNat / 2 ^ 30 % 512 < 2 ∧
        tableEntry mem (t.pdptTable.setWidth 64) (PDPT_INDEX v) &&& PTE_PRESENT ≠ 0 ∧
        tableEntry mem (t.pdptTable.setWidth 64) (PDPT_INDEX v) &&& PTE_HUGE = 0 ∧
        tableEntry mem (t.pdptTable.setWidth 64) (PDPT_INDEX v) &&& PTE_ADDR_MASK =
          t.directory v ∨
      ¬ v.toNat / 2 ^ 30 % 512 < 2 ∧
        tableEntry mem (t.pdptTable.setWidth 64) (PDPT_INDEX v) &&& PTE_PRESENT = 0 := by
  have hidx : (PDPT_INDEX v).toNat = v.toNat / 2 ^ 30 % 512 := vaIndex_toNat 30 v
  have hlt : v.toNat / 2 ^ 30 % 512 < 512 := Nat.mod_lt _ (by decide)
  have ha := t.aligned
  have hbelow := t.below
  have htable : t.pdptTable.setWidth 64 = t.cell 512 := by
    unfold BootTables.pdptTable BootTables.cell
    bv_omega
  have hpd : t.pdTable.toNat = t.pml4Table.toNat + 4096 * 2 := by
    unfold BootTables.pdTable
    bv_omega
  have hpd' : (t.pdTable + 4096).toNat = t.pml4Table.toNat + 4096 * 3 := by
    bv_omega
  rw [h.entry htable (by omega), hidx, bootEntry_pdpt hlt]
  unfold BootTables.directory
  split_ifs with h0 h1
  · obtain ⟨hpresent, hhuge, hmask⟩ := tableFlags_walk (a := t.pdTable) (by omega)
    refine .inl ⟨by omega, hpresent, hhuge, hmask.trans ?_⟩
    rw [h0, BootTables.cell]
    bv_omega
  · obtain ⟨hpresent, hhuge, hmask⟩ := tableFlags_walk (a := t.pdTable + 4096) (by omega)
    refine .inl ⟨by omega, hpresent, hhuge, hmask.trans ?_⟩
    rw [h1, BootTables.cell]
    bv_omega
  · exact .inr ⟨by omega, by decide⟩

/-- Each entry of a directory is a huge page. -/
theorem BootMapped.pd_walk (h : BootMapped t mem) {v : Word} (hv : v.toNat / 2 ^ 30 % 512 < 2) :
    tableEntry mem (t.directory v) (PD_INDEX v) &&& PTE_PRESENT ≠ 0 ∧
      tableEntry mem (t.directory v) (PD_INDEX v) &&& PTE_HUGE ≠ 0 ∧
      (tableEntry mem (t.directory v) (PD_INDEX v) &&& PTE_ADDR_MASK).toNat =
        v.toNat / 0x200000 % 1024 * 0x200000 := by
  have hidx : (PD_INDEX v).toNat = v.toNat / 2 ^ 21 % 512 := vaIndex_toNat 21 v
  have hlt : v.toNat / 2 ^ 21 % 512 < 512 := Nat.mod_lt _ (by decide)
  have hentry : ((bootEntry t (1024 + 512 * (v.toNat / 2 ^ 30 % 512) +
      v.toNat / 2 ^ 21 % 512)).setWidth 64).toNat =
      0x83 + 0x200000 * (512 * (v.toNat / 2 ^ 30 % 512) + v.toNat / 2 ^ 21 % 512) := by
    rw [BitVec.toNat_setWidth, Nat.add_assoc, bootEntry_pd (by omega)]
    omega
  rw [BootTables.directory, h.entry rfl (by omega), hidx]
  refine ⟨?_, ?_, ?_⟩
  · rw [Ne, present_eq_zero, hentry]
    omega
  · rw [Ne, huge_eq_zero, hentry]
    omega
  · rw [addrMask_toNat (by omega), hentry]
    omega

/-- **Nothing can be mapped** over the tables of the boot code. -/
theorem BootMapped.mapPage (h : BootMapped t mem) (virt phys flags : Word) :
    mmuMapPage t mem virt phys flags = mem := by
  unfold mmuMapPage
  rcases h.pml4_walk virt with ⟨-, hpresent, hpdpt⟩ | ⟨-, habsent⟩
  · rcases h.pdpt_walk virt with ⟨hlt, hpresent', hhuge, hpd⟩ | ⟨-, habsent⟩
    · obtain ⟨-, hpage, -⟩ := h.pd_walk hlt
      simp only [hpdpt, hpd]
      rw [if_neg hpresent, if_neg hpresent', if_neg (not_not.2 hhuge), if_pos hpage]
    · simp only [hpdpt]
      rw [if_neg hpresent, if_pos habsent]
  · exact if_pos habsent

/-- **Nothing can be unmapped.** -/
theorem BootMapped.unmapPage (h : BootMapped t mem) (virt : Word) :
    mmuUnmapPage t mem virt = mem := by
  unfold mmuUnmapPage
  rcases h.pml4_walk virt with ⟨-, hpresent, hpdpt⟩ | ⟨-, habsent⟩
  · rcases h.pdpt_walk virt with ⟨hlt, hpresent', hhuge, hpd⟩ | ⟨-, habsent⟩
    · obtain ⟨hpresent'', hpage, -⟩ := h.pd_walk hlt
      simp only [hpdpt, hpd]
      rw [if_neg hpresent, if_neg hpresent', if_neg (not_not.2 hhuge), if_neg hpresent'',
        if_pos hpage]
    · simp only [hpdpt]
      rw [if_neg hpresent, if_pos habsent]
  · exact if_pos habsent

/-- **The translation of the boot code**: the first 2 GB, at the bottom and in the higher
    half, and nothing else. -/
theorem BootMapped.getPhys (h : BootMapped t mem) (v : Word) :
    (mmuGetPhys t mem v).toNat = if BootCovers v then v.toNat % 2 ^ 31 else 0 := by
  unfold mmuGetPhys
  rcases h.pml4_walk v with ⟨hhalf, hpresent, hpdpt⟩ | ⟨hhalf, habsent⟩
  · rcases h.pdpt_walk v with ⟨hlt, hpresent', hhuge, hpd⟩ | ⟨hlt, habsent⟩
    · obtain ⟨hpresent'', hpage, haddr⟩ := h.pd_walk hlt
      have hoffset : (v &&& 0x1FFFFF).toNat = v.toNat % 2 ^ 21 := by
        rw [BitVec.toNat_and]
        exact Nat.and_two_pow_sub_one_eq_mod _ 21
      simp only [hpdpt, hpd]
      rw [if_neg hpresent, if_neg hpresent', if_neg (not_not.2 hhuge), if_neg hpresent'',
        if_pos hpage, if_pos ⟨hhalf, hlt⟩, BitVec.toNat_add, haddr, hoffset]
      omega
    · simp only [hpdpt]
      rw [if_neg hpresent, if_pos habsent, if_neg fun hcov => hlt hcov.2]
      rfl
  · rw [if_pos habsent, if_neg fun hcov => hhalf hcov.1]
    rfl

/-! ## Runs -/

theorem BootMapped.step {e : PagingEvent} {mem' : Memory} (h : BootMapped t mem)
    (hs : PagingStep t mem e mem') : BootMapped t mem' := by
  cases hs with
  | mapPage => rwa [h.mapPage]
  | unmapPage => rwa [h.unmapPage]
  | write hwrite =>
    intro i hi
    rw [Memory.load_congr fun x hx => hwrite x (t.cell_owned hi hx)]
    exact h i hi

/-- **In every run the tables are those of the boot code.** -/
theorem bootMapped_of_run {tr : List PagingEvent} (h : (pagingLts t).Run tr mem) :
    BootMapped t mem := by
  refine h.rule (P := fun _ mem => BootMapped t mem) ?_ ?_
  · rintro mem ⟨before, hmem⟩
    have hboot := setupPageTables_bootMapped (t := t) before
    rwa [← hmem] at hboot
  · exact fun tr mem e mem' h hs => h.step hs

end Walk

/-- **The frame of a mapping**, in every state that calls and other writes lead to: it
    changes nothing or maps its page, it leaves the other pages as they are, and so does
    an unmapping. -/
theorem page_mapping_frame {t : BootTables} {tr : List PagingEvent} {mem : Memory}
    (h : (pagingLts t).Run tr mem) (virt phys flags : Word) :
    (mmuMapPage t mem virt phys flags = mem ∨ ∀ v, InPage virt v →
        mmuGetPhys t (mmuMapPage t mem virt phys flags) v = phys + (v - virt)) ∧
      (∀ v, ¬ InPage virt v →
        mmuGetPhys t (mmuMapPage t mem virt phys flags) v = mmuGetPhys t mem v) ∧
      ∀ v, ¬ InPage virt v → mmuGetPhys t (mmuUnmapPage t mem virt) v = mmuGetPhys t mem v := by
  have hboot := bootMapped_of_run h
  refine ⟨.inl (hboot.mapPage virt phys flags), fun v hv => ?_, fun v hv => ?_⟩
  · rw [hboot.mapPage]
  · rw [hboot.unmapPage]

/-- Tables at 0x110000. -/
def demoBootTables : BootTables := ⟨0x110000, 0x120000, by decide, by decide⟩

/-- The kernel tries to map a page of the higher half. -/
def demoMapped : Memory :=
  mmuMapPage demoBootTables (setupPageTables demoBootTables fun _ => 0) 0xFFFF800000400000 0x200000
    PTE_WRITABLE

theorem demoMapped_run : (pagingLts demoBootTables).Run
    [.mapPage 0xFFFF800000400000 0x200000 PTE_WRITABLE] demoMapped := by
  have hstart : (pagingLts demoBootTables).Run [] (setupPageTables demoBootTables fun _ => 0) :=
    .start (Exists.intro (fun _ => 0) (Eq.refl _))
  exact hstart.snoc .mapPage

theorem page_mapping_frame_higher :
    (mmuMapPage demoBootTables demoMapped 0x400000 0x300000 PTE_WRITABLE = demoMapped ∨
        ∀ v, InPage 0x400000 v → mmuGetPhys demoBootTables
          (mmuMapPage demoBootTables demoMapped 0x400000 0x300000 PTE_WRITABLE) v =
            0x300000 + (v - 0x400000)) ∧
      (∀ v, ¬ InPage 0x400000 v → mmuGetPhys demoBootTables
        (mmuMapPage demoBootTables demoMapped 0x400000 0x300000 PTE_WRITABLE) v =
          mmuGetPhys demoBootTables demoMapped v) ∧
      ∀ v, ¬ InPage 0x400000 v →
        mmuGetPhys demoBootTables (mmuUnmapPage demoBootTables demoMapped 0x400000) v =
          mmuGetPhys demoBootTables demoMapped v :=
  page_mapping_frame demoMapped_run 0x400000 0x300000 PTE_WRITABLE

end Gracemont
