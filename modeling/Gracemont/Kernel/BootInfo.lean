/-
  Gracemont kernel — the Multiboot2 information (`kernel/main.c` of the X86_64 port).

  `parse_multiboot2_info` walks over the tags that the boot loader left in memory; it
  goes from one to the next by the size that is stored in it, and stops at a tag of
  type `END`.  It does not look at `total_size` but to print it.

  * `parseMultiboot2Info`: what is printed, and the tags that are looked at;
  * `TagWalk`: a block whose tags follow one another up to an `END`;
  * `boot_info_iff`: the loop ends and stays inside of exactly these blocks.
-/
import Mathlib.Data.BitVec
import Mathlib.Tactic.SplitIfs
import Gracemont.Kernel.Types
import Gracemont.Lib.Loop

namespace Gracemont

/-! ## The tags -/

/-- `MULTIBOOT2_BOOTLOADER_MAGIC` -/
def multiboot2Magic : BitVec 64 := 0x36D76289

namespace Multiboot2Tag
def END : BitVec 32 := 0
def CMDLINE : BitVec 32 := 1
def BOOTLOADER : BitVec 32 := 2
def BASIC_MEMINFO : BitVec 32 := 4
end Multiboot2Tag

/-- The memory of the machine. -/
abbrev BootMem : Type := BitVec 64 → BitVec 8

/-- A `uint32_t`, the lowest byte first. -/
def BootMem.load32 (mem : BootMem) (a : BitVec 64) : BitVec 32 :=
  mem (a + 3) ++ mem (a + 2) ++ mem (a + 1) ++ mem a

/-- `tag->type` -/
def tagType (mem : BootMem) (tag : BitVec 64) : BitVec 32 := mem.load32 tag

/-- `tag->size` -/
def tagSize (mem : BootMem) (tag : BitVec 64) : BitVec 32 := mem.load32 (tag + 4)

/-- The tag behind `tag`, aligned to 8 bytes. -/
def nextTag (mem : BootMem) (tag : BitVec 64) : BitVec 64 :=
  (tag + (tagSize mem tag).setWidth 64 + 7) &&& ~~~7

/-- What is printed after the banner, each with its text before it. -/
inductive BootLine
  | invalidMagic (magic : BitVec 64)
  | infoSize (totalSize : BitVec 32)
  | commandLine (text : List (BitVec 8))
  | bootloader (text : List (BitVec 8))
  | memory (lower upper : BitVec 32)
  deriving DecidableEq, Repr

/-- The loop of `uart_puts`, from a character on. -/
def putsBody (mem : BootMem) :
    BitVec 64 × List (BitVec 8) → (BitVec 64 × List (BitVec 8)) ⊕ List (BitVec 8)
  | (s, text) => if mem s = 0 then .inr text else .inl (s + 1, text ++ [mem s])

/-- The `switch` on the type of a tag. -/
def showTag (mem : BootMem) (fuel : ℕ) (tag : BitVec 64) : Option (List BootLine) :=
  if tagType mem tag = Multiboot2Tag.CMDLINE then
    (Lib.Loop.run (putsBody mem) fuel (tag + 8, [])).map fun text => [.commandLine text]
  else if tagType mem tag = Multiboot2Tag.BOOTLOADER then
    (Lib.Loop.run (putsBody mem) fuel (tag + 8, [])).map fun text => [.bootloader text]
  else if tagType mem tag = Multiboot2Tag.BASIC_MEMINFO then
    some [.memory (mem.load32 (tag + 8)) (mem.load32 (tag + 12))]
  else some []

/-- The loop over the tags: the tags that it looks at, and what it prints. -/
def parseTags (mem : BootMem) : ℕ → BitVec 64 → Option (List (BitVec 64) × List BootLine)
  | 0, _ => none
  | fuel + 1, tag =>
    if tagType mem tag = Multiboot2Tag.END then some ([tag], [])
    else do
      let lines ← showTag mem fuel tag
      let (tags, rest) ← parseTags mem fuel (nextTag mem tag)
      some (tag :: tags, lines ++ rest)

/-- `parse_multiboot2_info` -/
def parseMultiboot2Info (mem : BootMem) (fuel : ℕ) (magic infoAddr : BitVec 64) :
    Option (List (BitVec 64) × List BootLine) :=
  if magic ≠ multiboot2Magic then some ([], [.invalidMagic magic])
  else do
    let (tags, lines) ← parseTags mem fuel (infoAddr + 8)
    some (tags, .infoSize (mem.load32 infoAddr) :: lines)

/-! ## Blocks -/

/-- A Multiboot2 information block in memory. -/
structure BootBlock where
  mem : BootMem
  addr : BitVec 64
  fits : addr.toNat + (mem.load32 addr).toNat ≤ 2 ^ 64

namespace BootBlock

/-- The end of the first `total_size` bytes. -/
def limit (b : BootBlock) : ℕ := b.addr.toNat + (b.mem.load32 b.addr).toNat

/-- The header of the tag at `a` is inside of the block. -/
def Holds (b : BootBlock) (a : ℕ) : Prop := b.addr.toNat ≤ a ∧ a + 8 ≤ b.limit

end BootBlock

/-- The loop ends, and has looked at headers inside of the block only. -/
def WalksInside (b : BootBlock) (magic : BitVec 64) : Prop :=
  ∃ fuel tags lines, parseMultiboot2Info b.mem fuel magic b.addr = some (tags, lines) ∧
    ∀ tag ∈ tags, b.Holds tag.toNat

/-- The text of a tag with one ends. -/
def TextEnds (mem : BootMem) (a : ℕ) : Prop :=
  (tagType mem (BitVec.ofNat 64 a) = Multiboot2Tag.CMDLINE ∨
    tagType mem (BitVec.ofNat 64 a) = Multiboot2Tag.BOOTLOADER) →
  ∃ n, mem (BitVec.ofNat 64 (a + 8 + n)) = 0

/-- **A well-formed list of tags** from the address `a` on: each at the end of the one
    before it, rounded up to 8 bytes, and the last one of type `END`. -/
inductive TagWalk (b : BootBlock) : ℕ → Prop
  | last {a : ℕ} (hin : b.Holds a) (hend : tagType b.mem (BitVec.ofNat 64 a) = Multiboot2Tag.END) :
      TagWalk b a
  | tag {a : ℕ} (hin : b.Holds a) (hend : tagType b.mem (BitVec.ofNat 64 a) ≠ Multiboot2Tag.END)
      (htext : TextEnds b.mem a)
      (hrest : TagWalk b ((a + (tagSize b.mem (BitVec.ofNat 64 a)).toNat + 7) / 8 * 8)) :
      TagWalk b a

/-! ## The loops -/

variable {mem : BootMem} {fuel fuel' : ℕ} {tag : BitVec 64}

/-- `uart_puts` returns if there is a terminator. -/
theorem puts_returns {n : ℕ} {a : BitVec 64} (text : List (BitVec 8))
    (h : mem (a + BitVec.ofNat 64 n) = 0) :
    ∃ text', Lib.Loop.Returns (putsBody mem) (a, text) text' := by
  induction n generalizing a text with
  | zero =>
    have ha : mem a = 0 := by simpa using h
    exact ⟨text, .of_inr (by simp [putsBody, ha])⟩
  | succ n ih =>
    by_cases ha : mem a = 0
    · exact ⟨text, .of_inr (by simp [putsBody, ha])⟩
    · have hnext : a + 1 + BitVec.ofNat 64 n = a + BitVec.ofNat 64 (n + 1) := by
        rw [BitVec.ofNat_add]
        ac_rfl
      obtain ⟨text', hr⟩ := ih (a := a + 1) (text ++ [mem a]) (by rw [hnext]; exact h)
      exact ⟨text', .of_inl (if_neg ha) hr⟩

/-- And only then. -/
theorem puts_terminator {a : BitVec 64} {text text' : List (BitVec 8)}
    (h : Lib.Loop.run (putsBody mem) fuel (a, text) = some text') :
    ∃ n, mem (a + BitVec.ofNat 64 n) = 0 := by
  induction fuel generalizing a text with
  | zero => cases h
  | succ fuel ih =>
    by_cases ha : mem a = 0
    · exact ⟨0, by simpa using ha⟩
    · simp only [Lib.Loop.run, putsBody, if_neg ha] at h
      obtain ⟨n, hn⟩ := ih h
      refine ⟨n + 1, ?_⟩
      rw [BitVec.ofNat_add]
      rwa [BitVec.add_assoc, BitVec.add_comm 1] at hn

theorem showTag_mono {lines : List BootLine} (h : showTag mem fuel tag = some lines)
    (hle : fuel ≤ fuel') : showTag mem fuel' tag = some lines := by
  unfold showTag at h ⊢
  split_ifs at h ⊢
  · obtain ⟨text, htext, rfl⟩ := Option.map_eq_some_iff.1 h
    rw [Lib.Loop.run_mono htext hle]
    rfl
  · obtain ⟨text, htext, rfl⟩ := Option.map_eq_some_iff.1 h
    rw [Lib.Loop.run_mono htext hle]
    rfl
  · exact h
  · exact h

/-- One turn of the loop. -/
theorem parseTags_succ (hend : tagType mem tag ≠ Multiboot2Tag.END)
    {r : List (BitVec 64) × List BootLine} : parseTags mem (fuel + 1) tag = some r ↔
      ∃ lines tags rest, showTag mem fuel tag = some lines ∧
        parseTags mem fuel (nextTag mem tag) = some (tags, rest) ∧ r = (tag :: tags, lines ++ rest) := by
  rw [parseTags, if_neg hend]
  simp only [Option.bind_eq_bind, Option.bind_eq_some_iff, Option.some.injEq, Prod.exists]
  constructor
  · rintro ⟨lines, hl, tags, rest, hr, rfl⟩
    exact ⟨lines, tags, rest, hl, hr, rfl⟩
  · rintro ⟨lines, tags, rest, hl, hr, rfl⟩
    exact ⟨lines, hl, tags, rest, hr, rfl⟩

theorem parseTags_mono {r : List (BitVec 64) × List BootLine} (h : parseTags mem fuel tag = some r)
    (hle : fuel ≤ fuel') : parseTags mem fuel' tag = some r := by
  induction fuel generalizing tag fuel' r with
  | zero => cases h
  | succ fuel ih =>
    obtain ⟨n, rfl⟩ : ∃ n, fuel' = n + 1 := ⟨fuel' - 1, by omega⟩
    by_cases hend : tagType mem tag = Multiboot2Tag.END
    · rw [parseTags, if_pos hend] at h ⊢
      exact h
    · obtain ⟨lines, tags, rest, hl, hr, rfl⟩ := (parseTags_succ hend).1 h
      exact (parseTags_succ hend).2
        ⟨lines, tags, rest, showTag_mono hl (by omega), ih hr (by omega), rfl⟩

/-- The first tag that is looked at. -/
theorem parseTags_head {tags : List (BitVec 64)} {lines : List BootLine}
    (h : parseTags mem fuel tag = some (tags, lines)) : tag ∈ tags := by
  cases fuel with
  | zero => cases h
  | succ fuel =>
    by_cases hend : tagType mem tag = Multiboot2Tag.END
    · rw [parseTags, if_pos hend] at h
      cases h
      exact List.mem_singleton_self tag
    · obtain ⟨_, _, _, -, -, heq⟩ := (parseTags_succ hend).1 h
      cases heq
      exact List.mem_cons_self

/-- A tag is printed if its text ends. -/
theorem showTag_returns_iff {a : ℕ} : (∃ fuel lines, showTag mem fuel (BitVec.ofNat 64 a) = some lines) ↔
    TextEnds mem a := by
  have htext : ∀ n, BitVec.ofNat 64 a + 8 + BitVec.ofNat 64 n = BitVec.ofNat 64 (a + 8 + n) := by
    intro n
    rw [BitVec.ofNat_add, BitVec.ofNat_add]
    rfl
  constructor
  · rintro ⟨fuel, lines, h⟩ hty
    have hrun : ∃ text, Lib.Loop.run (putsBody mem) fuel (BitVec.ofNat 64 a + 8, []) = some text := by
      unfold showTag at h
      split_ifs at h with hcmd hboot
      · obtain ⟨text, hrun, -⟩ := Option.map_eq_some_iff.1 h
        exact ⟨text, hrun⟩
      · obtain ⟨text, hrun, -⟩ := Option.map_eq_some_iff.1 h
        exact ⟨text, hrun⟩
      · exact absurd hty (not_or.2 ⟨hcmd, hboot⟩)
      · exact absurd hty (not_or.2 ⟨hcmd, hboot⟩)
    obtain ⟨text, hrun⟩ := hrun
    obtain ⟨n, hn⟩ := puts_terminator hrun
    exact ⟨n, htext n ▸ hn⟩
  · intro h
    unfold showTag
    by_cases hcmd : tagType mem (BitVec.ofNat 64 a) = Multiboot2Tag.CMDLINE
    · obtain ⟨n, hn⟩ := h (.inl hcmd)
      obtain ⟨text, fuel, hrun⟩ := puts_returns (n := n) [] (htext n ▸ hn)
      exact ⟨fuel, _, by rw [if_pos hcmd, hrun]; rfl⟩
    · by_cases hboot : tagType mem (BitVec.ofNat 64 a) = Multiboot2Tag.BOOTLOADER
      · obtain ⟨n, hn⟩ := h (.inr hboot)
        obtain ⟨text, fuel, hrun⟩ := puts_returns (n := n) [] (htext n ▸ hn)
        exact ⟨fuel, _, by rw [if_neg hcmd, if_pos hboot, hrun]; rfl⟩
      · simp only [if_neg hcmd, if_neg hboot]
        split_ifs
        · exact ⟨0, _, rfl⟩
        · exact ⟨0, _, rfl⟩

/-- Where the next tag is, as long as the sum does not wrap. -/
theorem nextTag_toNat (h : tag.toNat + (tagSize mem tag).toNat + 7 < 2 ^ 64) :
    (nextTag mem tag).toNat = (tag.toNat + (tagSize mem tag).toNat + 7) / 8 * 8 := by
  rw [nextTag, and_not_lowMask _ (k := 3) rfl, BitVec.toNat_add, BitVec.toNat_add,
    BitVec.toNat_setWidth]
  have h7 : (7 : BitVec 64).toNat = 7 := rfl
  have hlt := (tagSize mem tag).isLt
  congr 2
  omega

/-! ## The loop over a block -/

variable {b : BootBlock} {a : ℕ}

theorem BootBlock.Holds.lt (h : b.Holds a) : a < 2 ^ 64 := by
  have hfits := b.fits
  have hle := h.2
  unfold BootBlock.limit at hle
  omega

theorem TagWalk.holds (h : TagWalk b a) : b.Holds a := by
  cases h with
  | last hin => exact hin
  | tag hin => exact hin

/-- The loop over a well-formed list of tags. -/
theorem TagWalk.parses (h : TagWalk b a) : ∃ fuel tags lines,
    parseTags b.mem fuel (BitVec.ofNat 64 a) = some (tags, lines) ∧
      ∀ tag ∈ tags, b.Holds tag.toNat := by
  induction h with
  | @last a hin hend =>
    refine ⟨1, _, _, by rw [parseTags, if_pos hend], fun tag htag => ?_⟩
    rw [List.mem_singleton.1 htag, BitVec.toNat_ofNat, Nat.mod_eq_of_lt hin.lt]
    exact hin
  | @tag a hin hend htext hrest ih =>
    obtain ⟨fuel, tags, rest, hr, hall⟩ := ih
    obtain ⟨fuel', lines, hl⟩ := showTag_returns_iff.2 htext
    have ha : (BitVec.ofNat 64 a).toNat = a := by
      rw [BitVec.toNat_ofNat, Nat.mod_eq_of_lt hin.lt]
    have hlt := hrest.holds.lt
    have hnext : nextTag b.mem (BitVec.ofNat 64 a) = BitVec.ofNat 64
        ((a + (tagSize b.mem (BitVec.ofNat 64 a)).toNat + 7) / 8 * 8) := by
      refine BitVec.eq_of_toNat_eq ?_
      have hsum : (nextTag b.mem (BitVec.ofNat 64 a)).toNat = _ := nextTag_toNat (by omega)
      rw [hsum, ha, BitVec.toNat_ofNat, Nat.mod_eq_of_lt hlt]
    refine ⟨max fuel fuel' + 1, _, _, (parseTags_succ hend).2 ⟨lines, tags, rest,
      showTag_mono hl (le_max_right ..), ?_, rfl⟩, fun tag htag => ?_⟩
    · rw [hnext]
      exact parseTags_mono hr (le_max_left ..)
    · rcases List.mem_cons.1 htag with rfl | htag
      · rw [ha]
        exact hin
      · exact hall tag htag

/-- **Only over such a list** does it end inside of the block. -/
theorem tagWalk_of_parses {tags : List (BitVec 64)} {lines : List BootLine}
    (h : parseTags b.mem fuel tag = some (tags, lines)) (hall : ∀ t ∈ tags, b.Holds t.toNat) :
    TagWalk b tag.toNat := by
  induction fuel generalizing tag tags lines with
  | zero => cases h
  | succ fuel ih =>
    have hin := hall tag (parseTags_head h)
    have hself : BitVec.ofNat 64 tag.toNat = tag := by simp
    by_cases hend : tagType b.mem tag = Multiboot2Tag.END
    · exact .last hin (by rwa [hself])
    · obtain ⟨shown, tags', rest, hl, hr, heq⟩ := (parseTags_succ hend).1 h
      obtain ⟨rfl, -⟩ := Prod.mk.inj heq
      have hall' : ∀ t ∈ tags', b.Holds t.toNat := fun t ht => hall t (List.mem_cons_of_mem _ ht)
      -- a sum that wraps would lead below the block
      have hlt : tag.toNat + (tagSize b.mem tag).toNat + 7 < 2 ^ 64 := by
        by_contra hwrap
        have hnext := (hall' _ (parseTags_head hr)).1
        have hsize := (tagSize b.mem tag).isLt
        have htotal := (b.mem.load32 b.addr).isLt
        have hlimit := hin.2
        have htag := tag.isLt
        unfold BootBlock.limit at hlimit
        rw [nextTag, and_not_lowMask _ (k := 3) rfl, BitVec.toNat_add, BitVec.toNat_add,
          BitVec.toNat_setWidth] at hnext
        have h7 : (7 : BitVec 64).toNat = 7 := rfl
        omega
      refine .tag hin (by rwa [hself]) ?_ ?_
      · refine showTag_returns_iff.1 ⟨fuel, shown, ?_⟩
        rwa [hself]
      · rw [hself, ← nextTag_toNat hlt]
        exact ih hr hall'

/-- **The walk over the tags**, for every block: it ends, and stays inside of the first
    `total_size` bytes, exactly if the magic is wrong or the block has a well-formed list
    of tags. -/
theorem boot_info_iff (b : BootBlock) (magic : BitVec 64) :
    WalksInside b magic ↔ magic ≠ multiboot2Magic ∨ TagWalk b (b.addr.toNat + 8) := by
  by_cases hmagic : magic = multiboot2Magic
  · have haddr : BitVec.ofNat 64 (b.addr.toNat + 8) = b.addr + 8 := by
      rw [BitVec.ofNat_add]
      simp
    rw [or_iff_right (not_not.2 hmagic)]
    constructor
    · rintro ⟨fuel, tags, lines, h, hall⟩
      rw [parseMultiboot2Info, if_neg (not_not.2 hmagic)] at h
      obtain ⟨⟨tags', lines'⟩, hr, heq⟩ := Option.bind_eq_some_iff.1 h
      cases heq
      have hwalk := tagWalk_of_parses hr hall
      have hsum : (b.addr + 8).toNat = b.addr.toNat + 8 := by
        have hlo := hwalk.holds.1
        rw [BitVec.toNat_add] at hlo ⊢
        have h8 : (8 : BitVec 64).toNat = 8 := rfl
        have haddr := b.addr.isLt
        omega
      rwa [hsum] at hwalk
    · intro h
      obtain ⟨fuel, tags, lines, hr, hall⟩ := h.parses
      rw [haddr] at hr
      refine ⟨fuel, tags, .infoSize (b.mem.load32 b.addr) :: lines, ?_, hall⟩
      rw [parseMultiboot2Info, if_neg (not_not.2 hmagic), hr]
      rfl
  · refine iff_of_true ⟨0, [], _, if_pos hmagic, fun tag htag => ?_⟩ (.inl hmagic)
    cases htag

/-- A block of 24 bytes at 0x10000: a tag of the type 4 and the size 0, and an `END`. -/
def demoBoot : BootBlock where
  mem a := if a = 0x10000 then 24 else if a = 0x10008 then 4 else 0
  addr := 0x10000
  fits := by decide

/-- A tag of size 0 is looked at for ever. -/
theorem demoBoot_hangs :
    (∀ fuel, parseMultiboot2Info demoBoot.mem fuel multiboot2Magic demoBoot.addr = none) ∧
      ¬ WalksInside demoBoot multiboot2Magic := by
  have hloop : ∀ fuel, parseTags demoBoot.mem fuel 0x10008 = none := by
    intro fuel
    induction fuel with
    | zero => rfl
    | succ fuel ih =>
      have hnext : nextTag demoBoot.mem 0x10008 = 0x10008 := by decide
      have hend : tagType demoBoot.mem 0x10008 ≠ Multiboot2Tag.END := by decide
      rw [parseTags, if_neg hend, hnext, ih]
      cases showTag demoBoot.mem fuel 0x10008 with
      | none => rfl
      | some lines => rfl
  have hnone : ∀ fuel,
      parseMultiboot2Info demoBoot.mem fuel multiboot2Magic demoBoot.addr = none := by
    intro fuel
    have haddr : demoBoot.addr + 8 = 0x10008 := by decide
    rw [parseMultiboot2Info, if_neg (not_not.2 rfl), haddr, hloop fuel]
    rfl
  refine ⟨hnone, ?_⟩
  rintro ⟨fuel, tags, lines, h, -⟩
  rw [hnone fuel] at h
  cases h

end Gracemont
