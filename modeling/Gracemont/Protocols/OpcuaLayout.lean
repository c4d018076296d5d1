/-
  Gracemont protocols — the layout of OPC UA requests.

  For each decoder, from the offset that it starts at: how many bytes it moves
  over (`…Size`), how many of them, from the first on, contain all that it reads
  (`…Need`), and what it returns (`…At`).  None of the three depends on what was
  read before.
-/
import Gracemont.Protocols.OpcuaServer

namespace Gracemont

open Lib

variable {ρ β : Type} (m : ℕ → BitVec 8) (p : ℕ)

/-! ## Node ids -/

/-- The form of an encoded node id. -/
def opcuaNodeidForm : BitVec 8 := u8At m p &&& 0x0F

theorem opcuaNodeidForm_eq : u8At m p &&& 0x0F = opcuaNodeidForm m p := (rfl)

def opcuaNodeidNeed : ℕ :=
  if opcuaNodeidForm m p = 0x00 then 2
  else if opcuaNodeidForm m p = 0x01 then 4
  else if opcuaNodeidForm m p = 0x02 then 7
  else if opcuaNodeidForm m p = 0x03 then 7
  else 1

/-- The length of the string of a node id. -/
def opcuaNodeidLen : BitVec 16 := (u32At m (p + 3)).setWidth 16

def opcuaNodeidSize : ℕ :=
  if opcuaNodeidForm m p = 0x00 then 2
  else if opcuaNodeidForm m p = 0x01 then 4
  else if opcuaNodeidForm m p = 0x02 then 7
  else if opcuaNodeidForm m p = 0x03 then 7 + (opcuaNodeidLen m p).toNat
  else 1

def opcuaNodeidAt (r : ρ) (junk : OpcuaNodeid ρ) : OpcuaNodeid ρ :=
  if opcuaNodeidForm m p = 0x00 then ⟨0, .numeric ((u8At m (p + 1)).setWidth 32)⟩
  else if opcuaNodeidForm m p = 0x01 then
    ⟨(u8At m (p + 1)).setWidth 16, .numeric ((u16At m (p + 2)).setWidth 32)⟩
  else if opcuaNodeidForm m p = 0x02 then ⟨u16At m (p + 1), .numeric (u32At m (p + 3))⟩
  else if opcuaNodeidForm m p = 0x03 then
    ⟨u16At m (p + 1), .string ⟨r, p + 7⟩ (opcuaNodeidLen m p)⟩
  else junk

theorem opcuaNodeidNeed_le : opcuaNodeidNeed m p ≤ opcuaNodeidSize m p := by
  unfold opcuaNodeidNeed opcuaNodeidSize
  split_ifs <;> omega

section
variable {m} (c : Cursor) (r : ρ) (junk : OpcuaNodeid ρ)

/-- **Decoding a node id.** -/
theorem opcuaDecodeNodeid_fst :
    (opcuaDecodeNodeid r junk m c).1 = opcuaNodeidAt m c.pos r junk := by
  simp only [opcuaDecodeNodeid, Scan.bind_apply, Scan.ite_apply, readU8_fst,
    opcuaNodeidForm_eq, opcuaNodeidAt]
  split_ifs
  · rfl
  · rfl
  · rfl
  · rfl
  · rfl

theorem opcuaDecodeNodeid_pos :
    (opcuaDecodeNodeid r junk m c).2.pos = c.pos + opcuaNodeidSize m c.pos := by
  simp only [opcuaDecodeNodeid, Scan.bind_apply, Scan.ite_apply, readU8_fst,
    opcuaNodeidForm_eq, opcuaNodeidSize]
  split_ifs
  · rfl
  · rfl
  · rfl
  · show c.pos + 1 + 2 + 4 + (opcuaNodeidLen m c.pos).toNat = _
    omega
  · rfl

theorem opcuaDecodeNodeid_below (limit : ℕ) : (opcuaDecodeNodeid r junk m c).2.Below limit ↔
    c.Below limit ∧ c.pos + opcuaNodeidNeed m c.pos ≤ limit := by
  simp only [opcuaDecodeNodeid, Scan.bind_apply, Scan.ite_apply, readU8_fst,
    opcuaNodeidForm_eq, opcuaNodeidNeed]
  split_ifs
  all_goals simp only [readU8_below, readU16_below, readU32_below, readU8_pos, readU16_pos,
    Scan.pure_apply, Scan.skip_below, Scan.pos_snd, and_assoc]
  all_goals refine and_congr_right fun _ => ?_
  all_goals omega

end

/-! ## Variants -/

/-- The bytes of a string behind its length. -/
def opcuaStringLen : ℕ := if u32At m p = 0xFFFFFFFF then 0 else (u32At m p).toNat

/-- The same for the value of a variant, by its case. -/
def OpcuaCase.need : OpcuaCase → ℕ
  | boolean => 1
  | scalar t => t.width
  | string => 4
  | nodeid => opcuaNodeidNeed m p
  | other _ => 0

def OpcuaCase.size : OpcuaCase → ℕ
  | boolean => 1
  | scalar t => t.width
  | string => 4 + opcuaStringLen m p
  | nodeid => opcuaNodeidSize m p
  | other _ => 0

def opcuaVariantNeed : ℕ := 1 + (opcuaCase (u8At m p)).need m (p + 1)

def opcuaVariantSize : ℕ := 1 + (opcuaCase (u8At m p)).size m (p + 1)

theorem OpcuaCase.need_le (k : OpcuaCase) : k.need m p ≤ k.size m p := by
  cases k with
  | boolean => exact Nat.le_refl _
  | scalar t => exact Nat.le_refl _
  | string => exact Nat.le_add_right ..
  | nodeid => exact opcuaNodeidNeed_le m p
  | other type => exact Nat.le_refl _

theorem opcuaVariantNeed_le : opcuaVariantNeed m p ≤ opcuaVariantSize m p :=
  Nat.add_le_add_left (OpcuaCase.need_le m (p + 1) _) 1

section
variable {m} (c : Cursor) (r : ρ)

theorem opcuaDecodeString_pos :
    (opcuaDecodeString r m c).2.pos = c.pos + 4 + opcuaStringLen m c.pos := by
  simp only [opcuaDecodeString, Scan.bind_apply, Scan.ite_apply, readU32_fst, opcuaStringLen]
  split_ifs
  · rfl
  · rfl

theorem opcuaDecodeString_below (limit : ℕ) : (opcuaDecodeString r m c).2.Below limit ↔
    c.Below limit ∧ c.pos + 4 ≤ limit := by
  simp only [opcuaDecodeString, Scan.bind_apply, Scan.ite_apply, readU32_fst]
  split_ifs
  · simp
  · simp

variable (junk : OpcuaNodeid ρ)

/-- The variant at an offset. -/
def opcuaVariantAt (m : ℕ → BitVec 8) (p : ℕ) (r : ρ) (junk : OpcuaNodeid ρ) : OpcuaVariant ρ :=
  match opcuaCase (u8At m p) with
  | .boolean => .boolean (u8At m (p + 1) ≠ 0)
  | .scalar t => .scalar t (uintAt m (p + 1) t.width)
  | .string =>
    if u32At m (p + 1) = 0xFFFFFFFF then .string none 0
    else .string (some ⟨r, p + 5⟩) (u32At m (p + 1))
  | .nodeid => .nodeid (opcuaNodeidAt m (p + 1) r junk)
  | .other type => .other type junk

/-- **Decoding a variant.** -/
theorem opcuaDecodeVariant_fst :
    (opcuaDecodeVariant r junk m c).1 = opcuaVariantAt m c.pos r junk := by
  simp only [opcuaDecodeVariant, Scan.bind_apply, readU8_fst, opcuaVariantAt]
  cases opcuaCase (u8At m c.pos) with
  | boolean => rfl
  | scalar t => rfl
  | string =>
    show OpcuaVariant.string (opcuaDecodeString r m (readU8 m c).2).1.1
      (opcuaDecodeString r m (readU8 m c).2).1.2 = _
    simp only [opcuaDecodeString, Scan.bind_apply, Scan.ite_apply, readU32_fst, readU8_pos]
    split_ifs
    · rfl
    · rfl
  | nodeid =>
    show OpcuaVariant.nodeid (opcuaDecodeNodeid r junk m (readU8 m c).2).1 = _
    rw [opcuaDecodeNodeid_fst, readU8_pos]
  | other type => rfl

/-- **Decoding a variant** moves over its size. -/
theorem opcuaDecodeVariant_pos :
    (opcuaDecodeVariant r junk m c).2.pos = c.pos + opcuaVariantSize m c.pos := by
  simp only [opcuaDecodeVariant, Scan.bind_apply, readU8_fst, opcuaVariantSize]
  cases opcuaCase (u8At m c.pos) with
  | boolean => rfl
  | scalar t =>
    show (Scan.uint t.width m (readU8 m c).2).2.pos = _
    rw [Scan.uint_pos, readU8_pos, OpcuaCase.size]
    omega
  | string =>
    show (opcuaDecodeString r m (readU8 m c).2).2.pos = _
    rw [opcuaDecodeString_pos, readU8_pos, OpcuaCase.size]
    omega
  | nodeid =>
    show (opcuaDecodeNodeid r junk m (readU8 m c).2).2.pos = _
    rw [opcuaDecodeNodeid_pos, readU8_pos, OpcuaCase.size]
    omega
  | other type => rfl

/-- **Decoding a variant** reads what it needs. -/
theorem opcuaDecodeVariant_below (limit : ℕ) : (opcuaDecodeVariant r junk m c).2.Below limit ↔
    c.Below limit ∧ c.pos + opcuaVariantNeed m c.pos ≤ limit := by
  simp only [opcuaDecodeVariant, Scan.bind_apply, readU8_fst, opcuaVariantNeed]
  cases opcuaCase (u8At m c.pos) with
  | boolean =>
    show (readU8 m (readU8 m c).2).2.Below limit ↔ _
    simp only [readU8_below, readU8_pos, and_assoc, OpcuaCase.need]
    refine and_congr_right fun _ => ?_
    omega
  | scalar t =>
    have ht := t.width_pos
    show (Scan.uint t.width m (readU8 m c).2).2.Below limit ↔ _
    simp only [Scan.uint_below _ _ ht, readU8_below, readU8_pos, and_assoc, OpcuaCase.need]
    refine and_congr_right fun _ => ?_
    omega
  | string =>
    show (opcuaDecodeString r m (readU8 m c).2).2.Below limit ↔ _
    simp only [opcuaDecodeString_below, readU8_below, readU8_pos, and_assoc, OpcuaCase.need]
    refine and_congr_right fun _ => ?_
    omega
  | nodeid =>
    show (opcuaDecodeNodeid r junk m (readU8 m c).2).2.Below limit ↔ _
    simp only [opcuaDecodeNodeid_below, readU8_below, readU8_pos, and_assoc, OpcuaCase.need]
    refine and_congr_right fun _ => ?_
    omega
  | other type => exact readU8_below (m := m) limit

end

/-! ## Entries

An entry of a request starts with a node id, an attribute id and an index range;
what follows differs. -/

/-- The bytes of an index range behind its length. -/
def opcuaIndexRangeLen : ℕ := if u32At m p ≠ 0xFFFFFFFF then (u32At m p).toNat else 0

/-- Where the index range of the entry at `p` starts. -/
def opcuaIndexRangePos : ℕ := p + opcuaNodeidSize m p + 4

/-- Where the index range of the entry at `p` ends. -/
def opcuaIndexRangeEnd : ℕ :=
  opcuaIndexRangePos m p + 4 + opcuaIndexRangeLen m (opcuaIndexRangePos m p)

def opcuaReadItemNeed : ℕ := opcuaNodeidSize m p + 8

def opcuaReadItemSize : ℕ := opcuaIndexRangeEnd m p - p + 3

/-- The bit of a data value that says that it has a value. -/
def opcuaHasValue : Prop := u8At m (opcuaIndexRangeEnd m p) &&& 0x01 ≠ 0

instance : Decidable (opcuaHasValue m p) := inferInstanceAs (Decidable (_ ≠ _))

def opcuaWriteItemNeed : ℕ :=
  opcuaIndexRangeEnd m p - p + 1 +
    if opcuaHasValue m p then opcuaVariantNeed m (opcuaIndexRangeEnd m p + 1) else 0

def opcuaWriteItemSize : ℕ :=
  opcuaIndexRangeEnd m p - p + 1 +
    if opcuaHasValue m p then opcuaVariantSize m (opcuaIndexRangeEnd m p + 1) else 0

theorem opcuaIndexRangeEnd_ge : p + opcuaReadItemNeed m p ≤ opcuaIndexRangeEnd m p := by
  unfold opcuaIndexRangeEnd opcuaIndexRangePos opcuaReadItemNeed
  omega

section
variable {m} (c : Cursor)

theorem skipIndexRange_pos : (skipIndexRange m c).2.pos = c.pos + 4 + opcuaIndexRangeLen m c.pos := by
  simp only [skipIndexRange, Scan.bind_apply, Scan.ite_apply, readU32_fst, opcuaIndexRangeLen]
  split_ifs
  · rfl
  · rfl

theorem skipIndexRange_below (limit : ℕ) : (skipIndexRange m c).2.Below limit ↔
    c.Below limit ∧ c.pos + 4 ≤ limit := by
  simp only [skipIndexRange, Scan.bind_apply, Scan.ite_apply, readU32_fst]
  split_ifs
  · simp
  · simp

variable [DecidableEq β] (env : OpcuaEnv ρ) (mem : Regions ρ) (r : ρ) (i : ℕ)
  (s : OpcuaServer ρ β)

/-- The cursor behind the index range of an entry. -/
def opcuaEntryCursor (m : ℕ → BitVec 8) (c : Cursor) : Cursor :=
  (skipIndexRange m (readU32 m (opcuaDecodeNodeid r (env.nodeId i) m c).2).2).2

theorem opcuaEntryCursor_pos : (opcuaEntryCursor env r i m c).pos = opcuaIndexRangeEnd m c.pos := by
  rw [opcuaEntryCursor, skipIndexRange_pos, readU32_pos, opcuaDecodeNodeid_pos]
  rfl

theorem opcuaEntryCursor_below (limit : ℕ) : (opcuaEntryCursor env r i m c).Below limit ↔
    c.Below limit ∧ c.pos + opcuaReadItemNeed m c.pos ≤ limit := by
  have hle := opcuaNodeidNeed_le m c.pos
  rw [opcuaEntryCursor, skipIndexRange_below, readU32_below, opcuaDecodeNodeid_below, readU32_pos,
    opcuaDecodeNodeid_pos, opcuaReadItemNeed, and_assoc, and_assoc]
  refine and_congr_right fun _ => ?_
  omega

/-- **An entry of a read request.** -/
theorem opcuaReadItem_apply : opcuaReadItem env mem r i s m c =
    (opcuaGetValue mem s (opcuaNodeidAt m c.pos r (env.nodeId i)),
      (Scan.skip 3 m (opcuaEntryCursor env r i m c)).2) := by
  simp only [opcuaReadItem, Scan.bind_apply, Scan.pure_apply, opcuaDecodeNodeid_fst,
    opcuaEntryCursor]

theorem opcuaReadItem_pos :
    (opcuaReadItem env mem r i s m c).2.pos = c.pos + opcuaReadItemSize m c.pos := by
  have hge := opcuaIndexRangeEnd_ge m c.pos
  have hpos := opcuaEntryCursor_pos (m := m) c env r i
  rw [opcuaReadItem_apply, Scan.skip_pos, hpos, opcuaReadItemSize]
  omega

theorem opcuaReadItem_below (limit : ℕ) : (opcuaReadItem env mem r i s m c).2.Below limit ↔
    c.Below limit ∧ c.pos + opcuaReadItemNeed m c.pos ≤ limit := by
  rw [opcuaReadItem_apply, Scan.skip_below, opcuaEntryCursor_below]

/-- The value of an entry of a write request; without one, what `value` holds. -/
def opcuaWriteItemValue (m : ℕ → BitVec 8) (p : ℕ) : OpcuaVariant ρ :=
  if opcuaHasValue m p then opcuaVariantAt m (opcuaIndexRangeEnd m p + 1) r (env.valueNodeid i)
  else env.value i

/-- **An entry of a write request.** -/
theorem opcuaWriteItem_apply : opcuaWriteItem env r i s m c =
    (opcuaSetValue s (opcuaNodeidAt m c.pos r (env.nodeId i)) (opcuaWriteItemValue env r i m c.pos),
      if opcuaHasValue m c.pos then
        (opcuaDecodeVariant r (env.valueNodeid i) m
          (readU8 m (opcuaEntryCursor env r i m c)).2).2
      else (readU8 m (opcuaEntryCursor env r i m c)).2) := by
  have hpos := opcuaEntryCursor_pos (m := m) c env r i
  have henc : (readU8 m (opcuaEntryCursor env r i m c)).1 = u8At m (opcuaIndexRangeEnd m c.pos) := by
    rw [readU8_fst, hpos]
  have hvalue : opcuaVariantAt m (opcuaIndexRangeEnd m c.pos + 1) r (env.valueNodeid i) =
      (opcuaDecodeVariant r (env.valueNodeid i) m (readU8 m (opcuaEntryCursor env r i m c)).2).1 := by
    rw [opcuaDecodeVariant_fst, readU8_pos, hpos]
  rw [opcuaWriteItemValue, ← opcuaDecodeNodeid_fst, hvalue]
  simp only [opcuaHasValue, ← henc]
  by_cases h : (readU8 m (opcuaEntryCursor env r i m c)).1 &&& 0x01 ≠ 0
  · rw [if_pos h, if_pos h]
    simp only [opcuaWriteItem, Scan.bind_apply, Scan.ite_apply]
    exact if_pos h
  · rw [if_neg h, if_neg h]
    simp only [opcuaWriteItem, Scan.bind_apply, Scan.ite_apply]
    exact if_neg h

theorem opcuaWriteItem_pos :
    (opcuaWriteItem env r i s m c).2.pos = c.pos + opcuaWriteItemSize m c.pos := by
  have hge := opcuaIndexRangeEnd_ge m c.pos
  have hpos := opcuaEntryCursor_pos (m := m) c env r i
  rw [opcuaWriteItem_apply, opcuaWriteItemSize]
  split_ifs
  · rw [opcuaDecodeVariant_pos, readU8_pos, hpos]
    omega
  · rw [readU8_pos, hpos]
    omega

theorem opcuaWriteItem_below (limit : ℕ) : (opcuaWriteItem env r i s m c).2.Below limit ↔
    c.Below limit ∧ c.pos + opcuaWriteItemNeed m c.pos ≤ limit := by
  have hge := opcuaIndexRangeEnd_ge m c.pos
  have hpos := opcuaEntryCursor_pos (m := m) c env r i
  rw [opcuaWriteItem_apply, opcuaWriteItemNeed]
  split_ifs
  · rw [opcuaDecodeVariant_below, readU8_below, opcuaEntryCursor_below, readU8_pos, hpos, and_assoc,
      and_assoc]
    refine and_congr_right fun _ => ?_
    omega
  · rw [readU8_below, opcuaEntryCursor_below, hpos, and_assoc]
    refine and_congr_right fun _ => ?_
    omega

end

end Gracemont
