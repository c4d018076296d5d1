/-
  Gracemont protocols — OPC UA data and its binary encoding
  (`protocols/opcua/opcua.c`, `include/opcua.h`, the same files in both ports).

  A pointer is a region of memory and an offset in it.  An encoder maps a value
  to the bytes that it writes; a decoder is a reader of the region `r` that the
  buffer lies in, and the strings that it returns point into that region.  What
  a decoder leaves uninitialised is the value it is given.

  * `writeU8` … `readU64`: the binary encoding helpers;
  * `opcuaEncodeString`, `opcuaDecodeString`, and the same for node ids and
    variants.
-/
import Gracemont.Lib.Scan

namespace Gracemont

open Lib

/-! ## Data -/

/-- The type of a `opcua_nodeid_t`, with the member of its union. -/
inductive OpcuaId (ρ : Type) where
  | numeric (n : BitVec 32)
  | string (data : Ptr ρ) (len : BitVec 16)
  | guid (bytes : BitVec 128)
  | byteString (data : Ptr ρ) (len : BitVec 16)
  deriving DecidableEq

/-- `opcua_nodeid_t` -/
structure OpcuaNodeid (ρ : Type) where
  ns : BitVec 16
  id : OpcuaId ρ
  deriving DecidableEq

/-- The types of a variant whose value is a number of fixed width; a float is
    its bit pattern. -/
inductive OpcuaScalar where
  | sbyte | byte | i16 | u16 | i32 | u32 | i64 | u64 | f32 | f64
  deriving DecidableEq

namespace OpcuaScalar

/-- `OPCUA_TYPE_SBYTE` … `OPCUA_TYPE_DOUBLE` -/
def type : OpcuaScalar → BitVec 8
  | sbyte => 2
  | byte => 3
  | i16 => 4
  | u16 => 5
  | i32 => 6
  | u32 => 7
  | i64 => 8
  | u64 => 9
  | f32 => 10
  | f64 => 11

/-- The bytes of a value. -/
def width : OpcuaScalar → ℕ
  | sbyte | byte => 1
  | i16 | u16 => 2
  | i32 | u32 | f32 => 4
  | i64 | u64 | f64 => 8

/-- The case of a type in the switches. -/
def ofType? (type : BitVec 8) : Option OpcuaScalar :=
  [sbyte, byte, i16, u16, i32, u32, i64, u64, f32, f64].find? fun t => t.type = type

theorem type_of_ofType? {type : BitVec 8} {t : OpcuaScalar} (h : ofType? type = some t) :
    t.type = type := by
  simpa using List.find?_some h

theorem width_pos (t : OpcuaScalar) : 0 < t.width := by
  cases t <;> exact Nat.succ_pos _

end OpcuaScalar

def opcuaTypeBoolean : BitVec 8 := 1
def opcuaTypeString : BitVec 8 := 12
def opcuaTypeNodeid : BitVec 8 := 17

/-- A type that the switches have no case for. -/
structure OpcuaOtherType where
  type : BitVec 8
  boolean : type ≠ opcuaTypeBoolean
  string : type ≠ opcuaTypeString
  nodeid : type ≠ opcuaTypeNodeid
  scalar : OpcuaScalar.ofType? type = none
  deriving DecidableEq

/-- The cases of the switches on a type. -/
inductive OpcuaCase where
  | boolean
  | scalar (t : OpcuaScalar)
  | string
  | nodeid
  | other (type : OpcuaOtherType)

/-- The case of a type. -/
def opcuaCase (type : BitVec 8) : OpcuaCase :=
  if hb : type = opcuaTypeBoolean then .boolean
  else if hs : type = opcuaTypeString then .string
  else if hn : type = opcuaTypeNodeid then .nodeid
  else match ht : OpcuaScalar.ofType? type with
    | some t => .scalar t
    | none => .other ⟨type, hb, hs, hn, ht⟩

/-- The type of a case. -/
def OpcuaCase.type : OpcuaCase → BitVec 8
  | boolean => opcuaTypeBoolean
  | scalar t => t.type
  | string => opcuaTypeString
  | nodeid => opcuaTypeNodeid
  | other type => type.type

/-- Each type has one case. -/
theorem opcuaCase_eq_iff {type : BitVec 8} {k : OpcuaCase} : opcuaCase type = k ↔ k.type = type := by
  constructor
  · rintro rfl
    unfold opcuaCase
    split_ifs with hb hs hn
    · exact hb.symm
    · exact hs.symm
    · exact hn.symm
    · split
      · next ht => exact OpcuaScalar.type_of_ofType? ht
      · rfl
  · rintro rfl
    cases k with
    | boolean => rfl
    | scalar t => cases t <;> rfl
    | string => rfl
    | nodeid => rfl
    | other type =>
      rw [OpcuaCase.type, opcuaCase, dif_neg type.boolean, dif_neg type.string,
        dif_neg type.nodeid]
      split
      · next t ht => cases ht.symm.trans type.scalar
      · rfl

/-- `opcua_variant_t`.  Types without a case leave the union as it was: `content` is
    what it holds, read as a node id. -/
inductive OpcuaVariant (ρ : Type) where
  | boolean (b : Bool)
  | scalar (t : OpcuaScalar) (bits : BitVec (8 * t.width))
  | string (data : Option (Ptr ρ)) (len : BitVec 32)
  | nodeid (nodeId : OpcuaNodeid ρ)
  | other (type : OpcuaOtherType) (content : OpcuaNodeid ρ)
  deriving DecidableEq

/-- A variant of type `OPCUA_TYPE_NULL`. -/
def opcuaNull {ρ : Type} (content : OpcuaNodeid ρ) : OpcuaVariant ρ :=
  .other ⟨0, by decide, by decide, by decide, by decide⟩ content

/-- The union of memory that no type was assigned to. -/
def OpcuaVariant.content {ρ : Type} : OpcuaVariant ρ → OpcuaNodeid ρ
  | .nodeid nodeId | .other _ nodeId => nodeId
  | .boolean _ | .scalar _ _ | .string _ _ => ⟨0, .numeric 0⟩

/-! ## Binary encoding helpers -/

def writeU8 (val : BitVec 8) : List (BitVec 8) := leBytes 1 val.toNat
def writeU16 (val : BitVec 16) : List (BitVec 8) := leBytes 2 val.toNat
def writeU32 (val : BitVec 32) : List (BitVec 8) := leBytes 4 val.toNat
def writeU64 (val : BitVec 64) : List (BitVec 8) := leBytes 8 val.toNat

def readU8 : Scan (BitVec 8) := Scan.uint 1
def readU16 : Scan (BitVec 16) := Scan.uint 2
def readU32 : Scan (BitVec 32) := Scan.uint 4
def readU64 : Scan (BitVec 64) := Scan.uint 8

/-- The numbers at an offset. -/
def u8At (m : ℕ → BitVec 8) (p : ℕ) : BitVec 8 := uintAt m p 1
def u16At (m : ℕ → BitVec 8) (p : ℕ) : BitVec 16 := uintAt m p 2
def u32At (m : ℕ → BitVec 8) (p : ℕ) : BitVec 32 := uintAt m p 4

section
variable (m : ℕ → BitVec 8) (c : Cursor)

@[simp] theorem writeU8_length (val : BitVec 8) : (writeU8 val).length = 1 := leBytes_length ..
@[simp] theorem writeU16_length (val : BitVec 16) : (writeU16 val).length = 2 := leBytes_length ..
@[simp] theorem writeU32_length (val : BitVec 32) : (writeU32 val).length = 4 := leBytes_length ..
@[simp] theorem writeU64_length (val : BitVec 64) : (writeU64 val).length = 8 := leBytes_length ..

@[simp] theorem readU8_fst : (readU8 m c).1 = u8At m c.pos := (rfl)
@[simp] theorem readU16_fst : (readU16 m c).1 = u16At m c.pos := (rfl)
@[simp] theorem readU32_fst : (readU32 m c).1 = u32At m c.pos := (rfl)

@[simp] theorem readU8_pos : (readU8 m c).2.pos = c.pos + 1 := rfl
@[simp] theorem readU16_pos : (readU16 m c).2.pos = c.pos + 2 := rfl
@[simp] theorem readU32_pos : (readU32 m c).2.pos = c.pos + 4 := rfl
@[simp] theorem readU64_pos : (readU64 m c).2.pos = c.pos + 8 := rfl

variable {m c} (limit : ℕ)

@[simp] theorem readU8_below :
    (readU8 m c).2.Below limit ↔ c.Below limit ∧ c.pos + 1 ≤ limit :=
  Scan.uint_below m c (by decide) limit

@[simp] theorem readU16_below :
    (readU16 m c).2.Below limit ↔ c.Below limit ∧ c.pos + 2 ≤ limit :=
  Scan.uint_below m c (by decide) limit

@[simp] theorem readU32_below :
    (readU32 m c).2.Below limit ↔ c.Below limit ∧ c.pos + 4 ≤ limit :=
  Scan.uint_below m c (by decide) limit

@[simp] theorem readU64_below :
    (readU64 m c).2.Below limit ↔ c.Below limit ∧ c.pos + 8 ≤ limit :=
  Scan.uint_below m c (by decide) limit

theorem u8At_of_holds {p : ℕ} {val : BitVec 8} (h : Holds m p (writeU8 val)) :
    u8At m p = val := Holds.uintAt (n := 1) h

theorem u16At_of_holds {p : ℕ} {val : BitVec 16} (h : Holds m p (writeU16 val)) :
    u16At m p = val := Holds.uintAt (n := 2) h

theorem u32At_of_holds {p : ℕ} {val : BitVec 32} (h : Holds m p (writeU32 val)) :
    u32At m p = val := Holds.uintAt (n := 4) h

end

/-! ## String encoding -/

variable {ρ : Type}

/-- `opcua_encode_string`; undefined if the string is not terminated. -/
def opcuaEncodeString (mem : Regions ρ) : Option (Ptr ρ) → Option (List (BitVec 8))
  | none => some (writeU32 0xFFFFFFFF)
  | some str => do
    let n ← mem.strlen str
    let len : BitVec 32 := BitVec.ofNat 32 n
    some (writeU32 len ++ mem.bytes str len.toNat)

/-- `opcua_decode_string` -/
def opcuaDecodeString (r : ρ) : Scan (Option (Ptr ρ) × BitVec 32) := do
  let slen ← readU32
  if slen = 0xFFFFFFFF then pure (none, 0)
  else do
    let buf ← Scan.pos
    Scan.skip slen.toNat
    pure (some ⟨r, buf⟩, slen)

/-! ## Node id encoding -/

/-- `opcua_encode_nodeid` -/
def opcuaEncodeNodeid (mem : Regions ρ) (nodeId : OpcuaNodeid ρ) : List (BitVec 8) :=
  match nodeId.id with
  | .numeric n =>
    if nodeId.ns = 0 ∧ n < 256 then writeU8 0x00 ++ writeU8 (n.setWidth 8)
    else if nodeId.ns < 256 ∧ n < 65536 then
      writeU8 0x01 ++ writeU8 (nodeId.ns.setWidth 8) ++ writeU16 (n.setWidth 16)
    else writeU8 0x02 ++ writeU16 nodeId.ns ++ writeU32 n
  | .string data len =>
    writeU8 0x03 ++ writeU16 nodeId.ns ++ writeU32 (len.setWidth 32) ++ mem.bytes data len.toNat
  | .guid _ | .byteString _ _ => []

/-- `opcua_decode_nodeid`, into a node id that holds `nodeId`.  The length of a
    string is kept in 16 bits. -/
def opcuaDecodeNodeid (r : ρ) (nodeId : OpcuaNodeid ρ) : Scan (OpcuaNodeid ρ) := do
  let encoding ← readU8
  if encoding &&& 0x0F = 0x00 then do
    let n ← readU8
    pure ⟨0, .numeric (n.setWidth 32)⟩
  else if encoding &&& 0x0F = 0x01 then do
    let ns ← readU8
    let n ← readU16
    pure ⟨ns.setWidth 16, .numeric (n.setWidth 32)⟩
  else if encoding &&& 0x0F = 0x02 then do
    let ns ← readU16
    let n ← readU32
    pure ⟨ns, .numeric n⟩
  else if encoding &&& 0x0F = 0x03 then do
    let ns ← readU16
    let slen ← readU32
    let buf ← Scan.pos
    let len : BitVec 16 := slen.setWidth 16
    Scan.skip len.toNat
    pure ⟨ns, .string ⟨r, buf⟩ len⟩
  else pure nodeId

/-! ## Variant encoding -/

/-- `opcua_encode_variant`; undefined if a string is not terminated. -/
def opcuaEncodeVariant (mem : Regions ρ) : OpcuaVariant ρ → Option (List (BitVec 8))
  | .boolean b => some (writeU8 opcuaTypeBoolean ++ writeU8 (if b then 1 else 0))
  | .scalar t bits => some (writeU8 t.type ++ leBytes t.width bits.toNat)
  | .string data _ => (opcuaEncodeString mem data).map (writeU8 opcuaTypeString ++ ·)
  | .nodeid nodeId => some (writeU8 opcuaTypeNodeid ++ opcuaEncodeNodeid mem nodeId)
  | .other type _ => some (writeU8 type.type)

/-- `opcua_decode_variant`, into a variant whose union holds `nodeId`. -/
def opcuaDecodeVariant (r : ρ) (nodeId : OpcuaNodeid ρ) : Scan (OpcuaVariant ρ) := do
  let type ← readU8
  match opcuaCase type with
  | .boolean => do
    let b ← readU8
    pure (.boolean (b ≠ 0))
  | .scalar t => do
    let bits ← Scan.uint t.width
    pure (.scalar t bits)
  | .string => do
    let str ← opcuaDecodeString r
    pure (.string str.1 str.2)
  | .nodeid => do
    let nodeId ← opcuaDecodeNodeid r nodeId
    pure (.nodeid nodeId)
  | .other type => pure (.other type nodeId)

end Gracemont
