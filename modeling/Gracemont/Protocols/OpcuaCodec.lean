/-
  Gracemont protocols — the OPC UA encodings of node ids and variants.

  A node id stands for a namespace and a name; the bytes of a string name are
  those that its pointer points to.

  * `opcua_nodeid_roundTrip`: a numeric or string node id is decoded from its
    encoding, whatever follows;
  * `opcuaEncodeReads`: the memory that the encoder of a variant reads, and
    nothing else matters to it;
  * `OpcuaWire`: what a complete encoding of a variant stands for;
  * `opcua_variant_reencoding_iff`: the encoding of a decoded variant is the
    sequence decoded, unless it holds a string.
-/
import Gracemont.Protocols.OpcuaLayout

namespace Gracemont

open Lib

variable {ρ ρ' : Type}

/-! ## Names -/

/-- What an identifier stands for. -/
inductive OpcuaName where
  | numeric (n : BitVec 32)
  | string (bytes : List (BitVec 8))
  | guid (bytes : BitVec 128)
  | byteString (bytes : List (BitVec 8))
  deriving DecidableEq

namespace OpcuaName

/-- The names that have an encoding. -/
def Encoded : OpcuaName → Prop
  | numeric _ => True
  | string bytes => bytes.length < 2 ^ 16
  | guid _ | byteString _ => False

/-- The encoding of a name in a namespace. -/
def encoding (ns : BitVec 16) : OpcuaName → List (BitVec 8)
  | numeric n =>
    if ns = 0 ∧ n < 256 then writeU8 0x00 ++ writeU8 (n.setWidth 8)
    else if ns < 256 ∧ n < 65536 then
      writeU8 0x01 ++ writeU8 (ns.setWidth 8) ++ writeU16 (n.setWidth 16)
    else writeU8 0x02 ++ writeU16 ns ++ writeU32 n
  | string bytes =>
    writeU8 0x03 ++ writeU16 ns ++ writeU32 (BitVec.ofNat 32 bytes.length) ++ bytes
  | guid _ | byteString _ => []

end OpcuaName

/-- The name that an identifier stands for. -/
def OpcuaId.name (mem : Regions ρ) : OpcuaId ρ → OpcuaName
  | numeric n => .numeric n
  | string data len => .string (mem.bytes data len.toNat)
  | guid bytes => .guid bytes
  | byteString data len => .byteString (mem.bytes data len.toNat)

/-- The types `OPCUA_NODEID_NUMERIC` and `OPCUA_NODEID_STRING`. -/
def OpcuaId.NumericOrString : OpcuaId ρ → Prop
  | numeric _ | string _ _ => True
  | guid _ | byteString _ _ => False

/-- Equal node ids: the same namespace, type and identifier. -/
def OpcuaNodeid.Same (mem : Regions ρ) (a : OpcuaNodeid ρ) (mem' : Regions ρ') (b : OpcuaNodeid ρ') :
    Prop := a.ns = b.ns ∧ a.id.name mem = b.id.name mem'

theorem OpcuaId.name_encoded {id : OpcuaId ρ} (h : id.NumericOrString) (mem : Regions ρ) :
    (id.name mem).Encoded := by
  cases id with
  | numeric n => exact trivial
  | string data len =>
    show (mem.bytes data len.toNat).length < _
    rw [Regions.bytes_length]
    exact len.isLt
  | guid bytes => exact h.elim
  | byteString data len => exact h.elim

/-- An encoder writes the name. -/
theorem opcuaEncodeNodeid_eq (mem : Regions ρ) (nodeId : OpcuaNodeid ρ) :
    opcuaEncodeNodeid mem nodeId = (nodeId.id.name mem).encoding nodeId.ns := by
  obtain ⟨ns, id⟩ := nodeId
  cases id with
  | numeric n => rfl
  | string data len =>
    have hlen : len.setWidth 32 = BitVec.ofNat 32 len.toNat := by
      refine BitVec.eq_of_toNat_eq ?_
      rw [BitVec.toNat_setWidth, BitVec.toNat_ofNat]
    simp only [opcuaEncodeNodeid, OpcuaId.name, OpcuaName.encoding, Regions.bytes_length, hlen]
  | guid bytes => rfl
  | byteString data len => rfl

/-! ## What an encoder reads -/

theorem opcuaEncodeString_some {mem : Regions ρ} {str : Ptr ρ} {n : ℕ} (h : mem.strlen str = some n) :
    opcuaEncodeString mem (some str) =
      some (writeU32 (BitVec.ofNat 32 n) ++ mem.bytes str (BitVec.ofNat 32 n).toNat) := by
  rw [opcuaEncodeString, h]
  rfl

theorem opcuaEncodeString_none {mem : Regions ρ} {str : Ptr ρ} (h : mem.strlen str = none) :
    opcuaEncodeString mem (some str) = none := by
  rw [opcuaEncodeString, h]
  rfl

/-- The bytes that `opcua_encode_string` reads: up to the terminator. -/
def opcuaStringReads (mem : Regions ρ) (str : Ptr ρ) : List (Ptr ρ) :=
  (List.range (match mem.strlen str with
    | some n => n + 1
    | none => mem.size str.region - str.offset)).map fun i => ⟨str.region, str.offset + i⟩

/-- The bytes of memory that `opcua_encode_variant` reads. -/
def opcuaEncodeReads (mem : Regions ρ) : OpcuaVariant ρ → List (Ptr ρ)
  | .string (some str) _ => opcuaStringReads mem str
  | .nodeid ⟨_, .string data len⟩ =>
    (List.range len.toNat).map fun i => ⟨data.region, data.offset + i⟩
  | _ => []

/-- **Nothing else matters to the encoder**, while the string it reads ends. -/
theorem opcuaEncodeVariant_congr {mem mem' : Regions ρ} {v : OpcuaVariant ρ}
    {bytes : List (BitVec 8)} (h : opcuaEncodeVariant mem v = some bytes)
    (hsize : mem'.size = mem.size)
    (hreads : ∀ q ∈ opcuaEncodeReads mem v, mem'.byte q.region q.offset = mem.byte q.region q.offset) :
    opcuaEncodeVariant mem' v = some bytes := by
  cases v with
  | boolean b => exact h
  | scalar t bits => exact h
  | string data len =>
    cases data with
    | none => exact h
    | some str =>
      obtain ⟨n, hn⟩ : ∃ n, mem.strlen str = some n := by
        cases hn : mem.strlen str with
        | some n => exact ⟨n, rfl⟩
        | none => rw [opcuaEncodeVariant, opcuaEncodeString_none hn] at h; cases h
      have hbyte : ∀ i ≤ n, mem'.byte str.region (str.offset + i) =
          mem.byte str.region (str.offset + i) := by
        intro i hi
        refine hreads ⟨str.region, str.offset + i⟩ ?_
        rw [opcuaEncodeReads, opcuaStringReads, hn]
        exact List.mem_map.2 ⟨i, List.mem_range.2 (Nat.lt_succ_of_le hi), rfl⟩
      have hn' : mem'.strlen str = some n := Regions.strlen_congr (congrFun hsize _) hn hbyte
      have hbytes : mem'.bytes str (BitVec.ofNat 32 n).toNat = mem.bytes str (BitVec.ofNat 32 n).toNat := by
        refine bytesAt_congr fun i hi => hbyte i ?_
        have hle : n % 2 ^ 32 ≤ n := Nat.mod_le ..
        rw [BitVec.toNat_ofNat] at hi
        omega
      rw [opcuaEncodeVariant, opcuaEncodeString_some hn] at h
      rw [opcuaEncodeVariant, opcuaEncodeString_some hn', hbytes]
      exact h
  | nodeid nodeId =>
    obtain ⟨ns, id⟩ := nodeId
    cases id with
    | numeric n => exact h
    | string data len =>
      have hbytes : mem'.bytes data len.toNat = mem.bytes data len.toNat := by
        refine bytesAt_congr fun i hi => hreads ⟨data.region, data.offset + i⟩ ?_
        exact List.mem_map.2 ⟨i, List.mem_range.2 hi, rfl⟩
      rw [← h]
      simp only [opcuaEncodeVariant, opcuaEncodeNodeid, hbytes]
    | guid bytes => exact h
    | byteString data len => exact h
  | other type => exact h

/-! ## Decoding node ids -/

section
variable {mem : Regions ρ} {r : ρ} {p : ℕ}

/-- What the decoder makes of an encoded name at `p`. -/
structure DecodesNodeid (mem : Regions ρ) (r : ρ) (p : ℕ) (ns : BitVec 16) (name : OpcuaName)
    (nodeId : OpcuaNodeid ρ) : Prop where
  ns_eq : nodeId.ns = ns
  name_eq : nodeId.id.name mem = name
  size_eq : opcuaNodeidSize (mem.byte r) p = (name.encoding ns).length
  reads : ∀ q ∈ opcuaEncodeReads mem (.nodeid nodeId),
    q.region = r ∧ p ≤ q.offset ∧ q.offset < p + (name.encoding ns).length

theorem decodes_twoByte {n : BitVec 32} (hn : n < 256)
    (h : Holds (mem.byte r) p (writeU8 0x00 ++ writeU8 (n.setWidth 8))) (junk : OpcuaNodeid ρ) :
    DecodesNodeid mem r p 0 (.numeric n) (opcuaNodeidAt (mem.byte r) p r junk) := by
  obtain ⟨h0, h1⟩ := holds_append.1 h
  have h1 := u8At_of_holds h1
  rw [writeU8_length] at h1
  have hform : opcuaNodeidForm (mem.byte r) p = 0x00 := by rw [opcuaNodeidForm, u8At_of_holds h0]; rfl
  have hback : (n.setWidth 8).setWidth 32 = n := by bv_omega
  have henc : OpcuaName.encoding 0 (.numeric n) = writeU8 0x00 ++ writeU8 (n.setWidth 8) :=
    if_pos ⟨rfl, hn⟩
  have hat : opcuaNodeidAt (mem.byte r) p r junk = ⟨0, .numeric n⟩ := by
    rw [opcuaNodeidAt, if_pos hform, h1, hback]
  constructor
  · rw [hat]
  · rw [hat]; rfl
  · rw [opcuaNodeidSize, if_pos hform, henc]; rfl
  · rw [hat]
    intro q hq
    cases hq

theorem decodes_fourByte {ns : BitVec 16} {n : BitVec 32} (hz : ¬ (ns = 0 ∧ n < 256))
    (hn : ns < 256 ∧ n < 65536)
    (h : Holds (mem.byte r) p (writeU8 0x01 ++ writeU8 (ns.setWidth 8) ++ writeU16 (n.setWidth 16)))
    (junk : OpcuaNodeid ρ) :
    DecodesNodeid mem r p ns (.numeric n) (opcuaNodeidAt (mem.byte r) p r junk) := by
  obtain ⟨h, h2⟩ := holds_append.1 h
  obtain ⟨h0, h1⟩ := holds_append.1 h
  have h1 := u8At_of_holds h1
  have h2 := u16At_of_holds h2
  rw [writeU8_length] at h1
  rw [List.length_append, writeU8_length, writeU8_length] at h2
  have hform : opcuaNodeidForm (mem.byte r) p = 0x01 := by rw [opcuaNodeidForm, u8At_of_holds h0]; rfl
  have hns : (ns.setWidth 8).setWidth 16 = ns := by have := hn.1; bv_omega
  have hback : (n.setWidth 16).setWidth 32 = n := by have := hn.2; bv_omega
  have henc : OpcuaName.encoding ns (.numeric n) =
      writeU8 0x01 ++ writeU8 (ns.setWidth 8) ++ writeU16 (n.setWidth 16) :=
    (if_neg hz).trans (if_pos hn)
  have h0 : opcuaNodeidForm (mem.byte r) p ≠ 0x00 := by rw [hform]; decide
  have hat : opcuaNodeidAt (mem.byte r) p r junk = ⟨ns, .numeric n⟩ := by
    rw [opcuaNodeidAt, if_neg h0, if_pos hform, h1, h2, hns, hback]
  constructor
  · rw [hat]
  · rw [hat]; rfl
  · rw [opcuaNodeidSize, if_neg h0, if_pos hform, henc]; rfl
  · rw [hat]
    intro q hq
    cases hq

theorem decodes_numeric {ns : BitVec 16} {n : BitVec 32} (hz : ¬ (ns = 0 ∧ n < 256))
    (hn : ¬ (ns < 256 ∧ n < 65536))
    (h : Holds (mem.byte r) p (writeU8 0x02 ++ writeU16 ns ++ writeU32 n)) (junk : OpcuaNodeid ρ) :
    DecodesNodeid mem r p ns (.numeric n) (opcuaNodeidAt (mem.byte r) p r junk) := by
  obtain ⟨h, h2⟩ := holds_append.1 h
  obtain ⟨h0, h1⟩ := holds_append.1 h
  have h1 := u16At_of_holds h1
  have h2 := u32At_of_holds h2
  rw [writeU8_length] at h1
  rw [List.length_append, writeU8_length, writeU16_length] at h2
  have hform : opcuaNodeidForm (mem.byte r) p = 0x02 := by rw [opcuaNodeidForm, u8At_of_holds h0]; rfl
  have henc : OpcuaName.encoding ns (.numeric n) = writeU8 0x02 ++ writeU16 ns ++ writeU32 n :=
    (if_neg hz).trans (if_neg hn)
  have h0 : opcuaNodeidForm (mem.byte r) p ≠ 0x00 := by rw [hform]; decide
  have h1' : opcuaNodeidForm (mem.byte r) p ≠ 0x01 := by rw [hform]; decide
  have hat : opcuaNodeidAt (mem.byte r) p r junk = ⟨ns, .numeric n⟩ := by
    rw [opcuaNodeidAt, if_neg h0, if_neg h1', if_pos hform, h1, h2]
  constructor
  · rw [hat]
  · rw [hat]; rfl
  · rw [opcuaNodeidSize, if_neg h0, if_neg h1', if_pos hform, henc]; rfl
  · rw [hat]
    intro q hq
    cases hq

theorem decodes_string {ns : BitVec 16} {bytes : List (BitVec 8)} (hlen : bytes.length < 2 ^ 16)
    (h : Holds (mem.byte r) p (OpcuaName.encoding ns (.string bytes))) (junk : OpcuaNodeid ρ) :
    DecodesNodeid mem r p ns (.string bytes) (opcuaNodeidAt (mem.byte r) p r junk) := by
  obtain ⟨h, h3⟩ := holds_append.1 h
  obtain ⟨h, h2⟩ := holds_append.1 h
  obtain ⟨h0, h1⟩ := holds_append.1 h
  have h1 := u16At_of_holds h1
  have h2 := u32At_of_holds h2
  rw [writeU8_length] at h1
  rw [List.length_append, writeU8_length, writeU16_length] at h2
  have hform : opcuaNodeidForm (mem.byte r) p = 0x03 := by rw [opcuaNodeidForm, u8At_of_holds h0]; rfl
  have hcount : (opcuaNodeidLen (mem.byte r) p).toNat = bytes.length := by
    rw [opcuaNodeidLen, h2, BitVec.toNat_setWidth, BitVec.toNat_ofNat]
    omega
  have h0 : opcuaNodeidForm (mem.byte r) p ≠ 0x00 := by rw [hform]; decide
  have h1' : opcuaNodeidForm (mem.byte r) p ≠ 0x01 := by rw [hform]; decide
  have h2' : opcuaNodeidForm (mem.byte r) p ≠ 0x02 := by rw [hform]; decide
  have hat : opcuaNodeidAt (mem.byte r) p r junk =
      ⟨ns, .string ⟨r, p + 7⟩ (opcuaNodeidLen (mem.byte r) p)⟩ := by
    rw [opcuaNodeidAt, if_neg h0, if_neg h1', if_neg h2', if_pos hform, h1]
  constructor
  · rw [hat]
  · rw [hat, OpcuaId.name, Regions.bytes, hcount]
    exact congrArg OpcuaName.string h3
  · rw [opcuaNodeidSize, if_neg h0, if_neg h1', if_neg h2', if_pos hform, hcount]
    simp only [OpcuaName.encoding, List.length_append, writeU8_length, writeU16_length,
      writeU32_length]
  · rw [hat]
    intro q hq
    obtain ⟨i, hi, rfl⟩ := List.mem_map.1 hq
    rw [List.mem_range, hcount] at hi
    simp only [OpcuaName.encoding, List.length_append, writeU8_length, writeU16_length,
      writeU32_length]
    exact ⟨trivial, by omega, by omega⟩

/-- **Decoding an encoded name.** -/
theorem decodes_name {ns : BitVec 16} {name : OpcuaName} (hname : name.Encoded)
    (h : Holds (mem.byte r) p (name.encoding ns)) (junk : OpcuaNodeid ρ) :
    DecodesNodeid mem r p ns name (opcuaNodeidAt (mem.byte r) p r junk) := by
  cases name with
  | numeric n =>
    by_cases hz : ns = 0 ∧ n < 256
    · obtain ⟨rfl, hn⟩ := hz
      rw [OpcuaName.encoding, if_pos ⟨rfl, hn⟩] at h
      exact decodes_twoByte hn h junk
    · by_cases hn : ns < 256 ∧ n < 65536
      · rw [OpcuaName.encoding, if_neg hz, if_pos hn] at h
        exact decodes_fourByte hz hn h junk
      · rw [OpcuaName.encoding, if_neg hz, if_neg hn] at h
        exact decodes_numeric hz hn h junk
  | string bytes => exact decodes_string hname h junk
  | guid bytes => exact hname.elim
  | byteString bytes => exact hname.elim

end

/-- **Node id round trip.**  Decoding the encoding of a numeric or string node
    id gives an equal node id, and the cursor is at what follows. -/
theorem opcua_nodeid_roundTrip (mem : Regions ρ) (nodeId : OpcuaNodeid ρ)
    (hid : nodeId.id.NumericOrString) (mem' : Regions ρ') (r : ρ') (p : ℕ)
    {suffix : List (BitVec 8)} (junk : OpcuaNodeid ρ')
    (h : Holds (mem'.byte r) p (opcuaEncodeNodeid mem nodeId ++ suffix)) :
    let out := opcuaDecodeNodeid r junk (mem'.byte r) (Cursor.start p)
    out.1.Same mem' mem nodeId ∧ out.2.pos = p + (opcuaEncodeNodeid mem nodeId).length ∧
      Holds (mem'.byte r) out.2.pos suffix := by
  intro out
  obtain ⟨h, hsuffix⟩ := holds_append.1 h
  rw [opcuaEncodeNodeid_eq] at h
  have hdec := decodes_name (OpcuaId.name_encoded hid mem) h junk
  have hfst : out.1 = opcuaNodeidAt (mem'.byte r) p r junk := opcuaDecodeNodeid_fst ..
  have hpos : out.2.pos = p + (opcuaEncodeNodeid mem nodeId).length := by
    rw [opcuaEncodeNodeid_eq, ← hdec.size_eq]
    exact opcuaDecodeNodeid_pos ..
  refine ⟨?_, hpos, ?_⟩
  · rw [hfst]
    exact ⟨hdec.ns_eq, hdec.name_eq⟩
  · rw [hpos]
    exact hsuffix

/-- A memory of one region that holds `bytes`. -/
def demoMemory (bytes : List (BitVec 8)) : Regions Unit :=
  ⟨fun _ i => bytes.getD i 0, fun _ => bytes.length⟩

/-- The string `ab` in namespace 2. -/
def demoNodeid : OpcuaNodeid Unit := ⟨2, .string ⟨(), 0⟩ 2⟩

theorem opcua_nodeid_roundTrip_demo :
    let mem := demoMemory [0x61, 0x62]
    let mem' := demoMemory [3, 2, 0, 2, 0, 0, 0, 0x61, 0x62, 0xFF]
    let out := opcuaDecodeNodeid () ⟨0, .numeric 0⟩ (mem'.byte ()) (Cursor.start 0)
    out.1.Same mem' mem demoNodeid ∧ out.2.pos = 0 + (opcuaEncodeNodeid mem demoNodeid).length ∧
      Holds (mem'.byte ()) out.2.pos [0xFF] :=
  opcua_nodeid_roundTrip (demoMemory [0x61, 0x62]) demoNodeid trivial _ () 0 _ (by decide)

/-! ## Variants -/

/-- What a variant stands for on the wire, for the types that the encoder
    handles. -/
inductive OpcuaWire where
  | boolean (b : Bool)
  | scalar (t : OpcuaScalar) (bits : BitVec (8 * t.width))
  | nullString
  | string (bytes : List (BitVec 8)) (short : bytes.length < 0xFFFFFFFF)
  | nodeid (ns : BitVec 16) (name : OpcuaName) (encoded : name.Encoded)

namespace OpcuaWire

/-- The case of the decoder. -/
def case : OpcuaWire → OpcuaCase
  | boolean _ => .boolean
  | scalar t _ => .scalar t
  | nullString | string _ _ => .string
  | nodeid _ _ _ => .nodeid

/-- A string that is not null. -/
def IsString : OpcuaWire → Prop
  | string _ _ => True
  | _ => False

/-- What follows the type. -/
def payload : OpcuaWire → List (BitVec 8)
  | boolean b => writeU8 (if b then 1 else 0)
  | scalar t bits => leBytes t.width bits.toNat
  | nullString => writeU32 0xFFFFFFFF
  | string bytes _ => writeU32 (BitVec.ofNat 32 bytes.length) ++ bytes
  | nodeid ns name _ => name.encoding ns

/-- The complete encoding. -/
def encoding (w : OpcuaWire) : List (BitVec 8) := writeU8 w.case.type ++ w.payload

end OpcuaWire

section
variable {mem : Regions ρ} {r : ρ} {p : ℕ} {w : OpcuaWire}

/-- The type that a held encoding starts with, and what follows. -/
theorem OpcuaWire.case_of_holds (h : Holds (mem.byte r) p w.encoding) :
    opcuaCase (u8At (mem.byte r) p) = w.case ∧ Holds (mem.byte r) (p + 1) w.payload := by
  obtain ⟨htype, hpayload⟩ := holds_append.1 h
  exact ⟨opcuaCase_eq_iff.2 (u8At_of_holds htype).symm, hpayload⟩

/-- **Decoding a complete encoding** reads and moves over just it. -/
theorem OpcuaWire.size_of_holds (h : Holds (mem.byte r) p w.encoding) :
    opcuaVariantSize (mem.byte r) p = w.encoding.length := by
  obtain ⟨hcase, hpayload⟩ := OpcuaWire.case_of_holds h
  rw [opcuaVariantSize, hcase, OpcuaWire.encoding, List.length_append, writeU8_length]
  congr 1
  cases w with
  | boolean b => rfl
  | scalar t bits => exact (leBytes_length ..).symm
  | nullString =>
    have hlen := u32At_of_holds hpayload
    show 4 + opcuaStringLen (mem.byte r) (p + 1) = 4
    rw [opcuaStringLen, if_pos hlen]
  | string bytes short =>
    have hlen := u32At_of_holds (holds_append.1 hpayload).1
    have htoNat : (BitVec.ofNat 32 bytes.length).toNat = bytes.length := by
      rw [BitVec.toNat_ofNat]
      omega
    have hne : BitVec.ofNat 32 bytes.length ≠ 0xFFFFFFFF := by
      intro he
      rw [he] at htoNat
      exact absurd htoNat.symm (Nat.ne_of_lt short)
    show 4 + opcuaStringLen (mem.byte r) (p + 1) = (writeU32 _ ++ bytes).length
    rw [opcuaStringLen, hlen, if_neg hne, htoNat, List.length_append, writeU32_length]
  | nodeid ns name encoded =>
    exact (decodes_name encoded hpayload ⟨0, .numeric 0⟩).size_eq

variable (junk : OpcuaNodeid ρ)

/-- The decoder keeps a string as a pointer into the buffer and a length. -/
theorem opcuaVariantAt_string {bytes : List (BitVec 8)} {short : bytes.length < 0xFFFFFFFF}
    (h : Holds (mem.byte r) p (OpcuaWire.string bytes short).encoding) :
    opcuaVariantAt (mem.byte r) p r junk =
      .string (some ⟨r, p + 5⟩) (BitVec.ofNat 32 bytes.length) := by
  obtain ⟨hcase, hpayload⟩ := OpcuaWire.case_of_holds h
  have hlen := u32At_of_holds (holds_append.1 hpayload).1
  have hne : BitVec.ofNat 32 bytes.length ≠ 0xFFFFFFFF := by
    intro he
    have htoNat := congrArg BitVec.toNat he
    rw [BitVec.toNat_ofNat, Nat.mod_eq_of_lt (by omega)] at htoNat
    exact absurd htoNat (Nat.ne_of_lt short)
  rw [opcuaVariantAt, hcase]
  show (if u32At (mem.byte r) (p + 1) = 0xFFFFFFFF then _ else _) = _
  rw [hlen, if_neg hne]

/-- **Re-encoding a string**: it ends at the first terminator, wherever that is. -/
theorem opcuaReencode_string {bytes : List (BitVec 8)} {short : bytes.length < 0xFFFFFFFF}
    (h : Holds (mem.byte r) p (OpcuaWire.string bytes short).encoding) :
    opcuaEncodeVariant mem (opcuaVariantAt (mem.byte r) p r junk) =
        some (OpcuaWire.string bytes short).encoding ↔
      ∃ n, mem.strlen ⟨r, p + 5⟩ = some n ∧ n % 2 ^ 32 = bytes.length := by
  have hbytes : mem.bytes ⟨r, p + 5⟩ bytes.length = bytes := by
    have hpayload := (OpcuaWire.case_of_holds h).2
    exact (holds_append.1 hpayload).2
  have hlen : (BitVec.ofNat 32 bytes.length).toNat = bytes.length := by
    rw [BitVec.toNat_ofNat]
    omega
  rw [opcuaVariantAt_string junk h, opcuaEncodeVariant]
  constructor
  · intro he
    cases hn : mem.strlen ⟨r, p + 5⟩ with
    | none => rw [opcuaEncodeString_none hn] at he; cases he
    | some n =>
      rw [opcuaEncodeString_some hn] at he
      have happ := List.append_cancel_left (Option.some.inj he)
      have hhead := (List.append_inj happ (by rw [writeU32_length, writeU32_length])).1
      have hofLe := congrArg ofLe hhead
      rw [writeU32, writeU32, ofLe_leBytes, ofLe_leBytes, hlen, BitVec.toNat_ofNat] at hofLe
      refine ⟨n, rfl, ?_⟩
      omega
  · rintro ⟨n, hn, hmod⟩
    have hof : BitVec.ofNat 32 n = BitVec.ofNat 32 bytes.length := by
      refine BitVec.eq_of_toNat_eq ?_
      rw [hlen, BitVec.toNat_ofNat, hmod]
    rw [opcuaEncodeString_some hn, hof, hlen, hbytes]
    rfl

/-- **Re-encoding anything else**: what the encoder reads is part of the
    sequence. -/
theorem opcuaReencode_other (hw : ¬ w.IsString) (h : Holds (mem.byte r) p w.encoding) :
    opcuaEncodeVariant mem (opcuaVariantAt (mem.byte r) p r junk) = some w.encoding ∧
      ∀ q ∈ opcuaEncodeReads mem (opcuaVariantAt (mem.byte r) p r junk),
        q.region = r ∧ p ≤ q.offset ∧ q.offset < p + w.encoding.length := by
  have hsize := OpcuaWire.size_of_holds h
  obtain ⟨hcase, hpayload⟩ := OpcuaWire.case_of_holds h
  cases w with
  | boolean b =>
    have hb := u8At_of_holds hpayload
    have hat : opcuaVariantAt (mem.byte r) p r junk = .boolean b := by
      rw [opcuaVariantAt, hcase]
      show OpcuaVariant.boolean (u8At (mem.byte r) (p + 1) ≠ 0) = _
      rw [hb]
      cases b <;> rfl
    rw [hat]
    exact ⟨rfl, fun q hq => by cases hq⟩
  | scalar t bits =>
    have hbits := Holds.uintAt hpayload
    have hat : opcuaVariantAt (mem.byte r) p r junk = .scalar t bits := by
      rw [opcuaVariantAt, hcase]
      exact congrArg (OpcuaVariant.scalar t) hbits
    rw [hat]
    exact ⟨rfl, fun q hq => by cases hq⟩
  | nullString =>
    have hlen := u32At_of_holds hpayload
    have hat : opcuaVariantAt (mem.byte r) p r junk = .string none 0 := by
      rw [opcuaVariantAt, hcase]
      exact if_pos hlen
    rw [hat]
    exact ⟨rfl, fun q hq => by cases hq⟩
  | string bytes short => exact absurd trivial hw
  | nodeid ns name encoded =>
    have hdec := decodes_name encoded hpayload junk
    have hat : opcuaVariantAt (mem.byte r) p r junk =
        .nodeid (opcuaNodeidAt (mem.byte r) (p + 1) r junk) := by
      rw [opcuaVariantAt, hcase]
      rfl
    rw [hat]
    constructor
    · rw [opcuaEncodeVariant, opcuaEncodeNodeid_eq, hdec.ns_eq, hdec.name_eq]
      rfl
    · intro q hq
      have hlen : (OpcuaWire.nodeid ns name encoded).encoding.length =
          1 + (name.encoding ns).length := by
        rw [OpcuaWire.encoding, List.length_append, writeU8_length]
        rfl
      obtain ⟨hr, hge, hlt⟩ := hdec.reads q hq
      rw [hlen]
      exact ⟨hr, by omega, by omega⟩

/-- Decoding and encoding again writes the sequence at `p`, and neither reads
    anything beyond it. -/
structure OpcuaReencodes (mem : Regions ρ) (r : ρ) (p : ℕ) (junk : OpcuaNodeid ρ)
    (bytes : List (BitVec 8)) : Prop where
  decodes : (opcuaDecodeVariant r junk (mem.byte r) (Cursor.start p)).2.Below (p + bytes.length)
  writes : opcuaEncodeVariant mem (opcuaDecodeVariant r junk (mem.byte r) (Cursor.start p)).1 =
    some bytes
  reads : ∀ q ∈ opcuaEncodeReads mem (opcuaDecodeVariant r junk (mem.byte r) (Cursor.start p)).1,
    q.region = r ∧ p ≤ q.offset ∧ q.offset < p + bytes.length

/-- **Re-encoding** keeps a complete encoding to itself unless it is a string: its
    encoder reads on to a terminator. -/
theorem opcua_variant_reencoding_iff {suffix : List (BitVec 8)}
    (h : Holds (mem.byte r) p (w.encoding ++ suffix)) :
    OpcuaReencodes mem r p junk w.encoding ↔ ¬ w.IsString := by
  obtain ⟨h, -⟩ := holds_append.1 h
  have hfst : (opcuaDecodeVariant r junk (mem.byte r) (Cursor.start p)).1 =
      opcuaVariantAt (mem.byte r) p r junk := opcuaDecodeVariant_fst ..
  constructor
  · intro hre hw
    cases w with
    | boolean b => exact hw
    | scalar t bits => exact hw
    | nullString => exact hw
    | nodeid ns name encoded => exact hw
    | string bytes short =>
      have hwrites := hre.writes
      have hreads := hre.reads
      rw [hfst] at hwrites hreads
      obtain ⟨n, hn, hmod⟩ := (opcuaReencode_string junk h).1 hwrites
      -- the terminator lies behind the string
      have hend := hreads ⟨r, p + 5 + n⟩ ?_
      · have hle : n % 2 ^ 32 ≤ n := Nat.mod_le ..
        have hlen : (OpcuaWire.string bytes short).encoding.length = 5 + bytes.length := by
          simp only [OpcuaWire.encoding, OpcuaWire.payload, List.length_append, writeU8_length,
            writeU32_length]
          omega
        rw [hlen] at hend
        have hlt : p + 5 + n < p + (5 + bytes.length) := hend.2.2
        omega
      · rw [opcuaVariantAt_string junk h, opcuaEncodeReads, opcuaStringReads, hn]
        exact List.mem_map.2 ⟨n, List.mem_range.2 (Nat.lt_succ_self n), rfl⟩
  · intro hw
    obtain ⟨hwrites, hreads⟩ := opcuaReencode_other junk hw h
    constructor
    · have hle := opcuaVariantNeed_le (mem.byte r) p
      rw [OpcuaWire.size_of_holds h] at hle
      refine (opcuaDecodeVariant_below ..).2 ⟨Cursor.start_below _ _, ?_⟩
      exact Nat.add_le_add_left hle p
    · rw [hfst]
      exact hwrites
    · rw [hfst]
      exact hreads

end

theorem opcua_variant_reencoding_demo :
    OpcuaReencodes (demoMemory [1, 1, 0xFF]) () 0 ⟨0, .numeric 0⟩ (OpcuaWire.boolean true).encoding ↔
      ¬ (OpcuaWire.boolean true).IsString := by
  have h : Holds ((demoMemory [1, 1, 0xFF]).byte ()) 0 ((OpcuaWire.boolean true).encoding ++ [0xFF]) := by
    decide
  exact opcua_variant_reencoding_iff _ h

/-- The string `a`, followed by `b` and a zero byte. -/
def demoText : Regions Unit := demoMemory [12, 1, 0, 0, 0, 0x61, 0x62, 0]

/-- **A string swallows what follows it**: `a` is encoded again as `ab`. -/
theorem opcua_variant_reencoding_string :
    let w := OpcuaWire.string [0x61] (by decide)
    let out := (opcuaDecodeVariant () ⟨0, .numeric 0⟩ (demoText.byte ()) (Cursor.start 0)).1
    Holds (demoText.byte ()) 0 (w.encoding ++ [0x62, 0]) ∧
      opcuaEncodeVariant demoText out = some [12, 2, 0, 0, 0, 0x61, 0x62] ∧
      ¬ OpcuaReencodes demoText () 0 ⟨0, .numeric 0⟩ w.encoding := by
  refine ⟨by decide, by decide, fun h => ?_⟩
  exact absurd h.writes (by decide)

end Gracemont
