/-
  Gracemont developer tools — the parser of Intel HEX files
  (`parseHEX` of `devtools/flasher/src/utils/firmware-parser.js`).

  A file is its text after `TextDecoder`, a number that is not a number is `none`,
  and a record with such an address, whose place in the sorted addresses is not
  defined, gives no result.  The checksum of the file is left out.

  * `hexLine`, `mergeSegments`, `parseHEX`: the parser;
  * `HexRecord`, `HexText`: the format;
  * `parseHEX_eq`: on a text of this format, the parser merges what its records
    assign to addresses.
-/
import Gracemont.Lib.Assoc
import Gracemont.Lib.Extents
import Mathlib.Algebra.Group.Int.Defs
import Mathlib.Algebra.Group.Nat.Defs
import Mathlib.Algebra.GroupWithZero.Nat
import Mathlib.Data.BitVec
import Mathlib.Data.List.Forall2
import Mathlib.Data.List.TakeWhile
import Mathlib.Tactic.SplitIfs

namespace Gracemont

open Lib (Extent)

/-! ## Text -/

/-- The white space of `trim`. -/
def isJsSpace (c : Char) : Bool :=
  c.toNat ∈ [0x09, 0x0A, 0x0B, 0x0C, 0x0D, 0x20, 0xA0, 0x1680, 0x2028, 0x2029, 0x202F, 0x205F,
    0x3000, 0xFEFF] ∨ (0x2000 ≤ c.toNat ∧ c.toNat ≤ 0x200A)

/-- `text.slice(start, stop)` -/
def jsSlice (text : List Char) (start : ℕ) (stop : ℤ) : List Char :=
  (text.take (if stop < 0 then text.length + stop else stop).toNat).drop start

/-- The value of a hexadecimal digit. -/
def hexValue (c : Char) : Option ℕ :=
  if 48 ≤ c.toNat ∧ c.toNat ≤ 57 then some (c.toNat - 48)
  else if 65 ≤ c.toNat ∧ c.toNat ≤ 70 then some (c.toNat - 55)
  else if 97 ≤ c.toNat ∧ c.toNat ≤ 102 then some (c.toNat - 87)
  else none

/-- `parseInt(text, 16)`: the digits behind white space, a sign and `0x`, up to the
    first character that is none. -/
def parseHexInt (text : List Char) : Option ℤ :=
  let s := text.dropWhile isJsSpace
  let negative := s.head? = some '-'
  let s := if s.head? = some '-' ∨ s.head? = some '+' then s.tail else s
  let s := if s.take 2 = ['0', 'x'] ∨ s.take 2 = ['0', 'X'] then s.drop 2 else s
  let digits := (s.takeWhile fun c => (hexValue c).isSome).filterMap hexValue
  if digits = [] then none
  else
    let n := (digits.foldl (fun n d => 16 * n + d) 0 : ℕ)
    some (if negative then -(n : ℤ) else n)

/-- An element of a `Uint8Array`. -/
def toUint8 (n : Option ℤ) : BitVec 8 := BitVec.ofInt 8 (n.getD 0)

/-- `value << 16` -/
def jsShl16 (value : Option ℤ) : ℤ := (value.getD 0 * 2 ^ 16).bmod (2 ^ 32)

/-! ## The parser -/

/-- The variables of the loop over the lines. -/
structure HexState where
  extendedAddr : Option ℤ
  data : AList fun _ : ℤ => List (BitVec 8)

structure HexSegment where
  address : ℤ
  size : ℕ
  data : List (BitVec 8)

structure HexResult where
  size : ℕ
  segments : List HexSegment

/-- The loop over the bytes of a record. -/
def hexBytes : List Char → List (BitVec 8)
  | [] => []
  | [c] => [toUint8 (parseHexInt [c])]
  | c :: d :: text => toUint8 (parseHexInt [c, d]) :: hexBytes text

/-- The loop over the lines. -/
def hexLine (s : HexState) (line : List Char) : Option HexState :=
  let byteCount := parseHexInt (jsSlice line 1 3)
  let address := parseHexInt (jsSlice line 3 7)
  let recordType := parseHexInt (jsSlice line 7 9)
  let dataBytes := byteCount.elim [] fun byteCount => jsSlice line 9 (9 + byteCount * 2)
  if recordType = some 0x00 then do
    let extendedAddr ← s.extendedAddr
    let address ← address
    some { s with data := s.data.insert (extendedAddr + address) (hexBytes dataBytes) }
  else if recordType = some 0x02 then
    some { s with extendedAddr := (parseHexInt dataBytes).map (· * 16) }
  else if recordType = some 0x04 then
    some { s with extendedAddr := some (jsShl16 (parseHexInt dataBytes)) }
  else some s

/-- The segments pushed so far and `currentSegment`, after one more address. -/
def mergeAddr (data : AList fun _ : ℤ => List (BitVec 8))
    (acc : List HexSegment × Option HexSegment) (addr : ℤ) : List HexSegment × Option HexSegment :=
  let bytes := (data.lookup addr).getD []
  match acc with
  | (segments, none) => (segments, some ⟨addr, bytes.length, bytes⟩)
  | (segments, some current) =>
    if addr ≠ current.address + current.data.length then
      (segments ++ [current], some ⟨addr, bytes.length, bytes⟩)
    else
      (segments,
        some ⟨current.address, (current.data ++ bytes).length, current.data ++ bytes⟩)

/-- The loop over the sorted addresses. -/
def mergeSegments (data : AList fun _ : ℤ => List (BitVec 8)) : List HexSegment :=
  let sortedAddrs := data.keys.insertionSort (· ≤ ·)
  let (segments, current) := sortedAddrs.foldl (mergeAddr data) ([], none)
  segments ++ current.toList

def parseHEX (text : List Char) : Option HexResult := do
  let lines := (text.splitOn '\n').filter fun line =>
    (line.dropWhile isJsSpace).head? = some ':'
  let s ← lines.foldlM hexLine ⟨some 0, ∅⟩
  let segments := mergeSegments s.data
  some ⟨segments.foldl (fun sum seg => sum + seg.size) 0, segments⟩

/-! ## The format -/

/-- A record of a file. -/
inductive HexRecord
  | data (offset : BitVec 16) (bytes : List (BitVec 8)) (count : bytes.length < 256)
  | extendedSegment (segment : BitVec 16)
  | extendedLinear (upper : BitVec 16)
  | endOfFile

/-- The two bytes of a word, the high one first. -/
def wordPair (v : BitVec 16) : List (BitVec 8) :=
  [BitVec.ofNat 8 (v.toNat / 256), BitVec.ofNat 8 (v.toNat % 256)]

/-- The bytes of a record up to its checksum: count, offset, type and data. -/
def HexRecord.bytes : HexRecord → List (BitVec 8)
  | .data offset bytes _ => BitVec.ofNat 8 bytes.length :: (wordPair offset ++ 0x00 :: bytes)
  | .extendedSegment segment => 2 :: (wordPair 0 ++ 0x02 :: wordPair segment)
  | .extendedLinear upper => 2 :: (wordPair 0 ++ 0x04 :: wordPair upper)
  | .endOfFile => 0 :: (wordPair 0 ++ [0x01])

/-- The checksum makes the sum of all bytes zero. -/
def HexRecord.checksum (r : HexRecord) : BitVec 8 := -r.bytes.sum

/-- Two hexadecimal digits for each byte, in upper or lower case. -/
inductive HexDigits : List Char → List (BitVec 8) → Prop
  | nil : HexDigits [] []
  | cons {c d : Char} {b : BitVec 8} {text : List Char} {bytes : List (BitVec 8)} :
      hexValue c = some (b.toNat / 16) → hexValue d = some (b.toNat % 16) →
        HexDigits text bytes → HexDigits (c :: d :: text) (b :: bytes)

/-- The line of a record, which may end with a carriage return. -/
def HexRecord.IsLine (r : HexRecord) (line : List Char) : Prop :=
  ∃ digits, HexDigits digits (r.bytes ++ [r.checksum]) ∧
    (line = ':' :: digits ∨ line = ':' :: (digits ++ ['\r']))

/-- **A text of the format** has a line for each record, and besides these only empty
    ones; an end-of-file record is the last record and no other. -/
structure HexText (text : List Char) (records : List HexRecord) : Prop where
  lines : List.Forall₂ HexRecord.IsLine records
    ((text.splitOn '\n').filter fun line => line ≠ [] ∧ line ≠ ['\r'])
  eof : ∃ body, records = body ++ [HexRecord.endOfFile] ∧ .endOfFile ∉ body

/-! ## Addresses -/

/-- The base of the offsets: that of the last extended address record. -/
inductive HexBase
  | segment (segment : BitVec 16)
  | linear (upper : BitVec 16)

/-- Data with its base and offset. -/
structure PlacedData where
  base : HexBase
  offset : BitVec 16
  bytes : List (BitVec 8)
  count : bytes.length < 256

/-- The address of the byte `i`: offsets wrap around in a segment, and addresses in
    the linear address space. -/
def PlacedData.place (p : PlacedData) (i : ℕ) : ℕ :=
  match p.base with
  | .segment s => 16 * s.toNat + (p.offset.toNat + i) % 2 ^ 16
  | .linear upper => (2 ^ 16 * upper.toNat + p.offset.toNat + i) % 2 ^ 32

/-- The data of the records, from a base on. -/
def placed (base : HexBase) : List HexRecord → List PlacedData
  | [] => []
  | .data offset bytes count :: l => ⟨base, offset, bytes, count⟩ :: placed base l
  | .extendedSegment segment :: l => placed (.segment segment) l
  | .extendedLinear upper :: l => placed (.linear upper) l
  | .endOfFile :: l => placed base l

/-- The data of a file, whose offsets are addresses at first. -/
def fileData (records : List HexRecord) : List PlacedData := placed (.linear 0) records

/-- `extendedAddr` for a base. -/
def HexBase.extendedAddr : HexBase → ℤ
  | .segment s => s.toNat * 16
  | .linear upper => jsShl16 (some upper.toNat)

/-- `fullAddr` -/
def PlacedData.fullAddr (p : PlacedData) : ℤ := p.base.extendedAddr + p.offset.toNat

/-- What the parser assigns. -/
def PlacedData.assign (p : PlacedData) : ℤ × List (BitVec 8) := (p.fullAddr, p.bytes)

/-! ## Numbers -/

theorem hexValue_bounds {c : Char} {d : ℕ} (h : hexValue c = some d) :
    48 ≤ c.toNat ∧ c.toNat ≤ 102 := by
  unfold hexValue at h
  split_ifs at h
  · omega
  · omega
  · omega

/-- `parseInt` of digits. -/
theorem parseHexInt_digits {text : List Char} {l : List ℕ}
    (h : text.map hexValue = l.map some) (hne : l ≠ []) :
    parseHexInt text = some ((l.foldl (fun n d => 16 * n + d) 0 : ℕ) : ℤ) := by
  have hdigit : ∀ c ∈ text, ∃ d, hexValue c = some d := by
    intro c hc
    have hmem : hexValue c ∈ l.map some := h ▸ List.mem_map_of_mem hc
    obtain ⟨d, -, hd⟩ := List.mem_map.1 hmem
    exact ⟨d, hd.symm⟩
  have hplain : ∀ c ∈ text, isJsSpace c = false ∧ c ≠ '-' ∧ c ≠ '+' ∧ c ≠ 'x' ∧ c ≠ 'X' := by
    intro c hc
    obtain ⟨d, hd⟩ := hdigit c hc
    have hbounds := hexValue_bounds hd
    refine ⟨?_, ?_, ?_, ?_, ?_⟩
    · simp only [isJsSpace, List.mem_cons, List.not_mem_nil, or_false, decide_eq_false_iff_not]
      omega
    all_goals
      rintro rfl
      simp [hexValue] at hd
  have hspace : text.dropWhile isJsSpace = text := by
    cases text with
    | nil => rfl
    | cons c text => rw [List.dropWhile_cons_of_neg (by simp [(hplain c (by simp)).1])]
  have hsign : ∀ c, c = '-' ∨ c = '+' → text.head? ≠ some c := by
    rintro c hc hhead
    have hmem := List.mem_of_mem_head? hhead
    rcases hc with rfl | rfl
    · exact (hplain _ hmem).2.1 rfl
    · exact (hplain _ hmem).2.2.1 rfl
  have hmark : ∀ c, c = 'x' ∨ c = 'X' → text.take 2 ≠ ['0', c] := by
    rintro c hc htake
    have hmem : c ∈ text := List.mem_of_mem_take (htake ▸ by simp : c ∈ text.take 2)
    rcases hc with rfl | rfl
    · exact (hplain _ hmem).2.2.2.1 rfl
    · exact (hplain _ hmem).2.2.2.2 rfl
  have hall : text.takeWhile (fun c => (hexValue c).isSome) = text :=
    List.takeWhile_eq_self_iff.2 fun c hc => by
      obtain ⟨d, hd⟩ := hdigit c hc
      rw [hd]
      rfl
  have hvalues : text.filterMap hexValue = l :=
    calc text.filterMap hexValue
      _ = (text.map hexValue).filterMap id := by rw [List.filterMap_map, Function.id_comp]
      _ = (l.map some).filterMap id := by rw [h]
      _ = l.filterMap some := List.filterMap_map
      _ = l := List.filterMap_some
  simp only [parseHexInt, hspace, hsign _ (.inl rfl), hsign _ (.inr rfl), hmark _ (.inl rfl),
    hmark _ (.inr rfl), or_self, if_false, hall, hvalues, hne]

theorem parseHexInt_pair {c d : Char} {b : BitVec 8} (hc : hexValue c = some (b.toNat / 16))
    (hd : hexValue d = some (b.toNat % 16)) : parseHexInt [c, d] = some (b.toNat : ℤ) := by
  rw [parseHexInt_digits (l := [b.toNat / 16, b.toNat % 16]) (by simp [hc, hd]) (by simp)]
  simp only [List.foldl_cons, List.foldl_nil]
  congr 2
  omega

theorem parseHexInt_word {text : List Char} {v : BitVec 16} (h : HexDigits text (wordPair v)) :
    parseHexInt text = some (v.toNat : ℤ) := by
  have hv := v.isLt
  have hhi : (BitVec.ofNat 8 (v.toNat / 256)).toNat = v.toNat / 256 := by
    rw [BitVec.toNat_ofNat]
    omega
  have hlo : (BitVec.ofNat 8 (v.toNat % 256)).toNat = v.toNat % 256 := by
    rw [BitVec.toNat_ofNat]
    omega
  rw [wordPair] at h
  obtain _ | ⟨h₁, h₂, _ | ⟨h₃, h₄, ⟨⟩⟩⟩ := h
  rw [hhi] at h₁ h₂
  rw [hlo] at h₃ h₄
  rw [parseHexInt_digits (l := [v.toNat / 256 / 16, v.toNat / 256 % 16, v.toNat % 256 / 16,
    v.toNat % 256 % 16]) (by simp [h₁, h₂, h₃, h₄]) (by simp)]
  simp only [List.foldl_cons, List.foldl_nil]
  congr 2
  omega

/-! ## Lines -/

namespace HexDigits
variable {text : List Char} {bytes bytes' : List (BitVec 8)}

theorem length (h : HexDigits text bytes) : text.length = bytes.length * 2 := by
  induction h with
  | nil => rfl
  | cons _ _ _ ih => simp only [List.length_cons, ih, Nat.add_mul]

/-- The digits of bytes behind others. -/
theorem of_append (h : HexDigits text (bytes ++ bytes')) :
    ∃ s t, text = s ++ t ∧ HexDigits s bytes ∧ HexDigits t bytes' := by
  induction bytes generalizing text with
  | nil => exact ⟨[], text, rfl, .nil, h⟩
  | cons b bytes ih =>
    rw [List.cons_append] at h
    obtain _ | ⟨hc, hd, hrest⟩ := h
    obtain ⟨s, t, rfl, hs, ht⟩ := ih hrest
    exact ⟨_ :: _ :: s, t, rfl, .cons hc hd hs, ht⟩

/-- The bytes of digits are read back. -/
theorem hexBytes (h : HexDigits text bytes) : hexBytes text = bytes := by
  induction h with
  | nil => rfl
  | @cons c d b text bytes hc hd _ ih =>
    have hbyte : toUint8 (some (b.toNat : ℤ)) = b := by
      rw [toUint8, Option.getD_some, BitVec.ofInt_natCast, BitVec.ofNat_toNat, BitVec.setWidth_eq]
    rw [Gracemont.hexBytes, parseHexInt_pair hc hd, hbyte, ih]

end HexDigits

/-- The data of a line is behind the nine characters of its header. -/
theorem jsSlice_data {header data rest : List Char} {n : ℕ} (hheader : header.length = 9)
    (hdata : data.length = n * 2) :
    jsSlice (header ++ (data ++ rest)) 9 (9 + (n : ℤ) * 2) = data := by
  have hstop : (if 9 + (n : ℤ) * 2 < 0 then
      (((header ++ (data ++ rest)).length : ℕ) : ℤ) + (9 + (n : ℤ) * 2)
      else 9 + (n : ℤ) * 2).toNat = (header ++ data).length := by
    rw [if_neg (by omega), List.length_append]
    omega
  rw [jsSlice, hstop, ← List.append_assoc, List.take_left, ← hheader, List.drop_left]

/-- **The fields of a line**: count, offset, type and data. -/
theorem line_fields {digits line : List Char} {n type : BitVec 8} {offset : BitVec 16}
    {data : List (BitVec 8)} {checksum : BitVec 8} (hn : n.toNat = data.length)
    (h : HexDigits digits (n :: (wordPair offset ++ type :: data) ++ [checksum]))
    (hline : line = ':' :: digits ∨ line = ':' :: (digits ++ ['\r'])) :
    parseHexInt (jsSlice line 1 3) = some (n.toNat : ℤ) ∧
      parseHexInt (jsSlice line 3 7) = some (offset.toNat : ℤ) ∧
      parseHexInt (jsSlice line 7 9) = some (type.toNat : ℤ) ∧
      HexDigits (jsSlice line 9 (9 + (n.toNat : ℤ) * 2)) data := by
  rw [wordPair] at h
  obtain _ | @⟨c₁, c₂, _, _, _, hn₁, hn₂, h⟩ := h
  obtain _ | @⟨c₃, c₄, _, _, _, ho₁, ho₂, h⟩ := h
  obtain _ | @⟨c₅, c₆, _, _, _, ho₃, ho₄, h⟩ := h
  obtain _ | @⟨c₇, c₈, _, _, _, ht₁, ht₂, h⟩ := h
  obtain ⟨s, t, rfl, hs, -⟩ := HexDigits.of_append h
  obtain ⟨rest, rfl⟩ :
      ∃ rest, line = [':', c₁, c₂, c₃, c₄, c₅, c₆, c₇, c₈] ++ (s ++ rest) := by
    rcases hline with rfl | rfl
    · exact ⟨t, rfl⟩
    · exact ⟨t ++ ['\r'], by simp⟩
  refine ⟨parseHexInt_pair hn₁ hn₂, ?_, parseHexInt_pair ht₁ ht₂, ?_⟩
  · exact parseHexInt_word (.cons ho₁ ho₂ (.cons ho₃ ho₄ .nil))
  · rw [jsSlice_data rfl (hn ▸ hs.length)]
    exact hs

/-- The base after a record. -/
def HexBase.after (base : HexBase) : HexRecord → HexBase
  | .extendedSegment s => .segment s
  | .extendedLinear upper => .linear upper
  | .data .. | .endOfFile => base

theorem placed_cons (base : HexBase) (r : HexRecord) (l : List HexRecord) :
    placed base (r :: l) = placed base [r] ++ placed (base.after r) l := by
  cases r <;> rfl

/-- The parser's assignments, in order. -/
def assignAll (data : AList fun _ : ℤ => List (BitVec 8)) (l : List PlacedData) :
    AList fun _ : ℤ => List (BitVec 8) :=
  (l.map PlacedData.assign).foldl (fun m p => m.insert p.1 p.2) data

/-- A line does what its record says. -/
theorem hexLine_record {r : HexRecord} {line : List Char} (h : r.IsLine line) (base : HexBase)
    (data : AList fun _ : ℤ => List (BitVec 8)) :
    hexLine ⟨some base.extendedAddr, data⟩ line =
      some ⟨some (base.after r).extendedAddr, assignAll data (placed base [r])⟩ := by
  obtain ⟨digits, hdigits, hline⟩ := h
  cases r with
  | data offset bytes count =>
    have hn : (BitVec.ofNat 8 bytes.length).toNat = bytes.length := by
      rw [BitVec.toNat_ofNat, Nat.mod_eq_of_lt count]
    obtain ⟨hcount, haddr, htype, hdata⟩ := line_fields hn hdigits hline
    simp only [hexLine, hcount, haddr, htype, Option.elim_some, hdata.hexBytes]
    rfl
  | extendedSegment s =>
    obtain ⟨hcount, haddr, htype, hdata⟩ := line_fields (n := 2) rfl hdigits hline
    simp only [hexLine, hcount, haddr, htype, Option.elim_some, parseHexInt_word hdata]
    rfl
  | extendedLinear upper =>
    obtain ⟨hcount, haddr, htype, hdata⟩ := line_fields (n := 2) rfl hdigits hline
    simp only [hexLine, hcount, haddr, htype, Option.elim_some, parseHexInt_word hdata]
    rfl
  | endOfFile =>
    obtain ⟨hcount, haddr, htype, hdata⟩ :=
      line_fields (n := 0) rfl hdigits hline
    simp only [hexLine, hcount, haddr, htype, Option.elim_some]
    rfl

theorem assignAll_append (data : AList fun _ : ℤ => List (BitVec 8)) (l l' : List PlacedData) :
    assignAll data (l ++ l') = assignAll (assignAll data l) l' := by
  rw [assignAll, List.map_append, List.foldl_append]
  rfl

/-- **The lines of records** assign their data. -/
theorem foldlM_hexLine {records : List HexRecord} {lines : List (List Char)}
    (h : List.Forall₂ HexRecord.IsLine records lines) (base : HexBase)
    (data : AList fun _ : ℤ => List (BitVec 8)) :
    lines.foldlM hexLine ⟨some base.extendedAddr, data⟩ =
      some ⟨some (records.foldl HexBase.after base).extendedAddr,
        assignAll data (placed base records)⟩ := by
  induction h generalizing base data with
  | nil => rfl
  | @cons r line records lines hline _ ih =>
    rw [List.foldlM_cons, hexLine_record hline, placed_cons base r records, assignAll_append]
    exact ih (base.after r) _

/-- The lines that the parser takes are those of the records. -/
theorem HexText.filter {text : List Char} {records : List HexRecord} (h : HexText text records) :
    ((text.splitOn '\n').filter fun line => (line.dropWhile isJsSpace).head? = some ':') =
      (text.splitOn '\n').filter fun line => line ≠ [] ∧ line ≠ ['\r'] := by
  have hrecord : ∀ line ∈ (text.splitOn '\n').filter fun line => line ≠ [] ∧ line ≠ ['\r'],
      ∃ rest, line = ':' :: rest := by
    intro line hline
    obtain ⟨i, hi, rfl⟩ := List.getElem_of_mem hline
    have hi' : i < records.length := h.lines.length_eq.symm ▸ hi
    obtain ⟨digits, -, hdigits | hdigits⟩ := h.lines.get hi' hi
    · exact ⟨_, hdigits⟩
    · exact ⟨_, hdigits⟩
  refine List.filter_congr fun line hmem => decide_eq_decide.2 ?_
  constructor
  · rintro hhead
    constructor
    · rintro rfl
      cases hhead
    · rintro rfl
      cases hhead
  · intro hline
    obtain ⟨rest, rfl⟩ := hrecord line (List.mem_filter.2 ⟨hmem, decide_eq_true hline⟩)
    rfl

/-! ## Segments -/

/-- A segment for an extent. -/
def segmentOf (e : Extent (BitVec 8)) : HexSegment := ⟨e.start, e.data.length, e.data⟩

/-- The loop over the sorted addresses joins extents. -/
theorem foldl_mergeAddr (data : AList fun _ : ℤ => List (BitVec 8)) (addrs : List ℤ)
    (segments : List HexSegment) (e : Extent (BitVec 8)) :
    (addrs.foldl (mergeAddr data) (segments, some (segmentOf e))).1 ++
        (addrs.foldl (mergeAddr data) (segments, some (segmentOf e))).2.toList =
      segments ++ (Extent.coalesceFrom e
        (addrs.map fun a => ⟨a, (data.lookup a).getD []⟩)).map segmentOf := by
  induction addrs generalizing segments e with
  | nil => rfl
  | cons addr addrs ih =>
    rw [List.foldl_cons, List.map_cons, Extent.coalesceFrom]
    by_cases haddr : addr ≠ e.stop
    · have hstep : mergeAddr data (segments, some (segmentOf e)) addr =
          (segments ++ [segmentOf e], some (segmentOf ⟨addr, (data.lookup addr).getD []⟩)) :=
        if_pos haddr
      rw [hstep, if_pos haddr, ih, List.map_cons, List.append_assoc]
      rfl
    · have hstep : mergeAddr data (segments, some (segmentOf e)) addr =
          (segments, some (segmentOf (e.join ⟨addr, (data.lookup addr).getD []⟩))) :=
        if_neg haddr
      rw [hstep, if_neg haddr, ih]

theorem mergeSegments_eq (data : AList fun _ : ℤ => List (BitVec 8)) :
    mergeSegments data = (Extent.coalesce (Extent.entries data)).map segmentOf := by
  unfold mergeSegments Extent.entries
  cases data.keys.insertionSort (· ≤ ·) with
  | nil => rfl
  | cons addr addrs => exact foldl_mergeAddr data addrs [] ⟨addr, (data.lookup addr).getD []⟩

/-- **The parser on a text of the format** merges what its records assign. -/
theorem parseHEX_eq {text : List Char} {records : List HexRecord} (h : HexText text records) :
    parseHEX text = some
      ⟨((mergeSegments (assignAll ∅ (fileData records))).map (·.size)).sum,
        mergeSegments (assignAll ∅ (fileData records))⟩ := by
  have hsum : ∀ (l : List HexSegment) n,
      l.foldl (fun sum seg => sum + seg.size) n = n + (l.map (·.size)).sum := by
    intro l
    induction l with
    | nil => exact fun _ => rfl
    | cons s l ih =>
      intro n
      rw [List.foldl_cons, ih, List.map_cons, List.sum_cons, Nat.add_assoc]
  have hlines : _ = some (HexState.mk _ (assignAll ∅ (fileData records))) :=
    foldlM_hexLine h.lines (.linear 0) ∅
  have hbase : (HexBase.linear 0).extendedAddr = 0 := by decide
  rw [← h.filter, hbase] at hlines
  simp only [parseHEX, hlines, Option.bind_eq_bind, Option.bind_some, hsum, Nat.zero_add]

/-! ## Writing -/

/-- A hexadecimal digit, in upper case. -/
def hexChar (n : ℕ) : Char := Char.ofNat (if n < 10 then 48 + n else 55 + n)

theorem hexChar_spec : ∀ n < 16, hexValue (hexChar n) = some n ∧ hexChar n ≠ '\n' := by decide

def hexDigits (bytes : List (BitVec 8)) : List Char :=
  bytes.flatMap fun b => [hexChar (b.toNat / 16), hexChar (b.toNat % 16)]

def HexRecord.line (r : HexRecord) : List Char := ':' :: hexDigits (r.bytes ++ [r.checksum])

/-- A text of records, with a line for each. -/
def hexText (records : List HexRecord) : List Char :=
  ['\n'].intercalate (records.map HexRecord.line)

theorem hexDigits_spec (bytes : List (BitVec 8)) :
    HexDigits (hexDigits bytes) bytes ∧ '\n' ∉ hexDigits bytes := by
  induction bytes with
  | nil => exact ⟨.nil, List.not_mem_nil⟩
  | cons b bytes ih =>
    have hb := b.isLt
    have hhi := hexChar_spec (b.toNat / 16) (by omega)
    have hlo := hexChar_spec (b.toNat % 16) (by omega)
    refine ⟨.cons hhi.1 hlo.1 ih.1, fun hmem => ?_⟩
    rcases List.mem_cons.1 hmem with h | hmem
    · exact hhi.2 h.symm
    rcases List.mem_cons.1 hmem with h | hmem
    · exact hlo.2 h.symm
    · exact ih.2 hmem

/-- **Every list of records has a text**, if it ends with its only end-of-file record. -/
theorem hexText_spec {body : List HexRecord} (h : .endOfFile ∉ body) :
    HexText (hexText (body ++ [HexRecord.endOfFile])) (body ++ [HexRecord.endOfFile]) := by
  refine ⟨?_, body, rfl, h⟩
  generalize hrecords : body ++ [HexRecord.endOfFile] = records
  have hsplit : (hexText records).splitOn '\n' = records.map HexRecord.line := by
    refine List.splitOn_intercalate '\n' ?_ ?_
    · intro line hline hmem
      obtain ⟨r, -, rfl⟩ := List.mem_map.1 hline
      rcases List.mem_cons.1 hmem with heq | hmem
      · cases heq
      · exact (hexDigits_spec _).2 hmem
    · simp [← hrecords]
  have hlines : (records.map HexRecord.line).filter (fun line => line ≠ [] ∧ line ≠ ['\r']) =
      records.map HexRecord.line := by
    refine List.filter_eq_self.2 fun line hline => decide_eq_true ?_
    obtain ⟨r, -, rfl⟩ := List.mem_map.1 hline
    exact ⟨List.cons_ne_nil _ _, fun heq => by cases heq⟩
  rw [hsplit, hlines, List.forall₂_map_right_iff, List.forall₂_same]
  exact fun r _ => ⟨_, (hexDigits_spec _).1, Or.inl rfl⟩

end Gracemont
