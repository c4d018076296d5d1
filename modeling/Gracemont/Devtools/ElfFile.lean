/-
  Gracemont developer tools — the parser of ELF files
  (`parseELF` of `devtools/flasher/src/utils/firmware-parser.js`).

  The parser checks the first bytes of the array it gets, but reads the headers through
  a `DataView` of the whole `ArrayBuffer` below, and takes the data of a segment with
  `slice`, which stops at the end of the array.  A read outside of the buffer throws.

  * `Uint8View`, `getUint`, `parseELF`: the parser;
  * `loadEntries`: the `PT_LOAD` entries of a file, by its bytes;
  * `parseELF_eq`: the parser as one reading of the table;
  * `parse_elf_iff`: where what it returns are the segments of the file.
-/
import Mathlib.Algebra.Order.BigOperators.Group.List
import Mathlib.Data.List.Forall2
import Mathlib.Data.List.ReduceOption
import Gracemont.Devtools.FlashProtocol
import Gracemont.Lib.Rounding

namespace Gracemont

open Lib

/-! ## Arrays and numbers -/

/-- A `Uint8Array`: some of the bytes of an `ArrayBuffer`, of which no engine gives
    `2 ^ 37`. -/
structure Uint8View where
  buffer : List (BitVec 8)
  byteOffset : ℕ
  length : ℕ
  inside : byteOffset + length ≤ buffer.length
  small : buffer.length < 2 ^ 37

namespace Uint8View

/-- The indices of the bytes are numbers. -/
theorem lt (b : Uint8View) : b.buffer.length < 2 ^ 53 := b.small.trans (by decide)

/-- Its elements. -/
def bytes (b : Uint8View) : List (BitVec 8) := (b.buffer.drop b.byteOffset).take b.length

/-- `slice(start, stop)` -/
def slice (b : Uint8View) (start stop : ℕ) : List (BitVec 8) := (b.bytes.take stop).drop start

end Uint8View

/-- `Number(n)` of a `BigInt` -/
def toNumber (n : ℕ) : ℕ := roundFloatNat 53 n

/-- The sum of two numbers. -/
def numberAdd (a b : ℕ) : ℕ := roundFloatNat 53 (a + b)

/-- The number that bytes stand for, the lowest or the highest of them first. -/
def bytesValue (littleEndian : Bool) (l : List (BitVec 8)) : ℕ :=
  (if littleEndian then l.reverse else l).foldl (fun n b => 256 * n + b.toNat) 0

/-- `size` bytes of a file at `index`, if it has them. -/
def getUint (file : List (BitVec 8)) (size index : ℕ) (littleEndian : Bool) : Option ℕ :=
  if index + size ≤ file.length then some (bytesValue littleEndian ((file.drop index).take size))
  else none

/-- What a method of a `DataView` throws outside of its buffer. -/
def rangeError : String := "Offset is outside the bounds of the DataView"

/-- A method of a `DataView`. -/
def dataViewGet (b : Uint8View) (size index : ℕ) (littleEndian : Bool) : Except String ℕ :=
  (getUint b.buffer size index littleEndian).elim (throw rangeError) pure

/-! ## The parser -/

def PT_LOAD : ℕ := 1

structure ElfSegment where
  address : ℕ
  size : ℕ
  data : List (BitVec 8)
  deriving DecidableEq

structure ElfResult where
  type : String
  size : ℕ
  checksum : String
  segments : List ElfSegment

/-- The `words` of `bufferToWordArray`: a byte behind the end counts as zero. -/
def bufferToWordArray (bytes : List (BitVec 8)) : List (BitVec 32) :=
  (List.range ((bytes.length + 3) / 4)).map fun i => dataWord bytes (4 * i)

/-- `calculateCRC32`: the first digits of the MD5 hash of the words, of which
    `bytes.length` bytes are used. -/
def calculateCRC32 (md5 : List (BitVec 32) → ℕ → String) (bytes : List (BitVec 8)) : String :=
  String.ofList ((md5 (bufferToWordArray bytes) bytes.length).toUpper.toList.take 8)

/-- One turn of the loop over the program headers, with `segments` and `totalSize`. -/
def elfProgramHeader (b : Uint8View) (isLittleEndian : Bool) (e_phoff e_phentsize : ℕ)
    (acc : List ElfSegment × ℕ) (i : ℕ) : Except String (List ElfSegment × ℕ) := do
  let phOffset := numberAdd e_phoff (i * e_phentsize)
  let p_type ← dataViewGet b 4 phOffset isLittleEndian
  if p_type = PT_LOAD then do
    let p_offset ← toNumber <$> dataViewGet b 8 (numberAdd phOffset 8) isLittleEndian
    let p_vaddr ← toNumber <$> dataViewGet b 8 (numberAdd phOffset 16) isLittleEndian
    let p_filesz ← toNumber <$> dataViewGet b 8 (numberAdd phOffset 32) isLittleEndian
    if p_filesz > 0 then
      let data := b.slice p_offset (numberAdd p_offset p_filesz)
      return (acc.1 ++ [⟨p_vaddr, p_filesz, data⟩], numberAdd acc.2 p_filesz)
    else return acc
  else return acc

/-- The check of the magic number. -/
def HasElfMagic (b : Uint8View) : Prop :=
  b.bytes[0]? = some 0x7F ∧ b.bytes[1]? = some 0x45 ∧ b.bytes[2]? = some 0x4C ∧
    b.bytes[3]? = some 0x46

instance (b : Uint8View) : Decidable (HasElfMagic b) := inferInstanceAs (Decidable (_ ∧ _))

/-- `is64bit` -/
def Is64bit (b : Uint8View) : Prop := b.bytes[4]? = some 2

instance (b : Uint8View) : Decidable (Is64bit b) := inferInstanceAs (Decidable (_ = _))

def isLittleEndian (b : Uint8View) : Bool := b.bytes[5]? = some 1

def parseELF (md5 : List (BitVec 32) → ℕ → String) (b : Uint8View) : Except String ElfResult :=
  if ¬ HasElfMagic b then throw "Invalid ELF file"
  else if ¬ Is64bit b then throw "Only 64-bit ELF files are supported"
  else do
    let e_phoff ← toNumber <$> dataViewGet b 8 32 (isLittleEndian b)
    let e_phentsize ← dataViewGet b 2 54 (isLittleEndian b)
    let e_phnum ← dataViewGet b 2 56 (isLittleEndian b)
    let (segments, totalSize) ← (List.range e_phnum).foldlM
      (elfProgramHeader b (isLittleEndian b) e_phoff e_phentsize) ([], 0)
    return ⟨"elf", totalSize, calculateCRC32 md5 b.bytes, segments⟩

/-! ## The entries of a file -/

/-- A `PT_LOAD` entry with something in the file. -/
structure LoadEntry where
  offset : ℕ
  vaddr : ℕ
  filesz : ℕ
  pos : 0 < filesz
  deriving DecidableEq

/-- The entry at `a`: `some none` is one that is not loaded, and `none` one that is not in
    the file as far as it is needed. -/
def loadEntry (file : List (BitVec 8)) (littleEndian : Bool) (a : ℕ) :
    Option (Option LoadEntry) := do
  let type ← getUint file 4 a littleEndian
  if type = PT_LOAD then do
    let offset ← getUint file 8 (a + 8) littleEndian
    let vaddr ← getUint file 8 (a + 16) littleEndian
    let filesz ← getUint file 8 (a + 32) littleEndian
    return if h : 0 < filesz then some ⟨offset, vaddr, filesz, h⟩ else none
  else return none

/-- **The `PT_LOAD` entries of a file** with a file size, in the order of its program
    headers. -/
def loadEntries (file : List (BitVec 8)) (littleEndian : Bool) : Option (List LoadEntry) := do
  let phoff ← getUint file 8 32 littleEndian
  let phentsize ← getUint file 2 54 littleEndian
  let phnum ← getUint file 2 56 littleEndian
  let entries ← (List.range phnum).mapM fun i => loadEntry file littleEndian (phoff + i * phentsize)
  return entries.reduceOption

/-! ## Rounded offsets -/

section
variable {file : List (BitVec 8)} {size a : ℕ} {littleEndian : Bool}

theorem isFloat_two_pow_53 : IsFloat 53 (2 ^ 53 : ℕ) :=
  isFloat_of_abs_le (by decide) (by decide)

theorem toNumber_of_lt {n : ℕ} (h : n < 2 ^ 53) : toNumber n = n :=
  roundFloatNat_eq_self (by decide) h

theorem le_toNumber {n : ℕ} (h : 2 ^ 53 ≤ n) : 2 ^ 53 ≤ toNumber n :=
  le_roundFloatNat (by decide) isFloat_two_pow_53 h

theorem toNumber_pos {n : ℕ} : 0 < toNumber n ↔ 0 < n := by
  constructor
  · intro h
    rcases Nat.eq_zero_or_pos n with rfl | hn
    · exact h
    · exact hn
  · intro h
    exact le_roundFloatNat (d := 1) (by decide) (isFloat_of_abs_le (by decide) (by decide)) h

theorem bytesValue_lt (littleEndian : Bool) (l : List (BitVec 8)) :
    bytesValue littleEndian l < 256 ^ l.length := by
  have hfold : ∀ (l : List (BitVec 8)) (n : ℕ),
      l.foldl (fun n b => 256 * n + b.toNat) n < 256 ^ l.length * (n + 1) := by
    intro l
    induction l with
    | nil => exact fun n => by rw [List.foldl_nil, List.length_nil]; omega
    | cons b l ih =>
      intro n
      have hb := b.isLt
      refine Nat.lt_of_lt_of_le (ih _) ?_
      rw [List.length_cons, Nat.pow_succ, Nat.mul_assoc]
      refine Nat.mul_le_mul_left _ ?_
      show 256 * n + b.toNat + 1 ≤ _
      omega
  unfold bytesValue
  cases littleEndian with
  | false => exact (hfold l 0).trans_eq (Nat.mul_one _)
  | true => exact ((hfold l.reverse 0).trans_eq (Nat.mul_one _)).trans_eq (by simp)

theorem getUint_lt {n : ℕ} (h : getUint file size a littleEndian = some n) : n < 256 ^ size := by
  unfold getUint at h
  split_ifs at h with hin
  obtain rfl := Option.some.inj h
  have hlen : ((file.drop a).take size).length = size := by
    rw [List.length_take, List.length_drop]
    omega
  have hlt := bytesValue_lt littleEndian ((file.drop a).take size)
  rwa [hlen] at hlt

/-- Behind the end there is nothing. -/
theorem getUint_eq_none (h : file.length < a + size) : getUint file size a littleEndian = none :=
  if_neg (Nat.not_le.2 h)

/-- A file ends before numbers are rounded. -/
theorem getUint_toNumber_add (hfile : file.length < 2 ^ 53) (k : ℕ) :
    getUint file size (toNumber a + k) littleEndian = getUint file size (a + k) littleEndian := by
  by_cases ha : a < 2 ^ 53
  · rw [toNumber_of_lt ha]
  · have hle := le_toNumber (Nat.not_lt.1 ha)
    rw [getUint_eq_none (by omega), getUint_eq_none (by omega)]

theorem getUint_toNumber (hfile : file.length < 2 ^ 53) :
    getUint file size (toNumber a) littleEndian = getUint file size a littleEndian :=
  getUint_toNumber_add hfile 0

end

theorem length_mapM {ι κ : Type} {f : ι → Option κ} {l : List ι} {l' : List κ}
    (h : l.mapM f = some l') : l'.length = l.length := by
  induction l generalizing l' with
  | nil =>
    cases h
    rfl
  | cons i l ih =>
    rw [List.mapM_cons] at h
    obtain ⟨e, -, h⟩ := Option.bind_eq_some_iff.1 h
    obtain ⟨es, hes, h⟩ := Option.bind_eq_some_iff.1 h
    cases h
    exact congrArg (· + 1) (ih hes)

/-- The number of entries is one of 16 bits. -/
theorem loadEntries_length {file : List (BitVec 8)} {littleEndian : Bool} {es : List LoadEntry}
    (h : loadEntries file littleEndian = some es) : es.length < 2 ^ 16 := by
  obtain ⟨phoff, -, h⟩ := Option.bind_eq_some_iff.1 h
  obtain ⟨phentsize, -, h⟩ := Option.bind_eq_some_iff.1 h
  obtain ⟨phnum, hphnum, h⟩ := Option.bind_eq_some_iff.1 h
  obtain ⟨entries, hentries, h⟩ := Option.bind_eq_some_iff.1 h
  cases h
  have hlen := length_mapM hentries
  rw [List.length_range] at hlen
  have hlt : phnum < 256 ^ 2 := getUint_lt hphnum
  have hle := List.reduceOption_length_le entries
  omega

/-! ## The loop -/

/-- The segment that is pushed for an entry. -/
def fileSegment (b : Uint8View) (e : LoadEntry) : ElfSegment :=
  ⟨toNumber e.vaddr, toNumber e.filesz,
    b.slice (toNumber e.offset) (numberAdd (toNumber e.offset) (toNumber e.filesz))⟩

/-- What a turn does for an entry. -/
def pushEntry (b : Uint8View) (acc : List ElfSegment × ℕ) :
    Option LoadEntry → List ElfSegment × ℕ
  | none => acc
  | some e => (acc.1 ++ [fileSegment b e], numberAdd acc.2 (toNumber e.filesz))

section
variable (b : Uint8View) (littleEndian : Bool)

/-- **One turn** reads the entry in the buffer. -/
theorem elfProgramHeader_eq (phoff phentsize : ℕ) (acc : List ElfSegment × ℕ) (i : ℕ) :
    elfProgramHeader b littleEndian (toNumber phoff) phentsize acc i =
      (loadEntry b.buffer littleEndian (phoff + i * phentsize)).elim (throw rangeError)
        fun e => pure (pushEntry b acc e) := by
  have hget : ∀ size k, getUint b.buffer size (numberAdd (numberAdd (toNumber phoff)
      (i * phentsize)) k) littleEndian =
      getUint b.buffer size (phoff + i * phentsize + k) littleEndian := by
    intro size k
    rw [numberAdd, ← toNumber, getUint_toNumber b.lt, numberAdd, ← toNumber,
      getUint_toNumber_add b.lt, Nat.add_assoc, getUint_toNumber_add b.lt, Nat.add_assoc]
  have hget' : getUint b.buffer 4 (numberAdd (toNumber phoff) (i * phentsize)) littleEndian =
      getUint b.buffer 4 (phoff + i * phentsize) littleEndian := by
    rw [numberAdd, ← toNumber, getUint_toNumber b.lt, getUint_toNumber_add b.lt]
  unfold elfProgramHeader loadEntry dataViewGet
  simp only [hget, hget']
  generalize getUint b.buffer 4 (phoff + i * phentsize) littleEndian = type
  generalize getUint b.buffer 8 (phoff + i * phentsize + 8) littleEndian = offset
  generalize getUint b.buffer 8 (phoff + i * phentsize + 16) littleEndian = vaddr
  generalize getUint b.buffer 8 (phoff + i * phentsize + 32) littleEndian = filesz
  cases type with
  | none => rfl
  | some type =>
    by_cases htype : type = PT_LOAD
    · subst htype
      cases offset with
      | none => rfl
      | some offset =>
        cases vaddr with
        | none => rfl
        | some vaddr =>
          cases filesz with
          | none => rfl
          | some filesz =>
            by_cases hpos : 0 < filesz
            · have hnumber := toNumber_pos.2 hpos
              simp [hpos, hnumber, pushEntry, fileSegment]
            · have hnumber := mt toNumber_pos.1 hpos
              simp [hpos, hnumber, pushEntry]
    · simp [htype, pushEntry]

/-- A loop whose turns read first and then cannot fail. -/
theorem foldlM_elim {ι κ σ ε : Type} {err : ε} (read : ι → Option κ) (push : σ → κ → σ)
    (l : List ι) (acc : σ) :
    (l.foldlM (fun acc i => (read i).elim (throw err) fun e => pure (push acc e)) acc :
        Except ε σ) =
      (l.mapM read).elim (throw err) fun es => pure (es.foldl push acc) := by
  induction l generalizing acc with
  | nil => rfl
  | cons i l ih =>
    rw [List.foldlM_cons, List.mapM_cons]
    cases read i with
    | none => rfl
    | some e =>
      refine (ih (push acc e)).trans ?_
      cases l.mapM read with
      | none => rfl
      | some es => rfl

theorem foldl_pushEntry (es : List (Option LoadEntry)) (acc : List ElfSegment × ℕ) :
    es.foldl (pushEntry b) acc = (acc.1 ++ es.reduceOption.map (fileSegment b),
      (es.reduceOption.map fun e => toNumber e.filesz).foldl numberAdd acc.2) := by
  induction es generalizing acc with
  | nil => simp
  | cons e es ih =>
    rw [List.foldl_cons, ih]
    cases e with
    | none => rw [List.reduceOption_cons_of_none, pushEntry]
    | some e =>
      rw [List.reduceOption_cons_of_some, List.map_cons, List.map_cons, List.foldl_cons, pushEntry,
        List.append_assoc]
      rfl

variable (md5 : List (BitVec 32) → ℕ → String)

/-- The parser throws before it reads the headers. -/
def BadIdent : Prop := ¬ HasElfMagic b ∨ ¬ Is64bit b

/-- **The parser** reads the entries in the buffer. -/
theorem parseELF_eq (hident : ¬ BadIdent b) :
    parseELF md5 b = (loadEntries b.buffer (isLittleEndian b)).elim (throw rangeError) fun es =>
      pure ⟨"elf", (es.map fun e => toNumber e.filesz).foldl numberAdd 0,
        calculateCRC32 md5 b.bytes, es.map (fileSegment b)⟩ := by
  have hmagic : HasElfMagic b := not_not.1 fun h => hident (.inl h)
  have h64 : Is64bit b := not_not.1 fun h => hident (.inr h)
  rw [parseELF, if_neg (not_not.2 hmagic), if_neg (not_not.2 h64), loadEntries]
  unfold dataViewGet
  generalize getUint b.buffer 2 54 (isLittleEndian b) = phentsize
  generalize getUint b.buffer 2 56 (isLittleEndian b) = phnum
  cases getUint b.buffer 8 32 (isLittleEndian b) with
  | none => rfl
  | some phoff =>
    cases phentsize with
    | none => rfl
    | some phentsize =>
      cases phnum with
      | none => rfl
      | some phnum =>
        have hturn : elfProgramHeader b (isLittleEndian b) (toNumber phoff) phentsize =
            fun acc i => (loadEntry b.buffer (isLittleEndian b) (phoff + i * phentsize)).elim
              (throw rangeError) fun e => pure (pushEntry b acc e) := by
          funext acc i
          exact elfProgramHeader_eq b _ phoff phentsize acc i
        simp only [Option.elim_some, map_pure, pure_bind, Option.bind_eq_bind, Option.bind_some,
          hturn, foldlM_elim]
        cases (List.range phnum).mapM fun i =>
          loadEntry b.buffer (isLittleEndian b) (phoff + i * phentsize) with
        | none => rfl
        | some es =>
          simp only [Option.elim_some, pure_bind, foldl_pushEntry]
          rfl

theorem parseELF_badIdent (hident : BadIdent b) : ∃ e, parseELF md5 b = .error e := by
  unfold parseELF
  by_cases hmagic : HasElfMagic b
  · rw [if_neg (not_not.2 hmagic), if_pos (hident.resolve_left (not_not.2 hmagic))]
    exact ⟨_, rfl⟩
  · rw [if_pos hmagic]
    exact ⟨_, rfl⟩

end

/-! ## Segments -/

section
variable {b : Uint8View} {e e' : LoadEntry}

theorem Uint8View.bytes_length (b : Uint8View) : b.bytes.length = b.length := by
  have hin := b.inside
  rw [bytes, List.length_take, List.length_drop]
  omega

/-- The entry is for bytes of the file. -/
def LoadEntry.Inside (file : List (BitVec 8)) (e : LoadEntry) : Prop :=
  e.offset + e.filesz ≤ file.length

/-- The bytes `[p_offset, p_offset + p_filesz)` of a file. -/
def LoadEntry.data (file : List (BitVec 8)) (e : LoadEntry) : List (BitVec 8) :=
  (file.drop e.offset).take e.filesz

theorem LoadEntry.Inside.data_length {file : List (BitVec 8)} (h : e.Inside file) :
    (e.data file).length = e.filesz := by
  unfold Inside at h
  rw [data, List.length_take, List.length_drop]
  omega

/-- The segment of an entry inside of the file. -/
theorem fileSegment_of_inside (h : e.Inside b.bytes) :
    fileSegment b e = ⟨toNumber e.vaddr, e.filesz, e.data b.bytes⟩ := by
  have hsmall := b.lt
  have hin := b.inside
  unfold LoadEntry.Inside at h
  rw [b.bytes_length] at h
  have hoffset : toNumber e.offset = e.offset := toNumber_of_lt (by omega)
  have hfilesz : toNumber e.filesz = e.filesz := toNumber_of_lt (by omega)
  have hstop : numberAdd e.offset e.filesz = e.offset + e.filesz := toNumber_of_lt (by omega)
  rw [fileSegment, hoffset, hfilesz, hstop, Uint8View.slice, List.drop_take,
    Nat.add_sub_cancel_left]
  rfl

/-- **A slice is not too short** exactly if the entry is inside of the file. -/
theorem fileSegment_whole_iff :
    (fileSegment b e).size = (fileSegment b e).data.length ↔ e.Inside b.bytes := by
  constructor
  · intro h
    have hpos := e.pos
    have hsize := toNumber_pos.2 e.pos
    have hsmall := b.lt
    have hin := b.inside
    simp only [fileSegment, Uint8View.slice, List.length_drop, List.length_take,
      b.bytes_length] at h
    have hoffset : e.offset < 2 ^ 53 := by
      by_contra hge
      have hle := le_toNumber (Nat.not_lt.1 hge)
      omega
    have hfilesz : e.filesz < 2 ^ 53 := by
      by_contra hge
      have hle := le_toNumber (Nat.not_lt.1 hge)
      omega
    rw [toNumber_of_lt hoffset, toNumber_of_lt hfilesz] at h
    unfold LoadEntry.Inside
    rw [b.bytes_length]
    by_cases hsum : e.offset + e.filesz < 2 ^ 53
    · rw [numberAdd, ← toNumber, toNumber_of_lt hsum] at h
      omega
    · have hle := le_toNumber (Nat.not_lt.1 hsum)
      rw [numberAdd, ← toNumber] at h
      omega
  · intro h
    rw [fileSegment_of_inside h]
    exact h.data_length.symm

/-! ## Faithful results -/

/-- The segment is that of the entry. -/
def LoadEntry.Describes (file : List (BitVec 8)) (e : LoadEntry) (seg : ElfSegment) : Prop :=
  e.Inside file ∧ seg.address = toNumber e.vaddr ∧ seg.size = seg.data.length ∧
    seg.data = e.data file

/-- **The segments are those of the file**, in the order of its program headers, and their
    sizes add up. -/
def FaithfulElf (b : Uint8View) (r : ElfResult) : Prop :=
  ∃ es, loadEntries b.bytes (isLittleEndian b) = some es ∧
    List.Forall₂ (LoadEntry.Describes b.bytes) es r.segments ∧
    r.size = (r.segments.map ElfSegment.size).sum

/-- The parser throws or returns the segments of the file. -/
def ParsesFaithfully (md5 : List (BitVec 32) → ℕ → String) (b : Uint8View) : Prop :=
  (∃ e, parseELF md5 b = .error e) ∨ ∃ r, parseELF md5 b = .ok r ∧ FaithfulElf b r

/-- Two entries for the same segment. -/
def LoadEntry.Same (file : List (BitVec 8)) (e e' : LoadEntry) : Prop :=
  e.Inside file ∧ e'.Inside file ∧ toNumber e'.vaddr = toNumber e.vaddr ∧
    e'.data file = e.data file

/-- Sizes that add up without being rounded. -/
def SumsExactly (sizes : List ℕ) : Prop := sizes.foldl numberAdd 0 = sizes.sum

theorem describes_fileSegment_iff :
    e.Describes b.bytes (fileSegment b e') ↔ e.Same b.bytes e' := by
  unfold LoadEntry.Describes LoadEntry.Same
  rw [fileSegment_whole_iff]
  refine and_congr_right fun _ => ?_
  constructor
  · rintro ⟨hvaddr, hin, hdata⟩
    rw [fileSegment_of_inside hin] at hvaddr hdata
    exact ⟨hin, hvaddr, hdata⟩
  · rintro ⟨hin, hvaddr, hdata⟩
    rw [fileSegment_of_inside hin]
    exact ⟨hvaddr, hin, hdata⟩

/-- The entries in the buffer are read as those of the file. -/
def SameSegments (b : Uint8View) (es' : List LoadEntry) : Prop :=
  ∃ es, loadEntries b.bytes (isLittleEndian b) = some es ∧
    List.Forall₂ (LoadEntry.Same b.bytes) es es'

theorem SameSegments.inside {es' : List LoadEntry} (h : SameSegments b es') :
    ∀ e' ∈ es', e'.Inside b.bytes := by
  obtain ⟨es, -, hall⟩ := h
  induction hall with
  | nil => simp
  | cons hsame _ ih =>
    intro e' he'
    rcases List.mem_cons.1 he' with rfl | he'
    · exact hsame.2.1
    · exact ih e' he'

/-- Below 2^53 sizes add up. -/
theorem sumsExactly_of_lt {sizes : List ℕ} (h : sizes.sum < 2 ^ 53) : SumsExactly sizes := by
  have hfold : ∀ (l : List ℕ) (acc : ℕ), acc + l.sum < 2 ^ 53 →
      l.foldl numberAdd acc = acc + l.sum := by
    intro l
    induction l with
    | nil => exact fun acc _ => rfl
    | cons n l ih =>
      intro acc hacc
      rw [List.sum_cons] at hacc ⊢
      have hadd : numberAdd acc n = acc + n := toNumber_of_lt (by omega)
      rw [List.foldl_cons, hadd, ih _ (by omega), Nat.add_assoc]
  have hsum := hfold sizes 0 (by omega)
  rwa [Nat.zero_add] at hsum

/-- So do those of the entries of a file. -/
theorem SameSegments.sumsExactly {es : List LoadEntry} (h : SameSegments b es)
    (hes : loadEntries b.buffer (isLittleEndian b) = some es) :
    SumsExactly (es.map LoadEntry.filesz) := by
  have hsmall := b.small
  have hin := b.inside
  have hle : ∀ n ∈ es.map LoadEntry.filesz, n ≤ 2 ^ 37 := by
    intro n hn
    obtain ⟨e, he, rfl⟩ := List.mem_map.1 hn
    have hinside := h.inside e he
    unfold LoadEntry.Inside at hinside
    rw [b.bytes_length] at hinside
    omega
  have hsum := List.sum_le_card_nsmul _ _ hle
  have hlen := loadEntries_length hes
  rw [List.length_map, Nat.nsmul_eq_mul] at hsum
  exact sumsExactly_of_lt (by omega)

/-- **The result of the parser**, for every array: it throws or is faithful exactly if the
    identification is bad, a header is outside of the buffer, or the entries in the
    buffer are those of the array, which have their bytes in it. -/
theorem parse_elf_iff (md5 : List (BitVec 32) → ℕ → String) (b : Uint8View) :
    ParsesFaithfully md5 b ↔ BadIdent b ∨ loadEntries b.buffer (isLittleEndian b) = none ∨
      ∃ es, loadEntries b.buffer (isLittleEndian b) = some es ∧ SameSegments b es := by
  by_cases hident : BadIdent b
  · exact iff_of_true (.inl (parseELF_badIdent b md5 hident)) (.inl hident)
  rw [or_iff_right hident, ParsesFaithfully, parseELF_eq b md5 hident]
  cases hes : loadEntries b.buffer (isLittleEndian b) with
  | none => exact iff_of_true (.inl ⟨_, rfl⟩) (.inl rfl)
  | some es =>
    have hsegments : ∀ es₀,
        List.Forall₂ (LoadEntry.Describes b.bytes) es₀ (es.map (fileSegment b)) ↔
          List.Forall₂ (LoadEntry.Same b.bytes) es₀ es := by
      intro es₀
      rw [List.forall₂_map_right_iff]
      simp only [describes_fileSegment_iff]
    constructor
    · rintro (⟨e, he⟩ | ⟨r, hr, es₀, hes₀, hall, -⟩)
      · cases he
      · cases hr
        exact .inr ⟨es, rfl, es₀, hes₀, (hsegments es₀).1 hall⟩
    · rintro (hnone | ⟨es', hes', hsame⟩)
      · cases hnone
      · cases hes'
        -- the sizes of the segments are those of the entries
        have hnumbers : (es.map fun e => toNumber e.filesz) = es.map LoadEntry.filesz :=
          List.map_congr_left fun e he =>
            congrArg ElfSegment.size (fileSegment_of_inside (hsame.inside e he))
        have hsizes : (es.map (fileSegment b)).map ElfSegment.size =
            es.map LoadEntry.filesz := by
          rw [List.map_map]
          exact hnumbers
        have hexact := hsame.sumsExactly hes
        obtain ⟨es₀, hes₀, hall⟩ := hsame
        refine .inr ⟨_, rfl, es₀, hes₀, (hsegments es₀).2 hall, ?_⟩
        rw [hsizes, hnumbers]
        exact hexact

/-- The entries of a whole buffer are those of the array. -/
theorem sameSegments_whole (hwhole : b.bytes = b.buffer) {es : List LoadEntry}
    (hes : loadEntries b.buffer (isLittleEndian b) = some es) :
    SameSegments b es ↔ ∀ e ∈ es, e.Inside b.buffer := by
  rw [← hwhole] at hes ⊢
  constructor
  · exact SameSegments.inside
  · intro hin
    exact ⟨es, hes, List.forall₂_same.2 fun e he => ⟨hin e he, hin e he, rfl, rfl⟩⟩

end

/-- A file of 124 bytes, with one `PT_LOAD` entry for 16 bytes from 120 on. -/
def demoElf : Uint8View where
  buffer :=
    [0x7F, 0x45, 0x4C, 0x46, 2, 1, 1, 0, 0, 0, 0, 0, 0, 0, 0, 0, 2, 0, 0xB7, 0, 1, 0, 0, 0,
      0, 0, 0, 0x40, 0, 0, 0, 0, 64, 0, 0, 0, 0, 0, 0, 0, 0, 0, 0, 0, 0, 0, 0, 0, 0, 0, 0, 0,
      64, 0, 56, 0, 1, 0, 0, 0, 0, 0, 0, 0, 1, 0, 0, 0, 5, 0, 0, 0, 120, 0, 0, 0, 0, 0, 0, 0,
      0, 0, 0, 0x40, 0, 0, 0, 0, 0, 0, 0, 0x40, 0, 0, 0, 0, 16, 0, 0, 0, 0, 0, 0, 0,
      16, 0, 0, 0, 0, 0, 0, 0, 0, 0x10, 0, 0, 0, 0, 0, 0, 1, 2, 3, 4]
  byteOffset := 0
  length := 124
  inside := by decide +kernel
  small := by decide +kernel

theorem demoElf_segments : ∃ r, parseELF (fun _ _ => "") demoElf = .ok r ∧
    r.segments = [⟨0x40000000, 16, [1, 2, 3, 4]⟩] := by
  have hident : ¬ BadIdent demoElf := by
    unfold BadIdent
    decide
  have hentries : loadEntries demoElf.buffer (isLittleEndian demoElf) =
      some [⟨120, 0x40000000, 16, by decide⟩] := by decide +kernel
  rw [parseELF_eq demoElf _ hident, hentries]
  refine ⟨_, rfl, ?_⟩
  decide +kernel

/-- A segment of 16 bytes is returned with the last four bytes of the file. -/
theorem demoElf_short : ¬ ParsesFaithfully (fun _ _ => "") demoElf := by
  obtain ⟨r, hr, hsegments⟩ := demoElf_segments
  rintro (⟨e, he⟩ | ⟨r', hr', es, -, hall, -⟩)
  · rw [hr] at he
    cases he
  · rw [hr] at hr'
    cases hr'
    rw [hsegments] at hall
    obtain ⟨e, es', hdescribes, -, -⟩ := List.forall₂_cons_right_iff.1 hall
    have hsize := hdescribes.2.2.1
    exact absurd hsize (by decide)

end Gracemont
