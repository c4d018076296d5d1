/-
  Gracemont developer tools — the text of node ids of OPC UA (`parseNodeId` of
  `devtools/shared/src/utils/protocol.js`).

  A string is the list of its UTF-16 code units.  The text is split at every
  `;`, and each part at every `=`, of which the first two fields are used.

  * `parseInt`, `parseNodeId`: the functions;
  * `parseInt_decimal`: a decimal number is read as the nearest double;
  * `parseNodeId_plain`: no identifier that is read has a separator in it;
  * `parseNodeId_text_iff`: so that exactly the identifiers without come back.
-/
import Gracemont.Devtools.HexFile
import Gracemont.Lib.Rounding

namespace Gracemont

open Lib

/-! ## Strings and numbers -/

/-- The code units of a string. -/
abbrev JsString := List (BitVec 16)

/-- A character of the first 2^16. -/
def codeUnit (c : Char) : BitVec 16 := BitVec.ofNat 16 c.toNat

/-- The character of a code unit, unless it is one half of a pair. -/
def unitChar (u : BitVec 16) : Option Char :=
  if u.toNat.isValidChar then some (Char.ofNat u.toNat) else none

/-- A number that is whole, infinite or none; zero has a sign, too. -/
inductive JsNumber
  | nan
  | infinite (negative : Bool)
  | whole (negative : Bool) (abs : ℕ)
  deriving DecidableEq

/-- The double next to a whole number. -/
def JsNumber.ofNat (negative : Bool) (n : ℕ) : JsNumber :=
  let r := roundFloatNat 53 n
  if r < 2 ^ 1024 then .whole negative r else .infinite negative

/-- The value of a digit. -/
def digitValue (radix : ℕ) (u : BitVec 16) : Option ℕ :=
  ((unitChar u).bind hexValue).filter (· < radix)

/-- `parseInt(text)` -/
def parseInt (text : JsString) : JsNumber :=
  let s := text.dropWhile fun u => (unitChar u).any isJsSpace
  let negative := s.head? = some (codeUnit '-')
  let s := if s.head? = some (codeUnit '-') ∨ s.head? = some (codeUnit '+') then s.tail else s
  let hex := s.take 2 = [codeUnit '0', codeUnit 'x'] ∨ s.take 2 = [codeUnit '0', codeUnit 'X']
  let radix := if hex then 16 else 10
  let s := if hex then s.drop 2 else s
  let digits := (s.takeWhile fun u => (digitValue radix u).isSome).filterMap (digitValue radix)
  if digits = [] then .nan
  else .ofNat negative (digits.foldl (fun n d => radix * n + d) 0)

/-! ## Node ids -/

/-- The keys of identifiers. -/
inductive IdentifierType
  | i | s | g | b
  deriving DecidableEq

def IdentifierType.key : IdentifierType → JsString
  | .i => [codeUnit 'i']
  | .s => [codeUnit 's']
  | .g => [codeUnit 'g']
  | .b => [codeUnit 'b']

/-- The value of `identifier`. -/
inductive NodeIdentifier
  | undefined
  | number (n : JsNumber)
  | text (s : JsString)
  deriving DecidableEq

structure NodeId where
  namespaceIndex : JsNumber
  identifierType : IdentifierType
  identifier : NodeIdentifier
  deriving DecidableEq

/-- The body of the loop of `parseNodeId`.  There is no value without a `=`,
    and it is not a number then. -/
def parseNodeIdPart (result : NodeId) (part : JsString) : NodeId :=
  let fields := part.splitOn (codeUnit '=')
  let key := fields.headD []
  let value := fields[1]?
  if key = [codeUnit 'n', codeUnit 's'] then
    { result with namespaceIndex := value.elim .nan parseInt }
  else match [IdentifierType.i, .s, .g, .b].find? (·.key = key) with
    | some t =>
      { result with
        identifierType := t
        identifier :=
          if t = .i then .number (value.elim .nan parseInt) else value.elim .undefined .text }
    | none => result

/-- `parseNodeId` -/
def parseNodeId (nodeIdStr : JsString) : NodeId :=
  (nodeIdStr.splitOn (codeUnit ';')).foldl parseNodeIdPart ⟨.whole false 0, .s, .text []⟩

/-- The decimal digits of a number. -/
def decimalText (n : ℕ) : JsString := (Nat.toDigits 10 n).map codeUnit

/-- `ns=<n>;<t>=<id>` -/
def nodeIdText (n : ℕ) (t : IdentifierType) (id : JsString) : JsString :=
  [codeUnit 'n', codeUnit 's', codeUnit '='] ++ decimalText n ++
    codeUnit ';' :: (t.key ++ codeUnit '=' :: id)

/-! ## Numbers -/

theorem jsNumber_ofNat_eq_whole_iff (n : ℕ) :
    JsNumber.ofNat false n = .whole false n ↔ IsFloat 53 n ∧ n < 2 ^ 1024 := by
  have hround : roundFloatNat 53 n = n ↔ IsFloat 53 n := by
    rw [← roundFloat_eq_self_iff (by decide), roundFloat, if_neg (by omega), Int.natAbs_natCast,
      Nat.cast_inj]
  constructor
  · intro h
    simp only [JsNumber.ofNat] at h
    split_ifs at h with hlt
    have hself := (JsNumber.whole.inj h).2
    exact ⟨hround.1 hself, hself ▸ hlt⟩
  · rintro ⟨hfloat, hlt⟩
    simp only [JsNumber.ofNat, hround.2 hfloat, if_pos hlt]

/-- A decimal digit. -/
def IsDigitUnit (u : BitVec 16) : Prop := 48 ≤ u.toNat ∧ u.toNat ≤ 57

section
variable {u : BitVec 16}

theorem IsDigitUnit.ne_codeUnit (h : IsDigitUnit u) {c : Char}
    (hc : c.toNat < 48 ∨ 57 < c.toNat ∧ c.toNat < 2 ^ 16) : u ≠ codeUnit c := by
  rintro rfl
  unfold IsDigitUnit codeUnit at h
  rw [BitVec.toNat_ofNat, Nat.mod_eq_of_lt (by omega)] at h
  omega

theorem IsDigitUnit.unitChar (h : IsDigitUnit u) :
    ∃ c : Char, Gracemont.unitChar u = some c ∧ c.toNat = u.toNat := by
  have hvalid : u.toNat.isValidChar := Or.inl (by have := h.2; omega)
  exact ⟨Char.ofNat u.toNat, if_pos hvalid, by rw [Char.ofNat, dif_pos hvalid]; rfl⟩

theorem IsDigitUnit.not_space (h : IsDigitUnit u) :
    (Gracemont.unitChar u).any isJsSpace = false := by
  obtain ⟨c, hc, hval⟩ := h.unitChar
  have hrange : 48 ≤ c.toNat ∧ c.toNat ≤ 57 := hval ▸ h
  rw [hc, Option.any_some, isJsSpace, decide_eq_false_iff_not]
  simp only [List.mem_cons, List.not_mem_nil, or_false]
  omega

theorem IsDigitUnit.digitValue (h : IsDigitUnit u) :
    Gracemont.digitValue 10 u = some (u.toNat - 48) := by
  obtain ⟨c, hc, hval⟩ := h.unitChar
  have hrange : 48 ≤ c.toNat ∧ c.toNat ≤ 57 := hval ▸ h
  have hdigit : decide (u.toNat - 48 < 10) = true := decide_eq_true (by have := h.2; omega)
  rw [Gracemont.digitValue, hc, Option.bind_some, hexValue, if_pos hrange, hval, Option.filter,
    hdigit]
  rfl

end

/-- Digits are read as the number that they make. -/
theorem parseInt_digits {text : JsString} (hne : text ≠ []) (h : ∀ u ∈ text, IsDigitUnit u) :
    parseInt text = .ofNat false (text.foldl (fun n u => 10 * n + (u.toNat - 48)) 0) := by
  obtain ⟨u, rest, rfl⟩ := List.exists_cons_of_ne_nil hne
  have hu := h u (List.mem_cons_self ..)
  have hspace : (u :: rest).dropWhile (fun u => (unitChar u).any isJsSpace) = u :: rest :=
    List.dropWhile_cons_of_neg (by simp [hu.not_space])
  have hminus : u ≠ codeUnit '-' := hu.ne_codeUnit (by decide)
  have hplus : u ≠ codeUnit '+' := hu.ne_codeUnit (by decide)
  have hhex : ∀ x : BitVec 16, (x = codeUnit 'x' ∨ x = codeUnit 'X') →
      (u :: rest).take 2 ≠ [codeUnit '0', x] := by
    intro x hx heq
    have hmem : x ∈ (u :: rest).take 2 := heq ▸ List.mem_cons_of_mem _ (List.mem_cons_self ..)
    have hdigit := h x (List.mem_of_mem_take hmem)
    rcases hx with rfl | rfl
    · exact hdigit.ne_codeUnit (by decide) rfl
    · exact hdigit.ne_codeUnit (by decide) rfl
  have hvalue : ∀ w ∈ u :: rest, digitValue 10 w = some (w.toNat - 48) :=
    fun w hw => (h w hw).digitValue
  have hall : (u :: rest).takeWhile (fun u => (digitValue 10 u).isSome) = u :: rest :=
    List.takeWhile_eq_self_iff.2 fun w hw => by rw [hvalue w hw]; rfl
  have hdigits : (u :: rest).filterMap (digitValue 10) = (u :: rest).map (·.toNat - 48) :=
    List.filterMap_eq_map_iff_forall_eq_some.2 hvalue
  simp only [parseInt, hspace, List.head?_cons, Option.some.injEq, hminus, hplus, or_self,
    if_false, hhex _ (Or.inl rfl), hhex _ (Or.inr rfl), hall, hdigits, decide_false]
  rw [if_neg (by simp), List.foldl_map]

theorem codeUnit_toNat {c : Char} (h : c.isDigit) : (codeUnit c).toNat = c.toNat := by
  have hrange : 48 ≤ c.toNat ∧ c.toNat ≤ 57 := Char.isDigit_iff_toNat.1 h
  rw [codeUnit, BitVec.toNat_ofNat, Nat.mod_eq_of_lt (by omega)]

theorem isDigit_decimal {n : ℕ} {c : Char} (h : c ∈ Nat.toDigits 10 n) : c.isDigit :=
  Nat.isDigit_of_mem_toDigits (by decide) (by decide) h

theorem decimalText_digits (n : ℕ) : ∀ u ∈ decimalText n, IsDigitUnit u := by
  intro u hu
  obtain ⟨c, hc, rfl⟩ := List.mem_map.1 hu
  rw [IsDigitUnit, codeUnit_toNat (isDigit_decimal hc)]
  exact Char.isDigit_iff_toNat.1 (isDigit_decimal hc)

/-- The separators are no digits. -/
theorem codeUnit_not_mem_decimalText {c : Char} (hc : 57 < c.toNat ∧ c.toNat < 2 ^ 16) (n : ℕ) :
    codeUnit c ∉ decimalText n :=
  fun h => (decimalText_digits n _ h).ne_codeUnit (Or.inr hc) rfl

theorem parseInt_decimal (n : ℕ) : parseInt (decimalText n) = .ofNat false n := by
  have hne : decimalText n ≠ [] := by
    rw [decimalText, Ne, List.map_eq_nil_iff]
    exact Nat.toDigits_ne_nil
  have hfold : (Nat.toDigits 10 n).foldl (fun m c => 10 * m + ((codeUnit c).toNat - 48)) 0 =
      Nat.ofDigitChars 10 (Nat.toDigits 10 n) 0 := by
    rw [Nat.ofDigitChars_eq_foldl]
    exact List.foldl_ext _ _ _ fun m c hc => by rw [codeUnit_toNat (isDigit_decimal hc)]; rfl
  rw [parseInt_digits hne (decimalText_digits n), decimalText, List.foldl_map, hfold,
    Nat.ofDigitChars_ten_toDigits]

/-! ## Fields -/

/-- The fields of a text are pieces of it without the separator. -/
theorem mem_splitOn {a u : BitVec 16} {text field : JsString} (h : field ∈ text.splitOn a)
    (hu : u ∈ field) : u ≠ a ∧ u ∈ text := by
  induction text generalizing field with
  | nil =>
    rw [List.splitOn_nil, List.mem_singleton] at h
    subst h
    cases hu
  | cons b text ih =>
    rw [List.splitOn_cons_eq_if_modifyHead] at h
    obtain ⟨first, rest, hsplit⟩ := List.exists_cons_of_ne_nil (List.splitOn_ne_nil a text)
    rw [hsplit] at h ih
    split_ifs at h with hb
    · rcases List.mem_cons.1 h with rfl | h
      · cases hu
      · exact (ih h hu).imp_right (List.mem_cons_of_mem _)
    · rcases List.mem_cons.1 h with rfl | h
      · rcases List.mem_cons.1 hu with rfl | hu
        · exact ⟨fun hab => hb (beq_iff_eq.2 hab), List.mem_cons_self ..⟩
        · exact (ih (List.mem_cons_self ..) hu).imp_right (List.mem_cons_of_mem _)
      · exact (ih (List.mem_cons_of_mem _ h) hu).imp_right (List.mem_cons_of_mem _)

/-- Two fields, neither of which has a separator. -/
theorem splitOn_pair {a : BitVec 16} {key value : JsString} (hk : a ∉ key) (hv : a ∉ value) :
    (key ++ a :: value).splitOn a = [key, value] := by
  rw [List.splitOn_append_cons_self_of_not_mem hk, List.splitOn_eq_singleton hv]

/-- What has been read of an identifier has no separator. -/
def NodeId.Plain (result : NodeId) : Prop :=
  ∀ s, result.identifier = .text s → codeUnit '=' ∉ s ∧ codeUnit ';' ∉ s

theorem NodeId.Plain.part {result : NodeId} (h : result.Plain) {part : JsString}
    (hp : codeUnit ';' ∉ part) : (parseNodeIdPart result part).Plain := by
  unfold parseNodeIdPart
  dsimp only
  split_ifs
  · exact h
  · split
    · intro s hs
      dsimp only at hs
      split_ifs at hs
      cases hvalue : (part.splitOn (codeUnit '='))[1]? with
      | none => rw [hvalue] at hs; cases hs
      | some value =>
        rw [hvalue] at hs
        cases hs
        have hfield := List.mem_of_getElem? hvalue
        exact ⟨fun hmem => (mem_splitOn hfield hmem).1 rfl,
          fun hmem => hp (mem_splitOn hfield hmem).2⟩
    · exact h

/-- No identifier that is read has a separator in it. -/
theorem parseNodeId_plain (nodeIdStr : JsString) : (parseNodeId nodeIdStr).Plain := by
  have hloop : ∀ (parts : List JsString) (result : NodeId), result.Plain →
      (∀ part ∈ parts, codeUnit ';' ∉ part) →
        (parts.foldl parseNodeIdPart result).Plain := by
    intro parts
    induction parts with
    | nil => exact fun result h _ => h
    | cons part parts ih =>
      exact fun result h hp => ih _ (h.part (hp part (List.mem_cons_self ..)))
        fun q hq => hp q (List.mem_cons_of_mem _ hq)
  refine hloop _ _ (fun s hs => ?_) fun part hpart hmem => (mem_splitOn hpart hmem).1 rfl
  cases hs
  exact ⟨List.not_mem_nil, List.not_mem_nil⟩

/-! ## The text of a node id -/

theorem parseNodeIdPart_ns (result : NodeId) (n : ℕ) :
    parseNodeIdPart result ([codeUnit 'n', codeUnit 's'] ++ codeUnit '=' :: decimalText n) =
      { result with namespaceIndex := .ofNat false n } := by
  have hvalue : codeUnit '=' ∉ decimalText n := codeUnit_not_mem_decimalText (by decide) n
  rw [parseNodeIdPart, splitOn_pair (by decide) hvalue]
  exact congrArg (fun v => { result with namespaceIndex := v }) (parseInt_decimal n)

theorem parseNodeIdPart_key (result : NodeId) {t : IdentifierType} (ht : t ≠ .i) {id : JsString}
    (hid : codeUnit '=' ∉ id) :
    parseNodeIdPart result (t.key ++ codeUnit '=' :: id) =
      { result with identifierType := t, identifier := .text id } := by
  have hkey : codeUnit '=' ∉ t.key := by cases t <;> decide
  rw [parseNodeIdPart, splitOn_pair hkey hid]
  cases t with
  | i => exact absurd rfl ht
  | s => rfl
  | g => rfl
  | b => rfl

/-- Exactly the identifiers without a separator come back, in the namespaces
    whose index is a double. -/
theorem parseNodeId_text_iff (n : ℕ) (t : IdentifierType) (ht : t ≠ .i) (id : JsString) :
    parseNodeId (nodeIdText n t id) = ⟨.whole false n, t, .text id⟩ ↔
      (codeUnit '=' ∉ id ∧ codeUnit ';' ∉ id) ∧ IsFloat 53 n ∧ n < 2 ^ 1024 := by
  have hread : codeUnit '=' ∉ id → codeUnit ';' ∉ id →
      parseNodeId (nodeIdText n t id) = ⟨.ofNat false n, t, .text id⟩ := by
    intro heq hsemi
    have hns : codeUnit ';' ∉ [codeUnit 'n', codeUnit 's', codeUnit '='] ++ decimalText n := by
      rw [List.mem_append, not_or]
      exact ⟨by decide, codeUnit_not_mem_decimalText (by decide) n⟩
    have hkey : codeUnit ';' ∉ t.key ++ codeUnit '=' :: id := by
      rw [List.mem_append, List.mem_cons, not_or, not_or]
      exact ⟨by cases t <;> decide, by decide, hsemi⟩
    rw [parseNodeId, nodeIdText, splitOn_pair hns hkey, List.foldl_cons, List.foldl_cons,
      List.foldl_nil, parseNodeIdPart_key _ ht heq]
    rw [show [codeUnit 'n', codeUnit 's', codeUnit '='] ++ decimalText n =
      [codeUnit 'n', codeUnit 's'] ++ codeUnit '=' :: decimalText n from rfl, parseNodeIdPart_ns]
  constructor
  · intro h
    obtain ⟨heq, hsemi⟩ := parseNodeId_plain (nodeIdText n t id) id (by rw [h])
    rw [hread heq hsemi] at h
    exact ⟨⟨heq, hsemi⟩, (jsNumber_ofNat_eq_whole_iff n).1 (NodeId.mk.inj h).1⟩
  · rintro ⟨⟨heq, hsemi⟩, hn⟩
    rw [hread heq hsemi, (jsNumber_ofNat_eq_whole_iff n).2 hn]

theorem parseNodeId_text_iff_temp :
    parseNodeId (nodeIdText 2 .s (['T', 'e', 'm', 'p'].map codeUnit)) =
      ⟨.whole false 2, .s, .text (['T', 'e', 'm', 'p'].map codeUnit)⟩ :=
  (parseNodeId_text_iff 2 .s (by decide) _).2
    ⟨⟨by decide, by decide⟩, isFloat_of_abs_le (by decide) (by decide), by decide +kernel⟩

/-- The padding of `ns=2;b=AQI=` gets lost. -/
theorem parseNodeId_drops_padding :
    let nodeId := parseNodeId (nodeIdText 2 .b (['A', 'Q', 'I', '='].map codeUnit))
    nodeId.identifier = .text (['A', 'Q', 'I'].map codeUnit) ∧
      nodeId ≠ ⟨.whole false 2, .b, .text (['A', 'Q', 'I', '='].map codeUnit)⟩ := by
  decide +kernel

end Gracemont
