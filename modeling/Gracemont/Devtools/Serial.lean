/-
  Gracemont developer tools — byte stuffing
  (`devtools/shared/src/utils/serial.js`).

  * `escapeData`, `unescapeData`: the two directions, the first one with any
    map of escapes;
  * `serialStuffing`: the stuffing of the default map;
  * `escapeData_default`, `unescapeData_returns`: the functions of the source
    do it;
  * `escapeData_roundTrip`: so that data come back, and no flag is sent.
-/
import Mathlib.Data.Int.Notation
import Gracemont.Lib.Loop
import Gracemont.Lib.Stuffing

namespace Gracemont

open Lib

/-! ## The functions -/

/-- The default `escapeMap`. -/
def defaultEscapeMap (byte : BitVec 8) : Option (List ℤ) :=
  if byte = 0x7E then some [0x7D, 0x5E] else if byte = 0x7D then some [0x7D, 0x5D] else none

/-- The body of the loop of `escapeData`. -/
def escapeStep (escapeMap : BitVec 8 → Option (List ℤ)) (result : List ℤ) (byte : BitVec 8) :
    List ℤ :=
  match escapeMap byte with
  | some escaped => result ++ escaped
  | none => result ++ [(byte.toNat : ℤ)]

/-- `escapeData`.  The numbers of a map become bytes modulo 256. -/
def escapeData (data : List (BitVec 8)) (escapeMap : BitVec 8 → Option (List ℤ)) :
    List (BitVec 8) :=
  (data.foldl (escapeStep escapeMap) []).map (BitVec.ofInt 8)

/-- The body of the loop of `unescapeData`, over `i` and `result`. -/
def unescapeStep (data : List (BitVec 8)) (s : ℕ × List (BitVec 8)) :
    (ℕ × List (BitVec 8)) ⊕ List (BitVec 8) :=
  if s.1 < data.length then
    if data.getD s.1 0 = 0x7D ∧ s.1 + 1 < data.length then
      .inl (s.1 + 2, s.2 ++ [data.getD (s.1 + 1) 0 ^^^ 0x20])
    else .inl (s.1 + 1, s.2 ++ [data.getD s.1 0])
  else .inr s.2

/-- `unescapeData` -/
def unescapeData (fuel : ℕ) (data : List (BitVec 8)) : Option (List (BitVec 8)) :=
  Loop.run (unescapeStep data) fuel (0, [])

/-! ## The stuffing -/

/-- Flag and escape are sent with one bit the other way, after an escape. -/
def serialStuffing : Stuffing (BitVec 8) where
  esc := 0x7D
  special b := b = 0x7E ∨ b = 0x7D
  mask b := b ^^^ 0x20
  special_esc := Or.inr rfl
  mask_mask b _ := by rw [BitVec.xor_assoc, BitVec.xor_self, BitVec.xor_zero]
  mask_plain b h := by
    rcases h with rfl | rfl
    · decide
    · decide

instance : DecidablePred serialStuffing.special :=
  fun b => inferInstanceAs (Decidable (b = 0x7E ∨ b = 0x7D))

/-- The map has the codes of the special bytes. -/
theorem escapeStep_default (result : List ℤ) (byte : BitVec 8) :
    (escapeStep defaultEscapeMap result byte).map (BitVec.ofInt 8) =
      result.map (BitVec.ofInt 8) ++ serialStuffing.stuffOne byte := by
  have hbyte : BitVec.ofInt 8 (byte.toNat : ℤ) = byte := by
    rw [BitVec.ofInt_natCast, BitVec.ofNat_toNat, BitVec.setWidth_eq]
  unfold escapeStep defaultEscapeMap Stuffing.stuffOne
  by_cases hflag : byte = 0x7E
  · subst hflag
    exact List.map_append
  · by_cases hesc : byte = 0x7D
    · subst hesc
      exact List.map_append
    · have hplain : ¬serialStuffing.special byte := not_or.2 ⟨hflag, hesc⟩
      rw [if_neg hflag, if_neg hesc, if_neg hplain]
      exact List.map_append.trans (congrArg (result.map _ ++ [·]) hbyte)

theorem escapeData_default (data : List (BitVec 8)) :
    escapeData data defaultEscapeMap = serialStuffing.stuff data := by
  have hloop : ∀ result : List ℤ,
      (data.foldl (escapeStep defaultEscapeMap) result).map (BitVec.ofInt 8) =
        result.map (BitVec.ofInt 8) ++ serialStuffing.stuff data := by
    induction data with
    | nil => exact fun result => (List.append_nil _).symm
    | cons byte data ih =>
      intro result
      rw [List.foldl_cons, ih, escapeStep_default, Stuffing.stuff_cons, List.append_assoc]
  exact hloop []

/-- The loop from `i` on appends what is received from there. -/
theorem unescapeStep_returns (data : List (BitVec 8)) (i : ℕ) (result : List (BitVec 8)) :
    Loop.Returns (unescapeStep data) (i, result)
      (result ++ serialStuffing.unstuff (data.drop i)) := by
  induction hn : data.length - i using Nat.strongRecOn generalizing i result with
  | ind n ih =>
    subst hn
    by_cases hi : i < data.length
    · have hget : data.getD i 0 = data[i] := by simp [hi]
      have hdrop := List.drop_eq_getElem_cons hi
      by_cases htwo : data[i] = 0x7D ∧ i + 1 < data.length
      · -- an escape with a byte after it
        obtain ⟨hesc, hnext⟩ := htwo
        have hget' : data.getD (i + 1) 0 = data[i + 1] := by simp [hnext]
        have hstep : unescapeStep data (i, result) =
            .inl (i + 2, result ++ [data[i + 1] ^^^ 0x20]) := by
          rw [unescapeStep, if_pos hi, hget, if_pos ⟨hesc, hnext⟩, hget']
        have hcons : serialStuffing.unstuff (data.drop i) =
            (data[i + 1] ^^^ 0x20) :: serialStuffing.unstuff (data.drop (i + 2)) := by
          rw [hdrop, hesc, List.drop_eq_getElem_cons hnext]
          exact Stuffing.unstuff_esc ..
        have hrest := ih (data.length - (i + 2)) (by omega) (i + 2)
          (result ++ [data[i + 1] ^^^ 0x20]) rfl
        rw [hcons, List.append_cons]
        exact .of_inl hstep hrest
      · have hstep : unescapeStep data (i, result) = .inl (i + 1, result ++ [data[i]]) := by
          rw [unescapeStep, if_pos hi, hget, if_neg htwo]
        have hcons : serialStuffing.unstuff (data.drop i) =
            data[i] :: serialStuffing.unstuff (data.drop (i + 1)) := by
          rw [hdrop]
          by_cases hesc : data[i] = 0x7D
          · -- an escape at the end
            have hend : data.drop (i + 1) = [] :=
              List.drop_eq_nil_of_le (by have := not_and.1 htwo hesc; omega)
            rw [hend]
            rfl
          · exact Stuffing.unstuff_plain hesc _
        have hrest := ih (data.length - (i + 1)) (by omega) (i + 1) (result ++ [data[i]]) rfl
        rw [hcons, List.append_cons]
        exact .of_inl hstep hrest
    · have hend : data.drop i = [] := List.drop_eq_nil_of_le (by omega)
      rw [hend, Stuffing.unstuff, List.append_nil]
      exact .of_inr (by rw [unescapeStep, if_neg hi])

/-- `unescapeData` receives every array. -/
theorem unescapeData_returns (data : List (BitVec 8)) :
    Loop.Returns (unescapeStep data) (0, []) (serialStuffing.unstuff data) :=
  unescapeStep_returns data 0 []

/-- Data come back, and nothing else does; no flag is sent within them, and
    pieces may be escaped one by one. -/
theorem escapeData_roundTrip (d d' : List (BitVec 8)) :
    (∃ fuel, unescapeData fuel (escapeData d defaultEscapeMap) = some d) ∧
      (∀ fuel result, unescapeData fuel (escapeData d defaultEscapeMap) = some result →
        result = d) ∧
      0x7E ∉ escapeData d defaultEscapeMap ∧
      escapeData (d ++ d') defaultEscapeMap =
        escapeData d defaultEscapeMap ++ escapeData d' defaultEscapeMap := by
  have hback := unescapeData_returns (serialStuffing.stuff d)
  rw [Stuffing.unstuff_stuff] at hback
  simp only [escapeData_default]
  exact ⟨hback, fun _ _ h => hback.eq_of_run h,
    Stuffing.not_mem_stuff (Or.inl rfl) (by decide) d, Stuffing.stuff_append d d'⟩

end Gracemont
