/-
  Gracemont developer tools — the segments of an Intel HEX file
  (`parseHEX` of `devtools/flasher/src/utils/firmware-parser.js`).

  The parser computes `extended << 16` in 32 bits with a sign, does not wrap
  offsets around in a segment, and keeps one record for each address, also
  where that record has no data.

  * `SoundSegments`: the segments are those of the memory that the file defines;
  * `PlainData`: none of this matters for the file;
  * `hex_segments_iff`: the files whose segments are sound.
-/
import Gracemont.Devtools.HexFile

namespace Gracemont

open Lib

/-! ## Statement -/

/-- A segment has `b` at the address `a`. -/
def HexSegment.Holds (s : HexSegment) (a : ℤ) (b : BitVec 8) : Prop :=
  ∃ i : ℕ, s.data[i]? = some b ∧ s.address + i = a

namespace PlacedData

/-- A record defines `b` at the address `a`. -/
def Holds (p : PlacedData) (a : ℤ) (b : BitVec 8) : Prop :=
  ∃ i : ℕ, p.bytes[i]? = some b ∧ (p.place i : ℤ) = a

/-- The two records define no common address. -/
def Disjoint (p q : PlacedData) : Prop :=
  ∀ i < p.bytes.length, ∀ j < q.bytes.length, p.place i ≠ q.place j

/-- The address of the record. -/
def address (p : PlacedData) : ℕ := p.place 0

/-- The record is in the upper half of the linear address space. -/
def High (p : PlacedData) : Prop := ∃ upper, p.base = .linear upper ∧ 0x8000 ≤ upper.toNat

/-- The record goes beyond the end of its segment. -/
def Wraps (p : PlacedData) : Prop :=
  ∃ s, p.base = .segment s ∧ 2 ^ 16 < p.offset.toNat + p.bytes.length

/-- A record without data, `q`, is not in the way of `p` before it, nor `p` of `q`. -/
def Clear (p q : PlacedData) : Prop :=
  (q.bytes = [] → ¬ q.High →
    ¬ (p.address ≤ q.address ∧ q.address < p.address + p.bytes.length)) ∧
  (p.bytes = [] → ¬ p.High →
    ¬ (q.address < p.address ∧ p.address < q.address + q.bytes.length))

end PlacedData

/-- **Sound segments** are in order with gaps between them, have their sizes, and hold
    what the records define. -/
structure SoundSegments (segments : List HexSegment) (l : List PlacedData) : Prop where
  apart : segments.Pairwise fun s t => s.address + (s.size : ℤ) < t.address
  size : ∀ s ∈ segments, s.size = s.data.length
  bytes : ∀ a b, (∃ s ∈ segments, s.Holds a b) ↔ ∃ p ∈ l, p.Holds a b

/-- **Plain data**: records with data are not in the upper half and do not wrap around,
    and records without data are not strictly inside others, and not behind one at
    the same address. -/
structure PlainData (l : List PlacedData) : Prop where
  plain : ∀ p ∈ l, p.bytes ≠ [] → ¬ p.High ∧ ¬ p.Wraps
  clear : l.Pairwise PlacedData.Clear

/-! ## Addresses -/

namespace PlacedData
variable {p q : PlacedData}

/-- The extent of what the parser assigns. -/
def extent (p : PlacedData) : Extent (BitVec 8) := ⟨p.fullAddr, p.bytes⟩

theorem bytes_length_pos (h : p.bytes ≠ []) : 0 < p.bytes.length := List.length_pos_iff.2 h

theorem place_lt (p : PlacedData) (i : ℕ) : p.place i < 2 ^ 32 := by
  obtain ⟨base, offset, bytes, count⟩ := p
  cases base with
  | segment s =>
    have hs := s.isLt
    simp only [place]
    omega
  | linear upper =>
    simp only [place]
    omega

/-- A number of 16 bits, shifted left by 16. -/
theorem jsShl16_eq (v : BitVec 16) : jsShl16 (some v.toNat) =
    if v.toNat < 0x8000 then 2 ^ 16 * (v.toNat : ℤ) else 2 ^ 16 * (v.toNat : ℤ) - 2 ^ 32 := by
  have hv := v.isLt
  rw [jsShl16, Option.getD_some, Int.bmod_def]
  split_ifs <;> omega

/-- Outside the upper half, the parser's address is the record's. -/
theorem fullAddr_eq (h : ¬ p.High) : p.fullAddr = p.address := by
  obtain ⟨base, offset, bytes, count⟩ := p
  have hoffset := offset.isLt
  cases base with
  | segment s =>
    simp only [fullAddr, HexBase.extendedAddr, address, place]
    omega
  | linear upper =>
    have hupper : upper.toNat < 0x8000 := Nat.lt_of_not_le fun hle => h ⟨upper, rfl, hle⟩
    simp only [fullAddr, HexBase.extendedAddr, address, place, jsShl16_eq, if_pos hupper]
    omega

/-- In the upper half, it is negative. -/
theorem fullAddr_high (h : p.High) :
    p.fullAddr = (p.address : ℤ) - 2 ^ 32 ∧ 2 ^ 31 ≤ p.address := by
  obtain ⟨base, offset, bytes, count⟩ := p
  obtain ⟨upper, rfl, hupper⟩ := h
  have hoffset := offset.isLt
  have hlt := upper.isLt
  simp only [fullAddr, HexBase.extendedAddr, address, place, jsShl16_eq,
    if_neg (Nat.not_lt.2 hupper)]
  omega

theorem fullAddr_neg (h : p.High) : p.fullAddr < 0 := by
  have hlt := p.place_lt 0
  have haddr := (fullAddr_high h).1
  unfold address at haddr
  omega

/-- The bytes are at consecutive addresses up to the end of the segment. -/
theorem place_eq (h : ¬ p.High) {i : ℕ} (hi : i < p.bytes.length)
    (hwrap : ∀ s, p.base = .segment s → p.offset.toNat + i < 2 ^ 16) :
    p.place i = p.address + i := by
  obtain ⟨base, offset, bytes, count⟩ := p
  have hoffset := offset.isLt
  simp only at hi
  cases base with
  | segment s =>
    have hlt : offset.toNat + i < 2 ^ 16 := hwrap s rfl
    simp only [address, place]
    omega
  | linear upper =>
    have hupper : upper.toNat < 0x8000 := Nat.lt_of_not_le fun hle => h ⟨upper, rfl, hle⟩
    simp only [address, place]
    omega

theorem place_eq_of_plain (h : ¬ p.High ∧ ¬ p.Wraps) {i : ℕ} (hi : i < p.bytes.length) :
    p.place i = p.address + i := by
  refine place_eq h.1 hi fun s hs => ?_
  have hle : ¬ 2 ^ 16 < p.offset.toNat + p.bytes.length := fun hlt => h.2 ⟨s, hs, hlt⟩
  omega

theorem address_lt (p : PlacedData) {s : BitVec 16} (hs : p.base = .segment s) :
    p.address < 2 ^ 20 + 2 ^ 16 := by
  obtain ⟨base, offset, bytes, count⟩ := p
  obtain rfl : base = .segment s := hs
  have hlt := s.isLt
  simp only [address, place]
  omega

/-- Behind the end of the segment, a byte is below its place in a row. -/
theorem place_wrap (p : PlacedData) {s : BitVec 16} (hs : p.base = .segment s) {i : ℕ}
    (hle : 2 ^ 16 ≤ p.offset.toNat + i) (hi : i < p.bytes.length) :
    p.place i + 2 ^ 16 = p.address + i := by
  obtain ⟨base, offset, bytes, count⟩ := p
  obtain rfl : base = .segment s := hs
  have hoffset := offset.isLt
  simp only at hle hi
  simp only [address, place]
  omega

theorem holds_place {i : ℕ} (h : i < p.bytes.length) : p.Holds (p.place i) p.bytes[i] :=
  ⟨i, List.getElem?_eq_getElem h, rfl⟩

end PlacedData

/-! ## What is assigned -/

/-- The extents that the parser joins. -/
def parsed (l : List PlacedData) : List (Extent (BitVec 8)) := Extent.entries (assignAll ∅ l)

/-- They are those of the records that no later record with the same address replaces. -/
theorem mem_parsed {l : List PlacedData} {e : Extent (BitVec 8)} : e ∈ parsed l ↔
    ∃ (k : ℕ) (p : PlacedData), l[k]? = some p ∧ e = p.extent ∧
      ∀ j, k < j → ∀ q, l[j]? = some q → q.fullAddr ≠ p.fullAddr := by
  rw [parsed, Extent.mem_entries, assignAll, Assoc.lookup_foldl_insert, Assoc.latest_eq_some_iff]
  simp only [List.getElem?_map, Option.map_eq_some_iff]
  constructor
  · rintro ⟨k, ⟨p, hp, hassign⟩, hlast⟩
    obtain ⟨start, data⟩ := e
    cases hassign
    exact ⟨k, p, hp, rfl, fun j hj q hq => hlast j hj _ ⟨q, hq, rfl⟩⟩
  · rintro ⟨k, p, hp, rfl, hlast⟩
    refine ⟨k, ⟨p, hp, rfl⟩, ?_⟩
    rintro j hj _ ⟨q, hq, rfl⟩
    exact hlast j hj q hq

/-- Each record's address has an extent. -/
theorem exists_parsed {l : List PlacedData} {p : PlacedData} {k : ℕ} (hp : l[k]? = some p) :
    ∃ (j : ℕ) (q : PlacedData), k ≤ j ∧ l[j]? = some q ∧ q.fullAddr = p.fullAddr ∧
      q.extent ∈ parsed l := by
  have hsome : Assoc.latest (l.map PlacedData.assign) p.fullAddr ≠ none := by
    rw [Ne, Assoc.latest_eq_none, not_not, Assoc.keys, List.map_map]
    exact List.mem_map.2 ⟨p, List.mem_of_getElem? hp, rfl⟩
  obtain ⟨v, hv⟩ := Option.ne_none_iff_exists'.1 hsome
  obtain ⟨j, hj, hlast⟩ := Assoc.latest_eq_some_iff.1 hv
  rw [List.getElem?_map, Option.map_eq_some_iff] at hj
  obtain ⟨q, hq, hassign⟩ := hj
  have haddr : q.fullAddr = p.fullAddr := congrArg Prod.fst hassign
  have hlast' : ∀ i, j < i → ∀ r, l[i]? = some r → r.fullAddr ≠ p.fullAddr := by
    intro i hi r hr
    exact hlast i hi r.assign (by rw [List.getElem?_map, hr]; rfl)
  refine ⟨j, q, Nat.le_of_not_lt fun hlt => hlast' k hlt p hp rfl, hq, haddr, ?_⟩
  exact mem_parsed.2 ⟨j, q, hq, rfl, by rwa [haddr]⟩

/-- The segments are sound if the extents do not overlap and hold what the records
    define. -/
theorem sound_iff {l : List PlacedData} : SoundSegments (mergeSegments (assignAll ∅ l)) l ↔
    (parsed l).Pairwise Extent.Before ∧
      ∀ a b, (∃ e ∈ parsed l, e.Holds a b) ↔ ∃ p ∈ l, p.Holds a b := by
  rw [mergeSegments_eq, ← Extent.coalesce_apart_iff]
  have hholds : ∀ a b, (∃ s ∈ (Extent.coalesce (Extent.entries (assignAll ∅ l))).map segmentOf,
      s.Holds a b) ↔ ∃ e ∈ parsed l, e.Holds a b := by
    intro a b
    rw [parsed, ← Extent.coalesce_holds]
    constructor
    · rintro ⟨s, hs, hb⟩
      obtain ⟨e, he, rfl⟩ := List.mem_map.1 hs
      exact ⟨e, he, hb⟩
    · rintro ⟨e, he, hb⟩
      exact ⟨segmentOf e, List.mem_map_of_mem he, hb⟩
  constructor
  · intro h
    exact ⟨(List.pairwise_map (f := segmentOf)).1 h.apart,
      fun a b => (hholds a b).symm.trans (h.bytes a b)⟩
  · rintro ⟨hapart, hbytes⟩
    refine ⟨(List.pairwise_map (f := segmentOf)).2 hapart, fun s hs => ?_,
      fun a b => (hholds a b).trans (hbytes a b)⟩
    obtain ⟨e, -, rfl⟩ := List.mem_map.1 hs
    rfl

section
variable {l : List PlacedData} (hdis : l.Pairwise PlacedData.Disjoint) {p q : PlacedData}
include hdis

/-- Only one record defines an address. -/
theorem eq_of_place (hp : p ∈ l) (hq : q ∈ l) {i j : ℕ} (hi : i < p.bytes.length)
    (hj : j < q.bytes.length) (h : p.place i = q.place j) : p = q := by
  by_contra hne
  rcases pairwise_either hdis hp hq hne with hpq | hqp
  · exact hpq i hi j hj h
  · exact hqp j hj i hi h.symm

/-- Outside the upper half, only one record with data has an address. -/
theorem eq_of_fullAddr (hp : p ∈ l) (hq : q ∈ l) (hbytes : p.bytes ≠ []) (hbytes' : q.bytes ≠ [])
    (hlow : ¬ p.High) (h : p.fullAddr = q.fullAddr) : p = q := by
  have haddr := PlacedData.fullAddr_eq hlow
  have hlow' : ¬ q.High := fun hhigh => by
    have hneg := PlacedData.fullAddr_neg hhigh
    omega
  have haddr' := PlacedData.fullAddr_eq hlow'
  refine eq_of_place hdis hp hq (PlacedData.bytes_length_pos hbytes)
    (PlacedData.bytes_length_pos hbytes') (i := 0) (j := 0) ?_
  unfold PlacedData.address at haddr haddr'
  omega

/-! ## Plain data -/

/-- In plain data, no record with data is replaced. -/
theorem PlainData.parsed (hplain : PlainData l) (hp : p ∈ l) (hbytes : p.bytes ≠ []) :
    p.extent ∈ parsed l := by
  obtain ⟨k, hk, rfl⟩ := List.getElem_of_mem hp
  refine mem_parsed.2 ⟨k, _, List.getElem?_eq_getElem hk, rfl, fun j hkj q hq haddr => ?_⟩
  obtain ⟨hj, rfl⟩ := List.getElem?_eq_some_iff.1 hq
  have hlow := (hplain.plain _ hp hbytes).1
  have hpos := PlacedData.bytes_length_pos hbytes
  by_cases hbytes' : l[j].bytes = []
  · have hlow' : ¬ l[j].High := fun hhigh => by
      have hneg := PlacedData.fullAddr_neg hhigh
      have hpaddr := PlacedData.fullAddr_eq hlow
      omega
    have hpaddr := PlacedData.fullAddr_eq hlow
    have hqaddr := PlacedData.fullAddr_eq hlow'
    exact (List.pairwise_iff_getElem.1 hplain.clear k j hk hj hkj).1 hbytes' hlow' (by omega)
  · have heq := eq_of_fullAddr hdis hp (List.getElem_mem hj) hbytes hbytes' hlow haddr.symm
    have hdisjoint := List.pairwise_iff_getElem.1 hdis k j hk hj hkj
    rw [← heq] at hdisjoint
    exact hdisjoint 0 hpos 0 hpos rfl

/-- **Plain data has sound segments.** -/
theorem PlainData.sound (hplain : PlainData l) :
    SoundSegments (mergeSegments (assignAll ∅ l)) l := by
  rw [sound_iff]
  constructor
  · refine (Extent.entries_pairwise _).imp_of_mem ?_
    intro e f he hf hlt
    obtain ⟨i, p, hp, rfl, -⟩ := mem_parsed.1 he
    obtain ⟨j, q, hq, rfl, -⟩ := mem_parsed.1 hf
    have hpmem := List.mem_of_getElem? hp
    have hqmem := List.mem_of_getElem? hq
    have hlt : p.fullAddr < q.fullAddr := hlt
    have hne : p ≠ q := by
      rintro rfl
      omega
    change p.fullAddr + (p.bytes.length : ℤ) ≤ q.fullAddr
    by_cases hbytes : p.bytes = []
    · rw [hbytes]
      exact Int.le_of_lt (by simpa using hlt)
    · have hpplain := hplain.plain p hpmem hbytes
      have hpaddr := PlacedData.fullAddr_eq hpplain.1
      have hqlow : ¬ q.High := fun hhigh => by
        have hneg := PlacedData.fullAddr_neg hhigh
        omega
      have hqaddr := PlacedData.fullAddr_eq hqlow
      by_contra hover
      by_cases hbytes' : q.bytes = []
      · rcases pairwise_either hplain.clear hpmem hqmem hne with hclear | hclear
        · exact hclear.1 hbytes' hqlow (by omega)
        · exact hclear.2 hbytes' hqlow (by omega)
      · have hi : q.address - p.address < p.bytes.length := by omega
        have hplace := PlacedData.place_eq_of_plain hpplain hi
        refine hne (eq_of_place hdis hpmem hqmem hi (PlacedData.bytes_length_pos hbytes')
          (j := 0) ?_)
        rw [hplace]
        change _ = q.address
        omega
  · intro a b
    constructor
    · rintro ⟨e, he, i, hi, ha⟩
      obtain ⟨k, p, hp, rfl, -⟩ := mem_parsed.1 he
      obtain ⟨hlt, -⟩ := List.getElem?_eq_some_iff.1 hi
      have hlt : i < p.bytes.length := hlt
      have hpmem := List.mem_of_getElem? hp
      have hpplain := hplain.plain p hpmem (List.length_pos_iff.1 (by omega))
      refine ⟨p, hpmem, i, hi, ?_⟩
      rw [← ha, PlacedData.place_eq_of_plain hpplain hlt]
      change _ = p.fullAddr + (i : ℤ)
      rw [PlacedData.fullAddr_eq hpplain.1]
      omega
    · rintro ⟨p, hp, i, hi, ha⟩
      obtain ⟨hlt, -⟩ := List.getElem?_eq_some_iff.1 hi
      have hbytes : p.bytes ≠ [] := List.length_pos_iff.1 (by omega)
      have hpplain := hplain.plain p hp hbytes
      refine ⟨p.extent, hplain.parsed hdis hp hbytes, i, hi, ?_⟩
      rw [← ha, PlacedData.place_eq_of_plain hpplain hlt]
      change p.fullAddr + (i : ℤ) = _
      rw [PlacedData.fullAddr_eq hpplain.1]
      omega

/-! ## Sound segments -/

variable (hsound : SoundSegments (mergeSegments (assignAll ∅ l)) l)
include hsound

omit hdis in
/-- A record's first byte is in an extent. -/
theorem SoundSegments.first (hp : p ∈ l) (hbytes : p.bytes ≠ []) :
    ∃ r ∈ l, r.extent ∈ parsed l ∧
      ∃ i < r.bytes.length, r.fullAddr + (i : ℤ) = p.address := by
  have hholds := PlacedData.holds_place (PlacedData.bytes_length_pos hbytes)
  obtain ⟨e, he, i, hi, ha⟩ := ((sound_iff.1 hsound).2 _ _).2 ⟨p, hp, hholds⟩
  obtain ⟨k, r, hr, rfl, -⟩ := mem_parsed.1 he
  obtain ⟨hlt, -⟩ := List.getElem?_eq_some_iff.1 hi
  exact ⟨r, List.mem_of_getElem? hr, he, i, hlt, ha⟩

omit hdis in
/-- No record has its address strictly inside another's extent. -/
theorem SoundSegments.not_inside (hp : p.extent ∈ parsed l) (hq : q ∈ l)
    (h : p.fullAddr < q.fullAddr) : p.fullAddr + (p.bytes.length : ℤ) ≤ q.fullAddr := by
  by_contra hover
  obtain ⟨k, hk, rfl⟩ := List.getElem_of_mem hq
  obtain ⟨j, r, -, -, haddr, hr⟩ := exists_parsed (List.getElem?_eq_getElem hk)
  have hstart : r.extent.start = l[k].fullAddr := haddr
  have hinside := Extent.eq_of_inside (sound_iff.1 hsound).1 hp hr
    (by rw [hstart]; exact h) (by rw [hstart]; exact Int.lt_of_not_ge hover)
  rw [← hinside] at hstart
  exact absurd hstart (Int.ne_of_lt h)

theorem SoundSegments.not_high (hp : p ∈ l) (hbytes : p.bytes ≠ []) : ¬ p.High := by
  intro hhigh
  obtain ⟨r, hr, -, i, hi, ha⟩ := hsound.first hp hbytes
  have hcount := r.count
  have hpaddr := (PlacedData.fullAddr_high hhigh).2
  have hrlow : ¬ r.High := fun hrhigh => by
    have hrneg := PlacedData.fullAddr_neg hrhigh
    omega
  have hraddr := PlacedData.fullAddr_eq hrlow
  have hplace : r.place i = r.address + i := by
    refine PlacedData.place_eq hrlow hi fun s hs => ?_
    -- segments are in the lower half
    have hlow := r.address_lt hs
    omega
  have heq := eq_of_place hdis hr hp hi (PlacedData.bytes_length_pos hbytes) (j := 0) (by
    rw [hplace]
    change _ = p.address
    omega)
  exact hrlow (heq ▸ hhigh)

/-- No record with data is replaced. -/
theorem SoundSegments.parsed (hp : p ∈ l) (hbytes : p.bytes ≠ []) : p.extent ∈ parsed l := by
  have hlow := hsound.not_high hdis hp hbytes
  obtain ⟨k, hk, rfl⟩ := List.getElem_of_mem hp
  obtain ⟨j, q, -, hq, haddr, hqparsed⟩ := exists_parsed (List.getElem?_eq_getElem hk)
  by_cases hbytes' : q.bytes = []
  · exfalso
    obtain ⟨r, -, hr, i, hi, ha⟩ := hsound.first hp hbytes
    have hpaddr := PlacedData.fullAddr_eq hlow
    by_cases hstart : r.fullAddr = q.fullAddr
    · have heq : r.extent = q.extent := Extent.entries_unique hr hqparsed hstart
      have hlen : r.bytes = q.bytes := congrArg Extent.data heq
      rw [hlen, hbytes'] at hi
      exact Nat.not_lt_zero i hi
    · have hle := hsound.not_inside hr (List.mem_of_getElem? hq) (by omega)
      omega
  · have heq := eq_of_fullAddr hdis hp (List.mem_of_getElem? hq) hbytes hbytes' hlow haddr.symm
    rwa [heq]

/-- By induction from the end of the last segment down: the last byte of a record that
    wraps around would be at an address of a record that wraps around further up. -/
theorem SoundSegments.not_wraps (n : ℕ) (hp : p ∈ l)
    (hn : 2 ^ 21 ≤ p.address + p.bytes.length + n) : ¬ p.Wraps := by
  rintro ⟨s, hs, hwraps⟩
  induction n generalizing p s with
  | zero =>
    have hlt := p.address_lt hs
    have hcount := p.count
    omega
  | succ n ih =>
    have hoffset := p.offset.isLt
    have hbytes : p.bytes ≠ [] := List.length_pos_iff.1 (by omega)
    have hparsed := hsound.parsed hdis hp hbytes
    have hpaddr := PlacedData.fullAddr_eq (hsound.not_high hdis hp hbytes)
    have hlast : p.bytes.length - 1 < p.bytes.length := by omega
    have hholds : p.extent.Holds (p.fullAddr + (p.bytes.length - 1 : ℕ))
        p.bytes[p.bytes.length - 1] := ⟨_, List.getElem?_eq_getElem hlast, rfl⟩
    obtain ⟨r, hr, j, hj, ha⟩ := ((sound_iff.1 hsound).2 _ _).1 ⟨_, hparsed, hholds⟩
    obtain ⟨hjlt, -⟩ := List.getElem?_eq_some_iff.1 hj
    have hrbytes : r.bytes ≠ [] := List.length_pos_iff.1 (by omega)
    have hrlow := hsound.not_high hdis hr hrbytes
    have hraddr := PlacedData.fullAddr_eq hrlow
    by_cases hrwrap : ∀ s, r.base = .segment s → r.offset.toNat + j < 2 ^ 16
    · -- then `r` has the same extent, and is `p`
      have hplace := PlacedData.place_eq hrlow hjlt hrwrap
      have hrholds : r.extent.Holds (p.fullAddr + (p.bytes.length - 1 : ℕ)) r.bytes[j] := by
        refine ⟨j, List.getElem?_eq_getElem hjlt, ?_⟩
        change r.fullAddr + (j : ℤ) = _
        omega
      have hextent := Extent.eq_of_holds (sound_iff.1 hsound).1 (hsound.parsed hdis hr hrbytes)
        hparsed hrholds hholds
      obtain rfl := eq_of_fullAddr hdis hr hp hrbytes hbytes hrlow (congrArg Extent.start hextent)
      have hlt := hrwrap s hs
      omega
    · simp only [not_forall, Nat.not_lt] at hrwrap
      obtain ⟨s', hs', hle⟩ := hrwrap
      have hplace := r.place_wrap hs' hle hjlt
      exact ih hr (by omega) s' hs' (by omega)

theorem SoundSegments.clear : l.Pairwise PlacedData.Clear := by
  refine List.pairwise_iff_getElem.2 fun i j hi hj hij => ⟨?_, ?_⟩
  · rintro hempty hlow ⟨hle, hlt⟩
    have hbytes : l[i].bytes ≠ [] := List.length_pos_iff.1 (by omega)
    have hilow := hsound.not_high hdis (List.getElem_mem hi) hbytes
    have hparsed := hsound.parsed hdis (List.getElem_mem hi) hbytes
    have hiaddr := PlacedData.fullAddr_eq hilow
    have hjaddr := PlacedData.fullAddr_eq hlow
    rcases Nat.eq_or_lt_of_le hle with heq | hinside
    · -- the record that is kept at this address has data, and is behind both
      obtain ⟨k, r, hjk, hr, haddr, hrparsed⟩ := exists_parsed (List.getElem?_eq_getElem hj)
      obtain ⟨hk, rfl⟩ := List.getElem?_eq_some_iff.1 hr
      have hstart : l[k].fullAddr = l[i].fullAddr := by omega
      have hextent : l[k].extent = l[i].extent := Extent.entries_unique hrparsed hparsed hstart
      have hdata : l[k].bytes = l[i].bytes := congrArg Extent.data hextent
      have hne : j ≠ k := by
        rintro rfl
        exact hbytes (hdata ▸ hempty)
      have hdisjoint := List.pairwise_iff_getElem.1 hdis i k hi hk (by omega)
      have hsame := eq_of_fullAddr hdis (List.getElem_mem hi) (List.getElem_mem hk) hbytes
        (hdata ▸ hbytes) hilow hstart.symm
      rw [← hsame] at hdisjoint
      exact hdisjoint 0 (by omega) 0 (by omega) rfl
    · have hend := hsound.not_inside hparsed (List.getElem_mem hj) (by omega)
      omega
  · rintro - hlow ⟨hlt, hlt'⟩
    have hbytes : l[j].bytes ≠ [] := List.length_pos_iff.1 (by omega)
    have hjaddr := PlacedData.fullAddr_eq (hsound.not_high hdis (List.getElem_mem hj) hbytes)
    have hiaddr := PlacedData.fullAddr_eq hlow
    have hend := hsound.not_inside (hsound.parsed hdis (List.getElem_mem hj) hbytes)
      (List.getElem_mem hi) (by omega)
    omega

/-- **Data with sound segments is plain.** -/
theorem SoundSegments.plain : PlainData l :=
  ⟨fun _ hp hbytes => ⟨hsound.not_high hdis hp hbytes,
    hsound.not_wraps hdis (2 ^ 21) hp (Nat.le_add_left ..)⟩, hsound.clear hdis⟩

end

/-! ## Files -/

/-- **The files whose segments are sound** are those with plain data. -/
theorem hex_segments_iff {text : List Char} {records : List HexRecord}
    (h : HexText text records) (hdis : (fileData records).Pairwise PlacedData.Disjoint) :
    (∃ r, parseHEX text = some r ∧ SoundSegments r.segments (fileData records)) ↔
      PlainData (fileData records) := by
  constructor
  · rintro ⟨r, hr, hsound⟩
    rw [parseHEX_eq h] at hr
    cases hr
    exact hsound.plain hdis
  · intro hplain
    exact ⟨_, parseHEX_eq h, hplain.sound hdis⟩

/-- Three bytes in two records, from the address 0x10000 on. -/
def demoHex : List HexRecord :=
  [.extendedLinear 1, .data 2 [0xCC] (by decide), .data 0 [0xAA, 0xBB] (by decide)]

/-- They make a segment. -/
theorem demoHex_segments :
    (mergeSegments (assignAll ∅ (fileData demoHex))).map (fun s => (s.address, s.data)) =
      [(0x10000, [0xAA, 0xBB, 0xCC])] ∧
    ∃ r, parseHEX (hexText (demoHex ++ [HexRecord.endOfFile])) = some r ∧
      SoundSegments r.segments (fileData (demoHex ++ [HexRecord.endOfFile])) := by
  refine ⟨by decide, (hex_segments_iff (hexText_spec (by simp [demoHex])) ?_).2 ⟨?_, ?_⟩⟩
  · refine .cons ?_ (.cons (List.forall_mem_nil _) .nil)
    rintro q hq i hi j hj
    cases List.mem_singleton.1 hq
    have hi : i < 1 := hi
    have hj : j < 2 := hj
    simp only [PlacedData.place]
    change (2 ^ 16 * 1 + 2 + i) % 2 ^ 32 ≠ (2 ^ 16 * 1 + 0 + j) % 2 ^ 32
    omega
  · intro p hp _
    have hbase : p.base = .linear 1 := by
      rcases List.mem_cons.1 hp with rfl | hp
      · rfl
      · cases List.mem_singleton.1 hp
        rfl
    constructor
    · rintro ⟨upper, hupper, hle⟩
      cases hbase.symm.trans hupper
      exact absurd hle (by decide)
    · rintro ⟨s, hs, -⟩
      cases hbase.symm.trans hs
  · refine .cons ?_ (.cons (List.forall_mem_nil _) .nil)
    rintro q hq
    cases List.mem_singleton.1 hq
    constructor
    · intro h
      cases h
    · intro h
      cases h

/-- A byte in the upper half, two bytes across the end of a segment, and a byte that a
    record without data follows at its address. -/
def demoHighHex : List HexRecord := [.extendedLinear 0x8000, .data 0 [0x01] (by decide)]
def demoWrapHex : List HexRecord := [.extendedSegment 0, .data 0xFFFF [0x01, 0x02] (by decide)]
def demoLostHex : List HexRecord := [.data 0 [0x01] (by decide), .data 0 [] (by decide)]

/-- A file of the format, whose segments are not sound. -/
def HexMisread (body : List HexRecord) : Prop :=
  HexText (hexText (body ++ [HexRecord.endOfFile])) (body ++ [HexRecord.endOfFile]) ∧
    (fileData (body ++ [HexRecord.endOfFile])).Pairwise PlacedData.Disjoint ∧
    ¬ ∃ r, parseHEX (hexText (body ++ [HexRecord.endOfFile])) = some r ∧
      SoundSegments r.segments (fileData (body ++ [HexRecord.endOfFile]))

theorem HexMisread.of_not_plain {body : List HexRecord} {l : List PlacedData}
    (hbody : .endOfFile ∉ body) (hl : fileData (body ++ [HexRecord.endOfFile]) = l)
    (hdis : l.Pairwise PlacedData.Disjoint) (hplain : ¬ PlainData l) : HexMisread body := by
  subst hl
  refine ⟨hexText_spec hbody, hdis, ?_⟩
  rintro ⟨r, hr, hsound⟩
  rw [parseHEX_eq (hexText_spec hbody)] at hr
  cases hr
  exact hplain (hsound.plain hdis)

/-- None of their segments are sound. -/
theorem demoHex_unsound :
    HexMisread demoHighHex ∧ HexMisread demoWrapHex ∧ HexMisread demoLostHex := by
  refine ⟨?_, ?_, ?_⟩
  · refine .of_not_plain (l := [⟨.linear 0x8000, 0, [0x01], by decide⟩]) (by simp [demoHighHex])
      rfl (List.pairwise_singleton ..) fun hplain => ?_
    exact (hplain.plain _ (List.mem_singleton_self _) (List.cons_ne_nil _ _)).1
      ⟨0x8000, rfl, by decide⟩
  · refine .of_not_plain (l := [⟨.segment 0, 0xFFFF, [0x01, 0x02], by decide⟩])
      (by simp [demoWrapHex]) rfl (List.pairwise_singleton ..) fun hplain => ?_
    exact (hplain.plain _ (List.mem_singleton_self _) (List.cons_ne_nil _ _)).2
      ⟨0, rfl, by decide⟩
  · refine .of_not_plain
      (l := [⟨.linear 0, 0, [0x01], by decide⟩, ⟨.linear 0, 0, [], by decide⟩])
      (by simp [demoLostHex]) rfl ?_ fun hplain => ?_
    · refine .cons ?_ (.cons (List.forall_mem_nil _) .nil)
      rintro q hq i hi j hj
      cases List.mem_singleton.1 hq
      cases hj
    · have hclear := (List.pairwise_cons.1 hplain.clear).1 _ (List.mem_singleton_self _)
      refine hclear.1 rfl ?_ (by decide)
      rintro ⟨upper, hupper, hle⟩
      cases hupper
      exact absurd hle (by decide)

end Gracemont
