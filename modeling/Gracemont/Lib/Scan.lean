/-
  Reading a memory of bytes through a cursor.

  A `Scan` maps the bytes of a region and a cursor to a value and a new cursor.
  A cursor logs the offsets that it read, so that `Cursor.Below` says how far a
  reader looked; skipped bytes are not read.

  * `leBytes`, `ofLe`: numbers as bytes, the lowest first;
  * `bytesAt`, `uintAt`, `Holds`: the bytes from an offset on;
  * `Scan.take`, `Scan.uint`, `Scan.skip`: the readers, and where they end;
  * `Regions`, `Ptr`: memories of several regions, and C strings in them.
-/
import Mathlib.Algebra.Group.Nat.Defs
import Mathlib.Data.List.Basic
import Mathlib.Data.Nat.Notation
import Mathlib.Tactic.SplitIfs
import Gracemont.Lib.ByteMem

namespace Lib

/-! ## Numbers as bytes -/

/-- The `n` low bytes of `v`, the lowest first. -/
def leBytes : ℕ → ℕ → List (BitVec 8)
  | 0, _ => []
  | n + 1, v => BitVec.ofNat 8 v :: leBytes n (v / 256)

/-- The number that the bytes stand for. -/
def ofLe : List (BitVec 8) → ℕ
  | [] => 0
  | b :: l => b.toNat + 256 * ofLe l

@[simp] theorem leBytes_length (n v : ℕ) : (leBytes n v).length = n := by
  induction n generalizing v with
  | zero => rfl
  | succ n ih => rw [leBytes, List.length_cons, ih]

theorem ofLe_leBytes (n v : ℕ) : ofLe (leBytes n v) = v % 256 ^ n := by
  induction n generalizing v with
  | zero => rw [Nat.pow_zero, Nat.mod_one]; rfl
  | succ n ih =>
    have hb : (BitVec.ofNat 8 v).toNat = v % 256 := BitVec.toNat_ofNat ..
    rw [leBytes, ofLe, ih, hb, Nat.pow_succ', Nat.mod_mul]

/-! ## Bytes of a region -/

/-- The `n` bytes from `p` on. -/
def bytesAt (m : ℕ → BitVec 8) (p n : ℕ) : List (BitVec 8) := (List.range n).map fun i => m (p + i)

/-- The number in the `n` bytes from `p` on. -/
def uintAt (m : ℕ → BitVec 8) (p n : ℕ) : BitVec (8 * n) := BitVec.ofNat _ (ofLe (bytesAt m p n))

/-- The bytes from `p` on are those of `l`. -/
def Holds (m : ℕ → BitVec 8) (p : ℕ) (l : List (BitVec 8)) : Prop := bytesAt m p l.length = l

instance (m : ℕ → BitVec 8) (p : ℕ) (l : List (BitVec 8)) : Decidable (Holds m p l) :=
  inferInstanceAs (Decidable (_ = _))

section
variable (m : ℕ → BitVec 8) (p : ℕ)

@[simp] theorem bytesAt_length (n : ℕ) : (bytesAt m p n).length = n := by simp [bytesAt]

theorem bytesAt_add (n k : ℕ) : bytesAt m p (n + k) = bytesAt m p n ++ bytesAt m (p + n) k := by
  simp [bytesAt, List.range_add, Nat.add_assoc]

variable {m p}

theorem bytesAt_congr {m' : ℕ → BitVec 8} {p' n : ℕ} (h : ∀ i < n, m' (p' + i) = m (p + i)) :
    bytesAt m' p' n = bytesAt m p n := List.map_congr_left fun i hi => h i (List.mem_range.1 hi)

theorem Holds.bytesAt_eq {l : List (BitVec 8)} (h : Holds m p l) {n : ℕ} (hn : n = l.length) :
    bytesAt m p n = l := hn ▸ h

theorem holds_append {l l' : List (BitVec 8)} :
    Holds m p (l ++ l') ↔ Holds m p l ∧ Holds m (p + l.length) l' := by
  rw [Holds, List.length_append, bytesAt_add]
  constructor
  · intro h
    exact List.append_inj h (bytesAt_length ..)
  · rintro ⟨h, h'⟩
    rw [show bytesAt m p l.length = l from h, show bytesAt m _ l'.length = l' from h']

theorem Holds.get {l : List (BitVec 8)} (h : Holds m p l) {i : ℕ} (hi : i < l.length) :
    m (p + i) = l[i] := by
  have hat : (bytesAt m p l.length)[i]? = l[i]? := congrArg (·[i]?) h
  rw [List.getElem?_eq_getElem hi, List.getElem?_eq_getElem (by simpa using hi)] at hat
  simpa [bytesAt] using hat

end

/-- **A number that was written is read back.** -/
theorem Holds.uintAt {m : ℕ → BitVec 8} {p n : ℕ} {v : BitVec (8 * n)}
    (h : Holds m p (leBytes n v.toNat)) : uintAt m p n = v := by
  have hbytes : bytesAt m p n = leBytes n v.toNat := h.bytesAt_eq (leBytes_length ..).symm
  have hpow : (256 : ℕ) ^ n = 2 ^ (8 * n) := by rw [Nat.pow_mul]
  refine BitVec.eq_of_toNat_eq ?_
  rw [Lib.uintAt, hbytes, ofLe_leBytes, BitVec.toNat_ofNat, hpow, Nat.mod_mod,
    Nat.mod_eq_of_lt v.isLt]

/-! ## Cursors -/

/-- A position in a region, and the offsets read so far, last first. -/
structure Cursor where
  pos : ℕ
  reads : List ℕ

namespace Cursor

/-- A cursor that has read nothing. -/
def start (pos : ℕ) : Cursor := ⟨pos, []⟩

/-- All offsets read are below `limit`. -/
def Below (c : Cursor) (limit : ℕ) : Prop := ∀ a ∈ c.reads, a < limit

instance (c : Cursor) (limit : ℕ) : Decidable (c.Below limit) :=
  inferInstanceAs (Decidable (∀ _ ∈ _, _))

theorem start_below (pos limit : ℕ) : (start pos).Below limit := by
  intro a ha
  cases ha

end Cursor

/-! ## Readers -/

/-- A reader of values of type `β`. -/
def Scan (β : Type) : Type := (ℕ → BitVec 8) → Cursor → β × Cursor

namespace Scan
variable {β γ : Type}

instance : Monad Scan where
  pure v := fun _ c => (v, c)
  bind x f := fun m c => f (x m c).1 m (x m c).2

/-- The next `n` bytes. -/
def take (n : ℕ) : Scan (List (BitVec 8)) := fun m c =>
  (bytesAt m c.pos n, ⟨c.pos + n, (List.range' c.pos n).reverse ++ c.reads⟩)

/-- The next `n` bytes as a number. -/
def uint (n : ℕ) : Scan (BitVec (8 * n)) := fun m c => (uintAt m c.pos n, (take n m c).2)

/-- Skipping `n` bytes. -/
def skip (n : ℕ) : Scan Unit := fun _ c => ((), { c with pos := c.pos + n })

/-- The current position. -/
def pos : Scan ℕ := fun _ c => (c.pos, c)

section
variable (m : ℕ → BitVec 8) (c : Cursor)

@[simp] theorem pure_apply (v : β) : (pure v : Scan β) m c = (v, c) := rfl

@[simp] theorem bind_apply (x : Scan β) (f : β → Scan γ) :
    (x >>= f) m c = f (x m c).1 m (x m c).2 := rfl

@[simp] theorem ite_apply (p : Prop) [Decidable p] (x y : Scan β) :
    (if p then x else y) m c = if p then x m c else y m c := by
  split_ifs
  · rfl
  · rfl

@[simp] theorem take_pos (n : ℕ) : (take n m c).2.pos = c.pos + n := rfl

@[simp] theorem uint_fst (n : ℕ) : (uint n m c).1 = uintAt m c.pos n := rfl

@[simp] theorem uint_pos (n : ℕ) : (uint n m c).2.pos = c.pos + n := rfl

@[simp] theorem skip_pos (n : ℕ) : (skip n m c).2.pos = c.pos + n := rfl

@[simp] theorem pos_fst : (pos m c).1 = c.pos := rfl

@[simp] theorem pos_snd : (pos m c).2 = c := rfl

theorem take_below {n : ℕ} (hn : 0 < n) (limit : ℕ) :
    (take n m c).2.Below limit ↔ c.Below limit ∧ c.pos + n ≤ limit := by
  simp only [Cursor.Below, take, List.mem_append, List.mem_reverse, List.mem_range'_1]
  constructor
  · intro h
    refine ⟨fun a ha => h a (Or.inr ha), ?_⟩
    have hlast := h (c.pos + (n - 1)) (Or.inl (by omega))
    omega
  · rintro ⟨h, hle⟩ a (ha | ha)
    · omega
    · exact h a ha

theorem uint_below {n : ℕ} (hn : 0 < n) (limit : ℕ) :
    (uint n m c).2.Below limit ↔ c.Below limit ∧ c.pos + n ≤ limit := take_below m c hn limit

@[simp] theorem skip_below (n limit : ℕ) : (skip n m c).2.Below limit ↔ c.Below limit := Iff.rfl

end

end Scan

/-! ## Regions and pointers -/

/-- A memory of regions, each with a size. -/
structure Regions (ρ : Type) where
  byte : ρ → ℕ → BitVec 8
  size : ρ → ℕ

/-- A pointer into a region. -/
structure Ptr (ρ : Type) where
  region : ρ
  offset : ℕ
  deriving DecidableEq

namespace Regions
variable {ρ : Type} (mem : Regions ρ) (p : Ptr ρ)

/-- The `n` bytes that `p` points to. -/
def bytes (n : ℕ) : List (BitVec 8) := bytesAt (mem.byte p.region) p.offset n

/-- The length of the C string that `p` points to, unless the region ends before
    its terminator. -/
def strlen : Option ℕ :=
  (List.range (mem.size p.region - p.offset)).find? fun i => mem.byte p.region (p.offset + i) = 0

variable {mem p}

@[simp] theorem bytes_length (n : ℕ) : (mem.bytes p n).length = n := bytesAt_length ..

/-- **The length of a C string**: the first terminator. -/
theorem strlen_eq_some {n : ℕ} : mem.strlen p = some n ↔
    p.offset + n < mem.size p.region ∧ mem.byte p.region (p.offset + n) = 0 ∧
      ∀ i < n, mem.byte p.region (p.offset + i) ≠ 0 := by
  rw [strlen, List.find?_range_eq_some]
  simp only [decide_eq_true_eq, Bool.not_eq_true', decide_eq_false_iff_not, List.mem_range]
  constructor
  · rintro ⟨h0, hn, hi⟩
    exact ⟨by omega, h0, hi⟩
  · rintro ⟨hn, h0, hi⟩
    exact ⟨h0, by omega, hi⟩

/-- Strings only depend on their bytes and the terminator. -/
theorem strlen_congr {mem' : Regions ρ} (hs : mem'.size p.region = mem.size p.region) {n : ℕ}
    (h : mem.strlen p = some n)
    (hb : ∀ i ≤ n, mem'.byte p.region (p.offset + i) = mem.byte p.region (p.offset + i)) :
    mem'.strlen p = some n := by
  obtain ⟨hn, h0, hi⟩ := strlen_eq_some.1 h
  refine strlen_eq_some.2 ⟨by rwa [hs], by rw [hb n (Nat.le_refl n), h0], ?_⟩
  intro i hlt
  rw [hb i (by omega)]
  exact hi i hlt

end Regions

end Lib
