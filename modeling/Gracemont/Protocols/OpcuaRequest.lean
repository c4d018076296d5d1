/-
  Gracemont protocols — OPC UA messages by their layout.

  What the server does with the message at `p` in a memory `m`, without cursors:

  * `opcuaReadPos`, `opcuaWritePos`: where the entries of a request start;
  * `opcuaReadEntries`, `opcuaWriteEntries`: what the loops over them decode;
  * `opcuaDispatch_hel`, …: one equation for each type of message;
  * `opcuaRead_fst`, `opcuaWrite_fst`: one for each loop.
-/
import Gracemont.Lib.Loop
import Gracemont.Protocols.OpcuaLayout

namespace Gracemont

open Lib

variable {ρ β : Type}

/-! ## Entries -/

/-- The offset of an entry behind others from `p` on, of these sizes. -/
def opcuaEntryPos (size : ℕ → ℕ) (p : ℕ) : ℕ → ℕ
  | 0 => p
  | i + 1 => opcuaEntryPos size p i + size (opcuaEntryPos size p i)

theorem opcuaEntryPos_shift (size : ℕ → ℕ) (p i : ℕ) :
    opcuaEntryPos size (p + size p) i = opcuaEntryPos size p (i + 1) := by
  induction i with
  | zero => rfl
  | succ i ih =>
    show opcuaEntryPos size (p + size p) i + size (opcuaEntryPos size (p + size p) i) = _
    rw [ih]
    rfl

section
variable {σ τ ι : Type} (item : ℕ → σ → Scan (σ × τ)) {m : ℕ → BitVec 8} {size need : ℕ → ℕ}

/-- **A loop over entries**, by what an iteration does. -/
theorem opcuaLoop_fst (f : σ → ι → σ × τ) (entry : ℕ → ℕ → ι)
    (hitem : ∀ i s c, (item i s m c).1 = f s (entry i c.pos))
    (hpos : ∀ i s c, (item i s m c).2.pos = c.pos + size c.pos) (n i : ℕ) (s : σ) (c : Cursor) :
    (opcuaLoop item n i s m c).1 =
      Loop.collect f s ((List.range n).map fun j => entry (i + j) (opcuaEntryPos size c.pos j)) := by
  induction n generalizing i s c with
  | zero => rfl
  | succ n ih =>
    have hrest := ih (i + 1) (item i s m c).1.1 (item i s m c).2
    have htail : ((List.range n).map fun j =>
        entry (i + 1 + j) (opcuaEntryPos size (c.pos + size c.pos) j)) =
        (List.range n).map ((fun j => entry (i + j) (opcuaEntryPos size c.pos j)) ∘ Nat.succ) := by
      refine List.map_congr_left fun j _ => ?_
      rw [opcuaEntryPos_shift, Nat.add_assoc, Nat.add_comm 1 j]
      rfl
    rw [hpos, hitem, htail] at hrest
    rw [List.range_succ_eq_map, List.map_cons, List.map_map, Loop.collect, opcuaLoop]
    simp only [Scan.bind_apply, Scan.pure_apply, hitem, hrest]
    rfl

/-- **A loop over entries** reads what its iterations read. -/
theorem opcuaLoop_below (limit : ℕ)
    (hpos : ∀ i s c, (item i s m c).2.pos = c.pos + size c.pos)
    (hbelow : ∀ i s c, (item i s m c).2.Below limit ↔
      c.Below limit ∧ c.pos + need c.pos ≤ limit) (n i : ℕ) (s : σ) (c : Cursor) :
    (opcuaLoop item n i s m c).2.Below limit ↔ c.Below limit ∧
      ∀ j < n, opcuaEntryPos size c.pos j + need (opcuaEntryPos size c.pos j) ≤ limit := by
  induction n generalizing i s c with
  | zero => simp [opcuaLoop]
  | succ n ih =>
    have hrest := ih (i + 1) (item i s m c).1.1 (item i s m c).2
    simp only [hpos, hbelow, opcuaEntryPos_shift, and_assoc] at hrest
    rw [opcuaLoop]
    simp only [Scan.bind_apply, Scan.pure_apply]
    rw [hrest]
    refine and_congr_right fun _ => ⟨?_, fun h => ⟨h 0 (Nat.succ_pos n), fun j hj => ?_⟩⟩
    · rintro ⟨hfirst, hothers⟩ j hj
      cases j with
      | zero => exact hfirst
      | succ j => exact hothers j (Nat.lt_of_succ_lt_succ hj)
    · exact h (j + 1) (Nat.succ_lt_succ hj)

end

section
variable (m : ℕ → BitVec 8) (p : ℕ)

/-- The type of the request, the number of its entries, and where they start. -/
def opcuaTypeId : BitVec 16 := u16At m (p + 26)

def opcuaReadCount : BitVec 32 := u32At m (p + 64)

def opcuaReadPos : ℕ → ℕ := opcuaEntryPos (opcuaReadItemSize m) (p + 68)

def opcuaWriteCount : BitVec 32 := u32At m (p + 52)

def opcuaWritePos : ℕ → ℕ := opcuaEntryPos (opcuaWriteItemSize m) (p + 56)

variable (env : OpcuaEnv ρ) (r : ρ)

/-- What the loops decode: the nodes to read, and the nodes to write with values. -/
def opcuaReadEntries (n : ℕ) : List (OpcuaNodeid ρ) :=
  (List.range n).map fun i => opcuaNodeidAt m (opcuaReadPos m p i) r (env.nodeId i)

def opcuaWriteEntries (n : ℕ) : List (OpcuaNodeid ρ × OpcuaVariant ρ) :=
  (List.range n).map fun i => (opcuaNodeidAt m (opcuaWritePos m p i) r (env.nodeId i),
    opcuaWriteItemValue env r i m (opcuaWritePos m p i))

end

/-! ## Services -/

section
variable [DecidableEq β] {m : ℕ → BitVec 8} {p : ℕ} (env : OpcuaEnv ρ) (mem : Regions ρ) (r : ρ)
  (s : OpcuaServer ρ β) {c : Cursor} (limit : ℕ)

/-- The body of a read response. -/
def opcuaReadBody (nodeCount : BitVec 32) (results : List (List (BitVec 8))) : List (BitVec 8) :=
  opcuaResponseHeader 634 (env.ticks 0) opcuaStatusGood ++ opcuaWriteResults nodeCount results

/-- The body of a write response. -/
def opcuaWriteBody (nodeCount : BitVec 32) (results : List (BitVec 32)) : List (BitVec 8) :=
  opcuaResponseHeader 676 (env.ticks 0) opcuaStatusGood ++
    opcuaWriteResults nodeCount (results.map writeU32)

/-- The entries that a read request handles, one after the other. -/
def opcuaReadAll (m : ℕ → BitVec 8) (p : ℕ) : OpcuaServer ρ β × List (Option (List (BitVec 8))) :=
  Loop.collect (opcuaGetValue mem) s
    (opcuaReadEntries m p env r (opcuaIterations (opcuaReadCount m p)))

/-- The entries that a write request handles, one after the other. -/
def opcuaWriteAll (m : ℕ → BitVec 8) (p : ℕ) : OpcuaServer ρ β × List (BitVec 32) :=
  Loop.collect (fun s entry => opcuaSetValue s entry.1 entry.2) s
    (opcuaWriteEntries m p env r (opcuaIterations (opcuaWriteCount m p)))

/-- **A read request.** -/
theorem opcuaRead_fst (hc : c.pos = p + 28) : (opcuaRead env mem r s m c).1 =
    ((opcuaReadAll env mem r s m p).1,
      ((opcuaReadAll env mem r s m p).2.mapM id).map (opcuaReadBody env (opcuaReadCount m p))) := by
  have hloop := opcuaLoop_fst (opcuaReadItem (β := β) env mem r) (m := m)
    (opcuaGetValue mem) (fun i p => opcuaNodeidAt m p r (env.nodeId i))
    (fun i s c => congrArg Prod.fst (opcuaReadItem_apply c env mem r i s))
    (fun i s c => opcuaReadItem_pos c env mem r i s)
  simp only [opcuaRead, Scan.bind_apply, Scan.pure_apply, hloop, readU32_fst, readU32_pos,
    readU64_pos, Scan.skip_pos, hc, Nat.zero_add]
  rfl

theorem opcuaRead_below (hc : c.pos = p + 28) : (opcuaRead env mem r s m c).2.Below limit ↔
    c.Below limit ∧ p + 68 ≤ limit ∧ ∀ i < opcuaIterations (opcuaReadCount m p),
      opcuaReadPos m p i + opcuaReadItemNeed m (opcuaReadPos m p i) ≤ limit := by
  have hloop := opcuaLoop_below (opcuaReadItem (β := β) env mem r) (m := m) limit
    (fun i s c => opcuaReadItem_pos c env mem r i s)
    (fun i s c => opcuaReadItem_below c env mem r i s limit)
  simp only [opcuaRead, Scan.bind_apply, Scan.pure_apply, hloop, readU32_fst, readU32_pos,
    readU64_pos, Scan.skip_pos, hc, readU32_below, readU64_below, Scan.skip_below, and_assoc]
  refine and_congr_right fun _ => ?_
  constructor
  · rintro ⟨-, -, h, hall⟩
    exact ⟨h, hall⟩
  · rintro ⟨h, hall⟩
    exact ⟨by omega, by omega, h, hall⟩

/-- **A write request.** -/
theorem opcuaWrite_fst (hc : c.pos = p + 28) : (opcuaWrite env r s m c).1 =
    ((opcuaWriteAll env r s m p).1,
      opcuaWriteBody env (opcuaWriteCount m p) (opcuaWriteAll env r s m p).2) := by
  have hloop := opcuaLoop_fst (opcuaWriteItem (β := β) env r) (m := m)
    (fun (s : OpcuaServer ρ β) entry => opcuaSetValue s entry.1 entry.2)
    (fun i p => (opcuaNodeidAt m p r (env.nodeId i), opcuaWriteItemValue env r i m p))
    (fun i (s : OpcuaServer ρ β) c => congrArg Prod.fst (opcuaWriteItem_apply c env r i s))
    (fun i (s : OpcuaServer ρ β) c => opcuaWriteItem_pos c env r i s)
  simp only [opcuaWrite, Scan.bind_apply, Scan.pure_apply, hloop, readU32_fst, readU32_pos,
    Scan.skip_pos, hc, Nat.zero_add]
  rfl

theorem opcuaWrite_below (hc : c.pos = p + 28) : (opcuaWrite env r s m c).2.Below limit ↔
    c.Below limit ∧ p + 56 ≤ limit ∧ ∀ i < opcuaIterations (opcuaWriteCount m p),
      opcuaWritePos m p i + opcuaWriteItemNeed m (opcuaWritePos m p i) ≤ limit := by
  have hloop := opcuaLoop_below (opcuaWriteItem (β := β) env r) (m := m) limit
    (fun i (s : OpcuaServer ρ β) c => opcuaWriteItem_pos c env r i s)
    (fun i (s : OpcuaServer ρ β) c => opcuaWriteItem_below c env r i s limit)
  simp only [opcuaWrite, Scan.bind_apply, Scan.pure_apply, hloop, readU32_fst, readU32_pos,
    Scan.skip_pos, hc, readU32_below, Scan.skip_below, and_assoc]
  rfl

/-! ## Messages -/

/-- The cursor behind the type of a message and `n` more bytes. -/
def opcuaBodyCursor (m : ℕ → BitVec 8) (p n : ℕ) : Cursor :=
  (Scan.skip n m (Scan.take 3 m (Cursor.start p)).2).2

/-- The cursor behind the headers of a request. -/
def opcuaServiceCursor (m : ℕ → BitVec 8) (p : ℕ) : Cursor :=
  let c := (readU32 m (readU32 m (opcuaBodyCursor m p 5)).2).2
  let c := (readU32 m (readU32 m c).2).2
  (readU16 m (readU8 m (readU8 m c).2).2).2

/-- The headers of its response. -/
def opcuaServiceHead (m : ℕ → BitVec 8) (p : ℕ) : List (BitVec 8) :=
  writeU32 (u32At m (p + 8)) ++ writeU32 (u32At m (p + 12)) ++ writeU32 s.sequenceNum ++
    writeU32 (u32At m (p + 20))

/-- The switch on the type of the request at `p`. -/
def opcuaServiceAt (m : ℕ → BitVec 8) (p : ℕ) :
    (OpcuaServer ρ β × Option (List (BitVec 8))) × Cursor :=
  opcuaService env mem r (u32At m (p + 8)) (opcuaTypeId m p)
    { s with sequenceNum := s.sequenceNum + 1 } m (opcuaServiceCursor m p)

theorem opcuaBodyCursor_below (n : ℕ) : (opcuaBodyCursor m p n).Below limit ↔ p + 3 ≤ limit := by
  rw [opcuaBodyCursor, Scan.skip_below, Scan.take_below m _ (by decide),
    and_iff_right (Cursor.start_below p limit)]
  rfl

theorem opcuaServiceCursor_pos : (opcuaServiceCursor m p).pos = p + 28 := rfl

theorem opcuaServiceCursor_below : (opcuaServiceCursor m p).Below limit ↔ p + 28 ≤ limit := by
  have hpos : (opcuaBodyCursor m p 5).pos = p + 8 := rfl
  simp only [opcuaServiceCursor, readU32_below, readU16_below, readU8_below, readU32_pos,
    readU8_pos, opcuaBodyCursor_below, hpos]
  omega

theorem opcuaDispatch_hel (h : Holds m p opcuaMsgHel) :
    opcuaDispatch env mem r s m (Cursor.start p) =
      (.respond s opcuaMsgAck (some opcuaHandleHello), opcuaBodyCursor m p 0) := by
  simp only [opcuaDispatch, Scan.bind_apply, Scan.ite_apply]
  exact if_pos h

theorem opcuaDispatch_opn (h : Holds m p opcuaMsgOpn) :
    opcuaDispatch env mem r s m (Cursor.start p) =
      let out := opcuaHandleOpenChannel env s m (opcuaBodyCursor m p 9)
      (.respond out.1.1 opcuaMsgOpn (some out.1.2), out.2) := by
  have hne : Lib.bytesAt m p 3 ≠ opcuaMsgHel := fun he => absurd (h.symm.trans he) (by decide)
  simp only [opcuaDispatch, Scan.bind_apply, Scan.ite_apply]
  exact (if_neg hne).trans (if_pos h)

theorem opcuaDispatch_msg (h : Holds m p opcuaMsgMsg) :
    opcuaDispatch env mem r s m (Cursor.start p) =
      let out := opcuaServiceAt env mem r s m p
      (.respond out.1.1 opcuaMsgMsg (out.1.2.map (opcuaServiceHead s m p ++ ·)), out.2) := by
  have hhel : Lib.bytesAt m p 3 ≠ opcuaMsgHel := fun he => absurd (h.symm.trans he) (by decide)
  have hopn : Lib.bytesAt m p 3 ≠ opcuaMsgOpn := fun he => absurd (h.symm.trans he) (by decide)
  simp only [opcuaDispatch, Scan.bind_apply, Scan.ite_apply]
  exact (if_neg hhel).trans ((if_neg hopn).trans (if_pos h))

theorem opcuaDispatch_clo (h : Holds m p opcuaMsgClo) :
    opcuaDispatch env mem r s m (Cursor.start p) = (.close, opcuaBodyCursor m p 0) := by
  have hhel : Lib.bytesAt m p 3 ≠ opcuaMsgHel := fun he => absurd (h.symm.trans he) (by decide)
  have hopn : Lib.bytesAt m p 3 ≠ opcuaMsgOpn := fun he => absurd (h.symm.trans he) (by decide)
  have hmsg : Lib.bytesAt m p 3 ≠ opcuaMsgMsg := fun he => absurd (h.symm.trans he) (by decide)
  simp only [opcuaDispatch, Scan.bind_apply, Scan.ite_apply]
  exact (if_neg hhel).trans ((if_neg hopn).trans ((if_neg hmsg).trans (if_pos h)))

theorem opcuaDispatch_other (hhel : ¬ Holds m p opcuaMsgHel) (hopn : ¬ Holds m p opcuaMsgOpn)
    (hmsg : ¬ Holds m p opcuaMsgMsg) (hclo : ¬ Holds m p opcuaMsgClo) :
    opcuaDispatch env mem r s m (Cursor.start p) = (.ignore, opcuaBodyCursor m p 0) := by
  simp only [opcuaDispatch, Scan.bind_apply, Scan.ite_apply]
  exact (if_neg hhel).trans ((if_neg hopn).trans ((if_neg hmsg).trans (if_neg hclo)))

/-! ## The switch -/

theorem opcuaServiceAt_create (h : opcuaTypeId m p = 461) : opcuaServiceAt env mem r s m p =
    let out := opcuaCreateSession env (u32At m (p + 8)) { s with sequenceNum := s.sequenceNum + 1 }
    ((out.1, some out.2), opcuaServiceCursor m p) := by
  rw [opcuaServiceAt, opcuaService, h]
  rfl

theorem opcuaServiceAt_read (h : opcuaTypeId m p = 631) : opcuaServiceAt env mem r s m p =
    opcuaRead env mem r { s with sequenceNum := s.sequenceNum + 1 } m (opcuaServiceCursor m p) := by
  rw [opcuaServiceAt, opcuaService, h]
  rfl

theorem opcuaServiceAt_write (h : opcuaTypeId m p = 673) : opcuaServiceAt env mem r s m p =
    let out := opcuaWrite env r { s with sequenceNum := s.sequenceNum + 1 } m (opcuaServiceCursor m p)
    ((out.1.1, some out.1.2), out.2) := by
  rw [opcuaServiceAt, opcuaService, h]
  rfl

theorem opcuaServiceAt_read_fst (h : opcuaTypeId m p = 631) :
    let out := opcuaReadAll env mem r { s with sequenceNum := s.sequenceNum + 1 } m p
    (opcuaServiceAt env mem r s m p).1 =
      (out.1, (out.2.mapM id).map (opcuaReadBody env (opcuaReadCount m p))) := by
  rw [opcuaServiceAt_read env mem r s h]
  exact opcuaRead_fst env mem r _ opcuaServiceCursor_pos

theorem opcuaServiceAt_write_fst (h : opcuaTypeId m p = 673) :
    let out := opcuaWriteAll env r { s with sequenceNum := s.sequenceNum + 1 } m p
    (opcuaServiceAt env mem r s m p).1 =
      (out.1, some (opcuaWriteBody env (opcuaWriteCount m p) out.2)) := by
  have hfst := opcuaWrite_fst (m := m) env r { s with sequenceNum := s.sequenceNum + 1 }
    (opcuaServiceCursor_pos (m := m) (p := p))
  rw [opcuaServiceAt_write env mem r s h]
  simp only [hfst]

/-- Bodies start with a header. -/
theorem opcuaGetEndpoints_header : ∃ rest, opcuaGetEndpoints env =
    opcuaResponseHeader 431 (env.ticks 0) opcuaStatusGood ++ rest := by
  unfold opcuaGetEndpoints
  simp only [List.append_assoc, List.append_cancel_left_eq, exists_eq']

theorem opcuaActivateSession_header : ∃ rest, opcuaActivateSession env =
    opcuaResponseHeader 470 (env.ticks 0) opcuaStatusGood ++ rest := by
  unfold opcuaActivateSession
  simp only [List.append_assoc, List.append_cancel_left_eq, exists_eq']

/-- The other services answer without looking further. -/
theorem opcuaServiceAt_other (hcreate : opcuaTypeId m p ≠ 461) (hread : opcuaTypeId m p ≠ 631)
    (hwrite : opcuaTypeId m p ≠ 673) : ∃ typeId ∈ ([431, 470, 397] : List (BitVec 16)),
      ∃ status rest, opcuaServiceAt env mem r s m p =
        (({ s with sequenceNum := s.sequenceNum + 1 },
          some (opcuaResponseHeader typeId (env.ticks 0) status ++ rest)),
          opcuaServiceCursor m p) := by
  by_cases hendpoints : opcuaTypeId m p = 428
  · obtain ⟨rest, hrest⟩ := opcuaGetEndpoints_header env
    refine ⟨431, by decide, opcuaStatusGood, rest, ?_⟩
    rw [opcuaServiceAt, opcuaService, if_pos hendpoints, hrest]
    rfl
  by_cases hactivate : opcuaTypeId m p = 467
  · obtain ⟨rest, hrest⟩ := opcuaActivateSession_header env
    refine ⟨470, by decide, opcuaStatusGood, rest, ?_⟩
    rw [opcuaServiceAt, opcuaService, if_neg hendpoints, if_neg hcreate, if_pos hactivate, hrest]
    rfl
  · refine ⟨397, by decide, opcuaStatusBad, [], ?_⟩
    rw [opcuaServiceAt, opcuaService, if_neg hendpoints, if_neg hcreate, if_neg hactivate,
      if_neg hread, if_neg hwrite, List.append_nil]
    rfl

end

end Gracemont
