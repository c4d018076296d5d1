/-
  Gracemont protocols — the bounds of what OPC UA handlers read.

  The handlers take a message at `p` of `len` bytes, at least eight, and never
  compare their cursor with `len`.

  * `OpcuaTruncated`: bytes are missing, by the header or by an entry;
  * `OpcuaParsed`: nothing beyond the message is read, and a truncated message
    leaves nodes and sessions alone;
  * `opcua_parsed_iff`: which messages these are.
-/
import Gracemont.Protocols.OpcuaWriteFrame

namespace Gracemont

open Lib

variable {ρ β : Type}

/-! ## Lookups of other ids -/

theorem findRecursive_found {nodes : Store β (OpcuaNode ρ β)} {id : OpcuaNodeid ρ} {depth : ℕ}
    {p : Option β} {a : β} (h : findRecursive nodes id depth p = some a) :
    (nodes a).nodeId.found id = true := by
  induction depth generalizing p with
  | zero => cases h
  | succ depth ih =>
    cases p with
    | none => cases h
    | some b =>
      rw [findRecursive] at h
      split_ifs at h with hb
      · cases h
        exact hb
      · split at h
        · next found hfound => exact ih (hfound.trans h)
        · exact ih h

/-- Only numeric ids are found. -/
theorem opcuaFindNode_numeric {s : OpcuaServer ρ β} {id : OpcuaNodeid ρ} {a : β}
    (h : opcuaFindNode s id = some a) : ∃ n, id.id = .numeric n := by
  obtain ⟨-, n, -, hn⟩ := OpcuaNodeid.found_eq_true.1 (findRecursive_found h)
  exact ⟨n, hn⟩

theorem opcuaNodeidAt_string {m : ℕ → BitVec 8} {p : ℕ} (r : ρ) (junk : OpcuaNodeid ρ)
    (h : opcuaNodeidForm m p = 0x03) (s : OpcuaServer ρ β) :
    opcuaFindNode s (opcuaNodeidAt m p r junk) = none := by
  by_contra hne
  obtain ⟨a, ha⟩ := Option.ne_none_iff_exists'.1 hne
  obtain ⟨n, hn⟩ := opcuaFindNode_numeric ha
  rw [opcuaNodeidAt, h] at hn
  cases hn

/-- With a numeric id in the local, every other form gives a numeric id. -/
theorem opcuaNodeidAt_numeric {m : ℕ → BitVec 8} {p : ℕ} (r : ρ)
    (h : opcuaNodeidForm m p ≠ 0x03) :
    ∃ n, (opcuaNodeidAt m p r ⟨0, .numeric 0⟩).id = .numeric n := by
  unfold opcuaNodeidAt
  split_ifs
  · exact ⟨_, rfl⟩
  · exact ⟨_, rfl⟩
  · exact ⟨_, rfl⟩
  · exact ⟨0, rfl⟩

/-! ## Specification -/

section
variable (m : ℕ → BitVec 8) (p len : ℕ)

/-- A message with missing bytes: fewer than its header says, or than one of its
    entries takes. -/
def OpcuaTruncated : Prop :=
  len < (u32At m (p + 4)).toNat ∨
  (Holds m p opcuaMsgMsg ∧ opcuaTypeId m p = 631 ∧ ∃ i < (opcuaReadCount m p).toNat,
    p + len < opcuaReadPos m p i + opcuaReadItemSize m (opcuaReadPos m p i)) ∨
  (Holds m p opcuaMsgMsg ∧ opcuaTypeId m p = 673 ∧ ∃ i < (opcuaWriteCount m p).toNat,
    p + len < opcuaWritePos m p i + opcuaWriteItemSize m (opcuaWritePos m p i))

instance : Decidable (OpcuaTruncated m p len) := inferInstanceAs (Decidable (_ ∨ _ ∨ _))

/-- An action that leaves the nodes and the sessions of `s`. -/
def OpcuaAction.Keeps (s : OpcuaServer ρ β) : OpcuaAction ρ β → Prop
  | .respond s' _ _ => s'.nodes = s.nodes ∧ s'.sessions = s.sessions ∧
    s'.sessionCount = s.sessionCount
  | .close => True
  | .ignore => True

/-- Handling the message reads nothing beyond it, and changes neither nodes nor
    sessions if it is truncated, in any server. -/
structure OpcuaParsed (β : Type) [DecidableEq β] (r : ρ) : Prop where
  bounded : ∀ (env : OpcuaEnv ρ) (mem : Regions ρ) (s : OpcuaServer ρ β),
    (opcuaDispatch env mem r s m (Cursor.start p)).2.Below (p + len)
  kept : OpcuaTruncated m p len → ∀ (env : OpcuaEnv ρ) (mem : Regions ρ) (s : OpcuaServer ρ β),
    (opcuaDispatch env mem r s m (Cursor.start p)).1.Keeps s

/-- The fields that the handlers read are there; and a truncated request creates no
    session, and the ids of the nodes that it reads or writes are strings. -/
structure OpcuaFits : Prop where
  opn : Holds m p opcuaMsgOpn → 20 ≤ len
  msg : Holds m p opcuaMsgMsg → 28 ≤ len
  read : Holds m p opcuaMsgMsg → opcuaTypeId m p = 631 → 68 ≤ len ∧
    ∀ i < opcuaIterations (opcuaReadCount m p),
      opcuaReadPos m p i + opcuaReadItemNeed m (opcuaReadPos m p i) ≤ p + len
  write : Holds m p opcuaMsgMsg → opcuaTypeId m p = 673 → 56 ≤ len ∧
    ∀ i < opcuaIterations (opcuaWriteCount m p),
      opcuaWritePos m p i + opcuaWriteItemNeed m (opcuaWritePos m p i) ≤ p + len
  create : Holds m p opcuaMsgMsg → OpcuaTruncated m p len → opcuaTypeId m p ≠ 461
  readIds : Holds m p opcuaMsgMsg → OpcuaTruncated m p len → opcuaTypeId m p = 631 →
    ∀ i < opcuaIterations (opcuaReadCount m p), opcuaNodeidForm m (opcuaReadPos m p i) = 0x03
  writeIds : Holds m p opcuaMsgMsg → OpcuaTruncated m p len → opcuaTypeId m p = 673 →
    ∀ i < opcuaIterations (opcuaWriteCount m p), opcuaNodeidForm m (opcuaWritePos m p i) = 0x03

end

/-! ## Bounds -/

section
variable [DecidableEq β] {m : ℕ → BitVec 8} {p : ℕ} (env : OpcuaEnv ρ) (mem : Regions ρ) (r : ρ)
  (s : OpcuaServer ρ β) (limit : ℕ)

theorem opcuaDispatch_below_opn (h : Holds m p opcuaMsgOpn) :
    (opcuaDispatch env mem r s m (Cursor.start p)).2.Below limit ↔ p + 20 ≤ limit := by
  have hout : (opcuaHandleOpenChannel env s m (opcuaBodyCursor m p 9)).2 =
      (readU32 m (readU32 m (opcuaBodyCursor m p 9)).2).2 := rfl
  have hpos : (opcuaBodyCursor m p 9).pos = p + 12 := rfl
  rw [opcuaDispatch_opn env mem r s h]
  simp only [hout, readU32_below, readU32_pos, opcuaBodyCursor_below, hpos]
  omega

theorem opcuaDispatch_below_msg (h : Holds m p opcuaMsgMsg) :
    (opcuaDispatch env mem r s m (Cursor.start p)).2.Below limit ↔ p + 28 ≤ limit ∧
      (opcuaTypeId m p = 631 → p + 68 ≤ limit ∧ ∀ i < opcuaIterations (opcuaReadCount m p),
        opcuaReadPos m p i + opcuaReadItemNeed m (opcuaReadPos m p i) ≤ limit) ∧
      (opcuaTypeId m p = 673 → p + 56 ≤ limit ∧ ∀ i < opcuaIterations (opcuaWriteCount m p),
        opcuaWritePos m p i + opcuaWriteItemNeed m (opcuaWritePos m p i) ≤ limit) := by
  rw [opcuaDispatch_msg env mem r s h]
  show (opcuaServiceAt env mem r s m p).2.Below limit ↔ _
  by_cases hread : opcuaTypeId m p = 631
  · rw [opcuaServiceAt_read env mem r s hread, opcuaRead_below env mem r
      { s with sequenceNum := s.sequenceNum + 1 } limit opcuaServiceCursor_pos,
      opcuaServiceCursor_below, hread]
    simp
  by_cases hwrite : opcuaTypeId m p = 673
  · rw [opcuaServiceAt_write env mem r s hwrite]
    dsimp only
    rw [opcuaWrite_below env r { s with sequenceNum := s.sequenceNum + 1 } limit
      opcuaServiceCursor_pos, opcuaServiceCursor_below, hwrite]
    simp
  have hcursor : (opcuaServiceAt env mem r s m p).2 = opcuaServiceCursor m p := by
    by_cases hcreate : opcuaTypeId m p = 461
    · rw [opcuaServiceAt_create env mem r s hcreate]
    · obtain ⟨_, _, _, _, hout⟩ := opcuaServiceAt_other env mem r s hcreate hread hwrite
      rw [hout]
  rw [hcursor, opcuaServiceCursor_below]
  exact ⟨fun h => ⟨h, fun hr => absurd hr hread, fun hw => absurd hw hwrite⟩, fun h => h.1⟩

/-- The other messages are only told apart. -/
theorem opcuaDispatch_below_other (hopn : ¬ Holds m p opcuaMsgOpn) (hmsg : ¬ Holds m p opcuaMsgMsg) :
    (opcuaDispatch env mem r s m (Cursor.start p)).2.Below limit ↔ p + 3 ≤ limit := by
  have hcursor : (opcuaDispatch env mem r s m (Cursor.start p)).2 = opcuaBodyCursor m p 0 := by
    by_cases hhel : Holds m p opcuaMsgHel
    · rw [opcuaDispatch_hel env mem r s hhel]
    by_cases hclo : Holds m p opcuaMsgClo
    · rw [opcuaDispatch_clo env mem r s hclo]
    · rw [opcuaDispatch_other env mem r s hhel hopn hmsg hclo]
  rw [hcursor, opcuaBodyCursor_below]

/-! ## Truncated messages -/

theorem opcuaReadAll_strings (h : ∀ i < opcuaIterations (opcuaReadCount m p),
    opcuaNodeidForm m (opcuaReadPos m p i) = 0x03) : (opcuaReadAll env mem r s m p).1 = s := by
  refine Loop.collect_keep fun id hid => ?_
  obtain ⟨i, hi, rfl⟩ := List.mem_map.1 hid
  rw [opcuaGetValue, opcuaNodeidAt_string r _ (h i (List.mem_range.1 hi))]

theorem opcuaWriteAll_strings (h : ∀ i < opcuaIterations (opcuaWriteCount m p),
    opcuaNodeidForm m (opcuaWritePos m p i) = 0x03) : (opcuaWriteAll env r s m p).1 = s := by
  refine Loop.collect_keep fun entry hentry => ?_
  obtain ⟨i, hi, rfl⟩ := List.mem_map.1 hentry
  rw [opcuaSetValue, opcuaNodeidAt_string r _ (h i (List.mem_range.1 hi))]

/-- If reading sets values to `v`, the nodes that are read have that value. -/
theorem opcuaGetValue_value {v : OpcuaVariant ρ} (h : s.onRead = some fun _ _ => v)
    (id : OpcuaNodeid ρ) (a : β) : ((opcuaGetValue mem s id).1.nodes a).value =
      (if opcuaFindNode s id = some a then some v else none).getD (s.nodes a).value := by
  unfold opcuaGetValue
  split
  · next node hnode =>
    have hs : s.notifyRead id node = s.setValue node v := by rw [OpcuaServer.notifyRead, h]
    rw [hs]
    by_cases ha : a = node
    · subst ha
      simp [hnode, OpcuaServer.setValue]
    · simp [hnode, OpcuaServer.setValue, ha, Ne.symm ha]
  · next hnode => simp [hnode]

theorem opcuaReadAll_value {v : OpcuaVariant ρ} (h : s.onRead = some fun _ _ => v) {i : ℕ}
    (hi : i < opcuaIterations (opcuaReadCount m p)) {a : β}
    (hfind : opcuaFindNode s (opcuaNodeidAt m (opcuaReadPos m p i) r (env.nodeId i)) = some a) :
    ((opcuaReadAll env mem r s m p).1.nodes a).value = v := by
  let f : OpcuaNodeid ρ → Option (OpcuaVariant ρ) := fun id =>
    if opcuaFindNode s id = some a then some v else none
  have hstep : ∀ s', s.Revalued s' → ∀ id,
      ((opcuaGetValue mem s' id).1.nodes a).value = (f id).getD (s'.nodes a).value := by
    intro s' hs' id
    have hread : s'.onRead = some fun _ _ => v := by rw [hs'.server]; exact h
    rw [opcuaGetValue_value mem s' hread, hs'.find]
  have hfinal : ((opcuaReadAll env mem r s m p).1.nodes a).value = (Loop.lastSome f
      (opcuaReadEntries m p env r (opcuaIterations (opcuaReadCount m p)))).getD
        (s.nodes a).value := by
    rw [opcuaReadAll]
    exact OpcuaServer.Revalued.collect_value (.getValue mem) hstep _
  cases hlast : Loop.lastSome f
      (opcuaReadEntries m p env r (opcuaIterations (opcuaReadCount m p))) with
  | none =>
    have hnone := Loop.lastSome_eq_none.1 hlast _ (List.mem_map.2 ⟨i, List.mem_range.2 hi, rfl⟩)
    rw [show f _ = some v from if_pos hfind] at hnone
    cases hnone
  | some w =>
    obtain ⟨id, -, hw⟩ := Loop.lastSome_eq_some hlast
    rw [hfinal, hlast, Option.getD_some]
    simp only [f] at hw
    split_ifs at hw
    exact (Option.some.inj hw).symm

end

/-- A server with one node, of this id and value, which reading sets to true. -/
def probeServer (a : β) (id : OpcuaNodeid ρ) (value : OpcuaVariant ρ) : OpcuaServer ρ β :=
  { opcuaServerInit (fun _ => ⟨id, value, none, none, none⟩) fun _ => ⟨0, 0, false, 0, 0⟩ with
    added := [a], rootNode := some a, onRead := some fun _ _ => .boolean true }

theorem probeServer_find (a : β) {id : OpcuaNodeid ρ} (value : OpcuaVariant ρ) {n : BitVec 32}
    (h : id.id = .numeric n) : opcuaFindNode (probeServer a id value) id = some a := by
  have hfound : id.found id = true := OpcuaNodeid.found_eq_true.2 ⟨rfl, n, h, h⟩
  show (if id.found id then some a else _) = _
  rw [if_pos hfound]

section
variable [DecidableEq β] {m : ℕ → BitVec 8} {p len : ℕ} {r : ρ}

/-- A truncated read request for a node that may exist changes some server. -/
theorem OpcuaParsed.readIds [Inhabited β] (h : OpcuaParsed m p len β r) (hmsg : Holds m p opcuaMsgMsg)
    (ht : OpcuaTruncated m p len) (htype : opcuaTypeId m p = 631) {i : ℕ}
    (hi : i < opcuaIterations (opcuaReadCount m p)) :
    opcuaNodeidForm m (opcuaReadPos m p i) = 0x03 := by
  by_contra hform
  obtain ⟨n, hn⟩ := opcuaNodeidAt_numeric r hform
  -- a server where reading this node changes its value
  obtain ⟨s, hread, hvalue, hfind⟩ : ∃ s : OpcuaServer ρ β,
      s.onRead = some (fun _ _ => .boolean true) ∧ (s.nodes default).value = .boolean false ∧
        opcuaFindNode s (opcuaNodeidAt m (opcuaReadPos m p i) r ⟨0, .numeric 0⟩) = some default :=
    ⟨probeServer default _ (.boolean false), rfl, rfl, probeServer_find default _ hn⟩
  have hkept := h.kept ht demoEnv ⟨fun _ _ => 0, fun _ => 0⟩ s
  rw [opcuaDispatch_msg _ _ _ _ hmsg] at hkept
  have hnodes := congrArg OpcuaNode.value (congrFun hkept.1 default)
  rw [opcuaServiceAt_read_fst _ _ _ _ htype, hvalue] at hnodes
  have hset := opcuaReadAll_value demoEnv ⟨fun _ _ => 0, fun _ => 0⟩ r
    { s with sequenceNum := s.sequenceNum + 1 } hread hi hfind
  dsimp only at hnodes
  rw [hset] at hnodes
  cases hnodes

/-- So does a truncated write request: the final value does not depend on the
    value before. -/
theorem OpcuaParsed.writeIds [Inhabited β] (h : OpcuaParsed m p len β r)
    (hmsg : Holds m p opcuaMsgMsg) (ht : OpcuaTruncated m p len) (htype : opcuaTypeId m p = 673)
    {i : ℕ} (hi : i < opcuaIterations (opcuaWriteCount m p)) :
    opcuaNodeidForm m (opcuaWritePos m p i) = 0x03 := by
  by_contra hform
  obtain ⟨n, hn⟩ := opcuaNodeidAt_numeric r hform
  let id := opcuaNodeidAt m (opcuaWritePos m p i) r ⟨0, .numeric 0⟩
  let s : Bool → OpcuaServer ρ β := fun b => probeServer default id (.boolean b)
  have hrev : (s false).Revalued (s true) := ⟨rfl, fun _ => rfl⟩
  have hfinal : ∀ b, opcuaWriteFinal (s b) m p r demoEnv default = .boolean b := by
    intro b
    have hkept := h.kept ht demoEnv ⟨fun _ _ => 0, fun _ => 0⟩ (s b)
    rw [opcuaDispatch_write hmsg htype] at hkept
    have hnodes := congrFun hkept.1 default
    rw [opcuaWriteFinal, hnodes]
    rfl
  have hstored : opcuaWriteStored (s true) m p r demoEnv default =
      opcuaWriteStored (s false) m p r demoEnv default := by
    funext j
    rw [opcuaWriteStored, opcuaWriteStored, hrev.find]
  have htrue := hfinal true
  have hfalse := hfinal false
  rw [opcuaWriteFinal_eq, hstored] at htrue
  rw [opcuaWriteFinal_eq] at hfalse
  cases hlast : Loop.lastSome (opcuaWriteStored (s false) m p r demoEnv default)
      (List.range (opcuaIterations (opcuaWriteCount m p))) with
  | none =>
    have hnone := Loop.lastSome_eq_none.1 hlast i (List.mem_range.2 hi)
    have hhit : opcuaFindNode (s false) (opcuaNodeidAt m (opcuaWritePos m p i) r
        (demoEnv.nodeId i)) = some default := probeServer_find default _ hn
    rw [opcuaWriteStored, if_pos hhit] at hnone
    cases hnone
  | some w =>
    rw [hlast] at htrue hfalse
    cases htrue.symm.trans hfalse

theorem OpcuaParsed.create [Inhabited β] (h : OpcuaParsed m p len β r) (hmsg : Holds m p opcuaMsgMsg)
    (ht : OpcuaTruncated m p len) : opcuaTypeId m p ≠ 461 := by
  intro htype
  let s : OpcuaServer ρ β := probeServer default ⟨0, .numeric 0⟩ (opcuaNull ⟨0, .numeric 0⟩)
  have hkept := h.kept ht demoEnv ⟨fun _ _ => 0, fun _ => 0⟩ s
  rw [opcuaDispatch_msg demoEnv _ r s hmsg] at hkept
  have hcount := hkept.2.2
  rw [opcuaServiceAt_create demoEnv _ r s htype] at hcount
  cases hcount

/-- A truncated message that creates no session and names strings changes nothing. -/
theorem OpcuaFits.keeps (h : OpcuaFits m p len) (ht : OpcuaTruncated m p len) (env : OpcuaEnv ρ)
    (mem : Regions ρ) (s : OpcuaServer ρ β) :
    (opcuaDispatch env mem r s m (Cursor.start p)).1.Keeps s := by
  by_cases hmsg : Holds m p opcuaMsgMsg
  · rw [opcuaDispatch_msg env mem r s hmsg]
    have hcreate := h.create hmsg ht
    have hkeep : (opcuaServiceAt env mem r s m p).1.1 =
        { s with sequenceNum := s.sequenceNum + 1 } := by
      by_cases hread : opcuaTypeId m p = 631
      · rw [opcuaServiceAt_read_fst env mem r s hread]
        dsimp only
        rw [opcuaReadAll_strings env mem r { s with sequenceNum := s.sequenceNum + 1 }
          (h.readIds hmsg ht hread)]
      by_cases hwrite : opcuaTypeId m p = 673
      · rw [opcuaServiceAt_write_fst env mem r s hwrite]
        dsimp only
        rw [opcuaWriteAll_strings env r { s with sequenceNum := s.sequenceNum + 1 }
          (h.writeIds hmsg ht hwrite)]
      · obtain ⟨_, _, _, _, hout⟩ := opcuaServiceAt_other env mem r s hcreate hread hwrite
        rw [hout]
    show (opcuaServiceAt env mem r s m p).1.1.nodes = _ ∧ _ ∧ _
    rw [hkeep]
    exact ⟨rfl, rfl, rfl⟩
  by_cases hopn : Holds m p opcuaMsgOpn
  · rw [opcuaDispatch_opn env mem r s hopn]
    exact ⟨rfl, rfl, rfl⟩
  by_cases hhel : Holds m p opcuaMsgHel
  · rw [opcuaDispatch_hel env mem r s hhel]
    exact ⟨rfl, rfl, rfl⟩
  by_cases hclo : Holds m p opcuaMsgClo
  · rw [opcuaDispatch_clo env mem r s hclo]
    exact trivial
  · rw [opcuaDispatch_other env mem r s hhel hopn hmsg hclo]
    exact trivial

end

end Gracemont
