/-
  Gracemont protocols — what an OPC UA write request changes.

  * `OpcuaServer.Revalued`: the servers that differ in values of nodes only;
  * `opcuaNodeid?`, `opcuaVariant?`: what an encoding stands for, where the
    decoders assign something;
  * `OpcuaWriteFramed`: each node gets the last value that the request carries for
    it, and success is only reported for values that were stored;
  * `opcua_write_framed_iff`: this holds iff each entry handled for an existing
    node carries a value of a known encoding, the node ids are of known forms, and
    the entries beyond the sixteenth change nothing.
-/
import Gracemont.Protocols.OpcuaNodes
import Gracemont.Protocols.OpcuaRequest

namespace Gracemont

open Lib

variable {ρ β : Type}

/-! ## Values -/

/-- `s'` is `s` with other values. -/
structure OpcuaServer.Revalued (s s' : OpcuaServer ρ β) : Prop where
  server : s' = { s with nodes := s'.nodes }
  node : ∀ a, s'.nodes a = { s.nodes a with value := (s'.nodes a).value }

namespace OpcuaServer.Revalued
variable {s s' s'' : OpcuaServer ρ β}

theorem refl (s : OpcuaServer ρ β) : s.Revalued s := ⟨rfl, fun _ => rfl⟩

theorem trans (h : s.Revalued s') (h' : s'.Revalued s'') : s.Revalued s'' := by
  constructor
  · have hs := h'.server
    rw [h.server] at hs
    exact hs
  · intro a
    rw [h'.node a, h.node a]

theorem nodeId (h : s.Revalued s') (a : β) : (s'.nodes a).nodeId = (s.nodes a).nodeId := by
  rw [h.node a]

theorem children (h : s.Revalued s') (a : β) : (s'.nodes a).children = (s.nodes a).children := by
  rw [h.node a]

theorem next (h : s.Revalued s') (a : β) : (s'.nodes a).next = (s.nodes a).next := by
  rw [h.node a]

theorem findRecursive (h : s.Revalued s') (id : OpcuaNodeid ρ) (depth : ℕ) (p : Option β) :
    findRecursive s'.nodes id depth p = findRecursive s.nodes id depth p := by
  induction depth generalizing p with
  | zero => rfl
  | succ depth ih =>
    cases p with
    | none => rfl
    | some a => simp only [Gracemont.findRecursive, h.nodeId, h.children, h.next, ih]

/-- **Lookups** do not depend on values. -/
theorem find (h : s.Revalued s') (id : OpcuaNodeid ρ) : opcuaFindNode s' id = opcuaFindNode s id := by
  have hfind := h.findRecursive id (s.added.length + 1) s.rootNode
  rw [h.server]
  exact hfind

variable [DecidableEq β]

theorem setValue (s : OpcuaServer ρ β) (a : β) (value : OpcuaVariant ρ) :
    s.Revalued (s.setValue a value) := by
  refine ⟨rfl, fun b => ?_⟩
  by_cases hb : b = a
  · subst hb
    simp [OpcuaServer.setValue]
  · simp [OpcuaServer.setValue, hb]

theorem notifyRead (s : OpcuaServer ρ β) (nodeId : OpcuaNodeid ρ) (a : β) :
    s.Revalued (s.notifyRead nodeId a) := by
  unfold OpcuaServer.notifyRead
  split
  · exact refl s
  · exact setValue s a _

theorem getValue (mem : Regions ρ) (s : OpcuaServer ρ β) (nodeId : OpcuaNodeid ρ) :
    s.Revalued (opcuaGetValue mem s nodeId).1 := by
  unfold opcuaGetValue
  split
  · exact notifyRead s nodeId _
  · exact refl s

theorem opcuaSetValue (s : OpcuaServer ρ β) (nodeId : OpcuaNodeid ρ) (value : OpcuaVariant ρ) :
    s.Revalued (opcuaSetValue s nodeId value).1 := by
  unfold Gracemont.opcuaSetValue
  split
  · exact setValue s _ value
  · exact refl s

omit [DecidableEq β] in
/-- A loop whose iterations only change values only changes values. -/
theorem collect {ι τ : Type} {f : OpcuaServer ρ β → ι → OpcuaServer ρ β × τ}
    (hf : ∀ (s : OpcuaServer ρ β) (a : ι), s.Revalued (f s a).1) (s : OpcuaServer ρ β) (l : List ι) :
    s.Revalued (Loop.collect f s l).1 := by
  induction l generalizing s with
  | nil => exact refl s
  | cons a l ih => exact (hf s a).trans (ih (f s a).1)

omit [DecidableEq β] in
/-- If the iterations assign to the value of a node, the last value is left. -/
theorem collect_value {ι τ : Type} {f : OpcuaServer ρ β → ι → OpcuaServer ρ β × τ}
    (hf : ∀ (s : OpcuaServer ρ β) (a : ι), s.Revalued (f s a).1) {a : β}
    {w : ι → Option (OpcuaVariant ρ)} {s : OpcuaServer ρ β}
    (hw : ∀ s', s.Revalued s' → ∀ i, ((f s' i).1.nodes a).value = (w i).getD (s'.nodes a).value)
    (l : List ι) : ((Loop.collect f s l).1.nodes a).value =
      (Loop.lastSome w l).getD (s.nodes a).value := by
  rw [← Loop.foldl_getD]
  induction l generalizing s with
  | nil => rfl
  | cons i l ih =>
    have hrest := ih (s := (f s i).1) fun s' hs' => hw s' ((hf s i).trans hs')
    rw [Loop.collect, List.foldl_cons, ← hw s (refl s) i]
    exact hrest

end OpcuaServer.Revalued

section
variable [DecidableEq β] (s : OpcuaServer ρ β) (id : OpcuaNodeid ρ) (value : OpcuaVariant ρ)

theorem opcuaSetValue_value (a : β) : ((opcuaSetValue s id value).1.nodes a).value =
    (if opcuaFindNode s id = some a then some value else none).getD (s.nodes a).value := by
  unfold opcuaSetValue
  split
  · next node hnode =>
    by_cases h : a = node
    · subst h
      simp [hnode, OpcuaServer.setValue]
    · simp [hnode, OpcuaServer.setValue, h, Ne.symm h]
  · next hnode => simp [hnode]

theorem opcuaSetValue_result : (opcuaSetValue s id value).2 =
    if (opcuaFindNode s id).isSome then opcuaStatusGood else opcuaStatusBadNodeidUnknown := by
  unfold opcuaSetValue
  split
  · next hnode => rw [hnode]; rfl
  · next hnode => rw [hnode]; rfl

/-- **Setting values** in a loop leaves the last one for each node. -/
theorem opcuaSetValue_collect (l : List (OpcuaNodeid ρ × OpcuaVariant ρ)) (a : β) :
    ((Loop.collect (fun s entry => opcuaSetValue s entry.1 entry.2) s l).1.nodes a).value =
      (Loop.lastSome (fun entry => if opcuaFindNode s entry.1 = some a then some entry.2 else none)
        l).getD (s.nodes a).value := by
  refine OpcuaServer.Revalued.collect_value
    (fun (s : OpcuaServer ρ β) entry => .opcuaSetValue s entry.1 entry.2)
    (fun s' hs' entry => ?_) l
  rw [opcuaSetValue_value, hs'.find]

theorem opcuaSetValue_results (l : List (OpcuaNodeid ρ × OpcuaVariant ρ)) :
    (Loop.collect (fun s entry => opcuaSetValue s entry.1 entry.2) s l).2 = l.map fun entry =>
      if (opcuaFindNode s entry.1).isSome then opcuaStatusGood else opcuaStatusBadNodeidUnknown := by
  induction l generalizing s with
  | nil => rfl
  | cons entry l ih =>
    have hfind := (OpcuaServer.Revalued.opcuaSetValue s entry.1 entry.2).find
    rw [Loop.collect, ih, List.map_cons, opcuaSetValue_result]
    simp only [hfind]

end

/-- **Reading and writing** only change values. -/
theorem opcuaReadAll_revalued [DecidableEq β] (env : OpcuaEnv ρ) (mem : Regions ρ) (r : ρ)
    (s : OpcuaServer ρ β) (m : ℕ → BitVec 8) (p : ℕ) :
    s.Revalued (opcuaReadAll env mem r s m p).1 := .collect (.getValue mem) s _

theorem opcuaWriteAll_revalued [DecidableEq β] (env : OpcuaEnv ρ) (r : ρ) (s : OpcuaServer ρ β)
    (m : ℕ → BitVec 8) (p : ℕ) : s.Revalued (opcuaWriteAll env r s m p).1 := by
  rw [opcuaWriteAll]
  refine .collect (fun s entry => ?_) s _
  exact .opcuaSetValue s entry.1 entry.2

/-! ## Known encodings -/

section
variable (m : ℕ → BitVec 8) (p : ℕ) (r : ρ)

/-- The node id at an offset, if its encoding has a form that the decoder knows. -/
def opcuaNodeid? : Option (OpcuaNodeid ρ) :=
  if opcuaNodeidForm m p ≤ 0x03 then some (opcuaNodeidAt m p r ⟨0, .numeric 0⟩) else none

/-- The variant at an offset, if the decoder has a case for its type, and knows the
    form where that is a node id. -/
def opcuaVariant? : Option (OpcuaVariant ρ) :=
  match opcuaCase (u8At m p) with
  | .other _ => none
  | .nodeid => (opcuaNodeid? m (p + 1) r).map .nodeid
  | _ => some (opcuaVariantAt m p r ⟨0, .numeric 0⟩)

/-- For other forms, a local variable that was not assigned. -/
theorem opcuaNodeidAt_eq (junk : OpcuaNodeid ρ) :
    opcuaNodeidAt m p r junk = (opcuaNodeid? m p r).getD junk := by
  unfold opcuaNodeid? opcuaNodeidAt
  generalize opcuaNodeidForm m p = form
  by_cases h0 : form = 0x00
  · subst h0; rfl
  by_cases h1 : form = 0x01
  · subst h1; rfl
  by_cases h2 : form = 0x02
  · subst h2; rfl
  by_cases h3 : form = 0x03
  · subst h3; rfl
  have hle : ¬ form ≤ 0x03 := by bv_omega
  rw [if_neg h0, if_neg h1, if_neg h2, if_neg h3, if_neg hle]
  rfl

/-- What is known does not depend on the local variable. -/
theorem opcuaVariantAt_eq {v : OpcuaVariant ρ} (h : opcuaVariant? m p r = some v)
    (junk : OpcuaNodeid ρ) : opcuaVariantAt m p r junk = v := by
  unfold opcuaVariant? at h
  unfold opcuaVariantAt at h ⊢
  cases hcase : opcuaCase (u8At m p) with
  | nodeid =>
    rw [hcase] at h
    obtain ⟨id, hid, rfl⟩ := Option.map_eq_some_iff.1 h
    show OpcuaVariant.nodeid (opcuaNodeidAt m (p + 1) r junk) = _
    rw [opcuaNodeidAt_eq, hid]
    rfl
  | other type => rw [hcase] at h; cases h
  | boolean => rw [hcase] at h; exact Option.some.inj h
  | scalar t => rw [hcase] at h; exact Option.some.inj h
  | string => rw [hcase] at h; exact Option.some.inj h

end

/-! ## The frame -/

section
variable (s : OpcuaServer ρ β) (m : ℕ → BitVec 8) (p : ℕ) (r : ρ)

/-- The node that an entry of the write request at `p` names. -/
def opcuaWriteNode (i : ℕ) : Option β :=
  (opcuaNodeid? m (opcuaWritePos m p i) r).bind (opcuaFindNode s)

/-- The value of an entry, if it has one and its encoding is known. -/
def opcuaWriteValue (i : ℕ) : Option (OpcuaVariant ρ) :=
  if opcuaHasValue m (opcuaWritePos m p i) then
    opcuaVariant? m (opcuaIndexRangeEnd m (opcuaWritePos m p i) + 1) r
  else none

/-- What an entry carries for the node `a`: a value, which is `none` if its
    encoding is not known. -/
def opcuaWriteCarried (a : β) [DecidableEq β] (i : ℕ) : Option (Option (OpcuaVariant ρ)) :=
  if opcuaWriteNode s m p r i = some a ∧ opcuaHasValue m (opcuaWritePos m p i) then
    some (opcuaWriteValue m p r i)
  else none

variable [DecidableEq β]

/-- What the last of `n` entries that has a value for the node `a` carries. -/
def opcuaLastCarried (a : β) (n : ℕ) : Option (Option (OpcuaVariant ρ)) :=
  Loop.lastSome (opcuaWriteCarried s m p r a) (List.range n)

/-- What a write request may change and report, whatever the number of entries. -/
structure OpcuaWriteFrame (s' : OpcuaServer ρ β) (results : List (BitVec 32)) : Prop where
  carried : ∀ a w, opcuaLastCarried s m p r a (opcuaWriteCount m p).toNat = some w →
    w = some (s'.nodes a).value
  others : ∀ a, opcuaLastCarried s m p r a (opcuaWriteCount m p).toNat = none →
    (s'.nodes a).value = (s.nodes a).value
  good : ∀ i, results[i]? = some opcuaStatusGood →
    (∃ a, opcuaWriteNode s m p r i = some a) ∧ opcuaWriteValue m p r i ≠ none

/-- The request is handled within the frame, whatever its handler finds on the stack. -/
def OpcuaWriteFramed : Prop :=
  ∀ (env : OpcuaEnv ρ) (mem : Regions ρ), ∃ s' results,
    (opcuaDispatch env mem r s m (Cursor.start p)).1 = .respond s' opcuaMsgMsg
      (some (opcuaServiceHead s m p ++ opcuaWriteBody env (opcuaWriteCount m p) results)) ∧
    OpcuaWriteFrame s m p r s' results

/-- The requests that are.  Entries handled for existing nodes carry values whose
    encoding is known: of a type that the switch of the decoder has a case for, and
    if it is a node id, of one of the forms 0 to 3.  Node ids of other forms could
    only name nodes that do not exist, and the last value that the request carries
    for a node is the last one that is handled. -/
structure OpcuaWriteClean : Prop where
  value : ∀ i < opcuaIterations (opcuaWriteCount m p), ∀ a, opcuaWriteNode s m p r i = some a →
    opcuaWriteValue m p r i ≠ none
  unknown : ∀ i < opcuaIterations (opcuaWriteCount m p),
    opcuaNodeid? m (opcuaWritePos m p i) r = none → ∀ id, opcuaFindNode s id = none
  last : ∀ a w, opcuaLastCarried s m p r a (opcuaWriteCount m p).toNat = some w →
    (opcuaLastCarried s m p r a (opcuaIterations (opcuaWriteCount m p))).getD
      (some (s.nodes a).value) = w

end

theorem writeU32_inj {v w : BitVec 32} (h : writeU32 v = writeU32 w) : v = w := by
  have hle := congrArg ofLe h
  simp only [writeU32, ofLe_leBytes] at hle
  have hv := v.isLt
  have hw := w.isLt
  exact BitVec.eq_of_toNat_eq (by omega)

theorem flatten_writeU32_inj {l l' : List (BitVec 32)}
    (h : (l.map writeU32).flatten = (l'.map writeU32).flatten) : l = l' := by
  induction l generalizing l' with
  | nil =>
    cases l' with
    | nil => rfl
    | cons w l' =>
      have hlen := congrArg List.length h
      simp at hlen
      omega
  | cons v l ih =>
    cases l' with
    | nil =>
      have hlen := congrArg List.length h
      simp at hlen
    | cons w l' =>
      obtain ⟨hhead, htail⟩ := List.append_inj h (by rw [writeU32_length, writeU32_length])
      rw [writeU32_inj hhead, ih htail]

/-- The results can be read off a write response. -/
theorem opcuaWriteBody_inj {env : OpcuaEnv ρ} {nodeCount : BitVec 32} {l l' : List (BitVec 32)}
    (h : opcuaWriteBody env nodeCount l = opcuaWriteBody env nodeCount l') : l = l' := by
  have hresults := List.append_cancel_left h
  exact flatten_writeU32_inj (List.append_cancel_left (List.append_cancel_right hresults))

section
variable [DecidableEq β] {s : OpcuaServer ρ β} {m : ℕ → BitVec 8} {p : ℕ} {r : ρ}

/-- **The response** to a write request. -/
theorem opcuaDispatch_write (hmsg : Holds m p opcuaMsgMsg) (htype : opcuaTypeId m p = 673)
    (env : OpcuaEnv ρ) (mem : Regions ρ) :
    let out := opcuaWriteAll env r { s with sequenceNum := s.sequenceNum + 1 } m p
    (opcuaDispatch env mem r s m (Cursor.start p)).1 = .respond out.1 opcuaMsgMsg
      (some (opcuaServiceHead s m p ++ opcuaWriteBody env (opcuaWriteCount m p) out.2)) := by
  intro out
  have hfst := opcuaServiceAt_write_fst (m := m) (p := p) env mem r s htype
  rw [opcuaDispatch_msg env mem r s hmsg]
  simp only [hfst]
  rfl

variable (s m p r) in
/-- What an entry stores in the node `a`, with these locals. -/
def opcuaWriteStored (env : OpcuaEnv ρ) (a : β) (i : ℕ) : Option (OpcuaVariant ρ) :=
  if opcuaFindNode s (opcuaNodeidAt m (opcuaWritePos m p i) r (env.nodeId i)) = some a then
    some (opcuaWriteItemValue env r i m (opcuaWritePos m p i))
  else none

variable (s m p r) in
/-- The value that a node ends with. -/
def opcuaWriteFinal (env : OpcuaEnv ρ) (a : β) : OpcuaVariant ρ :=
  ((opcuaWriteAll env r { s with sequenceNum := s.sequenceNum + 1 } m p).1.nodes a).value

theorem opcuaWriteFinal_eq (env : OpcuaEnv ρ) (a : β) :
    opcuaWriteFinal s m p r env a =
      (Loop.lastSome (opcuaWriteStored s m p r env a)
        (List.range (opcuaIterations (opcuaWriteCount m p)))).getD (s.nodes a).value := by
  rw [opcuaWriteFinal, opcuaWriteAll, opcuaSetValue_collect, opcuaWriteEntries, Loop.lastSome_map]
  rfl

theorem opcuaWriteAll_result (env : OpcuaEnv ρ) (i : ℕ) :
    (opcuaWriteAll env r { s with sequenceNum := s.sequenceNum + 1 } m p).2[i]? =
        some opcuaStatusGood ↔
      i < opcuaIterations (opcuaWriteCount m p) ∧
        (opcuaFindNode s (opcuaNodeidAt m (opcuaWritePos m p i) r (env.nodeId i))).isSome := by
  have hne : opcuaStatusBadNodeidUnknown ≠ opcuaStatusGood := by decide
  rw [opcuaWriteAll, opcuaSetValue_results, opcuaWriteEntries, List.map_map, List.getElem?_map]
  by_cases hi : i < opcuaIterations (opcuaWriteCount m p)
  · rw [List.getElem?_range hi]
    simp only [Option.map_some, Function.comp, Option.some.injEq]
    constructor
    · intro h
      refine ⟨hi, ?_⟩
      by_contra hnone
      exact hne ((if_neg hnone).symm.trans h)
    · rintro ⟨-, hsome⟩
      exact if_pos hsome
  · rw [List.getElem?_eq_none (by simpa using hi)]
    simp [hi]

theorem opcuaIterations_le (nodeCount : BitVec 32) : opcuaIterations nodeCount ≤ nodeCount.toNat :=
  Nat.min_le_left ..

/-- Where existing nodes get known values and other forms name nothing, what is
    stored is what is carried. -/
theorem opcuaWriteStored_eq
    (hvalue : ∀ i < opcuaIterations (opcuaWriteCount m p), ∀ a, opcuaWriteNode s m p r i = some a →
      opcuaWriteValue m p r i ≠ none)
    (hunknown : ∀ i < opcuaIterations (opcuaWriteCount m p),
      opcuaNodeid? m (opcuaWritePos m p i) r = none → ∀ id, opcuaFindNode s id = none)
    (env : OpcuaEnv ρ) (a : β) {i : ℕ} (hi : i < opcuaIterations (opcuaWriteCount m p)) :
    opcuaWriteCarried s m p r a i = (opcuaWriteStored s m p r env a i).map some := by
  have hnode : opcuaFindNode s (opcuaNodeidAt m (opcuaWritePos m p i) r (env.nodeId i)) =
      opcuaWriteNode s m p r i := by
    rw [opcuaNodeidAt_eq, opcuaWriteNode]
    cases hid : opcuaNodeid? m (opcuaWritePos m p i) r with
    | none => exact hunknown i hi hid _
    | some id => rfl
  rw [opcuaWriteStored, opcuaWriteCarried, hnode]
  by_cases ha : opcuaWriteNode s m p r i = some a
  · obtain ⟨v, hv⟩ := Option.ne_none_iff_exists'.1 (hvalue i hi a ha)
    have hhas : opcuaHasValue m (opcuaWritePos m p i) := by
      by_contra hno
      rw [opcuaWriteValue, if_neg hno] at hv
      cases hv
    rw [if_pos ha, if_pos ⟨ha, hhas⟩, hv, opcuaWriteItemValue, if_pos hhas]
    rw [opcuaWriteValue, if_pos hhas] at hv
    rw [opcuaVariantAt_eq m _ r hv]
    rfl
  · rw [if_neg ha, if_neg fun hc => ha hc.1]
    rfl

/-- A node ends with the last value that is carried by the entries handled. -/
theorem opcuaWriteFinal_carried
    (hvalue : ∀ i < opcuaIterations (opcuaWriteCount m p), ∀ a, opcuaWriteNode s m p r i = some a →
      opcuaWriteValue m p r i ≠ none)
    (hunknown : ∀ i < opcuaIterations (opcuaWriteCount m p),
      opcuaNodeid? m (opcuaWritePos m p i) r = none → ∀ id, opcuaFindNode s id = none)
    (env : OpcuaEnv ρ) (a : β) :
    (opcuaLastCarried s m p r a (opcuaIterations (opcuaWriteCount m p))).getD
      (some (s.nodes a).value) = some (opcuaWriteFinal s m p r env a) := by
  have hcarried : opcuaLastCarried s m p r a (opcuaIterations (opcuaWriteCount m p)) =
      (Loop.lastSome (opcuaWriteStored s m p r env a)
        (List.range (opcuaIterations (opcuaWriteCount m p)))).map some := by
    rw [opcuaLastCarried, ← Loop.lastSome_option_map]
    refine Loop.lastSome_congr fun i hi => ?_
    exact opcuaWriteStored_eq hvalue hunknown env a (List.mem_range.1 hi)
  rw [hcarried, opcuaWriteFinal_eq]
  cases Loop.lastSome (opcuaWriteStored s m p r env a)
    (List.range (opcuaIterations (opcuaWriteCount m p))) <;> rfl

/-- A handler that finds zeros. -/
def demoEnv : OpcuaEnv ρ :=
  ⟨fun _ => 0, (0, 0), fun _ => ⟨0, .numeric 0⟩, fun _ => opcuaNull ⟨0, .numeric 0⟩,
    fun _ => ⟨0, .numeric 0⟩⟩

/-- The frame holds of what the loop leaves. -/
theorem OpcuaWriteFramed.frame (h : OpcuaWriteFramed s m p r) (hmsg : Holds m p opcuaMsgMsg)
    (htype : opcuaTypeId m p = 673) (env : OpcuaEnv ρ) : OpcuaWriteFrame s m p r
      (opcuaWriteAll env r { s with sequenceNum := s.sequenceNum + 1 } m p).1
      (opcuaWriteAll env r { s with sequenceNum := s.sequenceNum + 1 } m p).2 := by
  obtain ⟨s', results, hout, hf⟩ := h env ⟨fun _ _ => 0, fun _ => 0⟩
  rw [opcuaDispatch_write hmsg htype env] at hout
  obtain ⟨hs, -, hbody⟩ := OpcuaAction.respond.inj hout
  have hresults := opcuaWriteBody_inj (List.append_cancel_left (Option.some.inj hbody))
  rw [hs, hresults]
  exact hf

/-- **A write request stays within its frame** iff entries handled for existing
    nodes carry values of known encodings, other forms of node ids could name no
    node, and for each node the last value is not beyond the sixteenth entry. -/
theorem opcua_write_framed_iff (hmsg : Holds m p opcuaMsgMsg) (htype : opcuaTypeId m p = 673) :
    OpcuaWriteFramed s m p r ↔ OpcuaWriteClean s m p r := by
  constructor
  · intro h
    have hframe := h.frame hmsg htype
    have hvalue : ∀ i < opcuaIterations (opcuaWriteCount m p), ∀ a,
        opcuaWriteNode s m p r i = some a → opcuaWriteValue m p r i ≠ none := by
      intro i hi a ha
      obtain ⟨id, hid, hfind⟩ := Option.bind_eq_some_iff.1 ha
      refine ((hframe demoEnv).good i ?_).2
      refine (opcuaWriteAll_result (s := s) demoEnv i).2 ⟨hi, ?_⟩
      rw [opcuaNodeidAt_eq, hid]
      exact Option.isSome_of_eq_some hfind
    have hunknown : ∀ i < opcuaIterations (opcuaWriteCount m p),
        opcuaNodeid? m (opcuaWritePos m p i) r = none → ∀ id, opcuaFindNode s id = none := by
      intro i hi hid id
      by_contra hfind
      -- the local may hold that id
      have hgood := (opcuaWriteAll_result (s := s) (r := r) { demoEnv with nodeId := fun _ => id } i).2
        ⟨hi, by rw [opcuaNodeidAt_eq, hid]; exact Option.ne_none_iff_isSome.1 hfind⟩
      obtain ⟨a, ha⟩ := ((hframe _).good i hgood).1
      rw [opcuaWriteNode, hid] at ha
      cases ha
    refine ⟨hvalue, hunknown, fun a w hw => ?_⟩
    have hcarried : w = some (opcuaWriteFinal s m p r demoEnv a) :=
      (hframe demoEnv).carried a w hw
    rw [opcuaWriteFinal_carried hvalue hunknown demoEnv a, hcarried]
  · intro h env mem
    have hfinal := opcuaWriteFinal_carried h.value h.unknown env
    refine ⟨_, _, opcuaDispatch_write hmsg htype env mem, ?_, ?_, ?_⟩
    · intro a w hw
      exact (h.last a w hw).symm.trans (hfinal a)
    · intro a ha
      have hnone : opcuaLastCarried s m p r a (opcuaIterations (opcuaWriteCount m p)) = none := by
        refine Loop.lastSome_eq_none.2 fun i hi => Loop.lastSome_eq_none.1 ha i ?_
        exact List.mem_range.2 (Nat.lt_of_lt_of_le (List.mem_range.1 hi) (opcuaIterations_le _))
      have hold := hfinal a
      rw [hnone] at hold
      exact (Option.some.inj hold).symm
    · intro i hi
      obtain ⟨hlt, hfound⟩ := (opcuaWriteAll_result (s := s) env i).1 hi
      cases hid : opcuaNodeid? m (opcuaWritePos m p i) r with
      | none => rw [h.unknown i hlt hid] at hfound; cases hfound
      | some id =>
        rw [opcuaNodeidAt_eq, hid] at hfound
        obtain ⟨a, ha⟩ := Option.isSome_iff_exists.1 hfound
        have hnode : opcuaWriteNode s m p r i = some a := by
          rw [opcuaWriteNode, hid]
          exact ha
        exact ⟨⟨a, hnode⟩, h.value i hlt a hnode⟩

end

/-! ## Examples -/

/-- A service request with the given body. -/
def demoRequest (typeId : BitVec 16) (body : List (BitVec 8)) : ℕ → BitVec 8 :=
  (demoMemory (opcuaMsgMsg ++ [0x46] ++ writeU32 (BitVec.ofNat 32 (52 + body.length)) ++
    List.replicate 16 0 ++ [1, 0] ++ writeU16 typeId ++ List.replicate 24 0 ++ body)).byte ()

/-- A request to write `value`, behind its mask, to the numeric node 1. -/
def demoWrite (value : List (BitVec 8)) : ℕ → BitVec 8 :=
  demoRequest 673 (writeU32 1 ++ [0, 1] ++ writeU32 13 ++ writeU32 0xFFFFFFFF ++ value)

theorem opcua_write_framed_boolean : OpcuaWriteFramed demoSpace (demoWrite [1, 1, 1]) 0 () := by
  have hcount : (opcuaWriteCount (demoWrite [1, 1, 1]) 0).toNat = 1 := by decide
  have hiter : opcuaIterations (opcuaWriteCount (demoWrite [1, 1, 1]) 0) = 1 := by decide
  refine (opcua_write_framed_iff (by decide) (by decide)).2 ⟨?_, ?_, ?_⟩
  · rintro i hi a -
    obtain rfl : i = 0 := by omega
    decide
  · intro i hi hunknown
    obtain rfl : i = 0 := by omega
    cases hunknown
  · intro a w hw
    rw [hcount] at hw
    rw [hiter, hw]
    rfl

/-- **A value of another type** is reported as stored, but lost: a time of eight bytes. -/
theorem opcua_write_framed_datetime :
    ¬ OpcuaWriteFramed demoSpace (demoWrite [1, 13, 1, 2, 3, 4, 5, 6, 7, 8]) 0 () := by
  intro h
  have hframe := h.frame (by decide) (by decide) demoEnv
  have hgood := (opcuaWriteAll_result (s := demoSpace)
    (m := demoWrite [1, 13, 1, 2, 3, 4, 5, 6, 7, 8]) (p := 0) (r := ()) demoEnv 0).2
    ⟨by decide, by decide⟩
  exact (hframe.good 0 hgood).2 (by decide)

/-- **Without a value**, the root gets what the local variable holds, and success
    is reported. -/
theorem opcua_write_framed_empty : ¬ OpcuaWriteFramed demoSpace (demoWrite [0]) 0 () := by
  intro h
  have hframe := h.frame (by decide) (by decide) demoEnv
  have hgood := (opcuaWriteAll_result (s := demoSpace) (m := demoWrite [0]) (p := 0) (r := ())
    demoEnv 0).2 ⟨by decide, by decide⟩
  exact (hframe.good 0 hgood).2 (by decide)

end Gracemont
