/-
  Gracemont protocols — lookups in the OPC UA address space.

  Nodes are linked by first child and next sibling from the root, which is the
  first node added without a parent.  A lookup searches that forest and compares
  numbers only.

  * `opcuaAddLts`: the sequences of successful calls of `opcua_add_node`;
  * `OpcuaServer.Under`: the nodes whose chain of parents ends at the root;
  * `opcua_find_node_iff`: a lookup is right iff no added node has the id, or it
    is numeric and some node with it is under the root.
-/
import Mathlib.Data.List.Perm.Subperm
import Gracemont.Lib.Forest
import Gracemont.Lib.Trace
import Gracemont.Protocols.OpcuaCodec

namespace Gracemont

open Lib

variable {ρ β : Type}

/-! ## Specification -/

/-- A call of `opcua_add_node`, where `heap_alloc` returns `node`. -/
structure OpcuaAddCall (ρ β : Type) where
  node : β
  parent : Option β
  nodeId : OpcuaNodeid ρ

/-- Successful calls: the memory allocated is not in use, and the parent is a
    node added before, or null. -/
def opcuaAddLts (ρ β : Type) [DecidableEq β] : Lts (OpcuaServer ρ β) (OpcuaAddCall ρ β) where
  init s := ∃ nodes sessions, s = opcuaServerInit nodes sessions
  step s e s' := e.node ∉ s.added ∧ (∀ p, e.parent = some p → p ∈ s.added) ∧
    s' = opcuaAddNode s e.node e.parent e.nodeId

/-- The chain of parents of a node ends at the root. -/
inductive OpcuaServer.Under (s : OpcuaServer ρ β) : β → Prop
  | root {a : β} : s.rootNode = some a → s.Under a
  | child {a p : β} : (s.nodes a).parent = some p → s.Under p → s.Under a

/-- `opcua_find_node` returns a node iff some added node has an equal id, and the
    node it returns has that id. -/
structure OpcuaLookup (mem : Regions ρ) (s : OpcuaServer ρ β) (id : OpcuaNodeid ρ) : Prop where
  found_iff : (∃ a, opcuaFindNode s id = some a) ↔
    ∃ a ∈ s.added, (s.nodes a).nodeId.Same mem mem id
  found_same : ∀ a, opcuaFindNode s id = some a → (s.nodes a).nodeId.Same mem mem id

/-! ## The comparison -/

theorem OpcuaNodeid.found_eq_true {a b : OpcuaNodeid ρ} :
    a.found b = true ↔ a.ns = b.ns ∧ ∃ n, a.id = .numeric n ∧ b.id = .numeric n := by
  rw [OpcuaNodeid.found, Bool.and_eq_true, decide_eq_true_eq]
  refine and_congr_right fun _ => ⟨fun h => ?_, ?_⟩
  · split at h
    · rename_i n k ha hb
      exact ⟨n, ha, by rw [hb, of_decide_eq_true h]⟩
    · cases h
  · rintro ⟨n, ha, hb⟩
    rw [ha, hb]
    exact decide_eq_true rfl

theorem OpcuaNodeid.same_of_found (mem : Regions ρ) {a b : OpcuaNodeid ρ} (h : a.found b = true) :
    a.Same mem mem b := by
  obtain ⟨hns, n, ha, hb⟩ := OpcuaNodeid.found_eq_true.1 h
  exact ⟨hns, by rw [ha, hb]⟩

/-- For numeric ids the comparison is equality. -/
theorem OpcuaNodeid.found_of_same {mem : Regions ρ} {a b : OpcuaNodeid ρ} (h : a.Same mem mem b)
    {n : BitVec 32} (hb : b.id = .numeric n) : a.found b = true := by
  obtain ⟨hns, hid⟩ := h
  refine OpcuaNodeid.found_eq_true.2 ⟨hns, n, ?_, hb⟩
  rw [hb] at hid
  cases ha : a.id with
  | numeric k => rw [ha] at hid; cases hid; rfl
  | string data len => rw [ha] at hid; cases hid
  | guid bytes => rw [ha] at hid; cases hid
  | byteString data len => rw [ha] at hid; cases hid

/-- The search of the model is one in a forest. -/
theorem findRecursive_eq (nodes : Store β (OpcuaNode ρ β)) (id : OpcuaNodeid ρ) (depth : ℕ)
    (p : Option β) : findRecursive nodes id depth p =
      Forest.search (nodes.field OpcuaNode.children) (nodes.field OpcuaNode.next)
        (fun a => (nodes a).nodeId.found id) depth p := by
  induction depth generalizing p with
  | zero => rfl
  | succ depth ih =>
    cases p with
    | none => rfl
    | some a =>
      rw [findRecursive, Forest.search, ih, ih]
      rfl

/-! ## Adding a node -/

/-- The chain of parents of a node stays among nodes that contain their parents. -/
theorem OpcuaServer.Under.congr {s s' : OpcuaServer ρ β} {S : List β}
    (hclosed : ∀ a ∈ S, ∀ p, (s.nodes a).parent = some p → p ∈ S)
    (hparent : ∀ a ∈ S, (s'.nodes a).parent = (s.nodes a).parent)
    (hroot : ∀ a ∈ S, s.rootNode = some a → s'.rootNode = some a) {a : β} (h : s.Under a)
    (ha : a ∈ S) : s'.Under a := by
  induction h with
  | root h => exact .root (hroot _ ha h)
  | child h _ ih => exact .child ((hparent _ ha).trans h) (ih (hclosed _ ha _ h))

section
variable [DecidableEq β] {s : OpcuaServer ρ β} {node : β} {parent : Option β}
  {nodeId : OpcuaNodeid ρ}

@[simp] theorem opcuaAddNode_added :
    (opcuaAddNode s node parent nodeId).added = node :: s.added := by
  cases parent with
  | some p => rfl
  | none => rw [opcuaAddNode]; split_ifs <;> rfl

@[simp] theorem opcuaAddNode_sessionCount :
    (opcuaAddNode s node parent nodeId).sessionCount = s.sessionCount := by
  cases parent with
  | some p => rfl
  | none => rw [opcuaAddNode]; split_ifs <;> rfl

theorem opcuaAddNode_rootNode : (opcuaAddNode s node parent nodeId).rootNode =
    if parent = none ∧ s.rootNode = none then some node else s.rootNode := by
  cases parent with
  | some p => rfl
  | none =>
    rw [opcuaAddNode]
    by_cases h : s.rootNode = none
    · simp [h]
    · simp [h]

theorem opcuaAddNode_node :
    ((opcuaAddNode s node parent nodeId).nodes node).parent = parent ∧
      ((opcuaAddNode s node parent nodeId).nodes node).nodeId = nodeId := by
  cases parent with
  | some p =>
    rw [opcuaAddNode]
    by_cases h : node = p
    · subst h; simp
    · simp [h]
  | none => rw [opcuaAddNode]; split_ifs <;> simp

/-- The other nodes keep everything but their first child. -/
theorem opcuaAddNode_of_ne {a : β} (h : a ≠ node) :
    (opcuaAddNode s node parent nodeId).nodes a =
      if parent = some a then { s.nodes a with children := some node } else s.nodes a := by
  cases parent with
  | some p =>
    rw [opcuaAddNode]
    by_cases hp : a = p
    · subst hp; simp [h]
    · simp [h, hp, Ne.symm hp]
  | none => rw [opcuaAddNode]; split_ifs <;> simp_all

theorem opcuaAddNode_parent {a : β} (h : a ≠ node) :
    ((opcuaAddNode s node parent nodeId).nodes a).parent = (s.nodes a).parent := by
  rw [opcuaAddNode_of_ne h]; split_ifs <;> rfl

theorem opcuaAddNode_next {a : β} (h : a ≠ node) :
    ((opcuaAddNode s node parent nodeId).nodes a).next = (s.nodes a).next := by
  rw [opcuaAddNode_of_ne h]; split_ifs <;> rfl

theorem opcuaAddNode_children {a : β} (h : a ≠ node) (hp : parent ≠ some a) :
    ((opcuaAddNode s node parent nodeId).nodes a).children = (s.nodes a).children := by
  rw [opcuaAddNode_of_ne h, if_neg hp]

/-- The links of the new node. -/
theorem opcuaAddNode_links (h : parent ≠ some node) :
    ((opcuaAddNode s node parent nodeId).nodes node).children = none ∧
      ((opcuaAddNode s node parent nodeId).nodes node).next =
        parent.bind fun p => (s.nodes p).children := by
  cases parent with
  | some p =>
    have hp : node ≠ p := fun he => h (by rw [he])
    rw [opcuaAddNode]
    simp [hp, Ne.symm hp]
  | none => rw [opcuaAddNode]; split_ifs <;> simp

end

/-! ## The invariant -/

/-- The forest `t` under the root. -/
structure OpcuaSpace (s : OpcuaServer ρ β) (t : Forest β) : Prop where
  rep : Forest.Represents (s.nodes.field OpcuaNode.children) (s.nodes.field OpcuaNode.next)
    s.rootNode t
  nodup : t.nodes.Nodup
  added : ∀ a ∈ t.nodes, a ∈ s.added
  parent : ∀ a ∈ s.added, ∀ p, (s.nodes a).parent = some p → p ∈ s.added
  under : ∀ a ∈ s.added, a ∈ t.nodes ↔ s.Under a

namespace OpcuaSpace
variable {s : OpcuaServer ρ β} {t : Forest β}

theorem of_init (nodes : Store β (OpcuaNode ρ β)) (sessions : ℕ → OpcuaSession) :
    OpcuaSpace (opcuaServerInit nodes sessions) .nil := by
  constructor
  · rfl
  · exact List.nodup_nil
  · intro a ha; cases ha
  · intro a ha; cases ha
  · intro a ha; cases ha

/-- **A lookup** finds the first matching node of the forest. -/
theorem find_eq (h : OpcuaSpace s t) (id : OpcuaNodeid ρ) :
    opcuaFindNode s id = t.nodes.find? fun a => (s.nodes a).nodeId.found id := by
  have hle : t.nodes.length ≤ s.added.length := (List.subperm_of_subset h.nodup h.added).length_le
  rw [opcuaFindNode, findRecursive_eq]
  exact h.rep.search _ (Nat.lt_succ_of_le hle)

theorem root_mem (h : OpcuaSpace s t) {a : β} (ha : s.rootNode = some a) : a ∈ t.nodes := by
  have hrep := h.rep
  cases t with
  | nil => rw [hrep] at ha; cases ha
  | node b children siblings =>
    obtain ⟨hb, -⟩ := hrep
    rw [ha] at hb
    cases hb
    exact List.mem_cons_self ..

variable [DecidableEq β] {node : β} {parent : Option β} {nodeId : OpcuaNodeid ρ}

/-- The nodes added before are under the root as before. -/
theorem under_add (h : OpcuaSpace s t) (hnode : node ∉ s.added) {a : β} (ha : a ∈ s.added) :
    (opcuaAddNode s node parent nodeId).Under a ↔ s.Under a := by
  have hne : ∀ b ∈ s.added, b ≠ node := fun b hb he => hnode (he ▸ hb)
  constructor
  · intro hu
    refine hu.congr (S := s.added) ?_ ?_ ?_ ha
    · intro b hb p hp
      rw [opcuaAddNode_parent (hne b hb)] at hp
      exact h.parent b hb p hp
    · intro b hb
      exact (opcuaAddNode_parent (hne b hb)).symm
    · intro b hb hr
      rw [opcuaAddNode_rootNode] at hr
      split_ifs at hr
      · cases hr
        exact absurd rfl (hne _ hb)
      · exact hr
  · intro hu
    refine hu.congr (S := s.added) h.parent ?_ ?_ ha
    · intro b hb
      exact opcuaAddNode_parent (hne b hb)
    · intro b hb hr
      rw [opcuaAddNode_rootNode, if_neg]
      · exact hr
      · rintro ⟨-, hn⟩
        rw [hn] at hr
        cases hr

/-- The new node is under the root if it is the root or its parent is. -/
theorem under_node (h : OpcuaSpace s t) (hnode : node ∉ s.added)
    (hparent : ∀ p, parent = some p → p ∈ s.added) :
    (opcuaAddNode s node parent nodeId).Under node ↔
      (parent = none ∧ s.rootNode = none) ∨ ∃ p, parent = some p ∧ s.Under p := by
  constructor
  · intro hu
    cases hu with
    | root hr =>
      rw [opcuaAddNode_rootNode] at hr
      split_ifs at hr with hc
      · exact .inl hc
      · exact absurd (h.added _ (h.root_mem hr)) hnode
    | child hp hu =>
      rw [opcuaAddNode_node.1] at hp
      exact .inr ⟨_, hp, (h.under_add hnode (hparent _ hp)).1 hu⟩
  · rintro (hc | ⟨p, hp, hu⟩)
    · exact .root (by rw [opcuaAddNode_rootNode, if_pos hc])
    · exact .child (opcuaAddNode_node.1.trans hp) ((h.under_add hnode (hparent p hp)).2 hu)

/-- What is left to show of the new forest `t'`. -/
theorem of_add (h : OpcuaSpace s t) (hnode : node ∉ s.added)
    (hparent : ∀ p, parent = some p → p ∈ s.added) {t' : Forest β}
    (hrep : let s' := opcuaAddNode s node parent nodeId
      Forest.Represents (s'.nodes.field OpcuaNode.children) (s'.nodes.field OpcuaNode.next)
        s'.rootNode t')
    (hnodup : t'.nodes.Nodup) (hmem : ∀ a, a ∈ t'.nodes ↔ a ∈ t.nodes ∨ (a = node ∧
      ((parent = none ∧ s.rootNode = none) ∨ ∃ p, parent = some p ∧ p ∈ t.nodes))) :
    OpcuaSpace (opcuaAddNode s node parent nodeId) t' := by
  have hne : ∀ b ∈ s.added, b ≠ node := fun b hb he => hnode (he ▸ hb)
  constructor
  · exact hrep
  · exact hnodup
  · intro a ha
    rw [opcuaAddNode_added]
    rcases (hmem a).1 ha with ha | ⟨rfl, -⟩
    · exact List.mem_cons_of_mem _ (h.added a ha)
    · exact List.mem_cons_self ..
  · intro a ha p hp
    rw [opcuaAddNode_added] at ha ⊢
    rcases List.mem_cons.1 ha with rfl | ha
    · rw [opcuaAddNode_node.1] at hp
      exact List.mem_cons_of_mem _ (hparent p hp)
    · rw [opcuaAddNode_parent (hne a ha)] at hp
      exact List.mem_cons_of_mem _ (h.parent a ha p hp)
  · intro a ha
    rw [opcuaAddNode_added] at ha
    rcases List.mem_cons.1 ha with rfl | ha
    · have hnt : a ∉ t.nodes := fun hm => hnode (h.added a hm)
      rw [h.under_node hnode hparent, hmem a, or_iff_right hnt, and_iff_right rfl]
      refine or_congr_right (exists_congr fun p => and_congr_right fun hp => ?_)
      exact h.under p (hparent p hp)
    · rw [h.under_add hnode ha, hmem a, ← h.under a ha]
      exact or_iff_left fun hc => hne a ha hc.1

/-- **Adding a node** keeps a forest under the root. -/
theorem add (h : OpcuaSpace s t) (hnode : node ∉ s.added)
    (hparent : ∀ p, parent = some p → p ∈ s.added) :
    ∃ t', OpcuaSpace (opcuaAddNode s node parent nodeId) t' := by
  have hnt : node ∉ t.nodes := fun hm => hnode (h.added node hm)
  have hne : parent ≠ some node := fun he => hnode (hparent node he)
  obtain ⟨hchild, hnext⟩ := @opcuaAddNode_links _ _ _ s node parent nodeId hne
  cases parent with
  | some p =>
    have hpn : p ≠ node := fun he => hne (by rw [he])
    refine ⟨t.push p node, h.of_add hnode hparent ?_ (Forest.push_nodup h.nodup hnt) ?_⟩
    · refine h.rep.push h.nodup hnt hpn hchild hnext ?_ (opcuaAddNode_next hpn) ?_
      · show ((opcuaAddNode s node (some p) nodeId).nodes p).children = some node
        rw [opcuaAddNode_of_ne hpn, if_pos rfl]
      · intro b hb hbp
        have hbp' : some p ≠ some b := fun he => hbp (Option.some.inj he).symm
        exact ⟨opcuaAddNode_children hb hbp', opcuaAddNode_next hb⟩
    · intro a
      rw [Forest.mem_push]
      simp
  | none =>
    by_cases hroot : s.rootNode = none
    · -- the first node without a parent
      have ht : t.nodes = [] := by
        have hrep := h.rep
        cases t with
        | nil => rfl
        | node b children siblings =>
          rw [hroot] at hrep
          cases hrep.1
      refine ⟨.node node .nil .nil, h.of_add hnode hparent ⟨?_, hchild, hnext⟩ ?_ ?_⟩
      · rw [opcuaAddNode_rootNode, if_pos ⟨rfl, hroot⟩]
      · exact List.nodup_singleton node
      · intro a
        rw [ht]
        simp [Forest.nodes, hroot]
    · refine ⟨t, h.of_add hnode hparent ?_ h.nodup ?_⟩
      · show Forest.Represents _ _ (opcuaAddNode s node none nodeId).rootNode t
        rw [opcuaAddNode_rootNode, if_neg fun hc => hroot hc.2]
        refine h.rep.congr fun a ha => ?_
        have ha' : a ≠ node := fun he => hnt (he ▸ ha)
        exact ⟨opcuaAddNode_children ha' (by simp), opcuaAddNode_next ha'⟩
      · intro a
        simp [hroot]

end OpcuaSpace

/-- Every sequence of calls keeps a forest under the root. -/
theorem OpcuaSpace.of_run [DecidableEq β] {calls : List (OpcuaAddCall ρ β)} {s : OpcuaServer ρ β}
    (h : (opcuaAddLts ρ β).Run calls s) : ∃ t, OpcuaSpace s t := by
  refine h.rule (P := fun _ s => ∃ t, OpcuaSpace s t) ?_ ?_
  · rintro s ⟨nodes, sessions, rfl⟩
    exact ⟨_, .of_init nodes sessions⟩
  · rintro calls s e s' ⟨t, ht⟩ ⟨hnode, hparent, rfl⟩
    exact ht.add hnode hparent

/-! ## Lookups -/

/-- **A lookup is right** iff no node added has the id, or it is numeric and a
    node that has it is under the root. -/
theorem opcua_find_node_iff [DecidableEq β] {calls : List (OpcuaAddCall ρ β)}
    {s : OpcuaServer ρ β} (hrun : (opcuaAddLts ρ β).Run calls s) (mem : Regions ρ)
    (id : OpcuaNodeid ρ) : OpcuaLookup mem s id ↔
      (∀ a ∈ s.added, ¬ (s.nodes a).nodeId.Same mem mem id) ∨
        ∃ n, id.id = .numeric n ∧ ∃ a ∈ s.added, (s.nodes a).nodeId.Same mem mem id ∧ s.Under a := by
  obtain ⟨t, ht⟩ := OpcuaSpace.of_run hrun
  have hfound : ∀ a, opcuaFindNode s id = some a →
      a ∈ t.nodes ∧ (s.nodes a).nodeId.found id = true := by
    intro a ha
    rw [ht.find_eq] at ha
    exact ⟨List.mem_of_find?_eq_some ha, List.find?_some (p := fun a => (s.nodes a).nodeId.found id) ha⟩
  have hsame : ∀ a, opcuaFindNode s id = some a → (s.nodes a).nodeId.Same mem mem id :=
    fun a ha => OpcuaNodeid.same_of_found mem (hfound a ha).2
  constructor
  · intro h
    by_cases hex : ∃ a ∈ s.added, (s.nodes a).nodeId.Same mem mem id
    · obtain ⟨a, ha⟩ := h.found_iff.2 hex
      obtain ⟨hmem, hf⟩ := hfound a ha
      have hadded := ht.added a hmem
      obtain ⟨-, n, -, hn⟩ := OpcuaNodeid.found_eq_true.1 hf
      exact .inr ⟨n, hn, a, hadded, hsame a ha, (ht.under a hadded).1 hmem⟩
    · exact .inl fun a ha hs => hex ⟨a, ha, hs⟩
  · rintro (hnone | ⟨n, hn, a, ha, hs, hu⟩)
    · refine ⟨⟨fun ⟨a, ha⟩ => ?_, fun ⟨a, ha, hs⟩ => absurd hs (hnone a ha)⟩, hsame⟩
      exact absurd (hsame a ha) (hnone a (ht.added a (hfound a ha).1))
    · refine ⟨⟨fun ⟨b, hb⟩ => ⟨b, ht.added b (hfound b hb).1, hsame b hb⟩, fun _ => ?_⟩, hsame⟩
      have hf := OpcuaNodeid.found_of_same hs hn
      have hmem := (ht.under a ha).2 hu
      rw [ht.find_eq]
      exact Option.isSome_iff_exists.1 (List.find?_isSome.2 ⟨a, hmem, hf⟩)

/-- Three nodes: a root, a second node without a parent, and a child of the root
    with a string as id. -/
def demoAddCalls : List (OpcuaAddCall Unit ℕ) :=
  [⟨0, none, ⟨0, .numeric 1⟩⟩, ⟨1, none, ⟨0, .numeric 2⟩⟩, ⟨2, some 0, ⟨0, .string ⟨(), 0⟩ 2⟩⟩]

/-- A server over cleared memory. -/
def demoOpcua : OpcuaServer Unit ℕ :=
  opcuaServerInit (fun _ => ⟨⟨0, .numeric 0⟩, opcuaNull ⟨0, .numeric 0⟩, none, none, none⟩)
    fun _ => ⟨0, 0, false, 0, 0⟩

def demoSpace : OpcuaServer Unit ℕ :=
  demoAddCalls.foldl (fun s e => opcuaAddNode s e.node e.parent e.nodeId) demoOpcua

theorem demoSpace_run : (opcuaAddLts Unit ℕ).Run demoAddCalls demoSpace := by
  have start : (opcuaAddLts Unit ℕ).Run [] demoOpcua := .start ⟨_, _, rfl⟩
  have first := start.snoc (e := ⟨0, none, ⟨0, .numeric 1⟩⟩) ⟨List.not_mem_nil, nofun, rfl⟩
  have second := first.snoc (e := ⟨1, none, ⟨0, .numeric 2⟩⟩) ⟨by decide, nofun, rfl⟩
  refine second.snoc (e := ⟨2, some 0, ⟨0, .string ⟨(), 0⟩ 2⟩⟩) ⟨by decide, ?_, rfl⟩
  rintro p ⟨⟩
  decide

theorem opcua_find_node_iff_demo :
    OpcuaLookup (demoMemory [0x61, 0x62]) demoSpace ⟨0, .numeric 1⟩ := by
  refine (opcua_find_node_iff demoSpace_run _ _).2 (.inr ⟨1, rfl, 0, by decide, ⟨rfl, rfl⟩, ?_⟩)
  exact .root rfl

/-- Neither the second node nor the third is found. -/
theorem opcua_find_node_missed :
    (opcuaAddLts Unit ℕ).Run demoAddCalls demoSpace ∧
    ¬ OpcuaLookup (demoMemory [0x61, 0x62]) demoSpace ⟨0, .numeric 2⟩ ∧
    ¬ OpcuaLookup (demoMemory [0x61, 0x62]) demoSpace ⟨0, .string ⟨(), 0⟩ 2⟩ := by
  refine ⟨demoSpace_run, fun h => ?_, fun h => ?_⟩
  · obtain ⟨a, ha⟩ := h.found_iff.2 ⟨1, by decide, rfl, rfl⟩
    cases ha
  · obtain ⟨a, ha⟩ := h.found_iff.2 ⟨2, by decide, rfl, rfl⟩
    cases ha

end Gracemont
