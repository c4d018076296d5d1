/-
  Gracemont devtools — the editor of function block diagrams
  (`devtools/ide/src/components/FBDEditor.vue`).

  The editor names blocks by their positions: a deletion renumbers the
  connections, but not the port at which a connection that is being drawn starts.

  An event comes from the diagram that is drawn, so that a click is at a block, or
  at a port, that there is.  Positions on the canvas are only computed for a new
  block; drags and zooming are left out.

  * `fbdStep`: the editor;
  * `Diagram`: what the user draws, with an identity for each block;
  * `fbd_integrity`: the editor shows what was drawn, unless a block at or before
    the start of a connection that is being drawn is deleted.
-/
import Mathlib.Data.List.Forall2
import Mathlib.Data.List.InsertIdx
import Mathlib.Tactic.IntervalCases
import Gracemont.Lib.Positions
import Gracemont.Lib.Trace

namespace Gracemont

open Lib (Lts)
open Lib.Positions

/-! ## The editor -/

/-- The blocks of the toolbar. -/
inductive BlockType
  | input | output | and | or | not | gt | lt | eq | add | sub | mul | div | ton | ctu
  deriving DecidableEq

inductive PortType
  | input | output
  deriving DecidableEq

/-- The ports of a block in `BLOCK_CONFIG`. -/
def BlockType.ports : BlockType → PortType → ℕ
  | .input, .input => 0
  | .output, .output => 0
  | .input, .output | .output, .input | .not, _ => 1
  | .ton, _ | .ctu, _ => 2
  | _, .input => 2
  | _, .output => 1

structure FbdBlock where
  type : BlockType
  x : ℕ
  y : ℕ
  variableName : String
  preset : Option String
  comment : Option String

/-- The keys of `updateNodeProperty`. -/
inductive FbdKey
  | variableName | preset | comment

def FbdBlock.set (block : FbdBlock) (key : FbdKey) (value : String) : FbdBlock :=
  match key with
  | .variableName => { block with variableName := value }
  | .preset => { block with preset := some value }
  | .comment => { block with comment := some value }

/-- A port of a block that is named by a `ν`. -/
structure BlockPort (ν : Type) where
  block : ν
  port : ℕ

structure Connection (ν : Type) where
  source : BlockPort ν
  target : BlockPort ν

/-- The model and the state of the component. -/
structure FbdEditor where
  blocks : List FbdBlock
  connections : List (Connection ℕ)
  selectedNode : Option ℕ
  isConnecting : Bool
  connectionStart : Option (BlockPort ℕ)

/-- An empty diagram. -/
def FbdEditor.empty : FbdEditor := ⟨[], [], none, false, none⟩

/-- The block that `addBlock` makes. -/
def newBlock (blocks : List FbdBlock) (type : BlockType) : FbdBlock where
  type := type
  x := 100 + blocks.length * 100
  y := 100 + blocks.length % 3 * 80
  variableName :=
    match type with
    | .input => "I" ++ toString (blocks.countP (·.type = .input))
    | .output => "Q" ++ toString (blocks.countP (·.type = .output))
    | _ => ""
  preset := none
  comment := none

section
variable (e : FbdEditor)

def handlePortClick (blockIndex : ℕ) (portType : PortType) (portIndex : ℕ) : FbdEditor :=
  if e.isConnecting then
    let e : FbdEditor := match portType, e.connectionStart with
      | .input, some start =>
        { e with connections := e.connections ++ [⟨start, ⟨blockIndex, portIndex⟩⟩] }
      | _, _ => e
    { e with isConnecting := false, connectionStart := none }
  else match portType with
    | .output => { e with isConnecting := true, connectionStart := some ⟨blockIndex, portIndex⟩ }
    | .input => e

def addBlock (type : BlockType) : FbdEditor :=
  { e with blocks := e.blocks ++ [newBlock e.blocks type] }

/-- A connection after the block at `index` was deleted. -/
def updateIndices (index : ℕ) (conn : Connection ℕ) : Connection ℕ where
  source :=
    { block := if conn.source.block > index then conn.source.block - 1 else conn.source.block
      port := conn.source.port }
  target :=
    { block := if conn.target.block > index then conn.target.block - 1 else conn.target.block
      port := conn.target.port }

def deleteSelected : FbdEditor :=
  match e.selectedNode with
  | none => e
  | some index =>
    let connections := e.connections.filter fun conn =>
      conn.source.block ≠ index ∧ conn.target.block ≠ index
    { e with
      blocks := e.blocks.eraseIdx index
      connections := connections.map (updateIndices index)
      selectedNode := none }

def updateNodeProperty (key : FbdKey) (value : String) : FbdEditor :=
  match e.selectedNode with
  | none => e
  | some index => { e with blocks := e.blocks.modify index (·.set key value) }

end

/-- What the user does: buttons of the toolbar, clicks at blocks, at ports and
    beside them, and changes in the panel of properties. -/
inductive FbdEvent
  | addBlock (type : BlockType)
  | click (index : ℕ)
  | clickStage
  | deleteSelected
  | portClick (blockIndex : ℕ) (portType : PortType) (portIndex : ℕ)
  | updateNodeProperty (key : FbdKey) (value : String)

/-- An event, of which only those are possible that the diagram has blocks and ports for. -/
def fbdStep (e : FbdEditor) : FbdEvent → Option FbdEditor
  | .addBlock type => some (addBlock e type)
  | .click index =>
    if index < e.blocks.length then some { e with selectedNode := some index } else none
  | .clickStage => some { e with selectedNode := none }
  | .deleteSelected => some (deleteSelected e)
  | .portClick blockIndex portType portIndex => do
    let block ← e.blocks[blockIndex]?
    if portIndex < block.type.ports portType then
      some (handlePortClick e blockIndex portType portIndex)
    else none
  | .updateNodeProperty key value => some (updateNodeProperty e key value)

/-- The editor, from an empty diagram on. -/
def fbdLts : Lts FbdEditor FbdEvent := .ofFun (· = .empty) fbdStep

/-! ## Diagrams -/

/-- The identity of a block. -/
abbrev BlockId := ℕ

/-- **A diagram**: blocks with identities and connections between them, the selected
    block, and the port at which a connection starts that is being drawn. -/
structure Diagram where
  blocks : List BlockId
  content : BlockId → FbdBlock
  connections : List (Connection BlockId)
  selected : Option BlockId
  start : Option (BlockPort BlockId)
  next : BlockId

namespace Diagram

def empty : Diagram := ⟨[], fun _ => newBlock [] .and, [], none, none, 0⟩

variable (d : Diagram)

/-- A new block has an identity of its own. -/
def add (type : BlockType) : Diagram :=
  { d with
    blocks := d.blocks ++ [d.next]
    content := Function.update d.content d.next (newBlock (d.blocks.map d.content) type)
    next := d.next + 1 }

/-- A block is removed with its connections, also with one that starts at it. -/
def remove (a : BlockId) : Diagram :=
  { d with
    blocks := d.blocks.erase a
    connections := d.connections.filter fun conn => conn.source.block ≠ a ∧ conn.target.block ≠ a
    selected := none
    start := d.start.filter (·.block ≠ a) }

/-- A connection joins the output that is clicked first and the input that is clicked
    next; a click at another output gives it up. -/
def clickPort (portType : PortType) (p : BlockPort BlockId) : Diagram :=
  match d.start, portType with
  | none, .output => { d with start := some p }
  | none, .input => d
  | some start, .input => { d with connections := d.connections ++ [⟨start, p⟩], start := none }
  | some _, .output => { d with start := none }

def set (a : BlockId) (key : FbdKey) (value : String) : Diagram :=
  { d with content := Function.update d.content a ((d.content a).set key value) }

/-- What an event means: a click is at the block that stands there. -/
def step : FbdEvent → Diagram
  | .addBlock type => d.add type
  | .click index => { d with selected := d.blocks[index]? }
  | .clickStage => { d with selected := none }
  | .deleteSelected => d.selected.elim d d.remove
  | .portClick blockIndex portType portIndex =>
    d.blocks[blockIndex]?.elim d fun a => d.clickPort portType ⟨a, portIndex⟩
  | .updateNodeProperty key value => d.selected.elim d fun a => d.set a key value

end Diagram

/-- What is drawn by these events. -/
def drawn (events : List FbdEvent) : Diagram := events.foldl Diagram.step .empty

/-! ## Statement -/

/-- In a list of blocks, the port at a position is the port of a block. -/
def PortAt (blocks : List BlockId) (p : BlockPort ℕ) (q : BlockPort BlockId) : Prop :=
  blocks[p.block]? = some q.block ∧ p.port = q.port

/-- A connection of positions joins the blocks that a connection joins. -/
structure Joins (blocks : List BlockId) (c : Connection ℕ) (w : Connection BlockId) : Prop where
  source : PortAt blocks c.source w.source
  target : PortAt blocks c.target w.target

/-- **The editor shows a diagram**: its blocks, and a connection for each of its
    connections, which joins the same blocks at the same ports. -/
structure Shows (e : FbdEditor) (d : Diagram) : Prop where
  blocks : e.blocks = d.blocks.map d.content
  connections : List.Forall₂ (Joins d.blocks) e.connections d.connections

/-- No block at or before the one at which a connection starts is deleted while the
    connection is being drawn. -/
def KeepsStart (e : FbdEditor) (event : FbdEvent) : Prop :=
  event = .deleteSelected → ∀ index ∈ e.selectedNode, ∀ start ∈ e.connectionStart,
    start.block < index

/-! ## Invariant -/

/-- The editor shows the diagram, and its positions are those of the blocks selected
    and clicked. -/
structure FbdInv (e : FbdEditor) (d : Diagram) : Prop extends Shows e d where
  nodup : d.blocks.Nodup
  fresh : ∀ a ∈ d.blocks, a < d.next
  selected : Option.Rel (fun index a => d.blocks[index]? = some a) e.selectedNode d.selected
  connecting : e.isConnecting = e.connectionStart.isSome
  start : Option.Rel (PortAt d.blocks) e.connectionStart d.start

variable {e : FbdEditor} {d : Diagram}

theorem Shows.length (h : Shows e d) : e.blocks.length = d.blocks.length := by
  rw [h.blocks, List.length_map]

theorem PortAt.lt {blocks : List BlockId} {p : BlockPort ℕ} {q : BlockPort BlockId}
    (h : PortAt blocks p q) : p.block < blocks.length :=
  (List.getElem?_eq_some_iff.1 h.1).1

/-- The connections join blocks that there are. -/
theorem Shows.lt (h : Shows e d) : ∀ c ∈ e.connections,
    c.source.block < e.blocks.length ∧ c.target.block < e.blocks.length := by
  intro c hc
  obtain ⟨w, -, hw⟩ : ∃ w ∈ d.connections, Joins d.blocks c w := by
    obtain ⟨i, hi, rfl⟩ := List.getElem_of_mem hc
    have hi' : i < d.connections.length := h.connections.length_eq ▸ hi
    exact ⟨_, List.getElem_mem hi', h.connections.get hi hi'⟩
  rw [h.length]
  exact ⟨hw.source.lt, hw.target.lt⟩

theorem FbdInv.empty : FbdInv .empty .empty :=
  ⟨⟨rfl, .nil⟩, .nil, nofun, .none, rfl, .none⟩

section
variable {blocks : List BlockId} {index : ℕ} {a : BlockId} (hnodup : blocks.Nodup)
  (hindex : blocks[index]? = some a)
include hnodup hindex

/-- A port of another block is at its renumbered position. -/
theorem PortAt.erase {p : BlockPort ℕ} {q : BlockPort BlockId} (h : PortAt blocks p q)
    (ha : q.block ≠ a) : PortAt (blocks.erase a) ⟨renumber index p.block, p.port⟩ q :=
  ⟨getElem?_erase hnodup hindex h.1 ha, h.2⟩

/-- The connections that are left join the same blocks. -/
theorem joins_erase {cs : List (Connection ℕ)} {ws : List (Connection BlockId)}
    (h : List.Forall₂ (Joins blocks) cs ws) :
    List.Forall₂ (Joins (blocks.erase a))
      ((cs.filter fun c => c.source.block ≠ index ∧ c.target.block ≠ index).map
        (updateIndices index))
      (ws.filter fun w => w.source.block ≠ a ∧ w.target.block ≠ a) := by
  induction h with
  | nil => exact .nil
  | @cons c w cs ws hw _ ih =>
    have hsource := eq_iff hnodup hindex hw.source.1
    have htarget := eq_iff hnodup hindex hw.target.1
    by_cases hkeep : w.source.block ≠ a ∧ w.target.block ≠ a
    · have hkeep' : c.source.block ≠ index ∧ c.target.block ≠ index :=
        ⟨mt hsource.1 hkeep.1, mt htarget.1 hkeep.2⟩
      rw [List.filter_cons, List.filter_cons, if_pos (decide_eq_true hkeep'),
        if_pos (decide_eq_true hkeep), List.map_cons]
      exact .cons ⟨hw.source.erase hnodup hindex hkeep.1, hw.target.erase hnodup hindex hkeep.2⟩ ih
    · have hkeep' : ¬ (c.source.block ≠ index ∧ c.target.block ≠ index) := by
        rwa [Ne, hsource, Ne, htarget]
      rw [List.filter_cons, List.filter_cons, if_neg (by rwa [decide_eq_true_eq]),
        if_neg (by rwa [decide_eq_true_eq])]
      exact ih

end

theorem PortAt.append {blocks : List BlockId} {p : BlockPort ℕ} {q : BlockPort BlockId}
    (h : PortAt blocks p q) (blocks' : List BlockId) : PortAt (blocks ++ blocks') p q :=
  ⟨getElem?_append h.1, h.2⟩

theorem Joins.append {blocks : List BlockId} {c : Connection ℕ} {w : Connection BlockId}
    (h : Joins blocks c w) (blocks' : List BlockId) : Joins (blocks ++ blocks') c w :=
  ⟨h.source.append _, h.target.append _⟩

namespace FbdInv
variable (h : FbdInv e d)
include h

theorem addBlock (type : BlockType) : FbdInv (addBlock e type) (d.add type) := by
  have hnew : d.next ∉ d.blocks := fun hmem => Nat.lt_irrefl _ (h.fresh _ hmem)
  have hold : ∀ a ∈ d.blocks, Function.update d.content d.next
      (newBlock (d.blocks.map d.content) type) a = d.content a := by
    intro a ha
    refine Function.update_of_ne ?_ ..
    rintro rfl
    exact hnew ha
  refine ⟨⟨?_, h.connections.imp fun _ _ hw => hw.append _⟩, ?_, ?_, ?_, h.connecting, ?_⟩
  · simp only [Gracemont.addBlock, Diagram.add, List.map_append, List.map_congr_left hold,
      List.map_singleton, Function.update_self, h.blocks]
  · rw [Diagram.add, List.nodup_append]
    exact ⟨h.nodup, List.nodup_singleton _, fun a ha b hb => by
      rw [List.mem_singleton.1 hb]
      rintro rfl
      exact hnew ha⟩
  · intro a ha
    rcases List.mem_append.1 ha with hold | hnew
    · exact Nat.lt_succ_of_lt (h.fresh a hold)
    · rw [List.mem_singleton.1 hnew]
      exact Nat.lt_succ_self _
  · exact rel_imp (fun _ _ hi => getElem?_append hi) h.selected
  · exact rel_imp (fun _ _ hp => hp.append _) h.start

theorem click {index : ℕ} (hindex : index < e.blocks.length) :
    FbdInv { e with selectedNode := some index } { d with selected := d.blocks[index]? } := by
  rw [h.length] at hindex
  refine ⟨⟨h.blocks, h.connections⟩, h.nodup, h.fresh, ?_, h.connecting, h.start⟩
  rw [List.getElem?_eq_getElem hindex]
  exact .some (List.getElem?_eq_getElem hindex)

theorem clickPort {blockIndex : ℕ} {a : BlockId} (ha : d.blocks[blockIndex]? = some a)
    (portType : PortType) (portIndex : ℕ) :
    FbdInv (handlePortClick e blockIndex portType portIndex)
      (d.clickPort portType ⟨a, portIndex⟩) := by
  have hport : PortAt d.blocks ⟨blockIndex, portIndex⟩ ⟨a, portIndex⟩ := ⟨ha, rfl⟩
  obtain ⟨⟨hblocks, hconnections⟩, hnodup, hfresh, hselected, hconnecting, hstart⟩ := h
  obtain ⟨blocks, connections, selectedNode, isConnecting, connectionStart⟩ := e
  obtain ⟨blocks', content, connections', selected, start, next⟩ := d
  cases hstart with
  | none =>
    cases hconnecting
    cases portType with
    | input => exact ⟨⟨hblocks, hconnections⟩, hnodup, hfresh, hselected, rfl, .none⟩
    | output => exact ⟨⟨hblocks, hconnections⟩, hnodup, hfresh, hselected, rfl, .some hport⟩
  | some hp =>
    cases hconnecting
    cases portType with
    | input =>
      refine ⟨⟨hblocks, ?_⟩, hnodup, hfresh, hselected, rfl, .none⟩
      exact List.rel_append hconnections (.cons ⟨hp, hport⟩ .nil)
    | output => exact ⟨⟨hblocks, hconnections⟩, hnodup, hfresh, hselected, rfl, .none⟩

theorem updateNodeProperty (key : FbdKey) (value : String) :
    FbdInv (updateNodeProperty e key value) (d.selected.elim d fun a => d.set a key value) := by
  obtain ⟨⟨hblocks, hconnections⟩, hnodup, hfresh, hselected, hconnecting, hstart⟩ := h
  obtain ⟨blocks, connections, selectedNode, isConnecting, connectionStart⟩ := e
  obtain ⟨blocks', content, connections', selected, start, next⟩ := d
  cases hselected with
  | none => exact ⟨⟨hblocks, hconnections⟩, hnodup, hfresh, .none, hconnecting, hstart⟩
  | some hindex =>
    refine ⟨⟨?_, hconnections⟩, hnodup, hfresh, .some hindex, hconnecting, hstart⟩
    exact (congrArg (List.modify · _ _) hblocks).trans
      (map_modify hnodup hindex content fun block => block.set key value)

theorem deleteSelected (hkeep : KeepsStart e .deleteSelected) :
    FbdInv (deleteSelected e) (d.selected.elim d d.remove) := by
  obtain ⟨⟨hblocks, hconnections⟩, hnodup, hfresh, hselected, hconnecting, hstart⟩ := h
  obtain ⟨blocks, connections, selectedNode, isConnecting, connectionStart⟩ := e
  obtain ⟨blocks', content, connections', selected, start, next⟩ := d
  cases hselected with
  | none => exact ⟨⟨hblocks, hconnections⟩, hnodup, hfresh, .none, hconnecting, hstart⟩
  | @some index a hindex =>
    refine ⟨⟨?_, joins_erase hnodup hindex hconnections⟩, hnodup.erase a,
      fun b hb => hfresh b (List.mem_of_mem_erase hb), .none, hconnecting, ?_⟩
    · have herase : blocks.eraseIdx index = (blocks'.eraseIdx index).map content := by
        rw [show blocks = blocks'.map content from hblocks, List.eraseIdx_map]
      exact herase.trans (congrArg (List.map content) (eraseIdx_eq_erase hnodup hindex))
    · cases hstart with
      | none => exact .none
      | @some p q hp =>
        -- the start is a block before the deleted one, and keeps its position
        have hlt : p.block < index := hkeep rfl index rfl p rfl
        have hne : q.block ≠ a := fun hq =>
          Nat.ne_of_lt hlt ((eq_iff hnodup hindex hp.1).2 hq)
        have hport := hp.erase hnodup hindex hne
        rw [renumber_of_lt hlt] at hport
        have hfilter : (some q).filter (fun q => decide (q.block ≠ a)) = some q := by
          simp [hne]
        change Option.Rel (PortAt (blocks'.erase a)) (some p)
          ((some q).filter fun q => q.block ≠ a)
        rw [hfilter]
        exact .some hport

/-- **Every step keeps the invariant**, if it keeps the start of the connection that is
    being drawn. -/
theorem step {event : FbdEvent} {e' : FbdEditor} (hs : fbdStep e event = some e')
    (hkeep : KeepsStart e event) : FbdInv e' (d.step event) := by
  cases event with
  | addBlock type =>
    cases hs
    exact h.addBlock type
  | click index =>
    obtain ⟨hindex, hs⟩ := Option.ite_none_right_eq_some.1 hs
    cases hs
    exact h.click hindex
  | clickStage =>
    cases hs
    exact ⟨⟨h.blocks, h.connections⟩, h.nodup, h.fresh, .none, h.connecting, h.start⟩
  | deleteSelected =>
    cases hs
    exact h.deleteSelected hkeep
  | portClick blockIndex portType portIndex =>
    obtain ⟨block, hblock, hs⟩ := Option.bind_eq_some_iff.1 hs
    obtain ⟨-, hs⟩ := Option.ite_none_right_eq_some.1 hs
    cases hs
    rw [h.blocks, List.getElem?_map] at hblock
    obtain ⟨a, ha, -⟩ := Option.map_eq_some_iff.1 hblock
    rw [Diagram.step, ha]
    exact h.clickPort ha portType portIndex
  | updateNodeProperty key value =>
    cases hs
    exact h.updateNodeProperty key value

end FbdInv

/-! ## Runs -/

/-- What the editor shows after a run. -/
theorem FbdInv.run {events : List FbdEvent} (h : (fbdLts.restrict KeepsStart).Run events e) :
    FbdInv e (drawn events) := by
  refine h.rule (P := fun events e => FbdInv e (drawn events)) ?_ ?_
  · rintro _ rfl
    exact .empty
  · rintro events e event e' hinv ⟨hkeep, hs⟩
    rw [drawn, List.foldl_append]
    exact hinv.step hs hkeep

/-- **Diagram integrity.**  After every run in which no block at or before the start of
    a connection is deleted while the connection is being drawn, the editor shows
    what was drawn, and its connections are between blocks that there are. -/
theorem fbd_integrity {events : List FbdEvent}
    (h : (fbdLts.restrict KeepsStart).Run events e) :
    Shows e (drawn events) ∧ ∀ c ∈ e.connections,
      c.source.block < e.blocks.length ∧ c.target.block < e.blocks.length :=
  ⟨(FbdInv.run h).toShows, (FbdInv.run h).toShows.lt⟩

/-- Two inputs are connected to an AND, and the first is deleted. -/
def demoFbd : List FbdEvent :=
  [.addBlock .input, .addBlock .input, .addBlock .and, .portClick 0 .output 0,
    .portClick 2 .input 0, .portClick 1 .output 0, .portClick 2 .input 1, .click 0, .deleteSelected]

/-- The connection of the second is shown, from position 0 to position 1. -/
theorem demoFbd_integrity :
    ((Lts.exec fbdStep .empty demoFbd).map (·.connections) = some [⟨⟨0, 0⟩, ⟨1, 1⟩⟩]) ∧
      (drawn demoFbd).connections = [⟨⟨1, 0⟩, ⟨2, 1⟩⟩] ∧
      ∃ e, Shows e (drawn demoFbd) ∧ ∀ c ∈ e.connections,
        c.source.block < e.blocks.length ∧ c.target.block < e.blocks.length := by
  refine ⟨rfl, rfl, _, fbd_integrity (Lts.run_exec_restrict rfl rfl ?_)⟩
  intro i hi hdelete index _ start hstart
  have hi : i < 9 := hi
  interval_cases i <;> cases hdelete
  cases hstart

/-- Two outputs and an input, of which the first is deleted while a connection from
    the input is being drawn. -/
def demoStale : List FbdEvent :=
  [.addBlock .output, .addBlock .output, .addBlock .input, .portClick 2 .output 0, .click 0,
    .deleteSelected, .portClick 0 .input 0]

/-- The connection is from position 2, where there is no block. -/
theorem demoStale_dangling : ∃ e, fbdLts.Run demoStale e ∧ ¬ Shows e (drawn demoStale) ∧
    e.connections = [⟨⟨2, 0⟩, ⟨0, 0⟩⟩] ∧ e.blocks.length = 2 := by
  refine ⟨_, Lts.run_exec rfl rfl, fun h => ?_, rfl, rfl⟩
  exact absurd (h.lt _ (List.mem_singleton_self _)).1 (by decide)

end Gracemont
