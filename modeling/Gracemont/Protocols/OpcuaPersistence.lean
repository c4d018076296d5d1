/-
  Gracemont protocols — the values of OPC UA nodes over a run.

  A string that a write request carries is stored as a pointer into the buffer of
  the request, which is free again after the response.

  * `opcuaRemember`: the encoding that was last written to each node and reported
    as good, as a ghost;
  * `OpcuaReturned`: a read request is answered with what the ghost says;
  * `OpcuaKept`: the memory behind stored values does not change, and the values
    written can be encoded again;
  * `opcua_values_persist`: in runs that keep the memory, reads return what was
    written.
-/
import Gracemont.Protocols.OpcuaBounds
import Gracemont.Protocols.OpcuaSession

namespace Gracemont

open Lib

variable {ρ α β : Type}

/-! ## Requests -/

/-- The message at `p` is a request of a type. -/
def OpcuaAsks (m : ℕ → BitVec 8) (p : ℕ) (typeId : BitVec 16) : Prop :=
  Holds m p opcuaMsgMsg ∧ opcuaTypeId m p = typeId

instance (m : ℕ → BitVec 8) (p : ℕ) (typeId : BitVec 16) : Decidable (OpcuaAsks m p typeId) :=
  inferInstanceAs (Decidable (_ ∧ _))

section
variable (s : OpcuaServer ρ β) (m : ℕ → BitVec 8) (p : ℕ) (r : ρ)

/-- The node that an entry of the read request at `p` names. -/
def opcuaReadNode (i : ℕ) : Option β :=
  (opcuaNodeid? m (opcuaReadPos m p i) r).bind (opcuaFindNode s)

/-- Where the value of an entry of the write request at `p` starts, if it has one. -/
def opcuaWriteValuePos (i : ℕ) : ℕ := opcuaIndexRangeEnd m (opcuaWritePos m p i) + 1

variable [DecidableEq β]

/-- The last entry handled that names the node `x`. -/
def opcuaLastWrite (x : β) : Option ℕ :=
  Loop.lastSome (fun i => if opcuaWriteNode s m p r i = some x then some i else none)
    (List.range (opcuaIterations (opcuaWriteCount m p)))

/-- The result `i` of a write response. -/
def opcuaResult (reply : List (BitVec 8)) (i : ℕ) : BitVec 32 :=
  u32At (fun j => reply.getD j 0) (57 + 4 * i)

/-- The last of these entries that the response reports as good. -/
def opcuaLastGood (reply : List (BitVec 8)) (x : β) : Option ℕ :=
  Loop.lastSome (fun i => if opcuaWriteNode s m p r i = some x ∧ opcuaResult reply i = opcuaStatusGood
    then some i else none) (List.range (opcuaIterations (opcuaWriteCount m p)))

/-- The encoding that a write request carries for a node, by its response. -/
def opcuaReported (reply : List (BitVec 8)) (x : β) : Option (List (BitVec 8)) :=
  if OpcuaAsks m p 673 then (opcuaLastGood s m p r reply x).map fun i =>
    Lib.bytesAt m (opcuaWriteValuePos m p i) (opcuaVariantSize m (opcuaWriteValuePos m p i))
  else none

end

/-- What the result for the entry `i` of a read request should be, if `g` are the
    encodings written. -/
def opcuaExpected (s : OpcuaServer ρ β) (m : ℕ → BitVec 8) (p : ℕ) (r : ρ)
    (g : β → Option (List (BitVec 8))) (i : ℕ) : Option (List (BitVec 8)) :=
  match opcuaReadNode s m p r i with
  | some x => (g x).map (writeU8 0x01 ++ ·)
  | none => some (writeU8 0x02 ++ writeU32 opcuaStatusBadNodeidUnknown)

/-! ## Results -/

/-- A result of a write response, read from its bytes. -/
theorem opcuaResult_eq {head : List (BitVec 8)} (hh : head.length = 16) (env : OpcuaEnv ρ)
    (nodeCount : BitVec 32) (results : List (BitVec 32)) {i : ℕ} {v : BitVec 32}
    (h : results[i]? = some v) :
    opcuaResult (opcuaMessage opcuaMsgMsg (head ++ opcuaWriteBody env nodeCount results)) i = v := by
  obtain ⟨hi, rfl⟩ := List.getElem?_eq_some_iff.1 h
  have hsplit : (results.map writeU32).flatten = ((results.take i).map writeU32).flatten ++
      (writeU32 results[i] ++ ((results.drop (i + 1)).map writeU32).flatten) := by
    rw [← List.flatten_cons, ← List.map_cons, ← List.drop_eq_getElem_cons hi, ← List.flatten_append,
      ← List.map_append, List.take_append_drop]
  have hbefore : ∀ l : List (BitVec 32), (l.map writeU32).flatten.length = 4 * l.length := by
    intro l
    induction l with
    | nil => rfl
    | cons v l ih =>
      rw [List.map_cons, List.flatten_cons, List.length_append, ih, writeU32_length, List.length_cons]
      omega
  refine u32At_of_holds ?_
  simp only [opcuaMessage, opcuaWriteBody, opcuaWriteResults, hsplit, List.append_assoc]
  simp only [← List.append_assoc _ _ (writeU32 results[i] ++ _)]
  refine holds_getD _ (writeU32 results[i]) _ ?_
  simp only [List.length_append, hbefore, List.length_take, Nat.min_eq_left (Nat.le_of_lt hi), hh,
    opcuaResponseHeader_length, writeU32_length, opcuaMsgMsg, List.length_cons, List.length_nil]
  omega

/-! ## Stored values -/

section
variable {mem : Regions ρ} {r : ρ} {p : ℕ}

/-- A string is followed by its terminator. -/
def OpcuaWire.Ended (mem : Regions ρ) (r : ρ) (p : ℕ) : OpcuaWire → Prop
  | string bytes _ => mem.strlen ⟨r, p + 5⟩ = some bytes.length
  | _ => True

/-- **A value that was decoded** is encoded as it was, from its region. -/
theorem OpcuaWire.stored {w : OpcuaWire} (junk : OpcuaNodeid ρ)
    (h : Holds (mem.byte r) p w.encoding) (hend : w.Ended mem r p) :
    opcuaEncodeVariant mem (opcuaVariantAt (mem.byte r) p r junk) = some w.encoding ∧
      ∀ q ∈ opcuaEncodeReads mem (opcuaVariantAt (mem.byte r) p r junk), q.region = r := by
  by_cases hw : w.IsString
  · cases w with
    | string bytes short =>
      have hmod : bytes.length % 2 ^ 32 = bytes.length := Nat.mod_eq_of_lt (by omega)
      refine ⟨(opcuaReencode_string junk h).2 ⟨_, hend, hmod⟩, fun q hq => ?_⟩
      rw [opcuaVariantAt_string junk h] at hq
      obtain ⟨i, -, rfl⟩ := List.mem_map.1 hq
      rfl
    | boolean b => exact hw.elim
    | scalar t bits => exact hw.elim
    | nullString => exact hw.elim
    | nodeid ns name encoded => exact hw.elim
  · obtain ⟨hwrites, hreads⟩ := opcuaReencode_other junk hw h
    exact ⟨hwrites, fun q hq => (hreads q hq).1⟩

end

section
variable [DecidableEq β] {s : OpcuaServer ρ β} {m : ℕ → BitVec 8} {p : ℕ} {r : ρ}

/-- The values that a write request with known node ids leaves. -/
theorem opcuaWriteFinal_last (env : OpcuaEnv ρ)
    (hknown : ∀ i < opcuaIterations (opcuaWriteCount m p), opcuaNodeid? m (opcuaWritePos m p i) r ≠ none)
    (x : β) : opcuaWriteFinal s m p r env x =
      ((opcuaLastWrite s m p r x).map fun i =>
        opcuaWriteItemValue env r i m (opcuaWritePos m p i)).getD (s.nodes x).value := by
  rw [opcuaWriteFinal_eq, opcuaLastWrite, ← Loop.lastSome_option_map]
  refine congrArg (Option.getD · _) (Loop.lastSome_congr fun i hi => ?_)
  obtain ⟨id, hid⟩ := Option.ne_none_iff_exists'.1 (hknown i (List.mem_range.1 hi))
  rw [opcuaWriteStored, opcuaNodeidAt_eq, opcuaWriteNode, hid]
  show (if opcuaFindNode s id = some x then _ else _) =
    Option.map _ (if opcuaFindNode s id = some x then _ else _)
  split_ifs
  · rfl
  · rfl

/-- Its response reports the entries that name nodes as good. -/
theorem opcuaLastGood_eq {head : List (BitVec 8)} (hh : head.length = 16) (env : OpcuaEnv ρ)
    (x : β) : opcuaLastGood s m p r (opcuaMessage opcuaMsgMsg (head ++ opcuaWriteBody env
      (opcuaWriteCount m p) (opcuaWriteAll env r { s with sequenceNum := s.sequenceNum + 1 } m p).2)) x =
      opcuaLastWrite s m p r x := by
  refine Loop.lastSome_congr fun i hi => ?_
  by_cases hx : opcuaWriteNode s m p r i = some x
  · obtain ⟨id, hid, hfind⟩ := Option.bind_eq_some_iff.1 hx
    have hgood := (opcuaWriteAll_result (s := s) (m := m) (p := p) (r := r) env i).2
      ⟨List.mem_range.1 hi, by rw [opcuaNodeidAt_eq, hid]; exact Option.isSome_of_eq_some hfind⟩
    rw [if_pos hx, if_pos ⟨hx, opcuaResult_eq hh env _ _ hgood⟩]
  · rw [if_neg hx, if_neg fun hc => hx hc.1]

/-- Other messages do not change nodes. -/
theorem opcuaDispatch_nodes {env : OpcuaEnv ρ} {mem : Regions ρ} {s' : OpcuaServer ρ β}
    {type payload : List (BitVec 8)} (hread : ¬ OpcuaAsks m p 631) (hwrite : ¬ OpcuaAsks m p 673)
    (h : (opcuaDispatch env mem r s m (Cursor.start p)).1 = .respond s' type (some payload)) :
    s'.nodes = s.nodes := by
  by_cases hmsg : Holds m p opcuaMsgMsg
  · have hread : opcuaTypeId m p ≠ 631 := fun he => hread ⟨hmsg, he⟩
    have hwrite : opcuaTypeId m p ≠ 673 := fun he => hwrite ⟨hmsg, he⟩
    rw [opcuaDispatch_msg env mem r s hmsg] at h
    dsimp only at h
    by_cases hcreate : opcuaTypeId m p = 461
    · rw [opcuaServiceAt_create env mem r s hcreate] at h
      dsimp only at h
      rw [← (OpcuaAction.respond.inj h).1, opcuaCreateSession]
      split_ifs
      · rfl
      · rfl
    · obtain ⟨typeId, -, status, rest, hout⟩ :=
        opcuaServiceAt_other env mem r s hcreate hread hwrite
      rw [hout] at h
      cases h
      rfl
  by_cases hhel : Holds m p opcuaMsgHel
  · rw [opcuaDispatch_hel env mem r s hhel] at h
    cases h
    rfl
  by_cases hopn : Holds m p opcuaMsgOpn
  · rw [opcuaDispatch_opn env mem r s hopn] at h
    cases h
    rfl
  by_cases hclo : Holds m p opcuaMsgClo
  · rw [opcuaDispatch_clo env mem r s hclo] at h
    cases h
  · rw [opcuaDispatch_other env mem r s hhel hopn hmsg hclo] at h
    cases h

/-- `on_read` leaves the value of a node as it is. -/
def OpcuaServer.ReadKeeps (s : OpcuaServer ρ β) (id : OpcuaNodeid ρ) (x : β) : Prop :=
  ∀ f, s.onRead = some f → f id (s.nodes x).value = (s.nodes x).value

theorem OpcuaServer.ReadKeeps.notifyRead {id : OpcuaNodeid ρ} {x : β} (h : s.ReadKeeps id x) :
    s.notifyRead id x = s := by
  unfold OpcuaServer.notifyRead
  split
  · rfl
  · next f hf =>
    rw [h f hf, OpcuaServer.setValue, Store.modify, Function.update_eq_self]

theorem opcuaGetValue_keep (mem : Regions ρ) {id : OpcuaNodeid ρ}
    (h : ∀ x, opcuaFindNode s id = some x → s.ReadKeeps id x) :
    opcuaGetValue mem s id = (s, match opcuaFindNode s id with
      | some x => (opcuaEncodeVariant mem (s.nodes x).value).map (writeU8 0x01 ++ ·)
      | none => some (writeU8 0x02 ++ writeU32 opcuaStatusBadNodeidUnknown)) := by
  unfold opcuaGetValue
  cases hx : opcuaFindNode s id with
  | none => rfl
  | some x => simp only [(h x hx).notifyRead]

/-- **A read request** that changes no values gives the results expected. -/
theorem opcuaReadAll_expected (env : OpcuaEnv ρ) (mem : Regions ρ) {g : β → Option (List (BitVec 8))}
    (hids : ∀ i < opcuaIterations (opcuaReadCount m p), ∃ id,
      opcuaNodeid? m (opcuaReadPos m p i) r = some id ∧
        ∀ x, opcuaFindNode s id = some x → s.ReadKeeps id x) :
    (opcuaReadAll env mem r s m p).1 = s ∧
      ((∀ x w, g x = some w → opcuaEncodeVariant mem (s.nodes x).value = some w) →
        ∀ i < opcuaIterations (opcuaReadCount m p), ∀ result, opcuaExpected s m p r g i = some result →
          (opcuaReadAll env mem r s m p).2[i]? = some (some result)) := by
  have hentry : ∀ i < opcuaIterations (opcuaReadCount m p),
      ∃ id, opcuaNodeid? m (opcuaReadPos m p i) r = some id ∧
        opcuaNodeidAt m (opcuaReadPos m p i) r (env.nodeId i) = id ∧
          ∀ x, opcuaFindNode s id = some x → s.ReadKeeps id x := by
    intro i hi
    obtain ⟨id, hid, hkeeps⟩ := hids i hi
    exact ⟨id, hid, by rw [opcuaNodeidAt_eq, hid]; rfl, hkeeps⟩
  have hkeep : ∀ id ∈ opcuaReadEntries m p env r (opcuaIterations (opcuaReadCount m p)),
      (opcuaGetValue mem s id).1 = s := by
    intro id hid
    obtain ⟨i, hi, rfl⟩ := List.mem_map.1 hid
    obtain ⟨id, -, hat, hkeeps⟩ := hentry i (List.mem_range.1 hi)
    rw [hat, opcuaGetValue_keep mem hkeeps]
  rw [opcuaReadAll]
  refine ⟨Loop.collect_keep hkeep, fun hstored i hi result hresult => ?_⟩
  obtain ⟨id, hid, hat, hkeeps⟩ := hentry i hi
  rw [Loop.collect_keep_snd hkeep, opcuaReadEntries, List.map_map, List.getElem?_map,
    List.getElem?_range hi]
  simp only [Option.map_some, Function.comp, hat, opcuaGetValue_keep mem hkeeps]
  rw [opcuaExpected, opcuaReadNode, hid, Option.bind_some] at hresult
  cases hx : opcuaFindNode s id with
  | none =>
    simp only [hx] at hresult ⊢
    rw [hresult]
  | some x =>
    simp only [hx] at hresult ⊢
    obtain ⟨w, hw, rfl⟩ := Option.map_eq_some_iff.1 hresult
    rw [hstored x w hw]
    rfl

end

/-! ## Memory -/

/-- Where responses are written in a buffer. -/
def opcuaRespEnd : ℕ := configZbufHeadroom + 8 + opcuaRespSize

section
variable [DecidableEq α] [DecidableEq β] {s : OpcuaState α β} {a : OpcuaArrival α}
  {served : OpcuaServed α β}

/-- The arrival does not have another byte at `q`, and `q` is not where a response
    is written. -/
structure OpcuaArrival.Keeps (a : OpcuaArrival α) (s : OpcuaState α β) (q : Ptr (OpcuaRegion α)) :
    Prop where
  same : (s.arrived a).memory.byte q.region q.offset = s.memory.byte q.region q.offset
  apart : ∀ b, a.pool.freeList = some b → q.region = .zbuf b →
    q.offset < configZbufHeadroom ∨ opcuaRespEnd ≤ q.offset

/-- **A response** is the only thing written. -/
theorem OpcuaOutcome.byte (h : OpcuaOutcome s a served) (happ : served.state.app = s.app)
    {q : Ptr (OpcuaRegion α)} (hq : ∀ b, a.pool.freeList = some b → q.region = .zbuf b →
      q.offset < configZbufHeadroom ∨ opcuaRespEnd ≤ q.offset) :
    served.state.memory.byte q.region q.offset = (s.arrived a).memory.byte q.region q.offset := by
  obtain ⟨region, offset⟩ := q
  cases region with
  | app => exact congrFun happ offset
  | zbuf x =>
    cases h with
    | silent _ _ _ hspace => exact congrFun (congrArg ByteMem.byte (hspace x)) offset
    | @respond type payload _ haction hfit _ hspace =>
      refine (congrFun (congrArg ByteMem.byte (hspace x)) offset).trans ?_
      split_ifs with hx
      · have hlen : (opcuaMessage type payload).length = 8 + payload.length :=
          opcuaMessage_length (opcuaDispatch_type haction)
        have hend : configZbufHeadroom + (opcuaMessage type payload).length ≤ opcuaRespEnd := by
          rw [opcuaRespEnd, hlen]
          omega
        rcases hq x hx rfl with hlt | hle
        · exact ByteMem.putBytes_byte_of_lt _ _ _ hlt
        · exact ByteMem.putBytes_byte_of_le _ _ _ (Nat.le_trans hend hle)
      · rfl

omit [DecidableEq α] [DecidableEq β] in
theorem OpcuaState.memory_size {s s' : OpcuaState α β} (h : s'.appSize = s.appSize) :
    s'.memory.size = s.memory.size := by
  funext region
  cases region with
  | zbuf x => rfl
  | app => exact h

omit [DecidableEq α] [DecidableEq β] in
/-- A value behind which the memory is kept is encoded as before. -/
theorem opcuaEncodeVariant_arrived {v : OpcuaVariant (OpcuaRegion α)} {w : List (BitVec 8)}
    (h : opcuaEncodeVariant s.memory v = some w)
    (hkeep : ∀ q ∈ opcuaEncodeReads s.memory v, a.Keeps s q) :
    opcuaEncodeVariant (s.arrived a).memory v = some w :=
  opcuaEncodeVariant_congr h (OpcuaState.memory_size rfl) fun q hq => (hkeep q hq).same

theorem opcuaEncodeVariant_served {v : OpcuaVariant (OpcuaRegion α)} {w : List (BitVec 8)}
    (hout : OpcuaOutcome s a served) (happ : served.state.app = s.app)
    (hsize : served.state.appSize = s.appSize) (h : opcuaEncodeVariant s.memory v = some w)
    (hkeep : ∀ q ∈ opcuaEncodeReads s.memory v, a.Keeps s q) :
    opcuaEncodeVariant served.state.memory v = some w := by
  refine opcuaEncodeVariant_congr h (OpcuaState.memory_size hsize) fun q hq => ?_
  rw [hout.byte happ (hkeep q hq).apart, (hkeep q hq).same]

end

/-! ## Runs -/

section
variable [DecidableEq α] [DecidableEq β]

/-- The arrival is a request of a type. -/
def OpcuaArrival.Asks (a : OpcuaArrival α) (typeId : BitVec 16) : Prop :=
  8 ≤ a.len ∧ OpcuaAsks a.byte a.data typeId

/-- The encodings written, of which the last one of each node that was reported as
    good is kept. -/
def opcuaRemember (port : Port) (s : OpcuaState α β) (a : OpcuaArrival α) (_ : OpcuaState α β)
    (g : β → Option (List (BitVec 8))) (x : β) : Option (List (BitVec 8)) :=
  ((opcuaReply port s a).bind fun reply =>
    opcuaReported s.server a.byte a.data (.zbuf a.zb) reply x).or (g x)

/-- Runs with the encodings written. -/
def opcuaRemembering (α β : Type) [DecidableEq α] [DecidableEq β] (port : Port) :
    Lts (OpcuaState α β × (β → Option (List (BitVec 8)))) (OpcuaArrival α) :=
  (opcuaLts α β port).track (fun _ _ => none) (opcuaRemember port)

/-- The response to a read request, with the given results. -/
def opcuaReadReply (s : OpcuaState α β) (a : OpcuaArrival α) (results : List (List (BitVec 8))) :
    List (BitVec 8) :=
  opcuaMessage opcuaMsgMsg (opcuaServiceHead s.server a.byte a.data ++
    opcuaReadBody a.env (opcuaReadCount a.byte a.data) results)

/-- **A read request returns what was written**: its response has the results
    expected, and if these fit and there is a free buffer, a response is sent. -/
structure OpcuaReturned (port : Port) (s : OpcuaState α β) (g : β → Option (List (BitVec 8)))
    (a : OpcuaArrival α) : Prop where
  results : ∀ reply, opcuaReply port s a = some reply → ∃ results, reply = opcuaReadReply s a results ∧
    results.length = opcuaIterations (opcuaReadCount a.byte a.data) ∧
    ∀ i < opcuaIterations (opcuaReadCount a.byte a.data), ∀ result,
      opcuaExpected s.server a.byte a.data (.zbuf a.zb) g i = some result → results[i]? = some result
  sent : ∀ results, (List.range (opcuaIterations (opcuaReadCount a.byte a.data))).map
      (opcuaExpected s.server a.byte a.data (.zbuf a.zb) g) = results.map some →
    53 + results.flatten.length ≤ opcuaRespSize → a.pool.freeList ≠ none →
      opcuaReply port s a = some (opcuaReadReply s a results)

/-- What an arrival must meet: requests have node ids of known forms, the memory
    behind values that were written is kept, `on_read` does not change the nodes
    read, and what is written last to a node is reported and is a complete
    encoding, with its terminator if it is a string. -/
structure OpcuaKept (p : OpcuaState α β × (β → Option (List (BitVec 8)))) (a : OpcuaArrival α) :
    Prop where
  taken : a.pool.freeList ≠ some a.zb
  memory : ∀ x w, p.2 x = some w →
    (a.Asks 673 → opcuaLastWrite p.1.server a.byte a.data (.zbuf a.zb) x = none) →
    ∀ q ∈ opcuaEncodeReads p.1.memory (p.1.server.nodes x).value, a.Keeps p.1 q
  read : a.Asks 631 → ∀ i < opcuaIterations (opcuaReadCount a.byte a.data),
    ∃ id, opcuaNodeid? a.byte (opcuaReadPos a.byte a.data i) (OpcuaRegion.zbuf a.zb) = some id ∧
      ∀ x, opcuaFindNode p.1.server id = some x → p.1.server.ReadKeeps id x
  known : a.Asks 673 → ∀ i < opcuaIterations (opcuaWriteCount a.byte a.data),
    opcuaNodeid? a.byte (opcuaWritePos a.byte a.data i) (OpcuaRegion.zbuf a.zb) ≠ none
  write : a.Asks 673 → ∀ x i, opcuaLastWrite p.1.server a.byte a.data (.zbuf a.zb) x = some i →
    a.pool.freeList ≠ none ∧ opcuaHasValue a.byte (opcuaWritePos a.byte a.data i) ∧
      ∃ w : OpcuaWire, Holds a.byte (opcuaWriteValuePos a.byte a.data i) w.encoding ∧
        w.Ended (p.1.arrived a).memory (.zbuf a.zb) (opcuaWriteValuePos a.byte a.data i)

/-- The encodings written are those of the values stored. -/
def OpcuaStored (s : OpcuaState α β) (g : β → Option (List (BitVec 8))) : Prop :=
  ∀ x w, g x = some w → opcuaEncodeVariant s.memory (s.server.nodes x).value = some w

variable {port : Port} {s s' : OpcuaState α β} {a : OpcuaArrival α}
  {g : β → Option (List (BitVec 8))} {served : OpcuaServed α β}

/-- A value that is not written is kept. -/
theorem OpcuaStored.keep (h : OpcuaStored s g) (hok : OpcuaKept (s, g) a)
    (hout : OpcuaOutcome s a served) (happ : served.state.app = s.app)
    (hsize : served.state.appSize = s.appSize) {x : β} {w : List (BitVec 8)} (hx : g x = some w)
    (hnone : a.Asks 673 → opcuaLastWrite s.server a.byte a.data (.zbuf a.zb) x = none)
    (hvalue : (served.state.server.nodes x).value = (s.server.nodes x).value) :
    opcuaEncodeVariant served.state.memory (served.state.server.nodes x).value = some w := by
  rw [hvalue]
  exact opcuaEncodeVariant_served hout happ hsize (h x w hx) (hok.memory x w hx hnone)

/-- **A value that is written** is encoded as it was carried. -/
theorem OpcuaKept.written (hok : OpcuaKept (s, g) a) (hasks : a.Asks 673)
    (hout : OpcuaOutcome s a served) (happ : served.state.app = s.app)
    (hsize : served.state.appSize = s.appSize) {x : β} {i : ℕ}
    (hi : opcuaLastWrite s.server a.byte a.data (.zbuf a.zb) x = some i)
    (hvalue : (served.state.server.nodes x).value =
      opcuaWriteItemValue a.env (.zbuf a.zb) i a.byte (opcuaWritePos a.byte a.data i)) :
    opcuaEncodeVariant served.state.memory (served.state.server.nodes x).value =
      some (Lib.bytesAt a.byte (opcuaWriteValuePos a.byte a.data i)
        (opcuaVariantSize a.byte (opcuaWriteValuePos a.byte a.data i))) := by
  obtain ⟨-, hhas, w, hw, hend⟩ := hok.write hasks x i hi
  have hw' : Holds ((s.arrived a).memory.byte (.zbuf a.zb)) (opcuaWriteValuePos a.byte a.data i)
      w.encoding := hw
  obtain ⟨henc, hreads⟩ := OpcuaWire.stored (a.env.valueNodeid i) hw' hend
  have hbytes := hw.bytesAt_eq (OpcuaWire.size_of_holds hw')
  rw [hvalue, opcuaWriteItemValue, if_pos hhas]
  refine (opcuaEncodeVariant_congr henc ?_ fun q hq => ?_).trans (congrArg some hbytes.symm)
  · exact (OpcuaState.memory_size hsize).trans (OpcuaState.memory_size rfl)
  · refine hout.byte happ fun b hb hregion => ?_
    rw [hreads q hq] at hregion
    cases hregion
    exact absurd hb hok.taken

/-- **Each step** keeps the encodings written. -/
theorem OpcuaStored.step (h : OpcuaStored s g) (hstep : opcuaStep port s a = some s')
    (hok : OpcuaKept (s, g) a) : OpcuaStored s' (opcuaRemember port s a s' g) := by
  obtain ⟨served, rfl, hreply, hout, happ, hsize⟩ := opcuaStep_served hstep
  intro x w hx
  rw [opcuaRemember, hreply] at hx
  have hout' := hout
  cases hout' with
  | silent hserver hnone hwhy hspace =>
    rw [hnone] at hx
    refine h.keep hok hout happ hsize hx (fun hasks => ?_) (by rw [hserver])
    rcases hwhy with hshort | hclose | hignore
    · exact absurd hasks.1 (Nat.not_le.2 hshort)
    · rw [opcuaAction, opcuaDispatch_msg a.env _ _ _ hasks.2.1] at hclose
      cases hclose
    · rw [opcuaAction, opcuaDispatch_msg a.env _ _ _ hasks.2.1] at hignore
      cases hignore
  | @respond type payload hlen haction hfit hr hspace =>
    rw [hr] at hx
    by_cases hwrite : OpcuaAsks a.byte a.data 673
    · have hasks : a.Asks 673 := ⟨hlen, hwrite⟩
      have hdispatch := opcuaDispatch_write (s := s.server) (r := .zbuf a.zb) hwrite.1 hwrite.2 a.env
        (s.arrived a).memory
      obtain ⟨hserver, rfl, hpayload⟩ := OpcuaAction.respond.inj (hdispatch.symm.trans haction)
      have hfinal : ∀ x, (served.state.server.nodes x).value =
          opcuaWriteFinal s.server a.byte a.data (.zbuf a.zb) a.env x := by
        intro x
        rw [← hserver]
        rfl
      simp only [opcuaWriteFinal_last a.env (hok.known hasks)] at hfinal
      cases hi : opcuaLastWrite s.server a.byte a.data (.zbuf a.zb) x with
      | none =>
        refine h.keep hok hout happ hsize ?_ (fun _ => hi) ?_
        · cases hfree : a.pool.freeList with
          | none => rw [hfree] at hx; exact hx
          | some b =>
            rw [hfree, Option.map_some, Option.bind_some, opcuaReported, if_pos hwrite,
              ← Option.some.inj hpayload, opcuaLastGood_eq (opcuaServiceHead_length _ _ _), hi] at hx
            exact hx
        · rw [hfinal, hi]
          rfl
      | some i =>
        obtain ⟨b, hb⟩ := Option.ne_none_iff_exists'.1 (hok.write hasks x i hi).1
        rw [hb, Option.map_some, Option.bind_some, opcuaReported, if_pos hwrite,
          ← Option.some.inj hpayload, opcuaLastGood_eq (opcuaServiceHead_length _ _ _), hi] at hx
        rw [← hx]
        refine hok.written hasks hout happ hsize hi ?_
        rw [hfinal, hi]
        rfl
    · have hnone : ∀ reply, opcuaReported s.server a.byte a.data (.zbuf a.zb) reply x = none :=
        fun reply => if_neg hwrite
      have hx : g x = some w := by
        cases hfree : a.pool.freeList with
        | none => rw [hfree] at hx; exact hx
        | some b => rw [hfree, Option.map_some, Option.bind_some, hnone] at hx; exact hx
      refine h.keep hok hout happ hsize hx (fun hasks => absurd hasks.2 hwrite) ?_
      by_cases hread : OpcuaAsks a.byte a.data 631
      · have hkeep := (opcuaReadAll_expected
          (s := { s.server with sequenceNum := s.server.sequenceNum + 1 }) (r := .zbuf a.zb)
          (g := g) a.env (s.arrived a).memory (hok.read ⟨hlen, hread⟩)).1
        have hdispatch := opcuaDispatch_read a.env (s.arrived a).memory (.zbuf a.zb) s.server hread.1
          hread.2
        obtain ⟨hserver, -, -⟩ := OpcuaAction.respond.inj (hdispatch.symm.trans haction)
        rw [← hserver, hkeep]
      · have hnodes := opcuaDispatch_nodes hread hwrite haction
        rw [hnodes]

omit [DecidableEq α] in
/-- What a read request finds. -/
theorem OpcuaStored.expected (h : OpcuaStored s g) (hok : OpcuaKept (s, g) a) (hread : a.Asks 631) :
    ∀ i < opcuaIterations (opcuaReadCount a.byte a.data), ∀ result,
      opcuaExpected s.server a.byte a.data (.zbuf a.zb) g i = some result →
        (opcuaReadAll a.env (s.arrived a).memory (.zbuf a.zb)
          { s.server with sequenceNum := s.server.sequenceNum + 1 } a.byte a.data).2[i]? =
            some (some result) := by
  refine (opcuaReadAll_expected (s := { s.server with sequenceNum := s.server.sequenceNum + 1 })
    a.env _ (hok.read hread)).2 fun x w hx => ?_
  refine opcuaEncodeVariant_arrived (h x w hx) (hok.memory x w hx fun hwrite => ?_)
  exact absurd (hread.2.2.symm.trans hwrite.2.2) (by decide)

/-- A read request from a state with the encodings written. -/
theorem OpcuaStored.returned (h : OpcuaStored s g) (hok : OpcuaKept (s, g) a) (hread : a.Asks 631) :
    OpcuaReturned port s g a := by
  have hexpected := h.expected hok hread
  have hlength := opcuaReadAll_length a.env (s.arrived a).memory (.zbuf a.zb)
    { s.server with sequenceNum := s.server.sequenceNum + 1 } a.byte a.data
  have hdispatch := opcuaDispatch_read a.env (s.arrived a).memory (.zbuf a.zb) s.server hread.2.1
    hread.2.2
  dsimp only at hdispatch
  generalize opcuaReadAll a.env (s.arrived a).memory (.zbuf a.zb)
    { s.server with sequenceNum := s.server.sequenceNum + 1 } a.byte a.data = out
    at hexpected hlength hdispatch
  constructor
  · intro reply hreply
    obtain ⟨served, hserved, hsent⟩ := Option.bind_eq_some_iff.1 hreply
    obtain ⟨hout, -, -⟩ := opcuaReceive_outcome hserved
    cases hout with
    | silent _ hnone _ _ => rw [hnone] at hsent; cases hsent
    | respond _ haction _ hr _ =>
      obtain ⟨-, rfl, hpayload⟩ := OpcuaAction.respond.inj (hdispatch.symm.trans haction)
      obtain ⟨results, hresults, rfl⟩ := Option.map_eq_some_iff.1 hpayload
      have hall := mapM_id_eq_some.1 hresults
      refine ⟨results, ?_, ?_, fun i hi result hi' => ?_⟩
      · rw [hr] at hsent
        obtain ⟨b, -, hb⟩ := Option.map_eq_some_iff.1 hsent
        exact hb.symm
      · rw [← hlength, hall, List.length_map]
      · have hat := hexpected i hi result hi'
        rw [hall, List.getElem?_map] at hat
        obtain ⟨result', hresult', he⟩ := Option.map_eq_some_iff.1 hat
        rw [hresult', Option.some.inj he]
  · intro results hresults hfit hfree
    have hall : out.2 = results.map some := by
      refine List.ext_getElem? fun i => ?_
      by_cases hi : i < opcuaIterations (opcuaReadCount a.byte a.data)
      · have hat := congrArg (·[i]?) hresults
        simp only [List.getElem?_map, List.getElem?_range hi, Option.map_some] at hat
        obtain ⟨result, hresult, he⟩ := Option.map_eq_some_iff.1 hat.symm
        rw [hexpected i hi result he.symm, List.getElem?_map, hresult]
        rfl
      · have hlen := congrArg List.length hresults
        simp only [List.length_map, List.length_range] at hlen
        rw [List.getElem?_eq_none (by omega),
          List.getElem?_eq_none (by rw [List.length_map]; omega)]
    rw [hall, mapM_id_eq_some.2 rfl] at hdispatch
    obtain ⟨served, hserved, -, -, hsent⟩ := opcuaReceive_respond port hread.1 hdispatch
      (by rw [opcuaReadBody_length]; exact hfit)
    obtain ⟨b, hb⟩ := Option.ne_none_iff_exists'.1 hfree
    rw [opcuaReply, hserved, Option.bind_some, hsent, hb]
    rfl

/-- **Values persist** in every run that keeps the memory behind them: a read
    request returns the encodings last written and reported as good. -/
theorem opcua_values_persist (port : Port) {arrivals : List (OpcuaArrival α)}
    (h : ((opcuaRemembering α β port).restrict OpcuaKept).Run arrivals (s, g))
    (hok : OpcuaKept (s, g) a) (hread : a.Asks 631) : OpcuaReturned port s g a := by
  have hstored : OpcuaStored s g := by
    refine h.rule (P := fun _ p => OpcuaStored p.1 p.2) ?_ ?_
    · rintro p ⟨-, hnone⟩ x w hx
      rw [hnone] at hx
      cases hx
    · rintro tr p a p' hp ⟨hok, hstep, hremember⟩
      rw [hremember]
      exact hp.step hstep hok
  exact hstored.returned hok hread

end

/-! ## Examples -/

/-- A pool of four buffers. -/
def demoPoolFour : ZbufPool (Fin 4) :=
  zbufPoolInit ⟨[3, 2, 1, 0], by decide, by decide⟩ fun _ =>
    ⟨0, 0, 0, 0, 0, 0, 0, 0, 0, 0, none, 0, none, none, 0, ⟨fun _ => 0, []⟩⟩

/-- Cleared memory. -/
def demoOpcuaNode : OpcuaNode (OpcuaRegion (Fin 4)) Unit :=
  ⟨⟨0, .numeric 0⟩, opcuaNull ⟨0, .numeric 0⟩, none, none, none⟩

/-- A server with the numeric node 1. -/
def demoValues : OpcuaState (Fin 4) Unit where
  server :=
    { opcuaAddNode (opcuaServerInit (fun _ => demoOpcuaNode)
        fun _ => ⟨0, 0, false, 0, 0⟩) () none ⟨0, .numeric 1⟩ with running := true }
  pool := demoPoolFour
  app := fun _ => 0
  appSize := 0

theorem demoValues_fresh : demoValues.server.Fresh := by
  have hrun : (opcuaAddLts (OpcuaRegion (Fin 4)) Unit).Run [] (opcuaServerInit
      (fun _ => demoOpcuaNode) fun _ => ⟨0, 0, false, 0, 0⟩) :=
    .start ⟨_, _, rfl⟩
  exact ⟨_, _, hrun.snoc (e := ⟨(), none, ⟨0, .numeric 1⟩⟩) ⟨List.not_mem_nil, nofun, rfl⟩, .refl _⟩

/-- A request that arrives in the first free buffer of a pool. -/
def demoTaken (pool : ZbufPool (Fin 4)) (typeId : BitVec 16) (body : List (BitVec 8)) :
    OpcuaArrival (Fin 4) :=
  let bytes := opcuaMsgMsg ++ [0x46] ++ writeU32 (BitVec.ofNat 32 (52 + body.length)) ++
    List.replicate 16 0 ++ [1, 0] ++ writeU16 typeId ++ List.replicate 24 0 ++ body
  let (pool, zb) := zbufAllocRx pool 0
  { pool := { pool with
      zb := pool.zb.modify (zb.getD 0) fun z =>
        { z with
          tail := bytes.length, len := BitVec.ofNat 16 bytes.length,
          space := z.space.putBytes 0 bytes } }
    zb := zb.getD 0
    env := demoEnv }

/-- An entry of a write request. -/
def demoEntry (nodeId value : List (BitVec 8)) : List (BitVec 8) :=
  nodeId ++ writeU32 13 ++ writeU32 0xFFFFFFFF ++ [1] ++ value

/-- A request to write to the node. -/
def demoFlag : OpcuaArrival (Fin 4) :=
  demoTaken demoPoolFour 673 (writeU32 1 ++ demoEntry [0, 1] [1, 1])

/-- The same for a string, and to write to a node that does not exist. -/
def demoString : OpcuaArrival (Fin 4) :=
  demoTaken demoPoolFour 673
    (writeU32 2 ++ demoEntry [0, 1] [12, 2, 0, 0, 0, 0x61, 0x62] ++ demoEntry [1, 0, 2, 0] [1, 1])

/-- A request to read the node. -/
def demoValueRead (pool : ZbufPool (Fin 4)) : OpcuaArrival (Fin 4) :=
  demoTaken pool 631 (writeU64 0 ++ writeU32 0 ++ writeU32 1 ++
    ([0, 1] ++ writeU32 13 ++ writeU32 0xFFFFFFFF ++ [0, 0, 0]))

/-- The state and the encodings after a request. -/
def demoAfter (a : OpcuaArrival (Fin 4)) :
    Option (OpcuaState (Fin 4) Unit × (Unit → Option (List (BitVec 8)))) :=
  Lts.exec (Lts.trackFun (opcuaStep .arm64) (opcuaRemember .arm64)) (demoValues, fun _ => none) [a]

theorem demoAfter_flag : (demoAfter demoFlag).isSome := by decide +kernel

theorem demoAfter_string : (demoAfter demoString).isSome := by decide +kernel

theorem demoFlag_kept : OpcuaKept (demoValues, fun _ => none) demoFlag := by
  constructor
  · decide +kernel
  · intro x w hx
    cases hx
  · intro hread
    exact absurd hread.2 (by decide +kernel)
  · intro _
    decide +kernel
  · intro _ x i hi
    obtain ⟨j, hj, he⟩ := Loop.lastSome_eq_some hi
    have hcount : opcuaIterations (opcuaWriteCount demoFlag.byte demoFlag.data) = 1 := by
      decide +kernel
    rw [hcount] at hj
    cases (show j = 0 by simpa using hj)
    obtain ⟨-, hi⟩ := Option.ite_none_right_eq_some.1 he
    cases hi
    exact ⟨by decide +kernel, by decide +kernel, .boolean true, by decide +kernel, trivial⟩

/-- The flag is read as it was written. -/
theorem opcua_values_persist_flag :
    let p := (demoAfter demoFlag).get demoAfter_flag
    OpcuaReturned .arm64 p.1 p.2 (demoValueRead p.1.pool) := by
  intro p
  have hrun : ((opcuaRemembering (Fin 4) Unit .arm64).restrict OpcuaKept).Run [demoFlag] p := by
    refine Lts.run_exec_track (fun _ _ _ h => h) demoValues_fresh
      (Option.some_get demoAfter_flag).symm ?_
    intro i hi
    cases (show i = 0 by simpa using hi)
    exact demoFlag_kept
  refine opcua_values_persist .arm64 hrun ?_ ⟨by decide +kernel, by decide +kernel⟩
  have hnone : p.1.server.onRead.isNone := by decide +kernel
  constructor
  · decide +kernel
  · intro x w _ _ q hq
    have hreads : opcuaEncodeReads p.1.memory (p.1.server.nodes ()).value = [] := by decide +kernel
    cases x
    rw [hreads] at hq
    cases hq
  · intro _ i hi
    have hcount : opcuaIterations (opcuaReadCount (demoValueRead p.1.pool).byte
        (demoValueRead p.1.pool).data) = 1 := by decide +kernel
    rw [hcount] at hi
    cases (show i = 0 by omega)
    refine ⟨⟨0, .numeric 1⟩, by decide +kernel, fun x _ f hf => ?_⟩
    rw [hf] at hnone
    cases hnone
  · intro hwrite
    exact absurd hwrite.2 (by decide +kernel)
  · intro hwrite
    exact absurd hwrite.2 (by decide +kernel)

/-- **A string grows** if no terminator follows it in its buffer: what is read of the
    two characters are three. -/
theorem opcua_values_persist_string :
    ∃ arrivals s g a, (opcuaRemembering (Fin 4) Unit .arm64).Run arrivals (s, g) ∧
      (∀ e ∈ arrivals, e.Asks 673 ∧ ¬ OpcuaTruncated e.byte e.data e.len) ∧
      a.Asks 631 ∧ ¬ OpcuaTruncated a.byte a.data a.len ∧ ¬ OpcuaReturned .arm64 s g a := by
  let p := (demoAfter demoString).get demoAfter_string
  have hrun : ((opcuaRemembering (Fin 4) Unit .arm64).restrict fun _ _ => True).Run [demoString] p :=
    Lts.run_exec_track (fun _ _ _ h => h) demoValues_fresh (Option.some_get demoAfter_string).symm
      fun _ _ => trivial
  refine ⟨_, p.1, p.2, demoValueRead p.1.pool, hrun.of_restrict, ?_, ?_, ?_, fun h => ?_⟩
  · intro e he
    rw [List.mem_singleton.1 he]
    exact ⟨⟨by decide +kernel, by decide +kernel⟩, by decide +kernel⟩
  · exact ⟨by decide +kernel, by decide +kernel⟩
  · decide +kernel
  · have hreply := h.sent [writeU8 1 ++ [12, 2, 0, 0, 0, 0x61, 0x62]] (by decide +kernel) (by decide)
      (by decide +kernel)
    exact absurd hreply (by decide +kernel)

end Gracemont
