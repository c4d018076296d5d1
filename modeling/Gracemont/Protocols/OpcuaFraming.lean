/-
  Gracemont protocols — OPC UA messages and TCP segments.

  `tcp_input` queues each segment that is next in sequence in a buffer of its own,
  `sock_recv_zbuf` returns one of them, and `opcua_server_poll` takes it for one
  message.

  * `OpcuaCut`, `OpcuaDelivers`: a stream cut into segments, and buffers that carry
    them;
  * `opcuaDelivers_received`: so do the buffers that the server gets from the
    receive queue of its socket;
  * `OpcuaFramed`: the responses and the nodes do not depend on the cutting;
  * `OpcuaAnswerable`: the server can be made to answer, skipping segments of
    unknown types;
  * `opcua_framed_iff`: the cutting does not matter iff nothing is ever answered.
-/
import Gracemont.Net.SocketStream
import Gracemont.Protocols.OpcuaSession

namespace Gracemont

open Lib

/-- `CONFIG_TCP_MSS` -/
def configTcpMss : ℕ := 1460

/-! ## Segments -/

/-- A stream of bytes, cut into TCP segments. -/
structure OpcuaCut (stream : List (BitVec 8)) (parts : List (List (BitVec 8))) : Prop where
  flatten : parts.flatten = stream
  size : ∀ part ∈ parts, part ≠ [] ∧ part.length ≤ configTcpMss

variable {α β : Type}

/-- The bytes of the buffer that arrives. -/
def OpcuaArrival.segment (a : OpcuaArrival α) : List (BitVec 8) := Lib.bytesAt a.byte a.data a.len

/-- The arrival carries a segment, and there is a free buffer for a response. -/
structure OpcuaArrival.Carries (a : OpcuaArrival α) (env : OpcuaEnv (OpcuaRegion α))
    (part : List (BitVec 8)) : Prop where
  segment : a.segment = part
  env : a.env = env
  free : a.pool.freeList ≠ none
  taken : a.pool.freeList ≠ some a.zb

/-- Each segment arrives in its buffer; the handlers find the same clock and locals. -/
def OpcuaDelivers (env : OpcuaEnv (OpcuaRegion α)) : List (List (BitVec 8)) →
    List (OpcuaArrival α) → Prop :=
  List.Forall₂ fun part a => a.Carries env part

/-- The server and the socket `x` of its client, until the receive queue is empty:
    buffers are placed on it, and those that `sock_recv_zbuf` returns are handled. -/
inductive OpcuaReceives {σ : Type} [DecidableEq α] [DecidableEq σ] (x : σ) :
    RecvState α σ → List (List (BitVec 8)) → List (OpcuaArrival α) → Prop
  | done {s : RecvState α σ} : s.queue = [] → OpcuaReceives x s [] []
  | place {s : RecvState α σ} {pool : ZbufPool α} {zb : α} {parts : List (List (BitVec 8))}
      {arrivals : List (OpcuaArrival α)} : s.Kept pool → zb ∉ s.queue →
      OpcuaReceives x (s.place x pool zb) parts arrivals →
      OpcuaReceives x s (payloadOf (pool.zb zb) :: parts) arrivals
  | call {s : RecvState α σ} {pool : ZbufPool α} {net : NetStack α σ} {a : OpcuaArrival α}
      {parts : List (List (BitVec 8))} {arrivals : List (OpcuaArrival α)} : s.Kept pool →
      sockRecvZbufResume (s.meets pool) x = some (net, some a.zb) → a.pool = net.pool →
      OpcuaReceives x (s.took net a.zb) parts arrivals → OpcuaReceives x s parts (a :: arrivals)

/-- What a client and the application can observe: the responses and the nodes. -/
def opcuaObserve (out : OpcuaState α β × List (List (BitVec 8))) :
    List (List (BitVec 8)) × Store β (OpcuaNode (OpcuaRegion α) β) := (out.2, out.1.server.nodes)

/-- **The cutting does not matter**: in any two, the server of any run sends the same
    responses and leaves the same nodes. -/
def OpcuaFramed (port : Port) (stream : List (BitVec 8)) : Prop :=
  ∀ (α β : Type) [DecidableEq α] [DecidableEq β] (s : OpcuaState α β)
    (env : OpcuaEnv (OpcuaRegion α)) (parts parts' : List (List (BitVec 8)))
    (arrivals arrivals' : List (OpcuaArrival α)), (opcuaLts α β port).Reachable s →
    OpcuaCut stream parts → OpcuaDelivers env parts arrivals →
    OpcuaCut stream parts' → OpcuaDelivers env parts' arrivals' →
    (opcuaServerPoll port s true arrivals).map opcuaObserve =
      (opcuaServerPoll port s true arrivals').map opcuaObserve

/-- The types that are answered. -/
def opcuaAnswers : List (List (BitVec 8)) := [opcuaMsgHel, opcuaMsgOpn, opcuaMsgMsg]

/-- A segment of the stream can start with a message that is answered, when
    segments of unknown types come before. -/
inductive OpcuaAnswerable : List (BitVec 8) → Prop
  | here {l : List (BitVec 8)} : 8 ≤ l.length → l.take 3 ∈ opcuaAnswers → OpcuaAnswerable l
  | skip {l : List (BitVec 8)} {k : ℕ} : 8 ≤ k → k ≤ configTcpMss → l.take 3 ∉ opcuaAnswers →
      l.take 3 ≠ opcuaMsgClo → OpcuaAnswerable (l.drop k) → OpcuaAnswerable l

/-- A stream of a message and others. -/
theorem opcuaAnswerable_message {type payload rest : List (BitVec 8)}
    (h : type ∈ opcuaMsgClo :: opcuaAnswers) :
    OpcuaAnswerable (opcuaMessage type payload ++ rest) ↔ type ≠ opcuaMsgClo := by
  have hlen : type.length = 3 := by
    simp only [opcuaAnswers, List.mem_cons, List.not_mem_nil, or_false] at h
    rcases h with rfl | rfl | rfl | rfl <;> rfl
  have htake : (opcuaMessage type payload ++ rest).take 3 = type := by
    simp only [opcuaMessage, List.append_assoc]
    rw [← hlen, List.take_left]
  constructor
  · intro ha hclo
    cases ha with
    | here _ hmem =>
      rw [htake, hclo] at hmem
      exact absurd hmem (by decide)
    | skip _ _ _ hne _ => exact hne (htake.trans hclo)
  · intro hne
    refine .here ?_ (htake.symm ▸ (List.mem_cons.1 h).resolve_left hne)
    rw [List.length_append, opcuaMessage_length hlen]
    omega

/-! ## The receive queue -/

section
variable {σ : Type} [DecidableEq α] [DecidableEq σ] {x : σ} {env : OpcuaEnv (OpcuaRegion α)}

/-- **The server gets what was placed on the receive queue**, each buffer with the
    bytes that were placed in it. -/
theorem OpcuaReceives.delivers {s : RecvState α σ} {parts : List (List (BitVec 8))}
    {arrivals : List (OpcuaArrival α)} (h : OpcuaReceives x s parts arrivals) (hs : s.Linked x)
    (hmeets : ∀ a ∈ arrivals, a.env = env ∧ a.pool.freeList ≠ none ∧ a.pool.freeList ≠ some a.zb) :
    OpcuaDelivers env ((s.queue.map fun zb => payloadOf (s.net.pool.zb zb)) ++ parts) arrivals := by
  induction h with
  | @done s hqueue =>
    rw [hqueue]
    exact .nil
  | @place s pool zb parts arrivals hk hzb _ ih =>
    have hnext := ih (hs.place hk hzb).2 hmeets
    have hpay : ∀ y, payloadOf ((s.place x pool zb).net.pool.zb y) = payloadOf (pool.zb y) :=
      zbufQueuePush_field _ _ _ payloadOf (fun _ _ => rfl) fun _ _ => rfl
    have hkept : s.queue.map (fun y => payloadOf (pool.zb y)) =
        s.queue.map fun y => payloadOf (s.net.pool.zb y) :=
      List.map_congr_left fun y hy => by rw [(hk y hy).1]
    have hqueue : (s.place x pool zb).queue = s.queue ++ [zb] := rfl
    simp only [hqueue, hpay, List.map_append, hkept, List.append_assoc] at hnext
    exact hnext
  | @call s pool net a parts arrivals hk hcall hpool _ ih =>
    obtain ⟨hlinked, hqueue, hpay⟩ := hs.recvZbuf hk hcall
    obtain ⟨⟨henv, hfree, htaken⟩, hrest⟩ := List.forall_mem_cons.1 hmeets
    have hnext := ih hlinked hrest
    rw [← List.map_congr_left hpay, hqueue, List.map_cons, List.cons_append]
    refine .cons ⟨?_, henv, hfree, htaken⟩ hnext
    rw [OpcuaArrival.segment, OpcuaArrival.byte, OpcuaArrival.data, OpcuaArrival.len, hpool]
    rfl

/-- **A connection.**  The peer's segments arrive in sequence in the run `tr` of TCP,
    their buffers are placed on the receive queue, and the server gets them: it meets
    the segments, one in a buffer. -/
theorem opcuaDelivers_received {cfg : NetConfig α} {tr : List (TcpEvent α σ)} {t : NetStack α σ}
    {s : RecvState α σ} {arrivals : List (OpcuaArrival α)}
    (htcp : ((tcpLts cfg fun t => t.log = []).restrict (InSequence x)).Run tr t)
    (h : OpcuaReceives x s ((t.inbox x).map payloadOf) arrivals) (hs : s.Linked x)
    (hempty : s.queue = [])
    (hmeets : ∀ a ∈ arrivals, a.env = env ∧ a.pool.freeList ≠ none ∧ a.pool.freeList ≠ some a.zb) :
    OpcuaDelivers env (tr.filterMap TcpEvent.data) arrivals := by
  have hdel := h.delivers hs hmeets
  rw [hempty, List.map_nil, List.nil_append, tcp_in_sequence_queued htcp] at hdel
  exact hdel

end

/-! ## Buffers -/

section
variable [DecidableEq α] [DecidableEq β] (port : Port) {s : OpcuaState α β} {a : OpcuaArrival α}

omit [DecidableEq α] in
theorem OpcuaArrival.holds_iff (h : 3 ≤ a.len) {type : List (BitVec 8)} (ht : type.length = 3) :
    Holds a.byte a.data type ↔ a.segment.take 3 = type := by
  have htake : a.segment.take 3 = Lib.bytesAt a.byte a.data 3 := by
    obtain ⟨k, hk⟩ := Nat.le.dest h
    rw [OpcuaArrival.segment, ← hk, bytesAt_add, List.take_left' (bytesAt_length ..)]
  rw [htake, Holds, ht]

omit [DecidableEq α] in
/-- What a segment of eight bytes makes the server do, by its first three. -/
theorem opcuaAction_close (h : 8 ≤ a.len) (ht : a.segment.take 3 = opcuaMsgClo) :
    opcuaAction s a = .close := by
  have hclo : Holds a.byte a.data opcuaMsgClo := (OpcuaArrival.holds_iff (by omega) rfl).2 ht
  rw [opcuaAction, opcuaDispatch_clo _ _ _ _ hclo]

omit [DecidableEq α] in
theorem opcuaAction_ignore (h : 8 ≤ a.len) (ht : a.segment.take 3 ∉ opcuaAnswers)
    (hclo : a.segment.take 3 ≠ opcuaMsgClo) : opcuaAction s a = .ignore := by
  have hnot : ∀ type ∈ opcuaAnswers, ¬ Holds a.byte a.data type := by
    intro type htype hholds
    have hlen : type.length = 3 := by
      simp only [opcuaAnswers, List.mem_cons, List.not_mem_nil, or_false] at htype
      rcases htype with rfl | rfl | rfl <;> rfl
    rw [OpcuaArrival.holds_iff (by omega) hlen] at hholds
    exact ht (hholds ▸ htype)
  rw [opcuaAction, opcuaDispatch_other _ _ _ _ (hnot _ (by decide)) (hnot _ (by decide))
    (hnot _ (by decide)) fun hc => hclo ((OpcuaArrival.holds_iff (by omega) rfl).1 hc)]

omit [DecidableEq α] [DecidableEq β] in
theorem opcuaHandleOpenChannel_length (env : OpcuaEnv (OpcuaRegion α))
    (server : OpcuaServer (OpcuaRegion α) β) (m : ℕ → BitVec 8) (c : Cursor) :
    (opcuaHandleOpenChannel env server m c).1.2.length = 128 := by
  have hpolicy : (charBytes opcuaPolicy).length = 47 := by decide
  simp [opcuaHandleOpenChannel, opcuaWriteText, opcuaResponseHeader_length, opcuaTimestamp, hpolicy]

omit [DecidableEq α] in
/-- The others are answered; a service request here with a fault. -/
theorem opcuaAction_answers (h : 8 ≤ a.len) (ht : a.segment.take 3 ∈ opcuaAnswers)
    (hfault : opcuaTypeId a.byte a.data = 0) : ∃ server type payload,
      opcuaAction s a = .respond server type (some payload) ∧ payload.length ≤ opcuaRespSize := by
  simp only [opcuaAnswers, List.mem_cons, List.not_mem_nil, or_false] at ht
  rw [opcuaAction]
  rcases ht with hhel | hopn | hmsg
  · rw [opcuaDispatch_hel _ _ _ _ ((OpcuaArrival.holds_iff (by omega) rfl).2 hhel)]
    exact ⟨_, _, _, rfl, by decide⟩
  · rw [opcuaDispatch_opn _ _ _ _ ((OpcuaArrival.holds_iff (by omega) rfl).2 hopn)]
    refine ⟨_, _, _, rfl, ?_⟩
    rw [opcuaHandleOpenChannel_length]
    decide
  · rw [opcuaDispatch_msg _ _ _ _ ((OpcuaArrival.holds_iff (by omega) rfl).2 hmsg)]
    have hbody : (opcuaServiceAt a.env (s.arrived a).memory (.zbuf a.zb) s.server a.byte a.data).1.2 =
        some (opcuaResponseHeader 397 (a.env.ticks 0) opcuaStatusBad) := by
      rw [opcuaServiceAt, opcuaService, hfault]
      rfl
    dsimp only
    rw [hbody, Option.map_some]
    refine ⟨_, _, _, rfl, ?_⟩
    rw [List.length_append, opcuaServiceHead_length, opcuaResponseHeader_length]
    decide

/-- A short segment or a CLO ends the loop. -/
theorem opcuaReceive_close (h : a.len < 8 ∨ opcuaAction s a = .close) :
    ∃ s', opcuaReceive port s a = some ⟨s', none, false⟩ ∧ s'.server = s.server := by
  unfold opcuaReceive opcuaServe
  dsimp only
  split_ifs with hshort
  · exact ⟨_, rfl, rfl⟩
  · have hact : opcuaAction s a = .close := h.resolve_left hshort
    generalize hdispatch : Prod.fst (opcuaDispatch (β := β) _ _ _ _ _ _) = action
    cases (show opcuaAction s a = action from hdispatch).symm.trans hact
    exact ⟨_, rfl, rfl⟩

/-- A segment of an unknown type is skipped. -/
theorem opcuaReceive_ignore (h : 8 ≤ a.len) (hact : opcuaAction s a = .ignore) :
    ∃ s', opcuaReceive port s a = some ⟨s', none, true⟩ ∧ s'.server = s.server := by
  unfold opcuaReceive opcuaServe
  dsimp only
  split_ifs with hshort
  · exact absurd hshort (Nat.not_lt.2 h)
  · generalize hdispatch : Prod.fst (opcuaDispatch (β := β) _ _ _ _ _ _) = action
    cases (show opcuaAction s a = action from hdispatch).symm.trans hact
    exact ⟨_, rfl, rfl⟩

/-! ## Streams that are never answered -/

/-- **A stream that is not answerable** is not answered, however it is cut. -/
theorem opcuaPollLoop_silent {env : OpcuaEnv (OpcuaRegion α)} {l : List (BitVec 8)}
    {parts : List (List (BitVec 8))} {arrivals : List (OpcuaArrival α)} (h : ¬ OpcuaAnswerable l)
    (hcut : OpcuaCut l parts) (hdel : OpcuaDelivers env parts arrivals) (s : OpcuaState α β) :
    ∃ s', opcuaPollLoop port s arrivals = some (s', []) ∧ s'.server = s.server := by
  induction hdel generalizing l s with
  | nil => exact ⟨s, rfl, rfl⟩
  | @cons part a parts arrivals hcarry hdel ih =>
    have hflat : part ++ parts.flatten = l := hcut.flatten
    have hlen : part.length = a.len := by rw [← hcarry.segment]; exact bytesAt_length ..
    have hstop : (∃ s', opcuaReceive port s a = some ⟨s', none, false⟩ ∧ s'.server = s.server) →
        ∃ s', opcuaPollLoop port s (a :: arrivals) = some (s', []) ∧ s'.server = s.server := by
      rintro ⟨s', hserved, hserver⟩
      refine ⟨s', ?_, hserver⟩
      rw [opcuaPollLoop, hserved]
      rfl
    by_cases hshort : a.len < 8
    · exact hstop (opcuaReceive_close port (.inl hshort))
    have h8 : 8 ≤ a.len := Nat.le_of_not_lt hshort
    have htake : l.take 3 = a.segment.take 3 := by
      rw [← hflat, hcarry.segment, List.take_append_of_le_length (by omega)]
    by_cases hclo : a.segment.take 3 = opcuaMsgClo
    · exact hstop (opcuaReceive_close port (.inr (opcuaAction_close h8 hclo)))
    have hans : a.segment.take 3 ∉ opcuaAnswers := by
      rw [← htake]
      intro hmem
      refine h (.here ?_ hmem)
      rw [← hflat, List.length_append]
      omega
    -- the segment is skipped, and the rest is not answerable
    obtain ⟨s₁, hserved, hserver⟩ := opcuaReceive_ignore port (s := s) h8
      (opcuaAction_ignore h8 hans hclo)
    have hdrop : l.drop part.length = parts.flatten := by rw [← hflat, List.drop_left]
    have hrest : ¬ OpcuaAnswerable parts.flatten := by
      intro hrest
      have hmss := (hcut.size part (List.mem_cons_self ..)).2
      exact h (.skip (hlen ▸ h8) hmss (htake ▸ hans) (htake ▸ hclo) (hdrop ▸ hrest))
    obtain ⟨s', hloop, hserver'⟩ := ih hrest
      ⟨rfl, fun q hq => hcut.size q (List.mem_cons_of_mem _ hq)⟩ s₁
    refine ⟨s', ?_, hserver'.trans hserver⟩
    rw [opcuaPollLoop, hserved]
    simp only [Option.bind_eq_bind, Option.bind_some, if_true, hloop]
    rfl

end

/-! ## Streams that can be answered -/

theorem demoMessage_len {bytes : List (BitVec 8)} (h : bytes.length < 2 ^ 16) :
    (demoMessage bytes).len = bytes.length := by
  show (BitVec.ofNat 16 bytes.length).toNat = _
  rw [BitVec.toNat_ofNat, Nat.mod_eq_of_lt h]

/-- A message in its buffer is a segment. -/
theorem demoMessage_carries {bytes : List (BitVec 8)} (h : bytes.length < 2 ^ 16) :
    (demoMessage bytes).Carries demoEnv bytes := by
  refine ⟨?_, rfl, nofun, ?_⟩
  · rw [OpcuaArrival.segment, demoMessage_len h]
    exact ByteMem.read_putBytes ..
  · show some (1 : Fin 2) ≠ some 0
    decide

theorem demoMessage_delivers {stream : List (BitVec 8)} {parts : List (List (BitVec 8))}
    (h : OpcuaCut stream parts) : OpcuaDelivers demoEnv parts (parts.map demoMessage) := by
  refine List.forall₂_map_right_iff.2 (List.forall₂_same.2 fun part hpart => demoMessage_carries ?_)
  have hmss : part.length ≤ 1460 := (h.size part hpart).2
  omega

/-- Single bytes. -/
theorem opcuaCut_bytes (l : List (BitVec 8)) : OpcuaCut l (l.map fun b => [b]) := by
  constructor
  · exact List.flatMap_singleton' l
  · intro part hpart
    obtain ⟨b, -, rfl⟩ := List.mem_map.1 hpart
    exact ⟨nofun, (by decide : 1 ≤ configTcpMss)⟩

theorem OpcuaCut.cons {part l : List (BitVec 8)} {parts : List (List (BitVec 8))}
    (hne : part ≠ []) (hmss : part.length ≤ configTcpMss) (h : OpcuaCut l parts) :
    OpcuaCut (part ++ l) (part :: parts) := by
  constructor
  · rw [List.flatten_cons, h.flatten]
  · intro q hq
    rcases List.mem_cons.1 hq with rfl | hq
    · exact ⟨hne, hmss⟩
    · exact h.size q hq

/-- In single bytes, no stream is answered. -/
theorem opcuaPollLoop_bytes (port : Port) (s : OpcuaState (Fin 2) ℕ) (l : List (BitVec 8)) :
    ∃ s', opcuaPollLoop port s ((l.map fun b => [b]).map demoMessage) = some (s', []) := by
  cases l with
  | nil => exact ⟨s, rfl⟩
  | cons b l =>
    obtain ⟨s', hserved, -⟩ := opcuaReceive_close port (s := s) (a := demoMessage [b])
      (.inl (by rw [demoMessage_len (by decide +revert)]; decide +revert))
    refine ⟨s', ?_⟩
    rw [List.map_cons, List.map_cons, opcuaPollLoop, hserved]
    rfl

theorem OpcuaAnswerable.length {l : List (BitVec 8)} (h : OpcuaAnswerable l) : 8 ≤ l.length := by
  induction h with
  | here h8 _ => exact h8
  | skip _ _ _ _ _ ih =>
    rw [List.length_drop] at ih
    omega

/-- Eight bytes of a type that is answered. -/
theorem opcuaReceive_answers (port : Port) (s : OpcuaState (Fin 2) ℕ) {part : List (BitVec 8)}
    (hlen : part.length = 8) (ht : part.take 3 ∈ opcuaAnswers) : ∃ served reply,
      opcuaReceive port s (demoMessage part) = some served ∧ served.goOn = true ∧
        served.reply = some reply := by
  have hcarry : (demoMessage part).Carries demoEnv part := demoMessage_carries (by omega)
  have h8 : 8 ≤ (demoMessage part).len :=
    Nat.le_of_eq (by rw [demoMessage_len (by omega), hlen])
  have hzero : ∀ i, 8 ≤ i → (demoMessage part).byte i = 0 := by
    intro i hi
    exact ByteMem.putBytes_byte_of_le _ _ _ (by omega)
  have hfault : opcuaTypeId (demoMessage part).byte (demoMessage part).data = 0 := by
    have hdata : (demoMessage part).data = 0 := rfl
    rw [opcuaTypeId, hdata, u16At, uintAt]
    simp [Lib.bytesAt, hzero, ofLe, List.range_succ]
  obtain ⟨server, type, payload, hact, hfit⟩ :=
    opcuaAction_answers (s := s) h8 (hcarry.segment.symm ▸ ht) hfault
  obtain ⟨served, hserved, -, hgo, hreply⟩ := opcuaReceive_respond port h8 hact hfit
  exact ⟨served, _, hserved, hgo, hreply⟩

/-- **A stream that is answerable** is answered in some cutting. -/
theorem OpcuaAnswerable.answered (port : Port) {l : List (BitVec 8)} (h : OpcuaAnswerable l) :
    ∃ parts, OpcuaCut l parts ∧ ∀ s : OpcuaState (Fin 2) ℕ, ∃ s' reply replies,
      opcuaPollLoop port s (parts.map demoMessage) = some (s', reply :: replies) := by
  induction h with
  | @here l h8 ht =>
    have hlen : (l.take 8).length = 8 := by rw [List.length_take]; omega
    refine ⟨l.take 8 :: (l.drop 8).map fun b => [b], ?_, fun s => ?_⟩
    · have hne : l.take 8 ≠ [] := List.ne_nil_of_length_pos (by omega)
      have hmss : (l.take 8).length ≤ configTcpMss := by rw [hlen]; decide
      have hcut := (opcuaCut_bytes (l.drop 8)).cons hne hmss
      rwa [List.take_append_drop] at hcut
    · obtain ⟨served, reply, hserved, hgo, hreply⟩ := opcuaReceive_answers port s hlen
        (by rwa [List.take_take])
      obtain ⟨s', hrest⟩ := opcuaPollLoop_bytes port served.state (l.drop 8)
      refine ⟨s', reply, [], ?_⟩
      rw [List.map_cons, opcuaPollLoop, hserved]
      simp only [Option.bind_eq_bind, Option.bind_some, hgo, if_true, hrest, hreply]
      rfl
  | @skip l k h8 hmss hans hclo hrest ih =>
    obtain ⟨parts, hcut, hloop⟩ := ih
    have hdrop := hrest.length
    rw [List.length_drop] at hdrop
    have hlen : (l.take k).length = k := by rw [List.length_take]; omega
    refine ⟨l.take k :: parts, ?_, fun s => ?_⟩
    · have hne : l.take k ≠ [] := List.ne_nil_of_length_pos (by omega)
      have hcut := hcut.cons hne (by rw [hlen]; exact hmss)
      rwa [List.take_append_drop] at hcut
    · have hmss : k ≤ 1460 := hmss
      have hlt : (l.take k).length < 2 ^ 16 := by omega
      have htake : (demoMessage (l.take k)).segment.take 3 = l.take 3 := by
        rw [(demoMessage_carries hlt).segment, List.take_take, Nat.min_eq_left (by omega)]
      have h8' : 8 ≤ (demoMessage (l.take k)).len := by rw [demoMessage_len hlt, hlen]; exact h8
      obtain ⟨s₁, hserved, -⟩ := opcuaReceive_ignore port (s := s) h8'
        (opcuaAction_ignore h8' (htake.symm ▸ hans) (htake.symm ▸ hclo))
      obtain ⟨s', reply, replies, hrest⟩ := hloop s₁
      refine ⟨s', reply, replies, ?_⟩
      rw [List.map_cons, opcuaPollLoop, hserved]
      simp only [Option.bind_eq_bind, Option.bind_some, if_true, hrest]
      rfl

/-! ## The cutting -/

theorem OpcuaAnswerable.not_framed (port : Port) {stream : List (BitVec 8)}
    (h : OpcuaAnswerable stream) : ¬ OpcuaFramed port stream := by
  intro hframed
  obtain ⟨parts, hcut, hloop⟩ := h.answered port
  obtain ⟨s', reply, replies, hanswered⟩ := hloop demoOpcuaState
  obtain ⟨s'', hsilent⟩ := opcuaPollLoop_bytes port demoOpcuaState stream
  have hsame := hframed (Fin 2) ℕ demoOpcuaState demoEnv parts (stream.map fun b => [b]) _ _
    ⟨[], .start demoOpcuaState_fresh⟩ hcut (demoMessage_delivers hcut) (opcuaCut_bytes stream)
    (demoMessage_delivers (opcuaCut_bytes stream))
  have hpoll : ∀ arrivals, opcuaServerPoll port demoOpcuaState true arrivals =
      opcuaPollLoop port demoOpcuaState arrivals := fun _ => rfl
  rw [hpoll, hpoll, hanswered, hsilent] at hsame
  cases congrArg Prod.fst (Option.some.inj hsame)

/-- **The cutting of a stream into segments does not matter** iff no cutting makes the
    server answer: each buffer is taken for one message, and in single bytes nothing
    is answered. -/
theorem opcua_framed_iff (port : Port) (stream : List (BitVec 8)) :
    OpcuaFramed port stream ↔ ¬ OpcuaAnswerable stream := by
  constructor
  · exact fun h ha => ha.not_framed port h
  · intro h α β _ _ s env parts parts' arrivals arrivals' _ hcut hdel hcut' hdel'
    obtain ⟨s₁, hloop, hserver⟩ := opcuaPollLoop_silent port h hcut hdel s
    obtain ⟨s₂, hloop', hserver'⟩ := opcuaPollLoop_silent port h hcut' hdel' s
    unfold opcuaServerPoll
    split_ifs
    · rw [hloop, hloop', Option.map_some, Option.map_some, opcuaObserve, opcuaObserve, hserver,
        hserver']
    · rfl

/-- **A connection** that starts with a hello message. -/
theorem opcua_framed_hello : ¬ OpcuaFramed .arm64
    (opcuaMessage opcuaMsgHel (writeU32 0 ++ writeU32 65536 ++ writeU32 65536 ++ writeU32 0 ++
      writeU32 0 ++ opcuaWriteText "opc.tcp://localhost:4840" 24) ++
      opcuaMessage opcuaMsgClo (List.replicate 16 0)) :=
  OpcuaAnswerable.not_framed .arm64 ((opcuaAnswerable_message (by decide)).2 (by decide))

end Gracemont
