/-
  Gracemont protocols — OPC UA sessions.

  A response to a request for a session carries the number of sessions plus one,
  and a record is stored while the table has room.

  * `opcuaSessionId`: the id in a successful response, read from its bytes;
  * `opcuaIssue`: the ids sent so far, as a ghost;
  * `opcua_sessions_unique`: while sessions are only requested from a table with
    room, the ids are distinct and each has its record.
-/
import Gracemont.Protocols.OpcuaResponse
import Gracemont.Protocols.OpcuaRun

namespace Gracemont

open Lib

variable {ρ α β : Type}

/-! ## Responses -/

/-- The session id of a `CreateSessionResponse` with status good. -/
def opcuaSessionId (reply : List (BitVec 8)) : Option (BitVec 32) :=
  let m i := reply.getD i 0
  if Holds m 0 opcuaMsgMsg ∧ u16At m 26 = 464 ∧ u32At m 40 = opcuaStatusGood then
    some (u32At m 56)
  else none

/-- Bytes in the middle of a list. -/
theorem holds_getD (pre l post : List (BitVec 8)) {p : ℕ} (hp : pre.length = p) :
    Holds (fun i => (pre ++ (l ++ post)).getD i 0) p l := by
  subst hp
  refine List.ext_getElem (by simp) fun i h1 h2 => ?_
  simp [Lib.bytesAt, List.getD_eq_getElem?_getD, List.getElem?_append_right, List.getElem?_append_left h2,
    List.getElem?_eq_getElem h2]

/-- The fields of a response of a service. -/
theorem opcuaMessage_fields {head : List (BitVec 8)} (hh : head.length = 16) (typeId : BitVec 16)
    (ticks status : BitVec 32) (rest : List (BitVec 8)) :
    let m i := (opcuaMessage opcuaMsgMsg
      (head ++ (opcuaResponseHeader typeId ticks status ++ rest))).getD i 0
    Holds m 0 opcuaMsgMsg ∧ u16At m 26 = typeId ∧ u32At m 40 = status := by
  simp only [opcuaMessage, opcuaResponseHeader, List.append_assoc]
  refine ⟨?_, ?_, ?_⟩
  · exact holds_getD [] opcuaMsgMsg _ rfl
  · refine u16At_of_holds ?_
    simp only [← List.append_assoc _ _ (writeU16 typeId ++ _)]
    exact holds_getD _ (writeU16 typeId) _ (by simp [opcuaMsgMsg, hh])
  · refine u32At_of_holds ?_
    simp only [← List.append_assoc _ _ (writeU32 status ++ _)]
    exact holds_getD _ (writeU32 status) _ (by simp [opcuaMsgMsg, opcuaTimestamp, hh])

theorem opcuaMessage_session {head : List (BitVec 8)} (hh : head.length = 16) (typeId : BitVec 16)
    (ticks status : BitVec 32) (pre : List (BitVec 8)) (hp : pre.length = 3) (id : BitVec 32)
    (post : List (BitVec 8)) :
    u32At (fun i => (opcuaMessage opcuaMsgMsg (head ++ (opcuaResponseHeader typeId ticks status ++
      (pre ++ (writeU32 id ++ post))))).getD i 0) 56 = id := by
  refine u32At_of_holds ?_
  simp only [opcuaMessage, ← List.append_assoc _ _ (writeU32 id ++ _)]
  exact holds_getD _ (writeU32 id) _ (by simp [opcuaMsgMsg, opcuaResponseHeader, opcuaTimestamp, hh, hp])

/-- Other responses carry no session id. -/
theorem opcuaSessionId_other {head : List (BitVec 8)} (hh : head.length = 16) {typeId : BitVec 16}
    (h : typeId ≠ 464) (ticks status : BitVec 32) (rest : List (BitVec 8)) :
    opcuaSessionId (opcuaMessage opcuaMsgMsg
      (head ++ (opcuaResponseHeader typeId ticks status ++ rest))) = none := by
  obtain ⟨-, htype, -⟩ := opcuaMessage_fields hh typeId ticks status rest
  exact if_neg fun hc => h (htype.symm.trans hc.2.1)

/-- Other messages do not, either. -/
theorem opcuaSessionId_type {type : List (BitVec 8)} (ht : type.length = 3) (h : type ≠ opcuaMsgMsg)
    (payload : List (BitVec 8)) : opcuaSessionId (opcuaMessage type payload) = none := by
  refine if_neg fun hc => h ?_
  have htype : Holds (fun i => (opcuaMessage type payload).getD i 0) 0 type := by
    simp only [opcuaMessage, List.append_assoc]
    exact holds_getD [] type _ rfl
  exact (htype.bytesAt_eq ht.symm).symm.trans hc.1

/-! ## What a message does to sessions -/

/-- The body of the answer does not depend on the room in the table. -/
theorem opcuaCreateSession_body (env : OpcuaEnv ρ) (channelId : BitVec 32) (s : OpcuaServer ρ β) :
    ∃ post, (opcuaCreateSession env channelId s).2 =
      opcuaResponseHeader 464 (env.ticks 0) opcuaStatusGood ++ ((writeU8 0x02 ++ writeU16 1) ++
        (writeU32 (s.sessionCount + 1) ++ post)) := by
  unfold opcuaCreateSession
  dsimp only
  split_ifs
  · simp only [List.append_assoc, List.append_cancel_left_eq, exists_eq']
  · simp only [List.append_assoc, List.append_cancel_left_eq, exists_eq']

theorem opcuaSessionId_create {head : List (BitVec 8)} (hh : head.length = 16) (env : OpcuaEnv ρ)
    (channelId : BitVec 32) (s : OpcuaServer ρ β) :
    opcuaSessionId (opcuaMessage opcuaMsgMsg (head ++ (opcuaCreateSession env channelId s).2)) =
      some (s.sessionCount + 1) := by
  obtain ⟨post, hbody⟩ := opcuaCreateSession_body env channelId s
  have hid := opcuaMessage_session hh 464 (env.ticks 0) opcuaStatusGood
    (writeU8 0x02 ++ writeU16 1) (by simp) (s.sessionCount + 1) post
  rw [hbody, opcuaSessionId, if_pos (opcuaMessage_fields hh 464 (env.ticks 0) opcuaStatusGood _),
    hid]

section
variable [DecidableEq β] {env : OpcuaEnv ρ} {mem : Regions ρ} {r : ρ} {s s' : OpcuaServer ρ β}
  {m : ℕ → BitVec 8} {p : ℕ} {type payload : List (BitVec 8)}

/-- The message at `p` is a `CreateSessionRequest`. -/
def OpcuaCreates (m : ℕ → BitVec 8) (p : ℕ) : Prop := Holds m p opcuaMsgMsg ∧ opcuaTypeId m p = 461

instance : Decidable (OpcuaCreates m p) := inferInstanceAs (Decidable (_ ∧ _))

/-- A request for a session is answered with the next id. -/
theorem opcuaDispatch_creates (hc : OpcuaCreates m p)
    (h : (opcuaDispatch env mem r s m (Cursor.start p)).1 = .respond s' type (some payload)) :
    s' = (opcuaCreateSession env (u32At m (p + 8))
        { s with sequenceNum := s.sequenceNum + 1 }).1 ∧
      opcuaSessionId (opcuaMessage type payload) = some (s.sessionCount + 1) := by
  have hid := opcuaSessionId_create (opcuaServiceHead_length s m p) env (u32At m (p + 8))
    { s with sequenceNum := s.sequenceNum + 1 }
  rw [opcuaDispatch_msg env mem r s hc.1, opcuaServiceAt_create env mem r s hc.2] at h
  dsimp only at h
  obtain ⟨hs, htype, hpayload⟩ := OpcuaAction.respond.inj h
  refine ⟨hs.symm, ?_⟩
  rw [Option.map_some, Option.some.injEq] at hpayload
  rw [← htype, ← hpayload]
  exact hid

/-- Other messages leave the sessions, and their answers carry no session id. -/
theorem opcuaDispatch_keeps (hc : ¬ OpcuaCreates m p)
    (h : (opcuaDispatch env mem r s m (Cursor.start p)).1 = .respond s' type (some payload)) :
    s'.sessions = s.sessions ∧ s'.sessionCount = s.sessionCount ∧
      opcuaSessionId (opcuaMessage type payload) = none := by
  by_cases hmsg : Holds m p opcuaMsgMsg
  · have hh := opcuaServiceHead_length s m p
    have hcreate : opcuaTypeId m p ≠ 461 := fun he => hc ⟨hmsg, he⟩
    rw [opcuaDispatch_msg env mem r s hmsg] at h
    dsimp only at h
    by_cases hread : opcuaTypeId m p = 631
    · have hrev := opcuaReadAll_revalued env mem r { s with sequenceNum := s.sequenceNum + 1 } m p
      rw [opcuaServiceAt_read_fst env mem r s hread] at h
      dsimp only at h
      obtain ⟨rfl, rfl, hpayload⟩ := OpcuaAction.respond.inj h
      obtain ⟨body, hbody, rfl⟩ := Option.map_eq_some_iff.1 hpayload
      obtain ⟨results, -, rfl⟩ := Option.map_eq_some_iff.1 hbody
      refine ⟨by rw [hrev.server], by rw [hrev.server], ?_⟩
      exact opcuaSessionId_other hh (by decide) _ _ _
    by_cases hwrite : opcuaTypeId m p = 673
    · have hrev := opcuaWriteAll_revalued env r { s with sequenceNum := s.sequenceNum + 1 } m p
      rw [opcuaServiceAt_write_fst env mem r s hwrite] at h
      dsimp only at h
      obtain ⟨rfl, rfl, hpayload⟩ := OpcuaAction.respond.inj h
      cases hpayload
      refine ⟨by rw [hrev.server], by rw [hrev.server], ?_⟩
      exact opcuaSessionId_other hh (by decide) _ _ _
    · obtain ⟨typeId, htypeId, status, rest, hout⟩ :=
        opcuaServiceAt_other env mem r s hcreate hread hwrite
      rw [hout] at h
      cases h
      refine ⟨rfl, rfl, opcuaSessionId_other hh ?_ _ _ _⟩
      rintro rfl
      exact absurd htypeId (by decide)
  by_cases hhel : Holds m p opcuaMsgHel
  · rw [opcuaDispatch_hel env mem r s hhel] at h
    cases h
    exact ⟨rfl, rfl, opcuaSessionId_type rfl (by decide) _⟩
  by_cases hopn : Holds m p opcuaMsgOpn
  · rw [opcuaDispatch_opn env mem r s hopn] at h
    cases h
    exact ⟨rfl, rfl, opcuaSessionId_type rfl (by decide) _⟩
  by_cases hclo : Holds m p opcuaMsgClo
  · rw [opcuaDispatch_clo env mem r s hclo] at h
    cases h
  · rw [opcuaDispatch_other env mem r s hhel hopn hmsg hclo] at h
    cases h

end

/-! ## Runs -/

/-- The table: the record `i` has the id `i + 1`, and the ids sent are among these. -/
structure OpcuaSessions (s : OpcuaServer ρ β) (issued : List (BitVec 32)) : Prop where
  room : s.sessionCount.toNat ≤ configOpcuaMaxSessions.toNat
  record : ∀ i < s.sessionCount.toNat, (s.sessions i).sessionId.toNat = i + 1
  nodup : issued.Nodup
  issued : ∀ id ∈ issued, 0 < id.toNat ∧ id.toNat ≤ s.sessionCount.toNat

/-- A step that leaves the sessions and sends no id. -/
theorem OpcuaSessions.keep {s s' : OpcuaServer ρ β} {issued : List (BitVec 32)}
    (h : OpcuaSessions s issued) (hs : s'.sessions = s.sessions)
    (hc : s'.sessionCount = s.sessionCount) : OpcuaSessions s' issued := by
  refine ⟨?_, ?_, h.nodup, ?_⟩
  · rw [hc]; exact h.room
  · rw [hc, hs]; exact h.record
  · rw [hc]; exact h.issued

/-- **A new session**, whose id is sent or not. -/
theorem OpcuaSessions.create {s : OpcuaServer ρ β} {issued : List (BitVec 32)}
    (h : OpcuaSessions s issued) (hfree : s.sessionCount < configOpcuaMaxSessions)
    (env : OpcuaEnv ρ) (channelId : BitVec 32) {sent : List (BitVec 32)}
    (hsent : sent = [] ∨ sent = [s.sessionCount + 1]) :
    OpcuaSessions (opcuaCreateSession env channelId s).1 (issued ++ sent) := by
  have hlt : s.sessionCount.toNat < 8 := hfree
  have hsucc : (s.sessionCount + 1).toNat = s.sessionCount.toNat + 1 := by
    rw [BitVec.toNat_add]
    exact Nat.mod_eq_of_lt (by simp; omega)
  rw [opcuaCreateSession, if_pos hfree]
  constructor
  · show (s.sessionCount + 1).toNat ≤ 8
    omega
  · intro i hi
    have hi : i < (s.sessionCount + 1).toNat := hi
    show (Function.update s.sessions s.sessionCount.toNat _ i).sessionId.toNat = i + 1
    by_cases he : i = s.sessionCount.toNat
    · rw [he, Function.update_self, hsucc]
    · rw [Function.update_of_ne he]
      exact h.record i (by omega)
  · rcases hsent with rfl | rfl
    · rw [List.append_nil]
      exact h.nodup
    · refine List.nodup_append.2 ⟨h.nodup, List.nodup_singleton _, ?_⟩
      rintro id hid _ hlast rfl
      have hle := (h.issued id hid).2
      rw [List.mem_singleton.1 hlast] at hle
      omega
  · intro id hid
    show 0 < id.toNat ∧ id.toNat ≤ (s.sessionCount + 1).toNat
    rcases List.mem_append.1 hid with hold | hnew
    · obtain ⟨hpos, hle⟩ := h.issued id hold
      omega
    · rcases hsent with rfl | rfl
      · cases hnew
      · rw [List.mem_singleton.1 hnew]
        omega

section
variable [DecidableEq α] [DecidableEq β]

/-- The session ids sent so far, the last one at the end. -/
def opcuaIssue (port : Port) (s : OpcuaState α β) (a : OpcuaArrival α) (_ : OpcuaState α β)
    (issued : List (BitVec 32)) : List (BitVec 32) :=
  issued ++ ((opcuaReply port s a).bind opcuaSessionId).toList

/-- A session is only requested while the table has room. -/
def OpcuaSessionFree (s : OpcuaState α β) (a : OpcuaArrival α) : Prop :=
  OpcuaCreates a.byte a.data → s.server.sessionCount < configOpcuaMaxSessions

/-- Runs with the ids sent. -/
def opcuaIssuing (α β : Type) [DecidableEq α] [DecidableEq β] (port : Port) :
    Lts (OpcuaState α β × List (BitVec 32)) (OpcuaArrival α) :=
  (opcuaLts α β port).track (fun _ => []) (opcuaIssue port)

/-- **Each step** keeps the table and the ids. -/
theorem OpcuaSessions.step {port : Port} {s s' : OpcuaState α β} {a : OpcuaArrival α}
    {issued : List (BitVec 32)} (h : OpcuaSessions s.server issued)
    (hstep : opcuaStep port s a = some s') (hfree : OpcuaSessionFree s a) :
    OpcuaSessions s'.server (opcuaIssue port s a s' issued) := by
  obtain ⟨served, rfl, hreply, hout, -, -⟩ := opcuaStep_served hstep
  rw [opcuaIssue, hreply]
  cases hout with
  | silent hserver hnone =>
    rw [hnone]
    refine (List.append_nil issued).symm ▸ h.keep ?_ ?_
    · rw [hserver]
    · rw [hserver]
  | @respond type payload hlen haction hfit hr hspace =>
    rw [hr]
    by_cases hc : OpcuaCreates a.byte a.data
    · obtain ⟨hserver, hid⟩ := opcuaDispatch_creates hc haction
      rw [hserver]
      have hnext : OpcuaSessions { s.server with sequenceNum := s.server.sequenceNum + 1 } issued :=
        h.keep rfl rfl
      refine hnext.create (hfree hc) a.env _ ?_
      cases a.pool.freeList with
      | none => exact .inl rfl
      | some b =>
        rw [Option.map_some, Option.bind_some, hid]
        exact .inr rfl
    · obtain ⟨hsessions, hcount, hid⟩ := opcuaDispatch_keeps hc haction
      have hsent : ((a.pool.freeList.map fun _ => opcuaMessage type payload).bind
          opcuaSessionId).toList = [] := by
        cases a.pool.freeList with
        | none => rfl
        | some b =>
          rw [Option.map_some, Option.bind_some, hid]
          rfl
      rw [hsent, List.append_nil]
      exact h.keep hsessions hcount

/-- **Sessions are distinct** in every run that requests sessions only while the
    table has room: no id is sent twice, and each id sent has its record. -/
theorem opcua_sessions_unique (port : Port) {arrivals : List (OpcuaArrival α)} {s : OpcuaState α β}
    {issued : List (BitVec 32)}
    (h : ((opcuaIssuing α β port).restrict fun p a => OpcuaSessionFree p.1 a).Run arrivals
      (s, issued)) :
    issued.Nodup ∧ ∀ id ∈ issued, ∃ i < s.server.sessionCount.toNat,
      (s.server.sessions i).sessionId = id := by
  have hinv : OpcuaSessions s.server issued := by
    refine h.rule (P := fun _ p => OpcuaSessions p.1.server p.2) ?_ ?_
    · rintro p ⟨hfresh, hissued⟩
      have hzero := hfresh.sessionCount
      rw [hissued]
      refine ⟨by rw [hzero]; decide, fun i hi => ?_, List.nodup_nil, fun id hid => by cases hid⟩
      rw [hzero] at hi
      cases hi
    · rintro tr p a p' hp ⟨hfree, hstep, hissued⟩
      rw [hissued]
      exact hp.step hstep hfree
  refine ⟨hinv.nodup, fun id hid => ?_⟩
  obtain ⟨hpos, hle⟩ := hinv.issued id hid
  refine ⟨id.toNat - 1, by omega, BitVec.eq_of_toNat_eq ?_⟩
  rw [hinv.record _ (by omega)]
  omega

end

/-! ## Examples -/

/-- A message that arrives in the first of two buffers, while the second is free. -/
def demoMessage (bytes : List (BitVec 8)) : OpcuaArrival (Fin 2) :=
  let pool := (zbufAllocRx (zbufPoolInit demoZbufsTurned fun _ => demoZbuf) 0).1
  { pool := { pool with
      zb := pool.zb.modify 0 fun z =>
        { z with
          tail := bytes.length, len := BitVec.ofNat 16 bytes.length,
          space := z.space.putBytes 0 bytes } }
    zb := 0
    env := demoEnv }

/-- A server without nodes. -/
def demoOpcuaState : OpcuaState (Fin 2) ℕ where
  server :=
    { opcuaServerInit (fun _ => ⟨⟨0, .numeric 0⟩, opcuaNull ⟨0, .numeric 0⟩, none, none, none⟩)
        (fun _ => ⟨0, 0, false, 0, 0⟩) with running := true }
  pool := zbufPoolInit demoZbufs fun _ => demoZbuf
  app := fun _ => 0
  appSize := 0

theorem demoOpcuaState_fresh : demoOpcuaState.server.Fresh :=
  ⟨[], _, .start ⟨_, _, rfl⟩, .refl _⟩

/-- A request for a session. -/
def demoCreate : OpcuaArrival (Fin 2) :=
  demoMessage (opcuaMsgMsg ++ [0x46] ++ writeU32 28 ++ List.replicate 16 0 ++ [1, 0] ++ writeU16 461)

/-- The state and the ids after `n` requests. -/
def demoSessions (n : ℕ) : Option (OpcuaState (Fin 2) ℕ × List (BitVec 32)) :=
  Lts.exec (Lts.trackFun (opcuaStep .arm64) (opcuaIssue .arm64)) (demoOpcuaState, [])
    (List.replicate n demoCreate)

theorem demoSessions_run (ok : OpcuaState (Fin 2) ℕ × List (BitVec 32) → OpcuaArrival (Fin 2) → Prop)
    {n : ℕ} {p : OpcuaState (Fin 2) ℕ × List (BitVec 32)} (h : demoSessions n = some p)
    (hok : ∀ i (hi : i < (List.replicate n demoCreate).length),
      ok ((Lts.exec (Lts.trackFun (opcuaStep .arm64) (opcuaIssue .arm64)) (demoOpcuaState, [])
        ((List.replicate n demoCreate).take i)).getD (demoOpcuaState, []))
        (List.replicate n demoCreate)[i]) :
    ((opcuaIssuing (Fin 2) ℕ .arm64).restrict ok).Run (List.replicate n demoCreate) p :=
  Lts.run_exec_track (fun _ _ _ h => h) demoOpcuaState_fresh h hok

theorem demoSessions_three : (demoSessions 3).isSome := by decide +kernel

/-- Three requests find room. -/
theorem opcua_sessions_unique_three :
    let p := (demoSessions 3).get demoSessions_three
    p.2 = [1, 2, 3] ∧ p.2.Nodup ∧ ∀ id ∈ p.2, ∃ i < p.1.server.sessionCount.toNat,
      (p.1.server.sessions i).sessionId = id := by
  refine ⟨by decide +kernel, opcua_sessions_unique .arm64
    (demoSessions_run _ (Option.some_get demoSessions_three).symm ?_)⟩
  have hroom : ∀ i < 3, ((Lts.exec (Lts.trackFun (opcuaStep .arm64) (opcuaIssue .arm64))
      (demoOpcuaState, []) ((List.replicate 3 demoCreate).take i)).getD
        (demoOpcuaState, [])).1.server.sessionCount < configOpcuaMaxSessions := by
    decide +kernel
  intro i hi _
  exact hroom i (by simpa using hi)

theorem demoSessions_ten : (demoSessions 10).map Prod.snd = some [1, 2, 3, 4, 5, 6, 7, 8, 9, 9] := by
  decide +kernel

/-- **A full table**: the tenth session has the id of the ninth. -/
theorem opcua_sessions_full : ∃ arrivals s issued,
    (opcuaIssuing (Fin 2) ℕ .arm64).Run arrivals (s, issued) ∧
      ¬ (issued.Nodup ∧ ∀ id ∈ issued, ∃ i < s.server.sessionCount.toNat,
        (s.server.sessions i).sessionId = id) := by
  obtain ⟨⟨s, issued⟩, hp, rfl⟩ := Option.map_eq_some_iff.1 demoSessions_ten
  have hrun := demoSessions_run (fun _ _ => True) hp fun _ _ => trivial
  refine ⟨_, s, _, hrun.of_restrict, fun h => ?_⟩
  exact absurd h.1 (by decide)

end Gracemont
