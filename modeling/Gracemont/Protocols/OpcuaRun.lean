/-
  Gracemont protocols — runs of the OPC UA server.

  Between two buffers, `sock_recv_zbuf` waits, and the rest of the system uses the
  pool; so each arrival comes with its pool.

  * `OpcuaServed.Outcome`: what handling one buffer leaves, without pointers;
  * `opcuaReceive_outcome`: each outcome is one of these;
  * `opcuaLts`: the buffers that a server handles, from its initialisation on.
-/
import Gracemont.Lib.Trace
import Gracemont.Protocols.OpcuaWriteFrame

namespace Gracemont

open Lib

variable {α β : Type} [DecidableEq α]

/-! ## Messages sent -/

/-- A message of a type with its header. -/
def opcuaMessage (type payload : List (BitVec 8)) : List (BitVec 8) :=
  type ++ [0x46] ++ writeU32 (BitVec.ofNat 32 (8 + payload.length)) ++ payload

theorem opcuaMessage_length {type payload : List (BitVec 8)} (h : type.length = 3) :
    (opcuaMessage type payload).length = 8 + payload.length := by
  simp [opcuaMessage, h]
  omega

/-- Without a free buffer nothing is built. -/
theorem opcuaBuildMessage_none {pool : ZbufPool α} (hb : pool.freeList = none)
    (type payload : List (BitVec 8)) :
    ∃ pool', opcuaBuildMessage pool type payload = some (pool', none) ∧
      ∀ x, (pool'.zb x).space = (pool.zb x).space := by
  obtain ⟨pool', ha⟩ := zbufAllocTx_none hb ((BitVec.ofNat 32 (8 + payload.length)).setWidth 16)
  refine ⟨pool', by simp only [opcuaBuildMessage, ha], fun x => ?_⟩
  rw [← zbufAllocTx_space pool ((BitVec.ofNat 32 (8 + payload.length)).setWidth 16), ha]

/-- **Building a message** in the first free buffer. -/
theorem opcuaBuildMessage_some {pool : ZbufPool α} {b : α} (hb : pool.freeList = some b)
    (type : List (BitVec 8)) {payload : List (BitVec 8)} (hp : payload.length ≤ opcuaRespSize) :
    ∃ pool', opcuaBuildMessage pool type payload = some (pool', some b) ∧
      (pool'.zb b).data = configZbufHeadroom ∧ (pool'.zb b).len.toNat = 8 + payload.length ∧
      (pool'.zb b).space =
        (pool.zb b).space.putBytes configZbufHeadroom (opcuaMessage type payload) ∧
      ∀ x, x ≠ b → (pool'.zb x).space = (pool.zb x).space := by
  have hp : payload.length ≤ 1024 := hp
  obtain ⟨size, hdef⟩ : ∃ size : BitVec 16,
      (BitVec.ofNat 32 (8 + payload.length)).setWidth 16 = size := ⟨_, rfl⟩
  have hsize : size.toNat = 8 + payload.length := by
    simp only [← hdef, BitVec.toNat_setWidth, BitVec.toNat_ofNat]
    omega
  have hs : size.toNat ≤ configZbufSize - configZbufHeadroom := by
    simp only [hsize, configZbufSize, configZbufHeadroom]
    omega
  obtain ⟨pool₁, ha, hdata, htail, hlen, hspace⟩ := zbufAllocTx_spec hb hs
  have hframe := zbufAllocTx_space pool size
  rw [ha] at hframe
  have hput : zbufPut (pool₁.zb b) size = some ({ pool₁.zb b with
      tail := configZbufHeadroom + size.toNat, len := size }, configZbufHeadroom) := by
    have hfit : ¬ zbufEnd < configZbufHeadroom + size.toNat := by
      simp only [zbufEnd, zbufHead, configZbufSize, configZbufHeadroom, hsize]
      omega
    have hlen' : (pool₁.zb b).len + size = size := by rw [hlen]; exact BitVec.zero_add size
    rw [zbufPut, htail, if_neg hfit, hlen']
  simp only [opcuaBuildMessage, hdef, ha, hput, Option.bind_eq_bind, Option.bind_some]
  refine ⟨_, rfl, ?_⟩
  simp only [Function.update_self]
  refine ⟨hdata, hsize, by rw [hspace]; rfl, fun x hx => ?_⟩
  rw [Function.update_of_ne hx]
  exact hframe x

/-! ## Handling a buffer -/

variable [DecidableEq β]

/-- The state in which an arrival is handled. -/
def OpcuaState.arrived (s : OpcuaState α β) (a : OpcuaArrival α) : OpcuaState α β :=
  { s with pool := a.pool }

/-- The bytes of the buffer that arrives, and where the message starts. -/
def OpcuaArrival.byte (a : OpcuaArrival α) : ℕ → BitVec 8 := (a.pool.zb a.zb).space.byte

def OpcuaArrival.data (a : OpcuaArrival α) : ℕ := (a.pool.zb a.zb).data

def OpcuaArrival.len (a : OpcuaArrival α) : ℕ := (a.pool.zb a.zb).len.toNat

/-- What the message that arrives makes the server do. -/
def opcuaAction (s : OpcuaState α β) (a : OpcuaArrival α) : OpcuaAction (OpcuaRegion α) β :=
  (opcuaDispatch a.env (s.arrived a).memory (.zbuf a.zb) s.server a.byte (Cursor.start a.data)).1

/-- Responses are messages of three types. -/
theorem opcuaDispatch_type {ρ : Type} {env : OpcuaEnv ρ} {mem : Regions ρ} {r : ρ}
    {s s' : OpcuaServer ρ β} {m : ℕ → BitVec 8} {p : ℕ} {type : List (BitVec 8)}
    {payload : Option (List (BitVec 8))}
    (h : (opcuaDispatch env mem r s m (Cursor.start p)).1 = .respond s' type payload) :
    type.length = 3 := by
  by_cases hhel : Holds m p opcuaMsgHel
  · rw [opcuaDispatch_hel env mem r s hhel] at h
    cases h
    rfl
  by_cases hopn : Holds m p opcuaMsgOpn
  · rw [opcuaDispatch_opn env mem r s hopn] at h
    cases h
    rfl
  by_cases hmsg : Holds m p opcuaMsgMsg
  · rw [opcuaDispatch_msg env mem r s hmsg] at h
    cases h
    rfl
  by_cases hclo : Holds m p opcuaMsgClo
  · rw [opcuaDispatch_clo env mem r s hclo] at h
    cases h
  · rw [opcuaDispatch_other env mem r s hhel hopn hmsg hclo] at h
    cases h

/-- What an arrival leaves: nothing happens, or a response is sent if there is a
    free buffer, which is then the only one that is written. -/
inductive OpcuaOutcome (s : OpcuaState α β) (a : OpcuaArrival α) (served : OpcuaServed α β) : Prop
  | silent : served.state.server = s.server → served.reply = none →
      (a.len < 8 ∨ opcuaAction s a = .close ∨ opcuaAction s a = .ignore) →
      (∀ x, (served.state.pool.zb x).space = (a.pool.zb x).space) → OpcuaOutcome s a served
  | respond {type payload : List (BitVec 8)} : 8 ≤ a.len →
      opcuaAction s a = .respond served.state.server type (some payload) →
      payload.length ≤ opcuaRespSize →
      served.reply = (a.pool.freeList.map fun _ => opcuaMessage type payload) →
      (∀ x, (served.state.pool.zb x).space = if a.pool.freeList = some x then
        (a.pool.zb x).space.putBytes configZbufHeadroom (opcuaMessage type payload)
        else (a.pool.zb x).space) → OpcuaOutcome s a served

/-- **Handling a buffer.** -/
theorem opcuaReceive_outcome {port : Port} {s : OpcuaState α β} {a : OpcuaArrival α}
    {served : OpcuaServed α β} (h : opcuaReceive port s a = some served) :
    OpcuaOutcome s a served ∧ served.state.app = s.app ∧ served.state.appSize = s.appSize := by
  have hfree : ∀ pool x, ((zbufFree port pool (some a.zb)).zb x).space = (pool.zb x).space :=
    fun pool x => zbufFree_field port pool _ Zbuf.space (fun _ _ => rfl) (fun _ _ => rfl)
      (fun _ _ => rfl) x
  unfold opcuaReceive opcuaServe at h
  dsimp only at h
  split_ifs at h with hlen
  · cases h
    exact ⟨.silent rfl rfl (.inl hlen) (hfree a.pool), rfl, rfl⟩
  · generalize hact : Prod.fst (opcuaDispatch (β := β) _ _ _ _ _ _) = action at h
    replace hact : opcuaAction s a = action := hact
    cases action with
    | close =>
      cases h
      exact ⟨.silent rfl rfl (.inr (.inl hact)) (hfree a.pool), rfl, rfl⟩
    | ignore =>
      cases h
      exact ⟨.silent rfl rfl (.inr (.inr hact)) (hfree a.pool), rfl, rfl⟩
    | respond server type payload =>
      have htype := opcuaDispatch_type hact
      cases payload with
      | none => cases h
      | some payload =>
        simp only [Option.bind_eq_bind, Option.bind_some] at h
        split_ifs at h with hlarge
        have hfit := Nat.le_of_not_lt hlarge
        cases hb : a.pool.freeList with
        | none =>
          obtain ⟨pool, hbuild, hspace⟩ := opcuaBuildMessage_none hb type payload
          rw [hbuild] at h
          cases h
          refine ⟨.respond (Nat.le_of_not_lt hlen) hact hfit ?_ fun x => ?_, rfl, rfl⟩
          · rw [hb]
            rfl
          · rw [hb, if_neg nofun]
            exact (hfree pool x).trans (hspace x)
        | some b =>
          obtain ⟨pool, hbuild, hdata, hl, hspace, hframe⟩ := opcuaBuildMessage_some hb type hfit
          rw [hbuild] at h
          cases h
          have hdata' := (zbufFree_field port pool (some a.zb) Zbuf.data (fun _ _ => rfl)
            (fun _ _ => rfl) (fun _ _ => rfl) b).trans hdata
          have hl' := (congrArg BitVec.toNat (zbufFree_field port pool (some a.zb) Zbuf.len
            (fun _ _ => rfl) (fun _ _ => rfl) (fun _ _ => rfl) b)).trans hl
          refine ⟨.respond (Nat.le_of_not_lt hlen) hact hfit ?_ fun x => ?_, rfl, rfl⟩
          · rw [hb]
            show some (((zbufFree port pool (some a.zb)).zb b).space.read _ _) = some _
            rw [hfree pool b, hdata', hl', hspace, ← opcuaMessage_length htype,
              ByteMem.read_putBytes]
          · rw [hb]
            refine (hfree pool x).trans ?_
            by_cases hx : x = b
            · subst hx
              rw [if_pos rfl, hspace]
            · rw [if_neg fun he => hx (Option.some.inj he).symm, hframe x hx]

/-- **A response that fits** is sent, if there is a free buffer. -/
theorem opcuaReceive_respond (port : Port) {s : OpcuaState α β} {a : OpcuaArrival α}
    {server : OpcuaServer (OpcuaRegion α) β} {type payload : List (BitVec 8)} (hlen : 8 ≤ a.len)
    (hact : opcuaAction s a = .respond server type (some payload))
    (hfit : payload.length ≤ opcuaRespSize) : ∃ served, opcuaReceive port s a = some served ∧
      served.state.server = server ∧ served.goOn = true ∧
      served.reply = a.pool.freeList.map fun _ => opcuaMessage type payload := by
  obtain ⟨⟨pool, resp⟩, hbuild⟩ : ∃ built, opcuaBuildMessage a.pool type payload = some built := by
    cases hb : a.pool.freeList with
    | none =>
      obtain ⟨pool, hbuild, -⟩ := opcuaBuildMessage_none hb type payload
      exact ⟨_, hbuild⟩
    | some b =>
      obtain ⟨pool, hbuild, -⟩ := opcuaBuildMessage_some hb type hfit
      exact ⟨_, hbuild⟩
  obtain ⟨served, hserved, hgo⟩ : ∃ served, opcuaReceive port s a = some served ∧
      served.goOn = true := by
    unfold opcuaReceive opcuaServe
    dsimp only
    split_ifs with hshort
    · exact absurd hshort (Nat.not_lt.2 hlen)
    generalize hdispatch : Prod.fst (opcuaDispatch (β := β) _ _ _ _ _ _) = action
    cases (show opcuaAction s a = action from hdispatch).symm.trans hact
    simp only [Option.bind_eq_bind, Option.bind_some, if_neg (Nat.not_lt.2 hfit), hbuild]
    exact ⟨_, rfl, rfl⟩
  refine ⟨served, hserved, ?_⟩
  obtain ⟨hout, -, -⟩ := opcuaReceive_outcome hserved
  cases hout with
  | silent hserver hnone hwhy hspace =>
    rw [hact] at hwhy
    rcases hwhy with hshort | hclose | hignore
    · exact absurd hshort (Nat.not_lt.2 hlen)
    · cases hclose
    · cases hignore
  | respond _ haction _ hreply _ =>
    obtain ⟨rfl, rfl, hpayload⟩ := OpcuaAction.respond.inj (hact.symm.trans haction)
    cases hpayload
    exact ⟨rfl, hgo, hreply⟩

/-! ## Runs -/

/-- A server after `opcua_server_init`, calls of `opcua_add_node`, assignments to
    values and to `on_read`, and `opcua_server_start`. -/
def OpcuaServer.Fresh {ρ : Type} (s : OpcuaServer ρ β) : Prop :=
  ∃ calls s₀, (opcuaAddLts ρ β).Run calls s₀ ∧
    OpcuaServer.Revalued { s₀ with running := true, onRead := s.onRead } s

/-- The state behind an arrival. -/
def opcuaStep (port : Port) (s : OpcuaState α β) (a : OpcuaArrival α) : Option (OpcuaState α β) :=
  (opcuaReceive port s a).map fun served => served.state

/-- The buffers that a server handles, one after the other; a connection that is
    closed is followed by the next one. -/
def opcuaLts (α β : Type) [DecidableEq α] [DecidableEq β] (port : Port) :
    Lts (OpcuaState α β) (OpcuaArrival α) :=
  Lts.ofFun (fun s => s.server.Fresh) (opcuaStep port)

/-- The message sent for an arrival. -/
def opcuaReply (port : Port) (s : OpcuaState α β) (a : OpcuaArrival α) :
    Option (List (BitVec 8)) := (opcuaReceive port s a).bind fun served => served.reply

theorem opcuaStep_served {port : Port} {s s' : OpcuaState α β} {a : OpcuaArrival α}
    (h : opcuaStep port s a = some s') :
    ∃ served, served.state = s' ∧ opcuaReply port s a = served.reply ∧ OpcuaOutcome s a served ∧
      s'.app = s.app ∧ s'.appSize = s.appSize := by
  obtain ⟨served, hserved, rfl⟩ := Option.map_eq_some_iff.1 h
  obtain ⟨hout, happ, hsize⟩ := opcuaReceive_outcome hserved
  exact ⟨served, rfl, by rw [opcuaReply, hserved]; rfl, hout, happ, hsize⟩

theorem OpcuaServer.Fresh.sessionCount {ρ : Type} {s : OpcuaServer ρ β} (h : s.Fresh) :
    s.sessionCount = 0 := by
  obtain ⟨calls, s₀, hrun, hrev⟩ := h
  have hzero : s₀.sessionCount = 0 := by
    refine hrun.rule (P := fun _ s => s.sessionCount = 0) ?_ ?_
    · rintro s ⟨nodes, sessions, rfl⟩
      rfl
    · rintro tr s e s' hs ⟨-, -, rfl⟩
      rw [opcuaAddNode_sessionCount]
      exact hs
  rw [hrev.server]
  exact hzero

end Gracemont
