/-
  Gracemont protocols — the Modbus server on its socket (`modbus.c`).

  `modbus_server_poll` is cut at its two waits.  The descriptor that it accepts
  is that of the listening socket itself, which it closes when the request is
  handled; segments of any clients come between the parts of the poll.

  * `modbusTcpServerStart`, `modbusPoll`: the server and its sockets, where a
    request is handled as `modbusServerPoll` says (`modbusPollAnswer_server`);
  * `modbusTcpLts`: polls and segments in any order;
  * `Available`: `server->tcp_socket` is an allocated socket that listens;
  * `modbus_available_iff`: exactly as long as no client has connected;
  * `modbus_first_client`: a poll that waits accepts the first client, and answers
    its request.
-/
import Gracemont.Net.SocketRun
import Gracemont.Net.SocketStream
import Gracemont.Protocols.Modbus

namespace Gracemont

variable {α σ : Type}

/-! ## The server -/

/-- Where the task that polls is: in no call, or in a wait on a socket. -/
inductive PollPhase (σ : Type) where
  | idle
  | accepting (sock : σ)
  | receiving (sock : σ)
  deriving DecidableEq

/-- The network and the server, whose `tcp_socket` is `tcpSocket`. -/
structure ModbusTcp (α σ : Type) where
  net : NetStack α σ
  server : ModbusServer
  tcpSocket : ℤ
  poll : PollPhase σ

/-- `IP4_ADDR_ANY` -/
def ip4AddrAny : BitVec 32 := 0

section
variable [DecidableEq α] [DecidableEq σ] (cfg : NetConfig α)

/-- `modbus_tcp_server_start`, where `heap_alloc` returns `mem`. -/
def modbusTcpServerStart (fuel : ℕ) (s : ModbusTcp α σ) (port : BitVec 16) (mem : Option σ) :
    Option (ModbusTcp α σ × Status) :=
  let (net, fd) := sockSocket s.net sockStream mem
  let s := { s with net := net, tcpSocket := fd }
  if s.tcpSocket < 0 then some (s, .error)
  else
    let (net, ret) := sockBind s.net s.tcpSocket ⟨ip4AddrAny, port⟩
    if ret < 0 then do
      let (net, _) ← sockClose cfg fuel net s.tcpSocket
      some ({ s with net := net }, .error)
    else
      let (net, ret) := sockListen net s.tcpSocket
      if ret < 0 then do
        let (net, _) ← sockClose cfg fuel net s.tcpSocket
        some ({ s with net := net }, .error)
      else some ({ s with net := net, server := { s.server with tcpRunning := true } }, .ok)

/-- `modbus_server_poll`, up to the wait of `sock_accept`. -/
def modbusPollAccept (s : ModbusTcp α σ) : ModbusTcp α σ :=
  if ¬ s.server.tcpRunning then s
  else match sockAccept s.net s.tcpSocket with
    | none => s
    | some sock => { s with poll := .accepting sock }

/-- `sock_close(client_fd)` and the end of the poll.  The descriptor is the one
    that `sock_accept` was called with. -/
def modbusPollClose (fuel : ℕ) (s : ModbusTcp α σ) : Option (ModbusTcp α σ) := do
  let (net, _) ← sockClose cfg fuel s.net s.tcpSocket
  some { s with net := net, poll := .idle }

/-- The next part, up to the wait of `sock_recv_zbuf`. -/
def modbusPollReceive (fuel : ℕ) (s : ModbusTcp α σ) (sock : σ) : Option (ModbusTcp α σ) := do
  let (net, _) ← sockAcceptResume s.net sock
  let s := { s with net := net }
  if s.tcpSocket < 0 then some { s with poll := .idle }
  else match sockRecv s.net s.tcpSocket with
    | none => modbusPollClose cfg fuel s
    | some sock => some { s with poll := .receiving sock }

/-- The MBAP header at `mbap`. -/
def putMbap (m : Lib.ByteMem) (mbap : ℕ) (transId len : BitVec 16) (unitId : BitVec 8) :
    Lib.ByteMem :=
  (putBe16 (putBe16 (putBe16 m mbap transId) (mbap + 2) 0) (mbap + 4) len).set (mbap + 6) unitId

/-- What the poll does with the received buffer before it closes. -/
def modbusPollAnswer (s : ModbusTcp α σ) (zb : α) : Option (ModbusTcp α σ) :=
  let z := s.net.pool.zb zb
  let frame := fun i => z.space.byte (z.data + i)
  if z.len.toNat < modbusTcpHdrLen + 1 then some { s with net := s.net.free cfg zb }
  else
    let transId := be16 frame 0
    let unitId := frame 6
    if unitId ≠ s.server.slaveAddr ∧ unitId ≠ 0 then some { s with net := s.net.free cfg zb }
    else do
      let net := s.net.pull zb modbusTcpHdrLen
      let (m, resp) ← modbusProcessRequest ⟨s.server, net.pool⟩ fun i => frame (modbusTcpHdrLen + i)
      let net := ({ net with pool := m.pool }).free cfg zb
      let s := { s with net := net, server := m.server }
      match resp with
      | none => some s
      | some resp => do
        let (z, mbap) ← zbufPush (s.net.pool.zb resp) modbusTcpHdrLen
        let len := z.len - modbusTcpHdrLen + 1
        let z := { z with space := putMbap z.space mbap transId len s.server.slaveAddr }
        some { s with net := (sockSendZbuf cfg (s.net.setBuf resp z) s.tcpSocket resp).1 }

/-- The rest of the poll. -/
def modbusPollRequest (fuel : ℕ) (s : ModbusTcp α σ) (sock : σ) : Option (ModbusTcp α σ) := do
  let (net, zb) ← sockRecvZbufResume s.net sock
  let s := { s with net := net }
  match zb with
  | none => modbusPollClose cfg fuel s
  | some zb => do
    let s ← modbusPollAnswer cfg s zb
    modbusPollClose cfg fuel s

/-- `modbus_server_poll` is called, or goes on behind its wait. -/
def modbusPoll (fuel : ℕ) (s : ModbusTcp α σ) : Option (ModbusTcp α σ) :=
  match s.poll with
  | .idle => some (modbusPollAccept s)
  | .accepting sock => modbusPollReceive cfg fuel s sock
  | .receiving sock => modbusPollRequest cfg fuel s sock

/-! ## Runs -/

/-- A part of a poll, or a segment that arrives. -/
inductive ModbusTcpEvent (α : Type) where
  | poll (env : TcpEnv α)
  | arrive (env : TcpEnv α) (zb : α)

/-- The runs of a server from its start on, which `heap_alloc` gave new memory. -/
def modbusTcpLts (port : BitVec 16) : Lib.Lts (ModbusTcp α σ) (ModbusTcpEvent α) where
  init s := ∃ s₀ x fuel, s₀.net.live x = false ∧ s₀.poll = .idle ∧
    modbusTcpServerStart cfg fuel s₀ port (some x) = some (s, .ok)
  step s e s' := match e with
    | .poll env => ∃ fuel, modbusPoll cfg fuel { s with net := s.net.meets env } = some s'
    | .arrive env zb => ∃ net fuel, tcpInput cfg fuel (s.net.meets env) zb = some net ∧
        s' = { s with net := net }

omit [DecidableEq α] [DecidableEq σ] in
/-- `server->tcp_socket` denotes an allocated socket in the state LISTEN. -/
def Available (s : ModbusTcp α σ) : Prop :=
  ∃ x, s.net.lookup s.tcpSocket = some x ∧ s.net.live x = true ∧ (s.net.sock x).state = .listen

omit [DecidableEq σ] in
/-- A client sends a SYN to the socket of the server. -/
def Connects (s : ModbusTcp α σ) : ModbusTcpEvent α → Prop
  | .poll _ => False
  | .arrive env zb => hasFlag (env.buf zb).segment.flags tcpFlagSyn = true ∧
      ∃ x, s.net.lookup s.tcpSocket = some x ∧ Reaches x s.net env zb

omit [DecidableEq α] [DecidableEq σ] in
/-- The server's socket `x` listens, and no client has sent anything to it. -/
structure Listens (x : σ) (s : ModbusTcp α σ) : Prop where
  lookup : s.net.lookup s.tcpSocket = some x
  live : s.net.live x = true
  state : (s.net.sock x).state = .listen
  posts : (s.net.sock x).rxSem = 0
  queue : (s.net.sock x).rxQueue = zbufQueueInit
  socket : 0 ≤ s.tcpSocket
  running : s.server.tcpRunning = true
  poll : s.poll = .idle ∨ s.poll = .accepting x

omit [DecidableEq α] [DecidableEq σ] in
/-- How far the server's socket `x` is. -/
inductive ServerPhase (x : σ) (s : ModbusTcp α σ) : Prop
  | listening (listens : Listens x s)
  | connected (lookup : s.net.lookup s.tcpSocket = some x) (state : (s.net.sock x).state ≠ .listen)
      (poll : s.poll = .idle ∨ s.poll = .accepting x ∨ s.poll = .receiving x)
  | closed (lookup : s.net.lookup s.tcpSocket = none) (poll : s.poll = .idle)

end

/-! ## Sockets -/

section
variable [DecidableEq α] [DecidableEq σ] {cfg : NetConfig α} {x : σ} {s s' : ModbusTcp α σ}

omit [DecidableEq α] [DecidableEq σ] in
/-- The socket listens exactly in the first phase. -/
theorem ServerPhase.available_iff (h : ServerPhase x s) :
    Available s ↔ s.net.lookup s.tcpSocket = some x ∧ (s.net.sock x).state = .listen := by
  constructor
  · rintro ⟨y, hy, -, hst⟩
    cases h with
    | listening listens => exact ⟨listens.lookup, listens.state⟩
    | connected lookup state poll =>
      rw [lookup] at hy
      cases hy
      exact absurd hst state
    | closed lookup poll =>
      rw [lookup] at hy
      cases hy
  · rintro ⟨hx, hst⟩
    cases h with
    | listening listens => exact ⟨x, listens.lookup, listens.live, listens.state⟩
    | connected lookup state poll => exact absurd hst state
    | closed lookup poll =>
      rw [lookup] at hx
      cases hx

omit [DecidableEq α] [DecidableEq σ] in
theorem ServerPhase.listens (h : ServerPhase x s) (ha : Available s) : Listens x s := by
  obtain ⟨hx, hst⟩ := h.available_iff.1 ha
  cases h with
  | listening listens => exact listens
  | connected lookup state poll => exact absurd hst state
  | closed lookup poll =>
    rw [lookup] at hx
    cases hx

omit [DecidableEq α] [DecidableEq σ] in
/-- No segment makes a connection listen again. -/
theorem Conn.receive_not_listen {c : Conn} (hst : c.state ≠ .listen) (seg : TcpSegment)
    (len : BitVec 16) (ticks n : BitVec 32) : (c.receive seg len ticks n).state ≠ .listen := by
  unfold receive
  cases hc : c.state with
  | listen => exact absurd hc hst
  | closeWait | timeWait | closed | closing => exact hst
  | synSent | synReceived | finWait1 | finWait2 | lastAck =>
    simp only
    split_ifs <;> simp [gotFin, hc]
  | established =>
    simp only
    split_ifs <;> simp [gotFin, gotData, acked, hc]

/-- The socket is closed and leaves the table. -/
theorem modbusPollClose_lookup {fuel : ℕ} (hx : s.net.lookup s.tcpSocket = some x)
    (h : modbusPollClose cfg fuel s = some s') :
    s'.net.lookup s'.tcpSocket = none ∧ s'.poll = .idle := by
  obtain ⟨⟨net, ret⟩, hclose, h⟩ := Option.bind_eq_some_iff.1 h
  cases h
  refine ⟨?_, rfl⟩
  unfold sockClose at hclose
  rw [hx] at hclose
  simp only at hclose
  obtain ⟨⟨s₂, q₂⟩, -, hclose⟩ := Option.bind_eq_some_iff.1 hclose
  obtain ⟨⟨s₃, q₃⟩, -, hclose⟩ := Option.bind_eq_some_iff.1 hclose
  cases hclose
  exact Function.update_self ..

/-- Handling a request leaves the table alone. -/
theorem modbusPollAnswer_lookup {zb : α} (h : modbusPollAnswer cfg s zb = some s') :
    s'.net.lookup s'.tcpSocket = s.net.lookup s.tcpSocket := by
  have hfree : (s.net.free cfg zb).lookup s.tcpSocket = s.net.lookup s.tcpSocket := rfl
  unfold modbusPollAnswer at h
  simp only at h
  split_ifs at h with hlen hunit
  · cases h
    exact hfree
  · cases h
    exact hfree
  obtain ⟨⟨m, resp⟩, -, h⟩ := Option.bind_eq_some_iff.1 h
  have hpull : (s.net.pull zb modbusTcpHdrLen).socketTable = s.net.socketTable :=
    (Transmitted.pull s.net zb modbusTcpHdrLen).socketTable
  rcases resp with _ | resp
  · cases h
    exact congrFun hpull _
  · obtain ⟨⟨z, mbap⟩, -, h⟩ := Option.bind_eq_some_iff.1 h
    cases h
    refine Eq.trans ?_ (congrFun hpull _)
    exact congrFun (SameLinks.sockSendZbuf cfg s.tcpSocket resp).socketTable _

omit [DecidableEq σ] in
theorem pull_mbap {net : NetStack α σ} {zb : α}
    (hlen : ¬ (net.pool.zb zb).len.toNat < modbusTcpHdrLen + 1) :
    ∃ z p, zbufPull (net.pool.zb zb) modbusTcpHdrLen = some (z, p) ∧
      net.pull zb modbusTcpHdrLen = net.setBuf zb z := by
  have h7 : ((modbusTcpHdrLen : ℕ) : BitVec 16).toNat = modbusTcpHdrLen := rfl
  obtain ⟨r, hpull⟩ : ∃ r, zbufPull (net.pool.zb zb) modbusTcpHdrLen = some r := by
    unfold zbufPull
    rw [if_neg]
    · exact ⟨_, rfl⟩
    · rw [BitVec.lt_def, h7]
      omega
  refine ⟨r.1, r.2, hpull, ?_⟩
  rw [NetStack.pull, hpull]

/-- The request is handled as `modbusServerPoll` says, and its response is given to
    `sock_send_zbuf`. -/
theorem modbusPollAnswer_server {zb : α} (hrun : s.server.tcpRunning = true)
    (h : modbusPollAnswer cfg s zb = some s') :
    ∃ m sent, modbusServerPoll cfg.port ⟨s.server, s.net.pool⟩ zb
        (fun i => (s.net.pool.zb zb).space.byte ((s.net.pool.zb zb).data + i)) = some (m, sent) ∧
      s'.server = m.server ∧ s'.tcpSocket = s.tcpSocket ∧ ∀ l, sent = some l → ∃ net resp,
        s'.net = (sockSendZbuf cfg net s.tcpSocket resp).1 ∧ net.sock = s.net.sock ∧
          payloadOf (net.pool.zb resp) = l := by
  unfold modbusPollAnswer at h
  unfold modbusServerPoll
  simp only at h ⊢
  rw [if_neg (not_not.2 hrun)]
  split_ifs at h with hlen hunit
  · rw [if_pos hlen]
    cases h
    exact ⟨_, _, rfl, rfl, rfl, fun l hl => by cases hl⟩
  · rw [if_neg hlen, if_pos hunit]
    cases h
    exact ⟨_, _, rfl, rfl, rfl, fun l hl => by cases hl⟩
  rw [if_neg hlen, if_neg hunit]
  obtain ⟨z, p, hpull, hset⟩ := pull_mbap hlen
  rw [hset] at h
  obtain ⟨⟨m, resp⟩, hreq, h⟩ := Option.bind_eq_some_iff.1 h
  rw [hpull]
  have hreq' : modbusProcessRequest ⟨s.server,
      { s.net.pool with zb := Function.update s.net.pool.zb zb z }⟩ _ = some (m, resp) := hreq
  simp only [Option.bind_eq_bind, Option.bind_some, hreq']
  rcases resp with _ | resp
  · cases h
    exact ⟨_, _, rfl, rfl, rfl, fun l hl => by cases hl⟩
  · obtain ⟨⟨z', mbap⟩, hpush, h⟩ := Option.bind_eq_some_iff.1 h
    cases h
    have hpush' : zbufPush ((zbufFree cfg.port m.pool (some zb)).zb resp) modbusTcpHdrLen =
        some (z', mbap) := hpush
    simp only [hpush', Option.bind_some]
    refine ⟨_, _, rfl, rfl, trivial, fun l hl => ⟨_, resp, rfl, rfl, ?_⟩⟩
    cases hl
    rw [NetStack.setBuf_zb_self]
    rfl

omit [DecidableEq α] in
/-- A wait on `rx_sem` only takes a post. -/
theorem waitRx_spec {net net' : NetStack α σ} {y : σ} (h : net.waitRx y = some net') :
    (net.sock y).rxSem ≠ 0 ∧ net'.socketTable = net.socketTable ∧
      ∀ z, (net'.sock z).state = (net.sock z).state := by
  unfold NetStack.waitRx at h
  split_ifs at h with hzero
  cases h
  refine ⟨hzero, rfl, fun z => ?_⟩
  exact Lib.Store.modify_field Socket.state net.sock y (f := fun k => { k with rxSem := k.rxSem - 1 })
    rfl z

/-! ## Steps -/

omit [DecidableEq α] [DecidableEq σ] in
/-- A poll whose `sock_accept` fails is over. -/
theorem modbusPollAccept_refused (h : sockAccept s.net s.tcpSocket = none) :
    modbusPollAccept s = s := by
  unfold modbusPollAccept
  rw [h]
  exact ite_self _

/-- The wait for a client ends the poll, or goes on to the wait for a request. -/
theorem modbusPollReceive_connected {fuel : ℕ} (hx : s.net.lookup s.tcpSocket = some x)
    (hst : (s.net.sock x).state ≠ .listen) (h : modbusPollReceive cfg fuel s x = some s') :
    s'.net.lookup s'.tcpSocket = some x ∧ (s'.net.sock x).state ≠ .listen ∧
      (s'.poll = .idle ∨ s'.poll = .receiving x) := by
  obtain ⟨⟨net, addr⟩, hresume, h⟩ := Option.bind_eq_some_iff.1 h
  obtain ⟨net', hwait, hresume⟩ := Option.bind_eq_some_iff.1 hresume
  cases hresume
  obtain ⟨-, htable, hstate⟩ := waitRx_spec hwait
  have hlookup : net.lookup s.tcpSocket = some x := by
    rw [NetStack.lookup, htable]
    exact hx
  have hlisten : (net.sock x).state ≠ .listen := by
    rw [hstate]
    exact hst
  simp only [sockRecv, hlookup] at h
  split_ifs at h with hneg
  · cases h
    exact ⟨hlookup, hlisten, .inl rfl⟩
  · cases h
    exact ⟨hlookup, hlisten, .inr rfl⟩

/-- A poll that got its request closes the socket. -/
theorem modbusPollRequest_closed {fuel : ℕ} (hx : s.net.lookup s.tcpSocket = some x)
    (h : modbusPollRequest cfg fuel s x = some s') :
    s'.net.lookup s'.tcpSocket = none ∧ s'.poll = .idle := by
  obtain ⟨⟨net, zb⟩, hresume, h⟩ := Option.bind_eq_some_iff.1 h
  have hlookup : net.lookup s.tcpSocket = some x := by
    rw [NetStack.lookup, (SameLinks.sockRecvZbufResume hresume).socketTable]
    exact hx
  rcases zb with _ | zb
  · exact modbusPollClose_lookup hlookup h
  · obtain ⟨s₁, hanswer, h⟩ := Option.bind_eq_some_iff.1 h
    exact modbusPollClose_lookup ((modbusPollAnswer_lookup hanswer).trans hlookup) h

/-- A poll on a socket that listens waits for a client. -/
theorem Listens.poll_step (h : Listens x s) {fuel : ℕ} (hs : modbusPoll cfg fuel s = some s') :
    Listens x s' := by
  unfold modbusPoll at hs
  rcases h.poll with hpoll | hpoll
  · rw [hpoll] at hs
    obtain rfl := Option.some.inj hs
    have hcall : sockAccept s.net s.tcpSocket = some x := by
      unfold sockAccept
      rw [h.lookup]
      exact if_neg (not_not.2 h.state)
    unfold modbusPollAccept
    rw [hcall, if_neg (not_not.2 h.running)]
    exact { h with poll := .inr rfl }
  · -- there is no post to take
    rw [hpoll] at hs
    obtain ⟨⟨net, addr⟩, hresume, -⟩ := Option.bind_eq_some_iff.1 hs
    obtain ⟨net', hwait, -⟩ := Option.bind_eq_some_iff.1 hresume
    exact absurd h.posts (waitRx_spec hwait).1

/-- **A part of a poll** leaves a socket that listens, and closes one that is
    connected at the end. -/
theorem ServerPhase.poll (h : ServerPhase x s) {fuel : ℕ} (hs : modbusPoll cfg fuel s = some s') :
    ServerPhase x s' ∧ (Available s' ↔ Available s) := by
  have hiff : ∀ {s' : ModbusTcp α σ}, ServerPhase x s' →
      (s'.net.lookup s'.tcpSocket = some x ∧ (s'.net.sock x).state = .listen ↔
        s.net.lookup s.tcpSocket = some x ∧ (s.net.sock x).state = .listen) →
      ServerPhase x s' ∧ (Available s' ↔ Available s) := by
    intro s' h' he
    exact ⟨h', by rw [h'.available_iff, h.available_iff, he]⟩
  cases h with
  | listening listens =>
    have h' := listens.poll_step hs
    exact hiff (.listening h')
      ⟨fun _ => ⟨listens.lookup, listens.state⟩, fun _ => ⟨h'.lookup, h'.state⟩⟩
  | connected lookup state poll =>
    unfold modbusPoll at hs
    rcases poll with hpoll | hpoll | hpoll
    · rw [hpoll] at hs
      obtain rfl := Option.some.inj hs
      have hcall : sockAccept s.net s.tcpSocket = none := by
        unfold sockAccept
        rw [lookup]
        exact if_pos state
      rw [modbusPollAccept_refused hcall]
      exact hiff (.connected lookup state (.inl hpoll)) Iff.rfl
    · rw [hpoll] at hs
      obtain ⟨hlookup, hlisten, hpoll'⟩ := modbusPollReceive_connected lookup state hs
      refine hiff (.connected hlookup hlisten ?_)
        ⟨fun he => absurd he.2 hlisten, fun he => absurd he.2 state⟩
      rcases hpoll' with hidle | hreceiving
      · exact .inl hidle
      · exact .inr (.inr hreceiving)
    · rw [hpoll] at hs
      obtain ⟨hclosed, hidle⟩ := modbusPollRequest_closed lookup hs
      refine hiff (.closed hclosed hidle) ⟨fun he => ?_, fun he => absurd he.2 state⟩
      rw [hclosed] at he
      cases he.1
  | closed lookup poll =>
    unfold modbusPoll at hs
    rw [poll] at hs
    obtain rfl := Option.some.inj hs
    have hcall : sockAccept s.net s.tcpSocket = none := by
      unfold sockAccept
      rw [lookup]
    rw [modbusPollAccept_refused hcall]
    exact hiff (.closed lookup poll) Iff.rfl

/-- A segment that arrives leaves the descriptors alone. -/
theorem modbusTcpLts_arrive_links {port : BitVec 16} {env : TcpEnv α} {zb : α}
    (hs : (modbusTcpLts cfg port).step s (.arrive env zb) s') : SameLinks s.net s'.net := by
  obtain ⟨net, fuel, hinput, rfl⟩ := hs
  exact (SameLinks.meets s.net env).trans (.tcpInput cfg hinput)

/-- **A segment at a socket that listens**: a SYN to it connects it. -/
theorem Listens.arrive (h : Listens x s) {port : BitVec 16} {env : TcpEnv α} {zb : α}
    (hs : (modbusTcpLts cfg port).step s (.arrive env zb) s') :
    (s'.net.sock x).state ≠ .listen ∧ Connects s (.arrive env zb) ∨
      Listens x s' ∧ ¬ Connects s (.arrive env zb) := by
  have hlinks := modbusTcpLts_arrive_links hs
  obtain ⟨net, fuel, hinput, rfl⟩ := hs
  have harrive : (tcpLts cfg fun _ => True).step s.net (.arrive env zb) net := ⟨fuel, hinput⟩
  have hst : (s.net.sock x).conn.state = .listen := h.state
  have hqueue : (net.sock x).rxQueue = zbufQueueInit :=
    (tcpLts_arrive_rxQueue harrive (Conn.not_takes (by rw [hst]; simp))).trans h.queue
  have hconnects : Connects s (.arrive env zb) ↔
      hasFlag (env.buf zb).segment.flags tcpFlagSyn = true ∧ Reaches x s.net env zb := by
    refine and_congr_right fun _ => ⟨?_, fun hr => ⟨x, h.lookup, hr⟩⟩
    rintro ⟨y, hy, hr⟩
    rw [h.lookup] at hy
    cases hy
    exact hr
  have hkeep : (net.sock x).state = .listen → (net.sock x).rxSem = 0 →
      Listens x { s with net := net } := fun hst' hrx =>
    { h with
      lookup := by
        rw [NetStack.lookup, hlinks.socketTable]
        exact h.lookup
      live := by
        rw [hlinks.live]
        exact h.live
      state := hst'
      posts := hrx
      queue := hqueue }
  rcases tcpLts_arrive_sock harrive x with ⟨hreach, ⟨n, hconn⟩, hsems⟩ | ⟨hnot, hsame⟩
  · have hstate' : (net.sock x).state = _ := congrArg Conn.state hconn
    have hrx' : (net.sock x).rxSem = _ := congrArg Prod.fst hsems
    rw [Conn.posts, hst] at hrx'
    rw [Conn.receive_listen hst] at hstate'
    by_cases hsyn : hasFlag (env.buf zb).segment.flags tcpFlagSyn = true
    · rw [if_pos hsyn] at hstate'
      refine .inl ⟨?_, hconnects.2 ⟨hsyn, hreach⟩⟩
      rw [hstate']
      simp
    · rw [if_neg hsyn] at hstate'
      exact .inr ⟨hkeep (hstate'.trans hst) (hrx'.trans h.posts),
        fun hc => hsyn (hconnects.1 hc).1⟩
  · refine .inr ⟨hkeep ?_ ?_, fun hc => hnot (hconnects.1 hc).2⟩
    · rw [hsame]
      exact h.state
    · rw [hsame]
      exact h.posts

/-- A segment at a connected socket does not make it listen. -/
theorem modbusTcpLts_arrive_not_listen {port : BitVec 16} {env : TcpEnv α} {zb : α}
    (hst : (s.net.sock x).state ≠ .listen)
    (hs : (modbusTcpLts cfg port).step s (.arrive env zb) s') :
    (s'.net.sock x).state ≠ .listen := by
  obtain ⟨net, fuel, hinput, rfl⟩ := hs
  have harrive : (tcpLts cfg fun _ => True).step s.net (.arrive env zb) net := ⟨fuel, hinput⟩
  rcases tcpLts_arrive_sock harrive x with ⟨-, ⟨n, hconn⟩, -⟩ | ⟨-, hsame⟩
  · have hstate' : (net.sock x).state = _ := congrArg Conn.state hconn
    rw [hstate']
    exact Conn.receive_not_listen hst _ _ _ _
  · rw [hsame]
    exact hst

/-- **A segment arrives**: a SYN to the socket of the server connects it. -/
theorem ServerPhase.arrive (h : ServerPhase x s) {port : BitVec 16} {env : TcpEnv α} {zb : α}
    (hs : (modbusTcpLts cfg port).step s (.arrive env zb) s') :
    ServerPhase x s' ∧ (Available s' ↔ Available s ∧ ¬ Connects s (.arrive env zb)) := by
  have hsocket : s'.tcpSocket = s.tcpSocket ∧ s'.poll = s.poll := by
    obtain ⟨net, fuel, -, rfl⟩ := hs
    exact ⟨rfl, rfl⟩
  have hlookup : s'.net.lookup s'.tcpSocket = s.net.lookup s.tcpSocket := by
    rw [hsocket.1, NetStack.lookup, (modbusTcpLts_arrive_links hs).socketTable]
    rfl
  have hiff : ∀ (h' : ServerPhase x s'),
      ((s.net.lookup s.tcpSocket = some x ∧ (s'.net.sock x).state = .listen) ↔
        (s.net.lookup s.tcpSocket = some x ∧ (s.net.sock x).state = .listen) ∧
          ¬ Connects s (.arrive env zb)) →
      ServerPhase x s' ∧ (Available s' ↔ Available s ∧ ¬ Connects s (.arrive env zb)) := by
    intro h' he
    refine ⟨h', ?_⟩
    rw [h'.available_iff, h.available_iff, ← he, hlookup]
  cases h with
  | listening listens =>
    rcases listens.arrive hs with ⟨hne, hconnects⟩ | ⟨hlistens, hno⟩
    · refine hiff (.connected (hlookup.trans listens.lookup) hne ?_)
        ⟨fun he => absurd he.2 hne, fun he => absurd hconnects he.2⟩
      rw [hsocket.2]
      rcases listens.poll with hpoll | hpoll
      · exact .inl hpoll
      · exact .inr (.inl hpoll)
    · exact hiff (.listening hlistens)
        ⟨fun he => ⟨⟨he.1, listens.state⟩, hno⟩, fun he => ⟨he.1.1, hlistens.state⟩⟩
  | connected lookup state poll =>
    have hne := modbusTcpLts_arrive_not_listen state hs
    refine hiff (.connected (hlookup.trans lookup) hne ?_)
      ⟨fun he => absurd he.2 hne, fun he => absurd he.1.2 state⟩
    rw [hsocket.2]
    exact poll
  | closed lookup poll =>
    refine hiff (.closed (hlookup.trans lookup) (hsocket.2.trans poll))
      ⟨fun he => ?_, fun he => ?_⟩
    · rw [lookup] at he
      cases he.1
    · rw [lookup] at he
      cases he.1.1

/-- **Step.** -/
theorem ServerPhase.step (h : ServerPhase x s) {port : BitVec 16} {e : ModbusTcpEvent α}
    (hs : (modbusTcpLts cfg port).step s e s') :
    ServerPhase x s' ∧ (Available s' ↔ Available s ∧ ¬ Connects s e) := by
  cases e with
  | poll env =>
    obtain ⟨fuel, hs⟩ := hs
    -- the pool and the clock are not those of a phase
    have hmeets : ServerPhase x { s with net := s.net.meets env } := by
      cases h with
      | listening listens => exact .listening { listens with }
      | connected lookup state poll => exact .connected lookup state poll
      | closed lookup poll => exact .closed lookup poll
    obtain ⟨h', hiff⟩ := hmeets.poll hs
    refine ⟨h', hiff.trans ?_⟩
    rw [hmeets.available_iff, h.available_iff]
    exact (and_iff_left not_false).symm
  | arrive env zb => exact h.arrive hs

/-! ## Every run -/

omit [DecidableEq α] in
/-- The socket that `sock_socket` makes. -/
theorem sockSocket_spec (net : NetStack α σ) (type : ℤ) (y : σ) :
    (sockSocket net type (some y)).2 = net.nextFd ∧
      (sockSocket net type (some y)).1.lookup net.nextFd = some y ∧
      (sockSocket net type (some y)).1.live y = true ∧
      ((sockSocket net type (some y)).1.sock y).type = type ∧
      ((sockSocket net type (some y)).1.sock y).rxSem = 0 ∧
      ((sockSocket net type (some y)).1.sock y).rxQueue = zbufQueueInit := by
  refine ⟨rfl, Function.update_self .., Function.update_self .., ?_⟩
  simp [sockSocket, NetStack.setSlot, NetStack.modify, Socket.init]

/-- The server starts with a socket that listens. -/
theorem modbusTcpLts_start {port : BitVec 16} (h : (modbusTcpLts cfg port).init s) :
    ∃ x, ServerPhase x s ∧ Available s := by
  obtain ⟨s₀, x, fuel, -, hpoll, hstart⟩ := h
  obtain ⟨hfd, hlookup, hlive, htype, hrx, hqueue⟩ := sockSocket_spec s₀.net sockStream x
  rcases hsock : sockSocket s₀.net sockStream (some x) with ⟨net, fd⟩
  rw [hsock] at hfd hlookup hlive htype hrx hqueue
  obtain rfl : fd = s₀.net.nextFd := hfd
  have hbind : sockBind net s₀.net.nextFd ⟨ip4AddrAny, port⟩ =
      (net.modify x fun k => { k with localAddr := ⟨ip4AddrAny, port⟩ }, 0) := by
    unfold sockBind
    rw [hlookup]
  generalize hnet : (net.modify x fun k => { k with localAddr := ⟨ip4AddrAny, port⟩ }) = net₁ at hbind
  obtain ⟨htype₁, hrx₁, hqueue₁⟩ : (net₁.sock x).type = sockStream ∧ (net₁.sock x).rxSem = 0 ∧
      (net₁.sock x).rxQueue = zbufQueueInit := by
    rw [← hnet]
    exact ⟨(Lib.Store.modify_field Socket.type net.sock x (by rfl) x).trans htype,
      (Lib.Store.modify_field Socket.rxSem net.sock x (by rfl) x).trans hrx,
      (Lib.Store.modify_field Socket.rxQueue net.sock x (by rfl) x).trans hqueue⟩
  have hlookup₁ : net₁.lookup s₀.net.nextFd = some x := by
    rw [← hnet]
    exact hlookup
  have hlisten : sockListen net₁ s₀.net.nextFd =
      ({ (net₁.modify x fun k => { k with state := .listen }).modify x
          fun k => { k with next := net₁.tcpListenList } with tcpListenList := some x }, 0) := by
    unfold sockListen
    rw [hlookup₁]
    simp only
    rw [if_neg]
    · rfl
    · exact not_not.2 htype₁
  simp only [modbusTcpServerStart, hsock, hbind, hlisten, lt_self_iff_false, if_false] at hstart
  split_ifs at hstart with hneg
  · cases hstart
  · cases hstart
    obtain ⟨net₂, hnet₂⟩ : ∃ net₂, (net₁.modify x fun k => { k with state := .listen }).modify x
        (fun k => { k with next := net₁.tcpListenList }) = net₂ := ⟨_, rfl⟩
    obtain ⟨hstate, hrx₂, hqueue₂⟩ : (net₂.sock x).state = .listen ∧ (net₂.sock x).rxSem = 0 ∧
        (net₂.sock x).rxQueue = zbufQueueInit := by
      rw [← hnet₂]
      simp [NetStack.modify, hrx₁, hqueue₁]
    have hlive₂ : net₂.live x = true := by
      rw [← hnet₂, ← hnet]
      exact hlive
    have hlookup₂ : net₂.lookup s₀.net.nextFd = some x := by
      rw [← hnet₂]
      exact hlookup₁
    rw [hnet₂]
    exact ⟨x, .listening ⟨hlookup₂, hlive₂, hstate, hrx₂, hqueue₂, Int.not_lt.1 hneg, rfl,
      .inl hpoll⟩, x, hlookup₂, hlive₂, hstate⟩

/-- **How long the server is available.**  After any polls and segments the
    socket of the server is allocated and listens exactly if no client has sent
    a SYN to it: the first client takes the socket, and the poll that answers it
    closes it. -/
theorem modbus_available_iff (cfg : NetConfig α) (port : BitVec 16)
    {tr : List (ModbusTcpEvent α)} {s : ModbusTcp α σ} (h : (modbusTcpLts cfg port).Run tr s) :
    Available s ↔ ((modbusTcpLts cfg port).restrict fun s e => ¬ Connects s e).Run tr s := by
  refine h.iff_restrict (I := fun s => ∃ x, ServerPhase x s) ?_ ?_
  · intro s hinit
    obtain ⟨x, hx, havailable⟩ := modbusTcpLts_start hinit
    exact ⟨⟨x, hx⟩, havailable⟩
  · rintro s e s' ⟨x, hx⟩ hs
    obtain ⟨hx', hiff⟩ := hx.step hs
    exact ⟨⟨x, hx'⟩, hiff⟩

/-! ## The first client -/

omit [DecidableEq α] [DecidableEq σ] in
/-- A client is connected to the socket `x` of a running server, and nothing was
    received from it. -/
structure Attached (x : σ) (s : ModbusTcp α σ) : Prop where
  lookup : s.net.lookup s.tcpSocket = some x
  state : (s.net.sock x).state = .established
  queue : (s.net.sock x).rxQueue = zbufQueueInit
  socket : 0 ≤ s.tcpSocket
  running : s.server.tcpRunning = true

/-- **The handshake.**  A SYN and an ACK get to the socket that listens. -/
theorem Listens.handshake (h : Listens x s) {port : BitVec 16} {syn ack : TcpEnv α} {b b' : α}
    {s₁ s₂ : ModbusTcp α σ} (hsyn : (modbusTcpLts cfg port).step s (.arrive syn b) s₁)
    (hr : Reaches x s.net syn b) (hs : hasFlag (syn.buf b).segment.flags tcpFlagSyn = true)
    (hack : (modbusTcpLts cfg port).step s₁ (.arrive ack b') s₂) (hr' : Reaches x s₁.net ack b')
    (ha : hasFlag (ack.buf b').segment.flags tcpFlagAck = true) :
    Attached x s₂ ∧ (s₂.net.sock x).rxSem = 1 ∧ s₂.poll = s.poll ∧ s₂.server = s.server := by
  obtain ⟨net₁, fuel₁, hinput₁, rfl⟩ := hsyn
  obtain ⟨net₂, fuel₂, hinput₂, rfl⟩ := hack
  have harrive₁ : (tcpLts cfg fun _ => True).step s.net (.arrive syn b) net₁ := ⟨fuel₁, hinput₁⟩
  have harrive₂ : (tcpLts cfg fun _ => True).step net₁ (.arrive ack b') net₂ := ⟨fuel₂, hinput₂⟩
  have hlinks := ((SameLinks.meets s.net syn).trans (.tcpInput cfg hinput₁)).trans
    ((SameLinks.meets net₁ ack).trans (.tcpInput cfg hinput₂))
  have hlisten : (s.net.sock x).conn.state = .listen := h.state
  -- the SYN
  obtain ⟨n, hconn₁⟩ := (tcpLts_arrive_sock harrive₁ x).elim (fun h => h.2.1) fun h => absurd hr h.1
  have hsems₁ := (tcpLts_arrive_sock harrive₁ x).elim (fun h => h.2.2) fun h => absurd hr h.1
  rw [Conn.receive_listen hlisten, if_pos hs] at hconn₁
  rw [Conn.posts, hlisten] at hsems₁
  have hqueue₁ := tcpLts_arrive_rxQueue harrive₁ (Conn.not_takes (by rw [hlisten]; simp))
  -- the ACK
  have hshake : (net₁.sock x).conn.state = .synReceived := by rw [hconn₁]
  obtain ⟨k, hconn₂⟩ := (tcpLts_arrive_sock harrive₂ x).elim (fun h => h.2.1) fun h => absurd hr' h.1
  have hsems₂ := (tcpLts_arrive_sock harrive₂ x).elim (fun h => h.2.2) fun h => absurd hr' h.1
  rw [Conn.receive_synReceived hshake, if_pos ha] at hconn₂
  rw [Conn.posts, hshake] at hsems₂
  simp only [if_pos ha] at hsems₂
  have hqueue₂ := tcpLts_arrive_rxQueue harrive₂ (Conn.not_takes (by rw [hshake]; simp))
  refine ⟨⟨?_, congrArg Conn.state hconn₂, (hqueue₂.trans hqueue₁).trans h.queue, h.socket,
    h.running⟩, ?_, rfl, rfl⟩
  · show net₂.lookup s.tcpSocket = some x
    rw [NetStack.lookup, hlinks.socketTable]
    exact h.lookup
  · have hrx₁ : (net₁.sock x).rxSem = (s.net.sock x).rxSem := congrArg Prod.fst hsems₁
    have hrx₂ : (net₂.sock x).rxSem = (net₁.sock x).rxSem + 1 := congrArg Prod.fst hsems₂
    rw [hrx₂, hrx₁, h.posts]

omit [DecidableEq α] in
/-- A wait on `rx_sem` with a post returns. -/
theorem waitRx_posted {net : NetStack α σ} {n : ℕ} (h : (net.sock x).rxSem = n + 1) :
    net.waitRx x = some (net.modify x fun k => { k with rxSem := k.rxSem - 1 }) := by
  unfold NetStack.waitRx
  rw [if_neg (by rw [h]; simp)]

/-- **The poll accepts** the client, and waits for its request. -/
theorem Attached.accepts (h : Attached x s) (hsem : (s.net.sock x).rxSem = 1)
    (hpoll : s.poll = .accepting x) (port : BitVec 16) (env : TcpEnv α) :
    ∃ s', (modbusTcpLts cfg port).step s (.poll env) s' ∧ Attached x s' ∧
      (s'.net.sock x).rxSem = 0 ∧ s'.poll = .receiving x ∧ s'.server = s.server := by
  have hwait : (s.net.meets env).waitRx x = some _ := waitRx_posted hsem
  generalize hnet : ((s.net.meets env).modify x fun k => { k with rxSem := k.rxSem - 1 }) = net
    at hwait
  obtain ⟨hstate, hqueue, hrx⟩ : (net.sock x).state = .established ∧
      (net.sock x).rxQueue = zbufQueueInit ∧ (net.sock x).rxSem = 0 := by
    have hself := (s.net.meets env).sock.modify_self x fun k => { k with rxSem := k.rxSem - 1 }
    have hx : net.sock x = { s.net.sock x with rxSem := (s.net.sock x).rxSem - 1 } := by
      rw [← hnet]
      exact hself
    rw [hx]
    exact ⟨h.state, h.queue, by rw [hsem]⟩
  have hlookup : net.lookup s.tcpSocket = some x := by
    rw [← hnet]
    exact h.lookup
  refine ⟨{ s with net := net, poll := .receiving x }, ⟨0, ?_⟩,
    ⟨hlookup, hstate, hqueue, h.socket, h.running⟩, hrx, rfl, rfl⟩
  have hresume : sockAcceptResume (s.net.meets env) x = some (net, (net.sock x).remoteAddr) := by
    rw [sockAcceptResume, hwait]
    rfl
  unfold modbusPoll
  rw [show ({ s with net := s.net.meets env } : ModbusTcp α σ).poll = _ from hpoll]
  simp only [modbusPollReceive, hresume, Option.bind_eq_bind, Option.bind_some,
    if_neg (Int.not_lt.2 h.socket), sockRecv, hlookup]

/-- **The request arrives**, and is the first on the receive queue. -/
theorem Attached.request (h : Attached x s) (hsem : (s.net.sock x).rxSem = 0) {port : BitVec 16}
    {env : TcpEnv α} {zb : α} (hin : InSequence x s.net (.arrive env zb))
    (hs : (modbusTcpLts cfg port).step s (.arrive env zb) s') :
    (s'.net.sock x).rxSem = 1 ∧ (s'.net.sock x).rxQueue.head = some zb ∧ s'.poll = s.poll ∧
      s'.server = s.server := by
  obtain ⟨net, fuel, hinput, rfl⟩ := hs
  have harrive : (tcpLts cfg fun _ => True).step s.net (.arrive env zb) net := ⟨fuel, hinput⟩
  have hst : (s.net.sock x).conn.state = .established := h.state
  have hsems := (tcpLts_arrive_sock harrive x).elim (fun h => h.2.2) fun h => absurd hin.1 h.1
  rw [Conn.posts, hst] at hsems
  simp only [if_pos hin.2.1, hin.2.2, Bool.false_eq_true, if_false] at hsems
  refine ⟨?_, ?_, rfl, rfl⟩
  · have hrx : (net.sock x).rxSem = (s.net.sock x).rxSem + (1 + 0) := congrArg Prod.fst hsems
    rw [hrx, hsem]
  · have hqueue := hin.rxQueue harrive s.net.pool.zb
    rw [hqueue, h.queue]
    rfl

/-- The first buffer is taken from the receive queue; in the pool only links change. -/
theorem popRx_head {net : NetStack α σ} {zb : α} (h : (net.sock x).rxQueue.head = some zb) :
    (popRx net x).2 = some zb ∧ ((popRx net x).1.sock x).conn = (net.sock x).conn ∧
      ∀ {γ : Type} (g : Zbuf α → γ), (∀ z v, g { z with next := v } = g z) →
        (∀ z v, g { z with prev := v } = g z) →
        g ((popRx net x).1.pool.zb zb) = g (net.pool.zb zb) := by
  have hzb : (zbufQueuePop net.pool.zb (net.sock x).rxQueue).2.2 = some zb := by
    unfold zbufQueuePop
    rw [h]
  unfold popRx
  rcases hpop : zbufQueuePop net.pool.zb (net.sock x).rxQueue with ⟨m, q, y⟩
  rw [hpop] at hzb
  refine ⟨hzb, Lib.Store.modify_field Socket.conn net.sock x (by rfl) x, fun g hn hp => ?_⟩
  have hg := zbufQueuePop_field net.pool.zb (net.sock x).rxQueue g hn hp zb
  rw [hpop] at hg
  exact hg

/-- What the poll does with the request in the buffer `zb`, which has the bytes of `z`:
    the server handles it, gives its response to `sock_send_zbuf` for the client's
    connection, and closes the socket. -/
def PollAnswers (cfg : NetConfig α) (x : σ) (s : ModbusTcp α σ) (zb : α) (z : Zbuf α)
    (s' : ModbusTcp α σ) : Prop :=
  s'.poll = .idle ∧ ∃ pool m sent, payloadOf (pool.zb zb) = payloadOf z ∧
    modbusServerPoll cfg.port ⟨s.server, pool⟩ zb (fun i => z.space.byte (z.data + i)) =
      some (m, sent) ∧ s'.server = m.server ∧
    ∀ l, sent = some l → ∃ net resp fuel, payloadOf (net.pool.zb resp) = l ∧
      (net.sock x).conn = (s.net.sock x).conn ∧
      (sockClose cfg fuel (sockSendZbuf cfg net s.tcpSocket resp).1 s.tcpSocket).map Prod.fst =
        some s'.net

/-- **The request is answered** from the buffer that is first on the receive queue. -/
theorem modbusPollRequest_answers {port : BitVec 16} {env : TcpEnv α} {zb : α}
    (hrun : s.server.tcpRunning = true)
    (hhead : (s.net.sock x).rxQueue.head = some zb) (hpoll : s.poll = .receiving x)
    (hs : (modbusTcpLts cfg port).step s (.poll env) s') :
    PollAnswers cfg x s zb (env.buf zb) s' := by
  obtain ⟨fuel, hs⟩ := hs
  unfold modbusPoll at hs
  rw [show ({ s with net := s.net.meets env } : ModbusTcp α σ).poll = _ from hpoll] at hs
  obtain ⟨⟨net, zb'⟩, hrecv, hs⟩ := Option.bind_eq_some_iff.1 hs
  obtain ⟨net₁, hwait, hpop⟩ := Option.bind_eq_some_iff.1 hrecv
  obtain ⟨hpool, hqueue, hconn₁⟩ := waitRx_queue hwait
  obtain ⟨hzb, hconn, hfield⟩ := popRx_head ((congrArg ZbufQueue.head hqueue).trans hhead)
  rw [Option.some.inj hpop] at hzb hconn hfield
  rw [hpool] at hfield
  obtain rfl : zb' = some zb := hzb
  replace hconn : (net.sock x).conn = (s.net.sock x).conn := hconn.trans hconn₁
  have hspace : (net.pool.zb zb).space = (env.buf zb).space :=
    hfield Zbuf.space (fun _ _ => rfl) fun _ _ => rfl
  have hdata : (net.pool.zb zb).data = (env.buf zb).data :=
    hfield Zbuf.data (fun _ _ => rfl) fun _ _ => rfl
  have hlen : (net.pool.zb zb).len = (env.buf zb).len :=
    hfield Zbuf.len (fun _ _ => rfl) fun _ _ => rfl
  obtain ⟨s₁, hanswer, hclose⟩ := Option.bind_eq_some_iff.1 hs
  obtain ⟨m, sent, hserve, hserver, hsocket, hsent⟩ :=
    modbusPollAnswer_server (s := { s with net := net, poll := .receiving x }) hrun hanswer
  obtain ⟨⟨closed, ret⟩, hclosed, hs'⟩ := Option.bind_eq_some_iff.1 hclose
  cases hs'
  refine ⟨rfl, net.pool, m, sent, ?_, ?_, hserver, fun l hl => ?_⟩
  · rw [payloadOf, payloadOf, hspace, hdata, hlen]
  · rw [← hspace, ← hdata]
    exact hserve
  · obtain ⟨net', resp, hnet, hsock, hpay⟩ := hsent l hl
    refine ⟨net', resp, fuel, hpay, ?_, ?_⟩
    · rw [hsock]
      exact hconn
    · have htcp : s₁.tcpSocket = s.tcpSocket := hsocket
      rw [hnet, htcp] at hclosed
      rw [hclosed]
      rfl

/-- **The first client.**  A poll that waits while no client has connected goes on when
    one has, and waits for a request; it goes on when the request arrives, and
    answers it. -/
theorem modbus_first_client {port : BitVec 16} {tr : List (ModbusTcpEvent α)}
    (h : ((modbusTcpLts cfg port).restrict fun s e => ¬ Connects s e).Run tr s)
    (hwait : s.poll = .accepting x) {syn ack : TcpEnv α} {b b' : α} {s₁ s₂ : ModbusTcp α σ}
    (hsyn : (modbusTcpLts cfg port).step s (.arrive syn b) s₁) (hr : Reaches x s.net syn b)
    (hs : hasFlag (syn.buf b).segment.flags tcpFlagSyn = true)
    (hack : (modbusTcpLts cfg port).step s₁ (.arrive ack b') s₂) (hr' : Reaches x s₁.net ack b')
    (ha : hasFlag (ack.buf b').segment.flags tcpFlagAck = true) (env : TcpEnv α) :
    ∃ s₃, (modbusTcpLts cfg port).step s₂ (.poll env) s₃ ∧ s₃.poll = .receiving x ∧
      ∀ {req env' : TcpEnv α} {zb : α} {s₄ s₅ : ModbusTcp α σ},
        InSequence x s₃.net (.arrive req zb) →
        (modbusTcpLts cfg port).step s₃ (.arrive req zb) s₄ →
        (modbusTcpLts cfg port).step s₄ (.poll env') s₅ →
        (s₄.net.sock x).rxSem = 1 ∧ s₄.server = s.server ∧
          PollAnswers cfg x s₄ zb (env'.buf zb) s₅ := by
  obtain ⟨y, hphase, havailable⟩ : ∃ y, ServerPhase y s ∧ Available s := by
    refine h.rule (P := fun _ s => ∃ y, ServerPhase y s ∧ Available s) ?_ ?_
    · exact fun s hinit => modbusTcpLts_start hinit
    · rintro tr s e s' ⟨y, hy, ha⟩ ⟨hno, hstep⟩
      obtain ⟨hy', hiff⟩ := hy.step hstep
      exact ⟨y, hy', hiff.2 ⟨ha, hno⟩⟩
  have hlistens := hphase.listens havailable
  obtain rfl : y = x := by
    rcases hlistens.poll with hidle | hpoll
    · rw [hidle] at hwait
      cases hwait
    · rw [hpoll] at hwait
      cases hwait
      rfl
  obtain ⟨hattached, hsem, hpoll₂, hserver₂⟩ := hlistens.handshake hsyn hr hs hack hr' ha
  obtain ⟨s₃, hstep₃, hattached₃, hsem₃, hpoll₃, hserver₃⟩ :=
    hattached.accepts hsem (hpoll₂.trans hwait) port env
  refine ⟨s₃, hstep₃, hpoll₃, fun {req env' zb s₄ s₅} hin hreq hstep₅ => ?_⟩
  obtain ⟨hsem₄, hhead, hpoll₄, hserver₄⟩ := hattached₃.request hsem₃ hin hreq
  refine ⟨hsem₄, (hserver₄.trans hserver₃).trans hserver₂, ?_⟩
  refine modbusPollRequest_answers ?_ hhead (hpoll₄.trans hpoll₃) hstep₅
  rw [hserver₄]
  exact hattached₃.running

/-! ## Executions -/

variable (cfg) in
/-- A step, with a bound on the loops. -/
def modbusTcpExec (fuel : ℕ) (s : ModbusTcp α σ) : ModbusTcpEvent α → Option (ModbusTcp α σ)
  | .poll env => modbusPoll cfg fuel { s with net := s.net.meets env }
  | .arrive env zb =>
    (tcpInput cfg fuel (s.net.meets env) zb).map fun net => { s with net := net }

theorem modbusTcpExec_step {port : BitVec 16} {fuel : ℕ} (s : ModbusTcp α σ) (e : ModbusTcpEvent α)
    (s' : ModbusTcp α σ) (h : modbusTcpExec cfg fuel s e = some s') :
    (modbusTcpLts cfg port).step s e s' := by
  cases e with
  | poll env => exact ⟨fuel, h⟩
  | arrive env zb =>
    obtain ⟨net, hinput, rfl⟩ := Option.map_eq_some_iff.1 h
    exact ⟨net, fuel, hinput, rfl⟩

end

/-! ## Two clients -/

/-- A network that knows the hardware address of `10.0.0.2`. -/
def demoLan : NetStack (Fin 2) (Fin 2) :=
  { demoStack with arpCache := [⟨0x0A000002, fun _ => 4, true⟩] }

/-- A pool with `z` in the buffer 0, and the buffer 1 free. -/
def demoLanPool (z : Zbuf (Fin 2)) : ZbufPool (Fin 2) where
  zb := fun zb => if zb = 0 then z else demoZbuf
  freeList := some 1
  totalCount := 2
  freeCount := 1
  allocFailures := 0

/-- The server on port 502, which has just started. -/
def demoModbusTcp : Option (ModbusTcp (Fin 2) (Fin 2) × Status) :=
  modbusTcpServerStart demoNet 2 ⟨demoLan, demoModbus.server, -1, .idle⟩ 502 (some 0)

/-- A request for the register 0, and a segment of the client with `data`. -/
def demoReadOne : List (BitVec 8) := [0, 1, 0, 0, 0, 6, 1, 3, 0, 0, 0, 1]
def demoClient (flags : BitVec 8) (seq : BitVec 32) (data : List (BitVec 8)) :
    ModbusTcpEvent (Fin 2) :=
  .arrive ⟨demoLanPool (demoSegment 0x0A000002 8080 502 seq 0 flags data), 0⟩ 0

/-- A part of the poll, with the request in the buffer 0. -/
def demoPoll : ModbusTcpEvent (Fin 2) := .poll ⟨demoLanPool (demoFrame 40 demoReadOne), 0⟩

/-- A client connects, and its request is answered. -/
def demoFirstClient : List (ModbusTcpEvent (Fin 2)) :=
  [demoPoll, demoClient tcpFlagSyn 0 [], demoClient tcpFlagAck 1 [], demoPoll,
    demoClient tcpFlagAck 1 demoReadOne, demoPoll]

theorem demoModbusTcp_starts : demoModbusTcp.isSome := by decide +kernel

def demoServing : ModbusTcp (Fin 2) (Fin 2) := (demoModbusTcp.get demoModbusTcp_starts).1

theorem demoServing_init : (modbusTcpLts demoNet 502).init demoServing := by
  refine ⟨⟨demoLan, demoModbus.server, -1, .idle⟩, 0, 2, rfl, rfl, ?_⟩
  have hok : (demoModbusTcp.get demoModbusTcp_starts).2 = .ok := by decide +kernel
  refine (Option.some_get demoModbusTcp_starts).symm.trans ?_
  rw [← hok]
  rfl

theorem demoPoll_runs : (Lib.Lts.exec (modbusTcpExec demoNet 3) demoServing [demoPoll]).isSome := by
  decide +kernel

theorem demoFirstClient_runs :
    (Lib.Lts.exec (modbusTcpExec demoNet 3) demoServing demoFirstClient).isSome := by
  decide +kernel

/-- A server that waits for its first client. -/
theorem modbus_available_waiting :
    ∃ s : ModbusTcp (Fin 2) (Fin 2), (modbusTcpLts demoNet 502).Run [demoPoll] s ∧
      s.poll = .accepting 0 ∧ (Available s ↔
        ((modbusTcpLts demoNet 502).restrict fun s e => ¬ Connects s e).Run [demoPoll] s) := by
  have hrun := Lib.Lts.run_of_exec (T := modbusTcpLts demoNet 502) modbusTcpExec_step
    demoServing_init (Option.some_get demoPoll_runs).symm
  exact ⟨_, hrun, by decide +kernel, modbus_available_iff demoNet 502 hrun⟩

/-- **The first client is the last**: its request is answered, and then
    `tcp_socket` denotes no socket. -/
theorem modbus_not_available :
    ∃ s : ModbusTcp (Fin 2) (Fin 2), (modbusTcpLts demoNet 502).Run demoFirstClient s ∧
      s.poll = .idle ∧ s.server.responses = 1 ∧ s.net.lookup s.tcpSocket = none ∧
      ¬ Available s := by
  have hrun := Lib.Lts.run_of_exec (T := modbusTcpLts demoNet 502) modbusTcpExec_step
    demoServing_init (Option.some_get demoFirstClient_runs).symm
  have hnone : ((Lib.Lts.exec (modbusTcpExec demoNet 3) demoServing demoFirstClient).get
      demoFirstClient_runs).net.lookup ((Lib.Lts.exec (modbusTcpExec demoNet 3) demoServing
        demoFirstClient).get demoFirstClient_runs).tcpSocket = none := by decide +kernel
  refine ⟨_, hrun, by decide +kernel, by decide +kernel, hnone, ?_⟩
  rintro ⟨x, hx, -⟩
  rw [hnone] at hx
  cases hx

end Gracemont
