/-
  Gracemont networking — `sock_connect` and the answers to its SYN.

  `sock_connect` sends its SYN under the lock of the socket, and links the socket
  into `tcp_conn_list` after it has released that lock.  Any number of calls,
  each for its own socket, take their steps in any order with segments that
  arrive.  An answer that comes between the two steps finds no socket, and is
  answered with a RST.

  * `sockConnectSyn`, `tcpConnLink`: the steps of `sock_connect` before its wait
    (`sockConnect_steps`);
  * `ConnectState`, `connectLts`: their runs;
  * `AnswerTaken`: a SYN-ACK connects the socket that it answers;
  * `connect_answer_iff`: exactly if that socket is linked when it arrives, and
    none of the same addresses was linked since.
-/
import Gracemont.Net.Ownership
import Gracemont.Net.SocketRun
import Gracemont.Net.TcpOpening

namespace Gracemont

variable {α σ : Type}

/-! ## The steps of `sock_connect` -/

section
variable [DecidableEq α] [DecidableEq σ] (cfg : NetConfig α)

/-- `sock_connect`, up to the release of the lock of the socket. -/
def sockConnectSyn (s : NetStack α σ) (fd : ℤ) (addr : Sockaddr) : NetStack α σ × Option σ :=
  match s.lookup fd with
  | none => (s, none)
  | some sock =>
    let s := s.modify sock fun k => { k with
      remoteAddr := addr
      localAddr := connectAddr cfg s k.localAddr
      sndNxt := s.ticks
      sndUna := s.ticks
      state := .synSent }
    ((tcpSendSegment cfg s sock tcpFlagSyn none).1, some sock)

/-- The push onto `tcp_conn_list`, under `tcp_lock`. -/
def tcpConnLink (s : NetStack α σ) (sock : σ) : NetStack α σ :=
  let s := s.modify sock fun k => { k with next := s.tcpConnList }
  { s with tcpConnList := some sock }

theorem sockConnect_steps (s : NetStack α σ) (fd : ℤ) (addr : Sockaddr) :
    sockConnect cfg s fd addr =
      match sockConnectSyn cfg s fd addr with
      | (s, none) => (s, none)
      | (s, some sock) => (tcpConnLink s sock, some sock) := by
  unfold sockConnect sockConnectSyn
  rcases s.lookup fd with _ | sock
  · rfl
  · rfl

theorem sockConnectSyn_snd (s : NetStack α σ) (fd : ℤ) (addr : Sockaddr) :
    (sockConnectSyn cfg s fd addr).2 = s.lookup fd := by
  unfold sockConnectSyn
  rcases s.lookup fd with _ | sock
  · rfl
  · rfl

theorem SameLinks.sockConnectSyn (s : NetStack α σ) (fd : ℤ) (addr : Sockaddr) :
    SameLinks s (sockConnectSyn cfg s fd addr).1 := by
  unfold Gracemont.sockConnectSyn
  rcases s.lookup fd with _ | sock
  · exact .refl s
  · exact (SameLinks.modify s sock (by rfl)).trans (.tcpSendSegment cfg _ sock tcpFlagSyn none)

end

/-! ## Runs -/

/-- The stack, the sockets whose SYN is sent and that are not linked yet, and
    those on `tcp_conn_list`. -/
structure ConnectState (α σ : Type) where
  net : NetStack α σ
  sent : List σ
  conns : List σ

/-- A call sends its SYN, links its socket or returns; or a segment arrives. -/
inductive ConnectEvent (α σ : Type) where
  | syn (env : TcpEnv α) (fd : ℤ) (addr : Sockaddr)
  | link (sock : σ)
  | resume (sock : σ)
  | arrive (env : TcpEnv α) (zb : α)

section
variable [DecidableEq α] [DecidableEq σ] (cfg : NetConfig α) (listeners : List σ)

/-- A SYN is sent. -/
def ConnectState.syn (s : ConnectState α σ) (env : TcpEnv α) (fd : ℤ) (addr : Sockaddr) :
    ConnectState α σ :=
  { s with
    net := (sockConnectSyn cfg (s.net.meets env) fd addr).1
    sent := s.sent ++ (sockConnectSyn cfg (s.net.meets env) fd addr).2.toList }

/-- A socket is linked. -/
def ConnectState.link (s : ConnectState α σ) (x : σ) : ConnectState α σ where
  net := tcpConnLink s.net x
  sent := s.sent.filter (· ≠ x)
  conns := x :: s.conns

/-- The socket is not connecting, and not on a list. -/
def ConnectState.Fresh (s : ConnectState α σ) (x : σ) : Prop :=
  x ∉ s.sent ∧ x ∉ s.conns ∧ x ∉ listeners

/-- The runs of `sock_connect`, called once for a socket, while `listeners` are
    on `tcp_listen_list`. -/
def connectLts : Lib.Lts (ConnectState α σ) (ConnectEvent α σ) where
  init s := SocketLists s.net s.conns listeners ∧ (∀ x ∈ s.conns, x ∉ listeners) ∧ s.sent = []
  step s e s' := match e with
    | .syn env fd addr =>
      (∀ x, s.net.lookup fd = some x → s.Fresh listeners x) ∧ s' = s.syn cfg env fd addr
    | .link x => x ∈ s.sent ∧ s' = s.link x
    | .resume x => x ∈ s.conns ∧
        ∃ net n, sockConnectResume s.net x = some (net, n) ∧ s' = { s with net := net }
    | .arrive env zb =>
      ∃ fuel net, tcpInput cfg fuel (s.net.meets env) zb = some net ∧ s' = { s with net := net }

end

/-- **The segment answers the SYN of a socket** with a SYN-ACK. -/
structure AnswersSyn (x : σ) (s : ConnectState α σ) (env : TcpEnv α) (zb : α) : Prop where
  intact : (env.buf zb).Intact
  connecting : x ∈ s.sent ∨ x ∈ s.conns
  state : (s.net.sock x).state = .synSent
  source : (env.buf zb).segment.source = (s.net.sock x).remoteAddr
  dest : (env.buf zb).segment.dest = (s.net.sock x).localAddr
  flags : (env.buf zb).segment.flags &&& (tcpFlagSyn ||| tcpFlagAck) = tcpFlagSyn ||| tcpFlagAck
  noRst : hasFlag (env.buf zb).segment.flags tcpFlagRst = false
  ack : (env.buf zb).segment.ack = (s.net.sock x).sndUna + 1

/-- The lookup finds no socket for a segment, which `tcp_input` then refuses
    (`tcpInput_refused`). -/
def Refused (s : NetStack α σ) (env : TcpEnv α) (zb : α) : Prop :=
  ∃ fuel, tcpFindSocket (s.meets env) (env.buf zb).segment fuel = some none

/-- **An answer finds its socket**, which is established, and wakes its caller;
    and no RST is sent for it. -/
def AnswerTaken (s : ConnectState α σ) (e : ConnectEvent α σ) (s' : ConnectState α σ) : Prop :=
  match e with
  | .arrive env zb => ∀ x, AnswersSyn x s env zb →
      Reaches x s.net env zb ∧ (s'.net.sock x).state = .established ∧
      (s'.net.sock x).txSem = (s.net.sock x).txSem + 1 ∧ ¬ Refused s.net env zb
  | .syn _ _ _ | .link _ | .resume _ => True

/-- The two sockets have the same peer, and the same port. -/
def SameConn (k k' : Socket α σ) : Prop :=
  k.localAddr.port = k'.localAddr.port ∧ k.remoteAddr = k'.remoteAddr

/-- The socket is linked, and none for the same connection was linked since. -/
def LinkedFirst (s : ConnectState α σ) (x : σ) : Prop :=
  ∃ later earlier, s.conns = later ++ x :: earlier ∧
    ∀ y ∈ later, ¬ SameConn (s.net.sock y) (s.net.sock x)

/-- An answer comes when its socket is linked. -/
def AnswerLinked (s : ConnectState α σ) (e : ConnectEvent α σ) : Prop :=
  match e with
  | .arrive env zb => ∀ x, AnswersSyn x s env zb → LinkedFirst s x
  | .syn _ _ _ | .link _ | .resume _ => True

/-! ## The lists -/

section
variable [DecidableEq α] [DecidableEq σ] {cfg : NetConfig α} {listeners conns : List σ}
  {s s' : ConnectState α σ}

omit [DecidableEq α] [DecidableEq σ] in
theorem SocketLists.sameLinks {net net' : NetStack α σ} (h : SocketLists net conns listeners)
    (hs : SameLinks net net') : SocketLists net' conns listeners := by
  unfold SocketLists
  rw [hs.tcpConnList, hs.tcpListenList]
  refine ⟨h.1.congr fun x _ => ?_, h.2.congr fun x _ => ?_⟩
  · exact hs.next x
  · exact hs.next x

omit [DecidableEq α] in
/-- The push of a socket that is on neither list. -/
theorem SocketLists.link {net : NetStack α σ} {x : σ} (h : SocketLists net conns listeners)
    (hconns : x ∉ conns) (hlisteners : x ∉ listeners) :
    SocketLists (tcpConnLink net x) (x :: conns) listeners := by
  have hnext : (tcpConnLink net x).sock.field Socket.next =
      Function.update (net.sock.field Socket.next) x net.tcpConnList :=
    Lib.Store.field_modify Socket.next net.sock x fun k => { k with next := net.tcpConnList }
  unfold SocketLists
  rw [hnext]
  refine ⟨h.1.push hconns, h.2.congr fun y hy => ?_⟩
  exact Function.update_of_ne (ne_of_mem_of_not_mem hy hlisteners) ..

/-- The lists are what the steps left, and a socket is where its call is. -/
structure ConnectInv (listeners : List σ) (s : ConnectState α σ) : Prop where
  lists : SocketLists s.net s.conns listeners
  apart : ∀ x, x ∈ s.sent ∨ x ∈ s.conns → x ∉ listeners
  unlinked : ∀ x ∈ s.sent, x ∉ s.conns

theorem ConnectInv.step (h : ConnectInv listeners s) {e : ConnectEvent α σ}
    (hs : (connectLts cfg listeners).step s e s') : ConnectInv listeners s' := by
  cases e with
  | syn env fd addr =>
    obtain ⟨hfresh, rfl⟩ := hs
    have hsnd : (sockConnectSyn cfg (s.net.meets env) fd addr).2 = s.net.lookup fd :=
      sockConnectSyn_snd cfg (s.net.meets env) fd addr
    have hnew : ∀ x ∈ (s.syn cfg env fd addr).sent, x ∈ s.sent ∨ s.Fresh listeners x := by
      intro x hx
      refine (List.mem_append.1 hx).imp_right fun hx => ?_
      rw [hsnd] at hx
      exact hfresh x (Option.mem_toList.1 hx)
    refine ⟨?_, ?_, ?_⟩
    · exact h.lists.sameLinks ((SameLinks.meets s.net env).trans (.sockConnectSyn cfg _ fd addr))
    · rintro x (hx | hx)
      · rcases hnew x hx with hold | hfresh
        · exact h.apart x (.inl hold)
        · exact hfresh.2.2
      · exact h.apart x (.inr hx)
    · intro x hx
      rcases hnew x hx with hold | hfresh
      · exact h.unlinked x hold
      · exact hfresh.2.1
  | link x =>
    obtain ⟨hx, rfl⟩ := hs
    have hsent : ∀ y ∈ (s.link x).sent, y ∈ s.sent ∧ y ≠ x := by
      intro y hy
      obtain ⟨hy, hne⟩ := List.mem_filter.1 hy
      exact ⟨hy, of_decide_eq_true hne⟩
    refine ⟨h.lists.link (h.unlinked x hx) (h.apart x (.inl hx)), ?_, ?_⟩
    · rintro y (hy | hy)
      · exact h.apart y (.inl (hsent y hy).1)
      · rcases List.mem_cons.1 hy with rfl | hy
        · exact h.apart y (.inl hx)
        · exact h.apart y (.inr hy)
    · intro y hy hmem
      obtain ⟨hold, hne⟩ := hsent y hy
      rcases List.mem_cons.1 hmem with he | hmem
      · exact hne he
      · exact h.unlinked y hold hmem
  | resume x =>
    obtain ⟨-, net, n, hresume, rfl⟩ := hs
    exact ⟨h.lists.sameLinks (.sockConnectResume hresume), h.apart, h.unlinked⟩
  | arrive env zb =>
    obtain ⟨fuel, net, hinput, rfl⟩ := hs
    exact ⟨h.lists.sameLinks ((SameLinks.meets s.net env).trans (.tcpInput cfg hinput)), h.apart,
      h.unlinked⟩

theorem ConnectInv.init (h : (connectLts cfg listeners).init s) : ConnectInv listeners s := by
  obtain ⟨hlists, hapart, hsent⟩ := h
  refine ⟨hlists, ?_, ?_⟩
  · rintro x (hx | hx)
    · rw [hsent] at hx
      cases hx
    · exact hapart x hx
  · intro x hx
    rw [hsent] at hx
    cases hx

/-- Every segment gets through the lookup. -/
theorem connectLts_arrive_returns {tr : List (ConnectEvent α σ)}
    (h : (connectLts cfg listeners).Run tr s) (env : TcpEnv α) (zb : α) :
    ∃ s', (connectLts cfg listeners).step s (.arrive env zb) s' := by
  have hinv : ConnectInv listeners s := by
    refine h.rule (P := fun _ s => ConnectInv listeners s) ?_ ?_
    · intro s hinit
      have hinit' : (connectLts cfg listeners).init s := hinit
      exact .init hinit'
    · intro tr s e s' hs hstep
      exact hs.step hstep
  have hlists : SocketLists (s.net.meets env) s.conns listeners := hinv.lists
  obtain ⟨fuel, net, hinput⟩ :=
    (tcpInput_returns_iff cfg zb).2 fun _ => hlists.lookupEnds _
  exact ⟨_, fuel, net, hinput, rfl⟩

/-! ## AnswersSyn -/

variable {x : σ} {env : TcpEnv α} {zb : α}

omit [DecidableEq α] [DecidableEq σ] in
/-- The lookup takes a socket for that of the answer exactly if it has the same
    connection. -/
theorem AnswersSyn.matchesConn_iff (h : AnswersSyn x s env zb) (y : σ) :
    matchesConn (env.buf zb).segment (s.net.sock y) = true ↔
      SameConn (s.net.sock y) (s.net.sock x) := by
  have hport : (s.net.sock x).localAddr.port = (env.buf zb).segment.dstPort :=
    (congrArg Sockaddr.port h.dest).symm
  have hremote : (s.net.sock y).remoteAddr = (env.buf zb).segment.source ↔
      (s.net.sock y).remoteAddr.port = (env.buf zb).segment.srcPort ∧
        (s.net.sock y).remoteAddr.addr = (env.buf zb).segment.srcIp := by
    rcases (s.net.sock y).remoteAddr with ⟨addr, port⟩
    simp [TcpSegment.source, and_comm]
  unfold matchesConn SameConn
  rw [hport, ← h.source, hremote, decide_eq_true_iff]

omit [DecidableEq α] [DecidableEq σ] in
/-- **The lookup finds the socket of an answer** exactly if it is linked. -/
theorem AnswersSyn.reaches_iff (h : AnswersSyn x s env zb) (hinv : ConnectInv listeners s) :
    Reaches x s.net env zb ↔ LinkedFirst s x := by
  have hlists : SocketLists (s.net.meets env) s.conns listeners := hinv.lists
  obtain ⟨fuel, hfind⟩ := tcpFindSocket_find hlists.1 hlists.2 (env.buf zb).segment
  have hreaches : Reaches x s.net env zb ↔
      (s.conns.find? fun y => matchesConn (env.buf zb).segment (s.net.sock y)) = some x := by
    constructor
    · rintro ⟨-, n, hn⟩
      have hfound := tcpFindSocket_unique hfind hn
      rcases Option.or_eq_some_iff.1 hfound with hconn | ⟨-, hlisten⟩
      · exact hconn
      · exact absurd (List.mem_of_find?_eq_some hlisten) (hinv.apart x h.connecting)
    · intro hconn
      have hconn' : (s.conns.find? fun y =>
          matchesConn (env.buf zb).segment ((s.net.meets env).sock y)) = some x := hconn
      rw [hconn', Option.some_or] at hfind
      exact ⟨h.intact, fuel, hfind⟩
  rw [hreaches, List.find?_eq_some_iff_append, and_iff_right ((h.matchesConn_iff x).2 ⟨rfl, rfl⟩)]
  unfold LinkedFirst
  refine exists_congr fun later => exists_congr fun earlier => and_congr_right fun _ => ?_
  refine forall_congr' fun y => imp_congr_right fun _ => ?_
  rw [← h.matchesConn_iff y, Bool.not_eq_true']
  exact Bool.eq_false_iff

/-- **An answer is taken** exactly if its socket is linked. -/
theorem answer_taken_iff (hinv : ConnectInv listeners s) {e : ConnectEvent α σ}
    (hs : (connectLts cfg listeners).step s e s') : AnswerTaken s e s' ↔ AnswerLinked s e := by
  cases e with
  | syn env fd addr => exact Iff.rfl
  | link x => exact Iff.rfl
  | resume x => exact Iff.rfl
  | arrive env zb =>
    refine forall_congr' fun x => imp_congr_right fun hanswers => ?_
    rw [← hanswers.reaches_iff hinv]
    refine ⟨fun h => h.1, fun hreaches => ⟨hreaches, ?_⟩⟩
    obtain ⟨fuel, net, hinput, rfl⟩ := hs
    have harrive : (tcpLts cfg fun _ => True).step s.net (.arrive env zb) net := ⟨fuel, hinput⟩
    rcases tcpLts_arrive_sock harrive x with ⟨-, ⟨n, hconn⟩, hsems⟩ | ⟨hnot, -⟩
    swap
    · exact absurd hreaches hnot
    have hst : (s.net.sock x).conn.state = .synSent := hanswers.state
    have hposts : (s.net.sock x).conn.posts (env.buf zb).segment (env.buf zb).len = (0, 1) := by
      rw [Conn.posts, hst]
      exact if_pos hanswers.flags
    rw [Conn.receive_synSent hst, if_pos hanswers.flags] at hconn
    rw [hposts] at hsems
    refine ⟨congrArg Conn.state hconn, congrArg Prod.snd hsems, ?_⟩
    rintro ⟨m, hnone⟩
    obtain ⟨-, k, hsome⟩ := hreaches
    cases tcpFindSocket_unique hnone hsome

/-- **When every SYN-ACK connects its socket.**  In every interleaving of the
    steps of `sock_connect` with segments, each SYN-ACK that answers a SYN finds
    the socket, establishes it and wakes the caller, and is not answered with a
    RST, exactly if whenever one arrives its socket is linked, and none for the
    same connection was linked since. -/
theorem connect_answer_iff (cfg : NetConfig α) (listeners : List σ)
    {tr : List (ConnectEvent α σ)} {s : ConnectState α σ}
    {steps : List (ConnectState α σ × ConnectEvent α σ × ConnectState α σ)}
    (h : (connectLts cfg listeners).history.Run tr (s, steps)) :
    (∀ w ∈ steps, AnswerTaken w.1 w.2.1 w.2.2) ↔ ∀ w ∈ steps, AnswerLinked w.1 w.2.1 := by
  have hsteps := (h.history_rule (I := ConnectInv listeners)
    (P := fun s e s' => AnswerTaken s e s' ↔ AnswerLinked s e) ?_ ?_).2
  · exact forall₂_congr hsteps
  · intro s hinit
    exact .init hinit
  · intro s e s' hinv hs
    exact ⟨hinv.step hs, answer_taken_iff hinv hs⟩

/-! ## Executions -/

instance (s : ConnectState α σ) (x : σ) : Decidable (s.Fresh listeners x) :=
  inferInstanceAs (Decidable (_ ∧ _ ∧ _))

variable (cfg listeners) in
/-- A step, with a bound on the walk over the lists of sockets. -/
def connectExec (fuel : ℕ) (s : ConnectState α σ) : ConnectEvent α σ → Option (ConnectState α σ)
  | .syn env fd addr =>
    if (s.net.lookup fd).all fun x => s.Fresh listeners x then some (s.syn cfg env fd addr)
    else none
  | .link x => if x ∈ s.sent then some (s.link x) else none
  | .resume x =>
    if x ∈ s.conns then (sockConnectResume s.net x).map fun r => { s with net := r.1 } else none
  | .arrive env zb =>
    (tcpInput cfg fuel (s.net.meets env) zb).map fun net => { s with net := net }

theorem connectExec_step {fuel : ℕ} (s : ConnectState α σ) (e : ConnectEvent α σ)
    (s' : ConnectState α σ) (h : connectExec cfg listeners fuel s e = some s') :
    (connectLts cfg listeners).step s e s' := by
  cases e with
  | syn env fd addr =>
    simp only [connectExec] at h
    split_ifs at h with hfresh
    refine ⟨fun x hx => ?_, (Option.some.inj h).symm⟩
    rw [hx] at hfresh
    exact of_decide_eq_true hfresh
  | link x =>
    simp only [connectExec] at h
    split_ifs at h with hx
    exact ⟨hx, (Option.some.inj h).symm⟩
  | resume x =>
    simp only [connectExec] at h
    split_ifs at h with hx
    obtain ⟨⟨net, n⟩, hresume, rfl⟩ := Option.map_eq_some_iff.1 h
    exact ⟨hx, net, n, hresume, rfl⟩
  | arrive env zb =>
    obtain ⟨net, hinput, rfl⟩ := Option.map_eq_some_iff.1 h
    exact ⟨fuel, net, hinput, rfl⟩

end

/-- The event hands a TCP segment with RST to the driver. -/
def NetEvent.isRst : NetEvent α σ → Bool
  | .sent _ z => hasFlag (z.space.byte (z.data + (ethHdrLen + ipHdrLen + 13))) tcpFlagRst
  | .allocated _ | .freed _ | .queued _ _ _ => false

/-- The descriptor 0 is that of the socket 0; the hardware address of `10.0.0.2`
    is known. -/
def demoConnector : ConnectState (Fin 2) (Fin 2) where
  net := { demoStack with
    arpCache := [⟨0x0A000002, fun _ => 4, true⟩]
    socketTable := fun i => if i = 0 then some 0 else none }
  sent := []
  conns := []

/-- `sock_connect` to port 8080 of `10.0.0.2` sends its SYN. -/
def demoConnectSyn : ConnectEvent (Fin 2) (Fin 2) :=
  .syn ⟨{ demoStack.pool with freeList := some 1 }, 0⟩ 0 ⟨0x0A000002, 8080⟩

/-- The SYN-ACK that answers it is in the buffer 0. -/
def demoSynAckEnv : TcpEnv (Fin 2) where
  pool := { demoStack.pool with
    zb := fun zb =>
      if zb = 0 then demoSegment 0x0A000002 8080 80 500 1 (tcpFlagSyn ||| tcpFlagAck) []
      else demoZbuf
    freeList := some 1 }
  ticks := 0

/-- Executing events, with the steps so far. -/
def demoConnectRun (es : List (ConnectEvent (Fin 2) (Fin 2))) :=
  Lib.Lts.exec
    (Lib.Lts.trackFun (connectExec demoNet [] 2) fun s e s' steps => steps ++ [(s, e, s')])
    (demoConnector, []) es

theorem demoConnector_init : (connectLts demoNet ([] : List (Fin 2))).init demoConnector := by
  refine ⟨⟨rfl, rfl⟩, ?_, rfl⟩
  intro x hx
  cases hx

theorem demoConnect_end :
    (demoConnectRun [demoConnectSyn, .link 0, .arrive demoSynAckEnv 0, .resume 0]).map
      (fun p => (p.1.net.sock 0).state) = some .established := by decide +kernel

theorem demoSynSent_some : (connectExec demoNet [] 2 demoConnector demoConnectSyn).isSome := by
  decide +kernel

/-- The SYN is sent. -/
def demoSynSent : ConnectState (Fin 2) (Fin 2) :=
  (connectExec demoNet [] 2 demoConnector demoConnectSyn).get demoSynSent_some

theorem demoSynAck_answers : AnswersSyn 0 demoSynSent demoSynAckEnv 0 := by
  constructor
  case intact => exact ⟨by decide +kernel, by decide +kernel⟩
  case connecting => exact .inl (by decide +kernel)
  all_goals decide +kernel

theorem demoRefused_some :
    (connectExec demoNet [] 2 demoSynSent (.arrive demoSynAckEnv 0)).isSome := by decide +kernel

/-- An answer to a socket that is linked. -/
theorem connect_answer_linked : ∃ s steps, (connectLts demoNet ([] : List (Fin 2))).history.Run
      [demoConnectSyn, .link 0, .arrive demoSynAckEnv 0, .resume 0] (s, steps) ∧
    (s.net.sock 0).state = .established ∧
    ((∀ w ∈ steps, AnswerTaken w.1 w.2.1 w.2.2) ↔ ∀ w ∈ steps, AnswerLinked w.1 w.2.1) := by
  obtain ⟨⟨s, steps⟩, hexec, hstate⟩ := Option.map_eq_some_iff.1 demoConnect_end
  have hrun : (connectLts demoNet ([] : List (Fin 2))).history.Run _ (s, steps) :=
    Lib.Lts.run_of_exec_track connectExec_step demoConnector_init hexec
  exact ⟨s, steps, hrun, hstate, connect_answer_iff demoNet [] hrun⟩

/-- **An answer before the socket is linked**: it is not taken, and a RST goes out
    instead. -/
theorem connect_answer_refused : ∃ s steps, (connectLts demoNet ([] : List (Fin 2))).history.Run
      [demoConnectSyn, .arrive demoSynAckEnv 0] (s, steps) ∧
    (s.net.sock 0).state = .synSent ∧ s.net.log.any NetEvent.isRst ∧
    ¬ ∀ w ∈ steps, AnswerTaken w.1 w.2.1 w.2.2 := by
  have hsyn : (connectLts demoNet ([] : List (Fin 2))).step demoConnector demoConnectSyn
      demoSynSent := connectExec_step _ _ _ (Option.some_get demoSynSent_some).symm
  have harrive : (connectLts demoNet ([] : List (Fin 2))).step demoSynSent
      (.arrive demoSynAckEnv 0) _ := connectExec_step _ _ _ (Option.some_get demoRefused_some).symm
  have hrun :=
    ((Lib.Lts.Run.start_history demoConnector_init).snoc_history hsyn).snoc_history harrive
  refine ⟨_, _, hrun, by decide +kernel, by decide +kernel, fun h => ?_⟩
  have htaken := h _ (List.mem_append_right _ (List.mem_singleton_self _)) 0 demoSynAck_answers
  exact htaken.2.2.2 ⟨2, by decide +kernel⟩

end Gracemont
