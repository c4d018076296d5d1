/-
  Gracemont networking — `sock_accept`.

  Any number of `sock_accept` calls on a listening socket and segments that open
  connections come in any order.  The listening socket becomes the connection,
  and `sock_accept` only waits on a socket that still listens: a handshake that
  is over before it is called leaves its post for nobody.

  * `AcceptState`, `acceptLts`: the calls that wait, the handshakes that were
    completed and the addresses that were reported;
  * `Served`: each completed handshake has its own call, and the right address;
  * `sock_accept_served_iff`: exactly if a call waits when a handshake ends.
-/
import Gracemont.Net.SocketRun
import Gracemont.Net.TcpOpening

namespace Gracemont

variable {α σ : Type}

/-! ## Runs -/

/-- The stack, the calls that wait, the sender of the SYN, the peers of completed
    handshakes and the addresses that `sock_accept` reported. -/
structure AcceptState (α σ : Type) where
  net : NetStack α σ
  waiting : ℕ
  peer : Option Sockaddr
  completed : List Sockaddr
  accepted : List Sockaddr

/-- `sock_accept` is called, one that waited returns, or a segment arrives. -/
inductive AcceptEvent (α : Type) where
  | call
  | resume
  | arrive (env : TcpEnv α) (zb : α)

namespace TcpSegment
variable (seg : TcpSegment) (len : BitVec 16)

/-- A segment of `len` bytes that is neither data nor a FIN. -/
def Control : Prop := ¬ seg.HasData len ∧ hasFlag seg.flags tcpFlagFin = false

instance : Decidable (seg.Control len) := inferInstanceAs (Decidable (_ ∧ _))

end TcpSegment

section
variable (x : σ)

/-- A segment has arrived and left the stack `net`. -/
def AcceptState.arrived (s : AcceptState α σ) (seg : TcpSegment) (net : NetStack α σ) :
    AcceptState α σ where
  net := net
  waiting := s.waiting
  peer :=
    if (s.net.sock x).state = .listen ∧ (net.sock x).state = .synReceived then some seg.source
    else s.peer
  completed :=
    if (s.net.sock x).state = .synReceived ∧ (net.sock x).state = .established then
      s.completed ++ s.peer.toList
    else s.completed
  accepted := s.accepted

variable [DecidableEq α] [DecidableEq σ] (cfg : NetConfig α) (fd : ℤ)

/-- The runs of the socket `x` that listens on `fd`.  A call that does not wait
    returns -1. -/
def acceptLts : Lib.Lts (AcceptState α σ) (AcceptEvent α) where
  init s := s.net.lookup fd = some x ∧ (s.net.sock x).state = .listen ∧
    (s.net.sock x).rxSem = 0 ∧ s.waiting = 0 ∧ s.completed = [] ∧ s.accepted = []
  step s e s' := match e with
    | .call => s' = { s with
        waiting := if (sockAccept s.net fd).isSome then s.waiting + 1 else s.waiting }
    | .resume => 0 < s.waiting ∧ ∃ net addr, sockAcceptResume s.net x = some (net, addr) ∧
        s' = { s with net := net, waiting := s.waiting - 1, accepted := s.accepted ++ [addr] }
    | .arrive env zb => (env.buf zb).segment.Control (env.buf zb).len ∧
        ∃ net fuel, tcpInput cfg fuel (s.net.meets env) zb = some net ∧
          s' = s.arrived x (env.buf zb).segment net

/-- **Each completed handshake has one `sock_accept`**: the addresses reported are
    those of the peers, a post waits for each that was not reported, and so does
    a call, unless one made now would. -/
structure Served (s : AcceptState α σ) : Prop where
  order : s.accepted <+: s.completed
  posted : (s.net.sock x).rxSem + s.accepted.length = s.completed.length
  awaited : s.completed.length ≤ s.accepted.length + s.waiting ∨ (sockAccept s.net fd).isSome

/-- The segment in the buffer ends a handshake. -/
def EndsHandshake (s : NetStack α σ) (env : TcpEnv α) (zb : α) : Prop :=
  Reaches x s env zb ∧ (s.sock x).state = .synReceived ∧
    hasFlag (env.buf zb).segment.flags tcpFlagAck = true

/-- A call waits if the segment ends a handshake. -/
def Awaited (s : AcceptState α σ) : AcceptEvent α → Prop
  | .arrive env zb => EndsHandshake x s.net env zb → 0 < s.waiting
  | .call | .resume => True

/-! ## The phases of the socket -/

/-- How far the socket is. -/
inductive AcceptPhase (s : AcceptState α σ) : Prop
  | listening (state : (s.net.sock x).state = .listen) (posts : (s.net.sock x).rxSem = 0)
      (completed : s.completed = []) (accepted : s.accepted = [])
  | opening (state : (s.net.sock x).state = .synReceived)
      (peer : s.peer = some (s.net.sock x).remoteAddr) (posts : (s.net.sock x).rxSem = 0)
      (completed : s.completed = []) (accepted : s.accepted = [])
  | opened (state : (s.net.sock x).state = .established) (posts : (s.net.sock x).rxSem = 1)
      (completed : s.completed = [(s.net.sock x).remoteAddr]) (accepted : s.accepted = [])
  | reported (state : (s.net.sock x).state = .established) (posts : (s.net.sock x).rxSem = 0)
      (completed : s.completed = [(s.net.sock x).remoteAddr])
      (accepted : s.accepted = [(s.net.sock x).remoteAddr])

end

/-! ## Steps -/

section
variable [DecidableEq α] [DecidableEq σ] {cfg : NetConfig α} {x : σ} {fd : ℤ}
  {s s' : AcceptState α σ}

omit [DecidableEq α] [DecidableEq σ] in
/-- `sock_accept` waits exactly on a socket that listens. -/
theorem sockAccept_isSome {net : NetStack α σ} (hfd : net.lookup fd = some x) :
    (sockAccept net fd).isSome ↔ (net.sock x).state = .listen := by
  unfold sockAccept
  rw [hfd]
  by_cases hst : (net.sock x).state = .listen
  · simp [hst]
  · simp [hst]

omit [DecidableEq α] [DecidableEq σ] in
/-- A segment that is neither data nor a FIN leaves a connection open. -/
theorem Conn.receive_control {c : Conn} {seg : TcpSegment} {len : BitVec 16} (ticks n : BitVec 32)
    (hst : c.state = .established) (h : seg.Control len) :
    (c.receive seg len ticks n).state = .established ∧
      (c.receive seg len ticks n).remoteAddr = c.remoteAddr ∧ c.posts seg len = (0, 0) := by
  have htakes : ¬ c.Takes seg len := fun ht => h.1 ht.2.1
  unfold receive posts
  simp only [hst, if_neg htakes, h.2, Bool.false_eq_true, if_false]
  split_ifs
  · exact ⟨hst, rfl, rfl⟩
  · exact ⟨hst, rfl, rfl⟩

omit [DecidableEq α] [DecidableEq σ] in
/-- The socket stays as it is. -/
theorem AcceptPhase.same (h : AcceptPhase x s) (seg : TcpSegment) {net : NetStack α σ}
    (hst : (net.sock x).state = (s.net.sock x).state)
    (hremote : (net.sock x).remoteAddr = (s.net.sock x).remoteAddr)
    (hrx : (net.sock x).rxSem = (s.net.sock x).rxSem) :
    AcceptPhase x (s.arrived x seg net) ∧ (s.arrived x seg net).completed = s.completed := by
  have hcompleted : (s.arrived x seg net).completed = s.completed := by
    refine if_neg ?_
    rintro ⟨h1, h2⟩
    rw [hst, h1] at h2
    cases h2
  refine ⟨?_, hcompleted⟩
  cases h with
  | listening state posts completed accepted =>
    exact .listening (hst.trans state) (hrx.trans posts) (hcompleted.trans completed) accepted
  | opening state peer posts completed accepted =>
    refine .opening (hst.trans state) ?_ (hrx.trans posts) (hcompleted.trans completed) accepted
    have hpeer : (s.arrived x seg net).peer = s.peer := by
      refine if_neg ?_
      rintro ⟨h1, -⟩
      rw [state] at h1
      cases h1
    rw [hpeer, peer]
    exact congrArg some hremote.symm
  | opened state posts completed accepted =>
    refine .opened (hst.trans state) (hrx.trans posts) ?_ accepted
    rw [hcompleted, completed]
    exact congrArg (fun a => [a]) hremote.symm
  | reported state posts completed accepted =>
    refine .reported (hst.trans state) (hrx.trans posts) ?_ ?_
    · rw [hcompleted, completed]
      exact congrArg (fun a => [a]) hremote.symm
    · exact accepted.trans (congrArg (fun a => [a]) hremote.symm)

/-- **A segment arrives**: it starts the handshake or ends it, and otherwise the
    socket stays as it is. -/
theorem AcceptPhase.arrive (h : AcceptPhase x s) {env : TcpEnv α} {zb : α}
    (hs : (acceptLts x cfg fd).step s (.arrive env zb) s') :
    AcceptPhase x s' ∧ s'.waiting = s.waiting ∧ s'.accepted = s.accepted ∧
      (¬ EndsHandshake x s.net env zb ∧ s'.completed = s.completed ∨
        EndsHandshake x s.net env zb ∧ s.completed = [] ∧ s.accepted = [] ∧
          s'.completed.length = 1) := by
  obtain ⟨hcontrol, net, fuel, hinput, rfl⟩ := hs
  have harrive : (tcpLts cfg fun _ => True).step s.net (.arrive env zb) net := ⟨fuel, hinput⟩
  rcases tcpLts_arrive_sock harrive x with ⟨hreach, ⟨n, hconn⟩, hsems⟩ | ⟨hnot, hsock⟩
  swap
  · obtain ⟨hphase, hcompleted⟩ := h.same (env.buf zb).segment
      (by rw [hsock]) (by rw [hsock]) (by rw [hsock])
    exact ⟨hphase, rfl, rfl, .inl ⟨fun he => hnot he.1, hcompleted⟩⟩
  unfold EndsHandshake
  generalize hseg : (env.buf zb).segment = seg at *
  have hstate : (net.sock x).state = _ := congrArg Conn.state hconn
  have hremote : (net.sock x).remoteAddr = _ := congrArg Conn.remoteAddr hconn
  have hrx : (net.sock x).rxSem = _ := congrArg Prod.fst hsems
  have hkeep : (s.net.sock x).conn.receive seg (env.buf zb).len env.ticks n = (s.net.sock x).conn →
      (s.net.sock x).conn.posts seg (env.buf zb).len = (0, 0) →
      AcceptPhase x (s.arrived x seg net) ∧ (s.arrived x seg net).completed = s.completed := by
    intro hc hp
    rw [hc] at hstate hremote
    rw [hp] at hrx
    exact h.same seg hstate hremote hrx
  have hstay : ∀ {P : Prop}, AcceptPhase x (s.arrived x seg net) ∧
      (s.arrived x seg net).completed = s.completed →
      ¬ ((s.net.sock x).state = .synReceived ∧ hasFlag seg.flags tcpFlagAck = true) →
      AcceptPhase x (s.arrived x seg net) ∧ s.waiting = s.waiting ∧ s.accepted = s.accepted ∧
        (¬ (Reaches x s.net env zb ∧ (s.net.sock x).state = .synReceived ∧
            hasFlag seg.flags tcpFlagAck = true) ∧
          (s.arrived x seg net).completed = s.completed ∨ P) :=
    fun h hno => ⟨h.1, rfl, rfl, .inl ⟨fun he => hno he.2, h.2⟩⟩
  cases h with
  | listening state posts completed accepted =>
    have hst : (s.net.sock x).conn.state = .listen := state
    have hp : (s.net.sock x).conn.posts seg (env.buf zb).len = (0, 0) := by rw [Conn.posts, hst]
    have hlisten : (s.net.sock x).state ≠ .synReceived := by
      rw [state]
      decide
    rw [Conn.receive_listen hst] at hstate hremote hkeep
    by_cases hsyn : hasFlag seg.flags tcpFlagSyn = true
    · -- the handshake starts
      rw [if_pos hsyn] at hstate hremote
      rw [hp] at hrx
      have hcompleted : (s.arrived x seg net).completed = s.completed := by
        refine if_neg ?_
        rintro ⟨h1, -⟩
        rw [state] at h1
        cases h1
      have hpeer : (s.arrived x seg net).peer = some (net.sock x).remoteAddr := by
        rw [hremote]
        exact if_pos ⟨state, hstate⟩
      refine hstay ⟨?_, hcompleted⟩ fun he => hlisten he.1
      exact .opening hstate hpeer (hrx.trans posts) (hcompleted.trans completed) accepted
    · rw [if_neg hsyn] at hkeep
      exact hstay (hkeep rfl hp) fun he => hlisten he.1
  | opening state peer posts completed accepted =>
    have hst : (s.net.sock x).conn.state = .synReceived := state
    have hp : (s.net.sock x).conn.posts seg (env.buf zb).len =
      if hasFlag seg.flags tcpFlagAck then (1, 0) else (0, 0) := by rw [Conn.posts, hst]
    rw [Conn.receive_synReceived hst] at hstate hremote hkeep
    by_cases hack : hasFlag seg.flags tcpFlagAck = true
    · -- the handshake ends
      rw [if_pos hack] at hstate hremote hp
      rw [hp] at hrx
      have hcompleted : (s.arrived x seg net).completed = [(net.sock x).remoteAddr] := by
        refine (if_pos ⟨state, hstate⟩).trans ?_
        rw [completed, peer, hremote]
        rfl
      refine ⟨.opened hstate ?_ hcompleted accepted, rfl, rfl,
        .inr ⟨⟨hreach, state, hack⟩, completed, accepted, by rw [hcompleted]; rfl⟩⟩
      exact hrx.trans (congrArg (· + 1) posts)
    · rw [if_neg hack] at hkeep hp
      exact hstay (hkeep rfl hp) fun he => hack he.2
  | opened state posts completed accepted =>
    have hst : (s.net.sock x).conn.state = .established := state
    obtain ⟨hst', hremote', hp⟩ := Conn.receive_control env.ticks n hst hcontrol
    rw [hp] at hrx
    refine hstay ((AcceptPhase.opened state posts completed accepted).same seg
      ((hstate.trans hst').trans state.symm) (hremote.trans hremote') hrx) fun he => ?_
    rw [state] at he
    cases he.1
  | reported state posts completed accepted =>
    have hst : (s.net.sock x).conn.state = .established := state
    obtain ⟨hst', hremote', hp⟩ := Conn.receive_control env.ticks n hst hcontrol
    rw [hp] at hrx
    refine hstay ((AcceptPhase.reported state posts completed accepted).same seg
      ((hstate.trans hst').trans state.symm) (hremote.trans hremote') hrx) fun he => ?_
    rw [state] at he
    cases he.1

omit [DecidableEq α] in
/-- **`sock_accept` returns**: it takes the post of the handshake. -/
theorem AcceptPhase.resume (h : AcceptPhase x s) {net : NetStack α σ} {addr : Sockaddr}
    (hs : sockAcceptResume s.net x = some (net, addr)) :
    s.accepted = [] ∧ AcceptPhase x { s with
      net := net, waiting := s.waiting - 1, accepted := s.accepted ++ [addr] } := by
  obtain ⟨net', hwait, hs⟩ := Option.bind_eq_some_iff.1 hs
  cases hs
  unfold NetStack.waitRx at hwait
  split_ifs at hwait with hzero
  cases hwait
  have hx : ∀ f : Socket α σ → Socket α σ, (s.net.modify x f).sock x = f (s.net.sock x) :=
    fun f => s.net.sock.modify_self x f
  cases h with
  | listening state posts completed accepted => exact absurd posts hzero
  | opening state peer posts completed accepted => exact absurd posts hzero
  | opened state posts completed accepted =>
    refine ⟨accepted, .reported ?_ ?_ ?_ ?_⟩
    · simp only [hx]
      exact state
    · simp only [hx, posts]
    · simp only [hx]
      exact completed
    · simp only [hx, accepted, List.nil_append]
  | reported state posts completed accepted => exact absurd posts hzero

/-! ## Every run -/

omit [DecidableEq α] [DecidableEq σ] in
/-- What is left of `Served`. -/
theorem AcceptPhase.served_iff (h : AcceptPhase x s) (hfd : s.net.lookup fd = some x) :
    Served x fd s ↔ s.completed.length ≤ s.accepted.length + s.waiting := by
  refine ⟨fun hs => ?_, fun hle => ?_⟩
  · rcases hs.awaited with hle | hcall
    · exact hle
    · rw [sockAccept_isSome hfd] at hcall
      cases h with
      | listening state posts completed accepted => simp [completed]
      | opening state peer posts completed accepted => simp [completed]
      | opened state posts completed accepted => rw [state] at hcall; cases hcall
      | reported state posts completed accepted => rw [state] at hcall; cases hcall
  · cases h with
    | listening state posts completed accepted => exact ⟨by simp [accepted], by simp [*], .inl hle⟩
    | opening state peer posts completed accepted =>
      exact ⟨by simp [accepted], by simp [*], .inl hle⟩
    | opened state posts completed accepted => exact ⟨by simp [accepted], by simp [*], .inl hle⟩
    | reported state posts completed accepted => exact ⟨by simp [*], by simp [*], .inl hle⟩

/-- The socket of the descriptor, and its phase. -/
def Accepting (x : σ) (fd : ℤ) (s : AcceptState α σ) : Prop :=
  s.net.lookup fd = some x ∧ AcceptPhase x s

/-- **Step.** -/
theorem Accepting.step (h : Accepting x fd s) {e : AcceptEvent α}
    (hs : (acceptLts x cfg fd).step s e s') :
    Accepting x fd s' ∧ (Served x fd s' ↔ Served x fd s ∧ Awaited x s e) := by
  obtain ⟨hfd, hphase⟩ := h
  cases e with
  | call =>
    obtain rfl := hs
    have hphase' : AcceptPhase x { s with
        waiting := if (sockAccept s.net fd).isSome then s.waiting + 1 else s.waiting } := by
      cases hphase with
      | listening state posts completed accepted => exact .listening state posts completed accepted
      | opening state peer posts completed accepted =>
        exact .opening state peer posts completed accepted
      | opened state posts completed accepted => exact .opened state posts completed accepted
      | reported state posts completed accepted => exact .reported state posts completed accepted
    refine ⟨⟨hfd, hphase'⟩, ?_⟩
    rw [hphase'.served_iff hfd, hphase.served_iff hfd]
    refine Iff.trans ?_ (and_iff_left trivial).symm
    by_cases hcall : (sockAccept s.net fd).isSome
    · -- the socket still listens, so that nothing is completed
      have hlisten := (sockAccept_isSome hfd).1 hcall
      have hnone : s.completed = [] := by
        cases hphase with
        | listening state posts completed accepted => exact completed
        | opening state peer posts completed accepted => exact completed
        | opened state posts completed accepted => rw [state] at hlisten; cases hlisten
        | reported state posts completed accepted => rw [state] at hlisten; cases hlisten
      simp [hnone]
    · simp only [if_neg hcall]
  | resume =>
    obtain ⟨hwaiting, net, addr, hresume, rfl⟩ := hs
    obtain ⟨haccepted, hphase'⟩ := hphase.resume hresume
    have hfd' : net.lookup fd = some x := by
      rw [NetStack.lookup, (SameLinks.sockAcceptResume hresume).socketTable]
      exact hfd
    refine ⟨⟨hfd', hphase'⟩, ?_⟩
    rw [hphase'.served_iff hfd', hphase.served_iff hfd]
    refine Iff.trans ?_ (and_iff_left trivial).symm
    simp only [haccepted, List.nil_append, List.length_singleton, List.length_nil]
    omega
  | arrive env zb =>
    obtain ⟨hphase', hwaiting, haccepted, hcompleted⟩ := hphase.arrive hs
    obtain ⟨-, net, fuel, hinput, rfl⟩ := hs
    have hfd' : net.lookup fd = some x := by
      rw [NetStack.lookup, ((SameLinks.meets s.net env).trans (.tcpInput cfg hinput)).socketTable]
      exact hfd
    refine ⟨⟨hfd', hphase'⟩, ?_⟩
    rw [hphase'.served_iff hfd', hphase.served_iff hfd, hwaiting, haccepted]
    rcases hcompleted with ⟨hends, hcompleted⟩ | ⟨hends, hnone, hempty, hone⟩
    · rw [hcompleted]
      exact (and_iff_left fun he => absurd he hends).symm
    · rw [hone, hnone, hempty]
      simp only [Awaited, hends, List.length_nil, true_imp_iff]
      omega

omit [DecidableEq α] [DecidableEq σ] in
/-- At first nothing is completed. -/
theorem AcceptPhase.served_nil (h : AcceptPhase x s) (hfd : s.net.lookup fd = some x)
    (hcompleted : s.completed = []) : Served x fd s := by
  rw [h.served_iff hfd, hcompleted]
  exact Nat.zero_le _

theorem accepting_init (h : (acceptLts x cfg fd).init s) : Accepting x fd s ∧ Served x fd s := by
  obtain ⟨hfd, hst, hrx, -, hcompleted, haccepted⟩ := h
  have hphase : AcceptPhase x s := .listening hst hrx hcompleted haccepted
  exact ⟨⟨hfd, hphase⟩, hphase.served_nil hfd hcompleted⟩

/-- **When `sock_accept` serves every handshake.**  In every order of calls and
    segments, each completed handshake has one successful `sock_accept` that
    reports the address of its peer, exactly if a call waits whenever a segment
    ends a handshake. -/
theorem sock_accept_served_iff (cfg : NetConfig α) (x : σ) (fd : ℤ) {tr : List (AcceptEvent α)}
    {s : AcceptState α σ} (h : (acceptLts x cfg fd).Run tr s) :
    Served x fd s ↔ ((acceptLts x cfg fd).restrict (Awaited x)).Run tr s := by
  refine h.iff_restrict (I := Accepting x fd) ?_ ?_
  · intro s hinit
    exact accepting_init hinit
  · intro s e s' hacc hs
    exact hacc.step hs

/-! ## Executions -/

variable (cfg x fd) in
/-- A step, with a bound on the walk over the lists of sockets. -/
def acceptExec (fuel : ℕ) (s : AcceptState α σ) : AcceptEvent α → Option (AcceptState α σ)
  | .call => some { s with
      waiting := if (sockAccept s.net fd).isSome then s.waiting + 1 else s.waiting }
  | .resume =>
    if s.waiting = 0 then none
    else (sockAcceptResume s.net x).map fun r =>
      { s with net := r.1, waiting := s.waiting - 1, accepted := s.accepted ++ [r.2] }
  | .arrive env zb =>
    if (env.buf zb).segment.Control (env.buf zb).len then
      (tcpInput cfg fuel (s.net.meets env) zb).map (s.arrived x (env.buf zb).segment)
    else none

theorem acceptExec_step {fuel : ℕ} (s : AcceptState α σ) (e : AcceptEvent α) (s' : AcceptState α σ)
    (h : acceptExec cfg x fd fuel s e = some s') : (acceptLts x cfg fd).step s e s' := by
  cases e with
  | call => exact (Option.some.inj h).symm
  | resume =>
    simp only [acceptExec] at h
    split_ifs at h with hzero
    obtain ⟨⟨net, addr⟩, hresume, rfl⟩ := Option.map_eq_some_iff.1 h
    exact ⟨Nat.pos_of_ne_zero hzero, net, addr, hresume, rfl⟩
  | arrive env zb =>
    simp only [acceptExec] at h
    split_ifs at h with hcontrol
    obtain ⟨net, hinput, rfl⟩ := Option.map_eq_some_iff.1 h
    exact ⟨hcontrol, net, fuel, hinput, rfl⟩

end

/-- The descriptor 0 is that of the socket 0, which listens on port 80; the
    hardware address of `10.0.0.2` is known. -/
def demoAcceptor : AcceptState (Fin 2) (Fin 2) where
  net := { demoStack with
    arpCache := [⟨0x0A000002, fun _ => 4, true⟩]
    tcpListenList := some 0
    socketTable := fun i => if i = 0 then some 0 else none
    sock := fun _ => { demoSocket with state := .listen } }
  waiting := 0
  peer := none
  completed := []
  accepted := []

/-- A segment of `10.0.0.2` without data, while another buffer is free. -/
def demoControl (flags : BitVec 8) : AcceptEvent (Fin 2) :=
  .arrive ⟨{ demoStack.pool with
    zb := fun zb => if zb = 0 then demoSegment 0x0A000002 8080 80 0 0 flags [] else demoZbuf
    freeList := some 1 }, 0⟩ 0

/-- A call waits, and then a client connects. -/
def demoAccepts : List (AcceptEvent (Fin 2)) :=
  [.call, demoControl tcpFlagSyn, demoControl tcpFlagAck, .resume]

/-- A client connects before `sock_accept` is called. -/
def demoEarly : List (AcceptEvent (Fin 2)) :=
  [demoControl tcpFlagSyn, demoControl tcpFlagAck, .call]

theorem demoAccepts_runs :
    (Lib.Lts.exec (acceptExec demoNet 0 0 2) demoAcceptor demoAccepts).isSome := by
  decide +kernel

theorem demoEarly_runs :
    (Lib.Lts.exec (acceptExec demoNet 0 0 2) demoAcceptor demoEarly).isSome := by
  decide +kernel

theorem demoAcceptor_init : (acceptLts (0 : Fin 2) demoNet 0).init demoAcceptor :=
  ⟨rfl, rfl, rfl, rfl, rfl, rfl⟩

/-- A call that waits is served. -/
theorem sock_accept_served_waiting : ∃ s, (acceptLts (0 : Fin 2) demoNet 0).Run demoAccepts s ∧
    s.accepted = [⟨0x0A000002, 8080⟩] ∧
    (Served 0 0 s ↔ ((acceptLts 0 demoNet 0).restrict (Awaited 0)).Run demoAccepts s) := by
  have hrun := Lib.Lts.run_of_exec acceptExec_step demoAcceptor_init
    (Option.some_get demoAccepts_runs).symm
  exact ⟨_, hrun, by decide +kernel, sock_accept_served_iff demoNet 0 0 hrun⟩

/-- **A handshake without `sock_accept`**: the client that connected before the
    call is not accepted, and the call returns -1. -/
theorem sock_accept_not_served : ∃ s, (acceptLts (0 : Fin 2) demoNet 0).Run demoEarly s ∧
    s.completed = [⟨0x0A000002, 8080⟩] ∧ s.accepted = [] ∧ s.waiting = 0 ∧ ¬ Served 0 0 s := by
  have hrun := Lib.Lts.run_of_exec acceptExec_step demoAcceptor_init
    (Option.some_get demoEarly_runs).symm
  refine ⟨_, hrun, by decide +kernel, by decide +kernel, by decide +kernel, fun hserved => ?_⟩
  have hawaited := hserved.awaited
  revert hawaited
  decide +kernel

end Gracemont
