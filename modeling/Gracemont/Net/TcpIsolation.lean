/-
  Gracemont networking — isolation of connections.

  The list of connections is searched with all addresses of a segment, the list
  of listening sockets with its port only.  A listening socket becomes its own
  connection and stays on that list, so that segments of anybody get to it.

  * `Conn.Heeds`: the segments that change a connection;
  * `Demuxed`: no segment of another peer is heeded that way;
  * `tcp_isolation`: then segments of other peers change no connection.
-/
import Gracemont.Net.TcpRun

namespace Gracemont

variable {α σ : Type}

/-! ## Segments that matter -/

namespace Conn
variable (seg : TcpSegment) (len : BitVec 16)

/-- A segment of `len` bytes changes the connection, or what it has received. -/
def Heeds (c : Conn) : Prop :=
  match c.state with
  | .listen => hasFlag seg.flags tcpFlagSyn
  | .synSent => seg.flags &&& (tcpFlagSyn ||| tcpFlagAck) = tcpFlagSyn ||| tcpFlagAck
  | .synReceived | .finWait1 | .lastAck => hasFlag seg.flags tcpFlagAck
  | .established => hasFlag seg.flags tcpFlagAck ∧ seg.ack ≠ c.sndUna ∨ c.Takes seg len ∨
      hasFlag seg.flags tcpFlagFin
  | .finWait2 => hasFlag seg.flags tcpFlagFin
  | .closeWait | .timeWait | .closed | .closing => False

variable {seg len} {c : Conn} (ticks n : BitVec 32)

theorem not_takes_of_not_heeds (h : ¬ c.Heeds seg len) : ¬ c.Takes seg len := by
  intro htakes
  refine h ?_
  rw [Heeds, htakes.1]
  exact .inr (.inl htakes)

theorem receive_of_not_heeds (h : ¬ c.Heeds seg len) : c.receive seg len ticks n = c := by
  have htakes := not_takes_of_not_heeds h
  unfold Heeds at h
  obtain ⟨st, hst⟩ : ∃ st, c.state = st := ⟨_, rfl⟩
  rw [hst] at h
  cases st with
  | listen => rw [receive_listen hst, if_neg h]
  | synSent => rw [receive_synSent hst, if_neg h]
  | synReceived => rw [receive_synReceived hst, if_neg h]
  | established =>
    obtain ⟨hack, hrest⟩ := not_or.1 h
    obtain ⟨-, hfin⟩ := not_or.1 hrest
    rw [receive_established hst]
    simp only [if_neg htakes, if_neg hfin]
    split_ifs with ha
    · have huna : seg.ack = c.sndUna := by
        by_contra hne
        exact hack ⟨ha, hne⟩
      rw [acked, huna]
    · rfl
  | finWait1 => rw [receive_finWait1 hst, if_neg h]
  | finWait2 => rw [receive_finWait2 hst, if_neg h]
  | lastAck => rw [receive_lastAck hst, if_neg h]
  | closeWait | timeWait | closed | closing => rw [receive, hst]

end Conn

/-! ## The law -/

section
variable [DecidableEq σ]

/-- A segment changes no connection of another peer. -/
def Isolated (s : NetStack α σ) (e : TcpEvent α σ) (s' : NetStack α σ) : Prop :=
  match e with
  | .arrive env zb => ∀ x, (s.sock x).state ≠ .listen →
      matchesConn (env.buf zb).segment (s.sock x) = false →
      (s'.sock x).conn = (s.sock x).conn ∧ (s'.sock x).rxQueue = (s.sock x).rxQueue ∧
        s'.inbox x = s.inbox x
  | .send _ _ _ _ => True

/-- A segment that gets to a connection by its port only does not change it,
    or is of its peer. -/
def Demuxed [DecidableEq α] (s : NetStack α σ) : TcpEvent α σ → Prop
  | .arrive env zb => (env.buf zb).Intact →
      NoMatch s (matchesConn (env.buf zb).segment) s.tcpConnList →
      ∀ x, FirstMatch s (fun k => k.localAddr.port = (env.buf zb).segment.dstPort)
          s.tcpListenList x →
        (s.sock x).state ≠ .listen → (s.sock x).conn.Heeds (env.buf zb).segment (env.buf zb).len →
          matchesConn (env.buf zb).segment (s.sock x) = true
  | .send _ _ _ _ => True

end

/-! ## Runs -/

section
variable [DecidableEq α] [DecidableEq σ] {cfg : NetConfig α} {init : NetStack α σ → Prop}
  {s s' : NetStack α σ}

/-- **Step.** -/
theorem Isolated.step {e : TcpEvent α σ} (he : Demuxed s e) (hs : (tcpLts cfg init).step s e s') :
    Isolated s e s' := by
  cases e with
  | send env sock flags data => trivial
  | arrive env zb =>
    intro x hst hother
    have hsame : Untouched x s s' → (s'.sock x).conn = (s.sock x).conn ∧
        (s'.sock x).rxQueue = (s.sock x).rxQueue ∧ s'.inbox x = s.inbox x := by
      intro hu
      exact ⟨by rw [hu.sock], by rw [hu.sock], hu.inbox⟩
    rcases tcpLts_arrive hs with hu | ⟨y, n, -, ⟨hz, fuel, hfind⟩, hconn, hinbox, hrx, hothers⟩
    · exact hsame (hu x)
    by_cases hx : x = y
    swap
    · exact hsame (hothers x hx)
    subst hx
    have hheeds : ¬ (s.sock x).conn.Heeds (env.buf zb).segment (env.buf zb).len := by
      rcases tcpFindSocket_some hfind with ⟨l, -, -, hmatch⟩ | ⟨hno, hfirst⟩
      · -- found on the list of connections
        exact absurd (hother.symm.trans hmatch) Bool.false_ne_true
      · intro hheeds
        exact absurd (hother.symm.trans (he hz hno x hfirst hst hheeds)) Bool.false_ne_true
    have htakes := Conn.not_takes_of_not_heeds hheeds
    rw [Conn.receive_of_not_heeds _ _ hheeds] at hconn
    rw [if_neg htakes, List.append_nil] at hinbox
    exact ⟨hconn, hrx htakes, hinbox⟩

/-- **Isolation.**  If segments that get to a connection by its port only are of
    its peer or change nothing, then in every run, from any sockets, segments of
    other peers change no connection. -/
theorem tcp_isolation {tr : List (TcpEvent α σ)}
    {steps : List (NetStack α σ × TcpEvent α σ × NetStack α σ)}
    (h : ((tcpLts cfg init).restrict Demuxed).history.Run tr (s, steps)) :
    ∀ w ∈ steps, Isolated w.1 w.2.1 w.2.2 := by
  have hinv := h.history_rule (I := fun _ => True) (P := Isolated) ?_ ?_
  · exact hinv.2
  · intro s _
    trivial
  · intro s e s' _ hs
    exact ⟨trivial, .step hs.1 hs.2⟩

end

/-- A connection of `10.0.0.2`, and a FIN of `10.0.0.3`. -/
def demoStranger : TcpEvent (Fin 2) (Fin 2) :=
  demoArrive (demoSegment 0x0A000003 8080 80 0 0 (tcpFlagAck ||| tcpFlagFin) [])

theorem demoStranger_runs :
    (tcpExecStep demoNet 2 (demoConn .established 0 0 0) demoStranger).isSome := by
  decide

theorem tcp_isolation_stranger : ∃ s' : NetStack (Fin 2) (Fin 2),
    Isolated (demoConn .established 0 0 0) demoStranger s' := by
  generalize hs₁ : (tcpExecStep demoNet 2 (demoConn .established 0 0 0) demoStranger).get
    demoStranger_runs = s₁
  have hstep : (tcpLts demoNet fun _ => True).step (demoConn .established 0 0 0) demoStranger s₁ := by
    rw [← hs₁]
    exact tcpLts_step (Option.some_get demoStranger_runs).symm
  have hok : Demuxed (demoConn .established 0 0 0) demoStranger := by
    -- nobody listens
    rintro - - x ⟨l, hspan, -, -⟩
    rcases l with _ | ⟨y, l⟩
    · cases hspan
    · cases hspan.1
  have hrun : ((tcpLts demoNet fun _ => True).restrict Demuxed).history.Run [demoStranger] _ :=
    (Lib.Lts.Run.start_history trivial).snoc_history ⟨hok, hstep⟩
  exact ⟨s₁, tcp_isolation hrun _ (List.mem_singleton_self _)⟩

/-- The socket 0 listens on port 80. -/
def demoListen : NetStack (Fin 2) (Fin 2) :=
  { demoStack with
    tcpListenList := some 0
    sock := fun _ => { demoSocket with state := .listen } }

/-- `10.0.0.2` opens a connection, and `10.0.0.3` acknowledges it. -/
def demoOpening : TcpEvent (Fin 2) (Fin 2) :=
  demoArrive (demoSegment 0x0A000002 8080 80 0 0 tcpFlagSyn [])
def demoForgedAck : TcpEvent (Fin 2) (Fin 2) :=
  demoArrive (demoSegment 0x0A000003 9999 80 0 0 tcpFlagAck [])

theorem demoOpening_runs : (tcpExecStep demoNet 2 demoListen demoOpening).isSome := by decide

theorem demoForgedAck_runs : (tcpExecStep demoNet 2
    ((tcpExecStep demoNet 2 demoListen demoOpening).get demoOpening_runs) demoForgedAck).isSome := by
  decide +kernel

theorem tcp_not_isolated : ¬ ∀ (tr : List (TcpEvent (Fin 2) (Fin 2))) s steps,
    (tcpLts demoNet fun s => s = demoListen).history.Run tr (s, steps) →
      ∀ w ∈ steps, Isolated w.1 w.2.1 w.2.2 := by
  intro h
  have hstep₁ : (tcpLts demoNet fun s => s = demoListen).step demoListen demoOpening _ :=
    tcpLts_step (Option.some_get demoOpening_runs).symm
  have hstep₂ : (tcpLts demoNet fun s => s = demoListen).step _ demoForgedAck _ :=
    tcpLts_step (Option.some_get demoForgedAck_runs).symm
  have hrun := ((Lib.Lts.Run.start_history rfl).snoc_history hstep₁).snoc_history hstep₂
  have hlaw := h _ _ _ hrun _ (List.mem_append_right _ (List.mem_singleton_self _)) 0
    (by decide +kernel) (by decide +kernel)
  exact absurd (congrArg Conn.state hlaw.1) (by decide +kernel)

end Gracemont
