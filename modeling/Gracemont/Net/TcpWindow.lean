/-
  Gracemont networking — the send window.

  `snd_una` and `snd_nxt` are counters modulo `2 ^ 32`.  The ghost counts without
  the modulus: what was acknowledged and what was sent on a connection.  The
  state machine stores the acknowledgment number of a segment as it is, and goes
  on to the next state for any.

  * `SendGhost`, `SendCounts`: the counts, and that the socket has them;
  * `AckInWindow`: acknowledgments that are acted on are of what was sent, and
    those that are stored are not behind `snd_una`;
  * `tcp_send_window`: then `snd_una` moves forward up to `snd_nxt`, and other
    acknowledgments change nothing.
-/
import Gracemont.Net.TcpRun

namespace Gracemont

variable {α σ : Type}

/-! ## Acknowledgments -/

namespace Conn
variable (seg : TcpSegment)

/-- A segment with an acknowledgment moves the connection or `snd_una`. -/
def ActsOnAck (c : Conn) : Prop :=
  match c.state with
  | .listen => hasFlag seg.flags tcpFlagSyn
  | .synSent => seg.flags &&& (tcpFlagSyn ||| tcpFlagAck) = tcpFlagSyn ||| tcpFlagAck
  | .synReceived | .established | .finWait1 | .lastAck => True
  | .finWait2 => hasFlag seg.flags tcpFlagFin
  | .closeWait | .timeWait | .closed | .closing => False

/-- The state is one that stores the acknowledgment. -/
def StoresAck (c : Conn) : Prop :=
  c.state = .synSent ∨ c.state = .synReceived ∨ c.state = .established ∨ c.state = .finWait1

instance (c : Conn) : Decidable c.StoresAck := inferInstanceAs (Decidable (_ ∨ _))

/-- The acknowledgment lies between `snd_una` and `snd_nxt`. -/
def InWindow (c : Conn) : Prop := (seg.ack - c.sndUna).toNat ≤ (c.sndNxt - c.sndUna).toNat

/-- A connection begins to send. -/
def Opened (c c' : Conn) : Prop := c.state = .listen ∧ c'.state = .synReceived

instance (c c' : Conn) : Decidable (c.Opened c') := inferInstanceAs (Decidable (_ ∧ _))

variable {seg} {c : Conn} (len : BitVec 16) (ticks n : BitVec 32)

theorem receive_of_not_actsOnAck (h : ¬ c.ActsOnAck seg) : c.receive seg len ticks n = c := by
  unfold ActsOnAck at h
  obtain ⟨st, hst⟩ : ∃ st, c.state = st := ⟨_, rfl⟩
  rw [hst] at h
  cases st with
  | listen => rw [receive_listen hst, if_neg h]
  | synSent => rw [receive_synSent hst, if_neg h]
  | finWait2 => rw [receive_finWait2 hst, if_neg h]
  | synReceived | established | finWait1 | lastAck => exact absurd trivial h
  | closeWait | timeWait | closed | closing => rw [receive, hst]

/-- After a SYN and an acknowledgment. -/
theorem hasFlag_ack_of_synAck {flags : BitVec 8}
    (h : flags &&& (tcpFlagSyn ||| tcpFlagAck) = tcpFlagSyn ||| tcpFlagAck) :
    hasFlag flags tcpFlagAck = true := by
  revert h
  revert flags
  decide

/-- What a segment does to the window. -/
theorem receive_window (h : ¬ c.Opened (c.receive seg len ticks n)) :
    (c.receive seg len ticks n).sndNxt = c.sndNxt ∧
      ((c.receive seg len ticks n).sndUna = c.sndUna ∨
        hasFlag seg.flags tcpFlagAck = true ∧ c.ActsOnAck seg ∧ c.StoresAck ∧
          (c.receive seg len ticks n).sndUna = seg.ack) := by
  unfold Opened at h
  unfold ActsOnAck StoresAck
  obtain ⟨st, hst⟩ : ∃ st, c.state = st := ⟨_, rfl⟩
  rw [hst]
  cases st with
  | listen =>
    rw [receive_listen hst] at h ⊢
    split_ifs at h ⊢ <;> simp_all
  | synSent =>
    rw [receive_synSent hst]
    split_ifs with hsyn
    · refine ⟨rfl, .inr ⟨hasFlag_ack_of_synAck hsyn, hsyn, .inl rfl, rfl⟩⟩
    · exact ⟨rfl, .inl rfl⟩
  | synReceived =>
    rw [receive_synReceived hst]
    split_ifs with hack
    · exact ⟨rfl, .inr ⟨hack, trivial, .inr (.inl rfl), rfl⟩⟩
    · exact ⟨rfl, .inl rfl⟩
  | established =>
    rw [receive_established hst]
    by_cases hack : hasFlag seg.flags tcpFlagAck = true
    · simp only [if_pos hack]
      split_ifs <;> exact ⟨rfl, .inr ⟨hack, trivial, .inr (.inr (.inl trivial)), rfl⟩⟩
    · simp only [if_neg hack]
      split_ifs <;> exact ⟨rfl, .inl rfl⟩
  | finWait1 =>
    rw [receive_finWait1 hst]
    by_cases hack : hasFlag seg.flags tcpFlagAck = true
    · rw [if_pos hack]
      split_ifs <;> exact ⟨rfl, .inr ⟨hack, trivial, .inr (.inr (.inr rfl)), rfl⟩⟩
    · rw [if_neg hack]
      exact ⟨rfl, .inl rfl⟩
  | finWait2 => rw [receive_finWait2 hst]; split_ifs <;> exact ⟨rfl, .inl rfl⟩
  | lastAck => rw [receive_lastAck hst]; split_ifs <;> exact ⟨rfl, .inl rfl⟩
  | closeWait | timeWait | closed | closing => rw [receive, hst]; exact ⟨rfl, .inl rfl⟩

end Conn

/-! ## The law -/

/-- Of the connection of a socket: the sequence number at which it began to send,
    how much was acknowledged since then, and how much was sent. -/
structure SendGhost where
  base : BitVec 32
  acked : ℕ
  sent : ℕ

/-- The counts, in sequence space. -/
def SendGhost.una (g : SendGhost) : BitVec 32 := g.base + BitVec.ofNat 32 g.acked
def SendGhost.nxt (g : SendGhost) : BitVec 32 := g.base + BitVec.ofNat 32 g.sent

/-- The segment acknowledges what was never sent. -/
def SendGhost.NeverSent (g : SendGhost) (c : Conn) (seg : TcpSegment) : Prop :=
  hasFlag seg.flags tcpFlagAck ∧
    (c.state = .listen ∨ ∀ k ≤ g.sent, seg.ack ≠ g.base + BitVec.ofNat 32 k)

section
variable (x : σ)

/-- The counts from here on. -/
def SendGhost.here (s : NetStack α σ) : SendGhost :=
  ⟨(s.sock x).sndUna, 0, ((s.sock x).sndNxt - (s.sock x).sndUna).toNat⟩

def SendGhost.next (s : NetStack α σ) (_ : TcpEvent α σ) (s' : NetStack α σ) (g : SendGhost) :
    SendGhost :=
  if (s.sock x).conn.Opened (s'.sock x).conn then .here x s'
  else
    { g with
      acked := g.acked + ((s'.sock x).sndUna - (s.sock x).sndUna).toNat
      sent := g.sent + ((s'.sock x).sndNxt - (s.sock x).sndNxt).toNat }

/-- The socket has the counts; no more is acknowledged than was sent. -/
structure SendCounts (s : NetStack α σ) (g : SendGhost) : Prop where
  una : (s.sock x).sndUna = g.una
  nxt : (s.sock x).sndNxt = g.nxt
  acked_le : g.acked ≤ g.sent

/-- Between `s` and `s'`, the socket begins to send, or `snd_una` moves forward
    up to `snd_nxt`. -/
def UnaForward (s s' : NetStack α σ) : Prop :=
  (s.sock x).conn.Opened (s'.sock x).conn ∨
    ((s'.sock x).sndUna - (s.sock x).sndUna).toNat ≤ ((s'.sock x).sndNxt - (s.sock x).sndUna).toNat

/-- Acknowledging what was never sent changes neither `snd_una` nor the state. -/
def IgnoresAck (p : NetStack α σ × SendGhost) (e : TcpEvent α σ) (s' : NetStack α σ) : Prop :=
  match e with
  | .arrive env zb => p.2.NeverSent (p.1.sock x).conn (env.buf zb).segment →
      (s'.sock x).sndUna = (p.1.sock x).sndUna ∧ (s'.sock x).state = (p.1.sock x).state
  | .send _ _ _ _ => True

/-- An acknowledgment that gets to the socket and is acted on is in the window if
    it is stored, and otherwise of something that was sent. -/
def AckInWindow [DecidableEq α] (p : NetStack α σ × SendGhost) : TcpEvent α σ → Prop
  | .arrive env zb => Reaches x p.1 env zb → hasFlag (env.buf zb).segment.flags tcpFlagAck = true →
      (p.1.sock x).conn.ActsOnAck (env.buf zb).segment →
        if (p.1.sock x).conn.StoresAck then (p.1.sock x).conn.InWindow (env.buf zb).segment
        else ¬ p.2.NeverSent (p.1.sock x).conn (env.buf zb).segment
  | .send _ _ _ _ => True

end

/-! ## Sequence space -/

theorem seq_add (base : BitVec 32) (a : ℕ) (d : BitVec 32) :
    base + BitVec.ofNat 32 a + d = base + BitVec.ofNat 32 (a + d.toNat) := by
  rw [BitVec.ofNat_add, BitVec.ofNat_toNat, ← BitVec.add_assoc]
  simp

/-- The distance of two counters is at most that of the counts. -/
theorem seq_sub_le (base : BitVec 32) {a b : ℕ} (h : a ≤ b) :
    (base + BitVec.ofNat 32 b - (base + BitVec.ofNat 32 a)).toNat ≤ b - a := by
  have hb : base + BitVec.ofNat 32 b = base + BitVec.ofNat 32 a + BitVec.ofNat 32 (b - a) := by
    rw [BitVec.add_assoc, ← BitVec.ofNat_add, Nat.add_sub_of_le h]
  rw [hb, BitVec.add_comm, BitVec.add_sub_cancel, BitVec.toNat_ofNat]
  exact Nat.mod_le _ _

theorem seq_add_sub (a b : BitVec 32) : a + (b - a) = b := by
  rw [BitVec.add_comm, BitVec.sub_add_cancel]

/-! ## Runs -/

section
variable {x : σ} {s s' : NetStack α σ} {g : SendGhost}

theorem SendCounts.here (x : σ) (s : NetStack α σ) : SendCounts x s (.here x s) := by
  refine ⟨?_, ?_, Nat.zero_le _⟩
  · exact (BitVec.add_zero _).symm
  · rw [SendGhost.nxt, SendGhost.here, BitVec.ofNat_toNat, BitVec.setWidth_eq]
    exact (seq_add_sub _ _).symm

theorem SendGhost.una_next (h : ¬ (s.sock x).conn.Opened (s'.sock x).conn)
    (hu : (s.sock x).sndUna = g.una) (e : TcpEvent α σ) :
    (s'.sock x).sndUna = (g.next x s e s').una := by
  rw [next, if_neg h, una, ← seq_add]
  show _ = g.una + _
  rw [← hu]
  exact (seq_add_sub _ _).symm

theorem SendGhost.nxt_next (h : ¬ (s.sock x).conn.Opened (s'.sock x).conn)
    (hn : (s.sock x).sndNxt = g.nxt) (e : TcpEvent α σ) :
    (s'.sock x).sndNxt = (g.next x s e s').nxt := by
  rw [next, if_neg h, nxt, ← seq_add]
  show _ = g.nxt + _
  rw [← hn]
  exact (seq_add_sub _ _).symm

/-- `snd_una` moves in the window. -/
theorem SendCounts.moves (h : SendCounts x s g)
    (hle : ¬ (s.sock x).conn.Opened (s'.sock x).conn →
      ((s'.sock x).sndUna - (s.sock x).sndUna).toNat ≤
        ((s.sock x).sndNxt - (s.sock x).sndUna).toNat) (e : TcpEvent α σ) :
    SendCounts x s' (g.next x s e s') := by
  by_cases hopen : (s.sock x).conn.Opened (s'.sock x).conn
  · rw [SendGhost.next, if_pos hopen]
    exact .here x s'
  refine ⟨SendGhost.una_next hopen h.una e, SendGhost.nxt_next hopen h.nxt e, ?_⟩
  rw [SendGhost.next, if_neg hopen]
  have hwin := hle hopen
  have hdist : ((s.sock x).sndNxt - (s.sock x).sndUna).toNat ≤ g.sent - g.acked := by
    rw [h.una, h.nxt]
    exact seq_sub_le g.base h.acked_le
  have hacked := h.acked_le
  simp only
  omega

/-- What lies in the window was sent. -/
theorem SendCounts.not_neverSent (h : SendCounts x s g) {seg : TcpSegment}
    (hst : (s.sock x).state ≠ .listen) (hwin : (s.sock x).conn.InWindow seg) :
    ¬ g.NeverSent (s.sock x).conn seg := by
  rintro ⟨-, hlisten | hnever⟩
  · exact hst hlisten
  have hdist : ((s.sock x).sndNxt - (s.sock x).sndUna).toNat ≤ g.sent - g.acked := by
    rw [h.una, h.nxt]
    exact seq_sub_le g.base h.acked_le
  have hacked := h.acked_le
  have hle : (seg.ack - (s.sock x).sndUna).toNat ≤ _ := hwin.trans hdist
  refine hnever (g.acked + (seg.ack - (s.sock x).sndUna).toNat) (by omega) ?_
  rw [← seq_add]
  show _ = g.una + _
  rw [← h.una]
  exact (seq_add_sub _ _).symm

variable [DecidableEq α] [DecidableEq σ] {cfg : NetConfig α} {init : NetStack α σ → Prop}

/-- **Step.** -/
theorem SendCounts.step (h : SendCounts x s g) {e : TcpEvent α σ} (he : AckInWindow x (s, g) e)
    (hs : (tcpLts cfg init).step s e s') :
    SendCounts x s' (g.next x s e s') ∧ UnaForward x s s' ∧ IgnoresAck x (s, g) e s' := by
  have hstill : (s'.sock x).sndUna = (s.sock x).sndUna →
      SendCounts x s' (g.next x s e s') ∧ UnaForward x s s' := by
    intro hu
    have hzero : ((s'.sock x).sndUna - (s.sock x).sndUna).toNat = 0 := by
      rw [hu, BitVec.sub_self]
      rfl
    refine ⟨h.moves (fun _ => ?_) e, .inr ?_⟩
    all_goals
      rw [hzero]
      exact Nat.zero_le _
  cases e with
  | send env sock flags data =>
    obtain ⟨hothers, -, n, hsock⟩ := tcpLts_send hs
    have hu : (s'.sock x).sndUna = (s.sock x).sndUna := by
      by_cases hx : x = sock
      · subst hx
        rw [hsock]
      · rw [(hothers x hx).sock]
    obtain ⟨hcounts, hforward⟩ := hstill hu
    exact ⟨hcounts, hforward, trivial⟩
  | arrive env zb =>
    have hsame : Untouched x s s' → SendCounts x s' (g.next x s (.arrive env zb) s') ∧
        UnaForward x s s' ∧ IgnoresAck x (s, g) (.arrive env zb) s' := by
      intro hu
      obtain ⟨hcounts, hforward⟩ := hstill (by rw [hu.sock])
      exact ⟨hcounts, hforward, fun _ => ⟨by rw [hu.sock], by rw [hu.sock]⟩⟩
    rcases tcpLts_arrive hs with hu | ⟨y, n, -, hreach, hconn, -, -, hothers⟩
    · exact hsame (hu x)
    by_cases hx : x = y
    swap
    · exact hsame (hothers x hx)
    subst hx
    have hignores : g.NeverSent (s.sock x).conn (env.buf zb).segment →
        ¬ (s.sock x).conn.ActsOnAck (env.buf zb).segment := by
      intro hnever hacts
      have hok := he hreach hnever.1 hacts
      split_ifs at hok with hstores
      · refine h.not_neverSent (fun hst => ?_) hok hnever
        have hlisten : (s.sock x).conn.state = .listen := hst
        simp [Conn.StoresAck, hlisten] at hstores
      · exact hok hnever
    have hforward : ¬ (s.sock x).conn.Opened (s'.sock x).conn →
        (s'.sock x).sndNxt = (s.sock x).sndNxt ∧
          ((s'.sock x).sndUna - (s.sock x).sndUna).toNat ≤
            ((s.sock x).sndNxt - (s.sock x).sndUna).toNat := by
      intro hopen
      rw [hconn] at hopen
      obtain ⟨hnxt, huna⟩ := Conn.receive_window _ _ _ hopen
      rw [← hconn] at hnxt huna
      refine ⟨hnxt, ?_⟩
      rcases huna with huna | ⟨hack, hacts, hstores, huna⟩
      · have huna' : (s'.sock x).sndUna = (s.sock x).sndUna := huna
        rw [huna', BitVec.sub_self]
        exact Nat.zero_le _
      · have huna' : (s'.sock x).sndUna = (env.buf zb).segment.ack := huna
        have hok := he hreach hack hacts
        rw [if_pos hstores] at hok
        rw [huna']
        exact hok
    refine ⟨h.moves (fun hopen => (hforward hopen).2) _, ?_, ?_⟩
    · by_cases hopen : (s.sock x).conn.Opened (s'.sock x).conn
      · exact .inl hopen
      · obtain ⟨hnxt, hle⟩ := hforward hopen
        refine .inr ?_
        rw [hnxt]
        exact hle
    · intro hnever
      rw [Conn.receive_of_not_actsOnAck _ _ _ (hignores hnever)] at hconn
      exact ⟨congrArg Conn.sndUna hconn, congrArg Conn.state hconn⟩

/-- **The send window.**  If acknowledgments that are acted on are in the window,
    or of something that was sent, then in every run of arrivals and sends, from
    any socket with any past, each step moves `snd_una` forward up to `snd_nxt`,
    and acknowledging what was never sent changes nothing. -/
theorem tcp_send_window {start : NetStack α σ → SendGhost}
    (hstart : ∀ s, init s → SendCounts x s (start s)) {tr : List (TcpEvent α σ)}
    {p : NetStack α σ × SendGhost}
    {steps : List ((NetStack α σ × SendGhost) × TcpEvent α σ × NetStack α σ × SendGhost)}
    (h : (((tcpLts cfg init).track start (SendGhost.next x)).restrict (AckInWindow x)).history.Run
      tr (p, steps)) :
    SendCounts x p.1 p.2 ∧
      ∀ w ∈ steps, UnaForward x w.1.1 w.2.2.1 ∧ IgnoresAck x w.1 w.2.1 w.2.2.1 := by
  refine h.history_rule (I := fun p => SendCounts x p.1 p.2)
    (P := fun p e p' => UnaForward x p.1 p'.1 ∧ IgnoresAck x p e p'.1) ?_ ?_
  · intro p h0
    rw [h0.2]
    exact hstart p.1 h0.1
  · intro p e p' hp hs
    obtain ⟨he, hstep, hg⟩ := hs
    rw [hg]
    exact hp.step he hstep

end

/-- Three bytes were sent, and two are acknowledged; `snd_una` wraps around. -/
def demoSent : NetStack (Fin 2) (Fin 2) := demoConn .established 0xFFFFFFFE 1 0
def demoAck : TcpEvent (Fin 2) (Fin 2) :=
  demoArrive (demoSegment 0x0A000002 8080 80 0 0 tcpFlagAck [])

theorem demoAck_runs : (tcpExecStep demoNet 2 demoSent demoAck).isSome := by decide +kernel

theorem tcp_send_window_wraps : ∃ (s : NetStack (Fin 2) (Fin 2)) (g : SendGhost),
    (s.sock 0).sndUna = 0 ∧ g.acked = 2 ∧ g.sent = 3 ∧ SendCounts 0 s g := by
  have hstep : (tcpLts demoNet fun _ => True).step demoSent demoAck _ :=
    tcpLts_step (Option.some_get demoAck_runs).symm
  have hok : AckInWindow 0 (demoSent, .here 0 demoSent) demoAck := by
    intro _ _ _
    rw [if_pos (by decide +kernel), Conn.InWindow]
    decide +kernel
  have hstep' : ((tcpLts demoNet fun _ => True).track (SendGhost.here 0) (SendGhost.next 0)).step
      (demoSent, .here 0 demoSent) demoAck _ := Lib.Lts.track_step hstep _
  have hstart : (((tcpLts demoNet fun _ => True).track (SendGhost.here 0)
      (SendGhost.next 0)).restrict (AckInWindow 0)).history.Run []
      ((demoSent, .here 0 demoSent), []) :=
    .start_history (Lib.Lts.track_init _ (SendGhost.next 0) trivial)
  have hrun := hstart.snoc_history ⟨hok, hstep'⟩
  refine ⟨_, _, ?_, ?_, ?_, (tcp_send_window (fun s _ => .here 0 s) hrun).1⟩
  all_goals decide +kernel

/-- Nothing was sent, and `0x12345` is acknowledged. -/
def demoBogusAck : TcpEvent (Fin 2) (Fin 2) :=
  demoArrive (demoSegment 0x0A000002 8080 80 0 0x12345 tcpFlagAck [])

theorem demoBogusAck_runs :
    (tcpExecStep demoNet 2 (demoConn .established 0 0 0) demoBogusAck).isSome := by
  decide +kernel

theorem tcp_send_window_broken : ¬ ∀ (tr : List (TcpEvent (Fin 2) (Fin 2))) p steps,
    ((tcpLts demoNet fun s => s = demoConn .established 0 0 0).track (SendGhost.here 0)
      (SendGhost.next 0)).history.Run tr (p, steps) →
    SendCounts 0 p.1 p.2 ∧
      ∀ w ∈ steps, UnaForward 0 w.1.1 w.2.2.1 ∧ IgnoresAck 0 w.1 w.2.1 w.2.2.1 := by
  intro h
  have hstep : (tcpLts demoNet fun s => s = demoConn .established 0 0 0).step _ demoBogusAck _ :=
    tcpLts_step (Option.some_get demoBogusAck_runs).symm
  have hrun := h _ _ _ ((Lib.Lts.Run.start_history (Lib.Lts.track_init _ _ rfl)).snoc_history
    (Lib.Lts.track_step hstep _))
  have hlaw := hrun.2 _ (List.mem_singleton_self _)
  rcases hlaw.1 with hopen | hle
  · exact absurd hopen (by decide +kernel)
  · exact absurd hle (by decide +kernel)

end Gracemont
