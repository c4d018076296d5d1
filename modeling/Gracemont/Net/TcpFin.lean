/-
  Gracemont networking — the order of FINs.

  A FIN comes after the data of its segment.  The state machine compares the
  sequence number of data with `rcv_nxt`, but it acts on every FIN, also on one
  that has overtaken data.

  * `TcpSegment.finSeq`, `Conn.HasAll`: the sequence number of a FIN, and what
    has to be received before it;
  * `FinGhost`: where the stream of the peer began, and where its FIN was;
  * `tcp_fin_ordering`: if only FINs in their place are acted on, each comes after
    all bytes before it, and at most one moves `rcv_nxt`.
-/
import Gracemont.Net.TcpDelivery

namespace Gracemont

variable {α σ : Type}

/-! ## FINs -/

/-- The sequence number of the FIN of a segment of `len` bytes. -/
def TcpSegment.finSeq (seg : TcpSegment) (len : BitVec 16) : BitVec 32 :=
  if seg.HasData len then seg.seq + seg.dataLen len else seg.seq

namespace Conn
variable (seg : TcpSegment) (len : BitVec 16) (c c' : Conn)

/-- The connection moves because of the FIN of a segment. -/
def ActsOnFin : Prop :=
  hasFlag seg.flags tcpFlagFin ∧ (c.state = .established ∨
    c.state = .finWait1 ∧ hasFlag seg.flags tcpFlagAck ∨ c.state = .finWait2)

instance : Decidable (c.ActsOnFin seg) := inferInstanceAs (Decidable (_ ∧ _))

/-- Everything before the FIN of a segment is received, if not with it. -/
def HasAll : Prop :=
  seg.finSeq len = c.rcvNxt ∨ c.state = .established ∧ seg.seq = c.rcvNxt

instance : Decidable (c.HasAll seg len) := inferInstanceAs (Decidable (_ ∨ _))

/-- The peer has finished. -/
def Ended : Prop := c.state = .closeWait ∨ c.state = .timeWait

instance : Decidable c.Ended := inferInstanceAs (Decidable (_ ∨ _))

/-- The stream of the peer begins, with the SYN between `c` and `c'`. -/
def Began : Prop :=
  c.state = .listen ∧ c'.state = .synReceived ∨ c.state = .synSent ∧ c'.state = .established

instance : Decidable (c.Began c') := inferInstanceAs (Decidable (_ ∨ _))

variable {seg len c} (ticks n : BitVec 32)

/-- A connection ends by a FIN only. -/
theorem receive_ended : (c.receive seg len ticks n).Ended ↔ c.Ended ∨ c.ActsOnFin seg := by
  unfold Ended ActsOnFin
  obtain ⟨st, hst⟩ : ∃ st, c.state = st := ⟨_, rfl⟩
  cases st with
  | listen => rw [receive_listen hst]; split_ifs <;> simp [hst]
  | synSent => rw [receive_synSent hst]; split_ifs <;> simp [hst]
  | synReceived => rw [receive_synReceived hst]; split_ifs <;> simp [hst]
  | established =>
    rw [receive_established hst]
    simp only
    split_ifs with hack htakes hfin <;> simp_all [acked, gotData, gotFin]
  | finWait1 =>
    rw [receive_finWait1 hst]
    split_ifs with hack hfin <;> simp_all [gotFin]
  | finWait2 =>
    rw [receive_finWait2 hst]
    split_ifs with hfin <;> simp [hst, gotFin, hfin]
  | lastAck => rw [receive_lastAck hst]; split_ifs <;> simp [hst]
  | closeWait | timeWait | closed | closing => rw [receive, hst]; simp [hst]

theorem not_actsOnFin_of_ended (h : c.Ended) : ¬ c.ActsOnFin seg := by
  rintro ⟨-, hst⟩
  rcases h with h | h <;> simp [h] at hst

/-- `rcv_nxt` moves over the data that is taken, and over a FIN. -/
theorem receive_rcvNxt (h : ¬ c.Began (c.receive seg len ticks n)) :
    (c.receive seg len ticks n).rcvNxt =
      (if c.Takes seg len then c.rcvNxt + seg.dataLen len else c.rcvNxt) +
        if c.ActsOnFin seg then 1 else 0#32 := by
  unfold Began at h
  by_cases hest : c.state = .established
  · have hacts : c.ActsOnFin seg ↔ hasFlag seg.flags tcpFlagFin := by simp [ActsOnFin, hest]
    rw [receive_established hest]
    simp only [hacts]
    split_ifs <;> simp [acked, gotData, gotFin]
  rw [if_neg (not_takes hest)]
  obtain ⟨st, hst⟩ : ∃ st, c.state = st := ⟨_, rfl⟩
  cases st with
  | established => exact absurd hst hest
  | finWait1 =>
    have hacts : c.ActsOnFin seg ↔
        hasFlag seg.flags tcpFlagAck ∧ hasFlag seg.flags tcpFlagFin := by
      simp [ActsOnFin, hst, and_comm]
    rw [receive_finWait1 hst]
    simp only [hacts]
    split_ifs <;> simp_all [gotFin, acked]
  | finWait2 =>
    have hacts : c.ActsOnFin seg ↔ hasFlag seg.flags tcpFlagFin := by simp [ActsOnFin, hst]
    rw [receive_finWait2 hst]
    simp only [hacts]
    split_ifs <;> simp [gotFin]
  | _ =>
    -- the FIN is not read
    have hacts : ¬ c.ActsOnFin seg := by simp [ActsOnFin, hst]
    rw [if_neg hacts]
    revert h
    unfold receive
    simp only [hst]
    try split_ifs
    all_goals simp [hst, acked]

/-- A FIN in its place comes after the bytes received. -/
theorem finSeq_eq (h : c.HasAll seg len) :
    seg.finSeq len = if c.Takes seg len then c.rcvNxt + seg.dataLen len else c.rcvNxt := by
  by_cases htakes : c.Takes seg len
  · rw [if_pos htakes, TcpSegment.finSeq, if_pos htakes.2.1, htakes.2.2]
  rw [if_neg htakes]
  rcases h with h | ⟨hst, hseq⟩
  · exact h
  · have hdata : ¬ seg.HasData len := fun hdata => htakes ⟨hst, hdata, hseq⟩
    rw [TcpSegment.finSeq, if_neg hdata, hseq]

end Conn

/-! ## The law -/

/-- Of the stream of the peer of a socket: the sequence number at which it began,
    how many bytes had been received then, and the sequence number of the FIN
    because of which the connection moved. -/
structure FinGhost where
  base : BitVec 32
  start : ℕ
  fin : Option (BitVec 32)

section
variable [DecidableEq σ] (x : σ)

/-- The stream of the peer begins here, or goes on from here. -/
def FinGhost.here (s : NetStack α σ) : FinGhost :=
  ⟨(s.sock x).rcvNxt, (s.received x).length, none⟩

def FinGhost.next (s : NetStack α σ) (e : TcpEvent α σ) (s' : NetStack α σ) (g : FinGhost) :
    FinGhost :=
  match e with
  | .arrive env zb =>
    if (s.sock x).conn.Began (s'.sock x).conn then .here x s'
    else if ¬ (s.sock x).conn.Ended ∧ (s'.sock x).conn.Ended then
      { g with fin := some ((env.buf zb).segment.finSeq (env.buf zb).len) }
    else g
  | .send _ _ _ _ => g

/-- The sequence number after the bytes that were received of the stream. -/
def FinGhost.reached (g : FinGhost) (s : NetStack α σ) : BitVec 32 :=
  g.base + BitVec.ofNat 32 ((s.received x).length - g.start)

theorem FinGhost.reached_fin (g : FinGhost) (f : Option (BitVec 32)) (s : NetStack α σ) :
    ({ g with fin := f } : FinGhost).reached x s = g.reached x s := rfl

/-- `rcv_nxt` counts the bytes received, and one FIN; all bytes before the FIN
    are received. -/
structure FinOrder (s : NetStack α σ) (g : FinGhost) : Prop where
  start_le : g.start ≤ (s.received x).length
  rcvNxt : (s.sock x).rcvNxt = g.reached x s + if g.fin.isSome then 1 else 0
  fin : ∀ f, g.fin = some f → f = g.reached x s ∧ (s.sock x).conn.Ended

/-- Every FIN that gets to the socket and is acted on is in its place. -/
def FinInPlace [DecidableEq α] (s : NetStack α σ) : TcpEvent α σ → Prop
  | .arrive env zb => Reaches x s env zb → (s.sock x).conn.ActsOnFin (env.buf zb).segment →
      (s.sock x).conn.HasAll (env.buf zb).segment (env.buf zb).len
  | .send _ _ _ _ => True

end

/-! ## Runs -/

section
variable [DecidableEq α] [DecidableEq σ] {cfg : NetConfig α} {init : NetStack α σ → Prop}
  {x : σ} {s s' : NetStack α σ} {g : FinGhost}

omit [DecidableEq α] in
theorem FinOrder.here (x : σ) (s : NetStack α σ) : FinOrder x s (.here x s) := by
  refine ⟨Nat.le_refl _, ?_, ?_⟩
  · simp [FinGhost.here, FinGhost.reached]
  · intro f hf
    cases hf

omit [DecidableEq α] in
/-- Nothing is received, and the connection neither begins nor ends. -/
theorem FinOrder.of_same (h : FinOrder x s g) (hinbox : s'.inbox x = s.inbox x)
    (hrcv : (s'.sock x).rcvNxt = (s.sock x).rcvNxt)
    (hstate : (s'.sock x).conn.state = (s.sock x).conn.state) : FinOrder x s' g := by
  have hrec : s'.received x = s.received x := by rw [NetStack.received, hinbox]; rfl
  have hreached : g.reached x s' = g.reached x s := by rw [FinGhost.reached, hrec]; rfl
  refine ⟨?_, ?_, ?_⟩
  · rw [hrec]
    exact h.start_le
  · rw [hrcv, hreached]
    exact h.rcvNxt
  · intro f hf
    obtain ⟨hfin, hended⟩ := h.fin f hf
    rw [hreached]
    refine ⟨hfin, ?_⟩
    unfold Conn.Ended at hended ⊢
    rw [hstate]
    exact hended

omit [DecidableEq α] in
/-- What is received moves the position reached. -/
theorem FinGhost.reached_append {l : List (BitVec 8)} (hle : g.start ≤ (s.received x).length)
    (h : s'.received x = s.received x ++ l) :
    g.reached x s' = g.reached x s + BitVec.ofNat 32 l.length := by
  have hlen : (s.received x ++ l).length - g.start =
      (s.received x).length - g.start + l.length := by
    rw [List.length_append]
    omega
  rw [reached, h, hlen, BitVec.ofNat_add, ← BitVec.add_assoc]
  rfl

omit [DecidableEq α] in
theorem not_began_self (c : Conn) : ¬ c.Began c := by
  rintro (⟨h, h'⟩ | ⟨h, h'⟩)
  all_goals
    rw [h] at h'
    cases h'

omit [DecidableEq α] in
/-- The socket is left alone. -/
theorem FinGhost.next_untouched (hu : Untouched x s s') (e : TcpEvent α σ) (g : FinGhost) :
    g.next x s e s' = g := by
  cases e with
  | send env sock flags data => rfl
  | arrive env zb =>
    unfold next
    simp only [hu.sock, not_began_self, if_false]
    exact if_neg fun h => h.1 h.2

omit [DecidableEq α] in
/-- The socket takes the data of a segment, or not. -/
theorem FinGhost.reached_takes {z : Zbuf α} (hle : g.start ≤ (s.received x).length)
    (hinbox : s'.inbox x = s.inbox x ++
      if (s.sock x).conn.Takes z.segment z.len then [z.pulled z.segment.hdrLen] else []) :
    g.reached x s' = g.reached x s +
      if (s.sock x).conn.Takes z.segment z.len then z.segment.dataLen z.len else 0#32 := by
  rw [FinGhost.reached_append hle (NetStack.received_of_inbox hinbox)]
  split_ifs
  · rw [payloadOf_length, BitVec.ofNat_toNat]
    rfl
  · rfl

omit [DecidableEq α] in
/-- The socket reacts to a segment. -/
theorem FinOrder.reacts {z : Zbuf α} {ticks n : BitVec 32} (h : FinOrder x s g)
    (hplace : (s.sock x).conn.ActsOnFin z.segment → (s.sock x).conn.HasAll z.segment z.len)
    (hconn : (s'.sock x).conn = (s.sock x).conn.receive z.segment z.len ticks n)
    (hinbox : s'.inbox x = s.inbox x ++
      if (s.sock x).conn.Takes z.segment z.len then [z.pulled z.segment.hdrLen] else []) :
    FinOrder x s' (if (s.sock x).conn.Began (s'.sock x).conn then .here x s'
      else if ¬ (s.sock x).conn.Ended ∧ (s'.sock x).conn.Ended then
        { g with fin := some (z.segment.finSeq z.len) }
      else g) := by
  have hreached := FinGhost.reached_takes h.start_le hinbox
  have hold : (s.sock x).conn.rcvNxt = g.reached x s + if g.fin.isSome then 1 else 0 := h.rcvNxt
  have hfin : ∀ f, g.fin = some f → f = g.reached x s ∧ (s.sock x).conn.Ended := h.fin
  have hle : g.start ≤ (s'.received x).length := by
    rw [NetStack.received_of_inbox hinbox, List.length_append]
    exact Nat.le_add_right_of_le h.start_le
  generalize (s.sock x).conn = c at *
  have hended : (s'.sock x).conn.Ended ↔ c.Ended ∨ c.ActsOnFin z.segment := by
    rw [hconn]
    exact Conn.receive_ended ticks n
  by_cases hbegan : c.Began (s'.sock x).conn
  · rw [if_pos hbegan]
    exact .here x s'
  rw [if_neg hbegan]
  have hrcv : (s'.sock x).conn.rcvNxt =
      (if c.Takes z.segment z.len then c.rcvNxt + z.segment.dataLen z.len else c.rcvNxt) +
        if c.ActsOnFin z.segment then 1 else 0#32 := by
    rw [hconn] at hbegan ⊢
    exact Conn.receive_rcvNxt ticks n hbegan
  have hmoved : (if c.Takes z.segment z.len then c.rcvNxt + z.segment.dataLen z.len
      else c.rcvNxt) =
        c.rcvNxt + if c.Takes z.segment z.len then z.segment.dataLen z.len else 0#32 := by
    split_ifs
    · rfl
    · exact (BitVec.add_zero _).symm
  by_cases hacts : c.ActsOnFin z.segment
  · have hnot : ¬ c.Ended := fun hend => Conn.not_actsOnFin_of_ended hend hacts
    have hnone : g.fin = none :=
      Option.eq_none_iff_forall_ne_some.2 fun f hf => hnot (hfin f hf).2
    have hhere : c.rcvNxt = g.reached x s := by
      rw [hold, hnone]
      exact BitVec.add_zero _
    have hend' := hended.2 (.inr hacts)
    rw [if_pos ⟨hnot, hend'⟩]
    rw [hmoved, if_pos hacts, hhere, ← hreached] at hrcv
    refine ⟨hle, ?_, ?_⟩
    · rw [FinGhost.reached_fin]
      exact hrcv
    · intro f hf
      have hseq := Conn.finSeq_eq (hplace hacts)
      rw [hmoved, hhere, ← hreached] at hseq
      have hf' : z.segment.finSeq z.len = f := Option.some.inj hf
      rw [FinGhost.reached_fin, ← hf']
      exact ⟨hseq, hend'⟩
  · have hiff : (s'.sock x).conn.Ended ↔ c.Ended := by
      rw [hended]
      exact or_iff_left hacts
    rw [if_neg fun hend => hend.1 (hiff.1 hend.2)]
    rw [hmoved, if_neg hacts, BitVec.add_zero, hold] at hrcv
    refine ⟨hle, ?_, ?_⟩
    · rw [hreached]
      refine hrcv.trans ?_
      ac_rfl
    · intro f hf
      obtain ⟨hfin, hend⟩ := hfin f hf
      -- nothing is taken any more
      have hst : c.state ≠ .established := by
        rcases hend with hst | hst <;> simp [hst]
      rw [if_neg (Conn.not_takes hst), BitVec.add_zero] at hreached
      exact ⟨hfin.trans hreached.symm, hiff.2 hend⟩

/-- **Step.** -/
theorem FinOrder.step (h : FinOrder x s g) {e : TcpEvent α σ} (he : FinInPlace x s e)
    (hs : (tcpLts cfg init).step s e s') : FinOrder x s' (g.next x s e s') := by
  have hsame : Untouched x s s' → FinOrder x s' (g.next x s e s') := by
    intro hu
    rw [FinGhost.next_untouched hu]
    exact h.of_same hu.inbox (by rw [hu.sock]) (by rw [hu.sock])
  cases e with
  | send env sock flags data =>
    obtain ⟨hothers, hinbox, n, hsock⟩ := tcpLts_send hs
    by_cases hx : x = sock
    · subst hx
      exact h.of_same hinbox (by rw [hsock]) (by rw [hsock]; rfl)
    · exact hsame (hothers x hx)
  | arrive env zb =>
    rcases tcpLts_arrive hs with hu | ⟨y, n, -, hreach, hconn, hinbox, -, hothers⟩
    · exact hsame (hu x)
    by_cases hx : x = y
    · subst hx
      exact h.reacts (he hreach) hconn hinbox
    · exact hsame (hothers x hx)

/-- **FIN ordering.**  If only FINs in their place are acted on, whatever else
    arrives, in whatever order, and whatever the socket was: each FIN comes after
    all bytes before it, and at most one moves `rcv_nxt`. -/
theorem tcp_fin_ordering {tr : List (TcpEvent α σ)}
    (h : (((tcpLts cfg init).restrict (FinInPlace x)).track (FinGhost.here x)
      (FinGhost.next x)).Run tr (s, g)) : FinOrder x s g := by
  refine h.track_rule ?_ ?_
  · intro s _
    exact .here x s
  · intro s g e s' hs hstep
    exact hs.step hstep.1 hstep.2

end

/-- One byte and a FIN, in order. -/
def demoFin : List (TcpEvent (Fin 2) (Fin 2)) :=
  [(0x0, tcpFlagAck, [1]), (0x1, tcpFlagAck ||| tcpFlagFin, [])].map fun d =>
    demoArrive (demoSegment 0x0A000002 8080 80 d.1 0 d.2.1 d.2.2)

theorem demoFin_runs :
    (Lib.Lts.exec (tcpExecStep demoNet 2) (demoConn .established 0 0 0) demoFin).isSome := by
  decide +kernel

theorem tcp_fin_ordering_in_place : ∃ (s : NetStack (Fin 2) (Fin 2)) (g : FinGhost),
    (s.sock 0).state = .closeWait ∧ s.received 0 = [1] ∧ (s.sock 0).rcvNxt = 2 ∧
      FinOrder 0 s g := by
  have hrun : ((tcpLts demoNet fun _ => True).restrict (FinInPlace 0)).Run demoFin _ :=
    tcpLts_run_restrict trivial (Option.some_get demoFin_runs).symm fun i hi => ?_
  · obtain ⟨g, hg⟩ := hrun.exists_track (FinGhost.here 0) (FinGhost.next 0)
    refine ⟨_, g, ?_, ?_, ?_, tcp_fin_ordering hg⟩
    all_goals decide +kernel
  have hi : i = 0 ∨ i = 1 := by
    have hlen : demoFin.length = 2 := rfl
    omega
  rcases hi with rfl | rfl
  · intro _ hacts
    exact absurd hacts (by decide +kernel)
  · intro _ _
    exact .inl (by decide +kernel)

/-- A FIN that has overtaken 5 bytes. -/
def demoEarlyFin : TcpEvent (Fin 2) (Fin 2) :=
  demoArrive (demoSegment 0x0A000002 8080 80 5 0 tcpFlagFin [])

theorem demoEarlyFin_runs :
    (tcpExecStep demoNet 2 (demoConn .established 0 0 0) demoEarlyFin).isSome := by
  decide

theorem tcp_fin_overtakes : ¬ ∀ (tr : List (TcpEvent (Fin 2) (Fin 2))) s g,
    ((tcpLts demoNet fun _ => True).track (FinGhost.here 0) (FinGhost.next 0)).Run tr (s, g) →
      FinOrder 0 s g := by
  intro h
  generalize hs₀ : demoConn .established 0 0 0 = s₀ at *
  generalize hs₁ : (tcpExecStep demoNet 2 (demoConn .established 0 0 0) demoEarlyFin).get
    demoEarlyFin_runs = s₁
  have hstep : (tcpLts demoNet fun _ => True).step s₀ demoEarlyFin s₁ := by
    rw [← hs₀, ← hs₁]
    exact tcpLts_step (Option.some_get demoEarlyFin_runs).symm
  have horder := h _ s₁ (.next 0 s₀ demoEarlyFin s₁ (.here 0 s₀))
    ((Lib.Lts.Run.start_track _ _ trivial).snoc_track hstep)
  subst hs₀ hs₁
  obtain ⟨hfin, -⟩ := horder.fin 5 (by decide +kernel)
  exact absurd hfin (by decide +kernel)

end Gracemont
