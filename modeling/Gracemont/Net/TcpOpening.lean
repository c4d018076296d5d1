/-
  Gracemont networking — what wakes the callers of the socket API.

  A segment also posts the semaphores of the socket that it gets to: `rx_sem`
  for the end of a handshake, for data and for a FIN, and `tx_sem` for the
  answer to a SYN.

  * `Conn.posts`: the posts, from the connection and the segment;
  * `tcpReceive_sems`: the state machine posts these and no others;
  * `tcpLts_arrive_sock`: what a segment does to a socket.
-/
import Mathlib.Algebra.Group.Prod
import Gracemont.Net.TcpRun

namespace Gracemont

variable {α σ : Type}

/-! ## Semaphores -/

/-- `rx_sem` and `tx_sem` -/
def Socket.sems (k : Socket α σ) : ℕ × ℕ := (k.rxSem, k.txSem)

/-- The posts to `rx_sem` and `tx_sem` for a segment of `len` bytes. -/
def Conn.posts (seg : TcpSegment) (len : BitVec 16) (c : Conn) : ℕ × ℕ :=
  match c.state with
  | .synSent =>
    if seg.flags &&& (tcpFlagSyn ||| tcpFlagAck) = tcpFlagSyn ||| tcpFlagAck then (0, 1) else (0, 0)
  | .synReceived => if hasFlag seg.flags tcpFlagAck then (1, 0) else (0, 0)
  | .established =>
    (if c.Takes seg len then (1, 0) else (0, 0)) +
      if hasFlag seg.flags tcpFlagFin then (1, 0) else (0, 0)
  | .listen | .finWait1 | .finWait2 | .lastAck | .closeWait | .timeWait | .closed | .closing => (0, 0)

section
variable [DecidableEq α] [DecidableEq σ] (cfg : NetConfig α)

/-- Sending a segment leaves the other fields of all sockets. -/
theorem tcpSendSegment_field {γ : Type} (g : Socket α σ → γ)
    (hg : ∀ k v, g { k with sndNxt := v } = g k) (s : NetStack α σ) (x : σ) (flags : BitVec 8)
    (data : Option α) (y : σ) :
    g ((tcpSendSegment cfg s x flags data).1.sock y) = g (s.sock y) := by
  obtain ⟨n, ht, -⟩ := tcpSendSegment_spec cfg s x flags data
  rw [ht.sock]
  exact Lib.Store.modify_field g s.sock x (f := fun k => { k with sndNxt := k.sndNxt + n })
    (hg _ _) y

variable (s : NetStack α σ) (x : σ) (seg : TcpSegment) (zb : α)

theorem tcpSendSegment_sems (flags : BitVec 8) (data : Option α) (y : σ) :
    ((tcpSendSegment cfg s x flags data).1.sock y).sems = (s.sock y).sems :=
  tcpSendSegment_field cfg Socket.sems (fun _ _ => rfl) s x flags data y

omit [DecidableEq α] in
/-- Assignments to other fields of the socket. -/
theorem modify_sems {f : Socket α σ → Socket α σ} (hf : (f (s.sock x)).sems = (s.sock x).sems) :
    ((s.modify x f).sock x).sems = (s.sock x).sems :=
  Lib.Store.modify_field Socket.sems s.sock x hf x

omit [DecidableEq α] in
theorem postRx_sems : ((postRx s x).sock x).sems = (s.sock x).sems + (1, 0) := by
  have hx : (postRx s x).sock x = _ :=
    s.sock.modify_self x fun k => { k with rxSem := k.rxSem + 1 }
  rw [hx]
  rfl

omit [DecidableEq α] in
theorem postTx_sems : ((postTx s x).sock x).sems = (s.sock x).sems + (0, 1) := by
  have hx : (postTx s x).sock x = _ :=
    s.sock.modify_self x fun k => { k with txSem := k.txSem + 1 }
  rw [hx]
  rfl

theorem receiveFin_sems (state : TcpState) :
    ((receiveFin cfg s x state).sock x).sems = (s.sock x).sems := by
  unfold receiveFin
  rw [tcpSendSegment_sems]
  exact modify_sems s x rfl

theorem receiveData_sems :
    ((receiveData cfg s x seg zb).1.sock x).sems = (s.sock x).sems +
      if seg.HasData (s.pool.zb zb).len ∧ seg.seq = (s.sock x).rcvNxt then (1, 0) else (0, 0) := by
  unfold receiveData
  by_cases hdata : seg.HasData (s.pool.zb zb).len
  · have hlt : seg.hdrLen.toNat < (s.pool.zb zb).len.toNat := hdata
    have hpull : (s.pull zb (seg.hdrLen.setWidth 16)).sock = s.sock :=
      (Transmitted.pull s zb (seg.hdrLen.setWidth 16)).sock
    rw [if_pos hlt]
    by_cases hseq : seg.seq = (s.sock x).rcvNxt
    · simp only [hpull, hseq, hdata, and_self, if_true]
      rw [tcpSendSegment_sems, postRx_sems]
      congr 1
      refine (modify_sems _ x rfl).trans ((modify_sems _ x rfl).trans ?_)
      rw [hpull]
    · simp only [hpull, hseq, and_false, if_false]
      rfl
  · have hlt : ¬ seg.hdrLen.toNat < (s.pool.zb zb).len.toNat := hdata
    simp only [if_neg hlt, hdata, false_and, if_false]
    rfl

theorem receiveEstablished_sems (hst : (s.sock x).state = .established) :
    ((receiveEstablished cfg s x seg zb).1.sock x).sems =
      (s.sock x).sems + ((if (s.sock x).conn.Takes seg (s.pool.zb zb).len then (1, 0) else (0, 0)) +
        if hasFlag seg.flags tcpFlagFin then (1, 0) else (0, 0)) := by
  have htakes : (s.sock x).conn.Takes seg (s.pool.zb zb).len ↔
      seg.HasData (s.pool.zb zb).len ∧ seg.seq = (s.sock x).rcvNxt :=
    ⟨fun h => h.2, fun h => ⟨hst, h⟩⟩
  generalize hs₁ : (if hasFlag seg.flags tcpFlagAck then
    s.modify x fun k => { k with sndUna := seg.ack } else s) = s₁
  -- the acknowledgement changes nothing that the rest depends on
  obtain ⟨hsems, hrcv, hpool⟩ : (s₁.sock x).sems = (s.sock x).sems ∧
      (s₁.sock x).rcvNxt = (s.sock x).rcvNxt ∧ s₁.pool = s.pool := by
    rw [← hs₁]
    split_ifs
    · exact ⟨modify_sems s x rfl, Lib.Store.modify_field Socket.rcvNxt s.sock x (by rfl) x, rfl⟩
    · exact ⟨rfl, rfl, rfl⟩
  have hdata := receiveData_sems cfg s₁ x seg zb
  rw [hsems, hrcv, hpool] at hdata
  unfold receiveEstablished
  simp only [htakes, hs₁]
  rw [← add_assoc, ← hdata]
  by_cases hfin : hasFlag seg.flags tcpFlagFin = true
  · simp only [if_pos hfin]
    rw [postRx_sems, receiveFin_sems]
  · simp only [if_neg hfin]
    rfl

/-- **The posts of the state machine.** -/
theorem tcpReceive_sems :
    ((tcpReceive cfg s x seg zb).1.sock x).sems =
      (s.sock x).sems + (s.sock x).conn.posts seg (s.pool.zb zb).len := by
  have hzero : (s.sock x).sems + (0, 0) = (s.sock x).sems := rfl
  unfold tcpReceive Conn.posts
  rw [show (s.sock x).conn.state = (s.sock x).state from rfl]
  cases hst : (s.sock x).state with
  | listen =>
    simp only [receiveListen]
    split_ifs
    · rw [tcpSendSegment_sems]
      exact modify_sems s x rfl
    · rfl
  | synSent =>
    simp only [receiveSynSent]
    split_ifs
    · rw [postTx_sems, tcpSendSegment_sems]
      congr 1
      exact modify_sems s x rfl
    · rfl
  | synReceived =>
    simp only [receiveSynReceived]
    split_ifs
    · rw [postRx_sems]
      congr 1
      exact modify_sems s x rfl
    · rfl
  | established => exact receiveEstablished_sems cfg s x seg zb hst
  | finWait1 =>
    simp only [receiveFinWait1]
    split_ifs
    · rw [receiveFin_sems]
      exact modify_sems s x rfl
    · exact (modify_sems _ x rfl).trans (modify_sems s x rfl)
    · rfl
  | finWait2 =>
    simp only
    split_ifs
    · exact receiveFin_sems cfg s x .timeWait
    · rfl
  | lastAck =>
    simp only
    split_ifs
    · exact modify_sems s x rfl
    · rfl
  | closeWait | timeWait | closed | closing => rfl

end

/-! ## Arrivals -/

/-- The sender of a segment. -/
def TcpSegment.source (seg : TcpSegment) : Sockaddr := ⟨seg.srcIp, seg.srcPort⟩

/-- The address that it is sent to. -/
def TcpSegment.dest (seg : TcpSegment) : Sockaddr := ⟨seg.dstIp, seg.dstPort⟩

section
variable [DecidableEq α] [DecidableEq σ] {cfg : NetConfig α} {s s' : NetStack α σ} {x : σ} {zb : α}

omit [DecidableEq α] [DecidableEq σ] in
/-- **The result of the lookup is unique.** -/
theorem tcpFindSocket_unique {seg : TcpSegment} {n m : ℕ} {r r' : Option σ}
    (h : tcpFindSocket s seg n = some r) (h' : tcpFindSocket s seg m = some r') : r = r' := by
  obtain ⟨found, hfound, h⟩ := Option.bind_eq_some_iff.1 h
  obtain ⟨found', hfound', h'⟩ := Option.bind_eq_some_iff.1 h'
  obtain rfl := Lib.Loop.run_unique hfound hfound'
  rcases found with _ | y
  · exact Lib.Loop.run_unique h h'
  · cases h
    cases h'
    rfl

/-- A segment for which the lookup finds a socket meets its state machine. -/
theorem tcpInput_found {n fuel : ℕ} (hz : (s.pool.zb zb).Intact)
    (hfind : tcpFindSocket s (s.pool.zb zb).segment n = some (some x))
    (h : tcpInput cfg fuel s zb = some s') :
    s'.sock = (tcpReceive cfg s x (s.pool.zb zb).segment zb).1.sock := by
  unfold tcpInput at h
  simp only at h
  rw [if_neg (Nat.not_lt.2 hz.1), if_neg (not_not.2 hz.2)] at h
  obtain ⟨found, hfound, h⟩ := Option.bind_eq_some_iff.1 h
  obtain rfl := tcpFindSocket_unique hfound hfind
  rcases hrec : tcpReceive cfg s x (s.pool.zb zb).segment zb with ⟨s₁, rest⟩
  simp only [hrec] at h
  rcases rest with _ | zb'
  · rw [← Option.some.inj h]
  · rw [← Option.some.inj h]
    rfl

/-- A segment for which it finds none is answered with a RST, unless it is one. -/
theorem tcpInput_refused {n fuel : ℕ} (hz : (s.pool.zb zb).Intact)
    (hrst : hasFlag (s.pool.zb zb).segment.flags tcpFlagRst = false)
    (hfind : tcpFindSocket s (s.pool.zb zb).segment n = some none)
    (h : tcpInput cfg fuel s zb = some s') :
    s' = (tcpSendRst cfg s (s.pool.zb zb).segment (s.pool.zb zb).len).free cfg zb := by
  unfold tcpInput at h
  simp only at h
  rw [if_neg (Nat.not_lt.2 hz.1), if_neg (not_not.2 hz.2)] at h
  obtain ⟨found, hfound, h⟩ := Option.bind_eq_some_iff.1 h
  obtain rfl := tcpFindSocket_unique hfound hfind
  simp only [hrst, Bool.false_eq_true, if_false] at h
  exact (Option.some.inj h).symm

/-- **Arrivals.**  A segment that gets to the socket `x` does to its connection
    what `Conn.receive` says, and posts its semaphores; any other leaves `x`
    alone. -/
theorem tcpLts_arrive_sock {init : NetStack α σ → Prop} {env : TcpEnv α}
    (h : (tcpLts cfg init).step s (.arrive env zb) s') (x : σ) :
    Reaches x s env zb ∧
        (∃ n, (s'.sock x).conn =
          (s.sock x).conn.receive (env.buf zb).segment (env.buf zb).len env.ticks n) ∧
        (s'.sock x).sems =
          (s.sock x).sems + (s.sock x).conn.posts (env.buf zb).segment (env.buf zb).len ∨
      ¬ Reaches x s env zb ∧ s'.sock x = s.sock x := by
  by_cases hx : Reaches x s env zb
  · obtain ⟨fuel, h⟩ := h
    obtain ⟨hz, m, hfind⟩ := hx
    have hsock : s'.sock = (tcpReceive cfg (s.meets env) x (env.buf zb).segment zb).1.sock :=
      tcpInput_found hz hfind h
    obtain ⟨n, -, hreacts⟩ := tcpReceive_spec cfg (s.meets env) x (env.buf zb).segment zb
    have hsems := tcpReceive_sems cfg (s.meets env) x (env.buf zb).segment zb
    refine .inl ⟨⟨hz, m, hfind⟩, ⟨n, ?_⟩, ?_⟩
    · rw [hsock]
      exact hreacts.conn
    · rw [hsock]
      exact hsems
  · refine .inr ⟨hx, ?_⟩
    rcases tcpLts_arrive h with hall | ⟨y, n, -, hy, -, -, -, hothers⟩
    · exact (hall x).sock
    · have hne : x ≠ y := fun he => hx (he ▸ hy)
      exact (hothers x hne).sock

end

end Gracemont
