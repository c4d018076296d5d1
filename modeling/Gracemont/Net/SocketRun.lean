/-
  Gracemont networking — runs of the socket API.

  Calls of the API, segments and timer calls come in any order.  A call that
  waits does its part before the wait, and its `…Resume` at any later time.  Most
  calls leave the lists of sockets, the table and the heap alone (`SameLinks`);
  what the others do to them is said once for each.

  * `SocketCall`, `socketLts`: the calls and their runs;
  * `SameLinks`: what most calls keep;
  * `Relinks`, `SocketCall.relinks`: what a call does to the links.
-/
import Gracemont.Net.TcpRun

namespace Gracemont

variable {α σ : Type}

/-! ## Calls -/

/-- A call of the socket API up to its wait, the end of one that waited on a
    socket, a segment in a buffer, or a timer call.  `mem` is what `heap_alloc`
    returns; `fd` is the descriptor that `sock_accept` was called with. -/
inductive SocketCall (α σ : Type) where
  | socket (type : ℤ) (mem : Option σ)
  | bind (fd : ℤ) (addr : Sockaddr)
  | listen (fd : ℤ)
  | accepted (fd : ℤ) (sock : σ)
  | connect (fd : ℤ) (addr : Sockaddr)
  | connected (sock : σ)
  | send (fd : ℤ) (data : List (BitVec 8))
  | sendZbuf (fd : ℤ) (zb : α)
  | sendto (fd : ℤ) (data : List (BitVec 8)) (dst : Sockaddr)
  | received (sock : σ) (len : ℕ)
  | receivedZbuf (sock : σ)
  | receivedFrom (sock : σ) (len : ℕ)
  | close (fd : ℤ)
  | arrive (zb : α)
  | timer

variable [DecidableEq α] [DecidableEq σ] (cfg : NetConfig α)

/-- What a call does, with a bound on its loops.  `heap_alloc` returns memory that
    is not allocated. -/
def SocketCall.run (fuel : ℕ) (s : NetStack α σ) : SocketCall α σ → Option (NetStack α σ)
  | socket type mem =>
    if mem.all fun x => !s.live x then some (sockSocket s type mem).1 else none
  | bind fd addr => some (sockBind s fd addr).1
  | listen fd => some (sockListen s fd).1
  | accepted _ sock => (sockAcceptResume s sock).map Prod.fst
  | connect fd addr => some (sockConnect cfg s fd addr).1
  | connected sock => (sockConnectResume s sock).map Prod.fst
  | send fd data => some (sockSend cfg s fd data).1
  | sendZbuf fd zb => some (sockSendZbuf cfg s fd zb).1
  | sendto fd data dst => some (sockSendto cfg s fd data dst).1
  | received sock len => (sockRecvResume cfg s sock len).map Prod.fst
  | receivedZbuf sock => (sockRecvZbufResume s sock).map Prod.fst
  | receivedFrom sock len => (sockRecvfromResume cfg s sock len).map Prod.fst
  | close fd => (sockClose cfg fuel s fd).map Prod.fst
  | arrive zb => tcpInput cfg fuel s zb
  | timer => tcpTimer cfg fuel s

/-- Before the first call: no socket is in the table or on a list. -/
structure SocketsStart (s : NetStack α σ) : Prop where
  socketTable : ∀ i, s.socketTable i = none
  nextFd : s.nextFd = 0
  tcpListenList : s.tcpListenList = none
  tcpConnList : s.tcpConnList = none

/-- The runs of the socket API.  Each call brings the pool and the clock that it
    meets. -/
def socketLts : Lib.Lts (NetStack α σ) (TcpEnv α × SocketCall α σ) where
  init := SocketsStart
  step s e s' := ∃ fuel, e.2.run cfg fuel (s.meets e.1) = some s'

/-! ## What does not change -/

omit [DecidableEq σ] in
/-- Flushing a queue only frees buffers. -/
theorem Transmitted.flush {s : NetStack α σ} {fuel : ℕ} {q : ZbufQueue α}
    {r : NetStack α σ × ZbufQueue α} (h : Lib.Loop.run (flushBody cfg) fuel (s, q) = some r) :
    Transmitted s r.1 := by
  refine Lib.Loop.run_rule (I := fun cur => Transmitted s cur.1) (Q := fun r => Transmitted s r.1)
    ?_ ?_ h (refl s)
  · rintro ⟨s₁, q₁⟩ t hs₁ hbody
    unfold flushBody at hbody
    rcases hp : zbufQueuePop s₁.pool.zb q₁ with ⟨m, q₂, _ | zb⟩
    · simp only [hp] at hbody
      cases hbody
    · simp only [hp] at hbody
      cases hbody
      exact (hs₁.trans (of_pool s₁ _ s₁.ipId)).trans (free _ cfg zb)
  · rintro ⟨s₁, q₁⟩ b hs₁ hbody
    unfold flushBody at hbody
    rcases hp : zbufQueuePop s₁.pool.zb q₁ with ⟨m, q₂, _ | zb⟩
    · simp only [hp] at hbody
      cases hbody
      exact hs₁
    · simp only [hp] at hbody
      cases hbody

/-- The links of the lists, the table and the heap are the same. -/
structure SameLinks (s s' : NetStack α σ) : Prop where
  next : ∀ x, (s'.sock x).next = (s.sock x).next
  live : s'.live = s.live
  socketTable : s'.socketTable = s.socketTable
  nextFd : s'.nextFd = s.nextFd
  tcpListenList : s'.tcpListenList = s.tcpListenList
  tcpConnList : s'.tcpConnList = s.tcpConnList

namespace SameLinks
variable {s s' s'' : NetStack α σ}

omit [DecidableEq α] [DecidableEq σ] in
theorem trans (h : SameLinks s s') (h' : SameLinks s' s'') : SameLinks s s'' :=
  ⟨fun x => (h'.next x).trans (h.next x), h'.live.trans h.live, h'.socketTable.trans h.socketTable,
    h'.nextFd.trans h.nextFd, h'.tcpListenList.trans h.tcpListenList,
    h'.tcpConnList.trans h.tcpConnList⟩

omit [DecidableEq α] [DecidableEq σ] in
theorem of_transmitted (h : Transmitted s s') : SameLinks s s' :=
  ⟨fun x => by rw [h.sock], h.live, h.socketTable, h.nextFd, h.tcpListenList, h.tcpConnList⟩

omit [DecidableEq α] [DecidableEq σ] in
theorem refl (s : NetStack α σ) : SameLinks s s := of_transmitted (.refl s)

omit [DecidableEq α] [DecidableEq σ] in
theorem meets (s : NetStack α σ) (env : TcpEnv α) : SameLinks s (s.meets env) :=
  ⟨fun _ => rfl, rfl, rfl, rfl, rfl, rfl⟩

omit [DecidableEq α] in
theorem of_reacts {x : σ} {c : Conn} {q : List (Zbuf α)} (h : Reacts x s s' c q) :
    SameLinks s s' := by
  refine ⟨fun y => ?_, h.live, h.socketTable, h.nextFd, h.tcpListenList, h.tcpConnList⟩
  by_cases hy : y = x
  · rw [hy]
    exact h.next
  · rw [(h.others y hy).1]

omit [DecidableEq α] in
/-- Assignments to a socket other than to `next`. -/
theorem modify (s : NetStack α σ) (x : σ) {f : Socket α σ → Socket α σ}
    (h : (f (s.sock x)).next = (s.sock x).next) : SameLinks s (s.modify x f) :=
  ⟨s.sock.modify_field Socket.next x h, rfl, rfl, rfl, rfl, rfl⟩

theorem tcpSendSegment (s : NetStack α σ) (sock : σ) (flags : BitVec 8) (data : Option α) :
    SameLinks s (tcpSendSegment cfg s sock flags data).1 := by
  obtain ⟨n, ht, -⟩ := tcpSendSegment_spec cfg s sock flags data
  exact (modify s sock rfl).trans (of_transmitted ht)

theorem tcpOutput (s : NetStack α σ) (sock : σ) (zb : α) :
    SameLinks s (tcpOutput cfg s sock zb).1 := by
  unfold Gracemont.tcpOutput
  split_ifs
  · exact of_transmitted (.free s cfg zb)
  · exact tcpSendSegment cfg s sock _ _

theorem tcpInput {fuel : ℕ} {zb : α} (h : tcpInput cfg fuel s zb = some s') : SameLinks s s' := by
  rcases tcpInput_spec cfg h with ht | ⟨x, n, -, -, -, hr⟩
  · exact of_transmitted ht
  · exact of_reacts hr

omit [DecidableEq α] [DecidableEq σ] in
theorem okOr {n : ℤ} {r : NetStack α σ × Status} (h : SameLinks s r.1) :
    SameLinks s (okOr n r).1 := by
  rcases r with ⟨s₁, st⟩
  cases st
  all_goals exact h

theorem sockSend (fd : ℤ) (data : List (BitVec 8)) :
    SameLinks s (sockSend cfg s fd data).1 := by
  unfold Gracemont.sockSend
  rcases s.lookup fd with _ | sock
  · exact refl s
  simp only
  have halloc := Transmitted.allocTx s (BitVec.ofNat 16 data.length)
  generalize s.allocTx (BitVec.ofNat 16 data.length) = r at halloc ⊢
  rcases r with ⟨s₁, _ | zb⟩
  · exact of_transmitted halloc
  · exact okOr ((of_transmitted (halloc.trans (.setBuf s₁ zb _))).trans (tcpOutput cfg _ sock zb))

theorem sockSendZbuf (fd : ℤ) (zb : α) : SameLinks s (sockSendZbuf cfg s fd zb).1 := by
  unfold Gracemont.sockSendZbuf
  rcases s.lookup fd with _ | sock
  · exact of_transmitted (.free s cfg zb)
  · exact okOr (tcpOutput cfg s sock zb)

omit [DecidableEq σ] in
theorem sockSendto (fd : ℤ) (data : List (BitVec 8)) (dst : Sockaddr) :
    SameLinks s (sockSendto cfg s fd data dst).1 := by
  unfold Gracemont.sockSendto
  rcases s.lookup fd with _ | sock
  · exact refl s
  simp only
  split_ifs
  · exact refl s
  have halloc := Transmitted.allocTx s (BitVec.ofNat 16 data.length)
  generalize s.allocTx (BitVec.ofNat 16 data.length) = r at halloc ⊢
  rcases r with ⟨s₁, _ | zb⟩
  · exact of_transmitted halloc
  · have hudp := Transmitted.udpOutput cfg
      (s₁.setBuf zb ((s₁.pool.zb zb).append (BitVec.ofNat 16 data.length) data)) zb
      (s₁.sock sock).localAddr dst
    exact okOr (of_transmitted ((halloc.trans (.setBuf s₁ zb _)).trans hudp))

omit [DecidableEq α] in
theorem waitRx {sock : σ} (h : s.waitRx sock = some s') : SameLinks s s' := by
  unfold NetStack.waitRx at h
  split_ifs at h
  cases h
  exact modify s sock rfl

omit [DecidableEq α] in
theorem waitTx {sock : σ} (h : s.waitTx sock = some s') : SameLinks s s' := by
  unfold NetStack.waitTx at h
  split_ifs at h
  cases h
  exact modify s sock rfl

theorem popRx (s : NetStack α σ) (sock : σ) : SameLinks s (popRx s sock).1 := by
  unfold Gracemont.popRx
  rcases zbufQueuePop s.pool.zb (s.sock sock).rxQueue with ⟨m, q, zb⟩
  exact (of_transmitted (.of_pool s _ s.ipId)).trans (modify _ sock rfl)

omit [DecidableEq σ] in
theorem copyOut (s : NetStack α σ) (zb : α) (len : ℕ) : SameLinks s (copyOut cfg s zb len).1 :=
  of_transmitted (.free s cfg zb)

omit [DecidableEq α] in
theorem sockBind (fd : ℤ) (addr : Sockaddr) : SameLinks s (sockBind s fd addr).1 := by
  unfold Gracemont.sockBind
  rcases s.lookup fd with _ | sock
  · exact refl s
  · exact modify s sock rfl

omit [DecidableEq α] in
theorem sockAcceptResume {sock : σ} {addr : Sockaddr}
    (h : sockAcceptResume s sock = some (s', addr)) : SameLinks s s' := by
  obtain ⟨s₁, hwait, h⟩ := Option.bind_eq_some_iff.1 h
  cases h
  exact waitRx hwait

omit [DecidableEq α] in
theorem sockConnectResume {sock : σ} {n : ℤ} (h : sockConnectResume s sock = some (s', n)) :
    SameLinks s s' := by
  obtain ⟨s₁, hwait, h⟩ := Option.bind_eq_some_iff.1 h
  cases h
  exact waitTx hwait

theorem sockRecvResume {sock : σ} {len : ℕ} {r : ℤ × List (BitVec 8)}
    (h : sockRecvResume cfg s sock len = some (s', r)) : SameLinks s s' := by
  obtain ⟨s₁, hwait, h⟩ := Option.bind_eq_some_iff.1 h
  have hpop := popRx s₁ sock
  generalize Gracemont.popRx s₁ sock = p at hpop h
  rcases p with ⟨s₂, _ | zb⟩
  · cases h
    exact (waitRx hwait).trans hpop
  · cases h
    exact ((waitRx hwait).trans hpop).trans (copyOut cfg s₂ zb len)

theorem sockRecvZbufResume {sock : σ} {zb : Option α}
    (h : sockRecvZbufResume s sock = some (s', zb)) : SameLinks s s' := by
  obtain ⟨s₁, hwait, h⟩ := Option.bind_eq_some_iff.1 h
  have hpop := popRx s₁ sock
  rw [Option.some.inj h] at hpop
  exact (waitRx hwait).trans hpop

theorem sockRecvfromResume {sock : σ} {len : ℕ} {r : ℤ × Sockaddr × List (BitVec 8)}
    (h : sockRecvfromResume cfg s sock len = some (s', r)) : SameLinks s s' := by
  obtain ⟨s₁, hwait, h⟩ := Option.bind_eq_some_iff.1 h
  have hpop := popRx s₁ sock
  generalize Gracemont.popRx s₁ sock = p at hpop h
  rcases p with ⟨s₂, _ | zb⟩
  · cases h
    exact (waitRx hwait).trans hpop
  · cases h
    exact ((waitRx hwait).trans hpop).trans (copyOut cfg s₂ zb len)

/-! ### The timer -/

omit [DecidableEq α] [DecidableEq σ] in
theorem rtoBackoff (s : NetStack α σ) (sock : σ) : SameLinks s (rtoBackoff s sock) :=
  ⟨fun _ => rfl, rfl, rfl, rfl, rfl, rfl⟩

theorem resend (s : NetStack α σ) (sock : σ) (flags : BitVec 8) (data : Option α) :
    SameLinks s (resend cfg s sock flags data) :=
  (modify s sock rfl).trans (tcpSendSegment cfg _ sock flags data)

omit [DecidableEq α] in
theorem timerTimeWait (s : NetStack α σ) (sock : σ) : SameLinks s (timerTimeWait s sock) := by
  unfold Gracemont.timerTimeWait
  split_ifs
  · exact modify s sock rfl
  · exact refl s

theorem timerSyn (s : NetStack α σ) (sock : σ) : SameLinks s (timerSyn cfg s sock) := by
  unfold Gracemont.timerSyn
  simp only
  split_ifs
  · exact (rtoBackoff s sock).trans (resend cfg _ sock _ _)
  · exact (rtoBackoff s sock).trans (resend cfg _ sock _ _)
  · exact (modify s sock rfl).trans (modify _ sock rfl)
  · exact refl s

theorem timerEstablished (s : NetStack α σ) (sock : σ) :
    SameLinks s (timerEstablished cfg s sock) := by
  unfold Gracemont.timerEstablished
  split_ifs
  · have hback := rtoBackoff s sock
    generalize Gracemont.rtoBackoff s sock = s₁ at hback ⊢
    simp only
    rcases zbufQueuePeek (s₁.sock sock).txQueue with _ | zb
    · exact hback
    · exact (hback.trans (of_transmitted (.of_pool s₁ _ s₁.ipId))).trans (resend cfg _ sock _ _)
  · exact (modify s sock rfl).trans (modify _ sock rfl)
  · exact refl s

theorem timerFin (s : NetStack α σ) (sock : σ) : SameLinks s (timerFin cfg s sock) := by
  unfold Gracemont.timerFin
  split_ifs
  · exact (rtoBackoff s sock).trans (resend cfg _ sock _ _)
  · exact modify s sock rfl
  · exact refl s

theorem tcpTimer {fuel : ℕ} (h : tcpTimer cfg fuel s = some s') : SameLinks s s' := by
  refine Lib.Loop.run_rule (I := fun cur => SameLinks s cur.1) (Q := SameLinks s) ?_ ?_ h (refl s)
  · rintro ⟨s₁, _ | sock⟩ t hs₁ hbody
    · cases hbody
    · cases hbody
      exact (((hs₁.trans (timerTimeWait s₁ sock)).trans (timerSyn cfg _ sock)).trans
        (timerEstablished cfg _ sock)).trans (timerFin cfg _ sock)
  · rintro ⟨s₁, _ | sock⟩ b hs₁ hbody
    · cases hbody
      exact hs₁
    · cases hbody

/-! ### Flushing a queue -/

omit [DecidableEq σ] in
theorem flush {fuel : ℕ} {q : ZbufQueue α} {r : NetStack α σ × ZbufQueue α}
    (h : Lib.Loop.run (flushBody cfg) fuel (s, q) = some r) : SameLinks s r.1 :=
  of_transmitted (.flush cfg h)

end SameLinks

/-! ## What changes -/

/-- The call creates a socket. -/
def SocketCall.creates : SocketCall α σ → Bool
  | socket _ _ => true
  | _ => false

/-- What a call does to the links between `s` and `s'`. -/
inductive Relinks (s s' : NetStack α σ) : SocketCall α σ → Prop
  | same {call} : call.creates = false → SameLinks s s' → Relinks s s' call
  | noMem {type} : s' = s → Relinks s s' (.socket type none)
  | socket {type x s₁} : s.live x = false → (∀ y, y ≠ x → s₁.sock y = s.sock y) →
      SameLinks s s₁ → s' = { s₁.setSlot s.nextFd (some x) with
        live := Function.update s₁.live x true, nextFd := toInt32 (s.nextFd + 1) } →
      Relinks s s' (.socket type (some x))
  | listen {fd x s₁} : s.lookup fd = some x → (s.sock x).type = sockStream → SameLinks s s₁ →
      s' = { s₁.modify x fun k => { k with next := s.tcpListenList } with
        tcpListenList := some x } →
      Relinks s s' (.listen fd)
  | connect {fd addr x s₁} : s.lookup fd = some x → SameLinks s s₁ →
      s' = { s₁.modify x fun k => { k with next := s.tcpConnList } with tcpConnList := some x } →
      Relinks s s' (.connect fd addr)
  | close {fd x s₁} : s.lookup fd = some x → SameLinks s s₁ →
      s' = { s₁.setSlot fd none with live := Function.update s₁.live x false } →
      Relinks s s' (.close fd)

section
variable {cfg} {s s' : NetStack α σ} {fd : ℤ}

omit [DecidableEq α] in
theorem modify_sock_of_ne (s : NetStack α σ) {x y : σ} (h : y ≠ x) (f : Socket α σ → Socket α σ) :
    (s.modify x f).sock y = s.sock y := s.sock.modify_of_ne h f

omit [DecidableEq α] in
/-- A new socket gets the next descriptor, and the place of that in the table. -/
theorem sockSocket_relinks {type : ℤ} {x : σ} (hx : s.live x = false) :
    Relinks (α := α) s (sockSocket s type (some x)).1 (.socket type (some x)) := by
  have hlinks : SameLinks s ((s.modify x fun k => k.init type).modify x fun k =>
      { k with fd := s.nextFd }) := (SameLinks.modify s x rfl).trans (.modify _ x rfl)
  refine .socket hx ?_ hlinks rfl
  intro y hy
  rw [modify_sock_of_ne _ hy, modify_sock_of_ne _ hy]

omit [DecidableEq α] in
/-- A listening socket is pushed onto its list. -/
theorem sockListen_relinks (s : NetStack α σ) (fd : ℤ) :
    Relinks s (sockListen s fd).1 (.listen fd) := by
  unfold sockListen
  rcases hx : s.lookup fd with _ | x
  · exact .same rfl (.refl s)
  simp only
  by_cases htype : (s.sock x).type ≠ sockStream
  · rw [if_pos htype]
    exact .same rfl (.refl s)
  · rw [if_neg htype]
    have hlinks : SameLinks s (s.modify x fun k => { k with state := .listen }) :=
      .modify s x rfl
    exact .listen hx (not_not.1 htype) hlinks rfl

/-- A connecting socket is pushed onto its list. -/
theorem sockConnect_relinks (s : NetStack α σ) (fd : ℤ) (addr : Sockaddr) :
    Relinks s (sockConnect cfg s fd addr).1 (.connect fd addr) := by
  unfold sockConnect
  rcases hx : s.lookup fd with _ | x
  · exact .same rfl (.refl s)
  simp only
  generalize hm : s.modify x _ = s₁
  have hs₁ : SameLinks s s₁ := by
    rw [← hm]
    exact .modify s x rfl
  have hsend := hs₁.trans (SameLinks.tcpSendSegment cfg s₁ x tcpFlagSyn none)
  refine .connect hx hsend ?_
  rw [hsend.tcpConnList]

/-- A closed socket leaves the table, and is freed. -/
theorem sockClose_relinks {fuel : ℕ} {n : ℤ} (h : sockClose cfg fuel s fd = some (s', n)) :
    Relinks s s' (.close fd) := by
  unfold sockClose at h
  rcases hx : s.lookup fd with _ | x
  · rw [hx] at h
    cases h
    exact .same rfl (.refl s)
  rw [hx] at h
  simp only at h
  generalize hfin : (if (s.sock x).type = sockStream ∧ (s.sock x).state = .established then _
    else s) = s₁ at h
  have hs₁ : SameLinks s s₁ := by
    rw [← hfin]
    split_ifs
    · exact (SameLinks.modify s x rfl).trans (.tcpSendSegment cfg _ x _ _)
    · exact .refl s
  obtain ⟨⟨s₂, q₂⟩, hrx, h⟩ := Option.bind_eq_some_iff.1 h
  obtain ⟨⟨s₃, q₃⟩, htx, h⟩ := Option.bind_eq_some_iff.1 h
  have hs₂ : SameLinks s s₂ := hs₁.trans (.flush cfg hrx)
  have hs₃ := (hs₂.trans (.modify s₂ x rfl)).trans (.flush cfg htx)
  cases h
  exact .close hx (hs₃.trans (.modify s₃ x rfl)) rfl

/-- **What a call does.** -/
theorem SocketCall.relinks {fuel : ℕ} {call : SocketCall α σ} (h : call.run cfg fuel s = some s') :
    Relinks s s' call := by
  cases call with
  | socket type mem =>
    simp only [run] at h
    split_ifs at h with hfresh
    cases h
    rcases mem with _ | x
    · exact .noMem rfl
    · exact sockSocket_relinks (by simpa using hfresh)
  | bind fd addr => cases h; exact .same rfl (.sockBind fd addr)
  | listen fd => cases h; exact sockListen_relinks s fd
  | connect fd addr => cases h; exact sockConnect_relinks s fd addr
  | send fd data => cases h; exact .same rfl (.sockSend cfg fd data)
  | sendZbuf fd zb => cases h; exact .same rfl (.sockSendZbuf cfg fd zb)
  | sendto fd data dst => cases h; exact .same rfl (.sockSendto cfg fd data dst)
  | arrive zb => exact .same rfl (.tcpInput cfg h)
  | timer => exact .same rfl (.tcpTimer cfg h)
  | accepted fd sock =>
    obtain ⟨r, hr, rfl⟩ := Option.map_eq_some_iff.1 h
    exact .same rfl (.sockAcceptResume hr)
  | connected sock =>
    obtain ⟨r, hr, rfl⟩ := Option.map_eq_some_iff.1 h
    exact .same rfl (.sockConnectResume hr)
  | received sock len =>
    obtain ⟨r, hr, rfl⟩ := Option.map_eq_some_iff.1 h
    exact .same rfl (.sockRecvResume cfg hr)
  | receivedZbuf sock =>
    obtain ⟨r, hr, rfl⟩ := Option.map_eq_some_iff.1 h
    exact .same rfl (.sockRecvZbufResume hr)
  | receivedFrom sock len =>
    obtain ⟨r, hr, rfl⟩ := Option.map_eq_some_iff.1 h
    exact .same rfl (.sockRecvfromResume cfg hr)
  | close fd =>
    obtain ⟨r, hr, rfl⟩ := Option.map_eq_some_iff.1 h
    exact sockClose_relinks hr

end

/-! ## A small network -/

/-- A network that has just started, with memory for 65 sockets. -/
def demoSockets : NetStack (Fin 2) (Fin 65) where
  pool := demoStack.pool
  sock := fun _ =>
    ⟨0, sockStream, .closed, ⟨0, 0⟩, ⟨0, 0⟩, 0, 0, 0, 0, zbufQueueInit, zbufQueueInit, 0, 0, none⟩
  live := fun _ => false
  socketTable := fun _ => none
  nextFd := 0
  tcpListenList := none
  tcpConnList := none
  tcpRto := demoStack.tcpRto
  arpCache := []
  ipId := 0
  ticks := 0
  log := []

/-- A call with the pool and the clock of that network. -/
def demoCall (call : SocketCall (Fin 2) (Fin 65)) : TcpEnv (Fin 2) × SocketCall (Fin 2) (Fin 65) :=
  (⟨demoSockets.pool, 0⟩, call)

def demoRun (s : NetStack (Fin 2) (Fin 65)) (e : TcpEnv (Fin 2) × SocketCall (Fin 2) (Fin 65)) :
    Option (NetStack (Fin 2) (Fin 65)) := e.2.run demoNet 2 (s.meets e.1)

theorem demoRun_step (s : NetStack (Fin 2) (Fin 65)) e s' (h : demoRun s e = some s') :
    (socketLts demoNet).step s e s' := ⟨2, h⟩

theorem demoSockets_start : SocketsStart demoSockets := ⟨fun _ => rfl, rfl, rfl, rfl⟩

end Gracemont
