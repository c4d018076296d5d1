/-
  Gracemont networking — the lists of sockets.

  A socket is linked into a list by one pointer, and is never taken off.  A list
  stays null-terminated if nothing is pushed onto it twice, also if it shares
  nodes with the other one (`Lib.Path.redirect`); `sock_close` frees a socket
  wherever it is linked.

  * `NoDangling`: lists and table hold allocated sockets only, each once;
  * `Unlinked`: sockets are pushed onto a list once, and not closed while they
    are on one;
  * `no_dangling_sockets`: then every run keeps `NoDangling`, and the stack
    consumes every frame (`NoDangling.consumes`).
-/
import Gracemont.Net.Ownership
import Gracemont.Net.SocketRun

namespace Gracemont

variable {α σ : Type}

/-! ## Lists -/

/-- The socket is on the list from `head` on. -/
def OnList (s : NetStack α σ) (head : Option σ) (x : σ) : Prop :=
  ∃ l, Lib.Path (s.sock.field Socket.next) head l ∧ x ∈ l

/-- The list from `head` on is null-terminated, and holds allocated sockets, each
    once. -/
def LiveList (s : NetStack α σ) (head : Option σ) : Prop :=
  ∃ l, Lib.Path (s.sock.field Socket.next) head l ∧ l.Nodup ∧ ∀ x ∈ l, s.live x = true

/-- What is reachable is allocated, and reachable once from each structure. -/
structure NoDangling (s : NetStack α σ) : Prop where
  listen : LiveList s s.tcpListenList
  conn : LiveList s s.tcpConnList
  table : ∀ i x, s.socketTable i = some x → s.live x = true
  once : ∀ i j x, s.socketTable i = some x → s.socketTable j = some x → i = j

/-- Only a socket that is not listening is made to listen, only one that never
    connected connects, and only one that did neither is closed.  Negative
    descriptors would lie before the table. -/
def Unlinked (s : NetStack α σ) (e : TcpEnv α × SocketCall α σ) : Prop :=
  match e.2 with
  | .socket _ _ => 0 ≤ s.nextFd
  | .listen fd => 0 ≤ fd ∧ ∀ x, s.lookup fd = some x → (s.sock x).type = sockStream →
      ¬ OnList s s.tcpListenList x
  | .connect fd _ => 0 ≤ fd ∧ ∀ x, s.lookup fd = some x → ¬ OnList s s.tcpConnList x
  | .close fd => 0 ≤ fd ∧ ∀ x, s.lookup fd = some x →
      ¬ OnList s s.tcpListenList x ∧ ¬ OnList s s.tcpConnList x
  | .bind fd _ | .accepted fd _ | .send fd _ | .sendZbuf fd _ | .sendto fd _ _ => 0 ≤ fd
  | _ => True

section
variable {s s' : NetStack α σ} {head head' : Option σ} {x : σ}

theorem LiveList.not_mem (hx : ¬ OnList s head x) {l : List σ}
    (hl : Lib.Path (s.sock.field Socket.next) head l) : x ∉ l := fun h => hx ⟨l, hl, h⟩

/-- The links are the same, and no socket of the list is freed. -/
theorem LiveList.keep (h : LiveList s head) (hnext : ∀ y, (s'.sock y).next = (s.sock y).next)
    (hlive : ∀ y, OnList s head y → s.live y = true → s'.live y = true) : LiveList s' head := by
  obtain ⟨l, hpath, hnodup, hl⟩ := h
  refine ⟨l, hpath.congr fun y _ => hnext y, hnodup, fun y hy => ?_⟩
  exact hlive y ⟨l, hpath, hy⟩ (hl y hy)

variable [DecidableEq σ]

/-- A socket is pushed onto the list. -/
theorem LiveList.push (h : LiveList s head) (hx : ¬ OnList s head x) (hxlive : s.live x = true)
    (hnext : s'.sock.field Socket.next = Function.update (s.sock.field Socket.next) x head)
    (hlive : s'.live = s.live) : LiveList s' (some x) := by
  obtain ⟨l, hpath, -, hl⟩ := h
  have hpush := hpath.push (not_mem hx hpath)
  rw [← hnext] at hpush
  refine ⟨x :: l, hpush, hpush.nodup, ?_⟩
  rw [hlive]
  intro y hy
  rcases List.mem_cons.1 hy with rfl | hy
  · exact hxlive
  · exact hl y hy

/-- A socket, which may be on this list, is pushed onto another one. -/
theorem LiveList.redirect (h : LiveList s head) (h' : LiveList s head') (hx : ¬ OnList s head' x)
    (hnext : s'.sock.field Socket.next = Function.update (s.sock.field Socket.next) x head')
    (hlive : s'.live = s.live) : LiveList s' head := by
  obtain ⟨l, hpath, -, hl⟩ := h
  obtain ⟨m, hpath', -, hm⟩ := h'
  obtain ⟨l', hl', hsub⟩ := hpath.redirect hpath' (not_mem hx hpath')
  rw [← hnext] at hl'
  refine ⟨l', hl', hl'.nodup, ?_⟩
  rw [hlive]
  intro y hy
  rcases hsub y hy with hy | hy
  · exact hl y hy
  · exact hm y hy

end

/-! ## Steps -/

namespace NoDangling
variable {s s' : NetStack α σ}

theorem of_sameLinks (h : NoDangling s) (hs : SameLinks s s') : NoDangling s' := by
  have hlive : ∀ head y, OnList s head y → s.live y = true → s'.live y = true := by
    intro head y _ hy
    rw [hs.live]
    exact hy
  refine ⟨?_, ?_, ?_, ?_⟩
  · rw [hs.tcpListenList]
    exact h.listen.keep hs.next (hlive _)
  · rw [hs.tcpConnList]
    exact h.conn.keep hs.next (hlive _)
  · rw [hs.socketTable, hs.live]
    exact h.table
  · rw [hs.socketTable]
    exact h.once

variable [DecidableEq σ] {x : σ} {fd : ℤ}

/-- A new socket is stored in the table, perhaps over another one. -/
theorem socket (h : NoDangling s) (hx : s.live x = false) (hs : SameLinks s s') {i : ℤ} {nextFd : ℤ} :
    NoDangling { s' with
      socketTable := Function.update s'.socketTable i (some x)
      live := Function.update s'.live x true, nextFd := nextFd } := by
  have hlive : ∀ y, s.live y = true → Function.update s'.live x true y = true := by
    intro y hy
    rw [Function.update_apply, hs.live, hy, ite_self]
  have htable : ∀ j y, Function.update s'.socketTable i (some x) j = some y → y ≠ x →
      s.socketTable j = some y := by
    intro j y hj hy
    by_cases hij : j = i
    · rw [hij, Function.update_self] at hj
      exact absurd (Option.some.inj hj).symm hy
    · rwa [Function.update_of_ne hij, hs.socketTable] at hj
  have hnew : ∀ j, Function.update s'.socketTable i (some x) j = some x → j = i := by
    intro j hj
    by_contra hij
    rw [Function.update_of_ne hij, hs.socketTable] at hj
    rw [h.table j x hj] at hx
    cases hx
  refine ⟨?_, ?_, ?_, ?_⟩
  · show LiveList _ s'.tcpListenList
    rw [hs.tcpListenList]
    exact h.listen.keep hs.next fun y _ => hlive y
  · show LiveList _ s'.tcpConnList
    rw [hs.tcpConnList]
    exact h.conn.keep hs.next fun y _ => hlive y
  · intro j y hj
    by_cases hy : y = x
    · rw [hy]
      exact Function.update_self ..
    · exact hlive y (h.table j y (htable j y hj hy))
  · intro j k y hj hk
    by_cases hy : y = x
    · subst hy
      rw [hnew j hj, hnew k hk]
    · exact h.once j k y (htable j y hj hy) (htable k y hk hy)

/-- A socket that is on no list leaves the table, and is freed. -/
theorem close (h : NoDangling s) (hx : s.lookup fd = some x)
    (hlisten : ¬ OnList s s.tcpListenList x) (hconn : ¬ OnList s s.tcpConnList x)
    (hs : SameLinks s s') :
    NoDangling { s'.setSlot fd none with live := Function.update s'.live x false } := by
  have hlive : ∀ y, y ≠ x → Function.update s'.live x false y = s.live y := by
    intro y hy
    rw [Function.update_of_ne hy, hs.live]
  have htable : ∀ j y, (s'.setSlot fd none).socketTable j = some y →
      s.socketTable j = some y ∧ y ≠ x := by
    intro j y hj
    by_cases hij : j = fdSlot fd
    · rw [hij, NetStack.setSlot] at hj
      simp at hj
    · have hj' : s.socketTable j = some y := by
        rw [← hj, ← hs.socketTable]
        exact (Function.update_of_ne hij ..).symm
      refine ⟨hj', ?_⟩
      rintro rfl
      exact hij (h.once j _ y hj' hx)
  have hkeep : ∀ head, LiveList s head → ¬ OnList s head x →
      LiveList { s' with live := Function.update s'.live x false } head := by
    intro head hlist hx
    refine hlist.keep hs.next fun y hy hylive => ?_
    have hne : y ≠ x := by
      rintro rfl
      exact hx hy
    exact (hlive y hne).trans hylive
  refine ⟨?_, ?_, ?_, ?_⟩
  · show LiveList _ s'.tcpListenList
    rw [hs.tcpListenList]
    exact hkeep _ h.listen hlisten
  · show LiveList _ s'.tcpConnList
    rw [hs.tcpConnList]
    exact hkeep _ h.conn hconn
  · intro j y hj
    obtain ⟨hj, hy⟩ := htable j y hj
    exact (hlive y hy).trans (h.table j y hj)
  · intro j k y hj hk
    exact h.once j k y (htable j y hj).1 (htable k y hk).1

/-- A socket is pushed onto the list of listening sockets. -/
theorem pushListen (h : NoDangling s) (hxlive : s.live x = true)
    (hx : ¬ OnList s s.tcpListenList x) (hs : SameLinks s s') :
    NoDangling { s'.modify x fun k => { k with next := s.tcpListenList } with
      tcpListenList := some x } := by
  have hnext : (s'.sock.modify x fun k => { k with next := s.tcpListenList }).field Socket.next =
      Function.update (s.sock.field Socket.next) x s.tcpListenList := by
    rw [Lib.Store.field_modify]
    exact congrArg (Function.update · x s.tcpListenList) (funext hs.next)
  refine ⟨h.listen.push hx hxlive hnext hs.live, ?_, ?_, ?_⟩
  · show LiveList _ s'.tcpConnList
    rw [hs.tcpConnList]
    exact h.conn.redirect h.listen hx hnext hs.live
  · exact (h.of_sameLinks hs).table
  · exact (h.of_sameLinks hs).once

/-- A socket is pushed onto the list of connections. -/
theorem pushConn (h : NoDangling s) (hxlive : s.live x = true) (hx : ¬ OnList s s.tcpConnList x)
    (hs : SameLinks s s') :
    NoDangling { s'.modify x fun k => { k with next := s.tcpConnList } with
      tcpConnList := some x } := by
  have hnext : (s'.sock.modify x fun k => { k with next := s.tcpConnList }).field Socket.next =
      Function.update (s.sock.field Socket.next) x s.tcpConnList := by
    rw [Lib.Store.field_modify]
    exact congrArg (Function.update · x s.tcpConnList) (funext hs.next)
  refine ⟨?_, h.conn.push hx hxlive hnext hs.live, ?_, ?_⟩
  · show LiveList _ s'.tcpListenList
    rw [hs.tcpListenList]
    exact h.listen.redirect h.conn hx hnext hs.live
  · exact (h.of_sameLinks hs).table
  · exact (h.of_sameLinks hs).once

/-- **Step.** -/
theorem relinks (h : NoDangling s) {env : TcpEnv α} {call : SocketCall α σ}
    (he : Unlinked s (env, call)) (hlinks : Relinks s s' call) : NoDangling s' := by
  cases hlinks with
  | same _ hsame => exact h.of_sameLinks hsame
  | noMem heq => rw [heq]; exact h
  | socket hx _ hsame heq =>
    rw [heq]
    exact h.socket hx hsame
  | listen hx htype hsame heq =>
    rw [heq]
    exact h.pushListen (h.table _ _ hx) (he.2 _ hx htype) hsame
  | connect hx hsame heq =>
    rw [heq]
    exact h.pushConn (h.table _ _ hx) (he.2 _ hx) hsame
  | close hx hsame heq =>
    rw [heq]
    obtain ⟨hlisten, hconn⟩ := he.2 _ hx
    exact h.close hx hlisten hconn hsame

end NoDangling

section
variable [DecidableEq α] [DecidableEq σ] {cfg : NetConfig α} {s : NetStack α σ}

/-- **No dangling sockets.**  If sockets are pushed onto a list once, and not closed
    while they are on one, then after any calls in any order every socket on the
    lists and in the table is allocated, and there once. -/
theorem no_dangling_sockets {tr : List (TcpEnv α × SocketCall α σ)}
    (h : ((socketLts cfg).restrict Unlinked).Run tr s) : NoDangling s := by
  refine h.rule (P := fun _ s => NoDangling s) ?_ ?_
  · intro s h0
    refine ⟨⟨[], h0.tcpListenList, List.nodup_nil, by simp⟩,
      ⟨[], h0.tcpConnList, List.nodup_nil, by simp⟩, ?_, ?_⟩
    · intro i x hi
      rw [h0.socketTable] at hi
      cases hi
    · intro i j x hi
      rw [h0.socketTable] at hi
      cases hi
  · intro tr s e s' hs hstep
    obtain ⟨he, fuel, hrun⟩ := hstep
    have hmeets := hs.of_sameLinks (.meets s e.1)
    have he' : Unlinked (s.meets e.1) e := he
    exact hmeets.relinks he' (SocketCall.relinks hrun)

/-- Where no socket dangles, `netif_input` consumes every frame. -/
theorem NoDangling.consumes (h : NoDangling s) (nif : IpNetif α) (zb : α) :
    ∃ fuel s', netifInput cfg fuel nif s zb = some s' ∧ Consumed zb s s' := by
  obtain ⟨conns, hconns, -⟩ := h.conn
  obtain ⟨listeners, hlisteners, -⟩ := h.listen
  have hlists : SocketLists s conns listeners := ⟨hconns, hlisteners⟩
  obtain ⟨fuel, s', hin⟩ := (netifInput_returns_iff cfg nif zb).2 fun _ => hlists.lookupEnds _
  exact ⟨fuel, s', hin, netifInput_consumed cfg hin⟩

end

/-- A server is bound and listens. -/
def demoServer : List (TcpEnv (Fin 2) × SocketCall (Fin 2) (Fin 65)) :=
  [.socket sockStream (some 0), .bind 0 ⟨0, 80⟩, .listen 0].map demoCall

theorem demoServer_runs : (Lib.Lts.exec demoRun demoSockets demoServer).isSome := by decide +kernel

theorem no_dangling_sockets_server : ∃ s : NetStack (Fin 2) (Fin 65),
    s.tcpListenList = some 0 ∧ NoDangling s := by
  have hrun : ((socketLts demoNet).restrict Unlinked).Run demoServer _ :=
    Lib.Lts.run_of_exec_restrict demoRun_step demoSockets_start
      (Option.some_get demoServer_runs).symm fun i hi => ?_
  · exact ⟨_, by decide +kernel, no_dangling_sockets hrun⟩
  have hi : i = 0 ∨ i = 1 ∨ i = 2 := by
    have hlen : demoServer.length = 3 := rfl
    omega
  rcases hi with rfl | rfl | rfl
  · show (0 : ℤ) ≤ _
    decide +kernel
  · show (0 : ℤ) ≤ _
    decide +kernel
  · refine ⟨by decide +kernel, ?_⟩
    rintro x - - ⟨l, hpath, hx⟩
    -- nothing listens yet
    rcases l with _ | ⟨y, l⟩
    · cases hx
    · cases hpath.1

/-- A segment arrives. -/
def demoArrival (z : Zbuf (Fin 2)) : TcpEnv (Fin 2) × SocketCall (Fin 2) (Fin 65) :=
  (⟨{ demoSockets.pool with zb := fun _ => z }, 0⟩, .arrive 0)

/-- The server accepts a connection of `10.0.0.2`, and closes it. -/
def demoServed : List (TcpEnv (Fin 2) × SocketCall (Fin 2) (Fin 65)) :=
  demoServer ++
    [demoArrival (demoSegment 0x0A000002 8080 80 0 0 tcpFlagSyn []),
      demoArrival (demoSegment 0x0A000002 8080 80 1 1 tcpFlagAck []),
      demoCall (.accepted 0 0), demoCall (.close 0)]

theorem demoServed_runs : (Lib.Lts.exec demoRun demoSockets demoServed).isSome := by decide +kernel

theorem dangling_listener : ¬ ∀ (tr : List (TcpEnv (Fin 2) × SocketCall (Fin 2) (Fin 65))) s,
    (socketLts demoNet).Run tr s → NoDangling s := by
  intro h
  have hrun : (socketLts demoNet).Run demoServed _ :=
    Lib.Lts.run_of_exec demoRun_step demoSockets_start (Option.some_get demoServed_runs).symm
  obtain ⟨l, hpath, -, hlive⟩ := (h _ _ hrun).listen
  -- the freed socket is still the head of the list
  have hhead := hpath.head_eq
  have hmem : (0 : Fin 65) ∈ l := by
    refine List.mem_of_head? (hhead.symm.trans ?_)
    decide +kernel
  exact absurd (hlive 0 hmem) (by decide +kernel)

end Gracemont
