/-
  Gracemont networking — the socket table.

  Descriptors count up, and the table is indexed with their remainder: a new
  socket is stored over the one that is there, open or not.

  * `nextFds`: the open descriptors with their sockets, as a ghost;
  * `Resolves`: every open descriptor resolves to its own socket;
  * `SlotFree`: new sockets find their place empty, and only open descriptors are
    closed;
  * `socket_table`: then every run keeps `Resolves`.
-/
import Gracemont.Net.SocketRun

namespace Gracemont

variable {α σ : Type}

/-! ## Open descriptors -/

/-- The descriptors that were returned and not closed, with the socket that they
    were returned for.  `sock_accept` returns the descriptor it is called with,
    for the socket it waited on. -/
def nextFds [DecidableEq σ] (s : NetStack α σ) (e : TcpEnv α × SocketCall α σ) (_ : NetStack α σ)
    (fds : List (ℤ × σ)) : List (ℤ × σ) :=
  match e.2 with
  | .socket type (some x) => fds ++ [((sockSocket s type (some x)).2, x)]
  | .accepted fd x => if (fd, x) ∈ fds then fds else fds ++ [(fd, x)]
  | .close fd => fds.filter fun p => p.1 ≠ fd
  | _ => fds

/-- Every open descriptor resolves to its own socket, which is allocated. -/
structure Resolves (s : NetStack α σ) (fds : List (ℤ × σ)) : Prop where
  own : ∀ p ∈ fds, s.lookup p.1 = some p.2 ∧ s.live p.2 = true
  distinct : ∀ p ∈ fds, ∀ q ∈ fds, s.lookup p.1 = s.lookup q.1 → p.1 = q.1

/-- Creating a socket evicts and overwrites no open one. -/
def NotEvicted (p : NetStack α σ × List (ℤ × σ)) (e : TcpEnv α × SocketCall α σ)
    (s' : NetStack α σ) : Prop :=
  match e.2 with
  | .socket _ _ => ∀ q ∈ p.2, s'.lookup q.1 = some q.2 ∧ s'.sock q.2 = p.1.sock q.2
  | _ => True

/-- A new socket finds its place empty; `sock_accept` returns while its descriptor
    is open; only an open descriptor is closed, or one whose place is empty.
    Negative descriptors would lie before the table. -/
def SlotFree (p : NetStack α σ × List (ℤ × σ)) (e : TcpEnv α × SocketCall α σ) : Prop :=
  match e.2 with
  | .socket _ (some _) => 0 ≤ p.1.nextFd ∧ p.1.lookup p.1.nextFd = none
  | .accepted fd x => (fd, x) ∈ p.2
  | .close fd => 0 ≤ fd ∧ ((∃ x, (fd, x) ∈ p.2) ∨ p.1.lookup fd = none)
  | _ => True

/-! ## Steps -/

namespace Resolves
variable {s s' : NetStack α σ} {fds : List (ℤ × σ)} {fd : ℤ} {x : σ}

/-- The table and the heap are the same. -/
theorem of_same (h : Resolves s fds) (htable : s'.socketTable = s.socketTable)
    (hlive : s'.live = s.live) : Resolves s' fds := by
  have hlookup : ∀ fd, s'.lookup fd = s.lookup fd := by
    intro fd
    rw [NetStack.lookup, htable]
    rfl
  refine ⟨?_, ?_⟩
  · intro p hp
    rw [hlookup, hlive]
    exact h.own p hp
  · intro p hp q hq hpq
    rw [hlookup, hlookup] at hpq
    exact h.distinct p hp q hq hpq

theorem of_subset (h : Resolves s fds) {fds' : List (ℤ × σ)} (hsub : ∀ p ∈ fds', p ∈ fds) :
    Resolves s fds' :=
  ⟨fun p hp => h.own p (hsub p hp), fun p hp q hq => h.distinct p (hsub p hp) q (hsub q hq)⟩

theorem nil (s : NetStack α σ) : Resolves s [] := by
  refine ⟨?_, ?_⟩
  · intro p hp
    cases hp
  · intro p hp
    cases hp

/-- An open descriptor has its place to itself. -/
theorem slot_ne (h : Resolves s fds) {p : ℤ × σ} (hp : p ∈ fds) (hfd : s.lookup fd = none) :
    fdSlot p.1 ≠ fdSlot fd := by
  intro heq
  have hlookup : s.lookup p.1 = s.lookup fd := by rw [NetStack.lookup, heq]; rfl
  rw [hfd, (h.own p hp).1] at hlookup
  cases hlookup

variable [DecidableEq σ]

/-- A new socket in an empty place. -/
theorem socket (h : Resolves s fds) (hx : s.live x = false) (hfree : s.lookup fd = none)
    (hsame : ∀ i, i ≠ fdSlot fd → s'.socketTable i = s.socketTable i)
    (hself : s'.socketTable (fdSlot fd) = some x)
    (hlive : s'.live = Function.update s.live x true) : Resolves s' (fds ++ [(fd, x)]) := by
  have hold : ∀ p ∈ fds, p.2 ≠ x ∧ s'.lookup p.1 = s.lookup p.1 := by
    intro p hp
    refine ⟨?_, hsame _ (h.slot_ne hp hfree)⟩
    rintro rfl
    rw [(h.own p hp).2] at hx
    cases hx
  have hnew : s'.lookup fd = some x := hself
  refine ⟨?_, ?_⟩
  · intro p hp
    rcases List.mem_append.1 hp with hp | hp
    · obtain ⟨hne, hlookup⟩ := hold p hp
      rw [hlookup, hlive, Function.update_of_ne hne]
      exact h.own p hp
    · rw [List.mem_singleton.1 hp, hlive]
      exact ⟨hnew, Function.update_self ..⟩
  · intro p hp q hq hpq
    rcases List.mem_append.1 hp with hp | hp <;> rcases List.mem_append.1 hq with hq | hq
    · rw [(hold p hp).2, (hold q hq).2] at hpq
      exact h.distinct p hp q hq hpq
    · rw [List.mem_singleton.1 hq, hnew, (hold p hp).2, (h.own p hp).1] at hpq
      exact absurd (Option.some.inj hpq) (hold p hp).1
    · rw [List.mem_singleton.1 hp, hnew, (hold q hq).2, (h.own q hq).1] at hpq
      exact absurd (Option.some.inj hpq).symm (hold q hq).1
    · rw [List.mem_singleton.1 hp, List.mem_singleton.1 hq]

/-- An open descriptor is closed. -/
theorem close (h : Resolves s fds) (hx : (fd, x) ∈ fds)
    (hsame : ∀ i, i ≠ fdSlot fd → s'.socketTable i = s.socketTable i)
    (hlive : s'.live = Function.update s.live x false) :
    Resolves s' (fds.filter fun p => p.1 ≠ fd) := by
  have hfd := (h.own _ hx).1
  have hold : ∀ p ∈ fds, p.1 ≠ fd → p.2 ≠ x ∧ s'.lookup p.1 = s.lookup p.1 := by
    intro p hp hne
    refine ⟨?_, hsame _ fun heq => hne ?_⟩
    · rintro rfl
      refine hne (h.distinct p hp _ hx ?_)
      rw [(h.own p hp).1]
      exact hfd.symm
    · exact h.distinct p hp _ hx (by rw [NetStack.lookup, heq]; rfl)
  refine ⟨?_, ?_⟩
  · intro p hp
    obtain ⟨hp, hne⟩ := List.mem_filter.1 hp
    obtain ⟨hpx, hlookup⟩ := hold p hp (by simpa using hne)
    rw [hlookup, hlive, Function.update_of_ne hpx]
    exact h.own p hp
  · intro p hp q hq hpq
    obtain ⟨hp, hpne⟩ := List.mem_filter.1 hp
    obtain ⟨hq, hqne⟩ := List.mem_filter.1 hq
    rw [(hold p hp (by simpa using hpne)).2, (hold q hq (by simpa using hqne)).2] at hpq
    exact h.distinct p hp q hq hpq

end Resolves

section
variable [DecidableEq α] [DecidableEq σ] {cfg : NetConfig α} {s s' : NetStack α σ}
  {fds : List (ℤ × σ)}

omit [DecidableEq α] in
/-- **Step.** -/
theorem Resolves.relinks (h : Resolves s fds) {env : TcpEnv α} {call : SocketCall α σ}
    (he : SlotFree (s, fds) (env, call)) (hlinks : Relinks s s' call) :
    Resolves s' (nextFds s (env, call) s' fds) ∧ NotEvicted (s, fds) (env, call) s' := by
  cases hlinks with
  | same hcreates hsame =>
    have hsame' := h.of_same hsame.socketTable hsame.live
    cases call with
    | socket type mem => cases hcreates
    | accepted fd x =>
      have hopen : (fd, x) ∈ fds := he
      simp only [nextFds, if_pos hopen]
      exact ⟨hsame', trivial⟩
    | close fd => exact ⟨hsame'.of_subset fun p hp => (List.mem_filter.1 hp).1, trivial⟩
    | _ => exact ⟨hsame', trivial⟩
  | noMem heq =>
    subst heq
    exact ⟨h, fun q hq => ⟨(h.own q hq).1, rfl⟩⟩
  | @socket type x s₁ hx hothers hsame heq =>
    have htable : s'.socketTable = Function.update s.socketTable (fdSlot s.nextFd) (some x) := by
      rw [heq, ← hsame.socketTable]
      rfl
    have hlive : s'.live = Function.update s.live x true := by rw [heq, ← hsame.live]
    have hfds : Resolves s' (fds ++ [(s.nextFd, x)]) := by
      refine h.socket hx he.2 ?_ ?_ hlive
      · intro i hi
        rw [htable, Function.update_of_ne hi]
      · rw [htable, Function.update_self]
    refine ⟨hfds, fun q hq => ⟨(hfds.own q (List.mem_append_left _ hq)).1, ?_⟩⟩
    have hne : q.2 ≠ x := by
      intro hqx
      rw [← hqx, (h.own q hq).2] at hx
      cases hx
    rw [heq]
    exact hothers q.2 hne
  | listen hx htype hsame heq =>
    subst heq
    exact ⟨h.of_same hsame.socketTable hsame.live, trivial⟩
  | connect hx hsame heq =>
    subst heq
    exact ⟨h.of_same hsame.socketTable hsame.live, trivial⟩
  | @close fd x s₁ hx hsame heq =>
    obtain ⟨y, hy⟩ : ∃ y, (fd, y) ∈ fds := by
      rcases he.2 with hopen | hnone
      · exact hopen
      · have hnone' : s.lookup fd = none := hnone
        rw [hx] at hnone'
        cases hnone'
    obtain rfl : y = x := by
      have hlookup := (h.own _ hy).1
      rw [hx] at hlookup
      exact (Option.some.inj hlookup).symm
    refine ⟨h.close hy ?_ ?_, trivial⟩
    · intro i hi
      rw [heq, ← hsame.socketTable]
      exact Function.update_of_ne hi ..
    · rw [heq, ← hsame.live]

theorem Resolves.step (h : Resolves s fds) {e : TcpEnv α × SocketCall α σ} (he : SlotFree (s, fds) e)
    (hs : (socketLts cfg).step s e s') :
    Resolves s' (nextFds s e s' fds) ∧ NotEvicted (s, fds) e s' := by
  obtain ⟨fuel, hrun⟩ := hs
  have hmeets : Resolves (s.meets e.1) fds := h.of_same rfl rfl
  have he' : SlotFree (s.meets e.1, fds) e := he
  exact hmeets.relinks he' (SocketCall.relinks hrun)

/-- **The socket table.**  If new sockets find their place empty, and only open
    descriptors are closed, then after any calls in any order every open
    descriptor resolves to its own socket, and no creation has evicted one. -/
theorem socket_table {tr : List (TcpEnv α × SocketCall α σ)} {p : NetStack α σ × List (ℤ × σ)}
    {steps : List ((NetStack α σ × List (ℤ × σ)) × (TcpEnv α × SocketCall α σ) ×
      NetStack α σ × List (ℤ × σ))}
    (h : (((socketLts cfg).track (fun _ => []) nextFds).restrict SlotFree).history.Run tr
      (p, steps)) :
    Resolves p.1 p.2 ∧ ∀ w ∈ steps, NotEvicted w.1 w.2.1 w.2.2.1 := by
  refine h.history_rule (I := fun p => Resolves p.1 p.2) (P := fun p e p' => NotEvicted p e p'.1)
    ?_ ?_
  · intro p h0
    rw [h0.2]
    exact .nil p.1
  · intro p e p' hp hs
    obtain ⟨he, hstep, hfds⟩ := hs
    rw [hfds]
    exact hp.step he hstep

end

/-- Two sockets; the memory of the first is closed, and allocated again. -/
def demoReuse : List (TcpEnv (Fin 2) × SocketCall (Fin 2) (Fin 65)) :=
  [.socket sockStream (some 0), .socket sockStream (some 1), .close 0,
    .socket sockStream (some 0)].map demoCall

theorem demoReuse_runs :
    (Lib.Lts.exec (Lib.Lts.trackFun demoRun nextFds) (demoSockets, []) demoReuse).isSome := by
  decide +kernel

theorem socket_table_reuse : ∃ (s : NetStack (Fin 2) (Fin 65)) (fds : List (ℤ × Fin 65)),
    fds = [(1, 1), (2, 0)] ∧ Resolves s fds := by
  have hrun : (((socketLts demoNet).track (fun _ => []) nextFds).restrict SlotFree).Run
      demoReuse _ :=
    Lib.Lts.run_exec_track demoRun_step demoSockets_start (Option.some_get demoReuse_runs).symm
      fun i hi => ?_
  · obtain ⟨steps, hsteps⟩ := hrun.exists_history
    exact ⟨_, _, by decide +kernel, (socket_table hsteps).1⟩
  have hi : i = 0 ∨ i = 1 ∨ i = 2 ∨ i = 3 := by
    have hlen : demoReuse.length = 4 := rfl
    omega
  rcases hi with rfl | rfl | rfl | rfl
  · exact ⟨by decide +kernel, by decide +kernel⟩
  · exact ⟨by decide +kernel, by decide +kernel⟩
  · exact ⟨by decide +kernel, .inl ⟨0, by decide +kernel⟩⟩
  · exact ⟨by decide +kernel, by decide +kernel⟩

/-- 65 sockets. -/
def demoMany : List (TcpEnv (Fin 2) × SocketCall (Fin 2) (Fin 65)) :=
  (List.finRange 65).map fun i => demoCall (.socket sockStream (some i))

theorem demoMany_runs :
    (Lib.Lts.exec (Lib.Lts.trackFun demoRun nextFds) (demoSockets, []) demoMany).isSome := by
  decide +kernel

theorem socket_table_clash :
    ¬ ∀ (tr : List (TcpEnv (Fin 2) × SocketCall (Fin 2) (Fin 65))) p steps,
      ((socketLts demoNet).track (fun _ => []) nextFds).history.Run tr (p, steps) →
        Resolves p.1 p.2 ∧ ∀ w ∈ steps, NotEvicted w.1 w.2.1 w.2.2.1 := by
  intro h
  have hrun : (((socketLts demoNet).track (fun _ => []) nextFds).restrict
      fun _ _ => True).Run demoMany _ :=
    Lib.Lts.run_exec_track demoRun_step demoSockets_start (Option.some_get demoMany_runs).symm
      fun _ _ => trivial
  obtain ⟨steps, hsteps⟩ := hrun.of_restrict.exists_history
  have hown := (h _ _ _ hsteps).1.own (0, 0) (by decide +kernel)
  exact absurd hown.1 (by decide +kernel)

end Gracemont
