/-
  Gracemont networking — the connection lookup of TCP.

  `tcp_find_socket` walks two lists.  What it finds is the first socket of
  `tcp_conn_list` that has the addresses of the segment, and otherwise the first
  of `tcp_listen_list` that has its destination port (`tcpFindSocket_some`); it
  terminates exactly if both walks come to a match or to the end of their list
  (`tcpFindSocket_returns_iff`).
-/
import Gracemont.Lib.Path
import Gracemont.Net.Tcp

namespace Gracemont

variable {α σ : Type} {s : NetStack α σ} {p : Socket α σ → Bool} {head : Option σ}

/-- The first socket from `head` on that meets `p`. -/
def FirstMatch (s : NetStack α σ) (p : Socket α σ → Bool) (head : Option σ) (x : σ) : Prop :=
  ∃ l, Lib.Span (s.sock.field Socket.next) head l (some x) ∧ (∀ y ∈ l, p (s.sock y) = false) ∧
    p (s.sock x) = true

/-- No socket from `head` on meets `p`. -/
def NoMatch (s : NetStack α σ) (p : Socket α σ → Bool) (head : Option σ) : Prop :=
  ∃ l, Lib.Path (s.sock.field Socket.next) head l ∧ ∀ y ∈ l, p (s.sock y) = false

/-- The walk from `head` on comes to a match, or to the end of the list. -/
def WalkEnds (s : NetStack α σ) (p : Socket α σ → Bool) (head : Option σ) : Prop :=
  (∃ x, FirstMatch s p head x) ∨ NoMatch s p head

/-- Both walks of `tcp_find_socket` come to an end, as far as it gets to them. -/
def LookupEnds (s : NetStack α σ) (seg : TcpSegment) : Prop :=
  WalkEnds s (matchesConn seg) s.tcpConnList ∧
    (NoMatch s (matchesConn seg) s.tcpConnList →
      WalkEnds s (fun k => k.localAddr.port = seg.dstPort) s.tcpListenList)

/-! ## The loops -/

theorem findSock_some {fuel : ℕ} {x : σ}
    (h : Lib.Loop.run (findSockBody s p) fuel head = some (some x)) : FirstMatch s p head x := by
  induction fuel generalizing head with
  | zero => cases h
  | succ fuel ih =>
    rcases head with _ | y
    · cases h
    unfold Lib.Loop.run findSockBody at h
    by_cases hp : p (s.sock y) = true
    · simp only [if_pos hp] at h
      cases h
      exact ⟨[], rfl, by simp, hp⟩
    · simp only [if_neg hp] at h
      obtain ⟨l, hspan, hl, hx⟩ := ih h
      refine ⟨y :: l, ⟨rfl, hspan⟩, ?_, hx⟩
      intro z hz
      rcases List.mem_cons.1 hz with rfl | hz
      · exact Bool.eq_false_iff.2 hp
      · exact hl z hz

theorem findSock_none {fuel : ℕ} (h : Lib.Loop.run (findSockBody s p) fuel head = some none) :
    NoMatch s p head := by
  induction fuel generalizing head with
  | zero => cases h
  | succ fuel ih =>
    rcases head with _ | y
    · exact ⟨[], rfl, by simp⟩
    unfold Lib.Loop.run findSockBody at h
    by_cases hp : p (s.sock y) = true
    · simp only [if_pos hp] at h
      cases h
    · simp only [if_neg hp] at h
      obtain ⟨l, hpath, hl⟩ := ih h
      refine ⟨y :: l, ⟨rfl, hpath⟩, ?_⟩
      intro z hz
      rcases List.mem_cons.1 hz with rfl | hz
      · exact Bool.eq_false_iff.2 hp
      · exact hl z hz

/-- **The loop** over a null-terminated list finds its first match. -/
theorem findSock_find {l : List σ} (h : Lib.Path (s.sock.field Socket.next) head l) :
    Lib.Loop.Returns (findSockBody s p) head (l.find? fun y => p (s.sock y)) := by
  induction l generalizing head with
  | nil =>
    obtain rfl : head = none := h
    exact .of_inr rfl
  | cons y l ih =>
    obtain ⟨rfl, hpath⟩ := h
    rw [List.find?_cons]
    by_cases hp : p (s.sock y) = true
    · simp only [hp]
      exact .of_inr (if_pos hp)
    · simp only [hp]
      exact .of_inl (if_neg hp) (ih hpath)

theorem findSock_first {x : σ} (h : FirstMatch s p head x) :
    Lib.Loop.Returns (findSockBody s p) head (some x) := by
  obtain ⟨l, hspan, hl, hx⟩ := h
  induction l generalizing head with
  | nil =>
    obtain rfl : head = some x := hspan
    exact .of_inr (if_pos hx)
  | cons y l ih =>
    obtain ⟨rfl, hspan⟩ := hspan
    have hy : ¬ p (s.sock y) = true := by simp [hl y (List.mem_cons_self ..)]
    exact .of_inl (if_neg hy) (ih hspan fun z hz => hl z (List.mem_cons_of_mem _ hz))

theorem findSock_end (h : NoMatch s p head) :
    Lib.Loop.Returns (findSockBody s p) head none := by
  obtain ⟨l, hpath, hl⟩ := h
  have hfind : l.find? (fun y => p (s.sock y)) = none :=
    List.find?_eq_none.2 fun y hy => by simp [hl y hy]
  rw [← hfind]
  exact findSock_find hpath

/-! ## The lookup -/

variable {seg : TcpSegment}

/-- **What the lookup finds.** -/
theorem tcpFindSocket_some {fuel : ℕ} {x : σ} (h : tcpFindSocket s seg fuel = some (some x)) :
    FirstMatch s (matchesConn seg) s.tcpConnList x ∨
      NoMatch s (matchesConn seg) s.tcpConnList ∧
        FirstMatch s (fun k => k.localAddr.port = seg.dstPort) s.tcpListenList x := by
  obtain ⟨found, hfound, h⟩ := Option.bind_eq_some_iff.1 h
  rcases found with _ | y
  · exact .inr ⟨findSock_none hfound, findSock_some h⟩
  · cases h
    exact .inl (findSock_some hfound)

/-- **The lookup terminates** on null-terminated lists, with the first match. -/
theorem tcpFindSocket_find {conns listeners : List σ}
    (hc : Lib.Path (s.sock.field Socket.next) s.tcpConnList conns)
    (hl : Lib.Path (s.sock.field Socket.next) s.tcpListenList listeners) (seg : TcpSegment) :
    ∃ fuel, tcpFindSocket s seg fuel = some
      ((conns.find? fun y => matchesConn seg (s.sock y)).or
        (listeners.find? fun y => (s.sock y).localAddr.port = seg.dstPort)) := by
  obtain ⟨n, hn⟩ := findSock_find (p := matchesConn seg) hc
  obtain ⟨m, hm⟩ := findSock_find (p := fun k => k.localAddr.port = seg.dstPort) hl
  refine ⟨max n m, ?_⟩
  unfold tcpFindSocket
  rw [Lib.Loop.run_mono hn (Nat.le_max_left n m), Lib.Loop.run_mono hm (Nat.le_max_right n m)]
  rcases conns.find? fun y => matchesConn seg (s.sock y) with _ | x
  · rfl
  · rfl

/-- **When the lookup terminates.** -/
theorem tcpFindSocket_returns_iff :
    (∃ fuel r, tcpFindSocket s seg fuel = some r) ↔ LookupEnds s seg := by
  constructor
  · rintro ⟨fuel, r, h⟩
    obtain ⟨found, hfound, h⟩ := Option.bind_eq_some_iff.1 h
    rcases found with _ | x
    · refine ⟨.inr (findSock_none hfound), fun _ => ?_⟩
      rcases r with _ | y
      · exact .inr (findSock_none h)
      · exact .inl ⟨y, findSock_some h⟩
    · refine ⟨.inl ⟨x, findSock_some hfound⟩, fun hno => ?_⟩
      cases (findSock_end hno).eq_of_run hfound
  · rintro ⟨⟨x, hx⟩ | hno, hlisten⟩
    · obtain ⟨fuel, hfuel⟩ := findSock_first hx
      exact ⟨fuel, some x, Option.bind_eq_some_iff.2 ⟨some x, hfuel, rfl⟩⟩
    · obtain ⟨n, hn⟩ := findSock_end hno
      have hreturns : ∃ r, Lib.Loop.Returns
          (findSockBody s fun k => k.localAddr.port = seg.dstPort) s.tcpListenList r := by
        rcases hlisten hno with ⟨y, hy⟩ | hno'
        · exact ⟨some y, findSock_first hy⟩
        · exact ⟨none, findSock_end hno'⟩
      obtain ⟨r, m, hm⟩ := hreturns
      refine ⟨max n m, r, ?_⟩
      unfold tcpFindSocket
      rw [Lib.Loop.run_mono hn (Nat.le_max_left n m), Lib.Loop.run_mono hm (Nat.le_max_right n m)]
      rfl

end Gracemont
