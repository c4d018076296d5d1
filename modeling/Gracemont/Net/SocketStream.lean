/-
  Gracemont networking — `sock_recv` as a stream.

  Buffers are placed on the receive queue of a connected socket as `tcp_input`
  does it, and `sock_recv` is called with any lengths; each call meets a pool
  whose queued buffers are as they were left.  `sock_recv` frees the buffer that
  it copies from, however little of it was asked for.

  * `RecvState`, `recvLts`: the socket, with the bytes placed and returned;
  * `Fits`: the call asks for at least the bytes of the first buffer;
  * `sock_recv_stream_iff`: exactly then the bytes returned are the stream, and
    the others are still on the queue.
-/
import Gracemont.Net.Socket
import Gracemont.Net.TcpDelivery

namespace Gracemont

variable {α σ : Type}

/-! ## Runs -/

/-- The stack, and of the socket the buffers placed on its receive queue and not
    yet taken, the bytes placed and the bytes that `sock_recv` returned. -/
structure RecvState (α σ : Type) where
  net : NetStack α σ
  queue : List α
  placed : List (BitVec 8)
  returned : List (BitVec 8)

/-- A buffer is placed on the queue, or `sock_recv` is called with `len`, and
    meets the pool `pool`. -/
inductive RecvEvent (α : Type) where
  | place (pool : ZbufPool α) (zb : α)
  | recv (pool : ZbufPool α) (len : ℕ)

namespace RecvState
variable (s : RecvState α σ)

/-- The bytes on the receive queue. -/
def waiting : List (BitVec 8) := s.queue.flatMap fun zb => payloadOf (s.net.pool.zb zb)

/-- The buffers on the queue are in the pool as they were left, and the free
    list does not start with one of them. -/
def Kept (pool : ZbufPool α) : Prop :=
  ∀ zb ∈ s.queue, pool.zb zb = s.net.pool.zb zb ∧ pool.freeList ≠ some zb

/-- The stack with the pool that a call meets. -/
def meets (pool : ZbufPool α) : NetStack α σ := { s.net with pool := pool }

end RecvState

section
variable [DecidableEq α] [DecidableEq σ] (cfg : NetConfig α) (x : σ)

/-- `zbuf_queue_push` and `sem_post`, as in `tcp_input`. -/
def RecvState.place (s : RecvState α σ) (pool : ZbufPool α) (zb : α) : RecvState α σ where
  net := postRx (queueRx (s.meets pool) x zb) x
  queue := s.queue ++ [zb]
  placed := s.placed ++ payloadOf (pool.zb zb)
  returned := s.returned

/-- The runs of the socket `x`.  A buffer is placed while it is allocated and not
    on the queue; `sock_recv` is called with a length of at least 1. -/
def recvLts : Lib.Lts (RecvState α σ) (RecvEvent α) where
  init s := (s.net.sock x).state = .established ∧ (s.net.sock x).rxQueue = zbufQueueInit ∧
    s.queue = [] ∧ s.placed = [] ∧ s.returned = []
  step s e s' := match e with
    | .place pool zb => s.Kept pool ∧ zb ∉ s.queue ∧ pool.freeList ≠ some zb ∧
        s' = s.place x pool zb
    | .recv pool len => s.Kept pool ∧ 0 < len ∧ ∃ net n data,
        sockRecvResume cfg (s.meets pool) x len = some (net, n, data) ∧
          s' = ⟨net, s.queue.tail, s.placed, s.returned ++ data⟩

/-- The call asks for at least the bytes of the first buffer on the queue. -/
def Fits (s : RecvState α σ) : RecvEvent α → Prop
  | .place _ _ => True
  | .recv _ len => ∀ zb, s.queue.head? = some zb → (s.net.pool.zb zb).len.toNat ≤ len

/-- The receive queue of the socket holds the buffers that were placed and not
    taken, and no more bytes were returned than placed. -/
structure RecvState.Linked (s : RecvState α σ) : Prop where
  links : Lib.Queue (s.net.pool.zb.field Zbuf.next) (s.net.pool.zb.field Zbuf.prev)
    (s.net.sock x).rxQueue.head (s.net.sock x).rxQueue.tail s.queue
  length : s.returned.length + s.waiting.length ≤ s.placed.length

end

/-! ## Calls -/

section
variable [DecidableEq α] [DecidableEq σ] {cfg : NetConfig α} {x : σ} {s s' : RecvState α σ}

omit [DecidableEq α] in
/-- The first `len` bytes of a buffer, as `sock_recv` copies them. -/
theorem read_min (z : Zbuf α) (len : ℕ) :
    z.space.read z.data (min z.len.toNat len) = (payloadOf z).take len := by
  rw [payloadOf, bytesFrom, Lib.ByteMem.read, ← List.map_take, List.take_range, Nat.min_comm]

omit [DecidableEq α] [DecidableEq σ] in
/-- The links in the pool that a call meets. -/
theorem RecvState.Linked.meets (h : s.Linked x) {pool : ZbufPool α} (hk : s.Kept pool) :
    Lib.Queue (pool.zb.field Zbuf.next) (pool.zb.field Zbuf.prev)
      (s.net.sock x).rxQueue.head (s.net.sock x).rxQueue.tail s.queue := by
  refine h.links.congr (fun zb hzb => ?_) fun zb hzb => ?_
  · simp only [Lib.Store.field_apply, (hk zb hzb).1]
  · simp only [Lib.Store.field_apply, (hk zb hzb).1]

omit [DecidableEq α] in
/-- The bytes of buffers in a pool that has them as they were left. -/
theorem waiting_congr {m m' : Lib.Store α (Zbuf α)} {l : List α}
    (h : ∀ zb ∈ l, payloadOf (m' zb) = payloadOf (m zb)) :
    l.flatMap (fun zb => payloadOf (m' zb)) = l.flatMap fun zb => payloadOf (m zb) := by
  induction l with
  | nil => rfl
  | cons zb l ih =>
    rw [List.flatMap_cons, List.flatMap_cons, h zb List.mem_cons_self,
      ih fun y hy => h y (List.mem_cons_of_mem zb hy)]

/-- **A buffer is placed**: its bytes are the last of the stream. -/
theorem RecvState.Linked.place (h : s.Linked x) {pool : ZbufPool α} {zb : α} (hk : s.Kept pool)
    (hzb : zb ∉ s.queue) :
    (s.place x pool zb).waiting = s.waiting ++ payloadOf (pool.zb zb) ∧
      (s.place x pool zb).Linked x := by
  have hpush := zbufQueuePush_queue (h.meets hk) hzb
  have hsock : ((s.place x pool zb).net.sock x).rxQueue =
      (zbufQueuePush pool.zb (s.net.sock x).rxQueue zb).2 := by
    simp [RecvState.place, postRx, queueRx, NetStack.modify, RecvState.meets]
  have hpool : (s.place x pool zb).net.pool.zb =
      (zbufQueuePush pool.zb (s.net.sock x).rxQueue zb).1 := rfl
  have hpay : ∀ y, payloadOf ((s.place x pool zb).net.pool.zb y) = payloadOf (pool.zb y) := by
    intro y
    rw [hpool]
    exact zbufQueuePush_field _ _ _ payloadOf (fun _ _ => rfl) (fun _ _ => rfl) y
  have hwaiting : (s.place x pool zb).waiting = s.waiting ++ payloadOf (pool.zb zb) := by
    show (s.queue ++ [zb]).flatMap _ = _
    rw [List.flatMap_append, List.flatMap_singleton, hpay]
    congr 1
    exact waiting_congr fun y hy => by rw [hpay, (hk y hy).1]
  refine ⟨hwaiting, ?_, ?_⟩
  · rw [hsock, hpool]
    exact hpush.1
  · have hlen := h.length
    have hplaced : (s.place x pool zb).placed = s.placed ++ payloadOf (pool.zb zb) := rfl
    have hret : (s.place x pool zb).returned = s.returned := rfl
    rw [hwaiting, hplaced, hret, List.length_append, List.length_append]
    omega

omit [DecidableEq α] in
/-- The wait only changes the semaphore. -/
theorem waitRx_queue {net net₁ : NetStack α σ} (h : net.waitRx x = some net₁) :
    net₁.pool = net.pool ∧ (net₁.sock x).rxQueue = (net.sock x).rxQueue ∧
      (net₁.sock x).conn = (net.sock x).conn := by
  unfold NetStack.waitRx at h
  split_ifs at h
  cases h
  exact ⟨rfl, Lib.Store.modify_field Socket.rxQueue net.sock x (by rfl) x,
    Lib.Store.modify_field Socket.conn net.sock x (by rfl) x⟩

/-- Nothing is taken from an empty queue. -/
theorem popRx_nil {net : NetStack α σ}
    (h : Lib.Queue (net.pool.zb.field Zbuf.next) (net.pool.zb.field Zbuf.prev)
      (net.sock x).rxQueue.head (net.sock x).rxQueue.tail []) :
    popRx net x = (net.modify x fun k => { k with rxQueue := (net.sock x).rxQueue }, none) := by
  simp only [popRx, zbufQueuePop_nil h]

/-- **The first buffer** is taken from the queue, with its bytes; the others stay. -/
theorem popRx_cons {net : NetStack α σ} {zb : α} {l : List α}
    (h : Lib.Queue (net.pool.zb.field Zbuf.next) (net.pool.zb.field Zbuf.prev)
      (net.sock x).rxQueue.head (net.sock x).rxQueue.tail (zb :: l)) :
    ∃ m k, popRx net x = (({ net with pool := { net.pool with zb := m } } : NetStack α σ).modify x
        fun k' => { k' with rxQueue := k }, some zb) ∧
      Lib.Queue (m.field Zbuf.next) (m.field Zbuf.prev) k.head k.tail l ∧
      (∀ y, payloadOf (m y) = payloadOf (net.pool.zb y)) ∧
      ∀ y, (m y).len = (net.pool.zb y).len := by
  obtain ⟨m, k, hpop, hq, -, -⟩ := zbufQueuePop_cons h
  have hpay := zbufQueuePop_field net.pool.zb (net.sock x).rxQueue payloadOf
    (fun _ _ => rfl) fun _ _ => rfl
  have hlen := zbufQueuePop_field net.pool.zb (net.sock x).rxQueue Zbuf.len
    (fun _ _ => rfl) fun _ _ => rfl
  rw [hpop] at hpay hlen
  exact ⟨m, k, by simp only [popRx, hpop], hq, hpay, hlen⟩

/-- **`sock_recv`** returns the first bytes of the first buffer `d`, if there is
    one, and leaves the other buffers. -/
theorem RecvState.Linked.recv (h : s.Linked x) {pool : ZbufPool α} {len : ℕ}
    (hs : (recvLts cfg x).step s (.recv pool len) s') :
    ∃ d, s.waiting = d ++ s'.waiting ∧ s'.returned = s.returned ++ d.take len ∧
      s'.placed = s.placed ∧ (Fits s (.recv pool len) ↔ d.length ≤ len) ∧
      Lib.Queue (s'.net.pool.zb.field Zbuf.next) (s'.net.pool.zb.field Zbuf.prev)
        (s'.net.sock x).rxQueue.head (s'.net.sock x).rxQueue.tail s'.queue := by
  obtain ⟨hk, -, net, n, data, hrecv, rfl⟩ := hs
  obtain ⟨s₁, hwait, hrecv⟩ := Option.bind_eq_some_iff.1 hrecv
  obtain ⟨hpool, hqueue, -⟩ := waitRx_queue hwait
  replace hpool : s₁.pool = pool := hpool
  replace hqueue : (s₁.sock x).rxQueue = (s.net.sock x).rxQueue := hqueue
  have hlinks := h.meets hk
  rw [← hpool, ← hqueue] at hlinks
  rcases hlist : s.queue with _ | ⟨zb, l⟩
  · -- nothing is on the queue
    rw [hlist] at hlinks
    simp only [popRx_nil hlinks] at hrecv
    cases hrecv
    refine ⟨[], ?_, by rw [List.take_nil], rfl, ?_, ?_⟩
    · rw [RecvState.waiting, hlist]
      rfl
    · simp [Fits, hlist]
    · simpa [NetStack.modify] using hlinks
  · rw [hlist] at hlinks
    have hk' : ∀ y ∈ zb :: l, pool.zb y = s.net.pool.zb y ∧ pool.freeList ≠ some y := by
      intro y hy
      exact hk y (hlist ▸ hy)
    obtain ⟨m, k, hpop, hq, hfield, hlen⟩ := popRx_cons hlinks
    obtain ⟨hzl, -⟩ := List.nodup_cons.1 hlinks.chain.nodup
    rw [hpool] at hfield hlen
    simp only [hpop, copyOut] at hrecv
    cases hrecv
    -- freeing the first buffer leaves the others
    have hleft : ∀ y ∈ l, (zbufFree cfg.port { s₁.pool with zb := m } (some zb)).zb y = m y := by
      intro y hy
      refine zbufFree_of_ne cfg.port _ (ne_of_mem_of_not_mem hy hzl) ?_
      show s₁.pool.freeList ≠ some y
      rw [hpool]
      exact (hk' y (List.mem_cons_of_mem zb hy)).2
    refine ⟨payloadOf (m zb), ?_, ?_, rfl, ?_, ?_⟩
    · rw [RecvState.waiting, hlist, List.flatMap_cons, hfield, (hk' zb List.mem_cons_self).1]
      congr 1
      refine (waiting_congr fun y hy => ?_).symm
      have hy' := hleft y hy
      simp only [NetStack.free, NetStack.modify] at hy' ⊢
      rw [hy', hfield, (hk' y (List.mem_cons_of_mem zb hy)).1]
    · show s.returned ++ _ = _
      rw [← read_min]
      rfl
    · rw [payloadOf_length]
      simp only [Fits, hlist, List.head?_cons, Option.some.injEq, forall_eq']
      rw [hlen, (hk' zb List.mem_cons_self).1]
    · have hsock : ((({ s₁ with pool := { s₁.pool with zb := m } } : NetStack α σ).modify x
          fun k' => { k' with rxQueue := k }).sock x).rxQueue = k := by
        simp [NetStack.modify]
      simp only [NetStack.free, hsock]
      refine hq.congr (fun y hy => ?_) fun y hy => ?_
      · exact congrArg Zbuf.next (hleft y hy)
      · exact congrArg Zbuf.prev (hleft y hy)

/-- The socket when `sock_recv_zbuf` has returned the first buffer. -/
def RecvState.took (s : RecvState α σ) (net : NetStack α σ) (zb : α) : RecvState α σ :=
  ⟨net, s.queue.tail, s.placed, s.returned ++ payloadOf (net.pool.zb zb)⟩

/-- **`sock_recv_zbuf`** returns the first buffer, with the bytes that were placed in it. -/
theorem RecvState.Linked.recvZbuf (h : s.Linked x) {pool : ZbufPool α} (hk : s.Kept pool)
    {net : NetStack α σ} {zb : α}
    (hs : sockRecvZbufResume (s.meets pool) x = some (net, some zb)) :
    (s.took net zb).Linked x ∧ s.queue = zb :: (s.took net zb).queue ∧
      ∀ y ∈ s.queue, payloadOf (net.pool.zb y) = payloadOf (s.net.pool.zb y) := by
  obtain ⟨s₁, hwait, hs⟩ := Option.bind_eq_some_iff.1 hs
  obtain ⟨hpool, hqueue, -⟩ := waitRx_queue hwait
  replace hpool : s₁.pool = pool := hpool
  replace hqueue : (s₁.sock x).rxQueue = (s.net.sock x).rxQueue := hqueue
  have hlinks := h.meets hk
  rw [← hpool, ← hqueue] at hlinks
  rcases hlist : s.queue with _ | ⟨y, l⟩
  · rw [hlist] at hlinks
    rw [popRx_nil hlinks] at hs
    cases hs
  · rw [hlist] at hlinks
    obtain ⟨m, k, hpop, hq, hfield, -⟩ := popRx_cons hlinks
    rw [hpop] at hs
    cases hs
    have hpay : ∀ z ∈ s.queue, payloadOf (m z) = payloadOf (s.net.pool.zb z) := by
      intro z hz
      rw [hfield, hpool, (hk z hz).1]
    have htail : s.queue.tail = l := by rw [hlist]; rfl
    refine ⟨⟨?_, ?_⟩, by rw [RecvState.took, htail], fun z hz => hpay z (hlist ▸ hz)⟩
    · simpa [RecvState.took, NetStack.modify, htail] using hq
    · have hlen := h.length
      have hwaiting : (s.queue.flatMap fun z => payloadOf (m z)) = s.waiting := waiting_congr hpay
      rw [← hwaiting, hlist, List.flatMap_cons, List.length_append] at hlen
      show (s.returned ++ payloadOf (m zb)).length +
        (s.queue.tail.flatMap fun z => payloadOf (m z)).length ≤ s.placed.length
      rw [htail, List.length_append]
      omega

/-! ## Every run -/

/-- **Step.** -/
theorem RecvState.Linked.step (h : s.Linked x) {e : RecvEvent α} (hs : (recvLts cfg x).step s e s') :
    s'.Linked x ∧ (s'.placed = s'.returned ++ s'.waiting ↔
      s.placed = s.returned ++ s.waiting ∧ Fits s e) := by
  cases e with
  | place pool zb =>
    obtain ⟨hk, hzb, -, rfl⟩ := hs
    obtain ⟨hwaiting, hlinked⟩ := h.place hk hzb
    refine ⟨hlinked, ?_⟩
    have hplaced : (s.place x pool zb).placed = s.placed ++ payloadOf (pool.zb zb) := rfl
    have hret : (s.place x pool zb).returned = s.returned := rfl
    rw [hplaced, hret, hwaiting, ← List.append_assoc, List.append_left_inj]
    exact (and_iff_left trivial).symm
  | recv pool len =>
    obtain ⟨d, hwaiting, hret, hplaced, hfits, hlinks⟩ := h.recv hs
    have hlen := h.length
    rw [hwaiting, List.length_append] at hlen
    have htake : (d.take len).length ≤ d.length := List.length_take_le' len d
    refine ⟨⟨hlinks, ?_⟩, ?_⟩
    · rw [hret, hplaced, List.length_append]
      omega
    rw [hplaced, hret, hwaiting, hfits]
    constructor
    · -- a byte that was cut off is nowhere
      intro heq
      have hcount := congrArg List.length heq
      simp only [List.length_append, List.length_take] at hcount hlen
      have hd : d.length ≤ len := by omega
      rw [List.take_of_length_le hd] at heq
      exact ⟨by rw [heq, List.append_assoc], hd⟩
    · rintro ⟨heq, hd⟩
      rw [heq, List.take_of_length_le hd, List.append_assoc]

theorem recvLts_init (h : (recvLts cfg x).init s) :
    s.Linked x ∧ s.placed = s.returned ++ s.waiting := by
  obtain ⟨-, hrx, hqueue, hplaced, hret⟩ := h
  have heq : s.placed = s.returned ++ s.waiting := by
    simp [RecvState.waiting, hqueue, hplaced, hret]
  refine ⟨⟨?_, ?_⟩, heq⟩
  · rw [hrx, hqueue]
    exact Lib.queue_nil
  · simp [RecvState.waiting, hqueue, hplaced, hret]

/-- **When `sock_recv` is a stream.**  The bytes placed on the receive queue are
    those returned and then those that still wait on it exactly if every call
    asked for at least the bytes of the first buffer. -/
theorem sock_recv_stream_iff (cfg : NetConfig α) (x : σ) {tr : List (RecvEvent α)}
    {s : RecvState α σ} (h : (recvLts cfg x).Run tr s) :
    s.Linked x ∧ (s.placed = s.returned ++ s.waiting ↔
      ((recvLts cfg x).restrict Fits).Run tr s) := by
  constructor
  · refine h.rule (P := fun _ s => s.Linked x) ?_ ?_
    · intro s hinit
      exact (recvLts_init hinit).1
    · intro tr s e s' hs hstep
      exact (hs.step hstep).1
  · refine h.iff_restrict (I := fun s => s.Linked x)
      (P := fun s => s.placed = s.returned ++ s.waiting) ?_ ?_
    · intro s hinit
      exact recvLts_init hinit
    · intro s e s' hlinked hs
      exact hlinked.step hs

end

/-! ## Two buffers -/

/-- A connected socket, and buffers with the bytes 1, 2 and 3. -/
def demoReceiver : RecvState (Fin 2) (Fin 2) where
  net := { demoStack with
    sock := fun _ => { demoSocket with state := .established }
    pool := { demoStack.pool with
      zb := fun zb => if zb = 0 then demoFrame 128 [1, 2] else demoFrame 128 [3] } }
  queue := []
  placed := []
  returned := []

/-- Both buffers are placed. -/
def demoFull : RecvState (Fin 2) (Fin 2) :=
  let s := demoReceiver.place 0 demoReceiver.net.pool 0
  s.place 0 s.net.pool 1

/-- `sock_recv` in the pool as it is. -/
def demoTake (s : RecvState (Fin 2) (Fin 2)) (len : ℕ) : Option (RecvState (Fin 2) (Fin 2)) :=
  (sockRecvResume demoNet (s.meets s.net.pool) 0 len).map fun r =>
    ⟨r.1, s.queue.tail, s.placed, s.returned ++ r.2.2⟩

theorem demoFull_run : ∃ tr, (recvLts demoNet 0).Run tr demoFull := by
  have hinit : (recvLts demoNet 0).init demoReceiver := ⟨rfl, rfl, rfl, rfl, rfl⟩
  have hfirst : (recvLts demoNet 0).step demoReceiver (.place demoReceiver.net.pool 0)
      (demoReceiver.place 0 demoReceiver.net.pool 0) :=
    ⟨fun _ h => (List.not_mem_nil h).elim, by decide, by decide, rfl⟩
  have hsecond : (recvLts demoNet 0).step (demoReceiver.place 0 demoReceiver.net.pool 0)
      (.place (demoReceiver.place 0 demoReceiver.net.pool 0).net.pool 1) demoFull :=
    ⟨fun _ _ => ⟨rfl, (Option.some_ne_none _).symm⟩, by decide, by decide +kernel, rfl⟩
  exact ⟨_, ((Lib.Lts.Run.start hinit).snoc hfirst).snoc hsecond⟩

theorem demoTake_run {s s' : RecvState (Fin 2) (Fin 2)} {len : ℕ}
    (h : ∃ tr, (recvLts demoNet 0).Run tr s) (hfree : ∀ zb ∈ s.queue, s.net.pool.freeList ≠ some zb)
    (hlen : 0 < len) (hs : demoTake s len = some s') : ∃ tr, (recvLts demoNet 0).Run tr s' := by
  obtain ⟨tr, hrun⟩ := h
  obtain ⟨⟨net, n, data⟩, hrecv, rfl⟩ := Option.map_eq_some_iff.1 hs
  have hstep : (recvLts demoNet 0).step s (.recv s.net.pool len)
      ⟨net, s.queue.tail, s.placed, s.returned ++ data⟩ :=
    ⟨fun zb hzb => ⟨rfl, hfree zb hzb⟩, hlen, net, n, data, hrecv, rfl⟩
  exact ⟨_, hrun.snoc hstep⟩

theorem demoTake_fits : (demoTake demoFull 8).isSome := by decide +kernel

theorem demoTake_short : ((demoTake demoFull 1).bind fun s => demoTake s 8).isSome := by
  decide +kernel

/-- A call for 8 bytes returns all of the first buffer. -/
theorem sock_recv_stream_two :
    ∃ tr s, (recvLts demoNet (0 : Fin 2)).Run tr s ∧ s.returned = [1, 2] ∧ s.waiting = [3] ∧
      (s.placed = s.returned ++ s.waiting ↔ ((recvLts demoNet 0).restrict Fits).Run tr s) := by
  obtain ⟨tr, hrun⟩ := demoTake_run demoFull_run (by decide +kernel) (by decide)
    (Option.some_get demoTake_fits).symm
  exact ⟨tr, _, hrun, by decide +kernel, by decide +kernel, (sock_recv_stream_iff demoNet 0 hrun).2⟩

/-- **Bytes are skipped** by a call for one byte: the next call returns those of
    the next buffer. -/
theorem sock_recv_not_stream :
    ∃ tr s, (recvLts demoNet (0 : Fin 2)).Run tr s ∧ s.placed = [1, 2, 3] ∧ s.returned = [1, 3] ∧
      ¬ s.returned <+: s.placed := by
  obtain ⟨s, hs, hs'⟩ := Option.bind_eq_some_iff.1 (Option.some_get demoTake_short).symm
  obtain rfl : s = (demoTake demoFull 1).get (by decide +kernel) := by simp [hs]
  have hrun := demoTake_run demoFull_run (by decide +kernel) (by decide) hs
  obtain ⟨tr, hrun'⟩ := demoTake_run hrun (by decide +kernel) (by decide) hs'
  exact ⟨tr, _, hrun', by decide +kernel, by decide +kernel, by decide +kernel⟩

end Gracemont
