/-
  Gracemont networking — the queues of buffers are first-in first-out queues
  (`net/buffer/zbuf.c`, the same file in both ports).

  All queues and the free list of the pool are linked through the same two
  fields of the buffers.  A buffer is pushed while it is on none of these lists;
  nothing else restricts the order of the calls.

  * `zbufQueueFlush`: the loop that empties a queue;
  * `ZbufQueues.Holds`: the links of all queues hold these lists;
  * `zbuf_queues_fifo`: what the calls return, and that a flush ends.
-/
import Mathlib.Data.List.Perm.Subperm
import Gracemont.Lib.Fifo
import Gracemont.Lib.Loop
import Gracemont.Net.ZbufQueue

namespace Gracemont

variable {α ι : Type} [DecidableEq α] [DecidableEq ι]

/-! ## Calls -/

/-- The body of the loop of `zbuf_queue_flush`, with the buffers that it has
    released. -/
def zbufFlushBody (port : Port) (cur : ZbufPool α × ZbufQueue α × List α) :
    (ZbufPool α × ZbufQueue α × List α) ⊕ (ZbufPool α × ZbufQueue α × List α) :=
  match zbufQueuePop cur.1.zb cur.2.1 with
  | (_, _, none) => .inr cur
  | (m, q, some zb) => .inl (zbufFree port { cur.1 with zb := m } (some zb), q, cur.2.2 ++ [zb])

/-- `zbuf_queue_flush` -/
def zbufQueueFlush (port : Port) (fuel : ℕ) (pool : ZbufPool α) (q : ZbufQueue α) :
    Option (ZbufPool α × ZbufQueue α × List α) :=
  Lib.Loop.run (zbufFlushBody port) fuel (pool, q, [])

/-- The pool, and any number of queues. -/
structure ZbufQueues (α ι : Type) where
  pool : ZbufPool α
  queue : ι → ZbufQueue α

/-- The buffer is on the list from `head` on. -/
def OnChain (m : Lib.Store α (Zbuf α)) (head : Option α) (zb : α) : Prop :=
  ∃ l, Lib.Chain (m.field Zbuf.next) (m.field Zbuf.prev) head l ∧ zb ∈ l

namespace ZbufQueues

/-- A buffer of the pool that is allocated, and on no queue. -/
structure Held (cfg : ZbufConfig α) (s : ZbufQueues α ι) (zb : α) : Prop where
  known : zb ∈ cfg.buffers
  free : ¬ OnChain s.pool.zb s.pool.freeList zb
  queue : ∀ q, ¬ OnChain s.pool.zb (s.queue q).head zb

/-- The queue `q`, and the memory of the buffers, after a call. -/
def store (s : ZbufQueues α ι) (q : ι) (m : Lib.Store α (Zbuf α)) (k : ZbufQueue α) :
    ZbufQueues α ι :=
  ⟨{ s.pool with zb := m }, Function.update s.queue q k⟩

/-- A call, with what it returns; a flush, with the buffers that it releases. -/
def Step (cfg : ZbufConfig α) (port : Port) (s : ZbufQueues α ι) (e : Lib.FifoEvent ι α)
    (s' : ZbufQueues α ι) : Prop :=
  match e with
  | .push q zb =>
    let (m, k) := zbufQueuePush s.pool.zb (s.queue q) zb
    s.Held cfg zb ∧ s' = s.store q m k
  | .pop q r =>
    let (m, k, zb) := zbufQueuePop s.pool.zb (s.queue q)
    r = zb ∧ s' = s.store q m k
  | .peek q r => r = zbufQueuePeek (s.queue q) ∧ s' = s
  | .flush q l => ∃ fuel pool k, zbufQueueFlush port fuel s.pool (s.queue q) = some (pool, k, l) ∧
      s' = ⟨pool, Function.update s.queue q k⟩

/-- The runs from queues that are initialised, with any buffers allocated. -/
def lts (cfg : ZbufConfig α) (port : Port) : Lib.Lts (ZbufQueues α ι) (Lib.FifoEvent ι α) where
  init s := (∀ q, s.queue q = zbufQueueInit) ∧ ∃ l, Lib.Chain (s.pool.zb.field Zbuf.next)
    (s.pool.zb.field Zbuf.prev) s.pool.freeList l
  step := Step cfg port

/-- **The queues hold these lists**: the links are those of the lists, which are
    disjoint, and `count` is the length. -/
structure Holds (s : ZbufQueues α ι) (Q : ι → List α) : Prop where
  queue : ∀ q, Lib.Queue (s.pool.zb.field Zbuf.next) (s.pool.zb.field Zbuf.prev) (s.queue q).head
    (s.queue q).tail (Q q)
  count : ∀ q, (s.queue q).count.toNat = (Q q).length
  apart : ∀ p q, p ≠ q → (Q p).Disjoint (Q q)

/-! ## The inductive invariant -/

/-- The queues hold `Q`, and the free list `l`. -/
structure Inv (cfg : ZbufConfig α) (s : ZbufQueues α ι) (Q : ι → List α) (l : List α) : Prop where
  holds : s.Holds Q
  known : ∀ q, ∀ zb ∈ Q q, zb ∈ cfg.buffers
  free : Lib.Chain (s.pool.zb.field Zbuf.next) (s.pool.zb.field Zbuf.prev) s.pool.freeList l
  free_apart : ∀ q, l.Disjoint (Q q)

variable {cfg : ZbufConfig α} {port : Port} {s s' : ZbufQueues α ι} {Q : ι → List α} {l : List α}

omit [DecidableEq α] [DecidableEq ι] in
/-- A buffer is held if it is on none of the lists. -/
theorem Inv.held_iff (h : Inv cfg s Q l) {zb : α} :
    s.Held cfg zb ↔ zb ∈ cfg.buffers ∧ zb ∉ l ∧ ∀ q, zb ∉ Q q := by
  have hchain : ∀ {head l'}, Lib.Chain (s.pool.zb.field Zbuf.next) (s.pool.zb.field Zbuf.prev)
      head l' → (¬ OnChain s.pool.zb head zb ↔ zb ∉ l') := by
    intro head l' hl'
    refine not_congr ⟨?_, fun hm => ⟨l', hl', hm⟩⟩
    rintro ⟨l'', hl'', hm⟩
    rwa [hl''.unique hl'] at hm
  constructor
  · rintro ⟨hknown, hfree, hqueue⟩
    exact ⟨hknown, (hchain h.free).1 hfree, fun q => (hchain (h.holds.queue q).chain).1 (hqueue q)⟩
  · rintro ⟨hknown, hfree, hqueue⟩
    exact ⟨hknown, (hchain h.free).2 hfree, fun q => (hchain (h.holds.queue q).chain).2 (hqueue q)⟩

omit [DecidableEq α] in
/-- A call on the queue `q` that leaves `t`, made of the queue and of `zb`, and
    that assigns to links of these buffers only. -/
theorem Inv.update (h : Inv cfg s Q l) {q : ι} {zb : α} {m : Lib.Store α (Zbuf α)}
    {k : ZbufQueue α} {t : List α} (hknown : zb ∈ cfg.buffers) (hfree : zb ∉ l)
    (hout : ∀ p, p ≠ q → zb ∉ Q p) (ht : ∀ x ∈ t, x ∈ Q q ∨ x = zb)
    (hq : Lib.Queue (m.field Zbuf.next) (m.field Zbuf.prev) k.head k.tail t)
    (hcount : k.count.toNat = t.length)
    (hkeep : ∀ x, x ≠ zb → x ∉ Q q → m.field Zbuf.next x = s.pool.zb.field Zbuf.next x ∧
      m.field Zbuf.prev x = s.pool.zb.field Zbuf.prev x) :
    Inv cfg (s.store q m k) (Function.update Q q t) l := by
  -- the other lists hold none of these buffers
  have hside : ∀ l' : List α, zb ∉ l' → l'.Disjoint (Q q) →
      l'.Disjoint t ∧ ∀ x ∈ l', m.field Zbuf.next x = s.pool.zb.field Zbuf.next x ∧
        m.field Zbuf.prev x = s.pool.zb.field Zbuf.prev x := by
    intro l' hzb hdis
    refine ⟨fun x hx hxt => ?_, fun x hx => hkeep x (ne_of_mem_of_not_mem hx hzb) (hdis hx)⟩
    rcases ht x hxt with hxq | rfl
    · exact hdis hx hxq
    · exact hzb hx
  have hother : ∀ p, p ≠ q → _ := fun p hp => hside (Q p) (hout p hp) (h.holds.apart p q hp)
  obtain ⟨hdis, hsame⟩ := hside l hfree (h.free_apart q)
  refine ⟨⟨fun p => ?_, fun p => ?_, fun p p' hpp => ?_⟩, fun p x hx => ?_, ?_, fun p => ?_⟩
  · by_cases hp : p = q
    · subst hp
      simpa only [store, Function.update_self] using hq
    · simp only [store, Function.update_of_ne hp]
      exact (h.holds.queue p).congr (fun x hx => ((hother p hp).2 x hx).1)
        fun x hx => ((hother p hp).2 x hx).2
  · by_cases hp : p = q
    · subst hp
      simpa only [store, Function.update_self] using hcount
    · simp only [store, Function.update_of_ne hp]
      exact h.holds.count p
  · by_cases hp : p = q
    · subst hp
      rw [Function.update_self, Function.update_of_ne hpp.symm]
      exact List.disjoint_symm (hother p' hpp.symm).1
    · by_cases hp' : p' = q
      · subst hp'
        rw [Function.update_self, Function.update_of_ne hp]
        exact (hother p hp).1
      · rw [Function.update_of_ne hp, Function.update_of_ne hp']
        exact h.holds.apart p p' hpp
  · by_cases hp : p = q
    · subst hp
      rw [Function.update_self] at hx
      rcases ht x hx with hx | rfl
      · exact h.known p x hx
      · exact hknown
    · rw [Function.update_of_ne hp] at hx
      exact h.known p x hx
  · exact h.free.congr (fun x hx => (hsame x hx).1) fun x hx => (hsame x hx).2
  · by_cases hp : p = q
    · subst hp
      rwa [Function.update_self]
    · rw [Function.update_of_ne hp]
      exact h.free_apart p

/-- **`zbuf_queue_push`** -/
theorem Inv.push (h : Inv cfg s Q l) {zb : α} (hzb : s.Held cfg zb) (q : ι) :
    Inv cfg (s.store q (zbufQueuePush s.pool.zb (s.queue q) zb).1
      (zbufQueuePush s.pool.zb (s.queue q) zb).2) (Function.update Q q (Q q ++ [zb])) l := by
  obtain ⟨hknown, hfree, hout⟩ := h.held_iff.1 hzb
  have hq := h.holds.queue q
  obtain ⟨hpush, hkeep⟩ := zbufQueuePush_queue hq (hout q)
  -- one more buffer of the pool, so that `count` does not wrap
  have hlen : (Q q ++ [zb]).length ≤ cfg.buffers.length := by
    refine List.Subperm.length_le (List.Nodup.subperm ?_ fun x hx => ?_)
    · exact List.nodup_append_comm.1 (List.nodup_cons.2 ⟨hout q, hq.chain.nodup⟩)
    · rcases List.mem_append.1 hx with hx | hx
      · exact h.known q x hx
      · exact List.mem_singleton.1 hx ▸ hzb.known
  refine h.update hzb.known hfree (fun p _ => hout p) (fun x hx => ?_) ?_ ?_ fun x hx hxq => ?_
  · rcases List.mem_append.1 hx with hx | hx
    · exact Or.inl hx
    · exact Or.inr (List.mem_singleton.1 hx)
  · exact hpush
  · have hcount := h.holds.count q
    have hlt := cfg.count_lt
    have h1 : (1 : BitVec 32).toNat = 1 := rfl
    simp only [zbufQueuePush, List.length_append, List.length_singleton] at hlen ⊢
    rw [BitVec.toNat_add]
    omega
  · simp only [Lib.Store.field_apply, hkeep x hx hxq, and_self]

omit [DecidableEq ι] in
/-- `zbuf_queue_pop` of an empty queue. -/
theorem Inv.pop_nil (h : Inv cfg s Q l) {q : ι} (hQ : Q q = []) :
    zbufQueuePop s.pool.zb (s.queue q) = (s.pool.zb, s.queue q, none) := by
  have hq := h.holds.queue q
  rw [hQ] at hq
  exact zbufQueuePop_nil hq

/-- **`zbuf_queue_pop`** -/
theorem Inv.pop (h : Inv cfg s Q l) {q : ι} {zb : α} {t : List α} (hQ : Q q = zb :: t) :
    ∃ m k, zbufQueuePop s.pool.zb (s.queue q) = (m, k, some zb) ∧
      Inv cfg (s.store q m k) (Function.update Q q t) l ∧ zb ∉ l ∧
      ∀ p, zb ∉ Function.update Q q t p := by
  have hmem : zb ∈ Q q := by
    rw [hQ]
    exact List.mem_cons_self
  have hfree : zb ∉ l := fun hl => h.free_apart q hl hmem
  have hout : ∀ p, p ≠ q → zb ∉ Q p := fun p hp hm => h.holds.apart p q hp hm hmem
  have hq := h.holds.queue q
  have hcount := h.holds.count q
  rw [hQ] at hq hcount
  obtain ⟨hzt, -⟩ := List.nodup_cons.1 hq.chain.nodup
  obtain ⟨m, k, hpop, hq', hk, hkeep⟩ := zbufQueuePop_cons hq
  refine ⟨m, k, hpop, ?_, hfree, fun p => ?_⟩
  · refine h.update (h.known q zb hmem) hfree hout (fun x hx => Or.inl ?_) hq' ?_ fun x _ hxq => ?_
    · rw [hQ]
      exact List.mem_cons_of_mem zb hx
    · have h1 : (1 : BitVec 32).toNat = 1 := rfl
      have hlt := (s.queue q).count.isLt
      rw [List.length_cons] at hcount
      rw [hk, BitVec.toNat_sub]
      omega
    · rw [hQ] at hxq
      simp only [Lib.Store.field_apply, hkeep x hxq, and_self]
  · by_cases hp : p = q
    · subst hp
      rwa [Function.update_self]
    · rw [Function.update_of_ne hp]
      exact hout p hp

omit [DecidableEq α] [DecidableEq ι] in
/-- The pool is changed without a link of a queue. -/
theorem Inv.pool (h : Inv cfg s Q l) {pool : ZbufPool α} {l' : List α}
    (hkeep : ∀ q, ∀ x ∈ Q q, pool.zb.field Zbuf.next x = s.pool.zb.field Zbuf.next x ∧
      pool.zb.field Zbuf.prev x = s.pool.zb.field Zbuf.prev x)
    (hfree : Lib.Chain (pool.zb.field Zbuf.next) (pool.zb.field Zbuf.prev) pool.freeList l')
    (hapart : ∀ q, l'.Disjoint (Q q)) : Inv cfg ⟨pool, s.queue⟩ Q l' :=
  ⟨⟨fun q => (h.holds.queue q).congr (fun x hx => (hkeep q x hx).1) fun x hx => (hkeep q x hx).2,
    h.holds.count, h.holds.apart⟩, h.known, hfree, hapart⟩

omit [DecidableEq ι] in
/-- **`zbuf_free`** of a buffer on none of the lists: the buffer is returned to
    the pool, or not. -/
theorem Inv.zbufFree (h : Inv cfg s Q l) {zb : α} (hfree : zb ∉ l) (hout : ∀ q, zb ∉ Q q)
    (port : Port) : ∃ l', Inv cfg ⟨zbufFree port s.pool (some zb), s.queue⟩ Q l' := by
  -- a store of the reference word changes no link
  have hword : ∀ w, Inv cfg ⟨s.pool.setWord zb w, s.queue⟩ Q l := by
    intro w
    have hn : (s.pool.setWord zb w).zb.field Zbuf.next = s.pool.zb.field Zbuf.next :=
      Lib.Store.field_modify_same Zbuf.next _ _ fun _ => by rfl
    have hp : (s.pool.setWord zb w).zb.field Zbuf.prev = s.pool.zb.field Zbuf.prev :=
      Lib.Store.field_modify_same Zbuf.prev _ _ fun _ => by rfl
    refine h.pool (fun q x _ => ⟨congrFun hn x, congrFun hp x⟩) ?_ h.free_apart
    rw [hn, hp]
    exact h.free
  have hgive : ∀ w, Inv cfg ⟨(s.pool.setWord zb w).giveBack zb, s.queue⟩ Q (zb :: l) := by
    intro w
    refine (hword w).pool (fun q x hx => ?_) (ZbufPool.link_chain _ (hword w).free hfree) fun q =>
      List.disjoint_cons_left.2 ⟨hout q, h.free_apart q⟩
    have hne : x ≠ zb := ne_of_mem_of_not_mem hx (hout q)
    have hhead : s.pool.freeList ≠ some x := by
      rw [h.free.head_eq]
      exact fun he => h.free_apart q (List.mem_of_head? he) hx
    simp only [ZbufPool.giveBack, ZbufPool.link, ZbufPool.setWord, Lib.Store.field_apply,
      Lib.Store.modifyAt_of_ne _ hhead, Lib.Store.modify_of_ne _ hne, and_self]
  simp only [Gracemont.zbufFree]
  split_ifs
  · exact ⟨l, h⟩
  · exact ⟨l, hword _⟩
  · exact ⟨zb :: l, hgive _⟩

/-! ## Flushing -/

/-- **The loop of `zbuf_queue_flush`** with `t` left in the queue: it ends, and
    has released these buffers in their order. -/
theorem Inv.flush_loop {pool : ZbufPool α} {queue : ι → ZbufQueue α} {q : ι} {k : ZbufQueue α}
    {t : List α} (port : Port) (done : List α)
    (h : Inv cfg ⟨pool, Function.update queue q k⟩ (Function.update Q q t) l) :
    ∃ pool' k' l', Lib.Loop.Returns (zbufFlushBody port) (pool, k, done)
        (pool', k', done ++ t) ∧
      Inv cfg ⟨pool', Function.update queue q k'⟩ (Function.update Q q []) l' := by
  induction t generalizing pool k done l with
  | nil =>
    have hpop := h.pop_nil (q := q) (Function.update_self ..)
    simp only [Function.update_self] at hpop
    refine ⟨pool, k, l, .of_inr ?_, h⟩
    simp only [zbufFlushBody, hpop, List.append_nil]
  | cons zb t ih =>
    obtain ⟨m, k₁, hpop, hinv, hfree, hout⟩ := h.pop (q := q) (Function.update_self ..)
    simp only [Function.update_self] at hpop
    obtain ⟨l₁, hinv⟩ := hinv.zbufFree hfree hout port
    simp only [store, Function.update_idem] at hinv
    obtain ⟨pool', k', l', hret, hinv⟩ := ih (done ++ [zb]) hinv
    have hbody : zbufFlushBody port (pool, k, done) =
        .inl (Gracemont.zbufFree port { pool with zb := m } (some zb), k₁, done ++ [zb]) := by
      simp only [zbufFlushBody, hpop]
    rw [List.append_assoc] at hret
    exact ⟨pool', k', l', .of_inl hbody hret, hinv⟩

/-- **`zbuf_queue_flush`** -/
theorem Inv.flush (h : Inv cfg s Q l) (port : Port) (q : ι) :
    ∃ pool k l' fuel, zbufQueueFlush port fuel s.pool (s.queue q) = some (pool, k, Q q) ∧
      Inv cfg ⟨pool, Function.update s.queue q k⟩ (Function.update Q q []) l' := by
  have h' : Inv cfg ⟨s.pool, Function.update s.queue q (s.queue q)⟩
      (Function.update Q q (Q q)) l := by
    rwa [Function.update_eq_self, Function.update_eq_self]
  obtain ⟨pool, k, l', ⟨fuel, hrun⟩, hinv⟩ := h'.flush_loop port []
  exact ⟨pool, k, l', fuel, hrun, hinv⟩

/-! ## Every run -/

/-- **Step.**  A call does to the queues what it does to the lists. -/
theorem Inv.step (h : Inv cfg s Q l) {e : Lib.FifoEvent ι α} (hs : Step cfg port s e s') :
    ∃ Q' l', Lib.FifoStep Q e Q' ∧ Inv cfg s' Q' l' := by
  cases e with
  | push q zb =>
    obtain ⟨hheld, rfl⟩ := hs
    exact ⟨_, l, rfl, h.push hheld q⟩
  | pop q r =>
    cases hQ : Q q with
    | nil =>
      have hpop := h.pop_nil hQ
      simp only [Step, hpop] at hs
      obtain ⟨rfl, rfl⟩ := hs
      have hsame : Function.update Q q (Q q).tail = Q := by
        rw [hQ, List.tail_nil, ← hQ, Function.update_eq_self]
      refine ⟨Q, l, ⟨by rw [hQ]; rfl, hsame.symm⟩, ?_⟩
      rw [store, Function.update_eq_self]
      exact h
    | cons zb t =>
      obtain ⟨m, k, hpop, hinv, -, -⟩ := h.pop hQ
      simp only [Step, hpop] at hs
      obtain ⟨rfl, rfl⟩ := hs
      exact ⟨_, l, ⟨by rw [hQ]; rfl, by rw [hQ]; rfl⟩, hinv⟩
  | peek q r =>
    obtain ⟨rfl, rfl⟩ := hs
    exact ⟨Q, l, ⟨(h.holds.queue q).chain.head_eq, rfl⟩, h⟩
  | flush q t =>
    obtain ⟨fuel, pool, k, hrun, rfl⟩ := hs
    obtain ⟨pool', k', l', fuel', hrun', hinv⟩ := h.flush port q
    cases Lib.Loop.run_unique hrun hrun'
    exact ⟨_, l', ⟨rfl, rfl⟩, hinv⟩

omit [DecidableEq α] [DecidableEq ι] in
/-- The queues hold nothing at first. -/
theorem inv_init (hq : ∀ q, s.queue q = zbufQueueInit)
    (hfree : Lib.Chain (s.pool.zb.field Zbuf.next) (s.pool.zb.field Zbuf.prev) s.pool.freeList l) :
    Inv cfg s (fun _ => []) l := by
  refine ⟨⟨fun q => ?_, fun q => ?_, fun _ _ _ => List.disjoint_nil_left _⟩, ?_, hfree,
    fun _ => List.disjoint_nil_right _⟩
  · rw [hq]
    exact Lib.queue_nil
  · rw [hq]
    rfl
  · intro q zb hzb
    cases hzb

/-- Three buffers, all allocated, and two queues. -/
def demoThreeZbufs : ZbufConfig (Fin 3) := ⟨[0, 1, 2], by decide, by decide⟩

def demoQueues : ZbufQueues (Fin 3) Bool :=
  ⟨⟨fun _ => ⟨0, 0, 0, 0, 0, 0, 0, 0, 0, 0, none, 0, none, none, 0, ⟨fun _ => 0, []⟩⟩, none, 3, 0,
    0⟩, fun _ => zbufQueueInit⟩

/-- A push of a buffer that is on no queue, in a run. -/
theorem demoQueues_push {s : ZbufQueues (Fin 3) Bool} {Q : Bool → List (Fin 3)}
    {tr : List (Lib.FifoEvent Bool (Fin 3))} (h : (lts demoThreeZbufs .arm64).Run tr s)
    (hinv : Inv demoThreeZbufs s Q []) (q : Bool) (zb : Fin 3) (hout : ∀ q, zb ∉ Q q) :
    ∃ s', (lts demoThreeZbufs .arm64).Run (tr ++ [.push q zb]) s' ∧
      Inv demoThreeZbufs s' (Function.update Q q (Q q ++ [zb])) [] := by
  have hknown : ∀ zb, zb ∈ demoThreeZbufs.buffers := by decide
  have hheld := hinv.held_iff.2 ⟨hknown zb, List.not_mem_nil, hout⟩
  have hstep : Step demoThreeZbufs .arm64 s (.push q zb) (s.store q _ _) := ⟨hheld, rfl⟩
  exact ⟨_, h.snoc hstep, hinv.push hheld q⟩

end ZbufQueues

end Gracemont
