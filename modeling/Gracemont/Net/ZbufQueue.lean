/-
  Gracemont networking — queues of buffers (`net/buffer/zbuf.c`).

  A queue is linked through the buffers in it, so its operations change the
  memory of buffers; its lock is left out.
-/
import Gracemont.Net.Zbuf

namespace Gracemont

/-- `zbuf_queue_t` -/
structure ZbufQueue (α : Type) where
  head : Option α
  tail : Option α
  count : BitVec 32

variable {α : Type} [DecidableEq α]

/-- `zbuf_queue_init` -/
def zbufQueueInit : ZbufQueue α := ⟨none, none, 0⟩

/-- `zbuf_queue_push` -/
def zbufQueuePush (m : Lib.Store α (Zbuf α)) (q : ZbufQueue α) (zb : α) :
    Lib.Store α (Zbuf α) × ZbufQueue α :=
  let m := m.modify zb fun z => { z with next := none }
  let m := m.modify zb fun z => { z with prev := q.tail }
  let m := m.modifyAt q.tail fun z => { z with next := some zb }
  let head := if q.tail = none then some zb else q.head
  (m, { head := head, tail := some zb, count := q.count + 1 })

/-- `zbuf_queue_pop` -/
def zbufQueuePop (m : Lib.Store α (Zbuf α)) (q : ZbufQueue α) :
    Lib.Store α (Zbuf α) × ZbufQueue α × Option α :=
  match q.head with
  | none => (m, q, none)
  | some zb =>
    let head := (m zb).next
    let m := m.modifyAt head fun z => { z with prev := none }
    let m := m.modify zb fun z => { z with next := none }
    let m := m.modify zb fun z => { z with prev := none }
    let tail := if head = none then none else q.tail
    (m, { head := head, tail := tail, count := q.count - 1 }, some zb)

/-- `zbuf_queue_peek` -/
def zbufQueuePeek (q : ZbufQueue α) : Option α := q.head

/-- A push only assigns to links. -/
theorem zbufQueuePush_field {γ : Type} (m : Lib.Store α (Zbuf α)) (q : ZbufQueue α) (zb : α)
    (g : Zbuf α → γ) (hn : ∀ z v, g { z with next := v } = g z)
    (hp : ∀ z v, g { z with prev := v } = g z) (x : α) :
    g ((zbufQueuePush m q zb).1 x) = g (m x) := by
  show g (Lib.Store.modifyAt _ _ _ x) = _
  rw [Lib.Store.modifyAt_field g _ _ fun z => hn z _, Lib.Store.modify_field g _ _ (hp _ _),
    Lib.Store.modify_field g _ _ (hn _ _)]

/-- Nor does a pop. -/
theorem zbufQueuePop_field {γ : Type} (m : Lib.Store α (Zbuf α)) (q : ZbufQueue α) (g : Zbuf α → γ)
    (hn : ∀ z v, g { z with next := v } = g z) (hp : ∀ z v, g { z with prev := v } = g z) (x : α) :
    g ((zbufQueuePop m q).1 x) = g (m x) := by
  unfold zbufQueuePop
  split
  · rfl
  · simp only
    rw [Lib.Store.modify_field g _ _ (hp _ _), Lib.Store.modify_field g _ _ (hn _ _),
      Lib.Store.modifyAt_field g _ _ fun z => hp z _]

/-! ## Queues as lists -/

section
variable {m : Lib.Store α (Zbuf α)} {q : ZbufQueue α} {l : List α} {zb : α}

/-- **`zbuf_queue_push`** appends the buffer; the links of other buffers stay. -/
theorem zbufQueuePush_queue
    (h : Lib.Queue (m.field Zbuf.next) (m.field Zbuf.prev) q.head q.tail l) (hzb : zb ∉ l) :
    Lib.Queue ((zbufQueuePush m q zb).1.field Zbuf.next) ((zbufQueuePush m q zb).1.field Zbuf.prev)
        (zbufQueuePush m q zb).2.head (zbufQueuePush m q zb).2.tail (l ++ [zb]) ∧
      ∀ x, x ≠ zb → x ∉ l → (zbufQueuePush m q zb).1 x = m x := by
  have hnext : (zbufQueuePush m q zb).1.field Zbuf.next =
      Lib.setAt (Function.update (m.field Zbuf.next) zb none) q.tail (some zb) := by
    refine (Lib.Store.field_modifyAt Zbuf.next _ _ (v := some zb) ?_).trans (by simp)
    intro z; rfl
  have hprev : (zbufQueuePush m q zb).1.field Zbuf.prev =
      Function.update (m.field Zbuf.prev) zb q.tail := by
    refine (Lib.Store.field_modifyAt_same Zbuf.prev _ _ ?_).trans (by simp)
    intro z; rfl
  refine ⟨?_, fun x hx hxl => ?_⟩
  · rw [hnext, hprev]
    exact h.pushBack hzb
  · have htail : q.tail ≠ some x := by
      rw [h.tail_eq]
      exact fun he => hxl (List.mem_of_getLast? he)
    simp only [zbufQueuePush, Lib.Store.modifyAt_of_ne _ htail, Lib.Store.modify_of_ne _ hx]

/-- `zbuf_queue_pop` of an empty queue. -/
theorem zbufQueuePop_nil
    (h : Lib.Queue (m.field Zbuf.next) (m.field Zbuf.prev) q.head q.tail []) :
    zbufQueuePop m q = (m, q, none) := by
  have hhead : q.head = none := h.chain.head_eq
  simp only [zbufQueuePop, hhead]

/-- **`zbuf_queue_pop`** takes the first buffer; the links of other buffers stay. -/
theorem zbufQueuePop_cons
    (h : Lib.Queue (m.field Zbuf.next) (m.field Zbuf.prev) q.head q.tail (zb :: l)) :
    ∃ m' k, zbufQueuePop m q = (m', k, some zb) ∧
      Lib.Queue (m'.field Zbuf.next) (m'.field Zbuf.prev) k.head k.tail l ∧
      k.count = q.count - 1 ∧ ∀ x, x ∉ zb :: l → m' x = m x := by
  have hhead : q.head = some zb := h.chain.head_eq
  rw [hhead] at h
  rcases hpop : zbufQueuePop m q with ⟨m', k, r⟩
  simp only [zbufQueuePop, hhead] at hpop
  cases hpop
  refine ⟨_, _, rfl, ?_, rfl, fun x hx => ?_⟩
  · rw [Lib.Store.field_modify_same Zbuf.next _ _ (fun z => by rfl),
      Lib.Store.field_modify, Lib.Store.field_modifyAt_same Zbuf.next _ _ (fun z => by rfl),
      Lib.Store.field_modify, Lib.Store.field_modify_same Zbuf.prev _ _ (fun z => by rfl),
      Lib.Store.field_modifyAt Zbuf.prev _ _ (v := none) (fun z => by rfl)]
    exact h.popFront
  · have hnext : (m zb).next = l.head? := by
      have hseg := h.chain.seg.2.1
      rwa [Option.or_none] at hseg
    have hne : (m zb).next ≠ some x := by
      rw [hnext]
      exact fun he => hx (List.mem_cons_of_mem zb (List.mem_of_head? he))
    have hxzb : x ≠ zb := fun he => hx (he ▸ List.mem_cons_self)
    simp only [Lib.Store.modify_of_ne _ hxzb, Lib.Store.modifyAt_of_ne _ hne]

end

end Gracemont
