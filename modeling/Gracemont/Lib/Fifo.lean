/-
  Families of first-in first-out queues.

  The queues are indexed by `ι` and unbounded.  An event records what the call
  returned, so that a run of `fifo` says what the calls of a trace may return;
  `fifo_order`: what was pushed to a queue is, in this order, what was taken
  from it and then what it still holds.
-/
import Gracemont.Lib.Trace

namespace Lib

variable {ι α : Type*}

/-- A call on a queue, with what it returned. -/
inductive FifoEvent (ι α : Type*) where
  | push (q : ι) (x : α)
  | pop (q : ι) (r : Option α)
  | peek (q : ι) (r : Option α)
  | flush (q : ι) (l : List α)

variable [DecidableEq ι]

/-- What a call does to the queues `Q`, and what it returns. -/
def FifoStep (Q : ι → List α) (e : FifoEvent ι α) (Q' : ι → List α) : Prop :=
  match e with
  | .push q x => Q' = Function.update Q q (Q q ++ [x])
  | .pop q r => r = (Q q).head? ∧ Q' = Function.update Q q (Q q).tail
  | .peek q r => r = (Q q).head? ∧ Q' = Q
  | .flush q l => l = Q q ∧ Q' = Function.update Q q []

/-- The queues, empty at first. -/
def fifo (ι α : Type*) [DecidableEq ι] : Lts (ι → List α) (FifoEvent ι α) :=
  ⟨fun Q => Q = fun _ => [], FifoStep⟩

/-- What an event pushes to a queue. -/
def FifoEvent.pushed (q : ι) : FifoEvent ι α → List α
  | push p x => if p = q then [x] else []
  | _ => []

/-- What an event takes from a queue. -/
def FifoEvent.taken (q : ι) : FifoEvent ι α → List α
  | pop p r => if p = q then r.toList else []
  | flush p l => if p = q then l else []
  | _ => []

theorem FifoStep.order {Q Q' : ι → List α} {e : FifoEvent ι α} (h : FifoStep Q e Q') (q : ι) :
    Q q ++ e.pushed q = e.taken q ++ Q' q := by
  cases e with
  | push p x =>
    subst h
    by_cases hp : p = q
    · subst hp
      simp [FifoEvent.pushed, FifoEvent.taken]
    · simp [FifoEvent.pushed, FifoEvent.taken, hp, Function.update_of_ne (Ne.symm hp)]
  | pop p r =>
    obtain ⟨rfl, rfl⟩ := h
    by_cases hp : p = q
    · subst hp
      cases Q p <;> simp [FifoEvent.pushed, FifoEvent.taken]
    · simp [FifoEvent.pushed, FifoEvent.taken, hp, Function.update_of_ne (Ne.symm hp)]
  | peek p r =>
    obtain ⟨-, rfl⟩ := h
    simp [FifoEvent.pushed, FifoEvent.taken]
  | flush p l =>
    obtain ⟨rfl, rfl⟩ := h
    by_cases hp : p = q
    · subst hp
      simp [FifoEvent.pushed, FifoEvent.taken]
    · simp [FifoEvent.pushed, FifoEvent.taken, hp, Function.update_of_ne (Ne.symm hp)]

/-- **First in, first out.** -/
theorem fifo_order {tr : List (FifoEvent ι α)} {Q : ι → List α} (h : (fifo ι α).Run tr Q) (q : ι) :
    tr.flatMap (FifoEvent.pushed q) = tr.flatMap (FifoEvent.taken q) ++ Q q := by
  induction h with
  | start h =>
    rw [show _ = fun _ => [] from h]
    rfl
  | snoc _ hs ih =>
    simp only [List.flatMap_append, List.flatMap_singleton, ih, List.append_assoc]
    rw [FifoStep.order hs q]

end Lib
