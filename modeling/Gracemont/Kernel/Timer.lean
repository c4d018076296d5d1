/-
  Gracemont kernel — software timers (`kernel/interrupt.c` of the ARM64 port).

  A `timer_t *` is an element of `α`.  The loops over the list walk a
  `timer_t **`, which is a place of the list (`Lib.Path`): the variable
  `timer_list` or the `next` field of a timer.

  `timer_tick_handler` calls the callbacks without the lock, so it is cut there:
  `timerFire` runs it up to its next callback or its return, and
  `timerCallbackReturned` goes on after a callback.  In between, the callback
  may start and stop timers.  A callback is only compared with `NULL`; `arg` is
  left out.

  * `timerStart`, `timerStop`, `timerFire`, `timerCallbackReturned`: the API;
  * `TimerOp`, `timerStep`: the timers as a transition system, `timerLts`.
-/
import Gracemont.Kernel.Types
import Gracemont.Lib.Loop
import Gracemont.Lib.Path
import Gracemont.Lib.Trace

namespace Gracemont

/-- `timer_t` -/
structure SoftTimer (α : Type) where
  expireTick : BitVec 32
  period : BitVec 32
  callback : Option ℕ
  active : Bool
  periodic : Bool
  next : Option α

/-- The memory of all timers, and `timer_list`. -/
structure Timers (α : Type) where
  timer : Lib.Store α (SoftTimer α)
  list : Option α

variable {α : Type} [DecidableEq α]

namespace Timers

/-- The `next` pointers. -/
def next (s : Timers α) : α → Option α := fun t => (s.timer t).next

/-- `*pp` -/
def load (s : Timers α) (pp : Option α) : Option α := Lib.pointerAt s.next s.list pp

/-- `*pp = v` -/
def store (s : Timers α) (pp v : Option α) : Timers α where
  timer := s.timer.modifyAt pp fun t => { t with next := v }
  list := Lib.setHead s.list pp v

/-- Assignment to fields of a timer. -/
def modify (s : Timers α) (t : α) (f : SoftTimer α → SoftTimer α) : Timers α :=
  { s with timer := s.timer.modify t f }

end Timers

/-- `timer_init` -/
def timerInit (s : Timers α) (timer : α) (callback : Option ℕ) : Timers α :=
  s.modify timer fun t =>
    { t with callback := callback, active := false, periodic := false, next := none }

/-- The loop that looks for the place of `timer`; `none` is the end of the
    list. -/
def findBody (s : Timers α) (timer : α) (pp : Option α) : Option α ⊕ Option (Option α) :=
  match s.load pp with
  | none => .inr none
  | some t => if t = timer then .inr (some pp) else .inl (some t)

/-- Removing a timer from the list, if it is there. -/
def removeTimer (fuel : ℕ) (s : Timers α) (timer : α) : Option (Timers α) := do
  match ← Lib.Loop.run (findBody s timer) fuel none with
  | none => some s
  | some pp => some (s.store pp (s.timer timer).next)

/-- The loop that looks for the place to insert `timer`. -/
def sortedBody (s : Timers α) (timer : α) (pp : Option α) : Option α ⊕ Option α :=
  match s.load pp with
  | none => .inr pp
  | some t =>
    if (s.timer t).expireTick ≤ (s.timer timer).expireTick then .inl (some t) else .inr pp

/-- Inserting a timer, sorted by expiration. -/
def insertTimer (fuel : ℕ) (s : Timers α) (timer : α) : Option (Timers α) := do
  let pp ← Lib.Loop.run (sortedBody s timer) fuel none
  let s := s.modify timer fun t => { t with next := s.load pp }
  some (s.store pp (some timer))

/-- `timer_start`, at the tick `now`. -/
def timerStart (fuel : ℕ) (now : BitVec 32) (s : Timers α) (timer : Option α) (delay : BitVec 32)
    (periodic : Bool) : Option (Timers α × Status) :=
  match timer with
  | none => some (s, .invalid)
  | some timer =>
    if (s.timer timer).callback = none then some (s, .invalid)
    else do
      let s ← removeTimer fuel s timer
      let s := s.modify timer fun t => { t with
        expireTick := now + delay
        period := if periodic then delay else 0
        periodic := periodic
        active := true }
      let s ← insertTimer fuel s timer
      some (s, .ok)

/-- `timer_stop` -/
def timerStop (fuel : ℕ) (s : Timers α) (timer : Option α) : Option (Timers α) :=
  match timer with
  | none => some s
  | some timer => removeTimer fuel (s.modify timer fun t => { t with active := false }) timer

/-- The loop of `timer_tick_handler` up to a callback. -/
def fireBody (now : BitVec 32) (s : Timers α) : Timers α ⊕ (Timers α × Option α) :=
  match s.list with
  | none => .inr (s, none)
  | some timer =>
    if (s.timer timer).expireTick ≤ now then
      let s := { s with list := (s.timer timer).next }
      if (s.timer timer).active then .inr (s, some timer) else .inl s
    else .inr (s, none)

/-- `timer_tick_handler` at the tick `now`, up to its next callback or its
    return; and the timer whose callback it calls. -/
def timerFire (fuel : ℕ) (now : BitVec 32) (s : Timers α) : Option (Timers α × Option α) :=
  Lib.Loop.run (fireBody now) fuel s

/-- Rescheduling a timer after its callback, if it is periodic. -/
def timerReschedule (fuel : ℕ) (now : BitVec 32) (s : Timers α) (timer : α) : Option (Timers α) :=
  if (s.timer timer).periodic ∧ (s.timer timer).active then
    insertTimer fuel (s.modify timer fun t => { t with expireTick := now + t.period }) timer
  else some s

/-- `timer_tick_handler` after the callback of `timer`. -/
def timerCallbackReturned (fuel : ℕ) (now : BitVec 32) (s : Timers α) (timer : α) :
    Option (Timers α × Option α) := do
  let s ← timerReschedule fuel now s timer
  timerFire fuel now s

/-! ## The transition system -/

/-- The timers, and the callback that `timer_tick_handler` is in, with its
    `now`. -/
structure TimerSys (α : Type) where
  timers : Timers α
  firing : Option (α × BitVec 32)

/-- The calls of `timer_start` and `timer_stop`, from a callback or not, the
    tick, and the return of a callback. -/
inductive TimerOp (α : Type) where
  | start (now : BitVec 32) (timer : Option α) (delay : BitVec 32) (periodic : Bool)
  | stop (timer : Option α)
  | tick (now : BitVec 32)
  | callbackReturned
  deriving DecidableEq

/-- One operation; the handler is not entered from a callback. -/
def timerStep (fuel : ℕ) (s : TimerSys α) : TimerOp α → Option (TimerSys α)
  | .start now timer delay periodic => do
    let (timers, _) ← timerStart fuel now s.timers timer delay periodic
    some { s with timers := timers }
  | .stop timer => do
    let timers ← timerStop fuel s.timers timer
    some { s with timers := timers }
  | .tick now => match s.firing with
    | some _ => none
    | none => do
      let (timers, timer) ← timerFire fuel now s.timers
      some ⟨timers, timer.map (·, now)⟩
  | .callbackReturned => match s.firing with
    | none => none
    | some (timer, now) => do
      let (timers, timer) ← timerCallbackReturned fuel now s.timers timer
      some ⟨timers, timer.map (·, now)⟩

/-- The timers as a transition system, after `timer_init` of each. -/
def timerLts : Lib.Lts (TimerSys α) (TimerOp α) where
  init s := s.timers.list = none ∧ s.firing = none ∧
    ∀ t, ∃ m callback, s.timers.timer t = (timerInit m t callback).timer t
  step s op s' := ∃ fuel, timerStep fuel s op = some s'

end Gracemont
