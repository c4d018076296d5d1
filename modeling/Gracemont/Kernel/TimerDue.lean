/-
  Gracemont kernel — when software timers fire.

  A timer that is started at the tick `t` with the delay `d` is due at `t + d`.  The
  kernel keeps both modulo `2 ^ 32`, and compares them by plain order: a timer whose
  expiry wraps fires at once, and one that is still on the list when the counter wraps
  has to wait.

  * `TimedTimers`, `timedLts`: the timers beside the number of ticks, which does not wrap;
  * `HandlerTimely`: what a run of the handler has to do;
  * `TimedSafe`: the steps where the comparisons are right;
  * `timers_timely_of_safe`.
-/
import Gracemont.Kernel.TimerHandler

namespace Gracemont

variable {α : Type}

/-! ## The timers and the ticks -/

/-- The counter after `n` ticks. -/
def tickAt (n : ℕ) : BitVec 32 := BitVec.ofNat 32 n

/-- The timers, the ticks so far, the tick at which the handler was last entered, and
    for each timer that was started, and since then neither stopped nor fired, the tick
    at which it is due. -/
structure TimedTimers (α : Type) where
  sys : TimerSys α
  clock : ℕ
  run : ℕ
  due : α → Option ℕ

/-- A tick passes, a timer is started or stopped, the handler is entered, or a callback
    returns to it. -/
inductive TimedOp (α : Type) where
  | elapse
  | start (timer : Option α) (delay : BitVec 32) (periodic : Bool)
  | stop (timer : Option α)
  | handler
  | callbackReturned

section
variable [DecidableEq α]

namespace TimedTimers
variable (s : TimedTimers α)

/-- What is due after `timer_start`. -/
def started (timer : Option α) (delay : BitVec 32) : α → Option ℕ :=
  match timer with
  | none => s.due
  | some t =>
    if (s.sys.timers.timer t).callback = none then s.due
    else Function.update s.due t (some (s.clock + delay.toNat))

/-- What is due after `timer_stop`. -/
def stopped (timer : Option α) : α → Option ℕ :=
  match timer with
  | none => s.due
  | some t => Function.update s.due t none

/-- The callback was that of a timer that is to be rescheduled. -/
def Rescheduled (t : α) : Prop :=
  (s.sys.timers.timer t).periodic = true ∧ (s.sys.timers.timer t).active = true

instance (t : α) : Decidable (s.Rescheduled t) := inferInstanceAs (Decidable (_ ∧ _))

/-- What is due when the handler goes on after a callback. -/
def rescheduled : α → Option ℕ :=
  match s.sys.firing with
  | none => s.due
  | some (t, _) =>
    if s.Rescheduled t then
      Function.update s.due t (some (s.run + (s.sys.timers.timer t).period.toNat))
    else s.due

end TimedTimers

/-- What is due when the handler calls a callback, or returns. -/
def dueFired (sys : TimerSys α) (due : α → Option ℕ) : α → Option ℕ :=
  match sys.firing with
  | none => due
  | some (t, _) => Function.update due t none

/-- One step. -/
def timedStep (fuel : ℕ) (s : TimedTimers α) : TimedOp α → Option (TimedTimers α)
  | .elapse => some { s with clock := s.clock + 1 }
  | .start timer delay periodic =>
    (timerStep fuel s.sys (.start (tickAt s.clock) timer delay periodic)).map fun sys =>
      { s with sys := sys, due := s.started timer delay }
  | .stop timer =>
    (timerStep fuel s.sys (.stop timer)).map fun sys =>
      { s with sys := sys, due := s.stopped timer }
  | .handler =>
    (timerStep fuel s.sys (.tick (tickAt s.clock))).map fun sys =>
      { s with sys := sys, run := s.clock, due := dueFired sys s.due }
  | .callbackReturned =>
    (timerStep fuel s.sys .callbackReturned).map fun sys =>
      { s with sys := sys, due := dueFired sys s.rescheduled }

/-- The timers as a transition system, from any tick on. -/
def timedLts : Lib.Lts (TimedTimers α) (TimedOp α) where
  init s := timerLts.init s.sys ∧ s.due = fun _ => none
  step s op s' := ∃ fuel, timedStep fuel s op = some s'

/-! ## Statement -/

/-- What the handler starts out with in a step, as the timers that are due. -/
def TimedTimers.pending (s : TimedTimers α) : TimedOp α → α → Option ℕ
  | .callbackReturned => s.rescheduled
  | _ => s.due

/-- **A step of the handler in time**: a timer that it fires is due, and when it
    returns no timer that is due is left. -/
structure HandlerTimely (s : TimedTimers α) (op : TimedOp α) (s' : TimedTimers α) : Prop where
  due : ∀ t now, s'.sys.firing = some (t, now) → ∃ D, s.pending op t = some D ∧ D ≤ s'.run
  done : s'.sys.firing = none → ∀ t D, s'.due t = some D → s'.run < D

/-- Two ticks compare modulo `2 ^ 32` as they do in full. -/
def SameOrder (D T : ℕ) : Prop := tickAt D ≤ tickAt T ↔ D ≤ T

/-- **The steps where the comparisons are right**: whenever the handler looks at the
    list, all timers on it are in order with its tick; and a periodic timer is off the
    list when its callback returns. -/
def TimedSafe (s : TimedTimers α) : TimedOp α → Prop
  | .handler => ∀ t D, s.due t = some D → SameOrder D s.clock
  | .callbackReturned => (∀ t now, s.sys.firing = some (t, now) → s.Rescheduled t →
      s.due t = none) ∧ ∀ t D, s.rescheduled t = some D → SameOrder D s.run
  | _ => True

/-- Ticks between two wraps of the counter are in order. -/
theorem sameOrder_of_same_wrap {D T : ℕ} (h : D / 2 ^ 32 = T / 2 ^ 32) : SameOrder D T := by
  have hD := Nat.div_add_mod D (2 ^ 32)
  have hT := Nat.div_add_mod T (2 ^ 32)
  rw [SameOrder, tickAt, tickAt, BitVec.le_def, BitVec.toNat_ofNat, BitVec.toNat_ofNat]
  omega

theorem tickAt_add (n : ℕ) (d : BitVec 32) : tickAt n + d = tickAt (n + d.toNat) := by
  rw [tickAt, tickAt, BitVec.ofNat_add, BitVec.ofNat_toNat, BitVec.setWidth_eq]

/-! ## The list -/

/-- The list has the timers that are to fire, sorted by their expiry. -/
structure DueList (s : Timers α) (due : α → Option ℕ) (l : List α) : Prop where
  path : Lib.Path s.next s.list l
  sorted : s.Sorted l
  active : ∀ t ∈ l, (s.timer t).active = true
  mem : ∀ t, t ∈ l ↔ due t ≠ none
  expire : ∀ t D, due t = some D → (s.timer t).expireTick = tickAt D

namespace DueList
variable {s s' : Timers α} {due : α → Option ℕ} {l l' : List α} {t : α} {fuel : ℕ}

/-- A timer is put on the list. -/
theorem insert {g : SoftTimer α → SoftTimer α} {D : ℕ} (h : DueList s due l)
    (hpath : Lib.Path s'.next s'.list l') (hsorted : s'.Sorted l')
    (hperm : l'.Perm (t :: l.erase t)) (hsame : (s.modify t g).Same s')
    (hactive : (g (s.timer t)).active = true)
    (hexpire : (g (s.timer t)).expireTick = tickAt D) :
    DueList s' (Function.update due t (some D)) l' := by
  have hmem : ∀ x, x ∈ l' ↔ x = t ∨ x ∈ l := by
    intro x
    rw [hperm.mem_iff, List.mem_cons, h.path.nodup.mem_erase_iff]
    tauto
  refine ⟨hpath, hsorted, fun x hx => ?_, fun x => ?_, fun x D' hx => ?_⟩
  · rw [hsame.active]
    by_cases hxt : x = t
    · simpa [Timers.modify, hxt] using hactive
    · simpa [Timers.modify, hxt] using h.active x (((hmem x).1 hx).resolve_left hxt)
  · rw [hmem]
    by_cases hxt : x = t
    · simp [hxt]
    · simpa [hxt] using h.mem x
  · rw [hsame.expireTick]
    by_cases hxt : x = t
    · subst hxt
      rw [Function.update_self] at hx
      cases hx
      simpa [Timers.modify] using hexpire
    · rw [Function.update_of_ne hxt] at hx
      simpa [Timers.modify, hxt] using h.expire x D' hx

/-- A timer is taken off the list. -/
theorem remove {g : SoftTimer α → SoftTimer α} (h : DueList s due l)
    (hpath : Lib.Path s'.next s'.list (l.erase t)) (hsorted : s'.Sorted (l.erase t))
    (hsame : (s.modify t g).Same s') : DueList s' (Function.update due t none) (l.erase t) := by
  refine ⟨hpath, hsorted, fun x hx => ?_, fun x => ?_, fun x D' hx => ?_⟩
  · obtain ⟨hxt, hxl⟩ := h.path.nodup.mem_erase_iff.1 hx
    rw [hsame.active]
    simpa [Timers.modify, hxt] using h.active x hxl
  · rw [h.path.nodup.mem_erase_iff]
    by_cases hxt : x = t
    · simp [hxt]
    · simpa [hxt] using h.mem x
  · by_cases hxt : x = t
    · subst hxt
      rw [Function.update_self] at hx
      cases hx
    · rw [Function.update_of_ne hxt] at hx
      rw [hsame.expireTick]
      simpa [Timers.modify, hxt] using h.expire x D' hx

/-- **`timer_start`** at the tick `n`. -/
theorem start (h : DueList s due l) {n : ℕ} {delay : BitVec 32} {periodic : Bool} {r : Status}
    (hc : (s.timer t).callback ≠ none)
    (hs : timerStart fuel (tickAt n) s (some t) delay periodic = some (s', r)) :
    ∃ l', DueList s' (Function.update due t (some (n + delay.toNat))) l' := by
  obtain ⟨l', hpath, hsorted, hperm, hsame⟩ := timerStart_spec h.path h.sorted hc hs
  exact ⟨l', h.insert hpath hsorted hperm hsame rfl (tickAt_add n delay)⟩

/-- **`timer_stop`.** -/
theorem stop (h : DueList s due l) (hs : timerStop fuel s (some t) = some s') :
    DueList s' (Function.update due t none) (l.erase t) := by
  obtain ⟨hpath, hsorted, hsame⟩ := timerStop_spec h.path h.sorted hs
  exact h.remove hpath hsorted hsame

/-- **Rescheduling**, in a run of the handler at the tick `n`. -/
theorem reschedule (h : DueList s due l) {n : ℕ} (ht : due t = none)
    (hp : (s.timer t).periodic = true ∧ (s.timer t).active = true)
    (hs : timerReschedule fuel (tickAt n) s t = some s') :
    ∃ l', DueList s' (Function.update due t (some (n + (s.timer t).period.toNat))) l' := by
  have hl : t ∉ l := fun hm => (h.mem t).1 hm ht
  obtain ⟨l', hpath, hsorted, hperm, hsame⟩ := timerReschedule_spec h.path h.sorted hl hp hs
  rw [← List.erase_of_not_mem hl] at hperm
  exact ⟨l', h.insert hpath hsorted hperm hsame hp.2 (tickAt_add n _)⟩

omit [DecidableEq α] in
theorem queue (h : DueList s due l) : TimerQueue s l := ⟨h.path, h.sorted, h.active⟩

/-- **The handler looks at the list**, at the tick `n`: it calls the callback of a timer
    that is due, or no timer is. -/
theorem fire (h : DueList s due l) {n : ℕ} {c : Option α}
    (hn : ∀ t D, due t = some D → SameOrder D n)
    (hs : timerFire fuel (tickAt n) s = some (s', c)) :
    (c = none ∧ DueList s' due l ∧ ∀ t D, due t = some D → n < D) ∨
      ∃ t D l', c = some t ∧ due t = some D ∧ D ≤ n ∧
        DueList s' (Function.update due t none) l' := by
  obtain ⟨rfl, rfl, hnone⟩ | ⟨t, l', rfl, rfl, hexp, rfl⟩ := h.queue.fire hs
  · refine .inl ⟨rfl, h, fun t D hD => ?_⟩
    have ht : t ∈ l := (h.mem t).2 (by simp [hD])
    have hexp := List.filter_eq_nil_iff.1 hnone t ht
    rw [decide_eq_true_eq, h.expire t D hD] at hexp
    exact Nat.lt_of_not_le fun hle => hexp ((hn t D hD).2 hle)
  · obtain ⟨D, hD⟩ := Option.ne_none_iff_exists'.1 ((h.mem t).1 List.mem_cons_self)
    rw [h.expire t D hD] at hexp
    refine .inr ⟨t, D, (t :: l').erase t, rfl, hD, (hn t D hD).1 hexp, ?_⟩
    refine h.remove (g := id) ?_ ?_ fun x => ?_
    · rw [List.erase_cons_head]
      exact h.path.2
    · rw [List.erase_cons_head]
      exact (List.pairwise_cons.1 h.sorted).2
    · simp only [Timers.modify, Lib.Store.modify_apply, id_eq]
      split_ifs with hx
      · rw [hx]
      · rfl

end DueList

/-! ## Runs -/

/-- What holds between two steps. -/
structure TimedInv (s : TimedTimers α) : Prop where
  list : ∃ l, DueList s.sys.timers s.due l
  firing : ∀ t now, s.sys.firing = some (t, now) → now = tickAt s.run

variable {s s' : TimedTimers α} {op : TimedOp α} {fuel : ℕ}

/-- The handler looks at the list, with `due` to fire, in a run at the tick `n`. -/
theorem fire_timely {timers timers' : Timers α} {due : α → Option ℕ} {n : ℕ} {l : List α}
    {c : Option α} {sys : TimerSys α} (h : DueList timers due l)
    (hn : ∀ t D, due t = some D → SameOrder D n)
    (hfire : timerFire fuel (tickAt n) timers = some (timers', c))
    (hsys : sys = ⟨timers', c.map (·, tickAt n)⟩) :
    ((∃ l', DueList sys.timers (dueFired sys due) l') ∧
      ∀ t now, sys.firing = some (t, now) → now = tickAt n) ∧
    (∀ t now, sys.firing = some (t, now) → ∃ D, due t = some D ∧ D ≤ n) ∧
    (sys.firing = none → ∀ t D, dueFired sys due t = some D → n < D) := by
  subst hsys
  obtain ⟨rfl, hlist, hlate⟩ | ⟨t, D, l', rfl, hD, hle, hlist⟩ := h.fire hn hfire
  · refine ⟨⟨⟨l, hlist⟩, fun t now hf => ?_⟩, fun t now hf => ?_, fun _ => hlate⟩
    · cases hf
    · cases hf
  · refine ⟨⟨⟨l', hlist⟩, fun u now hf => ?_⟩, fun u now hf => ?_, fun hf => ?_⟩
    · cases hf
      rfl
    · cases hf
      exact ⟨D, hD, hle⟩
    · cases hf

/-- After a callback, the timers that are to fire are those of `rescheduled`. -/
theorem TimedInv.reschedule (h : TimedInv s) (hsafe : TimedSafe s .callbackReturned) {t : α}
    {now : BitVec 32} (hf : s.sys.firing = some (t, now)) {timers : Timers α}
    (hs : timerReschedule fuel now s.sys.timers t = some timers) :
    ∃ l, DueList timers s.rescheduled l := by
  obtain ⟨l, hl⟩ := h.list
  obtain rfl := h.firing t now hf
  unfold TimedTimers.rescheduled
  rw [hf]
  by_cases hp : s.Rescheduled t
  · simp only [if_pos hp]
    exact hl.reschedule (hsafe.1 t _ hf hp) hp hs
  · simp only [if_neg hp]
    have hp' : ¬ ((s.sys.timers.timer t).periodic = true ∧
        (s.sys.timers.timer t).active = true) := hp
    unfold timerReschedule at hs
    rw [if_neg hp'] at hs
    cases hs
    exact ⟨l, hl⟩

/-- **Step.** -/
theorem timed_step (h : TimedInv s) (hsafe : TimedSafe s op) (hs : timedLts.step s op s') :
    TimedInv s' ∧ (op = .handler ∨ op = .callbackReturned → HandlerTimely s op s') := by
  obtain ⟨fuel, hs⟩ := hs
  obtain ⟨l, hl⟩ := h.list
  cases op with
  | elapse =>
    cases hs
    refine ⟨⟨⟨l, hl⟩, h.firing⟩, ?_⟩
    rintro (he | he)
    · cases he
    · cases he
  | start timer delay periodic =>
    obtain ⟨sys, hsys, rfl⟩ := Option.map_eq_some_iff.1 hs
    obtain ⟨⟨timers, r⟩, hst, hsys⟩ := Option.bind_eq_some_iff.1 hsys
    cases hsys
    refine ⟨⟨?_, h.firing⟩, ?_⟩
    · cases timer with
      | none =>
        cases hst
        exact ⟨l, hl⟩
      | some t =>
        simp only [TimedTimers.started]
        by_cases hc : (s.sys.timers.timer t).callback = none
        · rw [timerStart_invalid hc] at hst
          cases hst
          rw [if_pos hc]
          exact ⟨l, hl⟩
        · rw [if_neg hc]
          exact hl.start hc hst
    · rintro (he | he)
      · cases he
      · cases he
  | stop timer =>
    obtain ⟨sys, hsys, rfl⟩ := Option.map_eq_some_iff.1 hs
    obtain ⟨timers, hst, hsys⟩ := Option.bind_eq_some_iff.1 hsys
    cases hsys
    refine ⟨⟨?_, h.firing⟩, ?_⟩
    · cases timer with
      | none =>
        cases hst
        exact ⟨l, hl⟩
      | some t => exact ⟨_, hl.stop hst⟩
    · rintro (he | he)
      · cases he
      · cases he
  | handler =>
    obtain ⟨sys, hsys, rfl⟩ := Option.map_eq_some_iff.1 hs
    unfold timerStep at hsys
    cases hf : s.sys.firing with
    | some c => simp [hf] at hsys
    | none =>
      simp only [hf, Option.bind_eq_bind, Option.bind_eq_some_iff, Option.some.injEq] at hsys
      obtain ⟨⟨timers, c⟩, hfire, hsys⟩ := hsys
      obtain ⟨⟨hlist, hfiring⟩, hdue, hdone⟩ := fire_timely hl hsafe hfire hsys.symm
      exact ⟨⟨hlist, hfiring⟩, fun _ => ⟨hdue, hdone⟩⟩
  | callbackReturned =>
    obtain ⟨sys, hsys, rfl⟩ := Option.map_eq_some_iff.1 hs
    unfold timerStep at hsys
    cases hf : s.sys.firing with
    | none => simp [hf] at hsys
    | some c =>
      obtain ⟨t, now⟩ := c
      simp only [hf, timerCallbackReturned, Option.bind_eq_bind, Option.bind_eq_some_iff,
        Option.some.injEq] at hsys
      obtain ⟨⟨timers, c⟩, ⟨timers₁, hre, hfire⟩, hsys⟩ := hsys
      obtain ⟨l₁, hl₁⟩ := h.reschedule hsafe hf hre
      obtain rfl := h.firing t now hf
      obtain ⟨⟨hlist, hfiring⟩, hdue, hdone⟩ := fire_timely hl₁ hsafe.2 hfire hsys.symm
      exact ⟨⟨hlist, hfiring⟩, fun _ => ⟨hdue, hdone⟩⟩

theorem timed_run {tr : List (TimedOp α)} (h : (timedLts.restrict TimedSafe).Run tr s) :
    TimedInv s := by
  refine Lib.Lts.Run.rule (P := fun _ s => TimedInv s) ?_ ?_ h
  · rintro s ⟨⟨hlist, hfiring, -⟩, hdue⟩
    refine ⟨⟨[], hlist, List.Pairwise.nil, List.forall_mem_nil _, ?_, ?_⟩, ?_⟩
    · intro t
      simp [hdue]
    · intro t D hD
      rw [hdue] at hD
      cases hD
    · intro t now hf
      rw [hfiring] at hf
      cases hf
  · rintro - s op s' hI ⟨hsafe, hs⟩
    exact (timed_step hI hsafe hs).1

/-- A timer that is due stays so until it is fired, unless it is started again or
    stopped. -/
theorem due_kept (hsafe : TimedSafe s op) (hs : timedLts.step s op s') {t : α} {D : ℕ}
    (hD : s.due t = some D) (hstart : ∀ delay periodic, op ≠ .start (some t) delay periodic)
    (hstop : op ≠ .stop (some t)) :
    s'.due t = some D ∨ (op = .handler ∨ op = .callbackReturned) ∧ ∃ now,
      s'.sys.firing = some (t, now) := by
  obtain ⟨fuel, hs⟩ := hs
  have hfired : ∀ (sys : TimerSys α) (due : α → Option ℕ), due t = some D →
      dueFired sys due t = some D ∨ ∃ now, sys.firing = some (t, now) := by
    intro sys due hdue
    unfold dueFired
    rcases sys.firing with _ | ⟨u, now⟩
    · exact .inl hdue
    · by_cases hu : t = u
      · exact .inr ⟨now, by rw [hu]⟩
      · refine .inl ?_
        simp only [Function.update_of_ne hu]
        exact hdue
  cases op with
  | elapse =>
    cases hs
    exact .inl hD
  | start timer delay periodic =>
    obtain ⟨sys, -, rfl⟩ := Option.map_eq_some_iff.1 hs
    refine .inl ?_
    cases timer with
    | none => exact hD
    | some u =>
      have hu : t ≠ u := fun he => hstart delay periodic (he ▸ rfl)
      simp only [TimedTimers.started]
      split_ifs
      · exact hD
      · rw [Function.update_of_ne hu]
        exact hD
  | stop timer =>
    obtain ⟨sys, -, rfl⟩ := Option.map_eq_some_iff.1 hs
    refine .inl ?_
    cases timer with
    | none => exact hD
    | some u =>
      have hu : t ≠ u := fun he => hstop (he ▸ rfl)
      simp only [TimedTimers.stopped]
      rw [Function.update_of_ne hu]
      exact hD
  | handler =>
    obtain ⟨sys, -, rfl⟩ := Option.map_eq_some_iff.1 hs
    exact (hfired sys _ hD).imp_right fun h => ⟨.inl rfl, h⟩
  | callbackReturned =>
    obtain ⟨sys, -, rfl⟩ := Option.map_eq_some_iff.1 hs
    have hkeep : s.rescheduled t = some D := by
      unfold TimedTimers.rescheduled
      rcases hf : s.sys.firing with _ | ⟨u, now⟩
      · exact hD
      · by_cases hp : s.Rescheduled u
        · have hu : t ≠ u := by
            rintro rfl
            rw [hsafe.1 t now hf hp] at hD
            cases hD
          simp only [if_pos hp, Function.update_of_ne hu]
          exact hD
        · simp only [if_neg hp]
          exact hD
    exact (hfired sys _ hkeep).imp_right fun h => ⟨.inr rfl, h⟩

/-- The handler has a next step, and so has a callback that returns. -/
theorem handler_total (h : TimedInv s) :
    (s.sys.firing = none → ∃ s', timedLts.step s .handler s') ∧
    (s.sys.firing ≠ none → TimedSafe s .callbackReturned →
      ∃ s', timedLts.step s .callbackReturned s') := by
  obtain ⟨l, hl⟩ := h.list
  constructor
  · intro hf
    obtain ⟨r, hr⟩ : ∃ r, timerFire 1 (tickAt s.clock) s.sys.timers = some r :=
      hl.queue.fire_total _ 0
    have hstep : timerStep 1 s.sys (.tick (tickAt s.clock)) =
        some ⟨r.1, r.2.map (·, tickAt s.clock)⟩ := by
      simp [timerStep, hf, hr]
    exact ⟨_, 1, congrArg (Option.map _) hstep⟩
  · intro hf hsafe
    obtain ⟨⟨t, now⟩, hf⟩ := Option.ne_none_iff_exists'.1 hf
    obtain ⟨timers, hre⟩ := hl.queue.reschedule_total now t (Nat.lt_succ_self l.length)
    obtain ⟨l₁, hl₁⟩ := h.reschedule hsafe hf hre
    obtain ⟨r, hr⟩ := hl₁.queue.fire_total now l.length
    have hstep : timerStep (l.length + 1) s.sys .callbackReturned =
        some ⟨r.1, r.2.map (·, now)⟩ := by
      simp [timerStep, timerCallbackReturned, hf, hre, hr]
    exact ⟨_, l.length + 1, congrArg (Option.map _) hstep⟩

/-- **Timers in time.**  In every run whose steps all compare in order, from any tick on:
    a timer started at `t` with the delay `d` is due at `t + d` until it is fired,
    stopped or started again; the handler fires only timers that are due at its tick;
    it returns, and then no timer that is due at its tick is left. -/
theorem timers_timely_of_safe {tr : List (TimedOp α)}
    (h : (timedLts.restrict TimedSafe).Run tr s) :
    (∀ t delay periodic s', (s.sys.timers.timer t).callback ≠ none →
      timedLts.step s (.start (some t) delay periodic) s' →
        s'.due t = some (s.clock + delay.toNat)) ∧
    (∀ op s' t D, TimedSafe s op → timedLts.step s op s' → s.due t = some D →
      (∀ delay periodic, op ≠ .start (some t) delay periodic) → op ≠ .stop (some t) →
      s'.due t = some D ∨ (op = .handler ∨ op = .callbackReturned) ∧ ∃ now,
        s'.sys.firing = some (t, now)) ∧
    (∀ op s', TimedSafe s op → timedLts.step s op s' →
      op = .handler ∨ op = .callbackReturned → HandlerTimely s op s') ∧
    (s.sys.firing = none → ∃ s', timedLts.step s .handler s') ∧
    (s.sys.firing ≠ none → TimedSafe s .callbackReturned →
      ∃ s', timedLts.step s .callbackReturned s') := by
  have hI := timed_run h
  obtain ⟨hhandler, hreturn⟩ := handler_total hI
  refine ⟨?_, ?_, ?_, hhandler, hreturn⟩
  · rintro t delay periodic s' hc ⟨fuel, hs⟩
    obtain ⟨sys, -, rfl⟩ := Option.map_eq_some_iff.1 hs
    simp only [TimedTimers.started, if_neg hc, Function.update_self]
  · intro op s' t D hsafe hs hD hstart hstop
    exact due_kept hsafe hs hD hstart hstop
  · intro op s' hsafe hs hop
    exact (timed_step hI hsafe hs).2 hop

end

/-- Two timers with a callback, at some tick. -/
def demoDueTimers (clock : ℕ) : TimedTimers (Fin 2) := ⟨demoTimers, clock, 0, fun _ => none⟩

/-- A timer with a delay of 1 fires at the next tick. -/
theorem timers_timely_of_safe_next : ∃ s s', (timedLts.restrict TimedSafe).Run
    [.start (some 0) 1 false, .elapse] s ∧ timedLts.step s .handler s' ∧
      s'.sys.firing = some ((0 : Fin 2), 4) ∧ HandlerTimely s .handler s' := by
  have h₀ : (timedLts.restrict TimedSafe).Run [] (demoDueTimers 3) := .start ⟨demoTimers_init, rfl⟩
  have h₁ := h₀.snoc (e := TimedOp.start (some 0) 1 false) ⟨trivial, 3, rfl⟩
  have h₂ := h₁.snoc (e := TimedOp.elapse) ⟨trivial, 3, rfl⟩
  refine ⟨_, _, h₂, ⟨3, rfl⟩, rfl, ?_⟩
  refine (timers_timely_of_safe h₂).2.2.1 _ _ (fun t D hD => ?_) ⟨3, rfl⟩ (.inl rfl)
  by_cases ht : t = 0
  · subst ht
    obtain rfl : 4 = D := Option.some.inj hD
    exact sameOrder_of_same_wrap rfl
  · simp [TimedTimers.started, demoDueTimers, demoTimers, ht] at hD

/-- **A timer that wraps** with a delay of 5 fires at once. -/
theorem demoDueTimers_early : ∃ s s', timedLts.Run [.start (some (0 : Fin 2)) 5 false] s ∧
    timedLts.step s .handler s' ∧ ¬ HandlerTimely s .handler s' := by
  have h₀ : timedLts.Run [] (demoDueTimers (2 ^ 32 - 1)) := .start ⟨demoTimers_init, rfl⟩
  have h₁ := h₀.snoc (e := TimedOp.start (some 0) 5 false) ⟨3, rfl⟩
  refine ⟨_, _, h₁, ⟨3, rfl⟩, fun h => ?_⟩
  obtain ⟨D, hD, hle⟩ := h.due 0 (tickAt (2 ^ 32 - 1)) rfl
  obtain rfl : 2 ^ 32 - 1 + 5 = D := Option.some.inj hD
  exact absurd hle (by decide)

end Gracemont
