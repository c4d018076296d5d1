/-
  Gracemont kernel — the timer interrupt returns (`kernel/interrupt.c` of the
  ARM64 port).

  `timer_tick_handler` puts a periodic timer back on the list that it is working
  off.  `timerTickHandler` is the whole handler for callbacks that leave the
  timers alone, with the callbacks it calls.  It returns, and calls each expired
  timer once, exactly if no expired timer is periodic with a period that leads
  back to an expired tick (`timer_tick_returns_iff`).
-/
import Gracemont.Kernel.TimerInv

namespace Gracemont

variable {α : Type}

section
variable [DecidableEq α]

/-- The rest of `timer_tick_handler` from where it calls the callback of a timer,
    if any, for at most `turns` callbacks that leave the timers alone: the timers
    that it leaves, and those whose callbacks it called. -/
def handlerTurns (fuel : ℕ) (now : BitVec 32) :
    ℕ → Timers α × Option α → Option (Timers α × List α)
  | _, (s, none) => some (s, [])
  | 0, (_, some _) => none
  | turns + 1, (s, some timer) => do
    let r ← timerCallbackReturned fuel now s timer
    let (s, called) ← handlerTurns fuel now turns r
    some (s, timer :: called)

/-- `timer_tick_handler` at the tick `now`. -/
def timerTickHandler (fuel : ℕ) (now : BitVec 32) (s : Timers α) : Option (Timers α × List α) := do
  let r ← timerFire fuel now s
  handlerTurns fuel now fuel r

/-- The handler returns, and has called the callback of each timer once that was
    expired at its start. -/
def HandlesExpired (now : BitVec 32) (s : Timers α) : Prop :=
  (∃ fuel r, timerTickHandler fuel now s = some r) ∧
    ∀ fuel r, timerTickHandler fuel now s = some r →
      ∀ t, OnTimerList s t → (s.timer t).expireTick ≤ now → r.2.count t = 1

end

/-! ## The list during the handler -/

/-- The list, in order of expiry, of timers that are active. -/
structure TimerQueue (s : Timers α) (l : List α) : Prop where
  path : Lib.Path s.next s.list l
  sorted : s.Sorted l
  active : ∀ t ∈ l, (s.timer t).active = true

/-- The timers of `l` that are expired. -/
def expired (now : BitVec 32) (s : Timers α) (l : List α) : List α :=
  l.filter fun t => (s.timer t).expireTick ≤ now

/-- The timer expires later than `now` again. -/
def Advances (now : BitVec 32) (u : SoftTimer α) : Prop :=
  u.periodic = true → now < now + u.period

/-- Every expired timer of `l` will. -/
def AllAdvance (now : BitVec 32) (s : Timers α) (l : List α) : Prop :=
  ∀ t ∈ l, (s.timer t).expireTick ≤ now → Advances now (s.timer t)

namespace TimerQueue
variable {s s' : Timers α} {l : List α} {t : α} {c : Option α} {now : BitVec 32} {fuel : ℕ}

/-- **Looking at the list**: nothing is expired, or the first timer is. -/
theorem fire (h : TimerQueue s l) (hf : timerFire fuel now s = some (s', c)) :
    (c = none ∧ s' = s ∧ expired now s l = []) ∨
    ∃ t l', l = t :: l' ∧ c = some t ∧ (s.timer t).expireTick ≤ now ∧
      s' = { s with list := (s.timer t).next } := by
  cases fuel with
  | zero => cases hf
  | succ fuel =>
    simp only [timerFire, Lib.Loop.run, fireBody] at hf
    cases l with
    | nil =>
      have hnil : s.list = none := h.path
      rw [hnil] at hf
      cases hf
      exact .inl ⟨rfl, rfl, rfl⟩
    | cons t l =>
      obtain ⟨hhead, -⟩ := h.path
      simp only [hhead, h.active t List.mem_cons_self, if_true] at hf
      by_cases hexp : (s.timer t).expireTick ≤ now
      · rw [if_pos hexp] at hf
        cases hf
        exact .inr ⟨t, l, rfl, rfl, hexp, rfl⟩
      · rw [if_neg hexp] at hf
        cases hf
        refine .inl ⟨rfl, rfl, List.filter_eq_nil_iff.2 fun u hu hle => hexp ?_⟩
        rcases List.mem_cons.1 hu with rfl | hu
        · exact of_decide_eq_true hle
        · exact BitVec.le_trans ((List.pairwise_cons.1 h.sorted).1 u hu) (of_decide_eq_true hle)

theorem fire_total (h : TimerQueue s l) (now : BitVec 32) (fuel : ℕ) :
    ∃ r, timerFire (fuel + 1) now s = some r := by
  simp only [timerFire, Lib.Loop.run, fireBody]
  cases l with
  | nil =>
    have hnil : s.list = none := h.path
    rw [hnil]
    exact ⟨_, rfl⟩
  | cons t l =>
    obtain ⟨hhead, -⟩ := h.path
    simp only [hhead, h.active t List.mem_cons_self, if_true]
    by_cases hexp : (s.timer t).expireTick ≤ now
    · rw [if_pos hexp]
      exact ⟨_, rfl⟩
    · rw [if_neg hexp]
      exact ⟨_, rfl⟩

/-- The first timer off the list. -/
theorem tail (h : TimerQueue s (t :: l)) :
    TimerQueue { s with list := (s.timer t).next } l ∧ t ∉ l where
  left := ⟨h.path.2, (List.pairwise_cons.1 h.sorted).2, fun u hu =>
    h.active u (List.mem_cons_of_mem t hu)⟩
  right := (List.nodup_cons.1 h.path.nodup).1

/-- An expired timer at the head of the list. -/
theorem allAdvance_tail (ht : (s.timer t).expireTick ≤ now) (p : Option α) :
    AllAdvance now s (t :: l) ↔
      AllAdvance now { s with list := p } l ∧ Advances now (s.timer t) := by
  constructor
  · intro h
    exact ⟨fun u hu => h u (List.mem_cons_of_mem t hu), h t List.mem_cons_self ht⟩
  · rintro ⟨hl, hadv⟩ u hu hexp
    rcases List.mem_cons.1 hu with rfl | hu
    · exact hadv
    · exact hl u hu hexp

variable [DecidableEq α]

/-- **Rescheduling** after the callback of `t`: the expired timers advance after it
    exactly if they did before it and `t` does; then `t` is not expired again. -/
theorem reschedule (h : TimerQueue s l) (ht : t ∉ l) (hact : (s.timer t).active = true)
    (hs : timerReschedule fuel now s t = some s') :
    ∃ l', TimerQueue s' l' ∧ l'.length ≤ l.length + 1 ∧
      (AllAdvance now s' l' ↔ AllAdvance now s l ∧ Advances now (s.timer t)) ∧
      (Advances now (s.timer t) → (expired now s' l').Perm (expired now s l)) := by
  by_cases hp : (s.timer t).periodic = true
  · obtain ⟨l', hpath, hsorted, hperm, hsame⟩ :=
      timerReschedule_spec h.path h.sorted ht ⟨hp, hact⟩ hs
    -- `t` has its new tick, and the others are as they were
    have hself : (s'.timer t).expireTick = now + (s.timer t).period := by
      rw [hsame.expireTick]
      simp [Timers.modify]
    have hself' : Advances now (s'.timer t) ↔ Advances now (s.timer t) := by
      change Advances now (s'.timer t).core ↔ _
      rw [hsame t]
      simp [Timers.modify, Advances, SoftTimer.core]
    have hother : ∀ u ∈ l, (s'.timer u).core = (s.timer u).core := by
      intro u hu
      rw [hsame u]
      simp [Timers.modify, ne_of_mem_of_not_mem hu ht]
    have hexpire : ∀ u ∈ l, (s'.timer u).expireTick = (s.timer u).expireTick := fun u hu =>
      congrArg (fun x => x.expireTick) (hother u hu)
    refine ⟨l', ⟨hpath, hsorted, fun u hu => ?_⟩, hperm.length_eq.le, ?_, fun hadv => ?_⟩
    · rcases List.mem_cons.1 (hperm.mem_iff.1 hu) with rfl | hu
      · rw [hsame.active]
        simpa [Timers.modify] using hact
      · exact (congrArg (fun x => x.active) (hother u hu)).trans (h.active u hu)
    · have hmem : AllAdvance now s' l' ↔ AllAdvance now s' (t :: l) :=
        ⟨fun ha u hu => ha u (hperm.mem_iff.2 hu), fun ha u hu => ha u (hperm.mem_iff.1 hu)⟩
      have htail : AllAdvance now s' l ↔ AllAdvance now s l := by
        refine forall₂_congr fun u hu => ?_
        change ((s'.timer u).core.expireTick ≤ now → Advances now (s'.timer u).core) ↔ _
        rw [hother u hu]
        rfl
      have hhead : ((s'.timer t).expireTick ≤ now → Advances now (s'.timer t)) ↔
          Advances now (s.timer t) := by
        rw [hself, hself']
        refine ⟨fun hle hper => ?_, fun hadv _ => hadv⟩
        by_contra hnot
        exact hnot (hle (BitVec.not_lt.1 hnot) hper)
      rw [hmem, ← htail, ← hhead, and_comm]
      exact List.forall_mem_cons
    · have hlate : ¬ (s'.timer t).expireTick ≤ now := by
        rw [hself]
        exact BitVec.not_le.2 (hadv hp)
      refine (hperm.filter _).trans ?_
      rw [List.filter_cons_of_neg (by simpa using hlate)]
      exact List.Perm.of_eq (List.filter_congr fun u hu => by rw [hexpire u hu])
  · unfold timerReschedule at hs
    rw [if_neg fun h => hp h.1] at hs
    cases hs
    exact ⟨l, h, Nat.le_succ _, ⟨fun ha => ⟨ha, fun hper => absurd hper hp⟩, fun ha => ha.1⟩,
      fun _ => List.Perm.refl _⟩

theorem reschedule_total (h : TimerQueue s l) (now : BitVec 32) (t : α) (hfuel : l.length < fuel) :
    ∃ s', timerReschedule fuel now s t = some s' := by
  unfold timerReschedule
  split_ifs
  · have hpath : Lib.Path (s.modify t fun u => { u with expireTick := now + u.period }).next
        (s.modify t fun u => { u with expireTick := now + u.period }).list ([] ++ l) :=
      Timers.modify_path h.path fun _ => by rfl
    have hrun := Lib.Loop.run_mono (sorted_run (t := t) hpath) hfuel
    rw [List.getLast?_nil] at hrun
    unfold insertTimer
    rw [hrun]
    exact ⟨_, rfl⟩
  · exact ⟨s, rfl⟩

end TimerQueue

/-! ## The handler -/

variable [DecidableEq α]

section
variable {s : Timers α} {l : List α} {now : BitVec 32} {fuel turns : ℕ}
  {r : Timers α × List α}

/-- The handler from where it looks at the list. -/
def handlerFrom (fuel : ℕ) (now : BitVec 32) (turns : ℕ) (s : Timers α) :
    Option (Timers α × List α) := do
  let r ← timerFire fuel now s
  handlerTurns fuel now turns r

/-- One callback. -/
theorem handlerTurns_succ (t : α) : handlerTurns fuel now (turns + 1) (s, some t) =
    (timerReschedule fuel now s t).bind fun s => (handlerFrom fuel now turns s).map fun r =>
      (r.1, t :: r.2) := by
  rw [handlerTurns, timerCallbackReturned]
  cases timerReschedule fuel now s t with
  | none => rfl
  | some s =>
    simp only [handlerFrom, Option.bind_eq_bind, Option.bind_some, Option.map_bind]
    refine congrArg _ (funext fun c => ?_)
    exact Option.map_eq_bind.symm

/-- **What the handler calls**, if it returns: the expired timers; and then they
    all advanced. -/
theorem handlerFrom_calls (h : TimerQueue s l) (hr : handlerFrom fuel now turns s = some r) :
    AllAdvance now s l ∧ r.2.Perm (expired now s l) := by
  induction turns generalizing s l r with
  | zero =>
    obtain ⟨⟨s', c⟩, hf, hr⟩ := Option.bind_eq_some_iff.1 hr
    obtain ⟨rfl, -, hnone⟩ | ⟨t, l', rfl, rfl, -, -⟩ := h.fire hf
    · cases hr
      rw [hnone]
      refine ⟨fun t ht hle => ?_, .refl _⟩
      exact absurd hle (by simpa using List.filter_eq_nil_iff.1 hnone t ht)
    · cases hr
  | succ turns ih =>
    obtain ⟨⟨s', c⟩, hf, hr⟩ := Option.bind_eq_some_iff.1 hr
    obtain ⟨rfl, -, hnone⟩ | ⟨t, l', rfl, rfl, hexp, rfl⟩ := h.fire hf
    · cases hr
      rw [hnone]
      refine ⟨fun t ht hle => ?_, .refl _⟩
      exact absurd hle (by simpa using List.filter_eq_nil_iff.1 hnone t ht)
    · rw [handlerTurns_succ] at hr
      obtain ⟨s₁, hre, hr⟩ := Option.bind_eq_some_iff.1 hr
      obtain ⟨r', hr', rfl⟩ := Option.map_eq_some_iff.1 hr
      obtain ⟨htail, ht⟩ := h.tail
      obtain ⟨l₁, h₁, -, hadv, hperm⟩ :=
        htail.reschedule ht (h.active t List.mem_cons_self) hre
      obtain ⟨hall, hcalled⟩ := ih h₁ hr'
      have hboth := hadv.1 hall
      refine ⟨(TimerQueue.allAdvance_tail hexp _).2 hboth, ?_⟩
      have hcons : expired now s (t :: l') = t :: expired now s l' :=
        List.filter_cons_of_pos (by simpa using hexp)
      rw [hcons]
      exact (hcalled.trans (hperm hboth.2)).cons t

/-- **It returns** once all of them have been called. -/
theorem handlerFrom_total (h : TimerQueue s l) (hall : AllAdvance now s l)
    (hturns : (expired now s l).length ≤ turns) (hfuel : l.length < fuel) :
    ∃ r, handlerFrom fuel now turns s = some r := by
  obtain ⟨n, rfl⟩ : ∃ n, fuel = n + 1 := ⟨fuel - 1, by omega⟩
  induction turns generalizing s l with
  | zero =>
    obtain ⟨⟨s', c⟩, hf⟩ := h.fire_total now n
    obtain ⟨rfl, -⟩ | ⟨t, l', rfl, rfl, hexp, -⟩ := h.fire hf
    · exact ⟨(s', []), Option.bind_eq_some_iff.2 ⟨_, hf, rfl⟩⟩
    · have hmem : t ∈ expired now s (t :: l') :=
        List.mem_filter.2 ⟨List.mem_cons_self, by simpa using hexp⟩
      exact absurd (List.length_pos_of_mem hmem) (by omega)
  | succ turns ih =>
    obtain ⟨⟨s', c⟩, hf⟩ := h.fire_total now n
    obtain ⟨rfl, -⟩ | ⟨t, l', rfl, rfl, hexp, rfl⟩ := h.fire hf
    · exact ⟨(s', []), Option.bind_eq_some_iff.2 ⟨_, hf, rfl⟩⟩
    · obtain ⟨htail, ht⟩ := h.tail
      rw [List.length_cons] at hfuel
      have hroom : l'.length < n + 1 := by omega
      obtain ⟨s₁, hre⟩ := htail.reschedule_total now t hroom
      obtain ⟨l₁, h₁, hlen, hadv, hperm⟩ :=
        htail.reschedule ht (h.active t List.mem_cons_self) hre
      have hboth := (TimerQueue.allAdvance_tail hexp (s.timer t).next).1 hall
      have hcons : expired now s (t :: l') = t :: expired now s l' :=
        List.filter_cons_of_pos (by simpa using hexp)
      rw [hcons, List.length_cons] at hturns
      have hdue : (expired now s₁ l₁).length = (expired now s l').length :=
        (hperm hboth.2).length_eq
      obtain ⟨r, hr⟩ := ih h₁ (hadv.2 hboth) (by omega) (by omega)
      refine ⟨(r.1, t :: r.2), Option.bind_eq_some_iff.2 ⟨_, hf, ?_⟩⟩
      rw [handlerTurns_succ, hre, Option.bind_some, hr]
      rfl

/-- The handler, on any list of timers. -/
theorem TimerQueue.handles_iff (h : TimerQueue s l) :
    HandlesExpired now s ↔ AllAdvance now s l := by
  constructor
  · rintro ⟨⟨fuel, r, hr⟩, -⟩
    exact (handlerFrom_calls h hr).1
  · intro hall
    constructor
    · have hturns : (expired now s l).length ≤ l.length + 1 :=
        (List.length_filter_le _ l).trans (Nat.le_succ _)
      obtain ⟨r, hr⟩ := handlerFrom_total h hall hturns (Nat.lt_succ_self _)
      exact ⟨_, r, hr⟩
    · rintro fuel r hr t ⟨l', hl', ht⟩ hexp
      obtain rfl := h.path.unique hl'
      rw [(handlerFrom_calls h hr).2.count_eq t]
      exact List.count_eq_one_of_mem (h.path.nodup.filter _)
        (List.mem_filter.2 ⟨ht, by simpa using hexp⟩)

end

/-- The operation is a call of `timer_start`. -/
def TimerOp.IsStart : TimerOp α → Prop
  | .start _ _ _ _ => True
  | _ => False

/-- **The timer interrupt returns.**  On every list that calls of `timer_start` have
    built, `timer_tick_handler` returns and has called each expired timer once,
    exactly if every expired timer that is periodic expires later again. -/
theorem timer_tick_returns_iff {tr : List (TimerOp α)} {s : TimerSys α}
    (h : (timerLts.restrict fun _ op => op.IsStart).Run tr s) (now : BitVec 32) :
    HandlesExpired now s.timers ↔
      ∀ t, OnTimerList s.timers t → (s.timers.timer t).expireTick ≤ now →
        (s.timers.timer t).periodic = true → now < now + (s.timers.timer t).period := by
  have hstep : ∀ (s : TimerSys α) op s', (timerLts.restrict fun _ op => op.IsStart).step s op s' →
      (timerLts.restrict TimerSafe).step s op s' := by
    intro s op s' hs
    cases op with
    | start now t delay periodic => exact ⟨trivial, hs.2⟩
    | stop | tick | callbackReturned => exact hs.1.elim
  have hsafe : (timerLts.restrict TimerSafe).Run tr s := by
    refine Lib.Lts.Run.mono ?_ hstep h
    exact fun _ h0 => h0
  obtain ⟨l, hl⟩ := timers_wf_of_safe hsafe
  have hq : TimerQueue s.timers l := ⟨hl.path, hl.sorted, hl.active⟩
  rw [hq.handles_iff]
  constructor
  · rintro hall t ⟨l', hl', ht⟩
    exact hall t (hl.path.unique hl' ▸ ht)
  · intro hall t ht
    exact hall t ⟨l, hl.path, ht⟩

/-- After `timer_start` of a periodic timer, at the tick 0. -/
def demoTicking (period : BitVec 32) : TimerSys (Fin 2) :=
  (timerStep 3 demoTimers (.start 0 (some 0) period true)).getD demoTimers

theorem demoTicking_run (period : BitVec 32) :
    (timerLts.restrict fun _ op => op.IsStart).Run [.start 0 (some 0) period true]
      (demoTicking period) := by
  have h₀ : (timerLts.restrict fun _ op => op.IsStart).Run [] demoTimers := .start demoTimers_init
  exact h₀.snoc ⟨trivial, 3, rfl⟩

/-- A period of 5 ticks. -/
theorem timer_tick_returns_periodic : HandlesExpired 5 (demoTicking 5).timers := by
  have hadv : ∀ t, ((demoTicking 5).timers.timer t).periodic = true →
      5 < 5 + ((demoTicking 5).timers.timer t).period := by decide
  exact (timer_tick_returns_iff (demoTicking_run 5) 5).2 fun t _ _ => hadv t

/-- With a period of 0 ticks the handler does not return. -/
theorem demoTicking_hangs : (∃ tr, (timerLts.restrict fun _ op => op.IsStart).Run tr (demoTicking 0)) ∧
    (∀ fuel, timerTickHandler fuel 0 (demoTicking 0).timers = none) ∧
    ¬ HandlesExpired 0 (demoTicking 0).timers := by
  have hq : TimerQueue (demoTicking 0).timers [0] :=
    ⟨⟨rfl, rfl⟩, List.pairwise_singleton _ _, by decide⟩
  have hnot : ¬ AllAdvance 0 (demoTicking 0).timers [0] := fun h =>
    absurd (h 0 List.mem_cons_self (by decide) (by decide)) (by decide)
  refine ⟨⟨_, demoTicking_run 0⟩, fun fuel => Option.eq_none_iff_forall_not_mem.2 fun r hr => ?_,
    fun h => hnot (hq.handles_iff.1 h)⟩
  exact hnot (handlerFrom_calls hq hr).1

end Gracemont
