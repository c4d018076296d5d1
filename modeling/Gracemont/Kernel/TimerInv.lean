/-
  Gracemont kernel — the timer list.

  `TimersWf` is what the list of timers is meant to satisfy between two
  operations.  The handler takes a timer off the list before its callback, and
  puts it back afterwards if it is periodic, wherever it is then, and keeps it
  active if it is not: `TimerSafe` says that a callback left its timer in a
  state in which this is right.  Over runs in which every callback did, the
  list is well formed (`timers_wf_of_safe`).
-/
import Gracemont.Kernel.Timer
import Mathlib.Data.List.TakeWhile

namespace Gracemont

variable {α : Type}

/-- The timers of `l` expire in this order. -/
def Timers.Sorted (s : Timers α) (l : List α) : Prop :=
  l.Pairwise fun t u => (s.timer t).expireTick ≤ (s.timer u).expireTick

/-- **The list of timers**: null-terminated, without duplicates, sorted, and
    of the active timers; the timer whose callback is running may be missing. -/
structure TimerList (s : Timers α) (firing : Option α) (l : List α) : Prop where
  path : Lib.Path s.next s.list l
  nodup : l.Nodup
  sorted : s.Sorted l
  active : ∀ t ∈ l, (s.timer t).active = true
  listed : ∀ t, (s.timer t).active = true → t ∈ l ∨ firing = some t

/-- The timers that are on the list are those that are meant to be. -/
def TimersWf (s : TimerSys α) : Prop := ∃ l, TimerList s.timers (s.firing.map Prod.fst) l

/-- The timer is on the list. -/
def OnTimerList (s : Timers α) (t : α) : Prop := ∃ l, Lib.Path s.next s.list l ∧ t ∈ l

/-- A callback that returns left its timer on the list exactly if the timer is
    active and not periodic. -/
def TimerSafe (s : TimerSys α) : TimerOp α → Prop
  | .callbackReturned => ∀ t now, s.firing = some (t, now) →
    (OnTimerList s.timers t ↔ (s.timers.timer t).active = true ∧ (s.timers.timer t).periodic = false)
  | _ => True

/-! ## The loops -/

/-- A timer without its link. -/
def SoftTimer.core (t : SoftTimer α) : SoftTimer α := { t with next := none }

/-- Between `s` and `s'` only links changed. -/
def Timers.Same (s s' : Timers α) : Prop := ∀ t, (s'.timer t).core = (s.timer t).core

namespace Timers.Same
variable {s s' s'' : Timers α}

theorem trans (h : s.Same s') (h' : s'.Same s'') : s.Same s'' := fun t => (h' t).trans (h t)

theorem active (h : s.Same s') (t : α) : (s'.timer t).active = (s.timer t).active := by
  simpa [SoftTimer.core] using congrArg SoftTimer.active (h t)

theorem expireTick (h : s.Same s') (t : α) : (s'.timer t).expireTick = (s.timer t).expireTick := by
  simpa [SoftTimer.core] using congrArg SoftTimer.expireTick (h t)

theorem sorted {l : List α} (h : s.Same s') (hl : s.Sorted l) : s'.Sorted l := by
  refine List.Pairwise.imp ?_ hl
  intro t u htu
  rw [h.expireTick, h.expireTick]
  exact htu

end Timers.Same

section
variable [DecidableEq α] {s s' : Timers α} {t : α} {l a b : List α} {fuel : ℕ}

/-- Assigning other fields than the link. -/
theorem Timers.Same.modify (h : s.Same s') {g : SoftTimer α → SoftTimer α}
    (hg : ∀ u, (g u).core = g u.core) : (s.modify t g).Same (s'.modify t g) := by
  intro x
  simp only [Timers.modify, Lib.Store.modify_apply]
  split_ifs with hx
  · rw [hg, hg, ← hx, h x]
  · exact h x

theorem Timers.store_same (pp v : Option α) : s.Same (s.store pp v) := by
  intro x
  exact s.timer.modifyAt_field SoftTimer.core pp (fun _ => by rfl) x

theorem Timers.store_next (pp v : Option α) : (s.store pp v).next = Lib.setAt s.next pp v := by
  refine Lib.Store.field_modifyAt SoftTimer.next s.timer pp ?_
  intro t
  rfl

/-- The search for a timer behind `a`. -/
theorem find_run (h : Lib.Path s.next s.list (a ++ b)) :
    (t ∉ b → Lib.Loop.run (findBody s t) (b.length + 1) a.getLast? = some none) ∧
      ∀ c d, b = c ++ t :: d → t ∉ c →
        Lib.Loop.run (findBody s t) (b.length + 1) a.getLast? = some (some (a ++ c).getLast?) := by
  induction b generalizing a with
  | nil =>
    have hload : s.load a.getLast? = none := h.pointerAt
    refine ⟨fun _ => by simp [Lib.Loop.run, findBody, hload], ?_⟩
    intro c d hcd
    simp at hcd
  | cons x b ih =>
    have hload : s.load a.getLast? = some x := h.pointerAt
    have h' : Lib.Path s.next s.list ((a ++ [x]) ++ b) := by simpa using h
    obtain ⟨ih₁, ih₂⟩ := ih h'
    rw [List.getLast?_concat] at ih₁ ih₂
    by_cases hxt : x = t
    · subst hxt
      refine ⟨fun hx => absurd (List.mem_cons_self ..) hx, ?_⟩
      intro c d hcd hc
      cases c with
      | nil => simp [Lib.Loop.run, findBody, hload]
      | cons y c =>
        obtain ⟨rfl, -⟩ := List.cons.inj hcd
        exact absurd (List.mem_cons_self ..) hc
    · have hstep : ∀ n, Lib.Loop.run (findBody s t) (n + 1) a.getLast? =
          Lib.Loop.run (findBody s t) n (some x) := by
        intro n
        simp [Lib.Loop.run, findBody, hload, hxt]
      rw [List.length_cons, hstep]
      refine ⟨fun hx => ih₁ fun hm => hx (List.mem_cons_of_mem x hm), ?_⟩
      intro c d hcd hc
      cases c with
      | nil => exact absurd (List.cons.inj hcd).1 hxt
      | cons y c =>
        obtain ⟨rfl, hcd'⟩ := List.cons.inj hcd
        have hfound := ih₂ c d hcd' fun hm => hc (List.mem_cons_of_mem x hm)
        simpa using hfound

/-- **Removing a timer.** -/
theorem removeTimer_spec (h : Lib.Path s.next s.list l) (hs : removeTimer fuel s t = some s') :
    Lib.Path s'.next s'.list (l.erase t) ∧ s.Same s' := by
  obtain ⟨r, hr, hs⟩ := Option.bind_eq_some_iff.1 hs
  obtain ⟨h₁, h₂⟩ := find_run (a := []) (t := t) h
  by_cases ht : t ∈ l
  · obtain ⟨c, d, rfl⟩ := List.append_of_mem ht
    have hc : t ∉ c := by
      intro hm
      exact (List.nodup_append.1 h.nodup).2.2 t hm t (List.mem_cons_self ..) rfl
    cases Lib.Loop.run_unique hr (h₂ c d rfl hc)
    cases hs
    refine ⟨?_, Timers.store_same _ _⟩
    rw [List.erase_append_right _ hc, List.erase_cons_head, Timers.store_next]
    exact h.remove
  · cases Lib.Loop.run_unique hr (h₁ ht)
    cases hs
    rw [List.erase_of_not_mem ht]
    exact ⟨h, fun _ => rfl⟩

/-- The timers that stay in front of `t` when it is inserted. -/
def Timers.before (s : Timers α) (t x : α) : Bool :=
  decide ((s.timer x).expireTick ≤ (s.timer t).expireTick)

omit [DecidableEq α] in
/-- The search for the place of `t`, from behind `a` on. -/
theorem sorted_run (h : Lib.Path s.next s.list (a ++ b)) :
    Lib.Loop.run (sortedBody s t) (b.length + 1) a.getLast? =
      some (a ++ b.takeWhile (s.before t)).getLast? := by
  induction b generalizing a with
  | nil =>
    have hload : s.load a.getLast? = none := h.pointerAt
    simp [Lib.Loop.run, sortedBody, hload]
  | cons x b ih =>
    have hload : s.load a.getLast? = some x := h.pointerAt
    by_cases hx : (s.timer x).expireTick ≤ (s.timer t).expireTick
    · have h' : Lib.Path s.next s.list ((a ++ [x]) ++ b) := by simpa using h
      have hrest := ih h'
      rw [List.getLast?_concat] at hrest
      have hb : s.before t x = true := decide_eq_true hx
      rw [List.length_cons, List.takeWhile_cons_of_pos hb]
      simpa [Lib.Loop.run, sortedBody, hload, hx] using hrest
    · have hb : ¬ s.before t x = true := by simpa [Timers.before] using hx
      rw [List.takeWhile_cons_of_neg hb]
      simp [Lib.Loop.run, sortedBody, hload, hx]

omit [DecidableEq α] in
/-- Behind the place of `t`, every timer of a sorted list expires later. -/
theorem Timers.Sorted.le_of_mem_dropWhile (hl : s.Sorted l) {x : α}
    (hx : x ∈ l.dropWhile (s.before t)) : (s.timer t).expireTick ≤ (s.timer x).expireTick := by
  have hd : s.Sorted (l.dropWhile (s.before t)) := hl.sublist (List.dropWhile_sublist _)
  cases hdw : l.dropWhile (s.before t) with
  | nil => simp [hdw] at hx
  | cons y r =>
    have hy : ¬ s.before t y = true := by
      have hne : l.dropWhile (s.before t) ≠ [] := by simp [hdw]
      have hhead := List.head_dropWhile_not (s.before t) hne
      simpa [hdw] using hhead
    have hty : (s.timer t).expireTick ≤ (s.timer y).expireTick := by
      simp only [Timers.before, decide_eq_true_eq] at hy
      exact BitVec.le_of_lt (BitVec.not_le.1 hy)
    rw [hdw] at hx hd
    rcases List.mem_cons.1 hx with rfl | hx
    · exact hty
    · exact BitVec.le_trans hty ((List.pairwise_cons.1 hd).1 x hx)

/-- **Inserting a timer** that is not on the list. -/
theorem insertTimer_spec (h : Lib.Path s.next s.list l) (hl : s.Sorted l) (ht : t ∉ l)
    (hs : insertTimer fuel s t = some s') :
    ∃ l', Lib.Path s'.next s'.list l' ∧ s'.Sorted l' ∧ l'.Perm (t :: l) ∧ s.Same s' := by
  obtain ⟨pp, hpp, hs⟩ := Option.bind_eq_some_iff.1 hs
  set a := l.takeWhile (s.before t) with ha
  set b := l.dropWhile (s.before t) with hb
  have hab : a ++ b = l := List.takeWhile_append_dropWhile
  have hrun := sorted_run (a := []) (b := l) (t := t) h
  obtain rfl : a.getLast? = pp := Lib.Loop.run_unique hrun hpp
  rw [← hab] at h ht
  have hload : s.load a.getLast? = b.head? := h.pointerAt
  cases hs
  have hsame : s.Same (s.modify t fun u => { u with next := s.load a.getLast? }) := by
    intro x
    exact s.timer.modify_field SoftTimer.core t (by rfl) x
  have hsame' := hsame.trans (Timers.store_same a.getLast? (some t))
  refine ⟨a ++ t :: b, ?_, hsame'.sorted ?_, ?_, hsame'⟩
  · rw [Timers.store_next]
    have hnext : (s.modify t fun u => { u with next := s.load a.getLast? }).next =
        Function.update s.next t b.head? := by
      rw [← hload]
      funext x
      by_cases hx : x = t
      · subst hx
        simp [Timers.next, Timers.modify]
      · simp [Timers.next, Timers.modify, hx]
    rw [hnext]
    exact h.insert ht
  · rw [← hab] at hl
    obtain ⟨hla, hlb, hlab⟩ := List.pairwise_append.1 hl
    refine List.pairwise_append.2 ⟨hla, List.pairwise_cons.2 ⟨?_, hlb⟩, ?_⟩
    · intro x hx
      rw [hab] at hl
      exact hl.le_of_mem_dropWhile hx
    · intro x hx y hy
      rcases List.mem_cons.1 hy with rfl | hy
      · have hxy : s.before y x = true := List.mem_takeWhile_imp hx
        exact of_decide_eq_true hxy
      · exact hlab x hx y hy
  · rw [← hab]
    exact List.perm_middle

/-! ## The operations -/

variable {f : Option α} {now delay : BitVec 32} {periodic : Bool} {r : Status}

omit [DecidableEq α] in
/-- Changing fields of a timer that is not on the list. -/
theorem Timers.Sorted.congr (hl : s.Sorted l)
    (h : ∀ x ∈ l, (s'.timer x).expireTick = (s.timer x).expireTick) : s'.Sorted l := by
  refine List.Pairwise.imp_of_mem ?_ hl
  intro x y hx hy hxy
  rw [h x hx, h y hy]
  exact hxy

/-- Changing other fields than the link keeps the list. -/
theorem Timers.modify_path {g : SoftTimer α → SoftTimer α} (h : Lib.Path s.next s.list l)
    (hg : ∀ u, (g u).next = u.next) : Lib.Path (s.modify t g).next (s.modify t g).list l := by
  have hnext : (s.modify t g).next = s.next :=
    Lib.Store.field_modify_same SoftTimer.next s.timer t hg
  rw [hnext]
  exact h

/-- The fields that `timer_start` assigns, at the tick `now`. -/
def SoftTimer.start (now delay : BitVec 32) (periodic : Bool) (u : SoftTimer α) : SoftTimer α :=
  { u with
    expireTick := now + delay, period := if periodic then delay else 0, periodic := periodic,
    active := true }

/-- **`timer_start`** of a timer with a callback. -/
theorem timerStart_spec (h : Lib.Path s.next s.list l) (hl : s.Sorted l)
    (hc : (s.timer t).callback ≠ none)
    (hs : timerStart fuel now s (some t) delay periodic = some (s', r)) :
    ∃ l', Lib.Path s'.next s'.list l' ∧ s'.Sorted l' ∧ l'.Perm (t :: l.erase t) ∧
      (s.modify t (SoftTimer.start now delay periodic)).Same s' := by
  unfold timerStart at hs
  simp only [if_neg hc, Option.bind_eq_bind, Option.bind_eq_some_iff, Option.some.injEq,
    Prod.mk.injEq] at hs
  obtain ⟨s₁, hs₁, s₂, hs₂, rfl, -⟩ := hs
  obtain ⟨hpath, hsame⟩ := removeTimer_spec h hs₁
  have hsorted : s₁.Sorted (l.erase t) := hsame.sorted (hl.sublist List.erase_sublist)
  have ht : t ∉ l.erase t := fun hm => (h.nodup.mem_erase_iff.1 hm).1 rfl
  -- the new fields are those of a timer that is off the list
  change insertTimer fuel (s₁.modify t (SoftTimer.start now delay periodic)) t = some s₂ at hs₂
  have hpath₁ := Timers.modify_path (t := t) (g := SoftTimer.start now delay periodic) hpath
    fun _ => by rfl
  have hsorted₁ : (s₁.modify t (SoftTimer.start now delay periodic)).Sorted (l.erase t) := by
    refine hsorted.congr fun x hx => ?_
    have hne : x ≠ t := fun he => ht (he ▸ hx)
    simp [Timers.modify, hne]
  obtain ⟨l', hpath', hsorted', hperm, hsame'⟩ := insertTimer_spec hpath₁ hsorted₁ ht hs₂
  have hassign : (s.modify t (SoftTimer.start now delay periodic)).Same
      (s₁.modify t (SoftTimer.start now delay periodic)) := hsame.modify fun _ => rfl
  exact ⟨l', hpath', hsorted', hperm, hassign.trans hsame'⟩

/-- `timer_start` of a timer without a callback. -/
theorem timerStart_invalid (hc : (s.timer t).callback = none) :
    timerStart fuel now s (some t) delay periodic = some (s, .invalid) := by
  unfold timerStart
  simp only [hc, if_true]

/-- `timer_start` keeps the list. -/
theorem timerStart_list (h : TimerList s f l)
    (hs : timerStart fuel now s (some t) delay periodic = some (s', r)) :
    ∃ l', TimerList s' f l' := by
  by_cases hc : (s.timer t).callback = none
  · rw [timerStart_invalid hc] at hs
    cases hs
    exact ⟨l, h⟩
  obtain ⟨l', hpath', hsorted', hperm, hsame⟩ := timerStart_spec h.path h.sorted hc hs
  have hactive : ∀ x, (s'.timer x).active = if x = t then true else (s.timer x).active := by
    intro x
    rw [hsame.active]
    simp only [Timers.modify, Lib.Store.modify_apply]
    split
    · rfl
    · rfl
  refine ⟨l', hpath', hpath'.nodup, hsorted', ?_, ?_⟩
  · intro x hx
    rw [hactive]
    split
    · rfl
    · next hxt =>
      have hx' := (List.mem_cons.1 (hperm.mem_iff.1 hx)).resolve_left hxt
      exact h.active x (h.nodup.mem_erase_iff.1 hx').2
  · intro x hx
    rw [hactive] at hx
    by_cases hxt : x = t
    · exact .inl (hperm.mem_iff.2 (hxt ▸ List.mem_cons_self ..))
    · rw [if_neg hxt] at hx
      refine (h.listed x hx).imp_left fun hxl => ?_
      exact hperm.mem_iff.2 (List.mem_cons_of_mem t (h.nodup.mem_erase_iff.2 ⟨hxt, hxl⟩))

/-- **`timer_stop`.** -/
theorem timerStop_spec (h : Lib.Path s.next s.list l) (hl : s.Sorted l)
    (hs : timerStop fuel s (some t) = some s') :
    Lib.Path s'.next s'.list (l.erase t) ∧ s'.Sorted (l.erase t) ∧
      (s.modify t fun u => { u with active := false }).Same s' := by
  have hpath₁ : Lib.Path (s.modify t fun u => { u with active := false }).next
      (s.modify t fun u => { u with active := false }).list l :=
    Timers.modify_path h fun _ => by rfl
  have hsorted₁ : (s.modify t fun u => { u with active := false }).Sorted l := by
    refine hl.congr fun x _ => ?_
    exact s.timer.modify_field SoftTimer.expireTick t (by rfl) x
  obtain ⟨hpath, hsame⟩ := removeTimer_spec hpath₁ hs
  exact ⟨hpath, hsame.sorted (hsorted₁.sublist List.erase_sublist), hsame⟩

/-- `timer_stop` keeps the list. -/
theorem timerStop_list (h : TimerList s f l) (hs : timerStop fuel s (some t) = some s') :
    ∃ l', TimerList s' f l' := by
  obtain ⟨hpath, hsorted, hsame⟩ := timerStop_spec h.path h.sorted hs
  have hactive : ∀ x, (s'.timer x).active = if x = t then false else (s.timer x).active := by
    intro x
    rw [hsame.active]
    simp only [Timers.modify, Lib.Store.modify_apply]
    split
    · rfl
    · rfl
  refine ⟨l.erase t, hpath, h.nodup.erase t, hsorted, ?_, ?_⟩
  · intro x hx
    obtain ⟨hxt, hxl⟩ := h.nodup.mem_erase_iff.1 hx
    rw [hactive, if_neg hxt]
    exact h.active x hxl
  · intro x hx
    rw [hactive] at hx
    by_cases hxt : x = t
    · rw [if_pos hxt] at hx
      cases hx
    · rw [if_neg hxt] at hx
      exact (h.listed x hx).imp_left fun hxl => h.nodup.mem_erase_iff.2 ⟨hxt, hxl⟩

omit [DecidableEq α] in
/-- `timer_tick_handler` takes the timer off the list whose callback it calls. -/
theorem timerFire_list {c : Option α} (h : TimerList s none l)
    (hs : timerFire fuel now s = some (s', c)) : ∃ l', TimerList s' c l' := by
  cases fuel with
  | zero => cases hs
  | succ fuel =>
    simp only [timerFire, Lib.Loop.run, fireBody] at hs
    cases l with
    | nil =>
      have hnil : s.list = none := h.path
      rw [hnil] at hs
      cases hs
      exact ⟨[], h⟩
    | cons t l =>
      obtain ⟨hhead, htail⟩ := h.path
      have hact : (s.timer t).active = true := h.active t (List.mem_cons_self ..)
      simp only [hhead, hact, if_true] at hs
      by_cases hexp : (s.timer t).expireTick ≤ now
      · rw [if_pos hexp] at hs
        cases hs
        refine ⟨l, htail, (List.nodup_cons.1 h.nodup).2, (List.pairwise_cons.1 h.sorted).2, ?_, ?_⟩
        · intro x hx
          exact h.active x (List.mem_cons_of_mem t hx)
        · intro x hx
          obtain hxl | hxn := h.listed x hx
          · rcases List.mem_cons.1 hxl with rfl | hxl
            · exact .inr rfl
            · exact .inl hxl
          · cases hxn
      · rw [if_neg hexp] at hs
        cases hs
        exact ⟨t :: l, h⟩

/-- **Rescheduling** a periodic timer that is off the list. -/
theorem timerReschedule_spec (h : Lib.Path s.next s.list l) (hl : s.Sorted l) (ht : t ∉ l)
    (hp : (s.timer t).periodic ∧ (s.timer t).active)
    (hs : timerReschedule fuel now s t = some s') :
    ∃ l', Lib.Path s'.next s'.list l' ∧ s'.Sorted l' ∧ l'.Perm (t :: l) ∧
      (s.modify t fun u => { u with expireTick := now + u.period }).Same s' := by
  unfold timerReschedule at hs
  rw [if_pos hp] at hs
  have hpath₁ : Lib.Path (s.modify t fun u => { u with expireTick := now + u.period }).next
      (s.modify t fun u => { u with expireTick := now + u.period }).list l :=
    Timers.modify_path h fun _ => by rfl
  have hsorted₁ : (s.modify t fun u => { u with expireTick := now + u.period }).Sorted l := by
    refine hl.congr fun x hx => ?_
    simp [Timers.modify, ne_of_mem_of_not_mem hx ht]
  exact insertTimer_spec hpath₁ hsorted₁ ht hs

/-- Rescheduling puts the timer back on the list if it is to be there. -/
theorem timerReschedule_list (h : TimerList s (some t) l)
    (hsafe : t ∈ l ↔ (s.timer t).active = true ∧ (s.timer t).periodic = false)
    (hs : timerReschedule fuel now s t = some s') : ∃ l', TimerList s' none l' := by
  by_cases hp : (s.timer t).periodic = true ∧ (s.timer t).active = true
  · have ht : t ∉ l := by
      intro hm
      have := (hsafe.1 hm).2
      rw [hp.1] at this
      cases this
    obtain ⟨l', hpath', hsorted', hperm, hsame⟩ := timerReschedule_spec h.path h.sorted ht hp hs
    have hactive : ∀ x, (s'.timer x).active = (s.timer x).active := by
      intro x
      rw [hsame.active]
      exact s.timer.modify_field SoftTimer.active t (by rfl) x
    refine ⟨l', hpath', hpath'.nodup, hsorted', ?_, ?_⟩
    · intro x hx
      rw [hactive]
      rcases List.mem_cons.1 (hperm.mem_iff.1 hx) with rfl | hx
      · exact hp.2
      · exact h.active x hx
    · intro x hx
      rw [hactive] at hx
      obtain hxl | hxt := h.listed x hx
      · exact .inl (hperm.mem_iff.2 (List.mem_cons_of_mem t hxl))
      · cases hxt
        exact .inl (hperm.mem_iff.2 (List.mem_cons_self ..))
  · unfold timerReschedule at hs
    rw [if_neg hp] at hs
    cases hs
    refine ⟨l, h.path, h.nodup, h.sorted, h.active, ?_⟩
    intro x hx
    obtain hxl | hxt := h.listed x hx
    · exact .inl hxl
    · cases hxt
      have hper : (s.timer t).periodic = false := by
        cases hq : (s.timer t).periodic with
        | false => rfl
        | true => exact absurd ⟨hq, hx⟩ hp
      exact .inl (hsafe.2 ⟨hx, hper⟩)

end

/-! ## Runs -/

section
variable [DecidableEq α]

/-- **Step.** -/
theorem timersWf_step {s s' : TimerSys α} {op : TimerOp α} (h : TimersWf s)
    (hsafe : TimerSafe s op) (hs : timerLts.step s op s') : TimersWf s' := by
  obtain ⟨fuel, hs⟩ := hs
  obtain ⟨l, h⟩ := h
  cases op with
  | start now timer delay periodic =>
    obtain ⟨⟨timers, r⟩, hst, hs⟩ := Option.bind_eq_some_iff.1 hs
    cases hs
    cases timer with
    | none =>
      cases hst
      exact ⟨l, h⟩
    | some t => exact timerStart_list h hst
  | stop timer =>
    obtain ⟨timers, hst, hs⟩ := Option.bind_eq_some_iff.1 hs
    cases hs
    cases timer with
    | none =>
      cases hst
      exact ⟨l, h⟩
    | some t => exact timerStop_list h hst
  | tick now =>
    unfold timerStep at hs
    cases hf : s.firing with
    | some c => simp [hf] at hs
    | none =>
      simp only [hf, Option.bind_eq_bind, Option.bind_eq_some_iff, Option.some.injEq] at hs
      obtain ⟨⟨timers, c⟩, hst, rfl⟩ := hs
      rw [hf] at h
      obtain ⟨l', h'⟩ := timerFire_list h hst
      refine ⟨l', ?_⟩
      simpa [Function.comp_def] using h'
  | callbackReturned =>
    unfold timerStep at hs
    cases hf : s.firing with
    | none => simp [hf] at hs
    | some c =>
      obtain ⟨t, now⟩ := c
      simp only [hf, timerCallbackReturned, Option.bind_eq_bind, Option.bind_eq_some_iff,
        Option.some.injEq] at hs
      obtain ⟨⟨timers, c⟩, ⟨s₁, hre, hst⟩, rfl⟩ := hs
      rw [hf] at h
      have hon : t ∈ l ↔ OnTimerList s.timers t := by
        refine ⟨fun hm => ⟨l, h.path, hm⟩, ?_⟩
        rintro ⟨l', hl', hm⟩
        rw [h.path.unique hl']
        exact hm
      obtain ⟨l₁, h₁⟩ := timerReschedule_list h (hon.trans (hsafe t now hf)) hre
      obtain ⟨l', h'⟩ := timerFire_list h₁ hst
      refine ⟨l', ?_⟩
      simpa [Function.comp_def] using h'

/-- **Timer lists of safe runs.**  When every callback that returned left its
    timer on the list exactly if it is active and not periodic, the list of
    timers is well formed after every operation. -/
theorem timers_wf_of_safe {tr : List (TimerOp α)} {s : TimerSys α}
    (h : (timerLts.restrict TimerSafe).Run tr s) : TimersWf s := by
  refine Lib.Lts.Run.rule (P := fun _ s => TimersWf s) ?_ ?_ h
  · rintro s ⟨hlist, hfiring, hinit⟩
    refine ⟨[], hlist, List.nodup_nil, List.Pairwise.nil, ?_, ?_⟩
    · intro t ht
      cases ht
    · intro t ht
      obtain ⟨m, callback, hm⟩ := hinit t
      rw [hm] at ht
      simp [timerInit, Timers.modify] at ht
  · rintro - s op s' hwf ⟨hsafe, hs⟩
    exact timersWf_step hwf hsafe hs

end

/-- Two timers after `timer_init`, with a callback each. -/
def demoTimers : TimerSys (Fin 2) where
  timers := ⟨fun _ => ⟨0, 0, some 0, false, false, none⟩, none⟩
  firing := none

theorem demoTimers_init : (timerLts (α := Fin 2)).init demoTimers := by
  refine ⟨rfl, rfl, fun t => ⟨demoTimers.timers, some 0, ?_⟩⟩
  simp [timerInit, Timers.modify, demoTimers]

theorem timers_wf_of_safe_periodic : ∃ s, (timerLts (α := Fin 2)).Run
      [.start 0 (some 0) 5 true, .start 0 (some 1) 8 true, .tick 5, .callbackReturned] s ∧
    s.timers.list = some 1 ∧ (s.timers.timer 1).next = some 0 ∧ TimersWf s := by
  have h₀ : (timerLts.restrict TimerSafe).Run [] demoTimers := .start demoTimers_init
  have h₁ := h₀.snoc (e := TimerOp.start 0 (some 0) 5 true) ⟨trivial, 3, rfl⟩
  have h₂ := h₁.snoc (e := TimerOp.start 0 (some 1) 8 true) ⟨trivial, 3, rfl⟩
  have h₃ := h₂.snoc (e := TimerOp.tick 5) ⟨trivial, 3, rfl⟩
  have h₄ := h₃.snoc (e := TimerOp.callbackReturned) ⟨?_, 3, rfl⟩
  · exact ⟨_, h₄.of_restrict, by decide, by decide,
      timers_wf_of_safe h₄⟩
  · -- during its callback the periodic timer 0 is off the list
    intro t now hf
    obtain ⟨rfl, rfl⟩ : 0 = t ∧ 5 = now := by simpa using hf
    refine ⟨?_, fun h => absurd h.2 (by decide)⟩
    rintro ⟨l, hl, hm⟩
    have hlist : l = [1] := hl.unique ⟨rfl, rfl⟩
    simp [hlist] at hm

/-- **A one-shot timer stays active** after its callback, off the list. -/
theorem one_shot_stays_active : ∃ s, (timerLts (α := Fin 2)).Run
    [.start 0 (some 0) 5 false, .tick 5, .callbackReturned] s ∧ s.firing = none ∧ ¬ TimersWf s := by
  have h₀ : timerLts.Run [] demoTimers := .start demoTimers_init
  have h₁ := h₀.snoc (e := TimerOp.start 0 (some 0) 5 false) ⟨3, rfl⟩
  have h₂ := h₁.snoc (e := TimerOp.tick 5) ⟨3, rfl⟩
  have h₃ := h₂.snoc (e := TimerOp.callbackReturned) ⟨3, rfl⟩
  refine ⟨_, h₃, rfl, ?_⟩
  rintro ⟨l, hl⟩
  have hnil : l = [] := hl.path.unique rfl
  obtain hm | hf := hl.listed 0 (by decide)
  · simp [hnil] at hm
  · cases hf

end Gracemont
