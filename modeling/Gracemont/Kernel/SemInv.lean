/-
  Gracemont kernel — semaphore accounting, for both ports.

  One semaphore and the tasks that use it, in any interleaving.  `task_yield`
  is a pair of events: going to sleep ends the event `wait` (or `resume`) with
  outcome `none`, and `resume` is the return of `task_yield`, once the task is
  no longer blocked.  Everything else the scheduler and other objects do to the
  task control blocks, the `task_ready_add` of the X86_64 port included, is the
  event `sched`.

  The counters of the claim are functions of the trace: `posts`, `taken`, and
  `awake`, the tasks that a post took off the wait list and that have not
  resumed yet.  The main result is `sem_accounting`.
-/
import Mathlib.Algebra.Group.Int.Defs
import Mathlib.Data.List.Perm.Basic
import Gracemont.Kernel.Sync
import Gracemont.Lib.Trace

namespace Gracemont

variable {α : Type}

/-- The task is blocked on the object. -/
def BlockedOn (obj : WaitObj) (m : Tcbs α) (t : α) : Prop :=
  (m t).state = .blocked ∧ (m t).waitObj = some obj

/-- What the scheduler and the other objects may do between two turns on `obj`:
    anything but touch the tasks blocked on it, block others on it, or fail a
    wait. -/
structure Elsewhere (obj : WaitObj) (m m' : Tcbs α) : Prop where
  keep : ∀ t, BlockedOn obj m t → m' t = m t
  fresh : ∀ t, BlockedOn obj m' t → BlockedOn obj m t
  result : ∀ t, (m' t).waitResult = (m t).waitResult ∨ (m' t).waitResult = .ok

/-- A semaphore in use; `waiting t`: the task `t` is in the `task_yield` of
    `sem_wait`. -/
structure SemUse (α : Type) where
  tcb : Tcbs α
  sem : Semaphore α
  waiting : α → Bool

/-- The turns on the semaphore, with their outcomes. -/
inductive SemEvent (α : Type) where
  | wait (t : α) (r : Option Status)
  | resume (t : α) (r : Option Status)
  | trywait (t : α) (r : Status)
  | post (woken : Option α)
  | sched

section
variable [DecidableEq α]

/-- One turn.  A task resumes when it is not blocked any more; the counter does
    not overflow. -/
def semStep (obj : WaitObj) (s : SemUse α) : SemEvent α → SemUse α → Prop
  | .wait t r, s' => s.waiting t = false ∧ ∃ m sem, semWait obj s.tcb s.sem t = (m, sem, r) ∧
    s' = ⟨m, sem, Function.update s.waiting t r.isNone⟩
  | .resume t r, s' => s.waiting t = true ∧ (s.tcb t).state ≠ .blocked ∧
    ∃ m sem, semResume obj s.tcb s.sem t = (m, sem, r) ∧
    s' = ⟨m, sem, Function.update s.waiting t r.isNone⟩
  | .trywait t r, s' => s.waiting t = false ∧ ∃ sem, semTrywait s.sem = (sem, r) ∧
    s' = ⟨s.tcb, sem, s.waiting⟩
  | .post woken, s' => s.sem.count < 2 ^ 31 - 1 ∧
    ∃ m sem, semPost s.tcb s.sem = (m, sem, woken) ∧ s' = ⟨m, sem, s.waiting⟩
  | .sched, s' => ∃ m, Elsewhere obj s.tcb m ∧ s' = ⟨m, s.sem, s.waiting⟩

/-- The semaphore as a transition system, from `sem_init(sem, initial)`. -/
def semLts (obj : WaitObj) (initial : ℤ) : Lib.Lts (SemUse α) (SemEvent α) :=
  ⟨fun s => s.sem = semInit initial ∧ (∀ t, ¬ BlockedOn obj s.tcb t) ∧ ∀ t, s.waiting t = false,
    semStep obj⟩

end

/-! ## The counters -/

/-- The completed posts of a trace. -/
def posts (tr : List (SemEvent α)) : ℕ :=
  tr.countP fun e => match e with
    | .post _ => true
    | _ => false

/-- The successful waits of a trace. -/
def taken (tr : List (SemEvent α)) : ℕ :=
  tr.countP fun e => match e with
    | .wait _ r | .resume _ r => r = some .ok
    | .trywait _ r => r = .ok
    | _ => false

section
variable [DecidableEq α]

/-- What one event does to the tasks woken and not resumed. -/
def awakeStep (l : List α) : SemEvent α → List α
  | .post (some t) => t :: l
  | .resume t _ => l.erase t
  | _ => l

/-- The tasks that a post took off the wait list and that have not resumed. -/
def awake (tr : List (SemEvent α)) : List α := tr.foldl awakeStep []

@[simp] theorem awake_snoc (tr : List (SemEvent α)) (e : SemEvent α) :
    awake (tr ++ [e]) = awakeStep (awake tr) e := by simp [awake]

end

/-! ## The invariant -/

section
variable [DecidableEq α]

/-- The wait list holds `W`, and there are at most as many tokens as tasks
    awake while it is not empty. -/
structure SemInv (obj : WaitObj) (initial : ℤ) (tr : List (SemEvent α)) (s : SemUse α)
    (W : List α) : Prop where
  chain : Lib.Chain s.tcb.next s.tcb.prev s.sem.waitList W
  blocked : ∀ t, t ∈ W ↔ BlockedOn obj s.tcb t
  waiting : ∀ t, s.waiting t = true ↔ t ∈ W ∨ t ∈ awake tr
  apart : ∀ t ∈ awake tr, t ∉ W
  nodup : (awake tr).Nodup
  result : ∀ t ∈ awake tr, (s.tcb t).waitResult = .ok
  account : s.sem.count = initial + posts tr - taken tr
  nonneg : 0 ≤ s.sem.count
  tokens : W ≠ [] → s.sem.count ≤ (awake tr).length

variable {obj : WaitObj} {initial : ℤ} {tr : List (SemEvent α)} {s s' : SemUse α} {W : List α}

/-- The loop of `sem_wait`: the task goes to sleep, or takes a token. -/
theorem semWait_cases {m m' : Tcbs α} {sem sem' : Semaphore α} {t : α} {r : Option Status}
    (h : semWait obj m sem t = (m', sem', r)) (hc : Lib.Chain m.next m.prev sem.waitList W)
    (hb : ∀ x, x ∈ W ↔ BlockedOn obj m x) (ht : t ∉ W) :
    (sem.count ≤ 0 ∧ r = none ∧ sem'.count = sem.count ∧
      Lib.Chain (Tcbs.next m') (Tcbs.prev m') sem'.waitList (t :: W) ∧
      (∀ x, x ∈ t :: W ↔ BlockedOn obj m' x) ∧ ∀ x, (m' x).waitResult = (m x).waitResult) ∨
    (0 < sem.count ∧ r = some .ok ∧ m' = m ∧ sem' = { sem with count := sem.count - 1 }) := by
  unfold semWait at h
  split_ifs at h with hcount
  · obtain ⟨m₁, hm₁, hc₁, hst, hwo, hother, hres⟩ := blockOn_spec obj hc ht
    rw [hm₁] at h
    cases h
    refine Or.inl ⟨hcount, rfl, rfl, hc₁, fun x => ?_, hres⟩
    by_cases hx : x = t
    · subst hx
      simp [BlockedOn, hst, hwo]
    · obtain ⟨h1, h2⟩ := hother x hx
      unfold BlockedOn
      rw [h1, h2, List.mem_cons, or_iff_right hx]
      exact hb x
  · cases h
    exact Or.inr ⟨by omega, rfl, rfl, rfl⟩

theorem SemInv.wait (hI : SemInv obj initial tr s W) {t : α} {r : Option Status}
    (hs : semStep obj s (.wait t r) s') : ∃ W', SemInv obj initial (tr ++ [.wait t r]) s' W' := by
  obtain ⟨hw, m, sem, h, rfl⟩ := hs
  have hout : ¬ (t ∈ W ∨ t ∈ awake tr) := by rw [← hI.waiting, hw]; simp
  have htW : t ∉ W := fun hm => hout (Or.inl hm)
  rcases semWait_cases h hI.chain hI.blocked htW with
    ⟨hc, rfl, hcount, hch, hb, hres⟩ | ⟨hc, rfl, rfl, rfl⟩
  · refine ⟨t :: W, hch, hb, ?_, ?_, by simpa [awakeStep] using hI.nodup, ?_, ?_, ?_, ?_⟩
    · intro x
      by_cases hx : x = t
      · subst hx; simp
      · simpa [hx, awakeStep] using hI.waiting x
    · intro x hx
      simp only [awake_snoc, awakeStep] at hx
      have hxt : x ≠ t := by rintro rfl; exact hout (Or.inr hx)
      simpa [hxt] using hI.apart x hx
    · intro x hx
      simp only [awake_snoc, awakeStep] at hx
      rw [hres]; exact hI.result x hx
    · have := hI.account
      simp [hcount, this, posts, taken]
    · rw [hcount]; exact hI.nonneg
    · intro _
      simp only [awake_snoc, awakeStep, hcount]
      omega
  · refine ⟨W, hI.chain, hI.blocked, ?_, ?_, by simpa [awakeStep] using hI.nodup, ?_, ?_, ?_, ?_⟩
    · intro x
      by_cases hx : x = t
      · subst hx; simpa [awakeStep] using hout
      · simpa [hx, awakeStep] using hI.waiting x
    · simpa [awakeStep] using hI.apart
    · simpa [awakeStep] using hI.result
    · have := hI.account
      simp [this, posts, taken]; omega
    · simp only; omega
    · intro hW
      have := hI.tokens hW
      simp only [awake_snoc, awakeStep]
      omega

/-- A task that resumes was woken, so it leaves `awake`; its wait succeeded. -/
theorem SemInv.resume (hI : SemInv obj initial tr s W) {t : α} {r : Option Status}
    (hs : semStep obj s (.resume t r) s') : ∃ W', SemInv obj initial (tr ++ [.resume t r]) s' W' := by
  obtain ⟨hw, hst, m, sem, h, rfl⟩ := hs
  have htW : t ∉ W := fun hm => hst ((hI.blocked t).1 hm).1
  have htA : t ∈ awake tr := ((hI.waiting t).1 hw).resolve_left htW
  have hlen : ((awake tr).erase t).length + 1 = (awake tr).length := by
    rw [List.length_erase_of_mem htA]
    have := List.length_pos_of_mem htA
    omega
  have hsub : ∀ x, x ∈ (awake tr).erase t ↔ x ≠ t ∧ x ∈ awake tr := fun x => hI.nodup.mem_erase_iff
  have hwait : semWait obj s.tcb s.sem t = (m, sem, r) := by
    unfold semResume at h
    rwa [if_neg (by simpa using hI.result t htA)] at h
  have hnd : (awake (tr ++ [.resume t r])).Nodup := by
    simpa [awakeStep] using hI.nodup.erase t
  rcases semWait_cases hwait hI.chain hI.blocked htW with
    ⟨hc, rfl, hcount, hch, hb, hres⟩ | ⟨hc, rfl, rfl, rfl⟩
  · refine ⟨t :: W, hch, hb, ?_, ?_, hnd, ?_, ?_, ?_, ?_⟩
    · intro x
      by_cases hx : x = t
      · subst hx; simp
      · simpa [hx, awakeStep, hsub] using hI.waiting x
    · intro x hx
      rw [awake_snoc, awakeStep, hsub] at hx
      simpa [hx.1] using hI.apart x hx.2
    · intro x hx
      rw [awake_snoc, awakeStep, hsub] at hx
      rw [hres]; exact hI.result x hx.2
    · have := hI.account
      simp [hcount, this, posts, taken]
    · rw [hcount]; exact hI.nonneg
    · intro _
      simp only [awake_snoc, awakeStep, hcount]
      omega
  · refine ⟨W, hI.chain, hI.blocked, ?_, ?_, hnd, ?_, ?_, ?_, ?_⟩
    · intro x
      by_cases hx : x = t
      · subst hx; simp [awakeStep, hsub, htW]
      · simpa [hx, awakeStep, hsub] using hI.waiting x
    · intro x hx
      rw [awake_snoc, awakeStep, hsub] at hx
      exact hI.apart x hx.2
    · intro x hx
      rw [awake_snoc, awakeStep, hsub] at hx
      exact hI.result x hx.2
    · have := hI.account
      simp [this, posts, taken]; omega
    · simp only; omega
    · intro hW
      have := hI.tokens hW
      simp only [awake_snoc, awakeStep]
      omega

theorem SemInv.trywait (hI : SemInv obj initial tr s W) {t : α} {r : Status}
    (hs : semStep obj s (.trywait t r) s') : SemInv obj initial (tr ++ [.trywait t r]) s' W := by
  obtain ⟨-, sem, h, rfl⟩ := hs
  have haw : awake (tr ++ [.trywait t r]) = awake tr := by simp [awakeStep]
  have hacc := hI.account
  unfold semTrywait at h
  split_ifs at h with hc
  · cases h
    refine ⟨hI.chain, hI.blocked, ?_, ?_, ?_, ?_, ?_, ?_, ?_⟩
    · simpa [haw] using hI.waiting
    · simpa [haw] using hI.apart
    · simpa [haw] using hI.nodup
    · simpa [haw] using hI.result
    · simp [hacc, posts, taken]; omega
    · simp only; omega
    · intro hW
      have := hI.tokens hW
      rw [haw]; simp only; omega
  · cases h
    refine ⟨hI.chain, hI.blocked, ?_, ?_, ?_, ?_, ?_, hI.nonneg, ?_⟩
    · simpa [haw] using hI.waiting
    · simpa [haw] using hI.apart
    · simpa [haw] using hI.nodup
    · simpa [haw] using hI.result
    · simp [hacc, posts, taken]
    · rw [haw]; exact hI.tokens

/-- **A post** adds a token and wakes a task, if one sleeps. -/
theorem SemInv.post (hI : SemInv obj initial tr s W) {woken : Option α}
    (hs : semStep obj s (.post woken) s') : ∃ W', SemInv obj initial (tr ++ [.post woken]) s' W' := by
  obtain ⟨-, m, sem, h, rfl⟩ := hs
  have hacc := hI.account
  have hnn := hI.nonneg
  cases W with
  | nil =>
    have hl : s.sem.waitList = none := hI.chain.head_eq
    have hp : semPost s.tcb s.sem = (s.tcb, { s.sem with count := s.sem.count + 1 }, none) := by
      simp [semPost, hl, wakeFirst_none]
    rw [hp] at h
    cases h
    have haw : awake (tr ++ [.post none]) = awake tr := by simp [awakeStep]
    refine ⟨[], hI.chain, hI.blocked, ?_, ?_, ?_, ?_, ?_, ?_, by simp⟩
    · simpa [haw] using hI.waiting
    · simp
    · simpa [haw] using hI.nodup
    · simpa [haw] using hI.result
    · simp [hacc, posts, taken]; omega
    · simp only; omega
  | cons t W =>
    obtain ⟨m₁, list, hw, hch, hst, hwo, hres, hother⟩ := wakeFirst_spec hI.chain
    have hp : semPost s.tcb s.sem = (m₁, ⟨s.sem.count + 1, list⟩, some t) := by
      simp [semPost, hw]
    rw [hp] at h
    cases h
    have haw : awake (tr ++ [.post (some t)]) = t :: awake tr := by simp [awakeStep]
    have htW : t ∉ W := (List.nodup_cons.1 hI.chain.nodup).1
    have htA : t ∉ awake tr := fun hm => hI.apart t hm (by simp)
    refine ⟨W, hch, ?_, ?_, ?_, ?_, ?_, ?_, ?_, ?_⟩
    · intro x
      by_cases hx : x = t
      · subst hx; simp [BlockedOn, htW, hst]
      · obtain ⟨h1, h2, -⟩ := hother x hx
        have := hI.blocked x
        simpa [BlockedOn, h1, h2, hx] using this
    · intro x
      rw [haw, hI.waiting]
      simp only [List.mem_cons]
      tauto
    · intro x hx
      rw [haw] at hx
      rcases List.mem_cons.1 hx with rfl | hx
      · exact htW
      · exact fun hm => hI.apart x hx (by simp [hm])
    · rw [haw]; exact List.nodup_cons.2 ⟨htA, hI.nodup⟩
    · intro x hx
      rw [haw] at hx
      rcases List.mem_cons.1 hx with rfl | hx
      · exact hres
      · have hxt : x ≠ t := fun he => htA (he ▸ hx)
        rw [(hother x hxt).2.2]; exact hI.result x hx
    · simp [hacc, posts, taken]; omega
    · simp only; omega
    · intro _
      have := hI.tokens (by simp)
      rw [haw, List.length_cons]
      simp only
      omega

theorem SemInv.sched (hI : SemInv obj initial tr s W) (hs : semStep obj s .sched s') :
    SemInv obj initial (tr ++ [.sched]) s' W := by
  obtain ⟨m, he, rfl⟩ := hs
  have haw : awake (tr ++ [.sched]) = awake tr := by simp [awakeStep]
  have hkeep : ∀ t ∈ W, m t = s.tcb t := fun t ht => he.keep t ((hI.blocked t).1 ht)
  refine ⟨hI.chain.congr (fun t ht => congrArg Tcb.next (hkeep t ht))
    fun t ht => congrArg Tcb.prev (hkeep t ht), ?_, ?_, ?_, ?_, ?_, ?_, hI.nonneg, ?_⟩
  · intro t
    constructor
    · intro ht
      show (m t).state = .blocked ∧ (m t).waitObj = some obj
      rw [hkeep t ht]; exact (hI.blocked t).1 ht
    · exact fun ht => (hI.blocked t).2 (he.fresh t ht)
  · simpa [haw] using hI.waiting
  · simpa [haw] using hI.apart
  · simpa [haw] using hI.nodup
  · intro t ht
    rw [haw] at ht
    rcases he.result t with h | h
    · rw [h]; exact hI.result t ht
    · exact h
  · simpa [posts, taken] using hI.account
  · simpa [haw] using hI.tokens

theorem semInv_run (h0 : 0 ≤ initial) (h : (semLts obj initial).Run tr s) :
    ∃ W, SemInv obj initial tr s W := by
  refine h.rule (P := fun tr s => ∃ W, SemInv obj initial tr s W) ?_ ?_
  · rintro s ⟨hsem, hb, hw⟩
    refine ⟨[], ?_, ?_, ?_, ?_, ?_, ?_, ?_, ?_, ?_⟩
    · rw [hsem]; exact Lib.chain_nil
    · intro t; simpa using hb t
    · intro t; simp [hw, awake]
    all_goals simp [awake, hsem, semInit, posts, taken, h0]
  · rintro tr s e s' ⟨W, hI⟩ hs
    cases e with
    | wait t r => exact hI.wait hs
    | resume t r => exact hI.resume hs
    | trywait t r => exact ⟨W, hI.trywait hs⟩
    | post woken => exact hI.post hs
    | sched => exact ⟨W, hI.sched hs⟩

/-- **Semaphore accounting.**  In any interleaving the counter is the initial
    value plus the posts minus the successful waits, never negative; while the
    wait list is not empty it is at most the number of tasks that a post woke
    and that have not resumed. -/
theorem sem_accounting (h0 : 0 ≤ initial) (h : (semLts obj initial).Run tr s) :
    s.sem.count = initial + posts tr - taken tr ∧ 0 ≤ s.sem.count ∧ (awake tr).Nodup ∧
      (s.sem.waitList ≠ none → s.sem.count ≤ (awake tr).length) := by
  obtain ⟨W, hI⟩ := semInv_run h0 h
  refine ⟨hI.account, hI.nonneg, hI.nodup, fun hl => hI.tokens ?_⟩
  rintro rfl
  exact hl hI.chain.head_eq

/-- Two tasks wait, a post wakes one, and a third task takes its token. -/
theorem sem_accounting_stolen : ∃ (tr : List (SemEvent (Fin 3))) (s : SemUse (Fin 3)),
    awake tr = [1] ∧ s.sem.waitList = some 0 ∧ s.sem.count = 0 ∧
      s.sem.count ≤ (awake tr).length := by
  have h₀ : (semLts (.sem 0) 0).Run ([] : List (SemEvent (Fin 3)))
      ⟨fun _ => { Tcb.zero with state := .running }, semInit 0, fun _ => false⟩ :=
    .start (by refine ⟨rfl, ?_, ?_⟩ <;> simp [BlockedOn])
  have h₁ := h₀.snoc (e := SemEvent.wait 0 none) ⟨rfl, _, _, rfl, rfl⟩
  have h₂ := h₁.snoc (e := SemEvent.wait 1 none) ⟨rfl, _, _, rfl, rfl⟩
  have h₃ := h₂.snoc (e := SemEvent.post (some 1)) ⟨by decide, _, _, rfl, rfl⟩
  have h₄ := h₃.snoc (e := SemEvent.trywait 2 .ok) ⟨rfl, _, rfl, rfl⟩
  exact ⟨_, _, rfl, rfl, rfl, (sem_accounting (by decide) h₄).2.2.2 (by simp [semInit])⟩

end

end Gracemont
