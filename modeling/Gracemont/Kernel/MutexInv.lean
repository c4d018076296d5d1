/-
  Gracemont kernel — mutual exclusion, for both ports.

  One mutex and the tasks that use it, in any interleaving, with `task_yield`
  as a pair of events as for semaphores.  The result needs nothing of the
  scheduler: a task may return from `task_yield` at any time, and the event
  `sched` may leave any task control blocks.

  The mutexes of the two ports refine one abstract mutex, `Held`: its owner and
  the counter.  How often a task holds the mutex is a function of the trace,
  `depth`.  The main result is `mutex_safe`.
-/
import Gracemont.Kernel.Sync
import Gracemont.Lib.Trace

namespace Gracemont

variable {α μ : Type}

/-! ## The abstract mutex -/

/-- The owner of a mutex and its recursion counter. -/
structure Held (α : Type) where
  owner : Option α
  count : BitVec 32

/-- A turn of the task `t` that tries to lock, with its outcome. -/
inductive Acquire (t : α) : Held α → Held α → Option Status → Prop
  | again {h : Held α} : h.owner = some t → Acquire t h ⟨some t, h.count + 1⟩ (some .ok)
  | take {h : Held α} : h.owner = none → Acquire t h ⟨some t, 1⟩ (some .ok)
  | refuse {h : Held α} {r : Option Status} : r ≠ some .ok → h.owner ≠ some t ∨ r ≠ none →
      Acquire t h h r

/-- An unlock by the task `t`. -/
inductive Release (t : α) : Held α → Held α → Prop
  | foreign {h : Held α} : h.owner ≠ some t → Release t h h
  | nested {h : Held α} : h.owner = some t → h.count ≠ 1 → Release t h ⟨some t, h.count - 1⟩
  | last {h : Held α} : h.owner = some t → h.count = 1 → Release t h ⟨none, 0⟩

/-- A task that goes to sleep is not the owner. -/
theorem Acquire.foreign {t : α} {h h' : Held α} (ha : Acquire t h h' none) : h.owner ≠ some t := by
  cases ha with
  | refuse _ hout => exact hout.resolve_right fun hr => hr rfl

/-- The operations of a mutex, and what they show of it. -/
structure MutexApi (α μ : Type) where
  init : μ
  lock : Tcbs α → μ → α → Tcbs α × μ × Option Status
  resume : Tcbs α → μ → α → Tcbs α × μ × Option Status
  trylock : Tcbs α → μ → α → μ × Status
  unlock : Tcbs α → μ → α → Tcbs α × μ × Option α
  held : μ → Held α

/-- **Refinement.**  On the mutexes in `wf`, the operations are turns of the
    abstract mutex. -/
structure MutexApi.Refines (api : MutexApi α μ) (wf : μ → Prop) : Prop where
  init : wf api.init ∧ (api.held api.init).owner = none
  lock : ∀ {m mutex t m' mutex' r}, wf mutex → api.lock m mutex t = (m', mutex', r) →
    wf mutex' ∧ Acquire t (api.held mutex) (api.held mutex') r
  resume : ∀ {m mutex t m' mutex' r}, wf mutex → (api.held mutex).owner ≠ some t →
    api.resume m mutex t = (m', mutex', r) →
    wf mutex' ∧ Acquire t (api.held mutex) (api.held mutex') r
  trylock : ∀ {m mutex t mutex' r}, wf mutex → api.trylock m mutex t = (mutex', r) →
    wf mutex' ∧ Acquire t (api.held mutex) (api.held mutex') (some r)
  unlock : ∀ {m mutex t m' mutex' w}, wf mutex → api.unlock m mutex t = (m', mutex', w) →
    wf mutex' ∧ Release t (api.held mutex) (api.held mutex')
  foreign : ∀ {m mutex t}, (api.held mutex).owner ≠ some t →
    api.unlock m mutex t = (m, mutex, none)

/-! ## The two ports -/

section
variable [DecidableEq α] (obj : WaitObj)

/-- The mutexes of the ARM64 port. -/
def arm64Mutex : MutexApi α (Mutex α) where
  init := mutexInit
  lock := mutexLock obj
  resume := mutexResume obj
  trylock := mutexTrylock
  unlock := mutexUnlock
  held mutex := ⟨mutex.owner, mutex.lockCount⟩

/-- The mutexes of the X86_64 port. -/
def x86_64Mutex : MutexApi α (X86.Mutex α) where
  init := X86.mutexInit
  lock := X86.mutexLock obj
  resume := X86.mutexResume obj
  trylock _ := X86.mutexTrylock
  unlock := X86.mutexUnlock
  held mutex := ⟨mutex.owner, mutex.recursion⟩

/-- The mutexes of a port. -/
abbrev PortMutex (port : Port) (α : Type) : Type :=
  match port with
  | .arm64 => Mutex α
  | .x86_64 => X86.Mutex α

def mutexApi (port : Port) : MutexApi α (PortMutex port α) :=
  match port with
  | .arm64 => arm64Mutex obj
  | .x86_64 => x86_64Mutex obj

/-- A decremented counter is positive unless it was 1. -/
theorem pos_sub_one_iff (n : BitVec 32) : 0 < n - 1 ↔ n ≠ 1 := by
  constructor
  · rintro h rfl
    exact absurd h (by decide)
  · intro h
    bv_omega

/-- The loop of `mutex_lock` on ARM64. -/
theorem mutexLockLoop_acquire {m m' : Tcbs α} {mutex mutex' : Mutex α} {t : α} {r : Option Status}
    (ht : mutex.owner ≠ some t) (h : mutexLockLoop obj m mutex t = (m', mutex', r)) :
    Acquire t ⟨mutex.owner, mutex.lockCount⟩ ⟨mutex'.owner, mutex'.lockCount⟩ r := by
  unfold mutexLockLoop at h
  cases ho : mutex.owner with
  | none =>
    rw [ho] at h
    cases h
    exact .take rfl
  | some o =>
    rw [ho] at h ht
    cases h
    exact .refuse (by simp) (Or.inl ht)

theorem arm64Mutex_refines : (arm64Mutex (α := α) obj).Refines fun _ => True := by
  have retry : ∀ {m : Tcbs α} {mutex t m' mutex' r}, mutex.owner ≠ some t →
      mutexResume obj m mutex t = (m', mutex', r) →
      Acquire t ⟨mutex.owner, mutex.lockCount⟩ ⟨mutex'.owner, mutex'.lockCount⟩ r := by
    intro m mutex t m' mutex' r ht h
    unfold mutexResume at h
    split_ifs at h with hres
    · cases h
      exact .refuse (fun he => hres (Option.some.inj he)) (Or.inr (by simp))
    · exact mutexLockLoop_acquire obj ht h
  constructor
  case init => exact ⟨trivial, rfl⟩
  case lock =>
    intro m mutex t m' mutex' r _ h
    refine ⟨trivial, ?_⟩
    change mutexLock obj m mutex t = _ at h
    unfold mutexLock at h
    split_ifs at h with ho
    · cases h
      have hstep := Acquire.again (h := ⟨mutex.owner, mutex.lockCount⟩) ho
      rw [← ho] at hstep
      exact hstep
    · exact mutexLockLoop_acquire obj ho h
  case resume =>
    intro m mutex t m' mutex' r _ ht h
    exact ⟨trivial, retry ht h⟩
  case trylock =>
    intro m mutex t mutex' r _ h
    refine ⟨trivial, ?_⟩
    change mutexTrylock m mutex t = _ at h
    unfold mutexTrylock at h
    split_ifs at h with ho ho'
    · cases h
      exact .take ho
    · cases h
      have hstep := Acquire.again (h := ⟨mutex.owner, mutex.lockCount⟩) ho'
      rw [← ho'] at hstep
      exact hstep
    · cases h
      exact .refuse (by simp) (Or.inr (by simp))
  case unlock =>
    intro m mutex t m' mutex' w _ h
    refine ⟨trivial, ?_⟩
    change mutexUnlock m mutex t = _ at h
    unfold mutexUnlock at h
    simp only [pos_sub_one_iff] at h
    split_ifs at h with ho hc
    · cases h
      exact .foreign ho
    · cases h
      have ho := not_not.1 ho
      have hstep := Release.nested (h := ⟨mutex.owner, mutex.lockCount⟩) ho hc
      rw [← ho] at hstep
      exact hstep
    · cases h
      have hstep := Release.last (h := ⟨mutex.owner, mutex.lockCount⟩) (not_not.1 ho) (not_not.1 hc)
      show Release t _ ⟨none, mutex.lockCount - 1⟩
      rwa [not_not.1 hc]
  case foreign =>
    intro m mutex t ho
    exact if_pos ho

/-- The loop of `mutex_lock` on X86_64. -/
theorem X86.mutexLockLoop_acquire {m m' : Tcbs α} {mutex mutex' : X86.Mutex α} {t : α}
    {r : Option Status} (hl : mutex.locked = 0 ↔ mutex.owner = none) (ht : mutex.owner ≠ some t)
    (h : X86.mutexLockLoop obj m mutex t = (m', mutex', r)) :
    (mutex'.locked = 0 ↔ mutex'.owner = none) ∧
      Acquire t ⟨mutex.owner, mutex.recursion⟩ ⟨mutex'.owner, mutex'.recursion⟩ r := by
  unfold X86.mutexLockLoop at h
  split_ifs at h with hn
  · cases h
    exact ⟨hl, .refuse (by simp) (Or.inl ht)⟩
  · cases h
    exact ⟨by simp, .take (hl.1 (not_not.1 hn))⟩

theorem x86_64Mutex_refines : (x86_64Mutex (α := α) obj).Refines fun mutex =>
    mutex.locked = 0 ↔ mutex.owner = none := by
  constructor
  case init => exact ⟨by simp [x86_64Mutex, X86.mutexInit], rfl⟩
  case lock =>
    intro m mutex t m' mutex' r hl h
    change X86.mutexLock obj m mutex t = _ at h
    unfold X86.mutexLock at h
    split_ifs at h with ho
    · cases h
      have hstep := Acquire.again (h := ⟨mutex.owner, mutex.recursion⟩) ho
      rw [← ho] at hstep
      exact ⟨hl, hstep⟩
    · exact X86.mutexLockLoop_acquire obj hl ho h
  case resume =>
    intro m mutex t m' mutex' r hl ht h
    change X86.mutexResume obj m mutex t = _ at h
    unfold X86.mutexResume at h
    split_ifs at h with hres
    · cases h
      exact ⟨hl, .refuse (fun he => hres (Option.some.inj he)) (Or.inr (by simp))⟩
    · exact X86.mutexLockLoop_acquire obj hl ht h
  case trylock =>
    intro m mutex t mutex' r hl h
    change X86.mutexTrylock mutex t = _ at h
    unfold X86.mutexTrylock at h
    split_ifs at h with hn ho
    · cases h
      exact ⟨by simp, .take (hl.1 hn)⟩
    · cases h
      have hstep := Acquire.again (h := ⟨mutex.owner, mutex.recursion⟩) ho
      rw [← ho] at hstep
      exact ⟨hl, hstep⟩
    · cases h
      exact ⟨hl, .refuse (by simp) (Or.inr (by simp))⟩
  case unlock =>
    intro m mutex t m' mutex' w hl h
    change X86.mutexUnlock m mutex t = _ at h
    unfold X86.mutexUnlock at h
    simp only [pos_sub_one_iff] at h
    split_ifs at h with ho hc
    · cases h
      exact ⟨hl, .foreign ho⟩
    · cases h
      have ho := not_not.1 ho
      have hstep := Release.nested (h := ⟨mutex.owner, mutex.recursion⟩) ho hc
      rw [← ho] at hstep
      exact ⟨hl, hstep⟩
    · cases h
      have hstep := Release.last (h := ⟨mutex.owner, mutex.recursion⟩) (not_not.1 ho) (not_not.1 hc)
      refine ⟨by simp, ?_⟩
      show Release t _ ⟨none, mutex.recursion - 1⟩
      rwa [not_not.1 hc]
  case foreign =>
    intro m mutex t ho
    exact if_pos ho

/-- The mutexes of both ports refine the abstract mutex. -/
theorem mutexApi_refines : ∀ port : Port, ∃ wf, (mutexApi (α := α) obj port).Refines wf
  | .arm64 => ⟨_, arm64Mutex_refines obj⟩
  | .x86_64 => ⟨_, x86_64Mutex_refines obj⟩

end

/-! ## A mutex in use -/

/-- A mutex in use; `waiting t`: the task `t` is in the `task_yield` of
    `mutex_lock`. -/
structure MutexUse (α μ : Type) where
  tcb : Tcbs α
  mutex : μ
  waiting : α → Bool

/-- The turns on the mutex, with their outcomes. -/
inductive MutexEvent (α : Type) where
  | lock (t : α) (r : Option Status)
  | resume (t : α) (r : Option Status)
  | trylock (t : α) (r : Status)
  | unlock (t : α)
  | sched

section
variable [DecidableEq α]

/-- One turn. -/
def mutexStep (api : MutexApi α μ) (s : MutexUse α μ) : MutexEvent α → MutexUse α μ → Prop
  | .lock t r, s' => s.waiting t = false ∧ ∃ m mutex, api.lock s.tcb s.mutex t = (m, mutex, r) ∧
    s' = ⟨m, mutex, Function.update s.waiting t r.isNone⟩
  | .resume t r, s' => s.waiting t = true ∧ ∃ m mutex, api.resume s.tcb s.mutex t = (m, mutex, r) ∧
    s' = ⟨m, mutex, Function.update s.waiting t r.isNone⟩
  | .trylock t r, s' => s.waiting t = false ∧ ∃ mutex, api.trylock s.tcb s.mutex t = (mutex, r) ∧
    s' = ⟨s.tcb, mutex, s.waiting⟩
  | .unlock t, s' => s.waiting t = false ∧ ∃ m mutex w, api.unlock s.tcb s.mutex t = (m, mutex, w) ∧
    s' = ⟨m, mutex, s.waiting⟩
  | .sched, s' => ∃ m, s' = ⟨m, s.mutex, s.waiting⟩

/-- The mutex as a transition system, from `mutex_init`. -/
def mutexLts (api : MutexApi α μ) : Lib.Lts (MutexUse α μ) (MutexEvent α) :=
  ⟨fun s => s.mutex = api.init ∧ ∀ t, s.waiting t = false, mutexStep api⟩

/-- What one event does to the number of times that `t` holds the mutex. -/
def depthStep (t : α) (d : ℕ) : MutexEvent α → ℕ
  | .lock u r | .resume u r => if u = t ∧ r = some .ok then d + 1 else d
  | .trylock u r => if u = t ∧ r = .ok then d + 1 else d
  | .unlock u => if u = t then d - 1 else d
  | .sched => d

/-- The successful locks of `t` minus its unlocks since it became the owner; an
    unlock by a task that does not hold the mutex does not count. -/
def depth (tr : List (MutexEvent α)) (t : α) : ℕ := tr.foldl (depthStep t) 0

@[simp] theorem depth_snoc (tr : List (MutexEvent α)) (e : MutexEvent α) (t : α) :
    depth (tr ++ [e]) t = depthStep t (depth tr t) e := by simp [depth]

/-- A short trace has small depths. -/
theorem depth_le_length (tr : List (MutexEvent α)) (t : α) : depth tr t ≤ tr.length := by
  induction tr using List.reverseRecOn with
  | nil => exact Nat.le_refl 0
  | append_singleton tr e ih =>
    rw [depth_snoc, List.length_append, List.length_singleton]
    have hstep : depthStep t (depth tr t) e ≤ depth tr t + 1 := by
      cases e <;> simp only [depthStep] <;> first | omega | (split_ifs <;> omega)
    omega

/-! ## The invariant -/

/-- Only the owner holds the mutex, as often as the counter says, and it is in
    no `task_yield`. -/
structure MutexInv (h : Held α) (waiting : α → Bool) (d : α → ℕ) : Prop where
  other : ∀ t, h.owner ≠ some t → d t = 0
  count : ∀ t, h.owner = some t → d t = h.count.toNat
  pos : ∀ t, h.owner = some t → 0 < d t
  awake : ∀ t, h.owner = some t → waiting t = false

variable {h h' : Held α} {waiting : α → Bool} {d d' : α → ℕ} {t : α}

/-- A turn that tries to lock keeps the invariant. -/
theorem MutexInv.acquire {r : Option Status} (hI : MutexInv h waiting d)
    (ht : h.owner = some t → r ≠ none) (ha : Acquire t h h' r)
    (hd : ∀ u, d' u = if u = t ∧ r = some .ok then d u + 1 else d u) (hlt : d' t < 2 ^ 32) :
    MutexInv h' (Function.update waiting t r.isNone) d' := by
  cases ha with
  | again ho =>
    have hdt := hd t
    have hcount := hI.count t ho
    rw [if_pos ⟨rfl, rfl⟩] at hdt
    constructor
    · intro u hu
      have hut : u ≠ t := fun he => hu (he ▸ rfl)
      rw [hd, if_neg fun he => hut he.1]
      exact hI.other u fun he => hut (Option.some.inj (he.symm.trans ho))
    · rintro u ⟨⟩
      have h1 : (1 : BitVec 32).toNat = 1 := rfl
      rw [hdt, BitVec.toNat_add]
      omega
    · rintro u ⟨⟩
      omega
    · rintro u ⟨⟩
      simp
  | take ho =>
    have hdt := hd t
    have hzero := hI.other t (by simp [ho])
    rw [if_pos ⟨rfl, rfl⟩] at hdt
    constructor
    · intro u hu
      have hut : u ≠ t := fun he => hu (he ▸ rfl)
      rw [hd, if_neg fun he => hut he.1]
      exact hI.other u (by simp [ho])
    · rintro u ⟨⟩
      show d' t = 1
      omega
    · rintro u ⟨⟩
      omega
    · rintro u ⟨⟩
      simp
  | refuse hr hout =>
    have hd : ∀ u, d' u = d u := by
      intro u
      rw [hd, if_neg fun he => hr he.2]
    constructor
    · intro u hu
      rw [hd, hI.other u hu]
    · intro u hu
      rw [hd, hI.count u hu]
    · intro u hu
      rw [hd]
      exact hI.pos u hu
    · intro u hu
      by_cases hut : u = t
      · subst hut
        rw [Function.update_self]
        cases r with
        | none => exact absurd rfl (ht hu)
        | some r => rfl
      · rw [Function.update_of_ne hut]
        exact hI.awake u hu

/-- An unlock keeps the invariant. -/
theorem MutexInv.release (hI : MutexInv h waiting d) (hr : Release t h h')
    (hd : ∀ u, d' u = if u = t then d u - 1 else d u) : MutexInv h' waiting d' := by
  cases hr with
  | foreign ho =>
    have hd : ∀ u, d' u = d u := by
      intro u
      rw [hd]
      split_ifs with hut
      · subst hut
        rw [hI.other u ho]
      · rfl
    constructor
    · intro u hu
      rw [hd, hI.other u hu]
    · intro u hu
      rw [hd, hI.count u hu]
    · intro u hu
      rw [hd]
      exact hI.pos u hu
    · exact hI.awake
  | nested ho hc =>
    have hcount := hI.count t ho
    have hpos := hI.pos t ho
    have hne : h.count.toNat ≠ 1 := fun he => hc (BitVec.eq_of_toNat_eq he)
    have h1 : (1 : BitVec 32).toNat = 1 := rfl
    have hlt := h.count.isLt
    have hdt := hd t
    rw [if_pos rfl] at hdt
    constructor
    · intro u hu
      have hut : u ≠ t := fun he => hu (he ▸ rfl)
      rw [hd, if_neg hut]
      exact hI.other u fun he => hut (Option.some.inj (he.symm.trans ho))
    · rintro u ⟨⟩
      rw [hdt, BitVec.toNat_sub]
      omega
    · rintro u ⟨⟩
      omega
    · rintro u ⟨⟩
      exact hI.awake t ho
  | last ho hc =>
    have hcount := hI.count t ho
    rw [hc, show (1 : BitVec 32).toNat = 1 from rfl] at hcount
    have hzero : ∀ u, d' u = 0 := by
      intro u
      rw [hd]
      split_ifs with hut
      · rw [hut, hcount]
      · exact hI.other u fun he => hut (Option.some.inj (he.symm.trans ho))
    exact ⟨fun u _ => hzero u, fun u hu => by simp at hu, fun u hu => by simp at hu,
      fun u hu => by simp at hu⟩

variable {api : MutexApi α μ} {wf : μ → Prop} {tr : List (MutexEvent α)} {s s' : MutexUse α μ}

/-- **One turn**, as long as the counter does not overflow. -/
theorem MutexInv.step (hapi : api.Refines wf) (hwf : wf s.mutex)
    (hI : MutexInv (api.held s.mutex) s.waiting (depth tr)) {e : MutexEvent α}
    (hs : mutexStep api s e s') (hlt : ∀ t, depth (tr ++ [e]) t < 2 ^ 32) :
    wf s'.mutex ∧ MutexInv (api.held s'.mutex) s'.waiting (depth (tr ++ [e])) := by
  cases e with
  | lock t r =>
    obtain ⟨-, m, mutex, hl, rfl⟩ := hs
    obtain ⟨hwf', ha⟩ := hapi.lock hwf hl
    refine ⟨hwf', hI.acquire (fun ho => ?_) ha (fun u => ?_) (hlt t)⟩
    · rintro rfl
      exact ha.foreign ho
    · simp only [depth_snoc, depthStep, eq_comm (a := t)]
  | resume t r =>
    obtain ⟨hw, m, mutex, hl, rfl⟩ := hs
    have ho : (api.held s.mutex).owner ≠ some t := by
      intro ho
      rw [hI.awake t ho] at hw
      cases hw
    obtain ⟨hwf', ha⟩ := hapi.resume hwf ho hl
    refine ⟨hwf', hI.acquire (fun he => absurd he ho) ha (fun u => ?_) (hlt t)⟩
    simp only [depth_snoc, depthStep, eq_comm (a := t)]
  | trylock t r =>
    obtain ⟨hw, mutex, hl, rfl⟩ := hs
    obtain ⟨hwf', ha⟩ := hapi.trylock hwf hl
    have hsame : Function.update s.waiting t (some r).isNone = s.waiting := by
      rw [Option.isNone_some, ← hw, Function.update_eq_self]
    have hI' : MutexInv (api.held mutex) (Function.update s.waiting t (some r).isNone)
        (depth (tr ++ [.trylock t r])) := by
      refine hI.acquire (fun _ => by simp) ha (fun u => ?_) (hlt t)
      simp only [depth_snoc, depthStep, eq_comm (a := t), Option.some.injEq]
    rw [hsame] at hI'
    exact ⟨hwf', hI'⟩
  | unlock t =>
    obtain ⟨-, m, mutex, w, hl, rfl⟩ := hs
    obtain ⟨hwf', hr⟩ := hapi.unlock hwf hl
    refine ⟨hwf', hI.release hr fun u => ?_⟩
    simp only [depth_snoc, depthStep, eq_comm (a := t)]
  | sched =>
    obtain ⟨m, rfl⟩ := hs
    refine ⟨hwf, ?_⟩
    have hsame : depth (tr ++ [.sched]) = depth tr := by
      funext u
      rw [depth_snoc]
      rfl
    rwa [hsame]

theorem mutexInv_run (hapi : api.Refines wf) (h : (mutexLts api).Run tr s)
    (hd : ∀ tr', tr' <+: tr → ∀ t, depth tr' t < 2 ^ 32) :
    wf s.mutex ∧ MutexInv (api.held s.mutex) s.waiting (depth tr) := by
  induction h with
  | start h0 =>
    obtain ⟨hm, hw⟩ := h0
    obtain ⟨hwf, ho⟩ := hapi.init
    rw [hm]
    refine ⟨hwf, fun t _ => rfl, fun t ht => ?_, fun t ht => ?_, fun t _ => hw t⟩
    · rw [ho] at ht
      cases ht
    · rw [ho] at ht
      cases ht
  | @snoc tr s e s' _ hs ih =>
    obtain ⟨hwf, hI⟩ := ih fun tr' htr' => hd tr' (htr'.trans (List.prefix_append _ _))
    exact hI.step hapi hwf hs (hd _ (List.prefix_refl _))

/-- **Mutex safety.**  In any interleaving, while no task holds the mutex
    `2 ^ 32` times: at most one task holds it; the owner field is this task; the
    counter is how often it does; and an unlock by another task does nothing. -/
theorem mutex_safe (port : Port) (obj : WaitObj) {tr : List (MutexEvent α)}
    {s : MutexUse α (PortMutex port α)} (h : (mutexLts (mutexApi obj port)).Run tr s)
    (hd : ∀ tr', tr' <+: tr → ∀ t, depth tr' t < 2 ^ 32) :
    (∀ t u, 0 < depth tr t → 0 < depth tr u → t = u) ∧
      (∀ t, ((mutexApi obj port).held s.mutex).owner = some t ↔ 0 < depth tr t) ∧
      (∀ t, ((mutexApi obj port).held s.mutex).owner = some t →
        ((mutexApi obj port).held s.mutex).count.toNat = depth tr t) ∧
      ∀ t, ((mutexApi obj port).held s.mutex).owner ≠ some t →
        (mutexApi obj port).unlock s.tcb s.mutex t = (s.tcb, s.mutex, none) := by
  obtain ⟨wf, hapi⟩ := mutexApi_refines (α := α) obj port
  obtain ⟨-, hI⟩ := mutexInv_run hapi h hd
  have howner : ∀ t, ((mutexApi obj port).held s.mutex).owner = some t ↔ 0 < depth tr t := by
    intro t
    constructor
    · exact hI.pos t
    · intro hpos
      by_contra ho
      rw [hI.other t ho] at hpos
      exact absurd hpos (Nat.lt_irrefl 0)
  refine ⟨fun t u ht hu => ?_, howner, fun t ht => (hI.count t ht).symm, fun t ht => hapi.foreign ht⟩
  exact Option.some.inj (((howner t).2 ht).symm.trans ((howner u).2 hu))

/-- Task 1 waits for task 0, and task 2 takes the mutex before task 1 retries. -/
def demoBarge : List (MutexEvent (Fin 3)) :=
  [.lock 0 (some .ok), .lock 1 none, .unlock 0, .trylock 2 .ok, .resume 1 none]

theorem mutex_safe_barge : ∃ s, (mutexLts (mutexApi (.mutex 0) .arm64)).Run demoBarge s ∧
    s.mutex.owner = some 2 ∧ ∀ t, ((mutexApi (α := Fin 3) (.mutex 0) .arm64).held s.mutex).owner = some t ↔
      0 < depth demoBarge t := by
  have h₀ : (mutexLts (mutexApi (.mutex 0) .arm64)).Run ([] : List (MutexEvent (Fin 3)))
      ⟨fun _ => Tcb.zero, mutexInit, fun _ => false⟩ := .start ⟨rfl, fun _ => rfl⟩
  have h₁ := h₀.snoc (e := MutexEvent.lock 0 (some .ok)) ⟨rfl, _, _, rfl, rfl⟩
  have h₂ := h₁.snoc (e := MutexEvent.lock 1 none) ⟨rfl, _, _, rfl, rfl⟩
  have h₃ := h₂.snoc (e := MutexEvent.unlock 0) ⟨rfl, _, _, _, rfl, rfl⟩
  have h₄ := h₃.snoc (e := MutexEvent.trylock 2 .ok) ⟨rfl, _, rfl, rfl⟩
  have h₅ := h₄.snoc (e := MutexEvent.resume 1 none) ⟨rfl, _, _, rfl, rfl⟩
  refine ⟨_, h₅, rfl, (mutex_safe .arm64 (.mutex 0) h₅ fun tr' htr' t => ?_).2.1⟩
  have hlen : tr'.length ≤ 5 := htr'.length_le
  have hle := depth_le_length tr' t
  omega

end

end Gracemont
