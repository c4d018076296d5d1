/-
  Labelled transition systems and their runs.

  A run is a trace of events (oldest first) leading from an initial state to
  the state reached.  `Run.rule` is the invariant rule: a property of trace
  and state that holds initially and is preserved by every step holds at the
  end of every run.

  `track` keeps a ghost beside the state, and `history` the steps of the run: a
  law of steps is one of the history of every run.  `Stays` is a run on from a
  state as long as a condition holds.
-/
import Mathlib.Data.List.Induction

namespace Lib

/-- A labelled transition system. -/
structure Lts (σ ε : Type*) where
  init : σ → Prop
  step : σ → ε → σ → Prop

namespace Lts
variable {σ ε : Type*} {T : Lts σ ε}

/-- The trace `tr` leads from an initial state to `s`. -/
inductive Run (T : Lts σ ε) : List ε → σ → Prop
  | start {s : σ} : T.init s → Run T [] s
  | snoc {tr : List ε} {s : σ} {e : ε} {s' : σ} :
      Run T tr s → T.step s e s' → Run T (tr ++ [e]) s'

/-- A state is reachable if some run ends in it. -/
def Reachable (T : Lts σ ε) (s : σ) : Prop := ∃ tr, T.Run tr s

/-- **Invariant rule.** -/
theorem Run.rule {P : List ε → σ → Prop} (h0 : ∀ s, T.init s → P [] s)
    (hstep : ∀ tr s e s', P tr s → T.step s e s' → P (tr ++ [e]) s') {tr : List ε} {s : σ}
    (h : T.Run tr s) : P tr s := by
  induction h with
  | start h => exact h0 _ h
  | snoc _ hs ih => exact hstep _ _ _ _ ih hs

/-- The runs of `T` whose steps all meet the condition `ok`. -/
def restrict (T : Lts σ ε) (ok : σ → ε → Prop) : Lts σ ε :=
  ⟨T.init, fun s e s' => ok s e ∧ T.step s e s'⟩

/-- A run of a system is a run of any system with more steps. -/
theorem Run.mono {T' : Lts σ ε} (h0 : ∀ s, T.init s → T'.init s)
    (hstep : ∀ s e s', T.step s e s' → T'.step s e s') {tr : List ε} {s : σ} (h : T.Run tr s) :
    T'.Run tr s := by
  induction h with
  | start h => exact .start (h0 _ h)
  | snoc _ hs ih => exact .snoc ih (hstep _ _ _ hs)

theorem Run.of_restrict {ok : σ → ε → Prop} {tr : List ε} {s : σ} (h : (T.restrict ok).Run tr s) :
    T.Run tr s := by
  induction h with
  | start h => exact .start h
  | snoc _ hs ih => exact .snoc ih hs.2

/-- **Rule for conditions on steps.**  If a step from a state that meets an
    invariant keeps the invariant, and keeps `P` exactly if it meets `ok`, then
    `P` holds at the end of a run exactly if all its steps meet `ok`. -/
theorem Run.iff_restrict {I P : σ → Prop} {ok : σ → ε → Prop} (h0 : ∀ s, T.init s → I s ∧ P s)
    (hstep : ∀ s e s', I s → T.step s e s' → I s' ∧ (P s' ↔ P s ∧ ok s e)) {tr : List ε} {s : σ}
    (h : T.Run tr s) : P s ↔ (T.restrict ok).Run tr s := by
  constructor
  · intro hP
    induction h with
    | start h => exact .start h
    | snoc hrun hs ih =>
      have hI := hrun.rule (P := fun _ s => I s) (fun s h => (h0 s h).1)
        fun _ s e s' hI hs => (hstep s e s' hI hs).1
      obtain ⟨hbefore, hok⟩ := (hstep _ _ _ hI hs).2.1 hP
      exact .snoc (ih hbefore) ⟨hok, hs⟩
  · intro hrun
    refine (hrun.rule (P := fun _ s => I s ∧ P s) ?_ ?_).2
    · exact h0
    · rintro tr s e s' ⟨hI, hP⟩ ⟨hok, hs⟩
      obtain ⟨hI', hiff⟩ := hstep s e s' hI hs
      exact ⟨hI', hiff.2 ⟨hP, hok⟩⟩

/-- Two conditions that say the same of steps from states that meet an invariant,
    when the steps that meet the second one keep it. -/
theorem restrict_iff {I : σ → Prop} {ok ok' : σ → ε → Prop} (h0 : ∀ s, T.init s → I s)
    (hstep : ∀ s e s', I s → T.step s e s' → (ok s e ↔ ok' s e) ∧ (ok' s e → I s'))
    {tr : List ε} {s : σ} :
    ((T.restrict ok).Run tr s ↔ (T.restrict ok').Run tr s) ∧
      ((T.restrict ok').Run tr s → I s) := by
  have hinv : ∀ {tr s}, (T.restrict ok').Run tr s → I s := by
    intro tr s h
    refine h.rule (P := fun _ s => I s) ?_ ?_
    · exact h0
    · rintro tr s e s' hI ⟨hok, hs⟩
      exact (hstep s e s' hI hs).2 hok
  refine ⟨⟨fun h => ?_, fun h => ?_⟩, hinv⟩
  · induction h with
    | start h => exact .start h
    | snoc _ hs ih => exact .snoc ih ⟨(hstep _ _ _ (hinv ih) hs.2).1.1 hs.1, hs.2⟩
  · induction h with
    | start h => exact .start h
    | snoc hrun hs ih => exact .snoc ih ⟨(hstep _ _ _ (hinv hrun) hs.2).1.2 hs.1, hs.2⟩

/-- **Simulation.**  If related states have related successors, a run of `T` is
    a run of `T'`, and ends in related states. -/
theorem Run.simulate {σ' : Type*} {T' : Lts σ' ε} {R : σ → σ' → Prop}
    (h0 : ∀ s, T.init s → ∃ a, T'.init a ∧ R s a)
    (hstep : ∀ s a e s', R s a → T.step s e s' → ∃ a', T'.step a e a' ∧ R s' a') {tr : List ε}
    {s : σ} (h : T.Run tr s) : ∃ a, T'.Run tr a ∧ R s a := by
  induction h with
  | start h =>
    obtain ⟨a, ha, hR⟩ := h0 _ h
    exact ⟨a, .start ha, hR⟩
  | snoc _ hs ih =>
    obtain ⟨a, ha, hR⟩ := ih
    obtain ⟨a', ha', hR'⟩ := hstep _ _ _ _ hR hs
    exact ⟨a', .snoc ha ha', hR'⟩

/-! ## Waiting -/

/-- The trace `tr` leads from `s` to `s'` through states that meet `P`. -/
inductive Stays (T : Lts σ ε) (P : σ → Prop) (s : σ) : List ε → σ → Prop
  | start : P s → Stays T P s [] s
  | snoc {tr : List ε} {s₁ : σ} {e : ε} {s₂ : σ} :
      Stays T P s tr s₁ → T.step s₁ e s₂ → P s₂ → Stays T P s (tr ++ [e]) s₂

/-- **Rule for waiting.** -/
theorem Stays.rule {P : σ → Prop} {I : List ε → σ → Prop} {s : σ} (h0 : P s → I [] s)
    (hstep : ∀ tr s₁ e s₂, P s₁ → I tr s₁ → T.step s₁ e s₂ → P s₂ → I (tr ++ [e]) s₂) {tr : List ε}
    {s' : σ} (h : T.Stays P s tr s') : P s' ∧ I tr s' := by
  induction h with
  | start h => exact ⟨h, h0 h⟩
  | snoc _ hs hP ih => exact ⟨hP, hstep _ _ _ _ ih.1 ih.2 hs hP⟩

/-! ## Ghosts -/

/-- `T` with a ghost beside its state, which nothing in `T` depends on. -/
def track {γ : Type*} (T : Lts σ ε) (start : σ → γ) (next : σ → ε → σ → γ → γ) : Lts (σ × γ) ε where
  init p := T.init p.1 ∧ p.2 = start p.1
  step p e p' := T.step p.1 e p'.1 ∧ p'.2 = next p.1 e p'.1 p.2

theorem track_init {γ : Type*} (start : σ → γ) (next : σ → ε → σ → γ → γ) {s : σ} (h : T.init s) :
    (T.track start next).init (s, start s) := ⟨h, rfl⟩

theorem track_step {γ : Type*} {start : σ → γ} {next : σ → ε → σ → γ → γ} {s s' : σ} {e : ε}
    (h : T.step s e s') (g : γ) : (T.track start next).step (s, g) e (s', next s e s' g) := ⟨h, rfl⟩

theorem Run.start_track {γ : Type*} (start : σ → γ) (next : σ → ε → σ → γ → γ) {s : σ}
    (h : T.init s) : (T.track start next).Run [] (s, start s) := .start (track_init start next h)

theorem Run.snoc_track {γ : Type*} {start : σ → γ} {next : σ → ε → σ → γ → γ} {tr : List ε} {s : σ}
    {g : γ} (h : (T.track start next).Run tr (s, g)) {e : ε} {s' : σ} (hs : T.step s e s') :
    (T.track start next).Run (tr ++ [e]) (s', next s e s' g) := h.snoc (track_step hs g)

/-- Every run has its ghost. -/
theorem Run.exists_track {γ : Type*} (start : σ → γ) (next : σ → ε → σ → γ → γ) {tr : List ε} {s : σ}
    (h : T.Run tr s) : ∃ g, (T.track start next).Run tr (s, g) := by
  induction h with
  | start h => exact ⟨_, .start_track start next h⟩
  | snoc _ hs ih =>
    obtain ⟨g, hg⟩ := ih
    exact ⟨_, hg.snoc_track hs⟩

/-- **Invariant rule** for a state and its ghost. -/
theorem Run.track_rule {γ : Type*} {start : σ → γ} {next : σ → ε → σ → γ → γ} {P : σ → γ → Prop}
    (h0 : ∀ s, T.init s → P s (start s))
    (hstep : ∀ s g e s', P s g → T.step s e s' → P s' (next s e s' g)) {tr : List ε} {s : σ} {g : γ}
    (h : (T.track start next).Run tr (s, g)) : P s g := by
  have hinv := h.rule (P := fun _ p => P p.1 p.2) ?_ ?_
  · exact hinv
  · intro p hp
    rw [hp.2]
    exact h0 _ hp.1
  · intro tr p e p' hs hp
    rw [hp.2]
    exact hstep _ _ _ _ hs hp.1

/-- `T` with the steps of the run so far: the state before, the event and the
    state after. -/
def history (T : Lts σ ε) : Lts (σ × List (σ × ε × σ)) ε :=
  T.track (fun _ => []) fun s e s' steps => steps ++ [(s, e, s')]

theorem Run.start_history {s : σ} (h : T.init s) : T.history.Run [] (s, []) := .start_track _ _ h

theorem Run.snoc_history {tr : List ε} {s s' : σ} {e : ε} {steps : List (σ × ε × σ)}
    (h : T.history.Run tr (s, steps)) (hs : T.step s e s') :
    T.history.Run (tr ++ [e]) (s', steps ++ [(s, e, s')]) := h.snoc_track hs

theorem Run.exists_history {tr : List ε} {s : σ} (h : T.Run tr s) :
    ∃ steps, T.history.Run tr (s, steps) := h.exists_track _ _

/-- **Rule for steps.**  A law of the steps from states that meet an invariant
    holds of every step of every run. -/
theorem Run.history_rule {I : σ → Prop} {P : σ → ε → σ → Prop} (h0 : ∀ s, T.init s → I s)
    (hstep : ∀ s e s', I s → T.step s e s' → I s' ∧ P s e s') {tr : List ε} {s : σ}
    {steps : List (σ × ε × σ)} (h : T.history.Run tr (s, steps)) :
    I s ∧ ∀ w ∈ steps, P w.1 w.2.1 w.2.2 := by
  have hinv := h.track_rule (P := fun s steps => I s ∧ ∀ w ∈ steps, P w.1 w.2.1 w.2.2) ?_ ?_
  · exact hinv
  · intro s hs
    exact ⟨h0 s hs, fun w hw => by cases hw⟩
  · rintro s steps e s' ⟨hI, hsteps⟩ hs
    obtain ⟨hI', hP⟩ := hstep s e s' hI hs
    refine ⟨hI', fun w hw => ?_⟩
    rcases List.mem_append.1 hw with hold | hnew
    · exact hsteps w hold
    · rw [List.mem_singleton.1 hnew]
      exact hP

/-! ## Executions -/

/-- The system of a partial step function. -/
def ofFun (init : σ → Prop) (f : σ → ε → Option σ) : Lts σ ε :=
  ⟨init, fun s e s' => f s e = some s'⟩

/-- Executing a list of events. -/
def exec (f : σ → ε → Option σ) (s : σ) (es : List ε) : Option σ := es.foldlM f s

theorem exec_concat {f : σ → ε → Option σ} {s s' : σ} {es : List ε} {e : ε} :
    exec f s (es ++ [e]) = some s' ↔ ∃ s₁, exec f s es = some s₁ ∧ f s₁ e = some s' := by
  simp [exec, List.foldlM_append, Option.bind_eq_some_iff]

theorem run_exec {init : σ → Prop} {f : σ → ε → Option σ} {s s' : σ} {es : List ε} (h0 : init s)
    (h : exec f s es = some s') : (ofFun init f).Run es s' := by
  induction es using List.reverseRecOn generalizing s' with
  | nil => cases h; exact .start h0
  | append_singleton es e ih =>
    obtain ⟨s₁, h1, h2⟩ := exec_concat.1 h
    exact .snoc (ih h1) h2

theorem run_exec_get {init : σ → Prop} {f : σ → ε → Option σ} {s : σ} {es : List ε} (h0 : init s)
    (h : (exec f s es).isSome) : (ofFun init f).Run es ((exec f s es).get h) :=
  run_exec h0 (Option.some_get h).symm

/-- Executing events through states that meet a condition. -/
theorem stays_exec {init : σ → Prop} {f : σ → ε → Option σ} {P : σ → Prop} {ok : σ → ε → Prop}
    {s s' : σ} {es : List ε} (h : exec f s es = some s') (hok : ∀ s, ∀ e ∈ es, ok s e)
    (hP : ∀ i ≤ es.length, P ((exec f s (es.take i)).getD s)) :
    ((ofFun init f).restrict ok).Stays P s es s' := by
  induction es using List.reverseRecOn generalizing s' with
  | nil =>
    cases h
    exact .start (hP 0 (Nat.le_refl 0))
  | append_singleton es e ih =>
    obtain ⟨s₁, h1, h2⟩ := exec_concat.1 h
    refine .snoc (ih h1 (fun s e he => hok s e (by simp [he])) fun i hi => ?_)
      ⟨hok _ e (by simp), h2⟩ ?_
    · have hstate := hP i (by simp; omega)
      rwa [List.take_append_of_le_length hi] at hstate
    · have hstate := hP (es ++ [e]).length (Nat.le_refl _)
      rwa [List.take_length, h] at hstate

/-- Executing events that meet a condition in the states they meet. -/
theorem run_exec_restrict {init : σ → Prop} {f : σ → ε → Option σ} {ok : σ → ε → Prop} {s s' : σ}
    {es : List ε} (h0 : init s) (h : exec f s es = some s')
    (hok : ∀ i (hi : i < es.length), ok ((exec f s (es.take i)).getD s) es[i]) :
    ((ofFun init f).restrict ok).Run es s' := by
  induction es using List.reverseRecOn generalizing s' with
  | nil => cases h; exact .start h0
  | append_singleton es e ih =>
    obtain ⟨s₁, h1, h2⟩ := exec_concat.1 h
    refine .snoc (ih h1 fun i hi => ?_) ⟨?_, h2⟩
    · have := hok i (by simp; omega)
      rwa [List.take_append_of_le_length (by omega), List.getElem_append_left hi] at this
    · have := hok es.length (by simp)
      rw [List.take_left, h1] at this
      simpa using this

/-- Executions of a step function whose steps are steps of `T`. -/
theorem run_of_exec {f : σ → ε → Option σ} (hf : ∀ s e s', f s e = some s' → T.step s e s')
    {s s' : σ} {es : List ε} (h0 : T.init s) (h : exec f s es = some s') : T.Run es s' := by
  have hrun : (ofFun T.init f).Run es s' := run_exec h0 h
  refine hrun.mono ?_ ?_
  · intro s hs
    exact hs
  · intro s e s' hs
    exact hf s e s' hs

theorem run_of_exec_restrict {f : σ → ε → Option σ}
    (hf : ∀ s e s', f s e = some s' → T.step s e s') {ok : σ → ε → Prop} {s s' : σ} {es : List ε}
    (h0 : T.init s) (h : exec f s es = some s')
    (hok : ∀ i (hi : i < es.length), ok ((exec f s (es.take i)).getD s) es[i]) :
    (T.restrict ok).Run es s' := by
  have hrun : ((ofFun T.init f).restrict ok).Run es s' := run_exec_restrict h0 h hok
  refine hrun.mono ?_ ?_
  · intro s hs
    exact hs
  · intro s e s' hs
    exact ⟨hs.1, hf s e s' hs.2⟩

/-- A step function with the ghost. -/
def trackFun {γ : Type*} (f : σ → ε → Option σ) (next : σ → ε → σ → γ → γ) (p : σ × γ) (e : ε) :
    Option (σ × γ) := (f p.1 e).map fun s' => (s', next p.1 e s' p.2)

theorem run_of_exec_track {γ : Type*} {start : σ → γ} {next : σ → ε → σ → γ → γ}
    {f : σ → ε → Option σ} (hf : ∀ s e s', f s e = some s' → T.step s e s') {s : σ} {p : σ × γ}
    {es : List ε} (h0 : T.init s) (h : exec (trackFun f next) (s, start s) es = some p) :
    (T.track start next).Run es p := by
  refine run_of_exec ?_ (track_init start next h0) h
  intro p e p' hp
  obtain ⟨s', hs', rfl⟩ := Option.map_eq_some_iff.1 hp
  exact track_step (hf _ _ _ hs') p.2

/-- Executing events that meet a condition in the states and ghosts they meet. -/
theorem run_exec_track {γ : Type*} {start : σ → γ} {next : σ → ε → σ → γ → γ}
    {f : σ → ε → Option σ} {ok : σ × γ → ε → Prop} (hf : ∀ s e s', f s e = some s' → T.step s e s')
    {s : σ} {p : σ × γ} {es : List ε} (h0 : T.init s)
    (h : exec (trackFun f next) (s, start s) es = some p)
    (hok : ∀ i (hi : i < es.length),
      ok ((exec (trackFun f next) (s, start s) (es.take i)).getD (s, start s)) es[i]) :
    ((T.track start next).restrict ok).Run es p := by
  refine run_of_exec_restrict ?_ (track_init start next h0) h hok
  intro p e p' hp
  obtain ⟨s', hs', rfl⟩ := Option.map_eq_some_iff.1 hp
  exact track_step (hf _ _ _ hs') p.2

end Lts

end Lib
