/-
  Programs that ask a question and wait for the answer.

  A dialogue asks questions of type `Q`, each of which is answered by an `A` or
  fails with an `E`, makes outputs of type `O`, and returns an `α` or throws an
  `E`.  It is run with anything that answers questions, from a state of its own.

  * `run`, `run_bind`, `run_tryCatch`: the runs;
  * `run_congr`: two sides that answer alike cannot be told apart;
  * `asked_lt`: what grows with every question;
  * `Insists`: the dialogues that ask a fixed list of questions and throw at the
    first answer that is not good; `Insists.run_good`, `Insists.run_bad` and
    their variants for the questions asked say what becomes of them.
-/
import Mathlib.Data.Nat.Notation
import Mathlib.Tactic.Cases

namespace Lib

inductive Dialogue (Q A O E α : Type) where
  | pure (a : α)
  | throw (e : E)
  | ask (q : Q) (k : Except E A → Dialogue Q A O E α)
  | tell (o : O) (d : Dialogue Q A O E α)

namespace Dialogue
variable {Q A O E α β σ τ : Type}

def bind : Dialogue Q A O E α → (α → Dialogue Q A O E β) → Dialogue Q A O E β
  | pure a, f => f a
  | throw e, _ => throw e
  | ask q k, f => ask q fun x => (k x).bind f
  | tell o d, f => tell o (d.bind f)

def tryCatch : Dialogue Q A O E α → (E → Dialogue Q A O E α) → Dialogue Q A O E α
  | pure a, _ => pure a
  | throw e, h => h e
  | ask q k, h => ask q fun x => (k x).tryCatch h
  | tell o d, h => tell o (d.tryCatch h)

instance : Monad (Dialogue Q A O E) where
  pure := pure
  bind := bind
  map g d := d.bind fun a => pure (g a)

instance : MonadExceptOf E (Dialogue Q A O E) where
  throw := throw
  tryCatch := tryCatch

/-- Ask, and throw where the question fails. -/
def await (q : Q) : Dialogue Q A O E A :=
  ask q fun
    | .ok a => pure a
    | .error e => throw e

/-- Make an output. -/
def say (o : O) : Dialogue Q A O E Unit := tell o (pure ())

/-! ## Runs -/

section
variable (f : σ → Q → σ × Except E A)

/-- The state of the other side, the outputs and the result. -/
def run : σ → Dialogue Q A O E α → σ × List O × Except E α
  | s, pure a => (s, [], .ok a)
  | s, throw e => (s, [], .error e)
  | s, ask q k => run (f s q).1 (k (f s q).2)
  | s, tell o d => ((run s d).1, o :: (run s d).2.1, (run s d).2.2)

/-- The questions of a run, each with the state of the other side. -/
def asked : σ → Dialogue Q A O E α → List (σ × Q)
  | _, pure _ => []
  | _, throw _ => []
  | s, ask q k => (s, q) :: asked (f s q).1 (k (f s q).2)
  | s, tell _ d => asked s d

/-- The states in which the questions of a list are asked, and the last one. -/
def replay : σ → List Q → List (σ × Q) × σ
  | s, [] => ([], s)
  | s, q :: qs => ((s, q) :: (replay (f s q).1 qs).1, (replay (f s q).1 qs).2)

end

section
variable {f : σ → Q → σ × Except E A}

@[simp] theorem run_pure (s : σ) (a : α) :
    run f s (Pure.pure a : Dialogue Q A O E α) = (s, [], .ok a) := rfl

@[simp] theorem asked_pure (s : σ) (a : α) :
    asked f s (Pure.pure a : Dialogue Q A O E α) = [] := rfl

theorem run_bind (s : σ) (d : Dialogue Q A O E α) (g : α → Dialogue Q A O E β) :
    run f s (d >>= g) =
      match run f s d with
      | (s', os, .ok a) => ((run f s' (g a)).1, os ++ (run f s' (g a)).2.1, (run f s' (g a)).2.2)
      | (s', os, .error e) => (s', os, .error e) := by
  change run f s (d.bind g) = _
  induction d generalizing s with
  | pure a => rfl
  | throw e => rfl
  | ask q k ih => exact ih _ _
  | tell o d ih =>
    rw [bind, run, ih, run]
    rcases run f s d with ⟨s', os, _ | a⟩ <;> rfl

theorem run_tryCatch (s : σ) (d : Dialogue Q A O E α) (h : E → Dialogue Q A O E α) :
    run f s (tryCatch d h) =
      match run f s d with
      | (s', os, .ok a) => (s', os, .ok a)
      | (s', os, .error e) =>
        ((run f s' (h e)).1, os ++ (run f s' (h e)).2.1, (run f s' (h e)).2.2) := by
  induction d generalizing s with
  | pure a => rfl
  | throw e => rfl
  | ask q k ih => exact ih _ _
  | tell o d ih =>
    rw [tryCatch, run, ih, run]
    rcases run f s d with ⟨s', os, _ | a⟩ <;> rfl

theorem asked_bind (s : σ) (d : Dialogue Q A O E α) (g : α → Dialogue Q A O E β) :
    asked f s (d >>= g) = asked f s d ++
      match run f s d with
      | (s', _, .ok a) => asked f s' (g a)
      | (_, _, .error _) => [] := by
  change asked f s (d.bind g) = _
  induction d generalizing s with
  | pure a => rfl
  | throw e => rfl
  | ask q k ih => exact congrArg _ (ih _ _)
  | tell o d ih =>
    rw [bind, asked, ih, run]
    rcases run f s d with ⟨s', os, _ | a⟩ <;> rfl

theorem asked_tryCatch (s : σ) (d : Dialogue Q A O E α) (h : E → Dialogue Q A O E α) :
    asked f s (tryCatch d h) = asked f s d ++
      match run f s d with
      | (_, _, .ok _) => []
      | (s', _, .error e) => asked f s' (h e) := by
  induction d generalizing s with
  | pure a => rfl
  | throw e => rfl
  | ask q k ih => exact congrArg _ (ih _ _)
  | tell o d ih =>
    rw [tryCatch, asked, ih, run]
    rcases run f s d with ⟨s', os, _ | a⟩ <;> rfl

/-- Two sides that answer each question of a run alike lead to the same run. -/
theorem run_congr {g : τ → Q → τ × Except E A} {R : σ → τ → Prop} {s : σ} {t : τ}
    (d : Dialogue Q A O E α) (h0 : R s t)
    (hstep : ∀ v ∈ asked f s d, ∀ t, R v.1 t →
      R (f v.1 v.2).1 (g t v.2).1 ∧ (f v.1 v.2).2 = (g t v.2).2) :
    R (run f s d).1 (run g t d).1 ∧ (run f s d).2 = (run g t d).2 := by
  induction d generalizing s t with
  | pure a => exact ⟨h0, rfl⟩
  | throw e => exact ⟨h0, rfl⟩
  | ask q k ih =>
    obtain ⟨hR, heq⟩ := hstep (s, q) List.mem_cons_self t h0
    have hrun := ih (f s q).2 hR fun v hv => hstep v (List.mem_cons_of_mem _ hv)
    rw [run, run, ← heq]
    exact hrun
  | tell o d ih =>
    obtain ⟨hR, heq⟩ := ih h0 hstep
    refine ⟨hR, ?_⟩
    rw [run, run, heq]

/-- What grows with every question is greater after a run than at any question
    of it. -/
theorem asked_lt {m : σ → ℕ} (h : ∀ s q, m s < m (f s q).1) (s : σ) (d : Dialogue Q A O E α) :
    m s ≤ m (run f s d).1 ∧ ∀ v ∈ asked f s d, m v.1 < m (run f s d).1 := by
  induction d generalizing s with
  | pure a => exact ⟨Nat.le_refl _, fun v hv => by cases hv⟩
  | throw e => exact ⟨Nat.le_refl _, fun v hv => by cases hv⟩
  | ask q k ih =>
    obtain ⟨hle, hlt⟩ := ih (f s q).2 (f s q).1
    have hs : m s < m (run f s (.ask q k)).1 := Nat.lt_of_lt_of_le (h s q) hle
    refine ⟨Nat.le_of_lt hs, fun v hv => ?_⟩
    rcases List.mem_cons.1 hv with rfl | hv
    · exact hs
    · exact hlt v hv
  | tell o d ih => exact ih s

end

/-! ## Insisting on good answers -/

/-- The dialogue asks the questions of the list in order, and throws at the
    first one whose answer is not good. -/
inductive Insists (good : A → Prop) : List Q → Dialogue Q A O E α → Prop
  | pure (a : α) : Insists good [] (pure a)
  | ask {q : Q} {qs : List Q} {k : Except E A → Dialogue Q A O E α}
      (hgood : ∀ a, good a → Insists good qs (k (.ok a)))
      (hbad : ∀ x, (∀ a, x = .ok a → ¬good a) → ∃ e, k x = throw e) :
      Insists good (q :: qs) (ask q k)
  | tell {o : O} {qs : List Q} {d : Dialogue Q A O E α} (h : Insists good qs d) :
      Insists good qs (tell o d)

/-- An answer that is good. -/
def Good (good : A → Prop) (x : Except E A) : Prop := ∃ a, x = .ok a ∧ good a

section
variable {good : A → Prop} {qs qs' : List Q} {d : Dialogue Q A O E α} {g : α → Dialogue Q A O E β}

theorem Insists.bind (h : Insists good qs d) (hg : ∀ a, Insists good qs' (g a)) :
    Insists good (qs ++ qs') (d >>= g) := by
  change Insists good (qs ++ qs') (d.bind g)
  induction h with
  | pure a => exact hg a
  | ask hgood hbad ih =>
    refine .ask (fun a ha => ih a ha) fun x hx => ?_
    obtain ⟨e, he⟩ := hbad x hx
    exact ⟨e, by rw [he]; rfl⟩
  | tell _ ih => exact .tell ih

/-- With no more questions after `d`. -/
theorem Insists.bind_nil (h : Insists good qs d) (hg : ∀ a, Insists good [] (g a)) :
    Insists good qs (d >>= g) := by
  have hbind := h.bind hg
  rwa [List.append_nil] at hbind

theorem Insists.map (h : Insists good qs d) (m : α → β) : Insists good qs (m <$> d) :=
  h.bind_nil fun a => .pure (m a)

theorem Insists.say (o : O) : Insists good [] (say o : Dialogue Q A O E Unit) := .tell (.pure ())

/-- One question, after which nothing but the result depends on the answer. -/
theorem Insists.await {q : Q} {f : A → Dialogue Q A O E β}
    (hgood : ∀ a, good a → Insists good qs (f a)) (hbad : ∀ a, ¬good a → ∃ e, f a = throw e) :
    Insists good (q :: qs) (Dialogue.await q >>= f) := by
  refine .ask (fun a ha => hgood a ha) fun x hx => ?_
  cases x with
  | ok a => exact hbad a (hx a rfl)
  | error e => exact ⟨e, rfl⟩

theorem Insists.foldlM {ι : Type} {l : List ι} {step : α → ι → Dialogue Q A O E α}
    {ask : ι → List Q} (h : ∀ a, ∀ i ∈ l, Insists good (ask i) (step a i)) (a : α) :
    Insists good (l.flatMap ask) (l.foldlM step a) := by
  induction l generalizing a with
  | nil => exact .pure a
  | cons i l ih =>
    rw [List.flatMap_cons, List.foldlM_cons]
    exact (h a i List.mem_cons_self).bind fun a' =>
      ih (fun a i hi => h a i (List.mem_cons_of_mem _ hi)) a'

theorem Insists.forM {ι : Type} {l : List ι} {step : ι → Dialogue Q A O E Unit}
    {ask : ι → List Q} (h : ∀ i ∈ l, Insists good (ask i) (step i)) :
    Insists good (l.flatMap ask) (l.forM step) := by
  induction l with
  | nil => exact .pure ()
  | cons i l ih =>
    rw [List.flatMap_cons]
    exact (h i List.mem_cons_self).bind fun _ => ih fun i hi => h i (List.mem_cons_of_mem _ hi)

variable {f : σ → Q → σ × Except E A}

/-- If every answer is good, all questions are asked and the dialogue returns. -/
theorem Insists.run_good (h : Insists good qs d) {s : σ}
    (hall : ∀ v ∈ (replay f s qs).1, Good good (f v.1 v.2).2) :
    asked f s d = (replay f s qs).1 ∧ ∃ os a, run f s d = ((replay f s qs).2, os, .ok a) := by
  induction h generalizing s with
  | pure a => exact ⟨rfl, [], a, rfl⟩
  | @ask q qs k _ _ ih =>
    obtain ⟨a, ha, hgood⟩ := hall (s, q) List.mem_cons_self
    obtain ⟨hasked, hrun⟩ := ih a hgood fun v hv => hall v (List.mem_cons_of_mem _ hv)
    refine ⟨?_, ?_⟩
    · rw [asked, ha, hasked]; rfl
    · rw [run, ha]
      exact hrun
  | @tell o qs d _ ih =>
    obtain ⟨hasked, os, a, hrun⟩ := ih hall
    refine ⟨hasked, o :: os, a, ?_⟩
    rw [run, hrun]

/-- If some answer is not good, the dialogue throws, and asks no more. -/
theorem Insists.run_bad (h : Insists good qs d) {s : σ}
    (hbad : ¬∀ v ∈ (replay f s qs).1, Good good (f v.1 v.2).2) :
    ∃ e, (run f s d).2.2 = .error e := by
  induction h generalizing s with
  | pure a => exact absurd (fun v hv => by cases hv) hbad
  | @ask q qs k _ hthrow ih =>
    by_cases hq : Good good (f s q).2
    · obtain ⟨a, ha, hgood⟩ := hq
      rw [run, ha]
      refine ih a hgood fun hall => hbad fun v hv => ?_
      rcases List.mem_cons.1 hv with rfl | hv
      · exact ⟨a, ha, hgood⟩
      · exact hall v hv
    · obtain ⟨e, he⟩ := hthrow (f s q).2 fun a ha hgood => hq ⟨a, ha, hgood⟩
      rw [run, he]
      exact ⟨e, rfl⟩
  | tell _ ih => exact ih hbad

/-- If every question of the run gets a good answer, these are all the questions and
    the dialogue returns. -/
theorem Insists.asked_good (h : Insists good qs d) {s : σ}
    (hall : ∀ v ∈ asked f s d, Good good (f v.1 v.2).2) :
    (asked f s d).map Prod.snd = qs ∧ ∃ a, (run f s d).2.2 = .ok a := by
  induction h generalizing s with
  | pure a => exact ⟨rfl, a, rfl⟩
  | @ask q qs k _ _ ih =>
    obtain ⟨a, ha, hgood⟩ := hall (s, q) List.mem_cons_self
    have hrest := ih a hgood (s := (f s q).1) fun v hv =>
      hall v (List.mem_cons_of_mem _ (by rwa [ha]))
    rw [asked, run, ha, List.map_cons, hrest.1]
    exact ⟨rfl, hrest.2⟩
  | tell _ ih => exact ih hall

/-- The question with an answer that is not good is the last one, and the dialogue
    throws. -/
theorem Insists.asked_bad (h : Insists good qs d) {s : σ} {i : ℕ} {v : σ × Q}
    (hv : (asked f s d)[i]? = some v) (hbad : ¬Good good (f v.1 v.2).2) :
    (asked f s d).length = i + 1 ∧ ∃ e, (run f s d).2.2 = .error e := by
  induction h generalizing s i with
  | pure a => cases hv
  | @ask q qs k _ hthrow ih =>
    by_cases hq : Good good (f s q).2
    · obtain ⟨a, ha, hgood⟩ := hq
      rw [asked, ha] at hv ⊢
      rw [run, ha]
      cases i with
      | zero =>
        cases hv
        exact absurd ⟨a, ha, hgood⟩ hbad
      | succ i =>
        obtain ⟨hlen, hrun⟩ := ih a hgood hv
        exact ⟨congrArg (· + 1) hlen, hrun⟩
    · obtain ⟨e, he⟩ := hthrow (f s q).2 fun a ha hgood => hq ⟨a, ha, hgood⟩
      rw [asked, he] at hv ⊢
      rw [run, he]
      cases i with
      | zero => exact ⟨rfl, e, rfl⟩
      | succ i => cases hv
  | tell _ ih => exact ih hv

/-- In every run the questions are the first ones of the list. -/
theorem Insists.asked_prefix (h : Insists good qs d) (s : σ) :
    (asked f s d).map Prod.snd <+: qs := by
  induction h generalizing s with
  | pure a => exact List.nil_prefix
  | @ask q qs k _ hthrow ih =>
    refine List.prefix_cons_inj q |>.2 ?_
    by_cases hq : Good good (f s q).2
    · obtain ⟨a, ha, hgood⟩ := hq
      rw [ha]
      exact ih a hgood _
    · obtain ⟨e, he⟩ := hthrow (f s q).2 fun a ha hgood => hq ⟨a, ha, hgood⟩
      rw [he]
      exact List.nil_prefix
  | tell _ ih => exact ih s

/-- The first question is always asked. -/
theorem Insists.asked_head {q : Q} (h : Insists good (q :: qs) d) (s : σ) :
    (s, q) ∈ asked f s d := by
  generalize hl : q :: qs = l at h
  induction h with
  | pure a => cases hl
  | ask _ _ _ =>
    cases hl
    exact List.mem_cons_self
  | tell _ ih => exact ih hl

/-- One question is asked in the first state. -/
theorem Insists.asked_single {q : Q} (h : Insists good [q] d) (s : σ) : asked f s d = [(s, q)] := by
  have hhead := h.asked_head (f := f) s
  have hlen := (h.asked_prefix (f := f) s).length_le
  rw [List.length_map] at hlen
  match asked f s d, hhead, hlen with
  | [v], hhead, _ => rw [List.mem_singleton.1 hhead]

end

end Dialogue

end Lib
