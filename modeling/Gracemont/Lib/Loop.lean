/-
  Loops with fuel.

  The body of a loop maps the variables to new variables (`inl`) or leaves the
  loop with a result (`inr`).  `Loop.run` iterates it a bounded number of times,
  `none` being the exhaustion of the bound; `Loop.Returns` is the existence of
  a bound that suffices.  `Loop.collect` is a loop over a list that collects
  results.
-/
import Mathlib.Data.Nat.Notation

namespace Lib

namespace Loop
variable {σ β : Type*}

/-- At most `fuel` iterations of `body`. -/
def run (body : σ → σ ⊕ β) : ℕ → σ → Option β
  | 0, _ => none
  | fuel + 1, s => match body s with
    | .inl s' => run body fuel s'
    | .inr b => some b

/-- The loop entered in `s` terminates with `b`. -/
def Returns (body : σ → σ ⊕ β) (s : σ) (b : β) : Prop := ∃ fuel, run body fuel s = some b

variable {body : σ → σ ⊕ β} {s t : σ} {b b' : β}

theorem Returns.of_inr (h : body s = .inr b) : Returns body s b := ⟨1, by simp [run, h]⟩

theorem Returns.of_inl (h : body s = .inl t) (hr : Returns body t b) : Returns body s b := by
  obtain ⟨fuel, hf⟩ := hr
  exact ⟨fuel + 1, by simp [run, h, hf]⟩

/-- **Invariant rule.** -/
theorem run_rule {I : σ → Prop} {Q : β → Prop} (hstep : ∀ s t, I s → body s = .inl t → I t)
    (hend : ∀ s b, I s → body s = .inr b → Q b) {fuel : ℕ} (h : run body fuel s = some b)
    (hs : I s) : Q b := by
  induction fuel generalizing s with
  | zero => cases h
  | succ fuel ih =>
    unfold run at h
    cases hb : body s with
    | inl t => rw [hb] at h; exact ih h (hstep s t hs hb)
    | inr b' => rw [hb] at h; cases h; exact hend s b hs hb

/-- **More fuel does not change the result.** -/
theorem run_mono {n m : ℕ} (h : run body n s = some b) (hnm : n ≤ m) : run body m s = some b := by
  induction n generalizing s m with
  | zero => cases h
  | succ n ih =>
    obtain ⟨m, rfl⟩ : ∃ k, m = k + 1 := ⟨m - 1, by omega⟩
    unfold run at h ⊢
    cases hb : body s with
    | inl s' => rw [hb] at h; exact ih h (by omega)
    | inr b' => rw [hb] at h; exact h

/-- **The result of a loop is unique.** -/
theorem run_unique {n m : ℕ} (h : run body n s = some b) (h' : run body m s = some b') :
    b = b' := by
  rcases Nat.le_total n m with hnm | hnm
  · exact Option.some.inj ((run_mono h hnm).symm.trans h')
  · exact (Option.some.inj ((run_mono h' hnm).symm.trans h)).symm

theorem Returns.eq_of_run (h : Returns body s b) {n : ℕ} (h' : run body n s = some b') : b' = b := by
  obtain ⟨m, hm⟩ := h
  exact run_unique h' hm

/-- A loop that comes to the same state does not end. -/
theorem run_of_fixed (h : body s = .inl s) (n : ℕ) : run body n s = none := by
  induction n with
  | zero => rfl
  | succ n ih =>
    rw [run, h]
    exact ih

/-! ## Lists of inputs -/

section
variable {ι τ : Type*} (f : σ → ι → σ × τ)

/-- Handling inputs one after the other: the state that they leave, and a result
    for each. -/
def collect : σ → List ι → σ × List τ
  | s, [] => (s, [])
  | s, a :: l => ((collect (f s a).1 l).1, (f s a).2 :: (collect (f s a).1 l).2)

@[simp] theorem collect_length (s : σ) (l : List ι) : (collect f s l).2.length = l.length := by
  induction l generalizing s with
  | nil => rfl
  | cons a l ih => exact congrArg Nat.succ (ih _)

variable {f} in
/-- Inputs that leave the state. -/
theorem collect_keep {s : σ} {l : List ι} (h : ∀ a ∈ l, (f s a).1 = s) : (collect f s l).1 = s := by
  induction l with
  | nil => rfl
  | cons a l ih =>
    rw [collect, h a (List.mem_cons_self ..)]
    exact ih fun b hb => h b (List.mem_cons_of_mem _ hb)

variable {f} in
/-- Their results are those in that state. -/
theorem collect_keep_snd {s : σ} {l : List ι} (h : ∀ a ∈ l, (f s a).1 = s) :
    (collect f s l).2 = l.map fun a => (f s a).2 := by
  induction l with
  | nil => rfl
  | cons a l ih =>
    rw [collect, h a (List.mem_cons_self ..), List.map_cons,
      ih fun b hb => h b (List.mem_cons_of_mem _ hb)]

end

/-! ## Assignments -/

section
variable {ι γ : Type*}

/-- The last value that a partial function has on a list. -/
def lastSome (f : ι → Option γ) : List ι → Option γ
  | [] => none
  | a :: l => (lastSome f l).orElse fun _ => f a

variable {f : ι → Option γ}

/-- **Assigning in a loop** leaves the last value, or the first if there is none. -/
theorem foldl_getD (f : ι → Option γ) (v : γ) (l : List ι) :
    l.foldl (fun v a => (f a).getD v) v = (lastSome f l).getD v := by
  induction l generalizing v with
  | nil => rfl
  | cons a l ih =>
    rw [List.foldl_cons, ih, lastSome]
    cases lastSome f l with
    | none => rfl
    | some w => rfl

theorem lastSome_eq_none {l : List ι} : lastSome f l = none ↔ ∀ a ∈ l, f a = none := by
  induction l with
  | nil => simp [lastSome]
  | cons a l ih =>
    rw [lastSome, List.forall_mem_cons, ← ih]
    cases lastSome f l with
    | none => simp
    | some w => simp

theorem lastSome_eq_some {l : List ι} {w : γ} (h : lastSome f l = some w) :
    ∃ a ∈ l, f a = some w := by
  induction l with
  | nil => cases h
  | cons a l ih =>
    rw [lastSome] at h
    cases hl : lastSome f l with
    | none =>
      rw [hl] at h
      exact ⟨a, List.mem_cons_self .., h⟩
    | some v =>
      rw [hl] at h
      obtain ⟨b, hb, hfb⟩ := ih (hl.trans h)
      exact ⟨b, List.mem_cons_of_mem _ hb, hfb⟩

theorem lastSome_congr {f' : ι → Option γ} {l : List ι} (h : ∀ a ∈ l, f' a = f a) :
    lastSome f' l = lastSome f l := by
  induction l with
  | nil => rfl
  | cons a l ih =>
    rw [lastSome, lastSome, h a (List.mem_cons_self ..),
      ih fun b hb => h b (List.mem_cons_of_mem _ hb)]

theorem lastSome_map {ι' : Type*} (g : ι' → ι) (l : List ι') :
    lastSome f (l.map g) = lastSome (fun a => f (g a)) l := by
  induction l with
  | nil => rfl
  | cons a l ih => rw [List.map_cons, lastSome, lastSome, ih]

theorem lastSome_option_map {γ' : Type*} (g : γ → γ') (l : List ι) :
    lastSome (fun a => (f a).map g) l = (lastSome f l).map g := by
  induction l with
  | nil => rfl
  | cons a l ih =>
    rw [lastSome, lastSome, ih]
    cases lastSome f l with
    | none => rfl
    | some w => rfl

end

end Loop

end Lib
