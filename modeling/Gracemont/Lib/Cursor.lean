/-
  Loops over the records of a region.

  The loop `while (more(c)) { a = f(a, c); c = next(c); }` moves a cursor from
  record to record, each of which tells where the next one is, and works on
  `a`.  `Visits` lists the places of the cursor; the loop returns exactly if
  there is such a list, and then with `f` applied along it (`returns_iff`).  No
  place is visited twice, so that a bounded number of steps tells whether there
  is a list (`visits_iff_iterate`).  `logged` adds a log of what `f` reads.
-/
import Mathlib.Data.List.Nodup
import Mathlib.Data.List.Perm.Subperm
import Mathlib.Logic.Function.Iterate
import Gracemont.Lib.Loop

namespace Lib

namespace Cursor
variable {κ γ : Type*} (more : κ → Bool) (next : κ → κ) (f : γ → κ → γ)

/-- The body of the loop, as one of `Loop.run`. -/
def body (s : κ × γ) : κ × γ ⊕ γ := if more s.1 then .inl (next s.1, f s.2 s.1) else .inr s.2

/-- The cursor is at the places of `l`, in order, before there is no more. -/
inductive Visits : κ → List κ → Prop
  | stop {c : κ} (h : more c = false) : Visits c []
  | visit {c : κ} {l : List κ} (h : more c = true) (hl : Visits (next c) l) : Visits c (c :: l)

variable {more next f} {c : κ} {a b : γ} {l : List κ}

theorem Visits.returns (h : Visits more next c l) :
    Loop.Returns (body more next f) (c, a) (l.foldl f a) := by
  induction h generalizing a with
  | stop hc => exact .of_inr (by simp [body, hc])
  | @visit c l hc _ ih => exact .of_inl (t := (next c, f a c)) (by simp [body, hc]) ih

/-- A loop that stops has come to a list of places. -/
theorem visits_of_run {fuel : ℕ} (h : Loop.run (body more next f) fuel (c, a) = some b) :
    ∃ l, Visits more next c l := by
  induction fuel generalizing c a with
  | zero => cases h
  | succ fuel ih =>
    unfold Loop.run body at h
    cases hc : more c with
    | false => exact ⟨[], .stop hc⟩
    | true =>
      simp only [hc, if_true] at h
      obtain ⟨l, hl⟩ := ih h
      exact ⟨c :: l, .visit hc hl⟩

/-- **What the loop returns.** -/
theorem returns_iff : Loop.Returns (body more next f) (c, a) b ↔
    ∃ l, Visits more next c l ∧ l.foldl f a = b := by
  constructor
  · rintro ⟨fuel, h⟩
    obtain ⟨l, hl⟩ := visits_of_run h
    exact ⟨l, hl, (hl.returns.eq_of_run h).symm⟩
  · rintro ⟨l, hl, rfl⟩
    exact hl.returns

/-! ## Places -/

theorem Visits.more_of_mem (h : Visits more next c l) : ∀ x ∈ l, more x = true := by
  induction h with
  | stop => nofun
  | visit hc _ ih => exact List.forall_mem_cons.2 ⟨hc, ih⟩

theorem Visits.unique {l' : List κ} (h : Visits more next c l) (h' : Visits more next c l') :
    l = l' := by
  induction h generalizing l' with
  | stop hc =>
    cases h' with
    | stop => rfl
    | visit hc' => exact absurd (hc.symm.trans hc') (by decide)
  | visit hc _ ih =>
    cases h' with
    | stop hc' => exact absurd (hc'.symm.trans hc) (by decide)
    | visit _ ht => rw [ih ht]

/-- The loop goes on from every place that it visits. -/
theorem Visits.of_mem (h : Visits more next c l) {x : κ} (hx : x ∈ l) :
    ∃ l', Visits more next x l' ∧ l'.length ≤ l.length := by
  induction h with
  | stop => cases hx
  | @visit c l hc hl ih =>
    rcases List.mem_cons.1 hx with rfl | hx
    · exact ⟨_, .visit hc hl, Nat.le_refl _⟩
    · obtain ⟨l', hl', hle⟩ := ih hx
      exact ⟨l', hl', Nat.le_succ_of_le hle⟩

/-- **No place is visited twice.** -/
theorem Visits.nodup (h : Visits more next c l) : l.Nodup := by
  induction h with
  | stop => exact List.nodup_nil
  | @visit c l hc hl ih =>
    refine List.nodup_cons.2 ⟨fun hmem => ?_, ih⟩
    obtain ⟨l', hl', hle⟩ := hl.of_mem hmem
    rw [← (Visits.visit hc hl).unique hl', List.length_cons] at hle
    omega

/-- The places that are visited are few, if there are few that are not the end. -/
theorem Visits.length_le (h : Visits more next c l) {val : κ → ℕ} (hval : val.Injective) {n : ℕ}
    (hn : ∀ x, more x = true → val x < n) : l.length ≤ n := by
  have hsub : l.map val ⊆ List.range n := by
    intro k hk
    obtain ⟨x, hx, rfl⟩ := List.mem_map.1 hk
    exact List.mem_range.2 (hn x (h.more_of_mem x hx))
  have hle := ((h.nodup.map hval).subperm hsub).length_le
  rwa [List.length_map, List.length_range] at hle

/-- **The loop ends** exactly if some step does. -/
theorem visits_iff_iterate {P : κ → Prop} {n : ℕ} :
    (∃ l, Visits more next c l ∧ l.length = n ∧ ∀ x ∈ l, P x) ↔
      more (next^[n] c) = false ∧ ∀ m < n, more (next^[m] c) = true ∧ P (next^[m] c) := by
  induction n generalizing c with
  | zero =>
    constructor
    · rintro ⟨l, hl, hlen, -⟩
      obtain rfl := List.eq_nil_of_length_eq_zero hlen
      cases hl with
      | stop hc => exact ⟨hc, nofun⟩
    · rintro ⟨hc, -⟩
      exact ⟨[], .stop hc, rfl, nofun⟩
  | succ n ih =>
    constructor
    · rintro ⟨l, hl, hlen, hP⟩
      cases hl with
      | stop => cases hlen
      | @visit _ l hc hl =>
        rw [List.forall_mem_cons] at hP
        obtain ⟨hend, hsteps⟩ := ih.1 ⟨l, hl, Nat.succ.inj hlen, hP.2⟩
        refine ⟨hend, fun m hm => ?_⟩
        cases m with
        | zero => exact ⟨hc, hP.1⟩
        | succ m => exact hsteps m (Nat.lt_of_succ_lt_succ hm)
    · rintro ⟨hend, hsteps⟩
      obtain ⟨l, hl, hlen, hP⟩ := ih.2 ⟨hend, fun m hm => hsteps (m + 1) (Nat.succ_lt_succ hm)⟩
      obtain ⟨hc, hPc⟩ := hsteps 0 (Nat.succ_pos n)
      exact ⟨c :: l, .visit hc hl, congrArg Nat.succ hlen, List.forall_mem_cons.2 ⟨hPc, hP⟩⟩

/-! ## Logs -/

section
variable {ρ : Type*} (f) (reads : κ → List ρ)

/-- A body that also keeps a log of what it reads at each place. -/
def logged (s : γ × List ρ) (c : κ) : γ × List ρ := (f s.1 c, s.2 ++ reads c)

variable {f reads}

theorem foldl_logged (l : List κ) (a : γ) (log : List ρ) :
    l.foldl (logged f reads) (a, log) = (l.foldl f a, log ++ l.flatMap reads) := by
  induction l generalizing a log with
  | nil => simp
  | cons c l ih =>
    rw [List.foldl_cons, List.flatMap_cons, ← List.append_assoc]
    exact ih _ _

/-- The log does not change what the loop does. -/
theorem run_logged (fuel : ℕ) (c : κ) (a : γ) (log : List ρ) :
    (Loop.run (body more next (logged f reads)) fuel (c, (a, log))).map Prod.fst =
      Loop.run (body more next f) fuel (c, a) := by
  induction fuel generalizing c a log with
  | zero => rfl
  | succ fuel ih =>
    unfold Loop.run body
    cases more c with
    | false => rfl
    | true => exact ih _ _ _

theorem run_logged_isSome (fuel : ℕ) (c : κ) (a : γ) (log : List ρ) :
    (Loop.run (body more next (logged f reads)) fuel (c, (a, log))).isSome =
      (Loop.run (body more next f) fuel (c, a)).isSome := by
  rw [← run_logged fuel c a log, Option.isSome_map]

end

end Cursor

end Lib
