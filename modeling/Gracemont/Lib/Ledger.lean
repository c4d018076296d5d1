/-
  Ledgers of resources that are owned and given away.

  An event of a log may acquire a resource or release one.  `track` follows how
  often a resource is owned along a log, `none` being a release of what is not
  owned.  `Transfer f g log` says that the log turns the resources `f` into the
  resources `g`, whatever else is owned: it releases nothing that is not there,
  and what it acquires it releases or leaves in `g`.

  * `Transfer.append`: logs compose;
  * `Transfer.frame`: what a log does not need stays;
  * `Transfer.count`: what there was and what is acquired is what is released
    and what remains.
-/
import Mathlib.Algebra.Group.Pi.Basic
import Mathlib.Algebra.GroupWithZero.Nat
import Mathlib.Data.List.Basic
import Mathlib.Data.Nat.Notation

namespace Lib

variable {α ε : Type*}

/-- The resources that events acquire and release. -/
structure Ledger (α ε : Type*) where
  acquire : ε → Option α
  release : ε → Option α

namespace Ledger
variable [DecidableEq α] (L : Ledger α ε)

/-- One unit of a resource. -/
def unit (a : α) : α → ℕ := Pi.single a 1

/-- How often `c` is owned after an event, if `n` times before. -/
def trackStep (c : α) (n : ℕ) (e : ε) : Option ℕ :=
  let n := if L.acquire e = some c then n + 1 else n
  if L.release e = some c then (if n = 0 then none else some (n - 1)) else some n

/-- How often `c` is owned after a log. -/
def track (c : α) : ℕ → List ε → Option ℕ
  | n, [] => some n
  | n, e :: log => (L.trackStep c n e).bind fun n => track c n log

/-- The log turns the resources `f` into `g`, whatever else is owned. -/
def Transfer (f g : α → ℕ) (log : List ε) : Prop :=
  ∀ c n, L.track c (f c + n) log = some (g c + n)

variable {L} {f g h : α → ℕ} {log log' : List ε}

theorem track_append (c : α) (n : ℕ) : L.track c n (log ++ log') =
    (L.track c n log).bind fun n => L.track c n log' := by
  induction log generalizing n with
  | nil => rfl
  | cons e log ih =>
    rw [List.cons_append, track, track]
    cases L.trackStep c n e with
    | none => rfl
    | some m => exact ih m

theorem Transfer.nil (f : α → ℕ) : L.Transfer f f [] := fun _ _ => rfl

/-- **Composition.** -/
theorem Transfer.append (h₁ : L.Transfer f g log) (h₂ : L.Transfer g h log') :
    L.Transfer f h (log ++ log') := by
  intro c n
  rw [track_append, h₁ c n]
  exact h₂ c n

/-- **Frame rule.** -/
theorem Transfer.frame (h₁ : L.Transfer f g log) (r : α → ℕ) :
    L.Transfer (f + r) (g + r) log := by
  intro c n
  rw [Pi.add_apply, Pi.add_apply, Nat.add_assoc, Nat.add_assoc]
  exact h₁ c (r c + n)

theorem Transfer.acquire {e : ε} {a : α} (ha : L.acquire e = some a) (hr : L.release e = none) :
    L.Transfer 0 (unit a) [e] := by
  intro c n
  by_cases hc : a = c
  · subst hc
    simp [track, trackStep, ha, hr, unit, Nat.add_comm]
  · simp [track, trackStep, ha, hr, unit, hc, Ne.symm hc]

theorem Transfer.release {e : ε} {a : α} (ha : L.acquire e = none) (hr : L.release e = some a) :
    L.Transfer (unit a) 0 [e] := by
  intro c n
  by_cases hc : a = c
  · subst hc
    simp [track, trackStep, ha, hr, unit, Nat.add_comm]
  · simp [track, trackStep, ha, hr, unit, hc, Ne.symm hc]

/-- What an event acquires and releases. -/
theorem trackStep_count {c : α} {n m : ℕ} {e : ε} (hm : L.trackStep c n e = some m) :
    n + (if L.acquire e = some c then 1 else 0) = m + (if L.release e = some c then 1 else 0) := by
  unfold trackStep at hm
  by_cases ha : L.acquire e = some c
  · by_cases hr : L.release e = some c
    · simp only [ha, hr, if_true, Nat.add_one_ne_zero, if_false] at hm ⊢
      obtain rfl := Option.some.inj hm
      omega
    · simp only [ha, hr, if_true, if_false] at hm ⊢
      obtain rfl := Option.some.inj hm
      omega
  · by_cases hr : L.release e = some c
    · by_cases hn : n = 0
      · simp [ha, hr, hn] at hm
      · simp only [ha, hr, hn, if_true, if_false] at hm ⊢
        obtain rfl := Option.some.inj hm
        omega
    · simp only [ha, hr, if_false] at hm ⊢
      obtain rfl := Option.some.inj hm
      omega

theorem track_count {c : α} {n m : ℕ} (hm : L.track c n log = some m) :
    n + log.countP (fun e => L.acquire e = some c) =
      m + log.countP (fun e => L.release e = some c) := by
  induction log generalizing n with
  | nil =>
    cases hm
    rfl
  | cons e log ih =>
    obtain ⟨k, hk, hm⟩ := Option.bind_eq_some_iff.1 hm
    have hstep := trackStep_count hk
    have hlog := ih hm
    simp only [List.countP_cons, decide_eq_true_eq]
    omega

/-- **Balance.** -/
theorem Transfer.count (h₁ : L.Transfer f g log) (c : α) :
    f c + log.countP (fun e => L.acquire e = some c) =
      g c + log.countP (fun e => L.release e = some c) := track_count (h₁ c 0)

end Ledger

end Lib
