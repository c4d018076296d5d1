/-
  Memories of records.

  A memory of records of type `β` at the addresses `α` is a function; `modify`
  assigns to fields of the record at an address, `modifyAt` through a pointer
  that may be null.  A field of the whole memory is the function `m.field g`.
-/
import Mathlib.Logic.Function.Basic

namespace Lib

/-- Assignment to a value of a function through a pointer, unless it is null. -/
def setAt {α γ : Type*} [DecidableEq α] (f : α → γ) (i : Option α) (v : γ) : α → γ :=
  match i with
  | none => f
  | some x => Function.update f x v

section
variable {α γ : Type*} [DecidableEq α]

@[simp] theorem setAt_none (f : α → γ) (v : γ) : setAt f none v = f := rfl

@[simp] theorem setAt_some (f : α → γ) (x : α) (v : γ) :
    setAt f (some x) v = Function.update f x v := rfl

theorem setAt_of_ne (f : α → γ) {i : Option α} {x : α} (h : i ≠ some x) (v : γ) :
    setAt f i v x = f x := by
  cases i with
  | none => rfl
  | some y => exact Function.update_of_ne (fun he => h (by rw [he])) ..

end

/-- A memory of records. -/
abbrev Store (α β : Type*) := α → β

namespace Store
variable {α β γ : Type*}

/-- One field of all records. -/
def field (m : Store α β) (g : β → γ) : α → γ := fun x => g (m x)

@[simp] theorem field_apply (m : Store α β) (g : β → γ) (x : α) : m.field g x = g (m x) := rfl

variable [DecidableEq α]

/-- Assignment to fields of the record at `t`. -/
def modify (m : Store α β) (t : α) (f : β → β) : Store α β := Function.update m t (f (m t))

/-- Assignment through a pointer, unless it is null. -/
def modifyAt (m : Store α β) (p : Option α) (f : β → β) : Store α β :=
  match p with
  | none => m
  | some t => m.modify t f

theorem modify_apply (m : Store α β) (t x : α) (f : β → β) :
    m.modify t f x = if x = t then f (m t) else m x := by
  simp [modify, Function.update_apply]

@[simp] theorem modify_self (m : Store α β) (t : α) (f : β → β) : m.modify t f t = f (m t) := by
  simp [modify]

@[simp] theorem modify_of_ne (m : Store α β) {t x : α} (h : x ≠ t) (f : β → β) :
    m.modify t f x = m x := by simp [modify, h]

@[simp] theorem modify_modify (m : Store α β) (t : α) (f g : β → β) :
    (m.modify t f).modify t g = m.modify t fun c => g (f c) := by
  simp [modify]

@[simp] theorem modifyAt_none (m : Store α β) (f : β → β) : m.modifyAt none f = m := rfl

@[simp] theorem modifyAt_some (m : Store α β) (t : α) (f : β → β) :
    m.modifyAt (some t) f = m.modify t f := rfl

theorem modifyAt_of_ne (m : Store α β) {p : Option α} {x : α} (h : p ≠ some x) (f : β → β) :
    m.modifyAt p f x = m x := by
  cases p with
  | none => rfl
  | some t => exact m.modify_of_ne (fun he : x = t => h (he ▸ rfl)) f

/-- An assignment that keeps a field of the record keeps it everywhere. -/
theorem modify_field (g : β → γ) (m : Store α β) (t : α) {f : β → β} (h : g (f (m t)) = g (m t))
    (x : α) : g (m.modify t f x) = g (m x) := by
  by_cases hx : x = t
  · subst hx; simpa using h
  · rw [modify_of_ne _ hx]

theorem modifyAt_field (g : β → γ) (m : Store α β) (p : Option α) {f : β → β}
    (h : ∀ c, g (f c) = g c) (x : α) : g (m.modifyAt p f x) = g (m x) := by
  cases p with
  | none => rfl
  | some t => exact m.modify_field g t (h _) x

/-- A field of the memory after an assignment. -/
@[simp] theorem field_modify (g : β → γ) (m : Store α β) (t : α) (f : β → β) :
    (m.modify t f).field g = Function.update (m.field g) t (g (f (m t))) := by
  funext x
  by_cases h : x = t
  · subst h; simp [field]
  · simp [field, h]

theorem field_modifyAt (g : β → γ) (m : Store α β) (p : Option α) {f : β → β} {v : γ}
    (h : ∀ c, g (f c) = v) : (m.modifyAt p f).field g = setAt (m.field g) p v := by
  cases p with
  | none => rfl
  | some t => rw [modifyAt_some, field_modify, h, setAt_some]

@[simp high] theorem field_modify_same (g : β → γ) (m : Store α β) (t : α) {f : β → β}
    (h : ∀ c, g (f c) = g c) : (m.modify t f).field g = m.field g :=
  funext (m.modify_field g t (h _))

@[simp] theorem field_modifyAt_same (g : β → γ) (m : Store α β) (p : Option α) {f : β → β}
    (h : ∀ c, g (f c) = g c) : (m.modifyAt p f).field g = m.field g :=
  funext (m.modifyAt_field g p h)

end Store

end Lib
