/-
  Intrusive singly linked lists, walked by a pointer to a pointer.

  Nodes are addresses `α` with a `next` pointer.  A *place* is where a pointer
  of the list is stored: `none` is the head variable, `some x` the `next` field
  of the node `x`.

  * `Span next head l r`: the nodes of `l` are linked in order from the pointer
    `head` on, and `r` is the pointer behind them;
  * `Path next head l`: the null-terminated list `l` reached from `head`.

  A walk over the nodes `a` ends at the place `a.getLast?`; storing a pointer
  there replaces what follows (`Path.splice`).
-/
import Mathlib.Data.List.Nodup
import Gracemont.Lib.Store

namespace Lib

variable {α : Type*} {next next' : α → Option α} {head r : Option α}

/-- The nodes of `l` are linked in order from `head`, and `r` follows. -/
def Span (next : α → Option α) : Option α → List α → Option α → Prop
  | head, [], r => head = r
  | head, x :: l, r => head = some x ∧ Span next (next x) l r

/-- The null-terminated list `l` reached from `head`. -/
def Path (next : α → Option α) (head : Option α) (l : List α) : Prop := Span next head l none

/-- The pointer stored at a place. -/
def pointerAt (next : α → Option α) (head : Option α) : Option α → Option α
  | none => head
  | some x => next x

/-- The head variable after storing `v` at a place. -/
def setHead (head : Option α) (place v : Option α) : Option α :=
  match place with
  | none => v
  | some _ => head

@[simp] theorem setHead_none (v : Option α) : setHead head none v = v := rfl

@[simp] theorem setHead_some (x : α) (v : Option α) : setHead head (some x) v = head := rfl

@[simp] theorem span_nil : Span next head [] r ↔ head = r := Iff.rfl

@[simp] theorem span_cons (x : α) (l : List α) :
    Span next head (x :: l) r ↔ head = some x ∧ Span next (next x) l r := Iff.rfl

theorem span_append {a b : List α} : Span next head (a ++ b) r ↔
    ∃ m, Span next head a m ∧ Span next m b r := by
  induction a generalizing head with
  | nil => simp
  | cons x a ih => simp only [List.cons_append, span_cons, ih, and_assoc, exists_and_left]

/-- **Frame.**  A span only depends on the pointers of its own nodes. -/
theorem Span.congr {l : List α} (h : Span next head l r) (hn : ∀ x ∈ l, next' x = next x) :
    Span next' head l r := by
  induction l generalizing head with
  | nil => exact h
  | cons x l ih =>
    obtain ⟨h1, h2⟩ := h
    refine ⟨h1, ?_⟩
    rw [hn x (by simp)]
    exact ih h2 fun y hy => hn y (by simp [hy])

theorem Path.congr {l : List α} (h : Path next head l) (hn : ∀ x ∈ l, next' x = next x) :
    Path next' head l := Span.congr h hn

theorem Path.head_eq {l : List α} (h : Path next head l) : head = l.head? := by
  cases l with
  | nil => exact h
  | cons x l => exact h.1

/-- **The nodes of a list are determined by its head.** -/
theorem Path.unique {l l' : List α} (h : Path next head l) (h' : Path next head l') : l = l' := by
  induction l generalizing head l' with
  | nil =>
    obtain rfl : head = none := h
    cases l' with
    | nil => rfl
    | cons y l' => cases h'.1
  | cons x l ih =>
    obtain ⟨rfl, h⟩ := h
    cases l' with
    | nil => cases h'
    | cons y l' =>
      obtain ⟨hxy, h'⟩ := h'
      obtain rfl := Option.some.inj hxy
      rw [ih h h']

/-- **A null-terminated list is acyclic.** -/
theorem Path.nodup {l : List α} (h : Path next head l) : l.Nodup := by
  induction l generalizing head with
  | nil => exact List.nodup_nil
  | cons x l ih =>
    have hx : Path next (some x) (x :: l) := ⟨rfl, h.2⟩
    refine List.nodup_cons.2 ⟨fun hm => ?_, ih h.2⟩
    obtain ⟨a, b, rfl⟩ := List.append_of_mem hm
    obtain ⟨m, -, h2⟩ := span_append.1 h.2
    have hb : Path next (some x) (x :: b) := ⟨rfl, h2.2⟩
    have hlen := congrArg List.length (hb.unique hx)
    simp only [List.length_cons, List.length_append] at hlen
    omega

/-- What a walk over `a` finds. -/
theorem Path.pointerAt {a b : List α} (h : Path next head (a ++ b)) :
    pointerAt next head a.getLast? = b.head? := by
  rcases List.eq_nil_or_concat a with rfl | ⟨i, x, rfl⟩
  · exact h.head_eq
  · rw [List.concat_eq_append, List.append_assoc] at h
    obtain ⟨m, -, -, h2⟩ := span_append.1 h
    rw [List.concat_eq_append, List.getLast?_concat]
    exact Path.head_eq h2

section
variable [DecidableEq α] {head' : Option α}

/-- **Pushing** a node that is not in the list. -/
theorem Path.push {l : List α} {x : α} (h : Path next head l) (hx : x ∉ l) :
    Path (Function.update next x head) (some x) (x :: l) := by
  refine ⟨rfl, ?_⟩
  rw [Function.update_self]
  exact h.congr fun y hy => Function.update_of_ne (ne_of_mem_of_not_mem hy hx) ..

/-- **A list whose node `x` is pushed onto another one** goes on with that one. -/
theorem Path.redirect {l m : List α} {x : α} (h : Path next head l) (hm : Path next head' m)
    (hx : x ∉ m) :
    ∃ l', Path (Function.update next x head') head l' ∧ ∀ y ∈ l', y ∈ l ∨ y ∈ m := by
  by_cases hxl : x ∈ l
  · obtain ⟨a, b, rfl⟩ := List.append_of_mem hxl
    have hxa : x ∉ a := by
      intro hmem
      exact (List.nodup_append.1 h.nodup).2.2 x hmem x List.mem_cons_self rfl
    obtain ⟨p, ha, rfl, -⟩ := span_append.1 h
    refine ⟨a ++ x :: m, span_append.2 ⟨some x, ?_, hm.push hx⟩, ?_⟩
    · exact ha.congr fun y hy => Function.update_of_ne (ne_of_mem_of_not_mem hy hxa) ..
    · intro y hy
      rcases List.mem_append.1 hy with hy | hy
      · exact .inl (List.mem_append_left _ hy)
      rcases List.mem_cons.1 hy with rfl | hy
      · exact .inl hxl
      · exact .inr hy
  · refine ⟨l, ?_, fun y hy => .inl hy⟩
    exact h.congr fun y hy => Function.update_of_ne (ne_of_mem_of_not_mem hy hxl) ..

/-- **Splicing.**  Storing `v` behind `a` replaces the nodes after `a` by those
    reached from `v`. -/
theorem Path.splice {a b c : List α} {v : Option α} (h : Path next head (a ++ b))
    (hc : Path next v c) (hac : ∀ x, a.getLast? = some x → x ∉ c) :
    Path (setAt next a.getLast? v) (setHead head a.getLast? v) (a ++ c) := by
  rcases List.eq_nil_or_concat a with rfl | ⟨i, x, rfl⟩
  · exact hc
  · rw [List.concat_eq_append] at h hac ⊢
    have hnd := h.nodup
    rw [List.getLast?_concat, setAt_some, setHead_some]
    have hxi : x ∉ i := by
      intro hm
      have hdup := (List.nodup_append.1 (List.nodup_append.1 hnd).1).2.2 x hm x (by simp)
      exact hdup rfl
    rw [List.append_assoc] at h ⊢
    obtain ⟨m, h1, rfl, -⟩ := span_append.1 h
    refine span_append.2 ⟨some x, h1.congr fun y hy => ?_, rfl, ?_⟩
    · exact Function.update_of_ne (ne_of_mem_of_not_mem hy hxi) ..
    · rw [Function.update_self]
      refine Span.congr hc fun y hy => ?_
      have hne : y ≠ x := fun he => hac x List.getLast?_concat (he ▸ hy)
      exact Function.update_of_ne hne ..

/-- **Removal** of the node behind `a`. -/
theorem Path.remove {a b : List α} {x : α} (h : Path next head (a ++ x :: b)) :
    Path (setAt next a.getLast? (next x)) (setHead head a.getLast? (next x)) (a ++ b) := by
  obtain ⟨m, -, -, hb⟩ := span_append.1 h
  refine h.splice hb fun y hy hm => ?_
  exact (List.nodup_append.1 h.nodup).2.2 y (List.mem_of_getLast? hy) y
    (List.mem_cons_of_mem x hm) rfl

/-- **Insertion** of a node behind `a`. -/
theorem Path.insert {a b : List α} {x : α} (h : Path next head (a ++ b)) (hx : x ∉ a ++ b) :
    Path (setAt (Function.update next x b.head?) a.getLast? (some x))
      (setHead head a.getLast? (some x)) (a ++ x :: b) := by
  have hne : ∀ y ∈ a ++ b, Function.update next x b.head? y = next y := by
    intro y hy
    exact Function.update_of_ne (ne_of_mem_of_not_mem hy hx) ..
  obtain ⟨m, -, hb⟩ := span_append.1 h
  obtain rfl : m = b.head? := Path.head_eq hb
  have hb' : Path (Function.update next x b.head?) (some x) (x :: b) := by
    refine ⟨rfl, ?_⟩
    rw [Function.update_self]
    exact hb.congr fun y hy => hne y (List.mem_append_right a hy)
  refine Path.splice (h.congr hne) hb' fun y hy hm => ?_
  have hya := List.mem_of_getLast? hy
  rcases List.mem_cons.1 hm with rfl | hm
  · exact hx (List.mem_append_left b hya)
  · exact (List.nodup_append.1 h.nodup).2.2 y hya y hm rfl

end

end Lib
