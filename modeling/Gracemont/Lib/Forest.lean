/-
  Forests linked by a first child and a next sibling.

  Nodes are addresses `α` with two pointers.  `Represents` relates a pointer to
  the forest reached from it, which the memory shares with nothing else if the
  nodes are distinct.

  * `nodes`: depth first, a node before its children before its siblings;
  * `Represents.search`: a depth-first search, of bounded depth, finds the first
    of these nodes;
  * `Represents.push`: a new first child of a node.
-/
import Mathlib.Data.List.Nodup
import Mathlib.Logic.Function.Basic

namespace Lib

/-- A forest: a first node, the forest of its children and that of its siblings. -/
inductive Forest (α : Type*) where
  | nil
  | node (a : α) (children siblings : Forest α)

namespace Forest
variable {α : Type*}

/-- The nodes of a forest, depth first. -/
def nodes : Forest α → List α
  | nil => []
  | node a children siblings => a :: (children.nodes ++ siblings.nodes)

/-- The forest reached from a pointer. -/
def Represents (child next : α → Option α) : Option α → Forest α → Prop
  | p, nil => p = none
  | p, node a children siblings =>
    p = some a ∧ Represents child next (child a) children ∧ Represents child next (next a) siblings

/-- A depth-first search, to a depth of calls. -/
def search (child next : α → Option α) (P : α → Bool) : ℕ → Option α → Option α
  | 0, _ => none
  | _ + 1, none => none
  | depth + 1, some a =>
    if P a then some a
    else match search child next P depth (child a) with
      | some found => some found
      | none => search child next P depth (next a)

variable {child next child' next' : α → Option α} {p : Option α} {t : Forest α}

/-- **Frame.**  A forest only depends on the pointers of its own nodes. -/
theorem Represents.congr (h : Represents child next p t)
    (heq : ∀ a ∈ t.nodes, child' a = child a ∧ next' a = next a) : Represents child' next' p t := by
  induction t generalizing p with
  | nil => exact h
  | node a children siblings ihc ihs =>
    obtain ⟨hp, hc, hs⟩ := h
    obtain ⟨hca, hna⟩ := heq a (List.mem_cons_self ..)
    refine ⟨hp, ?_, ?_⟩
    · rw [hca]
      refine ihc hc fun b hb => heq b ?_
      exact List.mem_cons_of_mem _ (List.mem_append_left _ hb)
    · rw [hna]
      refine ihs hs fun b hb => heq b ?_
      exact List.mem_cons_of_mem _ (List.mem_append_right _ hb)

/-- **Searching** to a depth beyond the number of nodes finds the first node. -/
theorem Represents.search (h : Represents child next p t) (P : α → Bool) {depth : ℕ}
    (hd : t.nodes.length < depth) : Forest.search child next P depth p = t.nodes.find? P := by
  induction t generalizing p depth with
  | nil =>
    cases h
    cases depth with
    | zero => rfl
    | succ depth => rfl
  | node a children siblings ihc ihs =>
    obtain ⟨rfl, hc, hs⟩ := h
    rw [nodes, List.length_cons, List.length_append] at hd
    cases depth with
    | zero => omega
    | succ depth =>
      rw [Forest.search, nodes, List.find?_cons, List.find?_append, ihc hc (by omega),
        ihs hs (by omega)]
      cases P a with
      | true => rfl
      | false => cases List.find? P children.nodes <;> rfl

section
variable [DecidableEq α]

/-- `a` as the first child of the node `parent`. -/
def push (parent a : α) : Forest α → Forest α
  | nil => nil
  | node b children siblings =>
    if b = parent then node b (node a nil children) siblings
    else node b (children.push parent a) (siblings.push parent a)

theorem mem_push {parent a b : α} :
    b ∈ (t.push parent a).nodes ↔ b ∈ t.nodes ∨ (b = a ∧ parent ∈ t.nodes) := by
  induction t with
  | nil => simp [push, nodes]
  | node c children siblings ihc ihs =>
    rw [push]
    split_ifs with hc
    · have hmem : parent ∈ (node c children siblings).nodes := hc ▸ List.mem_cons_self ..
      rw [and_iff_left hmem]
      simp only [nodes, List.nil_append, List.cons_append, List.mem_cons]
      exact ⟨fun h => h.elim (fun hb => .inl (.inl hb))
        (fun h => h.elim .inr fun h => .inl (.inr h)),
        fun h => h.elim (fun h => h.elim .inl fun h => .inr (.inr h)) fun h => .inr (.inl h)⟩
    · have hne : parent ≠ c := fun he => hc he.symm
      simp only [nodes, List.mem_cons, List.mem_append, ihc, ihs, hne, false_or, and_or_left]
      rw [or_or_or_comm, ← or_assoc]

theorem push_nodup {parent a : α} (h : t.nodes.Nodup) (ha : a ∉ t.nodes) :
    (t.push parent a).nodes.Nodup := by
  induction t with
  | nil => exact h
  | node c children siblings ihc ihs =>
    simp only [nodes, List.nodup_cons, List.nodup_append, List.mem_cons, List.mem_append,
      not_or] at h ha
    obtain ⟨⟨hcc, hcs⟩, hc, hs, hdisj⟩ := h
    obtain ⟨hac, hachildren, hasiblings⟩ := ha
    rw [push]
    split_ifs with he
    · simp only [nodes, List.nil_append, List.nodup_cons, List.nodup_append, List.mem_cons,
        List.mem_append, List.cons_append, not_or]
      refine ⟨⟨fun h => hac h.symm, hcc, hcs⟩, ⟨hachildren, hasiblings⟩, hc, hs, hdisj⟩
    · simp only [nodes, List.nodup_cons, List.nodup_append, List.mem_append, mem_push, not_or]
      refine ⟨⟨⟨hcc, fun h => hac h.1.symm⟩, hcs, fun h => hac h.1.symm⟩, ihc hc hachildren,
        ihs hs hasiblings, ?_⟩
      -- the parent is on one side only
      rintro x (hx | ⟨rfl, hx⟩) y (hy | ⟨rfl, hy⟩)
      · exact hdisj x hx y hy
      · rintro rfl
        exact hachildren hx
      · rintro rfl
        exact hasiblings hy
      · exact fun _ => hdisj _ hx _ hy rfl

/-- **Pushing a child**: the pointers of the parent and of the new node. -/
theorem Represents.push (h : Represents child next p t) (hnd : t.nodes.Nodup) {parent a : α}
    (ha : a ∉ t.nodes) (hpa : parent ≠ a) (hchild : child' a = none) (hnext : next' a = child parent)
    (hparent : child' parent = some a) (hnextp : next' parent = next parent)
    (hframe : ∀ b, b ≠ a → b ≠ parent → child' b = child b ∧ next' b = next b) :
    Represents child' next' p (t.push parent a) := by
  induction t generalizing p with
  | nil => exact h
  | node b children siblings ihc ihs =>
    obtain ⟨hp, hc, hs⟩ := h
    simp only [nodes, List.nodup_cons, List.nodup_append, List.mem_cons, List.mem_append,
      not_or] at hnd ha
    obtain ⟨⟨hbc, hbs⟩, hndc, hnds, hdisj⟩ := hnd
    obtain ⟨hab, hac, has⟩ := ha
    rw [Forest.push]
    split_ifs with he
    · subst he
      refine ⟨hp, ?_, ?_⟩
      · rw [hparent]
        refine ⟨rfl, hchild, ?_⟩
        rw [hnext]
        refine hc.congr fun x hx => hframe x ?_ ?_
        · rintro rfl; exact hac hx
        · rintro rfl; exact hbc hx
      · rw [hnextp]
        refine hs.congr fun x hx => hframe x ?_ ?_
        · rintro rfl; exact has hx
        · rintro rfl; exact hbs hx
    · obtain ⟨hcb, hnb⟩ := hframe b (fun h => hab h.symm) he
      refine ⟨hp, ?_, ?_⟩
      · rw [hcb]
        exact ihc hc hndc hac
      · rw [hnb]
        exact ihs hs hnds has

end

end Forest

end Lib
