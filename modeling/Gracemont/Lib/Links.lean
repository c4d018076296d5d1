/-
  Intrusive doubly linked lists.

  Nodes are addresses `α`, and a store of nodes gives each a `next` and a
  `prev` pointer (`none` is the null pointer).  A list is intrusive: the
  pointers are fields of the nodes, so that one node is on one list at a time.

  * `Seg next prev q l r`: the nodes of `l` are linked in order, `q` is the
    `prev` pointer of the first and `r` the `next` pointer of the last;
  * `Ring next prev head l`: the circular list `l` reached from `head`;
  * `Chain next prev head l`: the null-terminated list `l` reached from `head`;
  * `Reaches next head x`: following `next` from `head` leads to `x`.

  The operations are pointer writes (`Function.update` or `setAt` of `next` and
  `prev`); each has a lemma giving the list it leaves.
-/
import Mathlib.Data.List.Nodup
import Gracemont.Lib.Store

namespace Lib

variable {α : Type*} {next prev next' prev' : α → Option α}

/-- The nodes of `l` are linked in order between the pointers `q` and `r`. -/
def Seg (next prev : α → Option α) : Option α → List α → Option α → Prop
  | _, [], _ => True
  | q, x :: l, r => prev x = q ∧ next x = l.head?.or r ∧ Seg next prev (some x) l r

@[simp] theorem seg_nil (q r : Option α) : Seg next prev q [] r := trivial

@[simp] theorem seg_cons (q r : Option α) (x : α) (l : List α) :
    Seg next prev q (x :: l) r ↔
      prev x = q ∧ next x = l.head?.or r ∧ Seg next prev (some x) l r := Iff.rfl

instance Seg.decidable [DecidableEq α] : ∀ (q : Option α) (l : List α) (r : Option α),
    Decidable (Seg next prev q l r)
  | _, [], _ => .isTrue trivial
  | _, x :: l, r =>
    have := Seg.decidable (some x) l r
    decidable_of_iff _ (seg_cons _ r x l).symm

theorem seg_append {a b : List α} : ∀ {q r : Option α}, Seg next prev q (a ++ b) r ↔
    Seg next prev q a (b.head?.or r) ∧ Seg next prev (a.getLast?.or q) b r := by
  induction a with
  | nil => simp
  | cons x a ih =>
    intro q r
    have hlast : ((x :: a).getLast?.or q) = a.getLast?.or (some x) := by
      rw [List.getLast?_cons]; cases a.getLast? <;> rfl
    rw [List.cons_append, seg_cons, seg_cons, ih, hlast, List.head?_append, Option.or_assoc]
    tauto

/-- **Frame.**  A segment only depends on the pointers of its own nodes. -/
theorem Seg.congr {l : List α} (hn : ∀ x ∈ l, next' x = next x) (hp : ∀ x ∈ l, prev' x = prev x) :
    ∀ {q r : Option α}, Seg next prev q l r → Seg next' prev' q l r := by
  induction l with
  | nil => simp
  | cons x l ih =>
    rintro q r ⟨h1, h2, h3⟩
    refine ⟨(hp x (by simp)).trans h1, (hn x (by simp)).trans h2, ?_⟩
    exact ih (fun y hy => hn y (by simp [hy])) (fun y hy => hp y (by simp [hy])) h3

section Writes
variable [DecidableEq α]

/-- Writes to a node outside a segment do not change it. -/
theorem Seg.frame {l : List α} {q r : Option α} {x : α} (hx : x ∉ l) (v w : Option α)
    (h : Seg next prev q l r) :
    Seg (Function.update next x v) (Function.update prev x w) q l r := by
  exact h.congr (fun _ hy => Function.update_of_ne (ne_of_mem_of_not_mem hy hx) ..)
    fun _ hy => Function.update_of_ne (ne_of_mem_of_not_mem hy hx) ..

theorem Seg.frame_next {l : List α} {q r : Option α} {x : α} (hx : x ∉ l) (v : Option α)
    (h : Seg next prev q l r) : Seg (Function.update next x v) prev q l r :=
  h.congr (fun _ hy => Function.update_of_ne (ne_of_mem_of_not_mem hy hx) ..) fun _ _ => rfl

theorem Seg.frame_prev {l : List α} {q r : Option α} {x : α} (hx : x ∉ l) (v : Option α)
    (h : Seg next prev q l r) : Seg next (Function.update prev x v) q l r :=
  h.congr (fun _ _ => rfl) fun _ hy => Function.update_of_ne (ne_of_mem_of_not_mem hy hx) ..

/-- Redirecting the `prev` pointer of the first node. -/
theorem Seg.setPrev {l : List α} {q r : Option α} {x : α} (hx : l.head? = some x) (hl : l.Nodup)
    (q' : Option α) (h : Seg next prev q l r) : Seg next (Function.update prev x q') q' l r := by
  cases l with
  | nil => simp at hx
  | cons y l =>
    obtain rfl : y = x := by simpa using hx
    obtain ⟨-, h2, h3⟩ := h
    exact ⟨Function.update_self .., h2, h3.frame_prev (List.nodup_cons.1 hl).1 _⟩

/-- Redirecting the `next` pointer of the last node. -/
theorem Seg.setNext {l : List α} {q r : Option α} {x : α} (hx : l.getLast? = some x)
    (hl : l.Nodup) (r' : Option α) (h : Seg next prev q l r) :
    Seg (Function.update next x r') prev q l r' := by
  obtain ⟨i, rfl⟩ := List.getLast?_eq_some_iff.1 hx
  have hxi : x ∉ i := fun hm => (List.nodup_append.1 hl).2.2 x hm x (by simp) rfl
  rw [seg_append] at h ⊢
  obtain ⟨h1, h2, -, -⟩ := h
  exact ⟨h1.frame_next hxi _, h2, by simp, trivial⟩

end Writes

/-- The `next` pointer of the last node of a segment. -/
theorem Seg.next_last {l : List α} {q r : Option α} {x : α} (h : Seg next prev q l r)
    (hx : l.getLast? = some x) : next x = r := by
  obtain ⟨i, rfl⟩ := List.getLast?_eq_some_iff.1 hx
  obtain ⟨-, -, h, -⟩ := seg_append.1 h
  simpa using h

/-- The `prev` pointer of the first node of a segment. -/
theorem Seg.prev_head {l : List α} {q r : Option α} {x : α} (h : Seg next prev q l r)
    (hx : l.head? = some x) : prev x = q := by
  obtain ⟨t, rfl⟩ := List.head?_eq_some_iff.1 hx
  exact h.1

/-! ## Circular lists -/

/-- The circular list `l` reached from `head`. -/
structure Ring (next prev : α → Option α) (head : Option α) (l : List α) : Prop where
  head_eq : head = l.head?
  nodup : l.Nodup
  seg : Seg next prev l.getLast? l l.head?

instance Ring.decidable [DecidableEq α] (head : Option α) (l : List α) :
    Decidable (Ring next prev head l) :=
  decidable_of_iff (head = l.head? ∧ l.Nodup ∧ Seg next prev l.getLast? l l.head?)
    ⟨fun h => ⟨h.1, h.2.1, h.2.2⟩, fun h => ⟨h.1, h.2, h.3⟩⟩

theorem ring_nil : Ring next prev none [] := ⟨rfl, List.nodup_nil, trivial⟩

theorem Ring.head_none {l : List α} (h : Ring next prev none l) : l = [] := by
  simpa using h.head_eq.symm

theorem Ring.head_some {l : List α} {x : α} (h : Ring next prev (some x) l) :
    ∃ t, l = x :: t := List.head?_eq_some_iff.1 h.head_eq.symm

theorem Ring.head_mem {l : List α} {x : α} (h : Ring next prev (some x) l) : x ∈ l := by
  obtain ⟨t, rfl⟩ := h.head_some; simp

/-- Before the head of a ring comes its last node. -/
theorem Ring.prev_some {l : List α} {x : α} (h : Ring next prev (some x) l) :
    ∃ z ∈ l, prev x = some z := by
  obtain ⟨t, rfl⟩ := h.head_some
  have hlast := List.getLast?_eq_some_getLast (List.cons_ne_nil x t)
  exact ⟨_, List.getLast_mem _, (h.seg.prev_head rfl).trans hlast⟩

theorem Ring.congr {l : List α} {head : Option α} (h : Ring next prev head l)
    (hn : ∀ x ∈ l, next' x = next x) (hp : ∀ x ∈ l, prev' x = prev x) :
    Ring next' prev' head l :=
  ⟨h.head_eq, h.nodup, h.seg.congr hn hp⟩

/-- A node of a ring has a successor. -/
theorem Ring.next_ne_none {l : List α} {head : Option α} {x : α} (h : Ring next prev head l)
    (hx : x ∈ l) : next x ≠ none := by
  obtain ⟨a, b, rfl⟩ := List.append_of_mem hx
  obtain ⟨-, -, hn, -⟩ := seg_append.1 h.seg
  rw [hn]
  cases b <;> cases a <;> simp

/-- The successor and the predecessor of a node of a ring are nodes of it. -/
theorem Ring.next_mem {l : List α} {head : Option α} {x y : α} (h : Ring next prev head l)
    (hx : x ∈ l) (hy : next x = some y) : y ∈ l := by
  obtain ⟨a, b, rfl⟩ := List.append_of_mem hx
  obtain ⟨-, -, hn, -⟩ := seg_append.1 h.seg
  rw [hn] at hy
  cases b with
  | nil =>
    have hm : y ∈ (a ++ [x]).head? := by simpa using hy
    exact List.mem_of_mem_head? hm
  | cons z b =>
    have hzy : z = y := by simpa using hy
    simp [hzy]

theorem Ring.prev_mem {l : List α} {head : Option α} {x y : α} (h : Ring next prev head l)
    (hx : x ∈ l) (hy : prev x = some y) : y ∈ l := by
  obtain ⟨a, b, rfl⟩ := List.append_of_mem hx
  obtain ⟨-, hp, -, -⟩ := seg_append.1 h.seg
  rw [hp] at hy
  cases hz : a.getLast? with
  | none =>
    rw [hz] at hy
    exact List.mem_of_getLast? hy
  | some z =>
    have hzy : z = y := by simpa [hz] using hy
    exact List.mem_append_left _ (hzy ▸ List.mem_of_getLast? hz)

/-- **Following `next`.**  A set that holds the first node of a segment and is
    closed under other pointers `next'` holds every node of the segment up to
    which the pointers agree. -/
theorem Seg.reach {S : α → Prop} (hS : ∀ x y, S x → next' x = some y → S y) {a b : List α} {z : α}
    {q r : Option α} (h : Seg next prev q (a ++ z :: b) r) (ha : ∀ x ∈ a, next' x = next x)
    (hhead : ∀ x, (a ++ z :: b).head? = some x → S x) : S z := by
  induction a generalizing q with
  | nil => exact hhead z rfl
  | cons x a ih =>
    obtain ⟨-, hn, hseg⟩ := h
    refine ih hseg (fun y hy => ha y (List.mem_cons_of_mem x hy)) fun y hy => ?_
    refine hS x y (hhead x rfl) ?_
    have hy : (a.append (z :: b)).head? = some y := hy
    rw [ha x List.mem_cons_self, hn, hy]
    rfl

/-- Two segments from one node agree up to the end of the shorter one. -/
theorem Seg.prefix_or {a b : List α} {q q' r r' : Option α} (h : Seg next prev q a r)
    (h' : Seg next prev q' b r') (he : a.head? = b.head?) : a <+: b ∨ b <+: a := by
  induction a generalizing b q q' with
  | nil => exact Or.inl List.nil_prefix
  | cons x a ih =>
    cases b with
    | nil => exact Or.inr List.nil_prefix
    | cons y b =>
      obtain rfl : x = y := by simpa using he
      obtain ⟨-, h2, h3⟩ := h
      obtain ⟨-, h2', h3'⟩ := h'
      rcases ha : a with _ | ⟨u, a'⟩
      · exact Or.inl (by simp)
      rcases hb : b with _ | ⟨v, b'⟩
      · exact Or.inr (by simp)
      have huv : u = v := by
        rw [ha] at h2; rw [hb] at h2'
        simpa [h2] using h2'
      rcases ih h3 h3' (by simp [ha, hb, huv]) with h | h
      · exact Or.inl (by rw [← ha, ← hb]; simpa using h)
      · exact Or.inr (by rw [← ha, ← hb]; simpa using h)

/-- **The list of a ring is determined by its head.** -/
theorem Ring.unique {head : Option α} {l l' : List α} (h : Ring next prev head l)
    (h' : Ring next prev head l') : l = l' := by
  -- a proper extension of a full ring would visit the head twice
  have ext : ∀ {a b : List α}, Ring next prev head a → Ring next prev head b → a <+: b → a = b := by
    rintro a b ha hb ⟨c, rfl⟩
    rcases a with _ | ⟨x, a⟩
    · have hc : c.head? = none := by simpa [ha.head_eq] using hb.head_eq.symm
      simpa [eq_comm] using hc
    rcases c with _ | ⟨y, c⟩
    · simp
    exfalso
    obtain ⟨z, hz⟩ : ∃ z, (x :: a).getLast? = some z := ⟨_, List.getLast?_eq_some_getLast (by simp)⟩
    have h1 : next z = some x := by simpa using ha.seg.next_last hz
    have h2 : next z = some y := by
      simpa using (seg_append.1 hb.seg).1.next_last hz
    obtain rfl : x = y := by simpa [h1] using h2
    have := hb.nodup
    simp at this
  rcases h.seg.prefix_or h'.seg (h.head_eq.symm.trans h'.head_eq) with hp | hp
  · exact ext h h' hp
  · exact (ext h' h hp).symm

/-- A ring may be entered at any node. -/
theorem Ring.rotate {a b : List α} {head : Option α} (h : Ring next prev head (a ++ b))
    (hb : b ≠ []) : Ring next prev b.head? (b ++ a) := by
  rcases a with _ | ⟨x, a⟩
  · have hh : head = b.head? := by simpa using h.head_eq
    simpa [hh] using h
  obtain ⟨y, b, rfl⟩ := List.exists_cons_of_ne_nil hb
  obtain ⟨h1, h2⟩ := seg_append.1 h.seg
  refine ⟨by simp, List.nodup_append_comm.1 h.nodup, seg_append.2 ⟨?_, ?_⟩⟩
  · simpa [List.getLast?_cons] using h2
  · simpa [List.getLast?_cons] using h1

section Writes
variable [DecidableEq α]

/-- The ring of one node. -/
theorem ring_singleton (x : α) :
    Ring (Function.update next x (some x)) (Function.update prev x (some x)) (some x) [x] :=
  ⟨rfl, List.nodup_singleton x, by simp⟩

/-- **Insertion before the head**, that is at the tail of the queue. -/
theorem Ring.insert {h z x : α} {t : List α} (hr : Ring next prev (some h) (h :: t))
    (hz : prev h = some z) (hx : x ∉ h :: t) :
    Ring (Function.update (Function.update next x (some h)) z (some x))
      (Function.update (Function.update prev x (some z)) h (some x)) (some h) (h :: t ++ [x]) := by
  have hlast : (h :: t).getLast? = some z := by rw [← hz]; exact (hr.seg.prev_head rfl).symm
  have hzm : z ∈ h :: t := List.mem_of_getLast? hlast
  have hxz : x ≠ z := fun he => hx (he ▸ hzm)
  have hxh : x ≠ h := fun he => hx (by simp [he])
  have hnd : (h :: t ++ [x]).Nodup := by
    refine List.nodup_append.2 ⟨hr.nodup, by simp, fun y hy w hw he => hx ?_⟩
    obtain rfl : w = x := by simpa using hw
    exact he ▸ hy
  have hseg := ((hr.seg.frame hx (some h) (some z)).setNext hlast hr.nodup (some x)).setPrev
    (x := h) rfl hr.nodup (some x)
  refine ⟨by simp, hnd, ?_⟩
  rw [List.getLast?_concat, seg_append]
  refine ⟨by simpa using hseg, ?_⟩
  rw [hlast]; simp [hxz, hxh]

/-- **Removal** of a node that is not alone. -/
theorem Ring.remove {a b : List α} {x p n : α} {head : Option α}
    (hr : Ring next prev head (a ++ x :: b)) (hp : prev x = some p) (hn : next x = some n)
    (hne : n ≠ x) :
    Ring (Function.update (Function.update next p (some n)) x none)
      (Function.update (Function.update prev n (some p)) x none)
      (if head = some x then some n else head) (a ++ b) := by
  have hrot : Ring next prev (some x) (x :: (b ++ a)) := by simpa using hr.rotate (b := x :: b) (by simp)
  obtain ⟨-, hnd, hs⟩ := hrot
  obtain ⟨hs1, hs2, hs3⟩ := hs
  obtain ⟨hxc, hcnd⟩ := List.nodup_cons.1 hnd
  -- what is left is the segment from `n` to `p`, closed up
  have hhead : (b ++ a).head? = some n := by
    rcases hc : b ++ a with _ | ⟨y, c⟩
    · rw [hc, hn] at hs2; simp at hs2; exact absurd hs2 hne
    · rw [hc, hn] at hs2; simpa using hs2.symm
  have hlast : (b ++ a).getLast? = some p := by
    rw [hp, List.getLast?_cons] at hs1
    rcases hc : (b ++ a).getLast? with _ | y
    · rw [List.getLast?_eq_none_iff] at hc; simp [hc] at hhead
    · rw [hc] at hs1; simpa using hs1.symm
  have hseg := ((hs3.setNext hlast hcnd (some n)).setPrev hhead hcnd (some p)).frame hxc none none
  have hc : Ring (Function.update (Function.update next p (some n)) x none)
      (Function.update (Function.update prev n (some p)) x none) (some n) (b ++ a) :=
    ⟨hhead.symm, hcnd, by rw [hlast, hhead]; exact hseg⟩
  have hhd := hr.head_eq
  rcases a with _ | ⟨y, a⟩
  · have : head = some x := by simpa using hhd
    simpa [this] using hc
  · have hyx : y ≠ x := fun he => hxc (by simp [he])
    have : head = some y := by simpa using hhd
    have hrot := hc.rotate (b := y :: a) (by simp)
    simpa [this, hyx] using hrot

end Writes

/-! ## Null-terminated lists -/

/-- The null-terminated list `l` reached from `head`. -/
structure Chain (next prev : α → Option α) (head : Option α) (l : List α) : Prop where
  head_eq : head = l.head?
  nodup : l.Nodup
  seg : Seg next prev none l none

theorem chain_nil : Chain next prev none [] := ⟨rfl, List.nodup_nil, trivial⟩

theorem Chain.head_none {l : List α} (h : Chain next prev none l) : l = [] := by
  simpa using h.head_eq.symm

theorem Chain.head_some {l : List α} {x : α} (h : Chain next prev (some x) l) :
    ∃ t, l = x :: t := List.head?_eq_some_iff.1 h.head_eq.symm

/-- **The list of a chain is determined by its head.** -/
theorem Chain.unique {head : Option α} {l l' : List α} (h : Chain next prev head l)
    (h' : Chain next prev head l') : l = l' := by
  -- the last node has no successor
  have ext : ∀ {a b : List α}, Chain next prev head a → Chain next prev head b → a <+: b → a = b := by
    rintro a b ha hb ⟨c, rfl⟩
    rcases c with _ | ⟨y, c⟩
    · simp
    exfalso
    rcases ha? : a.getLast? with _ | z
    · rw [List.getLast?_eq_none_iff.1 ha?] at ha hb
      cases ha.head_eq.symm.trans hb.head_eq
    · have h1 : next z = none := ha.seg.next_last ha?
      have h2 : next z = some y := by
        simpa using (seg_append.1 hb.seg).1.next_last ha?
      cases h1.symm.trans h2
  rcases h.seg.prefix_or h'.seg (h.head_eq.symm.trans h'.head_eq) with hp | hp
  · exact ext h h' hp
  · exact (ext h' h hp).symm

theorem Chain.congr {l : List α} {head : Option α} (h : Chain next prev head l)
    (hn : ∀ x ∈ l, next' x = next x) (hp : ∀ x ∈ l, prev' x = prev x) :
    Chain next' prev' head l :=
  ⟨h.head_eq, h.nodup, h.seg.congr hn hp⟩

section Writes
variable [DecidableEq α]

/-- Redirecting the two ends of a segment, which may be empty. -/
theorem Seg.setEnds {l : List α} {q r : Option α} (hl : l.Nodup) (q' r' : Option α)
    (h : Seg next prev q l r) : Seg (setAt next l.getLast? r') (setAt prev l.head? q') q' l r' := by
  rcases hhd : l.head? with _ | x
  · rw [List.head?_eq_none_iff.1 hhd]; trivial
  · rcases hla : l.getLast? with _ | z
    · rw [List.getLast?_eq_none_iff.1 hla]; trivial
    · exact (h.setNext hla hl r').setPrev hhd hl q'

/-- **Insertion** between `a` and `b`. -/
theorem Chain.insert {a b : List α} {head : Option α} {x : α} (h : Chain next prev head (a ++ b))
    (hx : x ∉ a ++ b) :
    Chain (setAt (Function.update next x b.head?) a.getLast? (some x))
      (setAt (Function.update prev x a.getLast?) b.head? (some x))
      (if a.getLast?.isNone then some x else head) (a ++ x :: b) := by
  obtain ⟨rfl, hnd, hs⟩ := h
  obtain ⟨hs₁, hs₂⟩ := seg_append.1 hs
  obtain ⟨hna, hnb, hab⟩ := List.nodup_append.1 hnd
  have hxa : x ∉ a := fun hm => hx (List.mem_append_left _ hm)
  have hxb : x ∉ b := fun hm => hx (List.mem_append_right _ hm)
  have hlast : a.getLast? ≠ some x := fun he => hxa (List.mem_of_getLast? he)
  have hhead : b.head? ≠ some x := fun he => hxb (List.mem_of_head? he)
  refine ⟨?_, ?_, seg_append.2 ⟨?_, ?_⟩⟩
  · cases a with
    | nil => rfl
    | cons y a => simp [List.getLast?_cons]
  · refine List.nodup_append.2 ⟨hna, List.nodup_cons.2 ⟨hxb, hnb⟩, fun y hy z hz he => ?_⟩
    rcases List.mem_cons.1 hz with rfl | hz
    exacts [hxa (he ▸ hy), hab y hy z hz he]
  · -- the part before: only its last `next` changes
    have := (hs₁.frame hxa b.head? a.getLast?).setEnds hna none (some x)
    refine this.congr (fun _ _ => rfl) fun y hy => ?_
    have hyb : b.head? ≠ some y := fun he => hab y hy y (List.mem_of_head? he) rfl
    rw [setAt_of_ne _ hyb]
    by_cases hya : a.head? = some y
    · have : Function.update prev x a.getLast? y = none := by
        rw [Function.update_of_ne (ne_of_mem_of_not_mem hy hxa)]
        simpa using hs₁.prev_head hya
      rw [hya, setAt_some, Function.update_self, this]
    · rw [setAt_of_ne _ hya]
  · refine ⟨?_, ?_, ?_⟩
    · rw [setAt_of_ne _ hhead, Function.update_self, Option.or_none]
    · rw [setAt_of_ne _ hlast, Function.update_self, Option.or_none]
    · -- the part after: only its first `prev` changes
      have := (hs₂.frame hxb b.head? a.getLast?).setEnds hnb (some x) none
      refine this.congr (fun y hy => ?_) fun _ _ => rfl
      have hya : a.getLast? ≠ some y := fun he => hab y (List.mem_of_getLast? he) y hy rfl
      rw [setAt_of_ne _ hya]
      by_cases hyb : b.getLast? = some y
      · have : Function.update next x b.head? y = none := by
          rw [Function.update_of_ne (ne_of_mem_of_not_mem hy hxb)]
          exact hs₂.next_last hyb
        rw [hyb, setAt_some, Function.update_self, this]
      · rw [setAt_of_ne _ hyb]

/-- **Removal** from between `a` and `b`; the links of the node stay. -/
theorem Chain.remove {a b : List α} {head : Option α} {x : α}
    (h : Chain next prev head (a ++ x :: b)) :
    Chain (setAt next (prev x) (next x)) (setAt prev (next x) (prev x))
      (if (prev x).isNone then next x else head) (a ++ b) := by
  obtain ⟨rfl, hnd, hs⟩ := h
  obtain ⟨hs₁, hp, hn, hs₂⟩ := seg_append.1 hs
  obtain ⟨hna, hnb, hab⟩ := List.nodup_append.1 hnd
  rw [Option.or_none] at hp hn
  rw [hp, hn]
  refine ⟨?_, hnd.sublist (by simp), seg_append.2 ⟨?_, ?_⟩⟩
  · cases a with
    | nil => simp
    | cons y a => simp [List.getLast?_cons]
  · have := hs₁.setEnds hna none b.head?
    rw [Option.or_none]
    refine this.congr (fun _ _ => rfl) fun y hy => ?_
    have hyb : b.head? ≠ some y := fun he =>
      hab y hy y (List.mem_cons_of_mem _ (List.mem_of_head? he)) rfl
    rw [setAt_of_ne _ hyb]
    by_cases hya : a.head? = some y
    · rw [hya, setAt_some, Function.update_self]
      exact hs₁.prev_head hya
    · rw [setAt_of_ne _ hya]
  · have := hs₂.setEnds (List.nodup_cons.1 hnb).2 a.getLast? none
    rw [Option.or_none]
    refine this.congr (fun y hy => ?_) fun _ _ => rfl
    have hya : a.getLast? ≠ some y := fun he =>
      hab y (List.mem_of_getLast? he) y (List.mem_cons_of_mem _ hy) rfl
    rw [setAt_of_ne _ hya]
    by_cases hyb : b.getLast? = some y
    · rw [hyb, setAt_some, Function.update_self]
      exact hs₂.next_last hyb
    · rw [setAt_of_ne _ hyb]

/-- Insertion at the front. -/
theorem Chain.push {l : List α} {head : Option α} {x : α} (h : Chain next prev head l)
    (hx : x ∉ l) : Chain (Function.update next x head)
      (setAt (Function.update prev x none) head (some x)) (some x) (x :: l) := by
  have := Chain.insert (a := []) h hx
  simpa [h.head_eq] using this

/-- Removal of the first node, whose `next` pointer is cleared. -/
theorem Chain.pop {l : List α} {x : α} (h : Chain next prev (some x) (x :: l)) :
    Chain (Function.update next x none) (setAt prev (next x) none) (next x) l := by
  have hp : prev x = none := h.seg.1
  have hx : x ∉ l := (List.nodup_cons.1 h.nodup).1
  have hrem := Chain.remove (a := []) h
  rw [hp] at hrem
  exact hrem.congr (fun y hy => Function.update_of_ne (ne_of_mem_of_not_mem hy hx) ..)
    fun _ _ => rfl

end Writes

/-! ## Lists with two ends -/

/-- The null-terminated list `l` with a pointer to each end. -/
structure Queue (next prev : α → Option α) (head tail : Option α) (l : List α) : Prop where
  chain : Chain next prev head l
  tail_eq : tail = l.getLast?

theorem queue_nil : Queue next prev none none [] := ⟨chain_nil, rfl⟩

theorem Queue.congr {l : List α} {head tail : Option α} (h : Queue next prev head tail l)
    (hn : ∀ x ∈ l, next' x = next x) (hp : ∀ x ∈ l, prev' x = prev x) :
    Queue next' prev' head tail l := ⟨h.chain.congr hn hp, h.tail_eq⟩

section Writes
variable [DecidableEq α]

/-- Insertion at the back. -/
theorem Queue.pushBack {l : List α} {head tail : Option α} {x : α}
    (h : Queue next prev head tail l) (hx : x ∉ l) :
    Queue (setAt (Function.update next x none) tail (some x)) (Function.update prev x tail)
      (if tail = none then some x else head) (some x) (l ++ [x]) := by
  have hchain : Chain next prev head (l ++ []) := by
    rw [List.append_nil]
    exact h.chain
  have hins := hchain.insert (x := x) (by rwa [List.append_nil])
  rw [← h.tail_eq] at hins
  refine ⟨?_, by simp⟩
  simpa [Option.isNone_iff_eq_none] using hins

/-- Removal of the first node, whose pointers are cleared. -/
theorem Queue.popFront {l : List α} {tail : Option α} {x : α}
    (h : Queue next prev (some x) tail (x :: l)) :
    Queue (Function.update next x none) (Function.update (setAt prev (next x) none) x none)
      (next x) (if next x = none then none else tail) l := by
  have hx : x ∉ l := (List.nodup_cons.1 h.chain.nodup).1
  have hpop := h.chain.pop
  refine ⟨hpop.congr (fun _ _ => rfl) fun y hy =>
    Function.update_of_ne (ne_of_mem_of_not_mem hy hx) .., ?_⟩
  rw [hpop.head_eq, h.tail_eq]
  cases l with
  | nil => rfl
  | cons y l => simp [List.getLast?_cons]

end Writes

/-! ## Reaching a node -/

/-- Following `next` from a pointer leads to the node. -/
inductive Reaches (next : α → Option α) : Option α → α → Prop
  | here {x : α} : Reaches next (some x) x
  | step {x y : α} : Reaches next (next x) y → Reaches next (some x) y

/-- What is reached from a list that is closed under `next` is on the list. -/
theorem Reaches.mem {l : List α} {head : Option α} {x : α} (h : Reaches next head x)
    (hhead : ∀ y, head = some y → y ∈ l) (hl : ∀ y ∈ l, ∀ z, next y = some z → z ∈ l) : x ∈ l := by
  induction h with
  | here => exact hhead _ rfl
  | step _ ih => exact ih (hl _ (hhead _ rfl))

/-- From the first node of a segment every node is reached. -/
theorem Seg.reaches {l : List α} {q r : Option α} {x : α} (h : Seg next prev q l r) (hx : x ∈ l) :
    Reaches next l.head? x := by
  induction l generalizing q with
  | nil => cases hx
  | cons y l ih =>
    obtain ⟨-, hn, hs⟩ := h
    rcases List.mem_cons.1 hx with rfl | hx
    · exact .here
    · have hr := ih hs hx
      refine .step ?_
      cases l with
      | nil => cases hx
      | cons z l =>
        rw [hn]
        exact hr

/-- **The nodes reached from the head of a ring** are its nodes. -/
theorem Ring.reaches_iff {l : List α} {head : Option α} {x : α} (h : Ring next prev head l) :
    Reaches next head x ↔ x ∈ l := by
  constructor
  · intro hr
    refine hr.mem (fun y hy => ?_) fun y hy z hz => h.next_mem hy hz
    exact List.mem_of_head? (h.head_eq.symm.trans hy)
  · intro hx
    rw [h.head_eq]
    exact h.seg.reaches hx

/-- **The nodes reached from the head of a chain** are its nodes. -/
theorem Chain.reaches_iff {l : List α} {head : Option α} {x : α} (h : Chain next prev head l) :
    Reaches next head x ↔ x ∈ l := by
  constructor
  · intro hr
    refine hr.mem (fun y hy => ?_) fun y hy z hz => ?_
    · exact List.mem_of_head? (h.head_eq.symm.trans hy)
    · obtain ⟨a, b, rfl⟩ := List.append_of_mem hy
      obtain ⟨-, -, hn, -⟩ := seg_append.1 h.seg
      rw [hn, Option.or_none] at hz
      have hzb := List.mem_of_head? hz
      simp [hzb]
  · intro hx
    rw [h.head_eq]
    exact h.seg.reaches hx

end Lib
