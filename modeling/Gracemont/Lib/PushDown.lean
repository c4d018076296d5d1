/-
  A stack that grows down, in the memory of a machine.

  `Stacked`: the words of a list lie on the stack, the topmost first.  A push
  adds a word in front and a pop takes it away; a row of pushes followed by the
  row of pops in the opposite order gives the registers back.
-/
import Gracemont.Lib.Machine

namespace Lib

/-- The words `vs` lie at `sp`, the topmost first. -/
def Stacked (mem : Memory) : Word → List Word → Prop
  | _, [] => True
  | sp, v :: vs => mem.load sp = v ∧ Stacked mem (sp + 8) vs

namespace Stacked
variable {mem mem' : Memory} {sp : Word} {vs ws : List Word}

theorem inRange_rest {n : ℕ} (hn : 8 * (n + 1) ≤ 2 ^ 64) {x : Word}
    (h : InRange (sp + 8) (8 * n) x) :
    InRange sp (8 * (n + 1)) x ∧ ¬ InRange sp 8 x := by
  unfold InRange at h ⊢
  have hx : x - sp = x - (sp + 8) + 8 := by
    rw [← BitVec.sub_sub, BitVec.sub_add_cancel]
  have h8 : (8 : Word).toNat = 8 := rfl
  rw [hx, BitVec.toNat_add, h8, Nat.mod_eq_of_lt (by omega)]
  omega

/-- **Frame.**  Only the bytes of the words count. -/
theorem congr (hlen : 8 * vs.length ≤ 2 ^ 64)
    (h : ∀ x, InRange sp (8 * vs.length) x → mem' x = mem x) (hs : Stacked mem sp vs) :
    Stacked mem' sp vs := by
  induction vs generalizing sp with
  | nil => trivial
  | cons v vs ih =>
    rw [List.length_cons] at hlen h
    refine ⟨?_, ih (by omega) (fun x hx => h x (inRange_rest hlen hx).1) hs.2⟩
    rw [← hs.1]
    exact Memory.load_congr fun x hx => h x (hx.mono (by omega))

/-- **Push.** -/
theorem store (hlen : 8 * (vs.length + 1) ≤ 2 ^ 64) (hs : Stacked mem sp vs) (v : Word) :
    Stacked (mem.store (sp - 8) v) (sp - 8) (v :: vs) := by
  refine ⟨Memory.load_store .., ?_⟩
  have hback : sp - 8 + 8 = sp := BitVec.sub_add_cancel ..
  rw [hback]
  refine hs.congr (by omega) fun x hx => Memory.store_of_not_inRange _ _ _ ?_
  rw [← hback] at hx
  exact (inRange_rest hlen hx).2

/-- The word in the slot `i`. -/
theorem get (hs : Stacked mem sp vs) {i : ℕ} (hi : i < vs.length) :
    mem.load (sp + BitVec.ofNat 64 (8 * i)) = vs[i] := by
  induction vs generalizing sp i with
  | nil => exact absurd hi (Nat.not_lt_zero i)
  | cons v vs ih =>
    cases i with
    | zero =>
      rw [Nat.mul_zero, BitVec.add_zero]
      exact hs.1
    | succ i =>
      have haddr : sp + BitVec.ofNat 64 (8 * (i + 1)) = sp + 8 + BitVec.ofNat 64 (8 * i) := by
        rw [Nat.mul_succ, Nat.add_comm, BitVec.ofNat_add, BitVec.add_assoc]
        rfl
      rw [haddr, List.getElem_cons_succ]
      exact ih hs.2 (Nat.lt_of_succ_lt_succ hi)

theorem left (hs : Stacked mem sp (vs ++ ws)) : Stacked mem sp vs := by
  induction vs generalizing sp with
  | nil => trivial
  | cons v vs ih => exact ⟨hs.1, ih hs.2⟩

end Stacked

/-! ## Pushing and popping registers -/

section
variable {R : Type} [DecidableEq R]

def Machine.push (sp : R) (m : Machine R) (v : Word) : Machine R :=
  { m.set sp (m.reg sp - 8) with mem := m.mem.store (m.reg sp - 8) v }

def Machine.pop (sp : R) (m : Machine R) (dst : R) : Machine R :=
  (m.set dst (m.mem.load (m.reg sp))).set sp (m.reg sp + 8)

variable {sp r : R} {m : Machine R} {rs : List R} {vs : List Word} {f : R → Word}

@[simp] theorem Machine.push_sp (v : Word) : (m.push sp v).reg sp = m.reg sp - 8 :=
  Function.update_self ..

theorem Machine.push_of_ne (hr : r ≠ sp) (v : Word) : (m.push sp v).reg r = m.reg r :=
  Function.update_of_ne hr ..

theorem Machine.pop_of_ne {dst : R} (hr : r ≠ sp) (hd : r ≠ dst) :
    (m.pop sp dst).reg r = m.reg r :=
  (Function.update_of_ne hr ..).trans (Function.update_of_ne hd ..)

theorem Machine.pop_dst {dst : R} (hd : dst ≠ sp) :
    (m.pop sp dst).reg dst = m.mem.load (m.reg sp) :=
  (Function.update_of_ne hd ..).trans (Function.update_self ..)

/-- The words `vs` on the stack of a machine. -/
def Machine.Holds (sp : R) (m : Machine R) (vs : List Word) : Prop := Stacked m.mem (m.reg sp) vs

theorem Machine.Holds.set (hr : sp ≠ r) (h : m.Holds sp vs) (v : Word) :
    (m.set r v).Holds sp vs := by
  unfold Machine.Holds
  have hsp : (m.set r v).reg sp = m.reg sp := Function.update_of_ne hr ..
  rw [hsp]
  exact h

/-- Two words are dropped. -/
theorem Machine.Holds.drop_two {v w : Word} (h : m.Holds sp (v :: w :: vs)) :
    (m.set sp (m.reg sp + 16)).Holds sp vs := by
  unfold Machine.Holds
  have hsp : (m.set sp (m.reg sp + 16)).reg sp = m.reg sp + 8 + 8 := by
    rw [Machine.set_reg, Function.update_self, BitVec.add_assoc]
    rfl
  rw [hsp]
  exact h.2.2

theorem Machine.Holds.push (hlen : 8 * (vs.length + 1) ≤ 2 ^ 64) (h : m.Holds sp vs) (v : Word) :
    (m.push sp v).Holds sp (v :: vs) := by
  unfold Machine.Holds
  rw [Machine.push_sp]
  exact Stacked.store hlen h v

theorem Machine.Holds.pop {dst : R} {v : Word} (hd : dst ≠ sp) (h : m.Holds sp (v :: vs)) :
    (m.pop sp dst).reg dst = v ∧ (m.pop sp dst).Holds sp vs := by
  refine ⟨(Machine.pop_dst hd).trans h.1, ?_⟩
  unfold Machine.Holds
  have hsp : (m.pop sp dst).reg sp = m.reg sp + 8 := Function.update_self ..
  rw [hsp]
  exact h.2

/-- The words `ws`, pushed one after the other. -/
def Machine.pushAll (sp : R) (m : Machine R) (ws : List Word) : Machine R :=
  ws.foldl (Machine.push sp) m

theorem Machine.pushAll_of_ne (hr : r ≠ sp) (ws : List Word) :
    (m.pushAll sp ws).reg r = m.reg r := by
  induction ws generalizing m with
  | nil => rfl
  | cons w ws ih => exact ih.trans (Machine.push_of_ne hr w)

theorem Machine.Holds.pushAll (ws : List Word) (hlen : 8 * (ws.length + vs.length) ≤ 2 ^ 64)
    (h : m.Holds sp vs) : (m.pushAll sp ws).Holds sp (ws.reverse ++ vs) := by
  induction ws generalizing m vs with
  | nil => exact h
  | cons w ws ih =>
    rw [List.length_cons] at hlen
    have hpushed : (m.push sp w).Holds sp (w :: vs) := h.push (by omega) w
    have hrest := ih (by rw [List.length_cons]; omega) hpushed
    rw [List.reverse_cons, List.append_assoc, List.singleton_append]
    exact hrest

/-- The registers `rs`, pushed one after the other. -/
def Machine.pushRegs (sp : R) (m : Machine R) (rs : List R) : Machine R :=
  rs.foldl (fun m r => m.push sp (m.reg r)) m

/-- Pushing registers is pushing what they hold. -/
theorem Machine.pushRegs_eq (h : sp ∉ rs) :
    m.pushRegs sp rs = m.pushAll sp (rs.map m.reg) := by
  induction rs generalizing m with
  | nil => rfl
  | cons r rs ih =>
    rw [List.mem_cons, not_or] at h
    have hkept : rs.map (m.push sp (m.reg r)).reg = rs.map m.reg :=
      List.map_congr_left fun q hq => Machine.push_of_ne (ne_of_mem_of_not_mem hq h.2) _
    refine (ih (m := m.push sp (m.reg r)) h.2).trans ?_
    rw [hkept]
    rfl

/-- The registers `rs`, popped one after the other. -/
def Machine.popRegs (sp : R) (m : Machine R) (rs : List R) : Machine R :=
  rs.foldl (Machine.pop sp) m

theorem Machine.popRegs_of_not_mem (hr : r ≠ sp) (h : r ∉ rs) :
    (m.popRegs sp rs).reg r = m.reg r := by
  induction rs generalizing m with
  | nil => rfl
  | cons q rs ih =>
    rw [List.mem_cons, not_or] at h
    exact (ih h.2).trans (Machine.pop_of_ne hr h.1)

/-- **A row of pops.** -/
theorem Machine.Holds.popRegs (hnd : rs.Nodup) (hsp : sp ∉ rs) (h : m.Holds sp (rs.map f ++ vs)) :
    (∀ r ∈ rs, (m.popRegs sp rs).reg r = f r) ∧ (m.popRegs sp rs).Holds sp vs := by
  induction rs generalizing m with
  | nil => exact ⟨List.forall_mem_nil _, h⟩
  | cons q rs ih =>
    rw [List.nodup_cons] at hnd
    rw [List.mem_cons, not_or] at hsp
    obtain ⟨hq, hrest⟩ := h.pop (Ne.symm hsp.1)
    obtain ⟨hregs, hvs⟩ := ih hnd.2 hsp.2 hrest
    refine ⟨fun r hr => ?_, hvs⟩
    rcases List.mem_cons.1 hr with rfl | hr
    · exact (Machine.popRegs_of_not_mem (Ne.symm hsp.1) hnd.1).trans hq
    · exact hregs r hr

end

end Lib
