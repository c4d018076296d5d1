/-
  Gracemont protocols — what `pnio_rt_input` copies.

  `pnio_rt_input` never compares the length of a frame with the configuration.
  `CyclicInput` says that every byte comes from inside the frame, from the place
  that the configuration gives it; a frame is copied like this exactly if it is
  long enough for all outputs (`rt_input_iff`).

  * `outputSpan`, `PnioCopy.Assigned`: the layout of a frame;
  * `Reads`: what a part of the loops copies, composed as the loops are.
-/
import Gracemont.Protocols.Profinet

namespace Gracemont

/-! ## The layout of a frame -/

/-- The bytes of the frame for a subslot: its output data and the status. -/
def PnioSubslot.outputSpan (sub : PnioSubslot) : ℕ :=
  if sub.plugged ∧ 0 < sub.outputLength then sub.outputLength.toNat + 1 else 0

/-- The bytes of the frame for some subslots. -/
def subslotsSpan (subs : List PnioSubslot) : ℕ := (subs.map PnioSubslot.outputSpan).sum

/-- The bytes of the frame for some slots. -/
def slotsSpan (slots : List PnioSlot) : ℕ := (slots.map fun slot => subslotsSpan slot.subslots).sum

/-- The copy is for a plugged subslot, from the place of this byte: behind the
    frame id and the subslots before, first the output data, then the status. -/
def PnioCopy.Assigned (slots : List PnioSlot) (c : PnioCopy) : Prop :=
  ∃ slot sub, slots[c.slot]? = some slot ∧ slot.subslots[c.subslot]? = some sub ∧ sub.plugged ∧
    (∀ k, c.dst = some k → k < sub.outputLength.toNat) ∧
    c.src = 2 + slotsSpan (slots.take c.slot) + subslotsSpan (slot.subslots.take c.subslot) +
      c.dst.getD sub.outputLength.toNat

/-- **Cyclic input.**  Every byte copied is inside the frame of `len` bytes, at
    the place assigned to it; and a frame too short for the outputs changes no
    subslot. -/
structure CyclicInput {α : Type} (slots : List PnioSlot) (len : ℕ) (r : RtInput α) : Prop where
  inside : ∀ c ∈ r.copies, c.Assigned slots ∧ c.src < len
  short : len < 2 + slotsSpan slots → r.dev.slots = slots

/-! ## The loops -/

section
variable {slots : List PnioSlot} {len : ℕ}

/-- From the offset `a` on, the loops copied what is assigned exactly if the next
    `n` bytes are inside the frame, and then they are `n` bytes further on. -/
structure Reads (slots : List PnioSlot) (len a n : ℕ) (scan scan' : PnioScan) : Prop where
  copies : ∃ cs, scan'.copies = scan.copies ++ cs ∧
    ((∀ c ∈ cs, c.Assigned slots ∧ c.src < len) ↔ 2 + a + n ≤ len)
  offset : 2 + a + n ≤ len → scan'.offset.toNat = a + n

theorem Reads.refl {a : ℕ} {scan : PnioScan} (ha : 2 + a ≤ len) (hoff : scan.offset.toNat = a) :
    Reads slots len a 0 scan scan := by
  refine ⟨⟨[], ?_, ?_⟩, fun _ => hoff⟩
  · rw [List.append_nil]
  · refine iff_of_true ?_ ha
    intro c hc
    cases hc

/-- Of two parts, the second has only to be known when the first was inside the
    frame. -/
theorem Reads.trans {a n k : ℕ} {scan₁ scan₂ scan₃ : PnioScan}
    (h : Reads slots len a n scan₁ scan₂)
    (h' : 2 + (a + n) ≤ len → scan₂.offset.toNat = a + n → Reads slots len (a + n) k scan₂ scan₃)
    (hmono : ∃ cs, scan₃.copies = scan₂.copies ++ cs) :
    Reads slots len a (n + k) scan₁ scan₃ := by
  obtain ⟨cs, hcs, hiff⟩ := h.copies
  by_cases hfit : 2 + a + n ≤ len
  · obtain ⟨⟨cs', hcs', hiff'⟩, hoff'⟩ := h' (by omega) (h.offset hfit)
    refine ⟨⟨cs ++ cs', by rw [hcs', hcs, List.append_assoc], ?_⟩, ?_⟩
    · rw [List.forall_mem_append, hiff, hiff']
      omega
    · intro hall
      rw [hoff' (by omega)]
      omega
  · obtain ⟨cs', hcs'⟩ := hmono
    refine ⟨⟨cs ++ cs', by rw [hcs', hcs, List.append_assoc], ?_⟩, ?_⟩
    · rw [List.forall_mem_append, hiff]
      omega
    · intro hall
      omega

variable (frame : ℕ → BitVec 8) (notify : Bool) (number : BitVec 16) {i j : ℕ}

/-- The body of the loops. -/
theorem input_reads {slot : PnioSlot} {sub : PnioSubslot} {scan : PnioScan} (hlen : len < 2 ^ 16)
    (hi : slots[i]? = some slot) (hj : slot.subslots[j]? = some sub) {a : ℕ}
    (ha : a = slotsSpan (slots.take i) + subslotsSpan (slot.subslots.take j)) (hfit : 2 + a ≤ len)
    (hoff : scan.offset.toNat = a) :
    Reads slots len a sub.outputSpan scan (sub.input frame notify number i j scan).2 := by
  unfold PnioSubslot.input PnioSubslot.outputSpan
  by_cases hout : sub.plugged ∧ 0 < sub.outputLength
  · rw [if_pos hout, if_pos hout]
    have hpos : 0 < sub.outputLength.toNat := by simpa [BitVec.lt_def] using hout.2
    have hfits : 2 + a + (sub.outputLength.toNat + 1) ≤ len →
        (scan.offset + sub.outputLength).toNat = a + sub.outputLength.toNat := by
      intro h
      rw [BitVec.toNat_add, hoff]
      omega
    refine ⟨⟨_, rfl, ?_⟩, ?_⟩
    · constructor
      · intro h
        -- the status is the last byte
        obtain ⟨⟨slot', sub', hi', hj', -, -, hsrc⟩, hin⟩ :=
          h ⟨i, j, none, 2 + (scan.offset + sub.outputLength).toNat⟩ (by simp [PnioSubslot.copies])
        obtain rfl : slot = slot' := Option.some.inj (hi.symm.trans hi')
        obtain rfl : sub = sub' := Option.some.inj (hj.symm.trans hj')
        simp only [Option.getD_none] at hsrc hin
        omega
      · intro h c hc
        rw [PnioSubslot.copies, List.mem_append, List.mem_map, List.mem_singleton] at hc
        obtain ⟨k, hk, rfl⟩ | rfl := hc
        · have hk := List.mem_range.1 hk
          refine ⟨⟨slot, sub, hi, hj, hout.1, ?_, ?_⟩, ?_⟩
          · rintro _ ⟨⟩
            exact hk
          · simp only [Option.getD_some]
            omega
          · show 2 + (scan.offset.toNat + k) < len
            omega
        · refine ⟨⟨slot, sub, hi, hj, hout.1, ?_, ?_⟩, ?_⟩
          · rintro _ ⟨⟩
          · simp only [Option.getD_none]
            have := hfits h
            omega
          · show 2 + (scan.offset + sub.outputLength).toNat < len
            have := hfits h
            omega
    · intro h
      show (scan.offset + sub.outputLength + 1).toNat = _
      have hone : (1 : BitVec 16).toNat = 1 := rfl
      rw [BitVec.toNat_add, hfits h, hone]
      omega
  · rw [if_neg hout, if_neg hout]
    exact .refl hfit hoff

/-- The loops only ever add copies. -/
theorem input_copies (sub : PnioSubslot) (scan : PnioScan) :
    ∃ cs, (sub.input frame notify number i j scan).2.copies = scan.copies ++ cs := by
  unfold PnioSubslot.input
  by_cases hout : sub.plugged ∧ 0 < sub.outputLength
  · rw [if_pos hout]
    exact ⟨_, rfl⟩
  · rw [if_neg hout]
    exact ⟨[], (List.append_nil _).symm⟩

theorem subslotsInput_copies (subs : List PnioSubslot) (scan : PnioScan) :
    ∃ cs, (subslotsInput frame notify number i j subs scan).2.copies = scan.copies ++ cs := by
  induction subs generalizing j scan with
  | nil => exact ⟨[], (List.append_nil _).symm⟩
  | cons sub subs ih =>
    obtain ⟨cs, hcs⟩ := input_copies frame notify number (i := i) (j := j) sub scan
    obtain ⟨cs', hcs'⟩ := ih (j := j + 1) (sub.input frame notify number i j scan).2
    exact ⟨cs ++ cs', by rw [← List.append_assoc, ← hcs, ← hcs']; rfl⟩

theorem slotsInput_copies (rest : List PnioSlot) (scan : PnioScan) :
    ∃ cs, (slotsInput frame notify i rest scan).2.copies = scan.copies ++ cs := by
  induction rest generalizing i scan with
  | nil => exact ⟨[], (List.append_nil _).symm⟩
  | cons slot rest ih =>
    obtain ⟨cs, hcs⟩ := subslotsInput_copies frame notify slot.slotNumber (i := i) (j := 0)
      slot.subslots scan
    obtain ⟨cs', hcs'⟩ := ih (i := i + 1)
      (subslotsInput frame notify slot.slotNumber i 0 slot.subslots scan).2
    exact ⟨cs ++ cs', by rw [← List.append_assoc, ← hcs, ← hcs']; rfl⟩

/-- The loop over the subslots, after the subslots `before`. -/
theorem subslotsInput_reads {slot : PnioSlot} (hlen : len < 2 ^ 16) (hi : slots[i]? = some slot)
    (subs : List PnioSubslot) : ∀ (before : List PnioSubslot) (scan : PnioScan) (a : ℕ),
    slot.subslots = before ++ subs → a = slotsSpan (slots.take i) + subslotsSpan before →
    2 + a ≤ len → scan.offset.toNat = a →
    Reads slots len a (subslotsSpan subs) scan
      (subslotsInput frame notify number i before.length subs scan).2 := by
  induction subs with
  | nil =>
    intro before scan a _ _ hfit hoff
    exact .refl hfit hoff
  | cons sub subs ih =>
    intro before scan a hsubs ha hfit hoff
    have hj : slot.subslots[before.length]? = some sub := by simp [hsubs]
    have htake : slot.subslots.take before.length = before := by simp [hsubs]
    have h := input_reads frame notify number hlen hi hj (by rw [htake]; exact ha) hfit hoff
    refine h.trans ?_ (subslotsInput_copies frame notify number subs _)
    intro hfit' hoff'
    have := ih (before ++ [sub]) _ (a + sub.outputSpan) (by rw [hsubs]; simp) ?_ hfit' hoff'
    · rwa [List.length_append] at this
    · rw [ha]
      simp [subslotsSpan, Nat.add_assoc]

/-- The loop over the slots, after the slots `before`. -/
theorem slotsInput_reads (hlen : len < 2 ^ 16) (rest : List PnioSlot) :
    ∀ (before : List PnioSlot) (scan : PnioScan), slots = before ++ rest →
    2 + slotsSpan before ≤ len → scan.offset.toNat = slotsSpan before →
    Reads slots len (slotsSpan before) (slotsSpan rest) scan
      (slotsInput frame notify before.length rest scan).2 := by
  induction rest with
  | nil =>
    intro before scan _ hfit hoff
    exact .refl hfit hoff
  | cons slot rest ih =>
    intro before scan hslots hfit hoff
    have hi : slots[before.length]? = some slot := by simp [hslots]
    have htake : slots.take before.length = before := by simp [hslots]
    have h := subslotsInput_reads frame notify slot.slotNumber hlen hi slot.subslots [] scan
      (slotsSpan before) rfl (by rw [htake]; rfl) hfit hoff
    refine h.trans ?_ (slotsInput_copies frame notify rest _)
    intro hfit' hoff'
    have hspan : slotsSpan (before ++ [slot]) = slotsSpan before + subslotsSpan slot.subslots := by
      simp [slotsSpan]
    have := ih (before ++ [slot]) _ (by rw [hslots]; simp) (by rw [hspan]; exact hfit')
      (by rw [hspan]; exact hoff')
    rwa [List.length_append, hspan] at this

end

/-! ## The function -/

variable {α : Type} [DecidableEq α]

/-- **What `pnio_rt_input` copies.**  A frame is copied from inside, and a short
    one changes no subslot, exactly if it belongs to no application relation or
    has room for all outputs. -/
theorem rt_input_iff (port : Port) (pool : ZbufPool α) (dev : PnioDevice α) (zb : α)
    (now : BitVec 64) :
    (∀ r, pnioRtInput port pool dev zb now = some r →
      CyclicInput dev.slots (pool.zb zb).len.toNat r) ↔
    (pool.zb zb).len < 2 ∨ dev.findAr (be16 (pool.zb zb).frame 0) = none ∨
      2 + slotsSpan dev.slots ≤ (pool.zb zb).len.toNat := by
  have hdrop : ∀ pool', CyclicInput dev.slots (pool.zb zb).len.toNat
      (⟨pool', dev, [], []⟩ : RtInput α) := by
    intro pool'
    refine ⟨?_, fun _ => rfl⟩
    intro c hc
    cases hc
  unfold pnioRtInput
  split_ifs with hshort
  · refine iff_of_true ?_ (Or.inl hshort)
    rintro r ⟨⟩
    exact hdrop _
  · cases har : dev.findAr (be16 (pool.zb zb).frame 0) with
    | none =>
      refine iff_of_true ?_ (Or.inr (Or.inl rfl))
      intro r hr
      simp only [har] at hr
      split_ifs at hr
      cases hr
      exact hdrop _
    | some ar =>
      have hlen : 2 ≤ (pool.zb zb).len.toNat := by
        have htwo : ¬ (pool.zb zb).len.toNat < 2 := hshort
        omega
      obtain ⟨⟨cs, hcs, hiff⟩, -⟩ := slotsInput_reads (pool.zb zb).frame
        dev.onDataReceived (pool.zb zb).len.isLt dev.slots [] ⟨0, [], []⟩ rfl hlen rfl
      have hcs : (slotsInput (pool.zb zb).frame dev.onDataReceived 0 dev.slots
        ⟨0, [], []⟩).2.copies = cs := hcs
      have hspan : slotsSpan [] = 0 := rfl
      rw [hspan] at hiff
      simp only [har, Option.some.injEq, forall_eq', reduceCtorEq, false_or, hshort]
      constructor
      · intro h
        exact hiff.1 fun c hc => h.inside c (hcs ▸ hc)
      · intro h
        refine ⟨fun c hc => hiff.2 h c (hcs ▸ hc), fun hs => ?_⟩
        exact absurd h (Nat.not_le.2 hs)

/-- A frame of its id only, for a subslot of 8 bytes, in a buffer that holds
    `0xAA` from an earlier frame. -/
def demoShortFrame : ZbufPool (Fin 2) where
  zb := fun _ =>
    { demoZbuf with
      len := 2, refcount := 1
      space := ⟨fun i => if i = 0 then 0x80 else if i = 1 then 0 else 0xAA, []⟩ }
  freeList := none
  totalCount := 2
  freeCount := 0
  allocFailures := 0

/-- **Outputs from outside the frame.**  The bytes that the buffer held before
    are copied to the outputs. -/
theorem outputs_outside_frame : ∃ r,
    pnioRtInput .arm64 demoShortFrame (demoPnio [⟨1, [demoSubslot 8 8]⟩]) 0 0 = some r ∧
      (∀ slot ∈ r.dev.slots, ∀ sub ∈ slot.subslots, sub.outputData 7 = 0xAA) ∧
      ¬ CyclicInput [⟨1, [demoSubslot 8 8]⟩] 2 r := by
  refine ⟨_, rfl, by decide, fun h => ?_⟩
  have hin := h.inside ⟨0, 0, some 0, 2⟩ (by decide)
  exact absurd hin.2 (by decide)

end Gracemont
