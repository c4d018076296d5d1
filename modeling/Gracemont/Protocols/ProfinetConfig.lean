/-
  Gracemont protocols — the slots of a PROFINET IO device
  (`pnio_add_slot`, `pnio_add_subslot`, `pnio_plug_submodule` and
  `pnio_pull_submodule` of `protocols/profinet/profinet.c`).

  A pointer to data is an element of `ρ`, or `none` if it is null.  The limits of
  the arrays are part of the types.  Stores through a pointer do not change the
  configuration; they are logged.

  * `DeviceConfig`: the slots of a device and their subslots;
  * `ConfigCall`: a call, with the results of its allocations;
  * `Sound`: a call that fails changes nothing, and data has its memory;
  * `callSound_iff`, `config_sound_iff`: the calls that are like this.
-/
import Mathlib.Data.List.Basic
import Mathlib.Tactic.SplitIfs
import Gracemont.Kernel.Types
import Gracemont.Lib.Trace

namespace Gracemont

/-- `CONFIG_PROFINET_MAX_SLOTS` and `CONFIG_PROFINET_MAX_SUBSLOTS` -/
def configProfinetMaxSlots : ℕ := 16
def configProfinetMaxSubslots : ℕ := 8

/-! ## Data -/

/-- `pnio_subslot_t` -/
structure SubslotConfig (ρ : Type) where
  slotNumber : BitVec 16
  subslotNumber : BitVec 16
  moduleIdent : BitVec 32
  submoduleIdent : BitVec 32
  inputData : Option ρ
  inputLength : BitVec 16
  outputData : Option ρ
  outputLength : BitVec 16
  iocs : BitVec 8
  iops : BitVec 8
  plugged : Bool

/-- `pnio_slot_t` -/
structure SlotConfig (ρ : Type) where
  slotNumber : BitVec 16
  moduleIdent : BitVec 32
  subslots : List (SubslotConfig ρ)
  plugged : Bool
  subslots_le : subslots.length ≤ configProfinetMaxSubslots

/-- The part of `pnio_device_t` that is configured. -/
structure DeviceConfig (ρ : Type) where
  slots : List (SlotConfig ρ)
  slots_le : slots.length ≤ configProfinetMaxSlots

/-- What a call leaves and returns, and the zeroes that it stores: the pointer and
    the index. -/
structure ConfigResult (ρ : Type) where
  dev : DeviceConfig ρ
  ret : Status
  zeroed : List (Option ρ × ℕ)

variable {ρ : Type}

/-! ## Slots and subslots -/

/-- `pnio_add_slot` -/
def pnioAddSlot (dev : DeviceConfig ρ) (slotNumber : BitVec 16) (moduleIdent : BitVec 32) :
    ConfigResult ρ :=
  if h : configProfinetMaxSlots ≤ dev.slots.length then ⟨dev, .noMem, []⟩
  else
    let slot := ⟨slotNumber, moduleIdent, [], false, Nat.zero_le _⟩
    { dev :=
        { slots := dev.slots ++ [slot]
          slots_le := by rw [List.length_append]; exact Nat.lt_of_not_le h }
      ret := .ok
      zeroed := [] }

/-- `&slot->subslots[slot->subslot_count++]`, unless the array is full. -/
def SlotConfig.addSubslot (slot : SlotConfig ρ) (sub : SubslotConfig ρ) : Option (SlotConfig ρ) :=
  if h : configProfinetMaxSubslots ≤ slot.subslots.length then none
  else some
    { slot with
      subslots := slot.subslots ++ [sub]
      subslots_le := by rw [List.length_append]; exact Nat.lt_of_not_le h }

/-- The first slot of the number gets a subslot; `none` if there is no such slot or
    it is full. -/
def addSubslotTo (slotNumber : BitVec 16) (sub : SlotConfig ρ → SubslotConfig ρ) :
    List (SlotConfig ρ) → Option (List (SlotConfig ρ))
  | [] => none
  | slot :: slots =>
    if slot.slotNumber = slotNumber then (slot.addSubslot (sub slot)).map (· :: slots)
    else (addSubslotTo slotNumber sub slots).map (slot :: ·)

theorem addSubslotTo_length {slotNumber : BitVec 16} {sub : SlotConfig ρ → SubslotConfig ρ}
    {slots slots' : List (SlotConfig ρ)} (h : addSubslotTo slotNumber sub slots = some slots') :
    slots'.length = slots.length := by
  induction slots generalizing slots' with
  | nil => cases h
  | cons slot slots ih =>
    unfold addSubslotTo at h
    split_ifs at h
    · obtain ⟨slot', -, rfl⟩ := Option.map_eq_some_iff.1 h
      rfl
    · obtain ⟨rest, hrest, rfl⟩ := Option.map_eq_some_iff.1 h
      exact congrArg Nat.succ (ih hrest)

/-- The loop that clears `length` bytes. -/
def zeroBytes (data : Option ρ) (length : BitVec 16) : List (Option ρ × ℕ) :=
  (List.range length.toNat).map fun i => (data, i)

section
variable (slotNumber subslotNumber : BitVec 16) (submoduleIdent : BitVec 32)
variable (inputLength outputLength : BitVec 16) (inputAlloc outputAlloc : Option ρ)

/-- The subslot that `pnio_add_subslot` fills in, for a slot; memory is only asked for
    data that has a length. -/
def newSubslot (slot : SlotConfig ρ) : SubslotConfig ρ where
  slotNumber := slotNumber
  subslotNumber := subslotNumber
  moduleIdent := slot.moduleIdent
  submoduleIdent := submoduleIdent
  inputData := if 0 < inputLength then inputAlloc else none
  inputLength := inputLength
  outputData := if 0 < outputLength then outputAlloc else none
  outputLength := outputLength
  iocs := 0x80
  iops := 0x80
  plugged := false

/-- `pnio_add_subslot`, with the results of `heap_alloc` for the input and the output
    data, as far as it is called. -/
def pnioAddSubslot (dev : DeviceConfig ρ) : ConfigResult ρ :=
  let sub := newSubslot slotNumber subslotNumber submoduleIdent inputLength outputLength inputAlloc
    outputAlloc
  match h : addSubslotTo slotNumber sub dev.slots with
  | none => ⟨dev, .error, []⟩
  | some slots =>
    { dev := ⟨slots, (addSubslotTo_length h).symm ▸ dev.slots_le⟩
      ret := .ok
      zeroed := zeroBytes inputAlloc inputLength ++ zeroBytes outputAlloc outputLength }

end

/-! ## Plugging and pulling -/

/-- The loop over the subslots of a slot, which sets `plugged` of the first subslot of
    the number; `none` if there is no such subslot. -/
def SlotConfig.setPlugged (slot : SlotConfig ρ) (subslotNum : BitVec 16) (plugged : Bool) :
    Option (SlotConfig ρ) :=
  if slot.subslots.any (·.subslotNumber = subslotNum) then
    some
      { slot with
        subslots := slot.subslots.replaceF fun sub =>
          if sub.subslotNumber = subslotNum then some { sub with plugged } else none
        subslots_le := List.length_replaceF.symm ▸ slot.subslots_le }
  else none

/-- The loop over the slots.  It goes on behind a slot of the number that has no such
    subslot, which `mark` has changed. -/
def setPluggedIn (slotNum subslotNum : BitVec 16) (mark : SlotConfig ρ → SlotConfig ρ)
    (plugged : Bool) : List (SlotConfig ρ) → List (SlotConfig ρ) × Status
  | [] => ([], .error)
  | slot :: slots =>
    if slot.slotNumber = slotNum then
      match (mark slot).setPlugged subslotNum plugged with
      | some slot => (slot :: slots, .ok)
      | none =>
        let (slots, ret) := setPluggedIn slotNum subslotNum mark plugged slots
        (mark slot :: slots, ret)
    else
      let (slots, ret) := setPluggedIn slotNum subslotNum mark plugged slots
      (slot :: slots, ret)

section
variable (slotNum subslotNum : BitVec 16) (mark : SlotConfig ρ → SlotConfig ρ) (plugged : Bool)

theorem setPluggedIn_length (slots : List (SlotConfig ρ)) :
    (setPluggedIn slotNum subslotNum mark plugged slots).1.length = slots.length := by
  induction slots with
  | nil => rfl
  | cons slot slots ih =>
    unfold setPluggedIn
    split_ifs
    · split
      · rfl
      · exact congrArg Nat.succ ih
    · exact congrArg Nat.succ ih

/-- Both functions, with what they do to a slot of the number. -/
def pnioSetPlugged (dev : DeviceConfig ρ) : ConfigResult ρ where
  dev :=
    { slots := (setPluggedIn slotNum subslotNum mark plugged dev.slots).1
      slots_le := (setPluggedIn_length ..).symm ▸ dev.slots_le }
  ret := (setPluggedIn slotNum subslotNum mark plugged dev.slots).2
  zeroed := []

end

/-- `slot->plugged = true` -/
def SlotConfig.plug (slot : SlotConfig ρ) : SlotConfig ρ := { slot with plugged := true }

/-- `pnio_plug_submodule` -/
def pnioPlugSubmodule (dev : DeviceConfig ρ) (slotNum subslotNum : BitVec 16) : ConfigResult ρ :=
  pnioSetPlugged slotNum subslotNum SlotConfig.plug true dev

/-- `pnio_pull_submodule` -/
def pnioPullSubmodule (dev : DeviceConfig ρ) (slotNum subslotNum : BitVec 16) : ConfigResult ρ :=
  pnioSetPlugged slotNum subslotNum id false dev

/-! ## Calls -/

/-- A call; for a subslot, with the results of the allocations. -/
inductive ConfigCall (ρ : Type) where
  | addSlot (slotNumber : BitVec 16) (moduleIdent : BitVec 32)
  | addSubslot (slotNumber subslotNumber : BitVec 16) (submoduleIdent : BitVec 32)
      (inputLength outputLength : BitVec 16) (inputAlloc outputAlloc : Option ρ)
  | plug (slotNum subslotNum : BitVec 16)
  | pull (slotNum subslotNum : BitVec 16)

def ConfigCall.exec (dev : DeviceConfig ρ) : ConfigCall ρ → ConfigResult ρ
  | addSlot slotNumber moduleIdent => pnioAddSlot dev slotNumber moduleIdent
  | addSubslot slotNumber subslotNumber submoduleIdent inputLength outputLength inputAlloc
      outputAlloc =>
    pnioAddSubslot slotNumber subslotNumber submoduleIdent inputLength outputLength inputAlloc
      outputAlloc dev
  | plug slotNum subslotNum => pnioPlugSubmodule dev slotNum subslotNum
  | pull slotNum subslotNum => pnioPullSubmodule dev slotNum subslotNum

/-- A subslot with data has memory for it. -/
def SubslotConfig.HasData (sub : SubslotConfig ρ) : Prop :=
  (sub.inputLength ≠ 0 → sub.inputData ≠ none) ∧ (sub.outputLength ≠ 0 → sub.outputData ≠ none)

/-- **Data has its memory**, in every subslot. -/
def DeviceConfig.HasData (dev : DeviceConfig ρ) : Prop :=
  ∀ slot ∈ dev.slots, ∀ sub ∈ slot.subslots, sub.HasData

/-- **A sound call**: if it fails, the configuration is as it was; and afterwards, data
    has its memory. -/
def ConfigCall.Sound (dev : DeviceConfig ρ) (call : ConfigCall ρ) : Prop :=
  ((call.exec dev).ret ≠ .ok → (call.exec dev).dev = dev) ∧ (call.exec dev).dev.HasData

/-- The slot that a call would add a subslot to has room for it. -/
def DeviceConfig.HasRoom (dev : DeviceConfig ρ) (slotNumber : BitVec 16) : Prop :=
  ∃ slot, dev.slots.find? (·.slotNumber = slotNumber) = some slot ∧
    slot.subslots.length < configProfinetMaxSubslots

/-- **The calls that are sound**: a subslot is refused, or it gets the memory for its
    data; and a submodule that is plugged is there, or the slots of its number are
    all plugged. -/
def ConfigCall.Ok (dev : DeviceConfig ρ) : ConfigCall ρ → Prop
  | addSubslot slotNumber _ _ inputLength outputLength inputAlloc outputAlloc =>
    dev.HasRoom slotNumber → (inputLength ≠ 0 → inputAlloc ≠ none) ∧
      (outputLength ≠ 0 → outputAlloc ≠ none)
  | plug slotNum subslotNum =>
    (∃ slot ∈ dev.slots, slot.slotNumber = slotNum ∧
      ∃ sub ∈ slot.subslots, sub.subslotNumber = subslotNum) ∨
    ∀ slot ∈ dev.slots, slot.slotNumber = slotNum → slot.plugged
  | addSlot .. | pull .. => True

/-! ## Adding -/

theorem DeviceConfig.ext {dev dev' : DeviceConfig ρ} (h : dev.slots = dev'.slots) : dev = dev' := by
  cases dev
  cases dev'
  cases h
  rfl

/-- A subslot is added to the first slot of the number, if it has room. -/
theorem addSubslotTo_eq_some {slotNumber : BitVec 16} {sub : SlotConfig ρ → SubslotConfig ρ}
    {slots slots' : List (SlotConfig ρ)} (h : addSubslotTo slotNumber sub slots = some slots') :
    ∃ slot front back, slots = front ++ slot :: back ∧
      (∀ s ∈ front, s.slotNumber ≠ slotNumber) ∧ slot.slotNumber = slotNumber ∧
      ∃ slot', slot.addSubslot (sub slot) = some slot' ∧ slots' = front ++ slot' :: back := by
  induction slots generalizing slots' with
  | nil => cases h
  | cons slot slots ih =>
    unfold addSubslotTo at h
    split_ifs at h with hnum
    · obtain ⟨slot', hslot', rfl⟩ := Option.map_eq_some_iff.1 h
      exact ⟨slot, [], slots, rfl, nofun, hnum, slot', hslot', rfl⟩
    · obtain ⟨rest, hrest, rfl⟩ := Option.map_eq_some_iff.1 h
      obtain ⟨s, front, back, rfl, hfront, hs, s', hs', rfl⟩ := ih hrest
      exact ⟨s, slot :: front, back, rfl, List.forall_mem_cons.2 ⟨hnum, hfront⟩, hs, s', hs', rfl⟩

theorem addSubslotTo_isSome {slotNumber : BitVec 16} {sub : SlotConfig ρ → SubslotConfig ρ}
    {slots : List (SlotConfig ρ)} : (addSubslotTo slotNumber sub slots).isSome ↔
      ∃ slot, slots.find? (·.slotNumber = slotNumber) = some slot ∧
        slot.subslots.length < configProfinetMaxSubslots := by
  induction slots with
  | nil => simp [addSubslotTo]
  | cons slot slots ih =>
    unfold addSubslotTo
    by_cases hnum : slot.slotNumber = slotNumber
    · simp [hnum, SlotConfig.addSubslot]
    · simp [hnum, ih]

theorem SlotConfig.addSubslot_subslots {slot slot' : SlotConfig ρ} {sub : SubslotConfig ρ}
    (h : slot.addSubslot sub = some slot') : slot'.subslots = slot.subslots ++ [sub] := by
  unfold addSubslot at h
  split_ifs at h
  cases h
  rfl

/-- Data has its memory after a subslot is added exactly if this holds of the new one. -/
theorem addSubslotTo_hasData {dev dev' : DeviceConfig ρ} (hdata : dev.HasData)
    {slotNumber : BitVec 16} {sub : SlotConfig ρ → SubslotConfig ρ}
    (h : addSubslotTo slotNumber sub dev.slots = some dev'.slots) {P : Prop}
    (hsub : ∀ slot, (sub slot).HasData ↔ P) : dev'.HasData ↔ P := by
  obtain ⟨slot, front, back, hslots, -, -, slot', hslot', hslots'⟩ := addSubslotTo_eq_some h
  have hsubslots := SlotConfig.addSubslot_subslots hslot'
  unfold DeviceConfig.HasData at hdata ⊢
  rw [hslots, List.forall_mem_append, List.forall_mem_cons] at hdata
  rw [hslots', List.forall_mem_append, List.forall_mem_cons, hsubslots, List.forall_mem_append,
    List.forall_mem_singleton, hsub]
  exact ⟨fun h => h.2.1.2, fun hP => ⟨hdata.1, ⟨hdata.2.1, hP⟩, hdata.2.2⟩⟩

section
variable (slotNumber subslotNumber : BitVec 16) (submoduleIdent : BitVec 32)
variable (inputLength outputLength : BitVec 16) (inputAlloc outputAlloc : Option ρ)

/-- A new subslot has memory for its data if the allocations did not fail. -/
theorem newSubslot_hasData (slot : SlotConfig ρ) :
    (newSubslot slotNumber subslotNumber submoduleIdent inputLength outputLength inputAlloc
      outputAlloc slot).HasData ↔
      (inputLength ≠ 0 → inputAlloc ≠ none) ∧ (outputLength ≠ 0 → outputAlloc ≠ none) := by
  have hdata : ∀ (length : BitVec 16) (alloc : Option ρ),
      (length ≠ 0 → (if 0 < length then alloc else none) ≠ none) ↔ (length ≠ 0 → alloc ≠ none) := by
    intro length alloc
    refine imp_congr_right fun hne => ?_
    have hpos : 0 < length := (BitVec.pos_iff_ne_zero _).2 hne
    rw [if_pos hpos]
  exact and_congr (hdata ..) (hdata ..)

/-- What a call does: it is refused, or the subslot is added. -/
theorem pnioAddSubslot_cases (dev : DeviceConfig ρ) :
    let r := pnioAddSubslot slotNumber subslotNumber submoduleIdent inputLength outputLength
      inputAlloc outputAlloc dev
    (r.ret = .error ∧ r.dev = dev ∧ ¬ dev.HasRoom slotNumber) ∨
      (r.ret = .ok ∧ addSubslotTo slotNumber (newSubslot slotNumber subslotNumber submoduleIdent
        inputLength outputLength inputAlloc outputAlloc) dev.slots = some r.dev.slots ∧
        dev.HasRoom slotNumber) := by
  have hroom : dev.HasRoom slotNumber ↔ (addSubslotTo slotNumber (newSubslot slotNumber
      subslotNumber submoduleIdent inputLength outputLength inputAlloc outputAlloc)
        dev.slots).isSome := addSubslotTo_isSome.symm
  dsimp only
  rw [hroom]
  unfold pnioAddSubslot
  dsimp only
  split
  · next h => exact Or.inl ⟨rfl, rfl, by rw [h]; nofun⟩
  · next h => exact Or.inr ⟨rfl, h, by rw [h]; rfl⟩

end

/-! ## Plugging -/

section
variable {slotNum subslotNum : BitVec 16} {mark : SlotConfig ρ → SlotConfig ρ} {plugged : Bool}

/-- Setting `plugged` keeps the memory of data. -/
theorem SlotConfig.setPlugged_hasData {slot slot' : SlotConfig ρ}
    (h : slot.setPlugged subslotNum plugged = some slot')
    (hdata : ∀ sub ∈ slot.subslots, sub.HasData) : ∀ sub ∈ slot'.subslots, sub.HasData := by
  unfold setPlugged at h
  split_ifs at h
  cases h
  dsimp only
  rcases List.exists_or_eq_self_of_replaceF (fun sub : SubslotConfig ρ =>
    if sub.subslotNumber = subslotNum then some { sub with plugged } else none) slot.subslots with
    heq | ⟨sub, sub', front, back, -, hsub', hslots, heq⟩
  · rw [heq]
    exact hdata
  · rw [heq]
    rw [hslots] at hdata
    rw [List.forall_mem_append, List.forall_mem_cons] at hdata ⊢
    refine ⟨hdata.1, ?_, hdata.2.2⟩
    split_ifs at hsub'
    cases hsub'
    exact hdata.2.1

theorem setPluggedIn_hasData (hmark : ∀ slot, (mark slot).subslots = slot.subslots)
    {slots : List (SlotConfig ρ)} (hdata : ∀ slot ∈ slots, ∀ sub ∈ slot.subslots, sub.HasData) :
    ∀ slot ∈ (setPluggedIn slotNum subslotNum mark plugged slots).1,
      ∀ sub ∈ slot.subslots, sub.HasData := by
  induction slots with
  | nil => exact hdata
  | cons slot slots ih =>
    rw [List.forall_mem_cons] at hdata
    unfold setPluggedIn
    split_ifs
    · cases hset : (mark slot).setPlugged subslotNum plugged with
      | some slot' =>
        refine List.forall_mem_cons.2 ⟨SlotConfig.setPlugged_hasData hset ?_, hdata.2⟩
        rw [hmark]
        exact hdata.1
      | none =>
        refine List.forall_mem_cons.2 ⟨?_, ih hdata.2⟩
        rw [hmark]
        exact hdata.1
    · exact List.forall_mem_cons.2 ⟨hdata.1, ih hdata.2⟩

/-- **A call that does not find the subslot** has marked every slot of the number. -/
theorem setPluggedIn_not_ok (slotNum subslotNum : BitVec 16) (plugged : Bool)
    (hmark : ∀ slot, (mark slot).subslots = slot.subslots) (slots : List (SlotConfig ρ)) :
    ((setPluggedIn slotNum subslotNum mark plugged slots).2 ≠ .ok ↔
      ∀ slot ∈ slots, slot.slotNumber = slotNum →
        ∀ sub ∈ slot.subslots, sub.subslotNumber ≠ subslotNum) ∧
    ((setPluggedIn slotNum subslotNum mark plugged slots).2 ≠ .ok →
      (setPluggedIn slotNum subslotNum mark plugged slots).1 =
        slots.map fun slot => if slot.slotNumber = slotNum then mark slot else slot) := by
  induction slots with
  | nil => simp [setPluggedIn]
  | cons slot slots ih =>
    rw [List.forall_mem_cons, List.map_cons]
    unfold setPluggedIn
    by_cases hnum : slot.slotNumber = slotNum
    · simp only [hnum, if_true, true_imp_iff]
      have hset : ((mark slot).setPlugged subslotNum plugged).isSome ↔
          ∃ sub ∈ slot.subslots, sub.subslotNumber = subslotNum := by
        simp [SlotConfig.setPlugged, hmark]
      cases hres : (mark slot).setPlugged subslotNum plugged with
      | some slot' =>
        rw [hres] at hset
        obtain ⟨sub, hsub, hsubnum⟩ := hset.1 rfl
        refine ⟨iff_of_false (fun h => h rfl) fun h => h.1 sub hsub hsubnum, fun h => absurd rfl h⟩
      | none =>
        rw [hres] at hset
        have hnone : ∀ sub ∈ slot.subslots, sub.subslotNumber ≠ subslotNum :=
          fun sub hsub hsubnum => absurd (hset.2 ⟨sub, hsub, hsubnum⟩) nofun
        refine ⟨ih.1.trans (and_iff_right hnone).symm, fun h => ?_⟩
        exact congrArg (List.cons (mark slot)) (ih.2 h)
    · simp only [hnum, if_false, false_imp_iff, true_and]
      exact ⟨ih.1, fun h => congrArg (List.cons slot) (ih.2 h)⟩

end

/-! ## Sound calls -/

/-- **Each call**, on a device whose data has its memory. -/
theorem callSound_iff {dev : DeviceConfig ρ} (hdata : dev.HasData) (call : ConfigCall ρ) :
    call.Sound dev ↔ call.Ok dev := by
  cases call with
  | addSlot slotNumber moduleIdent =>
    refine iff_of_true ?_ trivial
    unfold ConfigCall.Sound ConfigCall.exec pnioAddSlot
    dsimp only
    split_ifs
    · exact ⟨fun _ => rfl, hdata⟩
    · refine ⟨fun h => absurd rfl h, ?_⟩
      exact List.forall_mem_append.2 ⟨hdata, List.forall_mem_singleton.2 nofun⟩
  | addSubslot slotNumber subslotNumber submoduleIdent inputLength outputLength inputAlloc
      outputAlloc =>
    have hnew : ∀ slot, (newSubslot slotNumber subslotNumber submoduleIdent inputLength outputLength
        inputAlloc outputAlloc slot).HasData ↔ (inputLength ≠ 0 → inputAlloc ≠ none) ∧
          (outputLength ≠ 0 → outputAlloc ≠ none) := fun _ => newSubslot_hasData ..
    obtain ⟨hret, hdev, hroom⟩ | ⟨hret, hdev, hroom⟩ :=
      pnioAddSubslot_cases slotNumber subslotNumber submoduleIdent inputLength outputLength
        inputAlloc outputAlloc dev
    · refine iff_of_true ⟨fun _ => hdev, ?_⟩ fun h => absurd h hroom
      exact hdev.symm ▸ hdata
    · refine ⟨fun h _ => (addSubslotTo_hasData hdata hdev hnew).1 h.2, fun h => ?_⟩
      exact ⟨fun hne => absurd hret hne, (addSubslotTo_hasData hdata hdev hnew).2 (h hroom)⟩
  | plug slotNum subslotNum =>
    have hmark : ∀ slot : SlotConfig ρ, slot.plug.subslots = slot.subslots := fun _ => rfl
    have hnot := setPluggedIn_not_ok slotNum subslotNum true hmark dev.slots
    have hplug : ∀ slot : SlotConfig ρ, slot.plug = slot ↔ slot.plugged :=
      fun slot => ⟨fun h => h ▸ rfl, fun h => by cases slot; cases h; rfl⟩
    have hsame : (dev.slots.map fun slot => if slot.slotNumber = slotNum then slot.plug else slot) =
        dev.slots ↔ ∀ slot ∈ dev.slots, slot.slotNumber = slotNum → slot.plugged := by
      have hmap := List.map_inj_left (l := dev.slots) (g := id)
        (f := fun slot => if slot.slotNumber = slotNum then slot.plug else slot)
      rw [List.map_id] at hmap
      refine hmap.trans (forall₂_congr fun slot _ => ?_)
      split_ifs with hnum
      · exact (hplug slot).trans ⟨fun h _ => h, fun h => h hnum⟩
      · exact iff_of_true rfl fun h => absurd h hnum
    constructor
    · intro h
      by_cases hfound : ∃ slot ∈ dev.slots, slot.slotNumber = slotNum ∧
          ∃ sub ∈ slot.subslots, sub.subslotNumber = subslotNum
      · exact Or.inl hfound
      · right
        have hret := hnot.1.2 fun slot hslot hnum sub hsub hsubnum =>
          hfound ⟨slot, hslot, hnum, sub, hsub, hsubnum⟩
        exact hsame.1 ((hnot.2 hret).symm.trans (congrArg DeviceConfig.slots (h.1 hret)))
    · intro h
      refine ⟨fun hret => DeviceConfig.ext ((hnot.2 hret).trans (hsame.2 ?_)),
        setPluggedIn_hasData hmark hdata⟩
      rcases h with ⟨slot, hslot, hnum, sub, hsub, hsubnum⟩ | hall
      · exact absurd hsubnum (hnot.1.1 hret slot hslot hnum sub hsub)
      · exact hall
  | pull slotNum subslotNum =>
    refine iff_of_true ⟨fun h => DeviceConfig.ext ?_, ?_⟩ trivial
    · refine ((setPluggedIn_not_ok slotNum subslotNum false (fun _ => rfl) dev.slots).2 h).trans ?_
      simp
    · exact setPluggedIn_hasData (fun _ => rfl) hdata

/-! ## Runs -/

/-- Calls on a device whose data has its memory, one after the other. -/
def configCalls (ρ : Type) : Lib.Lts (DeviceConfig ρ) (ConfigCall ρ) where
  init := DeviceConfig.HasData
  step dev call dev' := dev' = (call.exec dev).dev

/-- **Calls one after the other** are all sound exactly if each is one of the sound
    calls at the device that it finds. -/
theorem config_sound_iff (calls : List (ConfigCall ρ)) (dev : DeviceConfig ρ) :
    ((configCalls ρ).restrict fun dev call => call.Sound dev).Run calls dev ↔
      ((configCalls ρ).restrict fun dev call => call.Ok dev).Run calls dev := by
  refine (Lib.Lts.restrict_iff (I := DeviceConfig.HasData) (fun _ h => h) ?_).1
  rintro dev call _ hdata rfl
  exact ⟨callSound_iff hdata call, fun h => ((callSound_iff hdata call).2 h).2⟩

/-- A device with an empty slot, as `pnio_add_slot` leaves it. -/
def demoIoConfig : DeviceConfig (Fin 2) := ⟨[⟨1, 0x10, [], false, by decide⟩], by decide⟩

/-- **A submodule that is not there** is not plugged, but its slot is; and a subslot
    whose allocation fails is there, with data at a null pointer. -/
theorem config_calls_unsound :
    (((ConfigCall.plug 1 1).exec demoIoConfig).ret = .error ∧
      ((ConfigCall.plug 1 1).exec demoIoConfig).dev.slots.map (·.plugged) = [true] ∧
      ¬ (ConfigCall.plug 1 1).Sound demoIoConfig) ∧
    ((ConfigCall.addSubslot 1 1 0 8 0 none none).exec demoIoConfig).ret = .ok ∧
      ¬ (ConfigCall.addSubslot 1 1 0 8 0 none none).Sound demoIoConfig := by
  refine ⟨⟨rfl, rfl, fun h => ?_⟩, rfl, fun h => ?_⟩
  · have hslots := congrArg DeviceConfig.slots (h.1 (by decide))
    exact absurd (congrArg (List.map (·.plugged)) hslots) (by decide)
  · have hsub := h.2 _ (List.mem_singleton_self _) _ (List.mem_singleton_self _)
    exact hsub.1 (by decide) rfl

end Gracemont
