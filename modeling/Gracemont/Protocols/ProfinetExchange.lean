/-
  Gracemont protocols — cyclic data between PROFINET IO devices.

  Any number of devices are on one Ethernet.  Their applications write input data
  and status through the access functions of `protocols/profinet/profinet.c`, the
  tasks poll, and frames arrive.  The network loses, repeats and reorders frames,
  and pads short ones; other stations send any frames, but none with the ids of the
  devices.

  * `findSubslot`, `updateSubslot`: the access functions;
  * `inputImage`, `outputImage`: the cyclic data of a device;
  * `pnioLanLts`: the devices and the network;
  * `cyclic_exchange`: the outputs of a device were the inputs of one other, all at
    the same moment.
-/
import Mathlib.Data.List.Lookmap
import Gracemont.Lib.Trace
import Gracemont.Net.Transmit
import Gracemont.Protocols.ProfinetInput
import Gracemont.Protocols.ProfinetPoll

namespace Gracemont

open Lib (ByteMem)

/-! ## Cyclic data -/

/-- The data of a subslot and its status. -/
structure CyclicItem where
  data : List (BitVec 8)
  status : BitVec 8
  deriving DecidableEq, Repr

/-- An item as it is in a frame. -/
def CyclicItem.bytes (item : CyclicItem) : List (BitVec 8) := item.data ++ [item.status]

namespace PnioSubslot
variable (sub : PnioSubslot)

/-- The bytes at `output_data`. -/
def outputBytes : List (BitVec 8) := (List.range sub.outputLength.toNat).map sub.outputData

/-- What a plugged subslot provides. -/
def inputItem : Option CyclicItem :=
  if sub.plugged ∧ 0 < sub.inputLength then some ⟨sub.inputBytes, sub.iops⟩ else none

/-- What a plugged subslot was given. -/
def outputItem : Option CyclicItem :=
  if sub.plugged ∧ 0 < sub.outputLength then some ⟨sub.outputBytes, sub.iocs⟩ else none

/-- What is configured. -/
def shape : Bool × BitVec 16 × BitVec 16 := (sub.plugged, sub.inputLength, sub.outputLength)

end PnioSubslot

/-- All subslots, in the order of the loops. -/
def allSubslots (slots : List PnioSlot) : List PnioSubslot := slots.flatMap PnioSlot.subslots

/-- The input data of a device. -/
def inputImage (slots : List PnioSlot) : List CyclicItem :=
  (allSubslots slots).filterMap PnioSubslot.inputItem

/-- The output data of a device. -/
def outputImage (slots : List PnioSlot) : List CyclicItem :=
  (allSubslots slots).filterMap PnioSubslot.outputItem

/-- The lengths of the data. -/
def imageLayout (image : List CyclicItem) : List ℕ := image.map fun item => item.data.length

/-- The configuration of the subslots. -/
def slotsShape (slots : List PnioSlot) : List (Bool × BitVec 16 × BitVec 16) :=
  (allSubslots slots).map PnioSubslot.shape

/-! ## The access functions -/

section
variable (slots : List PnioSlot) (slotNum subslotNum : BitVec 16)

/-- The loops of the access functions: the first subslot of the number, in the
    first slot of the number that has one. -/
def findSubslot : Option PnioSubslot :=
  slots.findSome? fun slot =>
    if slot.slotNumber = slotNum then slot.subslots.find? fun sub => sub.subslotNumber = subslotNum
    else none

/-- A change of this subslot. -/
def updateSubslot (f : PnioSubslot → PnioSubslot) : List PnioSlot :=
  slots.lookmap fun slot =>
    if slot.slotNumber = slotNum ∧ ∃ sub ∈ slot.subslots, sub.subslotNumber = subslotNum then
      some { slot with
        subslots := slot.subslots.lookmap fun sub =>
          if sub.subslotNumber = subslotNum then some (f sub) else none }
    else none

end

section
variable {α : Type} (dev : PnioDevice α) (slotNum subslotNum : BitVec 16)

/-- `pnio_get_output_data`; the bytes at the pointer. -/
def pnioGetOutputData : Option (ℕ → BitVec 8) :=
  (findSubslot dev.slots slotNum subslotNum).map PnioSubslot.outputData

/-- `pnio_get_input_data(dev, slot_num, subslot_num)[k] = v` -/
def pnioPutInput (k : ℕ) (v : BitVec 8) : PnioDevice α :=
  { dev with
    slots := updateSubslot dev.slots slotNum subslotNum fun sub =>
      { sub with inputData := Function.update sub.inputData k v } }

/-- `pnio_set_iops` -/
def pnioSetIops (iops : BitVec 8) : PnioDevice α :=
  { dev with
    slots := updateSubslot dev.slots slotNum subslotNum fun sub => { sub with iops := iops } }

/-- `pnio_get_iocs` -/
def pnioGetIocs : BitVec 8 :=
  match findSubslot dev.slots slotNum subslotNum with
  | some sub => sub.iocs
  | none => 0

end

/-- What the change keeps of every subslot, it keeps of all. -/
theorem updateSubslot_map {β : Type} (g : PnioSubslot → β) {f : PnioSubslot → PnioSubslot}
    (h : ∀ sub, g (f sub) = g sub) (slots : List PnioSlot) (slotNum subslotNum : BitVec 16) :
    (allSubslots (updateSubslot slots slotNum subslotNum f)).map g = (allSubslots slots).map g := by
  have hslots : (updateSubslot slots slotNum subslotNum f).map (fun slot => slot.subslots.map g) =
      slots.map fun slot => slot.subslots.map g := by
    refine List.lookmap_map_eq _ _ ?_ slots
    intro slot slot' hslot
    obtain ⟨-, hslot⟩ := Option.ite_none_right_eq_some.1 hslot
    obtain rfl := Option.some.inj hslot
    refine (List.lookmap_map_eq _ _ ?_ slot.subslots).symm
    intro sub sub' hsub
    obtain ⟨-, hsub⟩ := Option.ite_none_right_eq_some.1 hsub
    obtain rfl := Option.some.inj hsub
    exact (h sub).symm
  rw [allSubslots, allSubslots, List.map_flatMap, List.map_flatMap, List.flatMap_def,
    List.flatMap_def, hslots]

/-- The image is known from the items. -/
theorem image_congr {f : PnioSubslot → Option CyclicItem} {slots slots' : List PnioSlot}
    (h : (allSubslots slots').map f = (allSubslots slots).map f) :
    (allSubslots slots').filterMap f = (allSubslots slots).filterMap f := by
  have hid : ∀ l : List PnioSubslot, l.filterMap f = (l.map f).filterMap id := by
    intro l
    rw [List.filterMap_map]
    rfl
  rw [hid, hid, h]

/-- A change of an input keeps the outputs and the configuration. -/
theorem updateSubslot_keeps {f : PnioSubslot → PnioSubslot}
    (hshape : ∀ sub, (f sub).shape = sub.shape) (hout : ∀ sub, (f sub).outputItem = sub.outputItem)
    (slots : List PnioSlot) (slotNum subslotNum : BitVec 16) :
    slotsShape (updateSubslot slots slotNum subslotNum f) = slotsShape slots ∧
      outputImage (updateSubslot slots slotNum subslotNum f) = outputImage slots :=
  ⟨updateSubslot_map _ hshape slots slotNum subslotNum,
    image_congr (updateSubslot_map _ hout slots slotNum subslotNum)⟩

/-! ## Layouts -/

/-- The length of the data of an item. -/
def itemLen (plugged : Bool) (length : BitVec 16) : Option ℕ :=
  if plugged ∧ 0 < length then some length.toNat else none

theorem inputItem_len (sub : PnioSubslot) :
    sub.inputItem.map (fun item => item.data.length) = itemLen sub.plugged sub.inputLength := by
  unfold PnioSubslot.inputItem itemLen PnioSubslot.inputBytes
  split_ifs
  · simp
  · rfl

theorem outputItem_len (sub : PnioSubslot) :
    sub.outputItem.map (fun item => item.data.length) = itemLen sub.plugged sub.outputLength := by
  unfold PnioSubslot.outputItem itemLen PnioSubslot.outputBytes
  split_ifs
  · simp
  · rfl

/-- The layout only depends on the configuration. -/
theorem imageLayout_congr {f : PnioSubslot → Option CyclicItem}
    {g : Bool × BitVec 16 × BitVec 16 → Option ℕ}
    (hf : ∀ sub, (f sub).map (fun item => item.data.length) = g sub.shape)
    {slots slots' : List PnioSlot} (h : slotsShape slots' = slotsShape slots) :
    imageLayout ((allSubslots slots').filterMap f) =
      imageLayout ((allSubslots slots).filterMap f) := by
  have hlayout : ∀ slots, imageLayout ((allSubslots slots).filterMap f) =
      (slotsShape slots).filterMap g := by
    intro slots
    rw [imageLayout, slotsShape, List.map_filterMap, List.filterMap_map]
    exact List.filterMap_congr fun sub _ => hf sub
  rw [hlayout, hlayout, h]

theorem inputImage_layout {slots slots' : List PnioSlot}
    (h : slotsShape slots' = slotsShape slots) :
    imageLayout (inputImage slots') = imageLayout (inputImage slots) :=
  imageLayout_congr (g := fun c => itemLen c.1 c.2.1) inputItem_len h

theorem outputImage_layout {slots slots' : List PnioSlot}
    (h : slotsShape slots' = slotsShape slots) :
    imageLayout (outputImage slots') = imageLayout (outputImage slots) :=
  imageLayout_congr (g := fun c => itemLen c.1 c.2.2) outputItem_len h

theorem frameLen_congr {slots slots' : List PnioSlot} (h : slotsShape slots' = slotsShape slots) :
    frameLen slots' = frameLen slots := by
  have hlen : ∀ slots, frameLen slots = 2 + ((slotsShape slots).map fun c =>
      if c.1 then c.2.1.toNat + 1 else 0).sum + 4 := by
    intro slots
    have hinputs : cyclicInputs slots = (allSubslots slots).flatMap PnioSubslot.inputPart := by
      rw [cyclicInputs, allSubslots, List.flatMap_assoc]
    rw [frameLen, hinputs, List.length_flatMap, slotsShape, List.map_map]
    congr 3
    exact List.map_congr_left fun sub _ => inputPart_length sub
  rw [hlen, hlen, h]

/-- The bytes that are sent are the image. -/
theorem sentInputs_eq (slots : List PnioSlot) :
    sentInputs slots = (inputImage slots).flatMap CyclicItem.bytes := by
  have hsub : ∀ l : List PnioSubslot, l.flatMap PnioSubslot.send =
      (l.filterMap PnioSubslot.inputItem).flatMap CyclicItem.bytes := by
    intro l
    induction l with
    | nil => rfl
    | cons sub l ih =>
      rw [List.flatMap_cons, ih]
      by_cases hsend : sub.plugged ∧ 0 < sub.inputLength
      · have hitem : sub.inputItem = some ⟨sub.inputBytes, sub.iops⟩ := if_pos hsend
        rw [List.filterMap_cons_some hitem, List.flatMap_cons, PnioSubslot.send, if_pos hsend]
        rfl
      · have hitem : sub.inputItem = none := if_neg hsend
        rw [List.filterMap_cons_none hitem, PnioSubslot.send, if_neg hsend, List.nil_append]
  rw [sentInputs, inputImage, ← hsub, allSubslots, List.flatMap_assoc]

/-! ## Receiving -/

/-- The bytes of an image. -/
def imageBytes (image : List CyclicItem) : List (BitVec 8) := image.flatMap CyclicItem.bytes

/-- The image is in the frame, `a` bytes behind the frame id. -/
def HoldsImage (frame : ℕ → BitVec 8) (a : ℕ) (image : List CyclicItem) : Prop :=
  bytesFrom frame (2 + a) (imageBytes image).length = imageBytes image

theorem imageBytes_append (image image' : List CyclicItem) :
    imageBytes (image ++ image') = imageBytes image ++ imageBytes image' := List.flatMap_append

theorem HoldsImage.append_iff {frame : ℕ → BitVec 8} {a : ℕ} {image image' : List CyclicItem} :
    HoldsImage frame a (image ++ image') ↔
      HoldsImage frame a image ∧ HoldsImage frame (a + (imageBytes image).length) image' := by
  unfold HoldsImage
  rw [imageBytes_append, List.length_append, bytesFrom_append, ← Nat.add_assoc]
  refine ⟨fun h => List.append_inj h (bytesFrom_length ..), fun h => ?_⟩
  rw [h.1, h.2]

section
variable (frame : ℕ → BitVec 8) (notify : Bool) (number : BitVec 16) {i j : ℕ}

/-- What no copy changes. -/
theorem input_keeps {β : Type} {g : PnioSubslot → β}
    (h : ∀ (sub : PnioSubslot) (c : PnioCopy), g (sub.store frame c) = g sub) (sub : PnioSubslot)
    (scan : PnioScan) : g (sub.input frame notify number i j scan).1 = g sub := by
  have hfold : ∀ (cs : List PnioCopy) (sub : PnioSubslot),
      g (cs.foldl (fun sub c => sub.store frame c) sub) = g sub := by
    intro cs
    induction cs with
    | nil => exact fun _ => rfl
    | cons c cs ih => exact fun sub => (ih _).trans (h sub c)
  unfold PnioSubslot.input
  by_cases hout : sub.plugged ∧ 0 < sub.outputLength
  · rw [if_pos hout]
    exact hfold _ sub
  · rw [if_neg hout]

theorem subslotsInput_keeps {β : Type} {g : PnioSubslot → β}
    (h : ∀ (sub : PnioSubslot) (c : PnioCopy), g (sub.store frame c) = g sub)
    (subs : List PnioSubslot) (scan : PnioScan) :
    (subslotsInput frame notify number i j subs scan).1.map g = subs.map g := by
  induction subs generalizing j scan with
  | nil => rfl
  | cons sub subs ih =>
    exact congrArg₂ List.cons (input_keeps frame notify number h sub scan) (ih ..)

theorem slotsInput_keeps {β : Type} {g : PnioSubslot → β}
    (h : ∀ (sub : PnioSubslot) (c : PnioCopy), g (sub.store frame c) = g sub)
    (slots : List PnioSlot) (scan : PnioScan) :
    (allSubslots (slotsInput frame notify i slots scan).1).map g = (allSubslots slots).map g := by
  induction slots generalizing i scan with
  | nil => rfl
  | cons slot slots ih =>
    have hfirst := subslotsInput_keeps frame notify slot.slotNumber (i := i) (j := 0) h
      slot.subslots scan
    have hrest := ih (i := i + 1)
      (subslotsInput frame notify slot.slotNumber i 0 slot.subslots scan).2
    show List.map g (_ ++ _) = List.map g (_ ++ _)
    rw [List.map_append, List.map_append]
    exact congrArg₂ (· ++ ·) hfirst hrest

/-- The copies of the data. -/
theorem foldl_store (sub : PnioSubslot) (i j o n : ℕ) :
    ((List.range n).map fun k => (⟨i, j, some k, 2 + (o + k)⟩ : PnioCopy)).foldl
        (fun sub c => sub.store frame c) sub =
      { sub with
        outputData := fun k => if k < n then frame (2 + (o + k)) else sub.outputData k } := by
  induction n with
  | zero => simp
  | succ n ih =>
    rw [List.range_succ, List.map_append, List.foldl_append, ih]
    simp only [List.map_cons, List.map_nil, List.foldl_cons, List.foldl_nil, PnioSubslot.store]
    congr 1
    funext k
    by_cases hk : k = n
    · rw [hk, Function.update_self, if_pos (Nat.lt_succ_self n)]
    · rw [Function.update_of_ne hk]
      have hiff : k < n + 1 ↔ k < n := by omega
      simp only [hiff]

/-- The body of the loops, when the frame has an item for the subslot. -/
theorem input_item {sub : PnioSubslot} {scan : PnioScan} {item : CyclicItem}
    (hout : sub.plugged ∧ 0 < sub.outputLength)
    (hlen : item.data.length = sub.outputLength.toNat)
    (hfits : scan.offset.toNat + (imageBytes [item]).length < 2 ^ 16)
    (hholds : HoldsImage frame scan.offset.toNat [item]) :
    (sub.input frame notify number i j scan).1.outputItem = some item ∧
      (sub.input frame notify number i j scan).2.offset.toNat =
        scan.offset.toNat + (imageBytes [item]).length := by
  have hbytes : imageBytes [item] = item.data ++ [item.status] := List.flatMap_singleton ..
  unfold HoldsImage at hholds
  rw [hbytes, List.length_append, List.length_singleton] at hfits hholds ⊢
  rw [bytesFrom_append] at hholds
  obtain ⟨hdata, hstatus⟩ := List.append_inj hholds (bytesFrom_length ..)
  have hone : (1 : BitVec 16).toNat = 1 := rfl
  have hoff : (scan.offset + sub.outputLength).toNat = scan.offset.toNat + item.data.length := by
    rw [BitVec.toNat_add, hlen]
    omega
  rw [PnioSubslot.input, if_pos hout]
  constructor
  · simp only [PnioSubslot.copies, List.foldl_append, foldl_store, List.foldl_cons, List.foldl_nil]
    refine (if_pos hout).trans ?_
    simp only [PnioSubslot.store, PnioSubslot.outputBytes]
    have hstatus : frame (2 + (scan.offset + sub.outputLength).toNat) = item.status := by
      rw [hoff, ← Nat.add_assoc]
      exact List.head_eq_of_cons_eq hstatus
    have hdata : (List.range sub.outputLength.toNat).map
        (fun k => if k < sub.outputLength.toNat then frame (2 + (scan.offset.toNat + k))
          else sub.outputData k) = item.data := by
      rw [← hdata, hlen, bytesFrom]
      refine List.map_congr_left fun k hk => ?_
      rw [if_pos (List.mem_range.1 hk), Nat.add_assoc]
    rw [hstatus, hdata]
  · show (scan.offset + sub.outputLength + 1).toNat = _
    rw [BitVec.toNat_add, hoff, hone]
    omega

/-- The loop over the subslots, when the frame has an image for them. -/
theorem subslotsInput_image (subs : List PnioSubslot) : ∀ {j : ℕ} {scan : PnioScan}
    {image : List CyclicItem},
    imageLayout image = imageLayout (subs.filterMap PnioSubslot.outputItem) →
    scan.offset.toNat + (imageBytes image).length < 2 ^ 16 →
    HoldsImage frame scan.offset.toNat image →
    (subslotsInput frame notify number i j subs scan).1.filterMap PnioSubslot.outputItem = image ∧
      (subslotsInput frame notify number i j subs scan).2.offset.toNat =
        scan.offset.toNat + (imageBytes image).length := by
  induction subs with
  | nil =>
    intro j scan image hlayout _ _
    obtain rfl : image = [] := List.map_eq_nil_iff.1 hlayout
    exact ⟨rfl, rfl⟩
  | cons sub subs ih =>
    intro j scan image hlayout hfits hholds
    by_cases hout : sub.plugged ∧ 0 < sub.outputLength
    · have hitem : sub.outputItem = some ⟨sub.outputBytes, sub.iocs⟩ := if_pos hout
      rw [List.filterMap_cons_some hitem] at hlayout
      obtain ⟨item, image, rfl, hlen, hlayout⟩ := List.map_eq_cons_iff.1 hlayout
      have hlen : item.data.length = sub.outputLength.toNat := by
        refine hlen.trans ?_
        simp [PnioSubslot.outputBytes]
      have hcons : item :: image = [item] ++ image := rfl
      rw [hcons] at hfits hholds ⊢
      rw [imageBytes_append, List.length_append, ← Nat.add_assoc] at hfits ⊢
      obtain ⟨hfirst, hrest⟩ := HoldsImage.append_iff.1 hholds
      obtain ⟨hitem', hoff⟩ := input_item frame notify number (i := i) (j := j) hout hlen
        (by omega) hfirst
      rw [← hoff] at hfits hrest ⊢
      obtain ⟨himage, hoff'⟩ := ih (j := j + 1) hlayout hfits hrest
      refine ⟨?_, hoff'⟩
      exact (List.filterMap_cons_some hitem').trans (congrArg (item :: ·) himage)
    · have hitem : sub.outputItem = none := if_neg hout
      have hskip : sub.input frame notify number i j scan = (sub, scan) := if_neg hout
      rw [List.filterMap_cons_none hitem] at hlayout
      obtain ⟨himage, hoff⟩ := ih (j := j + 1) hlayout hfits hholds
      rw [subslotsInput, hskip]
      exact ⟨by rw [← himage]; exact List.filterMap_cons_none hitem, hoff⟩

/-- **The loops of `pnio_rt_input`**, when the frame has an image for all subslots. -/
theorem slotsInput_image (slots : List PnioSlot) : ∀ {i : ℕ} {scan : PnioScan}
    {image : List CyclicItem}, imageLayout image = imageLayout (outputImage slots) →
    scan.offset.toNat + (imageBytes image).length < 2 ^ 16 →
    HoldsImage frame scan.offset.toNat image →
    outputImage (slotsInput frame notify i slots scan).1 = image := by
  induction slots with
  | nil =>
    intro i scan image hlayout _ _
    exact (List.map_eq_nil_iff.1 hlayout).symm
  | cons slot slots ih =>
    intro i scan image hlayout hfits hholds
    have hcons : outputImage (slot :: slots) =
        slot.subslots.filterMap PnioSubslot.outputItem ++ outputImage slots :=
      List.filterMap_append
    rw [hcons, imageLayout, imageLayout, List.map_append] at hlayout
    obtain ⟨image₁, image₂, rfl, hlayout₁, hlayout₂⟩ := List.map_eq_append_iff.1 hlayout
    rw [imageBytes_append, List.length_append, ← Nat.add_assoc] at hfits
    obtain ⟨hfirst, hrest⟩ := HoldsImage.append_iff.1 hholds
    obtain ⟨himage₁, hoff⟩ := subslotsInput_image frame notify slot.slotNumber (i := i)
      slot.subslots (j := 0) hlayout₁ (by omega) hfirst
    rw [← hoff] at hfits hrest
    have himage₂ := ih (i := i + 1) hlayout₂ hfits hrest
    rw [← himage₁, ← himage₂]
    exact List.filterMap_append

end

/-! ## Sending -/

/-- The frame of `pnio_rt_send` with this frame id and image; further bytes may
    follow. -/
def CarriesImage (id : BitVec 16) (image : List CyclicItem) (f : List (BitVec 8)) : Prop :=
  [hiByte id, loByte id] ++ imageBytes image <+: f.drop ethHdrLen

section
variable {α : Type} [DecidableEq α]

/-- **A frame that is sent** has all inputs of the device, if its length does not
    wrap. -/
theorem pnioRtSend_image {pool pool' : ZbufPool α} {dev : PnioDevice α} {now : BitVec 64} {zb : α}
    (hfits : frameLen dev.slots + ethHdrLen < 2 ^ 16)
    (h : (pnioRtSend pool dev now).sent = some (pool', zb)) :
    ∃ ar, dev.ar.head? = some ar ∧
      CarriesImage ar.inputFrameId (inputImage dev.slots) (payloadOf (pool'.zb zb)) := by
  obtain ⟨ar, zb', hsends⟩ : ∃ ar zb, Sends pool dev ar zb := by
    by_contra hno
    rw [pnioRtSend_none now fun ar zb hs => hno ⟨ar, zb, hs⟩] at h
    cases h
  obtain ⟨pool'', hsent, hbuilt, -⟩ := pnioRtSend_sent now hsends
  obtain ⟨rfl, rfl⟩ : pool'' = pool' ∧ zb' = zb := by
    simpa using hsent.symm.trans h
  have hsize := hsends.size
  have hroom : configZbufSize - configZbufHeadroom = 1920 := rfl
  have heth : ethHdrLen = 14 := rfl
  have hdataLen : (pnioDataLen dev.slots).toNat = frameLen dev.slots := by
    rw [pnioDataLen_eq, BitVec.toNat_ofNat]
    omega
  obtain ⟨hdata, hlen, hspace⟩ := hbuilt (by omega)
  have hlen := (congrArg BitVec.toNat hlen).trans (dataLen_add dev.slots)
  have hsentLen : (rtBytes dev ar).length = 2 + (sentInputs dev.slots).length + 4 := rtBytes_length
  have hshort : (sentInputs dev.slots).length ≤ (cyclicInputs dev.slots).length := by
    have hsub := (flatMap_length_iff (f := fun slot : PnioSlot =>
      slot.subslots.flatMap PnioSubslot.send) (l := dev.slots) fun slot _ =>
        (flatMap_length_iff fun sub (_ : sub ∈ slot.subslots) => send_sublist sub).1).1
    exact hsub.length_le
  have hframe : frameLen dev.slots = 2 + (cyclicInputs dev.slots).length + 4 := rfl
  refine ⟨ar, hsends.relation.1, ?_⟩
  obtain ⟨n, hn⟩ : ∃ n, (pool''.zb zb').len.toNat = ethHdrLen + ((rtBytes dev ar).length + n) :=
    ⟨_, (Nat.add_sub_of_le (by omega)).symm.trans (Nat.add_assoc ..)⟩
  have hread : bytesFrom (pool''.zb zb').space.byte ((pool''.zb zb').data + ethHdrLen)
      (rtBytes dev ar).length = rtBytes dev ar := by
    rw [hdata]
    refine Eq.trans (ByteMem.read_congr fun i _ => ?_) (ByteMem.read_putBytes
      (pool.zb zb').space configZbufHeadroom (rtBytes dev ar))
    rw [hspace]
    exact (putEthHdr_within ..).frame _ (Or.inr (by omega))
  rw [CarriesImage, payloadOf, hn, bytesFrom_append, bytesFrom_append, hread,
    List.drop_left' (bytesFrom_length ..), rtBytes, pnioRtBytes, sentInputs_eq]
  exact ((List.prefix_append _ _).trans (List.prefix_append _ _))

variable (clock : ℕ → BitVec 64)

/-- A poll keeps the relations and the slots, and its frames have the inputs. -/
theorem pollLoop_image (i : ℕ) (ars : List PnioAr) (pool : ZbufPool α) (dev : PnioDevice α) :
    ((pollLoop clock i ars pool dev).dev.ar = dev.ar ∧
      (pollLoop clock i ars pool dev).dev.slots = dev.slots) ∧
    (frameLen dev.slots + ethHdrLen < 2 ^ 16 → ∀ b ∈ (pollLoop clock i ars pool dev).sent,
      ∃ ar, dev.ar.head? = some ar ∧
        CarriesImage ar.inputFrameId (inputImage dev.slots) (payloadOf (b.1.zb b.2))) := by
  induction ars generalizing i pool dev with
  | nil =>
    refine ⟨⟨rfl, rfl⟩, ?_⟩
    intro _ b hb
    cases hb
  | cons ar ars ih =>
    by_cases hactive : ar.active
    · rw [pollLoop, if_pos hactive]
      obtain ⟨har, hslots⟩ := pnioRtSend_keeps pool dev (clock i)
      obtain ⟨⟨har', hslots'⟩, hrest⟩ :=
        ih (i + 1) (pnioRtSend pool dev (clock i)).pool (pnioRtSend pool dev (clock i)).dev
      refine ⟨⟨har'.trans har, hslots'.trans hslots⟩, ?_⟩
      intro hfits b hb
      rw [hslots, har] at hrest
      obtain ⟨call, hcall, hb⟩ := List.mem_filterMap.1 hb
      rcases List.mem_cons.1 hcall with rfl | hcall
      · exact pnioRtSend_image hfits hb
      · exact hrest hfits b (List.mem_filterMap.2 ⟨call, hcall, hb⟩)
    · rw [pollLoop, if_neg hactive]
      exact ih (i + 1) pool dev

theorem pnioDevicePoll_image (port : Port) (pool : ZbufPool α) (dev : PnioCyclic α)
    (now : BitVec 64) :
    ((pnioDevicePoll clock port pool dev now).dev.ar = dev.ar ∧
      (pnioDevicePoll clock port pool dev now).dev.slots = dev.slots) ∧
    (frameLen dev.slots + ethHdrLen < 2 ^ 16 → ∀ b ∈ (pnioDevicePoll clock port pool dev now).sent,
      ∃ ar, dev.ar.head? = some ar ∧
        CarriesImage ar.inputFrameId (inputImage dev.slots) (payloadOf (b.1.zb b.2))) := by
  have hquiet : ∀ b ∈ (⟨pool, dev.toPnioDevice, []⟩ : Poll α).sent, ∃ ar, dev.ar.head? = some ar ∧
      CarriesImage ar.inputFrameId (inputImage dev.slots) (payloadOf (b.1.zb b.2)) := by
    intro b hb
    cases hb
  unfold pnioDevicePoll
  split_ifs
  · exact pollLoop_image clock 0 dev.ar pool dev.toPnioDevice
  · exact ⟨⟨rfl, rfl⟩, fun _ => hquiet⟩
  · exact ⟨⟨rfl, rfl⟩, fun _ => hquiet⟩

omit [DecidableEq α] in
/-- A frame that arrives starts with these bytes. -/
theorem holdsImage_of_prefix {z : Zbuf α} {id : BitVec 16} {image : List CyclicItem}
    (h : [hiByte id, loByte id] ++ imageBytes image <+: payloadOf z) :
    2 + (imageBytes image).length ≤ z.len.toNat ∧ be16 z.frame 0 = id ∧
      HoldsImage z.frame 0 image := by
  have htwo : ([hiByte id, loByte id] ++ imageBytes image).length =
      2 + (imageBytes image).length := by
    rw [List.length_append]
    rfl
  have hlen := h.length_le
  rw [payloadOf_length, htwo] at hlen
  obtain ⟨rest, hrest⟩ := h
  rw [payloadOf, ← Nat.add_sub_of_le hlen, bytesFrom_append] at hrest
  have hbytes := (List.append_inj hrest (htwo.trans (bytesFrom_length ..).symm)).1
  rw [bytesFrom_append] at hbytes
  obtain ⟨hid, himage⟩ := List.append_inj hbytes (by simp [bytesFrom_length])
  refine ⟨hlen, ?_, ?_⟩
  · obtain ⟨hhi, hlo⟩ : hiByte id = z.space.byte (z.data + 0) ∧
        loByte id = z.space.byte (z.data + 1) := by
      simpa [bytesFrom, List.range_succ] using hid
    rw [be16, Zbuf.frame, Zbuf.frame, ← hhi, ← hlo]
    exact hiByte_append_loByte id
  · refine Eq.trans ?_ himage.symm
    exact bytesFrom_congr fun k _ => congrArg z.space.byte (by omega)

/-- What `pnio_rt_input` does to the device: nothing, or the loops for a relation
    with the id of the frame. -/
theorem pnioRtInput_cases {port : Port} {pool : ZbufPool α} {dev : PnioDevice α} {zb : α}
    {now : BitVec 64} {r : RtInput α} (h : pnioRtInput port pool dev zb now = some r) :
    r.dev = dev ∨ (¬ (pool.zb zb).len < 2 ∧ (dev.findAr (be16 (pool.zb zb).frame 0)).isSome) ∧
      r.dev.ar = dev.ar ∧ r.dev.slots = (slotsInput (pool.zb zb).frame dev.onDataReceived 0
        dev.slots ⟨0, [], []⟩).1 := by
  unfold pnioRtInput at h
  by_cases hshort : (pool.zb zb).len < 2
  · rw [if_pos hshort] at h
    cases h
    exact .inl rfl
  · rw [if_neg hshort] at h
    dsimp only at h
    cases har : dev.findAr (be16 (pool.zb zb).frame 0) with
    | none =>
      rw [har] at h
      dsimp only at h
      split_ifs at h
      cases h
      exact .inl rfl
    | some ar =>
      rw [har] at h
      cases h
      exact .inr ⟨⟨hshort, rfl⟩, rfl, rfl⟩

/-- What `pnio_rt_input` keeps. -/
theorem pnioRtInput_keeps {port : Port} {pool : ZbufPool α} {dev : PnioDevice α} {zb : α}
    {now : BitVec 64} {r : RtInput α} (h : pnioRtInput port pool dev zb now = some r) :
    r.dev.ar = dev.ar ∧ slotsShape r.dev.slots = slotsShape dev.slots := by
  have hstore : ∀ (sub : PnioSubslot) (c : PnioCopy),
      (sub.store (pool.zb zb).frame c).shape = sub.shape := by
    intro sub c
    unfold PnioSubslot.store
    split <;> rfl
  rcases pnioRtInput_cases h with hdev | ⟨-, har, hslots⟩
  · rw [hdev]
    exact ⟨rfl, rfl⟩
  · rw [hslots]
    exact ⟨har, slotsInput_keeps _ _ hstore _ _⟩

/-- **A frame with an image** goes to a relation with its id, and then the outputs
    are the image. -/
theorem pnioRtInput_image {port : Port} {pool : ZbufPool α} {dev : PnioDevice α} {zb : α}
    {now : BitVec 64} {r : RtInput α} {id : BitVec 16} {image : List CyclicItem}
    (hcarries : [hiByte id, loByte id] ++ imageBytes image <+: payloadOf (pool.zb zb))
    (hlayout : (dev.findAr id).isSome → imageLayout image = imageLayout (outputImage dev.slots))
    (h : pnioRtInput port pool dev zb now = some r) :
    r.dev = dev ∨ (dev.findAr id).isSome ∧ outputImage r.dev.slots = image := by
  obtain ⟨hlen, hid, hholds⟩ := holdsImage_of_prefix hcarries
  have hlt := (pool.zb zb).len.isLt
  rcases pnioRtInput_cases h with hdev | ⟨⟨-, har⟩, -, hslots⟩
  · exact .inl hdev
  · rw [hid] at har
    refine .inr ⟨har, ?_⟩
    rw [hslots]
    refine slotsInput_image _ _ _ (hlayout har) ?_ hholds
    show 0 + (imageBytes image).length < 2 ^ 16
    omega

end

/-! ## The devices and the network -/

/-- The devices, and all frames that were sent. -/
structure PnioLan (ι α : Type) where
  dev : ι → PnioCyclic α
  wire : List (List (BitVec 8))

/-- What happens on a device; a call of the stack has the pool as it is then. -/
inductive PnioEvent (ι α : Type) where
  | putInput (i : ι) (slotNum subslotNum : BitVec 16) (k : ℕ) (v : BitVec 8)
  | setIops (i : ι) (slotNum subslotNum : BitVec 16) (iops : BitVec 8)
  | poll (i : ι) (clock : ℕ → BitVec 64) (pool : ZbufPool α) (now : BitVec 64)
  | receive (i : ι) (pool : ZbufPool α) (zb : α) (now : BitVec 64)

/-- A frame without its Ethernet header, maybe padded, or one that is no frame for
    the device. -/
def PnioLan.Arrives {ι α : Type} (s : PnioLan ι α) (i : ι) (z : Zbuf α) : Prop :=
  (∃ f ∈ s.wire, f.drop ethHdrLen <+: payloadOf z) ∨
    z.len < 2 ∨ (s.dev i).findAr (be16 z.frame 0) = none

/-- The application writes within the data; and frames that arrive were sent. -/
def PnioEvent.Allowed {ι α : Type} (s : PnioLan ι α) : PnioEvent ι α → Prop
  | putInput i slotNum subslotNum k _ =>
    ∃ sub, findSubslot (s.dev i).slots slotNum subslotNum = some sub ∧ k < sub.inputLength.toNat
  | setIops .. => True
  | poll .. => True
  | receive i pool zb _ => s.Arrives i (pool.zb zb)

section
variable {ι α : Type} [DecidableEq ι]

/-- A change of one device. -/
def PnioLan.setDev (s : PnioLan ι α) (i : ι) (dev : PnioDevice α) : PnioLan ι α :=
  { s with dev := Function.update s.dev i { s.dev i with toPnioDevice := dev } }

@[simp] theorem PnioLan.setDev_self (s : PnioLan ι α) (i : ι) (dev : PnioDevice α) :
    ((s.setDev i dev).dev i).toPnioDevice = dev := by
  simp [setDev]

@[simp] theorem PnioLan.setDev_of_ne (s : PnioLan ι α) {i k : ι} (h : k ≠ i)
    (dev : PnioDevice α) : (s.setDev i dev).dev k = s.dev k := by
  simp [setDev, h]

/-- One event. -/
def PnioLan.step [DecidableEq α] (port : Port) (s : PnioLan ι α) : PnioEvent ι α → PnioLan ι α
  | .putInput i slotNum subslotNum k v =>
    s.setDev i (pnioPutInput (s.dev i).toPnioDevice slotNum subslotNum k v)
  | .setIops i slotNum subslotNum iops =>
    s.setDev i (pnioSetIops (s.dev i).toPnioDevice slotNum subslotNum iops)
  | .poll i clock pool now =>
    let p := pnioDevicePoll clock port pool (s.dev i) now
    { s.setDev i p.dev with wire := s.wire ++ p.sent.map fun b => payloadOf (b.1.zb b.2) }
  | .receive i pool zb now =>
    match pnioRtInput port pool (s.dev i).toPnioDevice zb now with
    | some r => s.setDev i r.dev
    -- `pnio_dcp_input` leaves this part of the device
    | none => s

/-- The devices from `init` on. -/
def pnioLanLts [DecidableEq α] (port : Port) (init : ι → PnioCyclic α) :
    Lib.Lts (PnioLan ι α) (PnioEvent ι α) where
  init s := s = ⟨init, []⟩
  step s e s' := e.Allowed s ∧ s' = s.step port e

end

/-! ## Whose data a device has -/

section
variable {ι α : Type}

/-- In these steps the device `j` polled when its inputs were `image`. -/
def Provided (steps : List (PnioLan ι α × PnioEvent ι α × PnioLan ι α)) (j : ι)
    (image : List CyclicItem) : Prop :=
  ∃ s clock pool now s', (s, .poll j clock pool now, s') ∈ steps ∧
    image = inputImage (s.dev j).slots

/-- The frames of one device are for an active relation of the other. -/
def Feeds (provider consumer : PnioCyclic α) : Prop :=
  ∃ ar, provider.ar.head? = some ar ∧ (consumer.findAr ar.inputFrameId).isSome

/-- Every frame has an image that its sender provided, and every device has the
    outputs of the beginning, or an image that one of its providers provided. -/
structure Exchanges (init : ι → PnioCyclic α)
    (steps : List (PnioLan ι α × PnioEvent ι α × PnioLan ι α)) (s : PnioLan ι α) : Prop where
  ar : ∀ i, (s.dev i).ar = (init i).ar
  shape : ∀ i, slotsShape (s.dev i).slots = slotsShape (init i).slots
  wire : ∀ f ∈ s.wire, ∃ j image ar, Provided steps j image ∧ (init j).ar.head? = some ar ∧
    imageLayout image = imageLayout (inputImage (init j).slots) ∧
    CarriesImage ar.inputFrameId image f
  outputs : ∀ i, outputImage (s.dev i).slots = outputImage (init i).slots ∨
    ∃ j, Feeds (init j) (init i) ∧ Provided steps j (outputImage (s.dev i).slots)

theorem Provided.append {steps : List (PnioLan ι α × PnioEvent ι α × PnioLan ι α)} {j : ι}
    {image : List CyclicItem} (h : Provided steps j image)
    (step : PnioLan ι α × PnioEvent ι α × PnioLan ι α) : Provided (steps ++ [step]) j image := by
  obtain ⟨s, clock, pool, now, s', hmem, himage⟩ := h
  exact ⟨s, clock, pool, now, s', List.mem_append_left _ hmem, himage⟩

variable [DecidableEq ι] {init : ι → PnioCyclic α}
  {steps : List (PnioLan ι α × PnioEvent ι α × PnioLan ι α)} {s : PnioLan ι α}

/-- A change of one device that keeps its configuration. -/
theorem Exchanges.setDev (h : Exchanges init steps s)
    (step : PnioLan ι α × PnioEvent ι α × PnioLan ι α) {i : ι} {dev : PnioDevice α}
    (har : dev.ar = (s.dev i).ar) (hshape : slotsShape dev.slots = slotsShape (s.dev i).slots)
    (hout : outputImage dev.slots = outputImage (s.dev i).slots ∨
      ∃ j, Feeds (init j) (init i) ∧ Provided steps j (outputImage dev.slots)) :
    Exchanges init (steps ++ [step]) (s.setDev i dev) := by
  refine ⟨fun k => ?_, fun k => ?_, fun f hf => ?_, fun k => ?_⟩
  · by_cases hk : k = i
    · subst hk
      rw [PnioLan.setDev_self]
      exact har.trans (h.ar k)
    · rw [PnioLan.setDev_of_ne s hk]
      exact h.ar k
  · by_cases hk : k = i
    · subst hk
      rw [PnioLan.setDev_self]
      exact hshape.trans (h.shape k)
    · rw [PnioLan.setDev_of_ne s hk]
      exact h.shape k
  · obtain ⟨j, image, ar, hprovided, hrest⟩ := h.wire f hf
    exact ⟨j, image, ar, hprovided.append step, hrest⟩
  · have hold : ∀ image, (∃ j, Feeds (init j) (init k) ∧ Provided steps j image) →
        ∃ j, Feeds (init j) (init k) ∧ Provided (steps ++ [step]) j image := by
      rintro image ⟨j, hfeeds, hprovided⟩
      exact ⟨j, hfeeds, hprovided.append step⟩
    by_cases hk : k = i
    · subst hk
      rw [PnioLan.setDev_self]
      rcases hout with hout | hout
      · rw [hout]
        exact (h.outputs k).imp_right (hold _)
      · exact .inr (hold _ hout)
    · rw [PnioLan.setDev_of_ne s hk]
      exact (h.outputs k).imp_right (hold _)

variable [DecidableEq α] (port : Port)

/-- **One event.** -/
theorem exchanges_step (hfits : ∀ i, frameLen (init i).slots + ethHdrLen < 2 ^ 16)
    (hlayout : ∀ i j, Feeds (init j) (init i) →
      imageLayout (inputImage (init j).slots) = imageLayout (outputImage (init i).slots))
    (h : Exchanges init steps s) {e : PnioEvent ι α} (he : e.Allowed s) :
    Exchanges init (steps ++ [(s, e, s.step port e)]) (s.step port e) := by
  cases e with
  | putInput i slotNum subslotNum k v =>
    obtain ⟨hshape, hout⟩ := updateSubslot_keeps
      (f := fun sub => { sub with inputData := Function.update sub.inputData k v }) (fun _ => rfl)
      (fun _ => rfl) (s.dev i).slots slotNum subslotNum
    exact h.setDev _ rfl hshape (.inl hout)
  | setIops i slotNum subslotNum iops =>
    obtain ⟨hshape, hout⟩ := updateSubslot_keeps (f := fun sub => { sub with iops := iops })
      (fun _ => rfl) (fun _ => rfl) (s.dev i).slots slotNum subslotNum
    exact h.setDev _ rfl hshape (.inl hout)
  | poll i clock pool now =>
    obtain ⟨⟨har, hslots⟩, hsent⟩ := pnioDevicePoll_image clock port pool (s.dev i) now
    have hdev := h.setDev (s, .poll i clock pool now, s.step port (.poll i clock pool now))
      (i := i) har (congrArg slotsShape hslots) (.inl (congrArg outputImage hslots))
    refine ⟨hdev.ar, hdev.shape, fun f hf => ?_, hdev.outputs⟩
    rcases List.mem_append.1 hf with hf | hf
    · exact hdev.wire f hf
    · obtain ⟨b, hb, rfl⟩ := List.mem_map.1 hf
      have hfits' : frameLen (s.dev i).slots + ethHdrLen < 2 ^ 16 := by
        rw [frameLen_congr (h.shape i)]
        exact hfits i
      obtain ⟨ar, har, hcarries⟩ := hsent hfits' b hb
      refine ⟨i, _, ar, ?_, h.ar i ▸ har, inputImage_layout (h.shape i), hcarries⟩
      exact ⟨s, clock, pool, now, _, List.mem_append_right _ (List.mem_singleton_self _), rfl⟩
  | receive i pool zb now =>
    cases hr : pnioRtInput port pool (s.dev i).toPnioDevice zb now with
    | none =>
      have hstep : s.step port (.receive i pool zb now) = s.setDev i (s.dev i).toPnioDevice := by
        rw [PnioLan.step, hr, PnioLan.setDev]
        simp
      rw [hstep]
      exact h.setDev _ rfl rfl (.inl rfl)
    | some r =>
      have hstep : s.step port (.receive i pool zb now) = s.setDev i r.dev := by
        rw [PnioLan.step, hr]
      obtain ⟨har, hshape⟩ := pnioRtInput_keeps hr
      rw [hstep]
      refine h.setDev _ har hshape ?_
      rcases he with ⟨f, hf, hprefix⟩ | hforeign
      · obtain ⟨j, image, ar, hprovided, hhead, himage, hcarries⟩ := h.wire f hf
        have hfeeds : ((s.dev i).findAr ar.inputFrameId).isSome → Feeds (init j) (init i) := by
          intro hsome
          refine ⟨ar, hhead, ?_⟩
          rwa [PnioDevice.findAr, ← h.ar i]
        have hsameLayout : ((s.dev i).findAr ar.inputFrameId).isSome →
            imageLayout image = imageLayout (outputImage (s.dev i).slots) := by
          intro hsome
          rw [himage, hlayout i j (hfeeds hsome), outputImage_layout (h.shape i)]
        rcases pnioRtInput_image (hcarries.trans hprefix) hsameLayout hr with
          hsame | ⟨hsome, hout⟩
        · exact .inl (by rw [hsame])
        · exact .inr ⟨j, hfeeds hsome, hout ▸ hprovided⟩
      · refine .inl ?_
        rcases pnioRtInput_cases hr with hsame | ⟨⟨hlong, hsome⟩, -⟩
        · rw [hsame]
        · rcases hforeign with hshort | hnone
          · exact absurd hshort hlong
          · rw [hnone] at hsome
            cases hsome

/-- What the application reads of a subslot is an item of the image. -/
structure ReadsImage (dev : PnioDevice α) (image : List CyclicItem) : Prop where
  item : ∀ slotNum subslotNum sub, findSubslot dev.slots slotNum subslotNum = some sub →
    sub.plugged → 0 < sub.outputLength → ∃ item ∈ image, item.status =
        pnioGetIocs dev slotNum subslotNum ∧ ∃ data, pnioGetOutputData dev slotNum subslotNum =
          some data ∧ item.data = (List.range sub.outputLength.toNat).map data

omit [DecidableEq α] in
theorem readsImage (dev : PnioDevice α) : ReadsImage dev (outputImage dev.slots) := by
  refine ⟨fun slotNum subslotNum sub hfind hplugged hlen => ?_⟩
  have hmem : sub ∈ allSubslots dev.slots := by
    obtain ⟨slot, hslot, hsub⟩ := List.exists_of_findSome?_eq_some hfind
    obtain ⟨-, hsub⟩ := Option.ite_none_right_eq_some.1 hsub
    exact List.mem_flatMap.2 ⟨slot, hslot, List.mem_of_find?_eq_some hsub⟩
  refine ⟨⟨sub.outputBytes, sub.iocs⟩, List.mem_filterMap.2 ⟨sub, hmem, if_pos ⟨hplugged, hlen⟩⟩,
    ?_, sub.outputData, ?_, rfl⟩
  · rw [pnioGetIocs, hfind]
  · rw [pnioGetOutputData, hfind]
    rfl

/-- **The outputs of a device** are those of the beginning, or they are, in data and
    status of all subslots, the inputs that one device had when it polled, whose
    frames are for a relation of this device. -/
theorem cyclic_exchange {init : ι → PnioCyclic α}
    (hfits : ∀ i, frameLen (init i).slots + ethHdrLen < 2 ^ 16)
    (hlayout : ∀ i j, Feeds (init j) (init i) →
      imageLayout (inputImage (init j).slots) = imageLayout (outputImage (init i).slots))
    {tr : List (PnioEvent ι α)} {s : PnioLan ι α}
    {steps : List (PnioLan ι α × PnioEvent ι α × PnioLan ι α)}
    (hrun : (pnioLanLts port init).history.Run tr (s, steps)) (i : ι) :
    ReadsImage (s.dev i).toPnioDevice (outputImage (s.dev i).slots) ∧
      (outputImage (s.dev i).slots = outputImage (init i).slots ∨
        ∃ j, Feeds (init j) (init i) ∧ Provided steps j (outputImage (s.dev i).slots)) := by
  have hinv : Exchanges init steps s := by
    refine hrun.track_rule (P := fun s steps => Exchanges init steps s) ?_ ?_
    · rintro s rfl
      refine ⟨fun _ => rfl, fun _ => rfl, ?_, fun _ => .inl rfl⟩
      intro f hf
      cases hf
    · rintro s steps e s' hs ⟨he, rfl⟩
      exact exchanges_step port hfits hlayout hs he
  exact ⟨readsImage _, hinv.outputs i⟩

end

/-- A device with two bytes of input, and one that takes them. -/
def demoDevices (i : Bool) : PnioCyclic (Fin 2) :=
  if i then
    { demoPnio [⟨1, [demoSubslot 0 2]⟩] with
      ar := [⟨true, 0x8000, 0x8001, fun _ => 0x52⟩], running := true, cycleTimeUs := 1000 }
  else { demoPnio [⟨1, [demoSubslot 2 0]⟩] with running := true, cycleTimeUs := 1000 }

/-- The frame of the first device, as it arrives. -/
def demoCyclicFrame : ZbufPool (Fin 2) where
  zb := fun _ =>
    { demoZbuf with
      data := 0, len := 9, refcount := 1
      space := ⟨fun i => [0x80, 0x01, 0x2A, 0, 0x80, 0, 0, 0x15, 0].getD i 0, []⟩ }
  freeList := none
  totalCount := 2
  freeCount := 0
  allocFailures := 0

/-- A byte is written, sent and received. -/
theorem cyclic_exchange_byte : ∃ tr s steps,
    (pnioLanLts .arm64 demoDevices).history.Run tr (s, steps) ∧
      outputImage (s.dev true).slots = [⟨[0x2A, 0], 0x80⟩] ∧
      ReadsImage (s.dev true).toPnioDevice (outputImage (s.dev true).slots) ∧
      (outputImage (s.dev true).slots = outputImage (demoDevices true).slots ∨
        ∃ j, Feeds (demoDevices j) (demoDevices true) ∧
          Provided steps j (outputImage (s.dev true).slots)) := by
  let s₀ : PnioLan Bool (Fin 2) := ⟨demoDevices, []⟩
  let s₁ := s₀.step .arm64 (.putInput false 1 1 0 0x2A)
  let s₂ := s₁.step .arm64
    (.poll false (fun _ => 5) (zbufPoolInit demoZbufs fun _ => demoZbuf) 5)
  have h0 : (pnioLanLts .arm64 demoDevices).history.Run [] (s₀, []) := .start_history rfl
  have hput : (pnioLanLts .arm64 demoDevices).step s₀ (.putInput false 1 1 0 0x2A) s₁ :=
    ⟨⟨demoSubslot 2 0, rfl, by decide⟩, rfl⟩
  have hpoll : (pnioLanLts .arm64 demoDevices).step s₁
      (.poll false (fun _ => 5) (zbufPoolInit demoZbufs fun _ => demoZbuf) 5) s₂ := ⟨trivial, rfl⟩
  have hwire : s₂.wire = [[0x0E, 0x0E, 0x0E, 0x0E, 0x0E, 0x0E, 0x52, 0x52, 0x52, 0x52, 0x52, 0x52,
      0x88, 0x92, 0x80, 0x01, 0x2A, 0, 0x80, 0, 0, 0x15, 0]] := by decide
  have hreceive : PnioEvent.Allowed s₂ (.receive true demoCyclicFrame 0 5) :=
    .inl ⟨_, by rw [hwire]; exact List.mem_singleton_self _, by decide⟩
  have h3 := ((h0.snoc_history hput).snoc_history hpoll).snoc_history ⟨hreceive, rfl⟩
  refine ⟨_, _, _, h3, by decide, ?_⟩
  refine cyclic_exchange .arm64 ?_ ?_ h3 true
  · decide
  · rintro i j ⟨ar, har, hsome⟩
    cases i <;> cases j <;> cases har
    · exact absurd hsome (by decide)
    · rfl
    · rfl
    · exact absurd hsome (by decide)

end Gracemont
