/-
  Gracemont protocols — the cyclic data of a PROFINET IO device
  (`protocols/profinet/profinet.c`, the same file in both ports).

  Received frames are in buffers of the pool, whose memory is read whatever the
  length of the frame, and a frame to send is built in one.  A list is an array
  up to its count.  The memories at `input_data` and `output_data` of the
  subslots are apart from each other and from the pool (they are from the heap).
  Left out are DCP, alarms and the idents of the modules.

  * `pnioRtInput`: the frame is spread over the subslots;
  * `pnioRtSend`: the frame is collected from the subslots.
-/
import Gracemont.Net.Ethernet

namespace Gracemont

/-! ## Data -/

def ethTypeProfinet : BitVec 16 := 0x8892

def pnioFrameIdDcp : BitVec 16 := 0xFEFC
def pnioFrameIdDcpSet : BitVec 16 := 0xFEFF

def pnioStatusPrimary : BitVec 8 := 0x01
def pnioStatusValid : BitVec 8 := 0x04
def pnioStatusState : BitVec 8 := 0x10

/-- `pnio_subslot_t` -/
structure PnioSubslot where
  subslotNumber : BitVec 16
  inputData : ℕ → BitVec 8
  inputLength : BitVec 16
  outputData : ℕ → BitVec 8
  outputLength : BitVec 16
  iocs : BitVec 8
  iops : BitVec 8
  plugged : Bool

/-- `pnio_slot_t` -/
structure PnioSlot where
  slotNumber : BitVec 16
  subslots : List PnioSubslot

/-- `pnio_ar_t` -/
structure PnioAr where
  active : Bool
  inputFrameId : BitVec 16
  outputFrameId : BitVec 16
  peerMac : Fin 6 → BitVec 8

/-- `pnio_device_t`; `onDataReceived` is whether the callback is set. -/
structure PnioDevice (α : Type) where
  netif : Netif α
  slots : List PnioSlot
  ar : List PnioAr
  cycleCount : BitVec 64
  lastCycleTime : BitVec 64
  rxBuffer : Option α
  onDataReceived : Bool

/-! ## Receiving -/

/-- A byte of the received frame, at `zb->data + src`, that goes to
    `output_data[k]` (`dst` is `some k`) or to `iocs` of a subslot. -/
structure PnioCopy where
  slot : ℕ
  subslot : ℕ
  dst : Option ℕ
  src : ℕ
  deriving DecidableEq, Repr

/-- What the loops over the subslots carry along: `offset`, and what they have
    copied and whom they have notified. -/
structure PnioScan where
  offset : BitVec 16
  copies : List PnioCopy
  received : List (BitVec 16 × BitVec 16)

namespace PnioSubslot
variable (sub : PnioSubslot)

/-- The copies to the subslot `j` of the slot `i`, when the loops have come to
    `offset`. -/
def copies (i j : ℕ) (offset : BitVec 16) : List PnioCopy :=
  (List.range sub.outputLength.toNat).map (fun k => ⟨i, j, some k, 2 + (offset.toNat + k)⟩) ++
    [⟨i, j, none, 2 + (offset + sub.outputLength).toNat⟩]

/-- One copy. -/
def store (frame : ℕ → BitVec 8) (c : PnioCopy) : PnioSubslot :=
  match c.dst with
  | some k => { sub with outputData := Function.update sub.outputData k (frame c.src) }
  | none => { sub with iocs := frame c.src }

/-- The body of the loops of `pnio_rt_input`. -/
def input (frame : ℕ → BitVec 8) (notify : Bool) (slotNumber : BitVec 16) (i j : ℕ)
    (scan : PnioScan) : PnioSubslot × PnioScan :=
  if sub.plugged ∧ 0 < sub.outputLength then
    let copies := sub.copies i j scan.offset
    (copies.foldl (fun sub c => sub.store frame c) sub,
      { offset := scan.offset + sub.outputLength + 1
        copies := scan.copies ++ copies
        received :=
          if notify then scan.received ++ [(slotNumber, sub.subslotNumber)] else scan.received })
  else (sub, scan)

end PnioSubslot

/-- The loop over the subslots of the slot `i`, from the subslot `j` on. -/
def subslotsInput (frame : ℕ → BitVec 8) (notify : Bool) (slotNumber : BitVec 16) (i : ℕ) :
    ℕ → List PnioSubslot → PnioScan → List PnioSubslot × PnioScan
  | _, [], scan => ([], scan)
  | j, sub :: subs, scan =>
    let (sub, scan) := sub.input frame notify slotNumber i j scan
    let (subs, scan) := subslotsInput frame notify slotNumber i (j + 1) subs scan
    (sub :: subs, scan)

/-- The loop over the slots, from the slot `i` on. -/
def slotsInput (frame : ℕ → BitVec 8) (notify : Bool) :
    ℕ → List PnioSlot → PnioScan → List PnioSlot × PnioScan
  | _, [], scan => ([], scan)
  | i, slot :: slots, scan =>
    let (subs, scan) := subslotsInput frame notify slot.slotNumber i 0 slot.subslots scan
    let (slots, scan) := slotsInput frame notify (i + 1) slots scan
    ({ slot with subslots := subs } :: slots, scan)

/-- What `pnio_rt_input` leaves, with its copies and the calls of
    `on_data_received`. -/
structure RtInput (α : Type) where
  pool : ZbufPool α
  dev : PnioDevice α
  copies : List PnioCopy
  received : List (BitVec 16 × BitVec 16)

/-- The application relation that a frame belongs to. -/
def PnioDevice.findAr {α : Type} (dev : PnioDevice α) (frameId : BitVec 16) : Option PnioAr :=
  dev.ar.find? fun ar => ar.active ∧ ar.outputFrameId = frameId

variable {α : Type} [DecidableEq α]

/-- `pnio_rt_input` at the tick `now`; `none` when the frame goes to
    `pnio_dcp_input`. -/
def pnioRtInput (port : Port) (pool : ZbufPool α) (dev : PnioDevice α) (zb : α) (now : BitVec 64) :
    Option (RtInput α) :=
  if (pool.zb zb).len < 2 then some ⟨zbufFree port pool (some zb), dev, [], []⟩
  else
    let frame := (pool.zb zb).frame
    let frameId := be16 frame 0
    match dev.findAr frameId with
    | none =>
      if pnioFrameIdDcp ≤ frameId ∧ frameId ≤ pnioFrameIdDcpSet then none
      else some ⟨zbufFree port pool (some zb), dev, [], []⟩
    | some _ =>
      let pool := { pool with zb := pool.zb.modify zb fun z => { z with timestamp := now } }
      let (slots, scan) := slotsInput frame dev.onDataReceived 0 dev.slots ⟨0, [], []⟩
      some
        { pool := zbufFree port pool dev.rxBuffer
          dev :=
            { dev with slots := slots, rxBuffer := some zb, cycleCount := dev.cycleCount + 1 }
          copies := scan.copies
          received := scan.received }

/-! ## Sending -/

/-- The computation of `data_len`. -/
def pnioDataLen (slots : List PnioSlot) : BitVec 16 :=
  slots.foldl (fun len slot => slot.subslots.foldl
    (fun len sub => if sub.plugged then len + (sub.inputLength + 1) else len) len) 2 + 4

/-- The bytes at `input_data`. -/
def PnioSubslot.inputBytes (sub : PnioSubslot) : List (BitVec 8) :=
  (List.range sub.inputLength.toNat).map sub.inputData

/-- What the loops of `pnio_rt_send` write for a subslot. -/
def PnioSubslot.send (sub : PnioSubslot) : List (BitVec 8) :=
  if sub.plugged ∧ 0 < sub.inputLength then sub.inputBytes ++ [sub.iops] else []

/-- What they write for all. -/
def sentInputs (slots : List PnioSlot) : List (BitVec 8) :=
  slots.flatMap fun slot => slot.subslots.flatMap PnioSubslot.send

/-- The bytes that `pnio_rt_send` writes through `p`, with `cyclic` for the
    subslots. -/
def pnioRtBytes (dev : PnioDevice α) (ar : PnioAr) (cyclic : List (BitVec 8)) :
    List (BitVec 8) :=
  let cycle := dev.cycleCount.setWidth 16
  [hiByte ar.inputFrameId, loByte ar.inputFrameId] ++ cyclic ++ [hiByte cycle, loByte cycle,
    pnioStatusPrimary ||| pnioStatusValid ||| pnioStatusState, 0]

/-- What `pnio_rt_send` leaves and returns, and the buffer that it hands to the
    driver, with the pool at that time. -/
structure RtSend (α : Type) where
  pool : ZbufPool α
  dev : PnioDevice α
  ret : Status
  sent : Option (ZbufPool α × α)

/-- `pnio_rt_send` at the tick `now`. -/
def pnioRtSend (pool : ZbufPool α) (dev : PnioDevice α) (now : BitVec 64) : RtSend α :=
  match dev.ar with
  | [] => ⟨pool, dev, .error, none⟩
  | ar :: _ =>
    if ¬ ar.active then ⟨pool, dev, .error, none⟩
    else
      let dataLen := pnioDataLen dev.slots
      match zbufAllocTx pool (dataLen + ethHdrLen) with
      | (pool, none) => ⟨pool, dev, .noMem, none⟩
      | (pool, some zb) =>
        let z := (pool.zb zb).append dataLen (pnioRtBytes dev ar (sentInputs dev.slots))
        let z := z.pushEthHdr ar.peerMac dev.netif.mac ethTypeProfinet
        let pool := { pool with zb := Function.update pool.zb zb z }
        let (pool', ret) := dev.netif.send pool zb
        ⟨pool', { dev with lastCycleTime := now, cycleCount := dev.cycleCount + 1 }, ret,
          some (pool, zb)⟩

/-- A subslot after `pnio_add_subslot` and `pnio_plug_submodule`. -/
def demoSubslot (inputLength outputLength : BitVec 16) : PnioSubslot where
  subslotNumber := 1
  inputData _ := 0
  inputLength := inputLength
  outputData _ := 0
  outputLength := outputLength
  iocs := 0x80
  iops := 0x80
  plugged := true

/-- The device of `profinet_task`, with the slots given, in a relation. -/
def demoPnio (slots : List PnioSlot) : PnioDevice (Fin 2) where
  netif := ⟨fun _ => 0x52, fun pool _ => (pool, .ok)⟩
  slots := slots
  ar := [⟨true, 0x8001, 0x8000, fun _ => 0x0E⟩]
  cycleCount := 0
  lastCycleTime := 0
  rxBuffer := none
  onDataReceived := false

end Gracemont
