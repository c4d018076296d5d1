/-
  Gracemont protocols — DCP requests and the alarms of a PROFINET IO device
  (`protocols/profinet/profinet.c`, the same file in both ports).

  A request is read from its buffer whatever the length of the frame, block by
  block; as `offset` has 16 bits, the loops need not end, and run with fuel.
  Left out are `pnio_send_diag_alarm`, which fills in an alarm and sends it, and
  the response to a Set request, which the source leaves out.

  * `PnioStation`: the device with its name and its addresses;
  * `pnioDcpInput`: Identify and Set requests;
  * `pnioSendAlarm`: an alarm is sent to the peer of the first relation.
-/
import Mathlib.Data.List.TakeWhile
import Gracemont.Lib.Cursor
import Gracemont.Net.Checksum
import Gracemont.Protocols.Profinet

namespace Gracemont

/-! ## Data -/

def dcpServiceSet : BitVec 8 := 0x04
def dcpServiceIdentify : BitVec 8 := 0x05

def dcpServiceTypeRequest : BitVec 8 := 0x00
def dcpServiceTypeResponse : BitVec 8 := 0x01

def dcpOptIp : BitVec 8 := 0x01
def dcpOptDevice : BitVec 8 := 0x02

def dcpSuboptIpParam : BitVec 8 := 0x02
def dcpSuboptDevVendor : BitVec 8 := 0x01
def dcpSuboptDevName : BitVec 8 := 0x02
def dcpSuboptDevRole : BitVec 8 := 0x04

/-- `sizeof(dcp_hdr_t)` -/
def dcpHdrLen : ℕ := 10

/-- `name_of_station`: the characters in front of the NUL in its 64 bytes. -/
structure StationName where
  chars : List (BitVec 8)
  noNul : 0 ∉ chars
  length_le : chars.length ≤ 63

/-- The name after storing at most 63 of the bytes, and a NUL behind them. -/
def StationName.ofBytes (l : List (BitVec 8)) : StationName where
  chars := (l.take 63).takeWhile (· ≠ 0)
  noNul h := by simpa using List.mem_takeWhile_imp h
  length_le := (List.takeWhile_sublist _).length_le.trans (List.length_take_le _ _)

/-- `pnio_device_t` with its identity and its addresses. -/
structure PnioStation (α : Type) extends PnioDevice α where
  nameOfStation : StationName
  vendorId : BitVec 16
  deviceId : BitVec 16
  deviceRole : BitVec 8
  ipAddr : BitVec 32
  netmask : BitVec 32
  gateway : BitVec 32

/-! ## The blocks of a request -/

section
variable (data : ℕ → BitVec 8)

/-- `block_len` of the block at `offset`. -/
def dcpBlockLen (offset : BitVec 16) : BitVec 16 := be16 data (offset.toNat + 2)

/-- The end of the loops: the next block, with padding. -/
def dcpNext (offset : BitVec 16) : BitVec 16 :=
  let blockLen := dcpBlockLen data offset
  if blockLen &&& 1 ≠ 0 then offset + (4 + blockLen) + 1 else offset + (4 + blockLen)

/-- The block at `offset` is of this option. -/
def dcpBlockIs (option suboption : BitVec 8) (offset : BitVec 16) : Bool :=
  data offset.toNat = option ∧ data (offset.toNat + 1) = suboption

/-- The comparison of the name at `reqName`, in a block of `blockLen` bytes, with
    the characters of the station's from `i` on: whether `match` is left alone. -/
def dcpNameMatches (reqName : ℕ → BitVec 8) (blockLen : ℕ) : ℕ → List (BitVec 8) → Bool
  | i, [] => ¬ (i < blockLen ∧ reqName i ≠ 0)
  | i, c :: chars =>
    if blockLen ≤ i then true
    else if reqName i ≠ c then false
    else dcpNameMatches reqName blockLen (i + 1) chars

/-- The body of the loop of an Identify request. -/
def dcpIdentifyBlock (name : StationName) (isMatch : Bool) (offset : BitVec 16) : Bool :=
  if dcpBlockIs data dcpOptDevice dcpSuboptDevName offset then
    if dcpNameMatches (fun i => data (offset.toNat + 4 + i)) (dcpBlockLen data offset).toNat 0
      name.chars then isMatch
    else false
  else isMatch

/-- The body of the loop of a Set request. -/
def dcpSetBlock {α : Type} (dev : PnioStation α) (offset : BitVec 16) : PnioStation α :=
  if dcpBlockIs data dcpOptIp dcpSuboptIpParam offset then
    let ipData := offset.toNat + 6
    { dev with
      ipAddr := be32 data ipData, netmask := be32 data (ipData + 4)
      gateway := be32 data (ipData + 8) }
  else if dcpBlockIs data dcpOptDevice dcpSuboptDevName offset then
    { dev with
      nameOfStation :=
        .ofBytes (bytesFrom data (offset.toNat + 4) (dcpBlockLen data offset).toNat) }
  else dev

end

/-! ## DCP -/

/-- The blocks of an Identify response. -/
def dcpResponseBlocks {α : Type} (dev : PnioStation α) : List (BitVec 8) :=
  let name := dev.nameOfStation.chars
  [dcpOptDevice, dcpSuboptDevName] ++ be16Bytes (BitVec.ofNat 16 name.length) ++ name ++
    (if name.length % 2 = 1 then [0] else []) ++
  [dcpOptDevice, dcpSuboptDevVendor, 0, 4] ++ be16Bytes dev.vendorId ++ be16Bytes dev.deviceId ++
  [dcpOptIp, dcpSuboptIpParam, 0, 14] ++ [0, 0] ++
    be32Bytes dev.ipAddr ++ be32Bytes dev.netmask ++ be32Bytes dev.gateway ++
  [dcpOptDevice, dcpSuboptDevRole, 0, 4] ++ [0, 0] ++ [dev.deviceRole, 0]

/-- `total_len` -/
def dcpTotalLen {α : Type} (dev : PnioStation α) : ℕ :=
  let nameLen := dev.nameOfStation.chars.length
  4 + nameLen + nameLen % 2 + 8 + 18 + 8

/-- The length that is stored is that of the blocks. -/
theorem dcpTotalLen_eq {α : Type} (dev : PnioStation α) :
    dcpTotalLen dev = (dcpResponseBlocks dev).length := by
  unfold dcpTotalLen dcpResponseBlocks
  have hpadding : ∀ n : ℕ, (if n % 2 = 1 then [0] else [] : List (BitVec 8)).length = n % 2 := by
    intro n
    split_ifs with h
    · exact h.symm
    · have := Nat.mod_two_eq_zero_or_one n
      exact (this.resolve_right h).symm
  have h16 : ∀ val, (be16Bytes val).length = 2 := fun _ => rfl
  have h32 : ∀ val, (be32Bytes val).length = 4 := fun _ => rfl
  simp only [List.length_append, List.length_cons, List.length_nil, hpadding, h16, h32]

/-- The frame id and the DCP header, up to the length. -/
def dcpResponseHdr (xid : BitVec 32) : List (BitVec 8) :=
  be16Bytes pnioFrameIdDcp ++ [dcpServiceIdentify, dcpServiceTypeResponse] ++ be32Bytes xid ++
    [0, 0]

variable {α : Type}

/-- The response, stored from the `tail` of its buffer on; the length of the
    blocks is stored last. -/
def Zbuf.dcpResponse (resp : Zbuf α) (dev : PnioStation α) (xid : BitVec 32) : Zbuf α :=
  let p := resp.tail
  let lenPtr := p + (dcpResponseHdr xid).length
  let m := resp.space.putBytes p (dcpResponseHdr xid)
  let m := m.putBytes (lenPtr + 2) (dcpResponseBlocks dev)
  let m := m.putBytes lenPtr (be16Bytes (BitVec.ofNat 16 (dcpTotalLen dev)))
  let p := lenPtr + 2 + (dcpResponseBlocks dev).length
  { resp with space := m, tail := p, len := BitVec.ofNat 16 (p - resp.data) }

/-- The response fits the 256 bytes that are asked for. -/
theorem dcpResponse_len_le {resp : Zbuf α} (hdata : resp.tail = resp.data) (dev : PnioStation α)
    (xid : BitVec 32) : (resp.dcpResponse dev xid).len.toNat ≤ 256 := by
  have hname := dev.nameOfStation.length_le
  have hpadding := Nat.mod_lt dev.nameOfStation.chars.length Nat.two_pos
  have hhdr : (dcpResponseHdr xid).length = 10 := rfl
  have htotal : (dcpResponseBlocks dev).length =
      4 + dev.nameOfStation.chars.length + dev.nameOfStation.chars.length % 2 + 8 + 18 + 8 :=
    (dcpTotalLen_eq dev).symm
  unfold Zbuf.dcpResponse
  dsimp only
  rw [BitVec.toNat_ofNat, hdata, hhdr]
  refine (Nat.mod_le _ _).trans ?_
  omega

/-- The memory from the DCP header of a frame on, which is behind the frame id, and
    from its blocks on. -/
def Zbuf.dcp (z : Zbuf α) (i : ℕ) : BitVec 8 := z.frame (2 + i)
def Zbuf.dcpData (z : Zbuf α) (i : ℕ) : BitVec 8 := z.dcp (dcpHdrLen + i)

/-- `offset < data_len` -/
def Zbuf.dcpMore (z : Zbuf α) (offset : BitVec 16) : Bool := offset < be16 z.dcp 8

/-- What `pnio_dcp_input` leaves, and the buffer that it hands to the driver,
    with the pool at that time. -/
structure DcpInput (α : Type) where
  pool : ZbufPool α
  dev : PnioStation α
  sent : Option (ZbufPool α × α)

variable [DecidableEq α]

/-- The response to an Identify request. -/
def dcpRespond (port : Port) (pool : ZbufPool α) (dev : PnioStation α) (zb : α)
    (xid : BitVec 32) : DcpInput α :=
  match zbufAllocTx pool 256 with
  | (pool, none) => ⟨zbufFree port pool (some zb), dev, none⟩
  | (pool, some resp) =>
    let z := (pool.zb resp).dcpResponse dev xid
    let pool := { pool with zb := Function.update pool.zb resp z }
    ⟨zbufFree port (dev.netif.send pool resp).1 (some zb), dev, some (pool, resp)⟩

/-- `pnio_dcp_input` -/
def pnioDcpInput (fuel : ℕ) (port : Port) (pool : ZbufPool α) (dev : PnioStation α) (zb : α) :
    Option (DcpInput α) :=
  let z := pool.zb zb
  if z.len.toNat < dcpHdrLen then some ⟨zbufFree port pool (some zb), dev, none⟩
  else if z.dcp 0 = dcpServiceIdentify ∧ z.dcp 1 = dcpServiceTypeRequest then
    let block := dcpIdentifyBlock z.dcpData dev.nameOfStation
    (Lib.Loop.run (Lib.Cursor.body z.dcpMore (dcpNext z.dcpData) block) fuel (0, true)).map
      fun isMatch =>
        if isMatch then dcpRespond port pool dev zb (be32 z.dcp 2)
        else ⟨zbufFree port pool (some zb), dev, none⟩
  else if z.dcp 0 = dcpServiceSet ∧ z.dcp 1 = dcpServiceTypeRequest then
    let block := dcpSetBlock z.dcpData
    (Lib.Loop.run (Lib.Cursor.body z.dcpMore (dcpNext z.dcpData) block) fuel (0, dev)).map
      fun dev => ⟨zbufFree port pool (some zb), dev, none⟩
  else some ⟨zbufFree port pool (some zb), dev, none⟩

/-- An Identify request whose loop ends. -/
theorem pnioDcpInput_identify {port : Port} {pool : ZbufPool α} {dev : PnioStation α} {zb : α}
    (hlen : dcpHdrLen ≤ (pool.zb zb).len.toNat)
    (hservice : (pool.zb zb).dcp 0 = dcpServiceIdentify ∧
      (pool.zb zb).dcp 1 = dcpServiceTypeRequest) {fuel : ℕ} {isMatch : Bool}
    (hrun : Lib.Loop.run (Lib.Cursor.body (pool.zb zb).dcpMore (dcpNext (pool.zb zb).dcpData)
      (dcpIdentifyBlock (pool.zb zb).dcpData dev.nameOfStation)) fuel (0, true) = some isMatch) :
    pnioDcpInput fuel port pool dev zb = some
      (if isMatch then dcpRespond port pool dev zb (be32 (pool.zb zb).dcp 2)
      else ⟨zbufFree port pool (some zb), dev, none⟩) := by
  unfold pnioDcpInput
  dsimp only
  rw [if_neg (Nat.not_lt.2 hlen), if_pos hservice, hrun]
  rfl

/-- Whatever is sent is the response to an Identify request. -/
theorem pnioDcpInput_sent {port : Port} {pool : ZbufPool α} {dev : PnioStation α} {zb : α}
    {fuel : ℕ} {r : DcpInput α} {sent : ZbufPool α × α}
    (hr : pnioDcpInput fuel port pool dev zb = some r) (hsent : r.sent = some sent) :
    (dcpRespond port pool dev zb (be32 (pool.zb zb).dcp 2)).sent = some sent := by
  unfold pnioDcpInput at hr
  dsimp only at hr
  split_ifs at hr
  · cases hr
    cases hsent
  · obtain ⟨isMatch, -, rfl⟩ := Option.map_eq_some_iff.1 hr
    cases isMatch with
    | false => cases hsent
    | true => exact hsent
  · obtain ⟨dev', -, rfl⟩ := Option.map_eq_some_iff.1 hr
    cases hsent
  · cases hr
    cases hsent

/-- What a call returns does not depend on the fuel. -/
theorem pnioDcpInput_unique {port : Port} {pool : ZbufPool α} {dev : PnioStation α} {zb : α}
    {fuel fuel' : ℕ} {r r' : DcpInput α} (h : pnioDcpInput fuel port pool dev zb = some r)
    (h' : pnioDcpInput fuel' port pool dev zb = some r') : r = r' := by
  unfold pnioDcpInput at h h'
  dsimp only at h h'
  split_ifs at h h'
  · exact Option.some.inj (h.symm.trans h')
  · obtain ⟨isMatch, hrun, rfl⟩ := Option.map_eq_some_iff.1 h
    obtain ⟨isMatch', hrun', rfl⟩ := Option.map_eq_some_iff.1 h'
    rw [Lib.Loop.run_unique hrun hrun']
  · obtain ⟨dev₁, hrun, rfl⟩ := Option.map_eq_some_iff.1 h
    obtain ⟨dev₂, hrun', rfl⟩ := Option.map_eq_some_iff.1 h'
    rw [Lib.Loop.run_unique hrun hrun']
  · exact Option.some.inj (h.symm.trans h')

/-! ## Alarms -/

def pnioFrameIdAlarmHigh : BitVec 16 := 0xFC01
def pnioFrameIdAlarmLow : BitVec 16 := 0xFE01

/-- `pnio_alarm_t` -/
structure PnioAlarm where
  alarmType : BitVec 16
  slot : BitVec 16
  subslot : BitVec 16
  moduleIdent : BitVec 32
  submoduleIdent : BitVec 32
  sequenceNumber : BitVec 16
  alarmSpecifier : BitVec 8
  data : ℕ → BitVec 8
  dataLength : BitVec 16

/-- The bytes that `pnio_send_alarm` writes through `p`. -/
def pnioAlarmBytes (alarm : PnioAlarm) : List (BitVec 8) :=
  be16Bytes (if alarm.alarmType &&& 0x8000 ≠ 0 then pnioFrameIdAlarmHigh else pnioFrameIdAlarmLow) ++
    [0x04, 0x00] ++ be16Bytes alarm.slot ++ be16Bytes alarm.subslot ++
    be32Bytes alarm.moduleIdent ++ be32Bytes alarm.submoduleIdent ++ be16Bytes alarm.alarmType ++
    be16Bytes alarm.sequenceNumber ++ [0, alarm.alarmSpecifier] ++
    (List.range alarm.dataLength.toNat).map alarm.data

/-- `pnio_send_alarm`, which leaves the device as it is. -/
def pnioSendAlarm (pool : ZbufPool α) (dev : PnioDevice α) (alarm : PnioAlarm) : RtSend α :=
  match dev.ar with
  | [] => ⟨pool, dev, .error, none⟩
  | ar :: _ =>
    if ¬ ar.active then ⟨pool, dev, .error, none⟩
    else
      let frameLen := 32 + alarm.dataLength
      match zbufAllocTx pool (frameLen + ethHdrLen) with
      | (pool, none) => ⟨pool, dev, .noMem, none⟩
      | (pool, some zb) =>
        let z := (pool.zb zb).append frameLen (pnioAlarmBytes alarm)
        let z := z.pushEthHdr ar.peerMac dev.netif.mac ethTypeProfinet
        let pool := { pool with zb := Function.update pool.zb zb z }
        let (pool', ret) := dev.netif.send pool zb
        ⟨pool', dev, ret, some (pool, zb)⟩

end Gracemont
