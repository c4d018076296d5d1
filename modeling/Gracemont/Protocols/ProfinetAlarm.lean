/-
  Gracemont protocols — what the alarm frames of a PROFINET IO device contain
  (`pnio_send_alarm` of `protocols/profinet/profinet.c`).

  The length of the frame counts 32 bytes in front of the data of the alarm, but
  only 22 are stored there: the last ten bytes of each frame are what was in its
  buffer before.

  * `NoStale`: whatever is sent was stored;
  * `alarm_stale_iff`: this holds only where nothing is sent.
-/
import Gracemont.Protocols.ProfinetDcp
import Gracemont.Protocols.ProfinetSend

namespace Gracemont

open Lib (ByteMem)

variable {α : Type}

/-- The pool with other memory in its buffers. -/
def ZbufPool.withMemory (pool : ZbufPool α) (mem : α → ByteMem) : ZbufPool α :=
  { pool with zb := fun b => { pool.zb b with space := mem b } }

/-- The bytes on the wire. -/
def sentFrame (sent : Option (ZbufPool α × α)) : Option (List (BitVec 8)) :=
  sent.map fun s => (s.1.zb s.2).space.read (s.1.zb s.2).data (s.1.zb s.2).len.toNat

/-- **No stale data**: with any two memories of the buffers, the same frame is sent,
    and every byte of a frame has been stored into its buffer. -/
structure NoStale (send : ZbufPool α → Option (ZbufPool α × α)) (pool : ZbufPool α) : Prop where
  same : ∀ mem mem',
    sentFrame (send (pool.withMemory mem)) = sentFrame (send (pool.withMemory mem'))
  stored : ∀ mem pool' zb, send (pool.withMemory mem) = some (pool', zb) →
    ∃ ws, (pool'.zb zb).space.written = ws ++ (mem zb).written ∧
      ∀ i < (pool'.zb zb).len.toNat, (pool'.zb zb).data + i ∈ ws

/-- The bytes that are stored for an alarm, behind the Ethernet header. -/
theorem pnioAlarmBytes_length (alarm : PnioAlarm) :
    (pnioAlarmBytes alarm).length = 22 + alarm.dataLength.toNat := by
  have h16 : ∀ val, (be16Bytes val).length = 2 := fun _ => rfl
  have h32 : ∀ val, (be32Bytes val).length = 4 := fun _ => rfl
  unfold pnioAlarmBytes
  simp only [List.length_append, List.length_map, List.length_range, List.length_cons,
    List.length_nil, h16, h32]

section
variable [DecidableEq α] {pool : ZbufPool α} {dev : PnioDevice α} {alarm : PnioAlarm} {zb : α}

/-- The frame of an alarm. -/
theorem pnioSendAlarm_sent {ar : PnioAr} (har : dev.ar.head? = some ar) (hactive : ar.active)
    (hfree : pool.freeList = some zb)
    (hfit : ethHdrLen + 32 + alarm.dataLength.toNat ≤ configZbufSize - configZbufHeadroom) :
    ∃ pool', (pnioSendAlarm pool dev alarm).sent = some (pool', zb) ∧
      (pool'.zb zb).data + ethHdrLen = configZbufHeadroom ∧
      (pool'.zb zb).len.toNat = ethHdrLen + 32 + alarm.dataLength.toNat ∧
      (pool'.zb zb).space = putEthHdr
        ((pool.zb zb).space.putBytes configZbufHeadroom (pnioAlarmBytes alarm)) (pool'.zb zb).data
        ar.peerMac dev.netif.mac ethTypeProfinet := by
  obtain ⟨rest, hdev⟩ : ∃ rest, dev.ar = ar :: rest := List.head?_eq_some_iff.1 har
  have heth : ethHdrLen = 14 := rfl
  have hroom : configZbufSize - configZbufHeadroom = 1920 := rfl
  have h32 : (32 + alarm.dataLength).toNat = 32 + alarm.dataLength.toNat := by
    have hlit : (32 : BitVec 16).toNat = 32 := rfl
    rw [BitVec.toNat_add, hlit]
    omega
  have hsize : (32 + alarm.dataLength + ethHdrLen : BitVec 16).toNat =
      ethHdrLen + 32 + alarm.dataLength.toNat := by
    have hlit : ((ethHdrLen : ℕ) : BitVec 16).toNat = 14 := rfl
    rw [BitVec.toNat_add, h32, hlit]
    omega
  obtain ⟨pool₁, halloc, hdata, htail, hlen, hspace⟩ :=
    zbufAllocTx_spec hfree (hsize.trans_le hfit)
  have hbuilt := Zbuf.built (pool₁.zb zb) (32 + alarm.dataLength) (pnioAlarmBytes alarm) ar.peerMac
    dev.netif.mac ethTypeProfinet hdata htail hlen (by omega)
  rw [hspace] at hbuilt
  simp only [pnioSendAlarm, hdev, hactive, not_true_eq_false, if_false, halloc]
  refine ⟨_, rfl, ?_⟩
  simp only [Function.update_self]
  exact ⟨hbuilt.1, (congrArg BitVec.toNat hbuilt.2.1).trans hsize, hbuilt.2.2⟩

/-- Without an active first relation or a buffer, nothing is sent. -/
theorem pnioSendAlarm_none
    (h : ¬ ((∃ ar, dev.ar.head? = some ar ∧ ar.active) ∧ pool.freeList ≠ none)) :
    (pnioSendAlarm pool dev alarm).sent = none := by
  cases hdev : dev.ar with
  | nil => simp only [pnioSendAlarm, hdev]
  | cons ar rest =>
    by_cases hactive : ar.active
    · have hfree : pool.freeList = none := by
        by_contra hfree
        exact h ⟨⟨ar, by rw [hdev]; rfl, hactive⟩, hfree⟩
      obtain ⟨pool', halloc⟩ := zbufAllocTx_none hfree (32 + alarm.dataLength + ethHdrLen)
      simp only [pnioSendAlarm, hdev, hactive, not_true_eq_false, if_false, halloc]
    · rw [pnioSendAlarm, hdev]
      exact congrArg RtSend.sent (if_pos hactive)

/-- **The frames of `pnio_send_alarm`**, for every alarm that fits a buffer: they are
    without stale data exactly if there is none. -/
theorem alarm_stale_iff (pool : ZbufPool α) (dev : PnioDevice α) (alarm : PnioAlarm)
    (hfit : ethHdrLen + 32 + alarm.dataLength.toNat ≤ configZbufSize - configZbufHeadroom) :
    NoStale (fun pool => (pnioSendAlarm pool dev alarm).sent) pool ↔
      ¬ ((∃ ar, dev.ar.head? = some ar ∧ ar.active) ∧ pool.freeList ≠ none) := by
  constructor
  · rintro h ⟨⟨ar, har, hactive⟩, hfree⟩
    obtain ⟨zb, hfree⟩ := Option.ne_none_iff_exists'.1 hfree
    -- memories of zeroes and of ones, which are sent behind the data of the alarm
    have hbyte : ∀ b : BitVec 8, ∃ frame,
        sentFrame (pnioSendAlarm (pool.withMemory fun _ => ⟨fun _ => b, []⟩) dev alarm).sent =
          some frame ∧ frame[ethHdrLen + 22 + alarm.dataLength.toNat]? = some b := by
      intro b
      have hfree' : (pool.withMemory fun _ => ⟨fun _ => b, []⟩).freeList = some zb := hfree
      obtain ⟨pool', hsent, hdata, hlen, hspace⟩ := pnioSendAlarm_sent har hactive hfree' hfit
      refine ⟨_, congrArg sentFrame hsent, ?_⟩
      have hstale : (pool'.zb zb).space.byte
          ((pool'.zb zb).data + (ethHdrLen + 22 + alarm.dataLength.toNat)) = b := by
        have hbytes := pnioAlarmBytes_length alarm
        rw [hspace, (putEthHdr_within ..).frame _ (Or.inr (by omega)),
          ByteMem.putBytes_byte_of_le _ _ _ (by omega)]
        rfl
      have hlt : ethHdrLen + 22 + alarm.dataLength.toNat < (pool'.zb zb).len.toNat := by omega
      simp only [ByteMem.read, List.getElem?_map, List.getElem?_range hlt, Option.map_some, hstale]
    obtain ⟨frame, hframe, hlast⟩ := hbyte 0
    obtain ⟨frame', hframe', hlast'⟩ := hbyte 1
    have hsame := (hframe.symm.trans (h.same _ _)).trans hframe'
    rw [Option.some.inj hsame, hlast'] at hlast
    exact absurd (Option.some.inj hlast) (by decide)
  · intro h
    have hnone : ∀ mem, (pnioSendAlarm (pool.withMemory mem) dev alarm).sent = none :=
      fun mem => pnioSendAlarm_none h
    refine ⟨fun mem mem' => ?_, fun mem pool' zb hsent => ?_⟩
    · simp only [hnone]
    · rw [hnone] at hsent
      cases hsent

end

/-- A diagnosis alarm without data. -/
def demoAlarm : PnioAlarm where
  alarmType := 1
  slot := 1
  subslot := 1
  moduleIdent := 0
  submoduleIdent := 0
  sequenceNumber := 0
  alarmSpecifier := 0
  data _ := 0
  dataLength := 0

/-- **Ten bytes of a former frame** are sent with a diagnosis alarm. -/
theorem alarm_sends_stale :
    (∃ frame, sentFrame (pnioSendAlarm ((zbufPoolInit demoZbufs fun _ => demoZbuf).withMemory
      fun _ => ⟨fun _ => 0xAA, []⟩) (demoPnio []) demoAlarm).sent = some frame ∧
        frame.drop 36 = List.replicate 10 0xAA) ∧
    ¬ NoStale (fun pool => (pnioSendAlarm pool (demoPnio []) demoAlarm).sent)
      (zbufPoolInit demoZbufs fun _ => demoZbuf) := by
  refine ⟨⟨_, rfl, by decide⟩, fun h => ?_⟩
  have hsame := h.same (fun _ => ⟨fun _ => 0, []⟩) (fun _ => ⟨fun _ => 1, []⟩)
  exact absurd hsame (by decide)

/-- The longest alarm that fits. -/
theorem longest_alarm_stale :
    ¬ NoStale (fun pool => (pnioSendAlarm pool (demoPnio [])
      { demoAlarm with dataLength := 1874 }).sent) (zbufPoolInit demoZbufs fun _ => demoZbuf) := by
  rw [alarm_stale_iff _ _ _ (by decide), not_not]
  exact ⟨⟨_, rfl, rfl⟩, nofun⟩

end Gracemont
