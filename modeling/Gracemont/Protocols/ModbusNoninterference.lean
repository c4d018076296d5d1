/-
  Gracemont protocols — what a Modbus request may depend on.

  `modbus_server_poll` only checks that a frame holds the MBAP header and the
  function code.  A handler reads the bytes that it needs, and those behind the
  received ones are whatever the buffer held before.  `FrameSafe` says for which
  frames this never shows; `modbus_noninterference_iff`: the tables and the
  response are functions of the received bytes for exactly these frames.

  * `modbusSwitch_congr`: no handler reads a byte that matters and was not
    received;
  * `Responds`, `modbusServerPoll_observe`: the response as a list of bytes;
  * `modbusSwitch_apart`: for other frames two continuations are told apart.
-/
import Gracemont.Protocols.ModbusRead

namespace Gracemont

open Lib (ByteMem)

variable {α : Type}

/-! ## Statement -/

/-- The parameters of a server: its address and the sizes of its tables. -/
structure ModbusConfig where
  slaveAddr : BitVec 8
  coilsCount : BitVec 16
  discreteInputsCount : BitVec 16
  holdingRegistersCount : BitVec 16
  inputRegistersCount : BitVec 16

def ModbusServer.config (server : ModbusServer) : ModbusConfig :=
  ⟨server.slaveAddr, server.data.tables.coilsCount, server.data.tables.discreteInputsCount,
    server.data.tables.holdingRegistersCount, server.data.tables.inputRegistersCount⟩

/-- What a poll shows: the data model that it leaves, and the bytes sent. -/
def modbusObserve (r : Option (ModbusState α × Option (List (BitVec 8)))) :
    Option (ModbusTables × Option (List (BitVec 8))) :=
  r.map fun r => (r.1.tables, r.2)

/-- **Noninterference.**  Whatever the state of a server with these parameters,
    processing a frame of `len` bytes only depends on these bytes. -/
def Noninterferent (port : Port) (c : ModbusConfig) (len : BitVec 16) (frame : ℕ → BitVec 8) :
    Prop :=
  ∀ (α : Type) [DecidableEq α] (s : ModbusState α) (zb : α), s.server.config = c →
    (s.pool.zb zb).len = len → ∀ frame', (∀ i < len.toNat, frame' i = frame i) →
      modbusObserve (modbusServerPoll port s zb frame') =
        modbusObserve (modbusServerPoll port s zb frame)

/-- The first `n` bytes, and zeros behind them. -/
def receivedBytes (n : ℕ) (pdu : ℕ → BitVec 8) (i : ℕ) : BitVec 8 := if i < n then pdu i else 0

/-- The range check refuses the request, whatever the bytes behind the first
    `n` are: zeros make the least address and count. -/
def RangeRefused (n : ℕ) (size : BitVec 16) (pdu : ℕ → BitVec 8) : Prop :=
  size.toNat < (be16 (receivedBytes n pdu) 1).toNat + (be16 (receivedBytes n pdu) 3).toNat

/-- The check of a single address refuses the request likewise. -/
def AddressRefused (n : ℕ) (size : BitVec 16) (pdu : ℕ → BitVec 8) : Prop :=
  size ≤ be16 (receivedBytes n pdu) 1

/-- The `n` received bytes of the request hold what its handler needs. -/
def PduSafe (c : ModbusConfig) (n : ℕ) (pdu : ℕ → BitVec 8) : Prop :=
  let count := (be16 pdu 3).toNat
  if pdu 0 = modbusFcReadCoils then 5 ≤ n ∨ RangeRefused n c.coilsCount pdu
  else if pdu 0 = modbusFcReadDiscreteInputs then 5 ≤ n ∨ RangeRefused n c.discreteInputsCount pdu
  else if pdu 0 = modbusFcReadHoldingRegisters then
    5 ≤ n ∨ RangeRefused n c.holdingRegistersCount pdu
  else if pdu 0 = modbusFcReadInputRegisters then 5 ≤ n ∨ RangeRefused n c.inputRegistersCount pdu
  else if pdu 0 = modbusFcWriteSingleCoil then
    5 ≤ n ∨ AddressRefused n c.coilsCount pdu ∨ n = 4 ∧ pdu 3 ≠ 0 ∧ pdu 3 ≠ 0xFF
  else if pdu 0 = modbusFcWriteSingleRegister then
    5 ≤ n ∨ AddressRefused n c.holdingRegistersCount pdu
  else if pdu 0 = modbusFcWriteMultipleCoils then
    RangeRefused n c.coilsCount pdu ∨ 5 ≤ n ∧ (count = 0 ∨ 6 + (count + 7) / 8 ≤ n)
  else if pdu 0 = modbusFcWriteMultipleRegisters then
    RangeRefused n c.holdingRegistersCount pdu ∨ 5 ≤ n ∧ (count = 0 ∨ 6 + 2 * count ≤ n)
  else True

/-- The frame is dropped, or its request holds what its handler needs. -/
def FrameSafe (c : ModbusConfig) (len : BitVec 16) (frame : ℕ → BitVec 8) : Prop :=
  len.toNat < modbusTcpHdrLen + 1 ∨ (frame 6 ≠ c.slaveAddr ∧ frame 6 ≠ 0) ∨
    PduSafe c (len.toNat - modbusTcpHdrLen) fun i => frame (modbusTcpHdrLen + i)

/-! ## Safe requests -/

section
variable {n : ℕ} {pdu pdu' : ℕ → BitVec 8}

theorem receivedBytes_le (h : ∀ i < n, pdu' i = pdu i) (i : ℕ) :
    (receivedBytes n pdu i).toNat ≤ (pdu' i).toNat := by
  unfold receivedBytes
  split_ifs with hi
  · exact Nat.le_of_eq (congrArg BitVec.toNat (h i hi).symm)
  · exact Nat.zero_le _

theorem be16_receivedBytes_le (h : ∀ i < n, pdu' i = pdu i) (i : ℕ) :
    (be16 (receivedBytes n pdu) i).toNat ≤ (be16 pdu' i).toNat := by
  have h0 := receivedBytes_le h i
  have h1 := receivedBytes_le h (i + 1)
  rw [be16_toNat, be16_toNat]
  omega

theorem be16_congr (h : ∀ i < n, pdu' i = pdu i) {i : ℕ} (hi : i + 1 < n) :
    be16 pdu' i = be16 pdu i := by
  rw [be16, be16, h i (by omega), h (i + 1) hi]

theorem RangeRefused.lt {size : BitVec 16} (hr : RangeRefused n size pdu)
    (h : ∀ i < n, pdu' i = pdu i) :
    size.toNat < (be16 pdu' 1).toNat + (be16 pdu' 3).toNat := by
  have h1 := be16_receivedBytes_le h 1
  have h3 := be16_receivedBytes_le h 3
  unfold RangeRefused at hr
  omega

theorem AddressRefused.le {size : BitVec 16} (hr : AddressRefused n size pdu)
    (h : ∀ i < n, pdu' i = pdu i) : size ≤ be16 pdu' 1 :=
  BitVec.le_def.2 (Nat.le_trans (BitVec.le_def.1 hr) (be16_receivedBytes_le h 1))

theorem unpackBits_congr (h : ∀ i < n, pdu' i = pdu i) (addr : BitVec 16) (table : ℕ → BitVec 8)
    {count : ℕ} (hn : count = 0 ∨ 6 + (count + 7) / 8 ≤ n) :
    unpackBits pdu' addr table count = unpackBits pdu addr table count := by
  induction count with
  | zero => rfl
  | succ count ih => rw [unpackBits, unpackBits, ih (by omega), h _ (by omega)]

theorem unpackRegisters_congr (h : ∀ i < n, pdu' i = pdu i) (addr : BitVec 16)
    (table : ℕ → BitVec 16) {count : ℕ} (hn : count = 0 ∨ 6 + 2 * count ≤ n) :
    unpackRegisters pdu' addr table count = unpackRegisters pdu addr table count := by
  induction count with
  | zero => rfl
  | succ count ih =>
    rw [unpackRegisters, unpackRegisters, ih (by omega), be16_congr h (by omega)]

variable [DecidableEq α] (s : ModbusState α)

theorem modbusEcho_congr (h : ∀ i < n, pdu' i = pdu i) (hn : 5 ≤ n) :
    modbusEcho s pdu' = modbusEcho s pdu := by
  simp only [modbusEcho, h 0 (by omega), h 1 (by omega), h 2 (by omega), h 3 (by omega),
    h 4 (by omega)]

theorem readBits_congr (h : ∀ i < n, pdu' i = pdu i) (hn : 0 < n) {size : BitVec 16}
    (hsafe : 5 ≤ n ∨ RangeRefused n size pdu) (table : ModbusTables → ℕ → BitVec 8)
    (onRead : Option ModbusCallback) :
    readBits s pdu' size table onRead = readBits s pdu size table onRead := by
  rcases hsafe with h5 | hr
  · simp only [readBits, h 0 hn, be16_congr h (show 1 + 1 < n by omega),
      be16_congr h (show 3 + 1 < n by omega)]
  · simp only [readBits, h 0 hn, if_pos (hr.lt h), if_pos (hr.lt fun _ _ => rfl)]

theorem readRegisters_congr (h : ∀ i < n, pdu' i = pdu i) (hn : 0 < n) {size : BitVec 16}
    (hsafe : 5 ≤ n ∨ RangeRefused n size pdu) (table : ModbusTables → ℕ → BitVec 16)
    (onRead : Option ModbusCallback) :
    readRegisters s pdu' size table onRead = readRegisters s pdu size table onRead := by
  rcases hsafe with h5 | hr
  · simp only [readRegisters, h 0 hn, be16_congr h (show 1 + 1 < n by omega),
      be16_congr h (show 3 + 1 < n by omega)]
  · simp only [readRegisters, h 0 hn, if_pos (hr.lt h), if_pos (hr.lt fun _ _ => rfl)]

theorem writeSingleCoil_congr (h : ∀ i < n, pdu' i = pdu i) (hn : 0 < n)
    (hsafe : 5 ≤ n ∨ AddressRefused n s.tables.coilsCount pdu ∨
      n = 4 ∧ pdu 3 ≠ 0 ∧ pdu 3 ≠ 0xFF) : writeSingleCoil s pdu' = writeSingleCoil s pdu := by
  rcases hsafe with h5 | hr | ⟨h4, h0, hFF⟩
  · simp only [writeSingleCoil, h 0 hn, be16_congr h (show 1 + 1 < n by omega),
      be16_congr h (show 3 + 1 < n by omega), modbusEcho_congr _ h h5]
  · simp only [writeSingleCoil, h 0 hn, if_pos (hr.le h), if_pos (hr.le fun _ _ => rfl)]
  · -- the value is none of the two that are allowed
    have hval : ∀ b : ℕ → BitVec 8, b 3 = pdu 3 → ¬ (be16 b 3 = 0xFF00 ∨ be16 b 3 = 0) := by
      intro b hb hv
      rw [be16, hb] at hv
      have hhi : (pdu 3 ++ b (3 + 1)).extractLsb' 8 8 = pdu 3 := BitVec.extractLsb'_append_eq_left
      rcases hv with hv | hv
      · rw [hv] at hhi
        exact hFF (hhi.symm.trans (by decide))
      · rw [hv] at hhi
        exact h0 (hhi.symm.trans (by decide))
    simp only [writeSingleCoil, h 0 hn, be16_congr h (show 1 + 1 < n by omega),
      if_neg (hval pdu rfl), if_neg (hval pdu' (h 3 (by omega)))]

theorem writeSingleRegister_congr (h : ∀ i < n, pdu' i = pdu i) (hn : 0 < n)
    (hsafe : 5 ≤ n ∨ AddressRefused n s.tables.holdingRegistersCount pdu) :
    writeSingleRegister s pdu' = writeSingleRegister s pdu := by
  rcases hsafe with h5 | hr
  · simp only [writeSingleRegister, h 0 hn, be16_congr h (show 1 + 1 < n by omega),
      be16_congr h (show 3 + 1 < n by omega), modbusEcho_congr _ h h5]
  · simp only [writeSingleRegister, h 0 hn, if_pos (hr.le h), if_pos (hr.le fun _ _ => rfl)]

theorem writeMultipleCoils_congr (h : ∀ i < n, pdu' i = pdu i) (hn : 0 < n)
    (hsafe : RangeRefused n s.tables.coilsCount pdu ∨
      5 ≤ n ∧ ((be16 pdu 3).toNat = 0 ∨ 6 + ((be16 pdu 3).toNat + 7) / 8 ≤ n)) :
    writeMultipleCoils s pdu' = writeMultipleCoils s pdu := by
  rcases hsafe with hr | ⟨h5, hd⟩
  · simp only [writeMultipleCoils, h 0 hn, if_pos (hr.lt h), if_pos (hr.lt fun _ _ => rfl)]
  · simp only [writeMultipleCoils, h 0 hn, be16_congr h (show 1 + 1 < n by omega),
      be16_congr h (show 3 + 1 < n by omega), unpackBits_congr h _ _ hd, modbusEcho_congr _ h h5]

theorem writeMultipleRegisters_congr (h : ∀ i < n, pdu' i = pdu i) (hn : 0 < n)
    (hsafe : RangeRefused n s.tables.holdingRegistersCount pdu ∨
      5 ≤ n ∧ ((be16 pdu 3).toNat = 0 ∨ 6 + 2 * (be16 pdu 3).toNat ≤ n)) :
    writeMultipleRegisters s pdu' = writeMultipleRegisters s pdu := by
  rcases hsafe with hr | ⟨h5, hd⟩
  · simp only [writeMultipleRegisters, h 0 hn, if_pos (hr.lt h), if_pos (hr.lt fun _ _ => rfl)]
  · simp only [writeMultipleRegisters, h 0 hn, be16_congr h (show 1 + 1 < n by omega),
      be16_congr h (show 3 + 1 < n by omega), unpackRegisters_congr h _ _ hd,
      modbusEcho_congr _ h h5]

/-- **Safe requests** are processed as their received bytes say. -/
theorem modbusSwitch_congr (h : ∀ i < n, pdu' i = pdu i) (hn : 0 < n)
    (hsafe : PduSafe s.server.config n pdu) : modbusSwitch s pdu' = modbusSwitch s pdu := by
  have h0 : pdu' 0 = pdu 0 := h 0 hn
  unfold PduSafe at hsafe
  dsimp only at hsafe
  by_cases h1 : pdu 0 = modbusFcReadCoils
  · rw [if_pos h1] at hsafe
    rw [modbusSwitch_readCoils h1, modbusSwitch_readCoils (h0.trans h1)]
    exact readBits_congr s h hn hsafe _ _
  rw [if_neg h1] at hsafe
  by_cases h2 : pdu 0 = modbusFcReadDiscreteInputs
  · rw [if_pos h2] at hsafe
    rw [modbusSwitch_readDiscreteInputs h2, modbusSwitch_readDiscreteInputs (h0.trans h2)]
    exact readBits_congr s h hn hsafe _ _
  rw [if_neg h2] at hsafe
  by_cases h3 : pdu 0 = modbusFcReadHoldingRegisters
  · rw [if_pos h3] at hsafe
    rw [modbusSwitch_readHoldingRegisters h3, modbusSwitch_readHoldingRegisters (h0.trans h3)]
    exact readRegisters_congr s h hn hsafe _ _
  rw [if_neg h3] at hsafe
  by_cases h4 : pdu 0 = modbusFcReadInputRegisters
  · rw [if_pos h4] at hsafe
    rw [modbusSwitch_readInputRegisters h4, modbusSwitch_readInputRegisters (h0.trans h4)]
    exact readRegisters_congr s h hn hsafe _ _
  rw [if_neg h4] at hsafe
  by_cases h5 : pdu 0 = modbusFcWriteSingleCoil
  · rw [if_pos h5] at hsafe
    rw [modbusSwitch_writeSingleCoil h5, modbusSwitch_writeSingleCoil (h0.trans h5)]
    exact writeSingleCoil_congr s h hn hsafe
  rw [if_neg h5] at hsafe
  by_cases h6 : pdu 0 = modbusFcWriteSingleRegister
  · rw [if_pos h6] at hsafe
    rw [modbusSwitch_writeSingleRegister h6, modbusSwitch_writeSingleRegister (h0.trans h6)]
    exact writeSingleRegister_congr s h hn hsafe
  rw [if_neg h6] at hsafe
  by_cases h7 : pdu 0 = modbusFcWriteMultipleCoils
  · rw [if_pos h7] at hsafe
    rw [modbusSwitch_writeMultipleCoils h7, modbusSwitch_writeMultipleCoils (h0.trans h7)]
    exact writeMultipleCoils_congr s h hn hsafe
  rw [if_neg h7] at hsafe
  by_cases h8 : pdu 0 = modbusFcWriteMultipleRegisters
  · rw [if_pos h8] at hsafe
    rw [modbusSwitch_writeMultipleRegisters h8, modbusSwitch_writeMultipleRegisters (h0.trans h8)]
    exact writeMultipleRegisters_congr s h hn hsafe
  simp only [modbusSwitch, h0, if_neg h1, if_neg h2, if_neg h3, if_neg h4, if_neg h5, if_neg h6,
    if_neg h7, if_neg h8]

theorem modbusProcessRequest_congr (h : ∀ i < n, pdu' i = pdu i) (hn : 0 < n)
    (hsafe : PduSafe s.server.config n pdu) :
    modbusProcessRequest s pdu' = modbusProcessRequest s pdu := by
  have hsw := modbusSwitch_congr { s with server.requests := s.server.requests + 1 } h hn hsafe
  simp only [modbusProcessRequest, hsw]

/-- **Safe frames** are processed as their received bytes say. -/
theorem modbusServerPoll_congr (port : Port) (zb : α) {frame frame' : ℕ → BitVec 8}
    (hsafe : FrameSafe s.server.config (s.pool.zb zb).len frame)
    (h : ∀ i < (s.pool.zb zb).len.toNat, frame' i = frame i) :
    modbusServerPoll port s zb frame' = modbusServerPoll port s zb frame := by
  by_cases hlen : (s.pool.zb zb).len.toNat < modbusTcpHdrLen + 1
  · unfold modbusServerPoll
    dsimp only
    rw [if_pos hlen, if_pos hlen]
  have hlen' : 8 ≤ (s.pool.zb zb).len.toNat := Nat.not_lt.1 hlen
  have htrans : be16 frame' 0 = be16 frame 0 := be16_congr h (show 0 + 1 < _ by omega)
  have hunit : frame' 6 = frame 6 := h 6 (by omega)
  unfold modbusServerPoll
  dsimp only
  rw [htrans, hunit, if_neg hlen, if_neg hlen]
  by_cases hother : frame 6 ≠ s.server.slaveAddr ∧ frame 6 ≠ 0
  · rw [if_pos hother, if_pos hother]
  have hpdu : PduSafe s.server.config ((s.pool.zb zb).len.toNat - modbusTcpHdrLen)
      fun i => frame (modbusTcpHdrLen + i) := (hsafe.resolve_left hlen).resolve_left hother
  have hproc : ∀ pool : ZbufPool α, (modbusProcessRequest ⟨s.server, pool⟩ fun i =>
      frame' (modbusTcpHdrLen + i)) =
        modbusProcessRequest ⟨s.server, pool⟩ fun i => frame (modbusTcpHdrLen + i) := by
    intro pool
    exact modbusProcessRequest_congr ⟨s.server, pool⟩ (fun i hi => h _ (by omega))
      (by simp only [modbusTcpHdrLen]; omega) hpdu
  rw [if_neg hother, if_neg hother]
  congr 1
  refine bind_congr fun r => ?_
  rw [hproc]

end

/-! ## Responses -/

/-- The reply `r` leaves the tables `t`, and its response in the buffer `b` is
    `l`. -/
def Responds (r : Option (ModbusReply α)) (b : α) (t : ModbusTables) (l : List (BitVec 8)) :
    Prop :=
  ∃ s', r = some (s', some b) ∧ s'.tables = t ∧ (s'.pool.zb b).data = configZbufHeadroom ∧
    (s'.pool.zb b).len.toNat = l.length ∧ l.length ≤ configZbufSize - configZbufHeadroom ∧
    (s'.pool.zb b).space.read configZbufHeadroom l.length = l

/-- A handler leaves the response `l` in the buffer `b`, behind the headroom. -/
structure HoldsResponse (s : ModbusState α) (b : α) (l : List (BitVec 8)) : Prop where
  data : (s.pool.zb b).data = configZbufHeadroom
  len : (s.pool.zb b).len.toNat = l.length
  fits : l.length ≤ configZbufSize - configZbufHeadroom
  bytes : (s.pool.zb b).space.read configZbufHeadroom l.length = l

/-- The replies to two requests differ in the tables or in the response. -/
def ToldApart (r₁ r₂ : Option (ModbusReply α)) (b : α) : Prop :=
  ∃ t₁ l₁ t₂ l₂, Responds r₁ b t₁ l₁ ∧ Responds r₂ b t₂ l₂ ∧ (t₁ ≠ t₂ ∨ l₁ ≠ l₂)

section
variable {r₁ r₂ : Option (ModbusReply α)} {b : α} {t₁ t₂ : ModbusTables} {l₁ l₂ : List (BitVec 8)}

theorem ToldApart.of_tables (h₁ : Responds r₁ b t₁ l₁) (h₂ : Responds r₂ b t₂ l₂) (h : t₁ ≠ t₂) :
    ToldApart r₁ r₂ b := ⟨_, _, _, _, h₁, h₂, Or.inl h⟩

theorem ToldApart.of_response (h₁ : Responds r₁ b t₁ l₁) (h₂ : Responds r₂ b t₂ l₂)
    (h : l₁ ≠ l₂) : ToldApart r₁ r₂ b := ⟨_, _, _, _, h₁, h₂, Or.inr h⟩

end

variable [DecidableEq α]

section
variable {s : ModbusState α} {b : α} {pdu : ℕ → BitVec 8}

/-- What a handler leaves when there is a buffer `b` for its response. -/
theorem modbusRespond_holds (hb : s.pool.freeList = some b) {size : BitVec 16}
    (hs : size.toNat ≤ configZbufSize - configZbufHeadroom) (fill : ℕ → ByteMem → ByteMem) :
    ∃ s', modbusRespond s size fill = some (s', some b) ∧ s'.server = s.server ∧
      HoldsResponse s' b
        ((fill configZbufHeadroom (s.pool.zb b).space).read configZbufHeadroom size.toNat) := by
  obtain ⟨s', hr, hserver, hdata, -, hlen, hspace⟩ := modbusRespond_spec hb hs fill
  refine ⟨s', hr, hserver, hdata, ?_, ?_, ?_⟩
  · rw [hlen, ByteMem.read_length]
  · rwa [ByteMem.read_length]
  · rw [hspace, ByteMem.read_length]

theorem responds_respond (hb : s.pool.freeList = some b) {size : BitVec 16}
    (hs : size.toNat ≤ configZbufSize - configZbufHeadroom) (fill : ℕ → ByteMem → ByteMem) :
    Responds (modbusRespond s size fill) b s.tables
      ((fill configZbufHeadroom (s.pool.zb b).space).read configZbufHeadroom size.toNat) := by
  obtain ⟨s', hr, hserver, hdata, hlen, hfits, hbytes⟩ := modbusRespond_holds hb hs fill
  exact ⟨s', hr, congrArg (fun v => v.data.tables) hserver, hdata, hlen, hfits, hbytes⟩

theorem responds_refuse (hb : s.pool.freeList = some b) (function exception : BitVec 8) :
    Responds (modbusRefuse s function exception) b s.tables [function ||| 0x80, exception] := by
  have h := responds_respond hb (by decide : (2 : BitVec 16).toNat ≤ _) fun data m =>
    m.putBytes data [function ||| 0x80, exception]
  have hread := (s.pool.zb b).space.read_putBytes configZbufHeadroom [function ||| 0x80, exception]
  rw [show (2 : BitVec 16).toNat = [function ||| 0x80, exception].length from rfl, hread] at h
  obtain ⟨s', hr, hs'⟩ := h
  refine ⟨{ s' with server.exceptions := s'.server.exceptions + 1 }, ?_, hs'⟩
  simp only [ByteMem.putBytes_cons, ByteMem.putBytes_nil] at hr
  simp only [modbusRefuse, modbusBuildException, hr, Option.bind_eq_bind, Option.bind_some]

theorem responds_echo (hb : s.pool.freeList = some b) (pdu : ℕ → BitVec 8) :
    Responds (modbusEcho s pdu) b s.tables [pdu 0, pdu 1, pdu 2, pdu 3, pdu 4] := by
  have h := responds_respond hb (by decide : (5 : BitVec 16).toNat ≤ _) fun out m =>
    m.putBytes out [pdu 0, pdu 1, pdu 2, pdu 3, pdu 4]
  have hread := (s.pool.zb b).space.read_putBytes configZbufHeadroom
    [pdu 0, pdu 1, pdu 2, pdu 3, pdu 4]
  rwa [show (5 : BitVec 16).toNat = [pdu 0, pdu 1, pdu 2, pdu 3, pdu 4].length from rfl, hread] at h

theorem responds_echo_setTables (hb : s.pool.freeList = some b) (t : ModbusTables)
    (pdu : ℕ → BitVec 8) :
    Responds (modbusEcho (s.setTables t) pdu) b t [pdu 0, pdu 1, pdu 2, pdu 3, pdu 4] := by
  have hb' : (s.setTables t).pool.freeList = some b := hb
  exact responds_echo hb' pdu

/-- A read response starts with the function code and the byte count. -/
theorem responds_read (hb : s.pool.freeList = some b) (function n : BitVec 8)
    {fill : ℕ → ByteMem → ByteMem}
    (hfill : ∀ out m, ∃ k, ByteMem.Within (out + 2) k m (fill out m)) :
    ∃ l, Responds (modbusRespond s (2 + n.setWidth 16) fun out m =>
        fill out ((m.set out function).set (out + 1) n)) b s.tables (function :: n :: l) := by
  have hn := n.isLt
  have hsize : (2 + n.setWidth 16 : BitVec 16).toNat = n.toNat + 1 + 1 := by
    have h2 : (2 : BitVec 16).toNat = 2 := rfl
    rw [BitVec.toNat_add, BitVec.toNat_setWidth]
    omega
  have hfit : (2 + n.setWidth 16 : BitVec 16).toNat ≤ configZbufSize - configZbufHeadroom := by
    rw [hsize, configZbufSize, configZbufHeadroom]
    omega
  have h := responds_respond hb hfit fun out m => fill out ((m.set out function).set (out + 1) n)
  obtain ⟨k, hw⟩ := hfill configZbufHeadroom
    (((s.pool.zb b).space.set configZbufHeadroom function).set (configZbufHeadroom + 1) n)
  rw [hsize, ByteMem.read_succ, ByteMem.read_succ, hw.frame _ (by omega), hw.frame _ (by omega),
    ByteMem.set_byte_self, ByteMem.set_byte_of_ne _ _ (by omega), ByteMem.set_byte_self] at h
  exact ⟨_, h⟩

/-- A read of bits that the range check accepts. -/
theorem responds_readBits (hb : s.pool.freeList = some b) {size : BitVec 16}
    (table : ModbusTables → ℕ → BitVec 8)
    (hr : (be16 pdu 1).toNat + (be16 pdu 3).toNat ≤ size.toNat) :
    ∃ l, Responds (readBits s pdu size table none) b s.tables
      (pdu 0 :: BitVec.ofNat 8 (((be16 pdu 3).toNat + 7) / 8) :: l) := by
  simp only [readBits, if_neg (Nat.not_lt.2 hr)]
  exact responds_read hb _ _ fun out m => ⟨_, (packBits_spec _ _ _ m out _).1⟩

/-- A read of registers that the range check accepts. -/
theorem responds_readRegisters (hb : s.pool.freeList = some b) {size : BitVec 16}
    (table : ModbusTables → ℕ → BitVec 16)
    (hr : (be16 pdu 1).toNat + (be16 pdu 3).toNat ≤ size.toNat) :
    ∃ l, Responds (readRegisters s pdu size table none) b s.tables
      (pdu 0 :: BitVec.ofNat 8 ((be16 pdu 3).toNat * 2) :: l) := by
  simp only [readRegisters, if_neg (Nat.not_lt.2 hr)]
  exact responds_read hb _ _ fun out m => ⟨_, (packRegisters_spec _ _ m out _).1⟩

end

section
variable {s : ModbusState α} {b : α} {pdu : ℕ → BitVec 8} (hb : s.pool.freeList = some b)
include hb

/-- A write of a coil that the checks accept. -/
theorem responds_writeSingleCoil (hcb : s.server.data.onWriteCoils = none)
    (ha : ¬ s.tables.coilsCount ≤ be16 pdu 1) (hv : be16 pdu 3 = 0xFF00 ∨ be16 pdu 3 = 0) :
    Responds (writeSingleCoil s pdu) b
      { s.tables with coils := setBit s.tables.coils (be16 pdu 1).toNat (be16 pdu 3 = 0xFF00) }
      [pdu 0, pdu 1, pdu 2, pdu 3, pdu 4] := by
  rw [writeSingleCoil, if_neg ha, if_pos hv]
  simp only [ModbusState.setTables_data, hcb, ModbusState.notify]
  exact responds_echo_setTables hb _ _

/-- A write of a register that the check accepts. -/
theorem responds_writeSingleRegister (hcb : s.server.data.onWriteHolding = none)
    (ha : ¬ s.tables.holdingRegistersCount ≤ be16 pdu 1) :
    Responds (writeSingleRegister s pdu) b
      { s.tables with holdingRegisters :=
          Function.update s.tables.holdingRegisters (be16 pdu 1).toNat (be16 pdu 3) }
      [pdu 0, pdu 1, pdu 2, pdu 3, pdu 4] := by
  rw [writeSingleRegister, if_neg ha]
  simp only [ModbusState.setTables_data, hcb, ModbusState.notify]
  exact responds_echo_setTables hb _ _

/-- A write of coils that the check accepts. -/
theorem responds_writeMultipleCoils (hcb : s.server.data.onWriteCoils = none)
    (hr : (be16 pdu 1).toNat + (be16 pdu 3).toNat ≤ s.tables.coilsCount.toNat) :
    Responds (writeMultipleCoils s pdu) b
      { s.tables with coils := unpackBits pdu (be16 pdu 1) s.tables.coils (be16 pdu 3).toNat }
      [pdu 0, pdu 1, pdu 2, pdu 3, pdu 4] := by
  rw [writeMultipleCoils, if_neg (Nat.not_lt.2 hr)]
  simp only [ModbusState.setTables_data, hcb, ModbusState.notify]
  exact responds_echo_setTables hb _ _

/-- A write of registers that the check accepts. -/
theorem responds_writeMultipleRegisters (hcb : s.server.data.onWriteHolding = none)
    (hr : (be16 pdu 1).toNat + (be16 pdu 3).toNat ≤ s.tables.holdingRegistersCount.toNat) :
    Responds (writeMultipleRegisters s pdu) b
      { s.tables with holdingRegisters :=
          unpackRegisters pdu (be16 pdu 1) s.tables.holdingRegisters (be16 pdu 3).toNat }
      [pdu 0, pdu 1, pdu 2, pdu 3, pdu 4] := by
  rw [writeMultipleRegisters, if_neg (Nat.not_lt.2 hr)]
  simp only [ModbusState.setTables_data, hcb, ModbusState.notify]
  exact responds_echo_setTables hb _ _

end

/-! ## Other requests -/

/-- The bit of a table that was set or cleared last. -/
theorem tableBit_setBit (table : ℕ → BitVec 8) (a : ℕ) (on : Bool) :
    tableBit (setBit table a on) a = on := by
  rw [tableBit, setBit, Function.update_self]
  have ha : a % 8 < 8 := by omega
  cases on with
  | true => simp [or_bit_getLsbD _ ha]
  | false =>
    rw [if_neg (by simp), ← BitVec.twoPow_eq, BitVec.getLsbD_and, BitVec.getLsbD_not,
      BitVec.getLsbD_twoPow]
    simp [ha]

/-- The received bytes, and `v` at a place `j` behind them. -/
def continued (n : ℕ) (pdu : ℕ → BitVec 8) (j : ℕ) (v : BitVec 8) : ℕ → BitVec 8 :=
  Function.update (receivedBytes n pdu) j v

section
variable {s : ModbusState α} {b : α} {n : ℕ} {pdu : ℕ → BitVec 8}

theorem continued_of_lt {j : ℕ} (hj : n ≤ j) (v : BitVec 8) :
    ∀ i < n, continued n pdu j v i = pdu i := by
  intro i hi
  rw [continued, Function.update_of_ne (by omega), receivedBytes, if_pos hi]

theorem continued_self (j : ℕ) (v : BitVec 8) : continued n pdu j v j = v :=
  Function.update_self ..

theorem receivedBytes_of_lt : ∀ i < n, receivedBytes n pdu i = pdu i := fun _ hi => if_pos hi

theorem receivedBytes_of_ge {i : ℕ} (hi : n ≤ i) : receivedBytes n pdu i = 0 :=
  if_neg (Nat.not_lt.2 hi)

theorem be16_continued {i j : ℕ} (h0 : i ≠ j) (h1 : i + 1 ≠ j) (v : BitVec 8) :
    be16 (continued n pdu j v) i = be16 (receivedBytes n pdu) i := by
  rw [be16, be16, continued, Function.update_of_ne h0, Function.update_of_ne h1]

/-- Without its low byte, the count (or value) is a multiple of 256. -/
theorem be16_receivedBytes_low (pdu : ℕ → BitVec 8) (hn : n < 5) :
    (be16 (receivedBytes n pdu) 3).toNat = (receivedBytes n pdu 3).toNat * 256 ∧
      (be16 (continued n pdu 4 1) 3).toNat = (receivedBytes n pdu 3).toNat * 256 + 1 := by
  have e0 : (0 : BitVec 8).toNat = 0 := rfl
  have e1 : (1 : BitVec 8).toNat = 1 := rfl
  have h4 : receivedBytes n pdu 4 = 0 := receivedBytes_of_ge (by omega)
  have h3 : continued n pdu 4 1 3 = receivedBytes n pdu 3 := Function.update_of_ne (by omega) ..
  have h1 : continued n pdu 4 1 4 = 1 := continued_self ..
  have hlow := be16_toNat (receivedBytes n pdu) 3
  have hnew := be16_toNat (continued n pdu 4 1) 3
  rw [h4, e0] at hlow
  rw [h3, h1, e1] at hnew
  omega

/-- An echo shows the fifth byte. -/
theorem echo_ne (hn : n < 5) :
    [receivedBytes n pdu 0, receivedBytes n pdu 1, receivedBytes n pdu 2, receivedBytes n pdu 3,
        receivedBytes n pdu 4] ≠
      [continued n pdu 4 1 0, continued n pdu 4 1 1, continued n pdu 4 1 2, continued n pdu 4 1 3,
        continued n pdu 4 1 4] := by
  intro he
  have h4 : receivedBytes n pdu 4 = continued n pdu 4 1 4 := by
    simp only [List.cons.injEq] at he
    exact he.2.2.2.2.1
  rw [receivedBytes_of_ge (by omega), continued_self] at h4
  cases h4

variable {r₁ : Option (ModbusReply α)} {t : ModbusTables} {l : List (BitVec 8)}
  {function : BitVec 8}

variable (hb : s.pool.freeList = some b)
include hb

/-- A response is told apart from an exception by its first byte. -/
theorem ToldApart.of_refuse (hf : function ||| 0x80 ≠ function)
    (h : Responds r₁ b t (function :: l)) (exception : BitVec 8) :
    ToldApart r₁ (modbusRefuse s function exception) b := by
  refine .of_response h (responds_refuse hb _ _) ?_
  intro he
  exact hf (List.cons.inj he).1.symm

variable (hn : 0 < n) (hf : pdu 0 ||| 0x80 ≠ pdu 0)
include hn hf

theorem readBits_apart {size : BitVec 16} (table : ModbusTables → ℕ → BitVec 8)
    (hneeds : ¬ (5 ≤ n ∨ RangeRefused n size pdu)) :
    ToldApart (readBits s (receivedBytes n pdu) size table none)
      (readBits s (continued n pdu 4 1) size table none) b := by
  obtain ⟨h5, hr⟩ := not_or.1 hneeds
  obtain ⟨hc₁, hc₂⟩ := be16_receivedBytes_low pdu (Nat.not_le.1 h5)
  obtain ⟨l₁, h₁⟩ := responds_readBits hb table (Nat.not_lt.1 hr)
  have h0 : continued n pdu 4 1 0 = pdu 0 := continued_of_lt (by omega) 1 0 hn
  rw [receivedBytes_of_lt 0 hn] at h₁
  by_cases hr₂ : size.toNat < (be16 (continued n pdu 4 1) 1).toNat +
      (be16 (continued n pdu 4 1) 3).toNat
  · simp only [readBits, if_pos hr₂, h0] at h₁ ⊢
    exact .of_refuse hb hf h₁ _
  · obtain ⟨l₂, h₂⟩ := responds_readBits hb table (Nat.not_lt.1 hr₂)
    refine .of_response h₁ h₂ fun he => ?_
    have hn₁ := congrArg BitVec.toNat (List.cons.inj (List.cons.inj he).2).1
    rw [hc₁, hc₂, BitVec.toNat_ofNat, BitVec.toNat_ofNat] at hn₁
    omega

theorem readRegisters_apart {size : BitVec 16} (table : ModbusTables → ℕ → BitVec 16)
    (hneeds : ¬ (5 ≤ n ∨ RangeRefused n size pdu)) :
    ToldApart (readRegisters s (receivedBytes n pdu) size table none)
      (readRegisters s (continued n pdu 4 1) size table none) b := by
  obtain ⟨h5, hr⟩ := not_or.1 hneeds
  obtain ⟨hc₁, hc₂⟩ := be16_receivedBytes_low pdu (Nat.not_le.1 h5)
  obtain ⟨l₁, h₁⟩ := responds_readRegisters hb table (Nat.not_lt.1 hr)
  have h0 : continued n pdu 4 1 0 = pdu 0 := continued_of_lt (by omega) 1 0 hn
  rw [receivedBytes_of_lt 0 hn] at h₁
  by_cases hr₂ : size.toNat < (be16 (continued n pdu 4 1) 1).toNat +
      (be16 (continued n pdu 4 1) 3).toNat
  · simp only [readRegisters, if_pos hr₂, h0] at h₁ ⊢
    exact .of_refuse hb hf h₁ _
  · obtain ⟨l₂, h₂⟩ := responds_readRegisters hb table (Nat.not_lt.1 hr₂)
    refine .of_response h₁ h₂ fun he => ?_
    have hn₁ := congrArg BitVec.toNat (List.cons.inj (List.cons.inj he).2).1
    rw [hc₁, hc₂, BitVec.toNat_ofNat, BitVec.toNat_ofNat] at hn₁
    omega

omit hn hf in
theorem writeSingleRegister_apart (hcb : s.server.data.onWriteHolding = none)
    (hneeds : ¬ (5 ≤ n ∨ AddressRefused n s.tables.holdingRegistersCount pdu)) :
    ToldApart (writeSingleRegister s (receivedBytes n pdu))
      (writeSingleRegister s (continued n pdu 4 1)) b := by
  obtain ⟨h5, hr⟩ := not_or.1 hneeds
  have haddr : be16 (continued n pdu 4 1) 1 = be16 (receivedBytes n pdu) 1 :=
    be16_continued (by omega) (by omega) 1
  refine .of_response (responds_writeSingleRegister hb hcb hr)
    (responds_writeSingleRegister hb hcb (by rw [haddr]; exact hr)) ?_
  exact echo_ne (Nat.not_le.1 h5)

theorem writeSingleCoil_apart (hcb : s.server.data.onWriteCoils = none)
    (hneeds : ¬ (5 ≤ n ∨ AddressRefused n s.tables.coilsCount pdu ∨
      n = 4 ∧ pdu 3 ≠ 0 ∧ pdu 3 ≠ 0xFF)) :
    ToldApart (writeSingleCoil s (receivedBytes n pdu))
      (writeSingleCoil s (continued n pdu 4 1)) b := by
  obtain ⟨h5, hneeds⟩ := not_or.1 hneeds
  obtain ⟨hr, hv⟩ := not_or.1 hneeds
  obtain ⟨hc₁, hc₂⟩ := be16_receivedBytes_low pdu (Nat.not_le.1 h5)
  have haddr : be16 (continued n pdu 4 1) 1 = be16 (receivedBytes n pdu) 1 :=
    be16_continued (by omega) (by omega) 1
  have h0 : continued n pdu 4 1 0 = pdu 0 := continued_of_lt (by omega) 1 0 hn
  -- the high byte of the value is 0 or 0xFF
  have hhi : receivedBytes n pdu 3 = 0 ∨ receivedBytes n pdu 3 = 0xFF := by
    by_cases h4 : n = 4
    · rw [receivedBytes_of_lt 3 (by omega)]
      by_contra hne
      exact hv ⟨h4, not_or.1 hne⟩
    · exact Or.inl (receivedBytes_of_ge (by omega))
  have hok : be16 (receivedBytes n pdu) 3 = 0xFF00 ∨ be16 (receivedBytes n pdu) 3 = 0 := by
    rcases hhi with h | h
    · right
      apply BitVec.eq_of_toNat_eq
      rw [hc₁, h]; rfl
    · left
      apply BitVec.eq_of_toNat_eq
      rw [hc₁, h]; rfl
  have hbad : ¬ (be16 (continued n pdu 4 1) 3 = 0xFF00 ∨ be16 (continued n pdu 4 1) 3 = 0) := by
    rintro (h | h)
    · have h' := congrArg BitVec.toNat h
      rw [hc₂, show (0xFF00 : BitVec 16).toNat = 0xFF00 from rfl] at h'
      omega
    · have h' := congrArg BitVec.toNat h
      rw [hc₂, show (0 : BitVec 16).toNat = 0 from rfl] at h'
      omega
  have hr : ¬ s.tables.coilsCount ≤ be16 (receivedBytes n pdu) 1 := hr
  have h₁ := responds_writeSingleCoil hb hcb hr hok
  have h₂ : writeSingleCoil s (continued n pdu 4 1) =
      modbusRefuse s (pdu 0) modbusExIllegalDataValue := by
    simp only [writeSingleCoil, haddr, if_neg hr, if_neg hbad, h0]
  rw [h₂]
  rw [receivedBytes_of_lt 0 hn] at h₁
  exact .of_refuse hb hf h₁ _

/-- A write of coils whose count is not known. -/
theorem writeMultipleCoils_apart (hcb : s.server.data.onWriteCoils = none) (h5 : n < 5)
    (hr : ¬ RangeRefused n s.tables.coilsCount pdu) :
    ToldApart (writeMultipleCoils s (receivedBytes n pdu))
      (writeMultipleCoils s (continued n pdu 4 1)) b := by
  have h₁ := responds_writeMultipleCoils hb hcb (Nat.not_lt.1 hr)
  have h0 : continued n pdu 4 1 0 = pdu 0 := continued_of_lt (by omega) 1 0 hn
  by_cases hr₂ : s.tables.coilsCount.toNat < (be16 (continued n pdu 4 1) 1).toNat +
      (be16 (continued n pdu 4 1) 3).toNat
  · have h₂ : writeMultipleCoils s (continued n pdu 4 1) =
        modbusRefuse s (pdu 0) modbusExIllegalDataAddress := by
      simp only [writeMultipleCoils, if_pos hr₂, h0]
    rw [h₂]
    rw [receivedBytes_of_lt 0 hn] at h₁
    exact .of_refuse hb hf h₁ _
  · exact .of_response h₁ (responds_writeMultipleCoils hb hcb (Nat.not_lt.1 hr₂)) (echo_ne h5)

/-- A write of registers whose count is not known. -/
theorem writeMultipleRegisters_apart (hcb : s.server.data.onWriteHolding = none) (h5 : n < 5)
    (hr : ¬ RangeRefused n s.tables.holdingRegistersCount pdu) :
    ToldApart (writeMultipleRegisters s (receivedBytes n pdu))
      (writeMultipleRegisters s (continued n pdu 4 1)) b := by
  have h₁ := responds_writeMultipleRegisters hb hcb (Nat.not_lt.1 hr)
  have h0 : continued n pdu 4 1 0 = pdu 0 := continued_of_lt (by omega) 1 0 hn
  by_cases hr₂ : s.tables.holdingRegistersCount.toNat < (be16 (continued n pdu 4 1) 1).toNat +
      (be16 (continued n pdu 4 1) 3).toNat
  · have h₂ : writeMultipleRegisters s (continued n pdu 4 1) =
        modbusRefuse s (pdu 0) modbusExIllegalDataAddress := by
      simp only [writeMultipleRegisters, if_pos hr₂, h0]
    rw [h₂]
    rw [receivedBytes_of_lt 0 hn] at h₁
    exact .of_refuse hb hf h₁ _
  · exact .of_response h₁ (responds_writeMultipleRegisters hb hcb (Nat.not_lt.1 hr₂)) (echo_ne h5)

omit hn hf in
/-- A write of coils whose data was not received. -/
theorem writeMultipleCoils_apart_data (hcb : s.server.data.onWriteCoils = none) (h5 : 5 ≤ n)
    (hr : ¬ RangeRefused n s.tables.coilsCount pdu) {k : ℕ} (hk : (be16 pdu 3).toNat = k + 1)
    (hd : n ≤ 6 + k / 8) :
    ToldApart (writeMultipleCoils s (receivedBytes n pdu))
      (writeMultipleCoils s (continued n pdu (6 + k / 8) 0xFF)) b := by
  have hrec : ∀ i < n, receivedBytes n pdu i = pdu i := receivedBytes_of_lt
  have hcon : ∀ i < n, continued n pdu (6 + k / 8) 0xFF i = pdu i := continued_of_lt hd _
  have hr := Nat.not_lt.1 hr
  rw [be16_congr hrec (by omega), be16_congr hrec (by omega)] at hr
  have h₁ : Responds (writeMultipleCoils s (receivedBytes n pdu)) b _ _ :=
    responds_writeMultipleCoils hb hcb (by
      rwa [be16_congr hrec (by omega), be16_congr hrec (by omega)])
  have h₂ : Responds (writeMultipleCoils s (continued n pdu (6 + k / 8) 0xFF)) b _ _ :=
    responds_writeMultipleCoils hb hcb (by
      rwa [be16_congr hcon (by omega), be16_congr hcon (by omega)])
  refine .of_tables h₁ h₂ fun ht => ?_
  have hbit := congrArg (fun t : ModbusTables =>
    tableBit t.coils (be16 pdu 1 + BitVec.ofNat 16 k).toNat) ht
  simp only [be16_congr hrec (show 1 + 1 < n by omega), be16_congr hrec (show 3 + 1 < n by omega),
    be16_congr hcon (show 1 + 1 < n by omega), be16_congr hcon (show 3 + 1 < n by omega), hk,
    unpackBits, tableBit_setBit, receivedBytes_of_ge hd, continued_self] at hbit
  have hk8 : k % 8 < 8 := by omega
  rw [decide_eq_decide, and_bit_ne_zero _ hk8, and_bit_ne_zero _ hk8] at hbit
  have hff : (0xFF : BitVec 8).getLsbD (k % 8) = true := by
    generalize k % 8 = i at hk8
    revert i
    decide
  have hzero := hbit.2 hff
  simp at hzero

omit hn hf in
/-- A write of registers whose data was not received. -/
theorem writeMultipleRegisters_apart_data (hcb : s.server.data.onWriteHolding = none)
    (h5 : 5 ≤ n) (hr : ¬ RangeRefused n s.tables.holdingRegistersCount pdu) {k : ℕ}
    (hk : (be16 pdu 3).toNat = k + 1) (hd : n ≤ 6 + k * 2 + 1) :
    ToldApart (writeMultipleRegisters s (receivedBytes n pdu))
      (writeMultipleRegisters s (continued n pdu (6 + k * 2 + 1) 1)) b := by
  have hrec : ∀ i < n, receivedBytes n pdu i = pdu i := receivedBytes_of_lt
  have hcon : ∀ i < n, continued n pdu (6 + k * 2 + 1) 1 i = pdu i := continued_of_lt hd _
  have hr := Nat.not_lt.1 hr
  rw [be16_congr hrec (by omega), be16_congr hrec (by omega)] at hr
  have h₁ : Responds (writeMultipleRegisters s (receivedBytes n pdu)) b _ _ :=
    responds_writeMultipleRegisters hb hcb (by
      rwa [be16_congr hrec (by omega), be16_congr hrec (by omega)])
  have h₂ : Responds (writeMultipleRegisters s (continued n pdu (6 + k * 2 + 1) 1)) b _ _ :=
    responds_writeMultipleRegisters hb hcb (by
      rwa [be16_congr hcon (by omega), be16_congr hcon (by omega)])
  refine .of_tables h₁ h₂ fun ht => ?_
  have hreg := congrArg (fun t : ModbusTables =>
    (t.holdingRegisters ((be16 pdu 1).toNat + k)).toNat % 2 ^ 8) ht
  simp only [be16_congr hrec (show 1 + 1 < n by omega), be16_congr hrec (show 3 + 1 < n by omega),
    be16_congr hcon (show 1 + 1 < n by omega), be16_congr hcon (show 3 + 1 < n by omega), hk,
    unpackRegisters, Function.update_self, be16_toNat, receivedBytes_of_ge hd,
    continued_self] at hreg
  have h0 : (0 : BitVec 8).toNat = 0 := rfl
  have h1 : (1 : BitVec 8).toNat = 1 := rfl
  omega

end

/-- No callback hides what a request does. -/
structure NoCallbacks (d : ModbusData) : Prop where
  onReadCoils : d.onReadCoils = none
  onWriteCoils : d.onWriteCoils = none
  onReadHolding : d.onReadHolding = none
  onWriteHolding : d.onWriteHolding = none

/-- **Other requests.**  Two continuations of the received bytes are told apart. -/
theorem modbusSwitch_apart {s : ModbusState α} {b : α} (hb : s.pool.freeList = some b)
    (hcb : NoCallbacks s.server.data) {n : ℕ} {pdu : ℕ → BitVec 8} (hn : 0 < n)
    (hneeds : ¬ PduSafe s.server.config n pdu) :
    ∃ j v, n ≤ j ∧ ToldApart (modbusSwitch s (receivedBytes n pdu))
      (modbusSwitch s (continued n pdu j v)) b := by
  have hrec : ∀ {fc}, pdu 0 = fc → receivedBytes n pdu 0 = fc := fun h =>
    (receivedBytes_of_lt 0 hn).trans h
  have hcon : ∀ {j v fc}, n ≤ j → pdu 0 = fc → continued n pdu j v 0 = fc := fun hj h =>
    (continued_of_lt hj _ 0 hn).trans h
  unfold PduSafe at hneeds
  dsimp only at hneeds
  by_cases h1 : pdu 0 = modbusFcReadCoils
  · rw [if_pos h1] at hneeds
    have hj : n ≤ 4 := by omega
    refine ⟨4, 1, hj, ?_⟩
    rw [modbusSwitch_readCoils (hrec h1), modbusSwitch_readCoils (hcon hj h1)]
    simp only [readCoils, hcb.onReadCoils]
    exact readBits_apart hb hn (by rw [h1]; decide) _ hneeds
  rw [if_neg h1] at hneeds
  by_cases h2 : pdu 0 = modbusFcReadDiscreteInputs
  · rw [if_pos h2] at hneeds
    have hj : n ≤ 4 := by omega
    refine ⟨4, 1, hj, ?_⟩
    rw [modbusSwitch_readDiscreteInputs (hrec h2), modbusSwitch_readDiscreteInputs (hcon hj h2)]
    simp only [readDiscreteInputs]
    exact readBits_apart hb hn (by rw [h2]; decide) _ hneeds
  rw [if_neg h2] at hneeds
  by_cases h3 : pdu 0 = modbusFcReadHoldingRegisters
  · rw [if_pos h3] at hneeds
    have hj : n ≤ 4 := by omega
    refine ⟨4, 1, hj, ?_⟩
    rw [modbusSwitch_readHoldingRegisters (hrec h3), modbusSwitch_readHoldingRegisters (hcon hj h3)]
    simp only [readHoldingRegisters, hcb.onReadHolding]
    exact readRegisters_apart hb hn (by rw [h3]; decide) _ hneeds
  rw [if_neg h3] at hneeds
  by_cases h4 : pdu 0 = modbusFcReadInputRegisters
  · rw [if_pos h4] at hneeds
    have hj : n ≤ 4 := by omega
    refine ⟨4, 1, hj, ?_⟩
    rw [modbusSwitch_readInputRegisters (hrec h4), modbusSwitch_readInputRegisters (hcon hj h4)]
    simp only [readInputRegisters]
    exact readRegisters_apart hb hn (by rw [h4]; decide) _ hneeds
  rw [if_neg h4] at hneeds
  by_cases h5 : pdu 0 = modbusFcWriteSingleCoil
  · rw [if_pos h5] at hneeds
    have hj : n ≤ 4 := by omega
    refine ⟨4, 1, hj, ?_⟩
    rw [modbusSwitch_writeSingleCoil (hrec h5), modbusSwitch_writeSingleCoil (hcon hj h5)]
    exact writeSingleCoil_apart hb hn (by rw [h5]; decide) hcb.onWriteCoils hneeds
  rw [if_neg h5] at hneeds
  by_cases h6 : pdu 0 = modbusFcWriteSingleRegister
  · rw [if_pos h6] at hneeds
    have hj : n ≤ 4 := by omega
    refine ⟨4, 1, hj, ?_⟩
    rw [modbusSwitch_writeSingleRegister (hrec h6), modbusSwitch_writeSingleRegister (hcon hj h6)]
    exact writeSingleRegister_apart hb hcb.onWriteHolding hneeds
  rw [if_neg h6] at hneeds
  by_cases h7 : pdu 0 = modbusFcWriteMultipleCoils
  · rw [if_pos h7] at hneeds
    obtain ⟨hr, hd⟩ := not_or.1 hneeds
    by_cases hn5 : 5 ≤ n
    · obtain ⟨k, hk⟩ : ∃ k, (be16 pdu 3).toNat = k + 1 := ⟨(be16 pdu 3).toNat - 1, by omega⟩
      have hj : n ≤ 6 + k / 8 := by omega
      refine ⟨_, 0xFF, hj, ?_⟩
      rw [modbusSwitch_writeMultipleCoils (hrec h7), modbusSwitch_writeMultipleCoils (hcon hj h7)]
      exact writeMultipleCoils_apart_data hb hcb.onWriteCoils hn5 hr hk hj
    · have hj : n ≤ 4 := by omega
      refine ⟨4, 1, hj, ?_⟩
      rw [modbusSwitch_writeMultipleCoils (hrec h7), modbusSwitch_writeMultipleCoils (hcon hj h7)]
      exact writeMultipleCoils_apart hb hn (by rw [h7]; decide) hcb.onWriteCoils (by omega) hr
  rw [if_neg h7] at hneeds
  by_cases h8 : pdu 0 = modbusFcWriteMultipleRegisters
  · rw [if_pos h8] at hneeds
    obtain ⟨hr, hd⟩ := not_or.1 hneeds
    by_cases hn5 : 5 ≤ n
    · obtain ⟨k, hk⟩ : ∃ k, (be16 pdu 3).toNat = k + 1 := ⟨(be16 pdu 3).toNat - 1, by omega⟩
      have hj : n ≤ 6 + k * 2 + 1 := by omega
      refine ⟨_, 1, hj, ?_⟩
      rw [modbusSwitch_writeMultipleRegisters (hrec h8),
        modbusSwitch_writeMultipleRegisters (hcon hj h8)]
      exact writeMultipleRegisters_apart_data hb hcb.onWriteHolding hn5 hr hk hj
    · have hj : n ≤ 4 := by omega
      refine ⟨4, 1, hj, ?_⟩
      rw [modbusSwitch_writeMultipleRegisters (hrec h8),
        modbusSwitch_writeMultipleRegisters (hcon hj h8)]
      exact writeMultipleRegisters_apart hb hn (by rw [h8]; decide) hcb.onWriteHolding (by omega) hr
  rw [if_neg h8] at hneeds
  exact absurd trivial hneeds

/-! ## The server -/

/-- The state in which a received request is processed. -/
def modbusReceived (s : ModbusState α) (zb : α) : ModbusState α :=
  { server := { s.server with requests := s.server.requests + 1 }
    pool := { s.pool with
      zb := Function.update s.pool.zb zb
        { s.pool.zb zb with
          data := (s.pool.zb zb).data + (modbusTcpHdrLen : BitVec 16).toNat
          len := (s.pool.zb zb).len - modbusTcpHdrLen } } }

/-- The MBAP header of a frame. -/
def mbapBytes (transId length : BitVec 16) (unitId : BitVec 8) : List (BitVec 8) :=
  [hiByte transId, loByte transId, 0, 0, hiByte length, loByte length, unitId]

theorem putBe16_mbap (m : ByteMem) (mbap : ℕ) (transId length : BitVec 16) (unitId : BitVec 8) :
    (putBe16 (putBe16 (putBe16 m mbap transId) (mbap + 2) 0) (mbap + 4) length).set (mbap + 6)
      unitId = m.putBytes mbap (mbapBytes transId length unitId) := by
  have h0 : hiByte 0 = 0 := by decide
  have h1 : loByte 0 = 0 := by decide
  simp only [putBe16, mbapBytes, ByteMem.putBytes_cons, ByteMem.putBytes_nil, h0, h1]

/-- **The frame sent** is the response behind the header, which has the transaction
    of the request and the number of bytes behind its length. -/
theorem modbusServerPoll_responds (port : Port) {s s' : ModbusState α} {zb b : α}
    {frame : ℕ → BitVec 8} {l : List (BitVec 8)}
    (hrun : s.server.tcpRunning = true) (hlen : modbusTcpHdrLen + 1 ≤ (s.pool.zb zb).len.toNat)
    (hunit : ¬ (frame 6 ≠ s.server.slaveAddr ∧ frame 6 ≠ 0))
    (hsw : modbusSwitch (modbusReceived s zb) (fun i => frame (modbusTcpHdrLen + i)) =
      some (s', some b)) (h : HoldsResponse s' b l) :
    ∃ pool, modbusServerPoll port s zb frame =
      some (⟨{ s'.server with responses := s'.server.responses + 1 }, pool⟩,
        some (mbapBytes (be16 frame 0) (BitVec.ofNat 16 (l.length + 1)) s'.server.slaveAddr ++
          l)) := by
  obtain ⟨hdata, hl, hfit, hread⟩ := h
  have hpull : zbufPull (s.pool.zb zb) modbusTcpHdrLen = some ((modbusReceived s zb).pool.zb zb,
      (s.pool.zb zb).data + (modbusTcpHdrLen : BitVec 16).toNat) := by
    have hle : ¬ (s.pool.zb zb).len < (modbusTcpHdrLen : BitVec 16) := by
      rw [BitVec.lt_def, show ((modbusTcpHdrLen : ℕ) : BitVec 16).toNat = 7 from rfl]
      simp only [modbusTcpHdrLen] at hlen
      omega
    simp only [zbufPull, if_neg hle, modbusReceived, Function.update_self]
  have hproc := modbusProcessRequest_some (s := { s with pool := (modbusReceived s zb).pool }) hsw
  have hpool : { s.pool with zb := Function.update s.pool.zb zb ((modbusReceived s zb).pool.zb zb) }
      = (modbusReceived s zb).pool := by
    simp only [modbusReceived, Function.update_self]
  have hlen' : ¬ (s.pool.zb zb).len.toNat < modbusTcpHdrLen + 1 := Nat.not_lt.2 hlen
  -- freeing the request does not touch the response
  have hfree : ∀ {γ : Type} (g : Zbuf α → γ), (∀ (z : Zbuf α) w, g (z.setWord w) = g z) →
      (∀ z v, g { z with next := v } = g z) → (∀ z v, g { z with prev := v } = g z) →
      g ((zbufFree port s'.pool (some zb)).zb b) = g (s'.pool.zb b) := by
    intro γ g hw hn hp
    exact zbufFree_field port s'.pool (some zb) g hw hn hp b
  have hdata' := (hfree Zbuf.data (fun _ _ => rfl) (fun _ _ => rfl) (fun _ _ => rfl)).trans hdata
  have hl' := hfree Zbuf.len (fun _ _ => rfl) (fun _ _ => rfl) (fun _ _ => rfl)
  have hspace := hfree Zbuf.space (fun _ _ => rfl) (fun _ _ => rfl) (fun _ _ => rfl)
  simp only [modbusServerPoll, hrun, not_true, if_false, if_neg hlen', if_neg hunit, hpull,
    Option.bind_eq_bind, Option.bind_some, hpool, hproc]
  have hpush : ¬ configZbufHeadroom < zbufHead + ((modbusTcpHdrLen : ℕ) : BitVec 16).toNat := by
    decide
  simp only [zbufPush, hdata', if_neg hpush, Option.bind_some, hspace, hl', putBe16_mbap]
  have h7 : ((modbusTcpHdrLen : ℕ) : BitVec 16).toNat = 7 := rfl
  have hlen₁ : (s'.pool.zb b).len + (modbusTcpHdrLen : BitVec 16) - modbusTcpHdrLen + 1 =
      BitVec.ofNat 16 (l.length + 1) := by
    refine BitVec.eq_of_toNat_eq ?_
    rw [BitVec.add_sub_cancel, BitVec.toNat_add, BitVec.toNat_ofNat, hl]
    rfl
  have hlen₂ : ((s'.pool.zb b).len + (modbusTcpHdrLen : BitVec 16)).toNat =
      modbusTcpHdrLen + l.length := by
    rw [BitVec.toNat_add, hl, h7]
    simp only [modbusTcpHdrLen, configZbufSize, configZbufHeadroom] at hfit ⊢
    omega
  refine ⟨_, congrArg some (Prod.ext rfl (congrArg some ?_))⟩
  rw [hlen₁]
  generalize hhd : mbapBytes _ _ _ = hd
  have hhdlen : hd.length = modbusTcpHdrLen := by rw [← hhd]; rfl
  have hresp :
      ((s'.pool.zb b).space.putBytes 121 hd).read (121 + modbusTcpHdrLen) l.length = l := by
    refine (ByteMem.read_congr fun i _ => ?_).trans hread
    exact ByteMem.putBytes_byte_of_le _ _ _ (by rw [hhdlen]; exact Nat.le_add_right ..)
  show ((s'.pool.zb b).space.putBytes 121 hd).read 121 _ = hd ++ l
  rw [hlen₂, ByteMem.read_add, hresp, ← hhdlen, ByteMem.read_putBytes]

theorem modbusServerPoll_observe (port : Port) {s : ModbusState α} {zb b : α}
    {frame : ℕ → BitVec 8} {t : ModbusTables} {l : List (BitVec 8)}
    (hrun : s.server.tcpRunning = true) (hlen : modbusTcpHdrLen + 1 ≤ (s.pool.zb zb).len.toNat)
    (hunit : ¬ (frame 6 ≠ s.server.slaveAddr ∧ frame 6 ≠ 0))
    (h : Responds (modbusSwitch (modbusReceived s zb) fun i => frame (modbusTcpHdrLen + i)) b t l) :
    ∃ hd : List (BitVec 8), hd.length = modbusTcpHdrLen ∧
      modbusObserve (modbusServerPoll port s zb frame) = some (t, some (hd ++ l)) := by
  obtain ⟨s', hsw, ht, hdata, hl, hfit, hread⟩ := h
  obtain ⟨pool, hpoll⟩ :=
    modbusServerPoll_responds port hrun hlen hunit hsw ⟨hdata, hl, hfit, hread⟩
  refine ⟨mbapBytes (be16 frame 0) (BitVec.ofNat 16 (l.length + 1)) s'.server.slaveAddr, rfl, ?_⟩
  rw [hpoll, ← ht]
  rfl

/-! ## Noninterference -/

/-- A running server with these parameters, empty tables and no callbacks, which
    received a frame of `len` bytes in its first buffer. -/
def probeState (c : ModbusConfig) (len : BitVec 16) : ModbusState (Fin 2) where
  server :=
    { slaveAddr := c.slaveAddr, tcpRunning := true, requests := 0, responses := 0, errors := 0,
      exceptions := 0
      data :=
        { tables := ⟨fun _ => 0, c.coilsCount, fun _ => 0, c.discreteInputsCount, fun _ => 0,
            c.holdingRegistersCount, fun _ => 0, c.inputRegistersCount⟩
          onReadCoils := none, onWriteCoils := none, onReadHolding := none,
          onWriteHolding := none } }
  pool :=
    let pool := (zbufAllocRx (zbufPoolInit demoZbufsTurned fun _ => demoZbuf) 0).1
    { pool with zb := pool.zb.modify 0 fun z => { z with len := len } }

/-- The header of `frame`, and the request `pdu`. -/
def withPdu (frame pdu : ℕ → BitVec 8) (i : ℕ) : BitVec 8 :=
  if i < modbusTcpHdrLen then frame i else pdu (i - modbusTcpHdrLen)

theorem withPdu_pdu (frame pdu : ℕ → BitVec 8) :
    (fun i => withPdu frame pdu (modbusTcpHdrLen + i)) = pdu := by
  funext i
  rw [withPdu, if_neg (by omega), Nat.add_sub_cancel_left]

theorem withPdu_eq {frame pdu : ℕ → BitVec 8} {len : ℕ}
    (h : ∀ i < len - modbusTcpHdrLen, pdu i = frame (modbusTcpHdrLen + i)) :
    ∀ i < len, withPdu frame pdu i = frame i := by
  intro i hi
  unfold withPdu
  split_ifs with h7
  · rfl
  · rw [h _ (by omega), Nat.add_sub_cancel' (Nat.not_lt.1 h7)]

/-- **Noninterference** holds of exactly the frames that are dropped or hold
    what their handler needs. -/
theorem modbus_noninterference_iff (port : Port) (c : ModbusConfig) (len : BitVec 16)
    (frame : ℕ → BitVec 8) : Noninterferent port c len frame ↔ FrameSafe c len frame := by
  constructor
  · intro h
    by_contra hns
    obtain ⟨hlen, hns⟩ := not_or.1 hns
    obtain ⟨hunit, hpdu⟩ := not_or.1 hns
    have hlen := Nat.not_lt.1 hlen
    have hn : 0 < len.toNat - modbusTcpHdrLen := by omega
    have hfree : (modbusReceived (probeState c len) 0).pool.freeList = some 1 := rfl
    obtain ⟨j, v, hj, t₁, l₁, t₂, l₂, h₁, h₂, hne⟩ :=
      modbusSwitch_apart hfree ⟨rfl, rfl, rfl, rfl⟩ hn hpdu
    have hobs : ∀ pdu, (∀ i < len.toNat - modbusTcpHdrLen, pdu i = frame (modbusTcpHdrLen + i)) →
        modbusObserve (modbusServerPoll port (probeState c len) 0 (withPdu frame pdu)) =
          modbusObserve (modbusServerPoll port (probeState c len) 0 frame) := by
      intro pdu hpdu
      exact h (Fin 2) (probeState c len) 0 rfl rfl _ (withPdu_eq hpdu)
    have hsent : ∀ {pdu t l}, Responds (modbusSwitch (modbusReceived (probeState c len) 0) pdu)
        1 t l → ∃ hd : List (BitVec 8), hd.length = modbusTcpHdrLen ∧
          modbusObserve (modbusServerPoll port (probeState c len) 0 (withPdu frame pdu)) =
            some (t, some (hd ++ l)) := by
      intro pdu t l hr
      refine modbusServerPoll_observe (b := 1) port rfl hlen hunit ?_
      rwa [withPdu_pdu]
    obtain ⟨hd₁, hl₁, ho₁⟩ := hsent h₁
    obtain ⟨hd₂, hl₂, ho₂⟩ := hsent h₂
    rw [hobs _ receivedBytes_of_lt] at ho₁
    rw [hobs _ (continued_of_lt hj v), ho₁] at ho₂
    simp only [Option.some.injEq, Prod.mk.injEq] at ho₂
    obtain ⟨ht, hl⟩ := ho₂
    have hl := (List.append_inj hl (hl₁.trans hl₂.symm)).2
    exact hne.elim (fun hne => hne ht) fun hne => hne hl
  · intro hsafe α _ s zb hc hlen frame' h
    subst hc hlen
    exact congrArg modbusObserve (modbusServerPoll_congr s port zb hsafe h)

/-- Ten bytes of a write of register 0, which end before the value, and what
    the buffer holds behind them. -/
def demoShortWrite (stale : BitVec 8) (i : ℕ) : BitVec 8 :=
  [0, 1, 0, 0, 0, 4, 1, 6, 0, 0].getD i stale

/-- The register 0 after processing it. -/
def demoStored (stale : BitVec 8) : Option (BitVec 16) :=
  (modbusObserve (modbusServerPoll .arm64 (probeState ⟨1, 16, 16, 200, 200⟩ 10) 0
    (demoShortWrite stale))).map fun r => r.1.holdingRegisters 0

/-- **A short write** stores the bytes behind the received ones. -/
theorem modbus_short_write : demoStored 1 = some 0x0101 ∧ demoStored 2 = some 0x0202 ∧
    ¬ Noninterferent .arm64 ⟨1, 16, 16, 200, 200⟩ 10 (demoShortWrite 1) := by
  have h1 : demoStored 1 = some 0x0101 := by decide +kernel
  have h2 : demoStored 2 = some 0x0202 := by decide +kernel
  refine ⟨h1, h2, fun h => ?_⟩
  have hobs := h (Fin 2) (probeState ⟨1, 16, 16, 200, 200⟩ 10) 0 rfl rfl (demoShortWrite 2)
    (by decide)
  have hstored : demoStored 2 = demoStored 1 :=
    congrArg (fun o => o.map fun r => r.1.holdingRegisters 0) hobs
  rw [h1, h2] at hstored
  exact absurd (Option.some.inj hstored) (by decide)

end Gracemont
