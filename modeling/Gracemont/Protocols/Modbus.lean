/-
  Gracemont protocols — the Modbus TCP server (`protocols/modbus/modbus.c`, the
  same file in both ports).

  A request is the memory from the `data` pointer of the received buffer on;
  its bytes from `zb->len` on are whatever the buffer held before.  A response
  is built in a buffer of the pool.  A handler is a partial state transformer:
  `none` is a write through a null pointer.  The callbacks of the data model
  are functions on its tables.

  * `readBits`, `readRegisters`, `writeSingleCoil`, …: the cases of the switch;
  * `modbusProcessRequest`, `modbusServerPoll`: the server.
-/
import Gracemont.Net.Ethernet

namespace Gracemont

/-! ## Data -/

/-- The tables of `modbus_data_t`; bit tables hold eight entries in a byte. -/
structure ModbusTables where
  coils : ℕ → BitVec 8
  coilsCount : BitVec 16
  discreteInputs : ℕ → BitVec 8
  discreteInputsCount : BitVec 16
  holdingRegisters : ℕ → BitVec 16
  holdingRegistersCount : BitVec 16
  inputRegisters : ℕ → BitVec 16
  inputRegistersCount : BitVec 16

/-- A callback, called with an address and a count. -/
abbrev ModbusCallback := BitVec 16 → BitVec 16 → ModbusTables → ModbusTables

/-- `modbus_data_t` -/
structure ModbusData where
  tables : ModbusTables
  onReadCoils : Option ModbusCallback
  onWriteCoils : Option ModbusCallback
  onReadHolding : Option ModbusCallback
  onWriteHolding : Option ModbusCallback

/-- `modbus_server_t`; the serial interface is left out. -/
structure ModbusServer where
  slaveAddr : BitVec 8
  data : ModbusData
  tcpRunning : Bool
  requests : BitVec 32
  responses : BitVec 32
  errors : BitVec 32
  exceptions : BitVec 32

/-- The server, and the pool that it takes buffers from. -/
structure ModbusState (α : Type) where
  server : ModbusServer
  pool : ZbufPool α

/-- What a handler leaves, and its response buffer. -/
abbrev ModbusReply (α : Type) := ModbusState α × Option α

def modbusTcpHdrLen : ℕ := 7

def modbusFcReadCoils : BitVec 8 := 0x01
def modbusFcReadDiscreteInputs : BitVec 8 := 0x02
def modbusFcReadHoldingRegisters : BitVec 8 := 0x03
def modbusFcReadInputRegisters : BitVec 8 := 0x04
def modbusFcWriteSingleCoil : BitVec 8 := 0x05
def modbusFcWriteSingleRegister : BitVec 8 := 0x06
def modbusFcWriteMultipleCoils : BitVec 8 := 0x0F
def modbusFcWriteMultipleRegisters : BitVec 8 := 0x10

def modbusExIllegalFunction : BitVec 8 := 0x01
def modbusExIllegalDataAddress : BitVec 8 := 0x02
def modbusExIllegalDataValue : BitVec 8 := 0x03

/-! ## Bits and registers -/

/-- `table[a / 8] & (1 << (a % 8))` -/
def bitAt (table : ℕ → BitVec 8) (a : ℕ) : Bool := table (a / 8) &&& 1#8 <<< (a % 8) ≠ 0

/-- Setting or clearing the bit `a` of a table. -/
def setBit (table : ℕ → BitVec 8) (a : ℕ) (on : Bool) : ℕ → BitVec 8 :=
  Function.update table (a / 8)
    (if on then table (a / 8) ||| 1#8 <<< (a % 8) else table (a / 8) &&& ~~~(1#8 <<< (a % 8)))

/-- The loop over `bit` in a read of bits, for the byte `i`, written at `o`. -/
def orBits (table : ℕ → BitVec 8) (addr : BitVec 16) (i o : ℕ) (m : Lib.ByteMem) :
    ℕ → Lib.ByteMem
  | 0 => m
  | bit + 1 =>
    let m := orBits table addr i o m bit
    let coilAddr : BitVec 16 := addr + BitVec.ofNat 16 (i * 8 + bit)
    if bitAt table coilAddr.toNat then m.set o (m.byte o ||| 1#8 <<< bit) else m

/-- The loop over the bytes in a read of bits. -/
def packBits (table : ℕ → BitVec 8) (addr count : BitVec 16) (out : ℕ) (m : Lib.ByteMem) :
    ℕ → Lib.ByteMem
  | 0 => m
  | i + 1 =>
    let m := packBits table addr count out m i
    let m := m.set (out + 2 + i) 0
    orBits table addr i (out + 2 + i) m (min 8 (count.toNat - i * 8))

/-- The loop over the registers in a read of registers. -/
def packRegisters (table : ℕ → BitVec 16) (addr : BitVec 16) (out : ℕ) (m : Lib.ByteMem) :
    ℕ → Lib.ByteMem
  | 0 => m
  | i + 1 =>
    let m := packRegisters table addr out m i
    let val := table (addr.toNat + i)
    let m := m.set (out + 2 + i * 2) (hiByte val)
    m.set (out + 2 + i * 2 + 1) (loByte val)

/-- The loop over the coils in a write of coils. -/
def unpackBits (pdu : ℕ → BitVec 8) (addr : BitVec 16) (table : ℕ → BitVec 8) :
    ℕ → (ℕ → BitVec 8)
  | 0 => table
  | i + 1 =>
    let coilAddr : BitVec 16 := addr + BitVec.ofNat 16 i
    setBit (unpackBits pdu addr table i) coilAddr.toNat (pdu (6 + i / 8) &&& 1#8 <<< (i % 8) ≠ 0)

/-- The loop over the registers in a write of registers. -/
def unpackRegisters (pdu : ℕ → BitVec 8) (addr : BitVec 16) (table : ℕ → BitVec 16) :
    ℕ → (ℕ → BitVec 16)
  | 0 => table
  | i + 1 =>
    Function.update (unpackRegisters pdu addr table i) (addr.toNat + i) (be16 pdu (6 + i * 2))

/-! ## Responses -/

variable {α : Type}

namespace ModbusState

/-- The tables of the data model. -/
def tables (s : ModbusState α) : ModbusTables := s.server.data.tables

def setTables (s : ModbusState α) (t : ModbusTables) : ModbusState α :=
  { s with server.data.tables := t }

theorem setTables_data (s : ModbusState α) (t : ModbusTables) :
    (s.setTables t).server.data = { s.server.data with tables := t } := rfl

/-- A call of a callback, unless it is null. -/
def notify (s : ModbusState α) (callback : Option ModbusCallback) (addr count : BitVec 16) :
    ModbusState α :=
  match callback with
  | none => s
  | some f => s.setTables (f addr count s.tables)

@[simp] theorem notify_pool (s : ModbusState α) (callback : Option ModbusCallback)
    (addr count : BitVec 16) : (s.notify callback addr count).pool = s.pool := by
  cases callback <;> rfl

/-- A callback only sees the tables. -/
theorem notify_tables {s s' : ModbusState α} (h : s.tables = s'.tables)
    (callback : Option ModbusCallback) (addr count : BitVec 16) :
    (s.notify callback addr count).tables = (s'.notify callback addr count).tables := by
  cases callback with
  | none => exact h
  | some f => exact congrArg (f addr count) h

end ModbusState

variable [DecidableEq α]

/-- Allocating a response of `size` bytes, which `fill` writes from `out` on. -/
def modbusRespond (s : ModbusState α) (size : BitVec 16)
    (fill : ℕ → Lib.ByteMem → Lib.ByteMem) : Option (ModbusReply α) :=
  match zbufAllocTx s.pool size with
  | (pool, none) => some ({ s with pool := pool }, none)
  | (pool, some zb) => do
    let (z, out) ← zbufPut (pool.zb zb) size
    let z := { z with space := fill out z.space }
    some ({ s with pool := { pool with zb := Function.update pool.zb zb z } }, some zb)

/-- **The response buffer.**  With a free buffer `b`, the response is written
    into the space of `b`, behind the headroom. -/
theorem modbusRespond_spec {s : ModbusState α} {b : α} (hb : s.pool.freeList = some b)
    {size : BitVec 16} (hs : size.toNat ≤ configZbufSize - configZbufHeadroom)
    (fill : ℕ → Lib.ByteMem → Lib.ByteMem) :
    ∃ s', modbusRespond s size fill = some (s', some b) ∧ s'.server = s.server ∧
      (s'.pool.zb b).data = configZbufHeadroom ∧
      (s'.pool.zb b).tail = configZbufHeadroom + size.toNat ∧ (s'.pool.zb b).len = size ∧
      (s'.pool.zb b).space = fill configZbufHeadroom (s.pool.zb b).space := by
  obtain ⟨pool, ha, hdata, htail, hlen, hspace⟩ := zbufAllocTx_spec hb hs
  have hput : zbufPut (pool.zb b) size = some ({ pool.zb b with
      tail := configZbufHeadroom + size.toNat, len := size }, configZbufHeadroom) := by
    have hfit : ¬ zbufEnd < configZbufHeadroom + size.toNat := by
      simp only [zbufEnd, zbufHead, configZbufSize, configZbufHeadroom] at hs ⊢
      omega
    have hlen' : (pool.zb b).len + size = size := by rw [hlen]; exact BitVec.zero_add size
    rw [zbufPut, htail, if_neg hfit, hlen']
  simp only [modbusRespond, ha, hput, Option.bind_eq_bind, Option.bind_some]
  refine ⟨_, rfl, rfl, ?_⟩
  simp [hdata, hspace]

theorem modbusRespond_none {s : ModbusState α} (hb : s.pool.freeList = none) (size : BitVec 16)
    (fill : ℕ → Lib.ByteMem → Lib.ByteMem) :
    ∃ s', modbusRespond s size fill = some (s', none) ∧ s'.server = s.server := by
  obtain ⟨pool, ha⟩ := zbufAllocTx_none hb size
  simp only [modbusRespond, ha]
  exact ⟨_, rfl, rfl⟩

/-- `modbus_build_exception` -/
def modbusBuildException (s : ModbusState α) (function exception : BitVec 8) :
    Option (ModbusReply α) :=
  modbusRespond s 2 fun data m => (m.set data (function ||| 0x80)).set (data + 1) exception

/-- An exception response, which is counted. -/
def modbusRefuse (s : ModbusState α) (function exception : BitVec 8) : Option (ModbusReply α) := do
  let (s, resp) ← modbusBuildException s function exception
  some ({ s with server.exceptions := s.server.exceptions + 1 }, resp)

/-- The first five bytes of the request as the response. -/
def modbusEcho (s : ModbusState α) (pdu : ℕ → BitVec 8) : Option (ModbusReply α) :=
  modbusRespond s 5 fun out m => m.putBytes out [pdu 0, pdu 1, pdu 2, pdu 3, pdu 4]

/-! ## The cases of the switch -/

/-- A read of bits. -/
def readBits (s : ModbusState α) (pdu : ℕ → BitVec 8) (size : BitVec 16)
    (table : ModbusTables → ℕ → BitVec 8) (onRead : Option ModbusCallback) :
    Option (ModbusReply α) :=
  let function := pdu 0
  let addr := be16 pdu 1
  let count := be16 pdu 3
  if size.toNat < addr.toNat + count.toNat then modbusRefuse s function modbusExIllegalDataAddress
  else
    let s := s.notify onRead addr count
    let byteCount : BitVec 8 := BitVec.ofNat 8 ((count.toNat + 7) / 8)
    modbusRespond s (2 + byteCount.setWidth 16) fun out m =>
      packBits (table s.tables) addr count out ((m.set out function).set (out + 1) byteCount)
        byteCount.toNat

/-- A read of registers. -/
def readRegisters (s : ModbusState α) (pdu : ℕ → BitVec 8) (size : BitVec 16)
    (table : ModbusTables → ℕ → BitVec 16) (onRead : Option ModbusCallback) :
    Option (ModbusReply α) :=
  let function := pdu 0
  let addr := be16 pdu 1
  let count := be16 pdu 3
  if size.toNat < addr.toNat + count.toNat then modbusRefuse s function modbusExIllegalDataAddress
  else
    let s := s.notify onRead addr count
    let byteCount : BitVec 8 := BitVec.ofNat 8 (count.toNat * 2)
    modbusRespond s (2 + byteCount.setWidth 16) fun out m =>
      packRegisters (table s.tables) addr out ((m.set out function).set (out + 1) byteCount)
        count.toNat

/-- `MODBUS_FC_READ_COILS` -/
def readCoils (s : ModbusState α) (pdu : ℕ → BitVec 8) : Option (ModbusReply α) :=
  readBits s pdu s.tables.coilsCount ModbusTables.coils s.server.data.onReadCoils

/-- `MODBUS_FC_READ_DISCRETE_INPUTS` -/
def readDiscreteInputs (s : ModbusState α) (pdu : ℕ → BitVec 8) : Option (ModbusReply α) :=
  readBits s pdu s.tables.discreteInputsCount ModbusTables.discreteInputs none

/-- `MODBUS_FC_READ_HOLDING_REGISTERS` -/
def readHoldingRegisters (s : ModbusState α) (pdu : ℕ → BitVec 8) : Option (ModbusReply α) :=
  readRegisters s pdu s.tables.holdingRegistersCount ModbusTables.holdingRegisters
    s.server.data.onReadHolding

/-- `MODBUS_FC_READ_INPUT_REGISTERS` -/
def readInputRegisters (s : ModbusState α) (pdu : ℕ → BitVec 8) : Option (ModbusReply α) :=
  readRegisters s pdu s.tables.inputRegistersCount ModbusTables.inputRegisters none

/-- `MODBUS_FC_WRITE_SINGLE_COIL` -/
def writeSingleCoil (s : ModbusState α) (pdu : ℕ → BitVec 8) : Option (ModbusReply α) :=
  let addr := be16 pdu 1
  let value := be16 pdu 3
  if s.tables.coilsCount ≤ addr then modbusRefuse s (pdu 0) modbusExIllegalDataAddress
  else if value = 0xFF00 ∨ value = 0 then
    let coils := setBit s.tables.coils addr.toNat (value = 0xFF00)
    let s := s.setTables { s.tables with coils := coils }
    modbusEcho (s.notify s.server.data.onWriteCoils addr 1) pdu
  else modbusRefuse s (pdu 0) modbusExIllegalDataValue

/-- `MODBUS_FC_WRITE_SINGLE_REGISTER` -/
def writeSingleRegister (s : ModbusState α) (pdu : ℕ → BitVec 8) : Option (ModbusReply α) :=
  let addr := be16 pdu 1
  let value := be16 pdu 3
  if s.tables.holdingRegistersCount ≤ addr then
    modbusRefuse s (pdu 0) modbusExIllegalDataAddress
  else
    let regs := Function.update s.tables.holdingRegisters addr.toNat value
    let s := s.setTables { s.tables with holdingRegisters := regs }
    modbusEcho (s.notify s.server.data.onWriteHolding addr 1) pdu

/-- `MODBUS_FC_WRITE_MULTIPLE_COILS` -/
def writeMultipleCoils (s : ModbusState α) (pdu : ℕ → BitVec 8) : Option (ModbusReply α) :=
  let addr := be16 pdu 1
  let count := be16 pdu 3
  if s.tables.coilsCount.toNat < addr.toNat + count.toNat then
    modbusRefuse s (pdu 0) modbusExIllegalDataAddress
  else
    let coils := unpackBits pdu addr s.tables.coils count.toNat
    let s := s.setTables { s.tables with coils := coils }
    modbusEcho (s.notify s.server.data.onWriteCoils addr count) pdu

/-- `MODBUS_FC_WRITE_MULTIPLE_REGISTERS` -/
def writeMultipleRegisters (s : ModbusState α) (pdu : ℕ → BitVec 8) : Option (ModbusReply α) :=
  let addr := be16 pdu 1
  let count := be16 pdu 3
  if s.tables.holdingRegistersCount.toNat < addr.toNat + count.toNat then
    modbusRefuse s (pdu 0) modbusExIllegalDataAddress
  else
    let regs := unpackRegisters pdu addr s.tables.holdingRegisters count.toNat
    let s := s.setTables { s.tables with holdingRegisters := regs }
    modbusEcho (s.notify s.server.data.onWriteHolding addr count) pdu

/-- The switch on the function code. -/
def modbusSwitch (s : ModbusState α) (pdu : ℕ → BitVec 8) : Option (ModbusReply α) :=
  let function := pdu 0
  if function = modbusFcReadCoils then readCoils s pdu
  else if function = modbusFcReadDiscreteInputs then readDiscreteInputs s pdu
  else if function = modbusFcReadHoldingRegisters then readHoldingRegisters s pdu
  else if function = modbusFcReadInputRegisters then readInputRegisters s pdu
  else if function = modbusFcWriteSingleCoil then writeSingleCoil s pdu
  else if function = modbusFcWriteSingleRegister then writeSingleRegister s pdu
  else if function = modbusFcWriteMultipleCoils then writeMultipleCoils s pdu
  else if function = modbusFcWriteMultipleRegisters then writeMultipleRegisters s pdu
  else modbusRefuse s function modbusExIllegalFunction

/-! The switch takes each function code to its handler. -/

section
variable {s : ModbusState α} {pdu : ℕ → BitVec 8}

theorem modbusSwitch_readCoils (h : pdu 0 = modbusFcReadCoils) :
    modbusSwitch s pdu = readCoils s pdu := by
  rw [modbusSwitch, h]
  rfl

theorem modbusSwitch_readDiscreteInputs (h : pdu 0 = modbusFcReadDiscreteInputs) :
    modbusSwitch s pdu = readDiscreteInputs s pdu := by
  rw [modbusSwitch, h]
  rfl

theorem modbusSwitch_readHoldingRegisters (h : pdu 0 = modbusFcReadHoldingRegisters) :
    modbusSwitch s pdu = readHoldingRegisters s pdu := by
  rw [modbusSwitch, h]
  rfl

theorem modbusSwitch_readInputRegisters (h : pdu 0 = modbusFcReadInputRegisters) :
    modbusSwitch s pdu = readInputRegisters s pdu := by
  rw [modbusSwitch, h]
  rfl

theorem modbusSwitch_writeSingleCoil (h : pdu 0 = modbusFcWriteSingleCoil) :
    modbusSwitch s pdu = writeSingleCoil s pdu := by
  rw [modbusSwitch, h]
  rfl

theorem modbusSwitch_writeSingleRegister (h : pdu 0 = modbusFcWriteSingleRegister) :
    modbusSwitch s pdu = writeSingleRegister s pdu := by
  rw [modbusSwitch, h]
  rfl

theorem modbusSwitch_writeMultipleCoils (h : pdu 0 = modbusFcWriteMultipleCoils) :
    modbusSwitch s pdu = writeMultipleCoils s pdu := by
  rw [modbusSwitch, h]
  rfl

theorem modbusSwitch_writeMultipleRegisters (h : pdu 0 = modbusFcWriteMultipleRegisters) :
    modbusSwitch s pdu = writeMultipleRegisters s pdu := by
  rw [modbusSwitch, h]
  rfl

end

/-! ## The server -/

/-- `modbus_process_request` -/
def modbusProcessRequest (s : ModbusState α) (pdu : ℕ → BitVec 8) : Option (ModbusReply α) := do
  let s := { s with server.requests := s.server.requests + 1 }
  let (s, resp) ← modbusSwitch s pdu
  match resp with
  | some _ => some ({ s with server.responses := s.server.responses + 1 }, resp)
  | none => some ({ s with server.errors := s.server.errors + 1 }, resp)

/-- `modbus_server_poll` on the received buffer `zb`, where `frame` is the
    memory from `zb->data` on; and the bytes that it sends. -/
def modbusServerPoll (port : Port) (s : ModbusState α) (zb : α) (frame : ℕ → BitVec 8) :
    Option (ModbusState α × Option (List (BitVec 8))) :=
  let free (s : ModbusState α) : ModbusState α :=
    { s with pool := zbufFree port s.pool (some zb) }
  if ¬ s.server.tcpRunning then some (s, none)
  else if (s.pool.zb zb).len.toNat < modbusTcpHdrLen + 1 then some (free s, none)
  else
    let transId := be16 frame 0
    let unitId := frame 6
    if unitId ≠ s.server.slaveAddr ∧ unitId ≠ 0 then some (free s, none)
    else do
      let (z, _) ← zbufPull (s.pool.zb zb) modbusTcpHdrLen
      let s := { s with pool.zb := Function.update s.pool.zb zb z }
      let (s, resp) ← modbusProcessRequest s fun i => frame (modbusTcpHdrLen + i)
      let s := free s
      match resp with
      | none => some (s, none)
      | some resp => do
        let (z, mbap) ← zbufPush (s.pool.zb resp) modbusTcpHdrLen
        let m := putBe16 z.space mbap transId
        let m := putBe16 m (mbap + 2) 0
        let m := putBe16 m (mbap + 4) (z.len - modbusTcpHdrLen + 1)
        let z := { z with space := m.set (mbap + 6) s.server.slaveAddr }
        some ({ s with pool.zb := Function.update s.pool.zb resp z },
          some (z.space.read z.data z.len.toNat))

/-- A server with 16 coils and 200 registers of each kind. -/
def demoModbus : ModbusState (Fin 2) where
  server :=
    { slaveAddr := 1, tcpRunning := true, requests := 0, responses := 0, errors := 0,
      exceptions := 0
      data :=
        { tables := ⟨fun _ => 0, 16, fun _ => 0, 16, fun i => 0x1200 + i, 200, fun _ => 0, 200⟩
          onReadCoils := none, onWriteCoils := none, onReadHolding := none,
          onWriteHolding := none } }
  pool := zbufPoolInit demoZbufs fun _ => demoZbuf

end Gracemont
