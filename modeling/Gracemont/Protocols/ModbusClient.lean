/-
  Gracemont protocols — the Modbus TCP client, and its requests at a server
  (`protocols/modbus/modbus.c`, the same file in both ports).

  A client call is cut where it waits for the response: the function under its
  name builds the request that it sends, and the one named `…Resume` is the
  rest, for the buffer that `modbus_recv_response` returns.  A request or a
  response arrives with its bytes unchanged (`Received`), in any buffer.

  * `modbusBuildRequest_spec`: the frame of a request;
  * `writePdu_answers`, `readPdu_answers`: the server's answers;
  * `modbus_end_to_end`: what was written is read back.
-/
import Mathlib.Data.List.GetD
import Gracemont.Protocols.ModbusNoninterference
import Gracemont.Protocols.ModbusWrite

namespace Gracemont

open Lib (ByteMem)

/-! ## The client -/

/-- `modbus_client_t`, as far as its requests depend on it. -/
structure ModbusClient where
  transactionId : BitVec 16

/-- The client, its pool and the request, or `NULL`. -/
abbrev ModbusRequest (β : Type) := ModbusClient × ZbufPool β × Option β

section
variable {β : Type} [DecidableEq β]

/-- `modbus_build_request` -/
def modbusBuildRequest (client : ModbusClient) (pool : ZbufPool β) (slave function : BitVec 8)
    (data : List (BitVec 8)) : Option (ModbusRequest β) :=
  let len : BitVec 16 := BitVec.ofNat 16 data.length
  let size : BitVec 16 := modbusTcpHdrLen + 1 + len
  match zbufAllocTx pool size with
  | (pool, none) => some (client, pool, none)
  | (pool, some zb) => do
    let (z, buf) ← zbufPut (pool.zb zb) size
    let m := putBe16 z.space buf client.transactionId
    let m := putBe16 m (buf + 2) 0
    let m := putBe16 m (buf + 4) (len + 2)
    let m := m.set (buf + 6) slave
    let m := m.set (buf + modbusTcpHdrLen) function
    let z := { z with space := m.putBytes (buf + modbusTcpHdrLen + 1) data }
    some (⟨client.transactionId + 1⟩, { pool with zb := Function.update pool.zb zb z }, some zb)

/-- `modbus_read_holding_registers`, up to its response. -/
def modbusReadHoldingRegisters (client : ModbusClient) (pool : ZbufPool β) (slave : BitVec 8)
    (addr count : BitVec 16) : Option (ModbusRequest β) :=
  modbusBuildRequest client pool slave modbusFcReadHoldingRegisters
    [hiByte addr, loByte addr, hiByte count, loByte count]

/-- The loop over the values of a write. -/
def putValues (values : ℕ → BitVec 16) (m : ByteMem) : ℕ → ByteMem
  | 0 => m
  | i + 1 =>
    let m := putValues values m i
    let m := m.set (5 + i * 2) (hiByte (values i))
    m.set (5 + i * 2 + 1) (loByte (values i))

/-- `modbus_write_multiple_registers`, up to its response; `heap_alloc` returns
    the memory `mem`. -/
def modbusWriteMultipleRegisters (client : ModbusClient) (pool : ZbufPool β)
    (mem : Option ByteMem) (slave : BitVec 8) (addr count : BitVec 16) (values : ℕ → BitVec 16) :
    Option (ModbusRequest β) :=
  match mem with
  | none => some (client, pool, none)
  | some m =>
    let dataLen : BitVec 16 := 5 + count * 2
    let m := m.putBytes 0
      [hiByte addr, loByte addr, hiByte count, loByte count, (count * 2).setWidth 8]
    let m := putValues values m count.toNat
    modbusBuildRequest client pool slave modbusFcWriteMultipleRegisters (m.read 0 dataLen.toNat)

/-- `data[0] & 0x80` -/
def modbusFailed (z : Zbuf β) : Bool := z.space.byte (z.data + modbusTcpHdrLen) &&& 0x80 ≠ 0

/-- The loop over the registers of a response. -/
def takeValues (data : ℕ → BitVec 8) (result : ℕ → BitVec 16) : ℕ → (ℕ → BitVec 16)
  | 0 => result
  | i + 1 => Function.update (takeValues data result i) i (be16 data (2 + i * 2))

/-- `modbus_read_holding_registers` with its response. -/
def modbusReadHoldingRegistersResume (port : Port) (pool : ZbufPool β) (resp : Option β)
    (count : BitVec 16) (result : ℕ → BitVec 16) : ZbufPool β × Status × (ℕ → BitVec 16) :=
  match resp with
  | none => (pool, .timeout, result)
  | some zb =>
    let z := pool.zb zb
    let data := fun i => z.space.byte (z.data + modbusTcpHdrLen + i)
    let pool := zbufFree port pool resp
    if modbusFailed z then (pool, .error, result)
    else (pool, .ok, takeValues data result count.toNat)

/-- `modbus_write_multiple_registers` with its response. -/
def modbusWriteMultipleRegistersResume (port : Port) (pool : ZbufPool β) (resp : Option β) :
    ZbufPool β × Status :=
  match resp with
  | none => (pool, .timeout)
  | some zb => (zbufFree port pool resp, if modbusFailed (pool.zb zb) then .error else .ok)

end

/-! ## Statement -/

/-- The byte `i` of a frame. -/
def frameByte (l : List (BitVec 8)) (i : ℕ) : BitVec 8 := l.getD i 0

/-- The frame `l` lies at `b`, in a buffer of this length. -/
structure Received (l : List (BitVec 8)) (len : BitVec 16) (b : ℕ → BitVec 8) : Prop where
  len : len.toNat = l.length
  bytes : ∀ i < l.length, b i = frameByte l i

/-- The request is the frame `req` whenever there is a buffer for it. -/
def Requests (build : ∀ {β : Type} [DecidableEq β], ZbufPool β → Option (ModbusRequest β))
    (req : List (BitVec 8)) : Prop :=
  ∀ (β : Type) [DecidableEq β] (pool : ZbufPool β) (zb : β), pool.freeList = some zb →
    ∃ client pool', build pool = some (client, pool', some zb) ∧
      (pool'.zb zb).space.read (pool'.zb zb).data (pool'.zb zb).len.toNat = req

/-- A server in the state `server` processes the frame `req`, received in any
    buffer: it sends `resp` and is in the state `server'`. -/
def Answers (port : Port) (server : ModbusServer) (req : List (BitVec 8)) (server' : ModbusServer)
    (resp : List (BitVec 8)) : Prop :=
  ∀ (α : Type) [DecidableEq α] (pool : ZbufPool α) (zb b : α) (frame : ℕ → BitVec 8),
    pool.freeList = some b → Received req (pool.zb zb).len frame →
      ∃ pool', modbusServerPoll port ⟨server, pool⟩ zb frame = some (⟨server', pool'⟩, some resp)

/-- The response carries the transaction and the unit of the request, and the
    number of bytes behind its length field. -/
structure Matches (req resp : List (BitVec 8)) : Prop where
  transaction : be16 (frameByte resp) 0 = be16 (frameByte req) 0
  unit : frameByte resp 6 = frameByte req 6
  length : 6 + (be16 (frameByte resp) 4).toNat = resp.length

/-- The client accepts the response to a write. -/
def WriteDone (port : Port) (resp : List (BitVec 8)) : Prop :=
  ∀ (β : Type) [DecidableEq β] (pool : ZbufPool β) (zb : β),
    Received resp (pool.zb zb).len (fun i => (pool.zb zb).space.byte ((pool.zb zb).data + i)) →
      (modbusWriteMultipleRegistersResume port pool (some zb)).2 = .ok

/-- The client takes these values from the response to a read. -/
def ReadDone (port : Port) (resp : List (BitVec 8)) (count : BitVec 16) (values : ℕ → BitVec 16) :
    Prop :=
  ∀ (β : Type) [DecidableEq β] (pool : ZbufPool β) (zb : β) (result : ℕ → BitVec 16),
    Received resp (pool.zb zb).len (fun i => (pool.zb zb).space.byte ((pool.zb zb).data + i)) →
      ∃ pool' result',
        modbusReadHoldingRegistersResume port pool (some zb) count result = (pool', .ok, result') ∧
          ∀ i < count.toNat, result' i = values i

/-- The tables with these values in the range, and nothing else changed. -/
def ModbusTables.writeRange (t : ModbusTables) (addr count : BitVec 16) (values : ℕ → BitVec 16) :
    ModbusTables :=
  { t with
    holdingRegisters := fun a =>
      if addr.toNat ≤ a ∧ a < addr.toNat + count.toNat then values (a - addr.toNat)
      else t.holdingRegisters a }

/-- A call of a callback, unless it is null. -/
def callBack (callback : Option ModbusCallback) (addr count : BitVec 16) (t : ModbusTables) :
    ModbusTables :=
  match callback with
  | none => t
  | some f => f addr count t

/-- The state of a server that answered a request and has these tables now. -/
def ModbusServer.answered (server : ModbusServer) (t : ModbusTables) : ModbusServer :=
  { server with
    requests := server.requests + 1, responses := server.responses + 1, data.tables := t }

/-- A callback that the application sets leaves the number of registers, and
    the registers of the range, as they are. -/
def KeepsRange (callback : Option ModbusCallback) (addr count : BitVec 16) : Prop :=
  ∀ t, (callBack callback addr count t).holdingRegistersCount = t.holdingRegistersCount ∧
    ∀ i < count.toNat, (callBack callback addr count t).holdingRegisters (addr.toNat + i) =
      t.holdingRegisters (addr.toNat + i)

/-! ## Frames -/

section
variable (l l' : List (BitVec 8)) (i : ℕ)

theorem frameByte_append_left {l : List (BitVec 8)} {i : ℕ} (h : i < l.length) :
    frameByte (l ++ l') i = frameByte l i := List.getD_append _ _ _ _ h

theorem frameByte_append_right : frameByte (l ++ l') (l.length + i) = frameByte l' i := by
  unfold frameByte
  rw [List.getD_append_right _ _ _ _ (Nat.le_add_right ..), Nat.add_sub_cancel_left]

theorem be16_append_right : be16 (frameByte (l ++ l')) (l.length + i) = be16 (frameByte l') i := by
  rw [be16, be16, Nat.add_assoc, frameByte_append_right, frameByte_append_right]

theorem be16_cons (v : BitVec 16) : be16 (frameByte (hiByte v :: loByte v :: l)) 0 = v :=
  hiByte_append_loByte v

end

/-- The first `n` values, big-endian. -/
def wordBytes (values : ℕ → BitVec 16) : ℕ → List (BitVec 8)
  | 0 => []
  | n + 1 => wordBytes values n ++ [hiByte (values n), loByte (values n)]

@[simp] theorem wordBytes_length (values : ℕ → BitVec 16) (n : ℕ) :
    (wordBytes values n).length = 2 * n := by
  induction n with
  | zero => rfl
  | succ n ih =>
    rw [wordBytes, List.length_append, ih]
    rfl

theorem wordBytes_congr {values values' : ℕ → BitVec 16} {n : ℕ}
    (h : ∀ i < n, values i = values' i) : wordBytes values n = wordBytes values' n := by
  induction n with
  | zero => rfl
  | succ n ih => rw [wordBytes, wordBytes, ih fun i hi => h i (by omega), h n (by omega)]

/-- The word `i` of the values is the value `i`. -/
theorem be16_wordBytes (values : ℕ → BitVec 16) {n i : ℕ} (h : i < n) :
    be16 (frameByte (wordBytes values n)) (2 * i) = values i := by
  induction n with
  | zero => exact absurd h (by omega)
  | succ n ih =>
    rw [wordBytes]
    by_cases hin : i = n
    · subst hin
      have hword := be16_append_right (wordBytes values i)
        [hiByte (values i), loByte (values i)] 0
      rw [wordBytes_length, Nat.add_zero] at hword
      exact hword.trans (be16_cons _ _)
    · have hlt : 2 * i + 1 < (wordBytes values n).length := by
        rw [wordBytes_length]
        omega
      rw [be16, frameByte_append_left _ (by omega), frameByte_append_left _ hlt]
      exact ih (by omega)

/-- What the loop of a read of registers writes. -/
theorem packRegisters_read (table : ℕ → BitVec 16) (addr : BitVec 16) (m : ByteMem) (out n : ℕ) :
    (packRegisters table addr out m n).read (out + 2) (2 * n) =
      wordBytes (fun i => table (addr.toNat + i)) n := by
  induction n with
  | zero => rfl
  | succ n ih =>
    have hframe : ∀ (m : ByteMem) (v w : BitVec 8) (a : ℕ), out + 2 + 2 * n ≤ a →
        ((m.set a v).set (a + 1) w).read (out + 2) (2 * n) = m.read (out + 2) (2 * n) := by
      intro m v w a ha
      refine ByteMem.read_congr fun i hi => ?_
      rw [ByteMem.set_byte_of_ne _ _ (by omega), ByteMem.set_byte_of_ne _ _ (by omega)]
    rw [packRegisters, wordBytes, show 2 * (n + 1) = 2 * n + 2 from rfl, ByteMem.read_add]
    rw [hframe _ _ _ _ (by omega), ih]
    congr 1
    rw [show out + 2 + n * 2 = out + 2 + 2 * n by omega]
    exact ByteMem.read_putBytes _ _ [_, _]

/-- The loop over the values of a write likewise. -/
theorem putValues_read (values : ℕ → BitVec 16) (m : ByteMem) (n : ℕ) :
    (putValues values m n).read 0 (5 + 2 * n) = m.read 0 5 ++ wordBytes values n := by
  have hpack : ∀ n, putValues values m n = packRegisters values 0 3 m n := by
    intro n
    induction n with
    | zero => rfl
    | succ n ih =>
      have h0 : (0 : BitVec 16).toNat + n = n := Nat.zero_add n
      rw [putValues, packRegisters, ih, h0]
  have hhead : (packRegisters values 0 3 m n).read 0 5 = m.read 0 5 :=
    ByteMem.read_congr fun i _ => (packRegisters_spec values 0 m 3 n).1.frame _ (by omega)
  have hwords : wordBytes (fun i => values ((0 : BitVec 16).toNat + i)) n = wordBytes values n :=
    wordBytes_congr fun i _ => congrArg values (Nat.zero_add i)
  rw [hpack, ByteMem.read_add, hhead, ← hwords]
  exact congrArg _ (packRegisters_read values 0 m 3 n)

/-! ## Requests -/

/-- The size of a request with `n` bytes of data. -/
def requestSize (n : ℕ) : BitVec 16 := modbusTcpHdrLen + 1 + BitVec.ofNat 16 n

theorem requestSize_toNat (n : ℕ) : (requestSize n).toNat = (8 + n) % 2 ^ 16 := by
  rw [requestSize, BitVec.toNat_add, BitVec.toNat_ofNat,
    show ((modbusTcpHdrLen : BitVec 16) + 1).toNat = 8 from rfl]
  omega

/-- The bytes of a request. -/
def requestBytes (client : ModbusClient) (slave function : BitVec 8) (data : List (BitVec 8)) :
    List (BitVec 8) :=
  mbapBytes client.transactionId (BitVec.ofNat 16 data.length + 2) slave ++ function :: data

theorem requestBytes_length (client : ModbusClient) (slave function : BitVec 8)
    (data : List (BitVec 8)) : (requestBytes client slave function data).length =
      8 + data.length := by
  rw [requestBytes, List.length_append, List.length_cons,
    show (mbapBytes _ _ _).length = 7 from rfl]
  omega

/-- The bytes of a request are put into the first free buffer, however many these
    are, if its size is not too large for one. -/
theorem modbusBuildRequest_sends {β : Type} [DecidableEq β] (client : ModbusClient)
    {pool : ZbufPool β} (slave function : BitVec 8) (data : List (BitVec 8)) {zb : β}
    (hb : pool.freeList = some zb)
    (hsize : (requestSize data.length).toNat ≤ configZbufSize - configZbufHeadroom) :
    ∃ pool', modbusBuildRequest client pool slave function data =
        some (⟨client.transactionId + 1⟩, pool', some zb) ∧
      (pool'.zb zb).len = requestSize data.length ∧
      (pool'.zb zb).data = configZbufHeadroom ∧
      (pool'.zb zb).space = (pool.zb zb).space.putBytes configZbufHeadroom
        (requestBytes client slave function data) ∧
      ∀ x, x ≠ zb → (pool'.zb x).space = (pool.zb x).space := by
  have hspaces := zbufAllocTx_space pool (requestSize data.length)
  obtain ⟨pool', halloc, hdata, htail, hlen, -⟩ := zbufAllocTx_spec hb hsize
  rw [halloc] at hspaces
  have hput : zbufPut (pool'.zb zb) (requestSize data.length) = some ({ pool'.zb zb with
      tail := configZbufHeadroom + (requestSize data.length).toNat
      len := requestSize data.length }, configZbufHeadroom) := by
    have hfit : ¬ zbufEnd < configZbufHeadroom + (requestSize data.length).toNat := by
      simp only [zbufEnd, zbufHead, configZbufSize, configZbufHeadroom] at hsize ⊢
      omega
    have hzero : 0 + requestSize data.length = requestSize data.length := BitVec.zero_add _
    rw [zbufPut, htail, if_neg hfit, hlen, hzero]
  rw [requestSize] at halloc hput
  simp only [modbusBuildRequest, halloc, hput, Option.bind_eq_bind, Option.bind_some]
  refine ⟨_, rfl, ?_, ?_, ?_, fun x hx => ?_⟩
  · simp only [Function.update_self]
    rfl
  · simp only [Function.update_self]
    exact hdata
  · simp only [Function.update_self, ← hspaces zb]
    generalize (pool'.zb zb).space = m
    rw [requestBytes, ByteMem.putBytes_append, ← putBe16_mbap]
    rfl
  · simp only [Function.update_of_ne hx]
    exact hspaces x

/-- **The frame of a request.** -/
theorem modbusBuildRequest_spec {β : Type} [DecidableEq β] (client : ModbusClient)
    {pool : ZbufPool β} {zb : β} (hb : pool.freeList = some zb) (slave function : BitVec 8)
    (data : List (BitVec 8)) (hd : data.length ≤ 1912) :
    ∃ client' pool', modbusBuildRequest client pool slave function data =
        some (client', pool', some zb) ∧
      (pool'.zb zb).space.read (pool'.zb zb).data (pool'.zb zb).len.toNat =
        mbapBytes client.transactionId (BitVec.ofNat 16 (data.length + 2)) slave ++
          function :: data := by
  have hsize : (requestSize data.length).toNat =
      (requestBytes client slave function data).length := by
    rw [requestSize_toNat, requestBytes_length]
    omega
  have hroom : (requestSize data.length).toNat ≤ configZbufSize - configZbufHeadroom := by
    rw [requestSize_toNat, configZbufSize, configZbufHeadroom]
    omega
  obtain ⟨pool', hrun, hlen, hdata, hspace, -⟩ :=
    modbusBuildRequest_sends client slave function data hb hroom
  refine ⟨_, pool', hrun, ?_⟩
  rw [hspace, hdata, hlen, hsize, ByteMem.read_putBytes, requestBytes,
    show BitVec.ofNat 16 data.length + 2 = BitVec.ofNat 16 (data.length + 2) from
      (BitVec.ofNat_add ..).symm]

/-- The request behind the header of a read of registers. -/
def readPdu (addr count : BitVec 16) : List (BitVec 8) :=
  [modbusFcReadHoldingRegisters, hiByte addr, loByte addr, hiByte count, loByte count]

/-- The request behind the header of a write of registers. -/
def writePdu (addr count : BitVec 16) (values : ℕ → BitVec 16) : List (BitVec 8) :=
  [modbusFcWriteMultipleRegisters, hiByte addr, loByte addr, hiByte count, loByte count,
    (count * 2).setWidth 8] ++ wordBytes values count.toNat

theorem readPdu_requests (client : ModbusClient) (slave : BitVec 8) (addr count : BitVec 16) :
    Requests (fun pool => modbusReadHoldingRegisters client pool slave addr count)
      (mbapBytes client.transactionId 6 slave ++ readPdu addr count) := by
  intro β _ pool zb hb
  exact modbusBuildRequest_spec client hb slave modbusFcReadHoldingRegisters
    [hiByte addr, loByte addr, hiByte count, loByte count] (by decide : 4 ≤ 1912)

theorem writePdu_requests (client : ModbusClient) (mem : ByteMem) (slave : BitVec 8)
    {addr count : BitVec 16} (hcount : count.toNat ≤ 123) (values : ℕ → BitVec 16) :
    Requests (fun pool => modbusWriteMultipleRegisters client pool (some mem) slave addr count
        values)
      (mbapBytes client.transactionId (BitVec.ofNat 16 (7 + 2 * count.toNat)) slave ++
        writePdu addr count values) := by
  intro β _ pool zb hb
  have hlen : (5 + count * 2 : BitVec 16).toNat = 5 + 2 * count.toNat := by
    rw [BitVec.toNat_add, BitVec.toNat_mul, show (5 : BitVec 16).toNat = 5 from rfl,
      show (2 : BitVec 16).toNat = 2 from rfl]
    omega
  have hdata : ((putValues values (mem.putBytes 0 [hiByte addr, loByte addr, hiByte count,
      loByte count, (count * 2).setWidth 8]) count.toNat).read 0 (5 + count * 2 : BitVec 16).toNat) =
      [hiByte addr, loByte addr, hiByte count, loByte count, (count * 2).setWidth 8] ++
        wordBytes values count.toNat := by
    rw [hlen, putValues_read]
    exact congrArg (· ++ wordBytes values count.toNat) (ByteMem.read_putBytes mem 0 [_, _, _, _, _])
  obtain ⟨client', pool', hreq, hbytes⟩ := modbusBuildRequest_spec client hb slave
    modbusFcWriteMultipleRegisters ([hiByte addr, loByte addr, hiByte count, loByte count,
      (count * 2).setWidth 8] ++ wordBytes values count.toNat) (by
      rw [List.length_append, wordBytes_length]
      simp only [List.length_cons, List.length_nil]
      omega)
  refine ⟨client', pool', ?_, ?_⟩
  · rw [← hreq, ← hdata]
    rfl
  · rw [hbytes, List.length_append, wordBytes_length]
    simp only [writePdu, List.length_cons, List.length_nil, List.cons_append]
    rw [show 0 + 1 + 1 + 1 + 1 + 1 + 2 * count.toNat + 2 = 7 + 2 * count.toNat by omega]

/-! ## Answers -/

/-- A call of a callback only changes the tables. -/
theorem notify_server {α : Type} (s : ModbusState α) (callback : Option ModbusCallback)
    (addr count : BitVec 16) : (s.notify callback addr count).server =
      { s.server with data.tables := callBack callback addr count s.tables } := by
  cases callback <;> rfl

/-- **The answer of a server** is that of its handler, for a request of which
    the handler only reads the received bytes. -/
theorem answers_of_switch (port : Port) {server : ModbusServer}
    (hrun : server.tcpRunning = true) (transId n : BitVec 16) (pdu l : List (BitVec 8))
    (server' : ModbusServer)
    (hpdu : 0 < pdu.length) (hfits : pdu.length ≤ 1920)
    (hsafe : PduSafe server.config pdu.length (frameByte pdu))
    (h : ∀ (α : Type) [DecidableEq α] (s : ModbusState α) (b : α),
      s.server = { server with requests := server.requests + 1 } → s.pool.freeList = some b →
        ∃ s', modbusSwitch s (frameByte pdu) = some (s', some b) ∧ s'.server = server' ∧
          HoldsResponse s' b l) :
    Answers port server (mbapBytes transId n server.slaveAddr ++ pdu)
      { server' with responses := server'.responses + 1 }
      (mbapBytes transId (BitVec.ofNat 16 (l.length + 1)) server'.slaveAddr ++ l) := by
  intro α _ pool zb b frame hb hrec
  have hshift : (fun i => frameByte (mbapBytes transId n server.slaveAddr ++ pdu)
      (modbusTcpHdrLen + i)) = frameByte pdu := by
    funext i
    exact frameByte_append_right (mbapBytes transId n server.slaveAddr) pdu i
  have hlen : (pool.zb zb).len.toNat = modbusTcpHdrLen + pdu.length := by
    rw [hrec.len, List.length_append]
    rfl
  have hpdu' : FrameSafe (ModbusState.mk server pool).server.config (pool.zb zb).len
      (frameByte (mbapBytes transId n server.slaveAddr ++ pdu)) := by
    refine .inr (.inr ?_)
    rwa [hshift, hlen, Nat.add_sub_cancel_left]
  rw [modbusServerPoll_congr ⟨server, pool⟩ port zb hpdu' fun i hi => hrec.bytes i (by
    rwa [hrec.len] at hi)]
  obtain ⟨s', hsw, rfl, hresp⟩ := h α (modbusReceived ⟨server, pool⟩ zb) b rfl hb
  have hunit : ¬ (frameByte (mbapBytes transId n server.slaveAddr ++ pdu) 6 ≠ server.slaveAddr ∧
      frameByte (mbapBytes transId n server.slaveAddr ++ pdu) 6 ≠ 0) := fun hne => hne.1 rfl
  obtain ⟨pool', hpoll⟩ := modbusServerPoll_responds port (s := ⟨server, pool⟩) hrun
    (by rw [hlen]; omega) hunit (hshift ▸ hsw) hresp
  have htrans : be16 (frameByte (mbapBytes transId n server.slaveAddr ++ pdu)) 0 = transId :=
    be16_cons _ _
  rw [htrans] at hpoll
  exact ⟨pool', hpoll⟩

section
variable {α : Type} [DecidableEq α] {s : ModbusState α} {b : α}

/-- A write of registers that the range check accepts. -/
theorem writeMultipleRegisters_holds (hb : s.pool.freeList = some b) {pdu : ℕ → BitVec 8}
    (hr : (be16 pdu 1).toNat + (be16 pdu 3).toNat ≤ s.tables.holdingRegistersCount.toNat) :
    ∃ s', writeMultipleRegisters s pdu = some (s', some b) ∧
      s'.server = { s.server with
        data.tables := callBack s.server.data.onWriteHolding (be16 pdu 1) (be16 pdu 3)
          (s.tables.writeRange (be16 pdu 1) (be16 pdu 3) fun i => be16 pdu (6 + i * 2)) } ∧
      HoldsResponse s' b [pdu 0, pdu 1, pdu 2, pdu 3, pdu 4] := by
  have hregs : unpackRegisters pdu (be16 pdu 1) s.tables.holdingRegisters (be16 pdu 3).toNat =
      (s.tables.writeRange (be16 pdu 1) (be16 pdu 3) fun i =>
        be16 pdu (6 + i * 2)).holdingRegisters := by
    funext a
    exact unpackRegisters_spec pdu (be16 pdu 1) s.tables.holdingRegisters (be16 pdu 3).toNat a
  simp only [writeMultipleRegisters, if_neg (Nat.not_lt.2 hr), hregs]
  obtain ⟨s', hs', hserver, hresp⟩ := modbusRespond_holds (b := b)
    (s := ModbusState.notify (s.setTables { s.tables with
        holdingRegisters := (s.tables.writeRange (be16 pdu 1) (be16 pdu 3) fun i =>
          be16 pdu (6 + i * 2)).holdingRegisters })
      s.server.data.onWriteHolding (be16 pdu 1) (be16 pdu 3))
    (by rwa [ModbusState.notify_pool]) (by decide : (5 : BitVec 16).toNat ≤ _)
    fun out m => m.putBytes out [pdu 0, pdu 1, pdu 2, pdu 3, pdu 4]
  refine ⟨s', hs', ?_, ?_⟩
  · rw [hserver, notify_server]
    rfl
  · rwa [show (5 : BitVec 16).toNat = [pdu 0, pdu 1, pdu 2, pdu 3, pdu 4].length from rfl,
      ByteMem.read_putBytes] at hresp

/-- A read of registers that the range check accepts. -/
theorem readHoldingRegisters_holds (hb : s.pool.freeList = some b) {pdu : ℕ → BitVec 8}
    (hr : (be16 pdu 1).toNat + (be16 pdu 3).toNat ≤ s.tables.holdingRegistersCount.toNat)
    (hcount : (be16 pdu 3).toNat ≤ 127) {t : ModbusTables}
    (ht : callBack s.server.data.onReadHolding (be16 pdu 1) (be16 pdu 3) s.tables = t) :
    ∃ s', readHoldingRegisters s pdu = some (s', some b) ∧
      s'.server = { s.server with data.tables := t } ∧
      HoldsResponse s' b (pdu 0 :: BitVec.ofNat 8 ((be16 pdu 3).toNat * 2) ::
        wordBytes (fun i => t.holdingRegisters ((be16 pdu 1).toNat + i)) (be16 pdu 3).toNat) := by
  subst ht
  generalize haddr : be16 pdu 1 = addr at *
  generalize hcnt : be16 pdu 3 = count at *
  have hn : (BitVec.ofNat 8 (count.toNat * 2)).toNat = 2 * count.toNat := by
    rw [BitVec.toNat_ofNat]
    omega
  have hsize : (2 + (BitVec.ofNat 8 (count.toNat * 2)).setWidth 16 : BitVec 16).toNat =
      2 * count.toNat + 1 + 1 := by
    rw [BitVec.toNat_add, BitVec.toNat_setWidth, hn, show (2 : BitVec 16).toNat = 2 from rfl]
    omega
  have htables : (s.notify s.server.data.onReadHolding addr count).tables =
      callBack s.server.data.onReadHolding addr count s.tables :=
    congrArg (fun v => v.data.tables) (notify_server s s.server.data.onReadHolding addr count)
  obtain ⟨s', hs', hserver, hresp⟩ := modbusRespond_holds (b := b)
    (s := s.notify s.server.data.onReadHolding addr count) (by rwa [ModbusState.notify_pool])
    (readSize_le (BitVec.ofNat 8 (count.toNat * 2))) fun out m =>
      packRegisters (s.notify s.server.data.onReadHolding addr count).tables.holdingRegisters addr
        out ((m.set out (pdu 0)).set (out + 1) (BitVec.ofNat 8 (count.toNat * 2))) count.toNat
  refine ⟨s', ?_, ?_, ?_⟩
  · simp only [readHoldingRegisters, readRegisters, haddr, hcnt, if_neg (Nat.not_lt.2 hr)]
    exact hs'
  · rw [hserver, notify_server]
  · have hframe := (packRegisters_spec
      (s.notify s.server.data.onReadHolding addr count).tables.holdingRegisters addr
      ((((s.notify s.server.data.onReadHolding addr count).pool.zb b).space.set configZbufHeadroom
        (pdu 0)).set (configZbufHeadroom + 1) (BitVec.ofNat 8 (count.toNat * 2)))
      configZbufHeadroom count.toNat).1.frame
    rw [hsize, ByteMem.read_succ, ByteMem.read_succ, hframe _ (by omega), hframe _ (by omega),
      ByteMem.set_byte_self, ByteMem.set_byte_of_ne _ _ (by omega), ByteMem.set_byte_self,
      packRegisters_read, htables] at hresp
    exact hresp

end

/-! ## Results -/

section
variable {β : Type} [DecidableEq β]

theorem takeValues_spec (data : ℕ → BitVec 8) (result : ℕ → BitVec 16) {n i : ℕ} (h : i < n) :
    takeValues data result n i = be16 data (2 + 2 * i) := by
  induction n with
  | zero => exact absurd h (by omega)
  | succ n ih =>
    rw [takeValues]
    by_cases hin : i = n
    · subst hin
      rw [Function.update_self, Nat.mul_comm]
    · rw [Function.update_of_ne hin, ih (by omega)]

omit [DecidableEq β] in
/-- The function code decides whether the client takes a response. -/
theorem modbusFailed_received {transId n : BitVec 16} {unit function : BitVec 8}
    {l : List (BitVec 8)} {z : Zbuf β}
    (h : Received (mbapBytes transId n unit ++ function :: l) z.len fun i =>
      z.space.byte (z.data + i)) : modbusFailed z = decide (function &&& 0x80 ≠ 0) := by
  have hbyte := h.bytes modbusTcpHdrLen (by
    rw [List.length_append, List.length_cons, show (mbapBytes transId n unit).length = 7 from rfl,
      modbusTcpHdrLen]
    omega)
  have hcode : frameByte (mbapBytes transId n unit ++ function :: l) modbusTcpHdrLen = function :=
    frameByte_append_right (mbapBytes transId n unit) (function :: l) 0
  rw [modbusFailed, hbyte, hcode]

end

/-- A response with the transaction and the unit of the request. -/
theorem mbap_matches (transId n : BitVec 16) (unit : BitVec 8) (pdu : List (BitVec 8))
    {l : List (BitVec 8)} (hl : l.length + 1 < 2 ^ 16) :
    Matches (mbapBytes transId n unit ++ pdu)
      (mbapBytes transId (BitVec.ofNat 16 (l.length + 1)) unit ++ l) := by
  refine ⟨(be16_cons _ _).trans (be16_cons _ _).symm, rfl, ?_⟩
  have hlen : be16 (frameByte (mbapBytes transId (BitVec.ofNat 16 (l.length + 1)) unit ++ l)) 4 =
      BitVec.ofNat 16 (l.length + 1) := hiByte_append_loByte _
  rw [hlen, BitVec.toNat_ofNat, Nat.mod_eq_of_lt hl, List.length_append,
    show (mbapBytes transId (BitVec.ofNat 16 (l.length + 1)) unit).length = 7 from rfl]
  omega

/-- The client accepts the echo of a write. -/
theorem writeResponse_done (port : Port) (transId n : BitVec 16) (unit : BitVec 8)
    (l : List (BitVec 8)) :
    WriteDone port (mbapBytes transId n unit ++ modbusFcWriteMultipleRegisters :: l) := by
  intro β _ pool zb hrec
  rw [modbusWriteMultipleRegistersResume, modbusFailed_received hrec]
  rfl

/-- The client takes the registers from the response to a read. -/
theorem readResponse_done (port : Port) (transId n : BitVec 16) (unit byteCount : BitVec 8)
    (count : BitVec 16) (values : ℕ → BitVec 16) :
    ReadDone port (mbapBytes transId n unit ++
      modbusFcReadHoldingRegisters :: byteCount :: wordBytes values count.toNat) count values := by
  intro β _ pool zb result hrec
  refine ⟨zbufFree port pool (some zb), takeValues (fun i => (pool.zb zb).space.byte
    ((pool.zb zb).data + modbusTcpHdrLen + i)) result count.toNat, ?_, fun i hi => ?_⟩
  · rw [modbusReadHoldingRegistersResume, modbusFailed_received hrec]
    rfl
  · have hbyte : ∀ k < 2 + 2 * count.toNat,
        (pool.zb zb).space.byte ((pool.zb zb).data + modbusTcpHdrLen + k) =
          frameByte (modbusFcReadHoldingRegisters :: byteCount :: wordBytes values count.toNat)
            k := by
      intro k hk
      have hlt : modbusTcpHdrLen + k < (mbapBytes transId n unit ++
          modbusFcReadHoldingRegisters :: byteCount :: wordBytes values count.toNat).length := by
        rw [List.length_append, List.length_cons, List.length_cons, wordBytes_length,
          show (mbapBytes transId n unit).length = modbusTcpHdrLen from rfl]
        omega
      rw [Nat.add_assoc]
      exact (hrec.bytes _ hlt).trans (frameByte_append_right (mbapBytes transId n unit) _ k)
    rw [takeValues_spec _ _ hi, be16_congr hbyte (by omega)]
    exact (be16_append_right [_, _] (wordBytes values count.toNat) (2 * i)).trans
      (be16_wordBytes values hi)

/-- **A write at the server** stores the values. -/
theorem writePdu_answers (port : Port) {server : ModbusServer} (hrun : server.tcpRunning = true)
    {addr count : BitVec 16} (hcount : count.toNat ≤ 123)
    (hrange : addr.toNat + count.toNat ≤ server.data.tables.holdingRegistersCount.toNat)
    (values : ℕ → BitVec 16) (transId n : BitVec 16) :
    Answers port server (mbapBytes transId n server.slaveAddr ++ writePdu addr count values)
      (server.answered (callBack server.data.onWriteHolding addr count
        (server.data.tables.writeRange addr count values)))
      (mbapBytes transId 6 server.slaveAddr ++
        [modbusFcWriteMultipleRegisters, hiByte addr, loByte addr, hiByte count, loByte count]) := by
  have hfc : frameByte (writePdu addr count values) 0 = modbusFcWriteMultipleRegisters := rfl
  have haddr : be16 (frameByte (writePdu addr count values)) 1 = addr := hiByte_append_loByte addr
  have hcnt : be16 (frameByte (writePdu addr count values)) 3 = count := hiByte_append_loByte count
  have hlen : (writePdu addr count values).length = 6 + 2 * count.toNat := by
    rw [writePdu, List.length_append, wordBytes_length]
    rfl
  have hwords : ∀ i < count.toNat,
      be16 (frameByte (writePdu addr count values)) (6 + i * 2) = values i := by
    intro i hi
    rw [Nat.mul_comm]
    exact (be16_append_right _ (wordBytes values count.toNat) (2 * i)).trans
      (be16_wordBytes values hi)
  have htables : (server.data.tables.writeRange addr count fun i =>
      be16 (frameByte (writePdu addr count values)) (6 + i * 2)) =
        server.data.tables.writeRange addr count values := by
    unfold ModbusTables.writeRange
    congr 1
    funext a
    split_ifs with ha
    · exact hwords _ (by omega)
    · rfl
  refine answers_of_switch port hrun transId n (writePdu addr count values)
    [modbusFcWriteMultipleRegisters, hiByte addr, loByte addr, hiByte count, loByte count]
    { server with
      requests := server.requests + 1
      data.tables := callBack server.data.onWriteHolding addr count
        (server.data.tables.writeRange addr count values) }
    (by rw [hlen]; omega) (by rw [hlen]; omega) ?_ ?_
  · simp only [PduSafe, hfc]
    exact .inr ⟨by omega, .inr (Nat.le_of_eq (by rw [hcnt, hlen]))⟩
  · intro α _ s b hs hb
    have hdata : s.server.data = server.data := by rw [hs]
    have ht : s.tables = server.data.tables := congrArg ModbusData.tables hdata
    have hr : (be16 (frameByte (writePdu addr count values)) 1).toNat +
        (be16 (frameByte (writePdu addr count values)) 3).toNat ≤
          s.tables.holdingRegistersCount.toNat := by
      rwa [haddr, hcnt, ht]
    obtain ⟨s', hs', hserver, hresp⟩ := writeMultipleRegisters_holds hb hr
    rw [haddr, hcnt, ht, hdata, htables, hs] at hserver
    exact ⟨s', (modbusSwitch_writeMultipleRegisters hfc).trans hs', hserver, hresp⟩

/-- **A read at the server** returns the registers. -/
theorem readPdu_answers (port : Port) {server : ModbusServer} (hrun : server.tcpRunning = true)
    {addr count : BitVec 16} (hcount : count.toNat ≤ 127)
    (hrange : addr.toNat + count.toNat ≤ server.data.tables.holdingRegistersCount.toNat)
    {t : ModbusTables} (ht : callBack server.data.onReadHolding addr count server.data.tables = t)
    (transId n : BitVec 16) :
    Answers port server (mbapBytes transId n server.slaveAddr ++ readPdu addr count)
      (server.answered t)
      (mbapBytes transId (BitVec.ofNat 16 (2 * count.toNat + 1 + 1 + 1)) server.slaveAddr ++
        modbusFcReadHoldingRegisters :: BitVec.ofNat 8 (count.toNat * 2) ::
          wordBytes (fun i => t.holdingRegisters (addr.toNat + i)) count.toNat) := by
  have hfc : frameByte (readPdu addr count) 0 = modbusFcReadHoldingRegisters := rfl
  have haddr : be16 (frameByte (readPdu addr count)) 1 = addr := hiByte_append_loByte addr
  have hcnt : be16 (frameByte (readPdu addr count)) 3 = count := hiByte_append_loByte count
  have hl := wordBytes_length (fun i => t.holdingRegisters (addr.toNat + i)) count.toNat
  rw [← hl]
  refine answers_of_switch port hrun transId n (readPdu addr count)
    (modbusFcReadHoldingRegisters :: BitVec.ofNat 8 (count.toNat * 2) ::
      wordBytes (fun i => t.holdingRegisters (addr.toNat + i)) count.toNat)
    { server with requests := server.requests + 1, data.tables := t }
    (by decide : 0 < 5) (by decide : 5 ≤ 1920) ?_ ?_
  · simp only [PduSafe, hfc]
    exact .inl (by decide : 5 ≤ 5)
  · intro α _ s b hs hb
    have hdata : s.server.data = server.data := by rw [hs]
    have hts : s.tables = server.data.tables := congrArg ModbusData.tables hdata
    have hr : (be16 (frameByte (readPdu addr count)) 1).toNat +
        (be16 (frameByte (readPdu addr count)) 3).toNat ≤ s.tables.holdingRegistersCount.toNat := by
      rwa [haddr, hcnt, hts]
    obtain ⟨s', hs', hserver, hresp⟩ := readHoldingRegisters_holds hb hr (by rwa [hcnt])
      (t := t) (by rw [haddr, hcnt, hdata, hts]; exact ht)
    rw [hs] at hserver
    rw [haddr, hcnt] at hresp
    exact ⟨s', (modbusSwitch_readHoldingRegisters hfc).trans hs', hserver, hresp⟩

/-- **Client and server.**  The request of a write to a range of the table stores
    exactly its values, and the request of a read returns them, unless a callback
    of the application changes them.  Each response matches its request. -/
theorem modbus_end_to_end (port : Port) {server : ModbusServer} (hrun : server.tcpRunning = true)
    {addr count : BitVec 16} (hcount : count.toNat ≤ 123)
    (hrange : addr.toNat + count.toNat ≤ server.data.tables.holdingRegistersCount.toNat)
    (values : ℕ → BitVec 16) :
    ∃ server₁,
      (∀ client mem, ∃ req resp,
        Requests (fun pool => modbusWriteMultipleRegisters client pool (some mem) server.slaveAddr
          addr count values) req ∧
        Answers port server req server₁ resp ∧ Matches req resp ∧ WriteDone port resp) ∧
      server₁.data.tables = callBack server.data.onWriteHolding addr count
        (server.data.tables.writeRange addr count values) ∧
      (KeepsRange server.data.onWriteHolding addr count →
        KeepsRange server.data.onReadHolding addr count →
          ∃ server₂, ∀ client, ∃ req resp,
            Requests (fun pool => modbusReadHoldingRegisters client pool server.slaveAddr addr
              count) req ∧
            Answers port server₁ req server₂ resp ∧ Matches req resp ∧
              ReadDone port resp count values) := by
  refine ⟨server.answered (callBack server.data.onWriteHolding addr count
    (server.data.tables.writeRange addr count values)), fun client mem => ?_, rfl,
    fun hwrite hread => ?_⟩
  · exact ⟨_, _, writePdu_requests client mem server.slaveAddr hcount values,
      writePdu_answers port hrun hcount hrange values client.transactionId _,
      mbap_matches client.transactionId _ server.slaveAddr _
        (l := [modbusFcWriteMultipleRegisters, hiByte addr, loByte addr, hiByte count,
          loByte count]) (by decide : 5 + 1 < 2 ^ 16),
      writeResponse_done port _ _ _ _⟩
  · generalize hw : callBack server.data.onWriteHolding addr count
      (server.data.tables.writeRange addr count values) = t
    generalize hr : callBack server.data.onReadHolding addr count t = t'
    have hstored := hwrite (server.data.tables.writeRange addr count values)
    have hkept := hread t
    rw [hw] at hstored
    rw [hr] at hkept
    have hvalues : ∀ i < count.toNat, t'.holdingRegisters (addr.toNat + i) = values i := by
      intro i hi
      rw [hkept.2 i hi, hstored.2 i hi, ModbusTables.writeRange]
      dsimp only
      rw [if_pos (by omega), Nat.add_sub_cancel_left]
    have hrange' : addr.toNat + count.toNat ≤ t.holdingRegistersCount.toNat := by
      rw [hstored.1]
      exact hrange
    have hlen := wordBytes_length values count.toNat
    have hrun' : (server.answered t).tcpRunning = true := hrun
    have hcount' : count.toNat ≤ 127 := by omega
    refine ⟨(server.answered t).answered t', fun client => ⟨_, _,
      readPdu_requests client server.slaveAddr addr count,
      readPdu_answers port hrun' hcount' hrange' hr client.transactionId _, ?_, ?_⟩⟩
    · rw [wordBytes_congr hvalues, ← hlen]
      exact mbap_matches client.transactionId _ server.slaveAddr _
        (l := modbusFcReadHoldingRegisters :: BitVec.ofNat 8 (count.toNat * 2) ::
          wordBytes values count.toNat) (by rw [List.length_cons, List.length_cons, hlen]; omega)
    · rw [wordBytes_congr hvalues]
      exact readResponse_done port _ _ _ _ count values

/-- Three registers from register 5 on, at a server without callbacks. -/
theorem modbus_end_to_end_three : ∃ server₁ server₂,
    (∀ client, ∃ req resp,
      Requests (fun pool => modbusWriteMultipleRegisters client pool (some ⟨fun _ => 0, []⟩) 1 5 3
        (BitVec.ofNat 16)) req ∧
      Answers .arm64 demoModbus.server req server₁ resp ∧ Matches req resp ∧
        WriteDone .arm64 resp) ∧
    ∀ client, ∃ req resp,
      Requests (fun pool => modbusReadHoldingRegisters client pool 1 5 3) req ∧
      Answers .arm64 server₁ req server₂ resp ∧ Matches req resp ∧
        ReadDone .arm64 resp 3 (BitVec.ofNat 16) := by
  have hrun : demoModbus.server.tcpRunning = true := rfl
  have hrange : (5 : BitVec 16).toNat + (3 : BitVec 16).toNat ≤
    demoModbus.server.data.tables.holdingRegistersCount.toNat := by decide
  obtain ⟨server₁, hwrite, -, hread⟩ :=
    modbus_end_to_end .arm64 hrun (by decide) hrange (BitVec.ofNat 16)
  have hkeeps : KeepsRange none 5 3 := fun t => ⟨rfl, fun _ _ => rfl⟩
  obtain ⟨server₂, hread⟩ := hread hkeeps hkeeps
  exact ⟨server₁, server₂, fun client => hwrite client _, hread⟩

end Gracemont
