/-
  Gracemont protocols — the memory of a Modbus TCP server as its clients see it
  (`protocols/modbus/modbus.c`, the same file in both ports).

  To its clients the server is a memory of registers and coils (`RemoteMemory`).
  One call of a client is cut at the frames (`Exchange`): a request is built in
  a buffer of the client, and either side may lose its frame.  A frame that is
  lost does not arrive later: the connection is given up after a timeout.  Of the
  sockets only this is left: a poll closes the one that it accepts from, so a
  server handles one request each time that it is started.

  * `modbusPollRequest_polls`: the polls of the server on its sockets;
  * `handles`: the handlers of the server are operations of the memory;
  * `exchange_memory`: one call;
  * `remote_memory`: every run of calls is a run of the memory.
-/
import Gracemont.Lib.Trace
import Gracemont.Protocols.ModbusRequests
import Gracemont.Protocols.ModbusResponse
import Gracemont.Protocols.ModbusTcp

namespace Gracemont

open Lib (ByteMem)

/-! ## The client -/

section
variable {β : Type} [DecidableEq β]

/-- `modbus_write_single_register`, up to its response. -/
def modbusWriteSingleRegister (client : ModbusClient) (pool : ZbufPool β) (slave : BitVec 8)
    (addr value : BitVec 16) : Option (ModbusRequest β) :=
  modbusBuildRequest client pool slave modbusFcWriteSingleRegister
    [hiByte addr, loByte addr, hiByte value, loByte value]

/-- `modbus_write_single_coil`, up to its response. -/
def modbusWriteSingleCoil (client : ModbusClient) (pool : ZbufPool β) (slave : BitVec 8)
    (addr : BitVec 16) (value : Bool) : Option (ModbusRequest β) :=
  modbusBuildRequest client pool slave modbusFcWriteSingleCoil
    [hiByte addr, loByte addr, if value then 0xFF else 0x00, 0x00]

/-- `modbus_write_single_register` with its response. -/
def modbusWriteSingleRegisterResume (port : Port) (pool : ZbufPool β) (resp : Option β) :
    ZbufPool β × Status :=
  modbusWriteMultipleRegistersResume port pool resp

/-- `modbus_write_single_coil` with its response. -/
def modbusWriteSingleCoilResume (port : Port) (pool : ZbufPool β) (resp : Option β) :
    ZbufPool β × Status :=
  modbusWriteMultipleRegistersResume port pool resp

end

/-- The calls of a client. -/
inductive ClientCall where
  | readHoldingRegisters (addr count : BitVec 16)
  | readCoils (addr count : BitVec 16)
  | writeSingleRegister (addr value : BitVec 16)
  | writeSingleCoil (addr : BitVec 16) (value : Bool)
  | writeMultipleRegisters (addr count : BitVec 16) (values : ℕ → BitVec 16)

/-- What a call returns, with the elements that it has stored for the caller. -/
structure CallReturn where
  status : Status
  registers : List (BitVec 16)
  coils : List Bool
  deriving DecidableEq

namespace ClientCall
variable {β : Type} [DecidableEq β]

/-- The request of a call; `heap_alloc` returns the memory `mem`. -/
def request (client : ModbusClient) (pool : ZbufPool β) (mem : Option ByteMem)
    (slave : BitVec 8) : ClientCall → Option (ModbusRequest β)
  | readHoldingRegisters addr count => modbusReadHoldingRegisters client pool slave addr count
  | readCoils addr count => modbusReadCoils client pool slave addr count
  | writeSingleRegister addr value => modbusWriteSingleRegister client pool slave addr value
  | writeSingleCoil addr value => modbusWriteSingleCoil client pool slave addr value
  | writeMultipleRegisters addr count values =>
    modbusWriteMultipleRegisters client pool mem slave addr count values

/-- The rest of a call, whose caller gives it the arrays `registers` and `coils`. -/
def resume (port : Port) (pool : ZbufPool β) (resp : Option β) (registers : ℕ → BitVec 16)
    (coils : ℕ → BitVec 8) : ClientCall → CallReturn
  | readHoldingRegisters _ count =>
    let (_, ret, result) := modbusReadHoldingRegistersResume port pool resp count registers
    ⟨ret, if ret = .ok then (List.range count.toNat).map result else [], []⟩
  | readCoils _ count =>
    let (_, ret, result) := modbusReadCoilsResume port pool resp coils
    ⟨ret, [], if ret = .ok then (List.range count.toNat).map (tableBit result) else []⟩
  | writeSingleRegister _ _ => ⟨(modbusWriteSingleRegisterResume port pool resp).2, [], []⟩
  | writeSingleCoil _ _ => ⟨(modbusWriteSingleCoilResume port pool resp).2, [], []⟩
  | writeMultipleRegisters _ _ _ =>
    ⟨(modbusWriteMultipleRegistersResume port pool resp).2, [], []⟩

end ClientCall

/-! ## The memory -/

/-- The registers and coils of a server. -/
structure RemoteMemory where
  registers : ℕ → BitVec 16
  registersCount : ℕ
  coils : ℕ → Bool
  coilsCount : ℕ

namespace RemoteMemory

/-- The elements that the call names are in the memory. -/
def Has (m : RemoteMemory) : ClientCall → Prop
  | .readHoldingRegisters addr count | .writeMultipleRegisters addr count _ =>
    addr.toNat + count.toNat ≤ m.registersCount
  | .readCoils addr count => addr.toNat + count.toNat ≤ m.coilsCount
  | .writeSingleRegister addr _ => addr.toNat < m.registersCount
  | .writeSingleCoil addr _ => addr.toNat < m.coilsCount

instance (m : RemoteMemory) : DecidablePred m.Has
  | .readHoldingRegisters _ _ | .readCoils _ _ | .writeMultipleRegisters _ _ _ => Nat.decLe _ _
  | .writeSingleRegister _ _ | .writeSingleCoil _ _ => Nat.decLt _ _

/-- The memory after a call. -/
def after (m : RemoteMemory) : ClientCall → RemoteMemory
  | .readHoldingRegisters _ _ | .readCoils _ _ => m
  | .writeSingleRegister addr value =>
    { m with registers := Function.update m.registers addr.toNat value }
  | .writeSingleCoil addr value => { m with coils := Function.update m.coils addr.toNat value }
  | .writeMultipleRegisters addr count values =>
    { m with registers := fun a =>
        if addr.toNat ≤ a ∧ a < addr.toNat + count.toNat then values (a - addr.toNat)
        else m.registers a }

/-- What a call returns that the memory answers. -/
def values (m : RemoteMemory) : ClientCall → CallReturn
  | .readHoldingRegisters addr count =>
    ⟨.ok, (List.range count.toNat).map fun i => m.registers (addr.toNat + i), []⟩
  | .readCoils addr count =>
    ⟨.ok, [], (List.range count.toNat).map fun i => m.coils (addr.toNat + i)⟩
  | _ => ⟨.ok, [], []⟩

/-- A call at the memory. -/
def call (m : RemoteMemory) (c : ClientCall) : RemoteMemory × CallReturn :=
  if m.Has c then (m.after c, m.values c) else (m, ⟨.error, [], []⟩)

theorem call_has {m : RemoteMemory} {c : ClientCall} (h : m.Has c) :
    m.call c = (m.after c, m.values c) := if_pos h

theorem call_not_has {m : RemoteMemory} {c : ClientCall} (h : ¬ m.Has c) :
    m.call c = (m, ⟨.error, [], []⟩) := if_neg h

end RemoteMemory

/-- A call of a client, or what becomes of the socket of the server:
    `modbus_tcp_server_start` succeeds or fails, or another client takes it. -/
inductive RemoteEvent where
  | called (call : ClientCall) (ret : CallReturn)
  | started (ok : Bool)
  | taken

/-- A call that returns with an answer is one call at the memory.  One that times
    out is one or none, and one whose request is not built or not sent is none. -/
inductive RemoteMemory.Step (m : RemoteMemory) : RemoteEvent → RemoteMemory → Prop
  | answered (c : ClientCall) : Step m (.called c (m.call c).2) (m.call c).1
  | timedOut (c : ClientCall) : Step m (.called c ⟨.timeout, [], []⟩) (m.call c).1
  | lost (c : ClientCall) : Step m (.called c ⟨.timeout, [], []⟩) m
  | noMem (c : ClientCall) : Step m (.called c ⟨.noMem, [], []⟩) m
  | unsent (c : ClientCall) : Step m (.called c ⟨.error, [], []⟩) m
  | started (ok : Bool) : Step m (.started ok) m
  | taken : Step m .taken m

/-- The memory as a system. -/
def memoryLts (init : RemoteMemory) : Lib.Lts RemoteMemory RemoteEvent :=
  ⟨fun m => m = init, RemoteMemory.Step⟩

def ModbusTables.memory (t : ModbusTables) : RemoteMemory :=
  ⟨t.holdingRegisters, t.holdingRegistersCount.toNat, tableBit t.coils, t.coilsCount.toNat⟩

/-! ## Calls -/

/-- The call is answered in the buffers of the code: the byte count of a response is
    one byte, and a write has the values that the protocol allows. -/
def ClientCall.Fits : ClientCall → Prop
  | readHoldingRegisters _ count => count.toNat ≤ 127
  | readCoils _ count => count.toNat ≤ 2040
  | writeMultipleRegisters _ count _ => count.toNat ≤ 123
  | _ => True

/-- The call of an event is. -/
def RemoteEvent.Fits : RemoteEvent → Prop
  | called call _ => call.Fits
  | started _ | taken => True

/-- A client builds the frame `req` for the call. -/
def ClientCall.Sends (call : ClientCall) (slave : BitVec 8) (req : List (BitVec 8)) : Prop :=
  ∃ (β : Type) (_ : DecidableEq β) (client client' : ModbusClient) (pool pool' : ZbufPool β)
    (mem : Option ByteMem) (zb : β),
    call.request client pool mem slave = some (client', pool', some zb) ∧
      (pool'.zb zb).space.read (pool'.zb zb).data (pool'.zb zb).len.toNat = req

/-- The server polls the frame `req`, and sends `resp`. -/
def Polls (port : Port) (server : ModbusServer) (req : List (BitVec 8)) (server' : ModbusServer)
    (resp : Option (List (BitVec 8))) : Prop :=
  ∃ (α : Type) (_ : DecidableEq α) (pool pool' : ZbufPool α) (zb : α) (frame : ℕ → BitVec 8),
    Received req (pool.zb zb).len frame ∧
      modbusServerPoll port ⟨server, pool⟩ zb frame = some (⟨server', pool'⟩, resp)

/-- The call returns `ret` when the frame `resp` is received. -/
def ClientCall.Returns (port : Port) (call : ClientCall) (resp : List (BitVec 8))
    (ret : CallReturn) : Prop :=
  ∃ (β : Type) (_ : DecidableEq β) (pool : ZbufPool β) (zb : β) (registers : ℕ → BitVec 16)
    (coils : ℕ → BitVec 8),
    Received resp (pool.zb zb).len (pool.zb zb).frame ∧
      call.resume port pool (some zb) registers coils = ret

/-- The call returns `ret` when no frame is received. -/
def ClientCall.GivesUp (port : Port) (call : ClientCall) (ret : CallReturn) : Prop :=
  ∃ (β : Type) (_ : DecidableEq β) (pool : ZbufPool β) (registers : ℕ → BitVec 16)
    (coils : ℕ → BitVec 8), call.resume port pool none registers coils = ret

/-- A server, and whether its `tcp_socket` listens. -/
structure RemoteServer where
  server : ModbusServer
  listening : Bool

/-- One call to the device `slave` of any client of the server.  The poll accepts
    its connection and closes `tcp_socket`, which is the same socket. -/
inductive Exchange (port : Port) (s : RemoteServer) (call : ClientCall) :
    CallReturn → RemoteServer → Prop
  /-- the response is received -/
  | answered {slave : BitVec 8} {req resp : List (BitVec 8)} {server' : ModbusServer}
      {ret : CallReturn} : s.listening = true → call.Sends slave req →
      Polls port s.server req server' (some resp) → call.Returns port resp ret →
      Exchange port s call ret ⟨server', false⟩
  /-- no response is sent, or it is lost -/
  | timedOut {slave : BitVec 8} {req : List (BitVec 8)} {resp : Option (List (BitVec 8))}
      {server' : ModbusServer} {ret : CallReturn} : s.listening = true → call.Sends slave req →
      Polls port s.server req server' resp → call.GivesUp port ret →
      Exchange port s call ret ⟨server', false⟩
  /-- the request is lost -/
  | lost {slave : BitVec 8} {req : List (BitVec 8)} {ret : CallReturn} : call.Sends slave req →
      call.GivesUp port ret → Exchange port s call ret s
  /-- there is no buffer for the request -/
  | noMem {β : Type} [DecidableEq β] {client client' : ModbusClient} {pool pool' : ZbufPool β}
      {mem : Option ByteMem} {slave : BitVec 8} :
      call.request client pool mem slave = some (client', pool', none) →
      Exchange port s call ⟨.noMem, [], []⟩ s
  /-- `modbus_send_request` fails -/
  | unsent {slave : BitVec 8} {req : List (BitVec 8)} : call.Sends slave req →
      Exchange port s call ⟨.error, [], []⟩ s

/-- What happens at a server. -/
def remoteStep (port : Port) (s : RemoteServer) : RemoteEvent → RemoteServer → Prop
  | .called call ret, s' => Exchange port s call ret s'
  | .started ok, s' =>
    s' = ⟨if ok then { s.server with tcpRunning := true } else s.server, ok⟩
  | .taken, s' => s' = ⟨s.server, false⟩

/-- The server with its clients. -/
def remoteLts (port : Port) (init : RemoteServer) : Lib.Lts RemoteServer RemoteEvent :=
  ⟨fun s => s = init, remoteStep port⟩

/-- What `modbus_server_poll` does once it has received `zb`: it polls that frame, and
    leaves no socket to accept from. -/
theorem modbusPollRequest_polls {α σ : Type} [DecidableEq α] [DecidableEq σ] {cfg : NetConfig α}
    {fuel : ℕ} {s s' : ModbusTcp α σ} {x : σ} {net : NetStack α σ} {zb : α}
    {req : List (BitVec 8)} (hx : s.net.lookup s.tcpSocket = some x)
    (hrun : s.server.tcpRunning = true) (hrecv : sockRecvZbufResume s.net x = some (net, some zb))
    (hreq : Received req (net.pool.zb zb).len (net.pool.zb zb).frame)
    (h : modbusPollRequest cfg fuel s x = some s') :
    (∃ resp, Polls cfg.port s.server req s'.server resp) ∧
      s'.net.lookup s'.tcpSocket = none ∧ s'.poll = .idle := by
  have hx' : net.lookup s.tcpSocket = some x := by
    rw [NetStack.lookup, (SameLinks.sockRecvZbufResume hrecv).socketTable]
    exact hx
  obtain ⟨⟨net', zb'⟩, hrecv', h⟩ := Option.bind_eq_some_iff.1 h
  cases hrecv.symm.trans hrecv'
  obtain ⟨s₁, hanswer, hclose⟩ := Option.bind_eq_some_iff.1 h
  obtain ⟨m, sent, hpoll, hserver, -⟩ :=
    modbusPollAnswer_server (s := { s with net := net }) hrun hanswer
  have hlookup := (modbusPollAnswer_lookup hanswer).trans hx'
  have hs₁ : s'.server = s₁.server := by
    obtain ⟨r, -, hr⟩ := Option.bind_eq_some_iff.1 hclose
    cases hr
    rfl
  refine ⟨⟨sent, ?_⟩, modbusPollClose_lookup hlookup hclose⟩
  rw [hs₁, hserver]
  exact ⟨α, inferInstance, net.pool, m.pool, zb, _, hreq, hpoll⟩

/-- A callback that only observes the tables. -/
def Observes (callback : Option ModbusCallback) : Prop :=
  ∀ addr count t, callBack callback addr count t = t

/-- The server runs as the memory `m`. -/
structure Serves (server : ModbusServer) (m : RemoteMemory) : Prop where
  running : server.tcpRunning = true
  onReadCoils : Observes server.data.onReadCoils
  onWriteCoils : Observes server.data.onWriteCoils
  onReadHolding : Observes server.data.onReadHolding
  onWriteHolding : Observes server.data.onWriteHolding
  memory : server.data.tables.memory = m

/-! ## Responses -/

section
variable {α : Type} {port : Port} {call : ClientCall} {ret : CallReturn} {l : List (BitVec 8)}

/-- A client that receives `l` behind a header takes it for the answer `ret`. -/
def ClientCall.Understands (call : ClientCall) (l : List (BitVec 8)) (ret : CallReturn) : Prop :=
  ∀ (port : Port) (transId n : BitVec 16) (unit : BitVec 8) (ret' : CallReturn),
    call.Returns port (mbapBytes transId n unit ++ l) ret' → ret' = ret

/-- A handler leaves a server for which `Q` holds, and its response, if the pool has a
    buffer for it, is the answer `ret` to the call. -/
def Replies (pool : ZbufPool α) (r : Option (ModbusReply α)) (Q : ModbusServer → Prop)
    (call : ClientCall) (ret : CallReturn) : Prop :=
  ∃ s' resp, r = some (s', resp) ∧ Q s'.server ∧ (pool.freeList ≠ none → resp ≠ none) ∧
    ∀ b, resp = some b → ∃ l, call.Understands l ret ∧ HoldsResponse s' b l

/-- The bytes behind the header of a response that is received. -/
theorem received_pdu {β : Type} {transId n : BitVec 16} {unit : BitVec 8} {z : Zbuf β}
    (h : Received (mbapBytes transId n unit ++ l) z.len z.frame) {i : ℕ} (hi : i < l.length) :
    z.frame (modbusTcpHdrLen + i) = frameByte l i := by
  have hlt : modbusTcpHdrLen + i < (mbapBytes transId n unit ++ l).length := by
    rw [List.length_append, show (mbapBytes transId n unit).length = modbusTcpHdrLen from rfl]
    omega
  rw [h.bytes _ hlt]
  exact frameByte_append_right (mbapBytes transId n unit) l i

/-- The exception bit of the function code decides whether an answer is taken. -/
theorem isException_received {β : Type} {transId n : BitVec 16} {unit function : BitVec 8}
    {z : Zbuf β}
    (h : Received (mbapBytes transId n unit ++ function :: l) z.len z.frame) :
    isException z.frame = decide (function &&& 0x80 ≠ 0) := by
  have hbyte := received_pdu h (i := 0) (Nat.succ_pos _)
  rw [isException, ← Nat.add_zero modbusTcpHdrLen, hbyte]
  rfl

theorem exception_bit (function : BitVec 8) : (function ||| 0x80) &&& 0x80 ≠ 0 := by
  have habsorb : (function ||| 0x80) &&& 0x80 = 0x80 := by
    refine BitVec.eq_of_getLsbD_eq fun i hi => ?_
    rw [BitVec.getLsbD_and, BitVec.getLsbD_or]
    cases function.getLsbD i <;> cases BitVec.getLsbD 0x80#8 i <;> rfl
  rw [habsorb]
  decide

/-- An exception makes every call fail. -/
theorem understands_exception (call : ClientCall) (function exception : BitVec 8) :
    call.Understands [function ||| 0x80, exception] ⟨.error, [], []⟩ := by
  rintro port transId n unit _ ⟨β, _, pool, zb, registers, coils, hrec, rfl⟩
  have hexc : isException (pool.zb zb).frame = true := by
    rw [isException_received hrec]
    exact decide_eq_true (exception_bit function)
  have hfailed : modbusFailed (pool.zb zb) = true := hexc
  cases call with
  | readHoldingRegisters => simp [ClientCall.resume, modbusReadHoldingRegistersResume, hfailed]
  | readCoils => simp [ClientCall.resume, modbusReadCoilsResume, takeCoils, takeResponse, hexc]
  | writeSingleRegister | writeSingleCoil | writeMultipleRegisters =>
    simp [ClientCall.resume, modbusWriteSingleRegisterResume, modbusWriteSingleCoilResume,
      modbusWriteMultipleRegistersResume, hfailed]

/-- The calls that only store. -/
def ClientCall.IsWrite : ClientCall → Prop
  | readHoldingRegisters _ _ | readCoils _ _ => False
  | _ => True

/-- Any other response makes a write succeed. -/
theorem understands_write (hcall : call.IsWrite) {function : BitVec 8}
    (hf : function &&& 0x80 = 0) (l : List (BitVec 8)) :
    call.Understands (function :: l) ⟨.ok, [], []⟩ := by
  rintro port transId n unit _ ⟨β, _, pool, zb, registers, coils, hrec, rfl⟩
  have hfailed : modbusFailed (pool.zb zb) = false :=
    (isException_received hrec).trans (decide_eq_false (not_not.2 hf))
  cases call with
  | readHoldingRegisters | readCoils => exact hcall.elim
  | writeSingleRegister | writeSingleCoil | writeMultipleRegisters =>
    simp [ClientCall.resume, modbusWriteSingleRegisterResume, modbusWriteSingleCoilResume,
      modbusWriteMultipleRegistersResume, hfailed]

theorem understands_registers (addr count : BitVec 16) (byteCount : BitVec 8)
    (values : ℕ → BitVec 16) :
    (ClientCall.readHoldingRegisters addr count).Understands
      (modbusFcReadHoldingRegisters :: byteCount :: wordBytes values count.toNat)
      ⟨.ok, (List.range count.toNat).map values, []⟩ := by
  rintro port transId n unit _ ⟨β, _, pool, zb, registers, coils, hrec, rfl⟩
  obtain ⟨pool', result, hresume, hvalues⟩ :=
    readResponse_done port transId n unit byteCount count values β pool zb registers hrec
  have hmap : (List.range count.toNat).map result = (List.range count.toNat).map values :=
    List.map_congr_left fun i hi => hvalues i (List.mem_range.1 hi)
  simp only [ClientCall.resume, hresume, if_true, hmap]

theorem takeLoop_result {γ : Type} (value : ℕ → γ) (src : ℕ → List ℕ) {n i : ℕ} (hi : i < n)
    (t : Taken γ) : (takeLoop value src n t).result i = value i := by
  induction n with
  | zero => exact absurd hi (Nat.not_lt_zero i)
  | succ n ih =>
    rw [takeLoop]
    by_cases hin : i = n
    · subst hin
      exact Function.update_self ..
    · exact (Function.update_of_ne hin ..).trans (ih (by omega))

/-- The bytes of a response are taken for coils, eight a byte. -/
theorem understands_coils (addr count : BitVec 16) {bytes : List (BitVec 8)}
    (hlen : bytes.length = (count.toNat + 7) / 8) (hfit : bytes.length < 2 ^ 8) {coils : ℕ → Bool}
    (hbits : ∀ k < count.toNat, tableBit (frameByte bytes) k = coils k) :
    (ClientCall.readCoils addr count).Understands
      (modbusFcReadCoils :: BitVec.ofNat 8 bytes.length :: bytes)
      ⟨.ok, [], (List.range count.toNat).map coils⟩ := by
  rintro port transId n unit _ ⟨β, _, pool, zb, registers, result, hrec, rfl⟩
  have hexc : isException (pool.zb zb).frame = false := isException_received hrec
  have hcount : ((pool.zb zb).frame (modbusTcpHdrLen + 1)).toNat = bytes.length := by
    rw [received_pdu hrec (i := 1) (by simp)]
    exact (BitVec.toNat_ofNat ..).trans (Nat.mod_eq_of_lt hfit)
  have htake : ∀ i < bytes.length,
      (takeCoils (pool.zb zb).frame result).result i = frameByte bytes i := by
    intro i hi
    rw [takeCoils, takeResponse, hexc, if_neg Bool.false_ne_true, hcount, takeLoop_result _ _ hi,
      received_pdu hrec (i := 2 + i) (by simp; omega)]
    exact frameByte_append_right [_, _] bytes i
  have hret : (takeCoils (pool.zb zb).frame result).ret = .ok := by
    rw [takeCoils, takeResponse, hexc, if_neg Bool.false_ne_true]
    exact (takeLoop_spec ..).1
  have hmap : (List.range count.toNat).map
      (tableBit (takeCoils (pool.zb zb).frame result).result) =
        (List.range count.toNat).map coils := by
    refine List.map_congr_left fun k hk => ?_
    have hk := List.mem_range.1 hk
    rw [← hbits k hk, tableBit, tableBit, htake _ (by omega)]
  simp only [ClientCall.resume, modbusReadCoilsResume, hret, if_true, hmap]

end

/-! ## Handlers -/

section
variable {α : Type} [DecidableEq α] {s : ModbusState α} {call : ClientCall} {ret : CallReturn}
  {Q : ModbusServer → Prop}

theorem modbusRespond_replies {size : BitVec 16}
    (hs : size.toNat ≤ configZbufSize - configZbufHeadroom) {fill : ℕ → ByteMem → ByteMem}
    (hu : ∀ m, call.Understands
      ((fill configZbufHeadroom m).read configZbufHeadroom size.toNat) ret)
    (hQ : Q s.server) : Replies s.pool (modbusRespond s size fill) Q call ret := by
  cases hb : s.pool.freeList with
  | none =>
    obtain ⟨s', hs', hserver⟩ := modbusRespond_none hb size fill
    refine ⟨s', none, hs', by rwa [hserver], absurd hb, fun b hb => ?_⟩
    cases hb
  | some b =>
    obtain ⟨s', hs', hserver, hholds⟩ := modbusRespond_holds hb hs fill
    refine ⟨s', some b, hs', by rwa [hserver], fun _ => Option.some_ne_none b, fun b' hb' => ?_⟩
    cases hb'
    exact ⟨_, hu _, hholds⟩

theorem modbusRefuse_replies (function exception : BitVec 8)
    (hQ : Q { s.server with exceptions := s.server.exceptions + 1 }) :
    Replies s.pool (modbusRefuse s function exception) Q call ⟨.error, [], []⟩ := by
  have hbuild : Replies s.pool (modbusBuildException s function exception)
      (fun server => Q { server with exceptions := server.exceptions + 1 }) call
      ⟨.error, [], []⟩ := by
    refine modbusRespond_replies (by decide : (2 : BitVec 16).toNat ≤ _) (fun m => ?_) hQ
    have hread := m.read_putBytes configZbufHeadroom [function ||| 0x80, exception]
    exact hread ▸ understands_exception call function exception
  obtain ⟨s', resp, hs', hQ', hfree, hresp⟩ := hbuild
  refine ⟨{ s' with server.exceptions := s'.server.exceptions + 1 }, resp, ?_, hQ', hfree,
    fun b hb => ?_⟩
  · simp only [modbusRefuse, hs', Option.bind_eq_bind, Option.bind_some]
  · obtain ⟨l, hl, hholds⟩ := hresp b hb
    exact ⟨l, hl, hholds.data, hholds.len, hholds.fits, hholds.bytes⟩

theorem modbusEcho_replies (hcall : call.IsWrite) {pdu : ℕ → BitVec 8} (hf : pdu 0 &&& 0x80 = 0)
    (hQ : Q s.server) : Replies s.pool (modbusEcho s pdu) Q call ⟨.ok, [], []⟩ := by
  refine modbusRespond_replies (by decide : (5 : BitVec 16).toNat ≤ _) (fun m => ?_) hQ
  rw [show (5 : BitVec 16).toNat = [pdu 0, pdu 1, pdu 2, pdu 3, pdu 4].length from rfl,
    ByteMem.read_putBytes]
  exact understands_write hcall hf _

omit [DecidableEq α] in
/-- The server goes on as it was with a callback that observes. -/
theorem notify_observes {callback : Option ModbusCallback} (h : Observes callback)
    (addr count : BitVec 16) : s.notify callback addr count = s := by
  cases callback with
  | none => rfl
  | some f =>
    have ht : f addr count s.tables = s.tables := h addr count s.tables
    rw [ModbusState.notify, ht]
    rfl

theorem Serves.stores {server server' : ModbusServer} {m m' : RemoteMemory} (h : Serves server m)
    {t : ModbusTables} (hrun : server'.tcpRunning = server.tcpRunning)
    (hdata : server'.data = { server.data with tables := t }) (ht : t.memory = m') :
    Serves server' m' where
  running := hrun.trans h.running
  onReadCoils := by rw [hdata]; exact h.onReadCoils
  onWriteCoils := by rw [hdata]; exact h.onWriteCoils
  onReadHolding := by rw [hdata]; exact h.onReadHolding
  onWriteHolding := by rw [hdata]; exact h.onWriteHolding
  memory := by rw [hdata]; exact ht

/-- The counters are not part of the memory. -/
theorem Serves.counted {server server' : ModbusServer} {m : RemoteMemory} (h : Serves server m)
    (hrun : server'.tcpRunning = server.tcpRunning) (hdata : server'.data = server.data) :
    Serves server' m := h.stores (t := server.data.tables) hrun hdata h.memory

/-- The size of the response to a read, for a byte count that does not wrap around. -/
theorem readSize_toNat {n : ℕ} (hn : n < 2 ^ 8) :
    (2 + (BitVec.ofNat 8 n).setWidth 16 : BitVec 16).toNat = n + 1 + 1 := by
  rw [BitVec.toNat_add, BitVec.toNat_setWidth, BitVec.toNat_ofNat,
    show (2 : BitVec 16).toNat = 2 from rfl]
  omega

/-- The bytes of the response to a read, of which `fill` writes those behind the byte
    count. -/
theorem read_response {m m' : ByteMem} {out n : ℕ} (function byteCount : BitVec 8) {hi : ℕ}
    (h : ByteMem.Within (out + 2) hi ((m.set out function).set (out + 1) byteCount) m') :
    m'.read out (n + 1 + 1) = function :: byteCount :: m'.read (out + 2) n := by
  rw [ByteMem.read_succ, ByteMem.read_succ, h.frame _ (by omega), h.frame _ (by omega),
    ByteMem.set_byte_self, ByteMem.set_byte_of_ne _ _ (by omega), ByteMem.set_byte_self]

/-- **A read of registers.** -/
theorem readHoldingRegisters_replies {m : RemoteMemory} (h : Serves s.server m)
    {pdu : ℕ → BitVec 8} {addr count : BitVec 16} (hfc : pdu 0 = modbusFcReadHoldingRegisters)
    (haddr : be16 pdu 1 = addr) (hcount : be16 pdu 3 = count) (hfits : count.toNat ≤ 127) :
    Replies s.pool (readHoldingRegisters s pdu)
      (Serves · (m.call (.readHoldingRegisters addr count)).1)
      (.readHoldingRegisters addr count) (m.call (.readHoldingRegisters addr count)).2 := by
  obtain rfl := h.memory
  simp only [readHoldingRegisters, readRegisters, haddr, hcount, hfc]
  by_cases hr : s.server.data.tables.memory.Has (.readHoldingRegisters addr count)
  · have hle : addr.toNat + count.toNat ≤ s.tables.holdingRegistersCount.toNat := hr
    rw [RemoteMemory.call_has hr, if_neg (Nat.not_lt.2 hle), notify_observes h.onReadHolding]
    refine modbusRespond_replies (readSize_le _) (fun m => ?_) h
    have hwithin := (packRegisters_spec s.tables.holdingRegisters addr
      ((m.set configZbufHeadroom modbusFcReadHoldingRegisters).set (configZbufHeadroom + 1)
        (BitVec.ofNat 8 (count.toNat * 2))) configZbufHeadroom count.toNat).1
    rw [readSize_toNat (by omega), read_response _ _ hwithin, Nat.mul_comm count.toNat 2,
      packRegisters_read]
    exact understands_registers addr count _ _
  · have hgt : s.tables.holdingRegistersCount.toNat < addr.toNat + count.toNat :=
      Nat.lt_of_not_le hr
    rw [RemoteMemory.call_not_has hr, if_pos hgt]
    exact modbusRefuse_replies _ _ (h.counted rfl rfl)

theorem frameByte_read (m : ByteMem) (a : ℕ) {n i : ℕ} (hi : i < n) :
    frameByte (m.read a n) i = m.byte (a + i) := by
  have hlt : i < (m.read a n).length := by rwa [ByteMem.read_length]
  rw [frameByte, List.getD_eq_getElem _ _ hlt]
  exact ((ByteMem.read_eq_iff m a (m.read a n)).1 rfl |>.2 i hlt).symm

/-- **A read of coils.** -/
theorem readCoils_replies {m : RemoteMemory} (h : Serves s.server m) {pdu : ℕ → BitVec 8}
    {addr count : BitVec 16} (hfc : pdu 0 = modbusFcReadCoils) (haddr : be16 pdu 1 = addr)
    (hcount : be16 pdu 3 = count) (hfits : count.toNat ≤ 2040) :
    Replies s.pool (readCoils s pdu) (Serves · (m.call (.readCoils addr count)).1)
      (.readCoils addr count) (m.call (.readCoils addr count)).2 := by
  obtain rfl := h.memory
  simp only [readCoils, readBits, haddr, hcount, hfc]
  by_cases hr : s.server.data.tables.memory.Has (.readCoils addr count)
  · have hle : addr.toNat + count.toNat ≤ s.tables.coilsCount.toNat := hr
    rw [RemoteMemory.call_has hr, if_neg (Nat.not_lt.2 hle), notify_observes h.onReadCoils]
    refine modbusRespond_replies (readSize_le _) (fun m => ?_) h
    have hn : (BitVec.ofNat 8 ((count.toNat + 7) / 8)).toNat = (count.toNat + 7) / 8 := by
      rw [BitVec.toNat_ofNat]
      omega
    obtain ⟨hwithin, hbits⟩ := packBits_spec s.tables.coils addr count
      ((m.set configZbufHeadroom modbusFcReadCoils).set (configZbufHeadroom + 1)
        (BitVec.ofNat 8 ((count.toNat + 7) / 8))) configZbufHeadroom ((count.toNat + 7) / 8)
    rw [hn, readSize_toNat (by omega), read_response _ _ hwithin]
    generalize packBits s.tables.coils addr count configZbufHeadroom _ _ = packed at hbits ⊢
    generalize hbytes : packed.read (configZbufHeadroom + 2) ((count.toNat + 7) / 8) = bytes
    have hlen : bytes.length = (count.toNat + 7) / 8 := by rw [← hbytes, ByteMem.read_length]
    rw [← hlen]
    refine understands_coils addr count hlen (by omega) fun k hk => ?_
    have hlt := s.tables.coilsCount.isLt
    have hnowrap : (addr + BitVec.ofNat 16 k).toNat = addr.toNat + k := by
      rw [BitVec.toNat_add, BitVec.toNat_ofNat]
      omega
    rw [← hbytes, tableBit, frameByte_read _ _ (by omega), hbits _ (by omega) _ (by omega), sentBit,
      Nat.div_add_mod', hnowrap, decide_eq_true hk, Bool.true_and]
    rfl
  · have hgt : s.tables.coilsCount.toNat < addr.toNat + count.toNat := Nat.lt_of_not_le hr
    rw [RemoteMemory.call_not_has hr, if_pos hgt]
    exact modbusRefuse_replies _ _ (h.counted rfl rfl)

/-- A write that is stored as `t`, and echoed. -/
theorem stored_replies {m m' : RemoteMemory} (h : Serves s.server m) {call : ClientCall}
    (hcall : call.IsWrite) {pdu : ℕ → BitVec 8} (hf : pdu 0 &&& 0x80 = 0) {t : ModbusTables}
    (ht : t.memory = m') {callback : Option ModbusCallback} (hcb : Observes callback)
    (addr count : BitVec 16) :
    Replies s.pool (modbusEcho ((s.setTables t).notify callback addr count) pdu) (Serves · m') call
      ⟨.ok, [], []⟩ := by
  rw [notify_observes hcb]
  exact modbusEcho_replies (s := s.setTables t) hcall hf (h.stores rfl rfl ht)

/-- **A write of a coil.** -/
theorem writeSingleCoil_replies {m : RemoteMemory} (h : Serves s.server m) {pdu : ℕ → BitVec 8}
    {addr : BitVec 16} {value : Bool} (hfc : pdu 0 = modbusFcWriteSingleCoil)
    (haddr : be16 pdu 1 = addr) (hvalue : be16 pdu 3 = if value then 0xFF00 else 0) :
    Replies s.pool (writeSingleCoil s pdu) (Serves · (m.call (.writeSingleCoil addr value)).1)
      (.writeSingleCoil addr value) (m.call (.writeSingleCoil addr value)).2 := by
  obtain rfl := h.memory
  have hon : decide (be16 pdu 3 = 0xFF00) = value := by
    rw [hvalue]
    cases value <;> decide
  have hvalid : be16 pdu 3 = 0xFF00 ∨ be16 pdu 3 = 0 := by
    rw [hvalue]
    cases value <;> decide
  simp only [writeSingleCoil, haddr, if_pos hvalid, hon]
  by_cases hr : s.server.data.tables.memory.Has (.writeSingleCoil addr value)
  · have hlt : ¬ s.tables.coilsCount ≤ addr := Nat.not_le.2 hr
    rw [RemoteMemory.call_has hr, if_neg hlt]
    have hcall : (ClientCall.writeSingleCoil addr value).IsWrite := trivial
    refine stored_replies h hcall (by rw [hfc]; decide) ?_ h.onWriteCoils addr 1
    simp only [ModbusTables.memory, RemoteMemory.after]
    congr 1
    funext a
    rw [setBit_spec, Function.update_apply]
    rfl
  · have hle : s.tables.coilsCount ≤ addr := Nat.le_of_not_lt hr
    rw [RemoteMemory.call_not_has hr, if_pos hle]
    exact modbusRefuse_replies _ _ (h.counted rfl rfl)

/-- **A write of a register.** -/
theorem writeSingleRegister_replies {m : RemoteMemory} (h : Serves s.server m)
    {pdu : ℕ → BitVec 8} {addr value : BitVec 16} (hfc : pdu 0 = modbusFcWriteSingleRegister)
    (haddr : be16 pdu 1 = addr) (hvalue : be16 pdu 3 = value) :
    Replies s.pool (writeSingleRegister s pdu)
      (Serves · (m.call (.writeSingleRegister addr value)).1)
      (.writeSingleRegister addr value) (m.call (.writeSingleRegister addr value)).2 := by
  obtain rfl := h.memory
  simp only [writeSingleRegister, haddr, hvalue]
  by_cases hr : s.server.data.tables.memory.Has (.writeSingleRegister addr value)
  · have hlt : ¬ s.tables.holdingRegistersCount ≤ addr := Nat.not_le.2 hr
    rw [RemoteMemory.call_has hr, if_neg hlt]
    have hcall : (ClientCall.writeSingleRegister addr value).IsWrite := trivial
    exact stored_replies h hcall (by rw [hfc]; decide) rfl h.onWriteHolding addr 1
  · have hle : s.tables.holdingRegistersCount ≤ addr := Nat.le_of_not_lt hr
    rw [RemoteMemory.call_not_has hr, if_pos hle]
    exact modbusRefuse_replies _ _ (h.counted rfl rfl)

/-- **A write of registers.** -/
theorem writeMultipleRegisters_replies {m : RemoteMemory} (h : Serves s.server m)
    {pdu : ℕ → BitVec 8} {addr count : BitVec 16} {values : ℕ → BitVec 16}
    (hfc : pdu 0 = modbusFcWriteMultipleRegisters) (haddr : be16 pdu 1 = addr)
    (hcount : be16 pdu 3 = count) (hvalues : ∀ i < count.toNat, be16 pdu (6 + i * 2) = values i) :
    Replies s.pool (writeMultipleRegisters s pdu)
      (Serves · (m.call (.writeMultipleRegisters addr count values)).1)
      (.writeMultipleRegisters addr count values)
      (m.call (.writeMultipleRegisters addr count values)).2 := by
  obtain rfl := h.memory
  simp only [writeMultipleRegisters, haddr, hcount]
  by_cases hr : s.server.data.tables.memory.Has (.writeMultipleRegisters addr count values)
  · have hle : addr.toNat + count.toNat ≤ s.tables.holdingRegistersCount.toNat := hr
    rw [RemoteMemory.call_has hr, if_neg (Nat.not_lt.2 hle)]
    have hcall : (ClientCall.writeMultipleRegisters addr count values).IsWrite := trivial
    refine stored_replies h hcall (by rw [hfc]; decide) ?_ h.onWriteHolding addr count
    simp only [ModbusTables.memory, RemoteMemory.after]
    congr 1
    funext a
    rw [unpackRegisters_spec]
    split_ifs with ha
    · exact hvalues _ (by omega)
    · rfl
  · have hgt : s.tables.holdingRegistersCount.toNat < addr.toNat + count.toNat :=
      Nat.lt_of_not_le hr
    rw [RemoteMemory.call_not_has hr, if_pos hgt]
    exact modbusRefuse_replies _ _ (h.counted rfl rfl)

end

/-! ## Requests -/

/-- The request of a call, behind its header. -/
def ClientCall.pdu : ClientCall → List (BitVec 8)
  | readHoldingRegisters addr count => readPdu addr count
  | readCoils addr count =>
    [modbusFcReadCoils, hiByte addr, loByte addr, hiByte count, loByte count]
  | writeSingleRegister addr value =>
    [modbusFcWriteSingleRegister, hiByte addr, loByte addr, hiByte value, loByte value]
  | writeSingleCoil addr value =>
    [modbusFcWriteSingleCoil, hiByte addr, loByte addr, if value then 0xFF else 0x00, 0x00]
  | writeMultipleRegisters addr count values => writePdu addr count values

theorem writePdu_length (addr count : BitVec 16) (values : ℕ → BitVec 16) :
    (writePdu addr count values).length = 6 + 2 * count.toNat := by
  rw [writePdu, List.length_append, wordBytes_length]
  rfl

theorem ClientCall.pdu_length (call : ClientCall) (hfits : call.Fits) :
    5 ≤ call.pdu.length ∧ call.pdu.length ≤ 252 := by
  cases call with
  | writeMultipleRegisters addr count values =>
    have hcount : count.toNat ≤ 123 := hfits
    have hlen := writePdu_length addr count values
    rw [ClientCall.pdu]
    omega
  | _ => exact ⟨Nat.le_refl 5, (by decide : 5 ≤ 252)⟩

theorem ClientCall.requests {call : ClientCall} (hfits : call.Fits) (client : ModbusClient)
    (mem : ByteMem) (slave : BitVec 8) :
    ∃ n, Requests (fun pool => call.request client pool (some mem) slave)
      (mbapBytes client.transactionId n slave ++ call.pdu) := by
  cases call with
  | readHoldingRegisters addr count => exact ⟨6, readPdu_requests client slave addr count⟩
  | readCoils | writeSingleRegister | writeSingleCoil =>
    refine ⟨6, fun β _ pool zb hb => ?_⟩
    exact modbusBuildRequest_spec client hb slave _ [_, _, _, _] (by decide : 4 ≤ 1912)
  | writeMultipleRegisters addr count values =>
    exact ⟨_, writePdu_requests client mem slave hfits values⟩

theorem modbusBuildRequest_free {β : Type} [DecidableEq β] {client client' : ModbusClient}
    {pool pool' : ZbufPool β} {slave function : BitVec 8} {data : List (BitVec 8)} {zb : β}
    (h : modbusBuildRequest client pool slave function data = some (client', pool', some zb)) :
    pool.freeList ≠ none := by
  intro hb
  obtain ⟨pool₁, halloc⟩ := zbufAllocTx_none hb (modbusTcpHdrLen + 1 + BitVec.ofNat 16 data.length)
  simp only [modbusBuildRequest, halloc] at h
  cases h

/-- **The frame of a call.** -/
theorem ClientCall.Sends.pdu {call : ClientCall} (hfits : call.Fits) {slave : BitVec 8}
    {req : List (BitVec 8)} (h : call.Sends slave req) :
    ∃ transId n, req = mbapBytes transId n slave ++ call.pdu := by
  obtain ⟨β, _, client, client', pool, pool', mem, zb, hreq, rfl⟩ := h
  obtain ⟨mem', hreq, hb⟩ : ∃ mem', call.request client pool (some mem') slave =
      some (client', pool', some zb) ∧ pool.freeList ≠ none := by
    cases call with
    | readHoldingRegisters | readCoils | writeSingleRegister | writeSingleCoil =>
      exact ⟨⟨fun _ => 0, []⟩, hreq, modbusBuildRequest_free hreq⟩
    | writeMultipleRegisters =>
      cases mem with
      | none => cases hreq
      | some mem => exact ⟨mem, hreq, modbusBuildRequest_free hreq⟩
  obtain ⟨b, hb⟩ := Option.ne_none_iff_exists'.1 hb
  obtain ⟨n, hrequests⟩ := ClientCall.requests hfits client mem' slave
  obtain ⟨client₁, pool₁, hreq₁, hread⟩ := hrequests β pool b hb
  cases hreq.symm.trans hreq₁
  exact ⟨client.transactionId, n, hread⟩

/-- A request has what its handler reads. -/
theorem ClientCall.pdu_safe (call : ClientCall) (c : ModbusConfig) :
    PduSafe c call.pdu.length (frameByte call.pdu) := by
  cases call with
  | readHoldingRegisters | readCoils | writeSingleRegister | writeSingleCoil =>
    exact .inl (by decide : 5 ≤ 5)
  | writeMultipleRegisters addr count values =>
    have hcount : be16 (frameByte (writePdu addr count values)) 3 = count :=
      hiByte_append_loByte count
    have hlen := writePdu_length addr count values
    rw [ClientCall.pdu]
    exact .inr ⟨by omega, .inr (Nat.le_of_eq (by rw [hcount, hlen]))⟩

/-! ## The server -/

section
variable {α : Type} [DecidableEq α] {s : ModbusState α} {call : ClientCall}

/-- **The handlers** are the operations of the memory. -/
theorem handles {m : RemoteMemory} (h : Serves s.server m) (hfits : call.Fits) :
    Replies s.pool (modbusSwitch s (frameByte call.pdu)) (Serves · (m.call call).1) call
      (m.call call).2 := by
  cases call with
  | readHoldingRegisters addr count =>
    have hfc : frameByte (readPdu addr count) 0 = modbusFcReadHoldingRegisters := rfl
    rw [ClientCall.pdu, modbusSwitch_readHoldingRegisters hfc]
    exact readHoldingRegisters_replies h hfc (hiByte_append_loByte addr)
      (hiByte_append_loByte count) hfits
  | readCoils addr count =>
    have hfc : frameByte (ClientCall.readCoils addr count).pdu 0 = modbusFcReadCoils := rfl
    rw [modbusSwitch_readCoils hfc]
    exact readCoils_replies h hfc (hiByte_append_loByte addr) (hiByte_append_loByte count) hfits
  | writeSingleRegister addr value =>
    have hfc : frameByte (ClientCall.writeSingleRegister addr value).pdu 0 =
      modbusFcWriteSingleRegister := rfl
    rw [modbusSwitch_writeSingleRegister hfc]
    exact writeSingleRegister_replies h hfc (hiByte_append_loByte addr)
      (hiByte_append_loByte value)
  | writeSingleCoil addr value =>
    have hfc : frameByte (ClientCall.writeSingleCoil addr value).pdu 0 =
      modbusFcWriteSingleCoil := rfl
    have hvalue : be16 (frameByte (ClientCall.writeSingleCoil addr value).pdu) 3 =
        if value then 0xFF00 else 0 := by
      have hbytes : be16 (frameByte (ClientCall.writeSingleCoil addr value).pdu) 3 =
        (if value then 0xFF else 0x00 : BitVec 8) ++ (0x00 : BitVec 8) := rfl
      rw [hbytes]
      cases value <;> decide
    rw [modbusSwitch_writeSingleCoil hfc]
    exact writeSingleCoil_replies h hfc (hiByte_append_loByte addr) hvalue
  | writeMultipleRegisters addr count values =>
    have hfc : frameByte (writePdu addr count values) 0 = modbusFcWriteMultipleRegisters := rfl
    rw [ClientCall.pdu, modbusSwitch_writeMultipleRegisters hfc]
    refine writeMultipleRegisters_replies h hfc (hiByte_append_loByte addr)
      (hiByte_append_loByte count) fun i hi => ?_
    rw [Nat.mul_comm]
    exact (be16_append_right _ (wordBytes values count.toNat) (2 * i)).trans
      (be16_wordBytes values hi)

theorem zbufPull_received {zb : α} (hlen : modbusTcpHdrLen + 1 ≤ (s.pool.zb zb).len.toNat) :
    zbufPull (s.pool.zb zb) modbusTcpHdrLen = some ((modbusReceived s zb).pool.zb zb,
      (s.pool.zb zb).data + (modbusTcpHdrLen : BitVec 16).toNat) := by
  have hle : ¬ (s.pool.zb zb).len < (modbusTcpHdrLen : BitVec 16) := by
    rw [BitVec.lt_def, show ((modbusTcpHdrLen : ℕ) : BitVec 16).toNat = 7 from rfl]
    simp only [modbusTcpHdrLen] at hlen
    omega
  simp only [zbufPull, if_neg hle, modbusReceived, Function.update_self]

/-- A poll whose handler has no buffer for its response sends nothing. -/
theorem modbusServerPoll_silent (port : Port) {s' : ModbusState α} {zb : α} {frame : ℕ → BitVec 8}
    (hrun : s.server.tcpRunning = true) (hlen : modbusTcpHdrLen + 1 ≤ (s.pool.zb zb).len.toNat)
    (hunit : ¬ (frame 6 ≠ s.server.slaveAddr ∧ frame 6 ≠ 0))
    (hsw : modbusSwitch (modbusReceived s zb) (fun i => frame (modbusTcpHdrLen + i)) =
      some (s', none)) :
    ∃ pool, modbusServerPoll port s zb frame =
      some (⟨{ s'.server with errors := s'.server.errors + 1 }, pool⟩, none) := by
  have hproc : modbusProcessRequest { s with pool := (modbusReceived s zb).pool }
      (fun i => frame (modbusTcpHdrLen + i)) =
        some ({ s' with server.errors := s'.server.errors + 1 }, none) := by
    have hsw' : modbusSwitch { server := { s.server with requests := s.server.requests + 1 },
                               pool := (modbusReceived s zb).pool }
        (fun i => frame (modbusTcpHdrLen + i)) = some (s', none) := hsw
    simp only [modbusProcessRequest, hsw', Option.bind_eq_bind, Option.bind_some]
  have hpool : { s.pool with zb := Function.update s.pool.zb zb ((modbusReceived s zb).pool.zb zb) }
      = (modbusReceived s zb).pool := by
    simp only [modbusReceived, Function.update_self]
  simp only [modbusServerPoll, hrun, not_true, if_false, if_neg (Nat.not_lt.2 hlen), if_neg hunit,
    zbufPull_received hlen, Option.bind_eq_bind, Option.bind_some, hpool, hproc]
  exact ⟨_, rfl⟩

/-- **A poll** does not heed the request, or it is the call at the memory. -/
theorem polls_memory {port : Port} {server server' : ModbusServer} {m : RemoteMemory}
    (h : Serves server m) (hfits : call.Fits) {transId n : BitVec 16} {slave : BitVec 8}
    {resp : Option (List (BitVec 8))}
    (hpolls : Polls port server (mbapBytes transId n slave ++ call.pdu) server' resp) :
    resp = none ∧ Serves server' m ∨ Serves server' (m.call call).1 ∧
      ∀ l, resp = some l → ∀ ret, call.Returns port l ret → ret = (m.call call).2 := by
  obtain ⟨α, _, pool, pool', zb, frame, hrec, hpoll⟩ := hpolls
  have hpdu := call.pdu_length hfits
  have hlen : (pool.zb zb).len.toNat = modbusTcpHdrLen + call.pdu.length := by
    rw [hrec.len, List.length_append]
    rfl
  have hshift : (fun i => frameByte (mbapBytes transId n slave ++ call.pdu)
      (modbusTcpHdrLen + i)) = frameByte call.pdu := by
    funext i
    exact frameByte_append_right (mbapBytes transId n slave) call.pdu i
  have hsafe : FrameSafe (ModbusState.mk server pool).server.config (pool.zb zb).len
      (frameByte (mbapBytes transId n slave ++ call.pdu)) := by
    refine .inr (.inr ?_)
    rw [hshift, hlen, Nat.add_sub_cancel_left]
    exact call.pdu_safe _
  rw [modbusServerPoll_congr ⟨server, pool⟩ port zb hsafe fun i hi => hrec.bytes i (by
    rwa [hrec.len] at hi)] at hpoll
  have hle : modbusTcpHdrLen + 1 ≤ (pool.zb zb).len.toNat := by omega
  by_cases hunit : frameByte (mbapBytes transId n slave ++ call.pdu) 6 ≠ server.slaveAddr ∧
      frameByte (mbapBytes transId n slave ++ call.pdu) 6 ≠ 0
  · -- the request is for another device
    have hdrop := h.running
    simp only [modbusServerPoll, hdrop, not_true, if_false, if_neg (Nat.not_lt.2 hle),
      if_pos hunit] at hpoll
    cases hpoll
    exact .inl ⟨rfl, h⟩
  · right
    have hreceived : Serves (modbusReceived (ModbusState.mk server pool) zb).server m :=
      h.counted rfl rfl
    obtain ⟨s', b, hsw, hserves, -, hresp⟩ := handles hreceived hfits
    rw [← hshift] at hsw
    cases b with
    | none =>
      obtain ⟨pool₁, hsilent⟩ :=
        modbusServerPoll_silent port (s := ⟨server, pool⟩) h.running hle hunit hsw
      cases hsilent.symm.trans hpoll
      refine ⟨hserves.counted rfl rfl, fun l hl => ?_⟩
      cases hl
    | some b =>
      obtain ⟨l, hl, hholds⟩ := hresp b rfl
      obtain ⟨pool₁, hanswer⟩ :=
        modbusServerPoll_responds port (s := ⟨server, pool⟩) h.running hle hunit hsw hholds
      cases hanswer.symm.trans hpoll
      refine ⟨hserves.counted rfl rfl, fun l' hl' ret hret => ?_⟩
      cases hl'
      exact hl port _ _ _ ret hret

end

/-! ## Runs -/

section
variable {port : Port} {call : ClientCall} {ret : CallReturn}

theorem ClientCall.GivesUp.timeout (h : call.GivesUp port ret) : ret = ⟨.timeout, [], []⟩ := by
  obtain ⟨β, _, pool, registers, coils, rfl⟩ := h
  cases call <;> rfl

/-- **One call.** -/
theorem exchange_memory {s s' : RemoteServer} {m : RemoteMemory} (h : Serves s.server m)
    (hfits : call.Fits) (he : Exchange port s call ret s') :
    ∃ m', m.Step (.called call ret) m' ∧ Serves s'.server m' := by
  cases he with
  | answered _ hsends hpolls hreturns =>
    obtain ⟨transId, n, rfl⟩ := hsends.pdu hfits
    rcases polls_memory h hfits hpolls with ⟨hnone, -⟩ | ⟨hserves, hret⟩
    · cases hnone
    · rw [hret _ rfl ret hreturns]
      exact ⟨_, .answered call, hserves⟩
  | timedOut _ hsends hpolls hgives =>
    rw [hgives.timeout]
    obtain ⟨transId, n, rfl⟩ := hsends.pdu hfits
    rcases polls_memory h hfits hpolls with ⟨-, hserves⟩ | ⟨hserves, -⟩
    · exact ⟨m, .lost call, hserves⟩
    · exact ⟨_, .timedOut call, hserves⟩
  | lost _ hgives =>
    rw [hgives.timeout]
    exact ⟨m, .lost call, h⟩
  | noMem _ => exact ⟨m, .noMem call, h⟩
  | unsent _ => exact ⟨m, .unsent call, h⟩

/-- **One event.** -/
theorem remoteStep_memory {s s' : RemoteServer} {m : RemoteMemory} {e : RemoteEvent}
    (h : Serves s.server m) (hfits : e.Fits) (he : remoteStep port s e s') :
    ∃ m', m.Step e m' ∧ Serves s'.server m' := by
  cases e with
  | called call ret => exact exchange_memory h hfits he
  | started ok =>
    rw [show s' = _ from he]
    refine ⟨m, .started ok, ?_⟩
    cases ok with
    | false => exact h
    | true => exact { h with running := rfl }
  | taken =>
    rw [show s' = _ from he]
    exact ⟨m, .taken, h⟩

/-- A pool with the buffer 0 free, and `z` in the buffer 1. -/
def poolWith (z : Zbuf (Fin 2)) : ZbufPool (Fin 2) :=
  ⟨Function.update (fun _ => demoZbuf) 1 z, some 0, 2, 1, 0⟩

/-- A buffer with the frame `l`. -/
def zbufOf (l : List (BitVec 8)) : Zbuf (Fin 2) :=
  { demoZbuf with len := BitVec.ofNat 16 l.length, space := ⟨frameByte l, []⟩ }

theorem zbufOf_received {l : List (BitVec 8)} (hl : l.length < 2 ^ 16) :
    Received l (zbufOf l).len (zbufOf l).frame where
  len := (BitVec.toNat_ofNat ..).trans (Nat.mod_eq_of_lt hl)
  bytes i _ := congrArg (frameByte l) (Nat.zero_add i)

theorem ClientCall.sends (hfits : call.Fits) (slave : BitVec 8) :
    ∃ transId n, call.Sends slave (mbapBytes transId n slave ++ call.pdu) := by
  obtain ⟨n, hrequests⟩ := ClientCall.requests hfits ⟨0⟩ ⟨fun _ => 0, []⟩ slave
  obtain ⟨client', pool', hreq, hread⟩ := hrequests (Fin 2) (poolWith demoZbuf) 0 rfl
  exact ⟨0, n, Fin 2, inferInstance, _, _, _, _, _, _, hreq, hread⟩

theorem ClientCall.Understands.returns {l : List (BitVec 8)} (hl : call.Understands l ret)
    (hfit : l.length ≤ configZbufSize - configZbufHeadroom) (port : Port)
    (transId n : BitVec 16) (unit : BitVec 8) :
    call.Returns port (mbapBytes transId n unit ++ l) ret := by
  generalize hresp : mbapBytes transId n unit ++ l = resp
  have hrec : Received resp (zbufOf resp).len (zbufOf resp).frame := by
    refine zbufOf_received ?_
    rw [← hresp, List.length_append, show (mbapBytes transId n unit).length = 7 from rfl]
    simp only [configZbufSize, configZbufHeadroom] at hfit
    omega
  have hreturns : call.Returns port resp
      (call.resume port (poolWith (zbufOf resp)) (some 1) (fun _ => 0) fun _ => 0) :=
    ⟨Fin 2, inferInstance, poolWith (zbufOf resp), 1, _, _, hrec, rfl⟩
  generalize call.resume port (poolWith (zbufOf resp)) (some 1) (fun _ => 0) (fun _ => 0) =
    ret' at hreturns
  obtain rfl := hl port transId n unit ret' (by rw [hresp]; exact hreturns)
  exact hreturns

theorem polls_answers (port : Port) {server : ModbusServer} {m : RemoteMemory}
    (h : Serves server m) (hfits : call.Fits) (transId n : BitVec 16) :
    ∃ server' resp,
      Polls port server (mbapBytes transId n server.slaveAddr ++ call.pdu) server' (some resp) ∧
        call.Returns port resp (m.call call).2 := by
  generalize hframe : mbapBytes transId n server.slaveAddr ++ call.pdu = req
  have hpdu : req.length = modbusTcpHdrLen + call.pdu.length := by
    rw [← hframe, List.length_append]
    rfl
  have hlen := call.pdu_length hfits
  have hrec : Received req (zbufOf req).len (zbufOf req).frame :=
    zbufOf_received (by rw [hpdu, modbusTcpHdrLen]; omega)
  have hreceived : Serves (modbusReceived ⟨server, poolWith (zbufOf req)⟩ 1).server m :=
    h.counted rfl rfl
  obtain ⟨s', b, hsw, -, hfree, hresp⟩ := handles hreceived hfits
  obtain ⟨b, rfl⟩ := Option.ne_none_iff_exists'.1 (hfree (Option.some_ne_none 0))
  obtain ⟨l, hl, hholds⟩ := hresp b rfl
  have hshift : (fun i => frameByte req (modbusTcpHdrLen + i)) = frameByte call.pdu := by
    funext i
    rw [← hframe]
    exact frameByte_append_right (mbapBytes transId n server.slaveAddr) call.pdu i
  rw [← hshift] at hsw
  have hunit : ¬ (frameByte req 6 ≠ server.slaveAddr ∧ frameByte req 6 ≠ 0) := by
    rw [← hframe]
    exact fun hne => hne.1 rfl
  have hle : modbusTcpHdrLen + 1 ≤
      ((ModbusState.mk server (poolWith (zbufOf req))).pool.zb 1).len.toNat := by
    have hlen' : ((poolWith (zbufOf req)).zb 1).len.toNat = req.length := hrec.len
    rw [hlen', hpdu]
    omega
  obtain ⟨pool, hpoll⟩ := modbusServerPoll_responds port h.running hle hunit hsw hholds
  have hsent : Received req ((poolWith (zbufOf req)).zb 1).len (frameByte req) :=
    ⟨hrec.len, fun _ _ => rfl⟩
  exact ⟨_, _, ⟨Fin 2, inferInstance, _, pool, 1, _, hsent, hpoll⟩,
    hl.returns hholds.fits port _ _ _⟩

/-- **A server that listens** can answer every call, when there are buffers. -/
theorem exchange_answers (port : Port) {s : RemoteServer} {m : RemoteMemory}
    (h : Serves s.server m) (hlisten : s.listening = true) (hfits : call.Fits) :
    ∃ s', Exchange port s call (m.call call).2 s' := by
  obtain ⟨transId, n, hsends⟩ := ClientCall.sends hfits s.server.slaveAddr
  obtain ⟨server', resp, hpolls, hreturns⟩ := polls_answers port h hfits transId n
  exact ⟨⟨server', false⟩, .answered hlisten hsends hpolls hreturns⟩

/-- **Every run of calls is a run of the memory.**  A call that is answered is made
    exactly once, on all that was written before it, and returns what the memory
    returns; a call that times out is made at most once.  In each state that is
    reached, if the server listens, every call can be answered. -/
theorem remote_memory {s : RemoteServer} {m : RemoteMemory} (h : Serves s.server m)
    {tr : List RemoteEvent} {s' : RemoteServer}
    (hrun : ((remoteLts port s).restrict fun _ e => e.Fits).Run tr s') :
    ∃ m', (memoryLts m).Run tr m' ∧ s'.server.data.tables.memory = m' ∧
      (s'.listening = true → ∀ call : ClientCall, call.Fits →
        ∃ s'', Exchange port s' call (m'.call call).2 s'') := by
  obtain ⟨m', hmem, hserves⟩ : ∃ m', (memoryLts m).Run tr m' ∧ Serves s'.server m' := by
    refine hrun.simulate (R := fun s m => Serves s.server m) ?_ ?_
    · rintro _ rfl
      exact ⟨m, rfl, h⟩
    · rintro s m e s' hs ⟨hfits, he⟩
      exact remoteStep_memory hs hfits he
  exact ⟨m', hmem, hserves.memory, fun hlisten call => exchange_answers port hserves hlisten⟩

end

/-- Register 5 is written; the server is started again, and the register read. -/
theorem remote_memory_register : ∃ s' s'' m',
    (memoryLts demoModbus.server.data.tables.memory).Run
      [.called (.writeSingleRegister 5 0x2A) ⟨.ok, [], []⟩, .started true] m' ∧
      s'.server.data.tables.memory = m' ∧
      Exchange .arm64 s' (.readHoldingRegisters 5 1) (m'.call (.readHoldingRegisters 5 1)).2
        s'' := by
  have hnone : Observes none := fun _ _ _ => rfl
  have hserves : Serves demoModbus.server demoModbus.server.data.tables.memory :=
    ⟨rfl, hnone, hnone, hnone, hnone, rfl⟩
  have hfits : (ClientCall.writeSingleRegister 5 0x2A).Fits := trivial
  obtain ⟨s₁, hwrite⟩ :=
    exchange_answers .arm64 (s := ⟨demoModbus.server, true⟩) hserves rfl hfits
  have hret : (demoModbus.server.data.tables.memory.call (.writeSingleRegister 5 0x2A)).2 =
    ⟨.ok, [], []⟩ := by decide
  rw [hret] at hwrite
  have hstart : remoteStep .arm64 s₁ (.started true) ⟨{ s₁.server with tcpRunning := true }, true⟩ :=
    rfl
  have hwritten : ((remoteLts .arm64 ⟨demoModbus.server, true⟩).restrict fun _ e => e.Fits).Run
      [.called (.writeSingleRegister 5 0x2A) ⟨.ok, [], []⟩] s₁ :=
    .snoc (.start rfl) ⟨hfits, hwrite⟩
  have hfits' : (RemoteEvent.started true).Fits := trivial
  have hrun := hwritten.snoc ⟨hfits', hstart⟩
  obtain ⟨m', hmem, hm', hanswers⟩ := remote_memory hserves hrun
  obtain ⟨s'', hread⟩ := hanswers rfl (.readHoldingRegisters 5 1) (by decide : 1 ≤ 127)
  exact ⟨_, s'', m', hmem, hm', hread⟩

end Gracemont
