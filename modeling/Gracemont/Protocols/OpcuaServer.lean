/-
  Gracemont protocols — the OPC UA server (`protocols/opcua/opcua.c`, the same
  file in both ports).

  A node pointer is an element of `β`.  Left out of a node are the names, the
  class, the data type and the access level, which no function reads.  The
  callback `on_write` gets a copy of what was stored and is left out too.

  What a handler finds outside the server is `OpcuaEnv`: the clock, the bytes
  behind a string literal that is read too far, and the contents of local
  variables that are not initialised.  Undefined behaviour is `none`: a string
  without a terminator, and a response past the end of its buffer.

  * `opcuaServerInit`, `opcuaAddNode`, `opcuaFindNode`: the address space;
  * `opcuaReadItem`, `opcuaWriteItem`: the bodies of the two loops over nodes;
  * `opcuaHandleHello`, `opcuaHandleOpenChannel`, `opcuaHandleService`;
  * `opcuaServe`, `opcuaServerPoll`: the loop over received buffers.
-/
import Gracemont.Net.Zbuf
import Gracemont.Protocols.Opcua

namespace Gracemont

open Lib

/-! ## Data -/

/-- `opcua_node_t` -/
structure OpcuaNode (ρ β : Type) where
  nodeId : OpcuaNodeid ρ
  value : OpcuaVariant ρ
  parent : Option β
  children : Option β
  next : Option β

/-- `opcua_session_t`; `timeout` is never used. -/
structure OpcuaSession where
  sessionId : BitVec 32
  authToken : BitVec 32
  activated : Bool
  channelId : BitVec 32
  lastActivity : BitVec 32
  deriving DecidableEq

/-- `opcua_server_t`; `added` are the nodes that `opcua_add_node` has returned,
    the last one first. -/
structure OpcuaServer (ρ β : Type) where
  running : Bool
  channelId : BitVec 32
  sequenceNum : BitVec 32
  requestId : BitVec 32
  sessions : ℕ → OpcuaSession
  sessionCount : BitVec 32
  nodes : Store β (OpcuaNode ρ β)
  added : List β
  rootNode : Option β
  nodeCount : BitVec 32
  onRead : Option (OpcuaNodeid ρ → OpcuaVariant ρ → OpcuaVariant ρ)

/-- What a handler finds outside the server: the value of the clock at its
    `i`-th call, the two bytes behind `"RTOS OPC UA"`, and the contents of the
    locals `node_id` and `value` at the start of the iteration `i` of a loop,
    with what its union holds, read as a node id. -/
structure OpcuaEnv (ρ : Type) where
  ticks : ℕ → BitVec 32
  pastName : BitVec 8 × BitVec 8
  nodeId : ℕ → OpcuaNodeid ρ
  value : ℕ → OpcuaVariant ρ
  valueNodeid : ℕ → OpcuaNodeid ρ

/-- `CONFIG_OPCUA_MAX_SESSIONS` -/
def configOpcuaMaxSessions : BitVec 32 := 8

def opcuaStatusGood : BitVec 32 := 0x00000000
def opcuaStatusBad : BitVec 32 := 0x80000000
def opcuaStatusBadNodeidUnknown : BitVec 32 := 0x80340000

/-- The characters of a string literal. -/
def charBytes (s : String) : List (BitVec 8) := s.toList.map fun ch => BitVec.ofNat 8 ch.toNat

def opcuaMsgHel : List (BitVec 8) := [0x48, 0x45, 0x4C]
def opcuaMsgAck : List (BitVec 8) := [0x41, 0x43, 0x4B]
def opcuaMsgOpn : List (BitVec 8) := [0x4F, 0x50, 0x4E]
def opcuaMsgMsg : List (BitVec 8) := [0x4D, 0x53, 0x47]
def opcuaMsgClo : List (BitVec 8) := [0x43, 0x4C, 0x4F]

variable {ρ β : Type}

/-- `opcua_server_init`, over the memory of the nodes and of the session table. -/
def opcuaServerInit (nodes : Store β (OpcuaNode ρ β)) (sessions : ℕ → OpcuaSession) :
    OpcuaServer ρ β :=
  { running := false, channelId := 1, sequenceNum := 1, requestId := 0, sessions := sessions
    sessionCount := 0, nodes := nodes, added := [], rootNode := none, nodeCount := 0
    onRead := none }

/-! ## The address space -/

/-- The comparison in `find_recursive`. -/
def OpcuaNodeid.found (nodeId id : OpcuaNodeid ρ) : Bool :=
  nodeId.ns = id.ns && match nodeId.id, id.id with
    | .numeric n, .numeric k => n = k
    | _, _ => false

/-- `find_recursive`, to a depth of calls. -/
def findRecursive (nodes : Store β (OpcuaNode ρ β)) (id : OpcuaNodeid ρ) :
    ℕ → Option β → Option β
  | 0, _ => none
  | _ + 1, none => none
  | depth + 1, some node =>
    if (nodes node).nodeId.found id then some node
    else match findRecursive nodes id depth (nodes node).children with
      | some found => some found
      | none => findRecursive nodes id depth (nodes node).next

/-- `opcua_find_node`; no chain of calls is longer than the number of nodes. -/
def opcuaFindNode (s : OpcuaServer ρ β) (nodeId : OpcuaNodeid ρ) : Option β :=
  findRecursive s.nodes nodeId (s.added.length + 1) s.rootNode

section
variable [DecidableEq β]

/-- `opcua_add_node`, where `node` is what `heap_alloc` returned. -/
def opcuaAddNode (s : OpcuaServer ρ β) (node : β) (parent : Option β)
    (nodeId : OpcuaNodeid ρ) : OpcuaServer ρ β :=
  let nodes : Store β (OpcuaNode ρ β) :=
    Function.update s.nodes node
      ⟨nodeId, opcuaNull (s.nodes node).value.content, parent, none, none⟩
  let s := { s with added := node :: s.added, nodeCount := s.nodeCount + 1 }
  match parent with
  | some parent =>
    let nodes := nodes.modify node fun n => { n with next := (nodes parent).children }
    { s with nodes := nodes.modify parent fun n => { n with children := some node } }
  | none =>
    if s.rootNode = none then { s with nodes := nodes, rootNode := some node }
    else { s with nodes := nodes }

/-- `node->value = value` -/
def OpcuaServer.setValue (s : OpcuaServer ρ β) (node : β) (value : OpcuaVariant ρ) :
    OpcuaServer ρ β :=
  { s with nodes := s.nodes.modify node fun n => { n with value := value } }

/-- The call of `on_read`, unless it is null. -/
def OpcuaServer.notifyRead (s : OpcuaServer ρ β) (nodeId : OpcuaNodeid ρ) (node : β) :
    OpcuaServer ρ β :=
  match s.onRead with
  | none => s
  | some f => s.setValue node (f nodeId (s.nodes node).value)

/-! ## Services -/

/-- What `get_system_ticks() * 10000` is written as. -/
def opcuaTimestamp (ticks : BitVec 32) : List (BitVec 8) := writeU64 ((ticks * 10000).setWidth 64)

/-- The type id and the header of a response. -/
def opcuaResponseHeader (typeId : BitVec 16) (ticks status : BitVec 32) : List (BitVec 8) :=
  writeU8 0x01 ++ writeU8 0x00 ++ writeU16 typeId ++ opcuaTimestamp ticks ++ writeU32 0 ++
    writeU32 status ++ writeU8 0 ++ writeU32 0xFFFFFFFF ++ writeU32 0

/-- A string literal of `n` characters behind its length. -/
def opcuaWriteText (s : String) (n : BitVec 32) : List (BitVec 8) := writeU32 n ++ charBytes s

/-- `http://opcfoundation.org/UA/SecurityPolicy#None` -/
def opcuaPolicy : String := "http://opcfoundation.org/UA/SecurityPolicy#None"

/-- `GetEndpointsRequest` -/
def opcuaGetEndpoints (env : OpcuaEnv ρ) : List (BitVec 8) :=
  opcuaResponseHeader 431 (env.ticks 0) opcuaStatusGood ++ writeU32 1 ++
    opcuaWriteText "opc.tcp://localhost:4840" 24 ++
    -- the server
    writeU32 0xFFFFFFFF ++ writeU32 0xFFFFFFFF ++ writeU8 0x02 ++ writeU32 0xFFFFFFFF ++
    -- 14 bytes of a literal of 12
    writeU32 14 ++ charBytes "RTOS OPC UA" ++ [0, env.pastName.1, env.pastName.2] ++
    writeU32 0 ++ writeU32 0xFFFFFFFF ++ writeU32 0xFFFFFFFF ++ writeU32 0 ++
    -- certificate, security mode and policy
    writeU32 0xFFFFFFFF ++ writeU32 1 ++ opcuaWriteText opcuaPolicy 47 ++
    -- user identity tokens
    writeU32 1 ++ opcuaWriteText "anonymous" 9 ++ writeU32 0 ++ writeU32 0xFFFFFFFF ++
    writeU32 0xFFFFFFFF ++ writeU32 0xFFFFFFFF ++
    opcuaWriteText "http://opcfoundation.org/UA-Profile/Transport/uatcp-uasc-uabinary" 65 ++
    writeU8 0

/-- `CreateSessionRequest` -/
def opcuaCreateSession (env : OpcuaEnv ρ) (channelId : BitVec 32) (s : OpcuaServer ρ β) :
    OpcuaServer ρ β × List (BitVec 8) :=
  let sessionId := s.sessionCount + 1
  let body := opcuaResponseHeader 464 (env.ticks 0) opcuaStatusGood ++
    writeU8 0x02 ++ writeU16 1 ++ writeU32 sessionId ++
    writeU8 0x02 ++ writeU16 1 ++ writeU32 sessionId ++
    writeU64 0 ++ writeU32 0xFFFFFFFF ++ writeU32 0xFFFFFFFF ++ writeU32 0 ++ writeU32 0 ++
    writeU32 0xFFFFFFFF ++ writeU32 0
  if s.sessionCount < configOpcuaMaxSessions then
    let session : OpcuaSession :=
      { sessionId := sessionId, authToken := sessionId, activated := false
        channelId := channelId, lastActivity := env.ticks 1 }
    ({ s with
        sessions := Function.update s.sessions s.sessionCount.toNat session
        sessionCount := s.sessionCount + 1 }, body)
  else (s, body)

/-- `ActivateSessionRequest` -/
def opcuaActivateSession (env : OpcuaEnv ρ) : List (BitVec 8) :=
  opcuaResponseHeader 470 (env.ticks 0) opcuaStatusGood ++ writeU32 0xFFFFFFFF ++ writeU32 0 ++
    writeU32 0

/-- The index range, which is skipped. -/
def skipIndexRange : Scan Unit := do
  let irLen ← readU32
  if irLen ≠ 0xFFFFFFFF then Scan.skip irLen.toNat else pure ()

/-- Finding a node and getting its value: the data value that is written. -/
def opcuaGetValue (mem : Regions ρ) (s : OpcuaServer ρ β) (nodeId : OpcuaNodeid ρ) :
    OpcuaServer ρ β × Option (List (BitVec 8)) :=
  match opcuaFindNode s nodeId with
  | some node =>
    let s := s.notifyRead nodeId node
    (s, (opcuaEncodeVariant mem (s.nodes node).value).map (writeU8 0x01 ++ ·))
  | none => (s, some (writeU8 0x02 ++ writeU32 opcuaStatusBadNodeidUnknown))

/-- Finding a node and setting its value: the result that is written. -/
def opcuaSetValue (s : OpcuaServer ρ β) (nodeId : OpcuaNodeid ρ) (value : OpcuaVariant ρ) :
    OpcuaServer ρ β × BitVec 32 :=
  match opcuaFindNode s nodeId with
  | some node => (s.setValue node value, opcuaStatusGood)
  | none => (s, opcuaStatusBadNodeidUnknown)

/-- An iteration of the loop over the nodes to read. -/
def opcuaReadItem (env : OpcuaEnv ρ) (mem : Regions ρ) (r : ρ) (i : ℕ) (s : OpcuaServer ρ β) :
    Scan (OpcuaServer ρ β × Option (List (BitVec 8))) := do
  let nodeId ← opcuaDecodeNodeid r (env.nodeId i)
  let _attrId ← readU32
  skipIndexRange
  Scan.skip 3
  pure (opcuaGetValue mem s nodeId)

/-- An iteration of the loop over the nodes to write. -/
def opcuaWriteItem (env : OpcuaEnv ρ) (r : ρ) (i : ℕ) (s : OpcuaServer ρ β) :
    Scan (OpcuaServer ρ β × BitVec 32) := do
  let nodeId ← opcuaDecodeNodeid r (env.nodeId i)
  let _attrId ← readU32
  skipIndexRange
  let enc ← readU8
  let value ← if enc &&& 0x01 ≠ 0 then opcuaDecodeVariant r (env.valueNodeid i)
    else pure (env.value i)
  pure (opcuaSetValue s nodeId value)

/-- The iterations `i` to `i + n - 1` of a loop that collects results. -/
def opcuaLoop {σ τ : Type} (item : ℕ → σ → Scan (σ × τ)) : ℕ → ℕ → σ → Scan (σ × List τ)
  | 0, _, s => pure (s, [])
  | n + 1, i, s => do
    let (s, result) ← item i s
    let (s, results) ← opcuaLoop item n (i + 1) s
    pure (s, result :: results)

/-- The iterations of a loop over `node_count` entries. -/
def opcuaIterations (nodeCount : BitVec 32) : ℕ := min nodeCount.toNat 16

/-- The results of a response behind their number. -/
def opcuaWriteResults (nodeCount : BitVec 32) (results : List (List (BitVec 8))) :
    List (BitVec 8) := writeU32 nodeCount ++ results.flatten ++ writeU32 0

/-- `ReadRequest` -/
def opcuaRead (env : OpcuaEnv ρ) (mem : Regions ρ) (r : ρ) (s : OpcuaServer ρ β) :
    Scan (OpcuaServer ρ β × Option (List (BitVec 8))) := do
  Scan.skip 24
  let _maxAge ← readU64
  let _timestamps ← readU32
  let nodeCount ← readU32
  let (s, results) ← opcuaLoop (opcuaReadItem env mem r) (opcuaIterations nodeCount) 0 s
  pure (s, (results.mapM id).map fun results =>
    opcuaResponseHeader 634 (env.ticks 0) opcuaStatusGood ++ opcuaWriteResults nodeCount results)

/-- `WriteRequest` -/
def opcuaWrite (env : OpcuaEnv ρ) (r : ρ) (s : OpcuaServer ρ β) :
    Scan (OpcuaServer ρ β × List (BitVec 8)) := do
  Scan.skip 24
  let nodeCount ← readU32
  let (s, results) ← opcuaLoop (opcuaWriteItem env r) (opcuaIterations nodeCount) 0 s
  pure (s, opcuaResponseHeader 676 (env.ticks 0) opcuaStatusGood ++
    opcuaWriteResults nodeCount (results.map writeU32))

/-- The switch on the type id, for what follows the sequence header. -/
def opcuaService (env : OpcuaEnv ρ) (mem : Regions ρ) (r : ρ) (channelId : BitVec 32)
    (typeId : BitVec 16) (s : OpcuaServer ρ β) :
    Scan (OpcuaServer ρ β × Option (List (BitVec 8))) :=
  if typeId = 428 then pure (s, some (opcuaGetEndpoints env))
  else if typeId = 461 then
    let (s, body) := opcuaCreateSession env channelId s
    pure (s, some body)
  else if typeId = 467 then pure (s, some (opcuaActivateSession env))
  else if typeId = 631 then opcuaRead env mem r s
  else if typeId = 673 then do
    let (s, body) ← opcuaWrite env r s
    pure (s, some body)
  else pure (s, some (opcuaResponseHeader 397 (env.ticks 0) opcuaStatusBad))

/-! ## Messages

The payload of a response is what `opcua_build_message` is called with. -/

/-- `opcua_handle_hello` -/
def opcuaHandleHello : List (BitVec 8) :=
  writeU32 0 ++ writeU32 65536 ++ writeU32 65536 ++ writeU32 0 ++ writeU32 0

/-- `opcua_handle_open_channel` -/
def opcuaHandleOpenChannel (env : OpcuaEnv ρ) (s : OpcuaServer ρ β) :
    Scan (OpcuaServer ρ β × List (BitVec 8)) := do
  let _reqType ← readU32
  let _secMode ← readU32
  let body := writeU32 s.channelId ++ opcuaWriteText opcuaPolicy 47 ++ writeU32 0xFFFFFFFF ++
    writeU32 0xFFFFFFFF ++ writeU32 s.sequenceNum ++ writeU32 s.requestId ++
    opcuaResponseHeader 449 (env.ticks 0) opcuaStatusGood ++
    writeU32 0 ++ writeU32 s.channelId ++ writeU32 1 ++ opcuaTimestamp (env.ticks 1) ++
    writeU32 3600000 ++ writeU32 0xFFFFFFFF
  pure ({ s with sequenceNum := s.sequenceNum + 1, requestId := s.requestId + 1 }, body)

/-- `opcua_handle_service` -/
def opcuaHandleService (env : OpcuaEnv ρ) (mem : Regions ρ) (r : ρ) (s : OpcuaServer ρ β) :
    Scan (OpcuaServer ρ β × Option (List (BitVec 8))) := do
  let channelId ← readU32
  let tokenId ← readU32
  let _seqNum ← readU32
  let reqId ← readU32
  let _encoding ← readU8
  let _ns ← readU8
  let typeId ← readU16
  let head := writeU32 channelId ++ writeU32 tokenId ++ writeU32 s.sequenceNum ++ writeU32 reqId
  let (s, body) ← opcuaService env mem r channelId typeId
    { s with sequenceNum := s.sequenceNum + 1 }
  pure (s, body.map (head ++ ·))

/-- What a message makes the server do: respond with a message of the given type
    and payload, close the connection, or nothing. -/
inductive OpcuaAction (ρ β : Type) where
  | respond (server : OpcuaServer ρ β) (type : List (BitVec 8)) (payload : Option (List (BitVec 8)))
  | close
  | ignore

/-- The choice of the handler. -/
def opcuaDispatch (env : OpcuaEnv ρ) (mem : Regions ρ) (r : ρ) (s : OpcuaServer ρ β) :
    Scan (OpcuaAction ρ β) := do
  let type ← Scan.take 3
  if type = opcuaMsgHel then pure (.respond s opcuaMsgAck (some opcuaHandleHello))
  else if type = opcuaMsgOpn then do
    Scan.skip 9
    let (s, payload) ← opcuaHandleOpenChannel env s
    pure (.respond s opcuaMsgOpn (some payload))
  else if type = opcuaMsgMsg then do
    Scan.skip 5
    let (s, payload) ← opcuaHandleService env mem r s
    pure (.respond s opcuaMsgMsg payload)
  else if type = opcuaMsgClo then pure .close
  else pure .ignore

end

/-! ## The server -/

/-- The regions that pointers point into: the buffers of the pool, and the
    memory of the application. -/
inductive OpcuaRegion (α : Type) where
  | zbuf (zb : α)
  | app
  deriving DecidableEq

/-- The server, the pool of buffers and the application's memory. -/
structure OpcuaState (α β : Type) where
  server : OpcuaServer (OpcuaRegion α) β
  pool : ZbufPool α
  app : ℕ → BitVec 8
  appSize : ℕ

variable {α : Type}

/-- The memory of a pool and of the application. -/
def opcuaMemory (pool : ZbufPool α) (app : ℕ → BitVec 8) (appSize : ℕ) :
    Regions (OpcuaRegion α) where
  byte
    | .zbuf zb => (pool.zb zb).space.byte
    | .app => app
  size
    | .zbuf _ => zbufEnd
    | .app => appSize

def OpcuaState.memory (s : OpcuaState α β) : Regions (OpcuaRegion α) :=
  opcuaMemory s.pool s.app s.appSize

section
variable [DecidableEq α] [DecidableEq β]

/-- `opcua_build_message` -/
def opcuaBuildMessage (pool : ZbufPool α) (type payload : List (BitVec 8)) :
    Option (ZbufPool α × Option α) :=
  let msgLen : BitVec 32 := BitVec.ofNat 32 (8 + payload.length)
  match zbufAllocTx pool (msgLen.setWidth 16) with
  | (pool, none) => some (pool, none)
  | (pool, some zb) => do
    let (z, buf) ← zbufPut (pool.zb zb) (msgLen.setWidth 16)
    let z := { z with space := z.space.putBytes buf (type ++ [0x46] ++ writeU32 msgLen ++ payload) }
    some ({ pool with zb := Function.update pool.zb zb z }, some zb)

/-- What handling one received buffer leaves: the state, the message that is
    sent, and whether the loop goes on. -/
structure OpcuaServed (α β : Type) where
  state : OpcuaState α β
  reply : Option (List (BitVec 8))
  goOn : Bool

/-- The size of the response buffers of the handlers of services. -/
def opcuaRespSize : ℕ := 1024

/-- The body of the loop of `opcua_server_poll`, for the received buffer `zb`. -/
def opcuaServe (port : Port) (env : OpcuaEnv (OpcuaRegion α)) (s : OpcuaState α β) (zb : α) :
    Option (OpcuaServed α β) :=
  let free (s : OpcuaState α β) : OpcuaState α β :=
    { s with pool := zbufFree port s.pool (some zb) }
  let z := s.pool.zb zb
  if z.len.toNat < 8 then some ⟨free s, none, false⟩
  else match (opcuaDispatch env s.memory (.zbuf zb) s.server z.space.byte (Cursor.start z.data)).1 with
    | .close => some ⟨free s, none, false⟩
    | .ignore => some ⟨free s, none, true⟩
    | .respond server type payload => do
      let payload ← payload
      if opcuaRespSize < payload.length then none
      else do
        let (pool, resp) ← opcuaBuildMessage s.pool type payload
        let s := free { s with server := server, pool := pool }
        let reply := resp.map fun resp =>
          (s.pool.zb resp).space.read (s.pool.zb resp).data (s.pool.zb resp).len.toNat
        some ⟨s, reply, true⟩

/-- What `sock_recv_zbuf` returns: the pool as the rest of the system left it,
    the buffer, and what its handler finds. -/
structure OpcuaArrival (α : Type) where
  pool : ZbufPool α
  zb : α
  env : OpcuaEnv (OpcuaRegion α)

/-- An iteration of the loop. -/
def opcuaReceive (port : Port) (s : OpcuaState α β) (a : OpcuaArrival α) :
    Option (OpcuaServed α β) := opcuaServe port a.env { s with pool := a.pool } a.zb

/-- The loop of `opcua_server_poll`, and the messages that it sends.  When there
    are no more buffers, `sock_recv_zbuf` returns null. -/
def opcuaPollLoop (port : Port) : OpcuaState α β → List (OpcuaArrival α) →
    Option (OpcuaState α β × List (List (BitVec 8)))
  | s, [] => some (s, [])
  | s, a :: rest => do
    let served ← opcuaReceive port s a
    if served.goOn then do
      let (s, replies) ← opcuaPollLoop port served.state rest
      some (s, served.reply.toList ++ replies)
    else some (served.state, served.reply.toList)

/-- `opcua_server_poll`, where `accepted` is the success of `sock_accept`. -/
def opcuaServerPoll (port : Port) (s : OpcuaState α β) (accepted : Bool)
    (arrivals : List (OpcuaArrival α)) : Option (OpcuaState α β × List (List (BitVec 8))) :=
  if s.server.running && accepted then opcuaPollLoop port s arrivals else some (s, [])

end

end Gracemont
