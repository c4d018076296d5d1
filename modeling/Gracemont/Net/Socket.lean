/-
  Gracemont networking — the socket API and the TCP timer (`net/stack/tcp.c`,
  the same file in both ports; `tick_t` has the 32 bits of the ARM64 port).

  A call that waits on a semaphore is cut there: the function up to the wait
  returns the socket that it waits on, and the one named `…Resume` is the rest,
  with `none` as long as there is nothing to take from the semaphore.

  * `sockSocket`, `sockBind`, `sockListen`, `sockAccept`, `sockConnect`,
    `sockClose`: connections;
  * `sockSend`, `sockSendZbuf`, `sockSendto`, `sockRecv`, `sockRecvZbuf`,
    `sockRecvfrom`: data;
  * `tcpTimer`.
-/
import Gracemont.Net.Tcp

namespace Gracemont

variable {α σ : Type} [DecidableEq α] [DecidableEq σ]

/-! ## Descriptors -/

/-- `fd % CONFIG_NET_MAX_SOCKETS` -/
def fdSlot (fd : ℤ) : ℤ := fd.tmod configNetMaxSockets

/-- A number in an `int` -/
def toInt32 (n : ℤ) : ℤ := n.bmod (2 ^ 32)

namespace NetStack

/-- `socket_table[fd % CONFIG_NET_MAX_SOCKETS]` -/
def lookup (s : NetStack α σ) (fd : ℤ) : Option σ := s.socketTable (fdSlot fd)

/-- An assignment to that entry. -/
def setSlot (s : NetStack α σ) (fd : ℤ) (sock : Option σ) : NetStack α σ :=
  { s with socketTable := Function.update s.socketTable (fdSlot fd) sock }

/-- `sem_wait` on `rx_sem` and on `tx_sem`, when it returns. -/
def waitRx (s : NetStack α σ) (sock : σ) : Option (NetStack α σ) :=
  if (s.sock sock).rxSem = 0 then none
  else some (s.modify sock fun k => { k with rxSem := k.rxSem - 1 })
def waitTx (s : NetStack α σ) (sock : σ) : Option (NetStack α σ) :=
  if (s.sock sock).txSem = 0 then none
  else some (s.modify sock fun k => { k with txSem := k.txSem - 1 })

end NetStack

/-! ## Connections -/

/-- The fields that `sock_socket` assigns. -/
def Socket.init (k : Socket α σ) (type : ℤ) : Socket α σ :=
  { k with
    type := type, state := .closed, localAddr := ⟨0, 0⟩, remoteAddr := ⟨0, 0⟩, sndUna := 0
    sndNxt := 0, rcvNxt := 0, rcvWnd := configTcpWindowSize, rxQueue := zbufQueueInit
    txQueue := zbufQueueInit, rxSem := 0, txSem := 0 }

/-- `sock_socket`, where `heap_alloc` returns `mem`. -/
def sockSocket (s : NetStack α σ) (type : ℤ) (mem : Option σ) : NetStack α σ × ℤ :=
  match mem with
  | none => (s, -1)
  | some sock =>
    let s := { s with live := Function.update s.live sock true }
    let s := s.modify sock fun k => k.init type
    let fd := s.nextFd
    let s := { s with nextFd := toInt32 (fd + 1) }
    let s := s.modify sock fun k => { k with fd := fd }
    (s.setSlot fd (some sock), fd)

/-- `sock_bind` -/
def sockBind (s : NetStack α σ) (fd : ℤ) (addr : Sockaddr) : NetStack α σ × ℤ :=
  match s.lookup fd with
  | none => (s, -1)
  | some sock => (s.modify sock fun k => { k with localAddr := addr }, 0)

/-- `sock_listen` -/
def sockListen (s : NetStack α σ) (fd : ℤ) : NetStack α σ × ℤ :=
  match s.lookup fd with
  | none => (s, -1)
  | some sock =>
    if (s.sock sock).type ≠ sockStream then (s, -1)
    else
      let s := s.modify sock fun k => { k with state := .listen }
      let s := s.modify sock fun k => { k with next := s.tcpListenList }
      ({ s with tcpListenList := some sock }, 0)

/-- `sock_accept`, up to its wait: the socket, or none if it returns -1. -/
def sockAccept (s : NetStack α σ) (fd : ℤ) : Option σ :=
  match s.lookup fd with
  | none => none
  | some sock => if (s.sock sock).state ≠ .listen then none else some sock

/-- `sock_accept` after its wait: the address of the peer.  It returns its own
    argument as the descriptor of the connection. -/
def sockAcceptResume (s : NetStack α σ) (sock : σ) : Option (NetStack α σ × Sockaddr) := do
  let s ← s.waitRx sock
  some (s, (s.sock sock).remoteAddr)

/-- The local address that `sock_connect` gives to a socket that has none. -/
def connectAddr (cfg : NetConfig α) (s : NetStack α σ) (addr : Sockaddr) : Sockaddr where
  port := if addr.port = 0 then 49152 + (s.ticks % 16384).setWidth 16 else addr.port
  addr := if addr.addr = 0 then (cfg.netifDefault.map IpNetif.ip).getD 0 else addr.addr

/-- `sock_connect`, up to its wait: the socket, or none if it returns -1. -/
def sockConnect (cfg : NetConfig α) (s : NetStack α σ) (fd : ℤ) (addr : Sockaddr) :
    NetStack α σ × Option σ :=
  match s.lookup fd with
  | none => (s, none)
  | some sock =>
    let s := s.modify sock fun k => { k with
      remoteAddr := addr
      localAddr := connectAddr cfg s k.localAddr
      sndNxt := s.ticks
      sndUna := s.ticks
      state := .synSent }
    let s := (tcpSendSegment cfg s sock tcpFlagSyn none).1
    let s := s.modify sock fun k => { k with next := s.tcpConnList }
    ({ s with tcpConnList := some sock }, some sock)

/-- `sock_connect` after its wait. -/
def sockConnectResume (s : NetStack α σ) (sock : σ) : Option (NetStack α σ × ℤ) := do
  let s ← s.waitTx sock
  some (s, if (s.sock sock).state = .established then 0 else -1)

/-- The loop of `zbuf_queue_flush`; the queue is a field of a socket. -/
def flushBody (cfg : NetConfig α) (sq : NetStack α σ × ZbufQueue α) :
    (NetStack α σ × ZbufQueue α) ⊕ (NetStack α σ × ZbufQueue α) :=
  match zbufQueuePop sq.1.pool.zb sq.2 with
  | (_, _, none) => .inr sq
  | (m, q, some zb) =>
    let s := { sq.1 with pool := { sq.1.pool with zb := m } }
    .inl (s.free cfg zb, q)

/-- `sock_close` -/
def sockClose (cfg : NetConfig α) (fuel : ℕ) (s : NetStack α σ) (fd : ℤ) :
    Option (NetStack α σ × ℤ) :=
  match s.lookup fd with
  | none => some (s, -1)
  | some sock => do
    let s :=
      if (s.sock sock).type = sockStream ∧ (s.sock sock).state = .established then
        let s := s.modify sock fun k => { k with state := .finWait1 }
        (tcpSendSegment cfg s sock (tcpFlagFin ||| tcpFlagAck) none).1
      else s
    let (s, q) ← Lib.Loop.run (flushBody cfg) fuel (s, (s.sock sock).rxQueue)
    let s := s.modify sock fun k => { k with rxQueue := q }
    let (s, q) ← Lib.Loop.run (flushBody cfg) fuel (s, (s.sock sock).txQueue)
    let s := s.modify sock fun k => { k with txQueue := q }
    let s := s.setSlot fd none
    some ({ s with live := Function.update s.live sock false }, 0)

/-! ## Data -/

/-- `(ret == STATUS_OK) ? n : -1` -/
def okOr (n : ℤ) : NetStack α σ × Status → NetStack α σ × ℤ
  | (s, .ok) => (s, n)
  | (s, _) => (s, -1)

section
variable (cfg : NetConfig α) (s : NetStack α σ) (fd : ℤ)

/-- `sock_send` of the bytes `data`; the buffer functions get their number in
    16 bits. -/
def sockSend (data : List (BitVec 8)) : NetStack α σ × ℤ :=
  match s.lookup fd with
  | none => (s, -1)
  | some sock =>
    match s.allocTx (BitVec.ofNat 16 data.length) with
    | (s, none) => (s, -1)
    | (s, some zb) =>
      let s := s.setBuf zb ((s.pool.zb zb).append (BitVec.ofNat 16 data.length) data)
      okOr (toInt32 data.length) (tcpOutput cfg s sock zb)

/-- `sock_send_zbuf` -/
def sockSendZbuf (zb : α) : NetStack α σ × ℤ :=
  match s.lookup fd with
  | none => (s.free cfg zb, -1)
  | some sock => okOr 0 (tcpOutput cfg s sock zb)

/-- `sock_sendto` -/
def sockSendto (data : List (BitVec 8)) (dst : Sockaddr) : NetStack α σ × ℤ :=
  match s.lookup fd with
  | none => (s, -1)
  | some sock =>
    if (s.sock sock).type ≠ sockDgram then (s, -1)
    else
      match s.allocTx (BitVec.ofNat 16 data.length) with
      | (s, none) => (s, -1)
      | (s, some zb) =>
        let s := s.setBuf zb ((s.pool.zb zb).append (BitVec.ofNat 16 data.length) data)
        okOr (toInt32 data.length) (udpOutput cfg s zb (s.sock sock).localAddr dst)

end

section
variable (cfg : NetConfig α) (s : NetStack α σ) (sock : σ)

/-- `zbuf_queue_pop` of the receive queue of a socket. -/
def popRx : NetStack α σ × Option α :=
  match zbufQueuePop s.pool.zb (s.sock sock).rxQueue with
  | (m, q, zb) =>
    let s := { s with pool := { s.pool with zb := m } }
    (s.modify sock fun k => { k with rxQueue := q }, zb)

/-- The bytes of a received buffer that fit into `len`, and its release. -/
def copyOut (zb : α) (len : ℕ) : NetStack α σ × List (BitVec 8) :=
  let z := s.pool.zb zb
  (s.free cfg zb, z.space.read z.data (min z.len.toNat len))

/-- `sock_recv` after its wait: what it returns, and the bytes it copies. -/
def sockRecvResume (len : ℕ) : Option (NetStack α σ × ℤ × List (BitVec 8)) := do
  let s ← s.waitRx sock
  match popRx s sock with
  | (s, none) => some (s, if (s.sock sock).state ≠ .established then 0 else -1, [])
  | (s, some zb) =>
    let (s, data) := copyOut cfg s zb len
    some (s, data.length, data)

/-- `sock_recv_zbuf` after its wait. -/
def sockRecvZbufResume : Option (NetStack α σ × Option α) := do
  let s ← s.waitRx sock
  some (popRx s sock)

/-- `sock_recvfrom` after its wait: what it returns, and the source and the
    bytes it copies. -/
def sockRecvfromResume (len : ℕ) : Option (NetStack α σ × ℤ × Sockaddr × List (BitVec 8)) := do
  let s ← s.waitRx sock
  match popRx s sock with
  | (s, none) => some (s, -1, (s.sock sock).remoteAddr, [])
  | (s, some zb) =>
    let src := (s.sock sock).remoteAddr
    let (s, data) := copyOut cfg s zb len
    some (s, data.length, src, data)

end

/-- `sock_recv` and `sock_recv_zbuf`, up to their wait: the socket, or none if
    they return -1 or `NULL`. -/
def sockRecv (s : NetStack α σ) (fd : ℤ) : Option σ := s.lookup fd

/-- `sock_recvfrom`, up to its wait. -/
def sockRecvfrom (s : NetStack α σ) (fd : ℤ) : Option σ :=
  match s.lookup fd with
  | none => none
  | some sock => if (s.sock sock).type ≠ sockDgram then none else some sock

/-! ## Timer -/

/-- `MS_TO_TICKS`, with `CONFIG_TICK_RATE_HZ` 1000 -/
def msToTicks (ms : BitVec 32) : BitVec 32 := ms * 1000 / 1000

/-- `TCP_RTO_MAX` -/
def tcpRtoMax : BitVec 32 := 60000

/-- `TCP_TIME_WAIT_TIME` -/
def tcpTimeWaitTime : BitVec 32 := 2 * 30000

section
variable (cfg : NetConfig α) (s : NetStack α σ) (sock : σ)

/-- `tcp_rto[sock->fd % CONFIG_NET_MAX_SOCKETS]` -/
def rtoOf : TcpRto := s.tcpRto (fdSlot (s.sock sock).fd)

/-- A retry: the timeout doubles. -/
def rtoBackoff : NetStack α σ :=
  let r := rtoOf s sock
  let rto := if tcpRtoMax < r.rto * 2 then tcpRtoMax else r.rto * 2
  let r := { r with retries := r.retries + 1, rto := rto, lastTxTime := s.ticks }
  { s with tcpRto := Function.update s.tcpRto (fdSlot (s.sock sock).fd) r }

/-- The timer of the socket is running, and over. -/
def rtoExpired : Bool :=
  let r := rtoOf s sock
  r.timerActive ∧ msToTicks r.rto ≤ s.ticks - r.lastTxTime

/-- `sock->snd_nxt = sock->snd_una`, and a segment. -/
def resend (flags : BitVec 8) (data : Option α) : NetStack α σ :=
  (tcpSendSegment cfg (s.modify sock fun k => { k with sndNxt := k.sndUna }) sock flags data).1

/-- `TCP_TIME_WAIT` -/
def timerTimeWait : NetStack α σ :=
  if (s.sock sock).state = .timeWait ∧
      msToTicks tcpTimeWaitTime ≤ s.ticks - (rtoOf s sock).lastTxTime then
    s.modify sock fun k => { k with state := .closed }
  else s

/-- `TCP_SYN_SENT` and `TCP_SYN_RECEIVED` -/
def timerSyn : NetStack α σ :=
  if ((s.sock sock).state = .synSent ∨ (s.sock sock).state = .synReceived) ∧
      rtoExpired s sock then
    if (rtoOf s sock).retries < 5 then
      let s := rtoBackoff s sock
      if (s.sock sock).state = .synSent then resend cfg s sock tcpFlagSyn none
      else resend cfg s sock (tcpFlagSyn ||| tcpFlagAck) none
    else postTx (s.modify sock fun k => { k with state := .closed }) sock
  else s

/-- `TCP_ESTABLISHED` -/
def timerEstablished : NetStack α σ :=
  if (s.sock sock).state = .established ∧ (s.sock sock).sndUna < (s.sock sock).sndNxt ∧
      rtoExpired s sock then
    if (rtoOf s sock).retries < 10 then
      let s := rtoBackoff s sock
      match zbufQueuePeek (s.sock sock).txQueue with
      | none => s
      | some zb =>
        let s := { s with pool := zbufRef cfg.port s.pool (some zb) }
        resend cfg s sock (tcpFlagAck ||| tcpFlagPsh) (some zb)
    else postRx (s.modify sock fun k => { k with state := .closed }) sock
  else s

/-- `TCP_FIN_WAIT_1` and `TCP_LAST_ACK` -/
def timerFin : NetStack α σ :=
  if ((s.sock sock).state = .finWait1 ∨ (s.sock sock).state = .lastAck) ∧
      rtoExpired s sock then
    if (rtoOf s sock).retries < 5 then
      resend cfg (rtoBackoff s sock) sock (tcpFlagFin ||| tcpFlagAck) none
    else s.modify sock fun k => { k with state := .closed }
  else s

end

/-- The body of the loop of `tcp_timer`, which reads `next` first. -/
def timerBody (cfg : NetConfig α) (cur : NetStack α σ × Option σ) :
    (NetStack α σ × Option σ) ⊕ NetStack α σ :=
  match cur with
  | (s, none) => .inr s
  | (s, some sock) =>
    let next := (s.sock sock).next
    let s := timerTimeWait s sock
    let s := timerSyn cfg s sock
    let s := timerEstablished cfg s sock
    .inl (timerFin cfg s sock, next)

/-- `tcp_timer` -/
def tcpTimer (cfg : NetConfig α) (fuel : ℕ) (s : NetStack α σ) : Option (NetStack α σ) :=
  Lib.Loop.run (timerBody cfg) fuel (s, s.tcpConnList)

end Gracemont
