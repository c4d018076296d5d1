/-
  Gracemont networking — the state of the TCP/IP stack and its transmit path
  (`include/net_stack.h`, `net/stack/net_core.c`; the same files in both ports).

  A `zbuf_t *` is an element of `α`, a `socket_t *` one of `σ`.  A function runs
  under the locks that the source takes, which are left out, as are the
  statistics of an interface and the fields that no function reads.  The
  semaphores of a socket count the posts that no wait has taken.  What is done
  with buffers goes into a log, which no function reads.

  * `Socket`, `NetStack`: the data; `NetEvent`: the log;
  * `ethOutput`, `arpResolve`, `ipOutput`, `udpOutput`: the transmit path.
-/
import Gracemont.Net.Checksum
import Gracemont.Net.ZbufQueue

namespace Gracemont

/-! ## Data -/

/-- `CONFIG_NET_MAX_SOCKETS` -/
def configNetMaxSockets : ℕ := 64

/-- `CONFIG_TCP_WINDOW_SIZE` -/
def configTcpWindowSize : BitVec 32 := 65535

/-- `ARP_CACHE_SIZE` -/
def arpCacheSize : ℕ := 64

def ethTypeIp : BitVec 16 := 0x0800
def ethTypeArp : BitVec 16 := 0x0806
def ethTypePnio : BitVec 16 := 0x8892

def arpOpRequest : BitVec 16 := 1
def arpOpReply : BitVec 16 := 2

/-- `sizeof(arp_hdr_t)`, `sizeof(ip_hdr_t)`, `sizeof(icmp_hdr_t)` and
    `UDP_HDR_LEN` -/
def arpHdrLen : ℕ := 28
def ipHdrLen : ℕ := 20
def icmpHdrLen : ℕ := 8
def udpHdrLen : ℕ := 8

/-- `IP4_ADDR_BROADCAST` -/
def ip4AddrBroadcast : BitVec 32 := 0xFFFFFFFF

def sockStream : ℤ := 1
def sockDgram : ℤ := 2

/-- `netif_t` with its IP configuration. -/
structure IpNetif (α : Type) extends Netif α where
  ip : BitVec 32
  netmask : BitVec 32
  gateway : BitVec 32

/-- `sockaddr_t` -/
structure Sockaddr where
  addr : BitVec 32
  port : BitVec 16
  deriving DecidableEq, Repr

/-- `tcp_state_t` -/
inductive TcpState where
  | closed | listen | synSent | synReceived | established | finWait1 | finWait2 | closeWait
  | closing | lastAck | timeWait
  deriving DecidableEq, Repr

/-- `socket_t`; `localAddr` and `remoteAddr` are its `local` and `remote`. -/
structure Socket (α σ : Type) where
  fd : ℤ
  type : ℤ
  state : TcpState
  localAddr : Sockaddr
  remoteAddr : Sockaddr
  sndUna : BitVec 32
  sndNxt : BitVec 32
  rcvNxt : BitVec 32
  rcvWnd : BitVec 32
  rxQueue : ZbufQueue α
  txQueue : ZbufQueue α
  rxSem : ℕ
  txSem : ℕ
  next : Option σ

/-- `arp_entry_t` -/
structure ArpEntry where
  ip : BitVec 32
  mac : Fin 6 → BitVec 8
  valid : Bool

/-- `tcp_rto_t` -/
structure TcpRto where
  rto : BitVec 32
  lastTxTime : BitVec 32
  retries : BitVec 8
  timerActive : Bool

/-- What was done with a buffer: `zbuf_alloc_tx` returned it, `zbuf_free` was
    called, the driver got it as `z`, or it was put as `z` on the receive queue
    of a socket. -/
inductive NetEvent (α σ : Type) where
  | allocated (zb : α)
  | freed (zb : α)
  | sent (zb : α) (z : Zbuf α)
  | queued (sock : σ) (zb : α) (z : Zbuf α)

/-- The port, and `netif_default`. -/
structure NetConfig (α : Type) where
  port : Port
  netifDefault : Option (IpNetif α)

/-- The variables of the stack; `live` tells the sockets that are allocated.
    `tcp_rto` and `socket_table` are indexed by an `int`. -/
structure NetStack (α σ : Type) where
  pool : ZbufPool α
  sock : Lib.Store σ (Socket α σ)
  live : σ → Bool
  socketTable : ℤ → Option σ
  nextFd : ℤ
  tcpListenList : Option σ
  tcpConnList : Option σ
  tcpRto : ℤ → TcpRto
  arpCache : List ArpEntry
  ipId : BitVec 16
  ticks : BitVec 32
  log : List (NetEvent α σ)

variable {α σ : Type}

namespace NetStack
variable [DecidableEq α] (s : NetStack α σ)

/-- Assignments to a buffer. -/
def setBuf (zb : α) (z : Zbuf α) : NetStack α σ :=
  { s with pool := { s.pool with zb := Function.update s.pool.zb zb z } }

@[simp] theorem setBuf_zb_self (zb : α) (z : Zbuf α) : (s.setBuf zb z).pool.zb zb = z :=
  Function.update_self ..

/-- `zbuf_pull`, whose result no caller here looks at. -/
def pull (zb : α) (len : BitVec 16) : NetStack α σ :=
  match zbufPull (s.pool.zb zb) len with
  | some (z, _) => s.setBuf zb z
  | none => s

/-- `zbuf_free` -/
def free (cfg : NetConfig α) (zb : α) : NetStack α σ :=
  { s with pool := zbufFree cfg.port s.pool (some zb), log := s.log ++ [.freed zb] }

/-- `zbuf_alloc_tx` -/
def allocTx (size : BitVec 16) : NetStack α σ × Option α :=
  ({ s with
      pool := (zbufAllocTx s.pool size).1
      log := s.log ++ ((zbufAllocTx s.pool size).2.map .allocated).toList },
    (zbufAllocTx s.pool size).2)

/-- `nif->send` -/
def send (nif : IpNetif α) (zb : α) : NetStack α σ × Status :=
  ({ s with pool := (nif.send s.pool zb).1, log := s.log ++ [.sent zb (s.pool.zb zb)] },
    (nif.send s.pool zb).2)

/-- Assignments to fields of a socket. -/
def modify [DecidableEq σ] (x : σ) (f : Socket α σ → Socket α σ) : NetStack α σ :=
  { s with sock := s.sock.modify x f }

omit [DecidableEq α] in
theorem modify_modify [DecidableEq σ] (x : σ) (f g : Socket α σ → Socket α σ) :
    (s.modify x f).modify x g = s.modify x fun k => g (f k) := by
  simp [modify]

omit [DecidableEq α] in
theorem modify_id [DecidableEq σ] (x : σ) {f : Socket α σ → Socket α σ}
    (h : f (s.sock x) = s.sock x) : s.modify x f = s := by
  simp [modify, Lib.Store.modify, h]

end NetStack

/-! ## Headers -/

/-- The fields of an `arp_hdr_t`, in order. -/
def arpHdr (oper : BitVec 16) (sha : Fin 6 → BitVec 8) (spa : BitVec 32) (tha : Fin 6 → BitVec 8)
    (tpa : BitVec 32) : List (BitVec 8) :=
  be16Bytes 1 ++ be16Bytes ethTypeIp ++ [6, 4] ++ be16Bytes oper ++ List.ofFn sha ++
    be32Bytes spa ++ List.ofFn tha ++ be32Bytes tpa

/-- The stores into the `ip_hdr_t` at `ip`.  The checksum is stored as the
    processor stores it, the low byte first. -/
def putIpHdr (m : Lib.ByteMem) (ip : ℕ) (len id : BitVec 16) (proto : BitVec 8)
    (src dst : BitVec 32) : Lib.ByteMem :=
  let m := m.putBytes ip ([0x45, 0] ++ be16Bytes len ++ be16Bytes id ++ [0, 0] ++ [64, proto] ++
    [0, 0] ++ be32Bytes src ++ be32Bytes dst)
  let checksum := inetChecksum m.byte ip ipHdrLen
  (m.set (ip + 10) (loByte checksum)).set (ip + 11) (hiByte checksum)

/-- The fields of a `udp_hdr_t`, in order. -/
def udpHdr (sport dport len : BitVec 16) : List (BitVec 8) :=
  be16Bytes sport ++ be16Bytes dport ++ be16Bytes len ++ [0, 0]

/-- A hardware address at `i`. -/
def macAt (b : ℕ → BitVec 8) (i : ℕ) : Fin 6 → BitVec 8 := fun j => b (i + j)

/-- All bytes `0xFF` -/
def macBroadcast : Fin 6 → BitVec 8 := fun _ => 0xFF

/-! ## Transmit path -/

section
variable [DecidableEq α] (cfg : NetConfig α)

/-- `eth_output` -/
def ethOutput (nif : IpNetif α) (s : NetStack α σ) (zb : α) (dstMac : Fin 6 → BitVec 8)
    (type : BitVec 16) : NetStack α σ × Status :=
  match zbufPush (s.pool.zb zb) ethHdrLen with
  | none => (s.free cfg zb, .noMem)
  | some (z, eth) =>
    let z := { z with
      space := putEthHdr z.space eth dstMac nif.mac type, l2Offset := 0, protocol := type }
    (s.setBuf zb z).send nif zb

/-- The valid entry of the cache for an address. -/
def arpFind (ip : BitVec 32) (cache : List ArpEntry) : Option ArpEntry :=
  cache.find? fun e => e.valid ∧ e.ip = ip

/-- `arp_resolve`: the status, and the hardware address if it is `STATUS_OK`. -/
def arpResolve (s : NetStack α σ) (ip : BitVec 32) :
    NetStack α σ × Status × (Fin 6 → BitVec 8) :=
  match arpFind ip s.arpCache with
  | some e => (s, .ok, e.mac)
  | none =>
    match cfg.netifDefault with
    | none => (s, .error, fun _ => 0)
    | some nif =>
      match s.allocTx arpHdrLen with
      | (s, none) => (s, .noMem, fun _ => 0)
      | (s, some zb) =>
        let arp := arpHdr arpOpRequest nif.mac nif.ip macBroadcast ip
        let s := s.setBuf zb ((s.pool.zb zb).append arpHdrLen arp)
        ((ethOutput cfg nif s zb macBroadcast ethTypeArp).1, .wouldBlock, fun _ => 0)

/-- The next hop of a packet to `dst`. -/
def nextHop (nif : IpNetif α) (dst : BitVec 32) : BitVec 32 :=
  if dst &&& nif.netmask ≠ nif.ip &&& nif.netmask then nif.gateway else dst

/-- `dst` is a broadcast address. -/
def isBroadcast (nif : IpNetif α) (dst : BitVec 32) : Bool :=
  dst = ip4AddrBroadcast ∨ dst &&& ~~~ nif.netmask = ~~~ nif.netmask

/-- `ip_output` -/
def ipOutput (s : NetStack α σ) (zb : α) (src dst : BitVec 32) (proto : BitVec 8) :
    NetStack α σ × Status :=
  match cfg.netifDefault with
  | none => (s.free cfg zb, .error)
  | some nif =>
    let src := if src = 0 then nif.ip else src
    match zbufPush (s.pool.zb zb) ipHdrLen with
    | none => (s.free cfg zb, .noMem)
    | some (z, ip) =>
      let z := { z with space := putIpHdr z.space ip z.len s.ipId proto src dst }
      let s := { s.setBuf zb z with ipId := s.ipId + 1 }
      if isBroadcast nif dst then ethOutput cfg nif s zb macBroadcast ethTypeIp
      else
        match arpResolve cfg s (nextHop nif dst) with
        | (s, .ok, dstMac) => ethOutput cfg nif s zb dstMac ethTypeIp
        | (s, ret, _) => (s.free cfg zb, ret)

/-- `udp_output` -/
def udpOutput (s : NetStack α σ) (zb : α) (src dst : Sockaddr) : NetStack α σ × Status :=
  match zbufPush (s.pool.zb zb) udpHdrLen with
  | none => (s.free cfg zb, .noMem)
  | some (z, udp) =>
    let z := { z with space := z.space.putBytes udp (udpHdr src.port dst.port z.len) }
    ipOutput cfg (s.setBuf zb z) zb src.addr dst.addr ipProtoUdp

end

/-! ## A small stack -/

/-- A buffer with the bytes `bytes` at `data`. -/
def demoFrame (data : ℕ) (bytes : List (BitVec 8)) : Zbuf (Fin 2) :=
  { demoZbuf with
    data := data, tail := data + bytes.length, len := BitVec.ofNat 16 bytes.length
    size := configZbufSize, refcount := 1, space := demoZbuf.space.putBytes data bytes }

/-- A stream socket on port 80 that is in no list. -/
def demoSocket : Socket (Fin 2) (Fin 2) where
  fd := 0
  type := sockStream
  state := .closed
  localAddr := ⟨0, 80⟩
  remoteAddr := ⟨0, 0⟩
  sndUna := 0
  sndNxt := 0
  rcvNxt := 0
  rcvWnd := configTcpWindowSize
  rxQueue := zbufQueueInit
  txQueue := zbufQueueInit
  rxSem := 0
  txSem := 0
  next := none

/-- A stack of two buffers and two sockets, with nothing in its lists. -/
def demoStack : NetStack (Fin 2) (Fin 2) where
  pool := ⟨fun _ => demoZbuf, none, 2, 0, 0⟩
  sock := fun _ => demoSocket
  live := fun _ => false
  socketTable := fun _ => none
  nextFd := 0
  tcpListenList := none
  tcpConnList := none
  tcpRto := fun _ => ⟨0, 0, 0, false⟩
  arpCache := []
  ipId := 0
  ticks := 0
  log := []

/-- An interface whose driver accepts everything. -/
def demoNif : IpNetif (Fin 2) where
  mac := fun _ => 2
  send := fun pool _ => (pool, .ok)
  ip := 0x0A000001
  netmask := 0xFFFFFF00
  gateway := 0x0A0000FE

def demoNet : NetConfig (Fin 2) := ⟨.arm64, some demoNif⟩

end Gracemont
