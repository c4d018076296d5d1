/-
  Gracemont networking — the receive path (`net/stack/net_core.c`, the same
  file in both ports).

  The handlers of layer 4 read the IP header in the 20 bytes in front of their
  data, where it is if it has no options; drivers put a frame at some distance
  from the head of the buffer, so these bytes are in its space.

  * `arpInput`, `icmpInput`, `udpInput`, `ipInput`, `netifInput`.
-/
import Gracemont.Net.Tcp

namespace Gracemont

variable {α σ : Type} [DecidableEq α] (cfg : NetConfig α)

/-! ## ARP -/

/-- The entry that `arp_input` makes, in the first place that is not valid. -/
def arpInsert (e : ArpEntry) : List ArpEntry → List ArpEntry
  | [] => []
  | e' :: cache => if e'.valid then e' :: arpInsert e cache else e :: cache

/-- The reply to an ARP request. -/
def arpReply (nif : IpNetif α) (s : NetStack α σ) (sha : Fin 6 → BitVec 8) (spa : BitVec 32) :
    NetStack α σ :=
  match s.allocTx arpHdrLen with
  | (s, none) => s
  | (s, some reply) =>
    let hdr := arpHdr arpOpReply nif.mac nif.ip sha spa
    let s := s.setBuf reply ((s.pool.zb reply).append arpHdrLen hdr)
    (ethOutput cfg nif s reply sha ethTypeArp).1

/-- `arp_input` -/
def arpInput (nif : IpNetif α) (s : NetStack α σ) (zb : α) : NetStack α σ :=
  let z := s.pool.zb zb
  let b := z.space.byte
  let arp := z.data
  if z.len.toNat < arpHdrLen then s.free cfg zb
  else if be16 b arp ≠ 1 ∨ be16 b (arp + 2) ≠ ethTypeIp then s.free cfg zb
  else
    let sha := macAt b (arp + 8)
    let spa := be32 b (arp + 14)
    let tpa := be32 b (arp + 24)
    let s := { s with arpCache := arpInsert ⟨spa, sha, true⟩ s.arpCache }
    let s := if be16 b (arp + 6) = arpOpRequest ∧ tpa = nif.ip then arpReply cfg nif s sha spa
      else s
    s.free cfg zb

/-! ## Layer 4 -/

/-- `ICMP_ECHO_REQUEST` and `ICMP_ECHO_REPLY` -/
def icmpEchoRequest : BitVec 8 := 8
def icmpEchoReply : BitVec 8 := 0

/-- The stores into the `icmp_hdr_t` at `icmp` of a reply of `len` bytes. -/
def putIcmpReply (m : Lib.ByteMem) (icmp len : ℕ) : Lib.ByteMem :=
  let m := m.set icmp icmpEchoReply
  let m := (m.set (icmp + 2) 0).set (icmp + 3) 0
  let checksum := inetChecksum m.byte icmp len
  (m.set (icmp + 2) (loByte checksum)).set (icmp + 3) (hiByte checksum)

/-- `icmp_input` -/
def icmpInput (s : NetStack α σ) (zb : α) : NetStack α σ :=
  let z := s.pool.zb zb
  if z.len.toNat < icmpHdrLen then s.free cfg zb
  else if z.space.byte z.data = icmpEchoRequest then
    let ip := z.data - ipHdrLen
    let src := be32 z.space.byte (ip + 12)
    let dst := be32 z.space.byte (ip + 16)
    let s := s.setBuf zb { z with space := putIcmpReply z.space z.data z.len.toNat }
    (ipOutput cfg s zb dst src ipProtoIcmp).1
  else s.free cfg zb

/-- The socket that the loop of `udp_input` finds. -/
def udpFindSocket (s : NetStack α σ) (dport : BitVec 16) : Option σ :=
  (List.range configNetMaxSockets).findSome? fun i =>
    (s.socketTable i).filter fun x =>
      (s.sock x).type = sockDgram ∧ (s.sock x).localAddr.port = dport

variable [DecidableEq σ]

/-- `udp_input` -/
def udpInput (s : NetStack α σ) (zb : α) : NetStack α σ :=
  let z := s.pool.zb zb
  let b := z.space.byte
  let udp := z.data
  if z.len.toNat < udpHdrLen then s.free cfg zb
  else
    let srcIp := be32 b (z.data - ipHdrLen + 12)
    let sport := be16 b udp
    let dport := be16 b (udp + 2)
    match udpFindSocket s dport with
    | none => s.free cfg zb
    | some sock =>
      let s := s.modify sock fun k => { k with remoteAddr := ⟨srcIp, sport⟩ }
      postRx (queueRx (s.pull zb udpHdrLen) sock zb) sock

/-! ## Lower layers -/

/-- The dispatch of `ip_input`. -/
def ipDispatch (fuel : ℕ) (s : NetStack α σ) (zb : α) (proto : BitVec 8) :
    Option (NetStack α σ) :=
  if proto = ipProtoIcmp then some (icmpInput cfg s zb)
  else if proto = ipProtoUdp then some (udpInput cfg s zb)
  else if proto = ipProtoTcp then tcpInput cfg fuel s zb
  else some (s.free cfg zb)

/-- `ip_input` -/
def ipInput (fuel : ℕ) (nif : IpNetif α) (s : NetStack α σ) (zb : α) : Option (NetStack α σ) :=
  let z := s.pool.zb zb
  let b := z.space.byte
  let ip := z.data
  let ihl : BitVec 8 := (b ip &&& 0x0F#8) <<< 2
  let dst := be32 b (ip + 16)
  if z.len.toNat < ipHdrLen then some (s.free cfg zb)
  else if inetChecksum b ip ihl.toNat ≠ 0 then some (s.free cfg zb)
  else if dst ≠ nif.ip ∧ dst ≠ ip4AddrBroadcast then some (s.free cfg zb)
  else
    let s := s.setBuf zb { z with l4Offset := z.l3Offset + ihl.setWidth 16 }
    ipDispatch cfg fuel (s.pull zb (ihl.setWidth 16)) zb (b (ip + 9))

/-- `netif_input` -/
def netifInput (fuel : ℕ) (nif : IpNetif α) (s : NetStack α σ) (zb : α) :
    Option (NetStack α σ) :=
  let z := s.pool.zb zb
  if z.len.toNat < ethHdrLen then some (s.free cfg zb)
  else
    let type := be16 z.space.byte (z.data + 12)
    let s := s.setBuf zb { z with l2Offset := 0, l3Offset := ethHdrLen, protocol := type }
    let s := s.pull zb ethHdrLen
    if type = ethTypeIp then ipInput cfg fuel nif s zb
    else if type = ethTypeArp then some (arpInput cfg nif s zb)
    else some (s.free cfg zb)

end Gracemont
