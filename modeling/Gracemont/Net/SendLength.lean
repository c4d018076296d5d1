/-
  Gracemont networking — how many bytes `sock_send` and `sock_sendto` copy.

  The number of bytes is a `size_t`; the buffer functions take it in 16 bits, the
  loop that copies counts to the whole of it.

  * `OutputSends`: an output function sends what it was given behind its headers;
  * `sendWith`: the code that the two functions share;
  * `BoundedSend`, `SafeSend`: a call that keeps to its buffer and tells the truth;
  * `send_length_iff`.
-/
import Gracemont.Net.SendAtomic
import Gracemont.Net.TcpChecksum

namespace Gracemont

variable {α σ : Type} [DecidableEq α]

/-! ## What is sent -/

omit [DecidableEq α] in
/-- The bytes of a buffer, with more in front. -/
theorem payloadOf_suffix {z z' : Zbuf α} {n : ℕ} (hdata : z'.data + n = z.data)
    (hlen : z'.len.toNat = n + z.len.toNat)
    (hbytes : ∀ i, z.data ≤ i → z'.space.byte i = z.space.byte i) :
    payloadOf z <:+ payloadOf z' := by
  refine ⟨bytesFrom z'.space.byte z'.data n, ?_⟩
  unfold payloadOf
  rw [hlen, bytesFrom_append, hdata]
  congr 1
  exact bytesFrom_congr fun k _ => (hbytes _ (Nat.le_add_right ..)).symm

omit [DecidableEq α] in
/-- A header in front of the data. -/
theorem payloadOf_header {z : Zbuf α} {n : ℕ} (hdr : List (BitVec 8)) (hdata : n ≤ z.data)
    (hlen : z.len.toNat + n < 2 ^ 16) (hhdr : hdr.length = n) :
    payloadOf z <:+ payloadOf { z with
      data := z.data - n, len := z.len + n
      space := z.space.putBytes (z.data - n) hdr } := by
  refine payloadOf_suffix (n := n) (Nat.sub_add_cancel hdata) ?_ fun i hi => ?_
  · simp only [BitVec.toNat_add, BitVec.natCast_eq_ofNat, BitVec.toNat_ofNat]
    omega
  · exact Lib.ByteMem.putBytes_byte_of_le _ _ _ (by omega)

/-- An output function, called with `zb`, succeeds exactly if `P`, and then it has
    sent one frame, which ends with the data of `zb`. -/
structure OutputSends (s : NetStack α σ) (zb : α) (P : Prop) (r : NetStack α σ × Status) :
    Prop where
  ok : r.2 = .ok ↔ P
  sent : r.2 = .ok → ∃ z, r.1.log = s.log ++ [.sent zb z] ∧
    payloadOf (s.pool.zb zb) <:+ payloadOf z

section
variable (cfg : NetConfig α) (s : NetStack α σ) (zb : α)

theorem ethOutput_ok_sent {nif : IpNetif α} {dstMac : Fin 6 → BitVec 8} {type : BitVec 16}
    (h : (ethOutput cfg nif s zb dstMac type).2 = .ok) : ∃ z,
    (ethOutput cfg nif s zb dstMac type).1.log = s.log ++ [.sent zb z] ∧ z.protocol = type := by
  revert h
  unfold ethOutput
  rcases zbufPush (s.pool.zb zb) ethHdrLen with _ | ⟨z, eth⟩
  · intro h
    cases h
  · intro _
    refine ⟨_, rfl, ?_⟩
    rw [NetStack.setBuf_zb_self]

theorem ipOutput_ok_sent {src dst : BitVec 32} {proto : BitVec 8}
    (h : (ipOutput cfg s zb src dst proto).2 = .ok) : ∃ z,
    (ipOutput cfg s zb src dst proto).1.log = s.log ++ [.sent zb z] ∧
      z.protocol = ethTypeIp := by
  revert h
  unfold ipOutput
  rcases cfg.netifDefault with _ | nif
  · intro h
    cases h
  simp only
  rcases zbufPush (s.pool.zb zb) ipHdrLen with _ | ⟨z, ip⟩
  · intro h
    cases h
  simp only
  generalize hz : ({ z with space := _ } : Zbuf α) = z₁
  generalize hs : ({ s.setBuf zb z₁ with ipId := s.ipId + 1 } : NetStack α σ) = s₁
  have hlog : s₁.log = s.log := hs ▸ rfl
  rw [← hlog]
  split_ifs
  · exact ethOutput_ok_sent cfg s₁ zb
  · have hok : (arpResolve cfg s₁ (nextHop nif dst)).2.1 = .ok → _ := arpResolve_ok cfg
    generalize arpResolve cfg s₁ (nextHop nif dst) = r at hok ⊢
    rcases r with ⟨s₂, st, mac⟩
    cases st
    case ok =>
      obtain rfl : s₂ = s₁ := hok rfl
      exact ethOutput_ok_sent cfg s₂ zb
    all_goals
      intro h
      cases h

/-- **`ip_output`** sends the packet with its two headers in front. -/
theorem ipOutput_sends (src dst : BitVec 32) (proto : BitVec 8)
    (hlen : (s.pool.zb zb).len.toNat + ipHdrLen + ethHdrLen < 2 ^ 16) :
    OutputSends s zb (IpSendable cfg s zb src dst proto) (ipOutput cfg s zb src dst proto) := by
  refine ⟨ipOutput_ok_iff cfg s zb src dst proto, fun h => ?_⟩
  obtain ⟨z, hlog, hip⟩ := ipOutput_ok_sent cfg s zb h
  refine ⟨z, hlog, ?_⟩
  obtain ⟨nif, hnif, -⟩ := (ipOutput_ok_iff cfg s zb src dst proto).1 h
  obtain ⟨new, hnew, hframe⟩ := Packets.ipOutput cfg hnif s zb src dst proto
  obtain rfl : new = [.sent zb z] := List.append_cancel_left (hnew.symm.trans hlog)
  obtain ⟨hroom, hdata, hl, hbytes, -, -⟩ := hframe zb z (List.mem_singleton_self _) hip
  refine payloadOf_suffix (n := ipHdrLen + ethHdrLen) (by omega) ?_ hbytes
  rw [hl]
  simp only [BitVec.toNat_add, BitVec.natCast_eq_ofNat, BitVec.toNat_ofNat]
  omega

/-- The stack with the UDP header in front of the data of `zb`. -/
def datagram (src dst : Sockaddr) : NetStack α σ :=
  let z := s.pool.zb zb
  s.setBuf zb { z with
    data := z.data - udpHdrLen, len := z.len + udpHdrLen
    space := z.space.putBytes (z.data - udpHdrLen)
      (udpHdr src.port dst.port (z.len + udpHdrLen)) }

theorem udpOutput_sends (src dst : Sockaddr) (hdata : udpHdrLen ≤ (s.pool.zb zb).data)
    (hlen : (s.pool.zb zb).len.toNat + udpHdrLen + ipHdrLen + ethHdrLen < 2 ^ 16) :
    OutputSends s zb (IpSendable cfg (datagram s zb src dst) zb src.addr dst.addr ipProtoUdp)
      (udpOutput cfg s zb src dst) := by
  have hout : udpOutput cfg s zb src dst =
      ipOutput cfg (datagram s zb src dst) zb src.addr dst.addr ipProtoUdp := by
    unfold udpOutput
    rw [zbufPush_eq (by decide), if_neg (Nat.not_lt.2 hdata)]
    rfl
  have hfront := payloadOf_header (z := s.pool.zb zb)
    (udpHdr src.port dst.port ((s.pool.zb zb).len + udpHdrLen)) hdata (by omega) rfl
  rw [hout]
  obtain ⟨hok, hsent⟩ := ipOutput_sends cfg (datagram s zb src dst) zb src.addr dst.addr
    ipProtoUdp (by
    simp only [datagram, NetStack.setBuf_zb_self, BitVec.toNat_add, BitVec.natCast_eq_ofNat,
      BitVec.toNat_ofNat]
    omega)
  refine ⟨hok, fun h => ?_⟩
  obtain ⟨z, hlog, hz⟩ := hsent h
  simp only [datagram, NetStack.setBuf_zb_self] at hz
  exact ⟨z, hlog, hfront.trans hz⟩

variable [DecidableEq σ]

theorem tcpOutput_sends (sock : σ) (hdata : tcpHdrLen ≤ (s.pool.zb zb).data)
    (hlen : (s.pool.zb zb).len.toNat + tcpHdrLen + ipHdrLen + ethHdrLen < 2 ^ 16) :
    OutputSends s zb ((s.sock sock).state = .established ∧
        IpSendable cfg (segmented s sock (tcpFlagAck ||| tcpFlagPsh) zb) zb
          (s.sock sock).localAddr.addr (s.sock sock).remoteAddr.addr ipProtoTcp)
      (tcpOutput cfg s sock zb) := by
  unfold tcpOutput
  by_cases hstate : (s.sock sock).state = .established
  swap
  · rw [if_pos hstate]
    exact ⟨iff_of_false Status.noConfusion fun h => hstate h.1, fun h => Status.noConfusion h⟩
  rw [if_neg (not_not.2 hstate)]
  generalize hseg : segmented s sock (tcpFlagAck ||| tcpFlagPsh) zb = s₁
  obtain ⟨s₂, hout, hpool, hcache, hid, hlog⟩ : ∃ s₂ : NetStack α σ,
      tcpSendSegment cfg s sock (tcpFlagAck ||| tcpFlagPsh) (some zb) = ipOutput cfg s₂ zb
        (s.sock sock).localAddr.addr (s.sock sock).remoteAddr.addr ipProtoTcp ∧
      s₂.pool = s₁.pool ∧ s₂.arpCache = s₁.arpCache ∧ s₂.ipId = s₁.ipId ∧ s₂.log = s.log := by
    unfold tcpSendSegment segmentBuf
    simp only
    rw [zbufPush_eq (by decide), if_neg (Nat.not_lt.2 hdata)]
    refine ⟨_, rfl, ?_, ?_, ?_, rfl⟩
    all_goals
      rw [← hseg]
      rfl
  have hzb : s₂.pool.zb zb = { s.pool.zb zb with
      data := (s.pool.zb zb).data - tcpHdrLen, len := (s.pool.zb zb).len + tcpHdrLen
      space := (s.pool.zb zb).space.putBytes ((s.pool.zb zb).data - tcpHdrLen)
        (segmentHdr (s.sock sock) (tcpFlagAck ||| tcpFlagPsh)) } := by
    rw [hpool, ← hseg]
    exact NetStack.setBuf_zb_self ..
  have hfront := payloadOf_header (z := s.pool.zb zb)
    (segmentHdr (s.sock sock) (tcpFlagAck ||| tcpFlagPsh)) hdata (by omega) rfl
  rw [hout]
  obtain ⟨hok, hsent⟩ := ipOutput_sends cfg s₂ zb (s.sock sock).localAddr.addr
    (s.sock sock).remoteAddr.addr ipProtoTcp (by
      simp only [hzb, BitVec.toNat_add, BitVec.natCast_eq_ofNat, BitVec.toNat_ofNat]
      omega)
  refine ⟨?_, fun h => ?_⟩
  · rw [hok, IpSendable.congr cfg hpool hcache hid]
    exact ⟨fun h => ⟨hstate, h⟩, fun h => h.2⟩
  · obtain ⟨z, hz, hsuffix⟩ := hsent h
    rw [hlog] at hz
    rw [hzb] at hsuffix
    exact ⟨z, hz, hfront.trans hsuffix⟩

end

/-! ## The two calls -/

/-- The copy into a new buffer. -/
def sendCopy (s : NetStack α σ) (zb : α) (data : List (BitVec 8)) : NetStack α σ :=
  s.setBuf zb ((s.pool.zb zb).append (BitVec.ofNat 16 data.length) data)

section
variable (s : NetStack α σ) (sock : Option σ) (data : List (BitVec 8))

/-- The buffer of a call on the socket `sock`, which may be missing. -/
def sendBuf : Option (NetStack α σ × α) :=
  sock.bind fun _ =>
    ((s.allocTx (BitVec.ofNat 16 data.length)).2).map fun zb =>
      ((s.allocTx (BitVec.ofNat 16 data.length)).1, zb)

/-- A call that hands the copy to `output`. -/
def sendWith (output : NetStack α σ → σ → α → NetStack α σ × Status) : NetStack α σ × ℤ :=
  match sock with
  | none => (s, -1)
  | some sock =>
    match s.allocTx (BitVec.ofNat 16 data.length) with
    | (s, none) => (s, -1)
    | (s, some zb) => okOr (toInt32 data.length) (output (sendCopy s zb data) sock zb)

/-- **A bounded send**: the copy stays in its buffer, the number of bytes is returned
    only if a frame was sent that ends with all of them, and else -1. -/
structure BoundedSend (r : NetStack α σ × ℤ) : Prop where
  inside : ∀ s₁ zb, sendBuf s sock data = some (s₁, zb) →
    (s₁.pool.zb zb).space.Within zbufHead zbufEnd ((sendCopy s₁ zb data).pool.zb zb).space
  whole : r.2 = data.length → ∃ new zb z,
    r.1.log = s.log ++ new ∧ NetEvent.sent zb z ∈ new ∧ data <:+ payloadOf z
  failed : r.2 ≠ data.length → r.2 = -1

/-- **A safe send**: a bounded one that copies nothing when it fails. -/
structure SafeSend (r : NetStack α σ × ℤ) : Prop extends BoundedSend s sock data r where
  untouched : r.2 ≠ data.length → ∀ s₁ zb, sendBuf s sock data = some (s₁, zb) →
    ((sendCopy s₁ zb data).pool.zb zb).space = (s₁.pool.zb zb).space

/-- There is no socket, no buffer, or the number is too large for a buffer when it
    is cut to 16 bits. -/
def NoSendBuf : Prop :=
  sock = none ∨ s.pool.freeList = none ∨
    configZbufSize - configZbufHeadroom < data.length % 2 ^ 16

/-- The bytes fit into a buffer. -/
def FitsZbuf : Prop := data.length ≤ configZbufSize - configZbufHeadroom

variable {s sock data}

omit [DecidableEq α] in
theorem okOr_snd (n : ℤ) (r : NetStack α σ × Status) :
    (okOr n r).2 = if r.2 = .ok then n else -1 := by
  rcases r with ⟨s₁, st⟩
  cases st
  all_goals rfl

omit [DecidableEq α] in
theorem okOr_fst (n : ℤ) (r : NetStack α σ × Status) : (okOr n r).1 = r.1 := by
  rcases r with ⟨s₁, st⟩
  cases st
  all_goals rfl

/-- **Without a buffer**, a call is safe. -/
theorem safeSend_of_noSendBuf (output : NetStack α σ → σ → α → NetStack α σ × Status)
    (h : NoSendBuf s sock data) : SafeSend s sock data (sendWith s sock data output) := by
  obtain ⟨hbuf, hret⟩ : sendBuf s sock data = none ∧ (sendWith s sock data output).2 = -1 := by
    cases sock with
    | none => exact ⟨rfl, rfl⟩
    | some x =>
      have hsize : (BitVec.ofNat 16 data.length).toNat = data.length % 2 ^ 16 :=
        BitVec.toNat_ofNat ..
      obtain ⟨pool', halloc⟩ : ∃ pool', zbufAllocTx s.pool (BitVec.ofNat 16 data.length) =
          (pool', none) := by
        rcases h with hsock | hfree | hlarge
        · cases hsock
        · exact zbufAllocTx_none hfree _
        · exact zbufAllocTx_large (hsize ▸ hlarge)
      simp [sendBuf, sendWith, NetStack.allocTx, halloc]
  have hne : (sendWith s sock data output).2 ≠ data.length := by
    rw [hret]
    omega
  refine ⟨⟨fun s₁ zb h => ?_, fun h => absurd h hne, fun _ => hret⟩, fun _ s₁ zb h => ?_⟩
  · rw [hbuf] at h
    cases h
  · rw [hbuf] at h
    cases h

/-- The buffer of a call that has one: empty behind the headroom. -/
theorem sendBuf_of_not (h : ¬ NoSendBuf s sock data) : ∃ x s₁ zb, sock = some x ∧
    s.allocTx (BitVec.ofNat 16 data.length) = (s₁, some zb) ∧
    sendBuf s sock data = some (s₁, zb) ∧ s₁.log = s.log ++ [.allocated zb] ∧
    (s₁.pool.zb zb).data = configZbufHeadroom ∧ (s₁.pool.zb zb).tail = configZbufHeadroom ∧
    (s₁.pool.zb zb).len = 0 := by
  obtain ⟨hsock, hfree, hsize⟩ : sock ≠ none ∧ s.pool.freeList ≠ none ∧
      data.length % 2 ^ 16 ≤ configZbufSize - configZbufHeadroom := by
    refine ⟨fun h' => h (.inl h'), fun h' => h (.inr (.inl h')), ?_⟩
    exact Nat.le_of_not_lt fun h' => h (.inr (.inr h'))
  obtain ⟨x, rfl⟩ := Option.ne_none_iff_exists'.1 hsock
  obtain ⟨zb, hzb⟩ := Option.ne_none_iff_exists'.1 hfree
  rw [← BitVec.toNat_ofNat] at hsize
  obtain ⟨pool', halloc, hdata, htail, hlen, -⟩ := zbufAllocTx_spec hzb hsize
  refine ⟨x, { s with pool := pool', log := s.log ++ [.allocated zb] }, zb, rfl, ?_, ?_, rfl,
    hdata, htail, hlen⟩
  · simp [NetStack.allocTx, halloc]
  · simp [sendBuf, NetStack.allocTx, halloc]

/-- The copy into that buffer. -/
theorem sendCopy_zb {s₁ : NetStack α σ} {zb : α} (hsize : data.length % 2 ^ 16 ≤
      configZbufSize - configZbufHeadroom) (htail : (s₁.pool.zb zb).tail = configZbufHeadroom) :
    (sendCopy s₁ zb data).pool.zb zb = { s₁.pool.zb zb with
      tail := configZbufHeadroom + data.length % 2 ^ 16
      len := (s₁.pool.zb zb).len + BitVec.ofNat 16 data.length
      space := (s₁.pool.zb zb).space.putBytes configZbufHeadroom data } := by
  have hroom : (s₁.pool.zb zb).tail + (BitVec.ofNat 16 data.length).toNat ≤ zbufEnd := by
    rw [htail, BitVec.toNat_ofNat]
    simp only [zbufEnd, configZbufSize, configZbufHeadroom] at hsize ⊢
    omega
  rw [sendCopy, NetStack.setBuf_zb_self, Zbuf.append_of_le _ _ _ hroom, htail, BitVec.toNat_ofNat]

theorem sendCopy_len {s₁ : NetStack α σ} {zb : α} (hsize : data.length % 2 ^ 16 ≤
      configZbufSize - configZbufHeadroom) (htail : (s₁.pool.zb zb).tail = configZbufHeadroom)
    (hlen : (s₁.pool.zb zb).len = 0) :
    ((sendCopy s₁ zb data).pool.zb zb).len.toNat = data.length % 2 ^ 16 := by
  have hzero : (0 + BitVec.ofNat 16 data.length : BitVec 16) = _ := BitVec.zero_add _
  simp only [sendCopy_zb hsize htail, hlen, hzero, BitVec.toNat_ofNat]

/-- The copy stays in its buffer exactly if the bytes fit, and changes nothing
    exactly if there are none. -/
theorem sendCopy_space {s₁ : NetStack α σ} {zb : α} (hsize : data.length % 2 ^ 16 ≤
      configZbufSize - configZbufHeadroom) (htail : (s₁.pool.zb zb).tail = configZbufHeadroom) :
    ((s₁.pool.zb zb).space.Within zbufHead zbufEnd ((sendCopy s₁ zb data).pool.zb zb).space ↔
      FitsZbuf data) ∧
    (((sendCopy s₁ zb data).pool.zb zb).space = (s₁.pool.zb zb).space ↔ data = []) := by
  rw [sendCopy_zb hsize htail]
  by_cases hdata : data = []
  · subst hdata
    exact ⟨iff_of_true (Lib.ByteMem.Within.refl ..) (Nat.zero_le _), iff_of_true rfl rfl⟩
  constructor
  · refine (Lib.ByteMem.within_putBytes_iff hdata).trans ?_
    simp only [FitsZbuf, zbufHead, zbufEnd, configZbufSize, configZbufHeadroom]
    omega
  · refine iff_of_false (fun h => hdata ?_) hdata
    have hlog := congrArg (fun m => m.written.length) h
    simp only [Lib.ByteMem.putBytes_written, List.length_append, List.length_reverse,
      List.length_range'] at hlog
    exact List.length_eq_zero_iff.1 (by omega)

/-- The copy into a buffer of a bounded send does not run beyond its end. -/
theorem BoundedSend.fits {r : NetStack α σ × ℤ} (hr : BoundedSend s sock data r)
    (h : ¬ NoSendBuf s sock data) : FitsZbuf data := by
  obtain ⟨-, s₁, zb, -, -, hbuf, -, -, htail, -⟩ := sendBuf_of_not h
  have hsize : data.length % 2 ^ 16 ≤ configZbufSize - configZbufHeadroom :=
    Nat.le_of_not_lt fun h' => h (.inr (.inr h'))
  exact (sendCopy_space hsize htail).1.1 (hr.inside s₁ zb hbuf)

/-- **Bytes that fit** are sent, or -1 is returned. -/
theorem okOr_fits {s₁ : NetStack α σ} {zb : α} {P : Prop} {r : NetStack α σ × Status}
    (hfits : FitsZbuf data) (hlog : s₁.log = s.log ++ [.allocated zb])
    (hdata : (s₁.pool.zb zb).data = configZbufHeadroom)
    (htail : (s₁.pool.zb zb).tail = configZbufHeadroom) (hlen : (s₁.pool.zb zb).len = 0)
    (hsends : OutputSends (sendCopy s₁ zb data) zb P r) :
    ((okOr (toInt32 data.length) r).2 = data.length ↔ P) ∧
    ((okOr (toInt32 data.length) r).2 = data.length → ∃ new zb z,
      (okOr (toInt32 data.length) r).1.log = s.log ++ new ∧ NetEvent.sent zb z ∈ new ∧
        data <:+ payloadOf z) ∧
    ((okOr (toInt32 data.length) r).2 ≠ data.length →
      (okOr (toInt32 data.length) r).2 = -1) := by
  have hle : data.length ≤ 1920 := hfits
  have hmod : data.length % 2 ^ 16 = data.length := Nat.mod_eq_of_lt (by omega)
  have hint : toInt32 data.length = data.length := by
    unfold toInt32
    rw [Int.bmod_def]
    omega
  have hsize : data.length % 2 ^ 16 ≤ configZbufSize - configZbufHeadroom := by
    rw [hmod]
    exact hfits
  have hpayload : payloadOf ((sendCopy s₁ zb data).pool.zb zb) = data := by
    have hread := bytesFrom_putBytes (s₁.pool.zb zb).space configZbufHeadroom data []
    rw [List.append_nil] at hread
    rw [payloadOf, sendCopy_len hsize htail hlen, hmod, sendCopy_zb hsize htail, hdata]
    exact hread
  have hret : r.2 = .ok ↔ (okOr (toInt32 data.length) r).2 = data.length := by
    rw [okOr_snd, hint]
    by_cases hok : r.2 = .ok
    · exact iff_of_true hok (if_pos hok)
    · rw [if_neg hok]
      exact iff_of_false hok (by omega)
  refine ⟨hret.symm.trans hsends.ok, fun h => ?_, fun h => ?_⟩
  · obtain ⟨z, hz, hsuffix⟩ := hsends.sent (hret.2 h)
    have hlog' : (sendCopy s₁ zb data).log = s.log ++ [.allocated zb] := hlog
    rw [hpayload] at hsuffix
    rw [hlog', List.append_assoc] at hz
    rw [okOr_fst]
    exact ⟨_, zb, z, hz, by simp, hsuffix⟩
  · rw [okOr_snd, if_neg fun hok => h (hret.1 hok)]

/-- **A call with a buffer** is bounded exactly if the bytes fit, and safe if besides
    there are none or the output succeeds. -/
theorem sendWith_iff (s : NetStack α σ) (sock : Option σ) (data : List (BitVec 8))
    (output : NetStack α σ → σ → α → NetStack α σ × Status)
    (sendable : NetStack α σ → σ → α → Prop)
    (hout : ∀ s₁ x zb, (s₁.pool.zb zb).data = configZbufHeadroom →
      (s₁.pool.zb zb).len.toNat ≤ configZbufSize →
      OutputSends s₁ zb (sendable s₁ x zb) (output s₁ x zb)) :
    (BoundedSend s sock data (sendWith s sock data output) ↔
      NoSendBuf s sock data ∨ FitsZbuf data) ∧
    (SafeSend s sock data (sendWith s sock data output) ↔
      NoSendBuf s sock data ∨ FitsZbuf data ∧ (data = [] ∨ ∀ x s₁ zb, sock = some x →
        sendBuf s sock data = some (s₁, zb) → sendable (sendCopy s₁ zb data) x zb)) := by
  by_cases h : NoSendBuf s sock data
  · have hsafe := safeSend_of_noSendBuf output h
    exact ⟨iff_of_true hsafe.toBoundedSend (.inl h), iff_of_true hsafe (.inl h)⟩
  have hsize : data.length % 2 ^ 16 ≤ configZbufSize - configZbufHeadroom :=
    Nat.le_of_not_lt fun h' => h (.inr (.inr h'))
  obtain ⟨x, s₁, zb, hx, halloc, hbuf, hlog, hdata, htail, hlen⟩ := sendBuf_of_not h
  have hrun : sendWith s sock data output =
      okOr (toInt32 data.length) (output (sendCopy s₁ zb data) x zb) := by
    unfold sendWith
    rw [hx]
    simp only [halloc]
  obtain ⟨hinside, hspace⟩ := sendCopy_space hsize htail
  by_cases hfits : FitsZbuf data
  swap
  · have hout : ¬ BoundedSend s sock data (sendWith s sock data output) :=
      fun hb => hfits (hb.fits h)
    refine ⟨iff_of_false hout (not_or.2 ⟨h, hfits⟩), ?_⟩
    exact iff_of_false (fun hb => hout hb.toBoundedSend) (not_or.2 ⟨h, fun h' => hfits h'.1⟩)
  have hsends : OutputSends (sendCopy s₁ zb data) zb (sendable (sendCopy s₁ zb data) x zb)
      (output (sendCopy s₁ zb data) x zb) := by
    refine hout _ x zb ?_ ?_
    · rw [sendCopy_zb hsize htail]
      exact hdata
    · rw [sendCopy_len hsize htail hlen]
      exact Nat.le_trans hsize (Nat.sub_le ..)
  obtain ⟨hok, hwhole, hfailed⟩ := okOr_fits hfits hlog hdata htail hlen hsends
  rw [← hrun] at hok hwhole hfailed
  have hbounded : BoundedSend s sock data (sendWith s sock data output) := by
    refine ⟨fun s₂ zb₂ h₂ => ?_, hwhole, hfailed⟩
    rw [hbuf] at h₂
    cases h₂
    exact hinside.2 hfits
  refine ⟨iff_of_true hbounded (.inr hfits), ?_⟩
  constructor
  · rintro ⟨-, huntouched⟩
    refine .inr ⟨hfits, or_iff_not_imp_left.2 fun hne x₂ s₂ zb₂ hx₂ h₂ => ?_⟩
    rw [hx] at hx₂
    rw [hbuf] at h₂
    cases hx₂
    cases h₂
    by_contra hfail
    exact hne (hspace.1 (huntouched (fun h' => hfail (hok.1 h')) s₁ zb hbuf))
  · intro hcond
    obtain ⟨-, hsendable⟩ := hcond.resolve_left h
    refine ⟨hbounded, fun hne s₂ zb₂ h₂ => ?_⟩
    rw [hbuf] at h₂
    cases h₂
    refine hspace.2 (hsendable.resolve_right fun hs => hne ?_)
    exact hok.2 (hs x s₁ zb hx hbuf)

end

/-! ## Main result -/

section
variable [DecidableEq σ] (cfg : NetConfig α) (s : NetStack α σ) (fd : ℤ)
  (data : List (BitVec 8)) (dst : Sockaddr)

/-- A segment with the data of `zb` can be sent. -/
def TcpSendable (s : NetStack α σ) (sock : σ) (zb : α) : Prop :=
  (s.sock sock).state = .established ∧
    IpSendable cfg (segmented s sock (tcpFlagAck ||| tcpFlagPsh) zb) zb
      (s.sock sock).localAddr.addr (s.sock sock).remoteAddr.addr ipProtoTcp

/-- A datagram with the data of `zb` can be sent to `dst`. -/
def UdpSendable (s : NetStack α σ) (sock : σ) (zb : α) : Prop :=
  IpSendable cfg (datagram s zb (s.sock sock).localAddr dst) zb (s.sock sock).localAddr.addr
    dst.addr ipProtoUdp

/-- The socket of a datagram. -/
def dgramSocket : Option σ := (s.lookup fd).filter fun sock => (s.sock sock).type = sockDgram

theorem sockSend_eq : sockSend cfg s fd data = sendWith s (s.lookup fd) data (tcpOutput cfg) := by
  unfold sockSend sendWith sendCopy
  rcases s.lookup fd with _ | sock
  · rfl
  · rfl

omit [DecidableEq σ] in
theorem sockSendto_eq : sockSendto cfg s fd data dst = sendWith s (dgramSocket s fd) data
    fun s sock zb => udpOutput cfg s zb (s.sock sock).localAddr dst := by
  unfold sockSendto dgramSocket sendWith sendCopy
  rcases s.lookup fd with _ | sock
  · rfl
  · by_cases htype : (s.sock sock).type = sockDgram
    · have hsome : (some sock).filter (fun sock => (s.sock sock).type = sockDgram) = some sock := by
        simp [Option.filter, htype]
      rw [hsome]
      exact if_neg (not_not.2 htype)
    · simp [Option.filter, htype]

/-- **The length of a send.**  `sock_send` and `sock_sendto` keep to their buffer, and
    say how much they sent, exactly if there is no socket or no buffer or the bytes
    fit; besides, they copy nothing when they fail exactly if there are no bytes or
    the packet can be sent. -/
theorem send_length_iff :
    (BoundedSend s (s.lookup fd) data (sockSend cfg s fd data) ↔
      NoSendBuf s (s.lookup fd) data ∨ FitsZbuf data) ∧
    (SafeSend s (s.lookup fd) data (sockSend cfg s fd data) ↔
      NoSendBuf s (s.lookup fd) data ∨ FitsZbuf data ∧ (data = [] ∨
        ∀ sock s₁ zb, s.lookup fd = some sock → sendBuf s (s.lookup fd) data = some (s₁, zb) →
          TcpSendable cfg (sendCopy s₁ zb data) sock zb)) ∧
    (BoundedSend s (dgramSocket s fd) data (sockSendto cfg s fd data dst) ↔
      NoSendBuf s (dgramSocket s fd) data ∨ FitsZbuf data) ∧
    (SafeSend s (dgramSocket s fd) data (sockSendto cfg s fd data dst) ↔
      NoSendBuf s (dgramSocket s fd) data ∨ FitsZbuf data ∧ (data = [] ∨
        ∀ sock s₁ zb, dgramSocket s fd = some sock →
          sendBuf s (dgramSocket s fd) data = some (s₁, zb) →
          UdpSendable cfg dst (sendCopy s₁ zb data) sock zb)) := by
  have hsend := sendWith_iff s (s.lookup fd) data (tcpOutput cfg) (TcpSendable cfg)
    fun s₁ x zb hdata hlen => by
      refine tcpOutput_sends cfg s₁ zb x (hdata ▸ by decide) ?_
      simp only [tcpHdrLen, ipHdrLen, ethHdrLen, configZbufSize] at hlen ⊢
      omega
  have hsendto := sendWith_iff s (dgramSocket s fd) data
    (fun s sock zb => udpOutput cfg s zb (s.sock sock).localAddr dst) (UdpSendable cfg dst)
    fun s₁ x zb hdata hlen => by
      refine udpOutput_sends cfg s₁ zb _ dst (hdata ▸ by decide) ?_
      simp only [udpHdrLen, ipHdrLen, ethHdrLen, configZbufSize] at hlen ⊢
      omega
  rw [sockSend_eq, sockSendto_eq]
  exact ⟨hsend.1, hsend.2, hsendto.1, hsendto.2⟩

end

/-- A stack with an established socket and two free buffers. -/
def demoSending : NetStack (Fin 2) (Fin 2) :=
  { demoStack with
    pool := { demoStack.pool with freeList := some 0 }
    sock := fun _ => { demoSocket with state := .established }
    socketTable := fun _ => some 0 }

/-- The buffer is allocated for the length modulo `2 ^ 16`. -/
theorem demoSending_wraps {data : List (BitVec 8)} (hlen : data.length = 65536) :
    ¬ BoundedSend demoSending (demoSending.lookup 0) data
      (sockSend demoNet demoSending 0 data) := by
  intro h
  have hbuf : ¬ NoSendBuf demoSending (demoSending.lookup 0) data := by
    simp [NoSendBuf, NetStack.lookup, demoSending, hlen]
  have hfits := h.fits hbuf
  simp [FitsZbuf, configZbufSize, configZbufHeadroom, hlen] at hfits

/-- 65536 bytes: the buffer is allocated for none of them. -/
theorem demoSending_overruns : ¬ BoundedSend demoSending (demoSending.lookup 0)
    (List.replicate 65536 0) (sockSend demoNet demoSending 0 (List.replicate 65536 0)) :=
  demoSending_wraps List.length_replicate

end Gracemont
