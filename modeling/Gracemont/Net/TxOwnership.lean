/-
  Gracemont networking — ownership of outgoing buffers.

  Every call of the transmit API takes its buffer once, and reports a success
  only if an IP packet in it was handed to the driver — but `tcp_send_segment`
  returns without freeing its data when the TCP header does not fit in front of
  it, where `ip_output` and `udp_output` free the buffer.

  * `TxCall`: the calls; `TxCall.given`: the buffer that the caller hands over;
  * `TxCall.Fits`: the TCP header fits in front of the data;
  * `tx_buffer_ownership`: ownership and report are right exactly if it does.
-/
import Gracemont.Net.Ownership
import Gracemont.Net.Socket

namespace Gracemont

variable {α σ : Type} [DecidableEq α]

/-! ## What was handed to the driver -/

/-- Between `s` and `s'` an IP packet in the buffer was handed to the driver. -/
def Handed (s s' : NetStack α σ) (zb : α) : Prop :=
  ∃ new z, s'.log = s.log ++ new ∧ NetEvent.sent zb z ∈ new ∧ z.protocol = ethTypeIp

namespace Handed
variable {s s₁ s' : NetStack α σ} {zb : α} (cfg : NetConfig α)

omit [DecidableEq α] in
theorem after (h : Handed s₁ s' zb) (hlog : ∃ new, s₁.log = s.log ++ new) : Handed s s' zb := by
  obtain ⟨new, z, hnew, hmem, hz⟩ := h
  obtain ⟨new₁, hnew₁⟩ := hlog
  refine ⟨new₁ ++ new, z, ?_, List.mem_append_right _ hmem, hz⟩
  rw [hnew, hnew₁, List.append_assoc]

omit [DecidableEq α] in
theorem after_eq (h : Handed s₁ s' zb) (hlog : s₁.log = s.log) : Handed s s' zb :=
  h.after ⟨[], by rw [hlog, List.append_nil]⟩

theorem ethOutput {nif : IpNetif α} {dstMac : Fin 6 → BitVec 8}
    (h : (ethOutput cfg nif s zb dstMac ethTypeIp).2 = .ok) :
    Handed s (ethOutput cfg nif s zb dstMac ethTypeIp).1 zb := by
  revert h
  unfold Gracemont.ethOutput
  rcases zbufPush (s.pool.zb zb) ethHdrLen with _ | ⟨z, eth⟩
  · intro h
    cases h
  · intro h
    refine ⟨_, _, rfl, List.mem_singleton_self _, ?_⟩
    simp [NetStack.setBuf]

/-- `ip_output` reports a success only if the driver got the packet. -/
theorem ipOutput {src dst : BitVec 32} {proto : BitVec 8}
    (h : (ipOutput cfg s zb src dst proto).2 = .ok) :
    Handed s (ipOutput cfg s zb src dst proto).1 zb := by
  revert h
  unfold Gracemont.ipOutput
  rcases cfg.netifDefault with _ | nif
  · intro h
    cases h
  simp only
  rcases zbufPush (s.pool.zb zb) ipHdrLen with _ | ⟨z, ip⟩
  · intro h
    cases h
  simp only
  generalize hz : ({ z with space := _ } : Zbuf α) = z₁
  generalize hs : ({ s.setBuf zb z₁ with ipId := s.ipId + 1 } : NetStack α σ) = s₁
  have h₁ : s₁.log = s.log := hs ▸ rfl
  split_ifs
  · intro h
    exact (ethOutput cfg h).after_eq h₁
  · obtain ⟨new, hnew, -⟩ := Moves.arpResolve cfg s₁ (nextHop nif dst)
    generalize arpResolve cfg s₁ (nextHop nif dst) = r at hnew ⊢
    rcases r with ⟨s₂, st, mac⟩
    intro h
    cases st
    case ok => exact (ethOutput cfg h).after ⟨new, by rw [← h₁]; exact hnew⟩
    all_goals cases h

theorem udpOutput {src dst : Sockaddr} (h : (udpOutput cfg s zb src dst).2 = .ok) :
    Handed s (udpOutput cfg s zb src dst).1 zb := by
  revert h
  unfold Gracemont.udpOutput
  rcases zbufPush (s.pool.zb zb) udpHdrLen with _ | ⟨z, udp⟩
  · intro h
    cases h
  · intro h
    exact (ipOutput cfg h).after_eq rfl

variable [DecidableEq σ]

theorem tcpSendSegment {sock : σ} {flags : BitVec 8}
    (h : (tcpSendSegment cfg s sock flags (some zb)).2 = .ok) :
    Handed s (tcpSendSegment cfg s sock flags (some zb)).1 zb := by
  revert h
  unfold Gracemont.tcpSendSegment segmentBuf
  simp only
  rcases zbufPush (s.pool.zb zb) tcpHdrLen with _ | ⟨z, tcp⟩
  · intro h
    cases h
  · intro h
    exact (ipOutput cfg h).after_eq rfl

/-- A segment without data is sent in a buffer of its own. -/
theorem tcpSendSegment_none {sock : σ} {flags : BitVec 8}
    (h : (Gracemont.tcpSendSegment cfg s sock flags none).2 = .ok) :
    ∃ zb, Handed s (Gracemont.tcpSendSegment cfg s sock flags none).1 zb := by
  revert h
  unfold Gracemont.tcpSendSegment segmentBuf
  simp only
  obtain ⟨new, hnew, -⟩ := Moves.allocTx s 0
  generalize s.allocTx 0 = r at hnew ⊢
  rcases r with ⟨s₁, _ | zb⟩
  · intro h
    cases h
  simp only
  rcases zbufPush (s₁.pool.zb zb) tcpHdrLen with _ | ⟨z, tcp⟩
  · intro h
    cases h
  · intro h
    exact ⟨zb, (ipOutput cfg h).after ⟨new, hnew⟩⟩

end Handed

/-! ## The calls -/

/-- The TCP header fits in front of the data of a buffer. -/
def TcpFits (s : NetStack α σ) (zb : α) : Prop := tcpHdrLen ≤ (s.pool.zb zb).data

/-- `STATUS_OK` is a success, and so is every number but -1. -/
def byStatus (r : NetStack α σ × Status) : NetStack α σ × Bool := (r.1, r.2 = .ok)
def byInt (r : NetStack α σ × ℤ) : NetStack α σ × Bool := (r.1, r.2 ≠ -1)

/-- A call of the transmit API. -/
inductive TxCall (α σ : Type) where
  | ipOutput (zb : α) (src dst : BitVec 32) (proto : BitVec 8)
  | udpOutput (zb : α) (src dst : Sockaddr)
  | tcpSendSegment (sock : σ) (flags : BitVec 8) (data : Option α)
  | tcpOutput (sock : σ) (zb : α)
  | sockSend (fd : ℤ) (data : List (BitVec 8))
  | sockSendZbuf (fd : ℤ) (zb : α)
  | sockSendto (fd : ℤ) (data : List (BitVec 8)) (dst : Sockaddr)

namespace TxCall

/-- The buffer that the caller hands over. -/
def given : TxCall α σ → Option α
  | ipOutput zb _ _ _ | udpOutput zb _ _ | tcpOutput _ zb | sockSendZbuf _ zb => some zb
  | tcpSendSegment _ _ data => data
  | sockSend _ _ | sockSendto _ _ _ => none

variable [DecidableEq σ] (cfg : NetConfig α) (s : NetStack α σ)

/-- The call, and if it reports a success. -/
def run : TxCall α σ → NetStack α σ × Bool
  | ipOutput zb src dst proto => byStatus (Gracemont.ipOutput cfg s zb src dst proto)
  | udpOutput zb src dst => byStatus (Gracemont.udpOutput cfg s zb src dst)
  | tcpSendSegment sock flags data => byStatus (Gracemont.tcpSendSegment cfg s sock flags data)
  | tcpOutput sock zb => byStatus (Gracemont.tcpOutput cfg s sock zb)
  | sockSend fd data => byInt (Gracemont.sockSend cfg s fd data)
  | sockSendZbuf fd zb => byInt (Gracemont.sockSendZbuf cfg s fd zb)
  | sockSendto fd data dst => byInt (Gracemont.sockSendto cfg s fd data dst)

/-- The TCP header fits in front of the data, if the call gets to it. -/
def Fits : TxCall α σ → Prop
  | tcpSendSegment _ _ (some zb) => TcpFits s zb
  | tcpOutput sock zb => (s.sock sock).state = .established → TcpFits s zb
  | sockSendZbuf fd zb =>
    ∀ sock, s.lookup fd = some sock → (s.sock sock).state = .established → TcpFits s zb
  | _ => True

end TxCall

/-- **What a call owes**, given a buffer or none.  The buffer, and every buffer
    that it allocates, is taken once; and if it reports a success, an IP packet
    was handed to the driver, in the given buffer if there is one. -/
def TxSound (s : NetStack α σ) (given : Option α) (r : NetStack α σ × Bool) : Prop :=
  Moves s r.1 (owned given) 0 ∧
    (r.2 = true → ∃ zb, (∀ zb' ∈ given, zb = zb') ∧ Handed s r.1 zb)

/-! ## What the functions owe -/

namespace TxSound
variable {s s₁ : NetStack α σ} {zb : α}

theorem not_self {told : Bool} : ¬ TxSound s (some zb) (s, told) := by
  rintro ⟨⟨new, hnew, ht⟩, -⟩
  obtain rfl : new = [] := List.append_cancel_left (hnew.symm.trans (List.append_nil _).symm)
  have hcount := ht.count zb
  have hown : owned (some zb) zb = 1 := Pi.single_eq_same zb 1
  rw [hown] at hcount
  cases hcount

/-- A failure, after the buffer was taken. -/
theorem failed {given : Option α} (h : Moves s s₁ (owned given) 0) : TxSound s given (s₁, false) :=
  ⟨h, fun h => absurd h Bool.false_ne_true⟩

theorem of_handed {r : NetStack α σ × Status} (h : Moves s r.1 (owned (some zb)) 0)
    (hok : r.2 = .ok → Handed s r.1 zb) : TxSound s (some zb) (byStatus r) :=
  ⟨h, fun ht => ⟨zb, fun _ => Option.some.inj, hok (of_decide_eq_true ht)⟩⟩

/-- A buffer that the call has allocated. -/
theorem of_alloc {r : NetStack α σ × Bool} (halloc : Moves s s₁ 0 (owned (some zb)))
    (h : TxSound s₁ (some zb) r) : TxSound s none r := by
  refine ⟨halloc.trans h.1, fun ht => ?_⟩
  obtain ⟨zb', -, hh⟩ := h.2 ht
  obtain ⟨new, hnew, -⟩ := halloc
  exact ⟨zb', by simp, hh.after ⟨new, hnew⟩⟩

/-- A number in place of the status. -/
theorem byInt_of_byStatus {given : Option α} {r : NetStack α σ × Status} {n : ℤ}
    (h : TxSound s given (byStatus r)) : TxSound s given (byInt (okOr n r)) := by
  rcases r with ⟨s₁, st⟩
  cases st
  case ok => exact ⟨h.1, fun _ => h.2 rfl⟩
  all_goals exact failed h.1

end TxSound

section
variable [DecidableEq σ] (cfg : NetConfig α) {s : NetStack α σ} {sock : σ} {flags : BitVec 8}
  {zb : α}

/-- Without room for the header, the data is neither sent nor freed. -/
theorem tcpSendSegment_stuck (hfit : ¬ TcpFits s zb) :
    tcpSendSegment cfg s sock flags (some zb) = (s, .noMem) := by
  have hpush : zbufPush (s.pool.zb zb) tcpHdrLen = none := by
    refine if_pos ?_
    have h20 : zbufHead + (tcpHdrLen : BitVec 16).toNat = tcpHdrLen := rfl
    unfold TcpFits at hfit
    omega
  unfold tcpSendSegment segmentBuf
  simp only [hpush]
  rfl

theorem tcpSendSegment_sound_iff :
    TxSound s (some zb) (byStatus (tcpSendSegment cfg s sock flags (some zb))) ↔
      TcpFits s zb := by
  constructor
  · intro h
    by_contra hfit
    rw [tcpSendSegment_stuck cfg hfit] at h
    exact TxSound.not_self h
  · intro hfit
    exact .of_handed (.tcpSendSegment_some cfg s sock flags hfit) (Handed.tcpSendSegment cfg)

theorem tcpSendSegment_none_sound :
    TxSound s none (byStatus (tcpSendSegment cfg s sock flags none)) := by
  refine ⟨.tcpSendSegment_none cfg s sock flags, fun ht => ?_⟩
  obtain ⟨zb, h⟩ := Handed.tcpSendSegment_none cfg (of_decide_eq_true ht)
  exact ⟨zb, by simp, h⟩

/-- `tcp_output` is sound exactly if the header fits, or the socket is not
    connected. -/
theorem tcpOutput_sound_iff : TxSound s (some zb) (byStatus (tcpOutput cfg s sock zb)) ↔
    ((s.sock sock).state = .established → TcpFits s zb) := by
  unfold tcpOutput
  by_cases hst : (s.sock sock).state = .established
  · rw [if_neg (not_not.2 hst), tcpSendSegment_sound_iff]
    exact ⟨fun hfit _ => hfit, fun hfit => hfit hst⟩
  · rw [if_pos hst]
    exact ⟨fun _ he => absurd he hst, fun _ => .failed (.free s cfg zb)⟩

omit [DecidableEq σ] in
/-- There is room for the header in a new buffer. -/
theorem allocTx_fits {s₁ : NetStack α σ} {size : BitVec 16} (h : s.allocTx size = (s₁, some zb))
    (len : BitVec 16) (bytes : List (BitVec 8)) :
    TcpFits (s₁.setBuf zb ((s₁.pool.zb zb).append len bytes)) zb := by
  have hdata : ((s₁.setBuf zb ((s₁.pool.zb zb).append len bytes)).pool.zb zb).data =
      configZbufHeadroom := by
    simp only [NetStack.setBuf, Function.update_self, Zbuf.append_data, (NetStack.allocTx_some h).1]
  unfold TcpFits
  rw [hdata]
  decide

/-- `sock_send` always has room for the header. -/
theorem sockSend_sound (fd : ℤ) (data : List (BitVec 8)) :
    TxSound s none (byInt (sockSend cfg s fd data)) := by
  unfold sockSend
  rcases s.lookup fd with _ | sock
  · exact .failed (.of_log_eq rfl 0)
  have halloc := Moves.allocTx s (BitVec.ofNat 16 data.length)
  rcases hr : s.allocTx (BitVec.ofNat 16 data.length) with ⟨s₁, _ | zb⟩
  · rw [hr] at halloc
    exact .failed halloc
  · rw [hr] at halloc
    have hset : ∀ z, Moves s (s₁.setBuf zb z) 0 (owned (some zb)) := by
      intro z
      exact halloc.trans (.of_log_eq rfl _)
    have hout : TxSound _ (some zb) (byStatus (tcpOutput cfg _ sock zb)) :=
      (tcpOutput_sound_iff cfg).2 fun _ => allocTx_fits hr (BitVec.ofNat 16 data.length) data
    exact .of_alloc (hset _) (.byInt_of_byStatus hout)

omit [DecidableEq σ] in
theorem sockSendto_sound (fd : ℤ) (data : List (BitVec 8)) (dst : Sockaddr) :
    TxSound s none (byInt (sockSendto cfg s fd data dst)) := by
  unfold sockSendto
  rcases s.lookup fd with _ | sock
  · exact .failed (.of_log_eq rfl 0)
  simp only
  by_cases htype : (s.sock sock).type ≠ sockDgram
  · rw [if_pos htype]
    exact .failed (.of_log_eq rfl 0)
  rw [if_neg htype]
  have halloc := Moves.allocTx s (BitVec.ofNat 16 data.length)
  rcases hr : s.allocTx (BitVec.ofNat 16 data.length) with ⟨s₁, _ | zb⟩
  · rw [hr] at halloc
    exact .failed halloc
  · rw [hr] at halloc
    have hset : ∀ z, Moves s (s₁.setBuf zb z) 0 (owned (some zb)) := by
      intro z
      exact halloc.trans (.of_log_eq rfl _)
    have hout : ∀ (s' : NetStack α σ) src,
        TxSound s' (some zb) (byStatus (udpOutput cfg s' zb src dst)) := by
      intro s' src
      exact .of_handed (.udpOutput cfg s' zb src dst) (Handed.udpOutput cfg)
    exact .of_alloc (hset _) (.byInt_of_byStatus (hout _ _))

theorem sockSendZbuf_sound_iff (fd : ℤ) :
    TxSound s (some zb) (byInt (sockSendZbuf cfg s fd zb)) ↔
      ∀ sock, s.lookup fd = some sock → (s.sock sock).state = .established → TcpFits s zb := by
  unfold sockSendZbuf
  rcases s.lookup fd with _ | sock
  · refine iff_of_true ?_ (fun sock h => by cases h)
    exact .failed (.free s cfg zb)
  constructor
  · intro h sock' hsock hst
    obtain rfl := Option.some.inj hsock
    by_contra hfit
    have hstuck : tcpOutput cfg s sock zb = (s, .noMem) := by
      rw [tcpOutput, if_neg (not_not.2 hst), tcpSendSegment_stuck cfg hfit]
    simp only [hstuck] at h
    exact TxSound.not_self h
  · intro hfit
    exact .byInt_of_byStatus ((tcpOutput_sound_iff cfg).2 (hfit sock rfl))

/-- **Ownership of outgoing buffers.**  A call takes every buffer once and
    reports a failure if nothing was sent, exactly if there is room for the TCP
    header in front of the data that it gets. -/
theorem tx_buffer_ownership (s : NetStack α σ) (call : TxCall α σ) :
    TxSound s call.given (call.run cfg s) ↔ call.Fits s := by
  cases call with
  | ipOutput zb src dst proto =>
    exact iff_of_true (.of_handed (.ipOutput cfg s zb src dst proto) (Handed.ipOutput cfg)) trivial
  | udpOutput zb src dst =>
    exact iff_of_true (.of_handed (.udpOutput cfg s zb src dst) (Handed.udpOutput cfg)) trivial
  | tcpSendSegment sock flags data =>
    rcases data with _ | zb
    · exact iff_of_true (tcpSendSegment_none_sound cfg) trivial
    · exact tcpSendSegment_sound_iff cfg
  | tcpOutput sock zb => exact tcpOutput_sound_iff cfg
  | sockSend fd data => exact iff_of_true (sockSend_sound cfg fd data) trivial
  | sockSendZbuf fd zb => exact sockSendZbuf_sound_iff cfg fd
  | sockSendto fd data dst => exact iff_of_true (sockSendto_sound cfg fd data dst) trivial

end

/-- `sock_send_zbuf` on a connected socket loses a buffer without headroom. -/
theorem tx_buffer_leaked :
    let sock : Socket (Fin 2) (Fin 2) := { demoSocket with state := .established }
    let s := { demoStack with sock := fun _ => sock, socketTable := fun _ => some 0 }
    ¬ TxSound s (some 0) ((TxCall.sockSendZbuf 0 0).run demoNet s) := by
  intro sock s h
  have hstuck : (TxCall.sockSendZbuf 0 0).run demoNet s = (s, false) := rfl
  rw [hstuck] at h
  exact TxSound.not_self h

end Gracemont
