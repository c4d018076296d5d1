/-
  Gracemont networking — what the transmit path leaves unchanged.

  Sending changes buffers, the log and the IP identification; `Transmitted` says
  that nothing else changes and that nothing is put on a receive queue.  The one
  field of a socket that sending a segment changes is `snd_nxt`
  (`tcpSendSegment_spec`); an empty segment without SYN or FIN changes none
  (`tcpSendSegment_ack`).
-/
import Gracemont.Net.Socket

namespace Gracemont

variable {α σ : Type}

/-- The data of a buffer. -/
def payloadOf (z : Zbuf α) : List (BitVec 8) := bytesFrom z.space.byte z.data z.len.toNat

theorem payloadOf_length (z : Zbuf α) : (payloadOf z).length = z.len.toNat := by
  simp [payloadOf, bytesFrom]

/-- **A transmit buffer** is empty behind the headroom. -/
theorem NetStack.allocTx_some [DecidableEq α] {s s₁ : NetStack α σ} {size : BitVec 16} {zb : α}
    (h : s.allocTx size = (s₁, some zb)) :
    (s₁.pool.zb zb).data = configZbufHeadroom ∧ (s₁.pool.zb zb).len = 0 := by
  have hpool : (zbufAllocTx s.pool size).1 = s₁.pool := congrArg (fun r => r.1.pool) h
  have hzb : (zbufAllocTx s.pool size).2 = some zb := congrArg Prod.snd h
  obtain ⟨hdata, -, hlen⟩ := zbufAllocTx_some (Prod.ext hpool hzb)
  exact ⟨hdata, hlen⟩

/-- The event is no delivery to a socket. -/
def NetEvent.NotQueued : NetEvent α σ → Prop
  | .allocated _ | .freed _ | .sent _ _ => True
  | .queued _ _ _ => False

/-- Only buffers, the log and `ip_id` change, and no buffer is queued. -/
structure Transmitted (s s' : NetStack α σ) : Prop where
  sock : s'.sock = s.sock
  live : s'.live = s.live
  socketTable : s'.socketTable = s.socketTable
  nextFd : s'.nextFd = s.nextFd
  tcpListenList : s'.tcpListenList = s.tcpListenList
  tcpConnList : s'.tcpConnList = s.tcpConnList
  tcpRto : s'.tcpRto = s.tcpRto
  arpCache : s'.arpCache = s.arpCache
  ticks : s'.ticks = s.ticks
  log : ∃ new, s'.log = s.log ++ new ∧ ∀ e ∈ new, e.NotQueued

namespace Transmitted
variable {s s' s'' : NetStack α σ}

/-- A change of buffers and of `ip_id`. -/
theorem of_pool (s : NetStack α σ) (pool : ZbufPool α) (ipId : BitVec 16) :
    Transmitted s { s with pool := pool, ipId := ipId } :=
  ⟨rfl, rfl, rfl, rfl, rfl, rfl, rfl, rfl, rfl, [], by simp, by simp⟩

theorem refl (s : NetStack α σ) : Transmitted s s := of_pool s s.pool s.ipId

theorem trans (h : Transmitted s s') (h' : Transmitted s' s'') : Transmitted s s'' := by
  obtain ⟨new, hnew, hq⟩ := h.log
  obtain ⟨new', hnew', hq'⟩ := h'.log
  refine ⟨h'.sock.trans h.sock, h'.live.trans h.live, h'.socketTable.trans h.socketTable,
    h'.nextFd.trans h.nextFd, h'.tcpListenList.trans h.tcpListenList,
    h'.tcpConnList.trans h.tcpConnList, h'.tcpRto.trans h.tcpRto, h'.arpCache.trans h.arpCache,
    h'.ticks.trans h.ticks, new ++ new', ?_, ?_⟩
  · rw [hnew', hnew, List.append_assoc]
  · intro e he
    rcases List.mem_append.1 he with he | he
    · exact hq e he
    · exact hq' e he

variable [DecidableEq α]

theorem setBuf (s : NetStack α σ) (zb : α) (z : Zbuf α) : Transmitted s (s.setBuf zb z) :=
  of_pool s _ s.ipId

theorem pull (s : NetStack α σ) (zb : α) (len : BitVec 16) : Transmitted s (s.pull zb len) := by
  unfold NetStack.pull
  rcases zbufPull (s.pool.zb zb) len with _ | ⟨z, p⟩
  · exact refl s
  · exact setBuf s zb z

theorem free (s : NetStack α σ) (cfg : NetConfig α) (zb : α) : Transmitted s (s.free cfg zb) :=
  ⟨rfl, rfl, rfl, rfl, rfl, rfl, rfl, rfl, rfl, [.freed zb], rfl, by simp [NetEvent.NotQueued]⟩

omit [DecidableEq α] in
theorem send (s : NetStack α σ) (nif : IpNetif α) (zb : α) : Transmitted s (s.send nif zb).1 :=
  ⟨rfl, rfl, rfl, rfl, rfl, rfl, rfl, rfl, rfl, [.sent zb (s.pool.zb zb)], rfl,
    by simp [NetEvent.NotQueued]⟩

theorem allocTx (s : NetStack α σ) (size : BitVec 16) : Transmitted s (s.allocTx size).1 := by
  refine ⟨rfl, rfl, rfl, rfl, rfl, rfl, rfl, rfl, rfl, _, rfl, fun e he => ?_⟩
  obtain ⟨zb, -, rfl⟩ := Option.map_eq_some_iff.1 (Option.mem_toList.1 he)
  trivial

variable (cfg : NetConfig α)

theorem ethOutput (nif : IpNetif α) (s : NetStack α σ) (zb : α) (dstMac : Fin 6 → BitVec 8)
    (type : BitVec 16) : Transmitted s (ethOutput cfg nif s zb dstMac type).1 := by
  unfold Gracemont.ethOutput
  rcases zbufPush (s.pool.zb zb) ethHdrLen with _ | ⟨z, eth⟩
  · exact free s cfg zb
  · exact (setBuf s zb _).trans (send _ nif zb)

theorem arpResolve (s : NetStack α σ) (ip : BitVec 32) :
    Transmitted s (arpResolve cfg s ip).1 := by
  unfold Gracemont.arpResolve
  rcases arpFind ip s.arpCache with _ | e
  · rcases cfg.netifDefault with _ | nif
    · exact refl s
    · have halloc := allocTx s arpHdrLen
      generalize s.allocTx arpHdrLen = r at halloc ⊢
      rcases r with ⟨s₁, _ | zb⟩
      · exact halloc
      · exact (halloc.trans (setBuf _ zb _)).trans (ethOutput cfg nif _ zb _ _)
  · exact refl s

theorem ipOutput (s : NetStack α σ) (zb : α) (src dst : BitVec 32) (proto : BitVec 8) :
    Transmitted s (ipOutput cfg s zb src dst proto).1 := by
  unfold Gracemont.ipOutput
  rcases cfg.netifDefault with _ | nif
  · exact free s cfg zb
  simp only
  rcases zbufPush (s.pool.zb zb) ipHdrLen with _ | ⟨z, ip⟩
  · exact free s cfg zb
  simp only
  generalize hz : ({ z with space := _ } : Zbuf α) = z₁
  generalize hs : ({ s.setBuf zb z₁ with ipId := s.ipId + 1 } : NetStack α σ) = s₁
  have h₁ : Transmitted s s₁ := hs ▸ (setBuf s zb z₁).trans (of_pool _ _ _)
  split_ifs
  · exact h₁.trans (ethOutput cfg nif s₁ zb _ _)
  · have hr := h₁.trans (arpResolve cfg s₁ (nextHop nif dst))
    generalize Gracemont.arpResolve cfg s₁ (nextHop nif dst) = r at hr ⊢
    rcases r with ⟨s₂, st, mac⟩
    cases st
    case ok => exact hr.trans (ethOutput cfg nif s₂ zb mac _)
    all_goals exact hr.trans (free s₂ cfg zb)

theorem udpOutput (s : NetStack α σ) (zb : α) (src dst : Sockaddr) :
    Transmitted s (udpOutput cfg s zb src dst).1 := by
  unfold Gracemont.udpOutput
  rcases zbufPush (s.pool.zb zb) udpHdrLen with _ | ⟨z, udp⟩
  · exact free s cfg zb
  · exact (setBuf s zb _).trans (ipOutput cfg _ zb _ _ _)

theorem tcpSendRst (s : NetStack α σ) (seg : TcpSegment) (tcpLen : BitVec 16) :
    Transmitted s (tcpSendRst cfg s seg tcpLen) := by
  unfold Gracemont.tcpSendRst
  have halloc := allocTx s 0
  generalize s.allocTx 0 = r at halloc ⊢
  rcases r with ⟨s₁, _ | zb⟩
  · exact halloc
  simp only
  rcases zbufPush (s₁.pool.zb zb) tcpHdrLen with _ | ⟨z, tcp⟩
  · exact halloc.trans (free s₁ cfg zb)
  · exact (halloc.trans (setBuf _ zb _)).trans (ipOutput cfg _ zb _ _ _)

variable [DecidableEq σ]

omit [DecidableEq α] in
/-- Assignments to a socket next to what is sent. -/
theorem modify (h : Transmitted s s') (x : σ) (f : Socket α σ → Socket α σ) :
    Transmitted (s.modify x f) (s'.modify x f) := by
  refine ⟨?_, h.live, h.socketTable, h.nextFd, h.tcpListenList, h.tcpConnList, h.tcpRto, h.arpCache,
    h.ticks, h.log⟩
  show s'.sock.modify x f = s.sock.modify x f
  rw [h.sock]

end Transmitted

section
variable [DecidableEq α] [DecidableEq σ] (cfg : NetConfig α)

/-- **Sending a segment** only moves `snd_nxt`; without data, by at most the
    place of a SYN or FIN. -/
theorem tcpSendSegment_spec (s : NetStack α σ) (sock : σ) (flags : BitVec 8) (data : Option α) :
    ∃ n, Transmitted (s.modify sock fun k => { k with sndNxt := k.sndNxt + n })
        (tcpSendSegment cfg s sock flags data).1 ∧
      (data = none → n = 0 ∨ hasFlag flags (tcpFlagSyn ||| tcpFlagFin) ∧ n = 1) := by
  have hzero : s.modify sock (fun k => { k with sndNxt := k.sndNxt + 0 }) = s :=
    s.modify_id sock (by simp)
  have hbuf : Transmitted s (segmentBuf s data).1 := by
    unfold segmentBuf
    cases data with
    | none => exact .allocTx s 0
    | some zb => exact .refl s
  unfold tcpSendSegment
  rcases hr : segmentBuf s data with ⟨s₁, _ | zb⟩
  · rw [hr] at hbuf
    exact ⟨0, by rw [hzero]; exact hbuf, fun _ => .inl rfl⟩
  rw [hr] at hbuf
  simp only
  rcases hpush : zbufPush (s₁.pool.zb zb) tcpHdrLen with _ | ⟨z, tcp⟩
  · refine ⟨0, ?_, fun _ => .inl rfl⟩
    rw [hzero]
    by_cases hd : data = none
    · rw [if_pos hd]
      exact hbuf.trans (.free s₁ cfg zb)
    · rw [if_neg hd]
      exact hbuf
  · refine ⟨(if hasFlag flags (tcpFlagSyn ||| tcpFlagFin) then 1 else 0) +
      (z.len - tcpHdrLen).setWidth 32, ?_, ?_⟩
    · simp only [NetStack.modify_modify]
      refine Transmitted.trans ?_ (.ipOutput cfg _ zb _ _ _)
      have hadd : ∀ k : Socket α σ,
          (if hasFlag flags (tcpFlagSyn ||| tcpFlagFin) then k.sndNxt + 1 else k.sndNxt) +
              (z.len - tcpHdrLen).setWidth 32 =
            k.sndNxt + ((if hasFlag flags (tcpFlagSyn ||| tcpFlagFin) then 1 else 0) +
              (z.len - tcpHdrLen).setWidth 32) := by
        intro k
        by_cases hf : hasFlag flags (tcpFlagSyn ||| tcpFlagFin) = true
        · rw [if_pos hf, if_pos hf, BitVec.add_assoc]
        · simp [hf]
      simp only [hadd]
      exact (hbuf.trans (.setBuf s₁ zb _)).modify sock _
    · rintro rfl
      have hlen : z.len - tcpHdrLen = 0 := by
        obtain ⟨-, -, -, hz, -⟩ := zbufPush_some (n := tcpHdrLen) rfl hpush
        rw [hz, (NetStack.allocTx_some hr).2]
        rfl
      rw [hlen]
      by_cases hf : hasFlag flags (tcpFlagSyn ||| tcpFlagFin) = true
      · exact .inr ⟨hf, by rw [if_pos hf]; rfl⟩
      · exact .inl (by rw [if_neg hf]; rfl)

/-- A plain acknowledgement changes no socket. -/
theorem tcpSendSegment_ack (s : NetStack α σ) (sock : σ) :
    Transmitted s (tcpSendSegment cfg s sock tcpFlagAck none).1 := by
  obtain ⟨n, ht, hn⟩ := tcpSendSegment_spec cfg s sock tcpFlagAck none
  rcases hn rfl with rfl | ⟨hf, -⟩
  · rw [NetStack.modify_id] at ht
    · exact ht
    · simp
  · cases hf

end

end Gracemont
