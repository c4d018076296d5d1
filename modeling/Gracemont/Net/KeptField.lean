/-
  Gracemont networking — fields of the stack that frames do not concern.

  Receiving a frame assigns to sockets, uses buffers and sends.  A field that
  none of these changes is the same after it; so `tcp_rto`, and for all frames
  but those of ARP the ARP cache.

  * `KeptField`: neither assignments to sockets nor sending change the field;
  * `KeptField.tcpInput`, `KeptField.ipInput`: then a packet does not.
-/
import Gracemont.Net.NetInput
import Gracemont.Net.Transmit

namespace Gracemont

variable {α σ γ : Type} [DecidableEq α] [DecidableEq σ]

/-- The field `g` of the stack has to do neither with sockets nor with sending. -/
structure KeptField (g : NetStack α σ → γ) : Prop where
  modify : ∀ s x f, g (s.modify x f) = g s
  transmitted : ∀ {s s'}, Transmitted s s' → g s' = g s
  queued : ∀ s pool log, g { s with pool := pool, log := log } = g s

namespace KeptField
variable {g : NetStack α σ → γ} (hg : KeptField g) (cfg : NetConfig α) {s s' : NetStack α σ}
include hg

/-! ## TCP -/

omit [DecidableEq α] in
theorem postRx (s : NetStack α σ) (x : σ) : g (postRx s x) = g s := hg.modify s x _

omit [DecidableEq α] in
theorem postTx (s : NetStack α σ) (x : σ) : g (postTx s x) = g s := hg.modify s x _

theorem queueRx (s : NetStack α σ) (x : σ) (zb : α) : g (queueRx s x zb) = g s :=
  (hg.modify _ x _).trans (hg.queued s _ _)

theorem tcpSendSegment (s : NetStack α σ) (x : σ) (flags : BitVec 8) (data : Option α) :
    g (tcpSendSegment cfg s x flags data).1 = g s := by
  obtain ⟨n, ht, -⟩ := tcpSendSegment_spec cfg s x flags data
  exact (hg.transmitted ht).trans (hg.modify s x _)

theorem receiveFin (s : NetStack α σ) (x : σ) (state : TcpState) :
    g (receiveFin cfg s x state) = g s :=
  (hg.tcpSendSegment cfg _ x tcpFlagAck none).trans (hg.modify s x _)

theorem receiveData (s : NetStack α σ) (x : σ) (seg : TcpSegment) (zb : α) :
    g (receiveData cfg s x seg zb).1 = g s := by
  have hpull := hg.transmitted (.pull s zb (seg.hdrLen.setWidth 16))
  unfold Gracemont.receiveData
  simp only
  split_ifs
  · exact (hg.tcpSendSegment cfg _ x _ _).trans
      ((hg.postRx _ x).trans ((hg.queueRx _ x zb).trans ((hg.modify _ x _).trans hpull)))
  · exact hpull
  · rfl

theorem receiveEstablished (s : NetStack α σ) (x : σ) (seg : TcpSegment) (zb : α) :
    g (receiveEstablished cfg s x seg zb).1 = g s := by
  unfold Gracemont.receiveEstablished
  simp only
  generalize hs₁ : (if hasFlag seg.flags tcpFlagAck then
    s.modify x fun k => { k with sndUna := seg.ack } else s) = s₁
  have hack : g s₁ = g s := by
    rw [← hs₁]
    split_ifs
    · exact hg.modify s x _
    · rfl
  have hdata := (hg.receiveData cfg s₁ x seg zb).trans hack
  split_ifs
  · exact (hg.postRx _ x).trans ((hg.receiveFin cfg _ x _).trans hdata)
  · exact hdata

theorem tcpReceive (s : NetStack α σ) (x : σ) (seg : TcpSegment) (zb : α) :
    g (tcpReceive cfg s x seg zb).1 = g s := by
  unfold Gracemont.tcpReceive
  cases (s.sock x).state with
  | listen =>
    simp only [receiveListen]
    split_ifs
    · exact (hg.tcpSendSegment cfg _ x _ _).trans (hg.modify s x _)
    · rfl
  | synSent =>
    simp only [receiveSynSent]
    split_ifs
    · exact (hg.postTx _ x).trans ((hg.tcpSendSegment cfg _ x _ _).trans (hg.modify s x _))
    · rfl
  | synReceived =>
    simp only [receiveSynReceived]
    split_ifs
    · exact (hg.postRx _ x).trans (hg.modify s x _)
    · rfl
  | established => exact hg.receiveEstablished cfg s x seg zb
  | finWait1 =>
    simp only [receiveFinWait1]
    split_ifs
    · exact (hg.receiveFin cfg _ x _).trans (hg.modify s x _)
    · exact (hg.modify _ x _).trans (hg.modify s x _)
    · rfl
  | finWait2 =>
    simp only
    split_ifs
    · exact hg.receiveFin cfg s x _
    · rfl
  | lastAck =>
    simp only
    split_ifs
    · exact hg.modify s x _
    · rfl
  | closeWait | timeWait | closed | closing => rfl

theorem tcpInput {fuel : ℕ} {zb : α} (h : tcpInput cfg fuel s zb = some s') : g s' = g s := by
  rcases tcpInput_cases cfg h with rfl | ⟨seg, tcpLen, rfl⟩ | ⟨-, x, -, s₁, rest, hrec, rfl⟩
  · exact hg.transmitted (.free s cfg zb)
  · exact hg.transmitted ((Transmitted.tcpSendRst cfg s seg tcpLen).trans (.free _ cfg zb))
  · have hreceive := hg.tcpReceive cfg s x (s.pool.zb zb).segment zb
    rw [hrec] at hreceive
    rcases rest with _ | zb'
    · exact hreceive
    · exact (hg.transmitted (.free s₁ cfg zb')).trans hreceive

/-! ## The other protocols -/

theorem icmpInput (s : NetStack α σ) (zb : α) : g (icmpInput cfg s zb) = g s := by
  unfold Gracemont.icmpInput
  simp only
  split_ifs
  · exact hg.transmitted (.free s cfg zb)
  · exact hg.transmitted ((Transmitted.setBuf s zb _).trans (.ipOutput cfg _ zb _ _ _))
  · exact hg.transmitted (.free s cfg zb)

theorem udpInput (s : NetStack α σ) (zb : α) : g (udpInput cfg s zb) = g s := by
  unfold Gracemont.udpInput
  simp only
  split_ifs
  · exact hg.transmitted (.free s cfg zb)
  rcases udpFindSocket s (be16 (s.pool.zb zb).space.byte ((s.pool.zb zb).data + 2)) with _ | x
  · exact hg.transmitted (.free s cfg zb)
  · exact (hg.postRx _ x).trans ((hg.queueRx _ x zb).trans
      ((hg.transmitted (.pull _ zb _)).trans (hg.modify s x _)))

theorem ipInput {fuel : ℕ} {nif : IpNetif α} {zb : α} (h : ipInput cfg fuel nif s zb = some s') :
    g s' = g s := by
  unfold Gracemont.ipInput ipDispatch at h
  simp only at h
  generalize hs₁ : (s.setBuf zb _).pull zb _ = s₁ at h
  have hpull : g s₁ = g s := by
    rw [← hs₁]
    exact hg.transmitted ((Transmitted.setBuf s zb _).trans (.pull _ zb _))
  split_ifs at h
  case pos | pos | pos =>
    cases h
    exact hg.transmitted (.free s cfg zb)
  · cases h
    exact (hg.icmpInput cfg s₁ zb).trans hpull
  · cases h
    exact (hg.udpInput cfg s₁ zb).trans hpull
  · exact (hg.tcpInput cfg h).trans hpull
  · cases h
    exact (hg.transmitted (.free s₁ cfg zb)).trans hpull

end KeptField

end Gracemont
