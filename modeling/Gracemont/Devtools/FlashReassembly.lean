/-
  Gracemont developer tools — responses of the flasher in several chunks
  (`devtools/flasher/src/utils/flash-protocol.js`, `handleData`).

  The bytes of a response arrive in chunks, all of them before the next command
  is sent.  `handleData` takes the first two bytes, with what came together with
  the second one, for the whole response; the rest stays in the buffer.

  * `chunks`, `deliver`: the serial line and the chunks of one response;
  * `deliver_intact`, `deliver_cut`: what is made of a response that is whole
    from its second byte on, and of any other;
  * `runCalls_intact`: a run in which all responses are whole from the second
    byte on is the one in which each arrives in one chunk;
  * `reassembly_iff`: no other splitting gives the same results for all
    contents of the responses.
-/
import Mathlib.Data.List.TakeDrop
import Gracemont.Devtools.FlashProtocol

namespace Gracemont

open Lib

/-! ## Chunks -/

section
variable {β : Type}

/-- The bytes in chunks of the given lengths, with the rest in the last one. -/
def chunks : List ℕ → List β → List (List β)
  | [], l => [l]
  | n :: ns, l => l.take n :: chunks ns (l.drop n)

/-- `handleData` for each chunk, and the promise that was resolved. -/
def FlashProtocol.deliver (p : FlashProtocol β) :
    List (List β) → FlashProtocol β × Option (ℕ × FlashResponse β)
  | [] => (p, none)
  | chunk :: rest =>
    match p.handleData chunk with
    | (p', none) => deliver p' rest
    | (p', some r) => ((deliver p' rest).1, some r)

theorem flatten_chunks (ns : List ℕ) (l : List β) : (chunks ns l).flatten = l := by
  induction ns generalizing l with
  | nil => simp [chunks]
  | cons n ns ih => rw [chunks, List.flatten_cons, ih, List.take_append_drop]

/-- Of a response of `n` bytes nothing is cut off after the second byte: no
    place of a cut is from two on and below `n`. -/
def Intact (cuts : List ℕ) (n : ℕ) : Prop := ∀ k, 2 ≤ (cuts.take k).sum → n ≤ (cuts.take k).sum

namespace FlashProtocol
variable {b l : List β} {promise : ℕ} {timeout : Option ℕ}

/-- What comes after the resolution stays in the buffer. -/
theorem deliver_idle (ls : List (List β)) :
    deliver ⟨b, none, timeout⟩ ls = (⟨b ++ ls.flatten, none, timeout⟩, none) := by
  induction ls generalizing b with
  | nil => rw [deliver, List.flatten_nil, List.append_nil]
  | cons a ls ih =>
    rw [deliver, handleData_idle]
    exact ih.trans (by rw [List.flatten_cons, List.append_assoc])

/-- The chunks up to the one with the second byte. -/
theorem deliver_short {n : ℕ} {ns : List ℕ} (h : (b ++ l.take n).length < 2) :
    deliver ⟨b, some promise, timeout⟩ (chunks (n :: ns) l) =
      deliver ⟨b ++ l.take n, some promise, timeout⟩ (chunks ns (l.drop n)) := by
  rw [chunks, deliver, handleData_short h]

theorem deliver_full {a : List β} {ls : List (List β)} {r : FlashResponse β}
    (h : response (b ++ a) = some r) :
    deliver ⟨b, some promise, timeout⟩ (a :: ls) =
      (⟨ls.flatten, none, timeout⟩, some (promise, r)) := by
  rw [deliver, handleData_full h]
  change ((deliver ⟨[], none, timeout⟩ ls).1, _) = _
  rw [deliver_idle, List.nil_append]

/-- If all that follows the second byte comes with it, the response is whole
    and nothing is left. -/
theorem deliver_intact {ns : List ℕ} {r : FlashResponse β} (hb : b.length < 2)
    (hr : response (b ++ l) = some r)
    (h : ∀ k, 2 ≤ b.length + (ns.take k).sum → l.length ≤ (ns.take k).sum) :
    deliver ⟨b, some promise, timeout⟩ (chunks ns l) =
      (⟨[], none, timeout⟩, some (promise, r)) := by
  induction ns generalizing b l with
  | nil => exact deliver_full hr
  | cons n ns ih =>
    by_cases hshort : (b ++ l.take n).length < 2
    · rw [deliver_short hshort]
      by_cases hn : n ≤ l.length
      · have hlen : (b ++ l.take n).length = b.length + n := by simp [hn]
        refine ih hshort ?_ fun k hk => ?_
        · rwa [List.append_assoc, List.take_append_drop]
        · have hcut := h (k + 1) (by rw [List.take_succ_cons, List.sum_cons]; omega)
          rw [List.take_succ_cons, List.sum_cons] at hcut
          rw [List.length_drop]
          omega
      · -- all bytes are in this chunk, and they are less than two
        rw [List.take_of_length_le (by omega)] at hshort
        have hbytes := congrArg List.length (response_eq_some.1 hr)
        simp only [FlashResponse.bytes, List.length_cons] at hbytes
        omega
    · have hall : l.length ≤ n := by
        have hcut := h 1
        rw [List.take_succ_cons, List.take_zero, List.sum_singleton] at hcut
        rw [List.length_append, List.length_take] at hshort
        omega
      rw [chunks, List.take_of_length_le hall, deliver_full hr, flatten_chunks,
        List.drop_eq_nil_of_le hall]

/-- If some of it comes later, it is missing in the response. -/
theorem deliver_cut {ns : List ℕ} {k : ℕ} (hb : b.length < 2)
    (h2 : 2 ≤ b.length + (ns.take k).sum) (hk : (ns.take k).sum < l.length) :
    ∃ m r, m < b.length + l.length ∧ response ((b ++ l).take m) = some r ∧
      (deliver ⟨b, some promise, timeout⟩ (chunks ns l)).2 = some (promise, r) := by
  induction ns generalizing b l k with
  | nil =>
    rw [List.take_nil, List.sum_nil] at h2
    omega
  | cons n ns ih =>
    cases k with
    | zero =>
      rw [List.take_zero, List.sum_nil] at h2
      omega
    | succ k =>
      rw [List.take_succ_cons, List.sum_cons] at h2 hk
      have hlen : (b ++ l.take n).length = b.length + n := by
        rw [List.length_append, List.length_take]
        omega
      by_cases hshort : b.length + n < 2
      · rw [deliver_short (hlen ▸ hshort)]
        obtain ⟨m, r, hm, hr, hd⟩ := ih (k := k) (b := b ++ l.take n) (l := l.drop n)
          (hlen ▸ hshort) (by omega) (by rw [List.length_drop]; omega)
        rw [List.append_assoc, List.take_append_drop] at hr
        rw [hlen, List.length_drop] at hm
        exact ⟨m, r, by omega, hr, hd⟩
      · obtain ⟨r, hr⟩ := exists_response (l := b ++ l.take n) (by omega)
        refine ⟨b.length + n, r, by omega, ?_, ?_⟩
        · rw [List.take_length_add_append]
          exact hr
        · rw [chunks, deliver_full hr]

end FlashProtocol

end

/-! ## The serial line -/

/-- The number of data bytes in the response to a command. -/
def FlashCommand.dataLen (c : FlashCommand) : ℕ :=
  if c.cmd = CMD.INFO then 12 else if c.cmd = CMD.VERIFY then 4 else 0

/-- The contents of a response, which has as many data bytes as its command
    asks for. -/
structure WireResponse where
  cmd : BitVec 8
  status : BitVec 8
  data : ℕ → BitVec 8

def WireResponse.toResponse (w : WireResponse) (c : FlashCommand) : FlashResponse (BitVec 8) :=
  ⟨w.cmd, w.status, (List.range c.dataLen).map w.data⟩

/-- A device at the serial line, with the object at this end and the number of
    commands so far.  All bytes of a response come before the next command. -/
def serialLink (responses : ℕ → WireResponse) (cuts : ℕ → List ℕ) :
    FlashDevice (FlashProtocol (BitVec 8) × ℕ) :=
  fun s c =>
    match (s.1.sendCommand s.2).deliver
      (chunks (cuts s.2) ((responses s.2).toResponse c).bytes) with
    | (p, some (_, r)) => ((p, s.2 + 1), .ok r)
    | (p, none) => ((p.timedOut, s.2 + 1), .error "Command timeout")

/-- Every response in one chunk. -/
def whole : ℕ → List ℕ := fun _ => []

theorem whole_intact (i n : ℕ) : Intact (whole i) n := fun k h => by
  rw [whole, List.take_nil, List.sum_nil] at h
  omega

theorem Intact.two (cuts : List ℕ) : Intact cuts 2 := fun _ h => h

section
variable {responses responses' : ℕ → WireResponse} {cuts : ℕ → List ℕ}
  {s : FlashProtocol (BitVec 8) × ℕ} {calls : List FlashCall}

theorem toResponse_length (w : WireResponse) (c : FlashCommand) :
    (w.toResponse c).bytes.length = c.dataLen + 2 := by
  simp [WireResponse.toResponse, FlashResponse.bytes]

theorem serialLink_intact {c : FlashCommand} (hs : s.1.responseBuffer = [])
    (h : Intact (cuts s.2) (c.dataLen + 2)) :
    serialLink responses cuts s c =
      ((⟨[], none, some s.2⟩, s.2 + 1), .ok ((responses s.2).toResponse c)) := by
  have hd : FlashProtocol.deliver ⟨[], some s.2, some s.2⟩
      (chunks (cuts s.2) ((responses s.2).toResponse c).bytes) =
      (⟨[], none, some s.2⟩, some (s.2, (responses s.2).toResponse c)) :=
    FlashProtocol.deliver_intact Nat.two_pos (FlashProtocol.response_eq_some.2 rfl) fun k hk =>
      Nat.le_trans (Nat.le_of_eq (toResponse_length ..))
        (h k (by rwa [List.length_nil, Nat.zero_add] at hk))
  rw [serialLink, FlashProtocol.sendCommand, hs, hd]

theorem serialLink_count (c : FlashCommand) :
    (serialLink responses cuts s c).1.2 = s.2 + 1 := by
  rw [serialLink]
  split <;> rfl

/-- Between states that are the same and have nothing in the buffer. -/
def SameClean (a b : FlashProtocol (BitVec 8) × ℕ) : Prop := b = a ∧ a.1.responseBuffer = []

/-- A response that is whole from its second byte on is as good as one in one
    chunk. -/
theorem serialLink_whole_eq {v t : FlashProtocol (BitVec 8) × ℕ} {c : FlashCommand}
    (h : Intact (cuts v.2) (c.dataLen + 2)) (ht : SameClean v t) :
    SameClean (serialLink responses whole v c).1 (serialLink responses cuts t c).1 ∧
      (serialLink responses whole v c).2 = (serialLink responses cuts t c).2 := by
  obtain ⟨rfl, hclean⟩ := ht
  rw [serialLink_intact hclean h, serialLink_intact hclean (whole_intact _ _)]
  exact ⟨⟨rfl, rfl⟩, rfl⟩

/-- So a run in which all are is the run in which each comes in one chunk. -/
theorem runCalls_intact (hs : s.1.responseBuffer = [])
    (h : ∀ v ∈ sentCommands (serialLink responses whole) s calls,
      Intact (cuts v.1.2) (v.2.dataLen + 2)) :
    (runCalls (serialLink responses cuts) s calls).2 =
      (runCalls (serialLink responses whole) s calls).2 :=
  (runCalls_congr ⟨rfl, hs⟩ fun v hv _ ht => serialLink_whole_eq (h v hv) ht).2.symm

theorem run_intact {α : Type} (d : FlashTask α) (hs : s.1.responseBuffer = [])
    (h : ∀ v ∈ Dialogue.asked (serialLink responses whole) s d,
      Intact (cuts v.1.2) (v.2.dataLen + 2)) :
    Dialogue.run (serialLink responses cuts) s d = Dialogue.run (serialLink responses whole) s d ∧
      (Dialogue.run (serialLink responses whole) s d).1.1.responseBuffer = [] := by
  obtain ⟨⟨hstate, hclean⟩, hres⟩ :=
    Dialogue.run_congr d ⟨rfl, hs⟩ fun v hv _ ht => serialLink_whole_eq (h v hv) ht
  exact ⟨Prod.ext hstate hres.symm, hclean⟩

/-- The run depends on the responses from its start on only. -/
theorem runCalls_later (h : ∀ i ≥ s.2, responses i = responses' i) :
    (runCalls (serialLink responses cuts) s calls).2 =
      (runCalls (serialLink responses' cuts) s calls).2 := by
  refine (runCalls_congr (R := fun a b => b = a ∧ s.2 ≤ a.2) ⟨rfl, Nat.le_refl _⟩ ?_).2
  rintro v - t ⟨rfl, hle⟩
  have heq : serialLink responses cuts v.1 v.2 = serialLink responses' cuts v.1 v.2 := by
    rw [serialLink, serialLink, h _ hle]
  have hcount : (serialLink responses cuts v.1 v.2).1.2 = v.1.2 + 1 := serialLink_count _
  rw [← heq]
  exact ⟨⟨rfl, by omega⟩, rfl⟩

/-- One call depends on the responses before its end only. -/
theorem run_earlier {α : Type} (d : FlashTask α)
    (h : ∀ i < (Dialogue.run (serialLink responses cuts) s d).1.2, responses i = responses' i) :
    Dialogue.run (serialLink responses' cuts) s d =
      Dialogue.run (serialLink responses cuts) s d := by
  have hlt := (Dialogue.asked_lt (f := serialLink responses cuts) (m := Prod.snd)
    (fun s c => by rw [serialLink_count]; omega) s d).2
  obtain ⟨hR, hres⟩ := Dialogue.run_congr (f := serialLink responses cuts)
    (g := serialLink responses' cuts) (R := fun a b => b = a) (s := s) d rfl
    fun v hv t ht => by
      subst ht
      have heq : serialLink responses cuts v.1 v.2 = serialLink responses' cuts v.1 v.2 := by
        rw [serialLink, serialLink, h _ (hlt v hv)]
      rw [heq]
      exact ⟨rfl, rfl⟩
  exact Prod.ext hR hres.symm

/-! ## Other splittings -/

/-- Responses that report success, with data of ones. -/
def onesResponses : ℕ → WireResponse := fun _ => ⟨0, RESP.OK, fun _ => 0xFF⟩

/-- A response that is cut lacks some of its data. -/
theorem serialLink_cut {c : FlashCommand} (hs : s.1.responseBuffer = [])
    (h : ¬Intact (cuts s.2) (c.dataLen + 2)) :
    ∃ j < c.dataLen, (serialLink onesResponses cuts s c).2 =
      .ok ⟨0, RESP.OK, List.replicate j 0xFF⟩ := by
  obtain ⟨k, hk⟩ := Classical.not_forall.1 h
  obtain ⟨h2, hlt⟩ := Classical.not_imp.1 hk
  have hlen := toResponse_length (onesResponses s.2) c
  obtain ⟨m, r, hm, hr, hd⟩ : ∃ m r, m < 0 + ((onesResponses s.2).toResponse c).bytes.length ∧
      FlashProtocol.response (((onesResponses s.2).toResponse c).bytes.take m) = some r ∧
      (FlashProtocol.deliver ⟨[], some s.2, some s.2⟩
        (chunks (cuts s.2) ((onesResponses s.2).toResponse c).bytes)).2 = some (s.2, r) :=
    FlashProtocol.deliver_cut (b := []) (k := k) Nat.two_pos (by simpa using h2) (by omega)
  have hbytes : ((onesResponses s.2).toResponse c).bytes =
      0 :: RESP.OK :: List.replicate c.dataLen 0xFF := by
    simp [onesResponses, WireResponse.toResponse, FlashResponse.bytes, List.map_const']
  have hres : (serialLink onesResponses cuts s c).2 = .ok r := by
    rw [serialLink, FlashProtocol.sendCommand, hs]
    split
    · rename_i hp
      rw [hp] at hd
      cases hd
      rfl
    · rename_i hp
      rw [hp] at hd
      cases hd
  rw [hbytes] at hr
  rcases m with _ | _ | j
  · cases hr
  · cases hr
  · refine ⟨j, by omega, hres.trans ?_⟩
    rw [List.take_succ_cons, List.take_succ_cons, List.take_replicate,
      Nat.min_eq_left (by omega)] at hr
    cases hr
    rfl

theorem serialLink_ones {c : FlashCommand} (hs : s.1.responseBuffer = []) :
    (serialLink onesResponses whole s c).2 = .ok ⟨0, RESP.OK, List.replicate c.dataLen 0xFF⟩ := by
  rw [serialLink_intact hs (whole_intact _ _)]
  simp [onesResponses, WireResponse.toResponse, List.map_const']

theorem run_info {σ : Type} {device : FlashDevice σ} {t : σ} {data : List (BitVec 8)}
    (h : (device t ⟨CMD.INFO, [], 5000⟩).2 = .ok ⟨0, RESP.OK, data⟩) :
    (Dialogue.run device t FlashCall.info.task).2.2 =
      .ok (.info ⟨dataWord data 0, dataWord data 4, dataWord data 8⟩) := by
  change (Dialogue.run device t (.ask _ _)).2.2 = _
  rw [Dialogue.run, h]
  rfl

theorem run_verify {σ : Type} {device : FlashDevice σ} {t : σ} {address size : ℕ}
    {data : List (BitVec 8)}
    (h : (device t ⟨CMD.VERIFY, numberBytes address ++ numberBytes size, 10000⟩).2 =
      .ok ⟨0, RESP.OK, data⟩) :
    (Dialogue.run device t (FlashCall.verify address size).task).2.2 =
      .ok (.crc (dataWord data 0)) := by
  change (Dialogue.run device t (.ask _ _)).2.2 = _
  rw [Dialogue.run, h]
  rfl

theorem ones_info : ∀ j < 12, FlashResult.info ⟨dataWord (List.replicate j 0xFF) 0,
    dataWord (List.replicate j 0xFF) 4, dataWord (List.replicate j 0xFF) 8⟩ ≠
    .info ⟨dataWord (List.replicate 12 0xFF) 0, dataWord (List.replicate 12 0xFF) 4,
      dataWord (List.replicate 12 0xFF) 8⟩ := by
  decide

theorem ones_crc : ∀ j < 4, FlashResult.crc (dataWord (List.replicate j 0xFF) 0) ≠
    .crc (dataWord (List.replicate 4 0xFF) 0) := by
  decide

theorem writeCommands_cmd {data : List (BitVec 8)} {turns offset address : ℕ} {c : FlashCommand}
    (hc : c ∈ writeCommands data turns offset address) : c.cmd = CMD.WRITE := by
  induction turns generalizing offset address with
  | zero => cases hc
  | succ turns ih =>
    rw [writeCommands] at hc
    split_ifs at hc with hlt
    · rcases List.mem_cons.1 hc with rfl | hc
      · rfl
      · exact ih hc
    · cases hc

/-- A call with data in a response has one command. -/
theorem FlashCall.commands_cases {call : FlashCall} {c : FlashCommand} (hc : c ∈ call.commands) :
    c.dataLen = 0 ∨
      call.commands = [c] ∧ (call = .info ∨ ∃ address size, call = .verify address size) := by
  cases call with
  | info => exact .inr ⟨by rw [List.mem_singleton.1 hc]; rfl, .inl rfl⟩
  | verify address size => exact .inr ⟨by rw [List.mem_singleton.1 hc]; rfl, .inr ⟨_, _, rfl⟩⟩
  | write address data => exact .inl (by rw [FlashCommand.dataLen, writeCommands_cmd hc]; rfl)
  | erase | reset => exact .inl (by rw [List.mem_singleton.1 hc]; rfl)

/-- The methods that look at the data of a response return something else if it
    lacks some: if they do not, the response is whole from the second byte
    on. -/
theorem asked_intact {call : FlashCall} (hs : s.1.responseBuffer = [])
    (h : (Dialogue.run (serialLink onesResponses cuts) s call.task).2.2 =
      (Dialogue.run (serialLink onesResponses whole) s call.task).2.2)
    {v : (FlashProtocol (BitVec 8) × ℕ) × FlashCommand}
    (hv : v ∈ Dialogue.asked (serialLink responses whole) s call.task) :
    Intact (cuts v.1.2) (v.2.dataLen + 2) := by
  have hc := (call.insists.asked_prefix s).subset (List.mem_map_of_mem hv)
  rcases FlashCall.commands_cases hc with h0 | ⟨hone, hcall⟩
  · rw [h0]
    exact Intact.two _
  · have hins := call.insists
    rw [hone] at hins
    have hs' : v.1 = s := by
      rw [hins.asked_single s] at hv
      exact congrArg Prod.fst (List.mem_singleton.1 hv)
    rw [hs']
    refine Classical.byContradiction fun hcut => ?_
    obtain ⟨j, hj, hcut⟩ := serialLink_cut hs hcut
    have hones : (serialLink onesResponses whole s v.2).2 = _ := serialLink_ones hs
    rcases hcall with rfl | ⟨address, size, rfl⟩
    · rw [List.mem_singleton.1 hc] at hj hcut hones
      rw [run_info hcut, run_info hones] at h
      exact ones_info j hj (Except.ok.inj h)
    · rw [List.mem_singleton.1 hc] at hj hcut hones
      rw [run_verify hcut, run_verify hones] at h
      exact ones_crc j hj (Except.ok.inj h)

/-- If the results never depend on the splitting, all responses are whole from
    the second byte on. -/
theorem sentCommands_intact (hs : s.1.responseBuffer = [])
    (h : ∀ responses, (runCalls (serialLink responses cuts) s calls).2 =
      (runCalls (serialLink responses whole) s calls).2) :
    ∀ v ∈ sentCommands (serialLink responses whole) s calls,
      Intact (cuts v.1.2) (v.2.dataLen + 2) := by
  induction calls generalizing s with
  | nil => exact fun v hv => by cases hv
  | cons call calls ih =>
    have hfirst : ∀ responses, ∀ v ∈ Dialogue.asked (serialLink responses whole) s call.task,
        Intact (cuts v.1.2) (v.2.dataLen + 2) := fun responses v hv =>
      asked_intact hs (List.cons.inj (h onesResponses)).1 hv
    intro v hv
    rcases List.mem_append.1 hv with hv | hv
    · exact hfirst responses v hv
    · have hclean := (run_intact call.task hs (hfirst responses)).2
      refine ih hclean (fun responses' => ?_) v hv
      -- the responses of the first call, and then any others
      let joint : ℕ → WireResponse := fun i =>
        if i < (Dialogue.run (serialLink responses whole) s call.task).1.2 then responses i
        else responses' i
      have hjoint : Dialogue.run (serialLink joint whole) s call.task =
          Dialogue.run (serialLink responses whole) s call.task :=
        run_earlier _ fun i hi => (if_pos hi).symm
      have htail := (List.cons.inj (h joint)).2
      rw [(run_intact call.task hs (hfirst joint)).1, hjoint] at htail
      have hlater : ∀ i ≥ (Dialogue.run (serialLink responses whole) s call.task).1.2,
          joint i = responses' i := fun i hi => if_neg (Nat.not_lt.2 hi)
      rwa [runCalls_later hlater, runCalls_later hlater] at htail

end

/-- The object before any command. -/
def freshLink : FlashProtocol (BitVec 8) × ℕ := ({}, 0)

/-- **Reassembly.**  The results of the methods are those of whole responses, for
    all contents of the responses, exactly if of no response that the calls can
    get anything is cut off after its second byte. -/
theorem reassembly_iff (calls : List FlashCall) (cuts : ℕ → List ℕ) :
    (∀ responses, (runCalls (serialLink responses cuts) freshLink calls).2 =
      (runCalls (serialLink responses whole) freshLink calls).2) ↔
    ∀ responses, ∀ v ∈ sentCommands (serialLink responses whole) freshLink calls,
      Intact (cuts v.1.2) (v.2.dataLen + 2) :=
  ⟨fun h _ => sentCommands_intact rfl h, fun h responses => runCalls_intact rfl (h responses)⟩

/-- A `VERIFY` response of which the last four bytes come in a second chunk:
    `verifyBlock` returns zero. -/
theorem verify_in_two_chunks :
    (runCalls (serialLink onesResponses fun _ => [2]) freshLink [.verify 0x40000000 256]).2 ≠
      (runCalls (serialLink onesResponses whole) freshLink [.verify 0x40000000 256]).2 := by
  decide +kernel

end Gracemont
