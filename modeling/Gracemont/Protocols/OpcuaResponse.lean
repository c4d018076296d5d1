/-
  Gracemont protocols — the size of OPC UA responses.

  A response is written to a buffer of 1024 bytes on the stack, and announces as
  many results as the request has entries.

  * `opcuaValueSize`: the bytes of an encoded value;
  * `opcuaReadTotal`: those of the results of a read request;
  * `OpcuaReadOk`, `OpcuaWriteOk`: the response fits and has the results that it
    announces;
  * `opcua_response_iff`: which requests have such responses.
-/
import Gracemont.Protocols.OpcuaWriteFrame

namespace Gracemont

open Lib

variable {ρ β : Type}

/-! ## Sizes -/

theorem mapM_id_eq_some {γ : Type} {l : List (Option γ)} {l' : List γ} :
    l.mapM id = some l' ↔ l = l'.map some := by
  induction l generalizing l' with
  | nil => cases l' <;> simp
  | cons a l ih =>
    cases a with
    | none => cases l' <;> simp [List.mapM_cons]
    | some a =>
      cases l' with
      | nil => cases hl : l.mapM id <;> simp [List.mapM_cons, hl]
      | cons b l' =>
        rw [List.map_cons, List.cons.injEq, ← ih, List.mapM_cons]
        cases hl : l.mapM id <;> simp

/-- The bytes of an encoded node id. -/
def OpcuaNodeid.width (nodeId : OpcuaNodeid ρ) : ℕ :=
  match nodeId.id with
  | .numeric n =>
    if nodeId.ns = 0 ∧ n < 256 then 2 else if nodeId.ns < 256 ∧ n < 65536 then 4 else 7
  | .string _ len => 7 + len.toNat
  | .guid _ | .byteString _ _ => 0

/-- The bytes of an encoded value, unless it is a string without an end. -/
def opcuaValueSize (mem : Regions ρ) : OpcuaVariant ρ → Option ℕ
  | .boolean _ => some 2
  | .scalar t _ => some (1 + t.width)
  | .string none _ => some 5
  | .string (some str) _ => (mem.strlen str).map fun n => 5 + n % 2 ^ 32
  | .nodeid nodeId => some (1 + nodeId.width)
  | .other _ _ => some 1

theorem opcuaEncodeNodeid_length (mem : Regions ρ) (nodeId : OpcuaNodeid ρ) :
    (opcuaEncodeNodeid mem nodeId).length = nodeId.width := by
  obtain ⟨ns, id⟩ := nodeId
  cases id with
  | numeric n =>
    simp only [opcuaEncodeNodeid, OpcuaNodeid.width]
    split_ifs
    · simp
    · simp
    · simp
  | string data len =>
    simp [opcuaEncodeNodeid, OpcuaNodeid.width]
    omega
  | guid bytes => rfl
  | byteString data len => rfl

/-- **The size of an encoded value.** -/
theorem opcuaEncodeVariant_length (mem : Regions ρ) (v : OpcuaVariant ρ) :
    (opcuaEncodeVariant mem v).map List.length = opcuaValueSize mem v := by
  cases v with
  | boolean b => simp [opcuaEncodeVariant, opcuaValueSize]
  | scalar t bits => simp [opcuaEncodeVariant, opcuaValueSize]
  | string data len =>
    cases data with
    | none => simp [opcuaEncodeVariant, opcuaEncodeString, opcuaValueSize]
    | some str =>
      cases hn : mem.strlen str with
      | none => rw [opcuaEncodeVariant, opcuaEncodeString_none hn, opcuaValueSize, hn]; rfl
      | some n =>
        rw [opcuaEncodeVariant, opcuaEncodeString_some hn, opcuaValueSize, hn]
        simp
        omega
  | nodeid nodeId => simp [opcuaEncodeVariant, opcuaEncodeNodeid_length, opcuaValueSize]
  | other type content => simp [opcuaEncodeVariant, opcuaValueSize]

section
variable [DecidableEq β] (mem : Regions ρ)

/-- The bytes of the results for these nodes, each with the value that `on_read`
    leaves. -/
def opcuaReadTotal : OpcuaServer ρ β → List (OpcuaNodeid ρ) → Option ℕ
  | _, [] => some 0
  | s, id :: l =>
    match opcuaFindNode s id with
    | some node => do
      let s := s.notifyRead id node
      let n ← opcuaValueSize mem (s.nodes node).value
      let rest ← opcuaReadTotal s l
      some (1 + n + rest)
    | none => (opcuaReadTotal s l).map (5 + ·)

/-- **The size of results.** -/
theorem opcuaReadTotal_eq (s : OpcuaServer ρ β) (l : List (OpcuaNodeid ρ)) :
    ((Loop.collect (opcuaGetValue mem) s l).2.mapM id).map (fun results => results.flatten.length) =
      opcuaReadTotal mem s l := by
  induction l generalizing s with
  | nil => rfl
  | cons nodeId l ih =>
    rw [Loop.collect, opcuaReadTotal, opcuaGetValue]
    cases hnode : opcuaFindNode s nodeId with
    | none =>
      simp only [← ih, List.mapM_cons]
      cases (Loop.collect (opcuaGetValue mem) s l).2.mapM id with
      | none => rfl
      | some results => simp
    | some node =>
      have hsize := opcuaEncodeVariant_length mem ((s.notifyRead nodeId node).nodes node).value
      simp only [← ih, ← hsize, List.mapM_cons]
      cases opcuaEncodeVariant mem ((s.notifyRead nodeId node).nodes node).value with
      | none => rfl
      | some bytes =>
        cases (Loop.collect (opcuaGetValue mem) (s.notifyRead nodeId node) l).2.mapM id with
        | none => rfl
        | some results => simp

end

/-! ## Responses -/

section
variable (env : OpcuaEnv ρ) (s : OpcuaServer ρ β) (m : ℕ → BitVec 8) (p : ℕ)

theorem opcuaServiceHead_length : (opcuaServiceHead s m p).length = 16 := by
  simp [opcuaServiceHead]

theorem opcuaResponseHeader_length (typeId : BitVec 16) (ticks status : BitVec 32) :
    (opcuaResponseHeader typeId ticks status).length = 29 := by
  simp [opcuaResponseHeader, opcuaTimestamp]

/-- A read response has 53 bytes around its results. -/
theorem opcuaReadBody_length (nodeCount : BitVec 32) (results : List (List (BitVec 8))) :
    (opcuaServiceHead s m p ++ opcuaReadBody env nodeCount results).length =
      53 + results.flatten.length := by
  simp only [opcuaReadBody, opcuaWriteResults, List.length_append, opcuaServiceHead_length,
    opcuaResponseHeader_length, writeU32_length]
  omega

/-- So has a write response, and its results have four bytes each. -/
theorem opcuaWriteBody_length (nodeCount : BitVec 32) (results : List (BitVec 32)) :
    (opcuaServiceHead s m p ++ opcuaWriteBody env nodeCount results).length =
      53 + 4 * results.length := by
  have hresults : (results.map writeU32).flatten.length = 4 * results.length := by
    induction results with
    | nil => rfl
    | cons v l ih =>
      rw [List.map_cons, List.flatten_cons, List.length_append, ih, writeU32_length,
        List.length_cons]
      omega
  simp only [opcuaWriteBody, opcuaWriteResults, List.length_append, opcuaServiceHead_length,
    opcuaResponseHeader_length, writeU32_length, hresults]
  omega

theorem opcuaIterations_eq_iff (nodeCount : BitVec 32) :
    opcuaIterations nodeCount = nodeCount.toNat ↔ nodeCount.toNat ≤ 16 := by
  unfold opcuaIterations
  omega

end

section
variable [DecidableEq β] (env : OpcuaEnv ρ) (mem : Regions ρ) (r : ρ) (s : OpcuaServer ρ β)
  (m : ℕ → BitVec 8) (p : ℕ)

/-- The response to the read request at `p` is defined, fits its buffer, and has as
    many results as it announces, where each iteration of the loop writes one. -/
def OpcuaReadOk : Prop :=
  ∃ s' results,
    (opcuaReadAll env mem r { s with sequenceNum := s.sequenceNum + 1 } m p).2 = results.map some ∧
    (opcuaDispatch env mem r s m (Cursor.start p)).1 = .respond s' opcuaMsgMsg
      (some (opcuaServiceHead s m p ++ opcuaReadBody env (opcuaReadCount m p) results)) ∧
    results.length = (opcuaReadCount m p).toNat ∧
    (opcuaServiceHead s m p ++ opcuaReadBody env (opcuaReadCount m p) results).length ≤ opcuaRespSize

/-- The same for the write request at `p`. -/
def OpcuaWriteOk : Prop :=
  ∃ s' results,
    (opcuaDispatch env mem r s m (Cursor.start p)).1 = .respond s' opcuaMsgMsg
      (some (opcuaServiceHead s m p ++ opcuaWriteBody env (opcuaWriteCount m p) results)) ∧
    results.length = (opcuaWriteCount m p).toNat ∧
    (opcuaServiceHead s m p ++ opcuaWriteBody env (opcuaWriteCount m p) results).length ≤ opcuaRespSize

variable {m p}

/-- **The response** to a read request. -/
theorem opcuaDispatch_read (hmsg : Holds m p opcuaMsgMsg) (htype : opcuaTypeId m p = 631) :
    let out := opcuaReadAll env mem r { s with sequenceNum := s.sequenceNum + 1 } m p
    (opcuaDispatch env mem r s m (Cursor.start p)).1 = .respond out.1 opcuaMsgMsg
      ((out.2.mapM id).map fun results =>
        opcuaServiceHead s m p ++ opcuaReadBody env (opcuaReadCount m p) results) := by
  have hfst := opcuaServiceAt_read_fst (m := m) (p := p) env mem r s htype
  rw [opcuaDispatch_msg env mem r s hmsg]
  simp only [hfst, Option.map_map]
  rfl

theorem opcuaReadAll_length (m : ℕ → BitVec 8) (p : ℕ) :
    (opcuaReadAll env mem r s m p).2.length = opcuaIterations (opcuaReadCount m p) := by
  rw [opcuaReadAll, Loop.collect_length, opcuaReadEntries, List.length_map, List.length_range]

theorem opcuaWriteAll_length (m : ℕ → BitVec 8) (p : ℕ) :
    (opcuaWriteAll env r s m p).2.length = opcuaIterations (opcuaWriteCount m p) := by
  rw [opcuaWriteAll, Loop.collect_length, opcuaWriteEntries, List.length_map, List.length_range]

variable {env mem r s} in
theorem opcuaReadAll_total {results : List (List (BitVec 8))}
    (h : (opcuaReadAll env mem r s m p).2 = results.map some) :
    opcuaReadTotal mem s (opcuaReadEntries m p env r (opcuaIterations (opcuaReadCount m p))) =
      some results.flatten.length := by
  rw [opcuaReadAll] at h
  rw [← opcuaReadTotal_eq, mapM_id_eq_some.2 h]
  rfl

/-- **Responses fit and are complete** iff the request has at most sixteen entries
    and, for a read request, the values read are encoded in 971 bytes. -/
theorem opcua_response_iff (hmsg : Holds m p opcuaMsgMsg) :
    (opcuaTypeId m p = 631 → (OpcuaReadOk env mem r s m p ↔ (opcuaReadCount m p).toNat ≤ 16 ∧
      ∃ total, opcuaReadTotal mem { s with sequenceNum := s.sequenceNum + 1 }
          (opcuaReadEntries m p env r (opcuaIterations (opcuaReadCount m p))) = some total ∧
        53 + total ≤ opcuaRespSize)) ∧
    (opcuaTypeId m p = 673 → (OpcuaWriteOk env mem r s m p ↔ (opcuaWriteCount m p).toNat ≤ 16)) := by
  constructor
  · intro htype
    constructor
    · rintro ⟨s', results, hresults, -, hcount, hfit⟩
      rw [opcuaReadBody_length] at hfit
      refine ⟨(opcuaIterations_eq_iff _).1 ?_, _, opcuaReadAll_total hresults, hfit⟩
      rw [← opcuaReadAll_length (β := β) env mem r _ m p, hresults, List.length_map, hcount]
    · rintro ⟨hcount, total, hsome, hfit⟩
      have hsome' := hsome
      rw [← opcuaReadTotal_eq, Option.map_eq_some_iff] at hsome'
      obtain ⟨results, hmap, hresults⟩ := hsome'
      have hall : (opcuaReadAll env mem r { s with sequenceNum := s.sequenceNum + 1 } m p).2 =
          results.map some := mapM_id_eq_some.1 hmap
      have hdispatch := opcuaDispatch_read env mem r s hmsg htype
      simp only [hall, mapM_id_eq_some.2 rfl] at hdispatch
      refine ⟨_, results, hall, hdispatch, ?_, ?_⟩
      · rw [← (opcuaIterations_eq_iff _).2 hcount, ← opcuaReadAll_length (β := β) env mem r _ m p, hall,
          List.length_map]
      · rw [opcuaReadBody_length, hresults]
        exact hfit
  · intro htype
    have hlen := opcuaWriteAll_length env r { s with sequenceNum := s.sequenceNum + 1 } m p
    have hout := opcuaDispatch_write (s := s) (r := r) hmsg htype env mem
    constructor
    · rintro ⟨s', results, hdispatch, hcount, -⟩
      obtain ⟨-, -, hbody⟩ := OpcuaAction.respond.inj (hout.symm.trans hdispatch)
      have hresults := opcuaWriteBody_inj (List.append_cancel_left (Option.some.inj hbody))
      rw [← opcuaIterations_eq_iff, ← hlen, hresults, hcount]
    · intro hcount
      refine ⟨_, _, hout, ?_, ?_⟩
      · rw [hlen, (opcuaIterations_eq_iff _).2 hcount]
      · rw [opcuaWriteBody_length, hlen, (opcuaIterations_eq_iff _).2 hcount, opcuaRespSize]
        omega

end

/-! ## Examples -/

/-- A request to read the numeric node 1, `n` times. -/
def demoReadRequest (n : ℕ) : ℕ → BitVec 8 :=
  demoRequest 631 (writeU64 0 ++ writeU32 0 ++ writeU32 (BitVec.ofNat 32 n) ++
    (List.replicate n ([0, 1] ++ writeU32 13 ++ writeU32 0xFFFFFFFF ++ [0, 0, 0])).flatten)

/-- A string of 1000 bytes. -/
def demoLong : Regions Unit := ⟨fun _ i => if i < 1000 then 0x61 else 0, fun _ => 1001⟩

theorem opcua_response_one :
    OpcuaReadOk demoEnv demoLong () demoSpace (demoReadRequest 1) 0 ↔
      (opcuaReadCount (demoReadRequest 1) 0).toNat ≤ 16 ∧
      ∃ total, opcuaReadTotal demoLong { demoSpace with sequenceNum := demoSpace.sequenceNum + 1 }
          (opcuaReadEntries (demoReadRequest 1) 0 demoEnv ()
            (opcuaIterations (opcuaReadCount (demoReadRequest 1) 0))) = some total ∧
        53 + total ≤ opcuaRespSize :=
  (opcua_response_iff demoEnv demoLong () demoSpace (m := demoReadRequest 1) (by decide)).1 (by decide)

theorem demoLong_strlen : demoLong.strlen ⟨(), 0⟩ = some 1000 := by
  refine Regions.strlen_eq_some.2 ⟨by decide, rfl, fun i hi => ?_⟩
  simp [demoLong, hi]

/-- **A long string** overflows the buffer, and **seventeen entries** have sixteen
    results. -/
theorem opcua_response_bad :
    ¬ OpcuaReadOk demoEnv demoLong () (demoSpace.setValue 0 (.string (some ⟨(), 0⟩) 1000))
      (demoReadRequest 1) 0 ∧
    ¬ OpcuaReadOk demoEnv demoLong () demoSpace (demoReadRequest 17) 0 := by
  constructor
  · rintro ⟨s', results, hresults, -, -, hfit⟩
    have htotal := opcuaReadAll_total hresults
    have hids : opcuaReadEntries (demoReadRequest 1) 0 demoEnv ()
        (opcuaIterations (opcuaReadCount (demoReadRequest 1) 0)) = [⟨0, .numeric 1⟩] := by decide
    have hsize : opcuaValueSize demoLong (.string (some ⟨(), 0⟩) 1000) = some 1005 := by
      rw [opcuaValueSize, demoLong_strlen]
      rfl
    rw [hids] at htotal
    change (do
      let n ← opcuaValueSize demoLong (.string (some ⟨(), 0⟩) 1000)
      let rest ← some 0
      some (1 + n + rest)) = _ at htotal
    rw [hsize] at htotal
    have hlen : 1006 = results.flatten.length := Option.some.inj htotal
    rw [opcuaReadBody_length, ← hlen] at hfit
    exact absurd hfit (by decide)
  · rintro ⟨s', results, hresults, -, hcount, -⟩
    have hlen := opcuaReadAll_length demoEnv demoLong ()
      { demoSpace with sequenceNum := demoSpace.sequenceNum + 1 } (demoReadRequest 17) 0
    rw [hresults, List.length_map, hcount] at hlen
    exact absurd hlen (by decide)

end Gracemont
