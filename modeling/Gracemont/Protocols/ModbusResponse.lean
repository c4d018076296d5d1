/-
  Gracemont protocols — what the Modbus TCP client takes from a response
  (`modbus_read_holding_registers` and `modbus_read_coils` of
  `protocols/modbus/modbus.c`, the same file in both ports).

  Of a response, the functions only look at the exception bit; the length of the
  buffer, the transaction, the function code and (for registers) the byte count
  are not compared with anything.

  * `takeRegisters`, `takeCoils`: the rest of the functions, with what they read
    of the response and store in the result;
  * `CompleteAnswer`: what an answer to a request is;
  * `client_reads_iff`: the responses that are handled safely.
-/
import Gracemont.Protocols.ModbusClient

namespace Gracemont

variable {β γ : Type}

/-! ## The client -/

/-- What a call returns, the offsets in the response that it has read, the indices of
    the result that it has stored, and the result. -/
structure Taken (γ : Type) where
  ret : Status
  reads : List ℕ
  stores : List ℕ
  result : ℕ → γ

/-- The loop over the elements of the result: the element `i` is `value i`, from the
    offsets `src i`. -/
def takeLoop (value : ℕ → γ) (src : ℕ → List ℕ) : ℕ → Taken γ → Taken γ
  | 0, t => t
  | i + 1, t =>
    let t := takeLoop value src i t
    { t with
      reads := t.reads ++ src i
      stores := t.stores ++ [i]
      result := Function.update t.result i (value i) }

section
variable (frame : ℕ → BitVec 8)

/-- `data[0] & 0x80` -/
def isException : Bool := frame modbusTcpHdrLen &&& 0x80 ≠ 0

/-- A response, of which `n` elements are taken. -/
def takeResponse (n : ℕ) (value : ℕ → γ) (src : ℕ → List ℕ) (result : ℕ → γ) : Taken γ :=
  if isException frame then ⟨.error, [modbusTcpHdrLen], [], result⟩
  else takeLoop value src n ⟨.ok, [modbusTcpHdrLen, modbusTcpHdrLen + 1], [], result⟩

/-- `modbus_read_holding_registers`, from its response on. -/
def takeRegisters (count : BitVec 16) (result : ℕ → BitVec 16) : Taken (BitVec 16) :=
  takeResponse frame count.toNat (fun i => be16 frame (modbusTcpHdrLen + (2 + i * 2)))
    (fun i => [modbusTcpHdrLen + (2 + i * 2), modbusTcpHdrLen + (2 + i * 2 + 1)]) result

/-- `modbus_read_coils`, from its response on. -/
def takeCoils (result : ℕ → BitVec 8) : Taken (BitVec 8) :=
  takeResponse frame (frame (modbusTcpHdrLen + 1)).toNat
    (fun i => frame (modbusTcpHdrLen + (2 + i))) (fun i => [modbusTcpHdrLen + (2 + i)]) result

end

section
variable [DecidableEq β]

/-- `modbus_read_coils`, up to its response. -/
def modbusReadCoils (client : ModbusClient) (pool : ZbufPool β) (slave : BitVec 8)
    (addr count : BitVec 16) : Option (ModbusRequest β) :=
  modbusBuildRequest client pool slave modbusFcReadCoils
    [hiByte addr, loByte addr, hiByte count, loByte count]

/-- `modbus_read_coils` with its response. -/
def modbusReadCoilsResume (port : Port) (pool : ZbufPool β) (resp : Option β)
    (result : ℕ → BitVec 8) : ZbufPool β × Status × (ℕ → BitVec 8) :=
  match resp with
  | none => (pool, .timeout, result)
  | some zb =>
    let t := takeCoils (pool.zb zb).frame result
    (zbufFree port pool resp, t.ret, t.result)

end

/-! ## Statement -/

/-- **A complete answer** to a request of the client, for a function whose answer has
    `n` bytes of data: the response has just these, and header, function code and
    byte count say so. -/
structure CompleteAnswer (client : ModbusClient) (slave function : BitVec 8) (n : ℕ)
    (z : Zbuf β) : Prop where
  len : z.len.toNat = modbusTcpHdrLen + (2 + n)
  transaction : be16 z.frame 0 = client.transactionId
  protocol : be16 z.frame 2 = 0
  length : (be16 z.frame 4).toNat = 3 + n
  unit : z.frame 6 = slave
  function : z.frame modbusTcpHdrLen = function
  byteCount : (z.frame (modbusTcpHdrLen + 1)).toNat = n

/-- **A response that is handled safely**: nothing behind its end is read, nothing is
    stored behind the end of the result, which has `room` elements, and success
    means that it is the answer. -/
structure SafelyTaken (z : Zbuf β) (room : ℕ) (answer : Prop) (t : Taken γ) : Prop where
  reads : ∀ i ∈ t.reads, i < z.len.toNat
  stores : ∀ i ∈ t.stores, i < room
  ok : t.ret = .ok → answer

/-! ## Loops -/

theorem takeLoop_spec (value : ℕ → γ) (src : ℕ → List ℕ) (n : ℕ) (t : Taken γ) :
    (takeLoop value src n t).ret = t.ret ∧
      (takeLoop value src n t).reads = t.reads ++ (List.range n).flatMap src ∧
      (takeLoop value src n t).stores = t.stores ++ List.range n := by
  induction n with
  | zero => exact ⟨rfl, (List.append_nil _).symm, (List.append_nil _).symm⟩
  | succ n ih =>
    obtain ⟨hret, hreads, hstores⟩ := ih
    refine ⟨hret, ?_, ?_⟩
    · rw [List.range_succ, List.flatMap_append, ← List.append_assoc, ← hreads]
      simp [takeLoop]
    · rw [List.range_succ, ← List.append_assoc, ← hstores]
      rfl

/-- The registers are those that the function returns. -/
theorem takeRegisters_resume [DecidableEq β] (port : Port) (pool : ZbufPool β) (zb : β)
    (count : BitVec 16) (result : ℕ → BitVec 16) :
    modbusReadHoldingRegistersResume port pool (some zb) count result =
      (zbufFree port pool (some zb), (takeRegisters (pool.zb zb).frame count result).ret,
        (takeRegisters (pool.zb zb).frame count result).result) := by
  have hdata : ∀ i, (pool.zb zb).space.byte ((pool.zb zb).data + modbusTcpHdrLen + i) =
      (pool.zb zb).frame (modbusTcpHdrLen + i) := fun i => by rw [Zbuf.frame, Nat.add_assoc]
  have hloop : ∀ n (t : Taken (BitVec 16)), t.result = result →
      (takeLoop (fun i => be16 (pool.zb zb).frame (modbusTcpHdrLen + (2 + i * 2)))
        (fun i => [modbusTcpHdrLen + (2 + i * 2), modbusTcpHdrLen + (2 + i * 2 + 1)]) n t).result =
      takeValues (fun i => (pool.zb zb).frame (modbusTcpHdrLen + i)) result n := by
    intro n t ht
    induction n with
    | zero => exact ht
    | succ n ih => exact congrArg (fun r => Function.update r n _) ih
  unfold modbusReadHoldingRegistersResume takeRegisters takeResponse
  simp only [hdata]
  have hfailed : modbusFailed (pool.zb zb) = isException (pool.zb zb).frame := rfl
  rw [hfailed]
  split_ifs
  · rfl
  · rw [(takeLoop_spec ..).1, hloop _ _ rfl]

/-- A response is handled safely if it is an exception or the answer, and the answer
    has the elements that are taken. -/
theorem safelyTaken_iff {z : Zbuf β} {n room : ℕ} {answer : Prop} {value : ℕ → γ}
    {src : ℕ → List ℕ} {result : ℕ → γ}
    (hanswer : answer → modbusTcpHdrLen + 1 < z.len.toNat ∧ n ≤ room ∧
      ∀ i < n, ∀ j ∈ src i, j < z.len.toNat) :
    SafelyTaken z room answer (takeResponse z.frame n value src result) ↔
      modbusTcpHdrLen < z.len.toNat ∧ (isException z.frame ∨ answer) := by
  unfold takeResponse
  split_ifs with hexception
  · constructor
    · intro h
      exact ⟨h.reads _ (List.mem_singleton_self _), Or.inl hexception⟩
    · rintro ⟨hlen, -⟩
      exact ⟨List.forall_mem_singleton.2 hlen, nofun, nofun⟩
  · obtain ⟨hret, hreads, hstores⟩ := takeLoop_spec value src n
      ⟨.ok, [modbusTcpHdrLen, modbusTcpHdrLen + 1], [], result⟩
    constructor
    · intro h
      refine ⟨h.reads _ ?_, Or.inr (h.ok hret)⟩
      rw [hreads]
      exact List.mem_append_left _ (List.mem_cons_self ..)
    · rintro ⟨hlen, h⟩
      have h := h.resolve_left hexception
      obtain ⟨hlen', hroom, hsrc⟩ := hanswer h
      refine ⟨?_, ?_, fun _ => h⟩
      · rw [hreads, List.forall_mem_append]
        refine ⟨List.forall_mem_cons.2 ⟨hlen, List.forall_mem_singleton.2 hlen'⟩, fun j hj => ?_⟩
        obtain ⟨i, hi, hj⟩ := List.mem_flatMap.1 hj
        exact hsrc i (List.mem_range.1 hi) j hj
      · rw [hstores, List.nil_append]
        intro i hi
        exact Nat.lt_of_lt_of_le (List.mem_range.1 hi) hroom

/-! ## Responses -/

/-- **The responses that the client handles safely** are, of those that have a
    function code, the exceptions and the complete answers to the request. -/
theorem client_reads_iff (client : ModbusClient) (slave : BitVec 8) (count : BitVec 16)
    (z : Zbuf β) (registers : ℕ → BitVec 16) (coils : ℕ → BitVec 8) :
    (SafelyTaken z count.toNat
        (CompleteAnswer client slave modbusFcReadHoldingRegisters (2 * count.toNat) z)
        (takeRegisters z.frame count registers) ↔
      modbusTcpHdrLen < z.len.toNat ∧ (isException z.frame ∨
        CompleteAnswer client slave modbusFcReadHoldingRegisters (2 * count.toNat) z)) ∧
    (SafelyTaken z ((count.toNat + 7) / 8)
        (CompleteAnswer client slave modbusFcReadCoils ((count.toNat + 7) / 8) z)
        (takeCoils z.frame coils) ↔
      modbusTcpHdrLen < z.len.toNat ∧ (isException z.frame ∨
        CompleteAnswer client slave modbusFcReadCoils ((count.toNat + 7) / 8) z)) := by
  refine ⟨safelyTaken_iff fun h => ?_, safelyTaken_iff fun h => ?_⟩
  · have hlen := h.len
    refine ⟨by omega, Nat.le_refl _, fun i hi j hj => ?_⟩
    simp only [List.mem_cons, List.not_mem_nil, or_false] at hj
    omega
  · have hlen := h.len
    have hcount := h.byteCount
    refine ⟨by omega, Nat.le_of_eq hcount, fun i hi j hj => ?_⟩
    rw [List.mem_singleton] at hj
    omega

/-- A response that ends with a byte count of two. -/
def demoResponse : Zbuf (Fin 2) :=
  { demoZbuf with len := 9, space := ⟨fun i => if i = 8 then 2 else 0, []⟩ }

/-- It is taken for a register and for eight coils. -/
theorem demoResponse_taken :
    ¬ SafelyTaken demoResponse 1
        (CompleteAnswer ⟨0⟩ 1 modbusFcReadHoldingRegisters 2 demoResponse)
        (takeRegisters demoResponse.frame 1 fun _ => 0) ∧
    ¬ SafelyTaken demoResponse 1
        (CompleteAnswer ⟨0⟩ 1 modbusFcReadCoils 1 demoResponse)
        (takeCoils demoResponse.frame fun _ => 0) := by
  constructor
  · intro h
    exact absurd (h.reads 9 (by decide)) (by decide)
  · intro h
    exact absurd (h.stores 1 (by decide)) (by decide)

end Gracemont
