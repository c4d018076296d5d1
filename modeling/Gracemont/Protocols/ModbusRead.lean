/-
  Gracemont protocols — the Modbus read responses (function codes 1 to 4).

  `ReadResponse` says what a response to a read is meant to be.  Its byte count
  is one byte, to which `modbus_process_request` truncates the length of the
  payload; a read that the range check accepts gets such a response exactly if
  the length fits (`modbus_read_response_iff`).

  * `orBits_spec`, `packBits_spec`, `packRegisters_spec`: what the loops write;
  * `ReadFunction`: the four functions, with their tables.
-/
import Gracemont.Protocols.Modbus

namespace Gracemont

open Lib (ByteMem)

/-! ## What the loops write -/

theorem and_bit_ne_zero (x : BitVec 8) {k : ℕ} (hk : k < 8) :
    x &&& 1#8 <<< k ≠ 0 ↔ x.getLsbD k = true := by
  have hne : BitVec.twoPow 8 k ≠ 0 := by
    intro h
    have hbit := congrArg (fun y => BitVec.getLsbD y k) h
    simp [hk] at hbit
  rw [← BitVec.twoPow_eq, BitVec.and_twoPow]
  split_ifs with hx
  · exact iff_of_true hne hx
  · exact iff_of_false (not_not.2 rfl) hx

/-- Bit `a` of a table. -/
def tableBit (table : ℕ → BitVec 8) (a : ℕ) : Bool := (table (a / 8)).getLsbD (a % 8)

theorem bitAt_eq (table : ℕ → BitVec 8) (a : ℕ) : bitAt table a = tableBit table a := by
  rw [bitAt, Bool.eq_iff_iff, decide_eq_true_iff, and_bit_ne_zero _ (by omega), tableBit]

theorem or_bit_getLsbD (x : BitVec 8) {n b : ℕ} (hn : n < 8) :
    (x ||| 1#8 <<< n).getLsbD b = (x.getLsbD b || decide (b = n)) := by
  rw [BitVec.getLsbD_or, ← BitVec.twoPow_eq, BitVec.getLsbD_twoPow]
  simp [hn, eq_comm]

section
variable (table : ℕ → BitVec 8) (addr count : BitVec 16) (m : ByteMem)

/-- The entry that bit `b` of the byte `i` of a response is read from. -/
def sentBit (i b : ℕ) : Bool := tableBit table (addr + BitVec.ofNat 16 (i * 8 + b)).toNat

/-- The loop over `bit` only writes the byte `o`; it sets the bits below `n`
    whose entries are set. -/
theorem orBits_spec (i o : ℕ) {n : ℕ} (hn : n ≤ 8) :
    ByteMem.Within o (o + 1) m (orBits table addr i o m n) ∧
      ∀ b < 8, ((orBits table addr i o m n).byte o).getLsbD b =
        ((m.byte o).getLsbD b || (decide (b < n) && sentBit table addr i b)) := by
  induction n with
  | zero => exact ⟨.refl _ _ _, by simp [orBits]⟩
  | succ n ih =>
    obtain ⟨hw, hb⟩ := ih (by omega)
    simp only [orBits, bitAt_eq]
    have hbit : sentBit table addr i n =
      tableBit table (addr + BitVec.ofNat 16 (i * 8 + n)).toNat := rfl
    rw [← hbit]
    cases hs : sentBit table addr i n with
    | false =>
      refine ⟨hw, fun b hb8 => ?_⟩
      rw [if_neg (by simp), hb b hb8]
      by_cases hbn : b = n
      · subst hbn; simp [hs]
      · simp [show b < n + 1 ↔ b < n by omega]
    | true =>
      rw [if_pos rfl]
      refine ⟨hw.trans (.set (by omega) (by omega) _ _), fun b hb8 => ?_⟩
      rw [ByteMem.set_byte_self, or_bit_getLsbD _ (by omega), hb b hb8]
      by_cases hbn : b = n
      · subst hbn; simp [hs]
      · simp [hbn, show b < n + 1 ↔ b < n by omega]

/-- The loop over the bytes writes `n` bytes behind the first two. -/
theorem packBits_spec (out n : ℕ) :
    ByteMem.Within (out + 2) (out + 2 + n) m (packBits table addr count out m n) ∧
      ∀ i < n, ∀ b < 8, ((packBits table addr count out m n).byte (out + 2 + i)).getLsbD b =
        (decide (i * 8 + b < count.toNat) && sentBit table addr i b) := by
  induction n with
  | zero => exact ⟨.refl _ _ _, fun i hi => absurd hi (by omega)⟩
  | succ n ih =>
    obtain ⟨hw, hb⟩ := ih
    obtain ⟨hw', hb'⟩ := orBits_spec table addr
      ((packBits table addr count out m n).set (out + 2 + n) 0) n (out + 2 + n)
      (Nat.min_le_left 8 (count.toNat - n * 8))
    refine ⟨?_, fun i hi b hb8 => ?_⟩
    · have hset : ByteMem.Within (out + 2) (out + 2 + (n + 1)) (packBits table addr count out m n)
        ((packBits table addr count out m n).set (out + 2 + n) 0) := .set (by omega) (by omega) _ _
      exact ((hw.mono (by omega) (by omega)).trans hset).trans (hw'.mono (by omega) (by omega))
    · by_cases hin : i = n
      · subst hin
        rw [packBits, hb' b hb8, ByteMem.set_byte_self]
        have hmin : b < min 8 (count.toNat - i * 8) ↔ i * 8 + b < count.toNat := by omega
        simp [hmin]
      · rw [packBits, hw'.frame _ (by omega), ByteMem.set_byte_of_ne _ _ (by omega),
          hb i (by omega) b hb8]

end

/-- The loop over the registers writes `2 * n` bytes behind the first two. -/
theorem packRegisters_spec (table : ℕ → BitVec 16) (addr : BitVec 16) (m : ByteMem) (out n : ℕ) :
    ByteMem.Within (out + 2) (out + 2 + 2 * n) m (packRegisters table addr out m n) ∧
      ∀ i < n, be16 (packRegisters table addr out m n).byte (out + 2 + 2 * i) =
        table (addr.toNat + i) := by
  induction n with
  | zero => exact ⟨.refl _ _ _, fun i hi => absurd hi (by omega)⟩
  | succ n ih =>
    obtain ⟨hw, hb⟩ := ih
    simp only [packRegisters]
    refine ⟨?_, fun i hi => ?_⟩
    · have hw' := hw.mono (Nat.le_refl _) (show _ ≤ out + 2 + 2 * (n + 1) by omega)
      exact (hw'.trans (.set (by omega) (by omega) _ _)).trans (.set (by omega) (by omega) _ _)
    · by_cases hin : i = n
      · subst hin
        rw [be16, show out + 2 + 2 * i = out + 2 + i * 2 by omega, ByteMem.set_byte_self,
          ByteMem.set_byte_of_ne _ _ (by omega), ByteMem.set_byte_self, hiByte_append_loByte]
      · rw [← hb i (by omega), be16, be16]
        simp only [ByteMem.set_byte_of_ne _ _ (show out + 2 + 2 * i ≠ out + 2 + n * 2 + 1 by omega),
          ByteMem.set_byte_of_ne _ _ (show out + 2 + 2 * i ≠ out + 2 + n * 2 by omega),
          ByteMem.set_byte_of_ne _ _ (show out + 2 + 2 * i + 1 ≠ out + 2 + n * 2 + 1 by omega),
          ByteMem.set_byte_of_ne _ _ (show out + 2 + 2 * i + 1 ≠ out + 2 + n * 2 by omega)]

/-! ## Read functions -/

/-- The functions that read a table. -/
inductive ReadFunction where
  | coils | discreteInputs | holdingRegisters | inputRegisters

namespace ReadFunction

/-- The function code. -/
def code : ReadFunction → BitVec 8
  | coils => modbusFcReadCoils
  | discreteInputs => modbusFcReadDiscreteInputs
  | holdingRegisters => modbusFcReadHoldingRegisters
  | inputRegisters => modbusFcReadInputRegisters

/-- The number of entries of the table. -/
def size (t : ModbusTables) : ReadFunction → BitVec 16
  | coils => t.coilsCount
  | discreteInputs => t.discreteInputsCount
  | holdingRegisters => t.holdingRegistersCount
  | inputRegisters => t.inputRegistersCount

/-- The callback before the read. -/
def onRead (d : ModbusData) : ReadFunction → Option ModbusCallback
  | coils => d.onReadCoils
  | holdingRegisters => d.onReadHolding
  | _ => none

/-- The length of the payload for `count` entries. -/
def payloadLen (count : ℕ) : ReadFunction → ℕ
  | coils | discreteInputs => (count + 7) / 8
  | holdingRegisters | inputRegisters => 2 * count

/-- The payload `p` holds the `count` bits from `addr` on, and then zeros. -/
def BitPayload (table : ℕ → BitVec 8) (addr count : ℕ) (p : ℕ → BitVec 8) : Prop :=
  ∀ i < 8 * ((count + 7) / 8),
    (p (i / 8)).getLsbD (i % 8) = (decide (i < count) && tableBit table (addr + i))

/-- The payload `p` holds the `count` registers from `addr` on, big-endian. -/
def RegisterPayload (table : ℕ → BitVec 16) (addr count : ℕ) (p : ℕ → BitVec 8) : Prop :=
  ∀ i < count, be16 p (2 * i) = table (addr + i)

/-- The payload holds the entries of the table. -/
def Payload (t : ModbusTables) (addr count : ℕ) (p : ℕ → BitVec 8) : ReadFunction → Prop
  | coils => BitPayload t.coils addr count p
  | discreteInputs => BitPayload t.discreteInputs addr count p
  | holdingRegisters => RegisterPayload t.holdingRegisters addr count p
  | inputRegisters => RegisterPayload t.inputRegisters addr count p

/-- The most entries whose payload length fits into a byte. -/
def maxCount : ReadFunction → ℕ
  | coils | discreteInputs => 2040
  | holdingRegisters | inputRegisters => 127

theorem payloadLen_lt_iff (f : ReadFunction) (count : ℕ) :
    f.payloadLen count < 256 ↔ count ≤ f.maxCount := by
  cases f <;> simp only [payloadLen, maxCount] <;> omega

end ReadFunction

variable {α : Type}

/-- **A read response** in the buffer `z`, written over the space `m`: the
    function code, the byte count `n` and `n` bytes of `payload`, and every
    write is inside `[data, tail)`. -/
structure ReadResponse (function : BitVec 8) (n : ℕ) (payload : (ℕ → BitVec 8) → Prop)
    (m : ByteMem) (z : Zbuf α) : Prop where
  function : z.space.byte z.data = function
  byteCount : (z.space.byte (z.data + 1)).toNat = n
  payload : payload fun i => z.space.byte (z.data + 2 + i)
  len : z.len.toNat = 2 + n
  tail : z.tail = z.data + z.len.toNat
  writes : ∃ ws, z.space.written = ws ++ m.written ∧ ∀ a ∈ ws, z.data ≤ a ∧ a < z.tail

variable [DecidableEq α] {s : ModbusState α} {pdu : ℕ → BitVec 8} {b : α}

/-- The counters of the server do not matter to a handler's response. -/
theorem modbusProcessRequest_some {s' : ModbusState α}
    (h : modbusSwitch { s with server.requests := s.server.requests + 1 } pdu = some (s', some b)) :
    modbusProcessRequest s pdu =
      some ({ s' with server.responses := s'.server.responses + 1 }, some b) := by
  simp only [modbusProcessRequest, h, Option.bind_eq_bind, Option.bind_some]

/-- A response whose loop packs `n` bytes behind the function code and `n`. -/
theorem modbusRespond_read (hb : s.pool.freeList = some b) (function n : BitVec 8)
    {fill : ℕ → ByteMem → ByteMem} {payload : (ℕ → BitVec 8) → Prop}
    (hfill : ∀ out m, ByteMem.Within (out + 2) (out + 2 + n.toNat) m (fill out m))
    (hpayload : ∀ out m, payload fun i => (fill out m).byte (out + 2 + i)) :
    ∃ s', modbusRespond s (2 + n.setWidth 16) (fun out m =>
        fill out ((m.set out function).set (out + 1) n)) = some (s', some b) ∧
      s'.server = s.server ∧
      ReadResponse function n.toNat payload (s.pool.zb b).space (s'.pool.zb b) := by
  have hn := n.isLt
  have hsize : (2 + n.setWidth 16 : BitVec 16).toNat = 2 + n.toNat := by
    have h2 : (2 : BitVec 16).toNat = 2 := rfl
    rw [BitVec.toNat_add, BitVec.toNat_setWidth]
    omega
  have hfit : (2 + n.setWidth 16 : BitVec 16).toNat ≤ configZbufSize - configZbufHeadroom := by
    rw [hsize, configZbufSize, configZbufHeadroom]
    omega
  obtain ⟨s', hr, hserver, hdata, htail, hlen, hspace⟩ := modbusRespond_spec hb hfit
    fun out m => fill out ((m.set out function).set (out + 1) n)
  have hw := hfill configZbufHeadroom
    (((s.pool.zb b).space.set configZbufHeadroom function).set (configZbufHeadroom + 1) n)
  have hlog : ByteMem.Within configZbufHeadroom (configZbufHeadroom + (2 + n.toNat))
      (s.pool.zb b).space (s'.pool.zb b).space := by
    rw [hspace]
    exact ((ByteMem.Within.set (by omega) (by omega) _ _).trans
      (.set (by omega) (by omega) _ _)).trans (hw.mono (by omega) (by omega))
  refine ⟨s', hr, hserver, ?_, ?_, ?_, by rw [hlen, hsize], by rw [htail, hdata, hlen], ?_⟩
  · rw [hdata, hspace, hw.frame _ (by omega), ByteMem.set_byte_of_ne _ _ (by omega),
      ByteMem.set_byte_self]
  · rw [hdata, hspace, hw.frame _ (by omega), ByteMem.set_byte_self]
  · rw [hdata, hspace]
    exact hpayload _ _
  · rw [hdata, htail, hsize]
    exact hlog.log

/-- A read of bits. -/
theorem readBits_response (hb : s.pool.freeList = some b) {size : BitVec 16}
    {table : ModbusTables → ℕ → BitVec 8} {onRead : Option ModbusCallback}
    (hrange : (be16 pdu 1).toNat + (be16 pdu 3).toNat ≤ size.toNat)
    (hcount : (be16 pdu 3).toNat ≤ 2040) :
    ∃ s', readBits s pdu size table onRead = some (s', some b) ∧
      s'.tables = (s.notify onRead (be16 pdu 1) (be16 pdu 3)).tables ∧
      ReadResponse (pdu 0) (((be16 pdu 3).toNat + 7) / 8)
        (ReadFunction.BitPayload (table s'.tables) (be16 pdu 1).toNat (be16 pdu 3).toNat)
        (s.pool.zb b).space (s'.pool.zb b) := by
  generalize haddr : be16 pdu 1 = addr at *
  generalize hcnt : be16 pdu 3 = count at *
  have hlt := size.isLt
  have hn : (BitVec.ofNat 8 ((count.toNat + 7) / 8)).toNat = (count.toNat + 7) / 8 := by
    rw [BitVec.toNat_ofNat]; omega
  have hpayload : ∀ out m, ReadFunction.BitPayload (table (s.notify onRead addr count).tables)
      addr.toNat count.toNat fun i => (packBits (table (s.notify onRead addr count).tables) addr
        count out m ((count.toNat + 7) / 8)).byte (out + 2 + i) := by
    intro out m i hi
    obtain ⟨-, hbits⟩ := packBits_spec (table (s.notify onRead addr count).tables) addr count m out
      ((count.toNat + 7) / 8)
    show BitVec.getLsbD (ByteMem.byte _ (out + 2 + i / 8)) _ = _
    rw [hbits (i / 8) (by omega) (i % 8) (by omega), sentBit, show i / 8 * 8 + i % 8 = i by omega]
    by_cases hic : i < count.toNat
    · -- the range check keeps the entry address from wrapping around
      have ha : (addr + BitVec.ofNat 16 i).toNat = addr.toNat + i := by
        rw [BitVec.toNat_add, BitVec.toNat_ofNat]; omega
      rw [ha]
    · simp [hic]
  obtain ⟨s', hr, hserver, hresp⟩ := modbusRespond_read (s := s.notify onRead addr count)
    (by simpa using hb) (pdu 0) (BitVec.ofNat 8 ((count.toNat + 7) / 8))
    (fun out m => (packBits_spec _ addr count m out _).1) (by rw [hn]; exact hpayload)
  rw [hn, ModbusState.notify_pool] at hresp
  have htables : s'.tables = (s.notify onRead addr count).tables := by
    rw [ModbusState.tables, hserver]; rfl
  refine ⟨s', ?_, htables, by rw [htables]; exact hresp⟩
  simp only [readBits, haddr, hcnt, if_neg (Nat.not_lt.2 hrange)]
  exact hr

/-- A read of registers. -/
theorem readRegisters_response (hb : s.pool.freeList = some b) {size : BitVec 16}
    {table : ModbusTables → ℕ → BitVec 16} {onRead : Option ModbusCallback}
    (hrange : (be16 pdu 1).toNat + (be16 pdu 3).toNat ≤ size.toNat)
    (hcount : (be16 pdu 3).toNat ≤ 127) :
    ∃ s', readRegisters s pdu size table onRead = some (s', some b) ∧
      s'.tables = (s.notify onRead (be16 pdu 1) (be16 pdu 3)).tables ∧
      ReadResponse (pdu 0) (2 * (be16 pdu 3).toNat)
        (ReadFunction.RegisterPayload (table s'.tables) (be16 pdu 1).toNat (be16 pdu 3).toNat)
        (s.pool.zb b).space (s'.pool.zb b) := by
  generalize haddr : be16 pdu 1 = addr at *
  generalize hcnt : be16 pdu 3 = count at *
  have hn : (BitVec.ofNat 8 (count.toNat * 2)).toNat = 2 * count.toNat := by
    rw [BitVec.toNat_ofNat]; omega
  have hpayload : ∀ out m, ReadFunction.RegisterPayload
      (table (s.notify onRead addr count).tables) addr.toNat count.toNat fun i =>
        (packRegisters (table (s.notify onRead addr count).tables) addr out m count.toNat).byte
          (out + 2 + i) := by
    intro out m i hi
    obtain ⟨-, hregs⟩ := packRegisters_spec (table (s.notify onRead addr count).tables) addr m out
      count.toNat
    exact hregs i hi
  obtain ⟨s', hr, hserver, hresp⟩ := modbusRespond_read (s := s.notify onRead addr count)
    (by simpa using hb) (pdu 0) (BitVec.ofNat 8 (count.toNat * 2))
    (fun out m => by rw [hn]; exact (packRegisters_spec _ addr m out _).1) hpayload
  rw [hn, ModbusState.notify_pool] at hresp
  have htables : s'.tables = (s.notify onRead addr count).tables := by
    rw [ModbusState.tables, hserver]; rfl
  refine ⟨s', ?_, htables, by rw [htables]; exact hresp⟩
  simp only [readRegisters, haddr, hcnt, if_neg (Nat.not_lt.2 hrange)]
  exact hr

/-- The switch takes a read function to its handler. -/
theorem ReadFunction.switch_response (f : ReadFunction) (s : ModbusState α) (hfc : pdu 0 = f.code)
    (hrange : (be16 pdu 1).toNat + (be16 pdu 3).toNat ≤ (f.size s.tables).toNat)
    (hb : s.pool.freeList = some b) (hcount : (be16 pdu 3).toNat ≤ f.maxCount) :
    ∃ s', modbusSwitch s pdu = some (s', some b) ∧
      s'.tables = (s.notify (f.onRead s.server.data) (be16 pdu 1) (be16 pdu 3)).tables ∧
      ReadResponse f.code (f.payloadLen (be16 pdu 3).toNat)
        (fun p => f.Payload s'.tables (be16 pdu 1).toNat (be16 pdu 3).toNat p)
        (s.pool.zb b).space (s'.pool.zb b) := by
  rw [← hfc]
  cases f with
  | coils =>
    rw [modbusSwitch_readCoils hfc]
    exact readBits_response hb hrange hcount
  | discreteInputs =>
    rw [modbusSwitch_readDiscreteInputs hfc]
    exact readBits_response hb hrange hcount
  | holdingRegisters =>
    rw [modbusSwitch_readHoldingRegisters hfc]
    exact readRegisters_response hb hrange hcount
  | inputRegisters =>
    rw [modbusSwitch_readInputRegisters hfc]
    exact readRegisters_response hb hrange hcount

/-- **Read responses.**  A read that the range check accepts, with a buffer for
    the response, gets the response that it should exactly if the length of the
    payload fits into a byte. -/
theorem modbus_read_response_iff (f : ReadFunction) (s : ModbusState α) {pdu : ℕ → BitVec 8} {b : α}
    (hfc : pdu 0 = f.code)
    (hrange : (be16 pdu 1).toNat + (be16 pdu 3).toNat ≤ (f.size s.tables).toNat)
    (hb : s.pool.freeList = some b) :
    (∃ s', modbusProcessRequest s pdu = some (s', some b) ∧
      s'.tables = (s.notify (f.onRead s.server.data) (be16 pdu 1) (be16 pdu 3)).tables ∧
      ReadResponse f.code (f.payloadLen (be16 pdu 3).toNat)
        (fun p => f.Payload s'.tables (be16 pdu 1).toNat (be16 pdu 3).toNat p)
        (s.pool.zb b).space (s'.pool.zb b)) ↔ (be16 pdu 3).toNat ≤ f.maxCount := by
  constructor
  · rintro ⟨s', -, -, h⟩
    rw [← f.payloadLen_lt_iff, ← h.byteCount]
    exact BitVec.isLt _
  · intro hcount
    obtain ⟨s', hsw, htables, hresp⟩ := f.switch_response
      { s with server.requests := s.server.requests + 1 } hfc hrange hb hcount
    refine ⟨_, modbusProcessRequest_some hsw, ?_, hresp⟩
    exact htables.trans (ModbusState.notify_tables (by rfl) _ _ _)

/-- A read of the registers 16 and 17. -/
def demoRead (i : ℕ) : BitVec 8 := [3, 0, 16, 0, 2].getD i 0

theorem modbus_read_response_registers :
    ∃ s', modbusProcessRequest demoModbus demoRead = some (s', some 1) ∧
      s'.tables = (demoModbus.notify none (be16 demoRead 1) (be16 demoRead 3)).tables ∧
      ReadResponse 3 4 (fun p => ReadFunction.holdingRegisters.Payload s'.tables 16 2 p)
        (demoModbus.pool.zb 1).space (s'.pool.zb 1) :=
  (modbus_read_response_iff .holdingRegisters demoModbus (by decide) (by decide +kernel)
    (by decide +kernel)).2 (by decide)

/-- A read of 128 registers. -/
def demoOversized (i : ℕ) : BitVec 8 := [3, 0, 0, 0, 128].getD i 0

theorem demoOversized_runs : (modbusProcessRequest demoModbus demoOversized).isSome := by
  decide +kernel

/-- **A read of 128 registers** gets a response of two bytes with byte count 0,
    and its payload is written into the 256 bytes behind the response. -/
theorem modbus_read_oversized : ∃ s', modbusProcessRequest demoModbus demoOversized =
      some (s', some 1) ∧ (s'.pool.zb 1).len = 2 ∧
    (s'.pool.zb 1).space.byte ((s'.pool.zb 1).data + 1) = 0 ∧
    (∃ a ∈ (s'.pool.zb 1).space.written, a = (s'.pool.zb 1).tail + 255) ∧
    ¬ ReadResponse 3 256 (fun p => ReadFunction.holdingRegisters.Payload s'.tables 0 128 p)
      (demoModbus.pool.zb 1).space (s'.pool.zb 1) := by
  refine ⟨((modbusProcessRequest demoModbus demoOversized).get demoOversized_runs).1, ?_, ?_, ?_, ?_,
    fun h => ?_⟩
  · refine (Option.some_get demoOversized_runs).symm.trans (congrArg some (Prod.ext rfl ?_))
    decide +kernel
  · decide +kernel
  · decide +kernel
  · decide +kernel
  · exact absurd h.byteCount (Nat.ne_of_lt (BitVec.isLt _))

end Gracemont
