/-
  Gracemont protocols — the Modbus write requests (function codes 5, 6, 15, 16).

  A request is accepted if its addresses are in the table (and the value of a
  single coil is one of the two that there are).  An accepted request gives the
  addressed entries the values of the PDU and nothing else, and is echoed; a
  request that is answered with an exception changes no table
  (`modbus_write_correct`).  The byte count of the PDU is not read.

  * `setBit_spec`, `unpackBits_spec`, `unpackRegisters_spec`: what the loops
    store;
  * `WriteFunction`: the four functions, `Written`: what they are meant to
    store.
-/
import Gracemont.Protocols.ModbusRead

namespace Gracemont

open Lib (ByteMem)

/-! ## What the loops store -/

theorem setBit_spec (table : ℕ → BitVec 8) (a : ℕ) (on : Bool) (b : ℕ) :
    tableBit (setBit table a on) b = if b = a then on else tableBit table b := by
  unfold tableBit setBit
  by_cases hq : b / 8 = a / 8
  · have hb : b = a ↔ b % 8 = a % 8 := by omega
    rw [hq, Function.update_self]
    simp only [hb]
    cases on with
    | true =>
      rw [if_pos rfl, or_bit_getLsbD _ (by omega)]
      by_cases hr : b % 8 = a % 8
      · simp [hr]
      · simp [hr]
    | false =>
      rw [if_neg (by simp), BitVec.getLsbD_and, BitVec.getLsbD_not, ← BitVec.twoPow_eq,
        BitVec.getLsbD_twoPow]
      by_cases hr : b % 8 = a % 8
      · have hlt : a % 8 < 8 := by omega
        simp [hr, hlt]
      · have hlt : b % 8 < 8 := by omega
        have hne : a % 8 ≠ b % 8 := fun he => hr he.symm
        simp [hr, hne, hlt]
  · have hb : b ≠ a := by
      rintro rfl
      exact hq rfl
    rw [Function.update_of_ne hq, if_neg hb]

section
variable (pdu : ℕ → BitVec 8) (addr : BitVec 16)

/-- The loop over the coils stores bit `i` of the request at `addr + i`. -/
theorem unpackBits_spec (table : ℕ → BitVec 8) {n : ℕ} (hn : addr.toNat + n ≤ 2 ^ 16) (a : ℕ) :
    tableBit (unpackBits pdu addr table n) a =
      if addr.toNat ≤ a ∧ a < addr.toNat + n then
        (pdu (6 + (a - addr.toNat) / 8)).getLsbD ((a - addr.toNat) % 8)
      else tableBit table a := by
  induction n with
  | zero =>
    rw [if_neg (by omega)]
    rfl
  | succ n ih =>
    have haddr : (addr + BitVec.ofNat 16 n).toNat = addr.toNat + n := by
      rw [BitVec.toNat_add, BitVec.toNat_ofNat]
      omega
    rw [unpackBits, haddr, setBit_spec, ih (by omega)]
    by_cases ha : a = addr.toNat + n
    · have hi : a - addr.toNat = n := by omega
      rw [if_pos ha, if_pos (by omega), hi, Bool.eq_iff_iff, decide_eq_true_iff,
        and_bit_ne_zero _ (by omega)]
    · have hlt : addr.toNat ≤ a ∧ a < addr.toNat + (n + 1) ↔
          addr.toNat ≤ a ∧ a < addr.toNat + n := by omega
      rw [if_neg ha]
      simp only [hlt]

/-- The loop over the registers stores word `i` of the request at `addr + i`. -/
theorem unpackRegisters_spec (table : ℕ → BitVec 16) (n a : ℕ) :
    unpackRegisters pdu addr table n a =
      if addr.toNat ≤ a ∧ a < addr.toNat + n then be16 pdu (6 + (a - addr.toNat) * 2)
      else table a := by
  induction n with
  | zero =>
    rw [if_neg (by omega)]
    rfl
  | succ n ih =>
    rw [unpackRegisters]
    by_cases ha : a = addr.toNat + n
    · have hi : a - addr.toNat = n := by omega
      rw [if_pos (by omega), hi, ha, Function.update_self]
    · have hlt : addr.toNat ≤ a ∧ a < addr.toNat + (n + 1) ↔
          addr.toNat ≤ a ∧ a < addr.toNat + n := by omega
      rw [Function.update_of_ne ha, ih]
      simp only [hlt]

end

/-! ## Write functions -/

/-- The functions that write a table. -/
inductive WriteFunction where
  | singleCoil | singleRegister | multipleCoils | multipleRegisters

namespace WriteFunction

/-- The function code. -/
def code : WriteFunction → BitVec 8
  | singleCoil => modbusFcWriteSingleCoil
  | singleRegister => modbusFcWriteSingleRegister
  | multipleCoils => modbusFcWriteMultipleCoils
  | multipleRegisters => modbusFcWriteMultipleRegisters

/-- The callback after the write. -/
def onWrite (d : ModbusData) : WriteFunction → Option ModbusCallback
  | singleCoil | multipleCoils => d.onWriteCoils
  | singleRegister | multipleRegisters => d.onWriteHolding

section
variable (pdu : ℕ → BitVec 8)

/-- The number of entries that the request addresses. -/
def count : WriteFunction → BitVec 16
  | singleCoil | singleRegister => 1
  | multipleCoils | multipleRegisters => be16 pdu 3

/-- The entry `a` is addressed. -/
def Addresses (f : WriteFunction) (a : ℕ) : Prop :=
  (be16 pdu 1).toNat ≤ a ∧ a < (be16 pdu 1).toNat + (f.count pdu).toNat

/-- The value in the request of its coil `i`: `0xFF00` is on; the bits of
    several coils are packed, the first one lowest. -/
def coil (i : ℕ) : WriteFunction → Option Bool
  | singleCoil => some (be16 pdu 3 = 0xFF00)
  | multipleCoils => some ((pdu (6 + i / 8)).getLsbD (i % 8))
  | _ => none

/-- The value in the request of its register `i`, a big-endian word. -/
def register (i : ℕ) : WriteFunction → Option (BitVec 16)
  | singleRegister => some (be16 pdu 3)
  | multipleRegisters => some (be16 pdu (6 + i * 2))
  | _ => none

/-- The addressed entries are in the table, and a single coil gets a value that
    there is. -/
def Accepted (t : ModbusTables) : WriteFunction → Prop
  | singleCoil => (be16 pdu 1).toNat < t.coilsCount.toNat ∧
      (be16 pdu 3 = 0xFF00 ∨ be16 pdu 3 = 0)
  | singleRegister => (be16 pdu 1).toNat < t.holdingRegistersCount.toNat
  | multipleCoils => (be16 pdu 1).toNat + (be16 pdu 3).toNat ≤ t.coilsCount.toNat
  | multipleRegisters => (be16 pdu 1).toNat + (be16 pdu 3).toNat ≤ t.holdingRegistersCount.toNat

instance (f : WriteFunction) (a : ℕ) : Decidable (f.Addresses pdu a) :=
  inferInstanceAs (Decidable (_ ∧ _))

/-- **The write.**  The tables `t'` are `t` with the values of the request at the
    addressed entries. -/
structure Written (f : WriteFunction) (t t' : ModbusTables) : Prop where
  coils : ∀ a, tableBit t'.coils a =
    if f.Addresses pdu a then (f.coil pdu (a - (be16 pdu 1).toNat)).getD (tableBit t.coils a)
    else tableBit t.coils a
  holdingRegisters : ∀ a, t'.holdingRegisters a =
    if f.Addresses pdu a then
      (f.register pdu (a - (be16 pdu 1).toNat)).getD (t.holdingRegisters a)
    else t.holdingRegisters a
  discreteInputs : t'.discreteInputs = t.discreteInputs
  inputRegisters : t'.inputRegisters = t.inputRegisters
  counts : t'.coilsCount = t.coilsCount ∧ t'.discreteInputsCount = t.discreteInputsCount ∧
    t'.holdingRegistersCount = t.holdingRegistersCount ∧
    t'.inputRegistersCount = t.inputRegistersCount

end

end WriteFunction

/-! ## Responses -/

variable {α : Type}

/-- **The echo**: function code, address, and value or count of the request. -/
structure EchoResponse (pdu : ℕ → BitVec 8) (z : Zbuf α) : Prop where
  len : z.len = 5
  bytes : z.space.read z.data 5 = [pdu 0, pdu 1, pdu 2, pdu 3, pdu 4]

/-- An exception response: bit 7 of the function code is set. -/
def ExceptionResponse (z : Zbuf α) : Prop := (z.space.byte z.data).getLsbD 7 = true

variable [DecidableEq α] {s s' : ModbusState α} {pdu : ℕ → BitVec 8} {resp : Option α}

/-- **A response** is missing exactly if there is no free buffer; otherwise
    `fill` has written it behind the headroom. -/
theorem modbusRespond_total (s : ModbusState α) {size : BitVec 16}
    (hs : size.toNat ≤ configZbufSize - configZbufHeadroom)
    (fill : ℕ → ByteMem → ByteMem) :
    ∃ s' resp, modbusRespond s size fill = some (s', resp) ∧ s'.server = s.server ∧
      (resp = none ↔ s.pool.freeList = none) ∧ ∀ b, resp = some b →
        (s'.pool.zb b).data = configZbufHeadroom ∧ (s'.pool.zb b).len = size ∧
        (s'.pool.zb b).space = fill configZbufHeadroom (s.pool.zb b).space := by
  rcases hb : s.pool.freeList with _ | b
  · obtain ⟨s', hr, hserver⟩ := modbusRespond_none hb size fill
    exact ⟨s', none, hr, hserver, by simp, by simp⟩
  · obtain ⟨s', hr, hserver, hdata, -, hlen, hspace⟩ := modbusRespond_spec hb hs fill
    refine ⟨s', some b, hr, hserver, by simp, ?_⟩
    rintro _ ⟨⟩
    exact ⟨hdata, hlen, hspace⟩

/-- **An exception** changes no table. -/
theorem modbusRefuse_spec (s : ModbusState α) (function exception : BitVec 8) :
    ∃ s' resp, modbusRefuse s function exception = some (s', resp) ∧ s'.tables = s.tables ∧
      (resp = none ↔ s.pool.freeList = none) ∧
      ∀ b, resp = some b → ExceptionResponse (s'.pool.zb b) := by
  have hsize : (2 : BitVec 16).toNat ≤ configZbufSize - configZbufHeadroom := by decide
  obtain ⟨s', resp, hr, hserver, hnone, hresp⟩ := modbusRespond_total s hsize
    fun data m => (m.set data (function ||| 0x80)).set (data + 1) exception
  refine ⟨{ s' with server.exceptions := s'.server.exceptions + 1 }, resp, ?_, ?_, hnone, ?_⟩
  · simp only [modbusRefuse, modbusBuildException, hr, Option.bind_eq_bind, Option.bind_some]
  · change s'.server.data.tables = s.server.data.tables
    rw [hserver]
  · intro b hb
    obtain ⟨hdata, -, hspace⟩ := hresp b hb
    change ((s'.pool.zb b).space.byte (s'.pool.zb b).data).getLsbD 7 = true
    rw [hdata, hspace, ByteMem.set_byte_of_ne _ _ (by omega), ByteMem.set_byte_self,
      BitVec.getLsbD_or]
    simp

/-- **The echo of a request.** -/
theorem modbusEcho_spec (s : ModbusState α) (pdu : ℕ → BitVec 8) :
    ∃ s' resp, modbusEcho s pdu = some (s', resp) ∧ s'.tables = s.tables ∧
      (resp = none ↔ s.pool.freeList = none) ∧
      ∀ b, resp = some b → EchoResponse pdu (s'.pool.zb b) := by
  have hsize : (5 : BitVec 16).toNat ≤ configZbufSize - configZbufHeadroom := by decide
  obtain ⟨s', resp, hr, hserver, hnone, hresp⟩ := modbusRespond_total s hsize
    fun out m => m.putBytes out [pdu 0, pdu 1, pdu 2, pdu 3, pdu 4]
  refine ⟨s', resp, hr, ?_, hnone, ?_⟩
  · change s'.server.data.tables = s.server.data.tables
    rw [hserver]
  · intro b hb
    obtain ⟨hdata, hlen, hspace⟩ := hresp b hb
    refine ⟨hlen, ?_⟩
    rw [hdata, hspace]
    exact ByteMem.read_putBytes ..

/-! ## The handlers -/

namespace WriteFunction

/-- What a write request leads to: the write and its echo, or an exception. -/
def Outcome (f : WriteFunction) (s : ModbusState α) (pdu : ℕ → BitVec 8) (s' : ModbusState α)
    (resp : Option α) : Prop :=
  (f.Accepted pdu s.tables ∧ (∃ t, f.Written pdu s.tables t ∧
      s'.tables = ((s.setTables t).notify (f.onWrite s.server.data) (be16 pdu 1)
        (f.count pdu)).tables) ∧
      ∀ b, resp = some b → EchoResponse pdu (s'.pool.zb b)) ∨
    (¬ f.Accepted pdu s.tables ∧ s'.tables = s.tables ∧
      ∀ b, resp = some b → ExceptionResponse (s'.pool.zb b))

variable {f : WriteFunction}

omit [DecidableEq α] in
/-- The counters of the server do not matter. -/
theorem Outcome.congr {s₁ s₁' : ModbusState α} (h : f.Outcome s pdu s' resp)
    (hs : s₁.server.data = s.server.data) (hs' : s₁'.server.data = s'.server.data)
    (hp : s₁'.pool = s'.pool) : f.Outcome s₁ pdu s₁' resp := by
  have ht : s₁.tables = s.tables := congrArg ModbusData.tables hs
  have ht' : s₁'.tables = s'.tables := congrArg ModbusData.tables hs'
  unfold Outcome
  rw [ht, ht', hp, hs]
  refine h.imp (fun hacc => ⟨hacc.1, ?_, hacc.2.2⟩) id
  obtain ⟨t, hw, hstored⟩ := hacc.2.1
  exact ⟨t, hw, hstored.trans (ModbusState.notify_tables (by rfl) _ _ _)⟩

/-- An accepted request, for which the tables `t` are stored. -/
theorem outcome_echo (ha : f.Accepted pdu s.tables) {t : ModbusTables}
    (ht : f.Written pdu s.tables t) {cb : Option ModbusCallback}
    (hcb : cb = f.onWrite s.server.data) {n : BitVec 16} (hn : n = f.count pdu) :
    ∃ s' resp, modbusEcho ((s.setTables t).notify cb (be16 pdu 1) n) pdu = some (s', resp) ∧
      (resp = none ↔ s.pool.freeList = none) ∧ f.Outcome s pdu s' resp := by
  subst hcb hn
  obtain ⟨s', resp, hr, htables, hnone, hresp⟩ :=
    modbusEcho_spec ((s.setTables t).notify (f.onWrite s.server.data) (be16 pdu 1) (f.count pdu))
      pdu
  rw [ModbusState.notify_pool] at hnone
  exact ⟨s', resp, hr, hnone, .inl ⟨ha, ⟨t, ht, htables⟩, hresp⟩⟩

/-- A refused request. -/
theorem outcome_refuse (ha : ¬ f.Accepted pdu s.tables) (function exception : BitVec 8) :
    ∃ s' resp, modbusRefuse s function exception = some (s', resp) ∧
      (resp = none ↔ s.pool.freeList = none) ∧ f.Outcome s pdu s' resp := by
  obtain ⟨s', resp, hr, htables, hnone, hresp⟩ := modbusRefuse_spec s function exception
  exact ⟨s', resp, hr, hnone, .inr ⟨ha, htables, hresp⟩⟩

theorem addresses_single (f : WriteFunction) (pdu : ℕ → BitVec 8) {a : ℕ} (hf : f.count pdu = 1) :
    f.Addresses pdu a ↔ a = (be16 pdu 1).toNat := by
  have h1 : (1 : BitVec 16).toNat = 1 := rfl
  unfold Addresses
  rw [hf, h1]
  omega

theorem singleCoil_outcome (s : ModbusState α) (pdu : ℕ → BitVec 8) :
    ∃ s' resp, writeSingleCoil s pdu = some (s', resp) ∧
      (resp = none ↔ s.pool.freeList = none) ∧ singleCoil.Outcome s pdu s' resp := by
  simp only [writeSingleCoil, BitVec.le_def]
  by_cases hr : s.tables.coilsCount.toNat ≤ (be16 pdu 1).toNat
  · rw [if_pos hr]
    have ha : ¬ singleCoil.Accepted pdu s.tables := fun ha => Nat.not_lt.2 hr ha.1
    exact outcome_refuse ha _ _
  rw [if_neg hr]
  by_cases hv : be16 pdu 3 = 0xFF00 ∨ be16 pdu 3 = 0
  · rw [if_pos hv]
    have ha : singleCoil.Accepted pdu s.tables := ⟨Nat.lt_of_not_le hr, hv⟩
    refine outcome_echo ha ?_ rfl rfl
    refine ⟨fun a => ?_, fun a => ?_, rfl, rfl, rfl, rfl, rfl, rfl⟩
    · rw [setBit_spec]
      simp only [addresses_single singleCoil pdu rfl]
      rfl
    · simp [register]
  · rw [if_neg hv]
    have ha : ¬ singleCoil.Accepted pdu s.tables := fun ha => hv ha.2
    exact outcome_refuse ha _ _

theorem singleRegister_outcome (s : ModbusState α) (pdu : ℕ → BitVec 8) :
    ∃ s' resp, writeSingleRegister s pdu = some (s', resp) ∧
      (resp = none ↔ s.pool.freeList = none) ∧ singleRegister.Outcome s pdu s' resp := by
  simp only [writeSingleRegister, BitVec.le_def]
  by_cases hr : s.tables.holdingRegistersCount.toNat ≤ (be16 pdu 1).toNat
  · rw [if_pos hr]
    have ha : ¬ singleRegister.Accepted pdu s.tables := Nat.not_lt.2 hr
    exact outcome_refuse ha _ _
  · rw [if_neg hr]
    have ha : singleRegister.Accepted pdu s.tables := Nat.lt_of_not_le hr
    refine outcome_echo ha ?_ rfl rfl
    refine ⟨fun a => ?_, fun a => ?_, rfl, rfl, rfl, rfl, rfl, rfl⟩
    · simp [coil]
    · simp only [addresses_single singleRegister pdu rfl, Function.update_apply]
      rfl

theorem multipleCoils_outcome (s : ModbusState α) (pdu : ℕ → BitVec 8) :
    ∃ s' resp, writeMultipleCoils s pdu = some (s', resp) ∧
      (resp = none ↔ s.pool.freeList = none) ∧ multipleCoils.Outcome s pdu s' resp := by
  simp only [writeMultipleCoils]
  by_cases hr : s.tables.coilsCount.toNat < (be16 pdu 1).toNat + (be16 pdu 3).toNat
  · rw [if_pos hr]
    have ha : ¬ multipleCoils.Accepted pdu s.tables := Nat.not_le.2 hr
    exact outcome_refuse ha _ _
  · rw [if_neg hr]
    have hlt := s.tables.coilsCount.isLt
    have ha : multipleCoils.Accepted pdu s.tables := Nat.le_of_not_lt hr
    refine outcome_echo ha ?_ rfl rfl
    refine ⟨fun a => ?_, fun a => ?_, rfl, rfl, rfl, rfl, rfl, rfl⟩
    · rw [unpackBits_spec _ _ _ (by omega)]
      rfl
    · simp [register]

theorem multipleRegisters_outcome (s : ModbusState α) (pdu : ℕ → BitVec 8) :
    ∃ s' resp, writeMultipleRegisters s pdu = some (s', resp) ∧
      (resp = none ↔ s.pool.freeList = none) ∧ multipleRegisters.Outcome s pdu s' resp := by
  simp only [writeMultipleRegisters]
  by_cases hr : s.tables.holdingRegistersCount.toNat < (be16 pdu 1).toNat + (be16 pdu 3).toNat
  · rw [if_pos hr]
    have ha : ¬ multipleRegisters.Accepted pdu s.tables := Nat.not_le.2 hr
    exact outcome_refuse ha _ _
  · rw [if_neg hr]
    have ha : multipleRegisters.Accepted pdu s.tables := Nat.le_of_not_lt hr
    refine outcome_echo ha ?_ rfl rfl
    refine ⟨fun a => ?_, fun a => ?_, rfl, rfl, rfl, rfl, rfl, rfl⟩
    · simp [coil]
    · change unpackRegisters _ _ _ _ a = _
      rw [unpackRegisters_spec]
      rfl

/-- The switch takes a write function to its handler. -/
theorem switch_outcome (f : WriteFunction) (s : ModbusState α) (hfc : pdu 0 = f.code) :
    ∃ s' resp, modbusSwitch s pdu = some (s', resp) ∧
      (resp = none ↔ s.pool.freeList = none) ∧ f.Outcome s pdu s' resp := by
  cases f with
  | singleCoil =>
    rw [modbusSwitch_writeSingleCoil hfc]
    exact singleCoil_outcome s pdu
  | singleRegister =>
    rw [modbusSwitch_writeSingleRegister hfc]
    exact singleRegister_outcome s pdu
  | multipleCoils =>
    rw [modbusSwitch_writeMultipleCoils hfc]
    exact multipleCoils_outcome s pdu
  | multipleRegisters =>
    rw [modbusSwitch_writeMultipleRegisters hfc]
    exact multipleRegisters_outcome s pdu

end WriteFunction

/-! ## Exceptions -/

/-- A response whose first byte is the function code is no exception. -/
theorem not_exception {size : BitVec 16} (hs : size.toNat ≤ configZbufSize - configZbufHeadroom)
    {fill : ℕ → ByteMem → ByteMem} (hfill : ∀ out m, (fill out m).byte out = pdu 0)
    (h7 : (pdu 0).getLsbD 7 = false) {b : α} (h : modbusRespond s size fill = some (s', some b)) :
    ¬ ExceptionResponse (s'.pool.zb b) := by
  obtain ⟨s₁, resp, hr, -, -, hresp⟩ := modbusRespond_total s hs fill
  rw [hr] at h
  cases h
  obtain ⟨hdata, -, hspace⟩ := hresp b rfl
  unfold ExceptionResponse
  rw [hdata, hspace, hfill, h7]
  simp

theorem readSize_le (n : BitVec 8) :
    (2 + n.setWidth 16 : BitVec 16).toNat ≤ configZbufSize - configZbufHeadroom := by
  have hn := n.isLt
  have h2 : (2 : BitVec 16).toNat = 2 := rfl
  rw [BitVec.toNat_add, BitVec.toNat_setWidth, configZbufSize, configZbufHeadroom]
  omega

/-- A read of bits that is answered with an exception changes no table. -/
theorem readBits_exception (h7 : (pdu 0).getLsbD 7 = false) {size : BitVec 16}
    {table : ModbusTables → ℕ → BitVec 8} {onRead : Option ModbusCallback} {b : α}
    (h : readBits s pdu size table onRead = some (s', some b))
    (hex : ExceptionResponse (s'.pool.zb b)) : s'.tables = s.tables := by
  simp only [readBits] at h
  by_cases hr : size.toNat < (be16 pdu 1).toNat + (be16 pdu 3).toNat
  · rw [if_pos hr] at h
    obtain ⟨s₁, resp, hs₁, htables, -⟩ := modbusRefuse_spec s (pdu 0) modbusExIllegalDataAddress
    rw [hs₁] at h
    cases h
    exact htables
  · rw [if_neg hr] at h
    refine absurd hex (not_exception (readSize_le _) (fun out m => ?_) h7 h)
    rw [(packBits_spec _ _ _ _ _ _).1.frame _ (by omega), ByteMem.set_byte_of_ne _ _ (by omega),
      ByteMem.set_byte_self]

/-- A read of registers likewise. -/
theorem readRegisters_exception (h7 : (pdu 0).getLsbD 7 = false) {size : BitVec 16}
    {table : ModbusTables → ℕ → BitVec 16} {onRead : Option ModbusCallback} {b : α}
    (h : readRegisters s pdu size table onRead = some (s', some b))
    (hex : ExceptionResponse (s'.pool.zb b)) : s'.tables = s.tables := by
  simp only [readRegisters] at h
  by_cases hr : size.toNat < (be16 pdu 1).toNat + (be16 pdu 3).toNat
  · rw [if_pos hr] at h
    obtain ⟨s₁, resp, hs₁, htables, -⟩ := modbusRefuse_spec s (pdu 0) modbusExIllegalDataAddress
    rw [hs₁] at h
    cases h
    exact htables
  · rw [if_neg hr] at h
    refine absurd hex (not_exception (readSize_le _) (fun out m => ?_) h7 h)
    rw [(packRegisters_spec _ _ _ _ _).1.frame _ (by omega),
      ByteMem.set_byte_of_ne _ _ (by omega), ByteMem.set_byte_self]

omit [DecidableEq α] in
/-- A write that is answered with an exception was refused. -/
theorem WriteFunction.Outcome.exception {f : WriteFunction} {b : α}
    (h : f.Outcome s pdu s' (some b)) (hfc : pdu 0 = f.code)
    (hex : ExceptionResponse (s'.pool.zb b)) : s'.tables = s.tables := by
  obtain ⟨-, -, hecho⟩ | ⟨-, htables, -⟩ := h
  · have hbyte := ((ByteMem.read_eq_iff ..).1 (hecho b rfl).bytes).2 0 (by simp)
    have h7 : (pdu 0).getLsbD 7 = false := by
      rw [hfc]
      cases f <;> decide
    unfold ExceptionResponse at hex
    rw [Nat.add_zero] at hbyte
    rw [hbyte, List.getElem_cons_zero, h7] at hex
    cases hex
  · exact htables

/-- **A request that is answered with an exception** changes no table. -/
theorem modbusSwitch_exception {b : α} (h : modbusSwitch s pdu = some (s', some b))
    (hex : ExceptionResponse (s'.pool.zb b)) : s'.tables = s.tables := by
  have hwrite : ∀ f : WriteFunction, pdu 0 = f.code → s'.tables = s.tables := by
    intro f hfc
    obtain ⟨s₁, resp, hs₁, -, hout⟩ := f.switch_outcome s hfc
    rw [hs₁] at h
    cases h
    exact hout.exception hfc hex
  by_cases h5 : pdu 0 = modbusFcWriteSingleCoil
  · exact hwrite .singleCoil h5
  by_cases h6 : pdu 0 = modbusFcWriteSingleRegister
  · exact hwrite .singleRegister h6
  by_cases h15 : pdu 0 = modbusFcWriteMultipleCoils
  · exact hwrite .multipleCoils h15
  by_cases h16 : pdu 0 = modbusFcWriteMultipleRegisters
  · exact hwrite .multipleRegisters h16
  simp only [modbusSwitch, if_neg h5, if_neg h6, if_neg h15, if_neg h16] at h
  split_ifs at h with h1 h2 h3 h4
  · exact readBits_exception (by rw [h1]; decide) h hex
  · exact readBits_exception (by rw [h2]; decide) h hex
  · exact readRegisters_exception (by rw [h3]; decide) h hex
  · exact readRegisters_exception (by rw [h4]; decide) h hex
  · obtain ⟨s₁, resp, hs₁, htables, -⟩ := modbusRefuse_spec s (pdu 0) modbusExIllegalFunction
    rw [hs₁] at h
    cases h
    exact htables

/-- **Write requests.**  A write is answered whenever there is a buffer for the
    response.  If it is accepted, the addressed entries get the values of the
    request and nothing else changes before the callback, and the answer is the
    echo; if not, the answer is an exception.  Whatever the function code, a
    request that is answered with an exception changes no table. -/
theorem modbus_write_correct (s : ModbusState α) (pdu : ℕ → BitVec 8) :
    (∀ f : WriteFunction, pdu 0 = f.code →
      ∃ s' resp, modbusProcessRequest s pdu = some (s', resp) ∧
        (resp = none ↔ s.pool.freeList = none) ∧ f.Outcome s pdu s' resp) ∧
      ∀ s' b, modbusProcessRequest s pdu = some (s', some b) →
        ExceptionResponse (s'.pool.zb b) → s'.tables = s.tables := by
  constructor
  · intro f hfc
    obtain ⟨s', resp, hsw, hnone, hout⟩ :=
      f.switch_outcome { s with server.requests := s.server.requests + 1 } hfc
    cases resp with
    | none =>
      refine ⟨{ s' with server.errors := s'.server.errors + 1 }, none, ?_, hnone,
        hout.congr rfl rfl rfl⟩
      simp only [modbusProcessRequest, hsw, Option.bind_eq_bind, Option.bind_some]
    | some b =>
      exact ⟨{ s' with server.responses := s'.server.responses + 1 }, some b,
        modbusProcessRequest_some hsw, hnone, hout.congr rfl rfl rfl⟩
  · intro s' b h hex
    simp only [modbusProcessRequest, Option.bind_eq_bind] at h
    obtain ⟨⟨s₁, resp⟩, hsw, h⟩ := Option.bind_eq_some_iff.1 h
    cases resp with
    | none => cases h
    | some c =>
      cases h
      have htables := modbusSwitch_exception hsw hex
      exact htables

/-- A write of ten coils from coil 3 on. -/
def demoWriteCoils (i : ℕ) : BitVec 8 := [15, 0, 3, 0, 10, 2, 0xCD, 0x01].getD i 0

theorem modbus_write_correct_coils : ∃ s' resp,
    modbusProcessRequest demoModbus demoWriteCoils = some (s', resp) ∧
      (resp = none ↔ demoModbus.pool.freeList = none) ∧
      WriteFunction.multipleCoils.Outcome demoModbus demoWriteCoils s' resp :=
  (modbus_write_correct demoModbus demoWriteCoils).1 .multipleCoils (by decide)

end Gracemont
