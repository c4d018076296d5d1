/-
  Gracemont protocols — the requests of the Modbus TCP client, for every length
  (`modbus_build_request` and `modbus_write_multiple_registers` of
  `protocols/modbus/modbus.c`, the same file in both ports).

  The size of a request and the size of the data of a write are computed in 16 bits,
  and the byte count of a write in 8 bits.

  * `SafeRequest`, `SafeWrite`: a request that is right, or not sent;
  * `modbusBuildRequest_iff`: when a request is safe, for any data;
  * `client_requests_iff`: the lengths and the counts for which requests are safe.
-/
import Gracemont.Protocols.ModbusClient

namespace Gracemont

open Lib (ByteMem)

/-- The data of a write, in the memory `m` that `heap_alloc` returns. -/
def putWriteData (m : ByteMem) (addr count : BitVec 16) (values : ℕ → BitVec 16) : ByteMem :=
  putValues values
    (m.putBytes 0 [hiByte addr, loByte addr, hiByte count, loByte count, (count * 2).setWidth 8])
    count.toNat

/-! ## Statement -/

/-- A frame of `len` bytes is a request with this data: header, function code and data
    are what the client was called with, and the length field counts the bytes behind it. -/
structure RightRequest (client : ModbusClient) (slave function : BitVec 8)
    (data : List (BitVec 8)) (len : BitVec 16) (frame : ℕ → BitVec 8) : Prop where
  size : len.toNat = modbusTcpHdrLen + 1 + data.length
  transaction : be16 frame 0 = client.transactionId
  protocol : be16 frame 2 = 0
  length : 6 + (be16 frame 4).toNat = len.toNat
  unit : frame 6 = slave
  function : frame modbusTcpHdrLen = function
  payload : ∀ i < data.length, frame (modbusTcpHdrLen + 1 + i) = frameByte data i

/-- A frame of `len` bytes is a request that writes these values. -/
structure RightWrite (client : ModbusClient) (slave : BitVec 8) (addr count : BitVec 16)
    (values : ℕ → BitVec 16) (len : BitVec 16) (frame : ℕ → BitVec 8) : Prop where
  size : len.toNat = modbusTcpHdrLen + 6 + 2 * count.toNat
  transaction : be16 frame 0 = client.transactionId
  protocol : be16 frame 2 = 0
  length : 6 + (be16 frame 4).toNat = len.toNat
  unit : frame 6 = slave
  function : frame modbusTcpHdrLen = modbusFcWriteMultipleRegisters
  address : be16 frame (modbusTcpHdrLen + 1) = addr
  quantity : be16 frame (modbusTcpHdrLen + 3) = count
  byteCount : (frame (modbusTcpHdrLen + 5)).toNat = 2 * count.toNat
  registers : ∀ i < count.toNat, be16 frame (modbusTcpHdrLen + 6 + 2 * i) = values i

section
variable {β : Type} [DecidableEq β]

/-- **A safe request**: each buffer is only written inside, and what is sent, if
    anything, is right. -/
def SafeRequest (pool : ZbufPool β) (request : Option (ModbusRequest β))
    (right : BitVec 16 → (ℕ → BitVec 8) → Prop) : Prop :=
  ∃ client' pool' req, request = some (client', pool', req) ∧
    (∀ x, (pool.zb x).space.Within zbufHead zbufEnd (pool'.zb x).space) ∧
    ∀ zb, req = some zb → right (pool'.zb zb).len (pool'.zb zb).frame

/-- **A safe write**: the memory for the data is only written inside, and the request
    is safe. -/
structure SafeWrite (client : ModbusClient) (pool : ZbufPool β) (mem : Option ByteMem)
    (slave : BitVec 8) (addr count : BitVec 16) (values : ℕ → BitVec 16) : Prop where
  heap : ∀ m, mem = some m →
    m.Within 0 (5 + count * 2 : BitVec 16).toNat (putWriteData m addr count values)
  request : SafeRequest pool (modbusWriteMultipleRegisters client pool mem slave addr count values)
    (RightWrite client slave addr count values)

/-! ## Runs -/

section
variable (client : ModbusClient) {pool : ZbufPool β} (slave function : BitVec 8)
  (data : List (BitVec 8)) {right : BitVec 16 → (ℕ → BitVec 8) → Prop}

/-- Without a buffer, or with a size that is too large for one, nothing is sent. -/
theorem modbusBuildRequest_fails (h : pool.freeList = none ∨
    configZbufSize - configZbufHeadroom < (requestSize data.length).toNat) :
    SafeRequest pool (modbusBuildRequest client pool slave function data) right := by
  obtain ⟨pool', halloc⟩ : ∃ pool', zbufAllocTx pool (requestSize data.length) = (pool', none) := by
    rcases h with hfree | hsize
    · exact zbufAllocTx_none hfree _
    · exact zbufAllocTx_large hsize
  refine ⟨client, pool', none, ?_, fun x => ?_, nofun⟩
  · rw [requestSize] at halloc
    simp only [modbusBuildRequest, halloc]
  · have hspace := zbufAllocTx_space pool (requestSize data.length) x
    rw [halloc] at hspace
    rw [hspace]
    exact ByteMem.Within.refl ..

/-- It is safe if the bytes fit behind the headroom, and are right. -/
theorem modbusBuildRequest_safe_iff {zb : β} (hb : pool.freeList = some zb)
    (hsize : (requestSize data.length).toNat ≤ configZbufSize - configZbufHeadroom) :
    SafeRequest pool (modbusBuildRequest client pool slave function data) right ↔
      8 + data.length ≤ configZbufSize - configZbufHeadroom ∧
        right (requestSize data.length) fun i => ((pool.zb zb).space.putBytes configZbufHeadroom
          (requestBytes client slave function data)).byte (configZbufHeadroom + i) := by
  obtain ⟨pool', hrun, hlen, hdata, hspace, hother⟩ :=
    modbusBuildRequest_sends client slave function data hb hsize
  have hbytes := requestBytes_length client slave function data
  have hwithin : (pool.zb zb).space.Within zbufHead zbufEnd ((pool.zb zb).space.putBytes
      configZbufHeadroom (requestBytes client slave function data)) ↔ _ :=
    ByteMem.within_putBytes_iff (List.length_pos_iff.1 (by omega))
  have hframe : (pool'.zb zb).frame = fun i => ((pool.zb zb).space.putBytes configZbufHeadroom
      (requestBytes client slave function data)).byte (configZbufHeadroom + i) := by
    funext i
    rw [Zbuf.frame, hspace, hdata]
  rw [hbytes, ← hspace] at hwithin
  simp only [zbufHead, zbufEnd, configZbufSize, configZbufHeadroom] at hwithin hsize ⊢
  constructor
  · rintro ⟨client₁, pool₁, req, hreq, hin, hright⟩
    rw [hrun] at hreq
    cases hreq
    have hzb := hwithin.1 (hin zb)
    have hzb' := hright zb rfl
    rw [hlen, hframe] at hzb'
    exact ⟨by omega, hzb'⟩
  · rintro ⟨hroom, hright⟩
    refine ⟨_, _, _, hrun, fun x => ?_, fun x hx => ?_⟩
    · by_cases hx : x = zb
      · rw [hx]
        exact hwithin.2 (by omega)
      · rw [hother x hx]
        exact ByteMem.Within.refl ..
    · cases hx
      rw [hlen, hframe]
      exact hright

/-- The bytes of a request that fits are right. -/
theorem requestBytes_right (m : ByteMem) (a : ℕ) (hn : data.length ≤ 1912) :
    RightRequest client slave function data (requestSize data.length) fun i =>
      (m.putBytes a (requestBytes client slave function data)).byte (a + i) := by
  have hsize : (requestSize data.length).toNat = 8 + data.length := by
    rw [requestSize_toNat]
    omega
  have hbyte : ∀ i < 8 + data.length,
      (m.putBytes a (requestBytes client slave function data)).byte (a + i) =
        frameByte (requestBytes client slave function data) i := by
    intro i hi
    rw [← requestBytes_length client slave function data] at hi
    rw [ByteMem.putBytes_byte _ _ _ hi]
    exact (List.getD_eq_getElem _ _ hi).symm
  have hhead : ∀ i < 7, frameByte (requestBytes client slave function data) i =
      frameByte (mbapBytes client.transactionId (BitVec.ofNat 16 data.length + 2) slave) i :=
    fun i hi => frameByte_append_left _ hi
  have htail : ∀ i, frameByte (requestBytes client slave function data) (7 + i) =
      frameByte (function :: data) i :=
    frameByte_append_right
      (mbapBytes client.transactionId (BitVec.ofNat 16 data.length + 2) slave) _
  refine ⟨hsize, ?_, ?_, ?_, ?_, ?_, fun i hi => ?_⟩
  · rw [be16_congr hbyte (by omega), be16_congr hhead (by omega)]
    exact be16_cons _ _
  · rw [be16_congr hbyte (by omega), be16_congr hhead (by omega)]
    exact be16_cons [] 0
  · have hlength : be16 (frameByte (mbapBytes client.transactionId
        (BitVec.ofNat 16 data.length + 2) slave)) 4 = BitVec.ofNat 16 data.length + 2 :=
      hiByte_append_loByte _
    rw [be16_congr hbyte (by omega), be16_congr hhead (by omega), hlength, hsize, BitVec.toNat_add,
      BitVec.toNat_ofNat, show (2 : BitVec 16).toNat = 2 from rfl]
    omega
  · rw [hbyte 6 (by omega), hhead 6 (by omega)]
    rfl
  · exact (hbyte 7 (by omega)).trans (htail 0)
  · rw [hbyte _ (by rw [modbusTcpHdrLen]; omega),
      show modbusTcpHdrLen + 1 + i = 7 + (i + 1) by rw [modbusTcpHdrLen]; omega, htail]
    rfl

/-- **A request is safe** if there is no buffer, its size is too large, or its data
    fits and is what it has to be. -/
theorem modbusBuildRequest_iff {P : Prop} (hright : data.length ≤ 1912 → ∀ len frame,
      RightRequest client slave function data len frame → (right len frame ↔ P)) :
    SafeRequest pool (modbusBuildRequest client pool slave function data) right ↔
      pool.freeList = none ∨ 1920 < (8 + data.length) % 2 ^ 16 ∨ data.length ≤ 1912 ∧ P := by
  have hlimit : configZbufSize - configZbufHeadroom = 1920 := rfl
  rw [← requestSize_toNat]
  cases hb : pool.freeList with
  | none => simp [modbusBuildRequest_fails client slave function data (.inl hb)]
  | some zb =>
    by_cases hsize : 1920 < (requestSize data.length).toNat
    · simp [modbusBuildRequest_fails client slave function data (.inr hsize), hsize]
    · have hroom : 8 + data.length ≤ 1920 ↔ data.length ≤ 1912 := by omega
      rw [modbusBuildRequest_safe_iff client slave function data hb (by omega), hlimit, hroom]
      simp only [reduceCtorEq, hsize, false_or]
      refine and_congr_right fun hn => hright hn _ _ ?_
      exact requestBytes_right client slave function data _ _ hn

end

/-! ## Writes -/

/-- The data of a write. -/
def writeArgs (addr count : BitVec 16) (values : ℕ → BitVec 16) : List (BitVec 8) :=
  [hiByte addr, loByte addr, hiByte count, loByte count, (count * 2).setWidth 8] ++
    wordBytes values count.toNat

theorem writeArgs_length (addr count : BitVec 16) (values : ℕ → BitVec 16) :
    (writeArgs addr count values).length = 5 + 2 * count.toNat := by
  rw [writeArgs, List.length_append, wordBytes_length]
  rfl

/-- The loop over the values writes the data in order. -/
theorem putWriteData_eq (m : ByteMem) (addr count : BitVec 16) (values : ℕ → BitVec 16) :
    putWriteData m addr count values = m.putBytes 0 (writeArgs addr count values) := by
  have hloop : ∀ (m : ByteMem) n, putValues values m n = m.putBytes 5 (wordBytes values n) := by
    intro m n
    induction n with
    | zero => rfl
    | succ n ih =>
      rw [wordBytes, ByteMem.putBytes_append, wordBytes_length, ← ih, Nat.mul_comm]
      rfl
  rw [putWriteData, writeArgs, ByteMem.putBytes_append, hloop]
  rfl

/-- The memory for the data is only written inside if its size does not wrap around. -/
theorem putWriteData_within_iff (m : ByteMem) (addr count : BitVec 16) (values : ℕ → BitVec 16) :
    m.Within 0 (5 + count * 2 : BitVec 16).toNat (putWriteData m addr count values) ↔
      count.toNat ≤ 32765 := by
  have hlen := writeArgs_length addr count values
  have hlt := count.isLt
  rw [putWriteData_eq, ByteMem.within_putBytes_iff (List.length_pos_iff.1 (by omega)), hlen,
    BitVec.toNat_add, BitVec.toNat_mul, show (5 : BitVec 16).toNat = 5 from rfl,
    show (2 : BitVec 16).toNat = 2 from rfl]
  omega

section
variable {client : ModbusClient} {slave : BitVec 8} {addr count : BitVec 16}
  {values : ℕ → BitVec 16} {len : BitVec 16} {frame : ℕ → BitVec 8}

/-- A request with the data of a write is right if the byte count fits its byte. -/
theorem rightWrite_iff (h : RightRequest client slave modbusFcWriteMultipleRegisters
      (writeArgs addr count values) len frame) :
    RightWrite client slave addr count values len frame ↔ count.toNat ≤ 127 := by
  have hlen := writeArgs_length addr count values
  have hlt := count.isLt
  have hword : ∀ i, i + 1 < 5 + 2 * count.toNat →
      be16 frame (modbusTcpHdrLen + 1 + i) = be16 (frameByte (writeArgs addr count values)) i := by
    intro i hi
    rw [be16, be16, h.payload i (by omega), Nat.add_assoc, h.payload (i + 1) (by omega)]
  have hcount : (frame (modbusTcpHdrLen + 5)).toNat = 2 * count.toNat % 256 := by
    rw [show modbusTcpHdrLen + 5 = modbusTcpHdrLen + 1 + 4 from rfl, h.payload 4 (by omega)]
    change ((count * 2).setWidth 8).toNat = _
    rw [BitVec.toNat_setWidth, BitVec.toNat_mul, show (2 : BitVec 16).toNat = 2 from rfl]
    omega
  constructor
  · intro hwrite
    have hbytes := hwrite.byteCount
    omega
  · intro hle
    refine ⟨?_, h.transaction, h.protocol, h.length, h.unit, h.function, ?_, ?_, by omega,
      fun i hi => ?_⟩
    · rw [h.size, hlen]
      omega
    · exact (hword 0 (by omega)).trans (hiByte_append_loByte addr)
    · exact (hword 2 (by omega)).trans (hiByte_append_loByte count)
    · have hregister := hword (5 + 2 * i) (by omega)
      rw [← Nat.add_assoc] at hregister
      refine hregister.trans ?_
      exact (be16_append_right [_, _, _, _, _] (wordBytes values count.toNat) (2 * i)).trans
        (be16_wordBytes values hi)

end

section
variable (client : ModbusClient) (pool : ZbufPool β) (slave : BitVec 8)

/-- The sizes wrap around from 65528 bytes of data on. -/
theorem safeRequest_iff (function : BitVec 8) (m : ByteMem) (len : BitVec 16) :
    SafeRequest pool (modbusBuildRequest client pool slave function (m.read 0 len.toNat))
        (RightRequest client slave function (m.read 0 len.toNat)) ↔
      pool.freeList = none ∨ len.toNat ≤ 65527 := by
  have hlt := len.isLt
  rw [modbusBuildRequest_iff client slave function _ (P := True)
    fun _ _ _ h => iff_true_intro h, ByteMem.read_length, and_true]
  refine or_congr_right ?_
  omega

/-- Without a wrap-around, the request of a write has the data of the write. -/
theorem modbusWriteMultipleRegisters_eq (m : ByteMem) (addr : BitVec 16) {count : BitVec 16}
    (hcount : count.toNat ≤ 32765) (values : ℕ → BitVec 16) :
    modbusWriteMultipleRegisters client pool (some m) slave addr count values =
      modbusBuildRequest client pool slave modbusFcWriteMultipleRegisters
        (writeArgs addr count values) := by
  have hsize : (5 + count * 2 : BitVec 16).toNat = (writeArgs addr count values).length := by
    rw [writeArgs_length, BitVec.toNat_add, BitVec.toNat_mul,
      show (5 : BitVec 16).toNat = 5 from rfl, show (2 : BitVec 16).toNat = 2 from rfl]
    omega
  change modbusBuildRequest client pool slave modbusFcWriteMultipleRegisters
    ((putWriteData m addr count values).read 0 (5 + count * 2 : BitVec 16).toNat) = _
  rw [hsize, putWriteData_eq, ByteMem.read_putBytes]

theorem safeWrite_iff (m : ByteMem) (addr count : BitVec 16) (values : ℕ → BitVec 16) :
    SafeWrite client pool (some m) slave addr count values ↔
      count.toNat ≤ 32765 ∧ (pool.freeList = none ∨ count.toNat ≤ 127 ∨
        954 ≤ count.toNat ∧ count.toNat ≤ 32761) := by
  have hheap := putWriteData_within_iff m addr count values
  by_cases hcount : count.toNat ≤ 32765
  · have hrequest : SafeRequest pool (modbusBuildRequest client pool slave
        modbusFcWriteMultipleRegisters (writeArgs addr count values))
          (RightWrite client slave addr count values) ↔ _ :=
      modbusBuildRequest_iff client slave modbusFcWriteMultipleRegisters
        (writeArgs addr count values) fun _ _ _ h => rightWrite_iff h
    rw [← modbusWriteMultipleRegisters_eq client pool slave m addr hcount values,
      writeArgs_length] at hrequest
    constructor
    · intro h
      refine ⟨hcount, (hrequest.1 h.request).imp_right fun h => ?_⟩
      omega
    · rintro ⟨-, h⟩
      refine ⟨fun m' hm => ?_, hrequest.2 (h.imp_right fun h => ?_)⟩
      · cases hm
        exact hheap.2 hcount
      · omega
  · exact iff_of_false (fun h => hcount (hheap.1 (h.heap m rfl))) fun h => hcount h.1

/-- **The requests of the client.**  With a buffer, a request is safe up to 65527
    bytes of data, and a write up to 127 registers, or from 954 registers on, for
    which it is not sent, up to 32761. -/
theorem client_requests_iff (function : BitVec 8) (m : ByteMem) (len : BitVec 16)
    (mem : Option ByteMem) (addr count : BitVec 16) (values : ℕ → BitVec 16) :
    (SafeRequest pool (modbusBuildRequest client pool slave function (m.read 0 len.toNat))
        (RightRequest client slave function (m.read 0 len.toNat)) ↔
      pool.freeList = none ∨ len.toNat ≤ 65527) ∧
    (SafeWrite client pool mem slave addr count values ↔
      mem = none ∨ count.toNat ≤ 32765 ∧ (pool.freeList = none ∨ count.toNat ≤ 127 ∨
        954 ≤ count.toNat ∧ count.toNat ≤ 32761)) := by
  refine ⟨safeRequest_iff client pool slave function m len, ?_⟩
  cases mem with
  | none =>
    refine iff_of_true ⟨nofun, client, pool, none, rfl, fun x => ?_, nofun⟩ (.inl rfl)
    exact ByteMem.Within.refl ..
  | some m =>
    simp only [reduceCtorEq, false_or]
    exact safeWrite_iff client pool slave m addr count values

end

end

/-- A write of 128 registers, whose byte count is 0, one of 32766 registers, for which
    a byte is allocated, and a request with 65528 bytes of data. -/
theorem long_requests_unsafe :
    ¬ SafeWrite ⟨0⟩ demoModbus.pool (some ⟨fun _ => 0, []⟩) 1 0 128 (fun _ => 0) ∧
    ¬ SafeWrite ⟨0⟩ demoModbus.pool (some ⟨fun _ => 0, []⟩) 1 0 32766 (fun _ => 0) ∧
    ¬ SafeRequest demoModbus.pool
        (modbusBuildRequest ⟨0⟩ demoModbus.pool 1 modbusFcWriteMultipleRegisters
          ((⟨fun _ => 0, []⟩ : ByteMem).read 0 (65528 : BitVec 16).toNat))
        (RightRequest ⟨0⟩ 1 modbusFcWriteMultipleRegisters
          ((⟨fun _ => 0, []⟩ : ByteMem).read 0 (65528 : BitVec 16).toNat)) := by
  refine ⟨?_, ?_, ?_⟩
  · rw [safeWrite_iff]
    decide
  · rw [safeWrite_iff]
    decide
  · rw [safeRequest_iff]
    decide

end Gracemont
