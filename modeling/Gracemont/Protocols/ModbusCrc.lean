/-
  Gracemont protocols — the check sum of Modbus RTU frames
  (`protocols/modbus/modbus.c`, the same file in both ports, and
  `devtools/shared/src/utils/protocol.js`).

  The RTOS goes by a table of 256 entries, the developer tools bit by bit in a
  32-bit integer.  Both are the remainder by `0xA001`.

  * `crc16Table_get`: the entries of the table;
  * `modbusCrc16_eq`, `calculateModbusCRC_eq`: each as the remainder;
  * `modbusCrc_agree`: so they are the same number;
  * `buildModbusRTUFrame_eq`: a frame ends with the bytes of its remainder;
  * `modbusRTUFrame_selfCheck`: so that the check over all of it is zero, and
    no longer is once a byte has changed;
  * `modbusRTUFrame_damage`: nor after a burst of up to 16 bits, or an odd number of
    wrong bits.
-/
import Mathlib.Data.Int.Notation
import Mathlib.Logic.Function.Iterate
import Gracemont.Lib.Crc

namespace Gracemont

open Lib

/-! ## The RTOS -/

/-- `crc16_table` -/
def crc16Table : List (BitVec 16) := [
    0x0000, 0xC0C1, 0xC181, 0x0140, 0xC301, 0x03C0, 0x0280, 0xC241,
    0xC601, 0x06C0, 0x0780, 0xC741, 0x0500, 0xC5C1, 0xC481, 0x0440,
    0xCC01, 0x0CC0, 0x0D80, 0xCD41, 0x0F00, 0xCFC1, 0xCE81, 0x0E40,
    0x0A00, 0xCAC1, 0xCB81, 0x0B40, 0xC901, 0x09C0, 0x0880, 0xC841,
    0xD801, 0x18C0, 0x1980, 0xD941, 0x1B00, 0xDBC1, 0xDA81, 0x1A40,
    0x1E00, 0xDEC1, 0xDF81, 0x1F40, 0xDD01, 0x1DC0, 0x1C80, 0xDC41,
    0x1400, 0xD4C1, 0xD581, 0x1540, 0xD701, 0x17C0, 0x1680, 0xD641,
    0xD201, 0x12C0, 0x1380, 0xD341, 0x1100, 0xD1C1, 0xD081, 0x1040,
    0xF001, 0x30C0, 0x3180, 0xF141, 0x3300, 0xF3C1, 0xF281, 0x3240,
    0x3600, 0xF6C1, 0xF781, 0x3740, 0xF501, 0x35C0, 0x3480, 0xF441,
    0x3C00, 0xFCC1, 0xFD81, 0x3D40, 0xFF01, 0x3FC0, 0x3E80, 0xFE41,
    0xFA01, 0x3AC0, 0x3B80, 0xFB41, 0x3900, 0xF9C1, 0xF881, 0x3840,
    0x2800, 0xE8C1, 0xE981, 0x2940, 0xEB01, 0x2BC0, 0x2A80, 0xEA41,
    0xEE01, 0x2EC0, 0x2F80, 0xEF41, 0x2D00, 0xEDC1, 0xEC81, 0x2C40,
    0xE401, 0x24C0, 0x2580, 0xE541, 0x2700, 0xE7C1, 0xE681, 0x2640,
    0x2200, 0xE2C1, 0xE381, 0x2340, 0xE101, 0x21C0, 0x2080, 0xE041,
    0xA001, 0x60C0, 0x6180, 0xA141, 0x6300, 0xA3C1, 0xA281, 0x6240,
    0x6600, 0xA6C1, 0xA781, 0x6740, 0xA501, 0x65C0, 0x6480, 0xA441,
    0x6C00, 0xACC1, 0xAD81, 0x6D40, 0xAF01, 0x6FC0, 0x6E80, 0xAE41,
    0xAA01, 0x6AC0, 0x6B80, 0xAB41, 0x6900, 0xA9C1, 0xA881, 0x6840,
    0x7800, 0xB8C1, 0xB981, 0x7940, 0xBB01, 0x7BC0, 0x7A80, 0xBA41,
    0xBE01, 0x7EC0, 0x7F80, 0xBF41, 0x7D00, 0xBDC1, 0xBC81, 0x7C40,
    0xB401, 0x74C0, 0x7580, 0xB541, 0x7700, 0xB7C1, 0xB681, 0x7640,
    0x7200, 0xB2C1, 0xB381, 0x7340, 0xB101, 0x71C0, 0x7080, 0xB041,
    0x5000, 0x90C1, 0x9181, 0x5140, 0x9301, 0x53C0, 0x5280, 0x9241,
    0x9601, 0x56C0, 0x5780, 0x9741, 0x5500, 0x95C1, 0x9481, 0x5440,
    0x9C01, 0x5CC0, 0x5D80, 0x9D41, 0x5F00, 0x9FC1, 0x9E81, 0x5E40,
    0x5A00, 0x9AC1, 0x9B81, 0x5B40, 0x9901, 0x59C0, 0x5880, 0x9841,
    0x8801, 0x48C0, 0x4980, 0x8941, 0x4B00, 0x8BC1, 0x8A81, 0x4A40,
    0x4E00, 0x8EC1, 0x8F81, 0x4F40, 0x8D01, 0x4DC0, 0x4C80, 0x8C41,
    0x4400, 0x84C1, 0x8581, 0x4540, 0x8701, 0x47C0, 0x4680, 0x8641,
    0x8201, 0x42C0, 0x4380, 0x8341, 0x4100, 0x81C1, 0x8081, 0x4040]

/-- The body of the loop of `modbus_crc16`. -/
def modbusCrc16Step (crc : BitVec 16) (byte : BitVec 8) : BitVec 16 :=
  crc >>> 8 ^^^ crc16Table.getD ((crc ^^^ byte.setWidth 16) &&& 0xFF).toNat 0

/-- `modbus_crc16` -/
def modbusCrc16 (data : List (BitVec 8)) : BitVec 16 := data.foldl modbusCrc16Step 0xFFFF

/-! ## The developer tools -/

/-- The body of the inner loop of `calculateModbusCRC`.  The shift of a number
    is that of its 32-bit integer, with the sign. -/
def modbusCRCBit (crc : BitVec 32) : BitVec 32 :=
  if crc &&& 1 ≠ 0 then crc.sshiftRight 1 ^^^ 0xA001 else crc.sshiftRight 1

/-- `calculateModbusCRC`, the 32-bit integer that it returns. -/
def calculateModbusCRC (data : List (BitVec 8)) : BitVec 32 :=
  data.foldl (fun crc byte => modbusCRCBit^[8] (crc ^^^ byte.setWidth 32)) 0xFFFF

/-! ## Both are remainders -/

/-- The generator, its bits in reverse order. -/
def modbusPoly : BitVec 16 := 0xA001

/-- The table has the remainders of the numbers below 256. -/
theorem crc16Table_eq : crc16Table = (List.range 256).map fun i =>
    Crc.bitSteps modbusPoly 8 (BitVec.ofNat 16 i) := by
  decide +kernel

/-- Each entry is the remainder of its index. -/
theorem crc16Table_get :
    ∀ i : BitVec 8, crc16Table.getD i.toNat 0 = Crc.bitSteps modbusPoly 8 (i.setWidth 16) := by
  intro i
  rw [crc16Table_eq, List.getD_eq_getElem?_getD, List.getElem?_map, List.getElem?_range i.isLt]
  exact congrArg (Crc.bitSteps modbusPoly 8) (BitVec.ofNat_toNat ..)

theorem modbusCrc16Step_eq (crc : BitVec 16) (byte : BitVec 8) :
    modbusCrc16Step crc byte = Crc.byteStep modbusPoly crc byte := by
  have hindex : ((crc ^^^ byte.setWidth 16) &&& 0xFF).toNat =
      ((crc ^^^ byte.setWidth 16).setWidth 8).toNat := by
    rw [BitVec.toNat_and, BitVec.toNat_setWidth]
    exact Nat.and_two_pow_sub_one_eq_mod _ 8
  rw [← Crc.tableStep_eq_byteStep crc16Table_get, modbusCrc16Step, Crc.tableStep, hindex]

theorem modbusCrc16_eq (data : List (BitVec 8)) :
    modbusCrc16 data = Crc.remainder modbusPoly 0xFFFF data :=
  congrArg (fun f => data.foldl f _) (funext₂ modbusCrc16Step_eq)

/-- A number of 16 bits is not negative, so that its shift is the one of the
    register. -/
theorem sshiftRight_wide (x : BitVec 16) (n : ℕ) :
    (x.setWidth 32).sshiftRight n = x.setWidth 32 >>> n := by
  refine BitVec.sshiftRight_eq_of_msb_false ?_
  rw [BitVec.msb_setWidth]
  simp

theorem modbusCRCBit_eq (x : BitVec 16) :
    modbusCRCBit (x.setWidth 32) = (Crc.bitStep modbusPoly x).setWidth 32 := by
  have hbit : (x.setWidth 32 &&& 1 ≠ 0) ↔ (x.setWidth 32).getLsbD 0 = true := by
    rw [show (1 : BitVec 32) = 1#32 from rfl, BitVec.and_one_eq_setWidth_ofBool_getLsbD]
    cases (x.setWidth 32).getLsbD 0 <;> decide
  rw [modbusCRCBit, sshiftRight_wide, if_congr hbit rfl rfl, ← Crc.bitStep_setWidth (by decide)]
  rfl

theorem modbusCRCBit_iterate (n : ℕ) (x : BitVec 16) :
    modbusCRCBit^[n] (x.setWidth 32) = (Crc.bitSteps modbusPoly n x).setWidth 32 := by
  induction n generalizing x with
  | zero => rfl
  | succ n ih => rw [Function.iterate_succ_apply, modbusCRCBit_eq, ih]; rfl

theorem calculateModbusCRC_eq (data : List (BitVec 8)) :
    calculateModbusCRC data = (Crc.remainder modbusPoly 0xFFFF data).setWidth 32 := by
  have hloop : ∀ (l : List (BitVec 8)) (x : BitVec 16),
      l.foldl (fun crc byte => modbusCRCBit^[8] (crc ^^^ byte.setWidth 32)) (x.setWidth 32) =
        (Crc.remainder modbusPoly x l).setWidth 32 := by
    intro l
    induction l with
    | nil => intro x; rfl
    | cons b l ih =>
      intro x
      have hb : x.setWidth 32 ^^^ b.setWidth 32 = (x ^^^ b.setWidth 16).setWidth 32 := by
        rw [BitVec.setWidth_xor, BitVec.setWidth_setWidth (by omega)]
      rw [List.foldl_cons, hb, modbusCRCBit_iterate, ih]
      rfl
  exact hloop data 0xFFFF

/-- Both implementations give the same check sum for every frame. -/
theorem modbusCrc_agree (data : List (BitVec 8)) :
    (calculateModbusCRC data).toInt = ((modbusCrc16 data).toNat : ℤ) := by
  have hlt := (modbusCrc16 data).isLt
  rw [calculateModbusCRC_eq, ← modbusCrc16_eq, BitVec.toInt_eq_toNat_of_lt] <;>
    rw [BitVec.toNat_setWidth_of_le (by decide)]
  omega

/-! ## The frames of the developer tools -/

/-- `Uint8Array.prototype.set`, of bytes for which there is room at `offset`. -/
def uint8ArraySet (array bytes : List (BitVec 8)) (offset : ℕ) : List (BitVec 8) :=
  array.take offset ++ bytes ++ array.drop (offset + bytes.length)

/-- `buildModbusRTUFrame`.  A number becomes a byte modulo 256. -/
def buildModbusRTUFrame (address functionCode : ℤ) (data : List (BitVec 8)) : List (BitVec 8) :=
  let frame := List.replicate (4 + data.length) 0#8
  let frame := frame.set 0 (BitVec.ofInt 8 address)
  let frame := frame.set 1 (BitVec.ofInt 8 functionCode)
  let frame := uint8ArraySet frame data 2
  let crc := calculateModbusCRC (frame.take (frame.length - 2))
  let frame := frame.set (frame.length - 2) ((crc &&& 0xFF).setWidth 8)
  frame.set (frame.length - 1) ((crc.sshiftRight 8 &&& 0xFF).setWidth 8)

/-- What the check of a frame is over: address, function code and data. -/
def rtuBody (address functionCode : ℤ) (data : List (BitVec 8)) : List (BitVec 8) :=
  BitVec.ofInt 8 address :: BitVec.ofInt 8 functionCode :: data

/-- The two bytes that are sent of the check are those of the register, the
    lower one first. -/
theorem crcBytes_eq (x : BitVec 16) :
    [((x.setWidth 32) &&& 0xFF).setWidth 8, ((x.setWidth 32).sshiftRight 8 &&& 0xFF).setWidth 8] =
      Crc.bytesOf 2 x := by
  have hlow : ∀ y : BitVec 32, (y &&& 0xFF).setWidth 8 = y.setWidth 8 := fun y => by
    refine BitVec.eq_of_toNat_eq ?_
    rw [BitVec.toNat_setWidth, BitVec.toNat_setWidth, BitVec.toNat_and]
    exact (congrArg (· % 2 ^ 8) (Nat.and_two_pow_sub_one_eq_mod _ 8)).trans (Nat.mod_mod ..)
  have hhigh : ((x.setWidth 32) >>> 8).setWidth 8 = (x >>> 8).setWidth 8 := by
    refine BitVec.eq_of_toNat_eq ?_
    rw [BitVec.toNat_setWidth, BitVec.toNat_setWidth, BitVec.toNat_ushiftRight,
      BitVec.toNat_ushiftRight, BitVec.toNat_setWidth_of_le (by decide)]
  rw [hlow, hlow, sshiftRight_wide, hhigh, BitVec.setWidth_setWidth (by omega)]
  rfl

theorem buildModbusRTUFrame_eq (address functionCode : ℤ) (data : List (BitVec 8)) :
    buildModbusRTUFrame address functionCode data =
      rtuBody address functionCode data ++
        Crc.bytesOf 2 (Crc.remainder modbusPoly 0xFFFF (rtuBody address functionCode data)) := by
  have hfill : uint8ArraySet (((List.replicate (4 + data.length) 0#8).set 0
      (BitVec.ofInt 8 address)).set 1 (BitVec.ofInt 8 functionCode)) data 2 =
        rtuBody address functionCode data ++ [0, 0] := by
    have hrep : List.replicate (4 + data.length) 0#8 =
        0 :: 0 :: List.replicate (data.length + 2) 0 := by
      rw [show 4 + data.length = data.length + 2 + 1 + 1 by omega, List.replicate_succ,
        List.replicate_succ]
      rfl
    have htail : (List.replicate (data.length + 2) 0#8).drop data.length = [0, 0] := by
      rw [List.drop_replicate, Nat.add_sub_cancel_left]
      rfl
    rw [uint8ArraySet, hrep, Nat.add_comm 2]
    exact congrArg (rtuBody address functionCode data ++ ·) htail
  have hlen : (rtuBody address functionCode data ++ [0, 0]).length - 2 =
      (rtuBody address functionCode data).length := by
    rw [List.length_append, List.length_cons, List.length_singleton, Nat.add_sub_cancel]
  have hlast : (rtuBody address functionCode data ++ [0, 0]).length - 1 =
      (rtuBody address functionCode data).length + 1 := by
    rw [List.length_append, List.length_cons, List.length_singleton, Nat.add_sub_assoc (by decide)]
  simp only [buildModbusRTUFrame, hfill, List.length_set, hlen, hlast, List.take_left']
  rw [← crcBytes_eq, ← calculateModbusCRC_eq, List.set_append_right _ _ (Nat.le_refl _),
    List.set_append_right _ _ (Nat.le_succ _), Nat.sub_self, Nat.succ_sub (Nat.le_refl _),
    Nat.sub_self]
  rfl

/-- A frame checks itself: with the two bytes of its check it leaves nothing,
    in the RTOS and in the developer tools, and it leaves something as soon as
    any one of its bytes is another one. -/
theorem modbusRTUFrame_selfCheck (address functionCode : ℤ) (data : List (BitVec 8)) :
    let frame := buildModbusRTUFrame address functionCode data
    modbusCrc16 frame = 0 ∧ calculateModbusCRC frame = 0 ∧
      ∀ (i : ℕ) (h : i < frame.length) (b : BitVec 8), b ≠ frame[i] →
        modbusCrc16 (frame.set i b) ≠ 0 ∧ calculateModbusCRC (frame.set i b) ≠ 0 := by
  intro frame
  have hzero : Crc.remainder modbusPoly 0xFFFF frame = 0 := by
    rw [show frame = _ from buildModbusRTUFrame_eq .., Crc.remainder_append,
      Crc.remainder_bytesOf]
    exact BitVec.ushiftRight_eq_zero (by decide)
  refine ⟨by rw [modbusCrc16_eq, hzero], by rw [calculateModbusCRC_eq, hzero]; rfl,
    fun i h b hb => ?_⟩
  have hne : Crc.remainder modbusPoly 0xFFFF (frame.set i b) ≠ 0 :=
    hzero ▸ Crc.remainder_set_ne rfl (by decide) 0xFFFF h hb
  refine ⟨by rwa [modbusCrc16_eq], fun hwide => hne ?_⟩
  rw [calculateModbusCRC_eq] at hwide
  have := congrArg (BitVec.setWidth 16) hwide
  rwa [BitVec.setWidth_setWidth (by omega), BitVec.setWidth_eq] at this

/-- The request for ten registers, its address changed on the way. -/
theorem modbusRTUFrame_selfCheck_read :
    buildModbusRTUFrame 1 3 [0, 0, 0, 10] = [1, 3, 0, 0, 0, 10, 0xC5, 0xCD] ∧
      modbusCrc16 [2, 3, 0, 0, 0, 10, 0xC5, 0xCD] ≠ 0 := by
  have hframe : buildModbusRTUFrame 1 3 [0, 0, 0, 10] = [1, 3, 0, 0, 0, 10, 0xC5, 0xCD] := by
    decide +kernel
  have hset := ((modbusRTUFrame_selfCheck 1 3 [0, 0, 0, 10]).2.2 0 (by decide +kernel) 2
    (by decide +kernel)).1
  rw [hframe] at hset
  exact ⟨hframe, hset⟩

/-! ## Damage on the line -/

/-- The generator ends with a one and has an odd number of them (and one more in
    front), so that no error of these kinds goes unseen. -/
theorem modbusCrc_detects {frame error : List (BitVec 8)} (hlen : frame.length = error.length)
    (herror : Crc.Burst 16 (Crc.lineBits error) ∨ (Crc.lineBits error).count true % 2 = 1) :
    Crc.remainder modbusPoly 0xFFFF (List.zipWith (· ^^^ ·) frame error) ≠
      Crc.remainder modbusPoly 0xFFFF frame := by
  have hsum : Crc.remainder modbusPoly 0xFFFF (List.zipWith (· ^^^ ·) frame error) =
      Crc.remainder modbusPoly 0xFFFF frame ^^^ Crc.remainder modbusPoly 0#16 error := by
    rw [← Crc.remainder_xor hlen, BitVec.xor_zero]
  have hne : Crc.remainder modbusPoly 0#16 error ≠ 0#16 := by
    rw [Crc.remainder_eq_feedBits (by decide)]
    rcases herror with hburst | hodd
    · exact Crc.feedBits_burst rfl hburst
    · exact Crc.feedBits_odd (by decide) rfl hodd
  intro hsame
  rw [hsum] at hsame
  refine hne ((BitVec.xor_right_inj (Crc.remainder modbusPoly 0xFFFF frame)).1 ?_)
  rw [hsame, BitVec.xor_zero]

/-- **A frame damaged on the line** is seen by the RTOS and by the developer tools: in
    an odd number of bits, or in one burst of up to 16 bits, in the order of the line. -/
theorem modbusRTUFrame_damage (address functionCode : ℤ) (data : List (BitVec 8))
    {error : List (BitVec 8)}
    (hlen : (buildModbusRTUFrame address functionCode data).length = error.length)
    (herror : Crc.Burst 16 (Crc.lineBits error) ∨ (Crc.lineBits error).count true % 2 = 1) :
    let received :=
      List.zipWith (· ^^^ ·) (buildModbusRTUFrame address functionCode data) error
    modbusCrc16 received ≠ 0 ∧ calculateModbusCRC received ≠ 0 := by
  intro received
  have hzero : Crc.remainder modbusPoly 0xFFFF (buildModbusRTUFrame address functionCode data) =
      0 := by
    rw [buildModbusRTUFrame_eq, Crc.remainder_append, Crc.remainder_bytesOf]
    exact BitVec.ushiftRight_eq_zero (by decide)
  have hne : Crc.remainder modbusPoly 0xFFFF received ≠ 0 := hzero ▸ modbusCrc_detects hlen herror
  refine ⟨by rwa [modbusCrc16_eq], fun hwide => hne ?_⟩
  rw [calculateModbusCRC_eq] at hwide
  have := congrArg (BitVec.setWidth 16) hwide
  rwa [BitVec.setWidth_setWidth (by omega), BitVec.setWidth_eq] at this

/-- The request for ten registers, with 16 bits in a row wrong. -/
theorem modbusRTUFrame_damage_burst :
    modbusCrc16 (List.zipWith (· ^^^ ·) (buildModbusRTUFrame 1 3 [0, 0, 0, 10])
        [0, 0, 0x80, 0xFF, 0x7F, 0, 0, 0]) ≠ 0 ∧
      calculateModbusCRC (List.zipWith (· ^^^ ·) (buildModbusRTUFrame 1 3 [0, 0, 0, 10])
        [0, 0, 0x80, 0xFF, 0x7F, 0, 0, 0]) ≠ 0 := by
  have hlen : (buildModbusRTUFrame 1 3 [0, 0, 0, 10]).length = 8 := by
    rw [buildModbusRTUFrame_eq]
    rfl
  refine modbusRTUFrame_damage 1 3 [0, 0, 0, 10] hlen (.inl ⟨by decide, 23, ?_⟩)
  have hbits : ∀ i : Fin 64, (Crc.lineBits [0, 0, 0x80, 0xFF, 0x7F, 0, 0, 0])[i.val]? = some true →
      23 ≤ i.val ∧ i.val < 23 + 16 := by decide
  intro i hi
  exact hbits ⟨i, (List.getElem?_eq_some_iff.1 hi).1⟩ hi

end Gracemont
