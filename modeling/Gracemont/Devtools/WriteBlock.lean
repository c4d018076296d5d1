/-
  Gracemont developer tools — `writeBlock` with any chunk size and the numbers of
  JavaScript (`devtools/flasher/src/utils/flash-protocol.js`).

  The loop moves `offset` and `address` on by the chunk it has written.  Addresses are
  doubles, so the sum of an address and a chunk size is rounded from 2^53 on; an
  address in a command is the lowest 32 bits of it, by signed shifts.

  * `JsInt`, `writeBlockBy`: the integers among the numbers, and the method;
  * `chunkCommands`: the commands of the loop;
  * `CoversBlock`: what the commands write, and when they stop;
  * `covers_block_iff`: the whole block is written if no address was rounded;
  * `writeBlockBy_eq`: with the default chunk size it is `writeBlock`.
-/
import Mathlib.Algebra.Group.Int.Defs
import Mathlib.Data.List.Basic
import Gracemont.Devtools.FlashProtocol
import Gracemont.Lib.Rounding

namespace Gracemont

open Lib

/-! ## Numbers -/

/-- A number that is an integer: one with a precision of 53 bits. -/
structure JsInt where
  val : ℤ
  isFloat : IsFloat 53 val

namespace JsInt

/-- `address + n`, for the length `n` of an array. -/
def add (a : JsInt) (n : ℕ) : JsInt :=
  ⟨roundFloat 53 (a.val + n), roundFloat_isFloat (by decide) _⟩

@[simp] theorem add_val (a : JsInt) (n : ℕ) : (a.add n).val = roundFloat 53 (a.val + n) := rfl

/-- The operand of a shift: the number modulo 2^32. -/
def toInt32 (a : JsInt) : BitVec 32 := BitVec.ofInt 32 a.val

/-- `toString(16)` -/
def toHexString (a : JsInt) : String :=
  (if a.val < 0 then "-" else "") ++ String.ofList (Nat.toDigits 16 a.val.natAbs)

end JsInt

/-- `addrBytes` -/
def addrBytes (address : JsInt) : List (BitVec 8) :=
  [(address.toInt32.sshiftRight 24 &&& 0xFF).setWidth 8,
    (address.toInt32.sshiftRight 16 &&& 0xFF).setWidth 8,
    (address.toInt32.sshiftRight 8 &&& 0xFF).setWidth 8, (address.toInt32 &&& 0xFF).setWidth 8]

/-- The bytes of a block.  A packet with all of them is an array, which has less than 2^32
    elements. -/
structure FlashData where
  bytes : List (BitVec 8)
  fits : bytes.length + 6 < 2 ^ 32

/-! ## The method -/

/-- The command of one turn. -/
def chunkCommand (maxChunkSize : ℕ) (data : List (BitVec 8)) (offset : ℕ) (address : JsInt) :
    FlashCommand :=
  let chunkSize := min maxChunkSize (data.length - offset)
  ⟨CMD.WRITE, addrBytes address ++ (data.drop offset).take chunkSize, 10000⟩

/-- The loop of `writeBlock`, for at most as many turns. -/
def writeBlockByLoop (maxChunkSize : ℕ) (data : List (BitVec 8)) : ℕ → ℕ → JsInt → FlashTask Unit
  | 0, _, _ => return ()
  | turns + 1, offset, address =>
    if offset < data.length then do
      let chunkSize := min maxChunkSize (data.length - offset)
      let response ← Dialogue.await (chunkCommand maxChunkSize data offset address)
      if response.status ≠ RESP.OK then
        throw ("Write failed at address 0x" ++ address.toHexString)
      else
        writeBlockByLoop maxChunkSize data turns (offset + chunkSize) (address.add chunkSize)
    else return ()

/-- `writeBlock(address, data, maxChunkSize)`: each turn writes at least one byte. -/
def writeBlockBy (maxChunkSize : ℕ) (address : JsInt) (data : FlashData) : FlashTask Unit :=
  writeBlockByLoop maxChunkSize data.bytes data.bytes.length 0 address

/-! ## What is written -/

/-- The bytes that a `WRITE` command writes, each with its address. -/
def FlashCommand.writes (c : FlashCommand) : List (BitVec 32 × BitVec 8) :=
  match c.data with
  | b₃ :: b₂ :: b₁ :: b₀ :: bytes =>
    bytes.mapIdx fun i b => (b₃ ++ b₂ ++ b₁ ++ b₀ + BitVec.ofNat 32 i, b)
  | _ => []

/-- Byte `k` of the block at `start + k`, in the order of `k`. -/
def blockWrites (start : ℤ) (data : List (BitVec 8)) : List (BitVec 32 × BitVec 8) :=
  data.mapIdx fun k b => (BitVec.ofInt 32 (start + k), b)

/-- **A block that is covered**, whatever the device: only `WRITE` commands are sent;
    while all goes well they write each byte of the block once, in order, and the call
    returns; after the first other answer no command follows, the chunks up to there have
    been sent, and the call throws. -/
structure CoversBlock (maxChunkSize : ℕ) (start : JsInt) (data : FlashData) : Prop where
  writes : ∀ {σ : Type} (device : FlashDevice σ) (s : σ),
    ∀ v ∈ Dialogue.asked device s (writeBlockBy maxChunkSize start data), v.2.cmd = CMD.WRITE
  ok : ∀ {σ : Type} (device : FlashDevice σ) (s : σ),
    (∀ v ∈ Dialogue.asked device s (writeBlockBy maxChunkSize start data),
      Dialogue.Good FlashResponse.IsOk (device v.1 v.2).2) →
    (Dialogue.asked device s (writeBlockBy maxChunkSize start data)).flatMap (·.2.writes) =
        blockWrites start.val data.bytes ∧
      (Dialogue.run device s (writeBlockBy maxChunkSize start data)).2.2 = .ok ()
  failed : ∀ {σ : Type} (device : FlashDevice σ) (s : σ) (i : ℕ) (v : σ × FlashCommand),
    (Dialogue.asked device s (writeBlockBy maxChunkSize start data))[i]? = some v →
    ¬ Dialogue.Good FlashResponse.IsOk (device v.1 v.2).2 →
    (Dialogue.asked device s (writeBlockBy maxChunkSize start data)).length = i + 1 ∧
      (Dialogue.asked device s (writeBlockBy maxChunkSize start data)).flatMap (·.2.writes) =
        (blockWrites start.val data.bytes).take ((i + 1) * maxChunkSize) ∧
      ∃ e, (Dialogue.run device s (writeBlockBy maxChunkSize start data)).2.2 = .error e

/-! ## The commands of the loop -/

/-- The address after `j` whole chunks. -/
def JsInt.advance (start : JsInt) (chunk : ℕ) : ℕ → JsInt
  | 0 => start
  | j + 1 => (start.advance chunk j).add chunk

/-- The number of chunks. -/
def chunkCount (chunk : ℕ) (data : List (BitVec 8)) : ℕ := (data.length + chunk - 1) / chunk

/-- The command for chunk `j`. -/
def nthCommand (chunk : ℕ) (start : JsInt) (data : List (BitVec 8)) (j : ℕ) : FlashCommand :=
  chunkCommand chunk data (j * chunk) (start.advance chunk j)

def chunkCommands (chunk : ℕ) (start : JsInt) (data : List (BitVec 8)) : List FlashCommand :=
  (List.range (chunkCount chunk data)).map (nthCommand chunk start data)

variable {chunk : ℕ} {start : JsInt} {data : List (BitVec 8)}

theorem lt_chunkCount (hchunk : 0 < chunk) {j : ℕ} :
    j < chunkCount chunk data ↔ j * chunk < data.length := by
  rw [chunkCount, Nat.lt_div_iff_mul_lt hchunk]
  omega

/-- Behind the end of the data nothing is sent. -/
theorem writeBlockByLoop_done {turns offset : ℕ} {address : JsInt} (h : data.length ≤ offset) :
    writeBlockByLoop chunk data turns offset address = return () := by
  cases turns with
  | zero => rfl
  | succ turns =>
    rw [writeBlockByLoop]
    exact if_neg (Nat.not_lt.2 h)

/-- From chunk `j` on. -/
theorem writeBlockByLoop_insists (hchunk : 0 < chunk) {turns j : ℕ}
    (hturns : data.length ≤ j * chunk + turns) :
    Dialogue.Insists FlashResponse.IsOk
      ((List.range' j (chunkCount chunk data - j)).map (nthCommand chunk start data))
      (writeBlockByLoop chunk data turns (j * chunk) (start.advance chunk j)) := by
  induction turns generalizing j with
  | zero =>
    have hend : ¬ j < chunkCount chunk data := by
      rw [lt_chunkCount hchunk]
      omega
    rw [Nat.sub_eq_zero_of_le (Nat.not_lt.1 hend)]
    exact .pure ()
  | succ turns ih =>
    have hnext : (j + 1) * chunk = j * chunk + chunk := Nat.succ_mul ..
    by_cases hlt : j * chunk < data.length
    · have hj := (lt_chunkCount hchunk).2 hlt
      have hcount : chunkCount chunk data - j = chunkCount chunk data - (j + 1) + 1 := by omega
      rw [hcount, List.range'_succ, List.map_cons, writeBlockByLoop, if_pos hlt]
      refine insists_on fun _ => ?_
      by_cases hwhole : chunk ≤ data.length - j * chunk
      · rw [Nat.min_eq_left hwhole, ← hnext]
        exact ih (by omega)
      · have hlast : ¬ j + 1 < chunkCount chunk data := by
          rw [lt_chunkCount hchunk]
          omega
        rw [Nat.sub_eq_zero_of_le (Nat.not_lt.1 hlast), writeBlockByLoop_done (by omega)]
        exact .pure ()
    · have hend : ¬ j < chunkCount chunk data := by rwa [lt_chunkCount hchunk]
      rw [Nat.sub_eq_zero_of_le (Nat.not_lt.1 hend), writeBlockByLoop_done (by omega)]
      exact .pure ()

theorem writeBlockBy_insists (hchunk : 0 < chunk) (start : JsInt) (data : FlashData) :
    Dialogue.Insists FlashResponse.IsOk (chunkCommands chunk start data.bytes)
      (writeBlockBy chunk start data) := by
  have h : Dialogue.Insists FlashResponse.IsOk
      ((List.range' 0 (chunkCount chunk data.bytes - 0)).map (nthCommand chunk start data.bytes))
      (writeBlockByLoop chunk data.bytes data.bytes.length (0 * chunk) (start.advance chunk 0)) :=
    writeBlockByLoop_insists hchunk (by omega)
  rw [Nat.zero_mul] at h
  rw [chunkCommands, List.range_eq_range']
  exact h

/-! ## What the commands write -/

/-- The address can be read off its bytes. -/
theorem addrBytes_word (a : JsInt) : ∃ b₃ b₂ b₁ b₀, addrBytes a = [b₃, b₂, b₁, b₀] ∧
    b₃ ++ b₂ ++ b₁ ++ b₀ = a.toInt32 := by
  refine ⟨_, _, _, _, rfl, ?_⟩
  have hmask : ∀ i, (0xFF : BitVec 32).getLsbD i = decide (i < 8) :=
    fun i => Nat.testBit_two_pow_sub_one 8 i
  apply BitVec.eq_of_getLsbD_eq
  intro i hi
  simp only [BitVec.getLsbD_append, BitVec.getLsbD_setWidth, BitVec.getLsbD_and,
    BitVec.getLsbD_sshiftRight, hmask]
  grind

/-- A chunk is what a slice of the chunk size leaves. -/
theorem take_chunkSize (data : List (BitVec 8)) (offset chunk : ℕ) :
    (data.drop offset).take (min chunk (data.length - offset)) =
      (data.drop offset).take chunk := by
  rcases Nat.le_total chunk (data.length - offset) with h | h
  · rw [Nat.min_eq_left h]
  · rw [Nat.min_eq_right h, List.take_of_length_le (by rw [List.length_drop]),
      List.take_of_length_le (by rwa [List.length_drop])]

theorem nthCommand_writes (chunk : ℕ) (start : JsInt) (data : List (BitVec 8)) (j : ℕ) :
    (nthCommand chunk start data j).writes = ((data.drop (j * chunk)).take chunk).mapIdx fun i b =>
      ((start.advance chunk j).toInt32 + BitVec.ofNat 32 i, b) := by
  obtain ⟨b₃, b₂, b₁, b₀, haddr, hword⟩ := addrBytes_word (start.advance chunk j)
  rw [nthCommand, chunkCommand, FlashCommand.writes, haddr, take_chunkSize, ← hword]
  rfl

/-- Chunk `j` of a block, written at the right address. -/
theorem nthCommand_writes_exact {j : ℕ}
    (haddr : (start.advance chunk j).toInt32 = BitVec.ofInt 32 (start.val + j * chunk)) :
    (nthCommand chunk start data j).writes =
      ((blockWrites start.val data).drop (j * chunk)).take chunk := by
  rw [nthCommand_writes, haddr]
  apply List.ext_getElem?
  intro i
  rw [List.getElem?_mapIdx, List.getElem?_take, List.getElem?_take]
  split_ifs with hi
  · rw [List.getElem?_drop, List.getElem?_drop, blockWrites, List.getElem?_mapIdx]
    have hsum : (start.val + (j * chunk + i : ℕ)) = start.val + j * chunk + i := by
      push_cast
      omega
    simp only [hsum, BitVec.ofInt_add, BitVec.ofInt_natCast]
  · rfl

/-- The first chunks of a list. -/
theorem flatMap_chunks {α : Type} (l : List α) (c m : ℕ) :
    ((List.range m).flatMap fun j => (l.drop (j * c)).take c) = l.take (m * c) := by
  induction m with
  | zero => simp
  | succ m ih =>
    rw [List.range_succ, List.flatMap_append, ih, Nat.succ_mul, List.take_add]
    simp

theorem blockWrites_length (z : ℤ) : (blockWrites z data).length = data.length :=
  List.length_mapIdx

/-- All chunks are the whole block. -/
theorem take_chunkCount (hchunk : 0 < chunk) (z : ℤ) :
    (blockWrites z data).take (chunkCount chunk data * chunk) = blockWrites z data := by
  refine List.take_of_length_le ?_
  have hend : ¬ chunkCount chunk data * chunk < data.length := by
    rw [← lt_chunkCount hchunk]
    exact Nat.lt_irrefl _
  rw [blockWrites_length]
  exact Nat.not_lt.1 hend

/-! ## Addresses -/

/-- Up to there no address is rounded. -/
theorem advance_of_isFloat
    (h : ∀ j, j * chunk < data.length → IsFloat 53 (start.val + (j * chunk : ℕ))) {j : ℕ}
    (hj : j * chunk < data.length) : (start.advance chunk j).val = start.val + (j * chunk : ℕ) := by
  induction j with
  | zero => simp [JsInt.advance]
  | succ j ih =>
    have hnext : (j + 1) * chunk = j * chunk + chunk := Nat.succ_mul ..
    have hsum : start.val + (j * chunk : ℕ) + chunk = start.val + ((j + 1) * chunk : ℕ) := by
      rw [hnext]
      push_cast
      omega
    rw [JsInt.advance, JsInt.add_val, ih (by omega), hsum]
    exact (roundFloat_eq_self_iff (by decide)).2 (h _ hj)

/-- **A rounded address is a wrong one**: it is off by at most a chunk, so by less than
    2^32. -/
theorem advance_of_toInt32 {data : FlashData}
    (h : ∀ j, j * chunk < data.bytes.length →
      (start.advance chunk j).toInt32 = BitVec.ofInt 32 (start.val + (j * chunk : ℕ))) {j : ℕ}
    (hj : j * chunk < data.bytes.length) :
    (start.advance chunk j).val = start.val + (j * chunk : ℕ) := by
  induction j with
  | zero => simp [JsInt.advance]
  | succ j ih =>
    have hnext : (j + 1) * chunk = j * chunk + chunk := Nat.succ_mul ..
    have hbefore := ih (by omega)
    have hnear :
        |(start.advance chunk (j + 1)).val - (start.val + ((j + 1) * chunk : ℕ))| ≤ chunk := by
      have hround := roundFloat_nearest (p := 53) (by decide)
        ((start.advance chunk j).val + chunk) (start.advance chunk j).isFloat
      have hdist :
          |(start.advance chunk j).val - ((start.advance chunk j).val + chunk)| = chunk := by
        rw [sub_add_cancel_left, abs_neg, Nat.abs_cast]
      have hsum : start.val + ((j + 1) * chunk : ℕ) = (start.advance chunk j).val + chunk := by
        rw [hbefore, hnext]
        push_cast
        omega
      rw [hdist] at hround
      rw [hsum]
      exact hround
    have hmod := congrArg BitVec.toNat (h (j + 1) hj)
    rw [JsInt.toInt32, BitVec.toNat_ofInt, BitVec.toNat_ofInt] at hmod
    have hfits := data.fits
    rw [abs_le] at hnear
    omega

/-! ## The block -/

/-- What is written before the first bad answer. -/
theorem chunkCommands_writes (hchunk : 0 < chunk)
    (h : ∀ j, j * chunk < data.length → IsFloat 53 (start.val + (j * chunk : ℕ))) (k : ℕ) :
    ((chunkCommands chunk start data).take k).flatMap FlashCommand.writes =
      (blockWrites start.val data).take (k * chunk) := by
  have hnth : ∀ j ∈ List.range (min k (chunkCount chunk data)),
      (nthCommand chunk start data j).writes =
        ((blockWrites start.val data).drop (j * chunk)).take chunk := by
    intro j hj
    have hlt : j * chunk < data.length := by
      rw [← lt_chunkCount hchunk]
      have := List.mem_range.1 hj
      omega
    refine nthCommand_writes_exact ?_
    rw [JsInt.toInt32, advance_of_isFloat h hlt]
    push_cast
    rfl
  rw [chunkCommands, ← List.map_take, List.take_range, List.flatMap_map,
    List.flatMap_congr hnth, flatMap_chunks]
  rcases Nat.le_total k (chunkCount chunk data) with hk | hk
  · rw [Nat.min_eq_left hk]
  · rw [Nat.min_eq_right hk, take_chunkCount hchunk, List.take_of_length_le]
    have hend : ¬ k * chunk < data.length := by
      rw [← lt_chunkCount hchunk]
      exact Nat.not_lt.2 hk
    rw [blockWrites_length]
    exact Nat.not_lt.1 hend

theorem coversBlock_of_isFloat {data : FlashData} (hchunk : 0 < chunk)
    (h : ∀ j, j * chunk < data.bytes.length → IsFloat 53 (start.val + (j * chunk : ℕ))) :
    CoversBlock chunk start data := by
  have hins := writeBlockBy_insists hchunk start data
  refine ⟨fun device s v hv => ?_, fun device s hall => ?_, fun device s i v hv hbad => ?_⟩
  · have hmem := (hins.asked_prefix (f := device) s).subset (List.mem_map_of_mem hv)
    obtain ⟨j, -, hj⟩ := List.mem_map.1 hmem
    rw [← hj]
    rfl
  · obtain ⟨hsent, a, hrun⟩ := hins.asked_good hall
    refine ⟨?_, hrun⟩
    have hwrites := chunkCommands_writes hchunk h (chunkCount chunk data.bytes)
    rw [take_chunkCount hchunk, List.take_of_length_le (by simp [chunkCommands]), ← hsent,
      List.flatMap_map] at hwrites
    exact hwrites
  · obtain ⟨hlen, hrun⟩ := hins.asked_bad hv hbad
    refine ⟨hlen, ?_, hrun⟩
    have hsent := List.prefix_iff_eq_take.1 (hins.asked_prefix (f := device) s)
    have hwrites := chunkCommands_writes hchunk h (i + 1)
    rw [List.length_map, hlen] at hsent
    rw [← hsent, List.flatMap_map] at hwrites
    exact hwrites

/-- A block is covered only at exact addresses. -/
theorem CoversBlock.isFloat {data : FlashData} (hchunk : 0 < chunk)
    (h : CoversBlock chunk start data) {j : ℕ} (hj : j * chunk < data.bytes.length) :
    IsFloat 53 (start.val + (j * chunk : ℕ)) := by
  have hins := writeBlockBy_insists hchunk start data
  have hgood : ∀ v ∈ Dialogue.asked okDevice () (writeBlockBy chunk start data),
      Dialogue.Good FlashResponse.IsOk (okDevice v.1 v.2).2 :=
    fun v _ => ⟨_, rfl, rfl⟩
  obtain ⟨hwrites, -⟩ := h.ok okDevice () hgood
  rw [← List.flatMap_map Prod.snd, (hins.asked_good hgood).1, chunkCommands, List.flatMap_map,
    ← take_chunkCount hchunk, ← flatMap_chunks] at hwrites
  have haddr : ∀ j, j * chunk < data.bytes.length →
      (start.advance chunk j).toInt32 = BitVec.ofInt 32 (start.val + (j * chunk : ℕ)) := by
    intro j hj
    have hchunks : (List.range (chunkCount chunk data.bytes)).map
          (fun j => (nthCommand chunk start data.bytes j).writes) =
        (List.range (chunkCount chunk data.bytes)).map
          fun j => ((blockWrites start.val data.bytes).drop (j * chunk)).take chunk := by
      rw [List.eq_iff_flatten_eq, ← List.flatMap_def, ← List.flatMap_def, List.map_map,
        List.map_map]
      refine ⟨hwrites, List.map_congr_left fun i _ => ?_⟩
      simp [nthCommand_writes, blockWrites_length]
    have hnth := List.map_inj_left.1 hchunks j (List.mem_range.2 ((lt_chunkCount hchunk).2 hj))
    -- the first byte of the chunk
    have hfirst := congrArg (·[0]?) hnth
    simp only [nthCommand_writes, List.getElem?_mapIdx, List.getElem?_take, List.getElem?_drop,
      blockWrites] at hfirst
    rw [if_pos (by omega), if_pos (by omega), Nat.add_zero, List.getElem?_eq_getElem hj] at hfirst
    simpa using hfirst
  rw [← advance_of_toInt32 haddr hj]
  exact (start.advance chunk j).isFloat

/-- **The coverage of a block**, for every start, data and chunk size: the block is covered
    exactly if the start of each chunk is a number. -/
theorem covers_block_iff (start : JsInt) (data : FlashData) (chunk : ℕ) (hchunk : 0 < chunk) :
    CoversBlock chunk start data ↔
      ∀ j, j * chunk < data.bytes.length → IsFloat 53 (start.val + (j * chunk : ℕ)) :=
  ⟨fun h _ hj => h.isFloat hchunk hj, coversBlock_of_isFloat hchunk⟩

/-- Three bytes at 0xFFFFFFFF, in chunks of two. -/
theorem covers_block_wrap : CoversBlock 2 ⟨0xFFFFFFFF, isFloat_of_abs_le (by decide) (by decide)⟩
    ⟨[1, 2, 3], by decide⟩ := by
  refine (covers_block_iff _ _ 2 (by decide)).2 fun j hj => isFloat_of_abs_le (by decide) ?_
  have hj3 : j * 2 < 3 := hj
  show |(0xFFFFFFFF : ℤ) + (j * 2 : ℕ)| ≤ _
  rw [abs_le]
  omega

/-- An address of a kernel in the higher half. -/
def demoHighAddress : JsInt :=
  ⟨0xFFFF800000100000, (roundFloat_eq_self_iff (by decide)).1 (by decide)⟩

def demoHighData : FlashData := ⟨List.replicate 257 0, by rw [List.length_replicate]; decide⟩

/-- The second chunk is written over the first one. -/
theorem demoHighData_overwrites : (demoHighAddress.add 256).val = demoHighAddress.val ∧
    ¬ CoversBlock maxChunkSize demoHighAddress demoHighData := by
  refine ⟨by decide, fun h => ?_⟩
  have hlen : 1 * maxChunkSize < demoHighData.bytes.length := by
    rw [demoHighData, List.length_replicate]
    decide
  have hfloat := h.isFloat (by decide) hlen
  rw [← roundFloat_eq_self_iff (by decide)] at hfloat
  exact absurd hfloat (by decide)

/-! ## The method with its default -/

theorem addrBytes_eq {a : JsInt} {n : ℕ} (h : a.val = n) : addrBytes a = numberBytes n := by
  have hmask : ∀ i, (0xFF : BitVec 32).getLsbD i = decide (i < 8) :=
    fun i => Nat.testBit_two_pow_sub_one 8 i
  have hbyte : ∀ k, k ≤ 24 →
      (a.toInt32.sshiftRight k &&& 0xFF).setWidth 8 = BitVec.ofNat 8 (n >>> k) := by
    intro k hk
    rw [JsInt.toInt32, h, BitVec.ofInt_natCast]
    apply BitVec.eq_of_getLsbD_eq
    intro i hi
    simp only [BitVec.getLsbD_setWidth, BitVec.getLsbD_and, BitVec.getLsbD_sshiftRight, hmask,
      BitVec.getLsbD_ofNat, Nat.testBit_shiftRight]
    grind
  have hlast := hbyte 0 (by decide)
  rw [BitVec.sshiftRight_zero, Nat.shiftRight_zero] at hlast
  rw [addrBytes, numberBytes, hbyte 24 (by decide), hbyte 16 (by decide), hbyte 8 (by decide),
    hlast]

theorem writeBlockByLoop_eq {turns offset address : ℕ}
    (h : address + (data.length - offset) ≤ 2 ^ 53) {a : JsInt} (ha : a.val = address) :
    writeBlockByLoop maxChunkSize data turns offset a =
      writeBlockLoop data turns offset address := by
  induction turns generalizing offset address a with
  | zero => rfl
  | succ turns ih =>
    rw [writeBlockByLoop, writeBlockLoop]
    split_ifs with hlt
    · have hnext : (a.add (min maxChunkSize (data.length - offset))).val =
          (address + min maxChunkSize (data.length - offset) : ℕ) := by
        rw [JsInt.add_val, ha, ← Nat.cast_add]
        refine (roundFloat_eq_self_iff (by decide)).2 (isFloat_of_abs_le (by decide) ?_)
        rw [Nat.abs_cast]
        omega
      have hcommand :
          chunkCommand maxChunkSize data offset a = writeCommand data offset address := by
        rw [chunkCommand, writeCommand, addrBytes_eq ha, take_chunkSize]
      have hhex : a.toHexString = String.ofList (Nat.toDigits 16 address) := by
        rw [JsInt.toHexString, ha, if_neg (by omega), Int.natAbs_natCast, String.empty_append]
      have hroom : address + min maxChunkSize (data.length - offset) +
          (data.length - (offset + min maxChunkSize (data.length - offset))) ≤ 2 ^ 53 := by
        omega
      rw [hcommand, hhex]
      dsimp only
      rw [ih hroom hnext]
    · rfl

/-- With the default chunk size and up to 2^53 it is `writeBlock`. -/
theorem writeBlockBy_eq {a : JsInt} {address : ℕ} (ha : a.val = address) {data : FlashData}
    (h : address + data.bytes.length ≤ 2 ^ 53) :
    writeBlockBy maxChunkSize a data = writeBlock address data.bytes :=
  writeBlockByLoop_eq h ha

end Gracemont
