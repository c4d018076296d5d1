/-
  Gracemont protocols — Identify requests and responses of a PROFINET IO device
  (`pnio_dcp_input` of `protocols/profinet/profinet.c`).

  `DcpBlocks` says which blocks a part of the memory holds.  The loop over the
  blocks of a frame visits just these (`DcpBlocks.visits`), and the bytes of
  blocks that are written one after the other hold them (`DcpBlocks.of_holds`).

  * `IdentifyRequest`: requests made of name and all-selector blocks;
  * `identify_sent_iff`: when the answer depends on the names as it should;
  * `IdentifyResponse`: what a response is meant to be;
  * `identify_response`: the responses of the device are like this.
-/
import Gracemont.Lib.Scan
import Gracemont.Protocols.DriverFrames

namespace Gracemont

open Lib (ByteMem Holds)

variable {α : Type}

/-! ## Blocks -/

def dcpOptAll : BitVec 8 := 0xFF

/-- A block of a request or a response. -/
structure DcpBlock where
  option : BitVec 8
  suboption : BitVec 8
  contents : List (BitVec 8)

namespace DcpBlock
variable (block : DcpBlock)

/-- The number of bytes that a block takes: its header, its contents, and a byte
    after contents of odd length. -/
def size : ℕ := 4 + block.contents.length + block.contents.length % 2

/-- Its bytes. -/
def bytes : List (BitVec 8) :=
  [block.option, block.suboption] ++ be16Bytes (BitVec.ofNat 16 block.contents.length) ++
    block.contents ++ if block.contents.length % 2 = 1 then [0] else []

/-- A block with the name of a station. -/
def IsName : Prop := block.option = dcpOptDevice ∧ block.suboption = dcpSuboptDevName

end DcpBlock

section
variable (data : ℕ → BitVec 8)

/-- The block at `offset`, as the loops read it. -/
def dcpBlockAt (offset : ℕ) : DcpBlock where
  option := data offset
  suboption := data (offset + 1)
  contents := bytesFrom data (offset + 4) (be16 data (offset + 2)).toNat

/-- The memory from `offset` to `last` holds these blocks, and no more. -/
inductive DcpBlocks (last : ℕ) : ℕ → List DcpBlock → Prop
  | nil : DcpBlocks last last []
  | cons {offset : ℕ} {blocks : List DcpBlock}
      (h : DcpBlocks last (offset + (dcpBlockAt data offset).size) blocks) :
      DcpBlocks last offset (dcpBlockAt data offset :: blocks)

end

namespace DcpBlocks
variable {data : ℕ → BitVec 8} {last offset : ℕ} {blocks : List DcpBlock}

theorem contents_length (data : ℕ → BitVec 8) (offset : ℕ) :
    (dcpBlockAt data offset).contents.length = (be16 data (offset + 2)).toNat := by
  simp [dcpBlockAt, bytesFrom]

theorem le (h : DcpBlocks data last offset blocks) : offset ≤ last := by
  induction h with
  | nil => exact Nat.le_refl _
  | cons _ ih => exact (Nat.le_add_right ..).trans ih

/-- The end of the loops comes to the next block. -/
theorem dcpNext_toNat (data : ℕ → BitVec 8) (o : BitVec 16)
    (h : o.toNat + (dcpBlockAt data o.toNat).size < 2 ^ 16) :
    (dcpNext data o).toNat = o.toNat + (dcpBlockAt data o.toNat).size := by
  have hlen := contents_length data o.toNat
  rw [DcpBlock.size, hlen] at h
  rw [DcpBlock.size, hlen]
  have hblock : dcpBlockLen data o = be16 data (o.toNat + 2) := rfl
  generalize be16 data (o.toNat + 2) = blockLen at *
  have hodd : blockLen &&& 1 ≠ 0 ↔ blockLen.toNat % 2 = 1 := by
    rw [Ne, ← BitVec.toNat_inj, BitVec.toNat_and]
    have hone : blockLen.toNat &&& (1 : BitVec 16).toNat = blockLen.toNat % 2 :=
      Nat.and_two_pow_sub_one_eq_mod blockLen.toNat 1
    have hzero : (0 : BitVec 16).toNat = 0 := rfl
    omega
  have h4 : (4 : BitVec 16).toNat = 4 := rfl
  have h1 : (1 : BitVec 16).toNat = 1 := rfl
  unfold dcpNext
  simp only [hblock]
  split_ifs with hpadding
  · have := hodd.1 hpadding
    rw [BitVec.toNat_add, BitVec.toNat_add, BitVec.toNat_add, h4, h1]
    omega
  · have : ¬ blockLen.toNat % 2 = 1 := fun ho => hpadding (hodd.2 ho)
    rw [BitVec.toNat_add, BitVec.toNat_add, h4]
    omega

/-- **The loops visit the blocks**, each of them once and in order, and end behind
    the last one. -/
theorem visits {dataLen : BitVec 16} (h : DcpBlocks data dataLen.toNat offset blocks)
    {o : BitVec 16} (ho : o.toNat = offset) :
    ∃ offsets, Lib.Cursor.Visits (fun o => decide (o < dataLen)) (dcpNext data) o offsets ∧
      offsets.map (fun o => dcpBlockAt data o.toNat) = blocks ∧
      offsets.foldl (fun _ o => dcpNext data o) o = dataLen := by
  induction h generalizing o with
  | nil =>
    refine ⟨[], .stop (decide_eq_false ?_), rfl, BitVec.eq_of_toNat_eq ho⟩
    rw [BitVec.lt_def]
    omega
  | @cons offset blocks ht ih =>
    subst ho
    have hle := ht.le
    have hlt := dataLen.isLt
    have hsize : 4 ≤ (dcpBlockAt data o.toNat).size := by
      unfold DcpBlock.size
      omega
    have hnext := dcpNext_toNat data o (by omega)
    obtain ⟨offsets, hvisits, hmap, hend⟩ := ih hnext
    refine ⟨o :: offsets, .visit (decide_eq_true ?_) hvisits, by rw [List.map_cons, hmap], hend⟩
    rw [BitVec.lt_def]
    omega

end DcpBlocks

/-! ## Bytes that are written -/

namespace DcpBlock

theorem bytes_length (block : DcpBlock) : block.bytes.length = block.size := by
  have h16 : ∀ val, (be16Bytes val).length = 2 := fun _ => rfl
  unfold bytes size
  simp only [List.length_append, List.length_cons, List.length_nil, h16]
  split_ifs with hodd
  · simp only [List.length_cons, List.length_nil]
    omega
  · simp only [List.length_nil]
    omega

/-- A block that is written is read back. -/
theorem at_of_holds {data : ℕ → BitVec 8} {offset : ℕ} {block : DcpBlock}
    (hlen : block.contents.length < 2 ^ 16) (h : Holds data offset block.bytes) :
    dcpBlockAt data offset = block := by
  obtain ⟨hfront, -⟩ := Lib.holds_append.1 h
  obtain ⟨hheader, hcontents⟩ := Lib.holds_append.1 hfront
  obtain ⟨hoption, hlength⟩ := Lib.holds_append.1 hheader
  have hoptions : [data offset, data (offset + 1)] = [block.option, block.suboption] := hoption
  simp only [List.cons.injEq, and_true] at hoptions
  have hblockLen : be16 data (offset + 2) = BitVec.ofNat 16 block.contents.length :=
    be16_of_bytes hlength
  have hread : bytesFrom data (offset + 4) block.contents.length = block.contents := hcontents
  rw [dcpBlockAt, hblockLen, BitVec.toNat_ofNat, Nat.mod_eq_of_lt hlen, hread, hoptions.1,
    hoptions.2]

end DcpBlock

/-- **Blocks that are written** are what the memory holds. -/
theorem DcpBlocks.of_holds {data : ℕ → BitVec 8} {offset : ℕ} {blocks : List DcpBlock}
    (hlen : ∀ block ∈ blocks, block.contents.length < 2 ^ 16)
    (h : Holds data offset (blocks.flatMap DcpBlock.bytes)) :
    DcpBlocks data (offset + (blocks.flatMap DcpBlock.bytes).length) offset blocks := by
  induction blocks generalizing offset with
  | nil => exact .nil
  | cons block blocks ih =>
    rw [List.flatMap_cons] at h ⊢
    rw [List.forall_mem_cons] at hlen
    obtain ⟨hblock, hblocks⟩ := Lib.holds_append.1 h
    have hat := DcpBlock.at_of_holds hlen.1 hblock
    have hrest := ih hlen.2 hblocks
    rw [Nat.add_assoc, ← List.length_append, block.bytes_length] at hrest
    rw [← hat] at hrest ⊢
    exact .cons hrest

/-! ## Requests -/

section
variable (name : StationName) (blocks : List DcpBlock)

/-- Every block with a name has just the name of the station. -/
def ExactNames : Prop := ∀ block ∈ blocks, block.IsName → block.contents = name.chars

/-- Every block with a name has a part of the name of the station from its first
    character on, or the whole name and a NUL, and anything behind it. -/
def LooseNames : Prop := ∀ block ∈ blocks, block.IsName →
  block.contents <+: name.chars ∨ name.chars ++ [0] <+: block.contents

variable {name blocks}

theorem ExactNames.loose (h : ExactNames name blocks) : LooseNames name blocks :=
  fun block hmem hname => Or.inl (h block hmem hname ▸ List.prefix_rfl)

/-- What the comparison in the loop accepts. -/
theorem namesStation_iff (data : ℕ → BitVec 8) (o : BitVec 16) :
    NamesStation data name o ↔ ((dcpBlockAt data o.toNat).IsName →
      (dcpBlockAt data o.toNat).contents <+: name.chars ∨
        name.chars ++ [0] <+: (dcpBlockAt data o.toNat).contents) := by
  have hlen := DcpBlocks.contents_length data o.toNat
  have hget : ∀ i (h : i < (dcpBlockAt data o.toNat).contents.length),
      (dcpBlockAt data o.toNat).contents[i] = data (o.toNat + 4 + i) := by
    intro i h
    simp [dcpBlockAt, bytesFrom]
  have hname : dcpBlockIs data dcpOptDevice dcpSuboptDevName o ↔
      (dcpBlockAt data o.toNat).IsName := decide_eq_true_iff
  unfold NamesStation
  rw [hname]
  refine imp_congr_right fun _ => ?_
  have hblock : (dcpBlockLen data o).toNat = (dcpBlockAt data o.toNat).contents.length := hlen.symm
  rw [hblock]
  generalize (dcpBlockAt data o.toNat).contents = contents at *
  simp only [List.prefix_iff_getElem]
  constructor
  · rintro ⟨hchars, hnul⟩
    rcases Nat.lt_or_ge name.chars.length contents.length with hlt | hge
    · have hle : (name.chars ++ [0]).length ≤ contents.length := by
        rw [List.length_append]
        exact hlt
      refine Or.inr ⟨hle, fun i hi => ?_⟩
      rw [List.length_append, List.length_singleton] at hi
      rw [hget, List.getElem_append]
      split_ifs with hi'
      · exact (hchars i hi' (by omega)).symm
      · obtain rfl : i = name.chars.length := by omega
        rw [hnul hlt]
        simp
    · exact Or.inl ⟨hge, fun i hi => by rw [hget, hchars i (by omega) hi]⟩
  · rintro (⟨hle, hchars⟩ | ⟨hle, hchars⟩)
    · refine ⟨fun i hi hlt => ?_, fun hlt => absurd hlt (Nat.not_lt.2 hle)⟩
      rw [← hget i hlt, hchars i hlt]
    · rw [List.length_append, List.length_singleton] at hle
      refine ⟨fun i hi hlt => ?_, fun hlt => ?_⟩
      · rw [← hget i hlt, ← hchars i (by simp; omega), List.getElem_append_left]
      · rw [← hget _ hlt, ← hchars _ (by simp), List.getElem_append_right (Nat.le_refl _)]
        simp

end

/-- **A well-formed Identify request**, of blocks with names and blocks that select
    every station: the frame holds these blocks, and they are as long as its
    header says. -/
structure IdentifyRequest (z : Zbuf α) (blocks : List DcpBlock) : Prop where
  service : z.dcp 0 = dcpServiceIdentify ∧ z.dcp 1 = dcpServiceTypeRequest
  len : 2 + dcpHdrLen + (be16 z.dcp 8).toNat ≤ z.len.toNat
  holds : DcpBlocks z.dcpData (be16 z.dcp 8).toNat 0 blocks
  kinds : ∀ block ∈ blocks, block.IsName ∨ block.option = dcpOptAll

section
variable [DecidableEq α] {port : Port} {pool : ZbufPool α} {dev : PnioStation α} {zb : α}
variable {blocks : List DcpBlock}

omit [DecidableEq α] in
theorem dcpMore_eq (z : Zbuf α) : z.dcpMore = fun o => decide (o < be16 z.dcp 8) := by
  funext o
  simp [Zbuf.dcpMore]

/-- The call returns, and whether it answers. -/
theorem identify_returns (h : IdentifyRequest (pool.zb zb) blocks) :
    ∃ fuel r, pnioDcpInput fuel port pool dev zb = some r ∧
      (r.sent.isSome ↔ pool.freeList ≠ none ∧ LooseNames dev.nameOfStation blocks) := by
  obtain ⟨offsets, hvisits, hmap, -⟩ := h.holds.visits (o := 0) rfl
  rw [← dcpMore_eq] at hvisits
  have hloose : (∀ o ∈ offsets, NamesStation (pool.zb zb).dcpData dev.nameOfStation o) ↔
      LooseNames dev.nameOfStation blocks := by
    rw [← hmap, LooseNames, List.forall_mem_map]
    exact forall₂_congr fun o _ => namesStation_iff _ o
  obtain ⟨fuel, hrun⟩ := hvisits.returns (a := true)
    (f := dcpIdentifyBlock (pool.zb zb).dcpData dev.nameOfStation)
  have hmatch := dcpIdentifyBlocks_iff (pool.zb zb).dcpData dev.nameOfStation offsets true
  rw [hloose, eq_self_iff_true, true_and] at hmatch
  have hlen : dcpHdrLen ≤ (pool.zb zb).len.toNat := by
    have := h.len
    omega
  refine ⟨fuel, _, pnioDcpInput_identify hlen h.service hrun, ?_⟩
  rw [← hmatch]
  cases offsets.foldl (dcpIdentifyBlock (pool.zb zb).dcpData dev.nameOfStation) true with
  | false => simp
  | true =>
    by_cases hfree : pool.freeList = none
    · simp [hfree, dcpRespond_of_no_free hfree]
    · have hsent : ∃ pool' resp, (dcpRespond port pool dev zb (be32 (pool.zb zb).dcp 2)).sent =
          some (pool', resp) := dcpRespond_sent_of_free hfree _
      obtain ⟨pool', resp, hsent⟩ := hsent
      simp [hfree, hsent]

/-- **The answer to an Identify request.**  A request is answered exactly if all its
    names are those of the station, if either a buffer is free and there is no
    request with names that only start the name of the station or go on behind a
    NUL, or no buffer is free and some name is of another station. -/
theorem identify_sent_iff (h : IdentifyRequest (pool.zb zb) blocks) :
    (∃ fuel r, pnioDcpInput fuel port pool dev zb = some r ∧
      (r.sent.isSome ↔ ExactNames dev.nameOfStation blocks)) ↔
    (ExactNames dev.nameOfStation blocks → pool.freeList ≠ none) ∧
      (pool.freeList ≠ none → LooseNames dev.nameOfStation blocks →
        ExactNames dev.nameOfStation blocks) := by
  have hreturns : ∃ fuel r, pnioDcpInput fuel port pool dev zb = some r ∧
      (r.sent.isSome ↔ pool.freeList ≠ none ∧ LooseNames dev.nameOfStation blocks) :=
    identify_returns h
  obtain ⟨fuel, r, hr, hsent⟩ := hreturns
  constructor
  · rintro ⟨fuel', r', hr', hexact⟩
    rw [← pnioDcpInput_unique hr hr', hsent] at hexact
    exact ⟨fun he => (hexact.2 he).1, fun hfree hl => hexact.1 ⟨hfree, hl⟩⟩
  · rintro ⟨hfree, hexact⟩
    refine ⟨fuel, r, hr, hsent.trans ⟨fun hl => hexact hl.1 hl.2, fun he => ?_⟩⟩
    exact ⟨hfree he, he.loose⟩

end

/-- A request with the first letters of a name, to a device with a free buffer. -/
def demoPrefix : ZbufPool (Fin 2) where
  zb := fun zb =>
    if zb = 0 then demoFrame ethHdrLen
      [0xFE, 0xFE, 5, 0, 0, 0, 0, 1, 0, 0, 0, 8, 2, 2, 0, 4, 0x72, 0x74, 0x6F, 0x73]
    else demoZbuf
  freeList := some 1
  totalCount := 2
  freeCount := 1
  allocFailures := 0

/-- The block of the request. -/
def demoPrefixBlock : DcpBlock := ⟨2, 2, [0x72, 0x74, 0x6F, 0x73]⟩

theorem demoPrefix_request : IdentifyRequest (demoPrefix.zb 0) [demoPrefixBlock] := by
  refine ⟨⟨by decide, by decide⟩, by decide, ?_, by simp [demoPrefixBlock, DcpBlock.IsName]; decide⟩
  have hholds : Holds (demoPrefix.zb 0).dcpData 0 ([demoPrefixBlock].flatMap DcpBlock.bytes) := by
    decide
  exact DcpBlocks.of_holds (by decide) hholds

theorem demoPrefix_loose : LooseNames demoStation.nameOfStation [demoPrefixBlock] := by
  intro block hmem _
  obtain rfl := List.mem_singleton.1 hmem
  exact Or.inl (by decide)

/-- **The first letters of the name are answered.**  The station is `rtos-device`,
    and the request asks for `rtos`. -/
theorem prefix_answered : IdentifyRequest (demoPrefix.zb 0) [demoPrefixBlock] ∧
    ¬ ExactNames demoStation.nameOfStation [demoPrefixBlock] ∧
    ∃ fuel r, pnioDcpInput fuel .arm64 demoPrefix demoStation 0 = some r ∧ r.sent.isSome := by
  refine ⟨demoPrefix_request, fun h => ?_, ?_⟩
  · have hname := h demoPrefixBlock (List.mem_singleton_self _) ⟨rfl, rfl⟩
    exact absurd hname (by decide)
  · have hreturns : ∃ fuel r, pnioDcpInput fuel .arm64 demoPrefix demoStation 0 = some r ∧
        (r.sent.isSome ↔ demoPrefix.freeList ≠ none ∧
          LooseNames demoStation.nameOfStation [demoPrefixBlock]) :=
      identify_returns demoPrefix_request
    obtain ⟨fuel, r, hr, hsent⟩ := hreturns
    exact ⟨fuel, r, hr, hsent.2 ⟨nofun, demoPrefix_loose⟩⟩

theorem prefix_answer_wrong : ¬ ∃ fuel r,
    pnioDcpInput fuel .arm64 demoPrefix demoStation 0 = some r ∧
      (r.sent.isSome ↔ ExactNames demoStation.nameOfStation [demoPrefixBlock]) := by
  rw [identify_sent_iff demoPrefix_request]
  rintro ⟨-, hexact⟩
  have hname := hexact nofun demoPrefix_loose demoPrefixBlock (List.mem_singleton_self _) ⟨rfl, rfl⟩
  exact absurd hname (by decide)

/-! ## Responses -/

/-- What a response says about a device. -/
structure DcpIdentity where
  name : Option (List (BitVec 8))
  ids : Option (BitVec 16 × BitVec 16)
  ip : Option (BitVec 32 × BitVec 32 × BitVec 32)
  role : Option (BitVec 8)

namespace DcpIdentity

/-- What a block adds. -/
def read (id : DcpIdentity) (block : DcpBlock) : DcpIdentity :=
  let at' i := block.contents.getD i 0
  if block.option = dcpOptDevice ∧ block.suboption = dcpSuboptDevName then
    { id with name := some block.contents }
  else if block.option = dcpOptDevice ∧ block.suboption = dcpSuboptDevVendor then
    { id with ids := some (be16 at' 0, be16 at' 2) }
  else if block.option = dcpOptIp ∧ block.suboption = dcpSuboptIpParam then
    { id with ip := some (be32 at' 2, be32 at' 6, be32 at' 10) }
  else if block.option = dcpOptDevice ∧ block.suboption = dcpSuboptDevRole then
    { id with role := some (at' 2) }
  else id

/-- What blocks say. -/
def ofBlocks (blocks : List DcpBlock) : DcpIdentity :=
  blocks.foldl read ⟨none, none, none, none⟩

end DcpIdentity

/-- The identity of a device. -/
def PnioStation.identity (dev : PnioStation α) : DcpIdentity where
  name := some dev.nameOfStation.chars
  ids := some (dev.vendorId, dev.deviceId)
  ip := some (dev.ipAddr, dev.netmask, dev.gateway)
  role := some dev.deviceRole

/-- **A well-formed Identify response**, in the buffer `z`: it has the `xid` of the
    request; the frame ends where its header says; up to there it holds blocks that
    give the identity of the device; and the device's own loop, which collects
    them and where the next block is, ends there with these blocks. -/
structure IdentifyResponse (dev : PnioStation α) (xid : BitVec 32) (z : Zbuf α) : Prop where
  service : be16 z.frame 0 = pnioFrameIdDcp ∧ z.dcp 0 = dcpServiceIdentify ∧
    z.dcp 1 = dcpServiceTypeResponse
  xid : be32 z.dcp 2 = xid
  len : z.len.toNat = 2 + dcpHdrLen + (be16 z.dcp 8).toNat
  blocks : ∃ blocks, DcpBlocks z.dcpData (be16 z.dcp 8).toNat 0 blocks ∧
    Lib.Loop.Returns (Lib.Cursor.body z.dcpMore (dcpNext z.dcpData) fun s o =>
      (s.1 ++ [dcpBlockAt z.dcpData o.toNat], dcpNext z.dcpData o)) (0, ([], 0))
      (blocks, be16 z.dcp 8) ∧
    DcpIdentity.ofBlocks blocks = dev.identity

/-- The blocks of a response. -/
def PnioStation.blocks (dev : PnioStation α) : List DcpBlock :=
  [⟨dcpOptDevice, dcpSuboptDevName, dev.nameOfStation.chars⟩,
    ⟨dcpOptDevice, dcpSuboptDevVendor, be16Bytes dev.vendorId ++ be16Bytes dev.deviceId⟩,
    ⟨dcpOptIp, dcpSuboptIpParam,
      [0, 0] ++ be32Bytes dev.ipAddr ++ be32Bytes dev.netmask ++ be32Bytes dev.gateway⟩,
    ⟨dcpOptDevice, dcpSuboptDevRole, [0, 0, dev.deviceRole, 0]⟩]

/-- A block without padding. -/
theorem DcpBlock.bytes_even (option suboption : BitVec 8) {contents : List (BitVec 8)} {n : ℕ}
    (h : contents.length = n) (heven : n % 2 ≠ 1) :
    (⟨option, suboption, contents⟩ : DcpBlock).bytes =
      [option, suboption] ++ be16Bytes (BitVec.ofNat 16 n) ++ contents := by
  subst h
  rw [DcpBlock.bytes, if_neg heven, List.append_nil]

/-- They are written one after the other. -/
theorem dcpResponseBlocks_eq (dev : PnioStation α) :
    dcpResponseBlocks dev = dev.blocks.flatMap DcpBlock.bytes := by
  have h4 : be16Bytes (BitVec.ofNat 16 4) = [0, 4] := by decide
  have h14 : be16Bytes (BitVec.ofNat 16 14) = [0, 14] := by decide
  rw [dcpResponseBlocks, PnioStation.blocks]
  simp only [List.flatMap_cons, List.flatMap_nil]
  rw [DcpBlock.bytes_even _ dcpSuboptDevVendor (n := 4) rfl (by decide),
    DcpBlock.bytes_even dcpOptIp _ (n := 14) rfl (by decide),
    DcpBlock.bytes_even _ dcpSuboptDevRole (n := 4) rfl (by decide), h4, h14, DcpBlock.bytes]
  simp only [List.append_assoc, List.cons_append, List.nil_append, List.append_nil]

theorem blocks_identity (dev : PnioStation α) :
    DcpIdentity.ofBlocks dev.blocks = dev.identity := by
  have h16 : ∀ val : BitVec 16, hiByte val ++ loByte val = val := hiByte_append_loByte
  have h32 : ∀ val : BitVec 32, hiWord val ++ loWord val = val := hiWord_append_loWord
  simp [DcpIdentity.ofBlocks, PnioStation.blocks, DcpIdentity.read, PnioStation.identity,
    dcpOptDevice, dcpOptIp, dcpSuboptDevName, dcpSuboptDevVendor, dcpSuboptDevRole,
    dcpSuboptIpParam, be16, be32, be16Bytes, be32Bytes, h16, h32]

/-- The bytes of a response. -/
theorem dcpResponse_holds {resp : Zbuf α} (hdata : resp.tail = resp.data) (dev : PnioStation α)
    (xid : BitVec 32) : Holds (resp.dcpResponse dev xid).frame 0
      (dcpResponseHdr xid ++ be16Bytes (BitVec.ofNat 16 (dcpTotalLen dev)) ++
        dcpResponseBlocks dev) := by
  have hlen : (dcpResponseHdr xid).length = 10 := rfl
  have hlen16 : ∀ val, (be16Bytes val).length = 2 := fun _ => rfl
  have hread : ∀ k (l : List (BitVec 8)),
      (resp.dcpResponse dev xid).space.read (resp.data + k) l.length = l →
        Holds (resp.dcpResponse dev xid).frame k l := by
    intro k l h
    have hstart : (resp.dcpResponse dev xid).data = resp.data := by simp only [Zbuf.dcpResponse]
    refine Eq.trans (List.map_congr_left fun i _ => ?_) h
    rw [Zbuf.frame, hstart, Nat.add_assoc]
  have hspace : (resp.dcpResponse dev xid).space =
      ((resp.space.putBytes resp.data (dcpResponseHdr xid)).putBytes (resp.data + 12)
        (dcpResponseBlocks dev)).putBytes (resp.data + 10)
          (be16Bytes (BitVec.ofNat 16 (dcpTotalLen dev))) := by
    rw [← hdata]
    rfl
  refine Lib.holds_append.2 ⟨Lib.holds_append.2 ⟨hread _ _ ?_, hread _ _ ?_⟩, hread _ _ ?_⟩
  · rw [hspace, Nat.add_zero]
    refine (ByteMem.read_congr fun i hi => ?_).trans (ByteMem.read_putBytes resp.space _ _)
    rw [ByteMem.putBytes_byte_of_lt _ _ _ (by omega), ByteMem.putBytes_byte_of_lt _ _ _ (by omega),
      Nat.add_zero]
  · rw [hspace, hlen, Nat.zero_add]
    exact ByteMem.read_putBytes ..
  · simp only [hspace, List.length_append, hlen, hlen16, Nat.zero_add, Nat.reduceAdd]
    refine (ByteMem.read_congr fun i hi => ?_).trans
      (ByteMem.read_putBytes (resp.space.putBytes resp.data (dcpResponseHdr xid)) _ _)
    exact ByteMem.putBytes_byte_of_le _ _ _ (by rw [hlen16]; omega)

theorem PnioStation.blocks_length (dev : PnioStation α) :
    ∀ block ∈ dev.blocks, block.contents.length < 2 ^ 16 := by
  have hname := dev.nameOfStation.length_le
  simp [PnioStation.blocks, be16Bytes, be32Bytes]
  omega

/-- A loop that collects what it finds, and where it goes. -/
theorem collect_foldl (data : ℕ → BitVec 8) (offsets : List (BitVec 16)) (blocks : List DcpBlock)
    (o : BitVec 16) : offsets.foldl (fun s o => (s.1 ++ [dcpBlockAt data o.toNat], dcpNext data o))
      (blocks, o) = (blocks ++ offsets.map (fun o => dcpBlockAt data o.toNat),
        offsets.foldl (fun _ o => dcpNext data o) o) := by
  induction offsets generalizing blocks o with
  | nil => simp
  | cons o' offsets ih =>
    rw [List.foldl_cons, ih, List.map_cons, List.append_assoc]
    rfl

/-- The length that is stored, and the blocks up to there. -/
theorem dcpResponse_blocks {resp : Zbuf α} (hdata : resp.tail = resp.data)
    (dev : PnioStation α) (xid : BitVec 32) :
    (be16 (resp.dcpResponse dev xid).dcp 8).toNat = dcpTotalLen dev ∧
    DcpBlocks (resp.dcpResponse dev xid).dcpData (be16 (resp.dcpResponse dev xid).dcp 8).toNat 0
      dev.blocks := by
  set z := resp.dcpResponse dev xid with hz
  have hname := dev.nameOfStation.length_le
  have hlenHdr : (dcpResponseHdr xid).length = 10 := rfl
  have htotal : dcpTotalLen dev < 2 ^ 16 := by
    unfold dcpTotalLen
    dsimp only
    omega
  obtain ⟨hfront, hblocks⟩ := Lib.holds_append.1 (dcpResponse_holds hdata dev xid)
  obtain ⟨-, hlength⟩ := Lib.holds_append.1 hfront
  have hdataLen : be16 z.dcp 8 = BitVec.ofNat 16 (dcpTotalLen dev) := be16_of_bytes hlength
  have hto : (be16 z.dcp 8).toNat = dcpTotalLen dev := by
    rw [hdataLen, BitVec.toNat_ofNat, Nat.mod_eq_of_lt htotal]
  have hholds : Holds z.dcpData 0 (dev.blocks.flatMap DcpBlock.bytes) := by
    rw [← dcpResponseBlocks_eq]
    have hlen16 : ∀ val, (be16Bytes val).length = 2 := fun _ => rfl
    rw [List.length_append, hlenHdr, hlen16] at hblocks
    refine Eq.trans (Lib.bytesAt_congr fun i _ => ?_) hblocks
    exact congrArg z.frame (by rw [dcpHdrLen]; omega)
  have hat := DcpBlocks.of_holds (dev.blocks_length) hholds
  rw [Nat.zero_add, ← dcpResponseBlocks_eq, ← dcpTotalLen_eq, ← hto] at hat
  exact ⟨hto, hat⟩

/-- What `dcpRespond` puts into a buffer is a response. -/
theorem dcpResponse_wellFormed {resp : Zbuf α} (hdata : resp.tail = resp.data)
    (dev : PnioStation α) (xid : BitVec 32) :
    IdentifyResponse dev xid (resp.dcpResponse dev xid) := by
  obtain ⟨hto, hat⟩ := dcpResponse_blocks hdata dev xid
  set z := resp.dcpResponse dev xid with hz
  have hname := dev.nameOfStation.length_le
  have hlenHdr : (dcpResponseHdr xid).length = 10 := rfl
  obtain ⟨hfront, -⟩ := Lib.holds_append.1 (dcpResponse_holds hdata dev xid)
  obtain ⟨hhdr, -⟩ := Lib.holds_append.1 hfront
  obtain ⟨hservices, -⟩ := Lib.holds_append.1 hhdr
  obtain ⟨hservices, hxid⟩ := Lib.holds_append.1 hservices
  obtain ⟨hframeId, hservice⟩ := Lib.holds_append.1 hservices
  have hservice' : [z.frame 2, z.frame 3] = [dcpServiceIdentify, dcpServiceTypeResponse] := hservice
  simp only [List.cons.injEq, and_true] at hservice'
  have hxid' : be32 z.dcp 2 = xid := be32_of_bytes hxid
  have hlen : z.len = BitVec.ofNat 16 (2 + dcpHdrLen + dcpTotalLen dev) := by
    rw [dcpTotalLen_eq]
    refine congrArg (BitVec.ofNat 16) ?_
    rw [hlenHdr, hdata, dcpHdrLen]
    omega
  refine ⟨⟨be16_of_bytes hframeId, hservice'⟩, hxid', ?_, dev.blocks, hat, ?_, blocks_identity dev⟩
  · rw [hlen, hto, BitVec.toNat_ofNat, Nat.mod_eq_of_lt]
    unfold dcpTotalLen dcpHdrLen
    dsimp only
    omega
  · obtain ⟨offsets, hvisits, hmap, hend⟩ := hat.visits (o := 0) rfl
    rw [← dcpMore_eq] at hvisits
    have hreturns := hvisits.returns (a := (([] : List DcpBlock), (0 : BitVec 16)))
      (f := fun s o => (s.1 ++ [dcpBlockAt z.dcpData o.toNat], dcpNext z.dcpData o))
    rw [collect_foldl, hmap, hend, List.nil_append] at hreturns
    exact hreturns

/-- What is sent is such a buffer. -/
theorem identify_buffer [DecidableEq α] {port : Port} {pool pool' : ZbufPool α}
    {dev : PnioStation α} {zb resp : α} {fuel : ℕ} {r : DcpInput α}
    (hr : pnioDcpInput fuel port pool dev zb = some r) (hsent : r.sent = some (pool', resp)) :
    ∃ z : Zbuf α, z.tail = z.data ∧
      pool'.zb resp = z.dcpResponse dev (be32 (pool.zb zb).dcp 2) := by
  have hrespond := pnioDcpInput_sent hr hsent
  unfold dcpRespond at hrespond
  rcases halloc : zbufAllocTx pool 256 with ⟨pool₁, _ | resp₁⟩
  · rw [halloc] at hrespond
    cases hrespond
  · rw [halloc] at hrespond
    cases hrespond
    obtain ⟨hdata, htail, -⟩ := zbufAllocTx_some halloc
    exact ⟨pool₁.zb resp, htail.trans hdata.symm, Function.update_self ..⟩

/-- **The responses of the device** are well-formed, for every identity. -/
theorem identify_response [DecidableEq α] {port : Port} {pool pool' : ZbufPool α}
    {dev : PnioStation α} {zb resp : α} {fuel : ℕ} {r : DcpInput α}
    (hr : pnioDcpInput fuel port pool dev zb = some r) (hsent : r.sent = some (pool', resp)) :
    IdentifyResponse dev (be32 (pool.zb zb).dcp 2) (pool'.zb resp) := by
  have hbuffer : ∃ z : Zbuf α, z.tail = z.data ∧
      pool'.zb resp = z.dcpResponse dev (be32 (pool.zb zb).dcp 2) := identify_buffer hr hsent
  obtain ⟨z, hdata, hz⟩ := hbuffer
  rw [hz]
  exact dcpResponse_wellFormed hdata dev _

theorem demo_identify_response : ∃ r pool' resp,
    pnioDcpInput 1 .arm64 demoIdentify demoStation 0 = some r ∧ r.sent = some (pool', resp) ∧
      IdentifyResponse demoStation (be32 (demoIdentify.zb 0).dcp 2) (pool'.zb resp) := by
  have hfree : demoIdentify.freeList ≠ none := nofun
  have hsent : ∃ pool' resp, (dcpRespond .arm64 demoIdentify demoStation 0
      (be32 (demoIdentify.zb 0).dcp 2)).sent = some (pool', resp) := dcpRespond_sent_of_free hfree _
  obtain ⟨pool', resp, hsent⟩ := hsent
  have hr : pnioDcpInput 1 .arm64 demoIdentify demoStation 0 =
      some (dcpRespond .arm64 demoIdentify demoStation 0 (be32 (demoIdentify.zb 0).dcp 2)) :=
    pnioDcpInput_identify (by decide) (by decide) (by decide : _ = some true)
  exact ⟨_, pool', resp, hr, hsent, identify_response hr hsent⟩

end Gracemont
