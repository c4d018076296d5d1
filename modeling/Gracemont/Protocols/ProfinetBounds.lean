/-
  Gracemont protocols — where the loops over the blocks of a DCP request read
  (`pnio_dcp_input` of `protocols/profinet/profinet.c`).

  The loops go by the length in the DCP header and the lengths of the blocks, and
  not by that of the frame, and `offset` has 16 bits.

  * `dcpIdentifyReads`, `dcpSetReads`: the bytes that are read for a block;
  * `pnioDcpReads`: the bytes that the loops of a call read;
  * `Zbuf.BlocksEnd`: the blocks of a frame come to an end within it;
  * `dcp_input_safe_iff`: when the loops end and stay within the frame.
-/
import Gracemont.Protocols.DriverFrames

namespace Gracemont

variable {α : Type}

/-! ## Bytes that are read -/

section
variable (data : ℕ → BitVec 8)

/-- The indices in the name at `reqName` that the comparison reads, from `i` on; the
    last character is read again behind the loop. -/
def dcpNameReads (reqName : ℕ → BitVec 8) (blockLen : ℕ) : ℕ → List (BitVec 8) → List ℕ
  | i, [] => if i < blockLen then [i] else []
  | i, c :: chars =>
    if blockLen ≤ i then []
    else if reqName i ≠ c then [i, i]
    else i :: dcpNameReads reqName blockLen (i + 1) chars

/-- The option, the suboption and `block_len`. -/
def dcpHeaderReads (o : ℕ) : List ℕ := [o, o + 1, o + 2, o + 3]

/-- The bytes of `data` that the loop of an Identify request reads for a block. -/
def dcpIdentifyReads (name : StationName) (offset : BitVec 16) : List ℕ :=
  dcpHeaderReads offset.toNat ++
    if dcpBlockIs data dcpOptDevice dcpSuboptDevName offset then
      (dcpNameReads (fun i => data (offset.toNat + 4 + i)) (dcpBlockLen data offset).toNat 0
        name.chars).map (offset.toNat + 4 + ·)
    else []

/-- The bytes of `data` that the loop of a Set request reads for a block. -/
def dcpSetReads (offset : BitVec 16) : List ℕ :=
  dcpHeaderReads offset.toNat ++
    if dcpBlockIs data dcpOptIp dcpSuboptIpParam offset then List.range' (offset.toNat + 6) 12
    else if dcpBlockIs data dcpOptDevice dcpSuboptDevName offset then
      List.range' (offset.toNat + 4) (min (dcpBlockLen data offset).toNat 63)
    else []

end

/-- The bytes that the loop over the blocks of a frame reads, from `data` on. -/
def pnioDcpReads (fuel : ℕ) (dev : PnioStation α) (z : Zbuf α) : Option (List ℕ) :=
  if z.len.toNat < dcpHdrLen then some []
  else if z.dcp 0 = dcpServiceIdentify ∧ z.dcp 1 = dcpServiceTypeRequest then
    let block := Lib.Cursor.logged (dcpIdentifyBlock z.dcpData dev.nameOfStation)
      (dcpIdentifyReads z.dcpData dev.nameOfStation)
    (Lib.Loop.run (Lib.Cursor.body z.dcpMore (dcpNext z.dcpData) block) fuel (0, (true, []))).map
      Prod.snd
  else if z.dcp 0 = dcpServiceSet ∧ z.dcp 1 = dcpServiceTypeRequest then
    let block := Lib.Cursor.logged (dcpSetBlock z.dcpData) (dcpSetReads z.dcpData)
    (Lib.Loop.run (Lib.Cursor.body z.dcpMore (dcpNext z.dcpData) block) fuel (0, (dev, []))).map
      Prod.snd
  else some []

/-- **A call whose loops are safe**: it returns, and its loops read no byte at or
    behind the end of the frame. -/
def DcpInputSafe [DecidableEq α] (port : Port) (pool : ZbufPool α) (dev : PnioStation α) (zb : α) :
    Prop :=
  ∃ fuel r reads, pnioDcpInput fuel port pool dev zb = some r ∧
    pnioDcpReads fuel dev (pool.zb zb) = some reads ∧
      ∀ i ∈ reads, 2 + dcpHdrLen + i < (pool.zb zb).len.toNat

/-! ## Bytes that are there -/

section
variable (data : ℕ → BitVec 8)

/-- The number of characters, from the first on, that the name at `reqName` has from
    `i` on. -/
def dcpCommonLen (reqName : ℕ → BitVec 8) : ℕ → List (BitVec 8) → ℕ
  | _, [] => 0
  | i, c :: chars => if reqName i = c then dcpCommonLen reqName (i + 1) chars + 1 else 0

/-- The number of bytes of a block that the loop of an Identify request needs. -/
def dcpIdentifyNeed (name : StationName) (offset : BitVec 16) : ℕ :=
  if dcpBlockIs data dcpOptDevice dcpSuboptDevName offset then
    4 + min (dcpBlockLen data offset).toNat
      (dcpCommonLen (fun i => data (offset.toNat + 4 + i)) 0 name.chars + 1)
  else 4

/-- The number of bytes of a block that the loop of a Set request needs. -/
def dcpSetNeed (offset : BitVec 16) : ℕ :=
  if dcpBlockIs data dcpOptIp dcpSuboptIpParam offset then 18
  else if dcpBlockIs data dcpOptDevice dcpSuboptDevName offset then
    4 + min (dcpBlockLen data offset).toNat 63
  else 4

end

/-- **The blocks end in the frame**: from one to the next, in 16 bits, the data length
    is reached, in no more steps than there are bytes, and the frame has the bytes
    that are needed of each block. -/
def Zbuf.BlocksEnd (z : Zbuf α) (need : BitVec 16 → ℕ) : Prop :=
  ∃ n ≤ (be16 z.dcp 8).toNat, be16 z.dcp 8 ≤ (dcpNext z.dcpData)^[n] 0 ∧
    ∀ m < n, (dcpNext z.dcpData)^[m] 0 < be16 z.dcp 8 ∧
      2 + dcpHdrLen + ((dcpNext z.dcpData)^[m] 0).toNat + need ((dcpNext z.dcpData)^[m] 0) ≤
        z.len.toNat

/-- The blocks of a request end in the frame. -/
def RequestFits (dev : PnioStation α) (z : Zbuf α) : Prop :=
  dcpHdrLen ≤ z.len.toNat → z.dcp 1 = dcpServiceTypeRequest →
    (z.dcp 0 = dcpServiceIdentify → z.BlocksEnd (dcpIdentifyNeed z.dcpData dev.nameOfStation)) ∧
      (z.dcp 0 = dcpServiceSet → z.BlocksEnd (dcpSetNeed z.dcpData))

/-! ## One block -/

section
variable (data : ℕ → BitVec 8)

theorem mem_dcpNameReads (reqName : ℕ → BitVec 8) (blockLen i : ℕ) (chars : List (BitVec 8))
    (j : ℕ) : j ∈ dcpNameReads reqName blockLen i chars ↔
      i ≤ j ∧ j < blockLen ∧ j ≤ i + dcpCommonLen reqName i chars := by
  induction chars generalizing i with
  | nil =>
    unfold dcpNameReads dcpCommonLen
    split_ifs with hlt
    · rw [List.mem_singleton]
      omega
    · simp only [List.not_mem_nil, false_iff]
      omega
  | cons c chars ih =>
    unfold dcpNameReads dcpCommonLen
    by_cases hend : blockLen ≤ i
    · rw [if_pos hend]
      simp only [List.not_mem_nil, false_iff]
      omega
    · rw [if_neg hend]
      by_cases heq : reqName i = c
      · rw [if_neg (not_not.2 heq), if_pos heq, List.mem_cons, ih]
        omega
      · rw [if_pos heq, if_neg heq, List.mem_cons, List.mem_singleton]
        omega

/-- The header of a block, and `count` bytes from `start` on. -/
theorem headerReads_iff (o : ℕ) (l : List ℕ) (base limit : ℕ) :
    (∀ i ∈ dcpHeaderReads o ++ l, base + i < limit) ↔
      base + o + 4 ≤ limit ∧ ∀ i ∈ l, base + i < limit := by
  rw [List.forall_mem_append]
  refine and_congr_left fun _ => ?_
  simp only [dcpHeaderReads, List.forall_mem_cons, List.not_mem_nil, false_imp_iff, implies_true,
    and_true]
  omega

/-- Bytes in a row, if there are any. -/
theorem rangeReads_iff (start count base limit : ℕ) (h : 0 < count) :
    (∀ i ∈ List.range' start count, base + i < limit) ↔ base + start + count ≤ limit := by
  simp only [List.mem_range'_1]
  constructor
  · intro hall
    have := hall (start + (count - 1)) (by omega)
    omega
  · intro hle i hi
    omega

theorem identifyReads_iff (name : StationName) (o : BitVec 16) (base limit : ℕ) :
    (∀ i ∈ dcpIdentifyReads data name o, base + i < limit) ↔
      base + o.toNat + dcpIdentifyNeed data name o ≤ limit := by
  unfold dcpIdentifyReads dcpIdentifyNeed
  rw [headerReads_iff]
  split_ifs with hname
  · rw [List.forall_mem_map]
    simp only [mem_dcpNameReads, Nat.zero_le, true_and, Nat.zero_add]
    generalize dcpCommonLen _ 0 name.chars = k
    generalize (dcpBlockLen data o).toNat = blockLen
    constructor
    · rintro ⟨hheader, hall⟩
      rcases Nat.eq_zero_or_pos blockLen with hzero | hpos
      · omega
      · have := hall (min blockLen (k + 1) - 1) ⟨by omega, by omega⟩
        omega
    · intro hle
      refine ⟨by omega, fun j hj => ?_⟩
      omega
  · simp only [List.not_mem_nil, false_imp_iff, implies_true, and_true]

theorem setReads_iff (o : BitVec 16) (base limit : ℕ) :
    (∀ i ∈ dcpSetReads data o, base + i < limit) ↔
      base + o.toNat + dcpSetNeed data o ≤ limit := by
  unfold dcpSetReads dcpSetNeed
  rw [headerReads_iff]
  split_ifs with hip hname
  · rw [rangeReads_iff _ _ _ _ (by decide)]
    omega
  · generalize (dcpBlockLen data o).toNat = blockLen
    rcases Nat.eq_zero_or_pos blockLen with rfl | hpos
    · simp
    · rw [rangeReads_iff _ _ _ _ (by omega)]
      omega
  · simp only [List.not_mem_nil, false_imp_iff, implies_true, and_true]

end

/-! ## The loops -/

/-- A loop over the blocks of a frame, with the bytes that it needs of each. -/
theorem blocksEnd_iff (z : Zbuf α) {γ : Type} (f : γ → BitVec 16 → γ)
    (reads : BitVec 16 → List ℕ) (need : BitVec 16 → ℕ) (a : γ)
    (hneed : ∀ o, (∀ i ∈ reads o, 2 + dcpHdrLen + i < z.len.toNat) ↔
      2 + dcpHdrLen + o.toNat + need o ≤ z.len.toNat) :
    (∃ fuel b log, Lib.Loop.run (Lib.Cursor.body z.dcpMore (dcpNext z.dcpData)
      (Lib.Cursor.logged f reads)) fuel (0, (a, [])) = some (b, log) ∧
        ∀ i ∈ log, 2 + dcpHdrLen + i < z.len.toNat) ↔ z.BlocksEnd need := by
  have hmore : ∀ o, z.dcpMore o = true ↔ o < be16 z.dcp 8 := fun o => decide_eq_true_iff
  have hend : ∀ o, z.dcpMore o = false ↔ be16 z.dcp 8 ≤ o := by
    intro o
    rw [← Bool.not_eq_true, hmore, BitVec.not_lt]
  have hsteps : z.BlocksEnd need ↔ ∃ offsets,
      Lib.Cursor.Visits z.dcpMore (dcpNext z.dcpData) 0 offsets ∧ ∀ o ∈ offsets,
        2 + dcpHdrLen + o.toNat + need o ≤ z.len.toNat := by
    constructor
    · rintro ⟨n, -, hlast, hall⟩
      obtain ⟨offsets, hvisits, -, hfit⟩ := Lib.Cursor.visits_iff_iterate
        (P := fun o => 2 + dcpHdrLen + o.toNat + need o ≤ z.len.toNat) |>.2
        ⟨(hend _).2 hlast, fun m hm => ⟨(hmore _).2 (hall m hm).1, (hall m hm).2⟩⟩
      exact ⟨offsets, hvisits, hfit⟩
    · rintro ⟨offsets, hvisits, hfit⟩
      obtain ⟨hlast, hall⟩ := Lib.Cursor.visits_iff_iterate.1 ⟨offsets, hvisits, rfl, hfit⟩
      refine ⟨offsets.length, ?_, (hend _).1 hlast, fun m hm => ?_⟩
      · refine hvisits.length_le (fun x y h => BitVec.eq_of_toNat_eq h) fun o ho => ?_
        exact BitVec.lt_def.1 ((hmore o).1 ho)
      · exact ⟨(hmore _).1 (hall m hm).1, (hall m hm).2⟩
  rw [hsteps]
  constructor
  · rintro ⟨fuel, b, log, hrun, hlog⟩
    obtain ⟨offsets, hvisits, hfold⟩ := Lib.Cursor.returns_iff.1 ⟨fuel, hrun⟩
    rw [Lib.Cursor.foldl_logged, List.nil_append] at hfold
    obtain rfl : offsets.flatMap reads = log := (Prod.ext_iff.1 hfold).2
    refine ⟨offsets, hvisits, fun o ho => (hneed o).1 fun i hi => hlog i ?_⟩
    exact List.mem_flatMap.2 ⟨o, ho, hi⟩
  · rintro ⟨offsets, hvisits, hfit⟩
    obtain ⟨fuel, hrun⟩ := hvisits.returns (f := Lib.Cursor.logged f reads) (a := (a, []))
    rw [Lib.Cursor.foldl_logged, List.nil_append] at hrun
    refine ⟨fuel, _, _, hrun, fun i hi => ?_⟩
    obtain ⟨o, ho, hio⟩ := List.mem_flatMap.1 hi
    exact (hneed o).2 (hfit o ho) i hio

section
variable [DecidableEq α] (port : Port) (pool : ZbufPool α) (dev : PnioStation α) (zb : α)

/-- The log does not change whether a call returns. -/
theorem pnioDcpReads_isSome (fuel : ℕ) :
    (pnioDcpReads fuel dev (pool.zb zb)).isSome = (pnioDcpInput fuel port pool dev zb).isSome := by
  unfold pnioDcpReads pnioDcpInput
  dsimp only
  split_ifs
  · rfl
  · rw [Option.isSome_map, Option.isSome_map, Lib.Cursor.run_logged_isSome]
  · rw [Option.isSome_map, Option.isSome_map, Lib.Cursor.run_logged_isSome]
  · rfl

theorem dcpInputSafe_iff_reads : DcpInputSafe port pool dev zb ↔
    ∃ fuel reads, pnioDcpReads fuel dev (pool.zb zb) = some reads ∧
      ∀ i ∈ reads, 2 + dcpHdrLen + i < (pool.zb zb).len.toNat := by
  constructor
  · rintro ⟨fuel, -, reads, -, hreads, hin⟩
    exact ⟨fuel, reads, hreads, hin⟩
  · rintro ⟨fuel, reads, hreads, hin⟩
    have hsome := pnioDcpReads_isSome port pool dev zb fuel
    rw [hreads] at hsome
    obtain ⟨r, hr⟩ := Option.isSome_iff_exists.1 hsome.symm
    exact ⟨fuel, r, reads, hr, hreads, hin⟩

/-- **The loops of `pnio_dcp_input`** end and stay within the frame exactly if the
    blocks of the request do. -/
theorem dcp_input_safe_iff : DcpInputSafe port pool dev zb ↔ RequestFits dev (pool.zb zb) := by
  rw [dcpInputSafe_iff_reads]
  generalize pool.zb zb = z
  have hne : dcpServiceIdentify ≠ dcpServiceSet := by decide
  -- the log of a loop
  have hlog : ∀ {γ : Type} (run : ℕ → Option (γ × List ℕ)),
      (∃ fuel reads, (run fuel).map Prod.snd = some reads ∧
        ∀ i ∈ reads, 2 + dcpHdrLen + i < z.len.toNat) ↔
      ∃ fuel b log, run fuel = some (b, log) ∧ ∀ i ∈ log, 2 + dcpHdrLen + i < z.len.toNat := by
    intro γ run
    constructor
    · rintro ⟨fuel, reads, hreads, hin⟩
      obtain ⟨⟨b, log⟩, hrun, rfl⟩ := Option.map_eq_some_iff.1 hreads
      exact ⟨fuel, b, log, hrun, hin⟩
    · rintro ⟨fuel, b, log, hrun, hin⟩
      exact ⟨fuel, log, by rw [hrun]; rfl, hin⟩
  have hnothing : ∃ (_ : ℕ) (reads : List ℕ), some [] = some reads ∧
      ∀ i ∈ reads, 2 + dcpHdrLen + i < z.len.toNat := ⟨0, [], rfl, nofun⟩
  unfold pnioDcpReads RequestFits
  split_ifs with hlen hidentify hset
  · exact iff_of_true hnothing fun h => absurd hlen (Nat.not_lt.2 h)
  · rw [hlog, blocksEnd_iff z _ _ (dcpIdentifyNeed z.dcpData dev.nameOfStation) _ fun o =>
      identifyReads_iff ..]
    simp only [Nat.not_lt.1 hlen, hidentify.1, hidentify.2, true_imp_iff, hne, false_imp_iff,
      and_true]
  · rw [hlog, blocksEnd_iff z _ _ (dcpSetNeed z.dcpData) _ fun o => setReads_iff ..]
    simp only [Nat.not_lt.1 hlen, hset.1, hset.2, true_imp_iff, hne.symm, false_imp_iff, true_and]
  · refine iff_of_true hnothing fun _ htype => ⟨fun h => ?_, fun h => ?_⟩
    · exact absurd ⟨h, htype⟩ hidentify
    · exact absurd ⟨h, htype⟩ hset

end

/-- An Identify request whose only block says that it has 65532 bytes. -/
def demoEndless : ZbufPool (Fin 2) where
  zb := fun zb =>
    if zb = 0 then demoFrame ethHdrLen
      [0xFE, 0xFE, 5, 0, 0, 0, 0, 1, 0, 0, 0, 4, 0xFF, 0xFF, 0xFF, 0xFC]
    else demoZbuf
  freeList := some 1
  totalCount := 2
  freeCount := 1
  allocFailures := 0

/-- **A block that starts over**: `offset` wraps to zero, and the loop does not end. -/
theorem identify_endless :
    (∀ fuel, pnioDcpInput fuel .arm64 demoEndless demoStation 0 = none) ∧
    ¬ DcpInputSafe .arm64 demoEndless demoStation 0 := by
  have hrun : ∀ fuel, pnioDcpInput fuel .arm64 demoEndless demoStation 0 = none := by
    intro fuel
    have hfixed : Lib.Cursor.body (demoEndless.zb 0).dcpMore (dcpNext (demoEndless.zb 0).dcpData)
        (dcpIdentifyBlock (demoEndless.zb 0).dcpData demoStation.nameOfStation) (0, true) =
          .inl (0, true) := by decide
    unfold pnioDcpInput
    dsimp only
    rw [if_neg (by decide), if_pos (by decide), Lib.Loop.run_of_fixed hfixed]
    rfl
  refine ⟨hrun, fun ⟨fuel, r, _, hr, _⟩ => ?_⟩
  rw [hrun] at hr
  cases hr

end Gracemont
