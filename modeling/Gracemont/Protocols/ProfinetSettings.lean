/-
  Gracemont protocols — the settings of a PROFINET IO device over runs of DCP
  frames (`pnio_dcp_input` of `protocols/profinet/profinet.c`).

  Set requests tell a device its name and its addresses, and its answers to
  Identify requests are where others read them.  `DcpRun` is a run of calls, with
  any frames and any states of the pool in between.

  * `lastOf`: the value that was set last;
  * `SetRequest`: requests whose blocks hold what is read of them;
  * `set_returns`: what a Set request does to the device;
  * `dcp_settings`: the answers give what was set last;
  * `dcp_copy`: the blocks of an answer, sent to another device, make it answer
    with the same name and addresses.
-/
import Gracemont.Protocols.ProfinetIdentify

namespace Gracemont

open Lib (Holds)

/-! ## The value that was set last -/

section
variable {β γ : Type}

/-- The last of the values that elements of a list set, or the first one. -/
def lastOf (sets : β → Option γ) (l : List β) (init : γ) : γ := (l.filterMap sets).getLastD init

variable {sets : β → Option γ} {l l' : List β} {init : γ}

@[simp] theorem lastOf_nil : lastOf sets [] init = init := rfl

theorem lastOf_append : lastOf sets (l ++ l') init = lastOf sets l' (lastOf sets l init) := by
  rw [lastOf, lastOf, lastOf, List.filterMap_append, List.getLastD_eq_getLast?,
    List.getLastD_eq_getLast?, List.getLastD_eq_getLast?, List.getLast?_append]
  cases (l'.filterMap sets).getLast? <;> rfl

theorem lastOf_cons {b : β} : lastOf sets (b :: l) init =
    lastOf sets l ((sets b).getD init) := by
  have hb : lastOf sets [b] init = (sets b).getD init := by
    rw [lastOf, List.filterMap_cons]
    cases sets b <;> rfl
  rw [← hb, ← lastOf_append, List.singleton_append]

end

variable {α : Type}

/-! ## Settings -/

namespace DcpBlock
variable (block : DcpBlock)

/-- A block with the addresses of a station. -/
def IsIp : Prop := block.option = dcpOptIp ∧ block.suboption = dcpSuboptIpParam

instance : Decidable block.IsName := inferInstanceAs (Decidable (_ ∧ _))
instance : Decidable block.IsIp := inferInstanceAs (Decidable (_ ∧ _))

/-- The name that a block sets: what a name of 63 characters holds of it. -/
def nameSet : Option (List (BitVec 8)) :=
  if block.IsName then some (StationName.ofBytes block.contents).chars else none

/-- The addresses that a block sets, which are behind its block info. -/
def ipSet : Option (BitVec 32 × BitVec 32 × BitVec 32) :=
  let at' i := block.contents.getD i 0
  if block.IsIp then some (be32 at' 2, be32 at' 6, be32 at' 10) else none

/-- No block sets both. -/
theorem not_isName (h : block.IsIp) : ¬ block.IsName :=
  fun hname => absurd (h.1.symm.trans hname.1) (by decide)

end DcpBlock

/-- What a station can be told: its name, and its address, netmask and gateway. -/
structure DcpSettings where
  name : List (BitVec 8)
  ip : BitVec 32 × BitVec 32 × BitVec 32

/-- The settings after blocks: those that were set last. -/
def DcpSettings.after (s : DcpSettings) (blocks : List DcpBlock) : DcpSettings :=
  ⟨lastOf DcpBlock.nameSet blocks s.name, lastOf DcpBlock.ipSet blocks s.ip⟩

@[simp] theorem DcpSettings.after_nil (s : DcpSettings) : s.after [] = s := rfl

theorem DcpSettings.after_append (s : DcpSettings) (blocks blocks' : List DcpBlock) :
    s.after (blocks ++ blocks') = (s.after blocks).after blocks' := by
  rw [after, lastOf_append, lastOf_append]
  rfl

theorem DcpSettings.after_cons (s : DcpSettings) (block : DcpBlock) (blocks : List DcpBlock) :
    s.after (block :: blocks) =
      (⟨block.nameSet.getD s.name, block.ipSet.getD s.ip⟩ : DcpSettings).after blocks := by
  rw [after, lastOf_cons, lastOf_cons]
  rfl

/-- The settings of a station. -/
def PnioStation.settings (dev : PnioStation α) : DcpSettings :=
  ⟨dev.nameOfStation.chars, dev.ipAddr, dev.netmask, dev.gateway⟩

/-- Two stations differ in their settings only. -/
structure PnioStation.SameDevice (dev dev' : PnioStation α) : Prop where
  device : dev'.toPnioDevice = dev.toPnioDevice
  vendorId : dev'.vendorId = dev.vendorId
  deviceId : dev'.deviceId = dev.deviceId
  deviceRole : dev'.deviceRole = dev.deviceRole

namespace PnioStation.SameDevice

theorem refl (dev : PnioStation α) : dev.SameDevice dev := ⟨rfl, rfl, rfl, rfl⟩

theorem trans {dev₁ dev₂ dev₃ : PnioStation α} (h : dev₁.SameDevice dev₂)
    (h' : dev₂.SameDevice dev₃) : dev₁.SameDevice dev₃ :=
  ⟨h'.device.trans h.device, h'.vendorId.trans h.vendorId, h'.deviceId.trans h.deviceId,
    h'.deviceRole.trans h.deviceRole⟩

/-- The identity of a station is that of its device with its own settings. -/
theorem identity {dev dev' : PnioStation α} (h : dev.SameDevice dev') :
    dev'.identity =
      { dev.identity with name := some dev'.settings.name, ip := some dev'.settings.ip } := by
  unfold PnioStation.identity
  rw [h.vendorId, h.deviceId, h.deviceRole]
  rfl

end PnioStation.SameDevice

/-! ## Set requests -/

/-- **A well-formed Set request**, of any blocks: the frame holds them, they are as
    long as its header says, and blocks with addresses have room for them. -/
structure SetRequest (z : Zbuf α) (blocks : List DcpBlock) : Prop where
  service : z.dcp 0 = dcpServiceSet ∧ z.dcp 1 = dcpServiceTypeRequest
  len : 2 + dcpHdrLen + (be16 z.dcp 8).toNat ≤ z.len.toNat
  holds : DcpBlocks z.dcpData (be16 z.dcp 8).toNat 0 blocks
  ips : ∀ block ∈ blocks, block.IsIp → 14 ≤ block.contents.length

section
variable (data : ℕ → BitVec 8)

theorem contents_getD (o i : ℕ) (h : i < (dcpBlockAt data o).contents.length) :
    (dcpBlockAt data o).contents.getD i 0 = data (o + 4 + i) := by
  rw [List.getD_eq_getElem?_getD, List.getElem?_eq_getElem h]
  simp [dcpBlockAt, bytesFrom]

/-- The addresses, as the code reads them. -/
theorem ipSet_at (o : ℕ) (hip : (dcpBlockAt data o).IsIp)
    (h : 14 ≤ (dcpBlockAt data o).contents.length) : (dcpBlockAt data o).ipSet =
      some (be32 data (o + 6), be32 data (o + 6 + 4), be32 data (o + 6 + 8)) := by
  have hread : ∀ i, i + 3 < 14 →
      be32 (fun i => (dcpBlockAt data o).contents.getD i 0) i = be32 data (o + 4 + i) := by
    intro i hi
    unfold be32 be16
    simp only [contents_getD data o i (by omega), contents_getD data o (i + 1) (by omega),
      contents_getD data o (i + 2) (by omega), contents_getD data o (i + 2 + 1) (by omega)]
    rfl
  unfold DcpBlock.ipSet
  rw [if_pos hip, hread 2 (by decide), hread 6 (by decide), hread 10 (by decide)]

/-- What a block does to a station. -/
theorem dcpSetBlock_settings (dev : PnioStation α) (o : BitVec 16)
    (hip : (dcpBlockAt data o.toNat).IsIp → 14 ≤ (dcpBlockAt data o.toNat).contents.length) :
    dev.SameDevice (dcpSetBlock data dev o) ∧ (dcpSetBlock data dev o).settings =
      ⟨(dcpBlockAt data o.toNat).nameSet.getD dev.settings.name,
        (dcpBlockAt data o.toNat).ipSet.getD dev.settings.ip⟩ := by
  have hisIp : dcpBlockIs data dcpOptIp dcpSuboptIpParam o = true ↔
      (dcpBlockAt data o.toNat).IsIp := decide_eq_true_iff
  have hisName : dcpBlockIs data dcpOptDevice dcpSuboptDevName o = true ↔
      (dcpBlockAt data o.toNat).IsName := decide_eq_true_iff
  unfold dcpSetBlock
  by_cases h : (dcpBlockAt data o.toNat).IsIp
  · rw [if_pos (hisIp.2 h), ipSet_at data _ h (hip h), DcpBlock.nameSet,
      if_neg (DcpBlock.not_isName _ h)]
    exact ⟨⟨rfl, rfl, rfl, rfl⟩, rfl⟩
  · rw [if_neg (mt hisIp.1 h), DcpBlock.ipSet, if_neg h, DcpBlock.nameSet]
    by_cases hname : (dcpBlockAt data o.toNat).IsName
    · rw [if_pos (hisName.2 hname), if_pos hname]
      exact ⟨⟨rfl, rfl, rfl, rfl⟩, rfl⟩
    · rw [if_neg (mt hisName.1 hname), if_neg hname]
      exact ⟨.refl dev, rfl⟩

/-- What the loop over the blocks does to it. -/
theorem dcpSetBlocks_settings (offsets : List (BitVec 16)) (dev : PnioStation α)
    (hip : ∀ block ∈ offsets.map (fun o => dcpBlockAt data o.toNat),
      block.IsIp → 14 ≤ block.contents.length) :
    dev.SameDevice (offsets.foldl (dcpSetBlock data) dev) ∧
      (offsets.foldl (dcpSetBlock data) dev).settings =
        dev.settings.after (offsets.map fun o => dcpBlockAt data o.toNat) := by
  induction offsets generalizing dev with
  | nil => exact ⟨.refl dev, rfl⟩
  | cons o offsets ih =>
    obtain ⟨hip₁, hip'⟩ := List.forall_mem_cons.1 hip
    obtain ⟨hsame₁, hsettings₁⟩ := dcpSetBlock_settings data dev o hip₁
    obtain ⟨hsame, hsettings⟩ := ih (dcpSetBlock data dev o) hip'
    refine ⟨hsame₁.trans hsame, ?_⟩
    rw [List.foldl_cons, hsettings, hsettings₁, List.map_cons, DcpSettings.after_cons]

end

/-! ## Runs -/

/-- The blocks that a frame tells a station: those of a well-formed Set request,
    and none if it is no Set request. -/
inductive DcpFrame (z : Zbuf α) : List DcpBlock → Prop
  | set {blocks : List DcpBlock} (h : SetRequest z blocks) : DcpFrame z blocks
  | other (h : dcpHdrLen ≤ z.len.toNat →
      ¬ (z.dcp 0 = dcpServiceSet ∧ z.dcp 1 = dcpServiceTypeRequest)) : DcpFrame z []

section
variable [DecidableEq α]

/-- A run of calls, which tell the station these blocks one after the other. -/
inductive DcpRun (port : Port) (dev : PnioStation α) : PnioStation α → List DcpBlock → Prop
  | nil : DcpRun port dev dev []
  | call {dev' : PnioStation α} {blocks blocks' : List DcpBlock} {pool : ZbufPool α} {zb : α}
      {fuel : ℕ} {r : DcpInput α} (h : DcpRun port dev dev' blocks)
      (hframe : DcpFrame (pool.zb zb) blocks')
      (hr : pnioDcpInput fuel port pool dev' zb = some r) :
      DcpRun port dev r.dev (blocks ++ blocks')

variable {port : Port} {pool pool' : ZbufPool α} {dev dev' : PnioStation α} {zb resp : α}
variable {blocks : List DcpBlock} {fuel : ℕ} {r : DcpInput α}

/-- **A Set request** returns, with the settings of its blocks. -/
theorem set_returns (h : SetRequest (pool.zb zb) blocks) :
    ∃ fuel r, pnioDcpInput fuel port pool dev zb = some r ∧ dev.SameDevice r.dev ∧
      r.dev.settings = dev.settings.after blocks := by
  obtain ⟨offsets, hvisits, hmap, -⟩ := h.holds.visits (o := 0) rfl
  rw [← dcpMore_eq] at hvisits
  obtain ⟨fuel, hrun⟩ := hvisits.returns (a := dev) (f := dcpSetBlock (pool.zb zb).dcpData)
  have hsettings := dcpSetBlocks_settings (pool.zb zb).dcpData offsets dev
    (by rw [hmap]; exact h.ips)
  rw [hmap] at hsettings
  have hlen : ¬ (pool.zb zb).len.toNat < dcpHdrLen := by
    have := h.len
    omega
  have hidentify : ¬ ((pool.zb zb).dcp 0 = dcpServiceIdentify ∧
      (pool.zb zb).dcp 1 = dcpServiceTypeRequest) :=
    fun hservice => absurd (h.service.1.symm.trans hservice.1) (by decide)
  refine ⟨fuel, ⟨zbufFree port pool (some zb), _, none⟩, ?_, hsettings⟩
  unfold pnioDcpInput
  dsimp only
  rw [if_neg hlen, if_neg hidentify, if_pos h.service, hrun]
  rfl

/-- Other frames leave the station as it is. -/
theorem pnioDcpInput_other (hr : pnioDcpInput fuel port pool dev zb = some r)
    (h : dcpHdrLen ≤ (pool.zb zb).len.toNat →
      ¬ ((pool.zb zb).dcp 0 = dcpServiceSet ∧ (pool.zb zb).dcp 1 = dcpServiceTypeRequest)) :
    r.dev = dev := by
  unfold pnioDcpInput at hr
  dsimp only at hr
  split_ifs at hr with hlen _ hset
  · cases hr
    rfl
  · obtain ⟨isMatch, -, rfl⟩ := Option.map_eq_some_iff.1 hr
    cases isMatch with
    | false => rfl
    | true =>
      rw [if_pos rfl, dcpRespond]
      split <;> rfl
  · exact absurd hset (h (Nat.not_lt.1 hlen))
  · cases hr
    rfl

/-- What a call does to the station. -/
theorem DcpFrame.settings (h : DcpFrame (pool.zb zb) blocks)
    (hr : pnioDcpInput fuel port pool dev zb = some r) :
    dev.SameDevice r.dev ∧ r.dev.settings = dev.settings.after blocks := by
  cases h with
  | set h =>
    have hreturns : ∃ fuel r, pnioDcpInput fuel port pool dev zb = some r ∧
        dev.SameDevice r.dev ∧ r.dev.settings = dev.settings.after blocks := set_returns h
    obtain ⟨fuel', r', hr', hsettings⟩ := hreturns
    rw [pnioDcpInput_unique hr hr']
    exact hsettings
  | other h =>
    rw [pnioDcpInput_other hr h]
    exact ⟨.refl dev, rfl⟩

/-- What a run does to it. -/
theorem DcpRun.settings (h : DcpRun port dev dev' blocks) :
    dev.SameDevice dev' ∧ dev'.settings = dev.settings.after blocks := by
  induction h with
  | nil => exact ⟨.refl dev, rfl⟩
  | call _ hframe hr ih =>
    obtain ⟨hsame, hsettings⟩ := hframe.settings hr
    refine ⟨ih.1.trans hsame, ?_⟩
    rw [hsettings, ih.2, DcpSettings.after_append]

/-- What the answers of a station say. -/
def AnswersAs (port : Port) (dev : PnioStation α) (id : DcpIdentity) : Prop :=
  ∀ ⦃fuel pool zb r pool' resp⦄, pnioDcpInput fuel port pool dev zb = some r →
    r.sent = some (pool', resp) → ∃ blocks,
      DcpBlocks (pool'.zb resp).dcpData (be16 (pool'.zb resp).dcp 8).toNat 0 blocks ∧
        DcpIdentity.ofBlocks blocks = id

theorem answers_identity (port : Port) (dev : PnioStation α) : AnswersAs port dev dev.identity := by
  intro fuel pool zb r pool' resp hr hsent
  have hbuffer : ∃ z : Zbuf α, z.tail = z.data ∧
      pool'.zb resp = z.dcpResponse dev (be32 (pool.zb zb).dcp 2) := identify_buffer hr hsent
  obtain ⟨z, hdata, hz⟩ := hbuffer
  rw [hz]
  exact ⟨dev.blocks, (dcpResponse_blocks hdata dev _).2, blocks_identity dev⟩

/-- **The answers give what was set last.**  After any run, the next Set request
    returns, with its settings, and all answers of the station have its own ids and
    role, and the name and the addresses that were set last. -/
theorem dcp_settings (hrun : DcpRun port dev dev' blocks) :
    (∀ {pool : ZbufPool α} {zb blocks'}, SetRequest (pool.zb zb) blocks' →
      ∃ fuel r, pnioDcpInput fuel port pool dev' zb = some r ∧
        r.dev.settings = dev.settings.after (blocks ++ blocks')) ∧
    AnswersAs port dev'
      { dev.identity with
        name := some (lastOf DcpBlock.nameSet blocks dev.nameOfStation.chars)
        ip := some (lastOf DcpBlock.ipSet blocks (dev.ipAddr, dev.netmask, dev.gateway)) } := by
  obtain ⟨hsame, hsettings⟩ := hrun.settings
  constructor
  · intro pool zb blocks' h
    have hreturns : ∃ fuel r, pnioDcpInput fuel port pool dev' zb = some r ∧
        dev'.SameDevice r.dev ∧ r.dev.settings = dev'.settings.after blocks' := set_returns h
    obtain ⟨fuel, r, hr, -, hset⟩ := hreturns
    exact ⟨fuel, r, hr, by rw [hset, hsettings, DcpSettings.after_append]⟩
  · have hanswers := answers_identity port dev'
    rw [hsame.identity, hsettings] at hanswers
    exact hanswers

end

/-- A Set request with a name. -/
def demoSet : ZbufPool (Fin 2) :=
  { demoPrefix with
    zb := fun zb =>
      if zb = 0 then demoFrame ethHdrLen
        [0xFE, 0xFD, 4, 0, 0, 0, 0, 1, 0, 0, 0, 6, 2, 2, 0, 2, 0x61, 0x62]
      else demoZbuf }

theorem demoSet_request : SetRequest (demoSet.zb 0) [⟨2, 2, [0x61, 0x62]⟩] := by
  refine ⟨⟨by decide, by decide⟩, by decide, ?_, by simp [DcpBlock.IsIp, dcpOptIp]⟩
  have hholds : Holds (demoSet.zb 0).dcpData 0
      ([⟨2, 2, [0x61, 0x62]⟩].flatMap DcpBlock.bytes) := by decide
  exact DcpBlocks.of_holds (by decide) hholds

theorem demo_settings : ∃ dev', DcpRun .arm64 demoStation dev' [⟨2, 2, [0x61, 0x62]⟩] ∧
    AnswersAs .arm64 dev' { demoStation.identity with name := some [0x61, 0x62] } := by
  have hreturns : ∃ fuel r, pnioDcpInput fuel .arm64 demoSet demoStation 0 = some r ∧
      demoStation.SameDevice r.dev ∧
        r.dev.settings = demoStation.settings.after [⟨2, 2, [0x61, 0x62]⟩] :=
    set_returns demoSet_request
  obtain ⟨fuel, r, hr, -⟩ := hreturns
  have hrun : DcpRun .arm64 demoStation r.dev [⟨2, 2, [0x61, 0x62]⟩] :=
    .call .nil (.set demoSet_request) hr
  exact ⟨r.dev, hrun, (dcp_settings hrun).2⟩

/-! ## The blocks of an answer -/

section
variable [DecidableEq α] {port : Port} {pool pool' : ZbufPool α} {dev : PnioStation α}
variable {zb resp : α} {fuel : ℕ} {r : DcpInput α}

/-- A Set request with the blocks of an answer. -/
structure SetsBlocksOf (answer z : Zbuf α) : Prop where
  service : z.dcp 0 = dcpServiceSet ∧ z.dcp 1 = dcpServiceTypeRequest
  len : 2 + dcpHdrLen + (be16 z.dcp 8).toNat ≤ z.len.toNat
  dataLen : be16 z.dcp 8 = be16 answer.dcp 8
  data : ∀ i < (be16 answer.dcp 8).toNat, z.dcpData i = answer.dcpData i

omit [DecidableEq α] in
theorem StationName.ofBytes_chars (name : StationName) :
    (StationName.ofBytes name.chars).chars = name.chars := by
  change (name.chars.take 63).takeWhile (· ≠ 0) = name.chars
  rw [List.take_of_length_le name.length_le, List.takeWhile_eq_self_iff]
  intro c hc
  have hne : c ≠ 0 := fun h => name.noNul (h ▸ hc)
  simpa using hne

omit [DecidableEq α] in
/-- The blocks of a station set its settings. -/
theorem after_blocks (s : DcpSettings) (dev : PnioStation α) :
    s.after dev.blocks = dev.settings := by
  have h16 : ∀ val : BitVec 16, hiByte val ++ loByte val = val := hiByte_append_loByte
  have h32 : ∀ val : BitVec 32, hiWord val ++ loWord val = val := hiWord_append_loWord
  simp [PnioStation.blocks, DcpSettings.after_cons, DcpBlock.nameSet, DcpBlock.ipSet,
    DcpBlock.IsName, DcpBlock.IsIp, PnioStation.settings, StationName.ofBytes_chars,
    dcpOptDevice, dcpOptIp, dcpSuboptDevName, dcpSuboptDevVendor, dcpSuboptDevRole,
    dcpSuboptIpParam, be16, be32, be16Bytes, be32Bytes, h16, h32]

omit [DecidableEq α] in
/-- Its addresses have room. -/
theorem blocks_ips (dev : PnioStation α) :
    ∀ block ∈ dev.blocks, block.IsIp → 14 ≤ block.contents.length := by
  simp [PnioStation.blocks, DcpBlock.IsIp, be16Bytes, be32Bytes, dcpOptDevice, dcpOptIp]

/-- Memories that agree up to `last` hold the same blocks there. -/
theorem DcpBlocks.congr {data data' : ℕ → BitVec 8} {last offset : ℕ} {blocks : List DcpBlock}
    (h : DcpBlocks data last offset blocks) (heq : ∀ i < last, data' i = data i) :
    DcpBlocks data' last offset blocks := by
  induction h with
  | nil => exact .nil
  | @cons offset blocks ht ih =>
    have hle := ht.le
    have hlen := DcpBlocks.contents_length data offset
    unfold DcpBlock.size at hle
    have hlen' : be16 data' (offset + 2) = be16 data (offset + 2) := by
      rw [be16, be16, heq _ (by omega), heq _ (by omega)]
    have hat : dcpBlockAt data' offset = dcpBlockAt data offset := by
      unfold dcpBlockAt
      rw [heq _ (by omega), heq _ (by omega), hlen']
      refine congrArg _ (List.map_congr_left fun i hi => heq _ ?_)
      have := List.mem_range.1 hi
      omega
    rw [← hat] at ih ⊢
    exact .cons ih

/-- **An answer, told to another station.**  A Set request with the blocks of an
    answer returns, in every state of the other station, and from then on, until
    it is told something else, its answers have the name and the addresses of the
    first station, with its own ids and role. -/
theorem dcp_copy {port' : Port} {pool₁ : ZbufPool α} {dev₁ : PnioStation α} {zb₁ : α}
    (hr : pnioDcpInput fuel port pool dev zb = some r) (hsent : r.sent = some (pool', resp))
    (hset : SetsBlocksOf (pool'.zb resp) (pool₁.zb zb₁)) :
    ∃ fuel r₁, pnioDcpInput fuel port' pool₁ dev₁ zb₁ = some r₁ ∧
      ∀ dev₂, DcpRun port' r₁.dev dev₂ [] → AnswersAs port' dev₂
        { dev₁.identity with name := dev.identity.name, ip := dev.identity.ip } := by
  have hbuffer : ∃ z : Zbuf α, z.tail = z.data ∧
      pool'.zb resp = z.dcpResponse dev (be32 (pool.zb zb).dcp 2) := identify_buffer hr hsent
  obtain ⟨z, hdata, hz⟩ := hbuffer
  have hblocks := (dcpResponse_blocks hdata dev (be32 (pool.zb zb).dcp 2)).2
  rw [← hz] at hblocks
  have hholds : DcpBlocks (pool₁.zb zb₁).dcpData (be16 (pool₁.zb zb₁).dcp 8).toNat 0
      dev.blocks := by
    rw [hset.dataLen]
    exact hblocks.congr hset.data
  have hrequest : SetRequest (pool₁.zb zb₁) dev.blocks :=
    ⟨hset.service, hset.len, hholds, blocks_ips dev⟩
  have hreturns : ∃ fuel r₁, pnioDcpInput fuel port' pool₁ dev₁ zb₁ = some r₁ ∧
      dev₁.SameDevice r₁.dev ∧ r₁.dev.settings = dev₁.settings.after dev.blocks :=
    set_returns hrequest
  obtain ⟨fuel₁, r₁, hr₁, hsame, hsettings⟩ := hreturns
  refine ⟨fuel₁, r₁, hr₁, fun dev₂ hrun => ?_⟩
  obtain ⟨hsame₂, hsettings₂⟩ := hrun.settings
  rw [DcpSettings.after_nil, hsettings, after_blocks] at hsettings₂
  have hanswers := answers_identity port' dev₂
  rw [(hsame.trans hsame₂).identity, hsettings₂] at hanswers
  exact hanswers

end

/-- A Set request with the blocks that `demoStation` answers. -/
def demoCopy : ZbufPool (Fin 2) :=
  { demoPrefix with
    zb := fun zb =>
      if zb = 0 then demoFrame ethHdrLen
        ([0xFE, 0xFD, 4, 0, 0, 0, 0, 1, 0, 0, 0, 50] ++ dcpResponseBlocks demoStation)
      else demoZbuf }

theorem demoCopy_sets {z : Zbuf (Fin 2)} (hdata : z.tail = z.data) (xid : BitVec 32) :
    SetsBlocksOf (z.dcpResponse demoStation xid) (demoCopy.zb 0) := by
  have hto : (be16 (z.dcpResponse demoStation xid).dcp 8).toNat = 50 :=
    (dcpResponse_blocks hdata demoStation xid).1.trans (by decide)
  have hlen : be16 (demoCopy.zb 0).dcp 8 = 50 := by decide
  refine ⟨⟨by decide, by decide⟩, by decide, ?_, fun i hi => ?_⟩
  · rw [hlen]
    exact BitVec.eq_of_toNat_eq hto.symm
  · have hanswer := (Lib.holds_append.1 (dcpResponse_holds hdata demoStation xid)).2
    have hset : Holds (demoCopy.zb 0).frame 12 (dcpResponseBlocks demoStation) := by decide
    have hbytes := List.map_inj_left.1 (hset.trans hanswer.symm) i
      (List.mem_range.2 (by rw [hto] at hi; exact hi))
    have hoffset : 2 + (dcpHdrLen + i) = 12 + i := by
      rw [dcpHdrLen]
      omega
    rw [Zbuf.dcpData, Zbuf.dcpData, Zbuf.dcp, Zbuf.dcp, hoffset, hbytes]
    rfl

/-- Another station. -/
def demoOther : PnioStation (Fin 2) :=
  { demoStation with nameOfStation := .ofBytes [0x61], vendorId := 0x4321, ipAddr := 0 }

theorem demo_copy : ∃ fuel r, pnioDcpInput fuel .arm64 demoCopy demoOther 0 = some r ∧
    ∀ dev, DcpRun .arm64 r.dev dev [] → AnswersAs .arm64 dev
      { demoStation.identity with ids := some (0x4321, 0x5678) } := by
  have hfree : demoIdentify.freeList ≠ none := nofun
  have hsent : ∃ pool' resp, (dcpRespond .arm64 demoIdentify demoStation 0
      (be32 (demoIdentify.zb 0).dcp 2)).sent = some (pool', resp) := dcpRespond_sent_of_free hfree _
  obtain ⟨pool', resp, hsent⟩ := hsent
  have hr : pnioDcpInput 1 .arm64 demoIdentify demoStation 0 =
      some (dcpRespond .arm64 demoIdentify demoStation 0 (be32 (demoIdentify.zb 0).dcp 2)) :=
    pnioDcpInput_identify (by decide) (by decide) (by decide : _ = some true)
  have hbuffer : ∃ z : Zbuf (Fin 2), z.tail = z.data ∧
      pool'.zb resp = z.dcpResponse demoStation (be32 (demoIdentify.zb 0).dcp 2) :=
    identify_buffer hr hsent
  obtain ⟨z, hdata, hz⟩ := hbuffer
  exact dcp_copy hr hsent (by rw [hz]; exact demoCopy_sets hdata _)

end Gracemont
