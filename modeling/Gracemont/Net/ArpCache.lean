/-
  Gracemont networking — the ARP cache over sequences of packets.

  `arp_input` makes an entry for each packet, in the first place that is not
  valid, and does not look for one of the same sender; `arp_resolve` returns the
  first entry.  Nothing reads the expiry time of an entry.  So the cache holds
  the first packets, in order, and a sender keeps its first address.

  * `Zbuf.arpSender`: the addresses that a frame announces;
  * `arpLts`: frames, and calls of `arp_resolve`, with what was announced;
  * `ArpMap`: the cache is the map that each packet assigns to;
  * `arp_cache_map_iff`: exactly if no sender repeats among the packets that fill
    the cache, and none ends with another address than its first.
-/
import Mathlib.Data.Fintype.Basic
import Gracemont.Lib.Assoc
import Gracemont.Lib.Trace
import Gracemont.Net.KeptField

namespace Gracemont

variable {α σ : Type}

/-- A hardware address -/
abbrev MacAddr : Type := Fin 6 → BitVec 8

/-! ## Frames -/

/-- The IP and hardware address of the sender, if the frame has an ARP packet for
    Ethernet and IPv4. -/
def Zbuf.arpSender (z : Zbuf α) : Option (BitVec 32 × MacAddr) :=
  let b := z.space.byte
  let arp := z.data + ethHdrLen
  if ethHdrLen + arpHdrLen ≤ z.len.toNat ∧ be16 b (z.data + 12) = ethTypeArp ∧ be16 b arp = 1 ∧
      be16 b (arp + 2) = ethTypeIp then
    some (be32 b (arp + 14), macAt b (arp + 8))
  else none

/-- The entry for a sender. -/
def arpEntry (p : BitVec 32 × MacAddr) : ArpEntry := ⟨p.1, p.2, true⟩

section
variable [DecidableEq α] (cfg : NetConfig α) (nif : IpNetif α)

omit [DecidableEq α] in
theorem arpCache_kept [DecidableEq σ] : KeptField fun s : NetStack α σ => s.arpCache :=
  ⟨fun _ _ _ => rfl, fun h => h.arpCache, fun _ _ _ => rfl⟩

theorem arpReply_arpCache (s : NetStack α σ) (sha : MacAddr) (spa : BitVec 32) :
    (arpReply cfg nif s sha spa).arpCache = s.arpCache := by
  unfold arpReply
  have hcache := (Transmitted.allocTx s arpHdrLen).arpCache
  generalize s.allocTx arpHdrLen = r at hcache ⊢
  rcases r with ⟨s₁, _ | reply⟩
  · exact hcache
  · exact (Transmitted.ethOutput cfg nif _ reply sha ethTypeArp).arpCache.trans hcache

variable {cfg nif} {s s' : NetStack α σ} {zb : α}

/-- `arp_input` makes an entry for each packet for Ethernet and IPv4. -/
theorem arpInput_arpCache (s : NetStack α σ) (zb : α) : (arpInput cfg nif s zb).arpCache =
    if arpHdrLen ≤ (s.pool.zb zb).len.toNat ∧
        be16 (s.pool.zb zb).space.byte (s.pool.zb zb).data = 1 ∧
        be16 (s.pool.zb zb).space.byte ((s.pool.zb zb).data + 2) = ethTypeIp then
      arpInsert (arpEntry (be32 (s.pool.zb zb).space.byte ((s.pool.zb zb).data + 14),
        macAt (s.pool.zb zb).space.byte ((s.pool.zb zb).data + 8))) s.arpCache
    else s.arpCache := by
  unfold arpInput
  simp only
  by_cases hlen : (s.pool.zb zb).len.toNat < arpHdrLen
  · rw [if_pos hlen, if_neg fun h => Nat.not_le.2 hlen h.1]
    rfl
  rw [if_neg hlen]
  by_cases htype : be16 (s.pool.zb zb).space.byte (s.pool.zb zb).data ≠ 1 ∨
      be16 (s.pool.zb zb).space.byte ((s.pool.zb zb).data + 2) ≠ ethTypeIp
  · rw [if_pos htype, if_neg]
    · rfl
    · rintro ⟨-, h1, h2⟩
      exact htype.elim (fun h => h h1) fun h => h h2
  · rw [if_neg htype]
    obtain ⟨h1, h2⟩ := not_or.1 htype
    have haccepted : arpHdrLen ≤ (s.pool.zb zb).len.toNat ∧
        be16 (s.pool.zb zb).space.byte (s.pool.zb zb).data = 1 ∧
        be16 (s.pool.zb zb).space.byte ((s.pool.zb zb).data + 2) = ethTypeIp :=
      ⟨Nat.le_of_not_lt hlen, not_not.1 h1, not_not.1 h2⟩
    rw [if_pos haccepted]
    refine (Transmitted.free _ cfg zb).arpCache.trans ?_
    split_ifs
    · exact arpReply_arpCache cfg nif _ _ _
    · rfl

/-- Behind the Ethernet header of a frame. -/
theorem pull_ethHdr (s : NetStack α σ) (zb : α) (z : Zbuf α) (hlen : ethHdrLen ≤ z.len.toNat) :
    ((s.setBuf zb z).pull zb ethHdrLen).pool.zb zb =
      { z with data := z.data + ethHdrLen, len := z.len - ethHdrLen } := by
  have hlt : ¬ z.len < (ethHdrLen : BitVec 16) := by
    rw [BitVec.lt_def]
    exact Nat.not_lt.2 hlen
  unfold NetStack.pull zbufPull
  rw [NetStack.setBuf_zb_self, if_neg hlt]
  exact NetStack.setBuf_zb_self ..

variable [DecidableEq σ]

/-- **What a frame does to the cache.** -/
theorem netifInput_arpCache {fuel : ℕ} (h : netifInput cfg fuel nif s zb = some s') :
    s'.arpCache = match (s.pool.zb zb).arpSender with
      | none => s.arpCache
      | some p => arpInsert (arpEntry p) s.arpCache := by
  unfold netifInput at h
  simp only at h
  by_cases hlen : (s.pool.zb zb).len.toNat < ethHdrLen
  · rw [if_pos hlen] at h
    cases h
    have hnone : (s.pool.zb zb).arpSender = none := by
      refine if_neg fun hs => ?_
      exact Nat.not_le.2 hlen (Nat.le_of_add_right_le hs.1)
    rw [hnone]
    rfl
  rw [if_neg hlen] at h
  have hbuf := pull_ethHdr s zb { s.pool.zb zb with
    l2Offset := 0, l3Offset := ethHdrLen
    protocol := be16 (s.pool.zb zb).space.byte ((s.pool.zb zb).data + 12) } (Nat.le_of_not_lt hlen)
  generalize hs₁ : (s.setBuf zb _).pull zb ethHdrLen = s₁ at h hbuf
  have hcache : s₁.arpCache = s.arpCache := by
    rw [← hs₁]
    exact ((Transmitted.setBuf s zb _).trans (.pull _ zb _)).arpCache
  by_cases harp : be16 (s.pool.zb zb).space.byte ((s.pool.zb zb).data + 12) = ethTypeArp
  · have hip : ¬ be16 (s.pool.zb zb).space.byte ((s.pool.zb zb).data + 12) = ethTypeIp := by
      rw [harp]
      decide
    rw [if_neg hip, if_pos harp] at h
    cases h
    rw [arpInput_arpCache, hbuf, hcache]
    have hsub : ((s.pool.zb zb).len - (ethHdrLen : BitVec 16)).toNat =
        (s.pool.zb zb).len.toNat - ethHdrLen := BitVec.toNat_sub_of_le (Nat.le_of_not_lt hlen)
    have hle : arpHdrLen ≤ (s.pool.zb zb).len.toNat - ethHdrLen ↔
        ethHdrLen + arpHdrLen ≤ (s.pool.zb zb).len.toNat := by omega
    unfold Zbuf.arpSender
    simp only [hsub, hle, harp, true_and]
    split_ifs
    · rfl
    · rfl
  · have hnone : (s.pool.zb zb).arpSender = none := if_neg fun hs => harp hs.2.1
    rw [hnone]
    rw [if_neg harp] at h
    split_ifs at h
    · exact (arpCache_kept.ipInput cfg h).trans hcache
    · cases h
      exact hcache

end

/-! ## The cache -/

section
variable {l : List (BitVec 32 × MacAddr)} {rest : List ArpEntry}

/-- A cache that holds the entries for `l` in its first places. -/
structure HoldsFirst (cache : List ArpEntry) (l : List (BitVec 32 × MacAddr))
    (rest : List ArpEntry) : Prop where
  entries : cache = l.map arpEntry ++ rest
  invalid : ∀ e ∈ rest, e.valid = false

theorem arpInsert_entries (e : ArpEntry) (l : List (BitVec 32 × MacAddr)) (rest : List ArpEntry) :
    arpInsert e (l.map arpEntry ++ rest) = l.map arpEntry ++ arpInsert e rest := by
  induction l with
  | nil => rfl
  | cons p l ih =>
    have hvalid : (arpEntry p).valid = true := rfl
    rw [List.map_cons, List.cons_append, List.cons_append, arpInsert, if_pos hvalid, ih]

/-- **The lookup** finds the first entry for an address. -/
theorem arpFind_entries {cache : List ArpEntry} (h : HoldsFirst cache l rest) (ip : BitVec 32) :
    arpFind ip cache = (l.lookup ip).map fun mac => arpEntry (ip, mac) := by
  have hrest : rest.find? (fun e => e.valid ∧ e.ip = ip) = none := by
    refine List.find?_eq_none.2 fun e he => ?_
    simp [h.invalid e he]
  have happend : ∀ l : List (BitVec 32 × MacAddr), arpFind ip (l.map arpEntry ++ rest) =
      (l.lookup ip).map fun mac => arpEntry (ip, mac) := by
    intro l
    induction l with
    | nil => exact hrest
    | cons p l ih =>
      rcases p with ⟨ip', mac⟩
      by_cases hip : ip' = ip
      · subst hip
        simp [arpFind, arpEntry]
      · have hbeq : (ip == ip') = false := beq_false_of_ne (Ne.symm hip)
        rw [List.lookup_cons, hbeq]
        simpa [arpFind, arpEntry, hip] using ih
  rw [h.entries]
  exact happend l

/-- The valid entries are for different addresses. -/
def UniqueEntries (cache : List ArpEntry) : Prop :=
  cache.Pairwise fun e e' => e.valid = true → e'.valid = true → e.ip ≠ e'.ip

theorem uniqueEntries_iff {cache : List ArpEntry} (h : HoldsFirst cache l rest) :
    UniqueEntries cache ↔ (Lib.Assoc.keys l).Nodup := by
  unfold UniqueEntries Lib.Assoc.keys List.Nodup
  rw [h.entries, List.pairwise_append, List.pairwise_map, List.pairwise_map]
  constructor
  · rintro ⟨hl, -, -⟩
    exact hl.imp fun hne => hne rfl rfl
  · intro hl
    refine ⟨hl.imp fun hne _ _ => hne, ?_, ?_⟩
    · refine List.pairwise_of_forall_mem_list fun e he e' _ hvalid => ?_
      rw [h.invalid e he] at hvalid
      cases hvalid
    · intro e _ e' he' _ hvalid
      rw [h.invalid e' he'] at hvalid
      cases hvalid

end

/-! ## Runs -/

/-- The stack, and the addresses announced so far. -/
structure ArpState (α σ : Type) where
  net : NetStack α σ
  heard : List (BitVec 32 × MacAddr)

/-- A frame is delivered in a buffer, or `arp_resolve` is called. -/
inductive ArpEvent (α : Type) where
  | frame (pool : ZbufPool α) (nif : IpNetif α) (zb : α)
  | resolve (pool : ZbufPool α) (ip : BitVec 32)

section
variable [DecidableEq α] [DecidableEq σ] (cfg : NetConfig α)

/-- The runs of the ARP cache, with no entry at first.  Each event brings the pool
    that it meets. -/
def arpLts : Lib.Lts (ArpState α σ) (ArpEvent α) where
  init s := s.net.arpCache.length = arpCacheSize ∧ (∀ e ∈ s.net.arpCache, e.valid = false) ∧
    s.heard = []
  step s e s' := match e with
    | .frame pool nif zb => ∃ fuel net,
        netifInput cfg fuel nif { s.net with pool := pool } zb = some net ∧
        s' = ⟨net, s.heard ++ (pool.zb zb).arpSender.toList⟩
    | .resolve pool ip =>
        s' = { s with net := (arpResolve cfg { s.net with pool := pool } ip).1 }

/-- **The cache as a map**: for every sender, `arp_resolve` returns the address of
    its last packet, and there is one entry for it. -/
structure ArpMap (s : ArpState α σ) : Prop where
  resolve : ∀ ip mac, Lib.Assoc.latest s.heard ip = some mac →
    (arpResolve cfg s.net ip).2 = (.ok, mac)
  unique : UniqueEntries s.net.arpCache

/-- No sender repeats among the packets that fill the cache, and the last packet
    of each has the address of its first. -/
structure Settled (heard : List (BitVec 32 × MacAddr)) : Prop where
  once : (Lib.Assoc.keys (heard.take arpCacheSize)).Nodup
  same : ∀ ip, Lib.Assoc.latest heard ip = heard.lookup ip

end

/-- The cache holds the first packets. -/
def ArpInv (s : ArpState α σ) : Prop :=
  s.net.arpCache.length = arpCacheSize ∧
    ∃ rest, HoldsFirst s.net.arpCache (s.heard.take arpCacheSize) rest

section
variable [DecidableEq α] [DecidableEq σ] {cfg : NetConfig α} {s s' : ArpState α σ}

omit [DecidableEq α] [DecidableEq σ] in
/-- **A packet** takes the next place, if there is one. -/
theorem ArpInv.announce (h : ArpInv s) (p : BitVec 32 × MacAddr) {net : NetStack α σ}
    (hcache : net.arpCache = arpInsert (arpEntry p) s.net.arpCache) :
    ArpInv ⟨net, s.heard ++ [p]⟩ := by
  obtain ⟨hlen, rest, hfirst⟩ := h
  have hplaces := congrArg List.length hfirst.entries
  rw [hlen, List.length_append, List.length_map, List.length_take] at hplaces
  rcases rest with _ | ⟨e, rest⟩
  · -- the cache is full
    have hfull : (s.heard ++ [p]).take arpCacheSize = s.heard.take arpCacheSize :=
      List.take_append_of_le_length (by rw [List.length_nil] at hplaces; omega)
    have hsame : net.arpCache = s.net.arpCache := by
      rw [hcache, hfirst.entries, arpInsert_entries]
      rfl
    unfold ArpInv
    simp only [hsame, hfull]
    exact ⟨hlen, [], hfirst⟩
  · have hroom : s.heard.length < arpCacheSize := by
      rw [List.length_cons] at hplaces
      omega
    have htake : (s.heard ++ [p]).take arpCacheSize = s.heard.take arpCacheSize ++ [p] := by
      rw [List.take_of_length_le (Nat.le_of_lt hroom), List.take_of_length_le]
      rw [List.length_append]
      exact hroom
    have hinvalid : ¬ e.valid = true := by
      rw [hfirst.invalid e List.mem_cons_self]
      decide
    have hnew : net.arpCache =
        (s.heard.take arpCacheSize ++ [p]).map arpEntry ++ rest := by
      rw [hcache, hfirst.entries, arpInsert_entries, arpInsert, if_neg hinvalid]
      simp
    unfold ArpInv
    simp only [htake]
    refine ⟨?_, rest, hnew, fun e' he' => hfirst.invalid e' (List.mem_cons_of_mem e he')⟩
    rw [hnew]
    simp only [List.length_append, List.length_map, List.length_cons, List.length_nil,
      List.length_take] at hplaces ⊢
    omega

theorem ArpInv.step (h : ArpInv s) {e : ArpEvent α} (hs : (arpLts cfg).step s e s') :
    ArpInv s' := by
  cases e with
  | frame pool nif zb =>
    obtain ⟨fuel, net, hinput, rfl⟩ := hs
    have hcache := netifInput_arpCache hinput
    rcases hsender : (pool.zb zb).arpSender with _ | p
    · have hsame : net.arpCache = s.net.arpCache := by
        simp only [hsender] at hcache
        exact hcache
      unfold ArpInv
      simp only [hsame, Option.toList_none, List.append_nil]
      exact h
    · simp only [hsender] at hcache
      exact h.announce p hcache
  | resolve pool ip =>
    have hcache := (Transmitted.arpResolve cfg { s.net with pool := pool } ip).arpCache
    subst hs
    unfold ArpInv
    simp only [hcache]
    exact h

theorem arpLts_inv {tr : List (ArpEvent α)} (h : (arpLts cfg).Run tr s) : ArpInv s := by
  refine h.rule (P := fun _ s => ArpInv s) ?_ ?_
  · rintro s ⟨hlen, hinvalid, hheard⟩
    refine ⟨hlen, s.net.arpCache, ?_, hinvalid⟩
    rw [hheard]
    rfl
  · intro tr s e s' hs hstep
    exact hs.step hstep

omit [DecidableEq σ] in
variable (cfg) in
/-- What `arp_resolve` returns for an address in the cache. -/
theorem arpResolve_lookup {l : List (BitVec 32 × MacAddr)} {rest : List ArpEntry}
    {net : NetStack α σ} (h : HoldsFirst net.arpCache l rest) {ip : BitVec 32} {mac : MacAddr}
    (hmac : l.lookup ip = some mac) : (arpResolve cfg net ip).2 = (.ok, mac) := by
  unfold arpResolve
  rw [arpFind_entries h, hmac]
  rfl

/-- **When the ARP cache is a map.**  After every sequence of frames and calls of
    `arp_resolve` with no more senders than places, `arp_resolve` returns for each
    sender the address of its last packet and no two valid entries are for the
    same one, exactly if no sender repeats among the packets that fill the cache
    and the last packet of each has the address of its first. -/
theorem arp_cache_map_iff (cfg : NetConfig α) {tr : List (ArpEvent α)} {s : ArpState α σ}
    (h : (arpLts cfg).Run tr s)
    (hsenders : (Lib.Assoc.keys s.heard).toFinset.card ≤ arpCacheSize) :
    ArpMap cfg s ↔ Settled s.heard := by
  obtain ⟨-, rest, hfirst⟩ := arpLts_inv h
  constructor
  · rintro ⟨hresolve, hunique⟩
    have honce := (uniqueEntries_iff hfirst).1 hunique
    refine ⟨honce, fun ip => ?_⟩
    have hlookup := Lib.Assoc.lookup_take honce hsenders ip
    rcases hfound : s.heard.lookup ip with _ | mac
    · exact Lib.Assoc.latest_eq_none.2 (Lib.Assoc.lookup_eq_none.1 hfound)
    rw [hfound] at hlookup
    have hcached := arpResolve_lookup cfg hfirst hlookup
    rcases hlatest : Lib.Assoc.latest s.heard ip with _ | mac'
    · have hnone := Lib.Assoc.lookup_eq_none.2 (Lib.Assoc.latest_eq_none.1 hlatest)
      rw [hfound] at hnone
      exact hnone.symm
    · have heq := (hresolve ip mac' hlatest).symm.trans hcached
      rw [(Prod.mk.inj heq).2]
  · rintro ⟨honce, hsame⟩
    refine ⟨fun ip mac hlatest => ?_, (uniqueEntries_iff hfirst).2 honce⟩
    rw [hsame ip, ← Lib.Assoc.lookup_take honce hsenders ip] at hlatest
    exact arpResolve_lookup cfg hfirst hlatest

/-! ## Executions -/

variable (cfg) in
/-- An event, with a bound on the walk over the lists of sockets. -/
def arpExec (fuel : ℕ) (s : ArpState α σ) : ArpEvent α → Option (ArpState α σ)
  | .frame pool nif zb => (netifInput cfg fuel nif { s.net with pool := pool } zb).map fun net =>
      ⟨net, s.heard ++ (pool.zb zb).arpSender.toList⟩
  | .resolve pool ip => some { s with net := (arpResolve cfg { s.net with pool := pool } ip).1 }

theorem arpExec_step {fuel : ℕ} (s : ArpState α σ) (e : ArpEvent α) (s' : ArpState α σ)
    (h : arpExec cfg fuel s e = some s') : (arpLts cfg).step s e s' := by
  cases e with
  | frame pool nif zb =>
    obtain ⟨net, hinput, rfl⟩ := Option.map_eq_some_iff.1 h
    exact ⟨fuel, net, hinput, rfl⟩
  | resolve pool ip => exact (Option.some.inj h).symm

end

/-- The start. -/
def demoArp : ArpState (Fin 2) (Fin 2) :=
  ⟨{ demoStack with arpCache := List.replicate arpCacheSize ⟨0, fun _ => 0, false⟩ }, []⟩

/-- `10.0.0.n` announces a hardware address in a frame. -/
def demoAnnounce (n mac : BitVec 8) : ArpEvent (Fin 2) :=
  let arp := arpHdr arpOpReply (fun _ => mac) (0x0A000000 + n.setWidth 32) demoNif.mac demoNif.ip
  let frame := List.replicate 12 0 ++ be16Bytes ethTypeArp ++ arp
  .frame { demoStack.pool with zb := fun _ => demoFrame configZbufHeadroom frame } demoNif 0

theorem demoArp_init : (arpLts demoNet).init demoArp := by
  refine ⟨rfl, fun e he => ?_, rfl⟩
  rw [List.eq_of_mem_replicate he]

theorem demoArp_two : (Lib.Lts.exec (arpExec demoNet 1) demoArp
      [demoAnnounce 2 4, demoAnnounce 3 5, .resolve demoStack.pool 0x0A000003]).map ArpState.heard =
    some [(0x0A000002, fun _ => 4), (0x0A000003, fun _ => 5)] := by decide +kernel

theorem demoArp_moved : (Lib.Lts.exec (arpExec demoNet 1) demoArp
      [demoAnnounce 2 4, demoAnnounce 2 5]).map ArpState.heard =
    some [(0x0A000002, fun _ => 4), (0x0A000002, fun _ => 5)] := by decide +kernel

/-- Two senders. -/
theorem arp_cache_map_two : ∃ s : ArpState (Fin 2) (Fin 2), (arpLts demoNet).Run
      [demoAnnounce 2 4, demoAnnounce 3 5, .resolve demoStack.pool 0x0A000003] s ∧
    s.heard = [(0x0A000002, fun _ => 4), (0x0A000003, fun _ => 5)] ∧
    (ArpMap demoNet s ↔ Settled s.heard) := by
  obtain ⟨s, hexec, hheard⟩ := Option.map_eq_some_iff.1 demoArp_two
  have hrun := Lib.Lts.run_of_exec arpExec_step demoArp_init hexec
  refine ⟨s, hrun, hheard, arp_cache_map_iff demoNet hrun ?_⟩
  rw [hheard]
  decide

/-- **A sender whose hardware address changes** keeps its first one. -/
theorem arp_cache_not_map : ∃ s : ArpState (Fin 2) (Fin 2),
    (arpLts demoNet).Run [demoAnnounce 2 4, demoAnnounce 2 5] s ∧
    (Lib.Assoc.keys s.heard).toFinset.card = 1 ∧
    Lib.Assoc.latest s.heard 0x0A000002 = some (fun _ => 5) ∧
    (arpResolve demoNet s.net 0x0A000002).2 = (.ok, fun _ => 4) ∧ ¬ ArpMap demoNet s := by
  obtain ⟨s, hexec, hheard⟩ := Option.map_eq_some_iff.1 demoArp_moved
  have hrun := Lib.Lts.run_of_exec arpExec_step demoArp_init hexec
  obtain ⟨-, rest, hfirst⟩ := arpLts_inv hrun
  have hlatest : Lib.Assoc.latest s.heard 0x0A000002 = some (fun _ => 5) := by
    rw [hheard]
    rfl
  have hresolve : (arpResolve demoNet s.net 0x0A000002).2 = (.ok, fun _ => 4) := by
    refine arpResolve_lookup demoNet hfirst ?_
    rw [hheard]
    rfl
  refine ⟨s, hrun, ?_, hlatest, hresolve, fun hmap => ?_⟩
  · rw [hheard]
    decide
  · have heq := (hmap.resolve _ _ hlatest).symm.trans hresolve
    have hmac := congrFun (Prod.mk.inj heq).2 0
    revert hmac
    decide

end Gracemont
