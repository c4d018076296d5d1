/-
  Gracemont developer tools — the packets of the flasher on the wire
  (`devtools/flasher/src/utils/flash-protocol.js`, `sendCommand`).

  A packet starts with the command and the number of payload bytes, which the
  conversion to a `Uint8Array` takes modulo 256.

  * `receivePackets`: a receiver that goes by these numbers;
  * `framed_iff`: it stays in step exactly if every payload is below 256 bytes;
  * `flashCommands_framed_iff`: and so with the commands of the methods exactly
    if no `writeBlock` has more than 251 bytes of data, whose first chunk comes
    after the four bytes of its address.
-/
import Gracemont.Devtools.FlashProtocol

namespace Gracemont

open Lib

/-! ## The receiver -/

/-- A receiver that reads a command, a number and that many bytes, and so on up
    to the end of the stream, for at most as many packets. -/
def receivePackets : ℕ → List (BitVec 8) → Option (List (BitVec 8 × List (BitVec 8)))
  | _, [] => some []
  | packets + 1, cmd :: len :: rest =>
    if rest.length < len.toNat then none
    else (receivePackets packets (rest.drop len.toNat)).map ((cmd, rest.take len.toNat) :: ·)
  | _, _ => none

/-- The commands sent are framed: the number in each packet is the number of
    payload bytes after it, and a receiver of the stream recovers the payload
    of every command. -/
structure Framed (cs : List FlashCommand) : Prop where
  len : ∀ c ∈ cs, ∃ len : BitVec 8, c.packet = c.cmd :: len :: c.data ∧
    len.toNat = c.data.length
  received : ∀ packets ≥ cs.length, receivePackets packets (cs.flatMap FlashCommand.packet) =
    some (cs.map fun c => (c.cmd, c.data))

/-- One packet off the stream. -/
theorem receivePackets_packet {c : FlashCommand} (hc : c.data.length < 256) (packets : ℕ)
    (rest : List (BitVec 8)) :
    receivePackets (packets + 1) (c.packet ++ rest) =
      (receivePackets packets rest).map ((c.cmd, c.data) :: ·) := by
  have hlen : (BitVec.ofNat 8 c.data.length).toNat = c.data.length := by
    rw [BitVec.toNat_ofNat]
    exact Nat.mod_eq_of_lt hc
  rw [FlashCommand.packet, List.cons_append, List.cons_append, receivePackets, hlen,
    if_neg (by rw [List.length_append]; omega), List.drop_left, List.take_left]

theorem framed_iff (cs : List FlashCommand) :
    Framed cs ↔ ∀ c ∈ cs, c.data.length < 256 := by
  constructor
  · intro h c hc
    obtain ⟨len, -, hlen⟩ := h.len c hc
    exact hlen ▸ len.isLt
  · intro h
    refine ⟨fun c hc => ⟨_, rfl, ?_⟩, ?_⟩
    · rw [BitVec.toNat_ofNat]
      exact Nat.mod_eq_of_lt (h c hc)
    · induction cs with
      | nil =>
        intro packets _
        rw [List.flatMap_nil, receivePackets]
        rfl
      | cons c cs ih =>
        intro packets hpackets
        obtain ⟨n, rfl⟩ : ∃ n, packets = n + 1 := ⟨packets - 1, by simp at hpackets; omega⟩
        rw [List.flatMap_cons, receivePackets_packet (h c List.mem_cons_self),
          ih (fun c hc => h c (List.mem_cons_of_mem _ hc)) n (by simpa using hpackets)]
        rfl

/-! ## The commands of the methods -/

theorem writeCommand_length (data : List (BitVec 8)) (offset address : ℕ) :
    (writeCommand data offset address).data.length =
      4 + min maxChunkSize (data.length - offset) := by
  rw [writeCommand, List.length_append, List.length_take, List.length_drop]
  rfl

/-- No chunk is longer than the first one. -/
theorem writeCommands_length {data : List (BitVec 8)} {turns offset address : ℕ} {c : FlashCommand}
    (hc : c ∈ writeCommands data turns offset address) :
    c.data.length ≤ 4 + min maxChunkSize data.length := by
  induction turns generalizing offset address with
  | zero => cases hc
  | succ turns ih =>
    rw [writeCommands] at hc
    split_ifs at hc with hlt
    · rcases List.mem_cons.1 hc with rfl | hc
      · rw [writeCommand_length]
        omega
      · exact ih hc
    · cases hc

/-- The payloads of a call are below 256 bytes, unless it writes more than 251
    bytes. -/
theorem FlashCall.commands_length {call : FlashCall}
    (h : ∀ address data, call = .write address data → data.length ≤ 251) {c : FlashCommand}
    (hc : c ∈ call.commands) : c.data.length < 256 := by
  cases call with
  | write address data =>
    have hle := writeCommands_length hc
    have hdata := h address data rfl
    omega
  | info | erase | verify | reset =>
    rw [List.mem_singleton.1 hc]
    simp [numberBytes]

/-- The first packet of a `writeBlock` has all of the data, or a full chunk. -/
theorem FlashCall.write_commands (address : ℕ) (data : List (BitVec 8)) (h : 0 < data.length) :
    ∃ cs, (FlashCall.write address data).commands = writeCommand data 0 address :: cs := by
  cases data with
  | nil => exact absurd h (Nat.lt_irrefl 0)
  | cons b data =>
    rw [FlashCall.commands, List.length_cons, writeCommands, if_pos h]
    exact ⟨_, rfl⟩

/-- **Packets.**  Whatever the device answers, the commands that the methods
    send are framed exactly if every `writeBlock` has at most 251 bytes of
    data. -/
theorem flashCommands_framed_iff {σ : Type} (device : FlashDevice σ) (s : σ)
    (calls : List FlashCall) :
    Framed ((sentCommands device s calls).map Prod.snd) ↔
      ∀ address data, FlashCall.write address data ∈ calls → data.length ≤ 251 := by
  rw [framed_iff]
  constructor
  · intro h address data hcall
    refine Nat.le_of_not_lt fun hlong => ?_
    obtain ⟨cs, hcs⟩ := FlashCall.write_commands address data (by omega)
    obtain ⟨s', hs'⟩ := sentCommands_head device s hcall hcs
    have hlt := h _ (List.mem_map_of_mem hs')
    rw [writeCommand_length, maxChunkSize] at hlt
    omega
  · intro h c hc
    obtain ⟨v, hv, rfl⟩ := List.mem_map.1 hc
    obtain ⟨call, hcall, hmem⟩ := sentCommands_mem hv
    exact FlashCall.commands_length (fun address data he => h address data (he ▸ hcall)) hmem

/-- One full chunk of zeros: the payload of 260 bytes is announced as 4. -/
theorem flashCommands_full_chunk :
    ¬Framed
      ((sentCommands okDevice () [.write 0x40000000 (List.replicate 256 0)]).map Prod.snd) := by
  rw [framed_iff]
  decide +kernel

end Gracemont
