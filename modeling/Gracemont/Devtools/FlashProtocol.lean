/-
  Gracemont developer tools — the protocol of the flasher
  (`devtools/flasher/src/utils/flash-protocol.js`).

  A method sends commands one after another and waits for the response of each,
  as a dialogue with the device.  Bytes are those of any type `β` where only
  their order matters.

  * `FlashProtocol`, `handleData`, `sendCommand`: the object and its two entry
    points, and what a timer does to it;
  * `getDeviceInfo`, …, `resetDevice`: the methods;
  * `FlashCall.insists`: the commands of a method, which it sends as long as
    the device says that all is well.
-/
import Mathlib.Algebra.GroupWithZero.Nat
import Mathlib.Tactic.SplitIfs
import Gracemont.Lib.Dialogue

namespace Gracemont

open Lib

namespace CMD
def ERASE : BitVec 8 := 0x01
def WRITE : BitVec 8 := 0x02
def VERIFY : BitVec 8 := 0x03
def RESET : BitVec 8 := 0x04
def INFO : BitVec 8 := 0x05
end CMD

namespace RESP
def OK : BitVec 8 := 0x00
end RESP

/-! ## Commands and responses -/

/-- The arguments of `sendCommand`. -/
structure FlashCommand where
  cmd : BitVec 8
  data : List (BitVec 8)
  timeoutMs : ℕ
  deriving DecidableEq, Repr

/-- A response `[CMD, STATUS, ...DATA]`. -/
structure FlashResponse (β : Type) where
  cmd : β
  status : β
  data : List β
  deriving DecidableEq, Repr

/-- The bytes that the response was cut from. -/
def FlashResponse.bytes {β : Type} (r : FlashResponse β) : List β := r.cmd :: r.status :: r.data

/-- The packet of a command, `[CMD, LEN, ...DATA]` as a `Uint8Array`: each
    element modulo 256. -/
def FlashCommand.packet (c : FlashCommand) : List (BitVec 8) :=
  c.cmd :: BitVec.ofNat 8 c.data.length :: c.data

/-! ## The object -/

/-- `FlashProtocol`: the bytes received, the promise that the callback
    resolves, and the timer set last. -/
structure FlashProtocol (β : Type) where
  responseBuffer : List β := []
  responseCallback : Option ℕ := none
  timeout : Option ℕ := none
  deriving DecidableEq, Repr

namespace FlashProtocol
variable {β : Type}

/-- The response in a buffer of two bytes or more. -/
def response : List β → Option (FlashResponse β)
  | cmd :: status :: data => some ⟨cmd, status, data⟩
  | _ => none

/-- `handleData`: the object, and the promise that is resolved, with its
    response. -/
def handleData (p : FlashProtocol β) (data : List β) :
    FlashProtocol β × Option (ℕ × FlashResponse β) :=
  match p.responseCallback, response (p.responseBuffer ++ data) with
  | some promise, some r =>
    ({ p with responseBuffer := [], responseCallback := none }, some (promise, r))
  | _, _ => ({ p with responseBuffer := p.responseBuffer ++ data }, none)

/-- What `sendCommand` does before it writes the packet, for a new promise and
    its timer. -/
def sendCommand (p : FlashProtocol β) (promise : ℕ) : FlashProtocol β :=
  { p with responseCallback := some promise, timeout := some promise }

/-- What the timer of `sendCommand` does before it rejects its promise. -/
def timedOut (p : FlashProtocol β) : FlashProtocol β := { p with responseCallback := none }

variable {b data : List β} {promise : ℕ} {timeout : Option ℕ}

theorem response_eq_some {l : List β} {r : FlashResponse β} :
    response l = some r ↔ r.bytes = l := by
  obtain ⟨cmd, status, data⟩ := r
  match l with
  | [] => simp [response, FlashResponse.bytes]
  | [a] => simp [response, FlashResponse.bytes]
  | a :: a' :: l => simp [response, FlashResponse.bytes, eq_comm]

theorem exists_response {l : List β} (h : 2 ≤ l.length) : ∃ r, response l = some r := by
  match l, h with
  | a :: a' :: l, _ => exact ⟨_, rfl⟩

/-- Below two bytes nothing happens yet. -/
theorem handleData_short (h : (b ++ data).length < 2) :
    handleData ⟨b, some promise, timeout⟩ data = (⟨b ++ data, some promise, timeout⟩, none) := by
  have hnone : response (b ++ data) = none := by
    match hl : b ++ data, h with
    | [], _ => rfl
    | [a], _ => rfl
    | a :: a' :: l, h => exact absurd h (by simp)
  simp only [handleData, hnone]

/-- From two bytes on the whole buffer is the response. -/
theorem handleData_full {r : FlashResponse β} (h : response (b ++ data) = some r) :
    handleData ⟨b, some promise, timeout⟩ data = (⟨[], none, timeout⟩, some (promise, r)) := by
  simp only [handleData, h]

/-- Without a callback the bytes are kept. -/
theorem handleData_idle :
    handleData ⟨b, none, timeout⟩ data = (⟨b ++ data, none, timeout⟩, none) := rfl

end FlashProtocol

/-! ## The methods -/

/-- The calls of the flasher's store, as far as flashing makes them. -/
inductive StoreCall
  | startFlashing
  | addLog (message kind : String)
  | updateProgress (bytes : ℕ)
  | stopFlashing (success : Bool)
  deriving DecidableEq, Repr

/-- An `async` function that talks to the device. -/
abbrev FlashTask (α : Type) : Type :=
  Dialogue FlashCommand (FlashResponse (BitVec 8)) StoreCall String α

/-- The bytes of a number, the highest first: those of its 32-bit integer. -/
def numberBytes (n : ℕ) : List (BitVec 8) :=
  [BitVec.ofNat 8 (n >>> 24), BitVec.ofNat 8 (n >>> 16), BitVec.ofNat 8 (n >>> 8), BitVec.ofNat 8 n]

/-- The 32-bit integer `data[i] << 24 | … | data[i + 3]`, where a missing byte
    counts as zero. -/
def dataWord (data : List (BitVec 8)) (i : ℕ) : BitVec 32 :=
  (data.getD i 0).setWidth 32 <<< 24 ||| (data.getD (i + 1) 0).setWidth 32 <<< 16 |||
    (data.getD (i + 2) 0).setWidth 32 <<< 8 ||| (data.getD (i + 3) 0).setWidth 32

structure DeviceInfo where
  chipId : BitVec 32
  flashSize : BitVec 32
  ramSize : BitVec 32
  deriving DecidableEq, Repr

/-- `getDeviceInfo` -/
def getDeviceInfo : FlashTask DeviceInfo := do
  let response ← Dialogue.await ⟨CMD.INFO, [], 5000⟩
  if response.status ≠ RESP.OK then
    throw "Failed to get device info"
  else
    return ⟨dataWord response.data 0, dataWord response.data 4, dataWord response.data 8⟩

/-- `eraseFlash` -/
def eraseFlash (address size : ℕ) : FlashTask Unit := do
  let response ← Dialogue.await ⟨CMD.ERASE, numberBytes address ++ numberBytes size, 30000⟩
  if response.status ≠ RESP.OK then
    throw "Flash erase failed"
  else
    return ()

/-- The default `maxChunkSize` of `writeBlock`, which no caller changes. -/
def maxChunkSize : ℕ := 256

/-- The command that writes what is left of `data` from `offset` on, at most
    one chunk of it. -/
def writeCommand (data : List (BitVec 8)) (offset address : ℕ) : FlashCommand :=
  ⟨CMD.WRITE, numberBytes address ++ (data.drop offset).take maxChunkSize, 10000⟩

/-- The loop of `writeBlock`, for at most as many turns. -/
def writeBlockLoop (data : List (BitVec 8)) : ℕ → ℕ → ℕ → FlashTask Unit
  | 0, _, _ => return ()
  | turns + 1, offset, address =>
    if offset < data.length then do
      let chunkSize := min maxChunkSize (data.length - offset)
      let response ← Dialogue.await (writeCommand data offset address)
      if response.status ≠ RESP.OK then
        throw ("Write failed at address 0x" ++ String.ofList (Nat.toDigits 16 address))
      else
        writeBlockLoop data turns (offset + chunkSize) (address + chunkSize)
    else return ()

/-- `writeBlock`: each turn writes at least one byte. -/
def writeBlock (address : ℕ) (data : List (BitVec 8)) : FlashTask Unit :=
  writeBlockLoop data data.length 0 address

/-- `verifyBlock` -/
def verifyBlock (address size : ℕ) : FlashTask (BitVec 32) := do
  let response ← Dialogue.await ⟨CMD.VERIFY, numberBytes address ++ numberBytes size, 10000⟩
  if response.status ≠ RESP.OK then
    throw "Verification failed"
  else
    return dataWord response.data 0

/-- `resetDevice` -/
def resetDevice : FlashTask Unit := do
  let response ← Dialogue.await ⟨CMD.RESET, [], 5000⟩
  if response.status ≠ RESP.OK then
    throw "Device reset failed"
  else
    return ()

/-! ## What the methods send -/

/-- A response that reports success. -/
def FlashResponse.IsOk (r : FlashResponse (BitVec 8)) : Prop := r.status = RESP.OK

instance (r : FlashResponse (BitVec 8)) : Decidable r.IsOk :=
  inferInstanceAs (Decidable (r.status = RESP.OK))

/-- The commands of `writeBlockLoop`. -/
def writeCommands (data : List (BitVec 8)) : ℕ → ℕ → ℕ → List FlashCommand
  | 0, _, _ => []
  | turns + 1, offset, address =>
    if offset < data.length then
      writeCommand data offset address ::
        writeCommands data turns (offset + min maxChunkSize (data.length - offset))
          (address + min maxChunkSize (data.length - offset))
    else []

/-- A method whose one command is answered. -/
theorem insists_on {α : Type} {c : FlashCommand} {qs : List FlashCommand} {message : String}
    {next : FlashResponse (BitVec 8) → FlashTask α}
    (h : ∀ r, Dialogue.Insists FlashResponse.IsOk qs (next r)) :
    Dialogue.Insists FlashResponse.IsOk (c :: qs) (do
      let response ← Dialogue.await c
      if response.status ≠ RESP.OK then throw message else next response : FlashTask α) := by
  refine Dialogue.Insists.await (fun r hr => ?_) fun r hr => ⟨message, if_pos hr⟩
  rw [if_neg fun hne => hne hr]
  exact h r

theorem writeBlockLoop_insists (data : List (BitVec 8)) (turns offset address : ℕ) :
    Dialogue.Insists FlashResponse.IsOk (writeCommands data turns offset address)
      (writeBlockLoop data turns offset address) := by
  induction turns generalizing offset address with
  | zero => exact .pure ()
  | succ turns ih =>
    rw [writeCommands, writeBlockLoop]
    split_ifs with hlt
    · exact insists_on fun _ => ih _ _
    · exact .pure ()

/-- The calls of the methods. -/
inductive FlashCall
  | info
  | erase (address size : ℕ)
  | write (address : ℕ) (data : List (BitVec 8))
  | verify (address size : ℕ)
  | reset
  deriving DecidableEq, Repr

/-- What a method returns. -/
inductive FlashResult
  | done
  | info (info : DeviceInfo)
  | crc (crc : BitVec 32)
  deriving DecidableEq, Repr

namespace FlashCall

/-- The method that is called. -/
def task : FlashCall → FlashTask FlashResult
  | info => FlashResult.info <$> getDeviceInfo
  | erase address size => (fun _ => FlashResult.done) <$> eraseFlash address size
  | write address data => (fun _ => FlashResult.done) <$> writeBlock address data
  | verify address size => FlashResult.crc <$> verifyBlock address size
  | reset => (fun _ => FlashResult.done) <$> resetDevice

/-- The commands of a call. -/
def commands : FlashCall → List FlashCommand
  | info => [⟨CMD.INFO, [], 5000⟩]
  | erase address size => [⟨CMD.ERASE, numberBytes address ++ numberBytes size, 30000⟩]
  | write address data => writeCommands data data.length 0 address
  | verify address size => [⟨CMD.VERIFY, numberBytes address ++ numberBytes size, 10000⟩]
  | reset => [⟨CMD.RESET, [], 5000⟩]

end FlashCall

theorem getDeviceInfo_insists : Dialogue.Insists FlashResponse.IsOk FlashCall.info.commands
    getDeviceInfo := insists_on fun _ => .pure _

theorem eraseFlash_insists (address size : ℕ) :
    Dialogue.Insists FlashResponse.IsOk (FlashCall.erase address size).commands
      (eraseFlash address size) := insists_on fun _ => .pure _

theorem writeBlock_insists (address : ℕ) (data : List (BitVec 8)) :
    Dialogue.Insists FlashResponse.IsOk (FlashCall.write address data).commands
      (writeBlock address data) := writeBlockLoop_insists data _ _ _

theorem verifyBlock_insists (address size : ℕ) :
    Dialogue.Insists FlashResponse.IsOk (FlashCall.verify address size).commands
      (verifyBlock address size) := insists_on fun _ => .pure _

theorem resetDevice_insists : Dialogue.Insists FlashResponse.IsOk FlashCall.reset.commands
    resetDevice := insists_on fun _ => .pure _

/-- Each method sends its commands in order, and throws at the first response
    that does not report success. -/
theorem FlashCall.insists (call : FlashCall) :
    Dialogue.Insists FlashResponse.IsOk call.commands call.task := by
  cases call with
  | info => exact getDeviceInfo_insists.map _
  | erase address size => exact (eraseFlash_insists address size).map _
  | write address data => exact (writeBlock_insists address data).map _
  | verify address size => exact (verifyBlock_insists address size).map _
  | reset => exact resetDevice_insists.map _

/-! ## Calls one after another -/

/-- Anything that answers commands, from a state of its own. -/
abbrev FlashDevice (σ : Type) : Type :=
  σ → FlashCommand → σ × Except String (FlashResponse (BitVec 8))

/-- A device that reports success of everything, without data. -/
def okDevice : FlashDevice Unit := fun _ c => ((), .ok ⟨c.cmd, RESP.OK, []⟩)

section
variable {σ : Type} (device : FlashDevice σ)

/-- The methods called one after another, whatever they return. -/
def runCalls : σ → List FlashCall → σ × List (Except String FlashResult)
  | s, [] => (s, [])
  | s, call :: calls =>
    let r := Dialogue.run device s call.task
    ((runCalls r.1 calls).1, r.2.2 :: (runCalls r.1 calls).2)

/-- The commands sent meanwhile, each with the state of the device. -/
def sentCommands : σ → List FlashCall → List (σ × FlashCommand)
  | _, [] => []
  | s, call :: calls =>
    Dialogue.asked device s call.task ++ sentCommands (Dialogue.run device s call.task).1 calls

variable {device} {calls : List FlashCall}

/-- What is sent is among the commands of the calls. -/
theorem sentCommands_mem {s : σ} {v : σ × FlashCommand} (h : v ∈ sentCommands device s calls) :
    ∃ call ∈ calls, v.2 ∈ call.commands := by
  induction calls generalizing s with
  | nil => cases h
  | cons call calls ih =>
    rcases List.mem_append.1 h with h | h
    · have hmem := List.mem_map_of_mem (f := Prod.snd) h
      exact ⟨call, List.mem_cons_self, (call.insists.asked_prefix s).subset hmem⟩
    · obtain ⟨call', hcall, hmem⟩ := ih h
      exact ⟨call', List.mem_cons_of_mem _ hcall, hmem⟩

/-- Devices that answer each command of a run alike lead to the same results. -/
theorem runCalls_congr {τ : Type} {device' : FlashDevice τ} {R : σ → τ → Prop} {s : σ} {t : τ}
    (h0 : R s t) (hstep : ∀ v ∈ sentCommands device s calls, ∀ t, R v.1 t →
      R (device v.1 v.2).1 (device' t v.2).1 ∧ (device v.1 v.2).2 = (device' t v.2).2) :
    R (runCalls device s calls).1 (runCalls device' t calls).1 ∧
      (runCalls device s calls).2 = (runCalls device' t calls).2 := by
  induction calls generalizing s t with
  | nil => exact ⟨h0, rfl⟩
  | cons call calls ih =>
    obtain ⟨hR, hres⟩ := Dialogue.run_congr call.task h0
      fun v hv => hstep v (List.mem_append_left _ hv)
    obtain ⟨hR', hres'⟩ := ih hR fun v hv => hstep v (List.mem_append_right _ hv)
    refine ⟨hR', ?_⟩
    rw [runCalls, runCalls, hres, hres']

variable (device) in
/-- The first command of every call is sent. -/
theorem sentCommands_head (s : σ) {call : FlashCall} (hcall : call ∈ calls) {c : FlashCommand}
    {cs : List FlashCommand} (hc : call.commands = c :: cs) :
    ∃ s', (s', c) ∈ sentCommands device s calls := by
  induction calls generalizing s with
  | nil => cases hcall
  | cons call' calls ih =>
    rcases List.mem_cons.1 hcall with rfl | hcall
    · have hins := call.insists
      rw [hc] at hins
      exact ⟨s, List.mem_append_left _ (hins.asked_head s)⟩
    · obtain ⟨s', hs'⟩ := ih (Dialogue.run device s call'.task).1 hcall
      exact ⟨s', List.mem_append_right _ hs'⟩

end

end Gracemont
