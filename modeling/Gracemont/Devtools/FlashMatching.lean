/-
  Gracemont developer tools — which command a response is delivered to
  (`devtools/flasher/src/utils/flash-protocol.js`).

  The receive buffer and the callback are those of all commands.  Commands are
  sent, timers fire, chunks arrive and writes fail in any order; each byte that
  arrives is marked with the command that the device answers with it.

  * `flashStep`, `flashLts`: the object and the promises of its commands;
  * `Matched`: what is resolved is resolved with the bytes of its own response;
  * `matched_of_timely`: so it is where no byte arrives for a command that is
    not the pending one, and none is left when a command is sent.
-/
import Gracemont.Devtools.FlashProtocol
import Gracemont.Lib.Trace

namespace Gracemont

open Lib

/-! ## The events -/

/-- A byte that arrives, and the command that it answers. -/
abbrev AnswerByte : Type := BitVec 8 × ℕ

/-- A promise of `sendCommand`. -/
inductive FlashPromise
  | pending
  | resolved (response : FlashResponse AnswerByte)
  | rejected (message : String)
  deriving DecidableEq, Repr

/-- Only a pending promise is settled. -/
def FlashPromise.settle (old new : FlashPromise) : FlashPromise :=
  match old with
  | pending => new
  | resolved r => resolved r
  | rejected message => rejected message

/-- The object, with the commands sent so far, whose places are the names of
    their promises and timers. -/
structure FlashLink where
  protocol : FlashProtocol AnswerByte := {}
  commands : List FlashCommand := []
  timers : List ℕ := []
  promises : ℕ → FlashPromise := fun _ => .pending

/-- Settle the promise of a command. -/
def FlashLink.settle (s : FlashLink) (promise : ℕ) (p : FlashPromise) : FlashLink :=
  { s with promises := fun i => if i = promise then (s.promises i).settle p else s.promises i }

inductive FlashEvent
  /-- `sendCommand` -/
  | send (c : FlashCommand)
  /-- `handleData`, of bytes that answer commands sent before -/
  | data (chunk : List AnswerByte)
  /-- a timer fires -/
  | timeout (command : ℕ)
  /-- `writePort` is rejected -/
  | writeFails (command : ℕ) (message : String)
  deriving DecidableEq, Repr

/-- What an event does. -/
def flashStep (s : FlashLink) : FlashEvent → Option FlashLink
  | .send c =>
    some { s with
      protocol := s.protocol.sendCommand s.commands.length
      commands := s.commands ++ [c]
      timers := s.timers ++ [s.commands.length] }
  | .data chunk =>
    if ∀ b ∈ chunk, b.2 < s.commands.length then
      match s.protocol.handleData chunk with
      | (p, none) => some { s with protocol := p }
      | (p, some (promise, r)) =>
        -- the timer that was set last is cleared
        some ({ s with protocol := p, timers := s.timers.filter fun i => some i ≠ p.timeout }.settle
          promise (.resolved r))
    else none
  | .timeout command =>
    if command ∈ s.timers then
      some ({ s with protocol := s.protocol.timedOut, timers := s.timers.erase command }.settle
        command (.rejected "Command timeout"))
    else none
  | .writeFails command message =>
    if command < s.commands.length then some (s.settle command (.rejected message)) else none

/-- The events of one object, from its construction on. -/
def flashLts : Lts FlashLink FlashEvent := .ofFun (· = {}) flashStep

/-! ## Matching -/

/-- Each promise is resolved only with bytes that answer its command. -/
def Matched (s : FlashLink) : Prop :=
  ∀ i r, s.promises i = .resolved r → ∀ b ∈ r.bytes, b.2 = i

/-- A command is sent only with nothing left in the buffer, and while a command
    is pending only bytes that answer it arrive. -/
def Timely (s : FlashLink) : FlashEvent → Prop
  | .send _ => s.protocol.responseBuffer = []
  | .data chunk => ∀ i, s.protocol.responseCallback = some i → ∀ b ∈ chunk, b.2 = i
  | .timeout _ => True
  | .writeFails _ _ => True

/-- The bytes in the buffer answer the pending command. -/
structure MatchInv (s : FlashLink) : Prop where
  matched : Matched s
  buffer : ∀ i, s.protocol.responseCallback = some i → ∀ b ∈ s.protocol.responseBuffer, b.2 = i

theorem Matched.settle {s : FlashLink} (h : Matched s) {promise : ℕ} {p : FlashPromise}
    (hp : ∀ r, p = .resolved r → ∀ b ∈ r.bytes, b.2 = promise) : Matched (s.settle promise p) := by
  intro i r hi
  rw [FlashLink.settle] at hi
  dsimp only at hi
  split at hi
  · rename_i heq
    subst heq
    cases hs : s.promises i with
    | pending =>
      rw [hs, FlashPromise.settle] at hi
      exact hp r hi
    | resolved r' =>
      rw [hs, FlashPromise.settle] at hi
      exact h i r (hs.trans hi)
    | rejected message =>
      rw [hs, FlashPromise.settle] at hi
      cases hi
  · exact h i r hi

/-- What `handleData` does: it keeps the bytes, or resolves the pending promise
    with all of them. -/
theorem handleData_cases {β : Type} (p : FlashProtocol β) (data : List β) :
    p.handleData data = ({ p with responseBuffer := p.responseBuffer ++ data }, none) ∨
    ∃ promise r, p.responseCallback = some promise ∧ r.bytes = p.responseBuffer ++ data ∧
      p.handleData data =
        ({ p with responseBuffer := [], responseCallback := none }, some (promise, r)) := by
  cases hcb : p.responseCallback with
  | none => exact .inl (by rw [FlashProtocol.handleData, hcb])
  | some promise =>
    cases hr : FlashProtocol.response (p.responseBuffer ++ data) with
    | none => exact .inl (by rw [FlashProtocol.handleData, hcb, hr])
    | some r =>
      refine .inr ⟨promise, r, rfl, FlashProtocol.response_eq_some.1 hr, ?_⟩
      rw [FlashProtocol.handleData, hcb, hr]

theorem flashStep_inv {s s' : FlashLink} {e : FlashEvent} (h : MatchInv s) (hok : Timely s e)
    (hs : flashStep s e = some s') : MatchInv s' := by
  cases e with
  | send c =>
    cases hs
    refine ⟨h.matched, fun i _ b hb => ?_⟩
    have hempty : s.protocol.responseBuffer = [] := hok
    rw [FlashProtocol.sendCommand] at hb
    rw [hempty] at hb
    cases hb
  | data chunk =>
    rw [flashStep] at hs
    split at hs
    · rcases handleData_cases s.protocol chunk with hd | ⟨promise, r, hcb, hbytes, hd⟩
      · rw [hd] at hs
        cases hs
        refine ⟨h.matched, fun i hi b hb => ?_⟩
        rcases List.mem_append.1 hb with hb | hb
        · exact h.buffer i hi b hb
        · exact hok i hi b hb
      · rw [hd] at hs
        cases hs
        refine ⟨Matched.settle h.matched fun r' hr' b hb => ?_, fun i hi => (nomatch hi)⟩
        cases hr'
        rw [hbytes] at hb
        rcases List.mem_append.1 hb with hb | hb
        · exact h.buffer promise hcb b hb
        · exact hok promise hcb b hb
    · cases hs
  | timeout command =>
    rw [flashStep] at hs
    split at hs
    · cases hs
      exact ⟨Matched.settle h.matched fun r hr => (nomatch hr), fun i hi => (nomatch hi)⟩
    · cases hs
  | writeFails command message =>
    rw [flashStep] at hs
    split at hs
    · cases hs
      exact ⟨Matched.settle h.matched fun r hr => (nomatch hr), h.buffer⟩
    · cases hs

/-- **Matching.**  In every run in which a command is sent only with an empty
    buffer, and no byte arrives for a command while another one is pending,
    each promise is resolved only with its own response. -/
theorem matched_of_timely {tr : List FlashEvent} {s : FlashLink}
    (h : (flashLts.restrict Timely).Run tr s) : Matched s := by
  have hinv : MatchInv s := by
    refine h.rule (P := fun _ s => MatchInv s) ?_ ?_
    · rintro s rfl
      exact ⟨fun i r hi => (nomatch hi), fun i hi => (nomatch hi)⟩
    · intro tr s e s' hinv hs
      exact flashStep_inv hinv hs.1 hs.2
  exact hinv.matched

/-! ## Runs -/

def timelyRun : List FlashEvent := [.send ⟨CMD.RESET, [], 5000⟩, .data [(0x04, 0), (0x00, 0)]]

/-- A command and its response. -/
theorem matched_of_timely_reset : ∃ s, (flashLts.restrict Timely).Run timelyRun s ∧
    s.promises 0 = .resolved ⟨(0x04, 0), (0x00, 0), []⟩ ∧ Matched s := by
  have hrun : (flashLts.restrict Timely).Run timelyRun
      ((Lts.exec flashStep {} timelyRun).get rfl) := by
    refine Lts.run_exec_restrict rfl (Option.some_get _).symm fun i hi => ?_
    match i, hi with
    | 0, _ => exact (rfl : ({} : FlashLink).protocol.responseBuffer = [])
    | 1, _ =>
      intro i hcb
      cases hcb
      decide
  exact ⟨_, hrun, rfl, matched_of_timely hrun⟩

/-- `RESET` times out, and its response comes when `INFO` is pending. -/
def lateRun : List FlashEvent := [.send ⟨CMD.RESET, [], 5000⟩, .timeout 0,
  .send ⟨CMD.INFO, [], 5000⟩, .data [(0x04, 0), (0x00, 0)]]

/-- The response of a command that timed out resolves the next one. -/
theorem late_response : ∃ s, flashLts.Run lateRun s ∧
    s.promises 1 = .resolved ⟨(0x04, 0), (0x00, 0), []⟩ ∧ ¬Matched s := by
  have h0 : flashLts.init {} := rfl
  have hrun : flashLts.Run lateRun ((Lts.exec flashStep {} lateRun).get rfl) :=
    Lts.run_exec_get h0 _
  refine ⟨_, hrun, rfl, fun h => ?_⟩
  have htag := h 1 ⟨(0x04, 0), (0x00, 0), []⟩ rfl (0x04, 0) List.mem_cons_self
  exact absurd htag (by decide)

end Gracemont
