/-
  Gracemont drivers — the PL011 UART (`drivers/uart/uart.c`, ARM64 port).

  Bytes go to the device through a ring that `uart_write` fills and the
  interrupt handler drains, and come from it through one that the handler fills
  and `uart_read` drains.  Two semaphores count the free slots of the one and
  the bytes of the other.  The registers are inputs: the masked interrupt
  status, the data words that the receive FIFO delivers, and how often the
  transmit FIFO is found not full.

  * `uartIrqHandler`, `uartWriteLocked`, `uartReadLocked`: the handler, and what
    the calls do under the lock;
  * `uartLts`: any number of tasks in these calls, with the handler in between,
    and a log of the bytes;
  * `uart_rings`: what goes into a ring comes out of it in order, and the
    semaphores count what the rings hold.
-/
import Mathlib.Tactic.SplitIfs
import Gracemont.Kernel.Sync
import Gracemont.Lib.Roster
import Gracemont.Lib.SlotRing
import Gracemont.Lib.Trace

namespace Gracemont

open Lib

/-! ## The device -/

/-- `CONFIG_UART_COUNT` -/
def uartCount : ℕ := 1

/-- `UART_BUFFER_SIZE` -/
def uartBufferSize : ℕ := 256

/-- `INT_RX | INT_RT` -/
def intRx : BitVec 32 := 0x50

/-- `INT_TX` -/
def intTx : BitVec 32 := 0x20

/-- `INT_OE | INT_BE | INT_PE | INT_FE` -/
def intErrors : BitVec 32 := 0x780

/-- `uart_dev_t`, with the register `UART_IMSC`. -/
structure UartDev (α : Type) where
  rx : SlotRing (BitVec 8)
  tx : SlotRing (BitVec 8)
  txActive : Bool
  rxSem : Semaphore α
  txSem : Semaphore α
  rxCount : BitVec 32
  txCount : BitVec 32
  rxErrors : BitVec 32
  initialized : Bool
  imsc : BitVec 32

section
variable {α : Type}

/-- `uart_init`; the buffers are left as they are. -/
def uartInit (port : BitVec 32) (dev : UartDev α) : Status × UartDev α :=
  if uartCount ≤ port.toNat then (.invalid, dev)
  else
    (.ok, { rx := { dev.rx with head := 0, tail := 0 }, tx := { dev.tx with head := 0, tail := 0 },
            txActive := false, rxSem := semInit 0, txSem := semInit uartBufferSize, rxCount := 0,
            txCount := 0, rxErrors := 0, initialized := true, imsc := intRx ||| intErrors })

variable [DecidableEq α]

/-- The loop that fills the transmit FIFO, which is found not full `room` times:
    also the bytes written to the data register. -/
def uartDrain (m : Tcbs α) (dev : UartDev α) : ℕ → Tcbs α × UartDev α × List (BitVec 8)
  | 0 => (m, dev, [])
  | room + 1 =>
    match dev.tx.get uartBufferSize with
    | none => (m, dev, [])
    | some (data, tx) =>
      let (m, txSem, _) := semPost m dev.txSem
      let dev := { dev with tx := tx, txCount := dev.txCount + 1, txSem := txSem }
      let (m, dev, out) := uartDrain m dev room
      (m, dev, data :: out)

/-- The loop that empties the receive FIFO: also the bytes it stored, for each
    of which the callback runs. -/
def uartReceive (m : Tcbs α) (dev : UartDev α) :
    List (BitVec 32) → Tcbs α × UartDev α × List (BitVec 8)
  | [] => (m, dev, [])
  | data :: words =>
    if data &&& 0xF00 ≠ 0 then uartReceive m { dev with rxErrors := dev.rxErrors + 1 } words
    else
      match dev.rx.put uartBufferSize (data.setWidth 8) with
      | none => uartReceive m dev words
      | some rx =>
        let dev := { dev with rx := rx, rxCount := dev.rxCount + 1 }
        let (m, rxSem, _) := semPost m dev.rxSem
        let (m, dev, out) := uartReceive m { dev with rxSem := rxSem } words
        (m, dev, data.setWidth 8 :: out)

/-- `uart_irq_handler`: also the bytes stored, and those written to the data
    register. -/
def uartIrqHandler (m : Tcbs α) (dev : UartDev α) (mis : BitVec 32) (words : List (BitVec 32))
    (room : ℕ) : Tcbs α × UartDev α × List (BitVec 8) × List (BitVec 8) :=
  let (m, dev, stored) := if mis &&& intRx ≠ 0 then uartReceive m dev words else (m, dev, [])
  let (m, dev, out) :=
    if mis &&& intTx ≠ 0 then
      let (m, dev, out) := uartDrain m dev room
      let dev :=
        if dev.tx.tail = dev.tx.head then
          { dev with imsc := dev.imsc &&& ~~~intTx, txActive := false }
        else dev
      (m, dev, out)
    else (m, dev, [])
  let dev := if mis &&& intErrors ≠ 0 then { dev with rxErrors := dev.rxErrors + 1 } else dev
  (m, dev, stored, out)

/-- What the loop of `uart_write` does under the lock: also the byte it
    appended, if any, and those written to the data register. -/
def uartWriteLocked (m : Tcbs α) (dev : UartDev α) (data : BitVec 8) (room : ℕ) :
    Tcbs α × UartDev α × List (BitVec 8) × List (BitVec 8) :=
  let (dev, appended) :=
    match dev.tx.put uartBufferSize data with
    | some tx => ({ dev with tx := tx }, [data])
    | none => (dev, [])
  if dev.txActive then (m, dev, appended, [])
  else
    let (m, dev, out) := uartDrain m { dev with txActive := true } room
    (m, { dev with imsc := dev.imsc ||| intTx }, appended, out)

end

/-- What the loop of `uart_read` does under the lock: also the byte it takes. -/
def uartReadLocked {α : Type} (dev : UartDev α) : UartDev α × List (BitVec 8) :=
  match dev.rx.get uartBufferSize with
  | some (data, rx) => ({ dev with rx := rx }, [data])
  | none => (dev, [])

/-! ## The calls -/

/-- Where the loop is: before `sem_wait`, in its `task_yield`, or after it. -/
inductive UartPlace where
  | wait | yield | token
  deriving DecidableEq, Repr

/-- `uart_write`, with `sent`, and `uart_read`, with the bytes received so
    far. -/
inductive UartCall where
  | write (data : List (BitVec 8)) (sent : ℕ) (place : UartPlace)
  | read (len : ℕ) (received : List (BitVec 8)) (place : UartPlace)
  deriving DecidableEq, Repr

/-- The head of the loop of `uart_write`: the value returned, or the next
    round. -/
def uartWriteLoop (data : List (BitVec 8)) (sent : ℕ) : BitVec 32 ⊕ UartCall :=
  if sent < data.length then .inr (.write data sent .wait) else .inl (BitVec.ofNat 32 sent)

/-- The head of the loop of `uart_read`. -/
def uartReadLoop (len : ℕ) (received : List (BitVec 8)) : BitVec 32 ⊕ UartCall :=
  if received.length < len then .inr (.read len received .wait)
  else .inl (BitVec.ofNat 32 received.length)

section
variable {α : Type}

/-- `uart_write`, up to its loop; `data` is `none` for a null pointer. -/
def uartWrite (dev : UartDev α) (port : BitVec 32) (data : Option (List (BitVec 8))) :
    BitVec 32 ⊕ UartCall :=
  match data with
  | none => .inl (-1)
  | some data =>
    if uartCount ≤ port.toNat then .inl (-1)
    else if ¬dev.initialized then .inl (-1)
    else uartWriteLoop data 0

/-- `uart_read`, up to its loop; `buf` tells whether `data` is not null. -/
def uartRead (dev : UartDev α) (port : BitVec 32) (buf : Bool) (len : ℕ) : BitVec 32 ⊕ UartCall :=
  if uartCount ≤ port.toNat ∨ ¬buf then .inl (-1)
  else if ¬dev.initialized then .inl (-1)
  else uartReadLoop len []

/-! ## The system -/

/-- The bytes written to the data register, appended by `uart_write`, stored by
    the handler, and returned by `uart_read`. -/
structure UartLog where
  sent : List (BitVec 8)
  appended : List (BitVec 8)
  stored : List (BitVec 8)
  returned : List (BitVec 8)
  deriving DecidableEq

/-- The driver in use; `call t`: the call that the task `t` is in. -/
structure UartUse (α : Type) where
  tcb : Tcbs α
  dev : UartDev α
  call : α → Option UartCall
  log : UartLog

/-- A task calls `uart_write` or `uart_read`, runs `sem_wait`, returns from its
    `task_yield`, or runs the locked part of its loop; an interrupt; or
    something else that the kernel does to the tasks. -/
inductive UartEvent (α : Type) where
  | write (t : α) (port : BitVec 32) (data : Option (List (BitVec 8)))
  | read (t : α) (port : BitVec 32) (buf : Bool) (len : ℕ)
  | wait (t : α)
  | resume (t : α)
  | locked (t : α) (room : ℕ)
  | irq (mis : BitVec 32) (words : List (BitVec 32)) (room : ℕ)
  | sched (m : Tcbs α)

/-- Where `sem_wait` leaves the loop, which ignores its status. -/
def UartPlace.after : Option Status → UartPlace
  | none => .yield
  | some _ => .token

variable [DecidableEq α]

/-- A turn of `sem_wait` in the call of a task: `turn` is `semWait` or
    `semResume`. -/
def uartWaitTurn (turn : WaitObj → Tcbs α → Semaphore α → α → Tcbs α × Semaphore α × Option Status)
    (rxObj txObj : WaitObj) (s : UartUse α) (t : α) (place : UartPlace) : Option (UartUse α) :=
  match s.call t with
  | some (.write data sent p) =>
    if p = place then
      let (m, txSem, r) := turn txObj s.tcb s.dev.txSem t
      some ⟨m, { s.dev with txSem := txSem },
        Function.update s.call t (some (.write data sent (.after r))), s.log⟩
    else none
  | some (.read len received p) =>
    if p = place then
      let (m, rxSem, r) := turn rxObj s.tcb s.dev.rxSem t
      some ⟨m, { s.dev with rxSem := rxSem },
        Function.update s.call t (some (.read len received (.after r))), s.log⟩
    else none
  | none => none

/-- The locked part of the loop of a task, up to its next `sem_wait` or its
    return. -/
def uartLockedTurn (s : UartUse α) (t : α) (room : ℕ) : Option (UartUse α) :=
  match s.call t with
  | some (.write data sent .token) =>
    let (m, dev, appended, out) := uartWriteLocked s.tcb s.dev (data.getD sent 0) room
    some ⟨m, dev,
      Function.update s.call t (uartWriteLoop data (sent + appended.length)).getRight?,
      { s.log with appended := s.log.appended ++ appended, sent := s.log.sent ++ out }⟩
  | some (.read len received .token) =>
    let (dev, taken) := uartReadLocked s.dev
    some ⟨s.tcb, dev, Function.update s.call t (uartReadLoop len (received ++ taken)).getRight?,
      { s.log with returned := s.log.returned ++ taken }⟩
  | _ => none

/-- One event. -/
def uartNext (rxObj txObj : WaitObj) (s : UartUse α) : UartEvent α → Option (UartUse α)
  | .write t port data =>
    if s.call t = none then
      some { s with call := Function.update s.call t (uartWrite s.dev port data).getRight? }
    else none
  | .read t port buf len =>
    if s.call t = none then
      some { s with call := Function.update s.call t (uartRead s.dev port buf len).getRight? }
    else none
  | .wait t => uartWaitTurn semWait rxObj txObj s t .wait
  | .resume t => uartWaitTurn semResume rxObj txObj s t .yield
  | .locked t room => uartLockedTurn s t room
  | .irq mis words room =>
    let (m, dev, stored, out) := uartIrqHandler s.tcb s.dev mis words room
    some ⟨m, dev, s.call,
      { s.log with stored := s.log.stored ++ stored, sent := s.log.sent ++ out }⟩
  | .sched m => some { s with tcb := m }

/-- The kernel stores no wait result but `STATUS_OK`. -/
def UartAllowed (s : UartUse α) : UartEvent α → Prop
  | .sched m => ∀ t, (m t).waitResult = (s.tcb t).waitResult ∨ (m t).waitResult = .ok
  | _ => True

/-- The driver, from `uart_init` on. -/
def uartLts (rxObj txObj : WaitObj) : Lts (UartUse α) (UartEvent α) :=
  ⟨fun s => (∃ dev, s.dev = (uartInit 0 dev).2) ∧ (∀ t, s.call t = none) ∧
      (∀ t, (s.tcb t).waitResult = .ok) ∧ s.log = ⟨[], [], [], []⟩,
    fun s e s' => UartAllowed s e ∧ uartNext rxObj txObj s e = some s'⟩

end

/-! ## The rings and their semaphores -/

/-- The ring and the semaphore of transmission, while `held` writers have a
    token: a ring that was found full has cost one token. -/
structure TxWf {α : Type} (dev : UartDev α) (sent appended : List (BitVec 8)) (held : ℕ)
    (unsent : List (BitVec 8)) : Prop where
  ring : dev.tx.Holds uartBufferSize unsent
  bytes : sent ++ unsent = appended
  nonneg : 0 ≤ dev.txSem.count
  low : 255 ≤ dev.txSem.count + held + unsent.length
  high : dev.txSem.count + held + unsent.length ≤ 256

/-- The ring and the semaphore of reception, while `held` readers have a
    token. -/
structure RxWf {α : Type} (dev : UartDev α) (stored returned : List (BitVec 8)) (held : ℕ)
    (unread : List (BitVec 8)) : Prop where
  ring : dev.rx.Holds uartBufferSize unread
  bytes : returned ++ unread = stored
  nonneg : 0 ≤ dev.rxSem.count
  tokens : dev.rxSem.count + held = unread.length

/-- The driver with its log, while `r` readers and `w` writers have a token. -/
structure UartWf {α : Type} (dev : UartDev α) (log : UartLog) (r w : ℕ) : Prop where
  tx : ∃ unsent, TxWf dev log.sent log.appended w unsent
  rx : ∃ unread, RxWf dev log.stored log.returned r unread

/-- All waits succeed. -/
def AllOk {α : Type} (m : Tcbs α) : Prop := ∀ t, (m t).waitResult = .ok

section
variable {α : Type} {m m' : Tcbs α} {dev dev' : UartDev α} {held : ℕ}
  {sent appended stored returned unsent unread : List (BitVec 8)}

theorem TxWf.congr (h : TxWf dev sent appended held unsent) (ht : dev'.tx = dev.tx)
    (hs : dev'.txSem.count = dev.txSem.count) : TxWf dev' sent appended held unsent :=
  ⟨ht ▸ h.ring, h.bytes, hs ▸ h.nonneg, hs ▸ h.low, hs ▸ h.high⟩

theorem RxWf.congr (h : RxWf dev stored returned held unread) (hr : dev'.rx = dev.rx)
    (hs : dev'.rxSem.count = dev.rxSem.count) : RxWf dev' stored returned held unread :=
  ⟨hr ▸ h.ring, h.bytes, hs ▸ h.nonneg, hs ▸ h.tokens⟩

variable [DecidableEq α]

theorem AllOk.blockOn (h : AllOk m) (list : Option α) (obj : WaitObj) (t : α) :
    AllOk (blockOn m list obj t).1 := fun x => by
  rw [blockOn_result]
  exact h x

theorem AllOk.semPost (h : AllOk m) (sem : Semaphore α) : AllOk (semPost m sem).1 :=
  fun x => (wakeFirst_result sem.waitList x).elim (fun hx => hx.trans (h x)) id

theorem semPost_count (m : Tcbs α) (sem : Semaphore α) :
    (semPost m sem).2.1.count = sem.count + 1 := rfl

/-- The transmit FIFO is filled from the front of the ring, with one token for
    each byte. -/
theorem uartDrain_spec (hm : AllOk m) (h : TxWf dev sent appended held unsent) (room : ℕ) :
    AllOk (uartDrain m dev room).1 ∧
    (∃ unsent', TxWf (uartDrain m dev room).2.1 (sent ++ (uartDrain m dev room).2.2) appended held
      unsent') ∧
    (uartDrain m dev room).2.1.rx = dev.rx ∧ (uartDrain m dev room).2.1.rxSem = dev.rxSem := by
  induction room generalizing m dev sent unsent with
  | zero => exact ⟨hm, ⟨unsent, by simpa [uartDrain] using h⟩, rfl, rfl⟩
  | succ room ih =>
    cases unsent with
    | nil =>
      rw [uartDrain, h.ring.get_nil]
      exact ⟨hm, ⟨[], by simpa using h⟩, rfl, rfl⟩
    | cons data unsent =>
      obtain ⟨tx, hget, hring⟩ := h.ring.get_cons
      have hnext : TxWf
          { dev with tx := tx, txCount := dev.txCount + 1, txSem := (semPost m dev.txSem).2.1 }
          (sent ++ [data]) appended held unsent := by
        have hnn := h.nonneg
        have hlow := h.low
        have hhigh := h.high
        rw [List.length_cons] at hlow hhigh
        refine ⟨hring, ?_, ?_, ?_, ?_⟩
        · rw [List.append_assoc, List.singleton_append]
          exact h.bytes
        all_goals
          dsimp only
          rw [semPost_count]
          omega
      obtain ⟨hok, ⟨unsent', hwf⟩, hrx, hsem⟩ := ih (hm.semPost dev.txSem) hnext
      rw [uartDrain, hget]
      refine ⟨hok, ⟨unsent', ?_⟩, hrx, hsem⟩
      rwa [List.append_assoc, List.singleton_append] at hwf

/-- What the receive FIFO delivers is appended to the ring, with one token for
    each byte. -/
theorem uartReceive_spec (hm : AllOk m) (h : RxWf dev stored returned held unread)
    (words : List (BitVec 32)) :
    AllOk (uartReceive m dev words).1 ∧
    (∃ unread', RxWf (uartReceive m dev words).2.1 (stored ++ (uartReceive m dev words).2.2)
      returned held unread') ∧
    (uartReceive m dev words).2.1.tx = dev.tx ∧
    (uartReceive m dev words).2.1.txSem = dev.txSem := by
  induction words generalizing m dev stored unread with
  | nil => exact ⟨hm, ⟨unread, by simpa [uartReceive] using h⟩, rfl, rfl⟩
  | cons data words ih =>
    rw [uartReceive]
    split
    · exact ih hm (h.congr rfl rfl)
    · cases hput : dev.rx.put uartBufferSize (data.setWidth 8) with
      | none => exact ih hm h
      | some rx =>
        have hnext : RxWf
            { dev with rx := rx, rxCount := dev.rxCount + 1, rxSem := (semPost m dev.rxSem).2.1 }
            (stored ++ [data.setWidth 8]) returned held (unread ++ [data.setWidth 8]) := by
          have hnn := h.nonneg
          have htok := h.tokens
          refine ⟨h.ring.put hput, by rw [← h.bytes, List.append_assoc], ?_, ?_⟩
          all_goals
            dsimp only
            rw [semPost_count]
          · omega
          · rw [List.length_append, List.length_singleton]
            omega
        obtain ⟨hok, ⟨unread', hwf⟩, htx, hsem⟩ := ih (hm.semPost dev.rxSem) hnext
        refine ⟨hok, ⟨unread', ?_⟩, htx, hsem⟩
        rwa [List.append_assoc, List.singleton_append] at hwf

variable {log : UartLog} {r w : ℕ}

/-- The interrupt handler. -/
theorem uartIrqHandler_spec (hm : AllOk m) (h : UartWf dev log r w) (mis : BitVec 32)
    (words : List (BitVec 32)) (room : ℕ) :
    AllOk (uartIrqHandler m dev mis words room).1 ∧
    UartWf (uartIrqHandler m dev mis words room).2.1
      { log with stored := log.stored ++ (uartIrqHandler m dev mis words room).2.2.1,
                 sent := log.sent ++ (uartIrqHandler m dev mis words room).2.2.2 } r w := by
  obtain ⟨⟨unsent, htx⟩, unread, hrx⟩ := h
  -- the receive part, then the transmit part, of which each leaves the other ring alone
  obtain ⟨⟨m₁, dev₁, stored⟩, hr⟩ : ∃ x, x =
      (if mis &&& intRx ≠ 0 then uartReceive m dev words else (m, dev, [])) := ⟨_, rfl⟩
  obtain ⟨hm₁, ⟨unread₁, hrx₁⟩, htx₁, hsem₁⟩ : AllOk m₁ ∧
      (∃ unread', RxWf dev₁ (log.stored ++ stored) log.returned r unread') ∧
      dev₁.tx = dev.tx ∧ dev₁.txSem = dev.txSem := by
    split_ifs at hr
    · have hspec := uartReceive_spec hm hrx words
      rwa [← hr] at hspec
    · cases hr
      exact ⟨hm, ⟨unread, by simpa using hrx⟩, rfl, rfl⟩
  have hwf₁ := htx.congr htx₁ (congrArg Semaphore.count hsem₁)
  have hnone : TxWf dev₁ (log.sent ++ []) log.appended w unsent := by rwa [List.append_nil]
  obtain ⟨hm₂, ⟨unsent₂, htx₂⟩, hrx₂, hsem₂⟩ := uartDrain_spec hm₁ hwf₁ room
  unfold uartIrqHandler
  rw [← hr]
  dsimp only
  split_ifs
  all_goals
    first
    | exact ⟨hm₂, ⟨unsent₂, htx₂.congr rfl rfl⟩, unread₁,
        hrx₁.congr hrx₂ (congrArg Semaphore.count hsem₂)⟩
    | exact ⟨hm₁, ⟨unsent, hnone.congr rfl rfl⟩, unread₁, hrx₁.congr rfl rfl⟩

/-- What the writer with a token does under the lock: the byte is appended
    unless the ring is full, and the token is gone. -/
theorem uartWriteLocked_spec (hm : AllOk m) (h : UartWf dev log r (w + 1)) (data : BitVec 8)
    (room : ℕ) :
    AllOk (uartWriteLocked m dev data room).1 ∧
    UartWf (uartWriteLocked m dev data room).2.1
      { log with appended := log.appended ++ (uartWriteLocked m dev data room).2.2.1,
                 sent := log.sent ++ (uartWriteLocked m dev data room).2.2.2 } r w := by
  obtain ⟨⟨unsent, htx⟩, unread, hrx⟩ := h
  obtain ⟨⟨dev₁, appended⟩, ha⟩ : ∃ x, x = (match dev.tx.put uartBufferSize data with
    | some tx => ({ dev with tx := tx }, [data])
    | none => (dev, [])) := ⟨_, rfl⟩
  obtain ⟨⟨unsent₁, htx₁⟩, hrx₁, hsem₁⟩ :
      (∃ unsent', TxWf dev₁ log.sent (log.appended ++ appended) w unsent') ∧
      dev₁.rx = dev.rx ∧ dev₁.rxSem = dev.rxSem := by
    have hnn := htx.nonneg
    have hlow := htx.low
    have hhigh := htx.high
    cases hput : dev.tx.put uartBufferSize data with
    | none =>
      have hfull := htx.ring.put_eq_none.1 hput
      rw [hput] at ha
      cases ha
      -- the only token that is ever lost
      refine ⟨⟨unsent, htx.ring, by rw [htx.bytes, List.append_nil], htx.nonneg, ?_, ?_⟩, rfl, rfl⟩
      all_goals
        unfold uartBufferSize at hfull
        omega
    | some tx =>
      rw [hput] at ha
      cases ha
      refine ⟨⟨unsent ++ [data], htx.ring.put hput, by rw [← htx.bytes, List.append_assoc],
        htx.nonneg, ?_, ?_⟩, rfl, rfl⟩
      all_goals
        rw [List.length_append, List.length_singleton]
        dsimp only
        omega
  have hactive : TxWf { dev₁ with txActive := true } log.sent (log.appended ++ appended) w
      unsent₁ := htx₁.congr rfl rfl
  have hrx' := hrx.congr hrx₁ (congrArg Semaphore.count hsem₁)
  unfold uartWriteLocked
  rw [← ha]
  dsimp only
  split_ifs
  · exact ⟨hm, ⟨unsent₁, by simpa using htx₁⟩, unread, hrx'⟩
  · obtain ⟨hm₂, ⟨unsent₂, htx₂⟩, hrx₂, hsem₂⟩ := uartDrain_spec hm hactive room
    exact ⟨hm₂, ⟨unsent₂, htx₂.congr rfl rfl⟩, unread,
      hrx'.congr hrx₂ (congrArg Semaphore.count hsem₂)⟩

/-- The byte is appended unless the ring is full. -/
theorem uartWriteLocked_appended (m : Tcbs α) (dev : UartDev α) (data : BitVec 8) (room : ℕ) :
    (uartWriteLocked m dev data room).2.2.1 =
      if (dev.tx.head + 1) % uartBufferSize = dev.tx.tail then [] else [data] := by
  unfold uartWriteLocked SlotRing.put
  by_cases hfull : (dev.tx.head + 1) % uartBufferSize = dev.tx.tail
  · simp only [if_pos hfull]
    split_ifs <;> rfl
  · simp only [if_neg hfull]
    split_ifs <;> rfl

omit [DecidableEq α] in
/-- A reader with a token takes a byte for it. -/
theorem uartReadLocked_spec (h : UartWf dev log (r + 1) w) :
    UartWf (uartReadLocked dev).1
      { log with returned := log.returned ++ (uartReadLocked dev).2 } r w := by
  obtain ⟨htx, unread, hrx⟩ := h
  have hnn := hrx.nonneg
  have htok := hrx.tokens
  unfold uartReadLocked
  cases unread with
  | nil =>
    rw [List.length_nil] at htok
    omega
  | cons data unread =>
    obtain ⟨rx, hget, hring⟩ := hrx.ring.get_cons
    rw [hget]
    rw [List.length_cons] at htok
    refine ⟨htx.imp fun unsent h => h.congr rfl rfl, unread, hring, ?_, hnn, ?_⟩
    · rw [List.append_assoc, List.singleton_append]
      exact hrx.bytes
    · dsimp only
      omega

end

/-! ## The run -/

/-- The reader has a token. -/
def ReadToken (call : Option UartCall) : Prop :=
  ∃ len received, call = some (.read len received .token)

/-- The writer has a token. -/
def WriteToken (call : Option UartCall) : Prop :=
  ∃ data sent, call = some (.write data sent .token)

/-- A byte is left to be written. -/
def Unfinished : Option UartCall → Prop
  | some (.write data sent _) => sent < data.length
  | _ => True

/-- The driver and the tasks in its calls. -/
structure UartInv {α : Type} (s : UartUse α) : Prop where
  ok : AllOk s.tcb
  calls : ∀ t, Unfinished (s.call t)
  wf : ∃ R W, Roster (fun t => ReadToken (s.call t)) R ∧
    Roster (fun t => WriteToken (s.call t)) W ∧ UartWf s.dev s.log R.length W.length

theorem not_readToken_none : ¬ReadToken none := by
  rintro ⟨len, received, he⟩
  cases he

theorem not_writeToken_none : ¬WriteToken none := by
  rintro ⟨data, sent, he⟩
  cases he

theorem readToken_iff {len : ℕ} {received : List (BitVec 8)} {p : UartPlace} :
    ReadToken (some (.read len received p)) ↔ p = .token := by
  constructor
  · rintro ⟨len, received, he⟩
    cases he
    rfl
  · rintro rfl
    exact ⟨len, received, rfl⟩

theorem writeToken_iff {data : List (BitVec 8)} {sent : ℕ} {p : UartPlace} :
    WriteToken (some (.write data sent p)) ↔ p = .token := by
  constructor
  · rintro ⟨data, sent, he⟩
    cases he
    rfl
  · rintro rfl
    exact ⟨data, sent, rfl⟩

theorem not_readToken_write {data : List (BitVec 8)} {sent : ℕ} {p : UartPlace} :
    ¬ReadToken (some (.write data sent p)) := by
  rintro ⟨len, received, he⟩
  cases he

theorem not_writeToken_read {len : ℕ} {received : List (BitVec 8)} {p : UartPlace} :
    ¬WriteToken (some (.read len received p)) := by
  rintro ⟨data, sent, he⟩
  cases he

/-- Between two rounds no token is held, and a byte is left. -/
structure Between (c : Option UartCall) : Prop where
  read : ¬ReadToken c
  write : ¬WriteToken c
  unfinished : Unfinished c

theorem between_none : Between none := ⟨not_readToken_none, not_writeToken_none, trivial⟩

theorem uartWriteLoop_between (data : List (BitVec 8)) (sent : ℕ) :
    Between (uartWriteLoop data sent).getRight? := by
  unfold uartWriteLoop
  split_ifs with hlt
  · exact ⟨not_readToken_write, fun h => absurd (writeToken_iff.1 h) (by decide), hlt⟩
  · exact between_none

theorem uartReadLoop_between (len : ℕ) (received : List (BitVec 8)) :
    Between (uartReadLoop len received).getRight? := by
  unfold uartReadLoop
  split_ifs with hlt
  · exact ⟨fun h => absurd (readToken_iff.1 h) (by decide), not_writeToken_read, trivial⟩
  · exact between_none

section
variable {α : Type}

theorem uartWrite_between (dev : UartDev α) (port : BitVec 32)
    (data : Option (List (BitVec 8))) : Between (uartWrite dev port data).getRight? := by
  unfold uartWrite
  cases data with
  | none => exact between_none
  | some data =>
    dsimp only
    split_ifs
    · exact between_none
    · exact uartWriteLoop_between data 0
    · exact between_none

theorem uartRead_between (dev : UartDev α) (port : BitVec 32) (buf : Bool) (len : ℕ) :
    Between (uartRead dev port buf len).getRight? := by
  unfold uartRead
  split_ifs
  · exact between_none
  · exact uartReadLoop_between len []
  · exact between_none

variable [DecidableEq α] {s s' : UartUse α} {t : α} {rxObj txObj : WaitObj}

/-- A turn of `sem_wait` goes to sleep, or takes a token. -/
def Waits (sem : Semaphore α) (r : Tcbs α × Semaphore α × Option Status) : Prop :=
  AllOk r.1 ∧ ((r.2.2 = none ∧ r.2.1.count = sem.count) ∨
    (r.2.2 = some .ok ∧ 0 < sem.count ∧ r.2.1.count = sem.count - 1))

theorem semWait_waits {m : Tcbs α} (hm : AllOk m) (obj : WaitObj) (sem : Semaphore α) (t : α) :
    Waits sem (semWait obj m sem t) := by
  unfold semWait
  split_ifs with hcount
  · exact ⟨hm.blockOn sem.waitList obj t, .inl ⟨rfl, rfl⟩⟩
  · exact ⟨hm, .inr ⟨rfl, by omega, rfl⟩⟩

theorem semResume_waits {m : Tcbs α} (hm : AllOk m) (obj : WaitObj) (sem : Semaphore α) (t : α) :
    Waits sem (semResume obj m sem t) := by
  unfold semResume
  rw [if_neg (not_not_intro (hm t))]
  exact semWait_waits hm obj sem t

theorem forall_unfinished {call : α → Option UartCall} (h : ∀ x, Unfinished (call x))
    {c : Option UartCall} (hc : Unfinished c) (x : α) : Unfinished (Function.update call t c x) :=
  (Function.forall_update_iff call fun _ => Unfinished).2 ⟨hc, fun x _ => h x⟩ x

/-- What a task does to itself between two rounds. -/
theorem UartInv.call (h : UartInv s) (ht : Between (s.call t)) {c : Option UartCall}
    (hc : Between c) : UartInv { s with call := Function.update s.call t c } := by
  obtain ⟨R, W, hR, hW, hwf⟩ := h.wf
  exact ⟨h.ok, forall_unfinished h.calls hc.unfinished,
    R, W, hR.keep ht.read hc.read, hW.keep ht.write hc.write, hwf⟩

theorem UartInv.wait (h : UartInv s)
    {turn : WaitObj → Tcbs α → Semaphore α → α → Tcbs α × Semaphore α × Option Status}
    (hturn : ∀ obj sem, Waits sem (turn obj s.tcb sem t)) {place : UartPlace}
    (hplace : place ≠ .token) (hs : uartWaitTurn turn rxObj txObj s t place = some s') :
    UartInv s' := by
  obtain ⟨R, W, hR, hW, ⟨unsent, htx⟩, unread, hrx⟩ := h.wf
  have hleft := h.calls t
  unfold uartWaitTurn at hs
  cases hcall : s.call t with
  | none =>
    rw [hcall] at hs
    cases hs
  | some call =>
    cases call with
    | write data sent p =>
      rw [hcall] at hs hleft
      dsimp only at hs
      split_ifs at hs with hp
      obtain rfl := Option.some.inj hs
      have hnr : ¬ReadToken (s.call t) := hcall ▸ not_readToken_write
      have hnw : ¬WriteToken (s.call t) := hcall ▸ fun hw => hplace (hp ▸ writeToken_iff.1 hw)
      obtain ⟨hok, ⟨hout, hcount⟩ | ⟨hout, hpos, hcount⟩⟩ := hturn txObj s.dev.txSem
      · refine ⟨hok, forall_unfinished h.calls hleft, R, W,
          hR.keep hnr not_readToken_write, hW.keep hnw fun hw => ?_, ⟨unsent, htx.congr rfl hcount⟩,
          unread, hrx.congr rfl rfl⟩
        rw [hout] at hw
        cases writeToken_iff.1 hw
      · refine ⟨hok, forall_unfinished h.calls hleft, R,
          t :: W, hR.keep hnr not_readToken_write, hW.gain hnw ?_, ⟨unsent, ?_⟩, unread,
          hrx.congr rfl rfl⟩
        · rw [hout]
          exact writeToken_iff.2 rfl
        · have hlow := htx.low
          have hhigh := htx.high
          refine ⟨htx.ring, htx.bytes, ?_, ?_, ?_⟩
          all_goals
            simp only [hcount, List.length_cons]
            omega
    | read len received p =>
      rw [hcall] at hs
      dsimp only at hs
      split_ifs at hs with hp
      obtain rfl := Option.some.inj hs
      have hnw : ¬WriteToken (s.call t) := hcall ▸ not_writeToken_read
      have hnr : ¬ReadToken (s.call t) := hcall ▸ fun hr => hplace (hp ▸ readToken_iff.1 hr)
      obtain ⟨hok, ⟨hout, hcount⟩ | ⟨hout, hpos, hcount⟩⟩ := hturn rxObj s.dev.rxSem
      · refine ⟨hok, forall_unfinished h.calls trivial, R, W,
          hR.keep hnr fun hr => ?_, hW.keep hnw not_writeToken_read, ⟨unsent, htx.congr rfl rfl⟩,
          unread, hrx.congr rfl hcount⟩
        rw [hout] at hr
        cases readToken_iff.1 hr
      · refine ⟨hok, forall_unfinished h.calls trivial,
          t :: R, W, hR.gain hnr ?_, hW.keep hnw not_writeToken_read, ⟨unsent, htx.congr rfl rfl⟩,
          unread, ?_⟩
        · rw [hout]
          exact readToken_iff.2 rfl
        · have htok := hrx.tokens
          refine ⟨hrx.ring, hrx.bytes, ?_, ?_⟩
          all_goals
            simp only [hcount, List.length_cons]
            omega

theorem UartInv.locked (h : UartInv s) {room : ℕ} (hs : uartLockedTurn s t room = some s') :
    UartInv s' := by
  obtain ⟨R, W, hR, hW, hwf⟩ := h.wf
  unfold uartLockedTurn at hs
  split at hs
  · rename_i data sent hcall
    obtain rfl := Option.some.inj hs
    have htok : WriteToken (s.call t) := ⟨data, sent, hcall⟩
    have hnr : ¬ReadToken (s.call t) := hcall ▸ not_readToken_write
    rw [hW.length_lose htok] at hwf
    obtain ⟨hok, hwf'⟩ := uartWriteLocked_spec h.ok hwf (data.getD sent 0) room
    have hloop := uartWriteLoop_between data
      (sent + (uartWriteLocked s.tcb s.dev (data.getD sent 0) room).2.2.1.length)
    exact ⟨hok, forall_unfinished h.calls hloop.unfinished,
      R, W.erase t, hR.keep hnr hloop.read, hW.lose hloop.write, hwf'⟩
  · rename_i len received hcall
    obtain rfl := Option.some.inj hs
    have htok : ReadToken (s.call t) := ⟨len, received, hcall⟩
    have hnw : ¬WriteToken (s.call t) := hcall ▸ not_writeToken_read
    rw [hR.length_lose htok] at hwf
    have hloop := uartReadLoop_between len (received ++ (uartReadLocked s.dev).2)
    exact ⟨h.ok, forall_unfinished h.calls hloop.unfinished,
      R.erase t, W, hR.lose hloop.read, hW.keep hnw hloop.write, uartReadLocked_spec hwf⟩
  · cases hs

/-- Every event keeps the rings and the semaphores in step. -/
theorem UartInv.step (h : UartInv s) {e : UartEvent α} (ha : UartAllowed s e)
    (hs : uartNext rxObj txObj s e = some s') : UartInv s' := by
  cases e with
  | write t port data =>
    dsimp only [uartNext] at hs
    split_ifs at hs with hcall
    obtain rfl := Option.some.inj hs
    exact h.call (hcall ▸ between_none) (uartWrite_between s.dev port data)
  | read t port buf len =>
    dsimp only [uartNext] at hs
    split_ifs at hs with hcall
    obtain rfl := Option.some.inj hs
    exact h.call (hcall ▸ between_none) (uartRead_between s.dev port buf len)
  | wait t => exact h.wait (fun obj sem => semWait_waits h.ok obj sem t) (by decide) hs
  | resume t => exact h.wait (fun obj sem => semResume_waits h.ok obj sem t) (by decide) hs
  | locked t room => exact h.locked hs
  | irq mis words room =>
    obtain rfl := Option.some.inj hs
    obtain ⟨R, W, hR, hW, hwf⟩ := h.wf
    obtain ⟨hok, hwf'⟩ := uartIrqHandler_spec h.ok hwf mis words room
    exact ⟨hok, h.calls, R, W, hR, hW, hwf'⟩
  | sched m =>
    obtain rfl := Option.some.inj hs
    exact ⟨fun t => (ha t).elim (fun he => he.trans (h.ok t)) id, h.calls, h.wf⟩

omit [DecidableEq α] in
/-- `uart_init` leaves both rings empty. -/
theorem uartInit_wf (dev : UartDev α) :
    UartWf (uartInit 0 dev).2 ⟨[], [], [], []⟩ 0 0 := by
  have hsize : 0 < uartBufferSize := by decide
  refine ⟨⟨[], SlotRing.Holds.empty hsize rfl rfl, rfl, ?_, ?_, ?_⟩, [],
    SlotRing.Holds.empty hsize rfl rfl, rfl, ?_, ?_⟩
  · exact Int.natCast_nonneg 256
  · exact show (255 : ℤ) ≤ 256 + 0 + 0 by decide
  · exact show (256 : ℤ) + 0 + 0 ≤ 256 by decide
  · exact Int.le_refl 0
  · rfl

theorem uart_run {tr : List (UartEvent α)} (h : (uartLts rxObj txObj).Run tr s) : UartInv s := by
  refine h.rule (P := fun _ s => UartInv s) ?_ ?_
  · rintro s ⟨⟨dev, hdev⟩, hcall, hok, hlog⟩
    have hbetween : ∀ t, Between (s.call t) := fun t => hcall t ▸ between_none
    refine ⟨hok, fun t => (hbetween t).unfinished, [], [], Roster.nil fun t => (hbetween t).read,
      Roster.nil fun t => (hbetween t).write, ?_⟩
    rw [hdev, hlog]
    exact uartInit_wf dev
  · rintro tr s e s' hI ⟨ha, hs⟩
    exact hI.step ha hs

/-- A writer with a token appends its byte, or, where the ring is full, goes back
    to `sem_wait` with the same byte. -/
theorem UartInv.writer (h : UartInv s) {room : ℕ} {data : List (BitVec 8)} {sent : ℕ}
    (hcall : s.call t = some (.write data sent .token))
    (hs : uartLockedTurn s t room = some s') :
    if (s.dev.tx.head + 1) % uartBufferSize = s.dev.tx.tail then
      s'.log.appended = s.log.appended ∧ s'.call t = some (.write data sent .wait)
    else
      ∃ b, data[sent]? = some b ∧ s'.log.appended = s.log.appended ++ [b] ∧
        s'.call t = (uartWriteLoop data (sent + 1)).getRight? := by
  have hleft := h.calls t
  rw [hcall] at hleft
  have hlt : sent < data.length := hleft
  have happ := uartWriteLocked_appended s.tcb s.dev (data.getD sent 0) room
  rw [uartLockedTurn, hcall] at hs
  dsimp only at hs
  obtain ⟨⟨m, dev, appended, out⟩, hx⟩ : ∃ x, x =
      uartWriteLocked s.tcb s.dev (data.getD sent 0) room := ⟨_, rfl⟩
  rw [← hx] at hs happ
  obtain rfl := Option.some.inj hs
  obtain rfl : appended = _ := happ
  dsimp only
  rw [Function.update_self]
  split_ifs
  · refine ⟨List.append_nil _, ?_⟩
    rw [List.length_nil, Nat.add_zero, uartWriteLoop, if_pos hlt]
    rfl
  · refine ⟨data[sent], List.getElem?_eq_getElem hlt, ?_, rfl⟩
    rw [List.getD_eq_getElem?_getD, List.getElem?_eq_getElem hlt, Option.getD_some]

/-- **The rings.**  In any interleaving of tasks and interrupts: the bytes
    written to the data register and those in the ring are the ones appended by
    `uart_write`, and the bytes returned by `uart_read` and those in the ring
    the ones stored by the handler, in order; head and tail stay below the size;
    the tokens of reception, with those that readers hold, count the unread
    bytes, and those of transmission are the free slots, of which one is counted
    until a writer has found the ring full; a writer who does so keeps its
    byte. -/
theorem uart_rings (rxObj txObj : WaitObj) {tr : List (UartEvent α)}
    (h : (uartLts rxObj txObj).Run tr s) :
    ∃ (unsent unread : List (BitVec 8)) (R W : List α),
      (s.log.sent ++ unsent = s.log.appended ∧ s.dev.tx.Holds uartBufferSize unsent ∧
        (s.dev.tx.tail = s.dev.tx.head → s.log.sent = s.log.appended)) ∧
      (s.log.returned ++ unread = s.log.stored ∧ s.dev.rx.Holds uartBufferSize unread) ∧
      ((s.dev.tx.head < uartBufferSize ∧ s.dev.tx.tail < uartBufferSize) ∧
        s.dev.rx.head < uartBufferSize ∧ s.dev.rx.tail < uartBufferSize) ∧
      (Roster (fun t => ReadToken (s.call t)) R ∧ 0 ≤ s.dev.rxSem.count ∧
        s.dev.rxSem.count + R.length = unread.length) ∧
      (Roster (fun t => WriteToken (s.call t)) W ∧ 0 ≤ s.dev.txSem.count ∧
        255 ≤ s.dev.txSem.count + W.length + unsent.length ∧
        s.dev.txSem.count + W.length + unsent.length ≤ 256) ∧
      ∀ t data sent room s', s.call t = some (.write data sent .token) →
        (uartLts rxObj txObj).step s (.locked t room) s' →
        if (s.dev.tx.head + 1) % uartBufferSize = s.dev.tx.tail then
          s'.log.appended = s.log.appended ∧ s'.call t = some (.write data sent .wait)
        else
          ∃ b, data[sent]? = some b ∧ s'.log.appended = s.log.appended ++ [b] ∧
            s'.call t = (uartWriteLoop data (sent + 1)).getRight? := by
  have hI := uart_run h
  obtain ⟨R, W, hR, hW, ⟨unsent, htx⟩, unread, hrx⟩ := hI.wf
  refine ⟨unsent, unread, R, W, ⟨htx.bytes, htx.ring, fun he => ?_⟩, ⟨hrx.bytes, hrx.ring⟩,
    ⟨⟨htx.ring.head_lt, htx.ring.tail_lt⟩, hrx.ring.head_lt, hrx.ring.tail_lt⟩,
    ⟨hR, hrx.nonneg, hrx.tokens⟩, ⟨hW, htx.nonneg, htx.low, htx.high⟩, ?_⟩
  · have hempty := htx.ring.tail_eq_head.1 he
    rw [← htx.bytes, hempty, List.append_nil]
  · rintro t data sent room s' hcall ⟨-, hs⟩
    exact hI.writer hcall hs

end

def demoUartStart : UartUse (Fin 2) :=
  let ring : SlotRing (BitVec 8) := ⟨fun _ => 0, 0, 0⟩
  ⟨fun _ => Tcb.zero,
    (uartInit 0 ⟨ring, ring, false, semInit 0, semInit 0, 0, 0, 0, false, 0⟩).2, fun _ => none,
    ⟨[], [], [], []⟩⟩

/-- The steps that the driver takes itself. -/
def demoUartNext (s : UartUse (Fin 2)) : UartEvent (Fin 2) → Option (UartUse (Fin 2))
  | .sched _ => none
  | e => uartNext (.sem 0) (.sem 1) s e

theorem demoUartNext_step (s : UartUse (Fin 2)) (e : UartEvent (Fin 2)) (s' : UartUse (Fin 2))
    (h : demoUartNext s e = some s') : (uartLts (.sem 0) (.sem 1)).step s e s' := by
  cases e with
  | sched => cases h
  | _ => exact ⟨trivial, h⟩

/-- One task writes three bytes, the other one waits for two; then one more byte than the
    receive ring holds arrives, and there is room for two to be sent. -/
def demoUartEvents : List (UartEvent (Fin 2)) :=
  [.write 0 0 (some [7, 8, 9]), .read 1 0 true 2, .wait 1, .wait 0, .locked 0 0, .wait 0, .locked 0 0,
    .wait 0, .locked 0 0, .irq 0x30 ((List.range 256).map (BitVec.ofNat 32)) 2, .resume 1,
    .locked 1 0, .wait 1, .locked 1 0]

theorem demoUartEvents_run : (Lts.exec demoUartNext demoUartStart demoUartEvents).map UartUse.log =
    some ⟨[7, 8], [7, 8, 9], (List.range 255).map (BitVec.ofNat 8), [0, 1]⟩ := by
  decide +kernel

/-- The bytes go out and come in in their order, up to the 255 that the ring holds. -/
theorem uart_rings_echo : ∃ s : UartUse (Fin 2),
    (uartLts (.sem 0) (.sem 1)).Run demoUartEvents s ∧ s.log.stored.length = 255 ∧
    ∃ unsent unread : List (BitVec 8), [7, 8] ++ unsent = [7, 8, 9] ∧
      [0, 1] ++ unread = (List.range 255).map (BitVec.ofNat 8) ∧
      s.dev.tx.Holds uartBufferSize unsent ∧ s.dev.rx.Holds uartBufferSize unread := by
  obtain ⟨s, hexec, hlog⟩ := Option.map_eq_some_iff.1 demoUartEvents_run
  have hrun : (uartLts (.sem 0) (.sem 1)).Run demoUartEvents s :=
    Lts.run_of_exec demoUartNext_step ⟨⟨_, rfl⟩, fun _ => rfl, fun _ => rfl, rfl⟩ hexec
  obtain ⟨unsent, unread, -, -, ⟨hsent, htx, -⟩, ⟨hstored, hrx⟩, -⟩ := uart_rings _ _ hrun
  rw [hlog] at hsent hstored
  refine ⟨s, hrun, ?_, unsent, unread, hsent, hstored, htx, hrx⟩
  rw [hlog]
  exact (List.length_map _).trans List.length_range

end Gracemont
