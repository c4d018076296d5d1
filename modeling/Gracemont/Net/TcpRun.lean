/-
  Gracemont networking — runs of TCP.

  Segments arrive in any order, with any loss, duplication and forgery, and
  segments are sent.  In between, anything may happen to the memory of buffers,
  and time passes: each event brings the pool and the clock that it meets.

  * `TcpEvent`, `tcpLts`: the events and their runs;
  * `tcpLts_arrive`: what an arrival does to the sockets.
-/
import Gracemont.Lib.Trace
import Gracemont.Net.TcpConn

namespace Gracemont

/-- The pool and the clock that an event meets. -/
structure TcpEnv (α : Type) where
  pool : ZbufPool α
  ticks : BitVec 32

/-- A segment arrives in a buffer, or one is sent for a socket. -/
inductive TcpEvent (α σ : Type) where
  | arrive (env : TcpEnv α) (zb : α)
  | send (env : TcpEnv α) (sock : σ) (flags : BitVec 8) (data : Option α)

variable {α σ : Type}

/-- The stack that an event meets. -/
def NetStack.meets (s : NetStack α σ) (env : TcpEnv α) : NetStack α σ :=
  { s with pool := env.pool, ticks := env.ticks }

/-- The buffer in which a segment arrives. -/
def TcpEnv.buf (env : TcpEnv α) (zb : α) : Zbuf α := env.pool.zb zb

variable [DecidableEq α] [DecidableEq σ] (cfg : NetConfig α)

/-- The runs of TCP. -/
def tcpLts (init : NetStack α σ → Prop) : Lib.Lts (NetStack α σ) (TcpEvent α σ) where
  init := init
  step s e s' := match e with
    | .arrive env zb => ∃ fuel, tcpInput cfg fuel (s.meets env) zb = some s'
    | .send env sock flags data => (tcpSendSegment cfg (s.meets env) sock flags data).1 = s'

variable {cfg} {init : NetStack α σ → Prop} {s s' : NetStack α σ}

/-- What a socket `x` finds between `s` and `s'` if it is left alone. -/
structure Untouched (x : σ) (s s' : NetStack α σ) : Prop where
  sock : s'.sock x = s.sock x
  inbox : s'.inbox x = s.inbox x

/-- The segment in the buffer gets to the socket `x`. -/
def Reaches (x : σ) (s : NetStack α σ) (env : TcpEnv α) (zb : α) : Prop :=
  (env.buf zb).Intact ∧ ∃ fuel, tcpFindSocket (s.meets env) (env.buf zb).segment fuel = some (some x)

/-- **Arrivals.**  No socket changes; or one reacts to the segment, which the
    lookup has found for it, and the others do not change. -/
theorem tcpLts_arrive {env : TcpEnv α} {zb : α} (h : (tcpLts cfg init).step s (.arrive env zb) s') :
    (∀ y, Untouched y s s') ∨ ∃ x n, (n = 0 ∨ n = 1) ∧ Reaches x s env zb ∧
      (s'.sock x).conn =
        (s.sock x).conn.receive (env.buf zb).segment (env.buf zb).len env.ticks n ∧
      s'.inbox x = s.inbox x ++
        (if (s.sock x).conn.Takes (env.buf zb).segment (env.buf zb).len then
          [(env.buf zb).pulled (env.buf zb).segment.hdrLen] else []) ∧
      (¬ (s.sock x).conn.Takes (env.buf zb).segment (env.buf zb).len →
        (s'.sock x).rxQueue = (s.sock x).rxQueue) ∧
      ∀ y, y ≠ x → Untouched y s s' := by
  obtain ⟨fuel, h⟩ := h
  rcases tcpInput_spec cfg h with ht | ⟨x, n, hn, hz, hfind, hr⟩
  · refine .inl fun y => ?_
    have hy := Reacts.of_transmitted ht y
    exact ⟨by rw [ht.sock]; rfl, hy.inbox.trans (List.append_nil _)⟩
  · refine .inr ⟨x, n, hn, ⟨hz, fuel, hfind⟩, hr.conn, hr.inbox, ?_, ?_⟩
    · intro htakes
      exact hr.rxQueue (if_neg htakes)
    · intro y hy
      obtain ⟨hsock, hinbox⟩ := hr.others y hy
      exact ⟨hsock, hinbox⟩

/-- A segment whose data the socket does not take leaves its receive queue. -/
theorem tcpLts_arrive_rxQueue {env : TcpEnv α} {zb : α} {x : σ}
    (h : (tcpLts cfg init).step s (.arrive env zb) s')
    (hnot : ¬ (s.sock x).conn.Takes (env.buf zb).segment (env.buf zb).len) :
    (s'.sock x).rxQueue = (s.sock x).rxQueue := by
  rcases tcpLts_arrive h with hu | ⟨y, n, -, -, -, -, hrx, hothers⟩
  · rw [(hu x).sock]
  · by_cases hx : x = y
    · subst hx
      exact hrx hnot
    · rw [(hothers x hx).sock]

/-- **Sends** only move `snd_nxt` of their socket. -/
theorem tcpLts_send {env : TcpEnv α} {sock : σ} {flags : BitVec 8} {data : Option α}
    (h : (tcpLts cfg init).step s (.send env sock flags data) s') :
    (∀ y, y ≠ sock → Untouched y s s') ∧ s'.inbox sock = s.inbox sock ∧
      ∃ n, s'.sock sock = { s.sock sock with sndNxt := (s.sock sock).sndNxt + n } := by
  obtain ⟨n, ht, -⟩ := tcpSendSegment_spec cfg (s.meets env) sock flags data
  have h' : (tcpSendSegment cfg (s.meets env) sock flags data).1 = s' := h
  rw [h'] at ht
  have hinbox : ∀ y, s'.inbox y = s.inbox y := fun y =>
    (Reacts.of_transmitted ht y).inbox.trans (List.append_nil _)
  have hsock : s'.sock = s.sock.modify sock fun k => { k with sndNxt := k.sndNxt + n } := ht.sock
  refine ⟨fun y hy => ⟨?_, hinbox y⟩, hinbox sock, n, ?_⟩
  · rw [hsock]
    exact s.sock.modify_of_ne hy _
  · rw [hsock]
    exact s.sock.modify_self sock _

/-! ## Executions -/

variable (cfg) in
/-- An event, with a bound on the walk over the lists of sockets. -/
def tcpExecStep (fuel : ℕ) (s : NetStack α σ) : TcpEvent α σ → Option (NetStack α σ)
  | .arrive env zb => tcpInput cfg fuel (s.meets env) zb
  | .send env sock flags data => some (tcpSendSegment cfg (s.meets env) sock flags data).1

theorem tcpLts_step {fuel : ℕ} {e : TcpEvent α σ} (h : tcpExecStep cfg fuel s e = some s') :
    (tcpLts cfg init).step s e s' := by
  cases e with
  | arrive env zb => exact ⟨fuel, h⟩
  | send env sock flags data => exact Option.some.inj h

/-- Events that meet a condition in the states they meet. -/
theorem tcpLts_run_restrict {fuel : ℕ} {ok : NetStack α σ → TcpEvent α σ → Prop}
    {es : List (TcpEvent α σ)} (h0 : init s)
    (h : Lib.Lts.exec (tcpExecStep cfg fuel) s es = some s')
    (hok : ∀ i (hi : i < es.length),
      ok ((Lib.Lts.exec (tcpExecStep cfg fuel) s (es.take i)).getD s) es[i]) :
    ((tcpLts cfg init).restrict ok).Run es s' :=
  Lib.Lts.run_of_exec_restrict (fun _ _ _ => tcpLts_step) h0 h hok

/-! ## A small network -/

/-- A segment to `10.0.0.1` with the right checksum, in a buffer. -/
def demoSegment (src : BitVec 32) (sport dport : BitVec 16) (seq ack : BitVec 32) (flags : BitVec 8)
    (data : List (BitVec 8)) : Zbuf (Fin 2) :=
  let seg := tcpHdr sport dport seq ack flags 0 ++ data
  let m := demoZbuf.space.putBytes 0
    (List.replicate 12 0 ++ be32Bytes src ++ be32Bytes demoNif.ip ++ seg)
  let checksum := tcpChecksum m.byte 0 ipHdrLen (BitVec.ofNat 16 seg.length)
  { demoZbuf with
    data := ipHdrLen, tail := ipHdrLen + seg.length, len := BitVec.ofNat 16 seg.length
    size := configZbufSize, refcount := 1
    space := (m.set 36 (hiByte checksum)).set 37 (loByte checksum) }

/-- Its arrival. -/
def demoArrive (z : Zbuf (Fin 2)) : TcpEvent (Fin 2) (Fin 2) :=
  .arrive ⟨{ demoStack.pool with zb := fun _ => z }, 0⟩ 0

/-- The socket 0 has the connection of port 80 to port 8080 of `10.0.0.2`. -/
def demoConn (state : TcpState) (una nxt rcv : BitVec 32) : NetStack (Fin 2) (Fin 2) :=
  { demoStack with
    tcpConnList := some 0
    sock := fun _ => { demoSocket with
      state := state, remoteAddr := ⟨0x0A000002, 8080⟩, sndUna := una, sndNxt := nxt
      rcvNxt := rcv } }

end Gracemont
