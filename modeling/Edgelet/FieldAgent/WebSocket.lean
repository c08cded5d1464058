import Mathlib.Data.Nat.Notation
import Mathlib.Data.Option.Basic

/-!
# The websocket of a session

The lifecycle mutex of a handler serialises `Reset`, `Connect` and `Disconnect`. When a connection
fails in the hands of one of its two workers, a goroutine with `handleTransportClose` looks whether
the handler is connected, stores that it is not, and calls `Reset`, which closes the connection and
waits for the workers.

A program point stands for each access to the atomic fields, the mutex and the wait group. Of the
messages only what they ask for is kept.
-/

namespace Edgelet.FieldAgent.WebSocket

/-! ## The handler -/

inductive Kind
  | exec
  | log
  deriving DecidableEq

inductive ConnectionState
  | disconnected
  | connecting
  | connected
  | pending
  | active
  deriving DecidableEq

structure Handler where
  conn : Option ℕ
  made : ℕ
  isConnected : Bool
  isActive : Bool
  state : ConnectionState
  cancelled : Bool
  locked : Bool

def Handler.new : Handler where
  conn := none
  made := 0
  isConnected := false
  isActive := false
  state := .disconnected
  cancelled := false
  locked := false

inductive Message
  /-- A `LOG_START` with data that can be read; an activation, or input for a session that
  takes it. -/
  | start
  /-- A `LOG_STOP`; a close message or control command. -/
  | stop
  | other
  deriving DecidableEq

/-! ## The program points -/

inductive ClosePc
  | check
  | storeConnected
  | storeActive
  | storeState
  | notify
  deriving DecidableEq

inductive ResetPc
  | disconnect
  | graceful
  | lock
  | cancel
  | closeConn
  | wait
  | storeConnected
  | storeActive
  | storeState
  | renew
  | unlock
  deriving DecidableEq

inductive ConnectPc
  | lock
  | check
  | storeDisconnected
  | expectDisconnected
  | storeConnecting
  | dial
  | expectFailed
  | storeFailed
  | storeConnected
  | expectConnecting
  | storePending
  | startWorkers
  | unlock (err : Bool)
  deriving DecidableEq

inductive ReadPc
  | loop
  | reading (j : ℕ)
  | checkActive
  | expectPending
  | expectConnected
  | storeState
  | storeActive
  | starting
  deriving DecidableEq

inductive PingPc
  | loop
  | pinging (j : ℕ)
  deriving DecidableEq

/-- Where a goroutine is. A `handleTransportClose` has the connection whose failure has caused it,
and so has the `Reset` that it calls. -/
inductive Pc
  | close (k : ℕ) (p : ClosePc)
  | reset (cause : Option ℕ) (p : ResetPc)
  | connect (p : ConnectPc)
  | read (p : ReadPc)
  | ping (p : PingPc)
  deriving DecidableEq

inductive Choice
  | go
  | ok
  | fail
  | message (m : Message)
  deriving DecidableEq

inductive Spawn
  | worker (pc : Pc)
  | close (j : ℕ)
  | stopSession

structure Out where
  handler : Handler
  next : Option Pc
  spawn : List Spawn := []
  err : Bool := false

section Statements

variable (kind : Kind) (h : Handler)

def ClosePc.step (k : ℕ) : ClosePc → Out
  | check =>
    { handler := h, next := if h.isConnected then some (.close k .storeConnected) else none }
  | storeConnected =>
    { handler := { h with isConnected := false }, next := some (.close k .storeActive) }
  | storeActive => { handler := { h with isActive := false }, next := some (.close k .storeState) }
  | storeState =>
    { handler := { h with state := .disconnected }
      next := some (if kind = .log then .close k .notify else .reset (some k) .lock) }
  | notify => { handler := h, next := some (.reset (some k) .lock) }

def ResetPc.step (idle : Bool) (cause : Option ℕ) : ResetPc → Option Out
  | disconnect =>
    if h.locked then none
    else some { handler := { h with locked := true }, next := some (.reset cause .graceful) }
  | graceful => some { handler := { h with conn := none }, next := some (.reset cause .cancel) }
  | lock =>
    if h.locked then none
    else some { handler := { h with locked := true }, next := some (.reset cause .cancel) }
  | cancel =>
    some { handler := { h with cancelled := true }, next := some (.reset cause .closeConn) }
  | closeConn => some { handler := { h with conn := none }, next := some (.reset cause .wait) }
  | wait =>
    if idle then some { handler := h, next := some (.reset cause .storeConnected) } else none
  | storeConnected =>
    some { handler := { h with isConnected := false }, next := some (.reset cause .storeActive) }
  | storeActive =>
    some { handler := { h with isActive := false }, next := some (.reset cause .storeState) }
  | storeState =>
    some { handler := { h with state := .disconnected }, next := some (.reset cause .renew) }
  | renew => some { handler := { h with cancelled := false }, next := some (.reset cause .unlock) }
  | unlock => some { handler := { h with locked := false }, next := none }

def ConnectPc.step : ConnectPc → Choice → Option Out
  | .lock, .go =>
    if h.locked then none
    else some { handler := { h with locked := true }, next := some (.connect .check) }
  | .check, .go =>
    some { handler := h
           next := some (.connect (if h.isConnected then .unlock true else .storeDisconnected)) }
  | .storeDisconnected, .go =>
    some { handler := { h with state := .disconnected }
           next := some (.connect .expectDisconnected) }
  | .expectDisconnected, .go =>
    some { handler := h
           next := some (.connect
             (if h.state = .disconnected then .storeConnecting else .unlock true)) }
  | .storeConnecting, .go =>
    some { handler := { h with state := .connecting }, next := some (.connect .dial) }
  | .dial, .ok =>
    some { handler := { h with conn := some (h.made + 1), made := h.made + 1 }
           next := some (.connect .storeConnected) }
  | .dial, .fail => some { handler := h, next := some (.connect .expectFailed) }
  | .expectFailed, .go =>
    some { handler := h
           next := some (.connect (if h.state = .connecting then .storeFailed else .unlock true)) }
  | .storeFailed, .go =>
    some { handler := { h with state := .disconnected }, next := some (.connect (.unlock true)) }
  | .storeConnected, .go =>
    some { handler := { h with isConnected := true }, next := some (.connect .expectConnecting) }
  | .expectConnecting, .go =>
    some { handler := h
           next := some (.connect
             (if h.state = .connecting then .storePending else .startWorkers)) }
  | .storePending, .go =>
    some { handler := { h with state := .pending }, next := some (.connect .startWorkers) }
  | .startWorkers, .go =>
    some { handler := h
           next := some (.connect (.unlock false))
           spawn := [.worker (.ping .loop), .worker (.read .loop)] }
  | .unlock err, .go => some { handler := { h with locked := false }, next := none, err := err }
  | _, _ => none

/-- `readWorker`, with what it does for a message. The exec handler activates the session unless it
is active, and from two states; the log handler asks the manager to start the stream. -/
def ReadPc.step : ReadPc → Choice → Option Out
  | .loop, .go =>
    some { handler := h
           next := if h.cancelled then none else h.conn.map fun j => .read (.reading j) }
  | .reading j, .fail => some { handler := h, next := none, spawn := [.close j] }
  | .reading _, .message .start =>
    some { handler := h
           next := some (.read (if kind = .log then .expectPending else .checkActive)) }
  | .reading _, .message .stop =>
    some { handler := h, next := some (.read .loop), spawn := [.stopSession] }
  | .reading _, .message .other => some { handler := h, next := some (.read .loop) }
  | .checkActive, .go =>
    some { handler := h, next := some (.read (if h.isActive then .loop else .expectPending)) }
  | .expectPending, .go =>
    some { handler := h
           next := some (.read (if h.state = .pending then .storeState
             else if kind = .log then .loop else .expectConnected)) }
  | .expectConnected, .go =>
    some { handler := h
           next := some (.read (if h.state = .connected then .storeState else .loop)) }
  | .storeState, .go =>
    some { handler := { h with state := .active }, next := some (.read .storeActive) }
  | .storeActive, .go =>
    some { handler := { h with isActive := true }
           next := some (.read (if kind = .log then .starting else .loop)) }
  | .starting, .go => some { handler := h, next := some (.read .loop) }
  | _, _ => none

def PingPc.step : PingPc → Choice → Option Out
  | .loop, .go =>
    some { handler := h
           next := some (.ping (if h.isConnected then (h.conn.map PingPc.pinging).getD .loop
             else .loop)) }
  | .loop, .fail => if h.cancelled then some { handler := h, next := none } else none
  | .pinging _, .ok => some { handler := h, next := some (.ping .loop) }
  | .pinging j, .fail => some { handler := h, next := some (.ping .loop), spawn := [.close j] }
  | _, _ => none

def Pc.step (idle : Bool) : Pc → Choice → Option Out
  | .close k p, .go => some (p.step kind h k)
  | .reset cause p, .go => p.step h idle cause
  | .connect p, c => p.step h c
  | .read p, c => p.step kind h c
  | .ping p, c => p.step h c
  | _, _ => none

end Statements

/-! ## Goroutines -/

def Pc.isWorker : Pc → Bool
  | .read _ | .ping _ => true
  | _ => false

def Pc.holds : Pc → Bool
  | .reset _ .lock | .reset _ .disconnect | .connect .lock => false
  | .reset _ _ | .connect _ => true
  | _ => false

def Pc.cause : Pc → Option ℕ
  | .close k _ => some k
  | .reset cause _ => cause
  | _ => none

end Edgelet.FieldAgent.WebSocket
