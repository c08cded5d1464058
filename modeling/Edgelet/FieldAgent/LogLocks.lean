import Edgelet.FieldAgent.LogSessions
import Edgelet.FieldAgent.WebSocket

/-!
# The locks of the log sessions

A log session is guarded by the mutex of its manager, the lifecycle mutex of its handler and the
wait group of the workers. The functions of the manager are lists of commands, those of the handler
are at the program points of `WebSocket`, and a critical section that waits for nothing is one step.
-/

namespace Edgelet.FieldAgent.LogLocks

open Lexical Keyed Machine WebSocket
open LogSessions (LogSession Manager Answers TailKind)

/-! ## Goroutines -/

inductive Cmd
  | lock
  | unlock
  | handle (fetched : List LogSession)
  | scan (fetched : List LogSession)
  | reconnect (id : Str)
  /-- Models `needsResetBeforeConnect`, its two looks at the handler, and the `Reset`. -/
  | resetIfConnected (id : Str)
  | resetUnlessDisconnected (id : Str)
  | connect (id : Str)
  | activate (session : LogSession)
  /-- Models `startLogSessionLocked`, up to its call of `Reset` and after its call of `Connect`. -/
  | start (session : LogSession)
  | started (session : LogSession)
  /-- Models `stopLogSessionWithReasonLocked`, up to its call of `Disconnect` and after it. -/
  | stop (id : Str)
  | forget (id : Str)
  | expire

/-- A goroutine: the call of a handler it is in, with the session of the handler, then what it has
still to do for the manager; and whether its last call of a handler has returned an error. -/
structure Goroutine where
  op : Option (Str × Pc)
  cmds : List Cmd
  err : Bool

def inside : List Cmd → Bool
  | [] => false
  | .lock :: _ => false
  | .unlock :: _ => true
  | _ :: rest => inside rest

def Goroutine.holdsManager (g : Goroutine) : Bool := inside g.cmds

/-! ## The machine -/

structure State where
  manager : Manager
  handlers : Str → Handler
  goroutines : List Goroutine

def initial (processManager containerEngine : Bool) : State where
  manager := (LogSessions.initial processManager containerEngine).manager
  handlers := fun _ => .new
  goroutines := []

section

variable (s : State) (env : Env) (id : Str)

def State.free : Bool := s.goroutines.all fun g => !g.holdsManager

def State.idle : Bool :=
  s.goroutines.all fun g =>
    match g.op with
    | some (id', pc) => !(id' == id && pc.isWorker)
    | none => true

structure Env where
  choice : Choice := .go
  order : List Str := []
  sessionID : Str := []
  ans : Answers

def spawned : Spawn → Goroutine
  | .worker pc => ⟨some (id, pc), [], false⟩
  | .close j => ⟨some (id, .close j .check), [], false⟩
  | .stopSession => ⟨none, [.lock, .stop id, .unlock], false⟩

def Cmd.step (err : Bool) (rest : List Cmd) : Cmd → Option (Manager × Goroutine)
  | .lock => if s.free then some (s.manager, ⟨none, rest, err⟩) else none
  | .unlock => some (s.manager, ⟨none, rest, err⟩)
  | .handle fetched =>
    if env.order.Perm (s.manager.activeSessions.rows.map (·.sessionID)) then
      let gone := env.order.filter fun id => !(fetched.map (·.sessionID)).contains id
      some (s.manager, ⟨none, gone.map .stop ++ .scan fetched :: rest, err⟩)
    else none
  | .scan [] => some (s.manager, ⟨none, rest, err⟩)
  | .scan (session :: fetched) =>
    let id := session.sessionID
    match s.manager.activeSessions.get? id with
    | some info =>
      let m := { s.manager with
        activeSessions := s.manager.activeSessions.upsert { info with session } }
      if m.webSocketHandlers.contains id && !(s.handlers id).isConnected then
        some (m, ⟨none, .reconnect id :: .activate session :: .scan fetched :: rest, err⟩)
      else some (m, ⟨none, .activate session :: .scan fetched :: rest, err⟩)
    | none => some (s.manager, ⟨none, .start session :: .scan fetched :: rest, err⟩)
  | .reconnect id =>
    if s.manager.webSocketHandlers.contains id && !(s.handlers id).isConnected then
      some (s.manager,
        ⟨none, .unlock :: .resetIfConnected id :: .connect id :: .lock :: rest, err⟩)
    else some (s.manager, ⟨none, rest, err⟩)
  | .resetIfConnected id =>
    if (s.handlers id).isConnected then
      some (s.manager, ⟨some (id, .reset none .lock), rest, err⟩)
    else some (s.manager, ⟨none, .resetUnlessDisconnected id :: rest, err⟩)
  | .resetUnlessDisconnected id =>
    if (s.handlers id).state = .disconnected then some (s.manager, ⟨none, rest, err⟩)
    else some (s.manager, ⟨some (id, .reset none .lock), rest, err⟩)
  | .connect id => some (s.manager, ⟨some (id, .connect .lock), rest, err⟩)
  | .activate session => some (s.manager.activate env.ans session, ⟨none, rest, err⟩)
  | .start session =>
    let id := session.sessionID
    let m := { s.manager with activeSessions := s.manager.activeSessions.upsert { session } }
    if env.ans.handler id = false then some (m, ⟨none, .stop id :: rest, err⟩)
    else
      some ({ m with webSocketHandlers := id :: m.webSocketHandlers },
        ⟨some (id, .reset none .lock), .connect id :: .started session :: rest, err⟩)
  | .started session =>
    if err ∨ session.microserviceUUID = [] ∧ session.iofogUUID = [] then
      some (s.manager, ⟨none, .stop session.sessionID :: rest, false⟩)
    else some (s.manager, ⟨none, rest, err⟩)
  | .stop id =>
    let m := s.manager.stopLogStreamingLocked id
    some (m, ⟨if m.webSocketHandlers.contains id then some (id, .reset none .disconnect) else none,
      .forget id :: rest, err⟩)
  | .forget id =>
    some ({ s.manager with
        webSocketHandlers := s.manager.webSocketHandlers.filter (· != id)
        activeSessions := s.manager.activeSessions.deleteWhere (·.sessionID == id) },
      ⟨none, rest, err⟩)
  | .expire =>
    if env.order.Perm (s.manager.expired env.ans.now) then
      some (s.manager, ⟨none, env.order.map .stop ++ rest, err⟩)
    else none

def critical? : Pc → Option Manager
  | .close _ .notify => some (s.manager.stopLogStreamingLocked id)
  | .read .starting => some (s.manager.startLogStreamingOnActivation env.ans env.sessionID)
  | _ => none

def managerAfter (pc : Pc) : Option Manager :=
  match critical? s env id pc with
  | none => some s.manager
  | some m => if s.free then some m else none

/-- A step of a goroutine, `none` when it waits: the state without the goroutine's own change, the
goroutine, nothing when it has returned, and those it has started. -/
def Goroutine.step (g : Goroutine) :
    Option (Manager × (Str → Handler) × Option Goroutine × List Goroutine) :=
  match g.op with
  | some (id, pc) => do
    let m ← managerAfter s env id pc
    let o ← pc.step .log (s.handlers id) (s.idle id) env.choice
    let g' : Goroutine := match o.next with
      | some pc' => { g with op := some (id, pc') }
      | none => { g with op := none, err := o.err }
    some (m, Function.update s.handlers id o.handler,
      if g'.op = none ∧ g'.cmds = [] then none else some g', o.spawn.map (spawned id))
  | none =>
    match g.cmds with
    | [] => some (s.manager, s.handlers, none, [])
    | cmd :: rest =>
      (cmd.step s env g.err rest).map fun p => (p.1, s.handlers, some p.2, [])

inductive Call
  | handleLogSessions (fetched : List LogSession)
  | stopLogSession (id : Str)
  | expireOldLogSessions

def Call.cmds : Call → List Cmd
  | .handleLogSessions fetched => [.lock, .handle fetched, .unlock]
  | .stopLogSession id => [.lock, .stop id, .unlock]
  | .expireOldLogSessions => [.lock, .expire, .unlock]

inductive Action
  | call (c : Call)
  | run (n : ℕ) (env : Env)
  | callback (id : Str) (kind : TailKind)

def step : Action → Option State
  | .call c => some { s with goroutines := s.goroutines ++ [⟨none, c.cmds, false⟩] }
  | .run n env =>
    match s.goroutines[n]? with
    | none => none
    | some g =>
      (g.step s env).map fun p => ⟨p.1, p.2.1, replaceAt s.goroutines n p.2.2.1 ++ p.2.2.2⟩
  | .callback id kind =>
    if s.free then some { s with manager := s.manager.callback id kind } else none

end

end Edgelet.FieldAgent.LogLocks
