import Edgelet.Keyed.Table
import Edgelet.Lexical.Text
import Edgelet.Machine.Run
import Mathlib.Logic.Function.Basic

/-!
# The log sessions of the controller

A log stream is fed by a tail, which reports its end by a callback that names the session and not
the tail. A stopped tail ends some time later, and by then the session may have a new one. All
functions run under the lock of the manager, released only while a connection is made anew: one step
is what runs between.

The lines and what a tail is asked for are left out.
-/

namespace Edgelet.FieldAgent.LogSessions

open Lexical Keyed Machine

/-! ## The manager -/

structure LogSession where
  sessionID : Str
  microserviceUUID : Str
  iofogUUID : Str
  status : Str

structure LogSessionInfo where
  session : LogSession
  containerID : Str := []
  isStreaming : Bool := false
  streamingStartedAt : Option ℤ := none
  tailCancel : Option ℕ := none

def LogSessionInfo.sessionID (info : LogSessionInfo) : Str := info.session.sessionID

def LogSessionInfo.markStreamingStarted (now : ℤ) (info : LogSessionInfo) : LogSessionInfo :=
  { info with isStreaming := true, streamingStartedAt := some now }

inductive TailKind
  | container
  | fog
  deriving DecidableEq

structure Tail where
  kind : TailKind
  stopped : Bool
  cancelled : Bool
  live : Bool

/-- `LogSessionManager`, with all tails that it has made for each session. The maps hold the number
of a tail of the session. -/
structure Manager where
  activeSessions : Table LogSessionInfo.sessionID
  webSocketHandlers : List Str
  localLogReaders : Str → Option ℕ
  tailCallbacks : Str → Option ℕ
  processManager : Bool
  containerEngine : Bool
  tails : Str → List Tail

structure Answers where
  isConnected : Str → Bool
  isConnectedAgain : Str → Bool
  handler : Str → Bool
  connect : Str → Bool
  /-- Models `GetContainer`: the container of a microservice; `none` when there is none or on an
  error. -/
  getContainer : Str → Option Str
  now : ℤ

namespace Manager

variable (m : Manager)

section

variable (ans : Answers) (id : Str) (now : ℤ)

def modifyInfo (f : LogSessionInfo → LogSessionInfo)
    (hf : ∀ info, (f info).sessionID = info.sessionID) : Manager :=
  { m with activeSessions := m.activeSessions.updateWhere (·.sessionID == id) f hf }

def modifyTail (n : Option ℕ) (f : Tail → Tail) : Manager :=
  match n with
  | none => m
  | some n => { m with tails := Function.update m.tails id ((m.tails id).modify n f) }

def addTail (kind : TailKind) : Manager :=
  { m with tails := Function.update m.tails id (m.tails id ++ [⟨kind, false, false, true⟩]) }

def stopLogStreamingLocked : Manager :=
  let m := m.modifyTail id (m.localLogReaders id) fun t => { t with stopped := true }
  let m := { m with localLogReaders := Function.update m.localLogReaders id none }
  let m := m.modifyTail id (m.tailCallbacks id) fun t => { t with stopped := true }
  let m := { m with tailCallbacks := Function.update m.tailCallbacks id none }
  let m := m.modifyTail id ((m.activeSessions.get? id).bind (·.tailCancel)) fun t =>
    { t with cancelled := true }
  m.modifyInfo id (fun info =>
    { info with tailCancel := none, isStreaming := false, streamingStartedAt := none }) fun _ => rfl

def startMicroserviceLogStreamingLocked (id microserviceUUID : Str) : Manager :=
  if m.processManager = false then m
  else if m.containerEngine = false then m
  else
    let m := m.stopLogStreamingLocked id
    match ans.getContainer microserviceUUID with
    | none => m
    | some containerID =>
      if !m.webSocketHandlers.contains id then m
      else
        match m.activeSessions.get? id with
        | none => m
        | some info =>
          let n := (m.tails id).length
          { m.addTail id .container with
            activeSessions := m.activeSessions.upsert
              ({ info with tailCancel := some n, containerID := containerID }
                |>.markStreamingStarted ans.now)
            tailCallbacks := Function.update m.tailCallbacks id (some n) }

def startFogLogStreamingLocked : Manager :=
  let m := m.stopLogStreamingLocked id
  if !m.webSocketHandlers.contains id then m
  else
    { m.addTail id .fog with
      localLogReaders := Function.update m.localLogReaders id (some (m.tails id).length) }

def markStreamingStarted : Manager :=
  m.modifyInfo id (·.markStreamingStarted now) fun _ => rfl

def startUnlessStreaming (otherwise : LogSession → Manager) : Manager :=
  match m.activeSessions.get? id with
  | none => m
  | some info =>
    if info.isStreaming then m
    else
      let m := if info.session.microserviceUUID ≠ [] then
          m.startMicroserviceLogStreamingLocked ans id info.session.microserviceUUID
        else otherwise info.session
      m.markStreamingStarted id ans.now

def startLogStreamingLocked : Manager :=
  m.startUnlessStreaming ans id fun _ => m.startFogLogStreamingLocked id

def startLogStreamingOnActivation : Manager :=
  m.startUnlessStreaming ans id fun session =>
    if session.iofogUUID ≠ [] then m.startFogLogStreamingLocked id else m

def stopLogSessionLocked : Manager :=
  let m := m.stopLogStreamingLocked id
  { m with webSocketHandlers := m.webSocketHandlers.filter (· != id)
           activeSessions := m.activeSessions.deleteWhere (·.sessionID == id) }

def startLogSessionLocked (session : LogSession) : Manager :=
  let id := session.sessionID
  let m := { m with activeSessions := m.activeSessions.upsert { session } }
  if ans.handler id = false then m.stopLogSessionLocked id
  else
    let m := { m with webSocketHandlers := id :: m.webSocketHandlers }
    if ans.connect id = false then m.stopLogSessionLocked id
    else if session.microserviceUUID = [] ∧ session.iofogUUID = [] then m.stopLogSessionLocked id
    else m

def activate (session : LogSession) : Manager :=
  if session.status = "ACTIVE".toList then m.startLogStreamingLocked ans session.sessionID else m

/-- The loop of `HandleLogSessions` over the listed sessions, up to the point where it releases the
lock to connect a session anew; the rest of the list, with that session, is left over. -/
def scan (ans : Answers) : Manager → List LogSession → Manager × Option (List LogSession)
  | m, [] => (m, none)
  | m, session :: rest =>
    let id := session.sessionID
    match m.activeSessions.get? id with
    | some info =>
      let m := { m with activeSessions := m.activeSessions.upsert { info with session } }
      if m.webSocketHandlers.contains id && !ans.isConnected id && !ans.isConnectedAgain id then
        (m, some (session :: rest))
      else scan ans (m.activate ans session) rest
    | none => scan ans (m.startLogSessionLocked ans session) rest

def logSessionMaxDuration : ℤ := 24 * 3600 * 1000000000

def expired : List Str :=
  (m.activeSessions.rows.filter fun info => info.isStreaming &&
    match info.streamingStartedAt with
    | none => false
    | some started => decide (logSessionMaxDuration ≤ now - started)).map (·.sessionID)

def expireOldLogSessionsLocked : Manager :=
  (m.expired now).foldl stopLogSessionLocked m

/-! ## The callbacks -/

def notStreaming : Manager :=
  m.modifyInfo id (fun info => { info with isStreaming := false }) fun _ => rfl

def tailEnded : Manager :=
  let m := m.notStreaming id
  { m with tailCallbacks := Function.update m.tailCallbacks id none }

def readerEnded : Manager :=
  let m := m.notStreaming id
  { m with localLogReaders := Function.update m.localLogReaders id none }

def callback : TailKind → Manager
  | .container => m.tailEnded id
  | .fog => m.readerEnded id

end

end Manager

/-! ## The machine -/

structure State where
  manager : Manager
  reconnecting : List (List LogSession)

def initial (processManager containerEngine : Bool) : State :=
  ⟨⟨Table.empty _, [], fun _ => none, fun _ => none, processManager, containerEngine,
    fun _ => []⟩, []⟩

inductive Callback
  | onComplete
  | onError
  /-- The call of `TailContainerLogs` has returned an error to the goroutine of the manager. -/
  | failed
  deriving DecidableEq

inductive Event
  /-- A call with the sessions that the controller lists, and the order in which the map of the
  entries is iterated. -/
  | handleLogSessions (fetched : List LogSession) (order : List Str) (ans : Answers)
  | reconnected (n : ℕ) (ans : Answers)
  | startLogStreamingOnActivation (id : Str) (ans : Answers)
  | handleWebSocketTransportClose (id : Str)
  | stopLogSession (id : Str)
  | expireOldLogSessions (now : ℤ)
  | setProcessManager (present : Bool)
  | setEngine (present : Bool)
  | callback (id : Str) (n : ℕ) (c : Callback)
  | finish (id : Str) (n : ℕ)

def step (s : State) : Event → Option State
  | .handleLogSessions fetched order ans =>
    if order.Perm (s.manager.activeSessions.rows.map (·.sessionID)) then
      let gone := order.filter fun id => !(fetched.map (·.sessionID)).contains id
      let next := Manager.scan ans (gone.foldl Manager.stopLogSessionLocked s.manager) fetched
      some ⟨next.1, s.reconnecting ++ next.2.toList⟩
    else none
  | .reconnected n ans =>
    match s.reconnecting[n]? with
    | some (session :: rest) =>
      let next := Manager.scan ans (s.manager.activate ans session) rest
      some ⟨next.1, replaceAt s.reconnecting n next.2⟩
    | _ => none
  | .startLogStreamingOnActivation id ans =>
    some { s with manager := s.manager.startLogStreamingOnActivation ans id }
  | .handleWebSocketTransportClose id =>
    some { s with manager := s.manager.stopLogStreamingLocked id }
  | .stopLogSession id => some { s with manager := s.manager.stopLogSessionLocked id }
  | .expireOldLogSessions now =>
    some { s with manager := s.manager.expireOldLogSessionsLocked now }
  | .setProcessManager present =>
    some { s with manager := { s.manager with processManager := present } }
  | .setEngine present =>
    some { s with manager := { s.manager with containerEngine := present } }
  | .callback id n c =>
    match (s.manager.tails id)[n]? with
    | some t =>
      if t.live = true ∧ (c = .failed → t.kind = .container) then
        some { s with manager := s.manager.callback id t.kind }
      else none
    | none => none
  | .finish id n =>
    some { s with manager := s.manager.modifyTail id (some n) fun t => { t with live := false } }

/-! ## Old tails -/

namespace Manager

variable (m : Manager) (id : Str)

def streaming : Bool := ((m.activeSessions.get? id).map (·.isStreaming)).getD false

/-- The tail has been stopped or replaced: it was told to stop, its context is cancelled, or the
session has a newer one. -/
def Superseded (n : ℕ) : Prop :=
  ∃ t, (m.tails id)[n]? = some t ∧
    (t.stopped = true ∨ t.cancelled = true ∨ n + 1 < (m.tails id).length)

def Old (n : ℕ) : Prop := m.Superseded id n ∧ ∃ t, (m.tails id)[n]? = some t ∧ t.live = true

structure Silent : Prop where
  streaming : m.streaming id = false
  callback : m.tailCallbacks id = none
  reader : m.localLogReaders id = none

def Calm : Prop := ∀ n, m.Old id n → m.Silent id

end Manager

structure Undisturbed (m m' : Manager) (id : Str) : Prop where
  streaming : m'.streaming id = m.streaming id
  callback : m'.tailCallbacks id = m.tailCallbacks id
  reader : m'.localLogReaders id = m.localLogReaders id
  tails : m'.tails id = m.tails id

/-- **Old tails are harmless**: the callback of a tail that has been stopped or replaced leaves the
session as it is. -/
def Harmless (s : State) : Prop :=
  ∀ id n c s', s.manager.Superseded id n → step s (.callback id n c) = some s' →
    Undisturbed s.manager s'.manager id

/-- **The condition**: where a step starts the stream of a session, the tails of the session that it
stops or replaces, and those stopped before, have all made their last call. -/
def Fresh (s : State) (ev : Event) : Prop :=
  ∀ s', step s ev = some s' → ∀ id, s.manager.streaming id = false →
    s'.manager.streaming id = true → ∀ n, ¬ s'.manager.Old id n

variable {m m' : Manager} {id id' : Str} {ans : Answers}

theorem streaming_of_get? {info : LogSessionInfo} (h : m.activeSessions.get? id = some info) :
    m.streaming id = info.isStreaming := by
  simp [Manager.streaming, h]

theorem streaming_upsert (m : Manager) (info : LogSessionInfo) (handlers : List Str) :
    Manager.streaming { m with activeSessions := m.activeSessions.upsert info
                               webSocketHandlers := handlers } info.sessionID =
      info.isStreaming :=
  streaming_of_get? (Table.get?_upsert_of_eq rfl)

theorem streaming_of_get?_none (h : m.activeSessions.get? id = none) : m.streaming id = false := by
  simp [Manager.streaming, h]

/-! ## What the operations leave alone -/

structure Untouched (m m' : Manager) (id : Str) : Prop where
  entry : m'.activeSessions.get? id = m.activeSessions.get? id
  callback : m'.tailCallbacks id = m.tailCallbacks id
  reader : m'.localLogReaders id = m.localLogReaders id
  tails : m'.tails id = m.tails id

theorem Untouched.refl (m : Manager) (id : Str) : Untouched m m id := ⟨rfl, rfl, rfl, rfl⟩

theorem Untouched.trans {m₁ m₂ m₃ : Manager} (h₁ : Untouched m₁ m₂ id) (h₂ : Untouched m₂ m₃ id) :
    Untouched m₁ m₃ id :=
  ⟨h₂.entry.trans h₁.entry, h₂.callback.trans h₁.callback, h₂.reader.trans h₁.reader,
    h₂.tails.trans h₁.tails⟩

theorem untouched_modifyInfo {f : LogSessionInfo → LogSessionInfo}
    {hf : ∀ info, (f info).sessionID = info.sessionID} (h : id ≠ id') :
    Untouched m (m.modifyInfo id' f hf) id := by
  refine ⟨?_, rfl, rfl, rfl⟩
  show (m.activeSessions.updateWhere _ f hf).get? id = _
  rw [Table.get?_updateWhere]
  cases hget : m.activeSessions.get? id with
  | none => rfl
  | some info =>
    have hid := (Table.get?_eq_some_iff.mp hget).2
    simp [hid, h]

variable {f : Tail → Tail} {n : Option ℕ}

theorem untouched_modifyTail (h : id ≠ id') : Untouched m (m.modifyTail id' n f) id := by
  cases n with
  | none => exact .refl m id
  | some n => exact ⟨rfl, rfl, rfl, Function.update_of_ne h _ _⟩

theorem untouched_readers {r : Option ℕ} (h : id ≠ id') :
    Untouched m { m with localLogReaders := Function.update m.localLogReaders id' r } id :=
  ⟨rfl, rfl, Function.update_of_ne h _ _, rfl⟩

theorem untouched_callbacks {c : Option ℕ} (h : id ≠ id') :
    Untouched m { m with tailCallbacks := Function.update m.tailCallbacks id' c } id :=
  ⟨rfl, Function.update_of_ne h _ _, rfl, rfl⟩

theorem untouched_upsert (m : Manager) (info : LogSessionInfo) (h : id ≠ info.sessionID) :
    Untouched m { m with activeSessions := m.activeSessions.upsert info } id := by
  refine ⟨?_, rfl, rfl, rfl⟩
  show (m.activeSessions.upsert info).get? id = _
  rw [Table.get?_upsert, if_neg (Ne.symm h)]

theorem untouched_stopLogStreaming (h : id ≠ id') : Untouched m (m.stopLogStreamingLocked id') id :=
  (untouched_modifyTail h).trans <| (untouched_readers h).trans <|
    (untouched_modifyTail h).trans <| (untouched_callbacks h).trans <|
    (untouched_modifyTail h).trans (untouched_modifyInfo h)

theorem untouched_stopLogSession (h : id ≠ id') : Untouched m (m.stopLogSessionLocked id') id := by
  refine (untouched_stopLogStreaming h).trans ⟨?_, rfl, rfl, rfl⟩
  refine Table.get?_deleteWhere_of_false fun info hid => ?_
  simpa [hid] using h

theorem untouched_startMicroservice {uuid : Str} (h : id ≠ id') :
    Untouched m (m.startMicroserviceLogStreamingLocked ans id' uuid) id := by
  have hstop := untouched_stopLogStreaming (m := m) h
  unfold Manager.startMicroserviceLogStreamingLocked
  split
  · exact .refl m id
  split
  · exact .refl m id
  simp only
  split
  · exact hstop
  split
  · exact hstop
  split
  · exact hstop
  case h_2 info hinfo =>
    refine hstop.trans ⟨?_, Function.update_of_ne h _ _, rfl, Function.update_of_ne h _ _⟩
    have hid : info.sessionID = id' := (Table.get?_eq_some_iff.mp hinfo).2
    exact (Table.get?_upsert _ _ id).trans (if_neg fun e => h (e.symm.trans hid))

theorem untouched_startFog (h : id ≠ id') : Untouched m (m.startFogLogStreamingLocked id') id := by
  have hstop := untouched_stopLogStreaming (m := m) h
  unfold Manager.startFogLogStreamingLocked
  simp only
  split
  · exact hstop
  · exact hstop.trans ⟨rfl, rfl, Function.update_of_ne h _ _, Function.update_of_ne h _ _⟩

inductive Begins (m : Manager) (ans : Answers) (id : Str) : Manager → Prop
  | microservice (uuid : Str) : Begins m ans id (m.startMicroserviceLogStreamingLocked ans id uuid)
  | fog : Begins m ans id (m.startFogLogStreamingLocked id)
  | nothing : Begins m ans id m

inductive Starts (m : Manager) (ans : Answers) (id : Str) : Manager → Prop
  | refuses : Starts m ans id m
  | marks {info : LogSessionInfo} {m' : Manager} (entry : m.activeSessions.get? id = some info)
      (off : info.isStreaming = false) (begins : Begins m ans id m') :
      Starts m ans id (m'.markStreamingStarted id ans.now)

theorem starts_unlessStreaming {otherwise : LogSession → Manager}
    (h : ∀ session, Begins m ans id (otherwise session)) :
    Starts m ans id (m.startUnlessStreaming ans id otherwise) := by
  unfold Manager.startUnlessStreaming
  split
  · exact .refuses
  next info hinfo =>
    split
    · exact .refuses
    next hoff =>
      refine .marks hinfo (Bool.eq_false_iff.mpr hoff) ?_
      split
      · exact .microservice _
      · exact h info.session

theorem starts_startLogStreaming : Starts m ans id (m.startLogStreamingLocked ans id) :=
  starts_unlessStreaming fun _ => .fog

theorem starts_startOnActivation : Starts m ans id (m.startLogStreamingOnActivation ans id) := by
  refine starts_unlessStreaming fun session => ?_
  split
  · exact .fog
  · exact .nothing

theorem Begins.untouched (hbegins : Begins m ans id' m') (h : id ≠ id') : Untouched m m' id := by
  cases hbegins with
  | microservice uuid => exact untouched_startMicroservice h
  | fog => exact untouched_startFog h
  | nothing => exact .refl m id

theorem Starts.untouched (hstarts : Starts m ans id' m') (h : id ≠ id') : Untouched m m' id := by
  cases hstarts with
  | refuses => exact .refl m id
  | marks _ _ hbegins => exact (hbegins.untouched h).trans (untouched_modifyInfo h)

variable {session : LogSession}

theorem untouched_activate (h : id ≠ session.sessionID) :
    Untouched m (m.activate ans session) id := by
  unfold Manager.activate
  split
  · exact starts_startLogStreaming.untouched h
  · exact .refl m id

theorem untouched_startLogSession (h : id ≠ session.sessionID) :
    Untouched m (m.startLogSessionLocked ans session) id := by
  have hentry := untouched_upsert m { session } h
  have hhandler : Untouched m { m with
      activeSessions := m.activeSessions.upsert { session }
      webSocketHandlers := session.sessionID :: m.webSocketHandlers } id :=
    hentry.trans ⟨rfl, rfl, rfl, rfl⟩
  unfold Manager.startLogSessionLocked
  simp only
  split
  · exact hentry.trans (untouched_stopLogSession h)
  split
  · exact hhandler.trans (untouched_stopLogSession h)
  split
  · exact hhandler.trans (untouched_stopLogSession h)
  · exact hhandler

variable {kind : TailKind}

theorem untouched_callback (h : id ≠ id') : Untouched m (m.callback id' kind) id := by
  cases kind with
  | container => exact (untouched_modifyInfo h).trans (untouched_callbacks h)
  | fog => exact (untouched_modifyInfo h).trans (untouched_readers h)

theorem untouched_scan {sessions : List LogSession}
    (h : id ∉ sessions.map (·.sessionID)) : Untouched m (Manager.scan ans m sessions).1 id := by
  induction sessions generalizing m with
  | nil => exact .refl m id
  | cons session rest ih =>
    rw [List.map_cons, List.mem_cons, not_or] at h
    simp only [Manager.scan]
    split
    next info hinfo =>
      have hentry := untouched_upsert m { info with session } h.1
      split
      · exact hentry
      · exact (hentry.trans (untouched_activate h.1)).trans (ih h.2)
    next => exact (untouched_startLogSession h.1).trans (ih h.2)

theorem untouched_stopAll {ids : List Str} (h : id ∉ ids) :
    Untouched m (ids.foldl Manager.stopLogSessionLocked m) id := by
  induction ids generalizing m with
  | nil => exact .refl m id
  | cons id' ids ih =>
    rw [List.mem_cons, not_or] at h
    exact (untouched_stopLogSession h.1).trans (ih h.2)

/-! ## A session that is stopped -/

theorem get?_modifyInfo {f : LogSessionInfo → LogSessionInfo}
    {hf : ∀ info, (f info).sessionID = info.sessionID} :
    (m.modifyInfo id f hf).activeSessions.get? id = (m.activeSessions.get? id).map f := by
  show (m.activeSessions.updateWhere _ f hf).get? id = _
  rw [Table.get?_updateWhere]
  cases hget : m.activeSessions.get? id with
  | none => rfl
  | some info =>
    have hid : info.sessionID = id := (Table.get?_eq_some_iff.mp hget).2
    simp [hid]

@[simp] theorem activeSessions_modifyTail :
    (m.modifyTail id n f).activeSessions = m.activeSessions := by
  cases n <;> rfl

@[simp] theorem tailCallbacks_modifyTail :
    (m.modifyTail id n f).tailCallbacks = m.tailCallbacks := by
  cases n <;> rfl

@[simp] theorem localLogReaders_modifyTail :
    (m.modifyTail id n f).localLogReaders = m.localLogReaders := by
  cases n <;> rfl

theorem get?_stopLogStreaming :
    (m.stopLogStreamingLocked id).activeSessions.get? id =
      (m.activeSessions.get? id).map fun info =>
        { info with tailCancel := none, isStreaming := false, streamingStartedAt := none } := by
  refine get?_modifyInfo.trans ?_
  simp only [activeSessions_modifyTail]

theorem silent_stopLogStreaming : (m.stopLogStreamingLocked id).Silent id := by
  constructor
  · unfold Manager.streaming
    rw [get?_stopLogStreaming]
    cases m.activeSessions.get? id <;> rfl
  · show (Manager.modifyTail _ _ _ _).tailCallbacks id = none
    simp
  · show (Manager.modifyTail _ _ _ _).localLogReaders id = none
    simp

theorem silent_stopLogSession : (m.stopLogSessionLocked id).Silent id := by
  have h : (m.stopLogStreamingLocked id).Silent id := silent_stopLogStreaming
  refine ⟨streaming_of_get?_none ?_, h.callback, h.reader⟩
  exact Table.get?_deleteWhere_of_true fun info hid => by simp [hid]

/-! ## A session that is started -/

section

variable (h : (m.activeSessions.get? id).isSome)

include h

theorem isSome_stopLogStreaming :
    ((m.stopLogStreamingLocked id).activeSessions.get? id).isSome := by
  rw [get?_stopLogStreaming, Option.isSome_map]
  exact h

theorem isSome_startMicroservice {uuid : Str} :
    ((m.startMicroserviceLogStreamingLocked ans id uuid).activeSessions.get? id).isSome := by
  have hstop := isSome_stopLogStreaming h
  unfold Manager.startMicroserviceLogStreamingLocked
  split
  · exact h
  split
  · exact h
  simp only
  split
  · exact hstop
  split
  · exact hstop
  split
  · exact hstop
  case h_2 info hinfo =>
    have hid : info.sessionID = id := (Table.get?_eq_some_iff.mp hinfo).2
    exact Option.isSome_of_mem (Table.get?_upsert_of_eq hid)

theorem isSome_startFog : ((m.startFogLogStreamingLocked id).activeSessions.get? id).isSome := by
  have hstop := isSome_stopLogStreaming h
  unfold Manager.startFogLogStreamingLocked
  simp only
  split
  · exact hstop
  · exact hstop

theorem streaming_markStreamingStarted {now : ℤ} :
    (m.markStreamingStarted id now).streaming id = true := by
  obtain ⟨info, hinfo⟩ := Option.isSome_iff_exists.mp h
  have hentry : (m.markStreamingStarted id now).activeSessions.get? id =
      some (info.markStreamingStarted now) :=
    get?_modifyInfo.trans (congrArg (Option.map _) hinfo)
  exact streaming_of_get? hentry

end

theorem Begins.isSome (hbegins : Begins m ans id m') (h : (m.activeSessions.get? id).isSome) :
    (m'.activeSessions.get? id).isSome := by
  cases hbegins with
  | microservice uuid => exact isSome_startMicroservice h
  | fog => exact isSome_startFog h
  | nothing => exact h

theorem Starts.eq_or (hstarts : Starts m ans id m') :
    m' = m ∨ m.streaming id = false ∧ m'.streaming id = true := by
  cases hstarts with
  | refuses => exact .inl rfl
  | marks hinfo hoff hbegins =>
    have hsome : (m.activeSessions.get? id).isSome := by simp [hinfo]
    exact .inr ⟨(streaming_of_get? hinfo).trans hoff,
      streaming_markStreamingStarted (hbegins.isSome hsome)⟩

/-! ## What a step does to a session -/

theorem old_congr {n : ℕ} (h : m'.tails id = m.tails id) : m'.Old id n ↔ m.Old id n := by
  simp only [Manager.Old, Manager.Superseded, h]

theorem Silent.calm (h : m.Silent id) : m.Calm id := fun _ _ => h

theorem Untouched.streaming_eq (h : Untouched m m' id) : m'.streaming id = m.streaming id := by
  simp only [Manager.streaming, h.entry]

theorem Untouched.silent (h : Untouched m m' id) (hm : m.Silent id) : m'.Silent id :=
  ⟨h.streaming_eq.trans hm.streaming, h.callback.trans hm.callback, h.reader.trans hm.reader⟩

theorem Untouched.calm (h : Untouched m m' id) (hm : m.Calm id) : m'.Calm id := fun n hn =>
  h.silent (hm n ((old_congr h.tails).mp hn))

structure KeepsOrStarts (m m' : Manager) (id : Str) : Prop where
  streams : m.streaming id = true → m'.streaming id = true
  calm : m.Calm id → m'.Calm id ∨ m.streaming id = false ∧ m'.streaming id = true

theorem Untouched.keepsOrStarts (h : Untouched m m' id) : KeepsOrStarts m m' id :=
  ⟨fun hm => h.streaming_eq.trans hm, fun hm => .inl (h.calm hm)⟩

theorem KeepsOrStarts.trans {m₁ m₂ m₃ : Manager} (h₁ : KeepsOrStarts m₁ m₂ id)
    (h₂ : KeepsOrStarts m₂ m₃ id) : KeepsOrStarts m₁ m₃ id := by
  refine ⟨fun h => h₂.streams (h₁.streams h), fun h => ?_⟩
  rcases h₁.calm h with h | ⟨hoff, hon⟩
  · rcases h₂.calm h with h | ⟨hoff, hon⟩
    · exact .inl h
    · refine .inr ⟨?_, hon⟩
      cases hm : m₁.streaming id with
      | false => rfl
      | true => exact (h₁.streams hm).symm.trans hoff
  · exact .inr ⟨hoff, h₂.streams hon⟩

theorem KeepsOrStarts.of_eq_or (h : m' = m ∨ m.streaming id = false ∧ m'.streaming id = true) :
    KeepsOrStarts m m' id := by
  rcases h with rfl | h
  · exact (Untouched.refl _ id).keepsOrStarts
  · exact ⟨fun _ => h.2, fun _ => .inr h⟩

theorem Starts.keepsOrStarts (hstarts : Starts m ans id' m') : KeepsOrStarts m m' id := by
  by_cases h : id = id'
  · subst h
    exact .of_eq_or hstarts.eq_or
  · exact (hstarts.untouched h).keepsOrStarts

theorem keepsOrStarts_activate : KeepsOrStarts m (m.activate ans session) id := by
  unfold Manager.activate
  split
  · exact starts_startLogStreaming.keepsOrStarts
  · exact (Untouched.refl m id).keepsOrStarts

theorem keepsOrStarts_startLogSession (hnone : m.activeSessions.get? session.sessionID = none) :
    KeepsOrStarts m (m.startLogSessionLocked ans session) id := by
  by_cases h : id = session.sessionID
  · subst h
    refine ⟨fun hon => ?_, fun hcalm => .inl ?_⟩
    · rw [streaming_of_get?_none hnone] at hon
      cases hon
    · unfold Manager.startLogSessionLocked
      simp only
      split
      · exact Silent.calm silent_stopLogSession
      split
      · exact Silent.calm silent_stopLogSession
      split
      · exact Silent.calm silent_stopLogSession
      · rintro n hn
        have hm := hcalm n ((old_congr rfl).mp hn)
        exact ⟨streaming_upsert m { session } _, hm.callback, hm.reader⟩
  · exact (untouched_startLogSession h).keepsOrStarts

theorem keepsOrStarts_refresh (id : Str) {info : LogSessionInfo}
    (hinfo : m.activeSessions.get? session.sessionID = some info) :
    KeepsOrStarts m { m with activeSessions := m.activeSessions.upsert { info with session } }
      id := by
  by_cases h : id = session.sessionID
  · subst h
    have hstreaming := (streaming_upsert m { info with session } m.webSocketHandlers).trans
      (streaming_of_get? hinfo).symm
    refine ⟨fun hm => hstreaming.trans hm, fun hm => .inl fun n hn => ?_⟩
    have hs := hm n ((old_congr rfl).mp hn)
    exact ⟨hstreaming.trans hs.streaming, hs.callback, hs.reader⟩
  · exact (untouched_upsert m _ h).keepsOrStarts

theorem keepsOrStarts_scan {sessions : List LogSession} :
    KeepsOrStarts m (Manager.scan ans m sessions).1 id := by
  induction sessions generalizing m with
  | nil => exact (Untouched.refl m id).keepsOrStarts
  | cons session rest ih =>
    simp only [Manager.scan]
    split
    next info hinfo =>
      have hentry := keepsOrStarts_refresh id hinfo
      split
      · exact hentry
      · exact (hentry.trans keepsOrStarts_activate).trans ih
    next hnone => exact (keepsOrStarts_startLogSession hnone).trans ih

theorem calm_stopLogStreaming (h : m.Calm id) : (m.stopLogStreamingLocked id').Calm id := by
  by_cases hid : id = id'
  · subst hid
    exact Silent.calm silent_stopLogStreaming
  · exact (untouched_stopLogStreaming hid).calm h

theorem calm_stopLogSession (h : m.Calm id) : (m.stopLogSessionLocked id').Calm id := by
  by_cases hid : id = id'
  · subst hid
    exact Silent.calm silent_stopLogSession
  · exact (untouched_stopLogSession hid).calm h

theorem calm_stopAll {ids : List Str} (h : m.Calm id) :
    (ids.foldl Manager.stopLogSessionLocked m).Calm id := by
  induction ids generalizing m with
  | nil => exact h
  | cons id' ids ih => exact ih (calm_stopLogSession h)

theorem streaming_callback : (m.callback id kind).streaming id = false := by
  have hoff : (m.notStreaming id).streaming id = false := by
    unfold Manager.streaming
    rw [show (m.notStreaming id).activeSessions.get? id = _ from get?_modifyInfo]
    cases m.activeSessions.get? id <;> rfl
  cases kind with
  | container | fog => exact hoff

theorem silent_callback (kind : TailKind) (h : m.Silent id) : (m.callback id kind).Silent id := by
  refine ⟨streaming_callback, ?_, ?_⟩
  · cases kind with
    | container => exact Function.update_self _ _ _
    | fog => exact h.callback
  · cases kind with
    | container => exact h.reader
    | fog => exact Function.update_self _ _ _

theorem tails_callback : (m.callback id kind).tails = m.tails := by
  cases kind <;> rfl

theorem calm_callback (h : m.Calm id) : (m.callback id' kind).Calm id := by
  by_cases hid : id = id'
  · subst hid
    intro n hn
    exact silent_callback kind (h n ((old_congr (congrFun tails_callback id)).mp hn))
  · exact (untouched_callback hid).calm h

theorem calm_finish {n : ℕ} (h : m.Calm id) :
    (m.modifyTail id' (some n) fun t => { t with live := false }).Calm id := by
  by_cases hid : id = id'
  · subst hid
    rintro k ⟨⟨t, ht, hsup⟩, u, hu, hlive⟩
    have htails : (m.modifyTail id (some n) fun t => { t with live := false }).tails id =
        (m.tails id).modify n fun t => { t with live := false } := Function.update_self _ _ _
    rw [htails, List.getElem?_modify] at ht hu
    rw [htails, List.length_modify] at hsup
    obtain ⟨t₀, ht₀, rfl⟩ := Option.map_eq_some_iff.mp ht
    obtain ⟨u₀, hu₀, rfl⟩ := Option.map_eq_some_iff.mp hu
    have hs : m.Silent id := by
      refine h k ⟨⟨t₀, ht₀, ?_⟩, u₀, hu₀, ?_⟩
      · split at hsup <;> exact hsup
      · split at hlive
        · cases hlive
        · exact hlive
    exact ⟨hs.streaming, hs.callback, hs.reader⟩
  · exact (untouched_modifyTail hid).calm h

/-! ## Runs -/

def State.Calm (s : State) : Prop := ∀ id, s.manager.Calm id

theorem calm_initial (pm engine : Bool) : (initial pm engine).Calm := by
  rintro id n ⟨⟨t, ht, -⟩, -⟩
  cases ht

theorem calm_or_started {s s' : State} {ev : Event} (hs : s.Calm) (h : step s ev = some s')
    (id : Str) :
    s'.manager.Calm id ∨ s.manager.streaming id = false ∧ s'.manager.streaming id = true := by
  cases ev with
  | handleLogSessions fetched order ans =>
    simp only [step, Option.ite_none_right_eq_some, Option.some.injEq] at h
    obtain ⟨-, rfl⟩ := h
    generalize hgone : (order.filter fun id => !(fetched.map (·.sessionID)).contains id) = gone
    by_cases hid : id ∈ gone
    · have hunlisted : id ∉ fetched.map (·.sessionID) := by
        rw [← hgone, List.mem_filter] at hid
        simpa using hid.2
      exact .inl ((untouched_scan hunlisted).calm (calm_stopAll (hs id)))
    · have hstops : Untouched s.manager (gone.foldl Manager.stopLogSessionLocked s.manager) id :=
        untouched_stopAll hid
      exact (hstops.keepsOrStarts.trans keepsOrStarts_scan).calm (hs id)
  | reconnected n ans =>
    simp only [step] at h
    split at h
    · cases h
      exact (keepsOrStarts_activate.trans keepsOrStarts_scan).calm (hs id)
    · cases h
  | startLogStreamingOnActivation id' ans =>
    cases h
    exact starts_startOnActivation.keepsOrStarts.calm (hs id)
  | handleWebSocketTransportClose id' =>
    cases h
    exact .inl (calm_stopLogStreaming (hs id))
  | stopLogSession id' =>
    cases h
    exact .inl (calm_stopLogSession (hs id))
  | expireOldLogSessions now =>
    cases h
    exact .inl (calm_stopAll (hs id))
  | setProcessManager present | setEngine present =>
    cases h
    refine .inl (Untouched.calm (m := s.manager) ?_ (hs id))
    exact ⟨rfl, rfl, rfl, rfl⟩
  | callback id' n c =>
    simp only [step] at h
    split at h
    · split at h
      · cases h
        exact .inl (calm_callback (hs id))
      · cases h
    · cases h
  | finish id' n =>
    cases h
    exact .inl (calm_finish (hs id))

theorem calm_step (s : State) (ev : Event) (s' : State) (hs : s.Calm) (hfresh : Fresh s ev)
    (h : step s ev = some s') : s'.Calm := by
  intro id
  rcases calm_or_started hs h id with hcalm | ⟨hoff, hon⟩
  · exact hcalm
  · exact fun n hn => absurd hn (hfresh s' h id hoff hon n)

theorem step_callback_eq_some {s s' : State} {n : ℕ} {c : Callback}
    (h : step s (.callback id n c) = some s') :
    ∃ t, (s.manager.tails id)[n]? = some t ∧ t.live = true ∧
      s'.manager = s.manager.callback id t.kind := by
  simp only [step] at h
  split at h
  next t ht =>
    split at h
    next hlive =>
      cases h
      exact ⟨t, ht, hlive.1, rfl⟩
    · cases h
  · cases h

theorem State.Calm.harmless (s : State) (hs : s.Calm) : Harmless s := by
  rintro id n c s' hsup hstep
  obtain ⟨t, ht, hlive, hs'⟩ := step_callback_eq_some hstep
  have hbefore := hs id n ⟨hsup, t, ht, hlive⟩
  have hafter := silent_callback t.kind hbefore
  rw [← hs'] at hafter
  refine ⟨hafter.streaming.trans hbefore.streaming.symm,
    hafter.callback.trans hbefore.callback.symm, hafter.reader.trans hbefore.reader.symm, ?_⟩
  rw [hs']
  exact congrFun tails_callback id

theorem Harmless.not_old {s : State} (hs : Harmless s) (hon : s.manager.streaming id = true)
    (n : ℕ) : ¬ s.manager.Old id n := by
  rintro ⟨hsup, t, ht, hlive⟩
  have hstep : step s (.callback id n .onComplete) =
      some { s with manager := s.manager.callback id t.kind } := by
    simp [step, ht, hlive]
  have hsame := (hs id n .onComplete _ hsup hstep).streaming
  have hoff : (s.manager.callback id t.kind).streaming id = false := streaming_callback
  rw [show Manager.streaming _ id = false from hoff, hon] at hsame
  cases hsame

/-- **When old tails cannot disturb a newer one**: the callbacks of the tails that have been stopped
or replaced leave their sessions as they are, all along a run, exactly when no start of the run
leaves such a tail of its session that may still call back. -/
theorem oldTails_harmless_iff (processManager containerEngine : Bool) (evs : List Event) :
    Throughout step Harmless (initial processManager containerEngine) evs ↔
      Along step Fresh (initial processManager containerEngine) evs := by
  apply throughout_iff_along State.Calm.harmless calm_step _ (calm_initial _ _)
  intro s ev _ hafter s' hs' id _ hon n
  exact (hafter s' hs').not_old hon n

def streamed : LogSession := ⟨"a".toList, "web".toList, [], "PENDING".toList⟩

def found (connected : Bool) : Answers :=
  ⟨fun _ => connected, fun _ => connected, fun _ => true, fun _ => true,
    fun _ => some "c".toList, 0⟩

/-- **A late callback**: the session is streamed, its transport closes, the connection is made anew
and the stream is started again. The first tail then reports its end: the flag of the session is
cleared and the tail callback removed, which are those of the second tail. -/
theorem oldTail_ends_newer :
    ∃ s s', run step (initial true true)
        [.handleLogSessions [streamed] [] (found true),
          .startLogStreamingOnActivation "a".toList (found true),
          .handleWebSocketTransportClose "a".toList,
          .handleLogSessions [streamed] ["a".toList] (found false),
          .reconnected 0 (found true),
          .startLogStreamingOnActivation "a".toList (found true)] = some s ∧
      s.manager.Superseded "a".toList 0 ∧
      s.manager.streaming "a".toList = true ∧ s.manager.tailCallbacks "a".toList = some 1 ∧
      step s (.callback "a".toList 0 .onComplete) = some s' ∧
      s'.manager.streaming "a".toList = false ∧ s'.manager.tailCallbacks "a".toList = none := by
  refine ⟨_, _, rfl, ⟨_, rfl, ?_⟩, ?_, ?_, rfl, ?_, ?_⟩ <;> decide

end Edgelet.FieldAgent.LogSessions
