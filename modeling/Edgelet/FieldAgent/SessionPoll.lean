import Edgelet.FieldAgent.ControllerAPI
import Edgelet.FieldAgent.ExecSessions
import Edgelet.FieldAgent.Initialization
import Edgelet.FieldAgent.LogSessions
import Edgelet.FieldAgent.ParseMicroservice

/-!
# Polls of the session lists

Sessions that are not in the list of the controller are stopped. An agent that is not connected does
not ask and goes on with an empty list, and so does one whose answer has no list; only a request
that fails keeps the sessions. A tick first stops the log sessions that have been streamed for a
day, which is no part of the poll.
-/

namespace Edgelet.FieldAgent.SessionPoll

open Lexical Json Machine
open Initialization (ControllerStatus)

/-! ## Fetching a list -/

structure Connection where
  controllerVerified : Bool
  controllerStatus : ControllerStatus

namespace Connection

variable (c : Connection)

def notProvisioned : Bool := c.controllerStatus = .notProvisioned

def isControllerConnected : Bool :=
  if c.notProvisioned then false else c.controllerVerified && c.controllerStatus = .ok

end Connection

structure Answer where
  connection : Connection
  response : Except Failure (Object ℚ)

def fetchSessions {σ : Type} (key label : String) (parse : Object ℚ → Option σ) (a : Answer) :
    Except Failure (List σ) :=
  if a.connection.notProvisioned || !a.connection.isControllerConnected then .ok []
  else
    match a.response with
    | .error e => .error (.wrap label.toList e)
    | .ok result =>
      match arr? result key with
      | none => .ok []
      | some sessions => .ok ((objects sessions).filterMap parse)

variable (a : Answer) (order : List Str) (answers : List ExecSessions.Answers)
  (ans : LogSessions.Answers) (n : Node) (data : Object ℚ) (p : Poll)

def parseLogSession : Option LogSessions.LogSession :=
  (str? data "sessionId").map fun sessionID =>
    { sessionID
      microserviceUUID := (str? data "microserviceUuid").getD []
      iofogUUID := (str? data "iofogUuid").getD []
      status := (str? data "status").getD "PENDING".toList }

def parseExecSession : Option ExecSessions.ExecSession := do
  let sessionID ← str? data "sessionId"
  let microserviceUUID := (str? data "microserviceUuid").getD []
  if microserviceUUID = [] then none
  else
    some
      { sessionID
        microserviceUUID
        status := (str? data "status").getD "PENDING".toList
        agentConnected := (bool? data "agentConnected").getD false }

def fetchLogSessions : Answer → Except Failure (List LogSessions.LogSession) :=
  fetchSessions "logSessions" "unable to get log sessions" parseLogSession

def fetchExecSessions : Answer → Except Failure (List ExecSessions.ExecSession) :=
  fetchSessions "execSessions" "unable to get exec sessions" parseExecSession

/-! ## Polls -/

structure Node where
  logs : LogSessions.State
  execs : ExecSessions.Manager

def handleLogSessions (fetched : List LogSessions.LogSession) (order : List Str)
    (ans : LogSessions.Answers) (s : LogSessions.State) : Option LogSessions.State :=
  LogSessions.step s (.handleLogSessions fetched order ans)

/-- `HandleExecSessions` from its start to its return, with an answer for each of its stretches:
`none` when they are not as many as the call has, or the order is not that of the map. -/
def handleExecSessions (fetched : List ExecSessions.ExecSession) (order : List Str)
    (answers : List ExecSessions.Answers) (m : ExecSessions.Manager) :
    Option ExecSessions.Manager :=
  match run ExecSessions.step ⟨m, []⟩
      (.handleExecSessions fetched order :: answers.map (.advance 0 ·)) with
  | some ⟨m', []⟩ => some m'
  | _ => none

inductive Poll
  | workerTick (now : ℤ) (order : List Str) (ans : LogSessions.Answers)
  | logSessions (order : List Str) (ans : LogSessions.Answers)
  | execSessions (order : List Str) (answers : List ExecSessions.Answers)

def Poll.before : Poll → Node
  | .workerTick now _ _ =>
    { n with logs := { n.logs with manager := n.logs.manager.expireOldLogSessionsLocked now } }
  | .logSessions .. | .execSessions .. => n

def pollLogSessions : Option Node :=
  match fetchLogSessions a with
  | .error _ => some n
  | .ok sessions => (handleLogSessions sessions order ans n.logs).map ({ n with logs := · })

def pollExecSessions : Option Node :=
  match fetchExecSessions a with
  | .error _ => some n
  | .ok sessions => (handleExecSessions sessions order answers n.execs).map ({ n with execs := · })

/-- **A poll**, from the tick or the flag to its end. -/
def Poll.run : Option Node :=
  match p with
  | .workerTick _ order ans | .logSessions order ans => pollLogSessions a order ans (p.before n)
  | .execSessions order answers => pollExecSessions a order answers (p.before n)

/-! ## Polls without a list -/

def Poll.key : Poll → String
  | .workerTick .. | .logSessions .. => "logSessions"
  | .execSessions .. => "execSessions"

/-- **The poll has obtained a list** from the controller: it was connected, the request did not
fail, and the answer has an array of sessions. -/
def Poll.Obtained : Prop :=
  a.connection.isControllerConnected = true ∧
    ∃ result, a.response = .ok result ∧ (arr? result p.key).isSome

def Answer.RequestFailed : Prop :=
  a.connection.isControllerConnected = true ∧ ∃ failure, a.response = .error failure

def Node.LogActive (id : Str) : Prop :=
  (n.logs.manager.activeSessions.get? id).isSome

/-- **No active session is stopped**: the log and exec sessions of the first node are all there in
the second. -/
def NothingStopped (n n' : Node) : Prop :=
  (∀ id, n.LogActive id → n'.LogActive id) ∧ ∀ id, n.execs.HasEntry id → n'.execs.HasEntry id

def Poll.NoneActive : Poll → Prop
  | .workerTick .. | .logSessions .. => ∀ id, ¬ n.LogActive id
  | .execSessions .. => ∀ id, ¬ n.execs.HasEntry id

section Fetch

variable {σ : Type} {key label : String} {parse : Object ℚ → Option σ} {a : Answer}

theorem fetchSessions_of_failed (hprov : a.connection.notProvisioned = false)
    (h : a.RequestFailed) : ∃ failure, fetchSessions key label parse a = .error failure := by
  obtain ⟨hconnected, failure, hresponse⟩ := h
  exact ⟨.wrap label.toList failure, by simp [fetchSessions, hprov, hconnected, hresponse]⟩

theorem fetchSessions_of_not_obtained (hfailed : ¬ a.RequestFailed)
    (hno : ¬ (a.connection.isControllerConnected = true ∧
      ∃ result, a.response = .ok result ∧ (arr? result key).isSome)) :
    fetchSessions key label parse a = .ok [] := by
  unfold fetchSessions
  split
  · rfl
  next hasked =>
    have hconnected : a.connection.isControllerConnected = true := by
      by_contra hc
      exact hasked (by simp [hc])
    cases hresponse : a.response with
    | error failure => exact absurd ⟨hconnected, failure, hresponse⟩ hfailed
    | ok result =>
      cases harr : arr? result key with
      | none => simp [harr]
      | some sessions => exact absurd ⟨hconnected, result, hresponse, by simp [harr]⟩ hno

end Fetch

section Handle

theorem get?_stopAll {ids : List Str} {m : LogSessions.Manager} {id : Str} (h : id ∈ ids) :
    (ids.foldl LogSessions.Manager.stopLogSessionLocked m).activeSessions.get? id = none := by
  induction ids generalizing m with
  | nil => cases h
  | cons id' ids ih =>
    by_cases hmem : id ∈ ids
    · exact ih hmem
    · obtain rfl : id = id' := by simpa [hmem] using h
      rw [List.foldl_cons, (LogSessions.untouched_stopAll hmem).entry]
      exact Keyed.Table.get?_deleteWhere_of_true fun info hid => by simp [hid]

theorem handleLogSessions_nil {order : List Str} {ans : LogSessions.Answers}
    {s s' : LogSessions.State} (h : handleLogSessions [] order ans s = some s') (id : Str) :
    s'.manager.activeSessions.get? id = none := by
  simp only [handleLogSessions, LogSessions.step] at h
  split at h
  next hperm =>
    cases h
    simp only [List.map_nil, List.contains_nil, Bool.not_false, List.filter_true,
      LogSessions.Manager.scan]
    by_cases hid : id ∈ order
    · exact get?_stopAll hid
    · rw [(LogSessions.untouched_stopAll hid).entry]
      by_contra hsome
      obtain ⟨info, hinfo⟩ := Option.ne_none_iff_exists'.mp hsome
      obtain ⟨hmem, rfl⟩ := Keyed.Table.get?_eq_some_iff.mp hinfo
      exact hid (hperm.symm.subset (List.mem_map_of_mem hmem))
  next => cases h

variable {answers : List ExecSessions.Answers}

theorem run_alone_cons {m : ExecSessions.Manager} {t : ExecSessions.Thread}
    {ans : ExecSessions.Answers} :
    run ExecSessions.step ⟨m, [t]⟩ ((ans :: answers).map (.advance 0 ·)) =
      run ExecSessions.step
        ⟨(ExecSessions.advance ans m t).1, (ExecSessions.advance ans m t).2.toList⟩
        (answers.map (.advance 0 ·)) := by
  simp [run, ExecSessions.step, replaceAt]

theorem hasEntry_of_stops {ids : List Str}
    {m m' : ExecSessions.Manager}
    (h : run ExecSessions.step ⟨m, [.stopping ids (.scanning [])]⟩ (answers.map (.advance 0 ·)) =
      some ⟨m', []⟩) (id : Str) : m'.HasEntry id ↔ m.HasEntry id ∧ id ∉ ids := by
  induction ids generalizing m answers with
  | nil =>
    cases answers with
    | nil => cases h
    | cons ans answers =>
      rw [run_alone_cons] at h
      cases answers with
      | nil =>
        cases h
        simp [ExecSessions.advance, ExecSessions.scan]
      | cons ans' answers => cases h
  | cons id' ids ih =>
    cases answers with
    | nil => cases h
    | cons ans answers =>
      rw [run_alone_cons] at h
      cases answers with
      | nil => cases h
      | cons ans' answers =>
        have hnext : ExecSessions.Thread.next ids (.scanning []) =
            some (.stopping ids (.scanning [])) := by
          simp [ExecSessions.Thread.next]
        simp only [ExecSessions.advance, Option.toList_some, run_alone_cons, hnext] at h
        rw [ih h, List.mem_cons, not_or, ← and_assoc, ← ExecSessions.hasEntry_remove]
        split <;> rfl

theorem handleExecSessions_nil {order : List Str} {m m' : ExecSessions.Manager}
    (h : handleExecSessions [] order answers m = some m') (id : Str) : ¬ m'.HasEntry id := by
  unfold handleExecSessions at h
  split at h
  next m₁ hrun =>
    cases h
    obtain ⟨s, hstep, hrun⟩ := run_cons_eq_some.mp hrun
    simp only [ExecSessions.step] at hstep
    split at hstep
    next hperm =>
      cases hstep
      simp only [List.map_nil, List.contains_nil, Bool.not_false, List.filter_true,
        List.nil_append] at hrun
      rw [hasEntry_of_stops hrun]
      rintro ⟨⟨session, hmem, rfl⟩, hnot⟩
      exact hnot (hperm.symm.subset (List.mem_map_of_mem hmem))
    next => cases hstep
  next => cases h

end Handle

/-! ## Which polls stop nothing -/

variable {a : Answer} {n n' : Node} {p : Poll}

theorem run_of_failed (hprov : a.connection.notProvisioned = false) (hfailed : a.RequestFailed)
    (hrun : p.run a n = some n') : n' = p.before n := by
  cases p with
  | workerTick now order ans | logSessions order ans =>
    obtain ⟨failure, hfetch⟩ : ∃ failure, fetchLogSessions a = .error failure :=
      fetchSessions_of_failed hprov hfailed
    simp only [Poll.run, pollLogSessions, hfetch, Option.some.injEq] at hrun
    exact hrun.symm
  | execSessions order answers =>
    obtain ⟨failure, hfetch⟩ : ∃ failure, fetchExecSessions a = .error failure :=
      fetchSessions_of_failed hprov hfailed
    simp only [Poll.run, pollExecSessions, hfetch, Option.some.injEq] at hrun
    exact hrun.symm

theorem run_of_not_obtained (hno : ¬ p.Obtained a) (hfailed : ¬ a.RequestFailed)
    (hrun : p.run a n = some n') :
    p.NoneActive n' ∧ (NothingStopped (p.before n) n' ↔ p.NoneActive (p.before n)) := by
  cases p with
  | workerTick now order ans | logSessions order ans =>
    have hfetch : fetchLogSessions a = .ok [] := fetchSessions_of_not_obtained hfailed hno
    simp only [Poll.run, pollLogSessions, hfetch, Option.map_eq_some_iff] at hrun
    obtain ⟨s', hs', rfl⟩ := hrun
    have hgone : ∀ id, ¬ (s'.manager.activeSessions.get? id).isSome := by
      intro id
      simp [handleLogSessions_nil hs' id]
    refine ⟨hgone, fun h id hactive => hgone id (h.1 id hactive), fun h => ⟨?_, fun _ he => he⟩⟩
    exact fun id hactive => absurd hactive (h id)
  | execSessions order answers =>
    have hfetch : fetchExecSessions a = .ok [] := fetchSessions_of_not_obtained hfailed hno
    simp only [Poll.run, pollExecSessions, hfetch, Option.map_eq_some_iff] at hrun
    obtain ⟨m', hm', rfl⟩ := hrun
    have hgone : ∀ id, ¬ m'.HasEntry id := handleExecSessions_nil hm'
    refine ⟨hgone, fun h id hactive => hgone id (h.2 id hactive), fun h => ⟨fun _ he => he, ?_⟩⟩
    exact fun id hactive => absurd hactive (h id)

/-- **Which polls without a list stop nothing**, for every provisioned node, every connection and
every answer: those whose request was made and failed, and those of a node that has no session of
the kind. -/
theorem nothingStopped_iff (hprov : a.connection.notProvisioned = false) (hno : ¬ p.Obtained a)
    (hrun : p.run a n = some n') :
    NothingStopped (p.before n) n' ↔ a.RequestFailed ∨ p.NoneActive (p.before n) := by
  by_cases hfailed : a.RequestFailed
  · rw [run_of_failed hprov hfailed hrun]
    exact iff_of_true ⟨fun _ h => h, fun _ h => h⟩ (.inl hfailed)
  · rw [(run_of_not_obtained hno hfailed hrun).2]
    exact (or_iff_right hfailed).symm

/-! ## A node with a session of each kind -/

def quiet : LogSessions.Answers where
  isConnected _ := true
  isConnectedAgain _ := true
  handler _ := true
  connect _ := true
  getContainer _ := none
  now := 0

def quietExec : ExecSessions.Answers where
  isConnected _ := true
  handler _ := true
  connect := true
  container := .error .notFound
  createExec := none
  running := true

def node : Node where
  logs := ⟨{ (LogSessions.initial true true).manager with
    activeSessions := (Keyed.Table.empty _).upsert { session := ⟨['l'], ['m'], [], ['A']⟩ }
    webSocketHandlers := [['l']] }, []⟩
  execs := { (ExecSessions.initial true).manager with
    activeSessions := (Keyed.Table.empty _).upsert ⟨['e'], ['m'], ['A'], true⟩
    webSocketHandlers := [['e']] }

def answered (response : Except Failure (Object ℚ)) : Answer where
  connection := ⟨true, .ok⟩
  response := response

def disconnected : Answer where
  connection := ⟨false, .notConnected⟩
  response := .ok []

theorem nothingStopped_iff_failed :
    NothingStopped node node ∧ (answered (.error (.text []))).connection.notProvisioned = false :=
  have hno : ¬ (Poll.logSessions [['l']] quiet).Obtained (answered (.error (.text []))) := by
    rintro ⟨-, result, hresponse, -⟩
    cases hresponse
  ⟨(nothingStopped_iff rfl hno rfl).mpr (.inl ⟨rfl, _, rfl⟩), rfl⟩

/-- A worker's tick while the agent is not connected stops the log session, and so does a flag whose
answer has no list in it; a flag that is processed while the agent is not connected stops the exec
session. -/
theorem polls_stop_all :
    (∃ n', (Poll.workerTick 0 [['l']] quiet).run disconnected node = some n' ∧
      node.LogActive ['l'] ∧ ¬ n'.LogActive ['l']) ∧
    (∃ n', (Poll.logSessions [['l']] quiet).run (answered (.ok [])) node = some n' ∧
      node.LogActive ['l'] ∧ ¬ n'.LogActive ['l']) ∧
    (∃ n', (Poll.execSessions [['e']] [quietExec, quietExec, quietExec]).run disconnected node =
      some n' ∧ node.execs.HasEntry ['e'] ∧ ¬ n'.execs.HasEntry ['e']) := by
  refine ⟨⟨_, rfl, rfl, nofun⟩, ⟨_, rfl, rfl, nofun⟩, _, rfl, ?_, ?_⟩
  · exact ⟨_, .head _, rfl⟩
  · rintro ⟨session, hmem, -⟩
    cases hmem

end Edgelet.FieldAgent.SessionPoll
