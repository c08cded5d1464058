import Edgelet.Machine.Run
import Edgelet.ProcessManager.ExecRegistry

/-!
# The runtime execs of interactive sessions

The identifier of an exec is made of the first twelve characters of the container, the owner, and
the first eight of the session: two sessions that agree in these share an exec. Before an exec is
created, the engine stops all execs of the container without a registered session. That set is taken
first and the execs are looked up later, so a session registered in between loses its exec.

A step is one access to the registry or one call of the engine, of which only the set of its execs
matters.
-/

namespace Edgelet.ProcessManager.ExecRuntime

open Lexical Keyed Machine ExecSessionRegistry

/-! ## Proposed identifiers -/

def runtimeExecIDLocal (containerID localSessionID : Str) : Str :=
  containerIDPrefix containerID ++ "-local-".toList ++ sessionPrefix localSessionID

def runtimeExecID : ExecOwner → Str → Str → Str
  | .controller => runtimeExecIDController
  | .localAPI => runtimeExecIDLocal

/-- **Which sessions share an exec**: in containers with full identifiers, those of one owner whose
containers and whose sessions have the same beginning. -/
theorem runtimeExecID_eq_iff {owner owner' : ExecOwner} {c c' session session' : Str}
    (hc : 12 ≤ (trimSpace c).length) (hc' : 12 ≤ (trimSpace c').length) :
    runtimeExecID owner c session = runtimeExecID owner' c' session' ↔
      owner = owner' ∧ containerIDPrefix c = containerIDPrefix c' ∧
        sessionPrefix session = sessionPrefix session' := by
  have hlength : (containerIDPrefix c).length = (containerIDPrefix c').length := by
    simp [containerIDPrefix, hc, hc']
  constructor
  · intro h
    cases owner <;> cases owner' <;>
      simp only [runtimeExecID, runtimeExecIDController, runtimeExecIDLocal,
        List.append_assoc] at h <;>
      obtain ⟨hcontainer, hrest⟩ := List.append_inj h hlength
    · exact ⟨rfl, hcontainer, List.append_cancel_left hrest⟩
    · cases hrest
    · cases hrest
    · exact ⟨rfl, hcontainer, List.append_cancel_left hrest⟩
  · rintro ⟨rfl, hcontainer, hsession⟩
    cases owner <;>
      simp [runtimeExecID, runtimeExecIDController, runtimeExecIDLocal, hcontainer, hsession]

/-! ## The machine -/

structure Job where
  session : Str
  container : Str
  exec : Str

def jobOf (rec : ExecSessionRecord) : Job :=
  ⟨rec.sessionID, rec.containerID, trimSpace rec.runtimeExecID⟩

inductive Pc
  | keep
  | load (kept : List Str)
  | sweep (doomed : List Str)
  | create
  | setRuntimeExecID
  | launch
  | wait
  | stop
  | markStarted
  | remove

inductive Thread
  | create (job : Job) (pc : Pc)
  /-- The goroutine of `launchExecSessionIO`. -/
  | io (job : Job)
  /-- Models `OnError` of the wrapped callback. -/
  | cleanup (job : Job)
  /-- Models `ReleaseExecSession` before it stops the exec. -/
  | release (job : Job)
  /-- Models `StopAllInteractiveForMicroservice` before it stops the exec of the first session, or
  before it removes its record. -/
  | stopAll (jobs : List Job) (stopped : Bool)

structure State where
  registry : ExecSessionRegistry
  pendingExecs : List (Str × Str)
  execSessions : List (Str × Str)
  threads : List Thread

def initial : State := ⟨Table.empty _, [], [], []⟩

variable (build : ExecOwner → Str → Str → Str) (s : State) (owner : ExecOwner)
  (sessionID msUUID containerID : Str) (r : ExecSessionRegistry) (ok : Bool) (x : Str)

def runtimeExecIDsForContainer (containerID : Str) : List Str :=
  ((r.rows.filter fun rec => trimSpace rec.containerID == trimSpace containerID).map
    fun rec => trimSpace rec.runtimeExecID).filter (· ≠ [])

def isInteractiveExecID (execID : Str) : Bool :=
  occursIn "-exec-".toList execID || occursIn "-local-".toList execID

def orphans (execSessions : List (Str × Str)) (containerID : Str) (keep : List Str) : List Str :=
  if trimSpace containerID = [] then []
  else
    ((execSessions.filter fun e => e.2 == trimSpace containerID).map (·.1)).filter fun x =>
      !keep.contains x && isInteractiveExecID x

def without (execs : List (Str × Str)) : List (Str × Str) := execs.filter (·.1 != x)

/-- Models `stopAndDeleteExecProcess`: an exec that does not run stays pending. -/
def State.stopExec : State :=
  { s with
    pendingExecs :=
      if s.execSessions.any (·.1 == x) then without x s.pendingExecs else s.pendingExecs
    execSessions := without x s.execSessions }

def interactiveForMS (msUUID : Str) : List ExecSessionRecord :=
  r.rows.filter fun rec => trimSpace rec.msUUID == trimSpace msUUID

inductive Event
  /-- Models `createRegistryExecSession`, with the container of the microservice. -/
  | createSession (owner : ExecOwner) (sessionID msUUID containerID : Str)
  | releaseSession (sessionID : Str) (owner : ExecOwner)
  | stopAllInteractive (msUUID : Str) (order : List ExecSessionRecord)
  | exit (execID : Str)
  /-- A thread takes a step; `ok` says which way it goes where there is a choice. -/
  | advance (n : ℕ) (ok : Bool)

def Pc.step (job : Job) (ok : Bool) : Pc → State × List Thread
  | .keep =>
    (s, [.create job (if ok then .load (runtimeExecIDsForContainer s.registry job.container)
      else .create)])
  | .load kept => (s, [.create job (.sweep (orphans s.execSessions job.container kept))])
  | .sweep [] => (s, [.create job .create])
  | .sweep (x :: doomed) => (s.stopExec x, [.create job (.sweep doomed)])
  | .create =>
    if ok ∧ job.exec ≠ [] then
      ({ s with pendingExecs := (job.exec, job.container) :: without job.exec s.pendingExecs },
        [.create job .setRuntimeExecID])
    else (s, [.create job .remove])
  | .setRuntimeExecID =>
    ({ s with registry := s.registry.setRuntimeExecID job.session job.exec },
      [.create job .launch])
  | .launch => (s, .io job :: if ok then [.create job .wait] else [])
  | .wait => (s, [.create job (if ok then .markStarted else .stop)])
  | .stop => (s.stopExec job.exec, [.create job .remove])
  | .markStarted => ({ s with registry := s.registry.markStarted job.session }, [])
  | .remove => ({ s with registry := s.registry.remove job.session }, [])

def Thread.step : Thread → State × List Thread
  | .create job pc => pc.step s job ok
  | .io job =>
    match s.pendingExecs.find? (·.1 == job.exec) with
    | none => (s, [.cleanup job])
    | some pending =>
      if ok then
        ({ s with
          pendingExecs := without job.exec s.pendingExecs
          execSessions := (job.exec, pending.2) :: without job.exec s.execSessions }, [])
      else ({ s with pendingExecs := without job.exec s.pendingExecs }, [.cleanup job])
  | .cleanup job => ({ s with registry := s.registry.remove job.session }, [])
  | .release job => (s.stopExec job.exec, [])
  | .stopAll [] _ => (s, [])
  | .stopAll (job :: jobs) false => (s.stopExec job.exec, [.stopAll (job :: jobs) true])
  | .stopAll (job :: jobs) true =>
    ({ s with registry := s.registry.remove job.session }, [.stopAll jobs false])

def createSession : State :=
  let id := trimSpace sessionID
  if id = [] ∨ trimSpace msUUID = [] then s
  else
    let hint := build owner containerID id
    match s.registry.register ⟨id, trimSpace msUUID, containerID, hint, owner, false⟩ with
    | .error _ => s
    | .ok registry =>
      { s with
        registry := registry
        threads := s.threads ++ [.create ⟨id, containerID, trimSpace hint⟩ .keep] }

def step : Event → Option State
  | .createSession owner sessionID msUUID containerID =>
    some (createSession build s owner sessionID msUUID containerID)
  | .releaseSession sessionID owner =>
    match s.registry.release sessionID owner with
    | .error _ => some s
    | .ok (rec, registry) =>
      some { s with registry := registry, threads := s.threads ++ [.release (jobOf rec)] }
  | .stopAllInteractive msUUID order =>
    if trimSpace msUUID = [] then some s
    else if order.Perm (interactiveForMS s.registry msUUID) then
      some { s with threads := s.threads ++ [.stopAll (order.map jobOf) false] }
    else none
  | .exit x => some { s with execSessions := without x s.execSessions }
  | .advance n ok =>
    match s.threads[n]? with
    | none => none
    | some t =>
      let next := t.step s ok
      some { next.1 with threads := s.threads.eraseIdx n ++ next.2 }

/-! ## The property -/

/-- **No two sessions share an exec.** -/
def Distinct : Prop :=
  ∀ rec ∈ s.registry, ∀ rec' ∈ s.registry,
    trimSpace rec.runtimeExecID = trimSpace rec'.runtimeExecID → rec.sessionID = rec'.sessionID

instance decidableDistinct (s : State) : Decidable (Distinct s) :=
  inferInstanceAs (Decidable (∀ rec ∈ s.registry.rows, ∀ rec' ∈ s.registry.rows,
    trimSpace rec.runtimeExecID = trimSpace rec'.runtimeExecID → rec.sessionID = rec'.sessionID))

def Thread.stops : Thread → Option (Str × Str)
  | .create job (.sweep (x :: _)) => some (job.session, x)
  | .create job .stop => some (job.session, job.exec)
  | .io job => if ok then some (job.session, job.exec) else none
  | .release job => some (job.session, job.exec)
  | .stopAll (job :: _) false => some (job.session, job.exec)
  | _ => none

/-- **The step is harmless**: if it stops an exec, that is the exec of no registered session other
than the one on whose behalf. -/
def Harmless : Event → Prop
  | .advance n ok =>
    ∀ t, s.threads[n]? = some t → ∀ session x, t.stops ok = some (session, x) →
      ∀ rec ∈ s.registry, trimSpace rec.runtimeExecID = x → rec.sessionID = session
  | _ => True

instance decidableHarmless (s : State) (n : ℕ) (ok : Bool) :
    Decidable (Harmless s (.advance n ok)) :=
  match ht : s.threads[n]? with
  | none => isTrue fun _ h => nomatch ht.symm.trans h
  | some t =>
    match hstops : t.stops ok with
    | none => isTrue fun _ h _ _ h' => by
        cases ht.symm.trans h
        cases hstops.symm.trans h'
    | some stop =>
      decidable_of_iff (∀ rec ∈ s.registry.rows,
          trimSpace rec.runtimeExecID = stop.2 → rec.sessionID = stop.1) <| by
        refine ⟨fun h t' ht' session x hstop => ?_, fun h rec hrec hx => ?_⟩
        · cases ht.symm.trans ht'
          cases hstops.symm.trans hstop
          exact h
        · exact h t ht stop.1 stop.2 hstops rec hrec hx

/-! ## The condition -/

def Thread.jobs : Thread → List Job
  | .create job _ | .io job | .cleanup job | .release job => [job]
  | .stopAll jobs _ => jobs

def Thread.doomed : Thread → List Str
  | .create _ (.sweep doomed) => doomed
  | _ => []

def Thread.sweeping (container : Str) : Thread → Prop
  | .create job (.load _) => trimSpace job.container = trimSpace container
  | _ => False

def Registers (sessionID msUUID : Str) : Prop :=
  trimSpace sessionID ≠ [] ∧ trimSpace msUUID ≠ [] ∧ s.registry.get? (trimSpace sessionID) = none

def newJob (sessionID containerID : Str) : Job :=
  ⟨trimSpace sessionID, containerID,
    trimSpace (build owner containerID (trimSpace sessionID))⟩

def newRecord : ExecSessionRecord :=
  ⟨trimSpace sessionID, trimSpace msUUID, containerID,
    build owner containerID (trimSpace sessionID), owner, false⟩

def NewExec : Event → Prop
  | .createSession owner sessionID msUUID containerID =>
    Registers s sessionID msUUID → ∀ rec ∈ s.registry,
      trimSpace rec.runtimeExecID ≠ (newJob build owner sessionID containerID).exec
  | _ => True

structure Clear (s : State) (job : Job) : Prop where
  jobs : ∀ t ∈ s.threads, ∀ j ∈ t.jobs, j.session ≠ job.session ∧ j.exec ≠ job.exec
  doomed : ∀ t ∈ s.threads, job.exec ∉ t.doomed
  sweeping : ∀ t ∈ s.threads, ¬ t.sweeping job.container
  elsewhere : ∀ e ∈ s.pendingExecs ++ s.execSessions, e.1 = job.exec →
    trimSpace e.2 = trimSpace job.container

/-- **The registration is fresh**: the exec is not that of a registered session, no call under way
is about the session or its exec, no sweep of the container is between its two looks, and the engine
has no exec of the identifier in another container. -/
def Fresh (ev : Event) : Prop :=
  NewExec build s ev ∧
    match ev with
    | .createSession owner sessionID msUUID containerID =>
      Registers s sessionID msUUID → Clear s (newJob build owner sessionID containerID)
    | _ => True

end Edgelet.ProcessManager.ExecRuntime
