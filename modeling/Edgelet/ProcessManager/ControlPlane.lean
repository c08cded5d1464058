import Edgelet.Machine.Logged
import Edgelet.Store.ControlPlane

/-!
# A pass over the control plane

A pass reads the row of the control plane once and writes it back several times, so all that it
writes comes from the copy it has read at the start. The container engine and the store answer in
any way. Status reports and the waiting times of image pulls are left out.
-/

namespace Edgelet.ProcessManager.ControlPlane

open Lexical Machine Edgelet.Store

inductive PassCall
  | upsert (statement : Option StoredControlPlane) (result : UpsertResult)
  | other

inductive LaunchError
  | paused
  | volumeInUse
  | pullMiss (message : Str)
  | other (message : Str)

def LaunchError.wait : LaunchError → Bool
  | .paused | .volumeInUse => true
  | _ => false

inductive StartError
  | volumeInUse
  | nonRestartable (message : Str)
  | other (message : Str)

structure LaunchSpec where
  manifestControllerImage : Str
  imageName : Str

structure RuntimeStatus where
  status : Str
  errorMessage : Option Str
  forceRecreate : Bool

structure Env where
  now : ℤ
  clock : ℕ → ℤ
  containerForControlPlane : ℕ → Except Str (Option Str)
  pullReady : ℕ → Bool
  buildControlPlaneLaunchSpec : ℕ → Str → Str → Except Str LaunchSpec
  deferVolumeCreate : ℕ → Bool
  volumeHeld : ℕ → Bool
  ensureControllerImage : ℕ → Except LaunchError Unit
  launch : ℕ → Except LaunchError Str
  removeLocalContainer : ℕ → Except Str Unit
  stopMicroservice : ℕ → Except Str Unit
  getLocalContainerStatus : ℕ → Except Str RuntimeStatus
  startLocalMicroservice : ℕ → Except StartError Unit
  upsert : ℕ → UpsertResult

abbrev M := Logged PassCall

def call {α : Type} (answer : ℕ → α) : M α := ask answer fun _ => .other

def volumeInUseStatusText : Str := "volume in use by a leftover process".toList

def localReconcileMaxFailures : ℤ := 5

variable (item : ControlPlaneDeployment)

def setRuntime (runtime : Str) : ControlPlaneDeployment :=
  { item with runtimeState := runtime, state := runtime }

def bumpControlPlaneFailure (cause runtime : Str) : ControlPlaneDeployment :=
  let item := { item with failureCount := item.failureCount + 1
                          restartCount := item.restartCount + 1
                          lastError := cause }
  if item.failureCount ≥ localReconcileMaxFailures then
    setRuntime item "stuck_in_restart".toList
  else setRuntime item runtime

def controlPlaneLaunchInFlight (now : ℤ) : Bool :=
  let startedAt := if item.lastStartAttemptAt ≤ 0 then item.lastTransitionAt
    else item.lastStartAttemptAt
  if toLower (trimSpace item.runtimeState) ≠ "starting".toList then false
  else if item.generation ≤ item.observedGeneration then false
  else if 0 < startedAt ∧ now - startedAt > 1800 then false
  else true

section Programs

variable (env : Env)

section

variable (item : ControlPlaneDeployment)

def upsert : M (ControlPlaneDeployment × Bool) := do
  let (statement, result) ← ask
    (fun t => (upsertSystemControlPlane (env.clock t) item, env.upsert t))
    fun a => .upsert a.1 a.2
  match statement with
  | none => return (item, false)
  | some r => return (r.dep, result == .ok)

def save : M Unit := do
  let _ ← upsert env item
  return ()

def pauseControlPlaneLaunch : M Unit :=
  save env { setRuntime item "queued".toList with lastTransitionAt := env.now }

def noteControlPlaneVolumeHold : M ControlPlaneDeployment := do
  let (item, _) ← upsert env { item with lastError := volumeInUseStatusText }
  return item

variable (container : Option Str) (spec : LaunchSpec) (message : Str) (runtime : Str)

def noteControlPlaneImagePullMiss (containerUp : Bool) : M ControlPlaneDeployment := do
  let runtime := toLower (trimSpace item.runtimeState)
  let next :=
    if containerUp then
      if runtime = [] ∨ runtime = "failed".toList ∨ runtime = "starting".toList ∨
          runtime = "stuck_in_restart".toList then "running".toList
      else item.runtimeState
    else "queued".toList
  let (item, _) ← upsert env (setRuntime { item with lastError := message } next)
  return item

def launched (containerID image : Str) : ControlPlaneDeployment :=
  { setRuntime item "running".toList with
    containerID := containerID
    image := image
    observedGeneration := item.generation
    failureCount := 0
    lastTransitionAt := env.now }

def launchFailed : ControlPlaneDeployment :=
  { bumpControlPlaneFailure (setRuntime item "failed".toList) message "failed".toList with
    lastTransitionAt := env.now }

def launchControlPlane : M Unit := do
  match ← call fun t => env.buildControlPlaneLaunchSpec t item.manifestYAML item.controllerUUID with
  | .error e => save env (launchFailed env item e)
  | .ok spec =>
    if ← call env.deferVolumeCreate then
      save env { item with lastError := volumeInUseStatusText, lastTransitionAt := env.now }
    else
      let (item, _) ← upsert env
        { setRuntime item "starting".toList with
          lastStartAttemptAt := env.now
          lastTransitionAt := env.now
          image := spec.manifestControllerImage }
      match ← call env.launch with
      | .error .paused => pauseControlPlaneLaunch env item
      | .error .volumeInUse =>
        let _ ← noteControlPlaneVolumeHold env item
        return ()
      | .error (.pullMiss message) =>
        let item ← noteControlPlaneImagePullMiss env item message false
        save env { item with lastTransitionAt := env.now }
      | .error (.other message) => save env (launchFailed env item message)
      | .ok containerID => save env (launched env item containerID spec.imageName)

def relaunch : M (ControlPlaneDeployment × Option LaunchError) := do
  match ← call env.launch with
  | .error .paused => return (item, some .paused)
  | .error .volumeInUse => return (← noteControlPlaneVolumeHold env item, some .volumeInUse)
  | .error (.pullMiss message) =>
    let up := match ← call env.containerForControlPlane with
      | .ok (some _) => true
      | _ => false
    let item ← noteControlPlaneImagePullMiss env item message up
    let (item, _) ← upsert env { item with lastTransitionAt := env.now }
    return (item, some (.pullMiss message))
  | .error (.other message) =>
    return (bumpControlPlaneFailure item message "failed".toList, some (.other message))
  | .ok containerID =>
    let (item, ok) ← upsert env (launched env item containerID spec.imageName)
    return (item, if ok then none else some (.other "failed to upsert system control plane".toList))

def removeExisting : M Unit := do
  match ← call env.containerForControlPlane with
  | .ok (some _) =>
    let _ ← call env.removeLocalContainer
    return ()
  | _ => return ()

def replaceContainer : M (ControlPlaneDeployment × Option LaunchError) := do
  match ← call env.ensureControllerImage with
  | .error (.pullMiss message) =>
    let item ← noteControlPlaneImagePullMiss env item message true
    let (item, _) ← upsert env { item with lastTransitionAt := env.now }
    return (item, some (.pullMiss message))
  | .error e => return (item, some e)
  | .ok () =>
    removeExisting env
    relaunch env item spec

def recreateControlPlaneDeployment : M (ControlPlaneDeployment × Option LaunchError) := do
  match ← call fun t => env.buildControlPlaneLaunchSpec t item.manifestYAML item.controllerUUID with
  | .error e => return (bumpControlPlaneFailure item e "failed".toList, some (.other e))
  | .ok spec =>
    match ← call env.containerForControlPlane with
    | .ok none =>
      if ← call env.volumeHeld then
        return (← noteControlPlaneVolumeHold env item, some .volumeInUse)
      else replaceContainer env item spec
    | _ => replaceContainer env item spec

def startFailed : StartError → M Unit
  | .volumeInUse => do
    let _ ← noteControlPlaneVolumeHold env item
    return ()
  | .nonRestartable message => do
    let (item, e) ← recreateControlPlaneDeployment env item
    match e with
    | none => return ()
    | some e =>
      if e.wait then return ()
      else save env (bumpControlPlaneFailure item message runtime)
  | .other message => save env (bumpControlPlaneFailure item message runtime)

def startAgain : M Unit := do
  match ← call env.startLocalMicroservice with
  | .error e => startFailed env item runtime e
  | .ok () =>
    save env { setRuntime item "running".toList with
      observedGeneration := item.generation, failureCount := 0 }

def reconcileRuntime (status : RuntimeStatus) (containerID : Str) : M Unit := do
  let runtime := toLower status.status
  let item := { setRuntime item runtime with
    containerID := containerID, lastTransitionAt := env.now }
  if runtime = "running".toList then
    save env { item with observedGeneration := item.generation, failureCount := 0 }
  else if runtime = "created".toList then startAgain env item runtime
  else if runtime = "exiting".toList then
    if status.forceRecreate then
      let (item, e) ← recreateControlPlaneDeployment env item
      match e with
      | none => return ()
      | some e => if e.wait then return () else startAgain env item runtime
    else startAgain env item runtime
  else if runtime = "failed".toList ∨ runtime = "unknown".toList then
    save env (bumpControlPlaneFailure item ("runtime state=".toList ++ runtime) runtime)
  else
    save env { item with lastError := (status.errorMessage.map trimSpace).getD item.lastError }

def inspect (containerID : Str) : M Unit := do
  match ← call env.getLocalContainerStatus with
  | .error e =>
    save env { setRuntime item "unknown".toList with
      lastError := e, lastTransitionAt := env.now }
  | .ok status => reconcileRuntime env item status containerID

def reconcileControlPlaneDesiredRunning : Option Str → M Unit
  | none => do
    if controlPlaneLaunchInFlight item env.now then return ()
    else if ← call env.pullReady then launchControlPlane env item
    else return ()
  | some containerID => do
    if item.generation > item.observedGeneration then
      if ← call env.pullReady then
        let (item, e) ← recreateControlPlaneDeployment env item
        match e with
        | none | some (.pullMiss _) => return ()
        | some e => if e.wait then return () else inspect env item containerID
      else return ()
    else inspect env item containerID

def reconcileControlPlaneDesiredDeleted : M Unit := do
  let item := { setRuntime item "deleted".toList with
    lastTransitionAt := env.now
    observedGeneration := item.generation
    deletedAt := some (item.deletedAt.getD env.now) }
  let gone := { item with containerID := [], failureCount := 0 }
  match container with
  | none => save env gone
  | some _ =>
    match ← call env.removeLocalContainer with
    | .error e => save env { setRuntime item "deleting".toList with lastError := e }
    | .ok () => save env gone

def reconcileControlPlaneDesiredStopped : M Unit := do
  let item := { item with observedGeneration := item.generation, lastTransitionAt := env.now }
  let stopped := { setRuntime item "stopped".toList with failureCount := 0 }
  match container with
  | none => save env stopped
  | some _ =>
    match ← call env.stopMicroservice with
    | .error e => save env { setRuntime item "stopping".toList with lastError := e }
    | .ok () => save env stopped

def reconcileControlPlane : M Unit := do
  let item := { item with lastReconcileAt := env.now }
  let desired := toLower (trimSpace item.desiredState)
  match ← call env.containerForControlPlane with
  | .error e => save env { setRuntime item "unknown".toList with lastError := e }
  | .ok container =>
    if desired = "stopped".toList then reconcileControlPlaneDesiredStopped env item container
    else if desired = "deleted".toList then reconcileControlPlaneDesiredDeleted env item container
    else reconcileControlPlaneDesiredRunning env item container

end

end Programs

def calls (env : Env) (item : ControlPlaneDeployment) : List PassCall :=
  (reconcileControlPlane env item []).2

/-! ## What a pass writes -/

/-- **The updates are kept**: every row that is written has those of a given copy. -/
def Keeps (cp : ControlPlaneDeployment) (l : List PassCall) : Prop :=
  ∀ r result, PassCall.upsert (some r) result ∈ l → r.dep.updates = cp.updates

variable {cp item : ControlPlaneDeployment} {env : Env}

theorem keeps_nil : Keeps cp [] := by
  rintro r result ⟨⟩

theorem keeps_concat_other {l : List PassCall} (h : Keeps cp l) : Keeps cp (l ++ [.other]) := by
  intro r result hmem
  rcases List.mem_append.mp hmem with hmem | hmem
  · exact h r result hmem
  · cases List.mem_singleton.mp hmem

abbrev Saves (cp : ControlPlaneDeployment) {α : Type} (x : M α) : Prop :=
  Triple (Keeps cp) x fun _ => Keeps cp

theorem triple_call {α : Type} {answer : ℕ → α} : Saves cp (call answer) :=
  triple_ask fun _ _ => keeps_concat_other

/-- A later state of a copy, which has its updates. -/
def Copies (cp item : ControlPlaneDeployment) : Prop :=
  0 < cp.generation ∧ item.updates = cp.updates

/-- **A program that keeps the updates** of a copy in what it writes, and returns a copy that has
them. -/
def Returns (cp : ControlPlaneDeployment) {α : Type} (copy : α → ControlPlaneDeployment)
    (x : M α) : Prop :=
  Triple (Keeps cp) x fun a l => Keeps cp l ∧ (copy a).updates = cp.updates

theorem returns_pure {α : Type} {copy : α → ControlPlaneDeployment} {a : α}
    (h : Copies cp (copy a)) : Returns cp copy (pure a) :=
  triple_pure fun _ hl => ⟨hl, h.2⟩

theorem triple_removeExisting : Saves cp (removeExisting env) := by
  refine triple_call.bind fun container => ?_
  match container with
  | .ok (some _) => exact triple_call.bind fun _ => triple_return
  | .ok none => exact triple_return
  | .error _ => exact triple_return

section Passes

variable (h : Copies cp item)

include h

theorem Returns.bind {α β : Type} {copy : α → ControlPlaneDeployment} {x : M α} {f : α → M β}
    {Q : β → List PassCall → Prop} (hx : Returns cp copy x)
    (hf : ∀ a, Copies cp (copy a) → Triple (Keeps cp) (f a) Q) :
    Triple (Keeps cp) (x >>= f) Q :=
  Triple.bind hx fun a l hl => hf a ⟨h.1, hl.2⟩ l hl.1

theorem Copies.bump {cause runtime : Str} :
    Copies cp (bumpControlPlaneFailure item cause runtime) := by
  unfold bumpControlPlaneFailure
  simp only
  split <;> exact h

theorem returns_upsert : Returns cp Prod.fst (upsert env item) := by
  have hgen : 0 < item.generation := by
    rw [show item.generation = cp.generation from congrArg Prod.fst h.2]
    exact h.1
  have hwritten : ∀ t r, upsertSystemControlPlane (env.clock t) item = some r →
      r.dep.updates = cp.updates := by
    intro t r hr
    rw [dep_of_upsert hr, ControlPlaneDeployment.updates_normalizeDefaults hgen, h.2]
  refine Triple.bind
    (R := fun a l => Keeps cp l ∧ ∀ r, a.1 = some r → r.dep.updates = cp.updates) ?_ ?_
  · refine triple_ask_at fun t l hl => ⟨?_, hwritten t⟩
    intro r result hmem
    rcases List.mem_append.mp hmem with hmem | hmem
    · exact hl r result hmem
    · have heq := List.mem_singleton.mp hmem
      injection heq with hstatement
      exact hwritten t r hstatement.symm
  · rintro ⟨statement, result⟩
    cases statement with
    | none => exact triple_pure fun l hl => ⟨hl.1, h.2⟩
    | some r => exact triple_pure fun l hl => ⟨hl.1, hl.2 r rfl⟩

theorem triple_save : Saves cp (save env item) :=
  (returns_upsert h).bind h fun _ _ => triple_return

theorem returns_noteControlPlaneVolumeHold : Returns cp id (noteControlPlaneVolumeHold env item) :=
  (returns_upsert (by exact h)).bind h fun _ hp => returns_pure hp

theorem returns_noteControlPlaneImagePullMiss {message : Str} {up : Bool} :
    Returns cp id (noteControlPlaneImagePullMiss env item message up) :=
  (returns_upsert (by exact h)).bind h fun _ hp => returns_pure hp

theorem triple_launchFailed {message : Str} : Saves cp (save env (launchFailed env item message)) :=
  triple_save h.bump

theorem triple_launchControlPlane : Saves cp (launchControlPlane env item) := by
  refine triple_call.bind fun spec => ?_
  cases spec with
  | error e => exact triple_launchFailed h
  | ok spec =>
    refine triple_call.bind fun deferred => Triple.ite (fun _ => triple_save h) fun _ => ?_
    refine (returns_upsert (by exact h)).bind h fun p hp => triple_call.bind fun result => ?_
    match result with
    | .error .paused => exact triple_save hp
    | .error .volumeInUse =>
      exact (returns_noteControlPlaneVolumeHold hp).bind hp fun _ _ => triple_return
    | .error (.pullMiss message) =>
      refine (returns_noteControlPlaneImagePullMiss hp).bind hp fun item hitem => ?_
      exact triple_save hitem
    | .error (.other message) => exact triple_launchFailed hp
    | .ok containerID => exact triple_save hp

theorem returns_relaunch {spec : LaunchSpec} : Returns cp Prod.fst (relaunch env item spec) := by
  refine triple_call.bind fun result => ?_
  match result with
  | .error .paused => exact returns_pure h
  | .error .volumeInUse =>
    exact (returns_noteControlPlaneVolumeHold h).bind h fun _ hitem => returns_pure hitem
  | .error (.pullMiss message) =>
    refine triple_call.bind fun container => ?_
    refine (returns_noteControlPlaneImagePullMiss h).bind h fun item hitem => ?_
    exact (returns_upsert (by exact hitem)).bind hitem fun p hp => returns_pure hp
  | .error (.other message) => exact returns_pure h.bump
  | .ok containerID => exact (returns_upsert (by exact h)).bind h fun p hp => returns_pure hp

theorem returns_replaceContainer {spec : LaunchSpec} :
    Returns cp Prod.fst (replaceContainer env item spec) := by
  refine triple_call.bind fun image => ?_
  match image with
  | .error (.pullMiss message) =>
    refine (returns_noteControlPlaneImagePullMiss h).bind h fun item hitem => ?_
    exact (returns_upsert (by exact hitem)).bind hitem fun p hp => returns_pure hp
  | .error .paused => exact returns_pure h
  | .error .volumeInUse => exact returns_pure h
  | .error (.other message) => exact returns_pure h
  | .ok () => exact triple_removeExisting.bind fun _ => returns_relaunch h

theorem returns_recreateControlPlaneDeployment :
    Returns cp Prod.fst (recreateControlPlaneDeployment env item) := by
  refine triple_call.bind fun spec => ?_
  cases spec with
  | error e => exact returns_pure h.bump
  | ok spec =>
    refine triple_call.bind fun existing => ?_
    match existing with
    | .ok none =>
      refine triple_call.bind fun held => Triple.ite (fun _ => ?_) fun _ => ?_
      · exact (returns_noteControlPlaneVolumeHold h).bind h fun _ hitem => returns_pure hitem
      · exact returns_replaceContainer h
    | .ok (some _) => exact returns_replaceContainer h
    | .error _ => exact returns_replaceContainer h

theorem triple_startFailed {runtime : Str} {e : StartError} :
    Saves cp (startFailed env item runtime e) := by
  cases e with
  | volumeInUse =>
    exact (returns_noteControlPlaneVolumeHold h).bind h fun _ _ => triple_return
  | nonRestartable message =>
    refine (returns_recreateControlPlaneDeployment h).bind h fun p hp => ?_
    obtain ⟨item, e⟩ := p
    cases e with
    | none => exact triple_return
    | some e =>
      refine Triple.ite (fun _ => triple_return) fun _ => ?_
      exact triple_save hp.bump
  | other message => exact triple_save h.bump

theorem triple_startAgain {runtime : Str} : Saves cp (startAgain env item runtime) := by
  refine triple_call.bind fun result => ?_
  cases result with
  | error e => exact triple_startFailed h
  | ok _ => exact triple_save h

theorem triple_reconcileRuntime {status : RuntimeStatus} {containerID : Str} :
    Saves cp (reconcileRuntime env item status containerID) := by
  refine Triple.ite (fun _ => triple_save h) fun _ => ?_
  refine Triple.ite (fun _ => triple_startAgain (by exact h)) fun _ => ?_
  refine Triple.ite (fun _ => ?_) fun _ => Triple.ite (fun _ => ?_) fun _ => triple_save h
  · refine Triple.ite (fun _ => ?_) fun _ => triple_startAgain (by exact h)
    refine (returns_recreateControlPlaneDeployment (by exact h)).bind h fun p hp => ?_
    obtain ⟨item, e⟩ := p
    cases e with
    | none => exact triple_return
    | some e => exact Triple.ite (fun _ => triple_return) fun _ => triple_startAgain hp
  · exact triple_save (.bump (by exact h))

theorem triple_inspect {containerID : Str} : Saves cp (inspect env item containerID) := by
  refine triple_call.bind fun status => ?_
  cases status with
  | error e => exact triple_save h
  | ok status => exact triple_reconcileRuntime h

variable {container : Option Str}

theorem triple_desiredRunning :
    Saves cp (reconcileControlPlaneDesiredRunning env item container) := by
  cases container with
  | none =>
    refine Triple.ite (fun _ => triple_return) fun _ => triple_call.bind fun ready => ?_
    exact Triple.ite (fun _ => triple_launchControlPlane h) fun _ => triple_return
  | some containerID =>
    refine Triple.ite (fun _ => triple_call.bind fun ready => ?_) fun _ => triple_inspect h
    refine Triple.ite (fun _ => ?_) fun _ => triple_return
    refine (returns_recreateControlPlaneDeployment h).bind h fun p hp => ?_
    obtain ⟨item, e⟩ := p
    match e with
    | none => exact triple_return
    | some (.pullMiss _) => exact triple_return
    | some .paused => exact triple_return
    | some .volumeInUse => exact triple_return
    | some (.other _) => exact triple_inspect hp

theorem triple_desiredDeleted :
    Saves cp (reconcileControlPlaneDesiredDeleted env item container) := by
  cases container with
  | none => exact triple_save h
  | some _ =>
    refine triple_call.bind fun removed => ?_
    cases removed with
    | error e | ok _ => exact triple_save h

theorem triple_desiredStopped :
    Saves cp (reconcileControlPlaneDesiredStopped env item container) := by
  cases container with
  | none => exact triple_save h
  | some _ =>
    refine triple_call.bind fun stopped => ?_
    cases stopped with
    | error e | ok _ => exact triple_save h

theorem triple_reconcileControlPlane : Saves cp (reconcileControlPlane env item) := by
  refine triple_call.bind fun container => ?_
  cases container with
  | error e => exact triple_save h
  | ok container =>
    refine Triple.ite (fun _ => triple_desiredStopped (by exact h)) fun _ => ?_
    exact Triple.ite (fun _ => triple_desiredDeleted (by exact h)) fun _ =>
      triple_desiredRunning (by exact h)

end Passes

/-- **What a pass writes**: every row has the generation, the manifest and the flags of the copy
that the pass has read. -/
theorem calls_keep_updates (hpos : 0 < cp.generation) : Keeps cp (calls env cp) :=
  triple_reconcileControlPlane ⟨hpos, rfl⟩ [] keeps_nil

end Edgelet.ProcessManager.ControlPlane
