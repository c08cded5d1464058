import Mathlib.Data.Rat.Init
import Edgelet.ProcessManager.Reconcile

/-!
# The reported status of the microservices

The status reporter keeps one status for each microservice. Its writes are small setters; all but a
few create the entry they are about, in the state `unknown`. A quiesce clears all entries, and after
a report the field agent removes those in the states `unknown` and `deleted`. A float is a rational
number here.
-/

namespace Edgelet.ProcessManager

open Lexical Keyed

structure MicroserviceStatus where
  status : MicroserviceState
  startTime : ℤ
  cpuUsage : ℚ
  memoryUsage : ℤ
  containerID : Str
  podID : Str
  percentage : ℚ
  errorMessage : Option Str
  lastError : Str
  lastErrorAt : ℤ
  restartCount : ℤ
  imagePullStatus : Str
  ipAddress : Option Str
  execSessionIDs : List Str
  healthStatus : Option Str

def newMicroserviceStatus : MicroserviceStatus :=
  ⟨.unknown, 0, 0, 0, [], [], 0, none, [], 0, 0, [], none, [], none⟩

def imagePullStatusFailed : Str := "failed".toList

def MicroserviceStatus.getOperatingDuration (m : MicroserviceStatus) (now : ℤ) : ℤ :=
  if m.startTime = 0 then 0 else now - m.startTime

def MicroserviceStatus.recordError (m : MicroserviceStatus) (message : Str) (now : ℤ) :
    MicroserviceStatus :=
  if trimSpace message = [] then m else { m with lastError := message, lastErrorAt := now }

structure Entry where
  uuid : Str
  status : MicroserviceStatus

structure ProcessManagerStatus where
  runningMicroservicesCount : ℤ
  microservicesStatus : Table Entry.uuid

namespace ProcessManagerStatus

def new : ProcessManagerStatus := ⟨0, Table.empty _⟩

variable (p : ProcessManagerStatus)

/-! ## The writes -/

def setRunningMicroservicesCount (count : ℤ) : ProcessManagerStatus :=
  { p with runningMicroservicesCount := count }

section

variable (uuid : Str) (state : MicroserviceState)

def setMicroservicesStatus (status : MicroserviceStatus) : ProcessManagerStatus :=
  { p with microservicesStatus := p.microservicesStatus.upsert ⟨uuid, status⟩ }

def lookupMicroserviceStatus : Option MicroserviceStatus :=
  (p.microservicesStatus.get? uuid).map (·.status)

variable (f : MicroserviceStatus → MicroserviceStatus)

def modify : ProcessManagerStatus :=
  p.setMicroservicesStatus uuid (f ((p.lookupMicroserviceStatus uuid).getD newMicroserviceStatus))

def modifyTracked : ProcessManagerStatus :=
  match p.lookupMicroserviceStatus uuid with
  | none => p
  | some status => p.setMicroservicesStatus uuid (f status)

def getMicroserviceStatus : ProcessManagerStatus := p.modify uuid id

def setMicroservicesState : ProcessManagerStatus :=
  p.modify uuid fun m => { m with status := state }

def setMicroservicesStatePercentage (percentage : ℚ) : ProcessManagerStatus :=
  p.modify uuid fun m => { m with percentage := percentage }

def setMicroserviceStatusWait (uuid message : Str) (now : ℤ) : ProcessManagerStatus :=
  p.modify uuid fun m => { m with errorMessage := some message }.recordError message now

def setImagePullMiss (message : Str) (now : ℤ) : ProcessManagerStatus :=
  p.modify uuid fun m =>
    { m with status := state, errorMessage := some message,
             imagePullStatus := imagePullStatusFailed }.recordError message now

def clearImagePullStatus : ProcessManagerStatus :=
  p.modifyTracked uuid fun m => { m with imagePullStatus := [] }

def resolveImagePull (pullTracked : Bool) : ProcessManagerStatus :=
  p.modifyTracked uuid fun m =>
    if m.imagePullStatus = imagePullStatusFailed ∨ pullTracked then
      { m with imagePullStatus := [], errorMessage := some [] }
    else { m with imagePullStatus := [] }

def setMicroservicesStatusErrorMessage (uuid message : Str) (now : ℤ) : ProcessManagerStatus :=
  p.modify uuid fun m =>
    let m := { m with errorMessage := some message }
    if m.status = .queued then m else m.recordError message now

def incrementMicroservicesRestartCount : ProcessManagerStatus :=
  p.modify uuid fun m => { m with restartCount := m.restartCount + 1 }

def resetMicroservicesRestartCount : ProcessManagerStatus :=
  p.modifyTracked uuid fun m => { m with restartCount := 0 }

def setMicroservicesHealthStatus (healthStatus : Option Str) : ProcessManagerStatus :=
  p.modify uuid fun m => { m with healthStatus := healthStatus }

def pruneMicroserviceStatus (predicate : Entry → Bool) : ProcessManagerStatus :=
  { p with microservicesStatus := p.microservicesStatus.deleteWhere predicate }

def clearMicroserviceStatuses (_ : ProcessManagerStatus) : ProcessManagerStatus := new

def notRunning : Bool := state == .unknown || state == .deleted

end

def removeNotRunningMicroserviceStatus : ProcessManagerStatus :=
  p.pruneMicroserviceStatus fun e => notRunning e.status.status

theorem mem_removeNotRunning {e : Entry} :
    e ∈ p.removeNotRunningMicroserviceStatus.microservicesStatus ↔
      e ∈ p.microservicesStatus ∧ notRunning e.status.status = false := by
  simp [removeNotRunningMicroserviceStatus, pruneMicroserviceStatus]

end ProcessManagerStatus

inductive StatusWrite
  | runningCount (count : ℤ)
  | status (uuid : Str) (status : MicroserviceStatus)
  | get (uuid : Str)
  | state (uuid : Str) (state : MicroserviceState)
  | percentage (uuid : Str) (percentage : ℚ)
  | wait (uuid message : Str) (now : ℤ)
  | pullMiss (uuid : Str) (state : MicroserviceState) (message : Str) (now : ℤ)
  | clearPull (uuid : Str)
  | resolvePull (uuid : Str) (pullTracked : Bool)
  | errorMessage (uuid message : Str) (now : ℤ)
  | incrementRestarts (uuid : Str)
  | resetRestarts (uuid : Str)
  | health (uuid : Str) (healthStatus : Option Str)
  | prune (predicate : Entry → Bool)
  | clear

def StatusWrite.apply (p : ProcessManagerStatus) : StatusWrite → ProcessManagerStatus
  | .runningCount count => p.setRunningMicroservicesCount count
  | .status uuid m => p.setMicroservicesStatus uuid m
  | .get uuid => p.getMicroserviceStatus uuid
  | .state uuid st => p.setMicroservicesState uuid st
  | .percentage uuid pct => p.setMicroservicesStatePercentage uuid pct
  | .wait uuid message now => p.setMicroserviceStatusWait uuid message now
  | .pullMiss uuid st message now => p.setImagePullMiss uuid st message now
  | .clearPull uuid => p.clearImagePullStatus uuid
  | .resolvePull uuid pullTracked => p.resolveImagePull uuid pullTracked
  | .errorMessage uuid message now => p.setMicroservicesStatusErrorMessage uuid message now
  | .incrementRestarts uuid => p.incrementMicroservicesRestartCount uuid
  | .resetRestarts uuid => p.resetMicroservicesRestartCount uuid
  | .health uuid healthStatus => p.setMicroservicesHealthStatus uuid healthStatus
  | .prune predicate => p.pruneMicroserviceStatus predicate
  | .clear => p.clearMicroserviceStatuses

/-! ## The report -/

/-- One microservice in a report. Empty and zero fields are left out of the document, except
for the first three; `controlRestart` and `agentPhase` are added while the agent restarts. -/
structure StatusItem where
  id : Str
  status : MicroserviceState
  percentage : ℚ
  containerID : Str
  podID : Str
  startTime : ℤ
  operatingDuration : ℤ
  cpuUsage : Str
  memoryUsage : Str
  ipAddress : Str
  healthStatus : Str
  execSessionIDs : List Str
  errorMessage : Option Str
  lastError : Str
  lastErrorAt : ℤ
  restartCount : ℤ
  imagePullStatus : Str
  controlRestart : Bool
  agentPhase : Option Str

structure Surroundings where
  now : ℤ
  formatFloat32 : ℚ → Str
  listActiveControllerSessionIDs : Str → List Str
  agentPhase : Str
  isQuiesced : Bool

section

variable (env : Surroundings) (item : StatusItem) (e : Entry)

def statusItem : StatusItem :=
  let m := e.status
  let item : StatusItem :=
    ⟨e.uuid, m.status, m.percentage, [], [], 0, 0, [], [], [], [], [], m.errorMessage, m.lastError,
      m.lastErrorAt, if 0 < m.restartCount then m.restartCount else 0,
      if m.imagePullStatus = imagePullStatusFailed then m.imagePullStatus else [], false, none⟩
  if m.containerID = [] then item
  else
    { item with
      containerID := m.containerID
      podID := trimSpace m.podID
      startTime := m.startTime
      operatingDuration := m.getOperatingDuration env.now
      cpuUsage := if 0 < m.cpuUsage then env.formatFloat32 m.cpuUsage else []
      memoryUsage := if 0 < m.memoryUsage then (toString m.memoryUsage).toList else []
      ipAddress := m.ipAddress.getD []
      healthStatus := m.healthStatus.getD []
      execSessionIDs := m.execSessionIDs }

def getJSONMicroservicesStatus (p : ProcessManagerStatus) : List StatusItem :=
  p.microservicesStatus.rows.map (statusItem env)

def enrichMicroserviceStatusExecSessionIDs : StatusItem :=
  if item.id = [] ∨ item.containerID = [] then item
  else { item with execSessionIDs := env.listActiveControllerSessionIDs item.id }

def annotateMicroserviceStatusForControlRestart : StatusItem :=
  if env.agentPhase ≠ "restarting".toList ∧ env.isQuiesced = false then item
  else if env.agentPhase = "restarting".toList then
    { item with controlRestart := true, agentPhase := some env.agentPhase }
  else { item with controlRestart := true }

def microserviceStatus (p : ProcessManagerStatus) : List StatusItem :=
  (getJSONMicroservicesStatus env p).map fun item =>
    annotateMicroserviceStatusForControlRestart env
      (enrichMicroserviceStatusExecSessionIDs env item)

theorem statusItem_id_status :
    (statusItem env e).id = e.uuid ∧ (statusItem env e).status = e.status.status := by
  unfold statusItem
  simp only
  split <;> exact ⟨rfl, rfl⟩

theorem enrich_id_status : (enrichMicroserviceStatusExecSessionIDs env item).id = item.id ∧
      (enrichMicroserviceStatusExecSessionIDs env item).status = item.status := by
  unfold enrichMicroserviceStatusExecSessionIDs
  split <;> exact ⟨rfl, rfl⟩

theorem annotate_id_status : (annotateMicroserviceStatusForControlRestart env item).id = item.id ∧
      (annotateMicroserviceStatusForControlRestart env item).status = item.status := by
  unfold annotateMicroserviceStatusForControlRestart
  split
  · exact ⟨rfl, rfl⟩
  · split <;> exact ⟨rfl, rfl⟩

end

/-- **A report shows the state of every entry**, and of nothing else. -/
theorem exists_item_iff {env : Surroundings} {p : ProcessManagerStatus} {uuid : Str}
    {state : MicroserviceState} :
    (∃ item ∈ microserviceStatus env p, item.id = uuid ∧ item.status = state) ↔
      ∃ e ∈ p.microservicesStatus, e.uuid = uuid ∧ e.status.status = state := by
  have hitem : ∀ e : Entry,
      (annotateMicroserviceStatusForControlRestart env
        (enrichMicroserviceStatusExecSessionIDs env (statusItem env e))).id = e.uuid ∧
      (annotateMicroserviceStatusForControlRestart env
        (enrichMicroserviceStatusExecSessionIDs env (statusItem env e))).status =
          e.status.status := by
    intro e
    rw [(annotate_id_status env _).1, (annotate_id_status env _).2, (enrich_id_status env _).1,
      (enrich_id_status env _).2]
    exact statusItem_id_status env e
  simp only [microserviceStatus, getJSONMicroservicesStatus, List.map_map, List.mem_map,
    Function.comp_apply, exists_exists_and_eq_and, hitem, Table.mem_def]

end Edgelet.ProcessManager
