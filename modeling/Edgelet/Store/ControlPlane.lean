import Edgelet.Lexical.Text

/-!
# The row of the control plane

The store has at most one row for the control plane, which is read and written as a whole.
-/

namespace Edgelet.Store

open Lexical

structure ControlPlaneDeployment where
  controllerUUID : Str
  nameSpace : Str
  name : Str
  manifestYAML : Str
  image : Str
  state : Str
  containerID : Str
  desiredState : Str
  runtimeState : Str
  lastError : Str
  restartCount : ℤ
  lastTransitionAt : ℤ
  lastReconcileAt : ℤ
  lastStartAttemptAt : ℤ
  failureCount : ℤ
  deletedAt : Option ℤ
  generation : Int64
  observedGeneration : Int64
  controllerRegistered : Bool
  initialRebuildSkipped : Bool

namespace ControlPlaneDeployment

variable (d : ControlPlaneDeployment)

def controlPlaneDefaultNamespace : Str := "default".toList

def normalRuntimeState : Str :=
  if trimSpace d.runtimeState = [] then
    if trimSpace d.state ≠ [] then trimSpace d.state else "unknown".toList
  else d.runtimeState

def normalizeDefaults (now : ℤ) : ControlPlaneDeployment :=
  { d with
    nameSpace := if trimSpace d.nameSpace = [] then controlPlaneDefaultNamespace else d.nameSpace
    desiredState := if trimSpace d.desiredState = [] then "running".toList else d.desiredState
    runtimeState := d.normalRuntimeState
    state := if trimSpace d.state = [] then d.normalRuntimeState else d.state
    lastTransitionAt := if d.lastTransitionAt ≤ 0 then now else d.lastTransitionAt
    lastReconcileAt := if d.lastReconcileAt < 0 then 0 else d.lastReconcileAt
    lastStartAttemptAt := if d.lastStartAttemptAt < 0 then 0 else d.lastStartAttemptAt
    failureCount := if d.failureCount < 0 then 0 else d.failureCount
    generation := if d.generation ≤ 0 then 1 else d.generation
    observedGeneration := if d.observedGeneration < 0 then 0 else d.observedGeneration }

def updates : Int64 × Str × Bool × Bool :=
  (d.generation, d.manifestYAML, d.controllerRegistered, d.initialRebuildSkipped)

variable {d}

theorem updates_normalizeDefaults {now : ℤ} (h : 0 < d.generation) :
    (d.normalizeDefaults now).updates = d.updates := by
  have hgen : (d.normalizeDefaults now).generation = d.generation := if_neg (Int64.not_le.mpr h)
  unfold updates
  rw [hgen]
  rfl

theorem generation_normalizeDefaults_pos (now : ℤ) : 0 < (d.normalizeDefaults now).generation := by
  simp only [normalizeDefaults]
  split
  · decide
  next h => exact Int64.not_le.mp h

end ControlPlaneDeployment

structure StoredControlPlane where
  dep : ControlPlaneDeployment
  uuid : trimSpace dep.controllerUUID ≠ []
  manifest : trimSpace dep.manifestYAML ≠ []
  name : trimSpace dep.name ≠ []
  generation : 0 < dep.generation

def getSystemControlPlane (now : ℤ) (row : Option StoredControlPlane) :
    Option ControlPlaneDeployment :=
  row.map fun r => r.dep.normalizeDefaults now

def upsertSystemControlPlane (now : ℤ) (dep : ControlPlaneDeployment) :
    Option StoredControlPlane :=
  if h : trimSpace dep.controllerUUID ≠ [] ∧ trimSpace dep.manifestYAML ≠ [] ∧
      trimSpace dep.name ≠ [] then
    some ⟨dep.normalizeDefaults now, h.1, h.2.1, h.2.2,
      ControlPlaneDeployment.generation_normalizeDefaults_pos now⟩
  else none

inductive UpsertResult
  | ok
  | rowFailed
  | volumesFailed
  deriving DecidableEq

def written (statement : Option StoredControlPlane) : UpsertResult → Option StoredControlPlane
  | .ok | .volumesFailed => statement
  | .rowFailed => none

theorem dep_of_upsert {now : ℤ} {dep : ControlPlaneDeployment} {r : StoredControlPlane}
    (h : upsertSystemControlPlane now dep = some r) : r.dep = dep.normalizeDefaults now := by
  unfold upsertSystemControlPlane at h
  split at h
  · cases h
    rfl
  · cases h

theorem updates_of_get {now : ℤ} {row : Option StoredControlPlane} {cp : ControlPlaneDeployment}
    (h : getSystemControlPlane now row = some cp) :
    ∃ r, row = some r ∧ cp.updates = r.dep.updates := by
  obtain ⟨r, hr, rfl⟩ := Option.map_eq_some_iff.mp h
  exact ⟨r, hr, ControlPlaneDeployment.updates_normalizeDefaults r.generation⟩

end Edgelet.Store
