import Edgelet.Store.PersistentVolumes

/-!
# What the keep-set keeps

The keep-set has to hold the identifier of every desired microservice and the name of every shared
volume that one of them maps, or an orphan prune may destroy what they use. The last mapping
recorded for a microservice and a volume name decides on the scope of the ledger row. The volumes of
the controller on the node are private whatever their mapping says.
-/

namespace Edgelet

open Lexical Keyed

namespace VolumeStore

variable {d : VolumeStore}

/-! ## The rows that are written -/

theorem canonicalVolumeScope_text (scope : VolumeScope) :
    canonicalVolumeScope scope.text = scope := by
  cases scope <;> decide

variable {uuid kind : Str}

theorem upsertPersistentVolume_mapping {vm : VolumeMapping}
    (huuid : trimSpace uuid ≠ []) (hname : trimSpace vm.hostDestination ≠ []) :
    d.upsertPersistentVolume uuid (trimSpace vm.hostDestination) kind
        vm.effectiveVolumeScope.text [] =
      .ok { d with ledger := d.ledger.upsert (mappingRow d.diskDirectory uuid kind vm) } := by
  have hnil : trimSpace [] = [] := rfl
  simp only [upsertPersistentVolume, trimSpace_trimSpace, canonicalVolumeScope_text, hnil,
    if_neg huuid, if_neg hname, if_true]
  rfl

theorem mappings_eq (huuid : trimSpace uuid ≠ []) (vms : List VolumeMapping) :
    upsertPersistentVolumesFromMappings uuid kind d vms =
      ({ d with ledger := d.ledger.upsertAll (mappingRows d.diskDirectory uuid kind vms) },
        none) := by
  induction vms generalizing d with
  | nil => rfl
  | cons vm vms ih =>
    rw [upsertPersistentVolumesFromMappings]
    split
    next hskip =>
      have hno : ¬ (vm.type = .volume ∧ trimSpace vm.hostDestination ≠ []) :=
        fun h => hskip.elim (fun hne => hne h.1) h.2
      rw [ih, mappingRows, mappingRows, List.filter_cons_of_neg (by simpa using hno)]
    next hvolume =>
      have hyes : vm.type = .volume ∧ trimSpace vm.hostDestination ≠ [] := by
        constructor
        · exact Decidable.not_not.mp fun hne => hvolume (.inl hne)
        · exact fun hnil => hvolume (.inr hnil)
      simp only [upsertPersistentVolume_mapping huuid hyes.2]
      rw [ih, mappingRows, mappingRows, List.filter_cons_of_pos (by simpa using hyes)]
      rfl

theorem mappings_of_blank (huuid : trimSpace uuid = [])
    (vms : List VolumeMapping) : (upsertPersistentVolumesFromMappings uuid kind d vms).1 = d := by
  induction vms with
  | nil => rfl
  | cons vm vms ih =>
    rw [upsertPersistentVolumesFromMappings]
    split
    · exact ih
    · simp [upsertPersistentVolume, huuid]

/-! ## Recordings -/

structure Recording where
  uuid : Str
  kind : Str
  mappings : List VolumeMapping

def record (d : VolumeStore) (r : Recording) : VolumeStore :=
  (upsertPersistentVolumesFromMappings r.uuid r.kind d r.mappings).1

def recordAll (d : VolumeStore) (rs : List Recording) : VolumeStore := rs.foldl record d

def Recording.rows (diskDirectory : Str) (r : Recording) : List PersistentVolumeRecord :=
  if trimSpace r.uuid = [] then [] else mappingRows diskDirectory r.uuid r.kind r.mappings

theorem record_eq (r : Recording) :
    d.record r = { d with ledger := d.ledger.upsertAll (r.rows d.diskDirectory) } := by
  unfold record Recording.rows
  split
  next hblank => exact mappings_of_blank hblank r.mappings
  next huuid => rw [mappings_eq huuid]

variable (rs : List Recording)

theorem recordAll_eq : d.recordAll rs =
      { d with ledger := d.ledger.upsertAll (rs.flatMap (Recording.rows d.diskDirectory)) } := by
  induction rs generalizing d with
  | nil => rfl
  | cons r rs ih =>
    rw [recordAll, List.foldl_cons, ← recordAll, ih, record_eq, List.flatMap_cons,
      Table.upsertAll_append]

/-! ## The keep-set -/

def VolumeMapping.Shared (vm : VolumeMapping) : Prop :=
  vm.type = .volume ∧ vm.effectiveVolumeScope = .shared ∧ trimSpace vm.hostDestination ≠ []

/-- **Shared only**: under the identifier and the name no private volume is recorded, and none of
the controller running on the node. -/
def SharedOnly (uuid name : Str) : Prop :=
  ∀ r ∈ rs, trimSpace r.uuid = uuid → ∀ vm ∈ r.mappings, vm.type = .volume →
    trimSpace vm.hostDestination = name →
      vm.effectiveVolumeScope = .shared ∧ canonicalPersistentVolumeKind r.kind = .workload

theorem desiredStateUUIDs_recordAll : (d.recordAll rs).desiredStateUUIDs = d.desiredStateUUIDs := by
  rw [recordAll_eq]
  rfl

theorem mem_sharedNames {rec : PersistentVolumeRecord} (h : rec ∈ d.ledger)
    (hscope : rec.scope = .shared) (hlive : rec.unreferencedAt = none)
    (listedPrivateUUIDs listedSharedNames : List Str) :
    rec.volumeName ∈
      (d.persistentVolumeKeepSet listedPrivateUUIDs listedSharedNames).sharedNames := by
  refine mem_sortedKeys.mpr (List.mem_append_right _ (List.mem_map_of_mem ?_))
  refine List.mem_filter.mpr ⟨h, ?_⟩
  simp [hscope, sharedRowKeeps, hlive]

theorem Recording.mem_rows {diskDirectory : Str} {r : Recording} {rec : PersistentVolumeRecord} :
    rec ∈ r.rows diskDirectory ↔ trimSpace r.uuid ≠ [] ∧ ∃ vm ∈ r.mappings, vm.type = .volume ∧
      trimSpace vm.hostDestination ≠ [] ∧ mappingRow diskDirectory r.uuid r.kind vm = rec := by
  unfold Recording.rows mappingRows
  split
  next h => simp [h]
  next h => simp [h, and_assoc]

def oneMicroservice : VolumeStore where
  diskDirectory := "/var/lib/edgelet".toList
  ledger := Table.empty _
  controllerMicroservices := ["ms".toList]
  localWorkloads := []
  systemControlPlane := some "ctl".toList

def dataVolume (scope : Str) : VolumeMapping := ⟨"data".toList, .volume, scope⟩

end VolumeStore

end Edgelet
