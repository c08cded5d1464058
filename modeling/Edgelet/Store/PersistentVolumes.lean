import Mathlib.Data.Char
import Mathlib.Data.List.Dedup
import Mathlib.Data.List.Lex
import Mathlib.Data.List.Sort
import Edgelet.Keyed.Table
import Edgelet.Lexical.Path

/-!
# The persistent-volume ledger

The store keeps one row for each microservice and volume name. A private volume lives under
`volumes/data/{uuid}/{name}`, a shared one, with rows for all its consumers, under
`volumes/shared/{name}`. A row stays when its microservice leaves desired state and is stamped with
the time. The columns `created_at` and `last_desired_at`, which nothing modelled here reads, are
left out.
-/

namespace Edgelet

open Lexical Keyed

inductive VolumeScope
  | priv
  | shared
  deriving DecidableEq

inductive PersistentVolumeKind
  | workload
  | controlPlane
  deriving DecidableEq

def VolumeScope.text : VolumeScope → Str
  | .priv => "private".toList
  | .shared => "shared".toList

def canonicalVolumeScope (raw : Str) : VolumeScope :=
  if trimSpace raw = VolumeScope.shared.text then .shared else .priv

def canonicalPersistentVolumeKind (raw : Str) : PersistentVolumeKind :=
  if trimSpace raw = "controlplane".toList then .controlPlane else .workload

structure PersistentVolumeRecord where
  uuid : Str
  volumeName : Str
  scope : VolumeScope
  kind : PersistentVolumeKind
  hostPath : Str
  unreferencedAt : Option ℤ

def PersistentVolumeRecord.key (r : PersistentVolumeRecord) : Str × Str := (r.uuid, r.volumeName)

def PersistentVolumeRecord.stamp (now : ℤ) (r : PersistentVolumeRecord) : PersistentVolumeRecord :=
  { r with unreferencedAt := some now }

theorem PersistentVolumeRecord.key_stamp (now : ℤ) (r : PersistentVolumeRecord) :
    (r.stamp now).key = r.key := rfl

abbrev Ledger := Table PersistentVolumeRecord.key

def persistentVolumeHostPath (diskDirectory uuid name : Str) : VolumeScope → Str
  | .shared =>
    join [trimSpace diskDirectory, "volumes".toList, "shared".toList, trimSpace name]
  | .priv =>
    join [trimSpace diskDirectory, "volumes".toList, "data".toList, trimSpace uuid,
      trimSpace name]

/-- The tables the volume functions read: the ledger, the identifiers in the two tables of
desired workloads, and that of the controller running on the node. -/
structure VolumeStore where
  diskDirectory : Str
  ledger : Ledger
  controllerMicroservices : List Str
  localWorkloads : List Str
  systemControlPlane : Option Str

inductive StoreError
  | uuidRequired
  | nameRequired

namespace VolumeStore

variable (d : VolumeStore)

/-! ## Writes -/

def upsertPersistentVolume (uuid name kind scope hostPath : Str) :
    Except StoreError VolumeStore :=
  let uuid := trimSpace uuid
  let name := trimSpace name
  if uuid = [] then .error .uuidRequired
  else if name = [] then .error .nameRequired
  else
    let kind := canonicalPersistentVolumeKind kind
    let scope := if kind = .controlPlane then .priv else canonicalVolumeScope scope
    let hostPath := trimSpace hostPath
    let hostPath :=
      if hostPath = [] then persistentVolumeHostPath d.diskDirectory uuid name scope else hostPath
    .ok { d with ledger := d.ledger.upsert ⟨uuid, name, scope, kind, hostPath, none⟩ }

inductive MappingType
  | bind
  | volume
  | volumeMount
  deriving DecidableEq

structure VolumeMapping where
  hostDestination : Str
  type : MappingType
  scope : Str

variable (diskDirectory uuid kind : Str) (name : Str) (a b : PersistentVolumeRecord)
  (vm : VolumeMapping)

def VolumeMapping.effectiveVolumeScope : VolumeScope :=
  if vm.type = .volume then canonicalVolumeScope vm.scope else .priv

def upsertPersistentVolumesFromMappings (uuid kind : Str) :
    VolumeStore → List VolumeMapping → VolumeStore × Option StoreError
  | d, [] => (d, none)
  | d, vm :: vms =>
    if vm.type ≠ .volume ∨ trimSpace vm.hostDestination = [] then
      upsertPersistentVolumesFromMappings uuid kind d vms
    else
      match d.upsertPersistentVolume uuid (trimSpace vm.hostDestination) kind
          vm.effectiveVolumeScope.text [] with
      | .error e => (d, some e)
      | .ok d' => upsertPersistentVolumesFromMappings uuid kind d' vms

def mappingRow : PersistentVolumeRecord :=
  let kind := canonicalPersistentVolumeKind kind
  let scope := if kind = .controlPlane then .priv else vm.effectiveVolumeScope
  let uuid := trimSpace uuid
  let name := trimSpace vm.hostDestination
  ⟨uuid, name, scope, kind, persistentVolumeHostPath diskDirectory uuid name scope, none⟩

def mappingRows (vms : List VolumeMapping) : List PersistentVolumeRecord :=
  (vms.filter fun vm => vm.type = .volume ∧ trimSpace vm.hostDestination ≠ []).map
    (mappingRow diskDirectory uuid kind)

def markPersistentVolumesUnreferenced (uuid : Str) (now : ℤ) : VolumeStore :=
  let uuid := trimSpace uuid
  if uuid = [] then d
  else
    { d with
      ledger := d.ledger.updateWhere (fun r => r.uuid == uuid && r.unreferencedAt.isNone)
        (PersistentVolumeRecord.stamp now) (PersistentVolumeRecord.key_stamp now) }

def deletePersistentVolume (uuid name : Str) : Except StoreError VolumeStore :=
  let uuid := trimSpace uuid
  let name := trimSpace name
  if uuid = [] then .error .uuidRequired
  else if name = [] then .error .nameRequired
  else
    .ok { d with
      ledger := d.ledger.deleteWhere fun r => r.uuid == uuid && r.volumeName == name }

def deleteSharedPersistentVolumes : Except StoreError VolumeStore :=
  let name := trimSpace name
  if name = [] then .error .nameRequired
  else
    .ok { d with
      ledger := d.ledger.deleteWhere fun r => r.volumeName == name && r.scope == .shared }

/-! ## Reads -/

def byKey : Prop :=
  a.uuid < b.uuid ∨ a.uuid = b.uuid ∧ a.volumeName ≤ b.volumeName

instance : DecidableRel byKey := fun _ _ => inferInstanceAs (Decidable (_ ∨ _))

def byName : Prop :=
  a.volumeName < b.volumeName ∨ a.volumeName = b.volumeName ∧ a.uuid ≤ b.uuid

instance : DecidableRel byName := fun _ _ => inferInstanceAs (Decidable (_ ∨ _))

def listPersistentVolumes : List PersistentVolumeRecord := d.ledger.rows.insertionSort byKey

def getPersistentVolume (uuid name : Str) : Option PersistentVolumeRecord :=
  d.ledger.get? (trimSpace uuid, trimSpace name)

def listPersistentVolumesForUUID (uuid : Str) : List PersistentVolumeRecord :=
  d.listPersistentVolumes.filter fun r => r.uuid == trimSpace uuid

def listSharedPersistentVolumeConsumers : List PersistentVolumeRecord :=
  d.listPersistentVolumes.filter fun r => r.volumeName == trimSpace name && r.scope == .shared

def addTrimmed (values : List Str) : List Str := (values.map trimSpace).filter (· ≠ [])

def sortedKeys (set : List Str) : List Str := set.dedup.insertionSort (· ≤ ·)

def desiredStateUUIDs : List Str :=
  addTrimmed (d.controllerMicroservices ++ d.localWorkloads ++ d.systemControlPlane.toList)

structure PersistentVolumeKeepSet where
  privateUUIDs : List Str
  sharedNames : List Str

def sharedRowKeeps (r : PersistentVolumeRecord) : Bool :=
  r.unreferencedAt.isNone || d.desiredStateUUIDs.contains r.uuid

def persistentVolumeKeepSet (listedPrivateUUIDs listedSharedNames : List Str) :
    PersistentVolumeKeepSet where
  privateUUIDs := sortedKeys <|
    addTrimmed listedPrivateUUIDs ++ d.desiredStateUUIDs ++
      (d.ledger.rows.filter fun r => r.scope == .priv && r.unreferencedAt.isNone).map (·.uuid)
  sharedNames := sortedKeys <|
    addTrimmed listedSharedNames ++
      (d.ledger.rows.filter fun r => r.scope == .shared && d.sharedRowKeeps r).map (·.volumeName)

structure UnreferencedPersistentVolume where
  uuid : Str
  volumeName : Str
  scope : VolumeScope
  kind : PersistentVolumeKind
  hostPath : Str
  unreferencedAt : ℤ
  lastConsumerUUID : Str

/-- The rows `WHERE kind = 'workload' AND unreferenced_at IS NOT NULL` of one scope, with
their stamps, `ORDER BY volume_name, ms_uuid`. -/
def unreferencedRows (scope : VolumeScope) : List (PersistentVolumeRecord × ℤ) :=
  ((d.ledger.rows.filter fun r => r.kind == .workload && r.scope == scope).insertionSort
    byName).filterMap fun r => r.unreferencedAt.map fun t => (r, t)

structure SharedAgg where
  hostPath : Str
  unreferencedAt : ℤ
  lastConsumerUUID : Str
  stillDesired : ℕ

/-- One more unreferenced consumer of a shared name. The path is that of the first one, the
time and the last consumer are those of the latest one. -/
def SharedAgg.add (desired : List Str) (agg? : Option SharedAgg)
    (row : PersistentVolumeRecord × ℤ) : Option SharedAgg :=
  let agg := agg?.getD ⟨row.1.hostPath, row.2, row.1.uuid, 0⟩
  let agg :=
    if agg.unreferencedAt ≤ row.2 then
      { agg with unreferencedAt := row.2, lastConsumerUUID := row.1.uuid }
    else agg
  some (if desired.contains row.1.uuid then { agg with stillDesired := agg.stillDesired + 1 }
    else agg)

def sharedAgg : Option SharedAgg :=
  ((d.unreferencedRows .shared).filter fun row => row.1.volumeName == name).foldl
    (SharedAgg.add d.desiredStateUUIDs) none

def liveSharedConsumerCounts : ℕ :=
  d.ledger.rows.countP fun r =>
    r.kind == .workload && r.scope == .shared && r.unreferencedAt.isNone && r.volumeName == name

def unreferencedPrivate : List UnreferencedPersistentVolume :=
  ((d.unreferencedRows .priv).filter fun row => !d.desiredStateUUIDs.contains row.1.uuid).map
    fun row => ⟨row.1.uuid, row.1.volumeName, .priv, row.1.kind, row.1.hostPath, row.2, row.1.uuid⟩

def unreferencedShared : List UnreferencedPersistentVolume :=
  (sortedKeys ((d.unreferencedRows .shared).map (·.1.volumeName))).filterMap fun name =>
    match d.sharedAgg name with
    | none => none
    | some agg =>
      if 0 < d.liveSharedConsumerCounts name ∨ 0 < agg.stillDesired then none
      else some ⟨[], name, .shared, .workload, agg.hostPath, agg.unreferencedAt,
        agg.lastConsumerUUID⟩

def listUnreferencedWorkloadVolumes : List UnreferencedPersistentVolume :=
  d.unreferencedPrivate ++ d.unreferencedShared

/-! ## What the store admits -/

structure AdmittedRow (rec : PersistentVolumeRecord) : Prop where
  trim_uuid : trimSpace rec.uuid = rec.uuid
  uuid_ne_nil : rec.uuid ≠ []
  trim_name : trimSpace rec.volumeName = rec.volumeName
  name_ne_nil : rec.volumeName ≠ []

def Admitted : Prop := ∀ rec ∈ d.ledger, AdmittedRow rec

variable {d}

theorem mem_listPersistentVolumes {rec : PersistentVolumeRecord} :
    rec ∈ d.listPersistentVolumes ↔ rec ∈ d.ledger :=
  List.mem_insertionSort byKey

theorem mem_addTrimmed {values : List Str} {v : Str} :
    v ∈ addTrimmed values ↔ v ≠ [] ∧ ∃ w ∈ values, trimSpace w = v := by
  simp [addTrimmed, and_comm]

theorem mem_sortedKeys {set : List Str} {x : Str} : x ∈ sortedKeys set ↔ x ∈ set := by
  simp [sortedKeys]

theorem mem_desiredStateUUIDs {uuid : Str} :
    uuid ∈ d.desiredStateUUIDs ↔ uuid ≠ [] ∧ ∃ raw, trimSpace raw = uuid ∧
      (raw ∈ d.controllerMicroservices ∨ raw ∈ d.localWorkloads ∨
        d.systemControlPlane = some raw) := by
  simp only [desiredStateUUIDs, mem_addTrimmed, List.mem_append, Option.mem_toList,
    or_assoc, and_comm]

theorem mem_unreferencedRows {scope : VolumeScope} {row : PersistentVolumeRecord × ℤ} :
    row ∈ d.unreferencedRows scope ↔
      row.1 ∈ d.ledger ∧ row.1.kind = .workload ∧ row.1.scope = scope ∧
        row.1.unreferencedAt = some row.2 := by
  obtain ⟨rec, t⟩ := row
  simp only [unreferencedRows, List.mem_filterMap, List.mem_insertionSort, List.mem_filter,
    Bool.and_eq_true, beq_iff_eq, Option.map_eq_some_iff, Prod.mk.injEq]
  constructor
  · rintro ⟨rec', ⟨hrec, hkind, hscope⟩, t', ht, rfl, rfl⟩
    exact ⟨hrec, hkind, hscope, ht⟩
  · rintro ⟨hrec, hkind, hscope, ht⟩
    exact ⟨rec, ⟨hrec, hkind, hscope⟩, t, ht, rfl, rfl⟩

/-! ## Orphans

The orphans come in the order of the names and the consumers in the order of the microservices.
Among the rows of one name the two orders are the same, so the path gathered for an orphan without
live consumers is that of the first consumer. The time and the last consumer are those of the latest
row, where rows of one time are told apart by their identifiers. -/

def consumers (d : VolumeStore) (name : Str) : List PersistentVolumeRecord :=
  (d.listPersistentVolumes.filter fun r => r.kind == .workload && r.scope == .shared).filter
    (·.volumeName == name)

section Order

variable {f g : PersistentVolumeRecord → Str}

theorem total_lexicographic (a b : PersistentVolumeRecord) :
    (f a < f b ∨ f a = f b ∧ g a ≤ g b) ∨ (f b < f a ∨ f b = f a ∧ g b ≤ g a) := by
  rcases lt_trichotomy (f a) (f b) with h | h | h
  · exact .inl (.inl h)
  · rcases le_total (g a) (g b) with h' | h'
    · exact .inl (.inr ⟨h, h'⟩)
    · exact .inr (.inr ⟨h.symm, h'⟩)
  · exact .inr (.inl h)

theorem trans_lexicographic {a b c : PersistentVolumeRecord}
    (hab : f a < f b ∨ f a = f b ∧ g a ≤ g b) (hbc : f b < f c ∨ f b = f c ∧ g b ≤ g c) :
    f a < f c ∨ f a = f c ∧ g a ≤ g c := by
  rcases hab with hab | ⟨hab, hab'⟩
  · rcases hbc with hbc | ⟨hbc, -⟩
    · exact .inl (hab.trans hbc)
    · exact .inl (hbc ▸ hab)
  · rcases hbc with hbc | ⟨hbc, hbc'⟩
    · exact .inl (hab ▸ hbc)
    · exact .inr ⟨hab.trans hbc, hab'.trans hbc'⟩

instance : Std.Total byKey := ⟨total_lexicographic⟩

instance : IsTrans _ byKey := ⟨fun _ _ _ => trans_lexicographic⟩

instance : Std.Total byName := ⟨total_lexicographic⟩

instance : IsTrans _ byName := ⟨fun _ _ _ => trans_lexicographic⟩

end Order

theorem consumers_pairwise (d : VolumeStore) (name : Str) :
    (d.consumers name).Pairwise fun a b => a.uuid ≤ b.uuid := by
  refine (((List.pairwise_insertionSort byKey d.ledger.rows).filter _).filter _).imp ?_
  rintro a b (hab | ⟨hab, -⟩) <;> exact hab.le

theorem map_fst_filterMap_stamp (p : PersistentVolumeRecord → Bool)
    (rows : List PersistentVolumeRecord) :
    ((rows.filterMap fun r => r.unreferencedAt.map fun t => (r, t)).filter
      fun row => p row.1).map Prod.fst =
    rows.filter fun r => r.unreferencedAt.isSome && p r := by
  induction rows with
  | nil => rfl
  | cons r rows ih =>
    cases hr : r.unreferencedAt with
    | none => simp [hr, ih]
    | some t => cases hp : p r <;> simp [hr, hp, ih]

/-- **Without live consumers** the unreferenced rows of a shared name are its consumers, in the
same order. -/
theorem unreferencedRows_eq_consumers {name : Str} (hlive : d.liveSharedConsumerCounts name = 0) :
    ((d.unreferencedRows .shared).filter fun row => row.1.volumeName == name).map Prod.fst =
      d.consumers name := by
  let rows := d.ledger.rows.filter fun r => r.kind == .workload && r.scope == .shared
  have hstamped : ((d.unreferencedRows .shared).filter fun row =>
      row.1.volumeName == name).map Prod.fst =
        (rows.insertionSort byName).filter (·.volumeName == name) := by
    rw [unreferencedRows, map_fst_filterMap_stamp (·.volumeName == name)]
    refine List.filter_congr fun r hr => ?_
    obtain ⟨hmem, hkind⟩ := List.mem_filter.mp ((List.mem_insertionSort byName).mp hr)
    have hcount := List.countP_eq_zero.mp hlive r hmem
    cases hstamp : r.unreferencedAt with
    | some t => rfl
    | none =>
      rw [Bool.and_eq_true] at hkind
      rw [hkind.1, hkind.2, hstamp] at hcount
      exact (Bool.eq_false_iff.mpr hcount).symm
  rw [hstamped]
  refine @List.Perm.eq_of_pairwise _ (fun a b => a.uuid ≤ b.uuid) _ _ ?_ ?_ ?_ ?_
  · intro a b ha hb hab hba
    obtain ⟨ha, hname⟩ := List.mem_filter.mp ha
    obtain ⟨hb, hname'⟩ := List.mem_filter.mp hb
    have ha' := List.mem_of_mem_filter ((List.mem_insertionSort byName).mp ha)
    have hb' := mem_listPersistentVolumes.mp (List.mem_of_mem_filter hb)
    refine Table.eq_of_key_eq ha' hb' (Prod.ext (le_antisymm hab hba) ?_)
    exact (beq_iff_eq.mp hname).trans (beq_iff_eq.mp hname').symm
  · refine ((List.pairwise_insertionSort byName rows).filter _).imp_of_mem fun {a b} ha hb hab => ?_
    have hsame := (beq_iff_eq.mp (List.mem_filter.mp ha).2).trans
      (beq_iff_eq.mp (List.mem_filter.mp hb).2).symm
    rcases hab with hab | ⟨-, hab⟩
    · exact absurd hsame hab.ne
    · exact hab
  · exact d.consumers_pairwise name
  · exact ((List.perm_insertionSort byName rows).filter _).trans
      (((List.perm_insertionSort byKey d.ledger.rows).filter _).filter _).symm

variable {u : UnreferencedPersistentVolume}

/-- The entries that are orphans: a private row that is unreferenced and not desired, or a shared
name all of whose consumers are, with the latest of them. -/
inductive IsOrphan (d : VolumeStore) : UnreferencedPersistentVolume → Prop
  | priv {rec : PersistentVolumeRecord} {t : ℤ} (mem : rec ∈ d.ledger)
      (kind : rec.kind = .workload) (scope : rec.scope = .priv)
      (unreferenced : rec.unreferencedAt = some t) (undesired : rec.uuid ∉ d.desiredStateUUIDs) :
      IsOrphan d ⟨rec.uuid, rec.volumeName, .priv, .workload, rec.hostPath, t, rec.uuid⟩
  | shared {name : Str} {last : PersistentVolumeRecord} {t : ℤ}
      (mem : last ∈ d.consumers name) (unreferenced : last.unreferencedAt = some t)
      (latest : ∀ rec ∈ d.consumers name, rec.uuid ∉ d.desiredStateUUIDs ∧
        ∃ t', rec.unreferencedAt = some t' ∧ (t' < t ∨ t' = t ∧ rec.uuid ≤ last.uuid)) :
      IsOrphan d ⟨[], name, .shared, .workload,
        ((d.consumers name).head?.map (·.hostPath)).getD [], t, last.uuid⟩

theorem SharedAgg.add_some (desired : List Str) (agg : SharedAgg)
    (row : PersistentVolumeRecord × ℤ) : ∃ agg', SharedAgg.add desired (some agg) row = some agg' ∧
      agg'.hostPath = agg.hostPath ∧
      (agg'.stillDesired = 0 ↔ agg.stillDesired = 0 ∧ row.1.uuid ∉ desired) ∧
      (agg'.unreferencedAt, agg'.lastConsumerUUID) =
        if agg.unreferencedAt ≤ row.2 then (row.2, row.1.uuid)
        else (agg.unreferencedAt, agg.lastConsumerUUID) := by
  refine ⟨_, rfl, ?_, ?_, ?_⟩ <;> by_cases hle : agg.unreferencedAt ≤ row.2 <;>
    by_cases hmem : row.1.uuid ∈ desired <;> simp [hle, hmem]

theorem foldl_add_spec (desired : List Str) {rows : List (PersistentVolumeRecord × ℤ)}
    (hne : rows ≠ []) (hord : rows.Pairwise fun a b => a.1.uuid ≤ b.1.uuid) :
    ∃ agg, rows.foldl (SharedAgg.add desired) none = some agg ∧
      rows.head?.map (·.1.hostPath) = some agg.hostPath ∧
      (agg.stillDesired = 0 ↔ ∀ row ∈ rows, row.1.uuid ∉ desired) ∧
      ∃ last ∈ rows, agg.unreferencedAt = last.2 ∧ agg.lastConsumerUUID = last.1.uuid ∧
        ∀ row ∈ rows, row.2 < last.2 ∨ row.2 = last.2 ∧ row.1.uuid ≤ last.1.uuid := by
  induction rows using List.reverseRecOn with
  | nil => exact absurd rfl hne
  | append_singleton rows row ih =>
    rw [List.foldl_append, List.foldl_cons, List.foldl_nil]
    by_cases hnil : rows = []
    · subst hnil
      obtain ⟨agg, hagg, hpath, hdesired, hlatest⟩ :=
        SharedAgg.add_some desired ⟨row.1.hostPath, row.2, row.1.uuid, 0⟩ row
      exact ⟨agg, hagg, by simp [hpath], by grind, row, by simp, by grind⟩
    · rw [List.pairwise_append] at hord
      obtain ⟨agg, hagg, hpath, hdesired, last, hlast, ht, huuid, hlatest⟩ := ih hnil hord.1
      obtain ⟨agg', hagg', hpath', hdesired', hlatest'⟩ := SharedAgg.add_some desired agg row
      rw [hagg]
      simp only [List.forall_mem_append, List.forall_mem_singleton] at hord ⊢
      refine ⟨agg', hagg', ?_, hdesired'.trans (and_congr_left' hdesired), ?_⟩
      · rw [List.head?_append_of_ne_nil _ hnil, hpath, hpath']
      split_ifs at hlatest' with hle
      · exact ⟨row, by simp, by grind⟩
      · exact ⟨last, by simp [hlast], by grind⟩

theorem mem_consumers {name : Str} {rec : PersistentVolumeRecord} :
    rec ∈ d.consumers name ↔
      rec ∈ d.ledger ∧ rec.kind = .workload ∧ rec.scope = .shared ∧ rec.volumeName = name := by
  grind [consumers, mem_listPersistentVolumes]

theorem live_eq_zero_iff {name : Str} : d.liveSharedConsumerCounts name = 0 ↔
    ∀ rec ∈ d.consumers name, rec.unreferencedAt ≠ none := by
  simp only [liveSharedConsumerCounts, List.countP_eq_zero, mem_consumers]
  constructor
  · rintro h rec ⟨hmem, hkind, hscope, hname⟩ hnone
    exact h rec hmem (by simp [hkind, hscope, hname, hnone])
  · intro h rec hmem hlive
    simp only [Bool.and_eq_true, beq_iff_eq, Option.isNone_iff_eq_none] at hlive
    exact h rec ⟨hmem, hlive.1.1.1, hlive.1.1.2, hlive.2⟩ hlive.1.2

theorem sharedAgg_spec {name : Str} (hne : d.consumers name ≠ [])
    (hlive : d.liveSharedConsumerCounts name = 0) :
    ∃ agg, d.sharedAgg name = some agg ∧
      (agg.stillDesired = 0 ↔ ∀ rec ∈ d.consumers name,
        rec.uuid ∉ d.desiredStateUUIDs) ∧
      ((d.consumers name).head?.map (·.hostPath)).getD [] =
        agg.hostPath ∧
      ∃ last ∈ d.consumers name,
        last.unreferencedAt = some agg.unreferencedAt ∧ last.uuid = agg.lastConsumerUUID ∧
        ∀ rec ∈ d.consumers name, ∃ t', rec.unreferencedAt = some t' ∧
          (t' < agg.unreferencedAt ∨ t' = agg.unreferencedAt ∧ rec.uuid ≤ last.uuid) := by
  let rows := (d.unreferencedRows .shared).filter fun row => row.1.volumeName == name
  have hrows : rows.map Prod.fst = d.consumers name := unreferencedRows_eq_consumers hlive
  have hstamp : ∀ row ∈ rows, row.1.unreferencedAt = some row.2 := fun row hrow =>
    (mem_unreferencedRows.mp (List.mem_of_mem_filter hrow)).2.2.2
  have hmem : ∀ rec, rec ∈ d.consumers name ↔
      ∃ row ∈ rows, row.1 = rec := fun rec => by
    rw [← List.mem_map, hrows]
  have hord : rows.Pairwise fun a b => a.1.uuid ≤ b.1.uuid := by
    have hsorted := d.consumers_pairwise name
    rwa [← hrows, List.pairwise_map] at hsorted
  have hne' : rows ≠ [] := fun hnil => hne (by rw [← hrows, hnil, List.map_nil])
  obtain ⟨agg, hagg, hpath, hdesired, last, hlast, ht, huuid, hlatest⟩ :=
    foldl_add_spec d.desiredStateUUIDs hne' hord
  refine ⟨agg, hagg, by grind, ?_, last.1, (hmem _).mpr ⟨last, hlast, rfl⟩, by grind, by grind, ?_⟩
  · rw [← hrows, List.head?_map, Option.map_map]
    exact congrArg (Option.getD · []) hpath
  · intro rec hrec
    obtain ⟨row, hrow, rfl⟩ := (hmem rec).mp hrec
    exact ⟨row.2, hstamp row hrow, by grind⟩

theorem mem_unreferencedShared_iff : u ∈ d.unreferencedShared ↔
    ∃ name agg, u = ⟨[], name, .shared, .workload, agg.hostPath, agg.unreferencedAt,
      agg.lastConsumerUUID⟩ ∧ d.consumers name ≠ [] ∧ d.liveSharedConsumerCounts name = 0 ∧
      d.sharedAgg name = some agg ∧ agg.stillDesired = 0 := by
  simp only [unreferencedShared, List.mem_filterMap, mem_sortedKeys, List.mem_map]
  constructor
  · rintro ⟨name, ⟨row, hrow, hname⟩, h⟩
    obtain ⟨hmem, hkind, hscope, -⟩ := mem_unreferencedRows.mp hrow
    have hne := List.ne_nil_of_mem (mem_consumers.mpr ⟨hmem, hkind, hscope, hname⟩)
    grind
  · rintro ⟨name, agg, rfl, hne, hlive, hagg, hzero⟩
    obtain ⟨rec, hrec⟩ := List.exists_mem_of_ne_nil _ hne
    obtain ⟨t, ht⟩ := Option.ne_none_iff_exists'.mp (live_eq_zero_iff.mp hlive rec hrec)
    obtain ⟨hmem, hkind, hscope, hname⟩ := mem_consumers.mp hrec
    exact ⟨name, ⟨(rec, t), mem_unreferencedRows.mpr ⟨hmem, hkind, hscope, ht⟩, hname⟩,
      by simp [hagg, hlive, hzero]⟩

theorem mem_orphans_iff : u ∈ d.listUnreferencedWorkloadVolumes ↔ IsOrphan d u := by
  rw [listUnreferencedWorkloadVolumes, List.mem_append, mem_unreferencedShared_iff]
  constructor
  · rintro (h | ⟨name, agg, rfl, hne, hlive, hagg, hzero⟩)
    · obtain ⟨row, hrow, rfl⟩ := List.mem_map.mp h
      obtain ⟨hrow, hdesired⟩ := List.mem_filter.mp hrow
      obtain ⟨hmem, hkind, hscope, ht⟩ := mem_unreferencedRows.mp hrow
      rw [hkind]
      exact .priv hmem hkind hscope ht (by simpa using hdesired)
    · obtain ⟨agg', hagg', hdesired, hpath, last, hlast, ht, huuid, hlatest⟩ :=
        sharedAgg_spec hne hlive
      obtain rfl := Option.some_inj.mp (hagg.symm.trans hagg')
      rw [← hpath, ← huuid]
      exact .shared hlast ht fun rec hrec => ⟨hdesired.mp hzero rec hrec, hlatest rec hrec⟩
  · intro h
    cases h with
    | @priv rec t hmem hkind hscope ht hdesired =>
      refine .inl (List.mem_map.mpr ⟨(rec, t), List.mem_filter.mpr ⟨?_, by simpa using hdesired⟩,
        ?_⟩)
      · exact mem_unreferencedRows.mpr ⟨hmem, hkind, hscope, ht⟩
      · rw [hkind]
    | @shared name last t hmem ht hall =>
      have hne := List.ne_nil_of_mem hmem
      have hlive : d.liveSharedConsumerCounts name = 0 :=
        live_eq_zero_iff.mpr fun rec hrec => by grind
      obtain ⟨agg, hagg, hdesired, hpath, last', hlast', ht', huuid, hlatest⟩ :=
        sharedAgg_spec hne hlive
      have hsame : t = agg.unreferencedAt ∧ last.uuid = last'.uuid := by
        obtain ⟨-, t₁, h₁, hle₁⟩ := hall last' hlast'
        obtain ⟨t₂, h₂, hle₂⟩ := hlatest last hmem
        rw [ht', Option.some.injEq] at h₁
        rw [ht, Option.some.injEq] at h₂
        have := @le_antisymm _ _ last.uuid last'.uuid
        grind
      refine .inr ⟨name, agg, ?_, hne, hlive, hagg, hdesired.mpr fun rec hrec => (hall rec hrec).1⟩
      rw [hpath, hsame.1, hsame.2, huuid]

/-- **Where an orphan comes from**: its name and its path are those of a workload row of its
scope, and a private orphan has the identifier of the row too. -/
theorem exists_row_of_mem_unreferenced (h : u ∈ d.listUnreferencedWorkloadVolumes) :
    ∃ rec ∈ d.ledger, rec.kind = .workload ∧ rec.scope = u.scope ∧
      rec.volumeName = u.volumeName ∧ rec.hostPath = u.hostPath ∧
        (u.scope = .priv → rec.uuid = u.uuid) := by
  cases mem_orphans_iff.mp h with
  | @priv rec t hmem hkind hscope => exact ⟨rec, hmem, hkind, hscope, rfl, rfl, fun _ => rfl⟩
  | @shared name last t hmem =>
    obtain ⟨rec, recs, hrecs⟩ := List.exists_cons_of_ne_nil (List.ne_nil_of_mem hmem)
    obtain ⟨hrec, hkind, hscope, hname⟩ := mem_consumers.mp (hrecs ▸ List.mem_cons_self)
    exact ⟨rec, hrec, hkind, hscope, hname, by simp [hrecs], fun h => by cases h⟩

end VolumeStore

end Edgelet
