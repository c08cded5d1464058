import Edgelet.Codec.Json
import Edgelet.FieldAgent.DeprovisionVolumes
import Edgelet.VolumeReclaim.Confinement

/-!
# The mount check of the runtime

The reclaimer asks the container engine which microservices have a container, which shared names are
mounted, and, before a directory is destroyed, whether a container mounts it. A listing that fails
is read as no container, and a container whose inspect fails is passed over; so what could not be
asked is not in use.
-/

namespace Edgelet

open Lexical Json VolumeStore Reclaimer

namespace RuntimeAPI

abbrev Payload := Value (Option Str)

mutual

def walkStrings : Payload → List Str
  | .null => []
  | .bool _ => []
  | .num n => n.toList
  | .str s => [s]
  | .arr vs => walkElements vs
  | .obj fields => walkFields fields

def walkElements : List Payload → List Str
  | [] => []
  | v :: vs => walkStrings v ++ walkElements vs

def walkFields : List (Str × Payload) → List Str
  | [] => []
  | (_, v) :: fields => walkStrings v ++ walkFields fields

end

variable (diskDirectory : Str) (inspect : Payload)

def inspectContainsPath (hostPath : Str) : Bool :=
  (walkStrings inspect).any fun value => clean value == hostPath

def afterFirst (marker : Str) : Str → Option Str
  | [] => if marker = [] then some [] else none
  | c :: s =>
    if marker.isPrefixOf (c :: s) then some ((c :: s).drop marker.length)
    else afterFirst marker s

def trimSep (s : Str) : Str := if s.head? = some '/' then s.tail else s

def sharedMarker : Str :=
  if trimSpace diskDirectory = [] then join ["volumes".toList, "shared".toList]
  else join [clean diskDirectory, "volumes".toList, "shared".toList]

def sharedNamesFromInspect : List Str :=
  ((walkStrings inspect).filterMap fun value =>
    (afterFirst (sharedMarker diskDirectory) (clean value)).map fun rest =>
      trimSpace ((trimSep (trimSep rest)).takeWhile (· ≠ '/'))).filter (· ≠ [])

structure Container where
  id : Str
  microserviceUUID : Str
  mountSources : List Str

inductive Question
  | listedPrivateUUIDs
  | listedSharedNames
  | pathMounted (hostPath : Str)

/-- **The container engine** while a request runs: the containers that exist, and what becomes
of the calls. An inspect that succeeds shows what the container mounts. -/
structure Engine where
  containers : List Container
  listing : Question → Bool
  /-- The payload of an inspect made for a question, `none` on an error. -/
  inspect : Question → Str → Option Payload
  shows : ∀ q, ∀ c ∈ containers, ∀ payload, inspect q c.id = some payload →
    ∀ source ∈ c.mountSources, source ∈ walkStrings payload

namespace Engine

variable (e : Engine)

def listAllContainers (q : Question) : Option (List Container) :=
  if e.listing q then some e.containers else none

def forEachInspect (q : Question) : List Payload :=
  match e.listAllContainers q with
  | none => []
  | some containers => containers.filterMap fun c => e.inspect q c.id

end Engine

/-- **The usage provider of the runtime**: `ListedPrivateUUIDs`, `ListedSharedNames` and
`PathMounted`. -/
def runtimeVolumeUsage (e : Engine) (diskDirectory : Str) : UsageProvider where
  listedPrivateUUIDs :=
    match e.listAllContainers .listedPrivateUUIDs with
    | none => []
    | some containers => sortedKeys (addTrimmed (containers.map (·.microserviceUUID)))
  listedSharedNames :=
    sortedKeys ((e.forEachInspect .listedSharedNames).flatMap
      (sharedNamesFromInspect diskDirectory))
  pathMounted path :=
    let hostPath := clean (trimSpace path)
    if hostPath = [] then false
    else (e.forEachInspect (.pathMounted path)).any (inspectContainsPath · hostPath)

def volumeReclaimer (db : VolumeStore) (diskDirectory : Str) (host : Host) (now : ℤ)
    (e : Engine) : Reclaimer :=
  { new db (trimSpace diskDirectory) host now with
    usage := some (runtimeVolumeUsage e (trimSpace diskDirectory)) }

/-! ## What the mount check answers -/

def Engine.MountSource (e : Engine) (h : Host) (dir : Str) : Prop :=
  ∃ c ∈ e.containers, ∃ source ∈ c.mountSources,
    (toAbs h.cwd (clean source)).map h.resolve = some dir

/-- **The calls of a mount check that finds its path**: the listing succeeds, and an inspect
that succeeds names the path. -/
def Engine.Sees (e : Engine) (path : Str) : Prop :=
  e.listing (.pathMounted path) = true ∧
    ∃ c ∈ e.containers, ∃ payload, e.inspect (.pathMounted path) c.id = some payload ∧
      ∃ value ∈ walkStrings payload, clean value = clean (trimSpace path)

theorem inspectContainsPath_iff {inspect : Payload} {hostPath : Str} :
    inspectContainsPath inspect hostPath = true ↔
      ∃ value ∈ walkStrings inspect, clean value = hostPath := by
  simp [inspectContainsPath]

theorem Engine.mem_forEachInspect {e : Engine} {q : Question} {payload : Payload} :
    payload ∈ e.forEachInspect q ↔
      e.listing q = true ∧ ∃ c ∈ e.containers, e.inspect q c.id = some payload := by
  cases hlist : e.listing q with
  | false | true => simp [Engine.forEachInspect, Engine.listAllContainers, hlist]

theorem pathMounted_iff {db : VolumeStore} {diskDirectory path : Str} {host : Host} {now : ℤ}
    {e : Engine} :
    (volumeReclaimer db diskDirectory host now e).pathMounted path = true ↔ e.Sees path := by
  show (if clean (trimSpace path) = [] then false
    else (e.forEachInspect (.pathMounted path)).any (inspectContainsPath · _)) = true ↔ _
  rw [if_neg (clean_ne_nil _), List.any_eq_true]
  constructor
  · rintro ⟨payload, hmem, hpath⟩
    obtain ⟨hlist, c, hc, hinspect⟩ := Engine.mem_forEachInspect.mp hmem
    exact ⟨hlist, c, hc, payload, hinspect, inspectContainsPath_iff.mp hpath⟩
  · rintro ⟨hlist, c, hc, payload, hinspect, hpath⟩
    exact ⟨payload, Engine.mem_forEachInspect.mpr ⟨hlist, c, hc, hinspect⟩,
      inspectContainsPath_iff.mpr hpath⟩

/-! ## What the requests remove -/

/-- A request to destroy volumes. A prune is confirmed, and a purge meets the shared names in
some order. -/
inductive Request (r : Reclaimer)
  | pruneOrphans (force : Bool) (cleanupUUIDs : List Str)
  | removePrivate (uuid name : Str) (force : Bool)
  | removeShared (name : Str) (force : Bool)
  | purgeWorkloads (uuids : List Str) (order : NameOrder r.db.listPersistentVolumes)

def Request.removed {r : Reclaimer} (o : Outcomes) : Request r → List Str
  | pruneOrphans force cleanupUUIDs =>
    (r.pruneOrphans o ⟨true, force, cleanupUUIDs⟩).1.progress.removed
  | removePrivate uuid name force => (r.removePrivate o uuid name force).1.removed
  | removeShared name force => (r.removeShared o name force).1.removed
  | purgeWorkloads uuids order => (r.purgeWorkloads o uuids order).progress.removed

/-- The claims that some request destroys when nothing stands in the way, with the directory
each has to lie in. -/
inductive Destroyable (r : Reclaimer) : Str → Str → Prop
  | privateRow {rec : PersistentVolumeRecord} (hrec : rec ∈ r.db.ledger)
      (hkind : rec.kind = .workload) (hscope : rec.scope = .priv) :
      Destroyable r (r.privatePath rec) r.dataRoot
  | sharedName {name : Str} (hname : trimSpace name = name ∧ name ≠ [])
      (hne : r.db.listSharedPersistentVolumeConsumers name ≠ []) :
      Destroyable r (r.sharedPath name (r.db.listSharedPersistentVolumeConsumers name))
        r.sharedRoot
  | workloadName {name : Str} (hne : sharedConsumers r.db.listPersistentVolumes name ≠ []) :
      Destroyable r (r.sharedPath name (sharedConsumers r.db.listPersistentVolumes name))
        r.sharedRoot

variable {r : Reclaimer} {o : Outcomes}

theorem Destroyable.of_orphan {u : UnreferencedPersistentVolume}
    (hu : u ∈ r.db.listUnreferencedWorkloadVolumes) :
    Destroyable r (r.orphanPath u) (r.root u.scope) := by
  cases mem_orphans_iff.mp hu with
  | priv hmem hkind hscope => exact .privateRow hmem hkind hscope
  | shared hmem => exact .workloadName (List.ne_nil_of_mem hmem)

theorem exists_destroyable_of_removed {req : Request r} {p : Str} (hp : p ∈ req.removed o) :
    ∃ path root, Destroyable r path root ∧ r.pathMounted path = false ∧
      jailedUnder r.host path root = some p := by
  cases req with
  | pruneOrphans force cleanupUUIDs =>
    rcases mem_removed_pruneLoop hp with hp | ⟨u, hu, -, hp⟩
    · cases hp
    · obtain ⟨hmount, -, hjail⟩ := mem_reclaimed.mp hp
      exact ⟨_, _, .of_orphan hu, hmount, hjail⟩
  | removePrivate uuid name force =>
    simp only [Request.removed, Reclaimer.removePrivate] at hp
    split at hp
    · cases hp
    · split at hp
      · cases hp
      · rename_i recs hrecs
        rcases mem_removed_untilError (removed_removePrivateRecord _ _) hp with
          hp | ⟨rec, hrec, hp⟩
        · cases hp
        · obtain ⟨hmem, hkind, hscope, -⟩ := mem_of_privateWorkloadRecords hrecs hrec
          obtain ⟨hmount, -, hjail⟩ := mem_reclaimed.mp hp
          exact ⟨_, _, .privateRow hmem hkind hscope, hmount, hjail⟩
  | removeShared name force =>
    simp only [Request.removed, Reclaimer.removeShared] at hp
    split at hp
    · cases hp
    · rename_i hname
      split at hp
      · cases hp
      · rename_i hne
        rw [reclaimShared, removed_reclaim, List.nil_append] at hp
        obtain ⟨hmount, -, hjail⟩ := mem_reclaimed.mp hp
        exact ⟨_, _, .sharedName ⟨trimSpace_trimSpace name, hname⟩ hne, hmount, hjail⟩
  | purgeWorkloads uuids order =>
    rcases mem_removed_purgeWorkloads.mp hp with ⟨rec, hrec, -, hp⟩ | ⟨name, hne, -, hp⟩
    · obtain ⟨hmem, hkind, hscope⟩ := mem_workloadRows.mp hrec
      obtain ⟨hmount, -, hjail⟩ := mem_reclaimed.mp hp
      exact ⟨_, _, .privateRow hmem hkind hscope, hmount, hjail⟩
    · obtain ⟨hmount, -, hjail⟩ := mem_reclaimed.mp hp
      exact ⟨_, _, .workloadName hne, hmount, hjail⟩

theorem mem_purgeTarget_nil {rec : PersistentVolumeRecord} (hrec : rec ∈ r.db.ledger)
    (hkind : rec.kind = .workload) : rec.uuid ∈ purgeTarget r.db.listPersistentVolumes [] :=
  List.mem_map_of_mem
    (List.mem_filter.mpr ⟨mem_listPersistentVolumes.mpr hrec, by simp [hkind]⟩)

def rowOrder (rows : List PersistentVolumeRecord) : NameOrder rows := ⟨_, .refl _⟩

theorem exists_request_of_destroyable {path root p : Str} (hclaim : Destroyable r path root)
    (hmount : r.pathMounted path = false) (hjail : jailedUnder r.host path root = some p) :
    ∃ req : Request r, p ∈ req.removed allSucceed := by
  cases hclaim with
  | @privateRow rec hrec hkind hscope =>
    refine ⟨.purgeWorkloads [] (rowOrder _), mem_removed_purgeWorkloads.mpr (.inl ⟨rec, ?_⟩)⟩
    exact ⟨mem_workloadRows.mpr ⟨hrec, hkind, hscope⟩, mem_purgeTarget_nil hrec hkind,
      mem_reclaimed.mpr ⟨hmount, rfl, hjail⟩⟩
  | @workloadName name hne =>
    refine ⟨.purgeWorkloads [] (rowOrder _), mem_removed_purgeWorkloads.mpr (.inr ⟨name, hne, ?_⟩)⟩
    refine ⟨fun c hc => ?_, mem_reclaimed.mpr ⟨hmount, rfl, hjail⟩⟩
    obtain ⟨hmem, hkind, -⟩ := mem_workloadRows.mp (List.mem_of_mem_filter hc)
    exact mem_purgeTarget_nil hmem hkind
  | @sharedName name hname hne =>
    refine ⟨.removeShared name true, ?_⟩
    simp only [Request.removed, Reclaimer.removeShared, hname.1, hname.2, hne, if_false]
    rw [reclaimShared, removed_reclaim, List.nil_append]
    exact mem_reclaimed.mpr ⟨hmount, by simp, hjail⟩

/-- **What the requests remove between them.** -/
theorem exists_request_iff {p : Str} :
    (∃ o, ∃ req : Request r, p ∈ req.removed o) ↔
      ∃ path root, Destroyable r path root ∧ r.pathMounted path = false ∧
        jailedUnder r.host path root = some p := by
  constructor
  · rintro ⟨o, req, hp⟩
    exact exists_destroyable_of_removed hp
  · rintro ⟨path, root, hclaim, hmount, hjail⟩
    exact ⟨allSucceed, exists_request_of_destroyable hclaim hmount hjail⟩

/-! ## Failing closed -/

section FailsClosed

variable {db : VolumeStore} {diskDirectory : Str} {host : Host} {now : ℤ} {e : Engine}

end FailsClosed

def recordedStore : VolumeStore :=
  { emptyStore with
    ledger := (Keyed.Table.empty _).upsert ⟨"a".toList, "x".toList, .priv, .workload,
      "/d/volumes/data/a/x".toList, some 0⟩ }

def mountingEngine (listing inspects : Bool) : Engine where
  containers := [⟨"c".toList, "a".toList, ["/d/volumes/data/a/x".toList]⟩]
  listing _ := listing
  inspect _ _ := if inspects then some (.arr [.str "/d/volumes/data/a/x".toList]) else none
  shows := by
    intro _ c hc payload hpayload source hsource
    rw [List.mem_singleton.mp hc, List.mem_singleton] at hsource
    split at hpayload
    · cases hpayload
      exact hsource ▸ List.mem_singleton_self _
    · cases hpayload

def mountingReclaimer (listing inspects : Bool) : Reclaimer :=
  volumeReclaimer recordedStore "/d".toList plainHost 100000 (mountingEngine listing inspects)

end RuntimeAPI

end Edgelet
