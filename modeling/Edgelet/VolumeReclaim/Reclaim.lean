import Edgelet.Store.PersistentVolumes

/-!
# Destroying persistent volumes

Every destruction of a volume goes through the same steps (`Reclaimer.reclaim`): the path has to lie
strictly inside the allowed directory, no listed container may mount it, the request may be refused
on its own grounds, the tree is removed and the ledger rows go last.

The working directory and the resolution of symbolic links are in `Host`, and which removals succeed
in `Outcomes`. The progress of a request keeps the paths handed to `os.RemoveAll`, since a failed
removal may have removed a part. Events and log lines are left out.
-/

namespace Edgelet

open Lexical Keyed VolumeStore

/-- What the operating system tells about paths. The working directory is an absolute path,
and so is an absolute path with its symbolic links resolved. -/
structure Host where
  cwd : Option Str
  /-- The path with its symbolic links resolved, `none` on an error. -/
  evalSymlinks : Str → Option Str
  isAbs_cwd : ∀ d ∈ cwd, isAbs d = true
  isAbs_evalSymlinks : ∀ p q, isAbs p = true → evalSymlinks p = some q → isAbs q = true

def plainHost : Host := ⟨none, some, by simp, by simp⟩

structure Outcomes where
  removeAll : Str → Bool
  deleteRow : Str → Str → Bool
  deleteShared : Str → Bool

structure UsageProvider where
  listedPrivateUUIDs : List Str
  listedSharedNames : List Str
  pathMounted : Str → Bool

inductive ReclaimError
  | uuidRequired
  | nameRequired
  | pathJail (path : Str)
  | inUse (path : Str)
  | keepSet (claim : Str)
  | grace
  | controlPlane (uuid name : Str)
  | notFound (uuid name : Str)
  | useSharedReclaim (name : Str)
  | destroy (path : Str)
  | store

def Host.resolve (h : Host) (path : Str) : Str := (h.evalSymlinks path).getD path

def jailedUnder (h : Host) (path root : Str) : Option Str :=
  let path := trimSpace path
  let root := trimSpace root
  if path = [] ∨ root = [] then none
  else
    (toAbs h.cwd (clean path)).bind fun absPath =>
      (toAbs h.cwd (clean root)).bind fun absRoot =>
        (rel (h.resolve absRoot) (h.resolve absPath)).bind fun r =>
          if r = dot ∨ isLocal r = false then none else some (h.resolve absPath)

structure Reclaimer where
  db : VolumeStore
  diskDirectory : Str
  now : ℤ
  usage : Option UsageProvider
  host : Host

structure Progress where
  db : VolumeStore
  removed : List Str

namespace Reclaimer

def new (db : VolumeStore) (diskDirectory : Str) (host : Host) (now : ℤ) : Reclaimer :=
  ⟨db, trimSpace diskDirectory, now, none, host⟩

variable (r : Reclaimer) (o : Outcomes)

def dataRoot : Str := join [r.diskDirectory, "volumes".toList, "data".toList]

def sharedRoot : Str := join [r.diskDirectory, "volumes".toList, "shared".toList]

def root : VolumeScope → Str
  | .priv => r.dataRoot
  | .shared => r.sharedRoot

def keepSet : PersistentVolumeKeepSet :=
  match r.usage with
  | none => r.db.persistentVolumeKeepSet [] []
  | some u => r.db.persistentVolumeKeepSet u.listedPrivateUUIDs u.listedSharedNames

def pathMounted (hostPath : Str) : Bool :=
  match r.usage with
  | none => false
  | some u => u.pathMounted hostPath

def claimPath (hostPath uuid name : Str) (scope : VolumeScope) : Str :=
  if trimSpace hostPath = [] then persistentVolumeHostPath r.diskDirectory uuid name scope
  else trimSpace hostPath

section

variable (rec : PersistentVolumeRecord) (rows : List PersistentVolumeRecord)
  (opts : PruneOrphansOptions) (keep : PersistentVolumeKeepSet) (name : Str) (uuids : List Str)

def privatePath : Str :=
  r.claimPath rec.hostPath rec.uuid rec.volumeName .priv

def sharedPath (consumers : List PersistentVolumeRecord) : Str :=
  r.claimPath ((consumers.head?.map (·.hostPath)).getD []) [] name .shared

def destroyJailed (path root : Str) (p : Progress) : Progress × Option ReclaimError :=
  match jailedUnder r.host path root with
  | none => (p, some (.pathJail path))
  | some jailed =>
    ({ p with removed := p.removed ++ [jailed] },
      if o.removeAll jailed then none else some (.destroy jailed))

variable (hostPath root : Str) (refuse : Option ReclaimError)

/-- **One destruction**: the steps every request goes through for a directory, with the
request's own reason to refuse and the deletion of the rows at the end. -/
def reclaim (drop : VolumeStore → Except StoreError VolumeStore) (sqlOk : Bool) (p : Progress) :
    Progress × Option ReclaimError :=
  if jailedUnder r.host hostPath root = none then (p, some (.pathJail hostPath))
  else if r.pathMounted hostPath then (p, some (.inUse hostPath))
  else
    match refuse with
    | some e => (p, some e)
    | none =>
      match r.destroyJailed o hostPath root p with
      | (p, some e) => (p, some e)
      | (p, none) =>
        match drop p.db with
        | .error _ => (p, some .store)
        | .ok db => if sqlOk then ({ p with db := db }, none) else (p, some .store)

def reclaimRow (uuid name : Str) : Progress → Progress × Option ReclaimError :=
  r.reclaim o hostPath root refuse (fun db => db.deletePersistentVolume uuid name)
    (o.deleteRow uuid name)

def reclaimShared (hostPath : Str) (refuse : Option ReclaimError) (name : Str) :
    Progress → Progress × Option ReclaimError :=
  r.reclaim o hostPath r.sharedRoot refuse (fun db => db.deleteSharedPersistentVolumes name)
    (o.deleteShared name)

/-! ## Explicit removal -/

def privateUUIDKept (uuid : Str) : Bool :=
  keep.privateUUIDs.contains (trimSpace uuid)

def sharedNameKept : Bool :=
  keep.sharedNames.contains (trimSpace name)

def removePrivateRecord (force owned : Bool) (rec : PersistentVolumeRecord) :
    Progress → Progress × Option ReclaimError :=
  r.reclaimRow o (r.privatePath rec) r.dataRoot
    (if owned && !force then some (.keepSet rec.uuid) else none) rec.uuid rec.volumeName

def privateWorkloadRecords (uuid name : Str) : Except ReclaimError (List PersistentVolumeRecord) :=
  if name ≠ [] then
    match r.db.getPersistentVolume uuid name with
    | none => .error (.notFound uuid name)
    | some rec =>
      if rec.kind = .controlPlane then .error (.controlPlane uuid name)
      else if rec.scope = .shared then .error (.useSharedReclaim name)
      else .ok [rec]
  else
    let privates := (r.db.listPersistentVolumesForUUID uuid).filter (·.scope == .priv)
    let out := privates.filter (·.kind != .controlPlane)
    if out = [] then
      if privates.any (·.kind == .controlPlane) then .error (.controlPlane uuid [])
      else .error (.notFound uuid [])
    else .ok out

def untilError (f : PersistentVolumeRecord → Progress → Progress × Option ReclaimError) :
    List PersistentVolumeRecord → Progress → Progress × Option ReclaimError
  | [], p => (p, none)
  | rec :: recs, p =>
    match f rec p with
    | (p, some e) => (p, some e)
    | (p, none) => untilError f recs p

def removePrivate (uuid name : Str) (force : Bool) : Progress × Option ReclaimError :=
  let uuid := trimSpace uuid
  let name := trimSpace name
  if uuid = [] then (⟨r.db, []⟩, some .uuidRequired)
  else
    match r.privateWorkloadRecords uuid name with
    | .error e => (⟨r.db, []⟩, some e)
    | .ok recs =>
      untilError (r.removePrivateRecord o force (privateUUIDKept r.keepSet uuid)) recs ⟨r.db, []⟩

def removeShared (force : Bool) : Progress × Option ReclaimError :=
  let name := trimSpace name
  if name = [] then (⟨r.db, []⟩, some .nameRequired)
  else
    let consumers := r.db.listSharedPersistentVolumeConsumers name
    if consumers = [] then (⟨r.db, []⟩, some (.notFound [] name))
    else
      r.reclaimShared o (r.sharedPath name consumers)
        (if sharedNameKept r.keepSet name && !force then some (.keepSet name) else none) name
        ⟨r.db, []⟩

/-! ## Orphan prune -/

def orphanGrace : ℤ := 24 * 60 * 60

structure PruneOrphansOptions where
  confirm : Bool
  force : Bool
  cleanupUUIDs : List Str

def cleanupSet : List Str := addTrimmed uuids

section

variable (orphan : UnreferencedPersistentVolume)

def orphanKept : Bool :=
  match orphan.scope with
  | .shared => sharedNameKept keep orphan.volumeName
  | .priv => privateUUIDKept keep orphan.uuid

def orphanPath : Str :=
  match orphan.scope with
  | .shared => r.claimPath orphan.hostPath [] orphan.volumeName .shared
  | .priv => r.claimPath orphan.hostPath orphan.uuid orphan.volumeName .priv

def bypassGrace : Bool :=
  opts.force ||
    match orphan.scope with
    | .shared => (cleanupSet opts.cleanupUUIDs).contains (trimSpace orphan.lastConsumerUUID)
    | .priv => (cleanupSet opts.cleanupUUIDs).contains (trimSpace orphan.uuid)

def inGrace : Bool :=
  !bypassGrace opts orphan && decide (r.now < orphan.unreferencedAt + orphanGrace)

def pruneOrphan : Progress → Progress × Option ReclaimError :=
  let refuse := if r.inGrace opts orphan then some ReclaimError.grace else none
  match orphan.scope with
  | .shared => r.reclaimShared o (r.orphanPath orphan) refuse orphan.volumeName
  | .priv =>
    r.reclaimRow o (r.orphanPath orphan) r.dataRoot refuse orphan.uuid orphan.volumeName

end

structure PruneOrphansResult where
  candidates : List UnreferencedPersistentVolume
  deleted : List UnreferencedPersistentVolume
  skipped : List (UnreferencedPersistentVolume × ReclaimError)
  progress : Progress

/-- The loop of a prune. An orphan that cannot be destroyed is skipped, but a failing
deletion of its rows ends the request. -/
def pruneLoop (opts : PruneOrphansOptions) (keep : PersistentVolumeKeepSet) :
    List UnreferencedPersistentVolume → PruneOrphansResult →
      PruneOrphansResult × Option ReclaimError
  | [], res => (res, none)
  | orphan :: orphans, res =>
    if orphanKept keep orphan then pruneLoop opts keep orphans res
    else
      let res := { res with candidates := res.candidates ++ [orphan] }
      if opts.confirm = false then pruneLoop opts keep orphans res
      else
        match r.pruneOrphan o opts orphan res.progress with
        | (p, none) =>
          pruneLoop opts keep orphans
            { res with progress := p, deleted := res.deleted ++ [orphan] }
        | (p, some .store) => ({ res with progress := p }, some .store)
        | (p, some e) =>
          pruneLoop opts keep orphans
            { res with progress := p, skipped := res.skipped ++ [(orphan, e)] }

def pruneOrphans : PruneOrphansResult × Option ReclaimError :=
  r.pruneLoop o opts r.keepSet r.db.listUnreferencedWorkloadVolumes ⟨[], [], [], ⟨r.db, []⟩⟩

/-! ## Purge -/

def purgePrivate : Progress → Progress × Option ReclaimError :=
  r.reclaimRow o (r.privatePath rec) r.dataRoot none rec.uuid rec.volumeName

def purgeShared (consumers : List PersistentVolumeRecord) :
    Progress → Progress × Option ReclaimError :=
  r.reclaimShared o (r.sharedPath name consumers) none name

structure PurgeState where
  progress : Progress
  firstErr : Option ReclaimError

def PurgeState.andThen (s : PurgeState)
    (f : Progress → Progress × Option ReclaimError) : PurgeState :=
  ⟨(f s.progress).1, s.firstErr.or (f s.progress).2⟩

def deleteRow (p : Progress) : Progress × Option ReclaimError :=
  match p.db.deletePersistentVolume rec.uuid rec.volumeName with
  | .error _ => (p, some .store)
  | .ok db =>
    if o.deleteRow rec.uuid rec.volumeName then ({ p with db := db }, none) else (p, some .store)

def purgeTarget : List Str :=
  if cleanupSet uuids = [] then (rows.filter (·.kind == .workload)).map (·.uuid)
  else cleanupSet uuids

def workloadRows (scope : VolumeScope) : List PersistentVolumeRecord :=
  rows.filter fun rec => rec.kind == .workload && rec.scope == scope

def sharedConsumers : List PersistentVolumeRecord :=
  (workloadRows rows .shared).filter (·.volumeName == name)

/-- The order in which a purge meets the shared names. They are the keys of a Go map, so any
order can come. -/
structure NameOrder (rows : List PersistentVolumeRecord) where
  names : List Str
  perm : names.Perm ((workloadRows rows .shared).map (·.volumeName)).dedup

def purgeSharedName (target : List Str) (s : PurgeState) (name : Str) : PurgeState :=
  let consumers := sharedConsumers rows name
  if consumers.any (fun rec => !target.contains rec.uuid) then
    (consumers.filter fun rec => target.contains rec.uuid).foldl
      (fun s rec => s.andThen (deleteRow o rec)) s
  else s.andThen (r.purgeShared o name consumers)

def purgeWorkloads (order : NameOrder r.db.listPersistentVolumes) : PurgeState :=
  let rows := r.db.listPersistentVolumes
  let target := purgeTarget rows uuids
  let privates := (workloadRows rows .priv).filter fun rec => target.contains rec.uuid
  let s := privates.foldl (fun s rec => s.andThen (r.purgePrivate o rec)) ⟨⟨r.db, []⟩, none⟩
  order.names.foldl (r.purgeSharedName o rows target) s

end

end Reclaimer

/-! ## The jail -/

def Host.place (h : Host) (path : Str) : Option Str :=
  (toAbs h.cwd (clean (trimSpace path))).map h.resolve

namespace Reclaimer

variable {r : Reclaimer} {o : Outcomes}

/-! ## What one destruction removes -/

def reclaimed (r : Reclaimer) (hostPath root : Str) (refuse : Option ReclaimError) : List Str :=
  if r.pathMounted hostPath = false ∧ refuse = none then
    (jailedUnder r.host hostPath root).toList
  else []

variable {refuse : Option ReclaimError}

theorem mem_reclaimed {hostPath root p : Str} :
    p ∈ r.reclaimed hostPath root refuse ↔
      r.pathMounted hostPath = false ∧ refuse = none ∧
        jailedUnder r.host hostPath root = some p := by
  unfold reclaimed
  split
  · rename_i h
    simp [h]
  · rename_i h
    simp only [List.not_mem_nil, false_iff]
    exact fun h' => h ⟨h'.1, h'.2.1⟩

/-- **What one destruction removes** does not depend on which effects succeed. -/
theorem removed_reclaim {hostPath root : Str}
    {drop : VolumeStore → Except StoreError VolumeStore} {sqlOk : Bool} {p : Progress} :
    (r.reclaim o hostPath root refuse drop sqlOk p).1.removed =
      p.removed ++ r.reclaimed hostPath root refuse := by
  unfold reclaim reclaimed
  cases hjail : jailedUnder r.host hostPath root with
  | none => simp
  | some jailed =>
    cases hmount : r.pathMounted hostPath with
    | true => simp
    | false =>
      cases refuse with
      | some e => simp
      | none =>
        simp only [destroyJailed, hjail]
        cases o.removeAll jailed with
        | false => simp
        | true =>
          cases hdrop : drop p.db with
          | error e => simp [hdrop]
          | ok db => cases sqlOk <;> simp [hdrop]

theorem reclaim_ne_store {hostPath root : Str} {drop : VolumeStore → Except StoreError VolumeStore}
    {p : Progress} (hrefuse : refuse ≠ some .store) (hdrop : ∀ db, ∃ db', drop db = .ok db') :
    (r.reclaim o hostPath root refuse drop true p).2 ≠ some .store := by
  unfold reclaim
  cases hjail : jailedUnder r.host hostPath root with
  | none => simp
  | some jailed =>
    cases hmount : r.pathMounted hostPath with
    | true => simp
    | false =>
      cases refuse with
      | some e => simpa using hrefuse
      | none =>
        simp only [destroyJailed, hjail]
        cases o.removeAll jailed with
        | false => simp
        | true =>
          obtain ⟨db', hdb⟩ := hdrop p.db
          simp [hdb]

end Reclaimer

end Edgelet
