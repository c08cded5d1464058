import Edgelet.Machine.Run
import Edgelet.VolumeReclaim.Reclaim

/-!
# Purging volumes on deprovision

With the local workloads preserved, a deprovision hands the microservices whose volumes may go to
`Reclaimer.purgeWorkloads`, where an empty list means every workload row. So a purge whose list came
out empty reaches the data of the local workloads.
-/

namespace Edgelet

open Lexical Keyed VolumeStore Reclaimer

namespace Reclaimer

variable {r : Reclaimer} {o : Outcomes}

/-! ## The trees a purge removes -/

theorem removed_andThen_purgePrivate (s : PurgeState) (rec : PersistentVolumeRecord) :
    (s.andThen (r.purgePrivate o rec)).progress.removed =
      s.progress.removed ++ r.reclaimed (r.privatePath rec) r.dataRoot none :=
  removed_reclaim

theorem removed_deleteRow {rec : PersistentVolumeRecord} {p : Progress} :
    (deleteRow o rec p).1.removed = p.removed := by
  unfold deleteRow
  split
  · rfl
  · split <;> rfl

def sharedRemoved (r : Reclaimer) (rows : List PersistentVolumeRecord) (target : List Str)
    (name : Str) : List Str :=
  if (sharedConsumers rows name).any (fun rec => !target.contains rec.uuid) then []
  else r.reclaimed (r.sharedPath name (sharedConsumers rows name)) r.sharedRoot none

theorem removed_purgeSharedName {rows : List PersistentVolumeRecord} {target : List Str}
    (s : PurgeState) (name : Str) :
    (r.purgeSharedName o rows target s name).progress.removed =
      s.progress.removed ++ r.sharedRemoved rows target name := by
  unfold purgeSharedName sharedRemoved
  simp only
  split
  · rw [Machine.log_foldl (fun s : PurgeState => s.progress.removed) (fun _ => [])
      (fun s rec => by simp [PurgeState.andThen, removed_deleteRow])]
    simp
  · exact removed_reclaim

theorem mem_workloadRows {db : VolumeStore} {rec : PersistentVolumeRecord}
    {scope : VolumeScope} :
    rec ∈ workloadRows db.listPersistentVolumes scope ↔
      rec ∈ db.ledger ∧ rec.kind = .workload ∧ rec.scope = scope := by
  simp [workloadRows, mem_listPersistentVolumes]

theorem mem_names {rows : List PersistentVolumeRecord} (order : NameOrder rows) {name : Str} :
    name ∈ order.names ↔ sharedConsumers rows name ≠ [] := by
  rw [order.perm.mem_iff, List.mem_dedup, List.mem_map, sharedConsumers, Ne,
    List.filter_eq_nil_iff]
  simp

/-- **The trees a purge removes**: those of the private rows of its target, and those of the
shared names all of whose consumers are in its target. Which effects succeed and the order
in which the names come do not matter. -/
theorem mem_removed_purgeWorkloads {uuids : List Str}
    {order : NameOrder r.db.listPersistentVolumes} {p : Str} :
    p ∈ (r.purgeWorkloads o uuids order).progress.removed ↔
      (∃ rec ∈ workloadRows r.db.listPersistentVolumes .priv,
        rec.uuid ∈ purgeTarget r.db.listPersistentVolumes uuids ∧
          p ∈ r.reclaimed (r.privatePath rec) r.dataRoot none) ∨
      ∃ name, sharedConsumers r.db.listPersistentVolumes name ≠ [] ∧
        (∀ c ∈ sharedConsumers r.db.listPersistentVolumes name,
          c.uuid ∈ purgeTarget r.db.listPersistentVolumes uuids) ∧
        p ∈ r.reclaimed (r.sharedPath name (sharedConsumers r.db.listPersistentVolumes name))
          r.sharedRoot none := by
  have hshared : ∀ name, p ∈ r.sharedRemoved r.db.listPersistentVolumes
      (purgeTarget r.db.listPersistentVolumes uuids) name ↔
      (∀ c ∈ sharedConsumers r.db.listPersistentVolumes name,
        c.uuid ∈ purgeTarget r.db.listPersistentVolumes uuids) ∧
      p ∈ r.reclaimed (r.sharedPath name (sharedConsumers r.db.listPersistentVolumes name))
        r.sharedRoot none := by
    intro name
    unfold sharedRemoved
    split
    · rename_i hany
      obtain ⟨c, hc, hno⟩ := List.any_eq_true.mp hany
      simp only [List.not_mem_nil, false_iff, not_and]
      intro hall
      simp [hall c hc] at hno
    · rename_i hany
      rw [Bool.not_eq_true, List.any_eq_false] at hany
      simp only [iff_and_self]
      intro _ c hc
      simpa using hany c hc
  unfold purgeWorkloads
  rw [Machine.log_foldl (fun s : PurgeState => s.progress.removed) _ removed_purgeSharedName,
    Machine.log_foldl (fun s : PurgeState => s.progress.removed) _ removed_andThen_purgePrivate]
  simp only [List.nil_append, List.mem_append, List.mem_flatMap, List.mem_filter,
    List.contains_eq_mem, decide_eq_true_eq, mem_names, hshared, and_assoc]

end Reclaimer

/-! ## The purge on deprovision -/

/-- The identifiers of the workload rows that belong to no local workload, and none at all where the
local workloads are not preserved. -/
def persistentVolumePurgeUUIDs (db : VolumeStore) (preserveLocal : Bool) : List Str :=
  if preserveLocal = false then []
  else
    let keep := db.localWorkloads.filter (· ≠ [])
    ((db.listPersistentVolumes.filter fun rec =>
      rec.kind == .workload && !keep.contains rec.uuid).map (·.uuid)).eraseDups

def purgePersistentVolumesOnDeprovision (db : VolumeStore) (disk : Str) (host : Host) (now : ℤ)
    (preserveLocal : Bool) (o : Outcomes) (order : NameOrder db.listPersistentVolumes) :
    PurgeState :=
  (Reclaimer.new db disk host now).purgeWorkloads o (persistentVolumePurgeUUIDs db preserveLocal)
    order

section LocalData

variable (db : VolumeStore) (disk : Str) (host : Host) (now : ℤ)

/-- A row whose directory holds the data of a local workload: a private row of one, or a
consumer row of a shared name that has one among its consumers. -/
def ProtectedRow (rec : PersistentVolumeRecord) : Prop :=
  rec ∈ db.ledger ∧
    match rec.scope with
    | .priv => rec.uuid ∈ db.localWorkloads
    | .shared => ∃ c ∈ db.ledger, c.scope = .shared ∧ c.volumeName = rec.volumeName ∧
        c.uuid ∈ db.localWorkloads

def rowPath (rec : PersistentVolumeRecord) : Str :=
  (Reclaimer.new db disk host now).claimPath rec.hostPath rec.uuid rec.volumeName rec.scope

def HoldsProtected (p : Str) : Prop :=
  ∃ rec, ProtectedRow db rec ∧ ∃ q, host.place (rowPath db disk host now rec) = some q ∧
    Contains p q

/-- **The data of the local workloads is kept**: no removed tree holds the directory of a
protected row. -/
def LocalDataKept (removed : List Str) : Prop :=
  ∀ p ∈ removed, ¬ HoldsProtected db disk host now p

/-- A purge with the local workloads preserved takes the identifier: either no row of another
workload is left to give the list a member, or the trimmed identifier of such a row is the
one at hand. -/
def Reached (uuid : Str) : Prop :=
  (∀ w ∈ db.ledger, w.kind = .workload → w.uuid ∉ db.localWorkloads → trimSpace w.uuid = []) ∨
    uuid ≠ [] ∧ ∃ w ∈ db.ledger, w.kind = .workload ∧ w.uuid ∉ db.localWorkloads ∧
      trimSpace w.uuid = uuid

/-- **The condition**: a claim that passes the jail and whose tree holds protected data has a
consumer that a purge does not take. -/
structure HoldersUnreached : Prop where
  privateRow : ∀ w ∈ db.ledger, w.kind = .workload → w.scope = .priv →
    ∀ p, jailedUnder host ((Reclaimer.new db disk host now).privatePath w)
      (Reclaimer.new db disk host now).dataRoot = some p →
    HoldsProtected db disk host now p → ¬ Reached db w.uuid
  sharedName : ∀ name, sharedConsumers db.listPersistentVolumes name ≠ [] →
    ∀ p, jailedUnder host ((Reclaimer.new db disk host now).sharedPath name
        (sharedConsumers db.listPersistentVolumes name))
      (Reclaimer.new db disk host now).sharedRoot = some p →
    HoldsProtected db disk host now p →
      ∃ c ∈ sharedConsumers db.listPersistentVolumes name, ¬ Reached db c.uuid

variable {db disk host now}

theorem mem_persistentVolumePurgeUUIDs {uuid : Str} :
    uuid ∈ persistentVolumePurgeUUIDs db true ↔
      ∃ w ∈ db.ledger, w.kind = .workload ∧ (w.uuid ∉ db.localWorkloads ∨ w.uuid = []) ∧
        w.uuid = uuid := by
  simp [persistentVolumePurgeUUIDs, mem_listPersistentVolumes, and_assoc, ← imp_iff_not_or]

theorem mem_cleanupSet_purgeUUIDs {uuid : Str} :
    uuid ∈ cleanupSet (persistentVolumePurgeUUIDs db true) ↔
      uuid ≠ [] ∧ ∃ w ∈ db.ledger, w.kind = .workload ∧ w.uuid ∉ db.localWorkloads ∧
        trimSpace w.uuid = uuid := by
  rw [cleanupSet, mem_addTrimmed]
  refine and_congr_right fun hne => ?_
  constructor
  · rintro ⟨v, hv, rfl⟩
    obtain ⟨w, hw, hkind, hlocal, rfl⟩ := mem_persistentVolumePurgeUUIDs.mp hv
    refine ⟨w, hw, hkind, hlocal.resolve_right ?_, rfl⟩
    intro hnil
    exact hne (by rw [hnil]; rfl)
  · rintro ⟨w, hw, hkind, hlocal, rfl⟩
    exact ⟨w.uuid, mem_persistentVolumePurgeUUIDs.mpr ⟨w, hw, hkind, .inl hlocal, rfl⟩, rfl⟩

/-- **The identifiers a deprovision purges**: for a workload row, to be in the target is to
be reached. -/
theorem mem_purgeTarget_iff_reached {w : PersistentVolumeRecord} (hw : w ∈ db.ledger)
    (hkind : w.kind = .workload) :
    w.uuid ∈ purgeTarget db.listPersistentVolumes (persistentVolumePurgeUUIDs db true) ↔
      Reached db w.uuid := by
  have hempty : cleanupSet (persistentVolumePurgeUUIDs db true) = [] ↔
      ∀ w ∈ db.ledger, w.kind = .workload → w.uuid ∉ db.localWorkloads →
        trimSpace w.uuid = [] := by
    rw [List.eq_nil_iff_forall_not_mem]
    constructor
    · intro h v hv hvk hvl
      by_contra hne
      exact h _ (mem_cleanupSet_purgeUUIDs.mpr ⟨hne, v, hv, hvk, hvl, rfl⟩)
    · intro h uuid hmem
      obtain ⟨hne, v, hv, hvk, hvl, rfl⟩ := mem_cleanupSet_purgeUUIDs.mp hmem
      exact hne (h v hv hvk hvl)
  unfold purgeTarget Reached
  split
  · rename_i hnil
    refine iff_of_true ?_ (.inl (hempty.mp hnil))
    exact List.mem_map.mpr ⟨w, by simp [mem_listPersistentVolumes, hw, hkind], rfl⟩
  · rename_i hnil
    rw [mem_cleanupSet_purgeUUIDs]
    exact (or_iff_right fun h => hnil (hempty.mpr h)).symm

/-- **When the data of the local workloads survives a deprovision**: exactly when every claim
whose tree holds some of it has a consumer that the purge does not take. -/
theorem localDataKept_iff :
    (∀ o order, LocalDataKept db disk host now
      (purgePersistentVolumesOnDeprovision db disk host now true o order).progress.removed) ↔
      HoldersUnreached db disk host now := by
  constructor
  · intro h
    have hkept : ∀ p ∈ (purgePersistentVolumesOnDeprovision db disk host now true
        ⟨fun _ => true, fun _ _ => true, fun _ => true⟩ ⟨_, List.Perm.refl _⟩).progress.removed,
        ¬ HoldsProtected db disk host now p := h _ _
    refine ⟨fun w hw hkind hscope p hjail hholds hreach => ?_,
      fun name hne p hjail hholds => ?_⟩
    · refine hkept p (mem_removed_purgeWorkloads.mpr (.inl ⟨w, ?_, ?_, ?_⟩)) hholds
      · exact mem_workloadRows.mpr ⟨hw, hkind, hscope⟩
      · exact (mem_purgeTarget_iff_reached hw hkind).mpr hreach
      · exact mem_reclaimed.mpr ⟨rfl, rfl, hjail⟩
    · by_contra hall
      push Not at hall
      refine hkept p (mem_removed_purgeWorkloads.mpr (.inr ⟨name, hne, ?_, ?_⟩)) hholds
      · intro c hc
        have hrow := mem_workloadRows.mp (List.mem_of_mem_filter hc)
        exact (mem_purgeTarget_iff_reached hrow.1 hrow.2.1).mpr (hall c hc)
      · exact mem_reclaimed.mpr ⟨rfl, rfl, hjail⟩
  · intro h o order p hp hholds
    rcases mem_removed_purgeWorkloads.mp hp with ⟨w, hw, htarget, hp⟩ | ⟨name, hne, hall, hp⟩
    · obtain ⟨hw, hkind, hscope⟩ := mem_workloadRows.mp hw
      exact h.privateRow w hw hkind hscope p (mem_reclaimed.mp hp).2.2 hholds
        ((mem_purgeTarget_iff_reached hw hkind).mp htarget)
    · obtain ⟨c, hc, hreach⟩ := h.sharedName name hne p (mem_reclaimed.mp hp).2.2 hholds
      have hrow := mem_workloadRows.mp (List.mem_of_mem_filter hc)
      exact hreach ((mem_purgeTarget_iff_reached hrow.1 hrow.2.1).mp (hall c hc))

end LocalData

/-! ## A ledger of local workloads only -/

def localOnlyStore : VolumeStore where
  diskDirectory := "/d".toList
  ledger := (Table.empty _).upsert
    ⟨"local".toList, "db".toList, .priv, .workload, "/d/volumes/data/local/db".toList, none⟩
  controllerMicroservices := []
  localWorkloads := ["local".toList]
  systemControlPlane := none

/-- With local workloads only, the list of identifiers is empty, and the purge that should
preserve them destroys their data. -/
theorem localOnlyStore_purged :
    ¬ LocalDataKept localOnlyStore "/d".toList plainHost 0
      (purgePersistentVolumesOnDeprovision localOnlyStore "/d".toList plainHost 0 true
        ⟨fun _ => true, fun _ _ => true, fun _ => true⟩
        ⟨_, List.Perm.refl _⟩).progress.removed := by
  intro h
  refine h "/d/volumes/data/local/db".toList (by decide)
    ⟨⟨"local".toList, "db".toList, .priv, .workload, "/d/volumes/data/local/db".toList, none⟩,
      ⟨List.mem_singleton.mpr rfl, by decide⟩, "/d/volumes/data/local/db".toList, by decide,
      by decide⟩

end Edgelet
