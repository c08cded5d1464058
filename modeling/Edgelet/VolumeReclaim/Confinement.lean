import Edgelet.VolumeReclaim.Reclaim

/-!
# Reclaim is confined to unkept claims

The operations check the keep-set by identifier and by name, and destroy by path: what they remove
is the directory of a row that is not kept. Where identifiers and names are single components, the
directories of different claims do not meet; a name that climbs can make them meet.
-/

namespace Edgelet

open Lexical Keyed VolumeStore

namespace Reclaimer

variable {r : Reclaimer} {o : Outcomes} {opts : PruneOrphansOptions}

/-! ## The trees the requests remove -/

def orphanRemoved (r : Reclaimer) (opts : PruneOrphansOptions)
    (u : UnreferencedPersistentVolume) : List Str :=
  r.reclaimed (r.orphanPath u) (r.root u.scope)
    (if r.inGrace opts u then some ReclaimError.grace else none)

theorem removed_pruneOrphan (u : UnreferencedPersistentVolume) (p : Progress) :
    (r.pruneOrphan o opts u p).1.removed = p.removed ++ r.orphanRemoved opts u := by
  unfold pruneOrphan orphanRemoved
  cases hscope : u.scope with
  | priv | shared => exact removed_reclaim

def roundRemoved (r : Reclaimer) (opts : PruneOrphansOptions) (keep : PersistentVolumeKeepSet)
    (u : UnreferencedPersistentVolume) : List Str :=
  if orphanKept keep u = false ∧ opts.confirm = true then r.orphanRemoved opts u else []

variable {keep : PersistentVolumeKeepSet} {x : Str}

theorem mem_roundRemoved {u : UnreferencedPersistentVolume} :
    x ∈ r.roundRemoved opts keep u ↔
      (orphanKept keep u = false ∧ opts.confirm = true) ∧ x ∈ r.orphanRemoved opts u := by
  unfold roundRemoved
  split
  · rename_i h
    simp [h]
  · rename_i h
    simp [h]

/-- **One round of a prune**: the loop goes on with the other orphans, unless the store has
failed. -/
theorem pruneLoop_cons (keep : PersistentVolumeKeepSet) (u : UnreferencedPersistentVolume)
    (us : List UnreferencedPersistentVolume) (res : PruneOrphansResult) :
    ∃ res' : PruneOrphansResult,
      res'.progress.removed = res.progress.removed ++ r.roundRemoved opts keep u ∧
      (r.pruneLoop o opts keep (u :: us) res = r.pruneLoop o opts keep us res' ∨
        (r.pruneLoop o opts keep (u :: us) res).1 = res') := by
  generalize hout : r.pruneLoop o opts keep (u :: us) res = out
  unfold pruneLoop at hout
  split at hout
  · rename_i hkept
    exact ⟨res, by simp [roundRemoved, hkept], .inl hout.symm⟩
  rename_i hkept
  simp only at hout
  split at hout
  · rename_i hconfirm
    refine ⟨_, ?_, .inl hout.symm⟩
    simp [roundRemoved, hconfirm]
  rename_i hconfirm
  have hstep : (r.pruneOrphan o opts u res.progress).1.removed =
      res.progress.removed ++ r.roundRemoved opts keep u := by
    rw [roundRemoved, if_pos ⟨by simpa using hkept, by simpa using hconfirm⟩]
    exact removed_pruneOrphan u res.progress
  split at hout
  · rename_i p hp
    rw [hp] at hstep
    exact ⟨_, hstep, .inl hout.symm⟩
  · rename_i p hp
    rw [hp] at hstep
    exact ⟨_, hstep, .inr (by rw [← hout])⟩
  · rename_i p e _ hp
    rw [hp] at hstep
    exact ⟨_, hstep, .inl hout.symm⟩

theorem mem_removed_pruneLoop {us : List UnreferencedPersistentVolume} {res : PruneOrphansResult}
    (hx : x ∈ (r.pruneLoop o opts keep us res).1.progress.removed) :
    x ∈ res.progress.removed ∨
      ∃ u ∈ us, orphanKept keep u = false ∧ x ∈ r.orphanRemoved opts u := by
  induction us generalizing res with
  | nil => exact .inl hx
  | cons u us ih =>
    obtain ⟨res', hremoved, hloop⟩ := @pruneLoop_cons r o opts keep u us res
    have hround : x ∈ res'.progress.removed → x ∈ res.progress.removed ∨
        ∃ v ∈ u :: us, orphanKept keep v = false ∧ x ∈ r.orphanRemoved opts v := by
      intro h
      rw [hremoved, List.mem_append, mem_roundRemoved] at h
      exact h.imp_right fun ⟨hround, h⟩ => ⟨u, List.mem_cons_self, hround.1, h⟩
    rcases hloop with hloop | hloop
    · rw [hloop] at hx
      rcases ih hx with h | ⟨v, hv, hrest⟩
      · exact hround h
      · exact .inr ⟨v, List.mem_cons_of_mem _ hv, hrest⟩
    · rw [hloop] at hx
      exact hround hx

theorem mem_removed_untilError
    {f : PersistentVolumeRecord → Progress → Progress × Option ReclaimError}
    {added : PersistentVolumeRecord → List Str}
    (hf : ∀ rec p, (f rec p).1.removed = p.removed ++ added rec)
    {recs : List PersistentVolumeRecord} {p : Progress} (hx : x ∈ (untilError f recs p).1.removed) :
    x ∈ p.removed ∨ ∃ rec ∈ recs, x ∈ added rec := by
  induction recs generalizing p with
  | nil => exact .inl hx
  | cons rec recs ih =>
    have hstep := hf rec p
    have hnow : x ∈ (f rec p).1.removed → x ∈ p.removed ∨ ∃ r ∈ rec :: recs, x ∈ added r := by
      intro h
      rw [hstep, List.mem_append] at h
      exact h.imp_right fun h => ⟨rec, List.mem_cons_self, h⟩
    unfold untilError at hx
    split at hx
    · rename_i q e hq
      exact hnow (by rw [hq]; exact hx)
    · rename_i q hq
      rcases ih hx with h | ⟨rec', hrec', h⟩
      · exact hnow (by rw [hq]; exact h)
      · exact .inr ⟨rec', List.mem_cons_of_mem _ hrec', h⟩

theorem removed_removePrivateRecord (force owned : Bool) (rec : PersistentVolumeRecord)
    (p : Progress) :
    (r.removePrivateRecord o force owned rec p).1.removed =
      p.removed ++ r.reclaimed (r.privatePath rec) r.dataRoot
        (if owned && !force then some (.keepSet rec.uuid) else none) :=
  removed_reclaim

theorem mem_of_privateWorkloadRecords {uuid name : Str} {recs : List PersistentVolumeRecord}
    (h : r.privateWorkloadRecords uuid name = .ok recs) {rec : PersistentVolumeRecord}
    (hrec : rec ∈ recs) :
    rec ∈ r.db.ledger ∧ rec.kind = .workload ∧ rec.scope = .priv ∧ rec.uuid = trimSpace uuid := by
  have hworkload : ∀ {k : PersistentVolumeKind}, k ≠ .controlPlane → k = .workload := by
    intro k hk
    cases k with
    | workload => rfl
    | controlPlane => exact absurd rfl hk
  unfold privateWorkloadRecords at h
  split at h
  · split at h
    · cases h
    · rename_i rec' hget
      split at h
      · cases h
      · rename_i hkind
        split at h
        · cases h
        · rename_i hscope
          cases h
          rw [List.mem_singleton] at hrec
          subst hrec
          obtain ⟨hmem, hkey⟩ := Table.get?_eq_some_iff.mp hget
          refine ⟨hmem, hworkload hkind, ?_, congrArg Prod.fst hkey⟩
          cases hs : rec.scope with
          | priv => rfl
          | shared => exact absurd hs hscope
  · simp only at h
    split at h
    · split at h <;> cases h
    · cases h
      simp only [List.mem_filter, listPersistentVolumesForUUID, mem_listPersistentVolumes,
        beq_iff_eq, bne_iff_ne] at hrec
      exact ⟨hrec.1.1.1, hworkload hrec.2, hrec.1.2, hrec.1.1.2⟩

/-! ## Kept directories -/

def recordPath (r : Reclaimer) (rec : PersistentVolumeRecord) : Str :=
  r.claimPath rec.hostPath rec.uuid rec.volumeName rec.scope

/-- **The directory of a volume in the keep-set**: that of a private row whose identifier is
kept, that of a consumer row of a kept shared name, or that the kept name leads to. -/
inductive KeptDir (r : Reclaimer) : Str → Prop
  | privateRow {rec : PersistentVolumeRecord} {q : Str} (hrec : rec ∈ r.db.ledger)
      (hscope : rec.scope = .priv) (hkept : rec.uuid ∈ r.keepSet.privateUUIDs)
      (hplace : r.host.place (r.recordPath rec) = some q) : KeptDir r q
  | sharedRow {rec : PersistentVolumeRecord} {q : Str} (hrec : rec ∈ r.db.ledger)
      (hscope : rec.scope = .shared) (hkept : rec.volumeName ∈ r.keepSet.sharedNames)
      (hplace : r.host.place (r.recordPath rec) = some q) : KeptDir r q
  | sharedName {name q : Str} (hkept : name ∈ r.keepSet.sharedNames)
      (hplace : r.host.place (persistentVolumeHostPath r.diskDirectory [] name .shared) = some q) :
      KeptDir r q

/-- Nothing that is removed lies in a kept directory, or around it. -/
def Confined (r : Reclaimer) (removed : List Str) : Prop :=
  ∀ p ∈ removed, ∀ q, r.KeptDir q → ¬ Overlap p q

/-! ## What the requests remove -/

/-- The row is not in the keep-set. -/
def Unkept (r : Reclaimer) (rec : PersistentVolumeRecord) : Prop :=
  match rec.scope with
  | .priv => privateUUIDKept r.keepSet rec.uuid = false
  | .shared => sharedNameKept r.keepSet rec.volumeName = false

/-- The directory of a row that is not in the keep-set. -/
def UnkeptDir (r : Reclaimer) (p : Str) : Prop :=
  ∃ rec ∈ r.db.ledger, r.Unkept rec ∧ r.host.place (r.recordPath rec) = some p

theorem place_of_jailedUnder {h : Host} {path root p : Str}
    (hjail : jailedUnder h path root = some p) : h.place path = some p := by
  unfold jailedUnder at hjail
  simp only at hjail
  split at hjail
  · cases hjail
  · obtain ⟨absPath, habs, hjail⟩ := Option.bind_eq_some_iff.mp hjail
    obtain ⟨absRoot, -, hjail⟩ := Option.bind_eq_some_iff.mp hjail
    obtain ⟨rel, -, hjail⟩ := Option.bind_eq_some_iff.mp hjail
    split at hjail
    · cases hjail
    · rw [Host.place, habs]
      exact hjail

theorem unkeptDir_of_mem_reclaimed {rec : PersistentVolumeRecord} {path root p : Str} {kept : Bool}
    {e : ReclaimError} (hrec : rec ∈ r.db.ledger) (hpath : path = r.recordPath rec)
    (hunkept : kept = false → r.Unkept rec)
    (hp : p ∈ r.reclaimed path root (if kept && !false then some e else none)) : r.UnkeptDir p := by
  obtain ⟨-, hrefuse, hjail⟩ := mem_reclaimed.mp hp
  refine ⟨rec, hrec, hunkept ?_, hpath ▸ place_of_jailedUnder hjail⟩
  cases kept with
  | false => rfl
  | true => cases hrefuse

theorem unkeptDir_of_pruned {o : Outcomes} {p : Str}
    (hp : p ∈ (r.pruneOrphans o opts).1.progress.removed) : r.UnkeptDir p := by
  rcases mem_removed_pruneLoop hp with hp | ⟨u, hu, hkept, hp⟩
  · cases hp
  · obtain ⟨-, -, hjail⟩ := mem_reclaimed.mp hp
    obtain ⟨rec, hrec, -, hscope, hname, hpath, huuid⟩ := exists_row_of_mem_unreferenced hu
    refine ⟨rec, hrec, ?_, ?_⟩
    · cases hs : u.scope with
      | priv => simpa [Unkept, orphanKept, hscope, hs, huuid hs] using hkept
      | shared => simpa [Unkept, orphanKept, hscope, hs, hname] using hkept
    · have horphan : r.orphanPath u = r.recordPath rec := by
        cases hs : u.scope with
        | priv => simp [orphanPath, recordPath, hscope, hs, hname, hpath, huuid hs]
        | shared =>
          simp [orphanPath, recordPath, claimPath, persistentVolumeHostPath, hscope, hs, hname,
            hpath]
      exact horphan ▸ place_of_jailedUnder hjail

theorem unkeptDir_of_removedPrivate {uuid name p : Str}
    (hp : p ∈ (r.removePrivate o uuid name false).1.removed) : r.UnkeptDir p := by
  unfold removePrivate at hp
  simp only at hp
  split at hp
  · cases hp
  · split at hp
    · cases hp
    next recs hrecs =>
      rcases mem_removed_untilError (removed_removePrivateRecord _ _) hp with
        hp | ⟨rec, hrec, hp⟩
      · cases hp
      · obtain ⟨hmem, -, hscope, huuid⟩ := mem_of_privateWorkloadRecords hrecs hrec
        rw [trimSpace_trimSpace] at huuid
        refine unkeptDir_of_mem_reclaimed hmem (by simp [privatePath, recordPath, hscope])
          (fun hkept => ?_) hp
        rw [← huuid] at hkept
        simpa [Unkept, hscope] using hkept

theorem unkeptDir_of_removedShared {name p : Str}
    (hp : p ∈ (r.removeShared o name false).1.removed) : r.UnkeptDir p := by
  unfold removeShared at hp
  simp only at hp
  split at hp
  · cases hp
  · split at hp
    · cases hp
    next hne =>
      rw [reclaimShared, removed_reclaim, List.nil_append] at hp
      obtain ⟨rec, recs, hrecs⟩ := List.exists_cons_of_ne_nil hne
      have hmem : rec ∈ r.db.listSharedPersistentVolumeConsumers (trimSpace name) :=
        hrecs ▸ List.mem_cons_self
      simp only [listSharedPersistentVolumeConsumers, List.mem_filter, mem_listPersistentVolumes,
        Bool.and_eq_true, beq_iff_eq, trimSpace_trimSpace] at hmem
      obtain ⟨hrec, hname, hscope⟩ := hmem
      refine unkeptDir_of_mem_reclaimed hrec ?_ (fun hkept => ?_) hp
      · simp [sharedPath, recordPath, claimPath, persistentVolumeHostPath, hrecs, hscope, hname]
      · simpa [Unkept, hscope, hname] using hkept

def allSucceed : Outcomes := ⟨fun _ => true, fun _ _ => true, fun _ => true⟩

theorem exists_deletePersistentVolume {uuid name : Str} (huuid : trimSpace uuid ≠ [])
    (hname : trimSpace name ≠ []) (db : VolumeStore) :
    ∃ db', db.deletePersistentVolume uuid name = .ok db' :=
  ⟨_, by simp only [deletePersistentVolume, huuid, hname, if_false]; rfl⟩

theorem exists_deleteSharedPersistentVolumes {name : Str} (hname : trimSpace name ≠ [])
    (db : VolumeStore) : ∃ db', db.deleteSharedPersistentVolumes name = .ok db' :=
  ⟨_, by simp only [deleteSharedPersistentVolumes, hname, if_false]; rfl⟩

theorem pruneOrphan_ne_store (hadm : r.db.Admitted) {u : UnreferencedPersistentVolume}
    (hu : u ∈ r.db.listUnreferencedWorkloadVolumes) (p : Progress) :
    (r.pruneOrphan allSucceed opts u p).2 ≠ some .store := by
  obtain ⟨rec, hrec, -, -, hname, -, hpriv⟩ := exists_row_of_mem_unreferenced hu
  have hrow := hadm rec hrec
  have hname' : trimSpace u.volumeName ≠ [] := by
    rw [← hname, hrow.trim_name]
    exact hrow.name_ne_nil
  have hrefuse : (if r.inGrace opts u then some ReclaimError.grace else none) ≠ some .store := by
    split <;> simp
  unfold pruneOrphan
  cases hscope : u.scope with
  | priv =>
    have huuid' : trimSpace u.uuid ≠ [] := by
      rw [← hpriv hscope, hrow.trim_uuid]
      exact hrow.uuid_ne_nil
    exact reclaim_ne_store hrefuse (exists_deletePersistentVolume huuid' hname')
  | shared => exact reclaim_ne_store hrefuse (exists_deleteSharedPersistentVolumes hname')


/-! ## Single components -/

/-- **The condition**: the disk directory is absolute, there are no links under the directory of the
volumes, the recorded paths are those that the claims lead to, and identifiers and names are single
components. -/
structure Tidy (r : Reclaimer) : Prop where
  disk : isAbs r.diskDirectory = true ∧ trimSpace r.diskDirectory = r.diskDirectory
  links : ∃ real, ∀ p cs,
    absComponents p = absComponents r.diskDirectory ++ "volumes".toList :: cs →
      absComponents (r.host.resolve p) = real ++ cs
  paths : ∀ rec ∈ r.db.ledger, r.recordPath rec =
    persistentVolumeHostPath r.diskDirectory rec.uuid rec.volumeName rec.scope
  plain : ∀ rec ∈ r.db.ledger, Plain rec.uuid ∧ Plain rec.volumeName
  listed : ∀ name ∈ r.keepSet.sharedNames, Plain name ∧ trimSpace name = name

/-- Where the directory of a claim is, below that of the volumes. -/
def claimPlace (uuid name : Str) : VolumeScope → List Str
  | .priv => ["data".toList, uuid, name]
  | .shared => ["shared".toList, name]

theorem place_join {h : Host} {d c : Str} {es : List Str} (hd : isAbs d = true)
    (hes : ∀ e ∈ es ++ [c], Plain e) (hc : trimSpace c = c) :
    h.place (join (d :: (es ++ [c]))) = some (h.resolve (join (d :: (es ++ [c])))) := by
  have hclean : clean (join (d :: (es ++ [c]))) = join (d :: (es ++ [c])) := by
    rw [clean_of_isAbs (isAbs_join hd)]
    exact (join_eq_render hd).symm
  rw [Host.place, trimSpace_join hd hes hc, hclean, toAbs, if_pos (isAbs_join hd), hclean]
  rfl

theorem Tidy.place (h : r.Tidy) : ∃ real, ∀ uuid name scope q,
    (scope = .priv → Plain uuid ∧ trimSpace uuid = uuid) → Plain name ∧ trimSpace name = name →
    r.host.place (persistentVolumeHostPath r.diskDirectory uuid name scope) = some q →
    absComponents q = real ++ claimPlace uuid name scope := by
  obtain ⟨real, hreal⟩ := h.links
  obtain ⟨habs, htrim⟩ := h.disk
  refine ⟨real, fun uuid name scope q huuid hname hplace => ?_⟩
  have hvolumes : Plain "volumes".toList := by decide
  have hdata : Plain "data".toList := by decide
  have hshared : Plain "shared".toList := by decide
  cases scope with
  | priv =>
    obtain ⟨hplain, huuid⟩ := huuid rfl
    have hes : ∀ e ∈ ["volumes".toList, "data".toList, uuid] ++ [name], Plain e := by
      simp only [List.cons_append, List.nil_append, List.forall_mem_cons]
      exact ⟨hvolumes, hdata, hplain, hname.1, nofun⟩
    rw [persistentVolumeHostPath, htrim, huuid, hname.2] at hplace
    obtain rfl := Option.some.inj ((place_join habs hes hname.2).symm.trans hplace)
    exact hreal _ _ (absComponents_join_plain habs hes)
  | shared =>
    have hes : ∀ e ∈ ["volumes".toList, "shared".toList] ++ [name], Plain e := by
      simp only [List.cons_append, List.nil_append, List.forall_mem_cons]
      exact ⟨hvolumes, hshared, hname.1, nofun⟩
    rw [persistentVolumeHostPath, htrim, hname.2] at hplace
    obtain rfl := Option.some.inj ((place_join habs hes hname.2).symm.trans hplace)
    exact hreal _ _ (absComponents_join_plain habs hes)

theorem not_overlap_claimPlace {real : List Str} {p q uuid name uuid' name' : Str}
    {scope scope' : VolumeScope} (hp : absComponents p = real ++ claimPlace uuid name scope)
    (hq : absComponents q = real ++ claimPlace uuid' name' scope')
    (hpriv : scope = .priv → scope' = .priv → uuid ≠ uuid')
    (hshared : scope = .shared → scope' = .shared → name ≠ name') : ¬ Overlap p q := by
  rw [Overlap, Contains, Contains, hp, hq, List.prefix_append_right_inj,
    List.prefix_append_right_inj]
  cases scope with
  | priv =>
    cases scope' with
    | priv =>
      have hne := hpriv rfl rfl
      simp [claimPlace, List.cons_prefix_cons, hne, hne.symm]
    | shared => simp [claimPlace, List.cons_prefix_cons]
  | shared =>
    cases scope' with
    | priv => simp [claimPlace, List.cons_prefix_cons]
    | shared =>
      have hne := hshared rfl rfl
      simp [claimPlace, List.cons_prefix_cons, hne, hne.symm]

def emptyStore : VolumeStore := ⟨"/d".toList, Table.empty _, [], [], none⟩

def orphanOfA (name path : String) : PersistentVolumeRecord :=
  ⟨"a".toList, name.toList, .priv, .workload, path.toList, some 0⟩

def keptOfB : PersistentVolumeRecord :=
  ⟨"b".toList, "x".toList, .priv, .workload, "/d/volumes/data/b/x".toList, none⟩

/-- An orphan of `a`, recorded under a name, and a volume of `b`. -/
def twoRows (name path : String) : VolumeStore :=
  { emptyStore with
    ledger := ((Table.empty _).upsert (orphanOfA name path)).upsert keptOfB }

def climbingStore : VolumeStore := twoRows "../b/x" "/d/volumes/data/b/x"

def lateReclaimer (db : VolumeStore) : Reclaimer := new db "/d".toList plainHost 100000

end Reclaimer

end Edgelet
