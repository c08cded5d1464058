import Edgelet.VolumeReclaim.Confinement

/-!
# What the orphan prune deletes

Nothing that the prune asks about an orphan depends on what it has deleted before, so the entries
deleted are those that pass the checks one by one.
-/

namespace Edgelet

open Lexical Keyed VolumeStore Reclaimer

namespace Reclaimer

variable {r : Reclaimer} {o : Outcomes} {opts : PruneOrphansOptions}
  {u : UnreferencedPersistentVolume}

/-- **One destruction**, when removals succeed and the store does not fail: it removes the jailed
path and drops the rows, or it changes nothing and returns an error. -/
theorem reclaim_cases {hostPath root : Str} {refuse : Option ReclaimError}
    {drop : VolumeStore → Except StoreError VolumeStore} {sqlOk : Bool} {p : Progress}
    (hremove : ∀ path, o.removeAll path = true)
    (hstore : (r.reclaim o hostPath root refuse drop sqlOk p).2 ≠ some .store) :
    (∃ jailed db, jailedUnder r.host hostPath root = some jailed ∧
      r.pathMounted hostPath = false ∧ refuse = none ∧ drop p.db = .ok db ∧
      r.reclaim o hostPath root refuse drop sqlOk p = (⟨db, p.removed ++ [jailed]⟩, none)) ∨
    (jailedUnder r.host hostPath root = none ∨ r.pathMounted hostPath = true ∨ refuse ≠ none) ∧
      ∃ e, r.reclaim o hostPath root refuse drop sqlOk p = (p, some e) := by
  unfold reclaim at hstore ⊢
  cases hjail : jailedUnder r.host hostPath root with
  | none => exact .inr ⟨.inl rfl, .pathJail hostPath, by simp⟩
  | some jailed =>
    cases hmount : r.pathMounted hostPath with
    | true => exact .inr ⟨.inr (.inl rfl), .inUse hostPath, by simp⟩
    | false =>
      cases refuse with
      | some e => exact .inr ⟨.inr (.inr (by simp)), e, by simp⟩
      | none =>
        simp only [destroyJailed, hjail, hmount, hremove] at hstore ⊢
        cases hdrop : drop p.db with
        | error e => simp [hdrop] at hstore
        | ok db =>
          cases sqlOk with
          | false => simp [hdrop] at hstore
          | true => exact .inl ⟨jailed, db, rfl, trivial, trivial, rfl, by simp [hdrop]⟩

/-- The rows that go with an orphan. -/
def covers (u : UnreferencedPersistentVolume) (rec : PersistentVolumeRecord) : Bool :=
  match u.scope with
  | .priv => rec.uuid == trimSpace u.uuid && rec.volumeName == trimSpace u.volumeName
  | .shared => rec.volumeName == trimSpace u.volumeName && rec.scope == .shared

/-- The directory of an orphan, if it passes the jail. -/
def jailed (r : Reclaimer) (u : UnreferencedPersistentVolume) : Option Str :=
  jailedUnder r.host (r.orphanPath u) (r.root u.scope)

def prunable (r : Reclaimer) (opts : PruneOrphansOptions) (u : UnreferencedPersistentVolume) :
    Bool :=
  (r.jailed u).isSome && !r.pathMounted (r.orphanPath u) && !r.inGrace opts u

theorem pruneOrphan_cases (hremove : ∀ path, o.removeAll path = true) {p : Progress}
    (hstore : (r.pruneOrphan o opts u p).2 ≠ some .store) :
    (∃ path p', r.prunable opts u = true ∧ r.jailed u = some path ∧
      r.pruneOrphan o opts u p = (p', none) ∧ p'.removed = p.removed ++ [path] ∧
      ∀ rec, rec ∈ p'.db.ledger ↔ rec ∈ p.db.ledger ∧ covers u rec = false) ∨
    r.prunable opts u = false ∧ ∃ e, r.pruneOrphan o opts u p = (p, some e) := by
  have hgrace : (if r.inGrace opts u then some ReclaimError.grace else none) = none ↔
      r.inGrace opts u = false := by simp
  unfold pruneOrphan reclaimRow reclaimShared at hstore ⊢
  unfold prunable jailed covers
  cases hscope : u.scope with
  | priv | shared =>
    simp only [hscope] at hstore ⊢
    rcases reclaim_cases hremove hstore with ⟨path, db, hjail, hmount, hrefuse, hdrop, heq⟩ |
      ⟨hno, e, heq⟩
    · refine .inl ⟨path, _, ?_, hjail, heq, rfl, fun rec => ?_⟩
      · simp [root, hjail, hmount, hgrace.mp hrefuse]
      · simp only [deletePersistentVolume, deleteSharedPersistentVolumes] at hdrop
        repeat' split at hdrop
        all_goals cases hdrop
        exact Table.mem_deleteWhere
    · refine .inr ⟨?_, e, heq⟩
      rcases hno with hjail | hmount | hrefuse
      · simp [root, hjail]
      · simp [hmount]
      · simp [Bool.not_eq_false _ ▸ mt hgrace.mpr hrefuse]

variable {us : List UnreferencedPersistentVolume} {res : PruneOrphansResult}
  {keep : PersistentVolumeKeepSet}

/-- **What a confirmed loop does** to the list of the deleted, the disk and the ledger: it takes
the orphans outside the keep-set that pass the checks, and nothing else. -/
theorem pruneLoop_eq (hremove : ∀ path, o.removeAll path = true) (hconfirm : opts.confirm = true)
    (hdone : (r.pruneLoop o opts keep us res).2 = none) :
    let ds := us.filter fun u => !orphanKept keep u && r.prunable opts u
    let res' := (r.pruneLoop o opts keep us res).1
    res'.deleted = res.deleted ++ ds ∧
      res'.progress.removed = res.progress.removed ++ ds.filterMap r.jailed ∧
      ∀ rec, rec ∈ res'.progress.db.ledger ↔
        rec ∈ res.progress.db.ledger ∧ ∀ u ∈ ds, covers u rec = false := by
  induction us generalizing res with
  | nil => simp [pruneLoop]
  | cons u us ih =>
    unfold pruneLoop at hdone ⊢
    split at hdone
    case isTrue hkept =>
      obtain ⟨hdeleted, hremoved, hrows⟩ := ih hdone
      simpa only [hkept, if_true, Bool.not_true, Bool.false_and, List.filter_cons_of_neg,
        Bool.false_eq_true, not_false_eq_true] using ⟨hdeleted, hremoved, hrows⟩
    case isFalse hkept =>
      simp only [hkept, hconfirm, Bool.true_eq_false, if_false, Bool.false_eq_true] at hdone ⊢
      have hstore : (r.pruneOrphan o opts u res.progress).2 ≠ some .store := by
        intro hfail
        rw [← Prod.mk.eta (p := r.pruneOrphan o opts u res.progress), hfail] at hdone
        cases hdone
      rcases pruneOrphan_cases hremove hstore with
        ⟨path, p', hprune, hjailed, heq, hremoved', hrows'⟩ | ⟨hprune, e, heq⟩
      · simp only [heq] at hdone ⊢
        obtain ⟨hdeleted, hremoved, hrows⟩ := ih hdone
        rw [List.filter_cons_of_pos (by simp [hkept, hprune])]
        refine ⟨by simp [hdeleted], by simp [hremoved, hremoved', hjailed], fun rec => ?_⟩
        rw [hrows, hrows', and_assoc, List.forall_mem_cons]
      · rw [List.filter_cons_of_neg (by simp [hprune])]
        simp only [heq] at hdone hstore ⊢
        cases e with
        | store => exact absurd rfl hstore
        | _ => exact ih hdone

theorem pruneLoop_of_not_confirm (hconfirm : opts.confirm = false) :
    (r.pruneLoop o opts keep us res).1.deleted = res.deleted ∧
      (r.pruneLoop o opts keep us res).1.progress = res.progress := by
  induction us generalizing res with
  | nil => exact ⟨rfl, rfl⟩
  | cons u us ih =>
    unfold pruneLoop
    split
    · exact ih
    · exact ih

theorem pruneLoop_eq_none (hstore : ∀ u ∈ us, ∀ p, (r.pruneOrphan o opts u p).2 ≠ some .store) :
    (r.pruneLoop o opts keep us res).2 = none := by
  induction us generalizing res with
  | nil => rfl
  | cons u us ih =>
    have hne := hstore u List.mem_cons_self
    have ih := fun res => @ih res fun v hv => hstore v (List.mem_cons_of_mem _ hv)
    unfold pruneLoop
    split
    · exact ih _
    · split
      · exact ih _
      · dsimp only
        split
        · exact ih _
        · rename_i heq
          exact absurd (congrArg Prod.snd heq) (hne _)
        · exact ih _

theorem inGrace_eq_false_iff (h : IsOrphan r.db u) :
    r.inGrace opts u = false ↔ opts.force = true ∨
      trimSpace u.lastConsumerUUID ∈ cleanupSet opts.cleanupUUIDs ∨
      u.unreferencedAt + orphanGrace ≤ r.now := by
  have hbypass : bypassGrace opts u = true ↔ opts.force = true ∨
      trimSpace u.lastConsumerUUID ∈ cleanupSet opts.cleanupUUIDs := by
    cases h <;> simp [bypassGrace]
  simp only [inGrace, Bool.and_eq_false_iff, Bool.not_eq_false', hbypass, or_assoc,
    decide_eq_false_iff_not, not_lt]

/-- **What the prune deletes.** Without confirmation nothing. With it, exactly the orphans outside
the keep-set that pass the jail, are not mounted, and are forced, or have their latest consumer
among the identifiers to clean up, or are past the grace; their directories are removed, and their
rows leave the ledger. The store can end the prune early, but not on rows that it admits while its
deletions succeed. -/
theorem pruneOrphans_deletes_exactly (r : Reclaimer) (o : Outcomes) (opts : PruneOrphansOptions)
    (hremove : ∀ path, o.removeAll path = true) :
    let res := (r.pruneOrphans o opts).1
    (opts.confirm = false → res.deleted = [] ∧ res.progress = ⟨r.db, []⟩) ∧
    (opts.confirm = true → (r.pruneOrphans o opts).2 = none →
      (∀ u, u ∈ res.deleted ↔
        IsOrphan r.db u ∧ orphanKept r.keepSet u = false ∧ r.jailed u ≠ none ∧
        r.pathMounted (r.orphanPath u) = false ∧
        (opts.force = true ∨ trimSpace u.lastConsumerUUID ∈ cleanupSet opts.cleanupUUIDs ∨
          u.unreferencedAt + orphanGrace ≤ r.now)) ∧
      (∀ path, path ∈ res.progress.removed ↔ ∃ u ∈ res.deleted, r.jailed u = some path) ∧
      ∀ rec, rec ∈ res.progress.db.ledger ↔
        rec ∈ r.db.ledger ∧ ∀ u ∈ res.deleted, covers u rec = false) ∧
    (r.db.Admitted → (r.pruneOrphans allSucceed opts).2 = none) := by
  refine ⟨pruneLoop_of_not_confirm, fun hconfirm hdone => ?_, fun hadm => ?_⟩
  · obtain ⟨hdeleted, hremoved, hrows⟩ := pruneLoop_eq hremove hconfirm hdone
    have hdeleted : (r.pruneOrphans o opts).1.deleted = _ := hdeleted
    rw [hdeleted]
    refine ⟨fun u => ?_, fun path => ?_, hrows⟩
    · rw [List.nil_append, List.mem_filter, mem_orphans_iff]
      refine and_congr_right fun h => ?_
      simp [prunable, Option.isSome_iff_ne_none, ← inGrace_eq_false_iff h, and_assoc]
    · rw [show (r.pruneOrphans o opts).1.progress.removed = _ from hremoved]
      simp
  · exact pruneLoop_eq_none fun u hu p => pruneOrphan_ne_store hadm hu p

/-- The orphan of `climbingStore` is past the grace: it is deleted, and its directory is removed. -/
theorem climbing_orphan_deleted :
    let res := ((lateReclaimer climbingStore).pruneOrphans allSucceed ⟨true, false, []⟩).1
    ⟨"a".toList, "../b/x".toList, .priv, .workload, "/d/volumes/data/b/x".toList, 0, "a".toList⟩ ∈
      res.deleted ∧ "/d/volumes/data/b/x".toList ∈ res.progress.removed := by
  have hmem : ⟨"a".toList, "../b/x".toList, .priv, .workload, "/d/volumes/data/b/x".toList,
      some 0⟩ ∈ climbingStore.ledger :=
    Table.mem_upsert.mpr (.inr ⟨Table.mem_upsert.mpr (.inl rfl), by decide⟩)
  obtain ⟨hdeleted, hremoved, -⟩ := (pruneOrphans_deletes_exactly (lateReclaimer climbingStore)
    allSucceed ⟨true, false, []⟩ fun _ => rfl).2.1 rfl (by decide)
  have hdel := (hdeleted _).mpr ⟨.priv hmem rfl rfl rfl (by decide), by decide, by decide,
    by decide, .inr (.inr (by decide))⟩
  exact ⟨hdel, (hremoved _).mpr ⟨_, hdel, by decide⟩⟩

end Reclaimer

end Edgelet
