import Edgelet.DnsResolver.Names
import Edgelet.Machine.Run

/-!
# The index and the snapshot file of the resolver

Every operation keeps the index in step with the records. The records are also kept in a file: a
tick writes them when it finds a revision that it has not written. A change of one workload makes a
new revision, but a reconcile makes none, and what it has changed waits for the next change.
-/

namespace Edgelet.DnsResolver

open Lexical Keyed Machine

variable {Addr : Type}

/-! ## The index -/

inductive Reachable (env : Env Addr) : Resolver → Prop
  | start (enabled : Str → Bool) : Reachable env ⟨Table.empty _, fun _ _ => none, enabled⟩
  | policy {r : Resolver} (h : Reachable env r) (records : List WorkloadRecord) :
      Reachable env (updateScopePolicy r records)
  | upsert {r : Resolver} (h : Reachable env r) (rec : WorkloadRecord) :
      Reachable env (upsertWorkload env r rec)
  | setActive {r : Resolver} (h : Reachable env r) (uuid : Str) (active : Bool) (startedAt : ℤ) :
      Reachable env (setWorkloadActive r uuid active startedAt)
  | remove {r : Resolver} (h : Reachable env r) (uuid : Str) :
      Reachable env (removeWorkload env r uuid)
  | reconcile {r : Resolver} (h : Reachable env r) (records : List WorkloadRecord) :
      Reachable env (reconcileAgainstRecords env r records)
  | restore {r : Resolver} (h : Reachable env r) (records : List WorkloadRecord) :
      Reachable env (applySnapshotRecords env r records)

variable {env : Env Addr} {r : Resolver}

theorem Reachable.indexed (h : Reachable env r) : Indexed env r := by
  induction h with
  | start enabled => exact ⟨nofun, nofun, by simp [Index.ids, Table.empty, Table.mem_def]⟩
  | policy _ _ ih => exact ⟨ih.normal, ih.key, ih.ids⟩
  | upsert _ rec ih => exact ih.upsertWorkload rec
  | setActive _ uuid active startedAt ih => exact ih.setWorkloadActive uuid active startedAt
  | remove _ uuid ih => exact ih.removeWorkload uuid
  | reconcile => exact indexed_reconcile
  | restore =>
    exact indexed_rebuildIndex (fun _ => normal_of_mem_desired) fun _ h =>
      (exists_of_mem_desired h).1

theorem get?_removeWorkload (env : Env Addr) (r : Resolver) (uuid : Str) :
    (removeWorkload env r uuid).workloads.get? (trimSpace uuid) = none := by
  unfold removeWorkload
  split
  next hnone => exact hnone
  next old hold =>
    refine Table.get?_deleteWhere_of_true fun x hx => ?_
    rw [beq_iff_eq, (Table.get?_eq_some_iff.mp hold).2]
    exact hx

/-- **The index mirrors the workloads**, a query is answered from records that are there and have
the name, and the record of a removed UUID is not there. -/
theorem index_mirrors_workloads (env : Env Addr) (r : Resolver) (h : Reachable env r) :
    (∀ scope name id, id ∈ r.index.ids scope name ↔ ∃ wl, r.workloads.get? id = some (id, wl) ∧
      wl.scope = scope ∧ name ∈ aliasesForWorkload env wl) ∧
    (∀ scope name, ∀ wl ∈ targets r scope name, r.workloads.get? wl.uuid = some (wl.uuid, wl) ∧
      name ∈ aliasesForWorkload env wl) ∧
    ∀ uuid, (removeWorkload env r uuid).workloads.get? (trimSpace uuid) = none := by
  have hindexed := h.indexed
  refine ⟨?_, ?_, get?_removeWorkload env r⟩
  · intro scope name id
    rw [hindexed.ids]
    exact exists_congr fun wl => and_congr mem_iff_get? (and_congr_left' eq_comm)
  · intro scope name wl hwl
    have hactive := mem_active_of_mem_targets hwl
    obtain ⟨scope', hfound⟩ : ∃ scope', wl ∈ activeRecords r (r.index.ids scope' name) := by
      unfold lookupIDs at hactive
      split at hactive
      · exact ⟨_, hactive⟩
      · exact ⟨_, hactive⟩
    obtain ⟨id, hmem, -, hanswers⟩ := hindexed.mem_activeRecords.mp hfound
    have hkey : wl.uuid = id := hindexed.key _ hmem
    exact ⟨Table.get?_eq_some_iff.mpr ⟨hkey ▸ hmem, rfl⟩, hanswers.named⟩

theorem shop_index_mirrors :
    let r := upsertWorkload textEnv initial shop
    "u1".toList ∈ r.index.ids scopeManaged "shop.db".toList ∧
      ∀ scope name, "u1".toList ∉ (removeWorkload textEnv r "u1".toList).index.ids scope name := by
  have hr : Reachable textEnv (upsertWorkload textEnv initial shop) := .upsert (.start _) shop
  obtain ⟨hids, -, hremoved⟩ := index_mirrors_workloads textEnv _ hr
  refine ⟨(hids _ _ _).mpr ⟨_, rfl, rfl, of_decide_eq_true rfl⟩, fun scope name hmem => ?_⟩
  obtain ⟨wl, hwl, -⟩ := ((index_mirrors_workloads textEnv _ (hr.remove _)).1 _ _ _).mp hmem
  exact nomatch (hremoved "u1".toList).symm.trans hwl

/-! ## The file -/

structure Daemon where
  resolver : Resolver
  snapshotRevision : ℕ
  snapshotPersisted : ℕ
  file : Option (List WorkloadRecord)

def collectSnapshotWorkloads (r : Resolver) : List WorkloadRecord :=
  ((r.workloads.rows.map (·.2)).filter (trimSpace ·.uuid ≠ [])).mergeSort fun a b =>
    strLe a.uuid b.uuid

def persistSnapshotIfNeeded (force : Bool) (d : Daemon) : Daemon :=
  if !force && d.snapshotRevision == d.snapshotPersisted then d
  else { d with
    file := some (collectSnapshotWorkloads d.resolver), snapshotPersisted := d.snapshotRevision }

inductive Op
  | change (c : Change)
  | tick (force : Bool)

def Change.changed (env : Env Addr) (r : Resolver) : Change → Bool
  | .upsert rec => (normalizeReconcileRecord env rec).any fun new =>
    (r.workloads.get? new.uuid).all fun old => decide (old.2 ≠ new)
  | .setActive uuid active startedAt => (r.workloads.get? (trimSpace uuid)).any fun old =>
    old.2.active != active || decide (0 < startedAt) && old.2.startedAt != startedAt
  | .remove uuid => (r.workloads.get? (trimSpace uuid)).isSome
  | _ => false

def Daemon.step (env : Env Addr) (d : Daemon) : Op → Option Daemon
  | .tick force => some (persistSnapshotIfNeeded force d)
  | .change (.restore _) => none
  | .change c => some { d with
    resolver := apply env d.resolver c
    snapshotRevision := d.snapshotRevision + (c.changed env d.resolver).toNat }

def Daemon.start (env : Env Addr) (file : Option (List WorkloadRecord)) : Daemon :=
  let r := applySnapshotRecords env initial (file.getD [])
  let revision := if r.workloads.rows = [] then 0 else 1
  ⟨r, revision, revision, file⟩

/-- **The file is faithful**: restoring it gives the records. -/
def Daemon.Faithful (env : Env Addr) (d : Daemon) : Prop :=
  ∀ e, e ∈ (applySnapshotRecords env initial (d.file.getD [])).workloads ↔
    e ∈ d.resolver.workloads

def Daemon.Waits (env : Env Addr) (d : Daemon) : Op → Prop
  | .change (.reconcile answer) => d.snapshotRevision = d.snapshotPersisted →
    ∀ e, e ∈ (runReconcileOnce env d.resolver answer).workloads ↔ e ∈ d.resolver.workloads
  | _ => True

def Stored (env : Env Addr) (ws : Workloads) : Prop :=
  ∀ e ∈ ws, e.2.uuid = e.1 ∧ normalizeReconcileRecord env e.2 = some e.2

theorem normalRecord_normalRecord (hhost : trimSpace env.hostIP = env.hostIP)
    (rec : WorkloadRecord) : normalRecord env (normalRecord env rec) = normalRecord env rec := by
  have hscope : normalizeScope (normalizeScope rec.scope) = normalizeScope rec.scope := by
    unfold normalizeScope
    split_ifs <;> first | rfl | contradiction
  simp only [normalRecord, trimSpace_trimSpace, hscope, WorkloadRecord.mk.injEq, true_and, and_true]
  by_cases h : rec.hostNetwork = true ∧ trimSpace rec.ip = []
  · simp only [if_pos h, hhost, ite_self]
  · simp only [if_neg h, trimSpace_trimSpace]

theorem normalizeReconcileRecord_idem (hhost : trimSpace env.hostIP = env.hostIP)
    {rec new : WorkloadRecord} (h : normalizeReconcileRecord env rec = some new) :
    normalizeReconcileRecord env new = some new := by
  obtain ⟨huuid, rfl⟩ := normalizeReconcileRecord_eq_some h
  have huuid' : trimSpace (normalRecord env rec).uuid ≠ [] := by
    rwa [normalRecord, trimSpace_trimSpace]
  rw [normalizeReconcileRecord, if_neg huuid', normalRecord_normalRecord hhost]

theorem stored_desired (hhost : trimSpace env.hostIP = env.hostIP)
    (records : List WorkloadRecord) : Stored env (desiredRecords env records) := by
  intro e he
  obtain ⟨hkey, rec, -, hnormal⟩ := exists_of_mem_desired he
  exact ⟨hkey, normalizeReconcileRecord_idem hhost hnormal⟩

theorem mem_desired_collect (h : Stored env r.workloads) (e : Str × WorkloadRecord) :
    e ∈ desiredRecords env (collectSnapshotWorkloads r) ↔ e ∈ r.workloads := by
  have hcollect (wl : WorkloadRecord) :
      wl ∈ collectSnapshotWorkloads r ↔ ∃ e ∈ r.workloads, e.2 = wl := by
    simp only [collectSnapshotWorkloads, List.mem_mergeSort, List.mem_filter, List.mem_map]
    refine ⟨And.left, ?_⟩
    rintro ⟨e, he, rfl⟩
    exact ⟨⟨e, he, rfl⟩, decide_eq_true (normalizeReconcileRecord_eq_some (h e he).2).1⟩
  have hstored {e : Str × WorkloadRecord}
      (he : e ∈ desiredRecords env (collectSnapshotWorkloads r)) : e ∈ r.workloads := by
    obtain ⟨hkey, rec, hrec, hnormal⟩ := exists_of_mem_desired he
    obtain ⟨e', he', rfl⟩ := (hcollect rec).mp hrec
    obtain ⟨hkey', hnormal'⟩ := h e' he'
    have hsame : e'.2 = e.2 := Option.some.inj (hnormal'.symm.trans hnormal)
    have heq : e' = e := Prod.ext (by rw [← hkey', hsame, hkey]) hsame
    exact heq ▸ he'
  refine ⟨hstored, fun he => ?_⟩
  have hlisted : (e.1, e.2) ∈ ((collectSnapshotWorkloads r).filterMap
      (normalizeReconcileRecord env)).map fun rec => (rec.uuid, rec) := by
    rw [← (h e he).1]
    refine List.mem_map_of_mem (List.mem_filterMap.mpr ⟨e.2, ?_, (h e he).2⟩)
    exact (hcollect e.2).mpr ⟨e, he, rfl⟩
  obtain ⟨e', he', hkey, -⟩ : ∃ e' ∈ desiredRecords env _, e'.1 = e.1 ∧ _ :=
    Table.exists_mem_upsertAll hlisted
  exact Table.eq_of_key_eq (hstored he') he hkey ▸ he'

theorem Stored.apply (hhost : trimSpace env.hostIP = env.hostIP) (h : Stored env r.workloads)
    (c : Change) : Stored env (apply env r c).workloads := by
  intro e he
  cases c with
  | upsert rec =>
    simp only [DnsResolver.apply, upsertWorkload] at he
    split at he
    · exact h e he
    next new hnew =>
      have hput (he : e ∈ r.workloads.upsert (new.uuid, new)) :
          e.2.uuid = e.1 ∧ normalizeReconcileRecord env e.2 = some e.2 := by
        rcases Table.mem_upsert.mp he with rfl | ⟨he, -⟩
        · exact ⟨rfl, normalizeReconcileRecord_idem hhost hnew⟩
        · exact h e he
      split at he
      · split at he
        · exact h e he
        · exact hput he
      · exact hput he
  | setActive uuid active startedAt =>
    simp only [DnsResolver.apply, setWorkloadActive] at he
    split at he
    · exact h e he
    next old hold =>
      obtain ⟨hkey, hnormal⟩ := h old (Table.get?_eq_some_iff.mp hold).1
      rcases Table.mem_upsert.mp he with rfl | ⟨he, -⟩
      · obtain ⟨huuid, hsame⟩ := normalizeReconcileRecord_eq_some hnormal
        refine ⟨hkey, (if_neg huuid).trans ?_⟩
        exact congrArg (fun wl : WorkloadRecord => some { wl with
          active := active
          startedAt := if 0 < startedAt then startedAt else old.2.startedAt }) hsame.symm
      · exact h e he
  | remove uuid =>
    simp only [DnsResolver.apply, removeWorkload] at he
    split at he
    · exact h e he
    · exact h e (Table.mem_deleteWhere.mp he).1
  | reconcile answer =>
    simp only [DnsResolver.apply, runReconcileOnce] at he
    split at he
    · exact h e he
    · exact h e he
    · split at he
      · exact h e he
      · exact stored_desired hhost _ e (mem_workloads_reconcile.mp he)
  | restore records => exact stored_desired hhost records e he

theorem mem_workloads_of_not_changed {c : Change} (hc : c.changed env r = false)
    (e : Str × WorkloadRecord) : (∃ answer, c = .reconcile answer) ∨
      (∃ records, c = .restore records) ∨
        (e ∈ (apply env r c).workloads ↔ e ∈ r.workloads) := by
  cases c with
  | upsert rec =>
    refine .inr (.inr ?_)
    simp only [Change.changed, apply, upsertWorkload] at hc ⊢
    split
    · rfl
    next new hnew =>
      rw [hnew, Option.any_some] at hc
      cases hold : r.workloads.get? new.uuid with
      | none =>
        rw [hold] at hc
        cases hc
      | some old =>
        rw [hold, Option.all_some, decide_eq_false_iff_not, not_not] at hc
        simp only [if_pos hc]
  | setActive uuid active startedAt =>
    refine .inr (.inr ?_)
    simp only [Change.changed, apply, setWorkloadActive] at hc ⊢
    cases hold : r.workloads.get? (trimSpace uuid) with
    | none => rfl
    | some old =>
      have hmem := (Table.get?_eq_some_iff.mp hold).1
      simp only [hold, Option.any_some, Bool.or_eq_false_iff, bne_eq_false_iff_eq] at hc
      obtain ⟨rfl, hstarted⟩ := hc
      have hsame : (if 0 < startedAt then startedAt else old.2.startedAt) = old.2.startedAt := by
        split
        next hpos =>
          rw [decide_eq_true hpos, Bool.true_and, bne_eq_false_iff_eq] at hstarted
          exact hstarted.symm
        · rfl
      simp only [hsame]
      constructor
      · intro he
        rcases Table.mem_upsert.mp he with rfl | ⟨he, -⟩
        · exact hmem
        · exact he
      · intro he
        by_cases hkey : e.1 = old.1
        · exact Table.mem_upsert.mpr (.inl (Table.eq_of_key_eq he hmem hkey))
        · exact Table.mem_upsert.mpr (.inr ⟨he, hkey⟩)
  | remove uuid =>
    refine .inr (.inr ?_)
    simp only [Change.changed, apply, removeWorkload, Option.isSome_eq_false_iff,
      Option.isNone_iff_eq_none] at hc ⊢
    rw [hc]
  | reconcile answer => exact .inl ⟨answer, rfl⟩
  | restore records => exact .inr (.inl ⟨records, rfl⟩)

structure Daemon.Inv (env : Env Addr) (d : Daemon) : Prop where
  le : d.snapshotPersisted ≤ d.snapshotRevision
  stored : Stored env d.resolver.workloads
  clean : d.snapshotRevision = d.snapshotPersisted → d.Faithful env

theorem Daemon.Inv.persist {d : Daemon} (h : d.Inv env) (force : Bool) :
    (persistSnapshotIfNeeded force d).Faithful env ∧ (persistSnapshotIfNeeded force d).Inv env := by
  unfold persistSnapshotIfNeeded
  split
  next hkept =>
    rw [Bool.and_eq_true, beq_iff_eq] at hkept
    exact ⟨h.clean hkept.2, h⟩
  next =>
    have hfile := mem_desired_collect h.stored
    exact ⟨hfile, le_refl _, h.stored, fun _ => hfile⟩

theorem Daemon.Inv.step (hhost : trimSpace env.hostIP = env.hostIP) (d : Daemon) (op : Op)
    (d' : Daemon) (h : d.Inv env) (hwaits : d.Waits env op) (hstep : d.step env op = some d') :
    d'.Inv env := by
  unfold Daemon.step at hstep
  split at hstep
  next force => exact Option.some.inj hstep ▸ (h.persist force).2
  next => cases hstep
  next c hc =>
    obtain rfl := Option.some.inj hstep
    refine ⟨h.le.trans (Nat.le_add_right _ _), h.stored.apply hhost c, fun hclean e => ?_⟩
    have hle := h.le
    simp only at hclean
    cases hcount : c.changed env d.resolver with
    | true =>
      rw [hcount, Bool.toNat_true] at hclean
      omega
    | false =>
      rw [hcount, Bool.toNat_false, Nat.add_zero] at hclean
      have hold := h.clean hclean e
      rcases mem_workloads_of_not_changed hcount e with ⟨answer, rfl⟩ | ⟨records, rfl⟩ | hsame
      · exact hold.trans (hwaits hclean e).symm
      · exact absurd rfl (hc records)
      · exact hold.trans hsame.symm

/-- **When the file is faithful after a tick**, at every moment of a run: when no reconcile changes
a record while no other change waits to be written. -/
theorem snapshot_faithful_iff (env : Env Addr) (hhost : trimSpace env.hostIP = env.hostIP)
    (file : Option (List WorkloadRecord)) (ops : List Op) :
    Throughout (Daemon.step env) (fun d => (persistSnapshotIfNeeded false d).Faithful env)
      (.start env file) ops ↔ Along (Daemon.step env) (Daemon.Waits env) (.start env file) ops := by
  refine throughout_iff_along (fun d h => (h.persist false).1) (Daemon.Inv.step hhost)
    (fun d op h hafter => ?_) ⟨le_refl _, stored_desired hhost _, fun _ _ => Iff.rfl⟩
  unfold Daemon.Waits
  split
  next answer =>
    intro hclean e
    have hfile := hafter _ rfl e
    simp [persistSnapshotIfNeeded, hclean, Change.changed] at hfile
    exact hfile.symm.trans (h.clean hclean e)
  next => trivial

theorem upserted_faithful :
    (persistSnapshotIfNeeded false
      ⟨upsertWorkload textEnv (Daemon.start textEnv none).resolver shop, 1, 0, none⟩).Faithful
        textEnv :=
  (snapshot_faithful_iff textEnv rfl none [.change (.upsert shop)]).mpr
    ⟨trivial, fun _ _ => trivial⟩ _ List.prefix_rfl _ rfl

/-- The first reconcile brings a workload, and the tick after it writes nothing. -/
theorem reconciled_unfaithful :
    ∃ d, run (Daemon.step textEnv) (.start textEnv none)
        [.change (.reconcile (some (.ok [shop]))), .tick false] = some d ∧
      ¬ d.Faithful textEnv := by
  refine ⟨_, rfl, fun h => ?_⟩
  have hmem := (h ("u1".toList, shop)).mpr List.mem_cons_self
  cases hmem

end Edgelet.DnsResolver
