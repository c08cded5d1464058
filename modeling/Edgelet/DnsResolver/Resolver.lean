import Mathlib.Data.Int.Notation
import Edgelet.Keyed.Table
import Edgelet.Lexical.Text

/-!
# The embedded DNS resolver

The resolver keeps a record for each workload, by its UUID, and an index from names to UUIDs, one
part for each scope. Reserved names, for the host and for the roles of router and NATS server, stand
in the same index. Go's lower case, its reader of addresses, the address of the host and the
compatibility setting are the environment.
-/

namespace Edgelet.DnsResolver

open Lexical Keyed

/-! ## Records and names -/

structure Env (Addr : Type) where
  lower : Char → Char
  parseAddr : Str → Option Addr
  is4 : Addr → Bool
  hostIP : Str
  compat : Bool
  lower_ascii : ∀ c, c.toNat < 128 → lower c = c.toLower
  parseAddr_nil : parseAddr [] = none
  parseAddr_loopback : (parseAddr "127.0.0.1".toList).isSome = true

structure WorkloadRecord where
  uuid : Str
  application : Str
  name : Str
  scope : Str
  ip : Str
  hostNetwork : Bool
  isRouter : Bool
  isNats : Bool
  isController : Bool
  active : Bool
  startedAt : ℤ
  deriving DecidableEq

def scopeManaged : Str := "edgelet".toList

def scopeLocal : Str := "iofog-local".toList

def normalizeScope (scope : Str) : Str := if scope = scopeLocal then scopeLocal else scopeManaged

def defaultZoneName : Str := "svc.bridge.local".toList

def reservedRouterName : Str := "router.default.svc.bridge.local".toList

def reservedNatsName : Str := "nats.default.svc.bridge.local".toList

def reservedAgentName : Str := "edgelet.default.svc.bridge.local".toList

def compatDockerHostName : Str := "host.docker.internal".toList

def compatContainerHost : Str := "host.container.internal".toList

def controlPlaneAliasEdgeletController : Str := "edgelet.controller".toList

def inZone (name : Str) : Str := name ++ ".".toList ++ defaultZoneName

variable {Addr : Type} (env : Env Addr)

section

variable (r : Resolver) (rec : WorkloadRecord) (records : List WorkloadRecord) (index : Index)
  (name : Str)

def trimDot : Str := if name.getLast? = some '.' then name.dropLast else name

def normalizeName : Str := trimDot (trimSpace (name.map env.lower))

def isReservedRoleName : Bool := name == reservedRouterName || name == reservedNatsName

def isHostReservedName : Bool :=
  name == reservedAgentName ||
    env.compat && (name == compatDockerHostName || name == compatContainerHost)

def namespaceController (application : Str) : Str :=
  if normalizeName env application = [] then []
  else "controller.".toList ++ normalizeName env application

def ownNames : List Str :=
  (if rec.application ≠ [] ∧ rec.name ≠ [] then
    [rec.application ++ ".".toList ++ rec.name, inZone (rec.application ++ ".".toList ++ rec.name)]
  else []) ++
  if rec.uuid ≠ [] then ["iofog_".toList ++ rec.uuid, inZone ("iofog_".toList ++ rec.uuid)] else []

def controllerNames : List Str :=
  if rec.isController then
    [controlPlaneAliasEdgeletController, inZone controlPlaneAliasEdgeletController] ++
      if namespaceController env rec.application ≠ [] then
        [namespaceController env rec.application, inZone (namespaceController env rec.application)]
      else []
  else []

def roleNames : List Str :=
  (if rec.scope = scopeManaged ∧ rec.isRouter then [reservedRouterName] else []) ++
    if rec.scope = scopeManaged ∧ rec.isNats then [reservedNatsName] else []

def hostNames : List Str :=
  if rec.scope = scopeManaged then
    reservedAgentName :: if env.compat then [compatDockerHostName, compatContainerHost] else []
  else []

def addNames (names : List Str) : List Str := (names.map (normalizeName env)).filter (· ≠ [])

def aliasesForWorkload : List Str :=
  addNames env (ownNames rec ++ controllerNames env rec ++ roleNames rec ++ hostNames env rec)

/-! ## The index -/

abbrev Index := Str → Str → Option (List Str)

def Index.ids (scope name : Str) : List Str := (index scope name).getD []

variable (active : List WorkloadRecord) (workloads : Workloads) (scope uuid : Str)

def Index.add (index : Index) (name : Str) : Index := fun s n =>
  if s = scope ∧ n = name then some ((index.ids s n).insert uuid) else index s n

def Index.drop (index : Index) (name : Str) : Index := fun s n =>
  if s = scope ∧ n = name then
    (index s n).bind fun ids =>
      if ids.filter (· ≠ uuid) = [] then none else some (ids.filter (· ≠ uuid))
  else index s n

def indexLocked : Index :=
  (aliasesForWorkload env rec).foldl (Index.add rec.scope rec.uuid) index

def deindexLocked : Index :=
  (aliasesForWorkload env rec).foldl (Index.drop rec.scope rec.uuid) index

/-! ## The resolver -/

abbrev Workloads := Table fun entry : Str × WorkloadRecord => entry.1

structure Resolver where
  workloads : Workloads
  index : Index
  scopeEnabled : Str → Bool

def rebuildIndex : Index :=
  workloads.rows.foldl (fun index entry => indexLocked env entry.2 index) fun _ _ => none

def normalRecord : WorkloadRecord :=
  { rec with
    uuid := trimSpace rec.uuid
    application := trimSpace rec.application
    name := trimSpace rec.name
    ip := if rec.hostNetwork ∧ trimSpace rec.ip = [] then env.hostIP else trimSpace rec.ip
    scope := normalizeScope rec.scope }

def normalizeReconcileRecord : Option WorkloadRecord :=
  if trimSpace rec.uuid = [] then none else some (normalRecord env rec)

def upsertWorkload : Resolver :=
  match normalizeReconcileRecord env rec with
  | none => r
  | some new =>
    let put := fun index : Index =>
      { r with
        workloads := r.workloads.upsert (new.uuid, new)
        index := indexLocked env new index }
    match r.workloads.get? new.uuid with
    | some old => if old.2 = new then r else put (deindexLocked env old.2 r.index)
    | none => put r.index

def setWorkloadActive (uuid : Str) (active : Bool) (startedAt : ℤ) : Resolver :=
  match r.workloads.get? (trimSpace uuid) with
  | none => r
  | some old =>
    { r with
      workloads := r.workloads.upsert (old.1, { old.2 with
        active := active
        startedAt := if 0 < startedAt then startedAt else old.2.startedAt }) }

def removeWorkload (uuid : Str) : Resolver :=
  match r.workloads.get? (trimSpace uuid) with
  | none => r
  | some old =>
    { r with
      workloads := r.workloads.deleteWhere (·.1 == old.1)
      index := deindexLocked env old.2 r.index }

/-! ## Reconciling -/

/-- The local scope is never enabled, and the managed one when there is a workload that is not on
the network of the host. -/
def updateScopePolicy : Resolver :=
  { r with scopeEnabled := fun scope =>
      if scope = scopeManaged then records.any fun rec => !rec.hostNetwork
      else if scope = scopeLocal then false
      else r.scopeEnabled scope }

def isScopeEnabled (scope : Str) : Bool := r.scopeEnabled (normalizeScope scope)

def filterRecordsByEnabledScopes : List WorkloadRecord :=
  records.filter fun rec => isScopeEnabled r rec.scope

def desiredRecords : Workloads :=
  (Table.empty _).upsertAll
    ((records.filterMap (normalizeReconcileRecord env)).map fun rec => (rec.uuid, rec))

def applyDesired (entry : Str × WorkloadRecord) : Workloads :=
  match workloads.get? entry.1 with
  | none => workloads.upsert entry
  | some current => if current.2 = entry.2 then workloads else workloads.upsert entry

def reconcileAgainstRecords : Resolver :=
  let desired := desiredRecords env records
  let workloads := desired.rows.foldl applyDesired
    (r.workloads.deleteWhere fun entry => (desired.get? entry.1).isNone)
  { r with workloads := workloads, index := rebuildIndex env workloads }

def applySnapshotRecords : Resolver :=
  { r with
    workloads := desiredRecords env records
    index := rebuildIndex env (desiredRecords env records) }

def runReconcileOnce : Option (Except Str (List WorkloadRecord)) → Resolver
  | none => r
  | some (.error _) => r
  | some (.ok records) =>
    let r := updateScopePolicy r records
    let filtered := filterRecordsByEnabledScopes r records
    if filtered = [] then r else reconcileAgainstRecords env r filtered

/-! ## Queries -/

inductive QType
  | a
  | aaaa
  | any

structure RR (Addr : Type) where
  name : Str
  v6 : Bool
  addr : Addr

def fqdn : Str := if name.getLast? = some '.' then name else name ++ ['.']

def rrFromIP (name ip : Str) (qtype : QType) : List (RR Addr) :=
  match env.parseAddr (trimSpace ip) with
  | none => []
  | some addr =>
    match qtype with
    | .aaaa => if env.is4 addr then [] else [⟨fqdn name, true, addr⟩]
    | .a => if env.is4 addr then [⟨fqdn name, false, addr⟩] else []
    | .any => [⟨fqdn name, !env.is4 addr, addr⟩]

def lookupIDs (scope name : Str) : List Str :=
  if r.index.ids scope name = [] ∧ scope = scopeManaged ∧ r.scopeEnabled scopeLocal = false then
    r.index.ids scopeLocal name
  else r.index.ids scope name

def activeRecords (ids : List Str) : List WorkloadRecord :=
  (ids.filterMap fun id => (r.workloads.get? id).map (·.2)).filter fun wl =>
    wl.active && trimSpace wl.ip != []

def startedLater (x y : WorkloadRecord) : Bool :=
  if x.startedAt = y.startedAt then strLe x.uuid y.uuid else decide (y.startedAt < x.startedAt)

def pickReservedTarget : Option WorkloadRecord :=
  (active.mergeSort startedLater).head?

def distinctIPs : List WorkloadRecord :=
  active.foldl (fun seen wl => if seen.any (·.ip == wl.ip) then seen else seen ++ [wl]) []

def targets (scope name : Str) : List WorkloadRecord :=
  let active := activeRecords r (lookupIDs r scope name)
  if isReservedRoleName name then (pickReservedTarget active).toList else distinctIPs active

def resolveInternal (scope name : Str) (qtype : QType) : Bool × List (RR Addr) × Bool :=
  if isHostReservedName env name then (true, rrFromIP env name env.hostIP qtype, false)
  else if lookupIDs r scope name = [] then
    (false, [], (r.index (if scope = scopeManaged then scopeLocal else scopeManaged) name).isSome)
  else (true, (targets r scope name).flatMap fun wl => rrFromIP env name wl.ip qtype, false)

end

/-! ## What the index holds -/

variable {env} {index : Index} {rec : WorkloadRecord} {r : Resolver}

theorem mem_ids_add {scope uuid name s n id : Str} :
    id ∈ (Index.add scope uuid index name).ids s n ↔
      id ∈ index.ids s n ∨ (s = scope ∧ n = name) ∧ id = uuid := by
  unfold Index.add
  by_cases h : s = scope ∧ n = name
  · have hids : Index.ids (fun s n => if s = scope ∧ n = name then
        some ((index.ids s n).insert uuid) else index s n) s n = (index.ids s n).insert uuid := by
      simp [Index.ids, h]
    rw [hids, List.mem_insert_iff, or_comm]
    simp [h]
  · simp [Index.ids, h]

theorem mem_ids_drop {scope uuid name s n id : Str} :
    id ∈ (Index.drop scope uuid index name).ids s n ↔
      id ∈ index.ids s n ∧ ¬ ((s = scope ∧ n = name) ∧ id = uuid) := by
  unfold Index.drop
  by_cases h : s = scope ∧ n = name
  · simp only [Index.ids, h, and_self, if_true, true_and]
    cases index scope name with
    | none => simp
    | some ids =>
      rw [Option.bind_some, Option.getD_some]
      split_ifs with hempty
      · have hnot := List.filter_eq_nil_iff.mp hempty id
        simp only [Option.getD_none, List.not_mem_nil, false_iff, not_and, not_not]
        intro hid
        simpa using hnot hid
      · simp [List.mem_filter]
  · simp [Index.ids, h]

variable {s n id : Str}

theorem mem_ids_indexLocked :
    id ∈ (indexLocked env rec index).ids s n ↔
      id ∈ index.ids s n ∨ (s = rec.scope ∧ n ∈ aliasesForWorkload env rec) ∧ id = rec.uuid := by
  unfold indexLocked
  induction aliasesForWorkload env rec generalizing index with
  | nil => simp
  | cons name names ih =>
    rw [List.foldl_cons, ih, mem_ids_add, List.mem_cons]
    tauto

theorem mem_ids_deindexLocked :
    id ∈ (deindexLocked env rec index).ids s n ↔
      id ∈ index.ids s n ∧
        ¬ ((s = rec.scope ∧ n ∈ aliasesForWorkload env rec) ∧ id = rec.uuid) := by
  unfold deindexLocked
  induction aliasesForWorkload env rec generalizing index with
  | nil => simp
  | cons name names ih =>
    rw [List.foldl_cons, ih, mem_ids_drop, List.mem_cons]
    tauto

theorem mem_ids_rebuildIndex {workloads : Workloads} :
    id ∈ (rebuildIndex env workloads).ids s n ↔
      ∃ entry ∈ workloads, (s = entry.2.scope ∧ n ∈ aliasesForWorkload env entry.2) ∧
        id = entry.2.uuid := by
  have hfold : ∀ (rows : List (Str × WorkloadRecord)) (index : Index),
      id ∈ (rows.foldl (fun index entry => indexLocked env entry.2 index) index).ids s n ↔
        id ∈ index.ids s n ∨ ∃ entry ∈ rows,
          (s = entry.2.scope ∧ n ∈ aliasesForWorkload env entry.2) ∧ id = entry.2.uuid := by
    intro rows
    induction rows with
    | nil => simp
    | cons entry rows ih =>
      intro index
      rw [List.foldl_cons, ih, mem_ids_indexLocked, or_assoc, List.exists_mem_cons_iff]
  unfold rebuildIndex
  rw [hfold]
  simp [Index.ids, Table.mem_def]

/-! ## The index is in step with the records -/

structure Normal (rec : WorkloadRecord) : Prop where
  uuid : trimSpace rec.uuid = rec.uuid
  uuid_ne : rec.uuid ≠ []
  application : trimSpace rec.application = rec.application
  name : trimSpace rec.name = rec.name
  scope : rec.scope = scopeManaged ∨ rec.scope = scopeLocal

variable {new : WorkloadRecord}

theorem normalizeReconcileRecord_eq_some (h : normalizeReconcileRecord env rec = some new) :
    trimSpace rec.uuid ≠ [] ∧ new = normalRecord env rec := by
  unfold normalizeReconcileRecord at h
  rw [ite_eq_iff] at h
  rcases h with ⟨-, h⟩ | ⟨huuid, h⟩
  · cases h
  · exact ⟨huuid, (Option.some.inj h).symm⟩

theorem normal_of_normalizeReconcileRecord
    (h : normalizeReconcileRecord env rec = some new) : Normal new := by
  obtain ⟨huuid, rfl⟩ := normalizeReconcileRecord_eq_some h
  refine ⟨trimSpace_trimSpace _, huuid, trimSpace_trimSpace _, trimSpace_trimSpace _, ?_⟩
  show normalizeScope rec.scope = _ ∨ normalizeScope rec.scope = _
  unfold normalizeScope
  split_ifs
  · exact .inr rfl
  · exact .inl rfl

/-- **The index is in step with the records**, which are kept as they should be. -/
structure Indexed (env : Env Addr) (r : Resolver) : Prop where
  normal : ∀ entry ∈ r.workloads, Normal entry.2
  key : ∀ entry ∈ r.workloads, entry.2.uuid = entry.1
  ids : ∀ s n id, id ∈ r.index.ids s n ↔
    ∃ wl, (id, wl) ∈ r.workloads ∧ s = wl.scope ∧ n ∈ aliasesForWorkload env wl

def initial : Resolver := ⟨Table.empty _, fun _ _ => none, fun _ => false⟩

theorem indexed_initial : Indexed env initial where
  normal entry h := by cases h
  key entry h := by cases h
  ids s n id := by simp [initial, Index.ids, Table.empty, Table.mem_def]

theorem mem_get? {id : Str} {entry : Str × WorkloadRecord}
    (h : r.workloads.get? id = some entry) : entry ∈ r.workloads ∧ entry.1 = id :=
  Table.get?_eq_some_iff.mp h

theorem indexed_rebuildIndex {workloads : Workloads} {enabled : Str → Bool}
    (hnormal : ∀ entry ∈ workloads, Normal entry.2)
    (hkey : ∀ entry ∈ workloads, entry.2.uuid = entry.1) :
    Indexed env ⟨workloads, rebuildIndex env workloads, enabled⟩ where
  normal := hnormal
  key := hkey
  ids s n id := by
    rw [mem_ids_rebuildIndex]
    constructor
    · rintro ⟨⟨k, wl⟩, hmem, ⟨hs, hn⟩, rfl⟩
      have hk := hkey _ hmem
      exact ⟨wl, by rwa [hk], hs, hn⟩
    · rintro ⟨wl, hmem, hs, hn⟩
      exact ⟨(id, wl), hmem, ⟨hs, hn⟩, (hkey _ hmem).symm⟩

section

variable (h : Indexed env r)

include h

theorem Indexed.put (hnew : Normal new)
    (hids : ∀ s n id, id ∈ index.ids s n ↔ ∃ wl, (id, wl) ∈ r.workloads ∧ id ≠ new.uuid ∧
      s = wl.scope ∧ n ∈ aliasesForWorkload env wl) :
    Indexed env { r with
      workloads := r.workloads.upsert (new.uuid, new)
      index := indexLocked env new index } where
  normal entry hentry := by
    rcases Table.mem_upsert.mp hentry with rfl | ⟨hmem, -⟩
    · exact hnew
    · exact h.normal entry hmem
  key entry hentry := by
    rcases Table.mem_upsert.mp hentry with rfl | ⟨hmem, -⟩
    · rfl
    · exact h.key entry hmem
  ids s n id := by
    rw [mem_ids_indexLocked, hids]
    constructor
    · rintro (⟨wl, hmem, hne, hs, hn⟩ | ⟨⟨hs, hn⟩, rfl⟩)
      · exact ⟨wl, Table.mem_upsert.mpr (.inr ⟨hmem, hne⟩), hs, hn⟩
      · exact ⟨new, Table.mem_upsert.mpr (.inl rfl), hs, hn⟩
    · rintro ⟨wl, hmem, hs, hn⟩
      rcases Table.mem_upsert.mp hmem with heq | ⟨hmem, hne⟩
      · cases heq
        exact .inr ⟨⟨hs, hn⟩, rfl⟩
      · exact .inl ⟨wl, hmem, hne, hs, hn⟩

theorem Indexed.mem_ids_deindex {old : Str × WorkloadRecord}
    (hold : old ∈ r.workloads) (s n id : Str) :
    id ∈ (deindexLocked env old.2 r.index).ids s n ↔
      ∃ wl, (id, wl) ∈ r.workloads ∧ id ≠ old.1 ∧ s = wl.scope ∧
        n ∈ aliasesForWorkload env wl := by
  rw [mem_ids_deindexLocked, h.ids, h.key old hold]
  constructor
  · rintro ⟨⟨wl, hmem, hs, hn⟩, hnot⟩
    refine ⟨wl, hmem, fun hid => hnot ?_, hs, hn⟩
    have heq : (id, wl) = old := Table.eq_of_key_eq hmem hold hid
    rw [← heq]
    exact ⟨⟨hs, hn⟩, rfl⟩
  · rintro ⟨wl, hmem, hne, hs, hn⟩
    exact ⟨⟨wl, hmem, hs, hn⟩, fun hnot => hne hnot.2⟩

theorem Indexed.upsertWorkload (rec : WorkloadRecord) : Indexed env (upsertWorkload env r rec) := by
  unfold DnsResolver.upsertWorkload
  cases hnew : normalizeReconcileRecord env rec with
  | none => exact h
  | some new =>
    have hnormal := normal_of_normalizeReconcileRecord hnew
    dsimp only
    cases hold : r.workloads.get? new.uuid with
    | none =>
      refine h.put hnormal fun s n id => ?_
      rw [h.ids]
      refine exists_congr fun wl => and_congr_right fun hmem => ?_
      have hne : id ≠ new.uuid := by
        rintro rfl
        have hget := Table.get?_eq_some_iff.mpr ⟨hmem, rfl⟩
        cases hold.symm.trans hget
      simp [hne]
    | some old =>
      obtain ⟨hmem, hkey⟩ := mem_get? hold
      dsimp only
      split_ifs
      · exact h
      · refine h.put hnormal fun s n id => ?_
        rw [h.mem_ids_deindex hmem, hkey]

theorem Indexed.setWorkloadActive (uuid : Str) (active : Bool)
    (startedAt : ℤ) : Indexed env (setWorkloadActive r uuid active startedAt) := by
  unfold DnsResolver.setWorkloadActive
  cases hold : r.workloads.get? (trimSpace uuid) with
  | none => exact h
  | some old =>
    obtain ⟨hmem, -⟩ := mem_get? hold
    have hnormal := h.normal old hmem
    refine ⟨fun entry hentry => ?_, fun entry hentry => ?_, fun s n id => ?_⟩
    · rcases Table.mem_upsert.mp hentry with rfl | ⟨hentry, -⟩
      · exact ⟨hnormal.uuid, hnormal.uuid_ne, hnormal.application, hnormal.name, hnormal.scope⟩
      · exact h.normal entry hentry
    · rcases Table.mem_upsert.mp hentry with rfl | ⟨hentry, -⟩
      · exact h.key old hmem
      · exact h.key entry hentry
    · rw [h.ids]
      constructor
      · rintro ⟨wl, hwl, hs, hn⟩
        by_cases hid : id = old.1
        · have heq : (id, wl) = old := Table.eq_of_key_eq hwl hmem hid
          subst heq
          exact ⟨_, Table.mem_upsert.mpr (.inl rfl), hs, hn⟩
        · exact ⟨wl, Table.mem_upsert.mpr (.inr ⟨hwl, hid⟩), hs, hn⟩
      · rintro ⟨wl, hwl, hs, hn⟩
        rcases Table.mem_upsert.mp hwl with heq | ⟨hwl, -⟩
        · cases heq
          exact ⟨old.2, hmem, hs, hn⟩
        · exact ⟨wl, hwl, hs, hn⟩

theorem Indexed.removeWorkload (uuid : Str) : Indexed env (removeWorkload env r uuid) := by
  unfold DnsResolver.removeWorkload
  cases hold : r.workloads.get? (trimSpace uuid) with
  | none => exact h
  | some old =>
    obtain ⟨hmem, -⟩ := mem_get? hold
    have hdelete : ∀ entry : Str × WorkloadRecord,
        entry ∈ r.workloads.deleteWhere (·.1 == old.1) ↔
          entry ∈ r.workloads ∧ entry.1 ≠ old.1 := by
      intro entry
      rw [Table.mem_deleteWhere, beq_eq_false_iff_ne]
    refine ⟨fun entry hentry => ?_, fun entry hentry => ?_, fun s n id => ?_⟩
    · exact h.normal entry ((hdelete entry).mp hentry).1
    · exact h.key entry ((hdelete entry).mp hentry).1
    · rw [h.mem_ids_deindex hmem]
      simp only [hdelete, and_assoc]

end

end Edgelet.DnsResolver
