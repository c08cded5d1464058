import Edgelet.Machine.Run
import Edgelet.Store.KeepSet
import Edgelet.Store.Microservices

/-!
# Saving the controller's microservices

`SaveControllerMicroservices` replaces the rows of the last save in one transaction, and then,
outside of it, records the volumes of the new list and stamps those of the microservices that are no
longer listed. It may fail at any statement. A save that fails between its commit and its last stamp
has already replaced the rows by which the departures are found.
-/

namespace Edgelet.Store

open Lexical Keyed Models

/-! ## The database -/

structure DB extends VolumeStore where
  microservices : Table MicroserviceRow.uuid
  uuids_eq : controllerMicroservices = microservices.rows.map MicroserviceRow.uuid

def DB.withLedger (db : DB) (ledger : Ledger) : DB := { db with ledger }

def DB.withMicroservices (db : DB) (t : Table MicroserviceRow.uuid) : DB :=
  { db with
    controllerMicroservices := t.rows.map MicroserviceRow.uuid
    microservices := t
    uuids_eq := rfl }

def byUUID (a b : MicroserviceRow) : Prop := a.uuid ≤ b.uuid

instance : DecidableRel byUUID := fun _ _ => inferInstanceAs (Decidable (_ ≤ _))

def loadControllerMicroservices (p : Platform) (db : DB) : List Microservice :=
  (db.microservices.rows.insertionSort byUUID).map (scanMicroservice p)

/-! ## The transaction -/

inductive Fault
  | query
  | begin
  | clear
  | insert (i : ℕ)
  | commit
  | statement (i : ℕ)
  deriving DecidableEq

inductive SaveError
  | query
  | begin
  | clear
  | insert (uuid : Str)
  | groups (uuid : Str) (e : GroupsError)
  | commit
  | record (uuid name : Str)
  | mark (uuid : Str)

def insertAll (fault : Option Fault) :
    ℕ → Table MicroserviceRow.uuid → List Microservice →
      Except SaveError (Table MicroserviceRow.uuid)
  | _, t, [] => .ok t
  | i, t, ms :: rest =>
    match insertMicroservice ms with
    | .error e => .error (.groups ms.microserviceUUID e)
    | .ok row =>
      if fault = some (.insert i) then .error (.insert ms.microserviceUUID)
      else insertAll fault (i + 1) (t.upsert row) rest

def transaction (fault : Option Fault) (list : List Microservice) :
    Except SaveError (Table MicroserviceRow.uuid) :=
  if fault = some .begin then .error .begin
  else if fault = some .clear then .error .clear
  else
    match insertAll fault 0 (Table.empty MicroserviceRow.uuid) list with
    | .error e => .error e
    | .ok t => if fault = some .commit then .error .commit else .ok t

/-! ## The statements after the transaction -/

def ledgerMapping (vm : VolumeMapping) : VolumeStore.VolumeMapping where
  hostDestination := vm.hostDestination
  type :=
    match vm.type with
    | .volume => .volume
    | .volumeMount => .volumeMount
    | .bind | .empty => .bind
  scope := vm.scope

inductive Statement
  | record (uuid : Str) (vm : VolumeStore.VolumeMapping)
  | mark (uuid : Str) (now : ℤ)

def workloadKind : Str := "workload".toList

def exec (db : DB) : Statement → DB
  | .record uuid vm =>
    match db.upsertPersistentVolume uuid (trimSpace vm.hostDestination) workloadKind
        vm.effectiveVolumeScope.text [] with
    | .ok d => db.withLedger d.ledger
    | .error _ => db
  | .mark uuid now => db.withLedger (db.markPersistentVolumesUnreferenced uuid now).ledger

def Statement.error : Statement → SaveError
  | .record uuid vm => .record uuid (trimSpace vm.hostDestination)
  | .mark uuid _ => .mark uuid

def recordStatements (ms : Microservice) : List Statement :=
  if trimSpace ms.microserviceUUID = [] then []
  else
    ((ms.volumeMappings.map ledgerMapping).filter fun vm =>
      vm.type = .volume ∧ trimSpace vm.hostDestination ≠ []).map (.record ms.microserviceUUID)

def departed (db : DB) (list : List Microservice) : List Str :=
  db.controllerMicroservices.filter fun uuid =>
    trimSpace uuid != [] && !(VolumeStore.addTrimmed (list.map (·.microserviceUUID))).contains uuid

variable {list : List Microservice} {db : DB} {uuid : Str}

theorem mem_departed :
    uuid ∈ departed db list ↔ uuid ∈ db.controllerMicroservices ∧ trimSpace uuid ≠ [] ∧
      uuid ∉ VolumeStore.addTrimmed (list.map (·.microserviceUUID)) := by
  simp [departed, List.mem_filter]

structure Call where
  list : List Microservice
  order : List (Str × ℤ)
  fault : Option Fault

def Call.statements (c : Call) : List Statement :=
  c.list.flatMap recordStatements ++ c.order.map fun d => .mark d.1 d.2

def Call.executed (c : Call) : List Statement × Option Statement :=
  match c.fault with
  | some (.statement i) => (c.statements.take i, c.statements[i]?)
  | _ => (c.statements, none)

def saveControllerMicroservices (db : DB) (c : Call) : DB × Option SaveError :=
  if c.fault = some .query then (db, some .query)
  else
    match transaction c.fault c.list with
    | .error e => (db, some e)
    | .ok t =>
      (c.executed.1.foldl exec (db.withMicroservices t), c.executed.2.map Statement.error)

def step (db : DB) (c : Call) : Option DB :=
  if (c.order.map Prod.fst).Perm (departed db c.list) then some (saveControllerMicroservices db c).1
  else none

/-! ## What a save writes -/

theorem exec_eq (db : DB) (st : Statement) : ∃ ledger, exec db st = db.withLedger ledger := by
  cases st with
  | record uuid vm =>
    simp only [exec]
    split
    · exact ⟨_, rfl⟩
    · exact ⟨db.ledger, rfl⟩
  | mark uuid now => exact ⟨_, rfl⟩

theorem foldl_exec_eq (db : DB) (ss : List Statement) :
    ∃ ledger, ss.foldl exec db = db.withLedger ledger := by
  induction ss generalizing db with
  | nil => exact ⟨db.ledger, rfl⟩
  | cons st ss ih =>
    obtain ⟨ledger, hst⟩ := exec_eq db st
    obtain ⟨ledger', hss⟩ := ih (exec db st)
    exact ⟨ledger', by rw [List.foldl_cons, hss, hst]; rfl⟩

/-! ## Live rows -/

def Live (db : DB) (r : PersistentVolumeRecord) : Prop :=
  r ∈ db.ledger ∧ r.kind = .workload ∧ r.unreferencedAt = none

/-- **Sound**: every live workload row belongs to a microservice in desired state. -/
def DB.Sound (db : DB) : Prop := ∀ r, Live db r → r.uuid ∈ db.desiredStateUUIDs

theorem ledger_of_upsert {d d' : VolumeStore} {uuid name kind scope hostPath : Str}
    (h : d.upsertPersistentVolume uuid name kind scope hostPath = .ok d') :
    ∃ row : PersistentVolumeRecord, row.uuid = trimSpace uuid ∧
      d'.ledger = d.ledger.upsert row := by
  simp only [VolumeStore.upsertPersistentVolume] at h
  split at h
  · cases h
  · split at h
    · cases h
    · cases h
      exact ⟨_, rfl, rfl⟩

variable {r : PersistentVolumeRecord}

theorem live_record {vm : VolumeStore.VolumeMapping} (h : Live (exec db (.record uuid vm)) r) :
    Live db r ∨ trimSpace uuid = r.uuid := by
  obtain ⟨hmem, hlive⟩ := h
  simp only [exec] at hmem
  split at hmem
  next d hd =>
    obtain ⟨row, hrow, hledger⟩ := ledger_of_upsert hd
    have hmem : r ∈ db.ledger.upsert row := hledger ▸ hmem
    rcases Table.mem_upsert.mp hmem with rfl | ⟨hmem, -⟩
    · exact .inr hrow.symm
    · exact .inl ⟨hmem, hlive⟩
  next => exact .inl ⟨hmem, hlive⟩

theorem live_mark {now : ℤ} (h : Live (exec db (.mark uuid now)) r) :
    Live db r ∧ (trimSpace uuid ≠ [] → trimSpace uuid ≠ r.uuid) := by
  obtain ⟨hmem, hkind, hlive⟩ := h
  simp only [exec, DB.withLedger, VolumeStore.markPersistentVolumesUnreferenced] at hmem
  split at hmem
  next hblank => exact ⟨⟨hmem, hkind, hlive⟩, fun hne => absurd hblank hne⟩
  next =>
    obtain ⟨r₀, hr₀, rfl⟩ :=
      (Table.mem_updateWhere (PersistentVolumeRecord.key_stamp now)).mp hmem
    split at hlive
    · cases hlive
    next hother =>
      rw [if_neg hother] at hkind ⊢
      refine ⟨⟨hr₀, hkind, hlive⟩, fun _ huuid => hother ?_⟩
      simp [huuid, hlive]

theorem live_foldl {ss : List Statement} (h : Live (ss.foldl exec db) r) :
    Live db r ∨ ∃ uuid vm, .record uuid vm ∈ ss ∧ trimSpace uuid = r.uuid := by
  induction ss generalizing db with
  | nil => exact .inl h
  | cons st ss ih =>
    rcases ih h with hst | ⟨uuid, vm, hmem, huuid⟩
    · cases st with
      | record uuid vm =>
        refine (live_record hst).imp_right fun huuid => ?_
        exact ⟨uuid, vm, List.mem_cons_self, huuid⟩
      | mark uuid now => exact .inl (live_mark hst).1
    · exact .inr ⟨uuid, vm, List.mem_cons_of_mem _ hmem, huuid⟩

theorem live_marks {order : List (Str × ℤ)}
    (h : Live ((order.map fun d => Statement.mark d.1 d.2).foldl exec db) r) :
    Live db r ∧ ∀ d ∈ order, trimSpace d.1 ≠ [] → trimSpace d.1 ≠ r.uuid := by
  induction order generalizing db with
  | nil => exact ⟨h, by simp⟩
  | cons d order ih =>
    obtain ⟨hd, horder⟩ := ih h
    obtain ⟨hdb, hfirst⟩ := live_mark hd
    refine ⟨hdb, fun d' hd' => ?_⟩
    rcases List.mem_cons.mp hd' with rfl | hd'
    · exact hfirst
    · exact horder d' hd'

/-! ## One save -/

variable {ms : Microservice}

theorem uuid_of_insert {row : MicroserviceRow}
    (h : insertMicroservice ms = .ok row) : row.uuid = ms.microserviceUUID := by
  unfold insertMicroservice at h
  cases hgroups : normalizeGIDList ms.supplementalGroups with
  | error e => rw [hgroups] at h; cases h
  | ok groups => rw [hgroups] at h; cases h; rfl

variable {fault : Option Fault}

theorem insertAll_ok {i : ℕ} {t t' : Table MicroserviceRow.uuid}
    (h : insertAll fault i t list = .ok t') :
    ∃ rows : List MicroserviceRow,
      rows.map MicroserviceRow.uuid = list.map Microservice.microserviceUUID ∧
        t' = t.upsertAll rows := by
  induction list generalizing i t with
  | nil =>
    cases h
    exact ⟨[], rfl, rfl⟩
  | cons ms list ih =>
    unfold insertAll at h
    split at h
    · cases h
    next row hrow =>
      split at h
      · cases h
      · obtain ⟨rows, hrows, rfl⟩ := ih h
        exact ⟨row :: rows, by rw [List.map_cons, hrows, uuid_of_insert hrow]; rfl, rfl⟩

variable {t : Table MicroserviceRow.uuid}

theorem insertAll_of_transaction (h : transaction fault list = .ok t) :
    insertAll fault 0 (Table.empty MicroserviceRow.uuid) list = .ok t := by
  simp only [transaction] at h
  split at h
  · cases h
  split at h
  · cases h
  split at h
  · cases h
  split at h
  · cases h
  · cases h
    assumption

theorem uuids_transaction (h : transaction fault list = .ok t)
    (hms : ms ∈ list) : ms.microserviceUUID ∈ t.rows.map MicroserviceRow.uuid := by
  obtain ⟨rows, hrows, rfl⟩ := insertAll_ok (insertAll_of_transaction h)
  have hmem : ms.microserviceUUID ∈ rows.map MicroserviceRow.uuid :=
    hrows ▸ List.mem_map_of_mem hms
  obtain ⟨row, hrow, hkey⟩ := List.mem_map.mp hmem
  obtain ⟨row', hrow', hkey'⟩ := Table.exists_key_upsertAll
    (t := Table.empty MicroserviceRow.uuid) (.inl hrow)
  exact List.mem_map.mpr ⟨row', hrow', hkey'.trans hkey⟩

variable {c : Call}

theorem executed_subset {st : Statement} (h : st ∈ c.executed.1) : st ∈ c.statements := by
  unfold Call.executed at h
  split at h
  · exact List.mem_of_mem_take h
  · exact h

theorem executed_of_none (h : c.executed.2 = none) : c.executed.1 = c.statements := by
  unfold Call.executed at h ⊢
  split
  next i hi =>
    simp only [hi] at h
    exact List.take_of_length_le (List.getElem?_eq_none_iff.mp h)
  · rfl

theorem exists_of_record_mem {vm : VolumeStore.VolumeMapping} (h : .record uuid vm ∈ c.statements) :
    ∃ ms ∈ c.list, ms.microserviceUUID = uuid ∧ trimSpace uuid ≠ [] := by
  rcases List.mem_append.mp h with h | h
  · obtain ⟨ms, hms, h⟩ := List.mem_flatMap.mp h
    unfold recordStatements at h
    split at h
    · cases h
    next huuid =>
      obtain ⟨vm', -, heq⟩ := List.mem_map.mp h
      cases heq
      exact ⟨ms, hms, rfl, huuid⟩
  · obtain ⟨d, -, heq⟩ := List.mem_map.mp h
    cases heq

/-- **No failure among the stamps**: the call does not fail after its transaction, unless every
microservice of the old rows is in its list. -/
def Finishes (db : DB) (c : Call) : Prop := c.executed.2.isSome → departed db c.list = []

instance (db : DB) (c : Call) : Decidable (Finishes db c) :=
  inferInstanceAs (Decidable (_ → _))

theorem save_cases (db : DB) (c : Call) :
    (saveControllerMicroservices db c).1 = db ∧ (saveControllerMicroservices db c).2 ≠ none ∨
      ∃ t, transaction c.fault c.list = .ok t ∧
        saveControllerMicroservices db c =
          (c.executed.1.foldl exec (db.withMicroservices t),
            c.executed.2.map Statement.error) := by
  simp only [saveControllerMicroservices]
  split
  · exact .inl ⟨rfl, nofun⟩
  · split
    · exact .inl ⟨rfl, nofun⟩
    next t ht => exact .inr ⟨t, ht, rfl⟩

theorem desiredStateUUIDs_foldl (db : DB) (ss : List Statement) :
    (ss.foldl exec db).desiredStateUUIDs = db.desiredStateUUIDs := by
  obtain ⟨ledger, h⟩ := foldl_exec_eq db ss
  rw [h]
  rfl

theorem mem_desired_of_listed (ht : transaction c.fault c.list = .ok t) (hms : ms ∈ c.list)
    (huuid : trimSpace ms.microserviceUUID ≠ []) :
    trimSpace ms.microserviceUUID ∈ (db.withMicroservices t).desiredStateUUIDs := by
  exact VolumeStore.mem_desiredStateUUIDs.mpr
    ⟨huuid, ms.microserviceUUID, rfl, .inl (uuids_transaction ht hms)⟩

theorem desired_or_departed {t : Table MicroserviceRow.uuid}
    (ht : transaction c.fault c.list = .ok t) (h : uuid ∈ db.desiredStateUUIDs) :
    uuid ∈ (db.withMicroservices t).desiredStateUUIDs ∨
      ∃ old ∈ departed db c.list, trimSpace old = uuid := by
  obtain ⟨hne, old, rfl, hold⟩ := VolumeStore.mem_desiredStateUUIDs.mp h
  rcases hold with hcontroller | hkept
  · by_cases hnew : trimSpace old ∈ VolumeStore.addTrimmed (c.list.map (·.microserviceUUID))
    · left
      obtain ⟨-, new, hmem, hnew⟩ := VolumeStore.mem_addTrimmed.mp hnew
      obtain ⟨ms, hms, rfl⟩ := List.mem_map.mp hmem
      exact hnew ▸ mem_desired_of_listed ht hms (hnew ▸ hne)
    · right
      refine ⟨old, mem_departed.mpr ⟨hcontroller, hne, fun hold => ?_⟩, rfl⟩
      obtain ⟨-, new, -, rfl⟩ := VolumeStore.mem_addTrimmed.mp hold
      rw [trimSpace_trimSpace] at hnew
      exact hnew hold
  · exact .inl (VolumeStore.mem_desiredStateUUIDs.mpr ⟨hne, old, rfl, .inr hkept⟩)

/-- **One save keeps the database sound.** -/
theorem DB.Sound.save (hdb : db.Sound) (hfin : Finishes db c)
    (horder : (c.order.map Prod.fst).Perm (departed db c.list)) :
    (saveControllerMicroservices db c).1.Sound := by
  rcases save_cases db c with ⟨hsame, -⟩ | ⟨t, ht, hsave⟩
  · rw [hsame]
    exact hdb
  rw [hsave]
  intro r hr
  rw [desiredStateUUIDs_foldl]
  rcases live_foldl hr with hold | ⟨uuid, vm, hmem, huuid⟩
  · rcases desired_or_departed ht (hdb r hold) with hnew | ⟨old, hdep, htrim⟩
    · exact hnew
    · have hall : c.executed.2 = none := by
        cases hfail : c.executed.2 with
        | none => rfl
        | some st => rw [hfin (by rw [hfail]; rfl)] at hdep; cases hdep
      rw [executed_of_none hall, Call.statements, List.foldl_append] at hr
      obtain ⟨d, hd, rfl⟩ := List.mem_map.mp (horder.mem_iff.mpr hdep)
      have hne := (mem_departed.mp hdep).2.1
      exact absurd htrim ((live_marks hr).2 d hd hne)
  · obtain ⟨ms, hms, rfl, hne⟩ := exists_of_record_mem (executed_subset hmem)
    exact huuid ▸ mem_desired_of_listed ht hms hne

/-! ## Loading what was saved -/

def savedUnder (uuid : Str) (list : List Microservice) : Option Microservice :=
  (list.filter fun ms => ms.microserviceUUID = uuid).getLast?

def normalRow (ms : Microservice) : MicroserviceRow := microserviceRow ms ms.supplementalGroups

variable {p : Platform}

section

variable (h : ∀ ms ∈ list, Normal p ms)

include h

theorem insertAll_of_normal (i : ℕ) (t : Table MicroserviceRow.uuid) :
    insertAll none i t list = .ok (t.upsertAll (list.map normalRow)) := by
  induction list generalizing i t with
  | nil => rfl
  | cons ms list ih =>
    rw [insertAll, insert_of_normal (h ms List.mem_cons_self)]
    exact ih (fun ms' hms' => h ms' (List.mem_cons_of_mem _ hms')) (i + 1) _

theorem save_of_normal (db : DB) (order : List (Str × ℤ)) :
    (saveControllerMicroservices db ⟨list, order, none⟩).2 = none ∧
      (saveControllerMicroservices db ⟨list, order, none⟩).1.microservices =
        (Table.empty MicroserviceRow.uuid).upsertAll (list.map normalRow) := by
  have ht : transaction none list =
      .ok ((Table.empty MicroserviceRow.uuid).upsertAll (list.map normalRow)) := by
    simp only [transaction, insertAll_of_normal h, reduceCtorEq, if_false]
  simp only [saveControllerMicroservices, ht, reduceCtorEq, if_false, Call.executed,
    Option.map_none, true_and]
  obtain ⟨ledger, hledger⟩ := foldl_exec_eq (db.withMicroservices
    ((Table.empty MicroserviceRow.uuid).upsertAll (list.map normalRow))) _
  rw [hledger]
  rfl

/-- **What is loaded after a save**: under every identifier the microservice that was saved under
it, as far as the table keeps it. -/
theorem find_load_of_normal (db : DB) (order : List (Str × ℤ)) (uuid : Str) :
    (loadControllerMicroservices p (saveControllerMicroservices db ⟨list, order, none⟩).1).find?
        (fun ms => ms.microserviceUUID = uuid) =
      (savedUnder uuid list).map stored := by
  have hkey : ((fun ms : Microservice => decide (ms.microserviceUUID = uuid)) ∘
      scanMicroservice p) = fun row => decide (row.uuid = uuid) := rfl
  have hrow : ((fun row : MicroserviceRow => decide (row.uuid = uuid)) ∘ normalRow) =
      fun ms => decide (ms.microserviceUUID = uuid) := rfl
  rw [loadControllerMicroservices, (save_of_normal h db order).2, List.find?_map, hkey,
    Table.find?_of_perm (List.perm_insertionSort byUUID _), Table.get?_upsertAll,
    List.filter_map, hrow, List.getLast?_map]
  have hempty : (Table.empty MicroserviceRow.uuid).get? uuid = none := rfl
  rw [hempty, Option.or_none, Option.map_map, ← savedUnder]
  refine Option.map_congr fun ms hms => ?_
  have hmem : ms ∈ list := List.mem_of_mem_filter (List.mem_of_getLast? hms)
  exact scan_microserviceRow (h ms hmem)

end

/-! ## Histories of saves -/

theorem DB.Sound.step {db db' : DB} (hdb : db.Sound) (hfin : Finishes db c)
    (h : step db c = some db') : db'.Sound := by
  unfold Store.step at h
  split at h
  next horder =>
    cases h
    exact hdb.save hfin horder
  next => cases h

theorem listed_of_mem_transaction {t : Table MicroserviceRow.uuid}
    (h : transaction fault list = .ok t) (huuid : uuid ∈ t.rows.map MicroserviceRow.uuid) :
    ∃ ms ∈ list, ms.microserviceUUID = uuid := by
  obtain ⟨rows, hrows, rfl⟩ := insertAll_ok (insertAll_of_transaction h)
  obtain ⟨row, hrow, rfl⟩ := List.mem_map.mp huuid
  rcases Table.mem_or_mem_of_mem_upsertAll hrow with hnew | ⟨hempty, -⟩
  · exact List.mem_map.mp (hrows ▸ List.mem_map_of_mem hnew)
  · cases hempty

/-- **No departure is lost**: after a history of saves none of which failed between its commit and
its stamps while something departed, a save that succeeds leaves a stamp on every workload row of a
microservice that it does not list, that is no local workload and not the controller on the node. -/
theorem unreference_kept {db₀ db db' : DB} {calls : List Call} {last : Call} (hdb₀ : db₀.Sound)
    (hfin : Machine.Along step Finishes db₀ calls)
    (hrun : Machine.run step db₀ calls = some db)
    (horder : (last.order.map Prod.fst).Perm (departed db last.list))
    (hlast : saveControllerMicroservices db last = (db', none)) :
    ∀ r ∈ db'.ledger, r.kind = .workload →
      (∀ ms ∈ last.list, trimSpace ms.microserviceUUID ≠ r.uuid) →
      (∀ uuid ∈ db'.localWorkloads, trimSpace uuid ≠ r.uuid) →
      (∀ uuid ∈ db'.systemControlPlane, trimSpace uuid ≠ r.uuid) →
        r.unreferencedAt ≠ none := by
  intro r hr hkind hlist hlocal hcp hnone
  have hdb : db.Sound :=
    Machine.invariant_run (fun _ _ _ hs hok h => hs.step hok h) hfin hdb₀ hrun
  rcases save_cases db last with ⟨-, hfailed⟩ | ⟨t, ht, hsave⟩
  · exact hfailed (congrArg Prod.snd hlast)
  rw [hlast, Prod.mk.injEq] at hsave
  obtain ⟨hdb', hdone⟩ := hsave
  have hfinLast : Finishes db last := by
    intro hsome
    rw [Option.map_eq_none_iff.mp hdone.symm] at hsome
    cases hsome
  have hsound := hdb.save hfinLast horder
  rw [hlast] at hsound
  obtain ⟨-, uuid, htrim, hmem⟩ :=
    VolumeStore.mem_desiredStateUUIDs.mp (hsound r ⟨hr, hkind, hnone⟩)
  rcases hmem with hmem | hmem | hmem
  · obtain ⟨ledger, hframe⟩ := foldl_exec_eq (db.withMicroservices t) last.executed.1
    rw [hdb', hframe] at hmem
    obtain ⟨ms, hms, rfl⟩ := listed_of_mem_transaction ht hmem
    exact hlist ms hms htrim
  · exact hlocal uuid hmem htrim
  · exact hcp uuid hmem htrim

def blank : DB where
  diskDirectory := "/var/lib/edgelet".toList
  ledger := Table.empty _
  controllerMicroservices := []
  localWorkloads := []
  systemControlPlane := none
  microservices := Table.empty _
  uuids_eq := rfl

def oneVolume : Microservice where
  microserviceUUID := "a".toList
  imageName := "nginx".toList
  volumeMappings := [⟨"data".toList, "/data".toList, "rw".toList, .volume, "private".toList⟩]

def listed : Call := ⟨[oneVolume], [], none⟩

def dropped : Call := ⟨[], [("a".toList, 5)], none⟩

def afterListed : DB := (saveControllerMicroservices blank listed).1

theorem unreference_kept_dropped :
    (saveControllerMicroservices afterListed dropped).2 = none ∧
      ∀ r ∈ (saveControllerMicroservices afterListed dropped).1.ledger,
        r.kind = .workload → r.unreferencedAt ≠ none := by
  have hdone : (saveControllerMicroservices afterListed dropped).2 = none := rfl
  have hsound : blank.Sound := fun r hr => nomatch hr.1
  have hfin : Machine.Along step Finishes blank [listed] := by decide
  have hrun : Machine.run step blank [listed] = some afterListed := rfl
  have horder : (dropped.order.map Prod.fst).Perm (departed afterListed dropped.list) := by decide
  refine ⟨hdone, fun r hr hkind => ?_⟩
  apply unreference_kept hsound hfin hrun horder (Prod.ext rfl hdone) r hr hkind
  · exact fun ms hms => absurd hms List.not_mem_nil
  · exact fun uuid huuid => absurd huuid List.not_mem_nil
  · exact fun uuid huuid => nomatch huuid

def failed : Call := ⟨[], [("a".toList, 5)], some (.statement 0)⟩

def again : Call := ⟨[], [], none⟩

def afterFailed : DB := (saveControllerMicroservices afterListed failed).1

/-- **A failed save forgets a departure**: a microservice with a volume is saved, the save of the
empty list fails at the stamp of the volume, and the next save of the empty list succeeds. The
volume is not stamped, and nothing lists its microservice. -/
theorem failed_save_forgets :
    Machine.run step blank [listed, failed] = some afterFailed ∧
      (again.order.map Prod.fst).Perm (departed afterFailed again.list) ∧
      (saveControllerMicroservices afterFailed again).2 = none ∧
      ∃ r ∈ (saveControllerMicroservices afterFailed again).1.ledger,
        r.kind = .workload ∧ r.unreferencedAt = none ∧
          (∃ ms ∈ listed.list, trimSpace ms.microserviceUUID = r.uuid) ∧
          (∀ ms ∈ again.list, trimSpace ms.microserviceUUID ≠ r.uuid) ∧
          (saveControllerMicroservices afterFailed again).1.localWorkloads = [] ∧
          (saveControllerMicroservices afterFailed again).1.systemControlPlane = none := by
  refine ⟨rfl, by decide, rfl, ?_⟩
  let row := VolumeStore.mappingRow blank.diskDirectory "a".toList workloadKind
    ⟨"data".toList, .volume, "private".toList⟩
  refine ⟨row, ?_, rfl, rfl, ⟨oneVolume, List.mem_cons_self, rfl⟩, ?_, rfl, rfl⟩
  · exact List.mem_cons_self
  · exact fun ms hms => absurd hms List.not_mem_nil

end Edgelet.Store
