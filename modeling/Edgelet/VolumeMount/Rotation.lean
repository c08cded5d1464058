import Edgelet.VolumeMount.Reach

/-!
# Rotated secrets and config maps

An update is to reach the microservices that use the mount. Which these are is kept in the index,
where `PrepareMicroserviceVolumeMount` enters them; it is saved when a mount is created or updated,
and a restart reads what was saved.

Here every call of the file system succeeds, names and identifiers are single components and no key
starts with two dots, so that directories and projections are the link `..data` with the versions
that are there. A version is named after a time that does not come again. Who has prepared a mount
is remembered beside the state.
-/

namespace Edgelet.VolumeMount

open Lexical Json Keyed FieldAgent Machine

/-! ## Directories -/

abbrev Contents := List (Str × Str)

def Lib.contents (lib : Lib) (data : Object ℚ) : Contents :=
  data.filterMap fun
    | (key, .str value) => (lib.decodeBase64 value).map (key, ·)
    | _ => none

structure Directory where
  data : Option ℕ
  versions : List (ℕ × Contents)

namespace Directory

def empty : Directory := ⟨none, []⟩

def resolve (d : Directory) : Option (ℕ × Contents) :=
  d.data.bind fun v => d.versions.find? (·.1 == v)

def link (d : Directory) (v : ℕ × Contents) : Directory where
  data := some v.1
  versions := if d.versions.any (·.1 == v.1) then d.versions else d.versions ++ [v]

def cleanupOldVersions (d : Directory) : Directory :=
  { d with versions := d.versions.drop (d.versions.length - 1) }

def Before (d : Directory) (now : ℕ) : Prop := ∀ v ∈ d.versions, v.1 < now

variable {d : Directory} {v : ℕ × Contents} {now later : ℕ}

theorem Before.mono (h : d.Before now) (hle : now ≤ later) : d.Before later :=
  fun w hw => (h w hw).trans_le hle

theorem before_empty : empty.Before now := fun _ hw => nomatch hw

theorem Before.link (h : d.Before now) (hv : v.1 < now) : (d.link v).Before now := by
  intro w hw
  by_cases hany : d.versions.any (·.1 == v.1) = true
  · rw [Directory.link, if_pos hany] at hw
    exact h w hw
  · rw [Directory.link, if_neg hany] at hw
    rcases List.mem_append.mp hw with hw | hw
    · exact h w hw
    · exact List.mem_singleton.mp hw ▸ hv

theorem Before.cleanupOldVersions (h : d.Before now) : d.cleanupOldVersions.Before now :=
  fun w hw => h w (List.mem_of_mem_drop hw)

theorem Before.resolve (h : d.Before now) (hv : d.resolve = some v) : v.1 < now := by
  obtain ⟨_, -, hfind⟩ := Option.bind_eq_some_iff.mp hv
  exact h v (List.mem_of_find?_eq_some hfind)

theorem cleanupOldVersions_link (h : d.Before v.1) :
    (d.link v).cleanupOldVersions = ⟨some v.1, [v]⟩ := by
  have hany : ¬ d.versions.any (·.1 == v.1) = true := by
    rw [List.any_eq_true]
    rintro ⟨w, hw, hwv⟩
    exact (h w hw).ne (beq_iff_eq.mp hwv)
  rw [link, if_neg hany, cleanupOldVersions]
  simp

theorem cleanupOldVersions_link_self : (link ⟨some v.1, [v]⟩ v).cleanupOldVersions =
    ⟨some v.1, [v]⟩ := by
  simp [link, cleanupOldVersions]

@[simp] theorem resolve_single : (Directory.mk (some v.1) [v]).resolve = some v := by
  simp [resolve]

end Directory

/-! ## The operations -/

structure Change extends Desired where
  plain : Plain name
  keys : ∀ e ∈ data, ∀ c ∈ components e.1, dotdot.isPrefixOf c = false

structure State where
  vmm : Manager
  mounts : Table fun e : (VolumeMountType × Str) × Directory => e.1
  projections : Table fun e : (Str × VolumeMountType × Str) × Directory => e.1
  now : ℕ
  consumers : List (Str × VolumeMountType × Str)

inductive Op
  | prepare (u name : Name) (vmType : VolumeMountType) (order : Listing (Str × Mount))
  | message (c : Change) (order : Listing (Str × Mount))
  | cleanup (u : Name) (order : Listing (Str × Mount))
  | restart (order : Listing (Str × Mount))

namespace State

def initial : State := ⟨⟨Table.empty _, Table.empty _, Table.empty _⟩, Table.empty _, Table.empty _,
  0, []⟩

section

variable (s : State) (u : Str) (vmType : VolumeMountType) (name : Str) (lib : Lib)
  (order : Listing (Str × Mount))

def mount? : Option Directory :=
  (s.mounts.get? (vmType, name)).map (·.2)

def projection? : Option Directory :=
  (s.projections.get? (u, vmType, name)).map (·.2)

def shows : Option Contents :=
  ((s.projection? u vmType name).bind Directory.resolve).map (·.2)

def project (d : Directory) : State :=
  { s with projections := s.projections.upsert ((u, vmType, name), d) }

def prepareMicroserviceVolumeMount (u name : Str) (vmType : VolumeMountType)
    (order : Listing (Str × Mount)) : State :=
  let p := (s.projection? u vmType name).getD .empty
  let s := { s.project u vmType name p with consumers := (u, vmType, name) :: s.consumers }
  match (s.mount? vmType name).bind Directory.resolve with
  | none => s
  | some v =>
    if p.data = some v.1 then s
    else
      { s.project u vmType name (p.link v) with
        vmm := s.vmm.trackMicroserviceUsage (order.order 0 s.vmm.mountIndex.rows) name u true }

def createMainStructureFromData (contents : Contents) (cleanup : Bool) : State :=
  let d := ((s.mount? vmType name).getD .empty).link (s.now, contents)
  { s with
    mounts := s.mounts.upsert ((vmType, name), if cleanup then d.cleanupOldVersions else d)
    now := s.now + 1 }

def syncMicroservice (v : ℕ × Contents) (s : State) (u : Str) : State :=
  match s.projection? u vmType name with
  | none => s
  | some p => s.project u vmType name (p.link v).cleanupOldVersions

def syncMicroserviceSymlinksUnsafe (vmType : VolumeMountType)
    (order : Listing (Str × Mount)) : State :=
  match (order.order 0 s.vmm.mountIndex.rows).find? (·.2.name == name) with
  | none => s
  | some e =>
    match (s.mount? vmType name).bind Directory.resolve with
    | none => s
    | some v => e.2.microservices.foldl (syncMicroservice vmType name v) s

def createVolumeMount (s : State) (d : Desired) : State :=
  let s := s.createMainStructureFromData d.vmType d.name (lib.contents d.data) false
  { s with
    vmm := { s.vmm with
      mountIndex := s.vmm.mountIndex.upsert (d.uuid, d.mount (lib.checksum d.data) [])
      }.persistToStore true }

def updateVolumeMount (s : State) (d : Desired) (order : Listing (Str × Mount)) : State :=
  let s := s.createMainStructureFromData d.vmType d.name (lib.contents d.data) true
  { s with
    vmm := { s.vmm with mountIndex := lib.updated s.vmm.mountIndex d }.persistToStore true
    }.syncMicroserviceSymlinksUnsafe d.name d.vmType order

def processVolumeMount (s : State) (d : Desired) (order : Listing (Str × Mount)) : State :=
  if (s.vmm.mountIndex.mount? d.uuid).isSome then
    if s.vmm.mountIndex.skips d then s else s.updateVolumeMount lib d order
  else s.createVolumeMount lib d

def processVolumeMountChanges (s : State) (d : Desired) (order : Listing (Str × Mount)) : State :=
  let s := s.processVolumeMount lib d order
  { s with
    vmm := (s.vmm.rebuildTypeCache (order.order 1 s.vmm.mountIndex.rows)).persistToStore true }

def untrack (vmm : Manager) (place : Str × ℕ) : Manager :=
  match vmm.mountIndex.mount? place.1 with
  | none => vmm
  | some m =>
    if m.microservices.contains u then
      vmm.trackMicroserviceUsage (order.order (place.2 + 1) vmm.mountIndex.rows) m.name u false
    else vmm

def cleanupMicroserviceVolumesIndexUnsafe (vmm : Manager) (u : Str)
    (order : Listing (Str × Mount)) : Manager :=
  ((order.order 0 vmm.mountIndex.rows).map (·.1)).zipIdx.foldl (untrack u order) vmm

def cleanupMicroserviceVolumes : State :=
  if s.projections.rows.any (·.1.1 == u) then
    { s with
      vmm := cleanupMicroserviceVolumesIndexUnsafe s.vmm u order
      projections := s.projections.deleteWhere (·.1.1 == u)
      consumers := s.consumers.filter (·.1 != u) }
  else { s with consumers := s.consumers.filter (·.1 != u) }

def rehydrateMainStructureFromRecord (s : State) (row : Str × Mount) : State :=
  if row.2.data = [] then s
  else if ((s.mount? row.2.vmType row.2.name).bind (·.data)).isSome then s
  else s.createMainStructureFromData row.2.vmType row.2.name (lib.contents row.2.data) false

def loadFromStore (s : State) (order : Listing (Str × Mount)) : State :=
  let s := s.vmm.saved.rows.foldl (rehydrateMainStructureFromRecord lib)
    { s with vmm := { s.vmm with mountIndex := s.vmm.saved } }
  { s with vmm := s.vmm.rebuildTypeCache (order.order 0 s.vmm.mountIndex.rows) }

end

end State

def step (lib : Lib) (s : State) : Op → State
  | .prepare u name vmType order => s.prepareMicroserviceVolumeMount u.1 name.1 vmType order
  | .message c order => s.processVolumeMountChanges lib c.toDesired order
  | .cleanup u order => s.cleanupMicroserviceVolumes u.1 order
  | .restart order => s.loadFromStore lib order

def after (lib : Lib) (ops : List Op) : State := ops.foldl (step lib) .initial

/-! ## What every sequence keeps -/

section Invariant

variable {lib : Lib} {s : State} {d : Directory} {u name : Str} {vmType : VolumeMountType}
  {v : ℕ × Contents} {vmm : Manager} {order : Listing (Str × Mount)}

structure Sound (s : State) : Prop where
  mounts : ∀ e ∈ s.mounts, e.2.Before s.now
  projections : ∀ e ∈ s.projections, e.2.Before s.now
  prepared : ∀ k ∈ s.consumers, (s.projections.get? k).isSome = true

theorem sound_initial : Sound .initial :=
  ⟨fun _ h => (nomatch h), fun _ h => (nomatch h), fun _ h => (nomatch h)⟩

section

variable (h : Sound s)

include h

theorem Sound.with_vmm : Sound { s with vmm := vmm } :=
  ⟨h.mounts, h.projections, h.prepared⟩

theorem Sound.before_mount (vmType : VolumeMountType) (name : Str) :
    ((s.mount? vmType name).getD .empty).Before s.now := by
  cases hget : s.mounts.get? (vmType, name) with
  | none =>
    rw [State.mount?, hget]
    exact Directory.before_empty
  | some e =>
    rw [State.mount?, hget]
    exact h.mounts e (Table.get?_eq_some_iff.mp hget).1

theorem Sound.before_projection (hp : s.projection? u vmType name = some d) : d.Before s.now := by
  obtain ⟨e, he, rfl⟩ := Option.map_eq_some_iff.mp hp
  exact h.projections e (Table.get?_eq_some_iff.mp he).1

theorem Sound.before_resolve
    (hv : (s.mount? vmType name).bind Directory.resolve = some v) : v.1 < s.now := by
  obtain ⟨d, hd, hv⟩ := Option.bind_eq_some_iff.mp hv
  have hbefore := h.before_mount vmType name
  rw [hd] at hbefore
  exact hbefore.resolve hv

theorem Sound.project (hd : d.Before s.now) : Sound (s.project u vmType name d) where
  mounts := h.mounts
  projections := by
    intro e he
    rcases Table.mem_upsert.mp he with rfl | ⟨he, -⟩
    · exact hd
    · exact h.projections e he
  prepared := by
    intro k hk
    show ((s.projections.upsert _).get? k).isSome = true
    rw [Table.get?_upsert]
    split
    · rfl
    · exact h.prepared k hk

theorem Sound.prepareMicroserviceVolumeMount :
    Sound (s.prepareMicroserviceVolumeMount u name vmType order) := by
  have hp : ((s.projection? u vmType name).getD .empty).Before s.now := by
    cases hget : s.projection? u vmType name with
    | none => exact Directory.before_empty
    | some p => exact h.before_projection hget
  have hmade : Sound { s.project u vmType name ((s.projection? u vmType name).getD .empty) with
      consumers := (u, vmType, name) :: s.consumers } := by
    refine ⟨h.mounts, (h.project hp).projections, fun k hk => ?_⟩
    rcases List.mem_cons.mp hk with rfl | hk
    · show ((s.projections.upsert _).get? _).isSome = true
      rw [Table.get?_upsert_of_eq rfl]
      rfl
    · exact (h.project hp).prepared k hk
  simp only [State.prepareMicroserviceVolumeMount]
  split
  · exact hmade
  next v hv =>
    split
    · exact hmade
    · exact (hmade.project (hp.link (hmade.before_resolve hv))).with_vmm

theorem Sound.createMainStructureFromData {contents : Contents} {cleanup : Bool} :
    Sound (s.createMainStructureFromData vmType name contents cleanup) where
  mounts := by
    have hlink : (((s.mount? vmType name).getD .empty).link (s.now, contents)).Before
        (s.now + 1) := ((h.before_mount vmType name).mono (Nat.le_succ _)).link (Nat.lt_succ_self _)
    intro e he
    rcases Table.mem_upsert.mp he with rfl | ⟨he, -⟩
    · cases cleanup with
      | true => exact hlink.cleanupOldVersions
      | false => exact hlink
    · exact (h.mounts e he).mono (Nat.le_succ _)
  projections := fun e he => (h.projections e he).mono (Nat.le_succ _)
  prepared := h.prepared

end

theorem now_syncMicroservice : (s.syncMicroservice vmType name v u).now = s.now := by
  rw [State.syncMicroservice]
  split <;> rfl

theorem Sound.syncMicroservice (h : Sound s) (hv : v.1 < s.now) :
    Sound (s.syncMicroservice vmType name v u) := by
  rw [State.syncMicroservice]
  split
  · exact h
  next p hp => exact h.project ((h.before_projection hp).link hv).cleanupOldVersions

theorem Sound.syncMicroserviceSymlinksUnsafe (h : Sound s) :
    Sound (s.syncMicroserviceSymlinksUnsafe name vmType order) := by
  have hfold : ∀ (v : ℕ × Contents) (us : List Str) {s : State}, Sound s → v.1 < s.now →
      Sound (us.foldl (State.syncMicroservice vmType name v) s) := by
    intro v us
    induction us with
    | nil => exact fun h _ => h
    | cons u us ih =>
      exact fun h hv => ih (h.syncMicroservice hv) (by rwa [now_syncMicroservice])
  rw [State.syncMicroserviceSymlinksUnsafe]
  split
  · exact h
  · split
    · exact h
    next v hv => exact hfold v _ h (h.before_resolve hv)

end Invariant

section Invariant

variable {lib : Lib} {s : State} {u name : Str} {vmType : VolumeMountType}
  {order : Listing (Str × Mount)}

theorem Sound.processVolumeMountChanges (h : Sound s) (d : Desired) :
    Sound (s.processVolumeMountChanges lib d order) := by
  refine Sound.with_vmm ?_
  rw [State.processVolumeMount]
  split
  · split
    · exact h
    · exact Sound.syncMicroserviceSymlinksUnsafe h.createMainStructureFromData.with_vmm
  · exact h.createMainStructureFromData.with_vmm

theorem Sound.cleanupMicroserviceVolumes (h : Sound s) :
    Sound (s.cleanupMicroserviceVolumes u order) := by
  have hprepared : ∀ k ∈ s.consumers.filter (·.1 != u), k ∈ s.consumers ∧ k.1 ≠ u := by
    intro k hk
    obtain ⟨hk, hne⟩ := List.mem_filter.mp hk
    exact ⟨hk, bne_iff_ne.mp hne⟩
  rw [State.cleanupMicroserviceVolumes]
  split
  · refine ⟨h.mounts, fun e he => h.projections e (Table.mem_deleteWhere.mp he).1, fun k hk => ?_⟩
    obtain ⟨hk, hne⟩ := hprepared k hk
    show ((s.projections.deleteWhere _).get? k).isSome = true
    rw [Table.get?_deleteWhere_of_false fun e he => beq_eq_false_iff_ne.mpr (he ▸ hne)]
    exact h.prepared k hk
  · exact ⟨h.mounts, h.projections, fun k hk => h.prepared k (hprepared k hk).1⟩

theorem Sound.rehydrateMainStructureFromRecord (h : Sound s) (row : Str × Mount) :
    Sound (s.rehydrateMainStructureFromRecord lib row) := by
  rw [State.rehydrateMainStructureFromRecord]
  split
  · exact h
  · split
    · exact h
    · exact h.createMainStructureFromData

theorem Sound.loadFromStore (h : Sound s) : Sound (s.loadFromStore lib order) := by
  have hfold : ∀ (rows : List (Str × Mount)) {s : State}, Sound s →
      Sound (rows.foldl (State.rehydrateMainStructureFromRecord lib) s) := by
    intro rows
    induction rows with
    | nil => exact fun h => h
    | cons row rows ih => exact fun h => ih (h.rehydrateMainStructureFromRecord row)
  exact Sound.with_vmm (hfold _ h.with_vmm)

theorem Sound.step (h : Sound s) (op : Op) : Sound (step lib s op) := by
  cases op with
  | prepare => exact h.prepareMicroserviceVolumeMount
  | message c => exact h.processVolumeMountChanges c.toDesired
  | cleanup => exact h.cleanupMicroserviceVolumes
  | restart => exact h.loadFromStore

theorem sound_after (lib : Lib) (ops : List Op) : Sound (after lib ops) := by
  have hfold : ∀ {s : State}, Sound s → Sound (ops.foldl (VolumeMount.step lib) s) := by
    induction ops with
    | nil => exact fun h => h
    | cons op ops ih => exact fun h => ih (h.step op)
  exact hfold sound_initial

end Invariant

/-! ## Updates -/

def Updates (index : Index) (d : Desired) : Prop :=
  (index.mount? d.uuid).isSome = true ∧ index.skips d = false

/-- **The consumers are reached**: what a microservice that has prepared the mount sees of it is
what the message says. -/
def Reached (lib : Lib) (s : State) (d : Desired) : Prop :=
  ∀ u, (u, d.vmType, d.name) ∈ s.consumers →
    s.shows u d.vmType d.name = some (lib.contents d.data)

def Listed (index : Index) (name u : Str) : Prop :=
  ∀ e ∈ index, e.2.name = name → u ∈ e.2.microservices

section Updates

variable {lib : Lib} {s : State} {u u' name : Str} {vmType : VolumeMountType}
  {v : ℕ × Contents} {d : Desired} {order : Listing (Str × Mount)}

theorem projection?_project (p : Directory) :
    (s.project u vmType name p).projection? u' vmType name =
      if u = u' then some p else s.projection? u' vmType name := by
  rw [State.projection?, State.project, Table.get?_upsert]
  by_cases h : u = u'
  · simp [h]
  · simp [h, State.projection?]

theorem projection?_syncMicroservice :
    (s.syncMicroservice vmType name v u).projection? u' vmType name =
      if u = u' then
        (s.projection? u' vmType name).map fun p => (p.link v).cleanupOldVersions
      else s.projection? u' vmType name := by
  rw [State.syncMicroservice]
  split
  next hnone =>
    split
    next h => rw [← h, hnone]; rfl
    · rfl
  next p hp =>
    rw [projection?_project]
    split
    next h => rw [← h, hp]; rfl
    · rfl

variable {us : List Str}

theorem projection?_sync_of_notMem (h : u ∉ us) :
    (us.foldl (State.syncMicroservice vmType name v) s).projection? u vmType name =
      s.projection? u vmType name := by
  induction us generalizing s with
  | nil => rfl
  | cons w us ih =>
    rw [List.foldl_cons, ih fun hu => h (List.mem_cons_of_mem _ hu), projection?_syncMicroservice,
      if_neg fun hw : w = u => h (hw ▸ List.mem_cons_self)]

theorem projection?_sync_of_eq (h : s.projection? u vmType name = some ⟨some v.1, [v]⟩) :
    (us.foldl (State.syncMicroservice vmType name v) s).projection? u vmType name =
      some ⟨some v.1, [v]⟩ := by
  induction us generalizing s with
  | nil => exact h
  | cons w us ih =>
    refine ih ?_
    rw [projection?_syncMicroservice, h]
    split
    · rw [Option.map_some, Directory.cleanupOldVersions_link_self]
    · rfl

theorem projection?_sync_of_mem (hu : u ∈ us) {p : Directory}
    (hp : s.projection? u vmType name = some p) (hbefore : p.Before v.1) :
    (us.foldl (State.syncMicroservice vmType name v) s).projection? u vmType name =
      some ⟨some v.1, [v]⟩ := by
  induction us generalizing s with
  | nil => cases hu
  | cons w us ih =>
    rw [List.foldl_cons]
    by_cases hw : w = u
    · refine projection?_sync_of_eq ?_
      rw [projection?_syncMicroservice, if_pos hw, hp, Option.map_some,
        Directory.cleanupOldVersions_link hbefore]
    · refine ih (List.mem_of_ne_of_mem (Ne.symm hw) hu) ?_
      rw [projection?_syncMicroservice, if_neg hw, hp]

theorem resolve_createMainStructureFromData (h : Sound s) {contents : Contents} :
    ((s.createMainStructureFromData vmType name contents true).mount? vmType name).bind
      Directory.resolve = some (s.now, contents) := by
  rw [State.mount?, State.createMainStructureFromData, Table.get?_upsert_of_eq rfl]
  simp only [if_true, Option.map_some, Option.bind_some]
  rw [Directory.cleanupOldVersions_link (v := (s.now, contents)) (h.before_mount vmType name),
    Directory.resolve_single (v := (s.now, contents))]

theorem mem_updated_self (lib : Lib) (s : State) (d : Desired) :
    (d.uuid, d.mount (lib.checksum d.data)
      (((s.vmm.mountIndex.mount? d.uuid).map (·.microservices)).getD [])) ∈
        lib.updated s.vmm.mountIndex d :=
  Table.mem_upsert.mpr (.inl rfl)

/-- **What an update does to a projection**: it is refreshed if the first entry with the name has
its microservice, and else it is as it was. -/
theorem shows_update (lib : Lib) (order : Listing (Str × Mount)) (h : Sound s)
    (hup : Updates s.vmm.mountIndex d) (hprepared : (u, d.vmType, d.name) ∈ s.consumers) :
    ∃ e ∈ lib.updated s.vmm.mountIndex d, e.2.name = d.name ∧
      (order.order 0 (lib.updated s.vmm.mountIndex d).rows).find? (·.2.name == d.name) = some e ∧
      (s.processVolumeMountChanges lib d order).shows u d.vmType d.name =
        if u ∈ e.2.microservices then some (lib.contents d.data)
        else s.shows u d.vmType d.name := by
  have hperm := order.perm 0 (lib.updated s.vmm.mountIndex d).rows
  obtain ⟨e, hfind⟩ : ∃ e, (order.order 0 (lib.updated s.vmm.mountIndex d).rows).find?
      (·.2.name == d.name) = some e := by
    refine Option.isSome_iff_exists.mp (List.find?_isSome.mpr ⟨_, hperm.mem_iff.mpr
      (mem_updated_self lib s d), by simp [Desired.mount]⟩)
  obtain ⟨p, hp⟩ := Option.isSome_iff_exists.mp (h.prepared _ hprepared)
  have hproj : s.projection? u d.vmType d.name = some p.2 := by rw [State.projection?, hp]; rfl
  refine ⟨e, hperm.mem_iff.mp (List.mem_of_find?_eq_some hfind),
    by simpa using List.find?_some hfind, hfind, ?_⟩
  set t : State := { s.createMainStructureFromData d.vmType d.name (lib.contents d.data) true with
    vmm := { s.vmm with mountIndex := lib.updated s.vmm.mountIndex d }.persistToStore true }
  have hsync : (s.processVolumeMountChanges lib d order).shows u d.vmType d.name =
      (e.2.microservices.foldl (State.syncMicroservice d.vmType d.name
        (s.now, lib.contents d.data)) t).shows u d.vmType d.name := by
    have hstep : s.processVolumeMount lib d order =
        t.syncMicroserviceSymlinksUnsafe d.name d.vmType order := by
      rw [State.processVolumeMount, if_pos hup.1, if_neg (by simp [hup.2])]
      rfl
    have hresolve : (t.mount? d.vmType d.name).bind Directory.resolve =
        some (s.now, lib.contents d.data) := resolve_createMainStructureFromData h
    show (s.processVolumeMount lib d order).shows u d.vmType d.name = _
    rw [hstep, State.syncMicroserviceSymlinksUnsafe]
    simp only [show t.vmm.mountIndex = lib.updated s.vmm.mountIndex d from rfl, hfind, hresolve]
  have hproj' : t.projection? u d.vmType d.name = some p.2 := hproj
  rw [hsync]
  split
  next hu =>
    rw [State.shows, projection?_sync_of_mem hu hproj' (h.before_projection hproj)]
    simp [Directory.resolve]
  next hu =>
    rw [State.shows, projection?_sync_of_notMem hu]
    rfl

end Updates

section Updates

variable {lib : Lib} {s : State} {name : Str} {vmType : VolumeMountType} {d : Desired}
  {order : Listing (Str × Mount)}

theorem sync_frame (s : State) (name : Str) (vmType : VolumeMountType)
    (order : Listing (Str × Mount)) :
    (s.syncMicroserviceSymlinksUnsafe name vmType order).vmm = s.vmm ∧
      (s.syncMicroserviceSymlinksUnsafe name vmType order).consumers = s.consumers := by
  have hone : ∀ (s : State) (v : ℕ × Contents) (u : Str),
      (s.syncMicroservice vmType name v u).vmm = s.vmm ∧
        (s.syncMicroservice vmType name v u).consumers = s.consumers := by
    intro s v u
    rw [State.syncMicroservice]
    split
    · exact ⟨rfl, rfl⟩
    · exact ⟨rfl, rfl⟩
  have hfold : ∀ (v : ℕ × Contents) (us : List Str) (s : State),
      (us.foldl (State.syncMicroservice vmType name v) s).vmm = s.vmm ∧
        (us.foldl (State.syncMicroservice vmType name v) s).consumers = s.consumers := by
    intro v us
    induction us with
    | nil => exact fun s => ⟨rfl, rfl⟩
    | cons u us ih =>
      intro s
      obtain ⟨hvmm, hconsumers⟩ := ih (s.syncMicroservice vmType name v u)
      exact ⟨hvmm.trans (hone s v u).1, hconsumers.trans (hone s v u).2⟩
  rw [State.syncMicroserviceSymlinksUnsafe]
  split
  · exact ⟨rfl, rfl⟩
  · split
    · exact ⟨rfl, rfl⟩
    · exact hfold _ _ s

theorem consumers_processVolumeMountChanges (s : State) (d : Desired)
    (order : Listing (Str × Mount)) :
    (s.processVolumeMountChanges lib d order).consumers = s.consumers := by
  show (s.processVolumeMount lib d order).consumers = s.consumers
  rw [State.processVolumeMount]
  split
  · split
    · rfl
    · exact (sync_frame _ d.name d.vmType order).2
  · rfl

theorem exists_order_find? {index : Index} {e : Str × Mount} (he : e ∈ index)
    (hname : e.2.name = name) :
    ∃ order : Listing (Str × Mount),
      (order.order 0 index.rows).find? (·.2.name == name) = some e := by
  obtain ⟨rest, hrest⟩ := exists_order_front (p := fun x : Str × Mount => decide (x.1 = e.1))
    (q := fun _ => true) (Table.filter_key_eq (.refl _) he) 0
  refine ⟨.front (fun x => decide (x.1 = e.1)) fun _ => true, ?_⟩
  rw [hrest, List.find?_cons_of_pos (by simp [hname])]

/-- **An update reaches all consumers exactly when the index has them** with every mount of the
name, those apart that see the new content already: after any sequence of operations, for every
update, over all orders in which the index may come. -/
theorem reached_iff_listed (lib : Lib) (ops : List Op) (c : Change)
    (hup : Updates (after lib ops).vmm.mountIndex c.toDesired) :
    (∀ order, Reached lib (step lib (after lib ops) (.message c order)) c.toDesired) ↔
      ∀ u, (u, c.vmType, c.name) ∈ (after lib ops).consumers →
        Listed (lib.updated (after lib ops).vmm.mountIndex c.toDesired) c.name u ∨
          (after lib ops).shows u c.vmType c.name = some (lib.contents c.data) := by
  have hsound := sound_after lib ops
  constructor
  · intro h u hu
    refine or_iff_not_imp_left.mpr fun hlisted => ?_
    simp only [Listed, not_forall] at hlisted
    obtain ⟨e, he, hname, hnot⟩ := hlisted
    obtain ⟨order, horder⟩ := exists_order_find? he hname
    obtain ⟨e', -, -, hfind, hshows⟩ := shows_update lib order hsound hup hu
    obtain rfl : e = e' := Option.some.inj (horder.symm.trans hfind)
    rw [if_neg hnot] at hshows
    rw [← hshows]
    exact h order u (by rwa [step, consumers_processVolumeMountChanges])
  · intro h order u hu
    rw [step, consumers_processVolumeMountChanges] at hu
    obtain ⟨e, he, hname, -, hshows⟩ := shows_update lib order hsound hup hu
    rw [step, hshows]
    split
    · rfl
    next hnot =>
      rcases h u hu with hlisted | hsees
      · exact absurd (hlisted e he hname) hnot
      · exact hsees

end Updates

/-! ## A restart -/

def asStored : Listing (Str × Mount) := ⟨fun _ l => l, fun _ l => .refl l⟩

def token (version : ℚ) (value : String) : Change where
  uuid := "m".toList
  name := "token".toList
  version := version
  data := [("key".toList, .str value.toList)]
  vmType := .secret
  plain := by decide
  keys := by
    intro e he
    obtain rfl := List.mem_singleton.mp he
    show ∀ c ∈ components "key".toList, _
    decide

def prepared : List Op :=
  [.message (token 1 "old") asStored,
    .prepare ⟨"u".toList, by decide⟩ ⟨"token".toList, by decide⟩ .secret asStored]

/-- The update reaches the microservice. -/
theorem rotation_reached :
    Updates (after plainLib prepared).vmm.mountIndex (token 2 "new").toDesired ∧
      Reached plainLib (step plainLib (after plainLib prepared)
        (.message (token 2 "new") asStored)) (token 2 "new").toDesired := by
  have hup : Updates (after plainLib prepared).vmm.mountIndex (token 2 "new").toDesired :=
    ⟨rfl, rfl⟩
  have hlisted : ∀ e ∈ (plainLib.updated (after plainLib prepared).vmm.mountIndex
      (token 2 "new").toDesired).rows,
      e.2.name = "token".toList → "u".toList ∈ e.2.microservices := of_decide_eq_true rfl
  refine ⟨hup, (reached_iff_listed plainLib prepared (token 2 "new") hup).mpr ?_ asStored⟩
  intro u hu
  have hconsumers : (after plainLib prepared).consumers =
      [("u".toList, .secret, "token".toList)] := rfl
  rw [hconsumers, List.mem_singleton, Prod.mk.injEq] at hu
  exact .inl (hu.1 ▸ hlisted)

def restarted : List Op := prepared ++ [.restart asStored]

/-- With a restart between, the update does not reach it. -/
theorem rotation_missed :
    Updates (after plainLib restarted).vmm.mountIndex (token 2 "new").toDesired ∧
      ¬ Reached plainLib (step plainLib (after plainLib restarted)
        (.message (token 2 "new") asStored)) (token 2 "new").toDesired := by
  refine ⟨⟨rfl, rfl⟩, fun h => ?_⟩
  have hshows : (step plainLib (after plainLib restarted)
      (.message (token 2 "new") asStored)).shows "u".toList .secret "token".toList =
        some [("key".toList, "old".toList)] := rfl
  have hnew := h "u".toList (of_decide_eq_true rfl)
  exact absurd (hshows.symm.trans hnew) (of_decide_eq_true rfl)

end Edgelet.VolumeMount
