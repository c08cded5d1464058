import Edgelet.VolumeMount.Changes

/-!
# Where volume-mount processing reaches

Names, keys and identifiers are joined into paths without a check. What a mount touches is the whole
tree at the cleaned path of its name, the cleaned paths of its keys, and the trees at those of its
projections. Links of the tree lead to places in the tree, so a call reaches the place that its path
names.
-/

namespace Edgelet.VolumeMount

open Lexical Json Keyed FieldAgent Machine Event

/-! ## What may be touched -/

structure Target where
  name : Str
  vmType : VolumeMountType

def Mount.target (m : Mount) : Target := ⟨m.name, m.vmType⟩

def Desired.target (d : Desired) : Target := ⟨d.name, d.vmType⟩

section Ground

variable (b : Root) (index : Index) (wanted : Table Desired.uuid)

def deleted : List (Str × Mount) := index.rows.filter fun e => (wanted.get? e.1).isNone

def written : List Desired := wanted.rows.filter fun d => !index.skips d

def updated : List Desired := (written index wanted).filter fun d => (index.get? d.uuid).isSome

def targets : List Target :=
  (deleted index wanted).map (·.2.target) ++ (written index wanted).map (·.target)

def others : List Target :=
  (index.rows.filter fun e => (wanted.get? e.1).any index.skips).map (·.2.target)

def Below (p q : Str) : Prop := Contains p q ∧ absComponents p ≠ absComponents q

def Target.Proper (m : Target) : Prop :=
  Below (join [b.path, getTypeDirectory m.vmType]) (mountPath b m.vmType m.name)

/-- **What belongs to a mount**: its directory, and its projections below `microservices`. -/
inductive Target.Owns (m : Target) : Str → Prop
  | directory {p : Str} (hname : m.Proper b) (hp : Contains (mountPath b m.vmType m.name) p) :
      Owns m p
  | projection {p : Str} (hname : m.Proper b) (u : Str)
      (hu : Below (join [b.path, microservicesDir]) (getMountPath b u m.name m.vmType))
      (hp : Contains (getMountPath b u m.name m.vmType) p) : Owns m p

/-- **The places that the processing of a message may touch**: those of the mounts that it changes,
but nothing of the persistent volumes and of the other mounts, and nothing outside the volumes. -/
structure Ground (p : Str) : Prop where
  owned : ∃ m ∈ targets index wanted, m.Owns b p
  inside : Contains b.path p
  not_data : ¬ Contains (join [b.path, persistentDataDir]) p
  not_shared : ¬ Contains (join [b.path, persistentSharedDir]) p
  not_other : ∀ m ∈ others index wanted, ¬ Contains (mountPath b m.vmType m.name) p

end Ground

/-- The call touches only places of some kind. A directory may be made on the way to such a place;
removing a tree touches every place in it. -/
def Event.Within (safe : Str → Prop) : Event → Prop
  | .mkdirAll p => ∃ q, Contains p q ∧ safe q
  | .writeFile p _ | .chmod p | .chown p _ _ | .remove p | .symlink _ p => safe p
  | .removeAll p => ∀ q, Contains p q → safe q
  | .rename old new => safe old ∧ safe new

/-- **Confinement** of the calls that were made. -/
def Confined (b : Root) (index : Index) (wanted : Table Desired.uuid) (log : List Event) : Prop :=
  ∀ e ∈ log, e.Within (Ground b index wanted)

/-! ## The condition -/

def Tree (safe : Str → Prop) (p : Str) : Prop := ∀ q, Contains p q → safe q

def Lib.Decodes (lib : Lib) (data : Object ℚ) (key : Str) : Prop :=
  ∃ value content, (key, Value.str value) ∈ data ∧ lib.decodeBase64 value = some content

structure Consumer (index : Index) (wanted : Table Desired.uuid) (name u : Str) : Prop where
  recorded : ∃ e ∈ index, (wanted.get? e.1).isSome = true ∧ u ∈ e.2.microservices ∧
    (e.2.name = name ∨ ∃ d ∈ updated index wanted, d.uuid = e.1 ∧ d.name = name)

/-- **The condition**: the directories of the changed mounts, their keys and the projections of the
updated ones lie on free ground. -/
structure Tidy (lib : Lib) (b : Root) (index : Index) (wanted : Table Desired.uuid) : Prop where
  trees : ∀ m ∈ targets index wanted,
    Tree (Ground b index wanted) (mountPath b m.vmType m.name)
  keys : ∀ d ∈ written index wanted, ∀ key, lib.Decodes d.data key → ∀ version : Name,
    Ground b index wanted (join [join [mountPath b d.vmType d.name, version.1], key])
  projections : ∀ d ∈ updated index wanted, ∀ u, Consumer index wanted d.name u →
    Tree (Ground b index wanted) (getMountPath b u d.name d.vmType)

/-! ## Facts about places -/

section Places

variable {b : Root} {index : Index} {wanted : Table Desired.uuid} {safe : Str → Prop}
variable {p q : Str}

theorem contains_congr {r : Str} (h : absComponents p = absComponents q) :
    Contains r p ↔ Contains r q := by
  rw [Contains, Contains, h]

theorem Ground.congr (h : absComponents p = absComponents q) (hp : Ground b index wanted p) :
    Ground b index wanted q where
  owned := by
    obtain ⟨m, hm, hown⟩ := hp.owned
    refine ⟨m, hm, ?_⟩
    cases hown with
    | directory hname hc => exact .directory hname ((contains_congr h).mp hc)
    | projection hname u hu hc => exact .projection hname u hu ((contains_congr h).mp hc)
  inside := (contains_congr h).mp hp.inside
  not_data := fun hc => hp.not_data ((contains_congr h).mpr hc)
  not_shared := fun hc => hp.not_shared ((contains_congr h).mpr hc)
  not_other := fun m hm hc => hp.not_other m hm ((contains_congr h).mpr hc)

theorem Tree.root (h : Tree safe p) : safe p := h p (.refl p)

theorem Tree.relText (h : Tree safe p) (hp : isAbs p = true) (rel : List Name) :
    safe (join [p, relText rel]) := h _ (contains_join_relText hp rel)

theorem Tree.name (h : Tree safe p) (hp : isAbs p = true) {c : Str} (hc : Plain c) :
    safe (join [p, c]) := h _ (contains_join_name hp hc)

theorem Tree.sub (h : Tree safe p) (hq : Contains p q) : Tree safe q :=
  fun r hr => h r (hq.trans hr)

theorem tree_of_relText (hp : isAbs p = true)
    (h : ∀ rel : List Name, Ground b index wanted (join [p, Lexical.relText rel])) :
    Tree (Ground b index wanted) p := by
  intro q hq
  obtain ⟨rel, hrel⟩ := exists_relText_of_contains hp hq
  exact (h rel).congr hrel

theorem plain_dataSymlink : Plain dataSymlink := by decide

theorem plain_dataSymlink_tmp : Plain (dataSymlink ++ ".tmp".toList) := by decide

theorem tree_true (p : Str) : Tree (fun _ => True) p := fun _ _ => trivial

end Places

/-! ## What the calls on one mount touch -/

structure Answers (env : Env) (B : Bool → Prop) : Prop where
  ok : B true
  mkdirAll : ∀ t p, B (env.mkdirAll t p)
  writeFile : ∀ t p, B (env.writeFile t p)
  chmod : ∀ t p, B (env.chmod t p)
  symlink : ∀ t p, B (env.symlink t p)
  rename : ∀ t p, B (env.rename t p)
  remove : ∀ t p, env.remove t p = .error → B false
  readFile : ∀ t p, env.readFile t p = none → B false
  walk : ∀ t p, Visit.failed ∈ env.walk t p → B false

theorem answers_true (env : Env) : Answers env fun _ => True := by
  constructor <;> intros <;> trivial

section Emits

variable {env : Env} {lib : Lib} {B : Bool → Prop} {safe : Str → Prop} {p q : Str}

section

variable (h : Answers env B)

include h

theorem emits_mkdirAll (hq : Contains p q) (hsafe : safe q) :
    Emits (Within safe) (mkdirAll env p) B :=
  emits_ask (fun _ => ⟨q, hq, hsafe⟩) (h.mkdirAll · p)

theorem emits_writeFile {content : Str} (hsafe : safe p) :
    Emits (Within safe) (writeFile env p content) B :=
  emits_ask (fun _ => hsafe) (h.writeFile · p)

theorem emits_chmod (hsafe : safe p) : Emits (Within safe) (chmod env p) B :=
  emits_ask (fun _ => hsafe) (h.chmod · p)

theorem emits_remove (hsafe : safe p) :
    Emits (Within safe) (remove env p) fun r => r = .error → B false :=
  emits_ask (fun _ => hsafe) (h.remove · p)

end

theorem emits_removeAll (hsafe : Tree safe p) :
    Emits (Within safe) (removeAll env p) fun _ => True :=
  emits_ask (fun _ => hsafe) fun _ => trivial

section

variable (h : Answers env B)

include h

theorem emits_symlink {target : Str} (hsafe : safe p) :
    Emits (Within safe) (symlink env target p) B :=
  emits_ask (fun _ => hsafe) (h.symlink · p)

theorem emits_rename (hp : safe p) (hq : safe q) : Emits (Within safe) (rename env p q) B :=
  emits_ask (fun _ => ⟨hp, hq⟩) (h.rename · p)

theorem emits_copyVersionedDirRecursively {src dst : Str}
    (hdst : isAbs dst = true) (hsafe : Tree safe dst) :
    Emits (Within safe) (copyVersionedDirRecursively env src dst) B := by
  refine (emits_look (Q := fun visits => .failed ∈ visits → B false) (h.walk · src)).bind
    fun visits hvisits => .allM h.ok fun v hv => ?_
  have hfile : ∀ rel, Emits (Within safe) (copyEntry env src dst (.entry rel .other)) B := by
    intro rel
    refine (emits_look (Q := fun r => r = none → B false)
      (h.readFile · (join [src, relText rel]))).bind fun content hcontent => ?_
    cases content with
    | none => exact .pure (hcontent rfl)
    | some content =>
      exact (emits_mkdirAll h (contains_dir_join hdst) (hsafe.relText hdst rel)).ifOk id fun _ =>
        (emits_writeFile h (hsafe.relText hdst rel)).ifOk id fun _ =>
          emits_chmod h (hsafe.relText hdst rel)
  cases v with
  | failed => exact .pure (hvisits hv)
  | entry rel node =>
    cases node with
    | directory => exact emits_mkdirAll h (.refl _) (hsafe.relText hdst rel)
    | link | other => exact hfile rel

theorem emits_createKeySymlinksRecursively {versionedDir : Str}
    (hp : isAbs p = true) (hsafe : Tree safe p) :
    Emits (Within safe) (createKeySymlinksRecursively env p versionedDir) B := by
  refine (emits_look (Q := fun visits => .failed ∈ visits → B false)
    (h.walk · versionedDir)).bind fun visits hvisits => .allM h.ok fun v hv => ?_
  have hfile : ∀ rel, Emits (Within safe) (linkEntry env p (.entry rel .other)) B := by
    intro rel
    have hrel : safe (join [p, relText rel]) := hsafe.relText hp rel
    exact (emits_mkdirAll h (contains_dir_join hp) hrel).ifOk id fun _ =>
      (emits_remove h hrel).bind fun _ _ =>
        (emits_symlink h hrel).ifOk id fun _ => emits_chmod h hrel
  cases v with
  | failed => exact .pure (hvisits hv)
  | entry rel node =>
    cases node with
    | directory => exact .pure h.ok
    | link | other => exact hfile rel

end

theorem emits_removeObsoleteSymlinksRecursively {versionedDir : Str} (hp : isAbs p = true)
    (hsafe : Tree safe p) :
    Emits (Within safe) (removeObsoleteSymlinksRecursively env p versionedDir)
      fun _ => True := by
  have hremove : ∀ rel, Emits (Within safe) (remove env (join [p, relText rel]))
      fun _ => True := fun rel =>
    (emits_remove (answers_true env) (hsafe.relText hp rel)).imp (fun _ he => he) fun _ _ => trivial
  refine emits_look_bind fun visits => ?_
  refine (Emits.forM fun v _ => ?_).bind fun _ _ => Emits.forM fun d hd => ?_
  · cases v with
    | failed => exact .pure trivial
    | entry rel node =>
      cases node with
      | directory | other => exact .pure trivial
      | link =>
        refine .ite (fun _ => .pure trivial) fun _ => ?_
        exact emits_look_bind fun _ =>
          .ite (fun _ => (hremove rel).bind fun _ _ => .pure trivial) fun _ => .pure trivial
  · have hmem : d ∈ walkedDirectories p visits := (List.mem_insertionSort _).mp hd
    obtain ⟨v, -, hv⟩ := List.mem_filterMap.mp hmem
    obtain ⟨rel, rfl⟩ : ∃ rel, d = join [p, relText rel] := by
      split at hv
      · split at hv
        · cases hv
        · exact ⟨_, (Option.some.inj hv).symm⟩
      · cases hv
    refine emits_look_bind fun entries => ?_
    split
    · exact (hremove rel).bind fun _ _ => .pure trivial
    · exact .pure trivial

theorem emits_cleanupOldVersions (hp : isAbs p = true) (hsafe : Tree safe p) :
    Emits (Within safe) (cleanupOldVersions env p) fun _ => True := by
  refine emits_look_bind fun entries => ?_
  cases entries with
  | none => exact .pure trivial
  | some entries =>
    refine emits_look_bind fun sorted => .forM fun name _ => ?_
    exact (emits_removeAll (hsafe.sub (contains_join_name hp name.2))).bind fun _ _ => .pure trivial

section

variable (h : Answers env B) (hp : isAbs p = true)

include h hp

theorem emits_writeKey {e : Str × Value ℚ}
    (hkey : ∀ value content, e.2 = .str value → lib.decodeBase64 value = some content →
      safe (join [p, e.1])) : Emits (Within safe) (writeKey env lib p e) B := by
  obtain ⟨key, value⟩ := e
  cases value with
  | str value =>
    simp only [writeKey]
    cases hdecode : lib.decodeBase64 value with
    | none => exact .pure h.ok
    | some content =>
      have hsafe : safe (join [p, key]) := hkey value content rfl hdecode
      exact (emits_mkdirAll h (contains_dir_join hp) hsafe).ifOk id fun _ =>
        (emits_writeFile h hsafe).ifOk id fun _ =>
          (emits_chmod h hsafe).bind fun _ _ => .pure h.ok
  | _ => exact .pure h.ok

theorem emits_linkVersion {version : Name} {atomic : Bool} (hsafe : Tree safe p) :
    Emits (Within safe) (linkVersion env p version atomic) fun r => B r.isSome := by
  have hdata : safe (join [p, dataSymlink]) := hsafe.name hp plain_dataSymlink
  have htarget : safe (if atomic = true then join [p, dataSymlink ++ ".tmp".toList]
      else join [p, dataSymlink]) := by
    split
    · exact hsafe.name hp plain_dataSymlink_tmp
    · exact hdata
  have hpublish : Emits (Within safe) (publish env atomic
      (if atomic = true then join [p, dataSymlink ++ ".tmp".toList] else join [p, dataSymlink])
      (join [p, dataSymlink])) B :=
    .ite (fun _ => emits_rename h htarget hdata) fun _ => .pure h.ok
  refine (emits_remove h htarget).bind fun r hr => .ite (fun hrefused => .pure (hr hrefused))
    fun _ => ?_
  refine (emits_symlink h htarget).ifOk id fun _ => (emits_chmod h htarget).bind fun _ _ => ?_
  exact hpublish.ifOk id fun _ =>
    (emits_createKeySymlinksRecursively h hp hsafe).ifOk id fun _ => .pure h.ok

theorem emits_createMainStructureFromData {data : Object ℚ} {atomic : Bool} (hsafe : Tree safe p)
    (hkeys : ∀ key, lib.Decodes data key → ∀ version : Name,
      safe (join [join [p, version.1], key])) :
    Emits (Within safe) (createMainStructureFromData env lib p data atomic)
      fun r => B r.isSome := by
  refine (emits_mkdirAll h (.refl p) hsafe.root).ifOk id fun _ => emits_look_bind fun version => ?_
  have hversion : Contains p (join [p, version.1]) := contains_join_name hp version.2
  refine (emits_mkdirAll h (.refl _) (hsafe _ hversion)).ifOk id fun _ => ?_
  refine (emits_look (Q := fun entries => entries.Perm data) (env.keys.perm · data)).bind
    fun entries hperm => ?_
  have hentries : Emits (Within safe)
      (entries.allM (writeKey env lib (join [p, version.1]))) B :=
    .allM h.ok fun e he => emits_writeKey h (isAbs_join hp) fun value content hvalue hdecode =>
      hkeys e.1 ⟨value, content, hvalue ▸ hperm.mem_iff.mp he, hdecode⟩ version
  exact hentries.ifOk id fun _ => emits_linkVersion h hp hsafe

end

theorem emits_syncMicroservice {source : List Name} (hp : isAbs p = true) (hsafe : Tree safe p) :
    Emits (Within safe) (syncMicroservice env source p) fun _ => True := by
  have h := answers_true env
  have htarget : Tree safe (join [p, baseName source]) := by
    refine hsafe.sub ?_
    unfold baseName
    cases source.getLast? with
    | none =>
      rw [Contains, absComponents_join hp, Lexical.normalize, List.foldl_append]
      exact List.prefix_refl _
    | some c => exact contains_join_name hp c.2
  have hdata : safe (join [p, dataSymlink]) := hsafe.name hp plain_dataSymlink
  have htmp : safe (join [p, dataSymlink ++ ".tmp".toList]) := hsafe.name hp plain_dataSymlink_tmp
  refine emits_look_bind fun _ => .ite (fun _ => .pure trivial) fun _ => ?_
  have hcopy : Emits (Within safe)
      (copyIfAbsent env (render true (source.map (·.1))) (join [p, baseName source]))
      fun _ => True :=
    emits_look_bind fun _ => .ite
      (fun _ => emits_copyVersionedDirRecursively h (isAbs_join hp) htarget) fun _ => .pure trivial
  refine hcopy.ifOk (fun _ => trivial) fun _ => (emits_remove h htmp).bind fun _ _ => ?_
  refine (emits_symlink h htmp).ifOk (fun _ => trivial) fun _ =>
    (emits_chmod h htmp).bind fun _ _ => ?_
  refine (emits_rename h htmp hdata).ifOk (fun _ => trivial) fun _ => ?_
  exact (emits_createKeySymlinksRecursively h hp hsafe).bind fun _ _ =>
    (emits_removeObsoleteSymlinksRecursively hp hsafe).bind fun _ _ =>
      emits_cleanupOldVersions hp hsafe

end Emits

/-! ## What the changes touch -/

section Process

variable {env : Env} {lib : Lib} {b : Root} {B : Bool → Prop} {safe : Str → Prop}
variable {index : Index} {wanted : Table Desired.uuid} {vmm : Manager} {d : Desired}

theorem mount?_eq_some_iff {uuid : Str} {m : Mount} :
    index.mount? uuid = some m ↔ (uuid, m) ∈ index := by
  unfold Index.mount?
  rw [Option.map_eq_some_iff]
  constructor
  · rintro ⟨e, he, rfl⟩
    obtain ⟨hmem, rfl⟩ := Table.get?_eq_some_iff.mp he
    exact hmem
  · exact fun h => ⟨(uuid, m), Table.get?_eq_some_iff.mpr ⟨h, rfl⟩, rfl⟩

theorem emits_persist {Q : Index → Prop} (h : Q vmm.mountIndex) :
    Emits (Within safe) (persist env vmm) fun vmm' => Q vmm'.mountIndex :=
  emits_look_bind fun ok => .pure (by rwa [mountIndex_persistToStore])

theorem emits_syncMicroserviceSymlinksUnsafe {volumeName : Str} {vmType : VolumeMountType}
    (h : ∀ e ∈ index, e.2.name = volumeName → ∀ u ∈ e.2.microservices,
      Tree safe (getMountPath b u volumeName vmType)) :
    Emits (Within safe) (syncMicroserviceSymlinksUnsafe env b index volumeName vmType)
      fun _ => True := by
  refine (emits_look (Q := fun rows => rows.Perm index.rows) (env.mounts.perm · _)).bind
    fun rows hperm => ?_
  split
  · exact .pure trivial
  · rename_i e hfind
    have he : e ∈ index := hperm.mem_iff.mp (List.mem_of_find?_eq_some hfind)
    have hname : e.2.name = volumeName := by simpa using List.find?_some hfind
    refine .ite (fun _ => .pure trivial) fun _ => emits_look_bind fun source => ?_
    cases source with
    | none => exact .pure trivial
    | some source =>
      exact .forM fun u hu => emits_syncMicroservice (isAbs_getMountPath b u _ _)
        (h e he hname u hu)

structure Desired.Safe (lib : Lib) (b : Root) (safe : Str → Prop) (d : Desired) : Prop where
  tree : Tree safe (mountPath b d.vmType d.name)
  keys : ∀ key, lib.Decodes d.data key → ∀ version : Name,
    safe (join [join [mountPath b d.vmType d.name, version.1], key])

theorem emits_createVolumeMount (h : Answers env B) (hsafe : d.Safe lib b safe) :
    Emits (Within safe) (createVolumeMount env lib b vmm d) fun vmm' =>
      (B false ∧ vmm'.mountIndex = vmm.mountIndex) ∨
        vmm'.mountIndex = vmm.mountIndex.upsert (d.uuid, d.mount (lib.checksum d.data) []) := by
  refine (emits_createMainStructureFromData h (isAbs_mountPath b _ _) hsafe.tree
    hsafe.keys).bind fun version hversion => ?_
  cases version with
  | none => exact .pure (.inl ⟨hversion, rfl⟩)
  | some version =>
    exact (emits_persist (Q := (· = vmm.mountIndex.upsert (d.uuid, _))) rfl).imp (fun _ he => he)
      fun _ hvmm' => .inr hvmm'

theorem emits_updateVolumeMount (h : Answers env B) (hskip : vmm.mountIndex.skips d = false)
    (hsafe : d.Safe lib b safe)
    (hsync : ∀ e ∈ lib.updated vmm.mountIndex d, e.2.name = d.name → ∀ u ∈ e.2.microservices,
      Tree safe (getMountPath b u d.name d.vmType)) :
    Emits (Within safe) (updateVolumeMount env lib b vmm d) fun vmm' =>
      (B false ∧ vmm'.mountIndex = vmm.mountIndex) ∨
        vmm'.mountIndex = lib.updated vmm.mountIndex d := by
  have habs := isAbs_mountPath b d.vmType d.name
  unfold updateVolumeMount
  rw [if_neg (by simp [hskip])]
  refine (emits_createMainStructureFromData h habs hsafe.tree hsafe.keys).bind
    fun version hversion => ?_
  cases version with
  | none => exact .pure (.inl ⟨hversion, rfl⟩)
  | some version =>
    refine (emits_removeObsoleteSymlinksRecursively habs hsafe.tree).bind fun _ _ =>
      (emits_cleanupOldVersions habs hsafe.tree).bind fun _ _ => ?_
    refine (emits_persist (Q := (· = lib.updated vmm.mountIndex d)) rfl).bind fun vmm' hvmm' => ?_
    refine (emits_syncMicroserviceSymlinksUnsafe ?_).bind fun _ _ => .pure (.inr hvmm')
    rwa [hvmm']

theorem emits_deleteVolumeMount {uuid : Str}
    (hsafe : ∀ m, (uuid, m) ∈ vmm.mountIndex → Tree safe (mountPath b m.vmType m.name)) :
    Emits (Within safe) (deleteVolumeMount env b vmm uuid) fun vmm' =>
      vmm'.mountIndex = vmm.mountIndex.deleteWhere (·.1 == uuid) := by
  unfold deleteVolumeMount
  cases hget : vmm.mountIndex.mount? uuid with
  | none =>
    refine .pure ?_
    have hrows : vmm.mountIndex.rows.filter (fun e => !(e.1 == uuid)) = vmm.mountIndex.rows := by
      refine List.filter_eq_self.mpr fun e he => ?_
      rw [Bool.not_eq_true', beq_eq_false_iff_ne]
      rintro rfl
      rw [mount?_eq_some_iff.mpr he] at hget
      cases hget
    simp only [Table.deleteWhere, hrows]
  | some m =>
    have hremove : Emits (Within safe) (removeIfThere env (mountPath b m.vmType m.name))
        fun _ => True :=
      emits_look_bind fun _ => .ite
        (fun _ => (emits_removeAll (hsafe m (mount?_eq_some_iff.mp hget))).bind fun _ _ =>
          .pure trivial) fun _ => .pure trivial
    exact hremove.bind fun _ _ =>
      emits_persist (Q := (· = vmm.mountIndex.deleteWhere (·.1 == uuid))) rfl

end Process

/-! ## Tidy messages are confined -/

section Sufficient

variable {env : Env} {lib : Lib} {b : Root} {safe : Str → Prop}
variable {index index' : Index} {wanted : Table Desired.uuid} {vmm : Manager} {d : Desired}

def Remaining (index : Index) (wanted : Table Desired.uuid) (index' : Index) : Prop :=
  ∀ e : Str × Mount, e ∈ index' ↔ e ∈ index ∧ (wanted.get? e.1).isSome = true

theorem emits_deletes {uuids : List Str}
    (huuids : ∀ uuid, uuid ∈ uuids ↔ uuid ∈ vmm.mountIndex.rows.map (·.1))
    (hsafe : ∀ e ∈ deleted vmm.mountIndex wanted, Tree safe (mountPath b e.2.vmType e.2.name)) :
    Emits (Within safe)
      ((uuids.filter fun uuid => (wanted.get? uuid).isNone).foldlM (deleteVolumeMount env b) vmm)
      fun vmm' => Remaining vmm.mountIndex wanted vmm'.mountIndex := by
  refine Emits.imp (Emits.foldlM (I := fun done vmm' => ∀ e : Str × Mount,
    e ∈ vmm'.mountIndex ↔ e ∈ vmm.mountIndex ∧ e.1 ∉ done) ?_ (by simp)) (fun _ he => he) ?_
  · intro done uuid rest vmm' has hinv
    have hmem : uuid ∈ uuids.filter fun uuid => (wanted.get? uuid).isNone :=
      has ▸ List.mem_append_right done List.mem_cons_self
    have huuid : (wanted.get? uuid).isNone = true := (List.mem_filter.mp hmem).2
    refine (emits_deleteVolumeMount fun m hm => ?_).imp (fun _ he => he) fun vmm'' hvmm'' e => ?_
    · exact hsafe (uuid, m) (List.mem_filter.mpr ⟨((hinv _).mp hm).1, huuid⟩)
    · rw [hvmm'', Table.mem_deleteWhere, hinv e, List.mem_append, List.mem_singleton,
        beq_eq_false_iff_ne, not_or, and_assoc]
  · intro vmm' hvmm' e
    rw [hvmm' e, List.mem_filter, huuids]
    refine and_congr_right fun he => ?_
    have hmem : e.1 ∈ vmm.mountIndex.rows.map (·.1) := List.mem_map_of_mem he
    rw [not_and, Option.isSome_iff_ne_none]
    exact ⟨fun h => mt Option.isNone_iff_eq_none.mpr (h hmem),
      fun h _ => mt Option.isNone_iff_eq_none.mp h⟩

/-- **Between two changes**: the mounts that were not gone through are as they were, and the
microservices of every mount are recorded with a mount of its name. -/
structure Midway (index : Index) (wanted : Table Desired.uuid) (done : List Desired)
    (index' : Index) : Prop where
  kept : ∀ e : Str × Mount, (∀ d ∈ done, d.uuid ≠ e.1) →
    (e ∈ index' ↔ e ∈ index ∧ (wanted.get? e.1).isSome = true)
  known : ∀ e ∈ index', ∀ u ∈ e.2.microservices, Consumer index wanted e.2.name u

theorem Remaining.midway (h : Remaining index wanted index') : Midway index wanted [] index' where
  kept e _ := h e
  known e he _ hu := ⟨e, ((h e).mp he).1, ((h e).mp he).2, hu, .inl rfl⟩

variable {done : List Desired}

section

variable (h : Midway index wanted done index')

include h

section

variable (hd : d ∈ wanted) (hdone : ∀ d' ∈ done, d'.uuid ≠ d.uuid)

include hd hdone

theorem Midway.mount? : index'.mount? d.uuid = index.mount? d.uuid := by
  have hsome : (wanted.get? d.uuid).isSome = true :=
    Option.isSome_iff_exists.mpr ⟨d, Table.get?_eq_some_iff.mpr ⟨hd, rfl⟩⟩
  apply Option.ext
  intro m
  rw [mount?_eq_some_iff, mount?_eq_some_iff, h.kept (d.uuid, m) hdone]
  exact and_iff_left hsome

theorem Midway.skips : index'.skips d = index.skips d := by
  rw [Index.skips, Index.skips, h.mount? hd hdone]

end

theorem Midway.skip : Midway index wanted (done ++ [d]) index' where
  kept e he := h.kept e fun d' hd' => he d' (List.mem_append_left _ hd')
  known := h.known

theorem Midway.upsert {m : Mount} (hm : ∀ u ∈ m.microservices, Consumer index wanted m.name u) :
    Midway index wanted (done ++ [d]) (index'.upsert (d.uuid, m)) where
  kept e he := by
    have hne : e.1 ≠ d.uuid := fun heq => he d (by simp) heq.symm
    rw [Table.mem_upsert, h.kept e fun d' hd' => he d' (List.mem_append_left _ hd')]
    constructor
    · rintro (rfl | ⟨hkept, -⟩)
      · exact absurd rfl hne
      · exact hkept
    · exact fun hkept => .inr ⟨hkept, hne⟩
  known e he := by
    rcases Table.mem_upsert.mp he with rfl | ⟨he, -⟩
    · exact hm
    · exact h.known e he

theorem Midway.consumer
    (hd : d ∈ updated index wanted) (hdone : ∀ d' ∈ done, d'.uuid ≠ d.uuid) {u : Str}
    (hu : u ∈ ((index'.mount? d.uuid).map (·.microservices)).getD []) :
    Consumer index wanted d.name u := by
  have hwanted : d ∈ wanted := (List.mem_filter.mp (List.mem_filter.mp hd).1).1
  rw [h.mount? hwanted hdone] at hu
  cases hget : index.mount? d.uuid with
  | none =>
    rw [hget] at hu
    cases hu
  | some m =>
    rw [hget] at hu
    exact ⟨(d.uuid, m), mount?_eq_some_iff.mp hget,
      Option.isSome_iff_exists.mpr ⟨d, Table.get?_eq_some_iff.mpr ⟨hwanted, rfl⟩⟩, hu,
      .inr ⟨d, hd, rfl, rfl⟩⟩

end

theorem Tidy.desired (h : Tidy lib b index wanted) (hd : d ∈ written index wanted) :
    d.Safe lib b (Ground b index wanted) where
  tree := h.trees d.target (List.mem_append_right _ (List.mem_map_of_mem hd))
  keys := h.keys d hd

theorem Tidy.emits_processVolumeMount (h : Tidy lib b index wanted)
    (hmid : Midway index wanted done vmm.mountIndex) (hd : d ∈ wanted)
    (hdone : ∀ d' ∈ done, d'.uuid ≠ d.uuid) :
    Emits (Within (Ground b index wanted))
      (processVolumeMount env lib b (index.rows.map (·.1)) vmm d)
      fun vmm' => Midway index wanted (done ++ [d]) vmm'.mountIndex := by
  have hanswers := answers_true env
  refine .ite (fun hexists => ?_) fun hnew => ?_
  · have hsome : (index.get? d.uuid).isSome = true := by
      obtain ⟨e, he, huuid⟩ := List.mem_map.mp (List.contains_iff_mem.mp hexists)
      exact Option.isSome_iff_exists.mpr ⟨e, Table.get?_eq_some_iff.mpr ⟨he, huuid⟩⟩
    cases hskip : vmm.mountIndex.skips d with
    | true =>
      rw [updateVolumeMount, if_pos hskip]
      exact .pure hmid.skip
    | false =>
      have hwritten : d ∈ written index wanted :=
        List.mem_filter.mpr ⟨hd, by rw [← hmid.skips hd hdone, hskip]; rfl⟩
      have hupdated : d ∈ updated index wanted := List.mem_filter.mpr ⟨hwritten, hsome⟩
      have hnext : Midway index wanted (done ++ [d]) (lib.updated vmm.mountIndex d) :=
        hmid.upsert fun u hu => hmid.consumer hupdated hdone hu
      refine (emits_updateVolumeMount hanswers hskip (h.desired hwritten) ?_).imp
        (fun _ he => he) fun vmm' hvmm' => ?_
      · intro e he hname u hu
        exact h.projections d hupdated u (hname ▸ hnext.known e he u hu)
      · rcases hvmm' with ⟨-, heq⟩ | heq
        · exact heq ▸ hmid.skip
        · exact heq ▸ hnext
  · have hwritten : d ∈ written index wanted := by
      refine List.mem_filter.mpr ⟨hd, ?_⟩
      have hnone : index.mount? d.uuid = none := by
        refine Option.eq_none_iff_forall_ne_some.mpr fun m hm => hnew ?_
        exact List.contains_iff_mem.mpr (List.mem_map_of_mem (mount?_eq_some_iff.mp hm))
      rw [Index.skips, hnone]
      rfl
    refine (emits_createVolumeMount hanswers (h.desired hwritten)).imp (fun _ he => he)
      fun vmm' hvmm' => ?_
    rcases hvmm' with ⟨-, heq⟩ | heq
    · exact heq ▸ hmid.skip
    · exact heq ▸ hmid.upsert fun u hu => nomatch hu

/-- **A tidy message is confined**, whatever the calls answer. -/
theorem Tidy.confined {volumeMounts : List (Value ℚ)}
    (h : Tidy lib b vmm.mountIndex (volumeMountMap volumeMounts)) (env : Env) :
    Confined b vmm.mountIndex (volumeMountMap volumeMounts)
      (processVolumeMountChanges env lib b vmm volumeMounts []).2 := by
  set wanted := volumeMountMap volumeMounts with hwanted
  refine Emits.log (Q := fun _ => True) ?_
  refine (emits_look (Q := fun uuids => uuids.Perm (vmm.mountIndex.rows.map (·.1)))
    (env.uuids.perm · _)).bind fun uuids huuids => ?_
  refine (emits_deletes (fun uuid => huuids.mem_iff) fun e he => h.trees e.2.target
    (List.mem_append_left _ (List.mem_map_of_mem he))).bind fun vmm₁ hremaining => ?_
  refine (emits_look (Q := fun changes => changes.Perm wanted.rows)
    (env.changes.perm · _)).bind fun changes hchanges => ?_
  have hnodup : (changes.map Desired.uuid).Nodup :=
    (hchanges.map Desired.uuid).nodup_iff.mpr wanted.nodup
  refine (Emits.foldlM (I := fun done vmm' => Midway vmm.mountIndex wanted done vmm'.mountIndex)
    (fun done d rest vmm' has hmid => ?_) hremaining.midway).bind fun vmm₂ _ => ?_
  · refine h.emits_processVolumeMount hmid (hchanges.mem_iff.mp (has ▸ by simp)) fun d' hd' => ?_
    rw [has, List.map_append, List.map_cons] at hnodup
    exact fun heq => (List.disjoint_of_nodup_append hnodup) (List.mem_map_of_mem hd')
      (heq ▸ List.mem_cons_self)
  · exact emits_look_bind fun rows => (emits_persist (Q := fun _ => True) trivial)

end Sufficient

end Edgelet.VolumeMount
