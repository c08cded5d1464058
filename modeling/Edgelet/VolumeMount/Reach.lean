import Edgelet.VolumeMount.Confinement

/-!
# What an untidy message reaches

A file system in which every call succeeds carries out whatever a message asks for. There the
processing gets to every place that the confinement speaks of, in some order of the changes. So its
condition is also necessary.
-/

namespace Edgelet.VolumeMount

open Lexical Json Keyed FieldAgent Machine

/-! ## A willing file system -/

structure Willing (env : Env) (version : Name) (rel : List Name) : Prop
    extends Answers env (· = true) where
  stat_eq : ∀ t p, env.stat t p = .there
  walk_eq : ∀ t p, env.walk t p = [.entry rel .link]
  evalSymlinks_eq : ∀ t p, env.evalSymlinks t p = some []
  version_eq : ∀ t, env.createVersionedDirectoryName t = version

section Necessary

variable {env : Env} {lib : Lib} {b : Root} {version : Name} {rel : List Name}
variable {index index' : Index} {wanted : Table Desired.uuid} {vmm : Manager} {d : Desired}
variable {p : Str} {ev : Event}

theorem emits_anywhere {α : Type} {x : Logged Event α} {Q : α → Prop}
    (h : Emits (Event.Within fun _ => True) x Q) : Emits (fun _ => True) x Q :=
  h.imp (fun _ _ => trivial) fun _ ha => ha

theorem desired_anywhere (lib : Lib) (b : Root) (d : Desired) : d.Safe lib b fun _ => True :=
  ⟨tree_true _, fun _ _ _ => trivial⟩

section

variable (h : Willing env version rel)

include h

theorem Willing.mkdirs (p : Str) : Emits (fun _ => True) (VolumeMount.mkdirAll env p) (· = true) :=
  emits_ask (fun _ => trivial) (h.mkdirAll · p)

theorem Willing.links (target p : Str) :
    Emits (fun _ => True) (VolumeMount.symlink env target p) (· = true) :=
  emits_ask (fun _ => trivial) (h.symlink · p)

theorem Willing.removes (p : Str) : Emits (fun _ => True) (VolumeMount.remove env p) (· ≠ .error) :=
  emits_ask (fun _ => trivial) fun t he => nomatch h.remove t p he

end

theorem grows_chmod : Grows (chmod env p) := emits_ask (fun _ => trivial) fun _ => trivial

section

variable (h : Willing env version rel)

include h

theorem Willing.hits_createKeySymlinksRecursively {versionedDir : Str} :
    Hits (.symlink (buildRelativeDataTarget (relText rel)) (join [p, relText rel]))
      (createKeySymlinksRecursively env p versionedDir) := by
  refine .bind_right (emits_look (Q := (· = [Visit.entry rel .link])) (h.walk_eq · _))
    fun visits hvisits => ?_
  subst hvisits
  have hhit : Hits (.symlink (buildRelativeDataTarget (relText rel)) (join [p, relText rel]))
      (linkEntry env p (.entry rel .link)) :=
    .ifOk_right (h.mkdirs _) <| .bind_right (h.removes _) fun _ _ =>
      .ifOk_left (hits_ask fun _ => rfl) grows_chmod
  refine hhit.bind_left fun ok => ?_
  cases ok with
  | true | false => exact .pure trivial

theorem Willing.hits_linkVersion {atomic : Bool} {v : Name} :
    Hits (.symlink (buildRelativeDataTarget (relText rel)) (join [p, relText rel]))
      (linkVersion env p v atomic) := by
  refine .bind_right (h.removes _) fun r hr => .ite_neg hr ?_
  refine .ifOk_right (h.links _ _) <| .bind_right grows_chmod fun _ _ => ?_
  refine .ifOk_right ?_ <| .ifOk_left h.hits_createKeySymlinksRecursively (.pure trivial)
  exact .ite (fun _ => emits_ask (fun _ => trivial) (h.rename · _)) fun _ => .pure rfl

theorem Willing.hits_createMainStructureFromData {data : Object ℚ}
    {atomic : Bool} (hp : isAbs p = true)
    (hhit : (∃ key value content, (key, Value.str value) ∈ data ∧
        lib.decodeBase64 value = some content ∧
        ev = .writeFile (join [join [p, version.1], key]) content) ∨
      ev = .symlink (buildRelativeDataTarget (relText rel)) (join [p, relText rel])) :
    Hits ev (createMainStructureFromData env lib p data atomic) := by
  refine .ifOk_right (h.mkdirs _) <| .bind_right (emits_look (Q := (· = version)) h.version_eq)
    fun v hv => .ifOk_right (h.mkdirs _) ?_
  subst hv
  refine .bind_right (emits_look (Q := fun entries => entries.Perm data) (env.keys.perm · data))
    fun entries hperm => ?_
  have hkeys : ∀ e ∈ entries, Emits (Event.Within fun _ => True)
      (writeKey env lib (join [p, v.1]) e) (· = true) :=
    fun e _ => emits_writeKey h.toAnswers (isAbs_join hp) fun _ _ _ _ => trivial
  rcases hhit with ⟨key, value, content, hmem, hdecode, rfl⟩ | rfl
  · refine .ifOk_left (.allM (hperm.mem_iff.mpr hmem)
      (fun e he => emits_anywhere (hkeys e he)) ?_) ?_
    · simp only [writeKey, hdecode]
      exact .ifOk_right (h.mkdirs _) <| .ifOk_left (hits_ask fun _ => rfl) <|
        Emits.bind (R := fun _ => True) grows_chmod fun _ _ => .pure trivial
    · exact (emits_linkVersion h.toAnswers hp (tree_true _)).grows
  · exact .ifOk_right (emits_anywhere (.allM rfl hkeys)) h.hits_linkVersion

theorem Willing.hits_syncMicroservice {source : List Name} (hp : isAbs p = true) :
    Hits (.symlink (buildRelativeDataTarget (relText rel)) (join [p, relText rel]))
      (syncMicroservice env source p) := by
  have hthere : ∀ q, Emits (ε := Event) (fun _ => True) (look (env.stat · q)) (· ≠ .absent) :=
    fun q => emits_look fun t => by rw [h.stat_eq]; exact nofun
  have hcopy : Emits (fun _ => True) (copyIfAbsent env (render true (source.map (·.1)))
      (join [p, baseName source])) (· = true) :=
    (hthere _).bind fun r hr => .ite (fun habsent => absurd habsent hr) fun _ => .pure rfl
  refine .bind_right (hthere p) fun r hr => .ite_neg hr <| .ifOk_right hcopy ?_
  refine .bind_right (h.removes _) fun _ _ => .ifOk_right (h.links _ _) ?_
  refine .bind_right grows_chmod fun _ _ => .ifOk_right ?_ ?_
  · exact emits_ask (fun _ => trivial) (h.rename · _)
  · refine h.hits_createKeySymlinksRecursively.bind_left fun _ => ?_
    exact ((emits_removeObsoleteSymlinksRecursively hp (tree_true p)).bind fun _ _ =>
      emits_cleanupOldVersions hp (tree_true p)).grows

theorem Willing.hits_syncMicroserviceSymlinksUnsafe
    {volumeName u : Str} {vmType : VolumeMountType} {e : Str × Mount}
    (hfirst : ∀ t, ∃ rest, env.mounts.order t index.rows = e :: rest)
    (hname : e.2.name = volumeName) (hu : u ∈ e.2.microservices) :
    Hits (.symlink (buildRelativeDataTarget (relText rel))
        (join [getMountPath b u volumeName vmType, relText rel]))
      (syncMicroserviceSymlinksUnsafe env b index volumeName vmType) := by
  refine .bind_right (emits_look (Q := fun rows => ∃ rest, rows = e :: rest) hfirst)
    fun rows hrows => ?_
  obtain ⟨rest, rfl⟩ := hrows
  rw [List.find?_cons_of_pos (by simpa using hname)]
  refine .ite_neg (List.ne_nil_of_mem hu) ?_
  refine .bind_right (emits_look (Q := (· = some [])) (h.evalSymlinks_eq · _))
    fun place hplace => ?_
  subst hplace
  refine .forM hu (fun u' _ => ?_) (h.hits_syncMicroservice (isAbs_getMountPath b u _ _))
  exact (emits_syncMicroservice (isAbs_getMountPath b u' _ _) (tree_true _)).grows

theorem Willing.emits_updateVolumeMount (hskip : vmm.mountIndex.skips d = false) :
    Emits (fun _ => True) (updateVolumeMount env lib b vmm d)
      fun vmm' => vmm'.mountIndex = lib.updated vmm.mountIndex d := by
  refine (VolumeMount.emits_updateVolumeMount h.toAnswers hskip (desired_anywhere lib b d)
    fun _ _ _ _ _ => tree_true _).imp (fun _ _ => trivial) fun vmm' hvmm' => ?_
  rcases hvmm' with ⟨hfalse, -⟩ | heq
  · cases hfalse
  · exact heq

end

theorem grows_persist : Grows (persist env vmm) :=
  emits_look_bind fun _ => .pure trivial

theorem grows_syncMicroserviceSymlinksUnsafe {volumeName : Str} {vmType : VolumeMountType} :
    Grows (syncMicroserviceSymlinksUnsafe env b index volumeName vmType) :=
  (emits_syncMicroserviceSymlinksUnsafe fun _ _ _ _ _ => tree_true _).grows

theorem hits_unpack_updateVolumeMount (hskip : vmm.mountIndex.skips d = false)
    (hhit : Hits ev (createMainStructureFromData env lib (mountPath b d.vmType d.name) d.data
      true)) : Hits ev (updateVolumeMount env lib b vmm d) := by
  have habs := isAbs_mountPath b d.vmType d.name
  refine .ite_neg (by simp [hskip]) (hhit.bind_left fun r => ?_)
  cases r with
  | none => exact .pure trivial
  | some v =>
    refine (emits_removeObsoleteSymlinksRecursively habs (tree_true _)).grows.bind fun _ _ =>
      (emits_cleanupOldVersions habs (tree_true _)).grows.bind fun _ _ => ?_
    exact grows_persist.bind fun _ _ => grows_syncMicroserviceSymlinksUnsafe.bind fun _ _ =>
      .pure trivial

theorem Willing.hits_sync_updateVolumeMount (h : Willing env version rel)
    (hskip : vmm.mountIndex.skips d = false)
    (hhit : Hits ev (syncMicroserviceSymlinksUnsafe env b (lib.updated vmm.mountIndex d) d.name
      d.vmType)) : Hits ev (updateVolumeMount env lib b vmm d) := by
  have habs := isAbs_mountPath b d.vmType d.name
  have hunpack : Emits (fun _ => True)
      (createMainStructureFromData env lib (mountPath b d.vmType d.name) d.data true)
      fun r => r.isSome = true :=
    emits_anywhere (emits_createMainStructureFromData h.toAnswers habs (tree_true _)
      fun _ _ _ => trivial)
  refine .ite_neg (by simp [hskip]) (.bind_right hunpack fun r hr => ?_)
  obtain ⟨v, rfl⟩ := Option.isSome_iff_exists.mp hr
  refine .bind_right (emits_removeObsoleteSymlinksRecursively habs (tree_true _)).grows
    fun _ _ => .bind_right (emits_cleanupOldVersions habs (tree_true _)).grows fun _ _ => ?_
  refine .bind_right (emits_anywhere (emits_persist (Q := (· = lib.updated vmm.mountIndex d)) rfl))
    fun vmm' hvmm' => Hits.bind_left ?_ fun _ => .pure trivial
  rwa [hvmm']

theorem hits_createVolumeMount
    (hhit : Hits ev (createMainStructureFromData env lib (mountPath b d.vmType d.name) d.data
      false)) : Hits ev (createVolumeMount env lib b vmm d) := by
  refine hhit.bind_left fun r => ?_
  cases r with
  | none => exact .pure trivial
  | some v => exact grows_persist

theorem grows_processVolumeMount {existingUuids : List Str} :
    Grows (processVolumeMount env lib b existingUuids vmm d) := by
  have h := answers_true env
  have hd := desired_anywhere lib b d
  refine .ite (fun _ => ?_) fun _ => (emits_createVolumeMount h hd).grows
  cases hskip : vmm.mountIndex.skips d with
  | true =>
    rw [updateVolumeMount, if_pos hskip]
    exact .pure trivial
  | false => exact (emits_updateVolumeMount h hskip hd fun _ _ _ _ _ => tree_true _).grows

theorem grows_processAll {existingUuids : List Str} {changes : List Desired} :
    Grows (changes.foldlM (processVolumeMount env lib b existingUuids) vmm) :=
  Emits.foldlM (I := fun _ _ => True) (fun _ _ _ _ _ _ => grows_processVolumeMount) trivial

theorem hits_changes {volumeMounts : List (Value ℚ)} {S : List Desired → Prop}
    (horder : ∀ t, S (env.changes.order t (volumeMountMap volumeMounts).rows))
    (hhit : ∀ vmm₁ changes,
      Remaining vmm.mountIndex (volumeMountMap volumeMounts) vmm₁.mountIndex → S changes →
      Hits ev (changes.foldlM
        (processVolumeMount env lib b (vmm.mountIndex.rows.map (·.1))) vmm₁)) :
    Hits ev (processVolumeMountChanges env lib b vmm volumeMounts) := by
  refine .bind_right (emits_look (Q := fun uuids => uuids.Perm (vmm.mountIndex.rows.map (·.1)))
    (env.uuids.perm · _)) fun uuids huuids => ?_
  refine .bind_right (emits_anywhere (emits_deletes (fun uuid => huuids.mem_iff)
    fun _ _ => tree_true _)) fun vmm₁ hremaining => ?_
  refine .bind_right (emits_look (Q := S) horder) fun changes hchanges => ?_
  exact (hhit vmm₁ changes hremaining hchanges).bind_left fun vmm₂ =>
    emits_look_bind fun rows => grows_persist

theorem hits_deletes {volumeMounts : List (Value ℚ)} {e : Str × Mount}
    (he : e ∈ deleted vmm.mountIndex (volumeMountMap volumeMounts))
    (hstat : ∀ t p, env.stat t p = .there)
    (hfirst : ∀ t, ∃ rest, env.uuids.order t (vmm.mountIndex.rows.map (·.1)) = e.1 :: rest) :
    Hits (.removeAll (mountPath b e.2.vmType e.2.name))
      (processVolumeMountChanges env lib b vmm volumeMounts) := by
  obtain ⟨hmem, hnone⟩ := List.mem_filter.mp he
  refine .bind_right (emits_look (Q := fun uuids => ∃ rest, uuids = e.1 :: rest) hfirst)
    fun uuids huuids => ?_
  obtain ⟨rest, rfl⟩ := huuids
  have hfilter : (e.1 :: rest).filter (fun uuid =>
      ((volumeMountMap volumeMounts).get? uuid).isNone) = e.1 :: rest.filter (fun uuid =>
      ((volumeMountMap volumeMounts).get? uuid).isNone) := by
    rw [List.filter_cons, if_pos hnone]
  have hdelete : Hits (.removeAll (mountPath b e.2.vmType e.2.name))
      (deleteVolumeMount env b vmm e.1) := by
    rw [deleteVolumeMount, mount?_eq_some_iff.mpr hmem]
    refine Hits.bind_left ?_ fun _ => grows_persist
    refine .bind_right (emits_look (Q := (· = .there)) (hstat · _)) fun r hr => .ite_pos hr ?_
    exact (hits_ask fun _ => rfl).bind_left fun _ => .pure trivial
  have hrest : ∀ vmm₁ : Manager, Grows ((rest.filter fun uuid =>
      ((volumeMountMap volumeMounts).get? uuid).isNone).foldlM (deleteVolumeMount env b) vmm₁) :=
    fun vmm₁ => Emits.foldlM (I := fun _ _ => True) (fun _ _ _ _ _ _ =>
      (emits_deleteVolumeMount fun _ _ => tree_true _).grows) trivial
  rw [hfilter, List.foldlM_cons]
  refine (hdelete.bind_left hrest).bind_left fun vmm₁ => emits_look_bind fun changes => ?_
  exact grows_processAll.bind fun _ _ => emits_look_bind fun rows => grows_persist

end Necessary

/-! ## The condition is necessary -/

def Listing.front {α : Type} (p q : α → Bool) : Listing α where
  order _ l := l.filter p ++ ((l.filter (!p ·)).filter q ++ (l.filter (!p ·)).filter (!q ·))
  perm _ l := ((List.filter_append_perm q _).append_left _).trans (List.filter_append_perm p l)

theorem exists_order_front {α : Type} {p q : α → Bool} {l : List α} {x : α}
    (hx : l.filter p = [x]) (t : ℕ) : ∃ rest, (Listing.front p q).order t l = x :: rest :=
  ⟨_, by simp only [Listing.front, hx, List.singleton_append]; rfl⟩

theorem exists_order_front_front {α : Type} {p q : α → Bool} {l : List α} {x y : α}
    (hx : l.filter p = [x]) (hy : l.filter q = [y]) (hpy : p y = false) (t : ℕ) :
    ∃ rest, (Listing.front p q).order t l = x :: y :: rest := by
  have hsecond : (l.filter (!p ·)).filter q = [y] := by
    rw [List.filter_comm, hy, List.filter_cons_of_pos (by simp [hpy]), List.filter_nil]
  exact ⟨_, by simp only [Listing.front, hx, hsecond, List.singleton_append]; rfl⟩

variable (version : Name) (rel : List Name) (uuid first second mount : Str)

def willing : Env where
  mkdirAll _ _ := true
  writeFile _ _ := true
  chmod _ _ := true
  remove _ _ := .there
  removeAll _ _ := true
  symlink _ _ := true
  rename _ _ := true
  stat _ _ := .there
  lstat _ _ := .there
  readlink _ _ := none
  readFile _ _ := some []
  readDir _ _ := none
  walk _ _ := [.entry rel .link]
  evalSymlinks _ _ := some []
  createVersionedDirectoryName _ := version
  replaceAll _ := true
  uuids := .front (fun u => u = uuid) fun _ => true
  changes := .front (fun d => d.uuid = first) fun d => d.uuid = second
  keys := .front (fun _ => true) fun _ => true
  mounts := .front (fun e => e.1 = mount) fun _ => true
  byModTime := .front (fun _ => true) fun _ => true

theorem willing_willing : Willing (willing version rel uuid first second mount) version rel where
  ok := rfl
  mkdirAll _ _ := rfl
  writeFile _ _ := rfl
  chmod _ _ := rfl
  symlink _ _ := rfl
  rename _ _ := rfl
  remove _ _ h := nomatch h
  readFile _ _ h := nomatch h
  walk _ _ h := nomatch List.mem_singleton.mp h
  stat_eq _ _ := rfl
  walk_eq _ _ := rfl
  evalSymlinks_eq _ _ := rfl
  version_eq _ := rfl

section Converse

variable {lib : Lib} {b : Root} {vmm vmm₁ : Manager} {volumeMounts : List (Value ℚ)}
variable {index : Index} {wanted : Table Desired.uuid} {d : Desired} {ev : Event} {env : Env}

theorem hits_unpack_processVolumeMount (hd : d ∈ written index wanted)
    (hremaining : Remaining index wanted vmm₁.mountIndex)
    (hhit : ∀ atomic, Hits ev
      (createMainStructureFromData env lib (mountPath b d.vmType d.name) d.data atomic)) :
    Hits ev (processVolumeMount env lib b (index.rows.map (·.1)) vmm₁ d) := by
  obtain ⟨hwanted, hskip⟩ := List.mem_filter.mp hd
  have hskip₁ : vmm₁.mountIndex.skips d = false := by
    rw [hremaining.midway.skips hwanted fun d' hd' => nomatch hd']
    simpa using hskip
  by_cases hexists : (index.rows.map (·.1)).contains d.uuid = true
  · exact .ite_pos hexists (hits_unpack_updateVolumeMount hskip₁ (hhit true))
  · exact .ite_neg hexists (hits_createVolumeMount (hhit false))

/-- A change that comes first. -/
theorem hits_first {version : Name} {rel : List Name} {listed : Str}
    (hwanted : d ∈ volumeMountMap volumeMounts)
    (hhit : ∀ vmm₁ : Manager,
      Remaining vmm.mountIndex (volumeMountMap volumeMounts) vmm₁.mountIndex →
      Hits ev (processVolumeMount (willing version rel [] d.uuid [] listed) lib b
        (vmm.mountIndex.rows.map (·.1)) vmm₁ d)) :
    Hits ev (processVolumeMountChanges (willing version rel [] d.uuid [] listed) lib b vmm
      volumeMounts) := by
  refine hits_changes (S := fun changes => ∃ rest, changes = d :: rest)
    (fun t => exists_order_front (Table.filter_key_eq (List.Perm.refl _) hwanted) t) ?_
  rintro vmm₁ changes hremaining ⟨rest, rfl⟩
  rw [List.foldlM_cons]
  exact (hhit vmm₁ hremaining).bind_left fun _ => grows_processAll

theorem hits_of_written {version : Name} {rel : List Name}
    (hd : d ∈ written vmm.mountIndex (volumeMountMap volumeMounts))
    (hhit : ∀ atomic, Hits ev (createMainStructureFromData (willing version rel [] d.uuid [] []) lib
      (mountPath b d.vmType d.name) d.data atomic)) :
    Hits ev (processVolumeMountChanges (willing version rel [] d.uuid [] []) lib b vmm
      volumeMounts) :=
  hits_first (List.mem_filter.mp hd).1 fun _ hremaining =>
    hits_unpack_processVolumeMount hd hremaining hhit

theorem mem_updated_of_ne {e : Str × Mount} (he : e ∈ index) (hne : e.1 ≠ d.uuid) :
    e ∈ lib.updated index d := Table.mem_upsert.mpr (.inr ⟨he, hne⟩)

theorem hits_of_updated {version : Name} {rel : List Name} {uuid first second u : Str}
    {e : Str × Mount} (hexists : (index.rows.map (·.1)).contains d.uuid = true)
    (hskip : vmm₁.mountIndex.skips d = false) (he : e ∈ lib.updated vmm₁.mountIndex d)
    (hname : e.2.name = d.name) (hu : u ∈ e.2.microservices) :
    Hits (.symlink (buildRelativeDataTarget (relText rel))
        (join [getMountPath b u d.name d.vmType, relText rel]))
      (processVolumeMount (willing version rel uuid first second e.1) lib b
        (index.rows.map (·.1)) vmm₁ d) := by
  have h := willing_willing version rel uuid first second e.1
  refine .ite_pos hexists (h.hits_sync_updateVolumeMount hskip ?_)
  refine h.hits_syncMicroserviceSymlinksUnsafe (fun t => ?_) hname hu
  exact exists_order_front (Table.filter_key_eq (List.Perm.refl _) he) t

theorem contains_of_updated (hd : d ∈ updated index wanted) :
    (index.rows.map (·.1)).contains d.uuid = true := by
  obtain ⟨e, he⟩ := Option.isSome_iff_exists.mp (List.mem_filter.mp hd).2
  obtain ⟨hmem, huuid⟩ := Table.get?_eq_some_iff.mp he
  exact List.contains_iff_mem.mpr (List.mem_map.mpr ⟨e, hmem, huuid⟩)

/-- **The projection of an updated mount is refreshed** for a microservice that is recorded with a
mount of its name, in some order of the changes. -/
theorem exists_hits_of_consumer {u : Str} (rel : List Name)
    (hd : d ∈ updated vmm.mountIndex (volumeMountMap volumeMounts))
    (hu : Consumer vmm.mountIndex (volumeMountMap volumeMounts) d.name u) :
    ∃ env, Hits (.symlink (buildRelativeDataTarget (relText rel))
        (join [getMountPath b u d.name d.vmType, relText rel]))
      (processVolumeMountChanges env lib b vmm volumeMounts) := by
  obtain ⟨e, he, hsome, hmicro, hnamed⟩ := hu.recorded
  obtain ⟨hwanted, hskip⟩ := List.mem_filter.mp (List.mem_filter.mp hd).1
  have hexists := contains_of_updated hd
  have hskipped : ∀ vmm₁ : Manager,
      Remaining vmm.mountIndex (volumeMountMap volumeMounts) vmm₁.mountIndex →
      vmm₁.mountIndex.skips d = false := fun vmm₁ hremaining => by
    rw [hremaining.midway.skips hwanted fun d' hd' => nomatch hd']
    simpa using hskip
  let version : Name := ⟨dataSymlink, plain_dataSymlink⟩
  by_cases hown : e.1 = d.uuid
  · refine ⟨willing version rel [] d.uuid [] e.1, hits_first hwanted fun vmm₁ hremaining => ?_⟩
    have hentry : vmm₁.mountIndex.mount? d.uuid = some e.2 :=
      mount?_eq_some_iff.mpr (hown ▸ (hremaining e).mpr ⟨he, hsome⟩)
    rw [hown]
    refine hits_of_updated (e := (d.uuid, d.mount (lib.checksum d.data) e.2.microservices)) hexists
      (hskipped vmm₁ hremaining) ?_ rfl hmicro
    rw [Lib.updated, hentry]
    exact Table.mem_upsert.mpr (.inl rfl)
  rcases hnamed with hname | ⟨d', hd', huuid, hname⟩
  · refine ⟨willing version rel [] d.uuid [] e.1, hits_first hwanted fun vmm₁ hremaining => ?_⟩
    exact hits_of_updated hexists (hskipped vmm₁ hremaining)
      (mem_updated_of_ne ((hremaining e).mpr ⟨he, hsome⟩) hown) hname hmicro
  · obtain ⟨hwanted', hskip'⟩ := List.mem_filter.mp (List.mem_filter.mp hd').1
    have hne : d'.uuid ≠ d.uuid := huuid ▸ hown
    refine ⟨willing version rel [] d'.uuid d.uuid e.1, hits_changes (S := fun changes =>
      ∃ rest, changes = d' :: d :: rest) (fun t => exists_order_front_front
        (Table.filter_key_eq (List.Perm.refl _) hwanted')
        (Table.filter_key_eq (List.Perm.refl _) hwanted) (by simpa using hne.symm) t) ?_⟩
    rintro vmm₁ changes hremaining ⟨rest, rfl⟩
    have h := willing_willing version rel [] d'.uuid d.uuid e.1
    have hentry : vmm₁.mountIndex.mount? d'.uuid = some e.2 :=
      mount?_eq_some_iff.mpr (huuid ▸ (hremaining e).mpr ⟨he, hsome⟩)
    have hskip₁ : vmm₁.mountIndex.skips d' = false := by
      rw [hremaining.midway.skips hwanted' fun d' hd' => nomatch hd']
      simpa using hskip'
    rw [List.foldlM_cons]
    have hgiven : Emits (fun _ => True) (processVolumeMount
        (willing version rel [] d'.uuid d.uuid e.1) lib b (vmm.mountIndex.rows.map (·.1)) vmm₁ d')
        fun vmm₂ => vmm₂.mountIndex = lib.updated vmm₁.mountIndex d' :=
      .ite (fun _ => h.emits_updateVolumeMount hskip₁) fun hnew =>
        absurd (contains_of_updated hd') hnew
    refine .bind_right hgiven fun vmm₂ hvmm₂ => ?_
    rw [List.foldlM_cons]
    refine Hits.bind_left ?_ fun _ => grows_processAll
    have hskip₂ : vmm₂.mountIndex.skips d = false := by
      rw [← hskipped vmm₁ hremaining, Index.skips, Index.skips, Index.mount?, Index.mount?, hvmm₂,
        Lib.updated, Table.get?_upsert, if_neg hne]
    rw [← huuid]
    refine hits_of_updated (e := (d'.uuid, d'.mount (lib.checksum d'.data) e.2.microservices))
      hexists hskip₂ ?_ hname hmicro
    refine mem_updated_of_ne ?_ hne
    rw [hvmm₂, Lib.updated, hentry]
    exact Table.mem_upsert.mpr (.inl rfl)

end Converse

/-- **Where volume-mount processing reaches**: whatever the file system answers and in whatever
order the mounts come, the calls are confined exactly when the index and the message are tidy. -/
theorem confined_iff_tidy (lib : Lib) (b : Root) (vmm : Manager) (volumeMounts : List (Value ℚ)) :
    (∀ env, Confined b vmm.mountIndex (volumeMountMap volumeMounts)
        (processVolumeMountChanges env lib b vmm volumeMounts []).2) ↔
      Tidy lib b vmm.mountIndex (volumeMountMap volumeMounts) := by
  refine ⟨fun h => ?_, fun h => h.confined⟩
  have hwithin : ∀ {env ev}, Hits ev (processVolumeMountChanges env lib b vmm volumeMounts) →
      ev.Within (Ground b vmm.mountIndex (volumeMountMap volumeMounts)) :=
    fun {env ev} hhit => h env ev (hhit [])
  let version : Name := ⟨dataSymlink, plain_dataSymlink⟩
  constructor
  case trees =>
    intro m hm
    rcases List.mem_append.mp hm with hm | hm
    · obtain ⟨e, he, rfl⟩ := List.mem_map.mp hm
      have hfirst : (vmm.mountIndex.rows.map (·.1)).filter (fun u => u = e.1) = [e.1] := by
        rw [List.filter_map]
        exact congrArg (List.map (·.1))
          (Table.filter_key_eq (List.Perm.refl _) (List.mem_filter.mp he).1)
      have hhit : Hits (.removeAll (mountPath b e.2.vmType e.2.name))
          (processVolumeMountChanges (willing version [] e.1 [] [] []) lib b vmm volumeMounts) :=
        hits_deletes he (fun _ _ => rfl) (exists_order_front hfirst)
      exact hwithin hhit
    · obtain ⟨d, hd, rfl⟩ := List.mem_map.mp hm
      refine tree_of_relText (isAbs_mountPath b _ _) fun rel => ?_
      exact hwithin (hits_of_written hd fun atomic =>
        (willing_willing version rel [] d.uuid [] []).hits_createMainStructureFromData
          (isAbs_mountPath b _ _) (.inr rfl))
  case keys =>
    rintro d hd key ⟨value, content, hmem, hdecode⟩ version
    exact hwithin (hits_of_written hd fun atomic =>
      (willing_willing version [] [] d.uuid [] []).hits_createMainStructureFromData
        (isAbs_mountPath b _ _) (.inl ⟨key, value, content, hmem, hdecode, rfl⟩))
  case projections =>
    intro d hd u hu
    refine tree_of_relText (isAbs_getMountPath b _ _ _) fun rel => ?_
    obtain ⟨env, hhit⟩ := exists_hits_of_consumer rel hd hu
    exact hwithin hhit

/-! ## Names and keys that climb -/

def volumes : Root := ⟨"/volumes".toList, rfl⟩

def plainLib : Lib := ⟨some, fun _ => [], fun _ => none⟩

def climbing : Manager where
  mountIndex := (Table.empty _).upsert ("m".toList, ⟨dotdot, .secret, 1, [], [], []⟩)
  typeCache := Table.empty _
  saved := Table.empty _

def bare : Manager := ⟨Table.empty _, Table.empty _, Table.empty _⟩

def climbingKey : Value ℚ :=
  .obj [("uuid".toList, .str "m".toList), ("name".toList, .str "app".toList),
    ("type".toList, .str "secret".toList), ("version".toList, .num 1),
    ("data".toList, .obj [("../../../data/u/db".toList, .str "content".toList)])]

def calm : Env := willing ⟨"..v1".toList, by decide⟩ [] [] [] [] []

/-- An empty message removes a stored secret called `..`, and with it all volumes; and the key of a
new secret overwrites a file of a persistent volume. -/
theorem volumes_removed :
    (processVolumeMountChanges calm plainLib volumes climbing [] []).2 =
        [.removeAll "/volumes".toList] ∧
      ¬ Confined volumes climbing.mountIndex (volumeMountMap [])
        (processVolumeMountChanges calm plainLib volumes climbing [] []).2 ∧
      .writeFile "/volumes/data/u/db".toList "content".toList ∈
        (processVolumeMountChanges calm plainLib volumes bare [climbingKey] []).2 ∧
      ¬ Confined volumes bare.mountIndex (volumeMountMap [climbingKey])
        (processVolumeMountChanges calm plainLib volumes bare [climbingKey] []).2 := by
  have hremoved : (processVolumeMountChanges calm plainLib volumes climbing [] []).2 =
      [.removeAll "/volumes".toList] := rfl
  have hwritten : .writeFile "/volumes/data/u/db".toList "content".toList ∈
      (processVolumeMountChanges calm plainLib volumes bare [climbingKey] []).2 :=
    of_decide_eq_true rfl
  refine ⟨hremoved, fun h => ?_, hwritten, fun h => ?_⟩
  · have htree := h _ (hremoved ▸ List.mem_singleton_self _)
    exact (htree "/volumes/data".toList (of_decide_eq_true rfl)).not_data (of_decide_eq_true rfl)
  · exact (h _ hwritten).not_data (of_decide_eq_true rfl)

end Edgelet.VolumeMount
