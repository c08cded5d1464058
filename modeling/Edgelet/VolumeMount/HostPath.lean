import Edgelet.VolumeMount.Reach

/-!
# The directories that containers get

`ResolveHostPath` turns a volume mapping into a path of the host. A volume mount becomes its
projection, an absolute path stays, and any other name is a shared or private persistent volume.
Name and identifier are joined without a check, and the cleaned form of a name may climb out of the
directory of its microservice.
-/

namespace Edgelet.VolumeMount

open Lexical Json Keyed FieldAgent Machine

section Program

variable (env : Env) (lib : Lib) (b : Root)

/-! ## Volume mounts -/

def replaceDataLink (versionedDirName dataLink : Str) : Logged Event Unit := do
  if (← look (env.lstat · dataLink)) = .there then do
    let _ ← remove env dataLink
  if (← look (env.lstat · dataLink)) = .absent then
    ifOk (symlink env versionedDirName dataLink) () do
      let _ ← chmod env dataLink

def prepareMicroserviceVolumeMount (vmm : Manager) (microserviceUUID volumeName : Str)
    (vmType : VolumeMountType) : Logged Event Manager :=
  let projection := getMountPath b microserviceUUID volumeName vmType
  ifOk (mkdirAll env projection) vmm do
    match ← look (env.evalSymlinks · (join [mountPath b vmType volumeName, dataSymlink])) with
    | none => return vmm
    | some source =>
      let dataLink := join [projection, dataSymlink]
      let target := join [projection, baseName source]
      if (← look (env.readlink · dataLink)) = some (baseName source) then do
        let _ ← chmod env projection
        let _ ← chmod env target
        return vmm
      else
        ifOk (copyIfAbsent env (render true (source.map (·.1))) target) vmm do
          replaceDataLink env (baseName source) dataLink
          let _ ← createKeySymlinksRecursively env projection target
          let rows ← look (env.mounts.order · vmm.mountIndex.rows)
          return vmm.trackMicroserviceUsage rows volumeName microserviceUUID true

def splitKey (hostDestination : Str) : Str × Str :=
  match hostDestination.span (· != '/') with
  | (c :: cs, _ :: key) => (c :: cs, key)
  | _ => (hostDestination, [])

def Manager.typeOf (vmm : Manager) (volumeName : Str) : VolumeMountType :=
  ((vmm.typeCache.get? volumeName).map (·.2)).getD .secret

/-! ## Persistent volumes -/

def parseRunAsUser (s : Str) : Option (ℤ × ℤ) :=
  if trimSpace s = [] then none
  else do
    let parts := (trimSpace s).span (· != ':')
    let uid ← (lib.parseInt parts.1).filter (0 ≤ ·)
    match parts.2 with
    | [] => return (uid, uid)
    | _ :: group => return (uid, ← (lib.parseInt (trimSpace group)).filter (0 ≤ ·))

def applyPersistentVolumeDirAccess (path : Str) (runAsUser : Option Str) (shared created : Bool) :
    Logged Event Unit :=
  if shared && !created then return ()
  else
    match runAsUser with
    | some (c :: s) =>
      match parseRunAsUser lib (c :: s) with
      | some (uid, gid) => emit (.chown path uid gid)
      | none => return ()
    | _ => do
      let _ ← chmod env path

def volumeScopeShared : Str := "shared".toList

def persistentDir (microserviceUUID name : Str) (shared : Bool) : Str :=
  if shared then join [b.path, persistentSharedDir, name]
  else join [b.path, persistentDataDir, microserviceUUID, name]

def resolveHostPath (vmm : Manager) (microserviceUUID hostDestination : Str) (isVolumeMount : Bool)
    (runAsUser : Option Str) (scope : Str) : Logged Event (Manager × Str) :=
  if isVolumeMount then do
    let (volumeName, keyName) := splitKey hostDestination
    let vmType := vmm.typeOf volumeName
    let projection := getMountPath b microserviceUUID volumeName vmType
    let vmm ← prepareMicroserviceVolumeMount env b vmm microserviceUUID volumeName vmType
    if keyName = [] then return (vmm, projection)
    else
      match ← look (env.evalSymlinks · (join [projection, keyName])) with
      | some place => return (vmm, render true (place.map (·.1)))
      | none => return (vmm, join [projection, keyName])
  else if isAbs hostDestination then return (vmm, hostDestination)
  else do
    let shared := trimSpace scope == volumeScopeShared
    let path := persistentDir b microserviceUUID hostDestination shared
    let found ← look (env.stat · path)
    let made ← mkdirAll env path
    applyPersistentVolumeDirAccess env lib path runAsUser shared (found = .absent && made)
    return (vmm, path)

end Program

/-! ## Privacy -/

structure PrivateVolume where
  uuid : Str
  name : Str
  scope : Str
  relative : isAbs name = false
  not_shared : trimSpace scope ≠ volumeScopeShared

variable (v : PrivateVolume) (env : Env) (lib : Lib) (b : Root) (vmm : Manager)
  (runAsUser : Option Str)

def PrivateVolume.hostPath : Str :=
  (resolveHostPath env lib b vmm v.uuid v.name false runAsUser v.scope []).1.2

/-- **Privacy**: the directory of one volume neither equals, contains nor lies inside that of the
other, nor inside the tree of the shared volumes. -/
def Private (p q : Str) : Prop :=
  ¬ Overlap p q ∧ ¬ Contains (join [b.path, persistentSharedDir]) p

instance (b : Root) (p q : Str) : Decidable (Private b p q) := inferInstanceAs (Decidable (_ ∧ _))

/-- The cleaned form of the name. -/
def PrivateVolume.cleaned : List Str := normalize false (components v.name)

/-- **The condition**: the identifier is one plain component, and the name does not climb. -/
structure PrivateVolume.Stays : Prop where
  uuid : Plain v.uuid
  name : dotdot ∉ v.cleaned

/-! ## Where a private volume is -/

theorem PrivateVolume.hostPath_eq :
    v.hostPath env lib b vmm runAsUser = join [b.path, persistentDataDir, v.uuid, v.name] := by
  have hshared : (trimSpace v.scope == volumeScopeShared) = false :=
    beq_eq_false_iff_ne.mpr v.not_shared
  have hres : resolveHostPath env lib b vmm v.uuid v.name false runAsUser v.scope = (do
      let found ← look (env.stat · (persistentDir b v.uuid v.name false))
      let made ← mkdirAll env (persistentDir b v.uuid v.name false)
      applyPersistentVolumeDirAccess env lib (persistentDir b v.uuid v.name false) runAsUser false
        (found = .absent && made)
      return (vmm, persistentDir b v.uuid v.name false)) := by
    rw [resolveHostPath, if_neg (by simp), if_neg (by simp [v.relative]), hshared]
  rw [PrivateVolume.hostPath, hres]
  rfl

/-- A name that does not climb leads below the directory of its microservice. -/
theorem PrivateVolume.Stays.absComponents_hostPath {v : PrivateVolume} (h : v.Stays) :
    absComponents (v.hostPath env lib b vmm runAsUser) =
      absComponents b.path ++ [persistentDataDir, v.uuid] ++ v.cleaned := by
  have hdata : Plain persistentDataDir := by decide
  have huuid : components v.uuid = [v.uuid] := by
    have hplain : ∀ e ∈ [v.uuid], Plain e := by simpa using h.uuid
    simpa using flatMap_components_plain hplain
  have hsplit : [persistentDataDir, v.uuid, v.name].flatMap components =
      [persistentDataDir, v.uuid] ++ components v.name := by
    simp only [List.flatMap_cons, List.flatMap_nil, List.append_nil, huuid]
    rfl
  rw [v.hostPath_eq, absComponents_join b.abs, hsplit, Lexical.normalize, List.foldl_append,
    List.foldl_append, List.foldl_cons, List.foldl_cons, List.foldl_nil, push_plain hdata,
    push_plain h.uuid, List.append_assoc]
  refine foldl_push_of_not_climbing (fun c hc => ?_) (fun _ => no_sep_of_mem_components) h.name
  rcases List.mem_append.mp hc with hc | hc
  · exact plain_of_mem_absComponents (s := b.path) hc
  · rcases List.mem_pair.mp hc with rfl | rfl
    · exact hdata
    · exact h.uuid

def volumeOf (uuid name : String) (h : isAbs name.toList = false) : PrivateVolume where
  uuid := uuid.toList
  name := name.toList
  scope := []
  relative := h
  not_shared := by decide

def PrivateVolume.dir : Str := v.hostPath calm plainLib volumes bare none

end Edgelet.VolumeMount
