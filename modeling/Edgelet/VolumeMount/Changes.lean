import Edgelet.Machine.Logged
import Edgelet.VolumeMount.Index

/-!
# Processing volume-mount changes

Mounts of the index that are not on the list of the controller are deleted, new ones created, and
those with a greater version updated. Each version is unpacked to a new directory named after the
time, the link `..data` points at it, and each key is a link through `..data`. An update also
refreshes the recorded projections.

The functions are programs over the log of their calls that create, write or remove something. What
a call answers is arbitrary, and so is the order of a map. `filepath.Walk` is one call. Permission
modes and the journal are left out.
-/

namespace Edgelet.VolumeMount

open Lexical Json Keyed FieldAgent Machine

/-! ## The file system -/

inductive Event
  | mkdirAll (path : Str)
  | writeFile (path content : Str)
  | chmod (path : Str)
  | chown (path : Str) (uid gid : ℤ)
  | remove (path : Str)
  | removeAll (path : Str)
  | symlink (target path : Str)
  | rename (old new : Str)
  deriving DecidableEq

inductive Found
  | there
  | absent
  | error
  deriving DecidableEq

inductive Node
  | directory
  | link
  | other

inductive Visit
  | entry (rel : List Name) (node : Node)
  | failed

/-- The order in which the elements of a map or a sorted list come, which may change with time. -/
structure Listing (α : Type) where
  order : ℕ → List α → List α
  perm : ∀ t l, (order t l).Perm l

structure Env where
  mkdirAll : ℕ → Str → Bool
  writeFile : ℕ → Str → Bool
  chmod : ℕ → Str → Bool
  remove : ℕ → Str → Found
  removeAll : ℕ → Str → Bool
  symlink : ℕ → Str → Bool
  rename : ℕ → Str → Bool
  stat : ℕ → Str → Found
  lstat : ℕ → Str → Found
  readlink : ℕ → Str → Option Str
  readFile : ℕ → Str → Option Str
  readDir : ℕ → Str → Option (List (Name × Bool))
  walk : ℕ → Str → List Visit
  evalSymlinks : ℕ → Str → Option (List Name)
  createVersionedDirectoryName : ℕ → Name
  replaceAll : ℕ → Bool
  uuids : Listing Str
  changes : Listing Desired
  keys : Listing (Str × Value ℚ)
  mounts : Listing (Str × Mount)
  byModTime : Listing Name

structure Lib where
  decodeString : Str → Option Str
  checksum : Object ℚ → Str
  parseInt : Str → Option ℤ

def Lib.decodeBase64 (lib : Lib) (data : Str) : Option Str :=
  lib.decodeString ((data.dropWhile (· == '"')).rdropWhile (· == '"'))

def buildRelativeDataTarget (keyLink : Str) : Str :=
  (List.replicate (keyLink.count '/') "../".toList).flatten ++ dataSymlink ++ '/' :: keyLink

section Program

variable (env : Env) (lib : Lib) (b : Root)

section

variable (mountPath : Str) (path : Str) (src dst : Str)

def mkdirAll : Logged Event Bool := ask (env.mkdirAll · path) fun _ => .mkdirAll path

def writeFile (path content : Str) : Logged Event Bool :=
  ask (env.writeFile · path) fun _ => .writeFile path content

def chmod : Logged Event Bool := ask (env.chmod · path) fun _ => .chmod path

def remove : Logged Event Found := ask (env.remove · path) fun _ => .remove path

def removeAll : Logged Event Bool :=
  ask (env.removeAll · path) fun _ => .removeAll path

def symlink (target path : Str) : Logged Event Bool :=
  ask (env.symlink · path) fun _ => .symlink target path

def rename (old new : Str) : Logged Event Bool := ask (env.rename · old) fun _ => .rename old new

/-! ## One mount -/

def copyEntry : Visit → Logged Event Bool
  | .failed => return false
  | .entry rel .directory => mkdirAll env (join [dst, relText rel])
  | .entry rel _ => do
    match ← look (env.readFile · (join [src, relText rel])) with
    | none => return false
    | some content =>
      ifOk (mkdirAll env (dir (join [dst, relText rel]))) false <|
        ifOk (writeFile env (join [dst, relText rel]) content) false <|
          chmod env (join [dst, relText rel])

def copyVersionedDirRecursively : Logged Event Bool := do
  let visits ← look (env.walk · src)
  visits.allM (copyEntry env src dst)

def linkEntry : Visit → Logged Event Bool
  | .failed => return false
  | .entry _ .directory => return true
  | .entry rel _ =>
    ifOk (mkdirAll env (dir (join [mountPath, relText rel]))) false <| do
      let _ ← remove env (join [mountPath, relText rel])
      ifOk (symlink env (buildRelativeDataTarget (relText rel)) (join [mountPath, relText rel]))
        false <| chmod env (join [mountPath, relText rel])

def createKeySymlinksRecursively (mountPath versionedDir : Str) : Logged Event Bool := do
  let visits ← look (env.walk · versionedDir)
  visits.allM (linkEntry env mountPath)

def removeObsoleteEntry (mountPath targetVersionedDir : Str) : Visit → Logged Event Unit
  | .entry rel .link => do
    if rel = [] ∨ (rel.getLast?.any fun n => dotdot.isPrefixOf n.1) then return ()
    else if (← look (env.stat · (join [targetVersionedDir, relText rel]))) = .absent then do
      let _ ← remove env (join [mountPath, relText rel])
    else return ()
  | _ => return ()

def walkedDirectories (visits : List Visit) : List Str :=
  visits.filterMap fun
    | .entry rel .directory => if rel = [] then none else some (join [mountPath, relText rel])
    | _ => none

def removeEmptyDirectory : Logged Event Unit := do
  match ← look (env.readDir · path) with
  | some [] => do
    let _ ← remove env path
  | _ => return ()

def removeObsoleteSymlinksRecursively (mountPath targetVersionedDir : Str) :
    Logged Event Unit := do
  let visits ← look (env.walk · mountPath)
  visits.forM (removeObsoleteEntry env mountPath targetVersionedDir)
  ((walkedDirectories mountPath visits).insertionSort fun p q => strLe q p).forM
    (removeEmptyDirectory env)

def versionDirs (entries : List (Name × Bool)) : List Name :=
  (entries.filter fun e => dotdot.isPrefixOf e.1.1 && decide (2 < e.1.1.length) && e.2).map (·.1)

def cleanupOldVersions : Logged Event Unit := do
  match ← look (env.readDir · mountPath) with
  | none => return ()
  | some entries => do
    let sorted ← look (env.byModTime.order · (versionDirs entries))
    (sorted.take (sorted.length - 1)).forM fun name => do
      let _ ← removeAll env (join [mountPath, name.1])

def writeKey (versionDir : Str) : Str × Value ℚ → Logged Event Bool
  | (key, .str value) =>
    match lib.decodeBase64 value with
    | none => return true
    | some content =>
      ifOk (mkdirAll env (dir (join [versionDir, key]))) false <|
        ifOk (writeFile env (join [versionDir, key]) content) false <| do
          let _ ← chmod env (join [versionDir, key])
          return true
  | _ => return true

def publish (atomicSymlink : Bool) (symlinkTarget dataLink : Str) : Logged Event Bool :=
  if atomicSymlink then rename env symlinkTarget dataLink else return true

def linkVersion (versionDirName : Name) (atomicSymlink : Bool) : Logged Event (Option Name) := do
  let dataLink := join [mountPath, dataSymlink]
  let symlinkTarget :=
    if atomicSymlink then join [mountPath, dataSymlink ++ ".tmp".toList] else dataLink
  if (← remove env symlinkTarget) = .error then return none
  else
    ifOk (symlink env versionDirName.1 symlinkTarget) none do
      let _ ← chmod env symlinkTarget
      ifOk (publish env atomicSymlink symlinkTarget dataLink) none <|
        ifOk (createKeySymlinksRecursively env mountPath (join [mountPath, versionDirName.1])) none
          (return some versionDirName)

def createMainStructureFromData (dataObj : Object ℚ) (atomicSymlink : Bool) :
    Logged Event (Option Name) :=
  ifOk (mkdirAll env mountPath) none do
    let versionDirName ← look env.createVersionedDirectoryName
    ifOk (mkdirAll env (join [mountPath, versionDirName.1])) none do
      let entries ← look (env.keys.order · dataObj)
      ifOk (entries.allM (writeKey env lib (join [mountPath, versionDirName.1]))) none <|
        linkVersion env mountPath versionDirName atomicSymlink

/-! ## Projections -/

def baseName (place : List Name) : Str := (place.getLast?.map (·.1)).getD ['/']

def copyIfAbsent : Logged Event Bool := do
  if (← look (env.stat · dst)) = .absent then copyVersionedDirRecursively env src dst
  else return true

def syncMicroservice (source : List Name) (mountPath : Str) : Logged Event Unit := do
  if (← look (env.stat · mountPath)) = .absent then return ()
  else
    let targetVersionedDir := join [mountPath, baseName source]
    ifOk (copyIfAbsent env (render true (source.map (·.1))) targetVersionedDir) () do
      let newDataLink := join [mountPath, dataSymlink ++ ".tmp".toList]
      let _ ← remove env newDataLink
      ifOk (symlink env (baseName source) newDataLink) () do
        let _ ← chmod env newDataLink
        ifOk (rename env newDataLink (join [mountPath, dataSymlink])) () do
          let _ ← createKeySymlinksRecursively env mountPath targetVersionedDir
          removeObsoleteSymlinksRecursively env mountPath targetVersionedDir
          cleanupOldVersions env mountPath

end

section

variable (vmm : Manager) (path : Str) (d : Desired)

def syncMicroserviceSymlinksUnsafe (index : Index) (volumeName : Str) (vmType : VolumeMountType) :
    Logged Event Unit := do
  let rows ← look (env.mounts.order · index.rows)
  match rows.find? (·.2.name == volumeName) with
  | none => return ()
  | some e =>
    if e.2.microservices = [] then return ()
    else
      match ← look (env.evalSymlinks · (join [mountPath b vmType volumeName, dataSymlink])) with
      | none => return ()
      | some source => e.2.microservices.forM fun microserviceUUID =>
          syncMicroservice env source (getMountPath b microserviceUUID volumeName vmType)

/-! ## The changes -/

def persist : Logged Event Manager := do
  return vmm.persistToStore (← look env.replaceAll)

def createVolumeMount : Logged Event Manager := do
  match ← createMainStructureFromData env lib (mountPath b d.vmType d.name) d.data false with
  | none => return vmm
  | some _ =>
    persist env { vmm with
      mountIndex := vmm.mountIndex.upsert (d.uuid, d.mount (lib.checksum d.data) []) }

def Lib.updated (lib : Lib) (index : Index) (d : Desired) : Index :=
  index.upsert (d.uuid, d.mount (lib.checksum d.data)
    (((index.mount? d.uuid).map (·.microservices)).getD []))

def updateVolumeMount : Logged Event Manager :=
  if vmm.mountIndex.skips d then return vmm
  else do
    match ← createMainStructureFromData env lib (mountPath b d.vmType d.name) d.data true with
    | none => return vmm
    | some versionDirName => do
      removeObsoleteSymlinksRecursively env (mountPath b d.vmType d.name)
        (join [mountPath b d.vmType d.name, versionDirName.1])
      cleanupOldVersions env (mountPath b d.vmType d.name)
      let vmm ← persist env { vmm with mountIndex := lib.updated vmm.mountIndex d }
      syncMicroserviceSymlinksUnsafe env b vmm.mountIndex d.name d.vmType
      return vmm

def Manager.forget (uuid name : Str) : Manager :=
  { vmm with
    mountIndex := vmm.mountIndex.deleteWhere (·.1 == uuid)
    typeCache := vmm.typeCache.deleteWhere (·.1 == name) }

def removeIfThere : Logged Event Unit := do
  if (← look (env.stat · path)) = .there then do
    let _ ← removeAll env path
  else return ()

def deleteVolumeMount (uuid : Str) : Logged Event Manager :=
  match vmm.mountIndex.mount? uuid with
  | none => return vmm
  | some m => do
    removeIfThere env (mountPath b m.vmType m.name)
    persist env (vmm.forget uuid m.name)

def processVolumeMount (existingUuids : List Str) (vmm : Manager) (d : Desired) :
    Logged Event Manager :=
  if existingUuids.contains d.uuid then updateVolumeMount env lib b vmm d
  else createVolumeMount env lib b vmm d

def processVolumeMountChanges (volumeMounts : List (Value ℚ)) : Logged Event Manager := do
  let existingUuids := vmm.mountIndex.rows.map (·.1)
  let wanted := volumeMountMap volumeMounts
  let uuids ← look (env.uuids.order · existingUuids)
  let vmm ← (uuids.filter fun uuid => (wanted.get? uuid).isNone).foldlM
    (deleteVolumeMount env b) vmm
  let changes ← look (env.changes.order · wanted.rows)
  let vmm ← changes.foldlM (processVolumeMount env lib b existingUuids) vmm
  let rows ← look (env.mounts.order · vmm.mountIndex.rows)
  persist env (vmm.rebuildTypeCache rows)

end

end Program

end Edgelet.VolumeMount
