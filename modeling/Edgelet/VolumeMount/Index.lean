import Edgelet.FieldAgent.ParseMicroservice

/-!
# The index of volume mounts

The manager keeps an index of the secrets and config maps by their identifiers, saves it as a whole
after every change, and keeps the type of each name in a cache. A mount has a directory below
`secrets` or `configMaps`, and a microservice that uses it has a copy, its projection.
-/

namespace Edgelet.VolumeMount

open Lexical Json Keyed FieldAgent

/-! ## Paths -/

def secretsDir : Str := "secrets".toList
def configMapsDir : Str := "configMaps".toList
def microservicesDir : Str := "microservices".toList
def persistentDataDir : Str := "data".toList
def persistentSharedDir : Str := "shared".toList
def dataSymlink : Str := "..data".toList

inductive VolumeMountType
  | secret
  | configMap
  deriving DecidableEq

def getTypeDirectory : VolumeMountType → Str
  | .secret => secretsDir
  | .configMap => configMapsDir

def getTypePrefix : VolumeMountType → Str
  | .secret => "edgelet.iofog.org~secret".toList
  | .configMap => "edgelet.iofog.org~configmap".toList

structure Root where
  path : Str
  abs : isAbs path = true

section

variable (vmm : Manager) (rows : List (Str × Mount)) (b : Root)

variable (vmType : VolumeMountType) (name : Str) (ok : Bool)

def mountPath : Str :=
  join [b.path, getTypeDirectory vmType, name]

def getMountPath (microserviceUUID volumeName : Str) (vmType : VolumeMountType) : Str :=
  join [b.path, microservicesDir, microserviceUUID, "volumes".toList, getTypePrefix vmType,
    volumeName]

theorem isAbs_mountPath : isAbs (mountPath b vmType name) = true := isAbs_join b.abs

theorem isAbs_getMountPath (u name : Str) (vmType : VolumeMountType) :
    isAbs (getMountPath b u name vmType) = true := isAbs_join b.abs

/-! ## The index -/

structure Mount where
  name : Str
  vmType : VolumeMountType
  version : ℚ
  checksum : Str
  data : Object ℚ
  microservices : List Str

abbrev Index := Table fun e : Str × Mount => e.1

def Index.mount? (index : Index) (uuid : Str) : Option Mount := (index.get? uuid).map (·.2)

abbrev TypeCache := Table fun e : Str × VolumeMountType => e.1

/-- `VolumeMountManager`, with the rows of `controller_volume_mounts`. A row has the columns of an
entry; the type of a mount is there `SECRET` or `CONFIGMAP`. -/
structure Manager where
  mountIndex : Index
  typeCache : TypeCache
  saved : Index

def Manager.persistToStore : Manager :=
  if ok then { vmm with saved := vmm.mountIndex } else vmm

def Manager.rebuildTypeCache : Manager :=
  { vmm with
    typeCache := (Table.empty _).upsertAll
      ((rows.filter (·.2.name ≠ [])).map fun e => (e.2.name, e.2.vmType)) }

def Mount.track (m : Mount) (microserviceUUID : Str) (add : Bool) : Mount :=
  if add then
    if m.microservices.contains microserviceUUID then m
    else { m with microservices := m.microservices ++ [microserviceUUID] }
  else { m with microservices := m.microservices.filter (· != microserviceUUID) }

def Manager.trackMicroserviceUsage (volumeName microserviceUUID : Str) (add : Bool) : Manager :=
  match rows.find? (·.2.name == volumeName) with
  | none => vmm
  | some e =>
    { vmm with mountIndex := vmm.mountIndex.upsert (e.1, e.2.track microserviceUUID add) }

@[simp] theorem mountIndex_persistToStore :
    (vmm.persistToStore ok).mountIndex = vmm.mountIndex := by
  cases ok <;> rfl

end

/-! ## Messages -/

/-- What `createVolumeMount` and `updateVolumeMount` read of a mount that the controller sends. -/
structure Desired where
  uuid : Str
  name : Str
  version : ℚ
  data : Object ℚ
  vmType : VolumeMountType

def parseVolumeMountType (vmMap : Object ℚ) : VolumeMountType :=
  if str? vmMap "type" = some "secret".toList then .secret else .configMap

def readMount (vmMap : Object ℚ) : Desired where
  uuid := (str? vmMap "uuid").getD []
  name := (str? vmMap "name").getD []
  version := (num? vmMap "version").getD 0
  data := (obj? vmMap "data").getD []
  vmType := parseVolumeMountType vmMap

def volumeMountMap (volumeMounts : List (Value ℚ)) : Table Desired.uuid :=
  (Table.empty _).upsertAll (((objects volumeMounts).map readMount).filter (·.uuid ≠ []))

def Desired.mount (d : Desired) (checksum : Str) (microservices : List Str) : Mount where
  name := d.name
  vmType := d.vmType
  version := d.version
  checksum := checksum
  data := d.data
  microservices := microservices

def Index.skips (index : Index) (d : Desired) : Bool :=
  (index.mount? d.uuid).any fun m => decide (d.version ≤ m.version)

end Edgelet.VolumeMount
