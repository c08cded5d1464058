import Edgelet.Models.Microservice

/-!
# The table of controller microservices

The desired microservices of the controller are kept in one table, with a column for each field that
is stored: `insertMicroservice` writes a row and `scanMicroservice` reads it back. A JSON column is
the document that its text spells. The column `updated_at`, which nothing modelled here reads, is
left out.
-/

namespace Edgelet.Store

open Lexical Json Models

abbrev Doc := Value ℤ

structure MicroserviceRow where
  uuid : Str
  imageName : Str
  containerID : Str
  registryID : ℤ
  rebuild : ℤ
  hostNetworkMode : ℤ
  isPrivileged : ℤ
  logSize : ℤ
  isRouter : ℤ
  microserviceName : Str
  applicationName : Str
  isNats : ℤ
  schedule : ℤ
  deleteFlag : ℤ
  deleteWithCleanup : ℤ
  isStuckInRestart : ℤ
  isUpdating : ℤ
  config : Option Str
  runAsUser : Option Str
  platform : Option Str
  runtime : Option Str
  containerIP : Option Str
  annotations : Option Str
  pidMode : Option Str
  ipcMode : Option Str
  cpuSetCpus : Option Str
  memoryLimit : Option ℤ
  portMappings : Doc
  volumeMappings : Doc
  envVars : Doc
  args : Doc
  cdiDevs : Doc
  capAdd : Doc
  capDrop : Doc
  extraHosts : Doc
  healthcheck : Option Doc
  models : Doc
  knowledge : Doc
  sysctls : Doc
  ulimits : Doc
  devices : Doc
  tmpfs : Doc
  entrypoint : Option Doc
  commands : Option Doc
  runAsGroup : Option Str
  readOnlyRootFilesystem : ℤ
  cpus : Option ℚ
  memoryReservation : Option ℤ
  memorySwap : Option ℤ
  shmSize : Option ℤ
  workingDir : Option Str
  supplementalGroups : Doc

/-! ## Columns -/

variable (ms : Microservice) (argv : Option (List Str)) (b : Bool)

def boolToInt : ℤ := if b then 1 else 0

def intToBool (i : ℤ) : Bool := i ≠ 0

@[simp] theorem intToBool_boolToInt : intToBool (boolToInt b) = b := by cases b <;> rfl

/-- The value of a JSON column whose errors are ignored: a document that cannot be read leaves the
empty value. -/
def readJSON {α : Type*} (c : Codec α) (empty : α) (d : Doc) : α := (c.decode d).getD empty

@[simp] theorem readJSON_encode {α : Type*} (c : Codec α) (empty a : α) :
    readJSON c empty (c.encode a) = a := by
  rw [readJSON, c.decode_encode, Option.getD_some]

def encodeOptionalArgv : Option Doc :=
  argv.map (Codec.list Codec.str).encode

def decodeOptionalArgv (raw : Option Doc) : Option (List Str) :=
  raw.map (readJSON (Codec.list Codec.str) [])

@[simp] theorem decodeOptionalArgv_encodeOptionalArgv :
    decodeOptionalArgv (encodeOptionalArgv argv) = argv := by
  cases argv <;> simp [decodeOptionalArgv, encodeOptionalArgv]

def marshalCatalogJSON : Option Catalog → Doc
  | none => .obj []
  | some c => Catalog.codec.encode c

def unmarshalCatalogJSON (p : Platform) : Doc → Option Catalog
  | .null => none
  | .obj [] => none
  | d => (Catalog.codec.decode d).map (Catalog.normalizeDefaults p)

variable {p : Platform}

theorem unmarshalCatalogJSON_marshalCatalogJSON {c : Option Catalog}
    (h : ∀ cat ∈ c, cat.Bound p) : unmarshalCatalogJSON p (marshalCatalogJSON c) = c := by
  cases c with
  | none => rfl
  | some c =>
    have hread := Catalog.codec.decode_encode c
    have hdoc : Catalog.codec.encode c = .obj (Catalog.fields.encode c) := rfl
    rw [marshalCatalogJSON, hdoc]
    rw [hdoc] at hread
    cases hfields : Catalog.fields.encode c with
    | nil => exact absurd hfields (h c rfl).fields_ne_nil
    | cons f fs =>
      rw [hfields] at hread
      rw [unmarshalCatalogJSON, hread, Option.map_some, (h c rfl).normal]
      · nofun
      · nofun

/-! ## Rows -/

def microserviceRow (groups : List ℤ) : MicroserviceRow where
  uuid := ms.microserviceUUID
  imageName := ms.imageName
  containerID := ms.containerID
  registryID := ms.registryID
  rebuild := boolToInt ms.rebuild
  hostNetworkMode := boolToInt ms.hostNetworkMode
  isPrivileged := boolToInt ms.isPrivileged
  logSize := ms.logSize
  isRouter := boolToInt ms.isRouter
  microserviceName := ms.microserviceName
  applicationName := ms.applicationName
  isNats := boolToInt ms.isNats
  schedule := ms.schedule
  deleteFlag := boolToInt ms.delete
  deleteWithCleanup := boolToInt ms.deleteWithCleanup
  isStuckInRestart := boolToInt ms.isStuckInRestart
  isUpdating := boolToInt ms.isUpdating
  config := ms.config
  runAsUser := ms.runAsUser
  platform := ms.platform
  runtime := ms.runtime
  containerIP := ms.containerIPAddress
  annotations := ms.annotations
  pidMode := ms.pidMode
  ipcMode := ms.ipcMode
  cpuSetCpus := ms.cpuSetCpus
  memoryLimit := ms.memoryLimit
  portMappings := (Codec.list PortMapping.codec).encode ms.portMappings
  volumeMappings := (Codec.list VolumeMapping.codec).encode ms.volumeMappings
  envVars := (Codec.list EnvVar.codec).encode ms.envVars
  args := (Codec.list Codec.str).encode ms.args
  cdiDevs := (Codec.list Codec.str).encode ms.cdiDevs
  capAdd := (Codec.list Codec.str).encode ms.capAdd
  capDrop := (Codec.list Codec.str).encode ms.capDrop
  extraHosts := (Codec.list Codec.str).encode ms.extraHosts
  healthcheck := ms.healthcheck.map Healthcheck.codec.encode
  models := marshalCatalogJSON ms.models
  knowledge := marshalCatalogJSON ms.knowledge
  sysctls := (Codec.map Codec.str).encode ms.sysctls
  ulimits := (Codec.map Ulimit.codec).encode ms.ulimits
  devices := (Codec.list DeviceMapping.codec).encode ms.devices
  tmpfs := (Codec.list TmpfsMount.codec).encode ms.tmpfs
  entrypoint := encodeOptionalArgv ms.entrypoint
  commands := encodeOptionalArgv ms.commands
  runAsGroup := ms.runAsGroup
  readOnlyRootFilesystem := boolToInt ms.readOnlyRootFilesystem
  cpus := ms.cpus
  memoryReservation := ms.memoryReservation
  memorySwap := ms.memorySwap
  shmSize := ms.shmSize
  workingDir := ms.workingDir
  supplementalGroups := (Codec.list Codec.int).encode groups

def insertMicroservice : Except GroupsError MicroserviceRow :=
  (normalizeGIDList ms.supplementalGroups).map (microserviceRow ms)

def scanMicroservice (p : Platform) (row : MicroserviceRow) : Microservice where
  microserviceUUID := row.uuid
  imageName := row.imageName
  containerID := row.containerID
  registryID := row.registryID
  logSize := row.logSize
  microserviceName := row.microserviceName
  applicationName := row.applicationName
  schedule := row.schedule
  config := row.config
  runAsUser := row.runAsUser
  platform := row.platform
  runtime := row.runtime
  containerIPAddress := row.containerIP
  annotations := row.annotations
  pidMode := row.pidMode
  ipcMode := row.ipcMode
  cpuSetCpus := row.cpuSetCpus
  memoryLimit := row.memoryLimit
  runAsGroup := row.runAsGroup
  cpus := row.cpus
  memoryReservation := row.memoryReservation
  memorySwap := row.memorySwap
  shmSize := row.shmSize
  workingDir := row.workingDir
  rebuild := intToBool row.rebuild
  hostNetworkMode := intToBool row.hostNetworkMode
  isPrivileged := intToBool row.isPrivileged
  isRouter := intToBool row.isRouter
  isNats := intToBool row.isNats
  delete := intToBool row.deleteFlag
  deleteWithCleanup := intToBool row.deleteWithCleanup
  isStuckInRestart := intToBool row.isStuckInRestart
  readOnlyRootFilesystem := intToBool row.readOnlyRootFilesystem
  isUpdating := intToBool row.isUpdating
  portMappings := readJSON (Codec.list PortMapping.codec) [] row.portMappings
  volumeMappings := readJSON (Codec.list VolumeMapping.codec) [] row.volumeMappings
  envVars := readJSON (Codec.list EnvVar.codec) [] row.envVars
  args := readJSON (Codec.list Codec.str) [] row.args
  cdiDevs := readJSON (Codec.list Codec.str) [] row.cdiDevs
  capAdd := readJSON (Codec.list Codec.str) [] row.capAdd
  capDrop := readJSON (Codec.list Codec.str) [] row.capDrop
  extraHosts := readJSON (Codec.list Codec.str) [] row.extraHosts
  healthcheck := row.healthcheck.map (readJSON Healthcheck.codec {})
  models := unmarshalCatalogJSON p row.models
  knowledge := unmarshalCatalogJSON p row.knowledge
  sysctls := readJSON (Codec.map Codec.str) ∅ row.sysctls
  ulimits := readJSON (Codec.map Ulimit.codec) ∅ row.ulimits
  devices := readJSON (Codec.list DeviceMapping.codec) [] row.devices
  tmpfs := readJSON (Codec.list TmpfsMount.codec) [] row.tmpfs
  supplementalGroups := readJSON (Codec.list Codec.int) [] row.supplementalGroups
  entrypoint := decodeOptionalArgv row.entrypoint
  commands := decodeOptionalArgv row.commands

structure Normal (p : Platform) (ms : Microservice) : Prop where
  groups : normalizeGIDList ms.supplementalGroups = .ok ms.supplementalGroups
  models : ∀ c ∈ ms.models, c.Bound p
  knowledge : ∀ c ∈ ms.knowledge, c.Bound p

/-- What the table keeps of a microservice: it has no column for the service account and for the
marks of the controller and of system microservices. -/
def stored : Microservice :=
  { ms with isController := false, isSystem := false, serviceAccount := none }

theorem insert_of_normal {ms : Microservice} (h : Normal p ms) :
    insertMicroservice ms = .ok (microserviceRow ms ms.supplementalGroups) := by
  rw [insertMicroservice, h.groups]
  rfl

/-- **What was written is read back**, except for the fields without a column. -/
theorem scan_microserviceRow {ms : Microservice} (h : Normal p ms) :
    scanMicroservice p (microserviceRow ms ms.supplementalGroups) = stored ms := by
  simp only [scanMicroservice, microserviceRow, stored, intToBool_boolToInt, readJSON_encode,
    decodeOptionalArgv_encodeOptionalArgv, unmarshalCatalogJSON_marshalCatalogJSON h.models,
    unmarshalCatalogJSON_marshalCatalogJSON h.knowledge, Option.map_map, Function.comp_def,
    Option.map_id']

end Edgelet.Store
