import Edgelet.Store.SaveMicroservices

/-!
# Parsing the controller's microservices

`parseMicroservice` makes a microservice of each object that has an identifier and an image. A value
of the wrong type is treated as missing; only malformed supplemental groups are refused. What is
loaded from the store is what was parsed, but for three fields without a column. The configuration
of the agent, where the router is also noted, is left out.
-/

namespace Edgelet.FieldAgent

open Lexical Json Models Store

/-! ## Members of an object -/

section

variable (data : Object ℚ) (key : String)

def str? : Option Str :=
  match data.lookup key.toList with
  | some (.str s) => some s
  | _ => none

def bool? : Option Bool :=
  match data.lookup key.toList with
  | some (.bool b) => some b
  | _ => none

def num? : Option ℚ :=
  match data.lookup key.toList with
  | some (.num n) => some n
  | _ => none

def arr? : Option (List (Value ℚ)) :=
  match data.lookup key.toList with
  | some (.arr vs) => some vs
  | _ => none

def obj? : Option (Object ℚ) :=
  match data.lookup key.toList with
  | some (.obj fs) => some fs
  | _ => none

def objects (vs : List (Value ℚ)) : List (Object ℚ) :=
  vs.filterMap fun
    | .obj fs => some fs
    | _ => none

def strings (vs : List (Value ℚ)) : List Str :=
  vs.filterMap fun
    | .str s => some s
    | _ => none

def strings? : List Str := ((arr? data key).map strings).getD []

def nonEmpty? : Option Str := (str? data key).filter (· ≠ [])

def nonBlank? : Option Str :=
  (str? data key).filter (trimSpace · ≠ [])

end

section Parse

variable (p : Platform)

section

variable (data : Object ℚ) (key : String)

def jsonInt64 : Option ℤ := (num? data key).map p.toInt64

def jsonString : Value ℚ → Str
  | .str s => s
  | .null => []
  | v => p.sprint v

/-! ## The parts of a microservice -/

/-- `parsePortMappingFromController`. The text `udp` has no letter with a fold outside ASCII. -/
def parsePortMappingFromController (pm : Object ℚ) : Option PortMapping :=
  let outside := (num? pm "external").or (num? pm "portExternal")
  let inside := (num? pm "internal").or (num? pm "portInternal")
  let udp :=
    match str? pm "protocol" with
    | some protocol => (trimSpace protocol).map Char.toLower = "udp".toList
    | none => (bool? pm "isUdp").getD false
  if outside.isNone ∧ inside.isNone then none
  else some ⟨(outside.map p.toInt).getD 0, (inside.map p.toInt).getD 0, udp⟩

def parseVolumeMappingType (vm : Object ℚ) : VolumeMappingType :=
  match str? vm "type" with
  | none => .empty
  | some t =>
    if t = "volumeMount".toList then .volumeMount
    else if t = "volume".toList then .volume
    else .bind

def parseVolumeMapping (vm : Object ℚ) : VolumeMapping where
  hostDestination := (str? vm "hostDestination").getD []
  containerDestination := (str? vm "containerDestination").getD []
  accessMode := (str? vm "accessMode").getD []
  type := parseVolumeMappingType vm
  scope :=
    if parseVolumeMappingType vm = .volume then
      (canonicalVolumeScope ((str? vm "scope").getD [])).text
    else VolumeScope.priv.text

def parseEnvVar (env : Object ℚ) : Option EnvVar :=
  let key := (str? env "key").getD []
  let value := (str? env "value").getD []
  if key ≠ [] ∨ value ≠ [] then some ⟨key, value⟩ else none

def parseOptionalArgv : Option (List Str) × Bool :=
  match data.lookup key.toList with
  | none => (none, false)
  | some (.arr vs) => (some (strings vs), true)
  | some _ => (none, true)

def usesImageDefault (argv : Option (List Str)) : Bool := argv.getD [] = []

def parseCommands : Option (List Str) :=
  let cmd := parseOptionalArgv data "cmd"
  let commands := parseOptionalArgv data "commands"
  let chosen := if commands.2 then commands.1 else if cmd.2 then cmd.1 else none
  if usesImageDefault chosen then none else chosen

def parseEntrypoint : Option (List Str) :=
  let entrypoint := parseOptionalArgv data "entrypoint"
  if !entrypoint.2 || usesImageDefault entrypoint.1 then none else entrypoint.1

def parseCatalog (raw : Object ℚ) : Option Catalog :=
  let cat : Catalog :=
    { bindPath := (str? raw "bindPath").getD []
      permissions := (str? raw "permissions").getD []
      items := (objects ((arr? raw "items").getD [])).filterMap fun item =>
        (str? item "name").map CatalogItem.mk }
  let cat := cat.normalizeDefaults p
  if !cat.hasItems && cat.bindPath = [] then none else some cat

def parseStringMap : StrMap Str :=
  ofEntries <| ((obj? data key).getD []).filterMap fun e =>
    if trimSpace e.1 = [] then none else some (trimSpace e.1, jsonString p e.2)

def parseUlimit (e : Str × Value ℚ) : Option (Str × Ulimit) :=
  match e.2 with
  | .obj limits =>
    match jsonInt64 p limits "soft", jsonInt64 p limits "hard" with
    | some soft, some hard => some (e.1, ⟨soft, hard⟩)
    | _, _ => none
  | _ => none

def parseUlimits : StrMap Ulimit :=
  ofEntries <| ((obj? data key).getD []).filterMap (parseUlimit p)

def parseDevice (dev : Object ℚ) : DeviceMapping where
  hostPath := (str? dev "hostPath").getD []
  containerPath := (str? dev "containerPath").getD []
  permissions := (str? dev "permissions").getD []

def octal (n : ℤ) : Str :=
  if n < 0 then '-' :: Nat.toDigits 8 n.natAbs else Nat.toDigits 8 n.natAbs

def parseTmpfsMount (mount : Object ℚ) : TmpfsMount where
  containerPath := (str? mount "containerPath").getD []
  size := jsonInt64 p mount "size"
  mode := (str? mount "mode").getD (((jsonInt64 p mount "mode").map octal).getD [])

def parseHealthcheck (hc : Object ℚ) : Healthcheck where
  test := strings? hc "test"
  interval := jsonInt64 p hc "interval"
  timeout := jsonInt64 p hc "timeout"
  startPeriod := jsonInt64 p hc "startPeriod"
  startInterval := jsonInt64 p hc "startInterval"
  retries := (num? hc "retries").map p.toInt

def parseStringArray : List Str :=
  (strings? data key).filter (trimSpace · ≠ [])

def parseServiceAccountRule (rule : Object ℚ) : ServiceAccountRule where
  apiGroups := (parseStringArray rule "apiGroups").insertionSort (· ≤ ·)
  resources := (parseStringArray rule "resources").insertionSort (· ≤ ·)
  verbs := canonicalizeVerbs p (parseStringArray rule "verbs")
  resourceNames := (parseStringArray rule "resourceNames").insertionSort (· ≤ ·)

def parseServiceAccount (sa : Object ℚ) : ServiceAccount where
  name := (str? sa "name").getD []
  roleRef :=
    let roleRef := (obj? sa "roleRef").getD []
    ⟨(str? roleRef "kind").getD [], (str? roleRef "name").getD []⟩
  rules := (objects ((arr? sa "rules").getD [])).map (parseServiceAccountRule p)

/-! ## Microservices -/

inductive ParseError
  | missingRequiredFields
  | groups (e : GroupsError)

def ParseError.message : ParseError → Str
  | .missingRequiredFields => "missing required fields: uuid or imageId".toList
  | .groups e => e.message p

def parseSupplementalGroups : Except GroupsError (List ℤ) :=
  match data.lookup "supplementalGroups".toList with
  | some raw => normalizeSupplementalGroups p raw
  | none => .ok []

def parseImage : Str :=
  let imageID := (str? data "imageId").getD []
  if imageID = [] then (str? data "imageName").getD [] else imageID

def microserviceOf (groups : List ℤ) : Microservice where
  microserviceUUID := (str? data "uuid").getD []
  imageName := parseImage data
  config := str? data "config"
  runAsUser := str? data "runAsUser"
  platform := str? data "platform"
  runtime := str? data "runtime"
  rebuild := (bool? data "rebuild").getD false
  hostNetworkMode := (bool? data "hostNetworkMode").getD false
  isPrivileged := (bool? data "isPrivileged").getD false
  registryID := ((num? data "registryId").map p.toInt).getD 0
  schedule := ((num? data "schedule").map p.toInt).getD 0
  logSize := ((num? data "logSize").map p.toInt64).getD 0
  delete := (bool? data "delete").getD false
  deleteWithCleanup := (bool? data "deleteWithCleanup").getD false
  isRouter := (bool? data "isRouter").getD false
  microserviceName := (str? data "name").getD []
  applicationName := (str? data "application").getD []
  isNats := (bool? data "isNats").getD false
  isController := (bool? data "isController").getD false
  isSystem := (bool? data "isSystem").getD false
  portMappings := (objects ((arr? data "portMappings").getD [])).filterMap
    (parsePortMappingFromController p)
  volumeMappings := (objects ((arr? data "volumeMappings").getD [])).map parseVolumeMapping
  envVars := (objects ((arr? data "env").getD [])).filterMap parseEnvVar
  memoryLimit := (jsonInt64 p data "memoryLimit").map mibToBytes
  commands := parseCommands data
  args := (parseCommands data).getD []
  entrypoint := parseEntrypoint data
  runAsGroup := nonBlank? data "runAsGroup"
  supplementalGroups := groups
  workingDir := nonBlank? data "workingDir"
  readOnlyRootFilesystem := (bool? data "readOnlyRootFilesystem").getD false
  cpus := num? data "cpus"
  memoryReservation := (jsonInt64 p data "memoryReservation").map mibToBytes
  memorySwap := (jsonInt64 p data "memorySwap").map swapToBytes
  shmSize := (jsonInt64 p data "shmSize").map mibToBytes
  sysctls := parseStringMap p data "sysctls"
  ulimits := parseUlimits p data "ulimits"
  devices := (objects ((arr? data "devices").getD [])).map parseDevice
  tmpfs := (objects ((arr? data "tmpfs").getD [])).map (parseTmpfsMount p)
  models := (obj? data "models").bind (parseCatalog p)
  knowledge := (obj? data "knowledge").bind (parseCatalog p)
  cdiDevs := strings? data "cdiDevices"
  annotations := nonEmpty? data "annotations"
  capAdd := strings? data "capAdd"
  capDrop := strings? data "capDrop"
  extraHosts := strings? data "extraHosts"
  pidMode := nonEmpty? data "pidMode"
  ipcMode := nonEmpty? data "ipcMode"
  cpuSetCpus := nonEmpty? data "cpuSetCpus"
  healthcheck := (obj? data "healthCheck").map (parseHealthcheck p)
  serviceAccount := (obj? data "serviceAccount").map (parseServiceAccount p)

def parseMicroservice : Except ParseError Microservice :=
  if (str? data "uuid").getD [] = [] ∨ parseImage data = [] then .error .missingRequiredFields
  else
    match parseSupplementalGroups p data with
    | .error e => .error (.groups e)
    | .ok groups => .ok (microserviceOf p data groups)

end

def parseMicroservices (answer : List (Value ℚ)) : List Microservice :=
  (objects answer).filterMap fun data => (parseMicroservice p data).toOption

end Parse

/-! ## Parsed microservices are normal -/

section Normal

variable {p : Platform}

theorem bound_of_parseCatalog {raw : Object ℚ} {cat : Catalog}
    (h : parseCatalog p raw = some cat) : cat.Bound p := by
  simp only [parseCatalog] at h
  split at h
  · cases h
  next hnamed =>
    obtain rfl := Option.some.inj h
    refine ⟨Catalog.normalizeDefaults_normalizeDefaults p _, ?_⟩
    rw [Bool.and_eq_true, not_and_or] at hnamed
    rcases hnamed with hitems | hpath
    · exact .inl (by simpa using hitems)
    · exact .inr (by simpa using hpath)

theorem normal_of_parseSupplementalGroups {data : Object ℚ} {groups : List ℤ}
    (h : parseSupplementalGroups p data = .ok groups) : normalizeGIDList groups = .ok groups := by
  unfold parseSupplementalGroups at h
  split at h
  next raw _ =>
    unfold normalizeSupplementalGroups at h
    split at h
    · cases h
      rfl
    next vs _ =>
      cases hgids : vs.mapM (supplementalGID p) with
      | error e => rw [hgids] at h; cases h
      | ok gids =>
        rw [hgids] at h
        exact normalizeGIDList_of_ok h
    · cases h
  · cases h
    rfl

/-- **A parsed microservice is normal**, so that the store keeps it as it is. -/
theorem normal_of_parse {data : Object ℚ} {ms : Microservice}
    (h : parseMicroservice p data = .ok ms) : Normal p ms := by
  unfold parseMicroservice at h
  split at h
  · cases h
  · split at h
    · cases h
    next groups hgroups =>
      cases h
      refine ⟨normal_of_parseSupplementalGroups hgroups, fun c hc => ?_, fun c hc => ?_⟩
      · obtain ⟨raw, -, hraw⟩ := Option.bind_eq_some_iff.mp hc
        exact bound_of_parseCatalog hraw
      · obtain ⟨raw, -, hraw⟩ := Option.bind_eq_some_iff.mp hc
        exact bound_of_parseCatalog hraw

theorem normal_of_mem_parse {answer : List (Value ℚ)} {ms : Microservice}
    (h : ms ∈ parseMicroservices p answer) : Normal p ms := by
  obtain ⟨data, -, hdata⟩ := List.mem_filterMap.mp h
  cases hparse : parseMicroservice p data with
  | error e => rw [hparse] at hdata; cases hdata
  | ok ms' =>
    rw [hparse] at hdata
    cases hdata
    exact normal_of_parse hparse

end Normal

/-! ## Restarts -/

/-- The fields that `parseMicroservice` sets. The agent fills in the others while it runs. -/
def parsedFields (ms : Microservice) : Microservice :=
  { ms with
    containerID := []
    containerIPAddress := none
    isUpdating := false
    isStuckInRestart := false }

theorem parsedFields_stored_iff (ms : Microservice) :
    parsedFields (stored ms) = parsedFields ms ↔
      ms.isController = false ∧ ms.isSystem = false ∧ ms.serviceAccount = none := by
  constructor
  · intro h
    exact ⟨(congrArg Microservice.isController h).symm, (congrArg Microservice.isSystem h).symm,
      (congrArg Microservice.serviceAccount h).symm⟩
  · rintro ⟨hcontroller, hsystem, haccount⟩
    cases ms
    cases hcontroller
    cases hsystem
    cases haccount
    rfl

/-- **Which lists survive a restart**: the list of an answer is saved without an error, and what is
then loaded is, under every identifier and in every field that the parser sets, what was saved if
and only if no microservice saved under an identifier is marked as the controller or as a system
microservice or has a service account. -/
theorem restart_keeps_iff (p : Platform) (answer : List (Value ℚ)) (db : DB)
    (order : List (Str × ℤ)) :
    let list := parseMicroservices p answer
    let saved := saveControllerMicroservices db ⟨list, order, none⟩
    saved.2 = none ∧
      ((∀ uuid, ((loadControllerMicroservices p saved.1).find? fun ms =>
            ms.microserviceUUID = uuid).map parsedFields =
          (savedUnder uuid list).map parsedFields) ↔
        ∀ uuid, ∀ ms ∈ savedUnder uuid list,
          ms.isController = false ∧ ms.isSystem = false ∧ ms.serviceAccount = none) := by
  intro list saved
  have hnormal : ∀ ms ∈ list, Normal p ms := fun ms hms => normal_of_mem_parse hms
  refine ⟨(save_of_normal hnormal db order).1, forall_congr' fun uuid => ?_⟩
  rw [find_load_of_normal hnormal db order uuid]
  cases savedUnder uuid list with
  | none => simp
  | some ms => simp [parsedFields_stored_iff]

def systemObject : Object ℚ :=
  [("uuid".toList, .str "a".toList), ("imageId".toList, .str "router".toList),
    ("isSystem".toList, .bool true),
    ("serviceAccount".toList, .obj [("name".toList, .str "router".toList)])]

/-- **A restart loses the mark and the account**: the answer holds one system microservice with a
service account, it is saved without an error, and what is loaded has neither. -/
theorem system_mark_lost :
    let list := parseMicroservices Platform.ascii [.obj systemObject]
    let saved := saveControllerMicroservices blank ⟨list, [], none⟩
    saved.2 = none ∧
      list.map (fun ms => (ms.microserviceUUID, ms.isSystem, ms.serviceAccount.isSome)) =
        [("a".toList, true, true)] ∧
      (loadControllerMicroservices Platform.ascii saved.1).map
          (fun ms => (ms.microserviceUUID, ms.isSystem, ms.serviceAccount.isSome)) =
        [("a".toList, false, false)] := by
  exact of_decide_eq_true rfl

end Edgelet.FieldAgent
