import Mathlib.Algebra.Field.Rat
import Edgelet.Codec.JsonText
import Edgelet.Store.PersistentVolumes

/-!
# Microservices

A microservice as the agent holds it, with the JSON codecs that the structure tags spell and the
normal forms of catalogs and supplemental groups. A nil slice or map and an empty one are the same
value here. Optional fields are pointers: nil and a pointer to an empty value differ.
-/

namespace Edgelet.Models

open Lexical Json

/-- The conversions that Go leaves to the platform where the number does not fit, the texts that
its library prints, and the lower case of a character. -/
structure Platform where
  toInt : ℚ → ℤ
  toInt64 : ℚ → ℤ
  /-- The text of a value, as `fmt.Sprint` and the verb `%v` print it. -/
  sprint : Value ℚ → Str
  /-- The text that the verb `%q` prints. -/
  quote : Str → Str
  lower : Char → Char
  lower_ascii : ∀ c, c.toNat < 128 → lower c = c.toLower
  lower_lower : ∀ c, lower (lower c) = lower c
  isSpace_lower : ∀ c, isSpace (lower c) = isSpace c

section

variable (p : Platform) (gids : List ℤ) (c : Catalog) (s : Str)

def Platform.toLower : Str := s.map p.lower

theorem toLower_eq_self {c : Char} (h : 128 ≤ c.toNat) : c.toLower = c := by
  unfold Char.toLower
  split
  next hupper =>
    have hle : c.toNat ≤ 90 := hupper.2
    omega
  · rfl

theorem forall_char_of_ascii {P : Char → Prop} (hascii : ∀ n < 128, P (Char.ofNat n))
    (hself : ∀ c, c.toLower = c → P c) (c : Char) : P c := by
  by_cases hc : c.toNat < 128
  · exact Char.ofNat_toNat c ▸ hascii c.toNat hc
  · exact hself c (toLower_eq_self (not_lt.mp hc))

def Platform.ascii : Platform where
  toInt x := x.num.tdiv x.den
  toInt64 x := x.num.tdiv x.den
  sprint _ := []
  quote s := '"' :: s ++ ['"']
  lower := Char.toLower
  lower_ascii _ _ := rfl
  lower_lower := forall_char_of_ascii (by decide) fun c h => by rw [h, h]
  isSpace_lower := forall_char_of_ascii (by decide) fun c h => by rw [h]

/-! ## The parts of a microservice -/

structure PortMapping where
  outside : ℤ
  inside : ℤ
  udp : Bool
  deriving DecidableEq, Inhabited

def PortMapping.codec : Codec PortMapping :=
  .struct
    (Fields.required "outside".toList PortMapping.outside .int
      |>.and (.required "inside".toList PortMapping.inside .int)
      |>.and (.required "udp".toList PortMapping.udp .bool))
    fun ((outside, inside), udp) => { outside, inside, udp }

inductive VolumeMappingType
  | empty
  | volume
  | bind
  | volumeMount
  deriving DecidableEq

instance : Inhabited VolumeMappingType := ⟨.empty⟩

def VolumeMappingType.text : VolumeMappingType → Str
  | .empty => []
  | .volume => "VOLUME".toList
  | .bind => "BIND".toList
  | .volumeMount => "VOLUME_MOUNT".toList

def VolumeMappingType.ofText : Option VolumeMappingType :=
  [VolumeMappingType.empty, .volume, .bind, .volumeMount].find? fun t => t.text = s

structure VolumeMapping where
  hostDestination : Str
  containerDestination : Str
  accessMode : Str
  type : VolumeMappingType
  scope : Str
  deriving Inhabited

def VolumeMappingType.codec : Codec VolumeMappingType :=
  .text text ofText (by intro t; cases t <;> rfl)

def VolumeMapping.codec : Codec VolumeMapping :=
  .struct
    (Fields.required "hostDestination".toList VolumeMapping.hostDestination .str
      |>.and (.required "containerDestination".toList VolumeMapping.containerDestination .str)
      |>.and (.required "accessMode".toList VolumeMapping.accessMode .str)
      |>.and (.required "type".toList VolumeMapping.type VolumeMappingType.codec)
      |>.and (.omitEmpty "scope".toList VolumeMapping.scope .str))
    fun ((((hostDestination, containerDestination), accessMode), type), scope) =>
      { hostDestination, containerDestination, accessMode, type, scope }

structure EnvVar where
  key : Str
  value : Str
  deriving Inhabited

def EnvVar.codec : Codec EnvVar :=
  .struct
    (Fields.required "key".toList EnvVar.key .str
      |>.and (.required "value".toList EnvVar.value .str))
    fun (key, value) => { key, value }

structure Healthcheck where
  test : List Str := []
  interval : Option ℤ := none
  timeout : Option ℤ := none
  startPeriod : Option ℤ := none
  startInterval : Option ℤ := none
  retries : Option ℤ := none

def Healthcheck.codec : Codec Healthcheck :=
  .struct
    (Fields.required "test".toList Healthcheck.test (.list .str)
      |>.and (.pointer "interval".toList Healthcheck.interval .int)
      |>.and (.pointer "timeout".toList Healthcheck.timeout .int)
      |>.and (.pointer "startPeriod".toList Healthcheck.startPeriod .int)
      |>.and (.pointer "startInterval".toList Healthcheck.startInterval .int)
      |>.and (.pointer "retries".toList Healthcheck.retries .int))
    fun (((((test, interval), timeout), startPeriod), startInterval), retries) =>
      { test, interval, timeout, startPeriod, startInterval, retries }

structure Ulimit where
  soft : ℤ
  hard : ℤ
  deriving DecidableEq

def Ulimit.codec : Codec Ulimit :=
  .struct
    (Fields.required "soft".toList Ulimit.soft .int
      |>.and (.required "hard".toList Ulimit.hard .int))
    fun (soft, hard) => { soft, hard }

structure DeviceMapping where
  hostPath : Str
  containerPath : Str
  permissions : Str
  deriving DecidableEq

def DeviceMapping.codec : Codec DeviceMapping :=
  .struct
    (Fields.required "hostPath".toList DeviceMapping.hostPath .str
      |>.and (.required "containerPath".toList DeviceMapping.containerPath .str)
      |>.and (.omitEmpty "permissions".toList DeviceMapping.permissions .str))
    fun ((hostPath, containerPath), permissions) => { hostPath, containerPath, permissions }

structure TmpfsMount where
  containerPath : Str
  size : Option ℤ
  mode : Str
  deriving DecidableEq

def TmpfsMount.codec : Codec TmpfsMount :=
  .struct
    (Fields.required "containerPath".toList TmpfsMount.containerPath .str
      |>.and (.pointer "size".toList TmpfsMount.size .int)
      |>.and (.omitEmpty "mode".toList TmpfsMount.mode .str))
    fun ((containerPath, size), mode) => { containerPath, size, mode }

/-! ## Catalogs -/

structure CatalogItem where
  name : Str
  deriving DecidableEq

def CatalogItem.codec : Codec CatalogItem :=
  .struct (Fields.required "name".toList CatalogItem.name .str) fun name => { name }

/-- The binding of models or of knowledge into a container; the two source types have the same
fields, tags and methods. -/
structure Catalog where
  bindPath : Str
  permissions : Str
  items : List CatalogItem

abbrev ModelCatalog := Catalog

abbrev KnowledgeCatalog := Catalog

def Catalog.fields : Fields Catalog ((Str × Str) × List CatalogItem) :=
  Fields.omitEmpty "bindPath".toList Catalog.bindPath .str
    |>.and (.omitEmpty "permissions".toList Catalog.permissions .str)
    |>.and (.omitEmpty "items".toList Catalog.items (.list CatalogItem.codec))

def Catalog.codec : Codec Catalog :=
  .struct fields fun ((bindPath, permissions), items) => { bindPath, permissions, items }

def Catalog.hasItems : Bool := !c.items.isEmpty

def Catalog.permissionsOf (hasItems : Bool) (raw : Str) : Str :=
  let permissions := p.toLower (trimSpace raw)
  if hasItems ∧ permissions = [] then "ro".toList else permissions

def Catalog.normalizeDefaults : Catalog :=
  { bindPath := trimSpace c.bindPath
    permissions := permissionsOf p c.hasItems c.permissions
    items := c.items.map fun item => { item with name := trimSpace item.name } }

theorem Platform.trimSpace_toLower : trimSpace (p.toLower s) = p.toLower (trimSpace s) := by
  have hspace : isSpace ∘ p.lower = isSpace := funext p.isSpace_lower
  simp only [trimSpace, Platform.toLower, List.rdropWhile, List.dropWhile_map, hspace,
    ← List.map_reverse]

theorem Platform.toLower_toLower : p.toLower (p.toLower s) = p.toLower s := by
  simp only [Platform.toLower, List.map_map]
  exact List.map_congr_left fun c _ => p.lower_lower c

theorem Platform.toLower_ro : p.toLower (trimSpace "ro".toList) = "ro".toList := by
  have htrim : trimSpace "ro".toList = ['r', 'o'] := rfl
  rw [htrim, Platform.toLower, List.map_cons, List.map_cons, List.map_nil,
    p.lower_ascii 'r' (by decide), p.lower_ascii 'o' (by decide)]
  rfl

theorem Catalog.permissionsOf_permissionsOf (hasItems : Bool) (raw : Str) :
    permissionsOf p hasItems (permissionsOf p hasItems raw) = permissionsOf p hasItems raw := by
  have hlow : p.toLower (trimSpace (p.toLower (trimSpace raw))) = p.toLower (trimSpace raw) := by
    rw [p.trimSpace_toLower, p.toLower_toLower, trimSpace_trimSpace]
  by_cases hro : hasItems ∧ p.toLower (trimSpace raw) = []
  · have hval : permissionsOf p hasItems raw = "ro".toList := if_pos hro
    rw [hval, permissionsOf, p.toLower_ro]
    exact if_neg fun h => nomatch h.2
  · have hval : permissionsOf p hasItems raw = p.toLower (trimSpace raw) := if_neg hro
    rw [hval, permissionsOf, hlow]
    exact if_neg hro

/-- **A normal catalog is left alone.** -/
theorem Catalog.normalizeDefaults_normalizeDefaults :
    (c.normalizeDefaults p).normalizeDefaults p = c.normalizeDefaults p := by
  have hitems : (c.normalizeDefaults p).hasItems = c.hasItems := by
    simp [Catalog.hasItems, Catalog.normalizeDefaults]
  rw [Catalog.normalizeDefaults, hitems]
  simp only [Catalog.normalizeDefaults]
  congr 1
  · exact trimSpace_trimSpace _
  · exact permissionsOf_permissionsOf p _ _
  · simp [Function.comp_def, trimSpace_trimSpace]

/-- A catalog that a microservice may hold: in normal form, and not without both a path and
items. -/
structure Catalog.Bound (p : Platform) (c : Catalog) : Prop where
  normal : c.normalizeDefaults p = c
  named : c.hasItems ∨ c.bindPath ≠ []

theorem Catalog.Bound.fields_ne_nil {p : Platform} {c : Catalog} (h : c.Bound p) :
    Catalog.fields.encode c ≠ [] := by
  intro hnil
  rw [Catalog.fields, Fields.encode_and, Fields.encode_and] at hnil
  obtain ⟨hpair, hitems⟩ := List.append_eq_nil_iff.mp hnil
  obtain ⟨hpath, -⟩ := List.append_eq_nil_iff.mp hpair
  rcases h.named with hne | hne
  · have hne : c.items ≠ [] := by simpa [Catalog.hasItems] using hne
    exact Fields.encode_omitEmpty_ne_nil hne hitems
  · exact Fields.encode_omitEmpty_ne_nil hne hpath

/-! ## Supplemental groups -/

inductive GroupsError
  | notAList
  | notNumeric (value : Value ℚ)
  | notWhole (n : ℚ)
  | negativeNumber (n : ℚ)
  | outOfRange (n : ℚ)
  | tooMany
  | negative (gid : ℤ)
  | duplicate (gid : ℤ)

def entryMessage (entry : Str) (problem : String) : Str :=
  "supplementalGroups entry ".toList ++ entry ++ problem.toList

def GroupsError.message : GroupsError → Str
  | .notAList => "supplementalGroups must be a list of numeric host group IDs".toList
  | .notNumeric (.str s) => entryMessage (p.quote s) " must be a numeric host group ID"
  | .notNumeric v => entryMessage (p.sprint v) " must be a numeric host group ID"
  | .notWhole n => entryMessage (p.sprint (.num n)) " must be a whole number"
  | .negativeNumber n => entryMessage (p.sprint (.num n)) " must be a non-negative integer"
  | .outOfRange n => entryMessage (p.sprint (.num n)) " is out of range"
  | .tooMany => "supplementalGroups accepts at most 16 entries".toList
  | .negative gid => entryMessage (intText gid) " must be a non-negative integer"
  | .duplicate gid => "supplementalGroups contains duplicate group ID ".toList ++ intText gid

def maxSupplementalGroups : ℕ := 16

def gidFromFloat (n : ℚ) : Except GroupsError ℤ :=
  if ((n.num.tdiv n.den : ℤ) : ℚ) ≠ n then .error (.notWhole n)
  else if n < 0 then .error (.negativeNumber n)
  else if 2 ^ 63 ≤ n then .error (.outOfRange n)
  else if ((p.toInt64 n : ℤ) : ℚ) ≠ n then .error (.outOfRange n)
  else .ok (p.toInt64 n)

def supplementalGID : Value ℚ → Except GroupsError ℤ
  | .num n => gidFromFloat p n
  | v => .error (.notNumeric v)

def checkGIDs : Option ℤ → List ℤ → Except GroupsError Unit
  | _, [] => .ok ()
  | previous, gid :: gids =>
    if gid < 0 then .error (.negative gid)
    else if previous = some gid then .error (.duplicate gid)
    else checkGIDs (some gid) gids

def sortGIDs : List ℤ := gids.insertionSort (· ≤ ·)

def normalizeGIDList : Except GroupsError (List ℤ) :=
  if gids.length > maxSupplementalGroups then .error .tooMany
  else (checkGIDs none (sortGIDs gids)).map fun _ => sortGIDs gids

def normalizeSupplementalGroups : Value ℚ → Except GroupsError (List ℤ)
  | .null => .ok []
  | .arr vs => vs.mapM (supplementalGID p) >>= normalizeGIDList
  | _ => .error .notAList

theorem sortGIDs_sortGIDs : sortGIDs (sortGIDs gids) = sortGIDs gids :=
  (List.pairwise_insertionSort (· ≤ ·) gids).insertionSort_eq

theorem length_sortGIDs : (sortGIDs gids).length = gids.length :=
  List.length_insertionSort _ gids

/-- **A normal list of groups is left alone.** -/
theorem normalizeGIDList_of_ok {gids normal : List ℤ} (h : normalizeGIDList gids = .ok normal) :
    normalizeGIDList normal = .ok normal := by
  unfold normalizeGIDList at h
  split at h
  · cases h
  · rename_i hlen
    cases hcheck : checkGIDs none (sortGIDs gids) with
    | error e => simp [hcheck, Except.map] at h
    | ok u =>
      simp only [hcheck, Except.map, Except.ok.injEq] at h
      subst h
      rw [normalizeGIDList, length_sortGIDs, if_neg hlen, sortGIDs_sortGIDs, hcheck]
      rfl

/-! ## Service accounts -/

structure ServiceAccountRoleRef where
  kind : Str := []
  name : Str := []

structure ServiceAccountRule where
  apiGroups : List Str
  resources : List Str
  verbs : List Str
  resourceNames : List Str

structure ServiceAccount where
  name : Str
  roleRef : ServiceAccountRoleRef
  rules : List ServiceAccountRule

def canonicalVerb (v : Str) : Str :=
  if v = "put".toList ∨ v = "patch".toList then "update".toList
  else if v = "post".toList then "create".toList
  else if v = "remove".toList then "delete".toList
  else v

def canonicalizeVerbs (verbs : List Str) : List Str :=
  let canonical := verbs.map fun verb => canonicalVerb (p.toLower (trimSpace verb))
  ((canonical.filter (· ≠ [])).dedup).insertionSort (· ≤ ·)

end

/-! ## Microservices -/

def mibToBytes (mb : ℤ) : ℤ := (mb * 1024 * 1024).bmod (2 ^ 64)

def swapToBytes (mb : ℤ) : ℤ := if mb = -1 then -1 else mibToBytes mb

/-- `Microservice`. The labels are not read by any function modelled here. -/
structure Microservice where
  microserviceUUID : Str
  imageName : Str
  portMappings : List PortMapping := []
  config : Option Str := none
  runAsUser : Option Str := none
  runAsGroup : Option Str := none
  supplementalGroups : List ℤ := []
  platform : Option Str := none
  runtime : Option Str := none
  containerID : Str := []
  registryID : ℤ := 0
  containerIPAddress : Option Str := none
  rebuild : Bool := false
  hostNetworkMode : Bool := false
  isPrivileged : Bool := false
  logSize : ℤ := 0
  volumeMappings : List VolumeMapping := []
  isUpdating : Bool := false
  envVars : List EnvVar := []
  args : List Str := []
  entrypoint : Option (List Str) := none
  commands : Option (List Str) := none
  cdiDevs : List Str := []
  annotations : Option Str := none
  capAdd : List Str := []
  capDrop : List Str := []
  extraHosts : List Str := []
  isRouter : Bool := false
  isController : Bool := false
  isSystem : Bool := false
  pidMode : Option Str := none
  ipcMode : Option Str := none
  microserviceName : Str := []
  applicationName : Str := []
  isNats : Bool := false
  schedule : ℤ := 0
  cpuSetCpus : Option Str := none
  cpus : Option ℚ := none
  memoryLimit : Option ℤ := none
  memoryReservation : Option ℤ := none
  memorySwap : Option ℤ := none
  shmSize : Option ℤ := none
  readOnlyRootFilesystem : Bool := false
  sysctls : StrMap Str := ∅
  ulimits : StrMap Ulimit := ∅
  devices : List DeviceMapping := []
  tmpfs : List TmpfsMount := []
  workingDir : Option Str := none
  models : Option ModelCatalog := none
  knowledge : Option KnowledgeCatalog := none
  serviceAccount : Option ServiceAccount := none
  delete : Bool := false
  deleteWithCleanup : Bool := false
  isStuckInRestart : Bool := false
  healthcheck : Option Healthcheck := none

end Edgelet.Models
