import Edgelet.Codec.JsonText
import Edgelet.Keyed.Canonical
import Edgelet.Models.Microservice

/-!
# Hardware fingerprints

Before a `FingerprintPayload` is written as a JSON text its strings are trimmed and lower-cased, its
lists are sorted, and in most of them the repetitions are dropped. The text that is hashed leaves
out the states of the links and the PCR file of the TPM.

A list of the payload is shared with the caller of `normalizeFingerprintPayload`: `sortSlices` is
what they find.
-/

namespace Edgelet.EdgeGuard

open Lexical Json Keyed

/-! ## Payloads -/

structure SystemIdentity where
  uuid : Str := []
  serial : Str := []
  manufacturer : Str := []
  model : Str := []
  deriving DecidableEq, Inhabited

structure BIOSIdentity where
  manufacturer : Str := []
  version : Str := []
  deriving DecidableEq, Inhabited

structure MotherboardIdentity where
  product : Str := []
  serial : Str := []
  deriving DecidableEq, Inhabited

structure CPUIdentity where
  vendor : Str := []
  modelName : Str := []
  family : Str := []
  model : Str := []
  stepping : ℤ := 0
  physicalCores : ℤ := 0
  deriving DecidableEq, Inhabited

structure PCIDeviceIdentity where
  slot : Str
  deviceClass : Str
  vendorID : Str
  deviceID : Str
  subsystemVendor : Str
  subsystemDevice : Str
  deriving DecidableEq, Inhabited

structure GPUDeviceIdentity where
  slot : Str
  vendorID : Str
  deviceID : Str
  deviceClass : Str
  deriving DecidableEq, Inhabited

structure PlatformDeviceIdentity where
  type : Str
  name : Str
  value : Str
  deriving DecidableEq, Inhabited

structure DiskIdentity where
  deviceID : Str := []
  serial : Str := []
  wwn : Str := []
  model : Str := []
  deriving DecidableEq, Inhabited

structure NICIdentity where
  name : Str
  mac : Str
  linkState : Str
  deriving DecidableEq, Inhabited

structure USBDeviceIdentity where
  busPath : Str
  vendorID : Str
  productID : Str
  manufacturer : Str
  product : Str
  serial : Str
  deriving DecidableEq, Inhabited

structure MemoryModuleIdentity where
  locator : Str
  serial : Str
  partNumber : Str
  deriving DecidableEq, Inhabited

structure FirmwareIdentity where
  secureBootState : Str := []
  deriving DecidableEq, Inhabited

structure TPMIdentity where
  present : Bool := false
  ekFingerprint : Str := []
  pcrPolicyHash : Str := []
  deriving DecidableEq, Inhabited

structure OptionalFingerprintSignals where
  memoryModules : List MemoryModuleIdentity := []
  firmware : FirmwareIdentity := {}
  tpm : TPMIdentity := {}
  dmiBoardUUID : Str := []
  machineID : Str := []
  deriving DecidableEq, Inhabited

structure FingerprintPayload where
  schemaVersion : ℤ := 0
  system : SystemIdentity := {}
  bios : BIOSIdentity := {}
  motherboard : MotherboardIdentity := {}
  cpu : CPUIdentity := {}
  pciDevices : List PCIDeviceIdentity := []
  gpuDevices : List GPUDeviceIdentity := []
  platformDevices : List PlatformDeviceIdentity := []
  rootDisk : DiskIdentity := {}
  primaryNICs : List NICIdentity := []
  usbDevices : List USBDeviceIdentity := []
  optional : OptionalFingerprintSignals := {}
  deriving DecidableEq, Inhabited

/-! ## Documents -/

section Documents

open Fields

def strField {σ : Type} (name : String) (get : σ → Str) : Fields σ Str :=
  omitEmpty name.toList get Codec.str

def systemCodec : Codec SystemIdentity :=
  Codec.struct
    ((strField "uuid" (·.uuid)).and <| (strField "serial" (·.serial)).and <|
      (strField "manufacturer" (·.manufacturer)).and <| strField "model" (·.model))
    fun (a, b, c, d) => ⟨a, b, c, d⟩

def biosCodec : Codec BIOSIdentity :=
  Codec.struct ((strField "manufacturer" (·.manufacturer)).and <| strField "version" (·.version))
    fun p => ⟨p.1, p.2⟩

def motherboardCodec : Codec MotherboardIdentity :=
  Codec.struct ((strField "product" (·.product)).and <| strField "serial" (·.serial))
    fun p => ⟨p.1, p.2⟩

def cpuCodec : Codec CPUIdentity :=
  Codec.struct
    ((strField "vendor" (·.vendor)).and <| (strField "modelName" (·.modelName)).and <|
      (strField "family" (·.family)).and <| (strField "model" (·.model)).and <|
      (omitEmpty "stepping".toList (·.stepping) Codec.int).and <|
      omitEmpty "physicalCores".toList (·.physicalCores) Codec.int)
    fun (a, b, c, d, e, f) => ⟨a, b, c, d, e, f⟩

def pciDeviceCodec : Codec PCIDeviceIdentity :=
  Codec.struct
    ((strField "slot" (·.slot)).and <| (strField "class" (·.deviceClass)).and <|
      (strField "vendorId" (·.vendorID)).and <| (strField "deviceId" (·.deviceID)).and <|
      (strField "subsystemVendor" (·.subsystemVendor)).and <|
      strField "subsystemDevice" (·.subsystemDevice))
    fun (a, b, c, d, e, f) => ⟨a, b, c, d, e, f⟩

def gpuDeviceCodec : Codec GPUDeviceIdentity :=
  Codec.struct
    ((strField "slot" (·.slot)).and <| (strField "vendorId" (·.vendorID)).and <|
      (strField "deviceId" (·.deviceID)).and <| strField "class" (·.deviceClass))
    fun (a, b, c, d) => ⟨a, b, c, d⟩

def platformDeviceCodec : Codec PlatformDeviceIdentity :=
  Codec.struct
    ((strField "type" (·.type)).and <| (strField "name" (·.name)).and <|
      strField "value" (·.value))
    fun (a, b, c) => ⟨a, b, c⟩

def diskCodec : Codec DiskIdentity :=
  Codec.struct
    ((strField "deviceId" (·.deviceID)).and <| (strField "serial" (·.serial)).and <|
      (strField "wwn" (·.wwn)).and <| strField "model" (·.model))
    fun (a, b, c, d) => ⟨a, b, c, d⟩

def nicCodec : Codec NICIdentity :=
  Codec.struct
    ((strField "name" (·.name)).and <| (strField "mac" (·.mac)).and <|
      strField "linkState" (·.linkState))
    fun (a, b, c) => ⟨a, b, c⟩

def usbDeviceCodec : Codec USBDeviceIdentity :=
  Codec.struct
    ((strField "busPath" (·.busPath)).and <| (strField "vendorId" (·.vendorID)).and <|
      (strField "productId" (·.productID)).and <|
      (strField "manufacturer" (·.manufacturer)).and <| (strField "product" (·.product)).and <|
      strField "serial" (·.serial))
    fun (a, b, c, d, e, f) => ⟨a, b, c, d, e, f⟩

def memoryModuleCodec : Codec MemoryModuleIdentity :=
  Codec.struct
    ((strField "locator" (·.locator)).and <| (strField "serial" (·.serial)).and <|
      strField "partNumber" (·.partNumber))
    fun (a, b, c) => ⟨a, b, c⟩

def firmwareCodec : Codec FirmwareIdentity :=
  Codec.struct (strField "secureBootState" (·.secureBootState)) fun a => ⟨a⟩

def tpmCodec : Codec TPMIdentity :=
  Codec.struct
    ((omitEmpty "present".toList (·.present) Codec.bool).and <|
      (strField "ekFingerprint" (·.ekFingerprint)).and <|
      strField "pcrPolicyHash" (·.pcrPolicyHash))
    fun (a, b, c) => ⟨a, b, c⟩

-- the option `omitempty` never leaves out a structure
def optionalCodec : Codec OptionalFingerprintSignals :=
  Codec.struct
    ((omitEmpty "memoryModules".toList (·.memoryModules) (Codec.list memoryModuleCodec)).and <|
      (required "firmware".toList (·.firmware) firmwareCodec).and <|
      (required "tpm".toList (·.tpm) tpmCodec).and <|
      (strField "dmiBoardUuid" (·.dmiBoardUUID)).and <| strField "machineId" (·.machineID))
    fun (a, b, c, d, e) => ⟨a, b, c, d, e⟩

def fingerprintCodec : Codec FingerprintPayload :=
  Codec.struct
    ((required "schemaVersion".toList (·.schemaVersion) Codec.int).and <|
      (required "system".toList (·.system) systemCodec).and <|
      (required "bios".toList (·.bios) biosCodec).and <|
      (required "motherboard".toList (·.motherboard) motherboardCodec).and <|
      (required "cpu".toList (·.cpu) cpuCodec).and <|
      (required "pciDevices".toList (·.pciDevices) (Codec.list pciDeviceCodec)).and <|
      (omitEmpty "gpuDevices".toList (·.gpuDevices) (Codec.list gpuDeviceCodec)).and <|
      (omitEmpty "platformDevices".toList (·.platformDevices)
        (Codec.list platformDeviceCodec)).and <|
      (required "rootDisk".toList (·.rootDisk) diskCodec).and <|
      (required "primaryNICs".toList (·.primaryNICs) (Codec.list nicCodec)).and <|
      (required "usbDevices".toList (·.usbDevices) (Codec.list usbDeviceCodec)).and <|
      required "optional".toList (·.optional) optionalCodec)
    fun (a, b, c, d, e, f, g, h, i, j, k, l) => ⟨a, b, c, d, e, f, g, h, i, j, k, l⟩

end Documents

/-! ## Canonical forms -/

structure Library where
  lower : Char → Char
  lower_ascii : ∀ c, c.toNat < 128 → lower c = c.toLower
  lower_lower : ∀ c, lower (lower c) = lower c
  isSpace_lower : ∀ c, isSpace (lower c) = isSpace c
  isLower_lower : ∀ c, lower c ≠ c → (lower c).toNat < 128 → (lower c).isLower = true
  slices : SortFunc Str
  sum256 : Str → Str
  sum256_ne_blank : ∀ data, trimSpace (sum256 data) ≠ []

def Library.ascii : Library where
  lower := Models.Platform.ascii.lower
  lower_ascii := Models.Platform.ascii.lower_ascii
  lower_lower := Models.Platform.ascii.lower_lower
  isSpace_lower := Models.Platform.ascii.isSpace_lower
  isLower_lower := Models.forall_char_of_ascii (by decide) fun c h hne => absurd h hne
  slices := SortFunc.merge Str
  sum256 data := 'h' :: data
  sum256_ne_blank data h := by
    rw [trimSpace, List.rdropWhile_eq_nil_iff] at h
    exact absurd (h 'h' (by simp [show isSpace 'h' = false from rfl])) (by decide)

variable (lib : Library)

section

variable (payload : FingerprintPayload) (v : Str)

def normalizeString : Str := (trimSpace v).map lib.lower

@[simp] theorem normalizeString_trimSpace :
    normalizeString lib (trimSpace v) = normalizeString lib v := by
  rw [normalizeString, trimSpace_trimSpace]
  rfl

theorem normalizeString_of_ascii {v : Str} (htrim : trimSpace v = v)
    (hascii : ∀ c ∈ v, c.toNat < 128 ∧ c.toLower = c) : normalizeString lib v = v := by
  rw [normalizeString, htrim]
  refine (List.map_congr_left fun c hc => ?_).trans (List.map_id v)
  rw [lib.lower_ascii c (hascii c hc).1, (hascii c hc).2]
  rfl

def SystemIdentity.normalize (d : SystemIdentity) : SystemIdentity where
  uuid := normalizeString lib d.uuid
  serial := normalizeString lib d.serial
  manufacturer := normalizeString lib d.manufacturer
  model := normalizeString lib d.model

def BIOSIdentity.normalize (d : BIOSIdentity) : BIOSIdentity where
  manufacturer := normalizeString lib d.manufacturer
  version := normalizeString lib d.version

def MotherboardIdentity.normalize (d : MotherboardIdentity) : MotherboardIdentity where
  product := normalizeString lib d.product
  serial := normalizeString lib d.serial

def CPUIdentity.normalize (d : CPUIdentity) : CPUIdentity where
  vendor := normalizeString lib d.vendor
  modelName := normalizeString lib d.modelName
  family := normalizeString lib d.family
  model := normalizeString lib d.model
  stepping := d.stepping
  physicalCores := d.physicalCores

def PCIDeviceIdentity.normalize (d : PCIDeviceIdentity) : PCIDeviceIdentity where
  slot := normalizeString lib d.slot
  deviceClass := normalizeString lib d.deviceClass
  vendorID := normalizeString lib d.vendorID
  deviceID := normalizeString lib d.deviceID
  subsystemVendor := normalizeString lib d.subsystemVendor
  subsystemDevice := normalizeString lib d.subsystemDevice

def GPUDeviceIdentity.normalize (d : GPUDeviceIdentity) : GPUDeviceIdentity where
  slot := normalizeString lib d.slot
  vendorID := normalizeString lib d.vendorID
  deviceID := normalizeString lib d.deviceID
  deviceClass := normalizeString lib d.deviceClass

def PlatformDeviceIdentity.normalize (d : PlatformDeviceIdentity) : PlatformDeviceIdentity where
  type := normalizeString lib d.type
  name := normalizeString lib d.name
  value := normalizeString lib d.value

def DiskIdentity.normalize (d : DiskIdentity) : DiskIdentity where
  deviceID := normalizeString lib d.deviceID
  serial := normalizeString lib d.serial
  wwn := normalizeString lib d.wwn
  model := normalizeString lib d.model

def NICIdentity.normalize (d : NICIdentity) : NICIdentity where
  name := normalizeString lib d.name
  mac := normalizeString lib d.mac
  linkState := normalizeString lib d.linkState

def USBDeviceIdentity.normalize (d : USBDeviceIdentity) : USBDeviceIdentity where
  busPath := normalizeString lib d.busPath
  vendorID := normalizeString lib d.vendorID
  productID := normalizeString lib d.productID
  manufacturer := normalizeString lib d.manufacturer
  product := normalizeString lib d.product
  serial := normalizeString lib d.serial

def MemoryModuleIdentity.normalize (d : MemoryModuleIdentity) : MemoryModuleIdentity where
  locator := normalizeString lib d.locator
  serial := normalizeString lib d.serial
  partNumber := normalizeString lib d.partNumber

def bars (texts : List Str) : Str := ['|'].intercalate texts

def dedupePCIDevices (items : List PCIDeviceIdentity) : List PCIDeviceIdentity :=
  dedupe (fun d => bars [d.slot, d.deviceClass, d.vendorID, d.deviceID, d.subsystemVendor,
    d.subsystemDevice]) items

def dedupeNICs (items : List NICIdentity) : List NICIdentity :=
  dedupe (fun d => bars [d.name, d.mac, d.linkState]) items

def dedupeUSBDevices (items : List USBDeviceIdentity) : List USBDeviceIdentity :=
  dedupe (fun d => bars [d.busPath, d.vendorID, d.productID, d.serial]) items

def dedupeMemoryModules (items : List MemoryModuleIdentity) : List MemoryModuleIdentity :=
  dedupe (fun d => bars [d.locator, d.serial, d.partNumber]) items

/-- What `normalizeFingerprintPayload` does to the lists of its argument, which it shares with the
caller. -/
def sortSlices : FingerprintPayload :=
  { payload with
    pciDevices := lib.slices.sort (fun d => d.slot ++ d.vendorID ++ d.deviceID)
      (payload.pciDevices.map (·.normalize lib))
    gpuDevices := lib.slices.sort (fun d => d.slot ++ d.vendorID ++ d.deviceID)
      (payload.gpuDevices.map (·.normalize lib))
    platformDevices := lib.slices.sort (fun d => d.type ++ d.name ++ d.value)
      (payload.platformDevices.map (·.normalize lib))
    primaryNICs := lib.slices.sort (fun d => d.mac ++ d.name)
      (payload.primaryNICs.map (·.normalize lib))
    usbDevices := lib.slices.sort (fun d => d.busPath ++ d.vendorID ++ d.productID)
      (payload.usbDevices.map (·.normalize lib))
    optional :=
      { payload.optional with
        memoryModules := lib.slices.sort (fun d => d.locator ++ d.serial ++ d.partNumber)
          (payload.optional.memoryModules.map (·.normalize lib)) } }

def normalizeFingerprintPayload : FingerprintPayload :=
  let sorted := sortSlices lib payload
  { schemaVersion := 1
    system := payload.system.normalize lib
    bios := payload.bios.normalize lib
    motherboard := payload.motherboard.normalize lib
    cpu := payload.cpu.normalize lib
    pciDevices := dedupePCIDevices sorted.pciDevices
    gpuDevices := sorted.gpuDevices
    platformDevices := sorted.platformDevices
    rootDisk := payload.rootDisk.normalize lib
    primaryNICs := dedupeNICs sorted.primaryNICs
    usbDevices := dedupeUSBDevices sorted.usbDevices
    optional :=
      { memoryModules := dedupeMemoryModules sorted.optional.memoryModules
        firmware := ⟨normalizeString lib payload.optional.firmware.secureBootState⟩
        tpm :=
          { present := payload.optional.tpm.present
            ekFingerprint := normalizeString lib payload.optional.tpm.ekFingerprint
            pcrPolicyHash := normalizeString lib payload.optional.tpm.pcrPolicyHash }
        dmiBoardUUID := normalizeString lib payload.optional.dmiBoardUUID
        machineID := normalizeString lib payload.optional.machineID } }

def canonicalizeFingerprintPayload : Str :=
  print (fingerprintCodec.encode (normalizeFingerprintPayload lib payload))

def identityPayload : FingerprintPayload :=
  { payload with
    primaryNICs := payload.primaryNICs.map fun d => { d with linkState := [] }
    optional :=
      { payload.optional with tpm := { payload.optional.tpm with pcrPolicyHash := [] } } }

def canonicalizeIdentityFingerprint : Str :=
  canonicalizeFingerprintPayload lib (identityPayload payload)

end

theorem canonicalizeFingerprintPayload_eq_iff {p q : FingerprintPayload} :
    canonicalizeFingerprintPayload lib p = canonicalizeFingerprintPayload lib q ↔
      normalizeFingerprintPayload lib p = normalizeFingerprintPayload lib q := by
  constructor
  · intro h
    have hdoc := print_injective h
    have hread := congrArg fingerprintCodec.decode hdoc
    rwa [fingerprintCodec.decode_encode, fingerprintCodec.decode_encode, Option.some.injEq] at hread
  · intro h
    rw [canonicalizeFingerprintPayload, canonicalizeFingerprintPayload, h]

/-- **The text tells identities apart**: it is the same for two payloads exactly when the canonical
forms of their identities are. -/
theorem canonicalizeIdentityFingerprint_eq_iff {p q : FingerprintPayload} :
    canonicalizeIdentityFingerprint lib p = canonicalizeIdentityFingerprint lib q ↔
      normalizeFingerprintPayload lib (identityPayload p) =
        normalizeFingerprintPayload lib (identityPayload q) :=
  canonicalizeFingerprintPayload_eq_iff lib

def deriveGPUDevices (pciDevices : List PCIDeviceIdentity) : List GPUDeviceIdentity :=
  (pciDevices.filter fun d =>
    let deviceClass := normalizeString lib d.deviceClass
    "0x03".toList.isPrefixOf deviceClass || "03".toList.isPrefixOf deviceClass).map
    fun d => ⟨d.slot, d.vendorID, d.deviceID, d.deviceClass⟩

end Edgelet.EdgeGuard
