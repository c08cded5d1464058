import Edgelet.EdgeGuard.Signature

/-!
# Collecting the fingerprint of a Linux host

The fingerprint is collected by probes that report no error: what cannot be listed is empty and what
cannot be read is the empty text. A check after a failed probe therefore compares the identity that
is left with the baseline.
-/

namespace Edgelet.EdgeGuard

open Lexical Machine

/-! ## Hosts -/

inductive File
  | dmi (name : String)
  | pci (slot : Str) (attr : String)
  | usb (busPath : Str) (attr : String)
  | block (device : Str) (attr : String)
  | carrier (interface : Str)
  | dimm (mc slot : Str) (attr : String)
  | deviceTree (name : String)
  | machineID
  | efivar (name : Str)
  | ekcert
  | pcrs
  deriving DecidableEq

def File.path : File → Str
  | dmi name => join ["/sys/class/dmi/id".toList, name.toList]
  | pci slot attr => join [join ["/sys/bus/pci/devices".toList, slot], attr.toList]
  | usb busPath attr => join [join ["/sys/bus/usb/devices".toList, busPath], attr.toList]
  | block device attr => join [join ["/sys/block".toList, device], attr.toList]
  | carrier interface => join ["/sys/class/net".toList, interface, "carrier".toList]
  | dimm mc slot attr =>
    join [join [join ["/sys/devices/system/edac/mc".toList, mc], slot], attr.toList]
  | deviceTree name => "/proc/device-tree/".toList ++ name.toList
  | machineID => "/etc/machine-id".toList
  | efivar name => join ["/sys/firmware/efi/efivars".toList, name]
  | ekcert => "/sys/class/tpm/tpm0/device/ekcert".toList
  | pcrs => "/sys/class/tpm/tpm0/pcrs".toList

inductive Dir
  | pciDevices
  | usbDevices
  | edac
  | mc (name : Str)
  | efivars
  deriving DecidableEq

structure Partition where
  device : Str
  mountpoint : Str

structure Interface where
  name : Str
  hardwareAddr : List (Fin 256)
  name_colon : ':' ∉ name

structure CPUInfo where
  vendorID : Str
  modelName : Str
  family : Str
  model : Str
  stepping : ℤ
  cores : ℤ

def isBusChar (c : Char) : Bool :=
  c.isDigit || c.isLower || c = ':' || c = '.' || c = '-'

/-- A name that the kernel gives to a device on a bus: small letters, digits and a few signs. -/
structure BusID (name : Str) : Prop where
  plain : Plain name
  chars : ∀ c ∈ name, isBusChar c = true
  no_dots : occursIn dotdot name = false

structure Host where
  arm : Bool
  file : File → Option Str
  dir : Dir → Option (List Str)
  tpm0 : Bool
  partitions : List Partition
  interfaces : List Interface
  cpuInfo : List CPUInfo
  cpuCounts : ℤ
  busID : ∀ d, d = .pciDevices ∨ d = .usbDevices → ∀ names, dir d = some names →
    names.Nodup ∧ ∀ name ∈ names, BusID name
  interfaces_nodup : (interfaces.map (·.name)).Nodup

inductive Probe
  | listing (d : Dir)
  | read (f : File) (again : Bool)
  | stat
  | partitions
  | interfaces
  | cpuInfo
  | cpuCounts
  deriving DecidableEq

structure Probed extends Host where
  fails : Probe → Bool

def Host.probed (h : Host) : Probed := ⟨h, fun _ => false⟩

@[simp] theorem Host.probed_fails (h : Host) (p : Probe) : h.probed.fails p = false := rfl

/-! ## Reading -/

def Probed.readFile (h : Probed) (f : File) (again : Bool) : Option Str :=
  if h.fails (.read f again) then none else h.file f

def Probed.names (h : Probed) (d : Dir) : List Str :=
  if h.fails (.listing d) then [] else (h.dir d).getD []

def isSysPath (path : Str) : Bool :=
  "/sys/".toList.isPrefixOf (clean path) &&
    !((clean path).drop 5 = [] || occursIn dotdot ((clean path).drop 5))

def readSysFile (h : Probed) (f : File) (again : Bool := false) : Str :=
  if !isSysPath f.path then []
  else
    match h.readFile f again with
    | none => []
    | some data => trimSpace data

variable (lib : Library)

def placeholders : List Str :=
  ["none".toList, "not specified".toList, "not available".toList, "unknown".toList,
    "to be filled by o.e.m.".toList]

section

variable (h : Probed) (name : Str)

def readDMIFile (name : String) (again : Bool := false) : Str :=
  let value := trimSpace (readSysFile h (.dmi name) again)
  if value = [] then []
  else if placeholders.contains (value.map lib.lower) then []
  else value

/-! ## Collecting -/

def readPCIDevice (slot : Str) : Option PCIDeviceIdentity :=
  let dev : PCIDeviceIdentity :=
    { slot := slot
      deviceClass := readSysFile h (.pci slot "class")
      vendorID := readSysFile h (.pci slot "vendor")
      deviceID := readSysFile h (.pci slot "device")
      subsystemVendor := readSysFile h (.pci slot "subsystem_vendor")
      subsystemDevice := readSysFile h (.pci slot "subsystem_device") }
  if dev.deviceClass = [] ∧ dev.vendorID = [] ∧ dev.deviceID = [] then none else some dev

def collectLinuxPCIDevices : List PCIDeviceIdentity :=
  (h.names .pciDevices).filterMap (readPCIDevice h)

def diskName (rootDevice : Str) : Str :=
  let deviceName := base rootDevice
  (deviceName.take (deviceName.length - (ext deviceName).length)).rdropWhile (·.isDigit)

def collectLinuxRootDiskIdentity : DiskIdentity :=
  if h.fails .partitions then {}
  else
    match h.partitions.find? fun p => p.mountpoint = ['/'] with
    | none => {}
    | some p =>
      if p.device = [] then {}
      else
        { deviceID := p.device
          serial := readSysFile h (.block (diskName p.device) "device/serial")
          wwn := readSysFile h (.block (diskName p.device) "wwid")
          model := readSysFile h (.block (diskName p.device) "device/model") }

def isPhysicalNetworkInterfaceLinux : Bool :=
  name ≠ [] &&
  !(["lo", "docker", "br-", "veth", "virbr", "tun", "tap", "vmnet", "vnet", "cni", "flannel",
    "cali"].any fun p => p.toList.isPrefixOf name) &&
  ["eth", "en", "em", "eno", "ens", "enp", "wlan", "wlp", "wwan"].any
    (fun p => p.toList.isPrefixOf name)

def hexByte (b : Fin 256) : Str := [Nat.digitChar (b / 16), Nat.digitChar (b % 16)]

def macText : List (Fin 256) → Str
  | [] => []
  | [b] => hexByte b
  | b :: bs => hexByte b ++ ':' :: macText bs

def isZeroMAC (mac : Str) : Bool :=
  mac = [] || mac = "00:00:00:00:00:00".toList || mac = "00:00:00:00:00:00:00:00".toList

def readCarrier : Str :=
  let linkState := readSysFile h (.carrier name)
  if linkState = [] then "unknown".toList else linkState

def readNIC (i : Interface) : Option NICIdentity :=
  if !isPhysicalNetworkInterfaceLinux i.name then none
  else if isZeroMAC (macText i.hardwareAddr) then none
  else some ⟨i.name, macText i.hardwareAddr, readCarrier h i.name⟩

def collectLinuxPrimaryNICs : List NICIdentity :=
  if h.fails .interfaces then [] else h.interfaces.filterMap (readNIC h)

def readUSBDevice : Option USBDeviceIdentity :=
  if "usb".toList.isPrefixOf name then none
  else
    let vendorID := readSysFile h (.usb name "idVendor")
    let productID := readSysFile h (.usb name "idProduct")
    if vendorID = [] ∨ productID = [] then none
    else if readSysFile h (.usb name "bDeviceClass") = "09".toList then none
    else
      some
        { busPath := name
          vendorID := vendorID
          productID := productID
          manufacturer := readSysFile h (.usb name "manufacturer")
          product := readSysFile h (.usb name "product")
          serial := readSysFile h (.usb name "serial") }

def collectLinuxUSBDevices : List USBDeviceIdentity :=
  (h.names .usbDevices).filterMap (readUSBDevice h)

def collectLinuxPlatformDevices : List PlatformDeviceIdentity :=
  if !h.arm then []
  else
    ["model", "compatible", "serial-number"].filterMap fun name =>
      let value := trimSpace (readSysFile h (.deviceTree name))
      if value = [] then none else some ⟨"devicetree".toList, name.toList, value⟩

def readMemoryModule (mc dimm : Str) : Option MemoryModuleIdentity :=
  let mod : MemoryModuleIdentity :=
    { locator := readSysFile h (.dimm mc dimm "dimm_label")
      serial := readSysFile h (.dimm mc dimm "dimm_serial")
      partNumber := readSysFile h (.dimm mc dimm "dimm_part_number") }
  if mod.locator = [] ∧ mod.serial = [] ∧ mod.partNumber = [] then none else some mod

def collectLinuxMemoryModules : List MemoryModuleIdentity :=
  ((h.names .edac).filter fun mc => "mc".toList.isPrefixOf mc).flatMap fun mc =>
    ((h.names (.mc mc)).filter fun dimm => "dimm".toList.isPrefixOf dimm).filterMap
      (readMemoryModule h mc)

def readLinuxSecureBootState : Str :=
  let values := ((h.names .efivars).filter fun name => "SecureBoot-".toList.isPrefixOf name).map
    fun name => (h.readFile (.efivar name) false).bind (·.getLast?)
  match values.find? (·.isSome) with
  | some (some last) => if last.toNat = 1 then "enabled".toList else "disabled".toList
  | _ => []

def sumOf (data : Option Str) : Str :=
  match data with
  | none | some [] => []
  | some data => lib.sum256 data

def collectLinuxTPMIdentity : TPMIdentity where
  present := h.tpm0 && !h.fails .stat
  ekFingerprint := sumOf lib (h.readFile .ekcert false)
  pcrPolicyHash := sumOf lib (h.readFile .pcrs false)

def collectPlatformFingerprint : FingerprintPayload where
  schemaVersion := 1
  system :=
    { uuid := readDMIFile lib h "product_uuid"
      serial := readDMIFile lib h "product_serial"
      manufacturer := readDMIFile lib h "sys_vendor"
      model := readDMIFile lib h "product_name" }
  bios :=
    { manufacturer := readDMIFile lib h "bios_vendor"
      version := readDMIFile lib h "bios_version" }
  motherboard :=
    { product := readDMIFile lib h "board_name"
      serial := readDMIFile lib h "board_serial" }
  pciDevices := collectLinuxPCIDevices h
  gpuDevices := deriveGPUDevices lib (collectLinuxPCIDevices h)
  rootDisk := collectLinuxRootDiskIdentity h
  primaryNICs := collectLinuxPrimaryNICs h
  usbDevices := collectLinuxUSBDevices h
  platformDevices := collectLinuxPlatformDevices h
  optional :=
    { memoryModules := collectLinuxMemoryModules h
      firmware := ⟨readLinuxSecureBootState h⟩
      tpm := collectLinuxTPMIdentity lib h
      dmiBoardUUID := readDMIFile lib h "board_serial" true
      machineID := trimSpace (readSysFile h .machineID) }

def readCPU : CPUIdentity :=
  if h.fails .cpuInfo then {}
  else
    match h.cpuInfo with
    | [] => {}
    | cpu :: _ =>
      { vendor := cpu.vendorID
        modelName := cpu.modelName
        family := cpu.family
        model := cpu.model
        stepping := cpu.stepping
        physicalCores := if h.fails .cpuCounts || h.cpuCounts ≤ 0 then cpu.cores else h.cpuCounts }

def collectStableFingerprintPayload : FingerprintPayload :=
  let payload := { collectPlatformFingerprint lib h with cpu := readCPU h }
  { payload with gpuDevices := deriveGPUDevices lib payload.pciDevices }

end

variable {lib} {h : Probed}

/-! ## Interfaces -/

def Interface.Collected (i : Interface) : Prop :=
  isPhysicalNetworkInterfaceLinux i.name = true ∧ isZeroMAC (macText i.hardwareAddr) = false

theorem readNIC_eq_some_iff {i : Interface} {nic : NICIdentity} :
    readNIC h i = some nic ↔
      i.Collected ∧ nic = ⟨i.name, macText i.hardwareAddr, readCarrier h i.name⟩ := by
  unfold readNIC Interface.Collected
  cases isPhysicalNetworkInterfaceLinux i.name <;> cases isZeroMAC (macText i.hardwareAddr) <;>
    simp [eq_comm]

theorem mem_macText {bs : List (Fin 256)} {c : Char} (hc : c ∈ macText bs) :
    c.toNat < 128 ∧ c.toLower = c ∧ isSpace c = false ∧ c ≠ '|' := by
  have hdigit : ∀ d < 16, (Nat.digitChar d).toNat < 128 ∧ (Nat.digitChar d).toLower = d.digitChar ∧
      isSpace d.digitChar = false ∧ d.digitChar ≠ '|' := by decide
  have hbyte : ∀ b : Fin 256, c ∈ hexByte b →
      c.toNat < 128 ∧ c.toLower = c ∧ isSpace c = false ∧ c ≠ '|' := by
    intro b hb
    rcases List.mem_pair.mp hb with rfl | rfl
    · exact hdigit _ (Nat.div_lt_of_lt_mul b.isLt)
    · exact hdigit _ (Nat.mod_lt _ (by decide))
  induction bs with
  | nil => simp [macText] at hc
  | cons b bs ih =>
    cases bs with
    | nil => exact hbyte b hc
    | cons b' bs =>
      rcases List.mem_append.mp hc with hc | hc
      · exact hbyte b hc
      · rcases List.mem_cons.mp hc with rfl | hc
        · decide
        · exact ih hc

@[simp] theorem normalizeString_macText (bs : List (Fin 256)) :
    normalizeString lib (macText bs) = macText bs := by
  refine normalizeString_of_ascii lib (trimSpace_eq_self ?_ ?_) fun c hc => ?_
  · exact fun c hc => (mem_macText (List.mem_of_mem_head? hc)).2.2.1
  · exact fun c hc => (mem_macText (List.mem_of_mem_getLast? hc)).2.2.1
  · exact ⟨(mem_macText hc).1, (mem_macText hc).2.1⟩

/-! ## A host without devices -/

def bareHost : Host where
  arm := false
  file _ := none
  dir _ := none
  tpm0 := false
  partitions := []
  interfaces := []
  cpuInfo := []
  cpuCounts := 0
  busID _ _ _ hnames := by cases hnames
  interfaces_nodup := List.nodup_nil

end Edgelet.EdgeGuard
