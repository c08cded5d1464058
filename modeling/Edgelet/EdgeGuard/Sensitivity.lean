import Edgelet.EdgeGuard.Collect

/-!
# What the fingerprint sees

A change of most sources of the fingerprint changes the text that is hashed. Three never do: the
machine ID and the device tree are read by `readSysFile`, which reads nothing outside `/sys`, and
the name of the disk is that of the partition without its digits, which leaves `nvme0n1p` of
`nvme0n1p2`.
-/

namespace Edgelet.EdgeGuard

open Lexical Json Keyed

/-! ## Sources -/

inductive RootDevice
  | scsi (letters : Str) (ne_nil : letters ≠ []) (lower : ∀ c ∈ letters, c.isLower = true)
      (partition : ℕ)
  | nvme (controller drive partition : ℕ)
  | mmc (device partition : ℕ)

def RootDevice.disk : RootDevice → Str
  | scsi letters _ _ _ => ['s', 'd'] ++ letters
  | nvme controller drive _ =>
    ['n', 'v', 'm', 'e'] ++ natText controller ++ ['n'] ++ natText drive
  | mmc device _ => ['m', 'm', 'c', 'b', 'l', 'k'] ++ natText device

def RootDevice.name : RootDevice → Str
  | d@(scsi _ _ _ partition) => d.disk ++ natText partition
  | d@(nvme _ _ partition) | d@(mmc _ partition) => d.disk ++ ['p'] ++ natText partition

def RootDevice.isSCSI : RootDevice → Bool
  | scsi .. => true
  | _ => false

def RootDevice.IsRoot (d : RootDevice) (h : Host) : Prop :=
  ∃ p, h.partitions.find? (fun p => p.mountpoint = ['/']) = some p ∧ base p.device = d.name

inductive Source
  | systemUUID
  | systemSerial
  | boardSerial
  | pciDevice (slot : Str)
  | usbDevice (busPath : Str)
  | diskSerial (root : RootDevice)
  | diskWWN (root : RootDevice)
  | nicMAC (name : Str)
  | machineID
  | deviceTreeSerial

def Source.file : Source → Option File
  | systemUUID => some (.dmi "product_uuid")
  | systemSerial => some (.dmi "product_serial")
  | boardSerial => some (.dmi "board_serial")
  | diskSerial root => some (.block root.disk "device/serial")
  | diskWWN root => some (.block root.disk "wwid")
  | machineID => some .machineID
  | deviceTreeSerial => some (.deviceTree "serial-number")
  | _ => none

def Source.Has (h : Host) : Source → Prop
  | diskSerial root | diskWWN root => root.IsRoot h
  | deviceTreeSerial => h.arm = true
  | _ => True

variable (lib : Library)

def raw (h : Host) (f : File) : Str := trimSpace ((h.file f).getD [])

def content (h : Host) (f : File) : Str := normalizeString lib ((h.file f).getD [])

def pciValues (h : Host) (slot : Str) : Option (List Str) :=
  if (h.probed.names .pciDevices).contains slot then
    some (["class", "vendor", "device", "subsystem_vendor", "subsystem_device"].map fun a =>
      content lib h (.pci slot a))
  else none

def usbValues (h : Host) (busPath : Str) : Option (List Str) :=
  if (h.probed.names .usbDevices).contains busPath then
    some (["idVendor", "idProduct", "manufacturer", "product", "serial"].map fun a =>
      content lib h (.usb busPath a))
  else none

structure AgreeBut (h h' : Host) (files : File → Prop) (dirs : Dir → Prop) : Prop where
  arm : h.arm = h'.arm
  tpm0 : h.tpm0 = h'.tpm0
  partitions : h.partitions = h'.partitions
  cpuInfo : h.cpuInfo = h'.cpuInfo
  cpuCounts : h.cpuCounts = h'.cpuCounts
  file : ∀ f, ¬ files f → h.file f = h'.file f
  dir : ∀ d, ¬ dirs d → h.dir d = h'.dir d

/-- **Two hosts differ in one source**: they agree on everything else, and the values differ after
trimming and lower-casing. A value that only one file holds is no placeholder. -/
inductive Differ (h h' : Host) : Source → Prop
  | value {src : Source} {f : File} (isFile : src.file = some f) (has : src.Has h)
      (agree : AgreeBut h h' (· = f) fun _ => False) (interfaces : h.interfaces = h'.interfaces)
      (differ : content lib h f ≠ content lib h' f) (left : content lib h f ∉ placeholders)
      (right : content lib h' f ∉ placeholders) : Differ h h' src
  | pci {slot : Str}
      (agree : AgreeBut h h' (fun f => ∃ a, f = .pci slot a) (· = .pciDevices))
      (interfaces : h.interfaces = h'.interfaces)
      (others : (h.probed.names .pciDevices).filter (· ≠ slot) =
        (h'.probed.names .pciDevices).filter (· ≠ slot))
      (differ : pciValues lib h slot ≠ pciValues lib h' slot) : Differ h h' (.pciDevice slot)
  | usb {busPath : Str}
      (agree : AgreeBut h h' (fun f => ∃ a, f = .usb busPath a) (· = .usbDevices))
      (interfaces : h.interfaces = h'.interfaces)
      (others : (h.probed.names .usbDevices).filter (· ≠ busPath) =
        (h'.probed.names .usbDevices).filter (· ≠ busPath))
      (differ : usbValues lib h busPath ≠ usbValues lib h' busPath) :
      Differ h h' (.usbDevice busPath)
  | mac {i i' : Interface} (agree : AgreeBut h h' (fun _ => False) fun _ => False)
      (left : i ∈ h.interfaces) (right : i' ∈ h'.interfaces) (name : i.name = i'.name)
      (others : h.interfaces.filter (·.name ≠ i.name) = h'.interfaces.filter (·.name ≠ i.name))
      (differ : macText i.hardwareAddr ≠ macText i'.hardwareAddr) : Differ h h' (.nicMAC i.name)

/-! ## What is seen -/

def PCIListed (h : Host) (slot : Str) : Prop :=
  slot ∈ h.probed.names .pciDevices ∧
    ∃ a ∈ ["class", "vendor", "device"], raw h (.pci slot a) ≠ []

def USBListed (h : Host) (busPath : Str) : Prop :=
  busPath ∈ h.probed.names .usbDevices ∧ ¬ "usb".toList <+: busPath ∧
    raw h (.usb busPath "idVendor") ≠ [] ∧ raw h (.usb busPath "idProduct") ≠ [] ∧
    raw h (.usb busPath "bDeviceClass") ≠ "09".toList

def nicOf (i : Interface) : NICIdentity := ⟨normalizeString lib i.name, macText i.hardwareAddr, []⟩

/-- **The change is seen.** A text of the DMI table always is; a device is when it is collected from
one of the hosts; the disk is when it is a SCSI disk; an address is when the NIC is collected from
one of the hosts, and none of the others has that name in another case and that address; the machine
ID and the device tree never are. -/
def Reaches (h h' : Host) : Source → Prop
  | .systemUUID | .systemSerial | .boardSerial => True
  | .pciDevice slot => PCIListed h slot ∨ PCIListed h' slot
  | .usbDevice busPath => USBListed h busPath ∨ USBListed h' busPath
  | .diskSerial root | .diskWWN root => root.isSCSI = true
  | .nicMAC name =>
    ∃ i ∈ h.interfaces ++ h'.interfaces, i.name = name ∧ i.Collected ∧
      ∀ o ∈ h.interfaces, o.name ≠ name → o.Collected → nicOf lib o ≠ nicOf lib i
  | .machineID | .deviceTreeSerial => False

/-! ## Reading from a host -/

variable {lib} {h h' : Host}

theorem isSysPath_of_components {path : Str} {cs : List Str} (habs : isAbs path = true)
    (hcs : absComponents path = "sys".toList :: cs) (hne : cs ≠ [])
    (hdots : ∀ c ∈ cs, occursIn dotdot c = false) : isSysPath path = true := by
  have hclean : clean path = "/sys/".toList ++ unsplit cs := by
    rw [clean_of_isAbs habs, hcs, render, if_pos rfl, unsplit_cons hne]
    rfl
  have hrest : unsplit cs ≠ [] := by
    intro hnil
    obtain ⟨c, cs, rfl⟩ := List.exists_cons_of_ne_nil hne
    have hplain : Plain c := plain_of_mem_absComponents (s := path) (by simp [hcs])
    by_cases hcs' : cs = []
    · exact hplain.ne_nil (by simpa [hcs', unsplit] using hnil)
    · rw [unsplit_cons hcs'] at hnil
      simp at hnil
  have hdrop : (clean path).drop 5 = unsplit cs := by
    rw [hclean]
    exact List.drop_left' rfl
  have hocc := occursIn_unsplit (by decide) (by decide) hdots
  rw [isSysPath, hdrop, hclean, hocc]
  simp [hrest]

variable {c : Char}

theorem toNat_of_isLower (hc : c.isLower = true) : 97 ≤ c.toNat ∧ c.toNat ≤ 122 := by
  have hrange : (decide (c.val ≥ 'a'.val) && decide (c.val ≤ 'z'.val)) = true := hc
  rw [Bool.and_eq_true, decide_eq_true_eq, decide_eq_true_eq] at hrange
  exact hrange

theorem isBusChar_spec (hc : isBusChar c = true) :
    c.toNat < 128 ∧ c.toLower = c ∧ isSpace c = false ∧ c ≠ '|' := by
  have hsmall : c.toNat < 128 := by
    simp only [isBusChar, Bool.or_eq_true, decide_eq_true_eq] at hc
    rcases hc with (((hc | hc) | rfl) | rfl) | rfl
    · have hle : c.toNat ≤ 57 := (Char.isDigit_iff_toNat.mp hc).2
      omega
    · have hle := (toNat_of_isLower hc).2
      omega
    all_goals decide
  have hall : ∀ n < 128, isBusChar (Char.ofNat n) = true → (Char.ofNat n).toLower = Char.ofNat n ∧
      isSpace (Char.ofNat n) = false ∧ Char.ofNat n ≠ '|' := by decide
  have hspec := hall c.toNat hsmall
  rw [Char.ofNat_toNat] at hspec
  exact ⟨hsmall, hspec hc⟩

variable {name : Str}

theorem BusID.normalizeString (hname : BusID name) : EdgeGuard.normalizeString lib name = name := by
  refine normalizeString_of_ascii lib (trimSpace_eq_self ?_ ?_) fun c hc => ?_
  · exact fun c hc => (isBusChar_spec (hname.chars c (List.mem_of_mem_head? hc))).2.2.1
  · exact fun c hc => (isBusChar_spec (hname.chars c (List.mem_of_mem_getLast? hc))).2.2.1
  · exact ⟨(isBusChar_spec (hname.chars c hc)).1, (isBusChar_spec (hname.chars c hc)).2.1⟩

theorem BusID.no_bar (hname : BusID name) : '|' ∉ name := fun hc =>
  (isBusChar_spec (hname.chars _ hc)).2.2.2 rfl

theorem isSysPath_device {dir name attr : Str} (cs as : List Str) (habs : isAbs dir = true)
    (hdir : absComponents dir = "sys".toList :: cs) (hname : BusID name)
    (hattr : components attr = as) (hplain : ∀ a ∈ as, Plain a)
    (hdots : ∀ c ∈ cs ++ as, occursIn dotdot c = false) :
    isSysPath (join [join [dir, name], attr]) = true := by
  have habs' : isAbs (join [dir, name]) = true := isAbs_join habs
  have hcomponents : absComponents (join [join [dir, name], attr]) =
      "sys".toList :: (cs ++ name :: as) := by
    rw [absComponents_join_components habs' (by simpa using hattr) hplain,
      absComponents_join_plain habs (by simpa using hname.plain), hdir]
    simp
  refine isSysPath_of_components (isAbs_join habs') hcomponents (by simp) fun c hc => ?_
  simp only [List.mem_append, List.mem_cons] at hc hdots
  rcases hc with hc | rfl | hc
  · exact hdots c (.inl hc)
  · exact hname.no_dots
  · exact hdots c (.inr hc)

def busAttrs : List String :=
  ["class", "vendor", "device", "subsystem_vendor", "subsystem_device", "idVendor", "idProduct",
    "bDeviceClass", "manufacturer", "product", "serial"]

theorem busAttrs_plain : ∀ a ∈ busAttrs, components a.toList = [a.toList] ∧ Plain a.toList ∧
    occursIn dotdot a.toList = false := by
  exact of_decide_eq_true rfl

variable {slot : Str}

theorem isSysPath_dmi : ∀ name ∈ ["product_uuid", "product_serial", "board_serial"],
    isSysPath (File.dmi name).path = true := by
  exact of_decide_eq_true rfl

theorem readSysFile_probed {f : File} (hpath : isSysPath f.path = true) (again : Bool) :
    readSysFile h.probed f again = raw h f := by
  have hread : h.probed.readFile f again = h.file f := rfl
  rw [readSysFile, if_neg (by simp [hpath]), raw, hread]
  cases h.file f with
  | none | some data => rfl

theorem readSysFile_bus {bus name : Str} {f : File} {a : String}
    (hbus : bus = "/sys/bus/pci/devices".toList ∨ bus = "/sys/bus/usb/devices".toList)
    (hname : BusID name) (hpath : f.path = join [join [bus, name], a.toList]) (ha : a ∈ busAttrs) :
    readSysFile h.probed f = raw h f := by
  obtain ⟨hcomponents, hplain, hdots⟩ := busAttrs_plain a ha
  obtain ⟨cs, habs, hdir, hcs⟩ : ∃ cs, isAbs bus = true ∧ absComponents bus = "sys".toList :: cs ∧
      ∀ c ∈ cs, occursIn dotdot c = false := by
    rcases hbus with rfl | rfl
    · exact ⟨["bus".toList, "pci".toList, "devices".toList], rfl, rfl, of_decide_eq_true rfl⟩
    · exact ⟨["bus".toList, "usb".toList, "devices".toList], rfl, rfl, of_decide_eq_true rfl⟩
  refine readSysFile_probed ?_ false
  rw [hpath]
  refine isSysPath_device cs [a.toList] habs hdir hname hcomponents (by simpa using hplain) ?_
  simpa [or_imp, forall_and, hdots] using hcs

theorem readSysFile_of_not_sys {p : Probed} {f : File} (hpath : isSysPath f.path = false)
    (again : Bool) : readSysFile p f again = [] := by
  rw [readSysFile, if_pos (by simp [hpath])]

theorem normalizeString_raw (f : File) : normalizeString lib (raw h f) = content lib h f :=
  normalizeString_trimSpace lib _

theorem normalizeString_readDMIFile {name : String} {again : Bool}
    (hpath : isSysPath (File.dmi name).path = true)
    (hvalue : content lib h (.dmi name) ∉ placeholders) :
    normalizeString lib (readDMIFile lib h.probed name again) = content lib h (.dmi name) := by
  have hraw : trimSpace (raw h (.dmi name)) = raw h (.dmi name) := trimSpace_trimSpace _
  have hnot : placeholders.contains ((raw h (.dmi name)).map lib.lower) = false := by
    rw [Bool.eq_false_iff, Ne, List.contains_iff_mem]
    exact hvalue
  rw [readDMIFile, readSysFile_probed hpath, hraw]
  simp only [hnot]
  split
  next hnil => rw [← normalizeString_raw, hnil]
  next => exact normalizeString_raw _

/-! ## The parts of a collection -/

def File.peripheral : File → Bool
  | pci .. | usb .. | block .. | deviceTree _ | machineID => true
  | _ => false

theorem collectLinuxPlatformDevices_eq_nil (p : Probed) : collectLinuxPlatformDevices p = [] := by
  have hpath : ∀ name ∈ ["model", "compatible", "serial-number"],
      isSysPath (File.deviceTree name).path = false := of_decide_eq_true rfl
  unfold collectLinuxPlatformDevices
  split
  · rfl
  · rw [List.filterMap_eq_nil_iff]
    intro name hname
    rw [readSysFile_of_not_sys (hpath name hname)]
    rfl

theorem readSysFile_machineID (p : Probed) : readSysFile p .machineID = [] :=
  readSysFile_of_not_sys (rfl) false

def canonicalOf (lib : Library) (h : Host) : FingerprintPayload :=
  normalizeFingerprintPayload lib (identityPayload (collectStableFingerprintPayload lib h.probed))

theorem canonical_with_nics (lib : Library) (p : FingerprintPayload) (nics : List NICIdentity) :
    normalizeFingerprintPayload lib (identityPayload { p with primaryNICs := nics }) =
      { normalizeFingerprintPayload lib (identityPayload p) with
        primaryNICs := (normalizeFingerprintPayload lib
          (identityPayload { p with primaryNICs := nics })).primaryNICs } :=
  rfl

section Agree

variable {files : File → Prop} {dirs : Dir → Prop}

variable (agree : AgreeBut h h' files dirs)

include agree

theorem AgreeBut.readSysFile {f : File} (hf : ¬ files f)
    (again : Bool) : EdgeGuard.readSysFile h.probed f again =
      EdgeGuard.readSysFile h'.probed f again := by
  unfold EdgeGuard.readSysFile Probed.readFile
  rw [show h.probed.file f = h'.probed.file f from agree.file f hf]
  rfl

theorem AgreeBut.names {d : Dir} (hd : ¬ dirs d) : h.probed.names d = h'.probed.names d :=
  congrArg (Option.getD · []) (agree.dir d hd)

variable (hfiles : ∀ f, files f → f.peripheral = true)
  (hdirs : ∀ d, dirs d → d = .pciDevices ∨ d = .usbDevices)
  (hpci : collectLinuxPCIDevices h.probed = collectLinuxPCIDevices h'.probed)
  (hdisk : collectLinuxRootDiskIdentity h.probed = collectLinuxRootDiskIdentity h'.probed)
  (husb : collectLinuxUSBDevices h.probed = collectLinuxUSBDevices h'.probed)

include hfiles hdirs hpci hdisk husb

theorem AgreeBut.collect_eq :
    collectStableFingerprintPayload lib h.probed =
      { collectStableFingerprintPayload lib h'.probed with
        primaryNICs := collectLinuxPrimaryNICs h.probed } := by
  have hnot : ∀ f, f.peripheral = false → ¬ files f := fun f hf hmem => by
    rw [hfiles f hmem] at hf
    cases hf
  have hdmi : ∀ name again, readDMIFile lib h.probed name again =
      readDMIFile lib h'.probed name again := fun name again => by
    unfold readDMIFile
    rw [agree.readSysFile (hnot _ rfl)]
  have hread : ∀ f again, f.peripheral = false →
      h.probed.readFile f again = h'.probed.readFile f again := fun f _ hf =>
    agree.file f (hnot f hf)
  have hedac : h.probed.names .edac = h'.probed.names .edac :=
    agree.names fun hd => by simpa using hdirs _ hd
  have hmc : ∀ mc, h.probed.names (.mc mc) = h'.probed.names (.mc mc) := fun mc =>
    agree.names fun hd => by simpa using hdirs _ hd
  have hefivars : h.probed.names .efivars = h'.probed.names .efivars :=
    agree.names fun hd => by simpa using hdirs _ hd
  have hmodule : readMemoryModule h.probed = readMemoryModule h'.probed := by
    funext mc slot
    unfold readMemoryModule
    rw [agree.readSysFile (hnot _ rfl), agree.readSysFile (hnot _ rfl),
      agree.readSysFile (hnot _ rfl)]
  have hmemory : collectLinuxMemoryModules h.probed = collectLinuxMemoryModules h'.probed := by
    unfold collectLinuxMemoryModules
    rw [hedac, hmodule]
    simp only [hmc]
  have hboot : readLinuxSecureBootState h.probed = readLinuxSecureBootState h'.probed := by
    unfold readLinuxSecureBootState
    rw [hefivars]
    simp only [hread (.efivar _) false rfl]
  have htpm : collectLinuxTPMIdentity lib h.probed = collectLinuxTPMIdentity lib h'.probed := by
    unfold collectLinuxTPMIdentity
    rw [hread .ekcert false rfl, hread .pcrs false rfl,
      show h.probed.tpm0 = h'.probed.tpm0 from agree.tpm0]
    rfl
  have hcpu : readCPU h.probed = readCPU h'.probed := by
    unfold readCPU
    rw [show h.probed.cpuInfo = h'.probed.cpuInfo from agree.cpuInfo,
      show h.probed.cpuCounts = h'.probed.cpuCounts from agree.cpuCounts]
    rfl
  simp only [collectStableFingerprintPayload, collectPlatformFingerprint, hdmi, hpci, hdisk, husb,
    hmemory, hboot, htpm, hcpu, collectLinuxPlatformDevices_eq_nil, readSysFile_machineID]

theorem AgreeBut.canonicalOf_eq
    (hnics : (canonicalOf lib h).primaryNICs = (canonicalOf lib h').primaryNICs) :
    canonicalOf lib h = canonicalOf lib h' := by
  have hparts : canonicalOf lib h =
      { canonicalOf lib h' with primaryNICs := (canonicalOf lib h).primaryNICs } := by
    unfold canonicalOf
    rw [agree.collect_eq hfiles hdirs hpci hdisk husb]
    exact canonical_with_nics lib _ _
  rw [hparts, hnics]

end Agree

/-! ## Devices on a bus -/

theorem bars_cons (t u : Str) (us : List Str) :
    bars (t :: u :: us) = t ++ '|' :: bars (u :: us) := by
  simp [bars, List.intercalate]

theorem bars_singleton (t : Str) : bars [t] = t := by
  simp [bars, List.intercalate]

/-- A bus: where its devices are listed, how one is read, and what it is compared by. -/
structure Bus (lib : Library) (α : Type) where
  dir : Dir
  root : Str
  file : Str → String → File
  read : Probed → Str → Option α
  norm : α → α
  place : α → Str
  key : α → Str
  values : α → List Str
  attrs : List String
  isBus : dir = .pciDevices ∧ root = "/sys/bus/pci/devices".toList ∨
    dir = .usbDevices ∧ root = "/sys/bus/usb/devices".toList
  path_eq : ∀ name a, (file name a).path = join [join [root, name], a.toList]
  file_inj : ∀ {name a name' a'}, file name a = file name' a' → name = name'
  attrs_bus : ∀ a ∈ attrs, a ∈ busAttrs
  read_congr : ∀ {p p' name}, (∀ a, readSysFile p (file name a) = readSysFile p' (file name a)) →
    read p name = read p' name
  read_spec : ∀ {p name x}, read p name = some x → place (norm x) = normalizeString lib name ∧
    values (norm x) = attrs.map fun a => normalizeString lib (readSysFile p (file name a))
  key_eq : ∀ x, ∃ rest, key x = place x ++ '|' :: rest

namespace Bus

variable {α : Type} (bus : Bus lib α) {name : Str} {x : α}

def collected (h : Host) : List α := (h.probed.names bus.dir).filterMap (bus.read h.probed)

def deviceAt (h : Host) (name : Str) : Option α :=
  if (h.probed.names bus.dir).contains name then bus.read h.probed name else none

def valuesAt (h : Host) (name : Str) : Option (List Str) :=
  if (h.probed.names bus.dir).contains name then
    some (bus.attrs.map fun a => content lib h (bus.file name a))
  else none

theorem deviceAt_of_mem (hname : name ∈ h.probed.names bus.dir) :
    bus.deviceAt h name = bus.read h.probed name :=
  if_pos (List.contains_iff_mem.mpr hname)

theorem deviceAt_eq_some_iff : bus.deviceAt h name = some x ↔
    name ∈ h.probed.names bus.dir ∧ bus.read h.probed name = some x := by
  unfold deviceAt
  split_ifs with hname
  · simp [List.contains_iff_mem.mp hname]
  · simp [mt List.contains_iff_mem.mpr hname]

theorem mem_collected_iff : x ∈ bus.collected h ↔ ∃ name, bus.deviceAt h name = some x := by
  simp only [collected, List.mem_filterMap, deviceAt_eq_some_iff]

theorem busID (hname : name ∈ h.probed.names bus.dir) : BusID name := by
  have hnames : h.probed.names bus.dir = (h.dir bus.dir).getD [] := rfl
  rw [hnames] at hname
  cases hdir : h.dir bus.dir with
  | none => simp [hdir] at hname
  | some names =>
    exact (h.busID _ (bus.isBus.imp And.left And.left) names hdir).2 name
      (by simpa [hdir] using hname)

theorem readSysFile_eq (hname : name ∈ h.probed.names bus.dir) {a : String} (ha : a ∈ busAttrs) :
    readSysFile h.probed (bus.file name a) = raw h (bus.file name a) :=
  readSysFile_bus (bus.isBus.imp And.right And.right) (bus.busID hname) (bus.path_eq name a) ha

theorem deviceAt_spec (hat : bus.deviceAt h name = some x) : BusID name ∧
    bus.place (bus.norm x) = name ∧ bus.valuesAt h name = some (bus.values (bus.norm x)) := by
  obtain ⟨hname, hread⟩ := bus.deviceAt_eq_some_iff.mp hat
  obtain ⟨hplace, hvalues⟩ := bus.read_spec hread
  refine ⟨bus.busID hname, hplace.trans (bus.busID hname).normalizeString, ?_⟩
  rw [valuesAt, if_pos (List.contains_iff_mem.mpr hname), hvalues, Option.some.injEq]
  refine List.map_congr_left fun a ha => ?_
  rw [bus.readSysFile_eq hname (bus.attrs_bus a ha), normalizeString_raw]

theorem key_inj : ∀ d ∈ (bus.collected h).map bus.norm, ∀ d' ∈ (bus.collected h).map bus.norm,
    bus.key d = bus.key d' → d = d' := by
  rintro d hd d' hd' hkey
  obtain ⟨x, hx, rfl⟩ := List.mem_map.mp hd
  obtain ⟨x', hx', rfl⟩ := List.mem_map.mp hd'
  obtain ⟨name, hat⟩ := bus.mem_collected_iff.mp hx
  obtain ⟨name', hat'⟩ := bus.mem_collected_iff.mp hx'
  obtain ⟨rest, hrest⟩ := bus.key_eq (bus.norm x)
  obtain ⟨rest', hrest'⟩ := bus.key_eq (bus.norm x')
  obtain ⟨hbus, hplace, -⟩ := bus.deviceAt_spec hat
  obtain ⟨hbus', hplace', -⟩ := bus.deviceAt_spec hat'
  rw [hrest, hrest', hplace, hplace'] at hkey
  obtain ⟨rfl, -⟩ := append_cons_inj hbus.no_bar hbus'.no_bar hkey
  rw [Option.some.inj (hat.symm.trans hat')]

/-- The devices of a host after sorting by some key. -/
def sorted (order : α → Str) (h : Host) : List α :=
  dedupe bus.key (lib.slices.sort order ((bus.collected h).map bus.norm))

theorem valuesAt_eq {order : α → Str} (heq : bus.sorted order h = bus.sorted order h')
    (hsome : (bus.deviceAt h name).isSome = true) : bus.valuesAt h name = bus.valuesAt h' name := by
  obtain ⟨x, hat⟩ := Option.isSome_iff_exists.mp hsome
  obtain ⟨-, hplace, hvalues⟩ := bus.deviceAt_spec hat
  have hx : bus.norm x ∈ (bus.collected h').map bus.norm :=
    (mem_iff_of_dedupe_sort_eq lib.slices bus.key_inj bus.key_inj heq (bus.norm x)).mp
      (List.mem_map_of_mem (bus.mem_collected_iff.mpr ⟨name, hat⟩))
  obtain ⟨x', hx', hnorm⟩ := List.mem_map.mp hx
  obtain ⟨name', hat'⟩ := bus.mem_collected_iff.mp hx'
  obtain ⟨-, hplace', hvalues'⟩ := bus.deviceAt_spec hat'
  obtain rfl : name' = name := by rw [← hplace', hnorm, hplace]
  rw [hvalues, hvalues', hnorm]

theorem collected_of_deviceAt_none (hat : bus.deviceAt h name = none) : bus.collected h =
    ((h.probed.names bus.dir).filter (· ≠ name)).filterMap (bus.read h.probed) := by
  rw [collected, List.filterMap_filter]
  refine List.filterMap_congr fun n hn => ?_
  by_cases hne : n = name
  · subst hne
    rw [bus.deviceAt_of_mem hn] at hat
    simp [hat]
  · simp [hne]

variable {files : File → Prop} {dirs : Dir → Prop}

theorem collected_eq (agree : AgreeBut h h' files dirs) (hdir : ¬ dirs bus.dir)
    (hfiles : ∀ name a, ¬ files (bus.file name a)) : bus.collected h = bus.collected h' := by
  rw [collected, collected, agree.names hdir]
  exact List.filterMap_congr fun n _ =>
    bus.read_congr fun a => agree.readSysFile (hfiles n a) false

/-- The devices of the other places are the same, so a device that neither host has is not seen. -/
theorem changed_iff {order : α → Str}
    (agree : AgreeBut h h' (fun f => ∃ a, f = bus.file name a) (· = bus.dir))
    (hothers : (h.probed.names bus.dir).filter (· ≠ name) =
      (h'.probed.names bus.dir).filter (· ≠ name))
    (hdiffer : bus.valuesAt h name ≠ bus.valuesAt h' name)
    (hsees : canonicalOf lib h = canonicalOf lib h' → bus.sorted order h = bus.sorted order h')
    (hblind : bus.collected h = bus.collected h' → canonicalOf lib h = canonicalOf lib h') :
    canonicalOf lib h ≠ canonicalOf lib h' ↔
      (bus.deviceAt h name).isSome = true ∨ (bus.deviceAt h' name).isSome = true := by
  constructor
  · intro hne
    by_contra hnot
    rw [not_or, Option.not_isSome_iff_eq_none, Option.not_isSome_iff_eq_none] at hnot
    refine hne (hblind ?_)
    rw [bus.collected_of_deviceAt_none hnot.1, bus.collected_of_deviceAt_none hnot.2, hothers]
    refine List.filterMap_congr fun n hn => bus.read_congr fun a => agree.readSysFile ?_ false
    rintro ⟨b, hb⟩
    simp [bus.file_inj hb] at hn
  · rintro (hsome | hsome) heq
    · exact hdiffer (bus.valuesAt_eq (hsees heq) hsome)
    · exact hdiffer (bus.valuesAt_eq (hsees heq).symm hsome).symm

end Bus

def pciBus (lib : Library) : Bus lib PCIDeviceIdentity where
  dir := .pciDevices
  root := _
  file := .pci
  read := readPCIDevice
  norm := (·.normalize lib)
  place := (·.slot)
  key d := bars [d.slot, d.deviceClass, d.vendorID, d.deviceID, d.subsystemVendor,
    d.subsystemDevice]
  values d := [d.deviceClass, d.vendorID, d.deviceID, d.subsystemVendor, d.subsystemDevice]
  attrs := ["class", "vendor", "device", "subsystem_vendor", "subsystem_device"]
  isBus := .inl ⟨rfl, rfl⟩
  path_eq _ _ := rfl
  file_inj heq := (File.pci.inj heq).1
  attrs_bus := by decide
  read_congr heq := by simp only [readPCIDevice, heq]
  read_spec hread := by
    unfold readPCIDevice at hread
    simp only at hread
    split_ifs at hread
    cases hread
    exact ⟨rfl, rfl⟩
  key_eq _ := ⟨_, bars_cons _ _ _⟩

def usbBus (lib : Library) : Bus lib USBDeviceIdentity where
  dir := .usbDevices
  root := _
  file := .usb
  read := readUSBDevice
  norm := (·.normalize lib)
  place := (·.busPath)
  key d := bars [d.busPath, d.vendorID, d.productID, d.serial]
  values d := [d.vendorID, d.productID, d.manufacturer, d.product, d.serial]
  attrs := ["idVendor", "idProduct", "manufacturer", "product", "serial"]
  isBus := .inr ⟨rfl, rfl⟩
  path_eq _ _ := rfl
  file_inj heq := (File.usb.inj heq).1
  attrs_bus := by decide
  read_congr heq := by simp only [readUSBDevice, heq]
  read_spec hread := by
    unfold readUSBDevice at hread
    simp only at hread
    split_ifs at hread
    cases hread
    exact ⟨rfl, rfl⟩
  key_eq _ := ⟨_, bars_cons _ _ _⟩

theorem isSome_pci_iff (lib : Library) :
    ((pciBus lib).deviceAt h slot).isSome = true ↔ PCIListed h slot := by
  by_cases hslot : slot ∈ h.probed.names .pciDevices
  · have hread : ∀ a ∈ busAttrs, readSysFile h.probed (.pci slot a) = raw h (.pci slot a) :=
      fun _ => (pciBus lib).readSysFile_eq hslot
    rw [(pciBus lib).deviceAt_of_mem hslot, show (pciBus lib).read = readPCIDevice from rfl,
      readPCIDevice, hread "class" (by decide), hread "vendor" (by decide),
      hread "device" (by decide), PCIListed]
    simp only [hslot, true_and]
    split_ifs with hblank
    · simp [hblank]
    · simp only [Option.isSome_some, true_iff]
      simp only [not_and_or] at hblank
      simpa using hblank
  · simp [Bus.deviceAt, PCIListed, pciBus, hslot]

theorem isSome_usb_iff (lib : Library) {busPath : Str} :
    ((usbBus lib).deviceAt h busPath).isSome = true ↔ USBListed h busPath := by
  by_cases hpath : busPath ∈ h.probed.names .usbDevices
  · have hread : ∀ a ∈ busAttrs, readSysFile h.probed (.usb busPath a) = raw h (.usb busPath a) :=
      fun _ => (usbBus lib).readSysFile_eq hpath
    rw [(usbBus lib).deviceAt_of_mem hpath, show (usbBus lib).read = readUSBDevice from rfl,
      readUSBDevice, hread "idVendor" (by decide), hread "idProduct" (by decide),
      hread "bDeviceClass" (by decide), USBListed]
    simp only [hpath, true_and, List.isPrefixOf_iff_prefix]
    split_ifs with hhub hblank hclass
    · exact iff_of_false Bool.false_ne_true fun hall => hall.1 hhub
    · exact iff_of_false Bool.false_ne_true fun hall => hblank.elim hall.2.1 hall.2.2.1
    · exact iff_of_false Bool.false_ne_true fun hall => hall.2.2.2 hclass
    · rw [not_or] at hblank
      exact iff_of_true rfl ⟨hhub, hblank.1, hblank.2, hclass⟩
  · simp [Bus.deviceAt, USBListed, usbBus, hpath]

/-! ## The root disk -/

theorem isDigit_of_mem_natText {n : ℕ} (hc : c ∈ natText n) : c.isDigit = true := by
  have hdigit := isDigit_natText hc
  simp only [isDigit, Bool.and_eq_true, decide_eq_true_eq] at hdigit
  exact Char.isDigit_iff_toNat.mpr hdigit

theorem rdropWhile_append_natText {s : Str} (hc : c.isDigit = false) (n : ℕ) :
    (s ++ [c] ++ natText n).rdropWhile (·.isDigit) = s ++ [c] := by
  have hall : ∀ d ∈ (natText n).reverse, d.isDigit = true := fun d hd =>
    isDigit_of_mem_natText (List.mem_reverse.mp hd)
  rw [List.rdropWhile, List.reverse_append, List.dropWhile_append_of_pos hall,
    List.reverse_append, List.reverse_singleton, List.singleton_append,
    List.dropWhile_cons_of_neg (by simp [hc]), List.reverse_cons, List.reverse_reverse]

theorem ext_of_no_dot {s : Str} (hdot : '.' ∉ s) : ext s = [] := by
  unfold ext
  rw [if_neg]
  intro hlast
  exact hdot ((List.rdropWhile_prefix _ _).subset (List.mem_of_mem_getLast? hlast))

variable {root : RootDevice}

theorem RootDevice.mem_name (hc : c ∈ root.name) : c.isDigit = true ∨ c.isLower = true := by
  have hnat : ∀ n, c ∈ natText n → c.isDigit = true ∨ c.isLower = true := fun n hn =>
    .inl (isDigit_of_mem_natText hn)
  have hword : ∀ w : Str, w.all (·.isLower) = true → c ∈ w →
      c.isDigit = true ∨ c.isLower = true := fun w hw hmem => .inr (List.all_eq_true.mp hw c hmem)
  cases root with
  | scsi letters hne hlower partition =>
    rcases List.mem_append.mp hc with hc | hc
    · rcases List.mem_append.mp hc with hc | hc
      · exact hword _ rfl hc
      · exact .inr (hlower c hc)
    · exact hnat _ hc
  | nvme controller drive partition =>
    simp only [RootDevice.name, RootDevice.disk, List.mem_append] at hc
    rcases hc with ((((hc | hc) | hc) | hc) | hc) | hc
    · exact hword _ rfl hc
    · exact hnat _ hc
    · exact hword _ rfl hc
    · exact hnat _ hc
    · exact hword _ rfl hc
    · exact hnat _ hc
  | mmc device partition =>
    simp only [RootDevice.name, RootDevice.disk, List.mem_append] at hc
    rcases hc with ((hc | hc) | hc) | hc
    · exact hword _ rfl hc
    · exact hnat _ hc
    · exact hword _ rfl hc
    · exact hnat _ hc

theorem diskName_eq {device : Str} (hbase : base device = root.name) :
    diskName device = root.name.rdropWhile (·.isDigit) := by
  have hdot : '.' ∉ root.name := fun hc => by
    rcases RootDevice.mem_name hc with hc | hc <;> exact absurd hc (by decide)
  rw [diskName, hbase, ext_of_no_dot hdot]
  simp

theorem diskName_eq_disk_iff (root : RootDevice) {device : Str} (hbase : base device = root.name) :
    diskName device = root.disk ↔ root.isSCSI = true := by
  have hp : ('p' : Char).isDigit = false := rfl
  rw [diskName_eq hbase]
  cases root with
  | scsi letters hne hlower partition =>
    refine iff_of_true ?_ rfl
    have hlast := (toNat_of_isLower (hlower _ (List.getLast_mem hne))).1
    have hdigit : (letters.getLast hne).isDigit = false := by
      rw [Bool.eq_false_iff]
      intro hd
      have hle : (letters.getLast hne).toNat ≤ 57 := (Char.isDigit_iff_toNat.mp hd).2
      omega
    rw [RootDevice.name, RootDevice.disk, ← List.dropLast_append_getLast hne, ← List.append_assoc]
    exact rdropWhile_append_natText hdigit partition
  | nvme controller drive partition | mmc device partition =>
    rw [RootDevice.name, rdropWhile_append_natText hp]
    exact iff_of_false (by simp) Bool.false_ne_true

theorem RootDevice.mem_name_of_mem_disk (hc : c ∈ root.disk) : c ∈ root.name := by
  cases root with
  | scsi => exact List.mem_append_left _ hc
  | nvme | mmc => exact List.mem_append_left _ (List.mem_append_left _ hc)

theorem RootDevice.busID_disk (root : RootDevice) : BusID root.disk := by
  have hchars : ∀ c ∈ root.disk, c.isDigit = true ∨ c.isLower = true := fun c hc =>
    RootDevice.mem_name (RootDevice.mem_name_of_mem_disk hc)
  have hnot : ∀ c : Char, c.isDigit = false → c.isLower = false → c ∉ root.disk :=
    fun c hd hl hc => by simpa [hd, hl] using hchars c hc
  have hdot : '.' ∉ root.disk := hnot '.' rfl rfl
  refine ⟨⟨?_, ?_, ?_, hnot '/' rfl rfl⟩, fun c hc => ?_, ?_⟩
  · cases root <;> exact List.cons_ne_nil _ _
  · exact fun heq => hdot (heq ▸ by decide)
  · exact fun heq => hdot (heq ▸ by decide)
  · rcases hchars c hc with hc | hc <;> simp [isBusChar, hc]
  · rw [occursIn, decide_eq_false_iff_not]
    exact fun hin => hdot (hin.subset (by decide))

theorem isSysPath_block (root : RootDevice) : ∀ a ∈ ["device/serial", "wwid", "device/model"],
    isSysPath (File.block root.disk a).path = true := by
  have hattrs : ∀ a ∈ ["device/serial", "wwid", "device/model"],
      (∀ c ∈ components a.toList, Plain c) ∧
        ∀ c ∈ ["block".toList] ++ components a.toList, occursIn dotdot c = false := by
    exact of_decide_eq_true rfl
  intro a ha
  exact isSysPath_device ["block".toList] _ rfl rfl root.busID_disk rfl (hattrs a ha).1
    (hattrs a ha).2

theorem collectLinuxRootDiskIdentity_of_root (hroot : root.IsRoot h) :
    ∃ p : Partition, base p.device = root.name ∧
      h.partitions.find? (fun p => p.mountpoint = ['/']) = some p ∧
      collectLinuxRootDiskIdentity h.probed =
        { deviceID := p.device
          serial := readSysFile h.probed (.block (diskName p.device) "device/serial")
          wwn := readSysFile h.probed (.block (diskName p.device) "wwid")
          model := readSysFile h.probed (.block (diskName p.device) "device/model") } := by
  obtain ⟨p, hfind, hbase⟩ := hroot
  refine ⟨p, hbase, hfind, ?_⟩
  have hne : p.device ≠ [] := by
    intro hnil
    rw [hnil] at hbase
    have hdot : '.' ∈ root.name := hbase ▸ List.mem_cons_self
    rcases RootDevice.mem_name hdot with hc | hc <;> exact absurd hc (by decide)
  have hfind' : h.probed.partitions.find? (fun p => p.mountpoint = ['/']) = some p := hfind
  unfold collectLinuxRootDiskIdentity
  rw [if_neg (by simp), hfind']
  simp only [if_neg hne]

/-! ## NICs -/

theorem eq_of_lower_eq {c d : Char} (hd : d.toNat < 128) (hlower : d.isLower = false)
    (heq : lib.lower c = d) : c = d := by
  by_contra hne
  have hdiff : lib.lower c ≠ c := fun hself => hne (hself.symm.trans heq)
  have hl := lib.isLower_lower c hdiff (heq ▸ hd)
  rw [heq, hlower] at hl
  cases hl

theorem colon_notMem_normalizeString (i : Interface) : ':' ∉ normalizeString lib i.name := by
  intro hc
  obtain ⟨c, hmem, hlower⟩ := List.mem_map.mp hc
  have hcolon := eq_of_lower_eq (by decide) rfl hlower
  subst hcolon
  have hsub : (trimSpace i.name) <+: i.name.dropWhile isSpace := List.rdropWhile_prefix _ _
  exact i.name_colon ((List.dropWhile_sublist _).subset (hsub.subset hmem))

def canonicalNIC (lib : Library) (d : NICIdentity) : NICIdentity :=
  ⟨normalizeString lib d.name, normalizeString lib d.mac, []⟩

theorem nics_identity (payload : FingerprintPayload) :
    (normalizeFingerprintPayload lib (identityPayload payload)).primaryNICs =
      dedupeNICs (lib.slices.sort (fun d => d.mac ++ d.name)
        (payload.primaryNICs.map (canonicalNIC lib))) := by
  simp only [normalizeFingerprintPayload, sortSlices, identityPayload, List.map_map]
  rfl

theorem mem_canonicalNICs {d : NICIdentity} :
    d ∈ (collectLinuxPrimaryNICs h.probed).map (canonicalNIC lib) ↔
      ∃ i ∈ h.interfaces, i.Collected ∧ nicOf lib i = d := by
  have hcollect : collectLinuxPrimaryNICs h.probed =
      h.interfaces.filterMap (readNIC h.probed) := rfl
  rw [hcollect]
  simp only [List.mem_map, List.mem_filterMap, readNIC_eq_some_iff]
  constructor
  · rintro ⟨_, ⟨i, hi, hc, rfl⟩, rfl⟩
    exact ⟨i, hi, hc, by simp [nicOf, canonicalNIC]⟩
  · rintro ⟨i, hi, hc, rfl⟩
    exact ⟨_, ⟨i, hi, hc, rfl⟩, by simp [nicOf, canonicalNIC]⟩

theorem hexByte_append_inj {b b' : Fin 256} {r r' : Str} (heq : hexByte b ++ r = hexByte b' ++ r') :
    b = b' ∧ r = r' := by
  simp only [hexByte, List.cons_append, List.nil_append, List.cons.injEq] at heq
  obtain ⟨hhigh, hlow, hr⟩ := heq
  have hinj : ∀ d < 16, ∀ d' < 16, d.digitChar = d'.digitChar → d = d' := by decide
  have h1 := hinj _ (Nat.div_lt_of_lt_mul b.isLt) _ (Nat.div_lt_of_lt_mul b'.isLt) hhigh
  have h2 := hinj _ (Nat.mod_lt _ (by decide)) _ (Nat.mod_lt _ (by decide)) hlow
  exact ⟨Fin.ext (by omega), hr⟩

theorem macText_append_inj {bs bs' : List (Fin 256)} {n n' : Str} (hbs : bs ≠ []) (hbs' : bs' ≠ [])
    (hn : ':' ∉ n) (hn' : ':' ∉ n') (heq : macText bs ++ n = macText bs' ++ n') :
    macText bs = macText bs' ∧ n = n' := by
  induction bs generalizing bs' with
  | nil => exact absurd rfl hbs
  | cons b bs ih =>
    obtain ⟨b', bs', rfl⟩ := List.exists_cons_of_ne_nil hbs'
    cases bs with
    | nil =>
      cases bs' with
      | nil =>
        obtain ⟨rfl, hrest⟩ := hexByte_append_inj heq
        exact ⟨rfl, hrest⟩
      | cons c' bs' =>
        rw [macText, macText, List.append_assoc] at heq
        exact absurd ((hexByte_append_inj heq).2 ▸ List.mem_cons_self) hn
        exact List.cons_ne_nil _ _
    | cons c bs =>
      cases bs' with
      | nil =>
        rw [macText, macText, List.append_assoc] at heq
        exact absurd ((hexByte_append_inj heq).2 ▸ List.mem_cons_self) hn'
        exact List.cons_ne_nil _ _
      | cons c' bs' =>
        simp only [macText, List.append_assoc] at heq
        obtain ⟨rfl, hrest⟩ := hexByte_append_inj heq
        obtain ⟨hmac, hname⟩ := ih (List.cons_ne_nil _ _) (List.cons_ne_nil _ _)
          (List.cons.inj hrest).2
        exact ⟨by simp only [macText, hmac], hname⟩

theorem nicKey_inj {i j : Interface}
    (hkey : bars [(nicOf lib i).name, (nicOf lib i).mac, (nicOf lib i).linkState] =
      bars [(nicOf lib j).name, (nicOf lib j).mac, (nicOf lib j).linkState]) :
    nicOf lib i = nicOf lib j := by
  have hbar : ∀ bs, '|' ∉ (macText bs).reverse := fun bs hc =>
    (mem_macText (List.mem_reverse.mp hc)).2.2.2 rfl
  have hrev := congrArg List.reverse hkey
  simp only [nicOf, bars_cons, bars_singleton, List.reverse_append, List.reverse_cons,
    List.reverse_nil, List.nil_append, List.append_assoc, List.cons_append, List.cons.injEq,
    true_and] at hrev
  obtain ⟨hmac, hname⟩ := append_cons_inj (hbar _) (hbar _) hrev
  rw [nicOf, nicOf, List.reverse_injective hmac, List.reverse_injective hname]

theorem nicOrder_inj {i j : Interface} (hi : i.Collected) (hj : j.Collected)
    (horder : (nicOf lib i).mac ++ (nicOf lib i).name = (nicOf lib j).mac ++ (nicOf lib j).name) :
    nicOf lib i = nicOf lib j := by
  have hne : ∀ k : Interface, k.Collected → k.hardwareAddr ≠ [] := by
    rintro k ⟨-, hzero⟩ hnil
    rw [hnil] at hzero
    cases hzero
  obtain ⟨hmac, hname⟩ := macText_append_inj (hne i hi) (hne j hj) (colon_notMem_normalizeString i)
    (colon_notMem_normalizeString j) horder
  rw [nicOf, nicOf, hmac, hname]

theorem canonicalNICs_eq_iff :
    (canonicalOf lib h).primaryNICs = (canonicalOf lib h').primaryNICs ↔
      ∀ d, (∃ i ∈ h.interfaces, i.Collected ∧ nicOf lib i = d) ↔
        ∃ i ∈ h'.interfaces, i.Collected ∧ nicOf lib i = d := by
  have hkey : ∀ k : Host, ∀ d ∈ (collectLinuxPrimaryNICs k.probed).map (canonicalNIC lib),
      ∀ d' ∈ (collectLinuxPrimaryNICs k.probed).map (canonicalNIC lib),
      bars [d.name, d.mac, d.linkState] = bars [d'.name, d'.mac, d'.linkState] → d = d' := by
    intro k d hd d' hd' heq
    obtain ⟨i, -, -, rfl⟩ := mem_canonicalNICs.mp hd
    obtain ⟨j, -, -, rfl⟩ := mem_canonicalNICs.mp hd'
    exact nicKey_inj heq
  have horder : ∀ d ∈ (collectLinuxPrimaryNICs h.probed).map (canonicalNIC lib),
      ∀ d' ∈ (collectLinuxPrimaryNICs h.probed).map (canonicalNIC lib),
      d.mac ++ d.name = d'.mac ++ d'.name → d = d' := by
    intro d hd d' hd' heq
    obtain ⟨i, -, hi, rfl⟩ := mem_canonicalNICs.mp hd
    obtain ⟨j, -, hj, rfl⟩ := mem_canonicalNICs.mp hd'
    exact nicOrder_inj hi hj heq
  rw [canonicalOf, canonicalOf, nics_identity, nics_identity]
  constructor
  · intro heq d
    rw [← mem_canonicalNICs, ← mem_canonicalNICs]
    exact mem_iff_of_dedupe_sort_eq lib.slices (hkey h) (hkey h') heq d
  · intro hmem
    refine dedupe_sort_eq_of_mem_iff lib.slices (hkey h) horder fun d => ?_
    exact (mem_canonicalNICs.trans (hmem d)).trans mem_canonicalNICs.symm

/-! ## What changes the text -/

variable {files : File → Prop} {dirs : Dir → Prop}

theorem AgreeBut.disk_eq
    (agree : AgreeBut h h' files dirs)
    (hfiles : ∀ p, h.partitions.find? (fun p => p.mountpoint = ['/']) = some p →
      ∀ a, ¬ files (.block (diskName p.device) a)) :
    collectLinuxRootDiskIdentity h.probed = collectLinuxRootDiskIdentity h'.probed := by
  unfold collectLinuxRootDiskIdentity
  rw [show h'.probed.partitions = h.probed.partitions from agree.partitions.symm]
  cases hfind : h.probed.partitions.find? (fun p => p.mountpoint = ['/']) with
  | none => rfl
  | some p =>
    simp only [agree.readSysFile (hfiles p hfind _)]
    rfl

theorem nics_eq_of_interfaces (hi : h.interfaces = h'.interfaces) :
    (canonicalOf lib h).primaryNICs = (canonicalOf lib h').primaryNICs :=
  canonicalNICs_eq_iff.mpr fun d => by rw [hi]

section Seen

variable {f : File}

theorem canonicalOf_eq_of_outside (hf : f = .machineID ∨ f = .deviceTree "serial-number")
    (agree : AgreeBut h h' (· = f) fun _ => False) (hi : h.interfaces = h'.interfaces) :
    canonicalOf lib h = canonicalOf lib h' := by
  refine agree.canonicalOf_eq ?_ (fun _ => False.elim) ((pciBus lib).collected_eq agree id ?_)
    (agree.disk_eq ?_) ((usbBus lib).collected_eq agree id ?_) (nics_eq_of_interfaces hi)
  · rintro _ rfl
    rcases hf with rfl | rfl <;> rfl
  all_goals
    intros
    rcases hf with rfl | rfl <;> simp [pciBus, usbBus]

theorem canonicalOf_ne_of_block {root : RootDevice} (hroot : root.IsRoot h) {a : String}
    (ha : a = "device/serial" ∨ a = "wwid")
    (agree : AgreeBut h h' (· = .block root.disk a) fun _ => False)
    (hi : h.interfaces = h'.interfaces)
    (hdiffer : content lib h (.block root.disk a) ≠ content lib h' (.block root.disk a)) :
    canonicalOf lib h ≠ canonicalOf lib h' ↔ root.isSCSI = true := by
  obtain ⟨p, hbase, hfind, hdisk⟩ := collectLinuxRootDiskIdentity_of_root hroot
  have hroot' : root.IsRoot h' := ⟨p, by rw [← agree.partitions, hfind], hbase⟩
  obtain ⟨p', -, hfind', hdisk'⟩ := collectLinuxRootDiskIdentity_of_root hroot'
  rw [← agree.partitions, hfind, Option.some.injEq] at hfind'
  subst hfind'
  rw [← diskName_eq_disk_iff root hbase]
  constructor
  · intro hne
    by_contra hname
    refine hne (agree.canonicalOf_eq ?_ (fun _ => False.elim)
      ((pciBus lib).collected_eq agree id ?_) (agree.disk_eq ?_)
      ((usbBus lib).collected_eq agree id ?_) (nics_eq_of_interfaces hi))
    · rintro _ rfl
      rfl
    · simp [pciBus]
    · intro q hq b hb
      rw [hfind, Option.some.injEq] at hq
      subst hq
      exact hname (File.block.inj hb).1
    · simp [usbBus]
  · intro hname heq
    have hsame : (collectLinuxRootDiskIdentity h.probed).normalize lib =
        (collectLinuxRootDiskIdentity h'.probed).normalize lib := congrArg (·.rootDisk) heq
    have hread : ∀ b ∈ ["device/serial", "wwid", "device/model"], ∀ k : Host,
        normalizeString lib (readSysFile k.probed (.block root.disk b)) =
          content lib k (.block root.disk b) := fun b hb k => by
      rw [readSysFile_probed (isSysPath_block root b hb), normalizeString_raw]
    rw [hdisk, hdisk', hname] at hsame
    apply hdiffer
    rcases ha with rfl | rfl
    · rw [← hread _ (by decide) h, ← hread _ (by decide) h']
      exact congrArg (·.serial) hsame
    · rw [← hread _ (by decide) h, ← hread _ (by decide) h']
      exact congrArg (·.wwn) hsame

theorem content_eq_of_readDMIFile {name : String}
    (hname : name ∈ ["product_uuid", "product_serial", "board_serial"])
    (left : content lib h (.dmi name) ∉ placeholders)
    (right : content lib h' (.dmi name) ∉ placeholders)
    (heq : normalizeString lib (readDMIFile lib h.probed name) =
      normalizeString lib (readDMIFile lib h'.probed name)) :
    content lib h (.dmi name) = content lib h' (.dmi name) := by
  have hpath := isSysPath_dmi name hname
  rwa [normalizeString_readDMIFile hpath left, normalizeString_readDMIFile hpath right] at heq

theorem canonicalOf_ne_of_pci {slot : Str}
    (agree : AgreeBut h h' (fun f => ∃ a, f = .pci slot a) (· = .pciDevices))
    (hi : h.interfaces = h'.interfaces)
    (hothers : (h.probed.names .pciDevices).filter (· ≠ slot) =
      (h'.probed.names .pciDevices).filter (· ≠ slot))
    (hdiffer : pciValues lib h slot ≠ pciValues lib h' slot) :
    canonicalOf lib h ≠ canonicalOf lib h' ↔ PCIListed h slot ∨ PCIListed h' slot := by
  rw [← isSome_pci_iff lib, ← isSome_pci_iff lib]
  refine (pciBus lib).changed_iff agree hothers hdiffer (congrArg FingerprintPayload.pciDevices)
    fun hpci =>
    agree.canonicalOf_eq ?_ (fun d => .inl) hpci (agree.disk_eq ?_)
      ((usbBus lib).collected_eq agree ?_ ?_) (nics_eq_of_interfaces hi)
  · rintro _ ⟨a, rfl⟩
    rfl
  all_goals simp [usbBus]

theorem canonicalOf_ne_of_usb {busPath : Str}
    (agree : AgreeBut h h' (fun f => ∃ a, f = .usb busPath a) (· = .usbDevices))
    (hi : h.interfaces = h'.interfaces)
    (hothers : (h.probed.names .usbDevices).filter (· ≠ busPath) =
      (h'.probed.names .usbDevices).filter (· ≠ busPath))
    (hdiffer : usbValues lib h busPath ≠ usbValues lib h' busPath) :
    canonicalOf lib h ≠ canonicalOf lib h' ↔ USBListed h busPath ∨ USBListed h' busPath := by
  rw [← isSome_usb_iff lib, ← isSome_usb_iff lib]
  refine (usbBus lib).changed_iff agree hothers hdiffer (congrArg FingerprintPayload.usbDevices)
    fun husb =>
    agree.canonicalOf_eq ?_ (fun d => .inr) ((pciBus lib).collected_eq agree ?_ ?_)
      (agree.disk_eq ?_) husb (nics_eq_of_interfaces hi)
  · rintro _ ⟨a, rfl⟩
    rfl
  all_goals simp [pciBus]

theorem canonicalOf_ne_of_mac {i i' : Interface}
    (agree : AgreeBut h h' (fun _ => False) fun _ => False) (hleft : i ∈ h.interfaces)
    (hright : i' ∈ h'.interfaces) (hname : i.name = i'.name)
    (hothers : h.interfaces.filter (·.name ≠ i.name) = h'.interfaces.filter (·.name ≠ i.name))
    (hdiffer : macText i.hardwareAddr ≠ macText i'.hardwareAddr) :
    canonicalOf lib h ≠ canonicalOf lib h' ↔ Reaches lib h h' (.nicMAC i.name) := by
  have hother : ∀ o : Interface, o.name ≠ i.name → (o ∈ h.interfaces ↔ o ∈ h'.interfaces) := by
    intro o ho
    have hmem : o ∈ h.interfaces.filter (·.name ≠ i.name) ↔
        o ∈ h'.interfaces.filter (·.name ≠ i.name) := by rw [hothers]
    simpa [ho] using hmem
  have hsame : ∀ o ∈ h.interfaces, o.name = i.name → o = i := fun o ho hn =>
    List.inj_on_of_nodup_map h.interfaces_nodup ho hleft hn
  have hsame' : ∀ o ∈ h'.interfaces, o.name = i.name → o = i' := fun o ho hn =>
    List.inj_on_of_nodup_map h'.interfaces_nodup ho hright (hn.trans hname)
  constructor
  · intro hne
    by_contra hnot
    have hcovered : ∀ j ∈ h.interfaces ++ h'.interfaces, j.name = i.name → j.Collected →
        ∃ o ∈ h.interfaces, o.name ≠ i.name ∧ o.Collected ∧ nicOf lib o = nicOf lib j := by
      intro j hj hn hc
      by_contra hfree
      exact hnot ⟨j, hj, hn, hc, fun o ho hon hoc heq => hfree ⟨o, ho, hon, hoc, heq⟩⟩
    refine hne (agree.canonicalOf_eq (fun _ => False.elim) (fun _ => False.elim)
      ((pciBus lib).collected_eq agree id fun _ _ => id) (agree.disk_eq fun _ _ _ => id)
      ((usbBus lib).collected_eq agree id fun _ _ => id)
      (canonicalNICs_eq_iff.mpr fun d => ⟨?_, ?_⟩))
    · rintro ⟨j, hj, hc, rfl⟩
      by_cases hn : j.name = i.name
      · obtain ⟨o, ho, hon, hoc, heq⟩ := hcovered j (List.mem_append_left _ hj) hn hc
        exact ⟨o, (hother o hon).mp ho, hoc, heq⟩
      · exact ⟨j, (hother j hn).mp hj, hc, rfl⟩
    · rintro ⟨j, hj, hc, rfl⟩
      by_cases hn : j.name = i.name
      · obtain ⟨o, ho, -, hoc, heq⟩ := hcovered j (List.mem_append_right _ hj) hn hc
        exact ⟨o, ho, hoc, heq⟩
      · exact ⟨j, (hother j hn).mpr hj, hc, rfl⟩
  · rintro ⟨j, hj, hn, hc, hfree⟩ heq
    have hnics := canonicalNICs_eq_iff.mp (congrArg (·.primaryNICs) heq) (nicOf lib j)
    rcases List.mem_append.mp hj with hj | hj
    · obtain ⟨o, ho, hoc, hnic⟩ := hnics.mp ⟨j, hj, hc, rfl⟩
      by_cases hon : o.name = i.name
      · rw [hsame j hj hn, hsame' o ho hon] at hnic
        exact hdiffer (congrArg (·.mac) hnic.symm)
      · exact hfree o ((hother o hon).mpr ho) hon hoc hnic
    · obtain ⟨o, ho, hoc, hnic⟩ := hnics.mpr ⟨j, hj, hc, rfl⟩
      by_cases hon : o.name = i.name
      · rw [hsame' j hj hn, hsame o ho hon] at hnic
        exact hdiffer (congrArg (·.mac) hnic)
      · exact hfree o ho hon hoc hnic

/-- **What the fingerprint sees**: the texts of two hosts that differ in one source are different
exactly when the change is one that the collection sees. -/
theorem sensitive_iff (lib : Library) (src : Source) (h h' : Host) (hd : Differ lib h h' src) :
    canonicalizeIdentityFingerprint lib (collectStableFingerprintPayload lib h.probed) ≠
        canonicalizeIdentityFingerprint lib (collectStableFingerprintPayload lib h'.probed) ↔
      Reaches lib h h' src := by
  rw [Ne, canonicalizeIdentityFingerprint_eq_iff]
  show canonicalOf lib h ≠ canonicalOf lib h' ↔ Reaches lib h h' src
  cases hd with
  | value isFile has agree interfaces differ left right =>
    cases src with
    | systemUUID =>
      cases isFile
      refine iff_of_true (fun heq => differ ?_) trivial
      exact content_eq_of_readDMIFile (by decide) left right (congrArg (·.system.uuid) heq)
    | systemSerial =>
      cases isFile
      refine iff_of_true (fun heq => differ ?_) trivial
      exact content_eq_of_readDMIFile (by decide) left right (congrArg (·.system.serial) heq)
    | boardSerial =>
      cases isFile
      refine iff_of_true (fun heq => differ ?_) trivial
      exact content_eq_of_readDMIFile (by decide) left right (congrArg (·.motherboard.serial) heq)
    | diskSerial root =>
      cases isFile
      exact canonicalOf_ne_of_block has (.inl rfl) agree interfaces differ
    | diskWWN root =>
      cases isFile
      exact canonicalOf_ne_of_block has (.inr rfl) agree interfaces differ
    | machineID =>
      cases isFile
      exact iff_of_false (not_not.mpr (canonicalOf_eq_of_outside (.inl rfl) agree interfaces)) id
    | deviceTreeSerial =>
      cases isFile
      exact iff_of_false (not_not.mpr (canonicalOf_eq_of_outside (.inr rfl) agree interfaces)) id
    | pciDevice | usbDevice | nicMAC => cases isFile
  | pci agree interfaces others differ => exact canonicalOf_ne_of_pci agree interfaces others differ
  | usb agree interfaces others differ => exact canonicalOf_ne_of_usb agree interfaces others differ
  | mac agree left right name others differ =>
    exact canonicalOf_ne_of_mac agree left right name others differ

end Seen

/-! ## Changes that are seen, and some that are not -/

variable (f : File) (value : Str)

def hostWithFile : Host :=
  { bareHost with
    file := fun g => if g = f then some value else none
    partitions := [⟨"/dev/nvme0n1p2".toList, ['/']⟩] }

theorem agreeBut_hostWithFile (value value' : Str) :
    AgreeBut (hostWithFile f value) (hostWithFile f value') (· = f) fun _ => False where
  arm := rfl
  tpm0 := rfl
  partitions := rfl
  cpuInfo := rfl
  cpuCounts := rfl
  file g hg := by simp [hostWithFile, hg]
  dir _ _ := rfl

theorem content_hostWithFile :
    content .ascii (hostWithFile f value) f = normalizeString .ascii value := by
  simp [content, hostWithFile]

theorem content_hostWithFile_ne :
    content .ascii (hostWithFile f ['a']) f ≠ content .ascii (hostWithFile f ['b']) f := by
  rw [content_hostWithFile, content_hostWithFile]
  decide

theorem differ_hostWithFile {src : Source} {f : File} (hfile : src.file = some f)
    (hhas : src.Has (hostWithFile f ['a'])) :
    Differ .ascii (hostWithFile f ['a']) (hostWithFile f ['b']) src := by
  refine .value hfile hhas (agreeBut_hostWithFile f _ _) rfl (content_hostWithFile_ne f) ?_ ?_
  · rw [content_hostWithFile]
    decide
  · rw [content_hostWithFile]
    decide

/-- What a host with one value in the file is compared by. -/
def textWith : Str :=
  canonicalizeIdentityFingerprint .ascii (collectStableFingerprintPayload .ascii
    (hostWithFile f value).probed)

/-- Another UUID of the system is seen. -/
theorem system_uuid_seen :
    textWith (.dmi "product_uuid") ['a'] ≠ textWith (.dmi "product_uuid") ['b'] :=
  (sensitive_iff .ascii .systemUUID _ _ (differ_hostWithFile rfl trivial)).mpr trivial

def nvme0n1p2 : RootDevice := .nvme 0 1 2

theorem isRoot_nvme0n1p2 : nvme0n1p2.IsRoot (hostWithFile f value) := by
  refine ⟨⟨"/dev/nvme0n1p2".toList, ['/']⟩, rfl, ?_⟩
  have hname : nvme0n1p2.name = "nvme0n1p2".toList := by
    simp [nvme0n1p2, RootDevice.name, RootDevice.disk, natText, Nat.digitChar]
  rw [hname]
  rfl

/-- The hosts with other values in the file differ in the source, and their texts are the same. -/
def Unseen (src : Source) : Prop :=
  Differ .ascii (hostWithFile f ['a']) (hostWithFile f ['b']) src ∧
    textWith f ['a'] = textWith f ['b']

/-- **Another machine ID is not seen, nor is another NVMe disk.** -/
theorem machine_id_unseen :
    Unseen .machineID .machineID ∧
      Unseen (.block nvme0n1p2.disk "device/serial") (.diskSerial nvme0n1p2) := by
  unfold Unseen textWith
  refine ⟨⟨differ_hostWithFile rfl trivial, ?_⟩, ⟨differ_hostWithFile rfl ?_, ?_⟩⟩
  · rw [canonicalizeIdentityFingerprint_eq_iff]
    exact canonicalOf_eq_of_outside (.inl rfl) (agreeBut_hostWithFile _ _ _) rfl
  · exact isRoot_nvme0n1p2 _ _
  · rw [canonicalizeIdentityFingerprint_eq_iff]
    by_contra hne
    have hscsi := (canonicalOf_ne_of_block (isRoot_nvme0n1p2 _ _) (.inl rfl)
      (agreeBut_hostWithFile _ ['a'] ['b']) rfl (content_hostWithFile_ne _)).mp hne
    exact absurd hscsi (by decide)

end Edgelet.EdgeGuard
