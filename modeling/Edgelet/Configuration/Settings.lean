import Edgelet.Lexical.Text
import Mathlib.Data.Rat.Lemmas
import Mathlib.Logic.Function.Basic

/-!
# The configuration

The configuration is held twice: as settings, one for each exported field, and as a model of the
YAML file with its profiles, from which the settings are computed when the file is loaded.

A file is given by the model that reading it returns. Reading and printing numbers is left open, and
so is the case of letters outside ASCII.
-/

namespace Edgelet.Configuration

open Lexical

inductive Number
  | finite (q : ℚ)
  | infinite (negative : Bool)
  | nan

def Number.lt : Number → ℚ → Bool
  | .finite q, c => decide (q < c)
  | .infinite negative, _ => negative
  | .nan, _ => false

def Number.gt : Number → ℚ → Bool
  | .finite q, c => decide (c < q)
  | .infinite negative, _ => !negative
  | .nan, _ => false

structure Library where
  scanFloat : Str → Number
  scanInt : Str → ℤ
  parseFloat : Str → Except Str Number
  atoi : Str → Except Str ℤ
  parseInt : Str → Except Str ℤ
  printFixed : Number → Str
  printInt : ℤ → Str
  quote : Str → Str
  lower : Str → Str
  upper : Str → Str

/-! ## The settings -/

inductive Setting
  | iofogUUID | privateKey | controllerURL | containerEngine | controllerCert | networkInterface
  | containerEngineURL | diskLimit | memoryLimit | diskDirectory | cpuLimit | logLimit
  | logDirectory | logFileCount | logLevel | statusFrequency | changeFrequency | watchdogEnabled
  | edgeGuardFrequency | gpsDevice | gpsScanFrequency | gpsCoordinates | gpsMode | arch | secureMode
  | ipAddressExternal | routerUUID | isRouterInterior | pruningFrequency | availableDiskThreshold
  | upgradeScanFrequency | devMode | timeZone | nameSpace | shutdownGracePeriodSeconds
  | shutdownPolicy | controllerRequestTimeoutSeconds | controllerPingTimeoutSeconds
  | statusReportFreqSeconds | pingControllerFreqSeconds | monitorContainersStatusFreqSeconds
  | logReconcileCycleEveryNTicks | monitorRegistriesStatusFreqSeconds | healthcheckIntervalSeconds
  | getUsageDataFreqSeconds | dockerAPIVersion | setSystemTimeFreqSeconds
  | monitorSSHTunnelStatusFreqSeconds | debugging
  deriving DecidableEq

inductive Kind
  | number | int | bool | text

def Setting.kind : Setting → Kind
  | .diskLimit | .memoryLimit | .cpuLimit | .logLimit => .number
  | .logFileCount | .statusFrequency | .changeFrequency | .edgeGuardFrequency
  | .gpsScanFrequency | .pruningFrequency | .availableDiskThreshold | .upgradeScanFrequency
  | .shutdownGracePeriodSeconds | .controllerRequestTimeoutSeconds
  | .controllerPingTimeoutSeconds | .statusReportFreqSeconds | .pingControllerFreqSeconds
  | .monitorContainersStatusFreqSeconds | .logReconcileCycleEveryNTicks
  | .monitorRegistriesStatusFreqSeconds | .healthcheckIntervalSeconds | .getUsageDataFreqSeconds
  | .setSystemTimeFreqSeconds | .monitorSSHTunnelStatusFreqSeconds => .int
  | .watchdogEnabled | .secureMode | .isRouterInterior | .devMode | .debugging => .bool
  | _ => .text

def Kind.Ty : Kind → Type
  | .number => Number
  | .int => ℤ
  | .bool => Bool
  | .text => Str

def Setting.Ty (f : Setting) : Type := f.kind.Ty

abbrev Settings := (f : Setting) → f.Ty

/-! ## The model of the file -/

abbrev ProfileConfig := Str → Option Str

def ProfileConfig.getProperty (p : ProfileConfig) (key : Str) : Str := (p key).getD []

def ProfileConfig.setProperty (p : ProfileConfig) (key value : Str) : ProfileConfig :=
  Function.update p key (some value)

structure YamlConfig where
  currentProfile : Str
  profiles : Str → Option ProfileConfig

inductive ConfigSwitcherState
  | standard
  | development
  | production
  deriving DecidableEq

namespace ConfigSwitcherState

def fullValue : ConfigSwitcherState → Str
  | .standard => "default".toList
  | .development => "development".toList
  | .production => "production".toList

def parse (s : Str) : Option ConfigSwitcherState :=
  if s = "default".toList ∨ s = "def".toList then some .standard
  else if s = "development".toList ∨ s = "dev".toList then some .development
  else if s = "production".toList ∨ s = "prod".toList then some .production
  else none

theorem fullValue_injective {p q : ConfigSwitcherState} (h : p.fullValue = q.fullValue) :
    p = q := by
  cases p <;> cases q <;> first | rfl | exact absurd h (by decide)

end ConfigSwitcherState

structure Config where
  yamlConfig : Option YamlConfig
  currentProfile : ConfigSwitcherState
  configPath : Str
  settings : Settings

namespace Config

variable (c : Config)

def profile : Option ProfileConfig :=
  c.yamlConfig.bind fun y => y.profiles c.currentProfile.fullValue

end Config

def Kind.zero : (k : Kind) → k.Ty
  | .number => Number.finite 0
  | .int => (0 : ℤ)
  | .bool => false
  | .text => ([] : Str)

def Settings.zero : Settings := fun f => f.kind.zero

/-! ## Files -/

inductive File
  | missing (e : Str)
  | unreadable (e : Str)
  | invalid (e : Str)
  | model (y : YamlConfig)

abbrev Files := Str → File

structure Platform where
  embedded : Bool
  configYAMLPath : Str
  backupConfigYAMLPath : Str

/-! ## Loading -/

def parseSecureMode (value : Str) : Bool :=
  let v := toLower (trimSpace value)
  !(v == "off".toList || v == "false".toList || v == "0".toList || v == "no".toList)

def defaultShutdownPolicy (containerEngine : Str) : Str :=
  let engine := toLower (trimSpace containerEngine)
  if engine = "docker".toList ∨ engine = "podman".toList then "leave-running".toList
  else "drain-all".toList

def edgeletEngineSocketURL : Str := "unix:///run/edgelet/containerd.sock".toList

section Load

variable (lib : Library) (p : ProfileConfig)

def getProp (key default : String) : Str :=
  let value := p.getProperty key.toList
  if value = [] then default.toList else value

def atLeast (bound default : ℤ) (value : ℤ) : ℤ := if value < bound then default else value

def loadConfigValues (s : Settings) : Settings := fun
  | .iofogUUID => getProp p "iofogUuid" ""
  | .privateKey => []
  | .controllerURL => getProp p "controllerUrl" "http://localhost:54421/api/v3/"
  | .controllerCert => getProp p "controllerCert" "/etc/edgelet/cert.crt"
  | .networkInterface => getProp p "networkInterface" "dynamic"
  | .containerEngine => getProp p "containerEngine" "edgelet"
  | .containerEngineURL =>
    getProp p "containerEngineUrl" "unix:///run/edgelet/containerd.sock"
  | .diskDirectory => getProp p "diskDirectory" "/var/lib/edgelet/"
  | .logDirectory =>
    let directory := getProp p "logDirectory" ""
    if directory = [] then getProp p "logDiskDirectory" "/var/log/edgelet/" else directory
  | .logLevel => lib.upper (getProp p "logLevel" "INFO")
  | .gpsDevice => getProp p "gpsDevice" "/dev/ttyUSB0"
  | .gpsMode => lib.lower (trimSpace (getProp p "gpsMode" "auto"))
  | .gpsCoordinates => getProp p "gpsCoordinates" ""
  | .arch => getProp p "arch" "auto"
  | .nameSpace => getProp p "namespace" "default"
  | .timeZone => getProp p "timeZone" "Europe/Istanbul"
  | .diskLimit => lib.scanFloat (getProp p "diskLimit" "10")
  | .memoryLimit => lib.scanFloat (getProp p "memoryLimit" "4096")
  | .cpuLimit => lib.scanFloat (getProp p "cpuLimit" "80")
  | .logLimit =>
    let raw := getProp p "logLimit" ""
    lib.scanFloat (if raw = [] then getProp p "logDiskLimit" "10" else raw)
  | .logFileCount => lib.scanInt (getProp p "logFileCount" "10")
  | .statusFrequency => lib.scanInt (getProp p "statusFrequency" "10")
  | .changeFrequency => lib.scanInt (getProp p "changeFrequency" "20")
  | .watchdogEnabled => getProp p "watchdogEnabled" "off" != "off".toList
  | .edgeGuardFrequency =>
    let frequency := lib.scanInt (getProp p "edgeGuardFrequency" "0")
    if getProp p "iofogUuid" "" = [] ∧ 0 < frequency then (0 : ℤ) else frequency
  | .gpsScanFrequency => lib.scanInt (getProp p "gpsScanFrequency" "60")
  | .secureMode => parseSecureMode (getProp p "secureMode" "off")
  | .pruningFrequency => lib.scanInt (getProp p "pruningFrequency" "0")
  | .availableDiskThreshold => lib.scanInt (getProp p "availableDiskThreshold" "20")
  | .upgradeScanFrequency => lib.scanInt (getProp p "upgradeScanFrequency" "24")
  | .logReconcileCycleEveryNTicks =>
    atLeast 1 60 (lib.scanInt (getProp p "logReconcileCycleEveryNTicks" "60"))
  | .devMode => getProp p "devMode" "off" != "off".toList
  | .shutdownGracePeriodSeconds =>
    atLeast 1 90 (lib.scanInt (getProp p "shutdownGracePeriodSeconds" "90"))
  | .shutdownPolicy =>
    let policy := lib.lower (trimSpace (getProp p "shutdownPolicy" ""))
    if policy = [] then defaultShutdownPolicy (getProp p "containerEngine" "edgelet") else policy
  | .controllerRequestTimeoutSeconds =>
    atLeast 5 30 (lib.scanInt (getProp p "controllerRequestTimeoutSeconds" "30"))
  | .controllerPingTimeoutSeconds =>
    atLeast 5 60 (lib.scanInt (getProp p "controllerPingTimeoutSeconds" "60"))
  | .statusReportFreqSeconds => (5 : ℤ)
  | .pingControllerFreqSeconds => (30 : ℤ)
  | .monitorContainersStatusFreqSeconds => (5 : ℤ)
  | .monitorRegistriesStatusFreqSeconds => (60 : ℤ)
  | .healthcheckIntervalSeconds => (30 : ℤ)
  | .getUsageDataFreqSeconds => (5 : ℤ)
  | .dockerAPIVersion => "1.47".toList
  | .setSystemTimeFreqSeconds => (5 : ℤ)
  | .monitorSSHTunnelStatusFreqSeconds => (30 : ℤ)
  | .ipAddressExternal => s .ipAddressExternal
  | .routerUUID => s .routerUUID
  | .isRouterInterior => s .isRouterInterior
  | .debugging => s .debugging

end Load

/-! ## Validation -/

section Validation

variable (lib : Library) (embedded : Bool) (s : Settings)

def allowedEngines : List Str :=
  if embedded then ["edgelet".toList, "docker".toList, "podman".toList]
  else ["docker".toList, "podman".toList]

def normalizeGPSCoordinates (value : Str) : Except Str Str :=
  match (trimSpace value).splitOn ',' with
  | [a, b] => do
    let lat ← (lib.parseFloat (trimSpace a)).mapError ("invalid latitude: ".toList ++ ·)
    let lon ← (lib.parseFloat (trimSpace b)).mapError ("invalid longitude: ".toList ++ ·)
    if lat.lt (-90) || lat.gt 90 then .error "latitude must be between -90 and 90".toList
    else if lon.lt (-180) || lon.gt 180 then
      .error "longitude must be between -180 and 180".toList
    else return lib.printFixed lat ++ ",".toList ++ lib.printFixed lon
  | _ => .error "invalid GPS coordinates format: expected lat,lon".toList

def complain (bad : Bool) (message : Str) : List Str := if bad then [message] else []

def outside (low high value : ℤ) : Bool := decide (value < low) || decide (high < value)

def below (bound value : ℤ) : Bool := decide (value < bound)

def validateLimits : List Str :=
  let level := toUpper (s .logLevel)
  complain ((s .diskLimit).lt (1 / 2) || (s .diskLimit).gt 100000)
    "disk limit must be between 0.5 and 100000.0 GB".toList ++
  complain ((s .memoryLimit).lt 128 || (s .memoryLimit).gt 1048576)
    "memory limit must be between 128 and 1048576 MB".toList ++
  complain ((s .cpuLimit).lt 5 || (s .cpuLimit).gt 400)
    ("CPU limit must be between 5 and 400 ".toList ++
      "(100 = one logical CPU for the Edgelet stack)".toList) ++
  complain ((s .logLimit).lt (1 / 2) || (s .logLimit).gt 100000)
    "log disk limit must be between 0.5 and 100000.0 GB".toList ++
  complain (outside 1 100 (s .logFileCount))
    "log file count must be between 1 and 100".toList ++
  complain (!(["DEBUG".toList, "INFO".toList, "WARN".toList, "ERROR".toList, "FATAL".toList,
      "OFF".toList].contains level))
    "log level must be one of: DEBUG, INFO, WARN, ERROR, FATAL, OFF".toList ++
  complain (below 1 (s .statusFrequency))
    "status frequency must be greater than 0".toList ++
  complain (below 1 (s .changeFrequency))
    "change frequency must be greater than 0".toList ++
  complain (below 0 (s .edgeGuardFrequency))
    "edge guard frequency must be positive".toList

def validateGPS : List Str :=
  let mode : Str := s .gpsMode
  complain (below 0 (s .gpsScanFrequency)) "GPS scan frequency must be positive".toList ++
  complain (mode != [] && !(["auto".toList, "dynamic".toList, "manual".toList,
      "off".toList].contains (toLower (trimSpace mode))))
    "GPS mode must be one of: auto, dynamic, manual, off".toList ++
  if trimSpace (s .gpsCoordinates) = [] then []
  else
    match normalizeGPSCoordinates lib (s .gpsCoordinates) with
    | .ok _ => []
    | .error e => ["GPS coordinates are invalid: ".toList ++ e]

def validateEngine : List Str :=
  let url : Str := s .containerEngineURL
  let engine := toLower (trimSpace (s .containerEngine))
  complain (url != [] && !("tcp://".toList.isPrefixOf url) && !("unix://".toList.isPrefixOf url))
    "container engine URL must start with 'tcp://' or 'unix://'".toList ++
  complain (!(allowedEngines embedded).contains engine)
    ("containerEngine ".toList ++ lib.quote (s .containerEngine) ++
      " is not supported on this platform (allowed: ".toList ++
      ", ".toList.intercalate (allowedEngines embedded) ++ ")".toList) ++
  complain (engine != "docker".toList && engine != "podman".toList && engine != "edgelet".toList)
    "containerEngine must be one of: docker, podman, edgelet".toList ++
  complain (engine == "edgelet".toList && url != edgeletEngineSocketURL)
    ("containerEngineUrl for containerEngine edgelet must be ".toList ++
      lib.quote edgeletEngineSocketURL ++ " (got ".toList ++ lib.quote url ++ ")".toList) ++
  complain (engine == "podman".toList && trimSpace url == [])
    ("containerEngineUrl is required when containerEngine is podman ".toList ++
      "(e.g. unix:///run/podman/podman.sock)".toList)

def validateShutdown : List Str :=
  let given := toLower (trimSpace (s .shutdownPolicy))
  let policy := if given = [] then defaultShutdownPolicy (s .containerEngine) else given
  complain (outside 5 600 (s .shutdownGracePeriodSeconds))
    "shutdownGracePeriodSeconds must be between 5 and 600".toList ++
  complain (policy != "leave-running".toList && policy != "drain-all".toList)
    ("shutdownPolicy must be ".toList ++ lib.quote "leave-running".toList ++ " or ".toList ++
      lib.quote "drain-all".toList ++ " (got ".toList ++ lib.quote (s .shutdownPolicy) ++
      ")".toList) ++
  complain (outside 5 300 (s .controllerRequestTimeoutSeconds))
    "controllerRequestTimeoutSeconds must be between 5 and 300".toList ++
  complain (outside 5 300 (s .controllerPingTimeoutSeconds))
    "controllerPingTimeoutSeconds must be between 5 and 300".toList

def validateConfig : List Str :=
  validateLimits s ++ validateGPS lib s ++ validateEngine lib embedded s ++ validateShutdown lib s

end Validation

end Edgelet.Configuration
