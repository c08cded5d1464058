import Edgelet.Configuration.Settings
import Edgelet.Lexical.Path
import Mathlib.Data.List.Nodup

/-!
# Setting parameters

`SetConfig` checks its parameters one by one and puts each that is accepted into the settings and
into the model of the file. Only when nothing has been rejected is the model written. So a call that
reports errors has applied the other parameters, and the next write brings them into the file.
-/

namespace Edgelet.Configuration

open Lexical Config

/-! ## Changes -/

def Setting.key : Setting → Str
  | .diskLimit => "diskLimit".toList
  | .diskDirectory => "diskDirectory".toList
  | .memoryLimit => "memoryLimit".toList
  | .cpuLimit => "cpuLimit".toList
  | .controllerURL => "controllerUrl".toList
  | .controllerCert => "controllerCert".toList
  | .containerEngineURL => "containerEngineUrl".toList
  | .containerEngine => "containerEngine".toList
  | .networkInterface => "networkInterface".toList
  | .logLimit => "logLimit".toList
  | .logDirectory => "logDirectory".toList
  | .logFileCount => "logFileCount".toList
  | .logLevel => "logLevel".toList
  | .statusFrequency => "statusFrequency".toList
  | .changeFrequency => "changeFrequency".toList
  | .watchdogEnabled => "watchdogEnabled".toList
  | .edgeGuardFrequency => "edgeGuardFrequency".toList
  | .gpsMode => "gpsMode".toList
  | .gpsCoordinates => "gpsCoordinates".toList
  | .gpsDevice => "gpsDevice".toList
  | .gpsScanFrequency => "gpsScanFrequency".toList
  | .arch => "arch".toList
  | .secureMode => "secureMode".toList
  | .pruningFrequency => "pruningFrequency".toList
  | .availableDiskThreshold => "availableDiskThreshold".toList
  | .upgradeScanFrequency => "upgradeScanFrequency".toList
  | .devMode => "devMode".toList
  | .timeZone => "timeZone".toList
  | _ => []

structure Change where
  setting : Setting
  value : setting.Ty
  text : Str

def Change.key (ch : Change) : Str := ch.setting.key

def configParamMap : List (Str × Setting) :=
  [("d".toList, .diskLimit), ("dl".toList, .diskDirectory), ("m".toList, .memoryLimit),
    ("p".toList, .cpuLimit), ("a".toList, .controllerURL), ("ac".toList, .controllerCert),
    ("cu".toList, .containerEngineURL), ("ce".toList, .containerEngine),
    ("n".toList, .networkInterface), ("l".toList, .logLimit), ("ld".toList, .logDirectory),
    ("lc".toList, .logFileCount), ("ll".toList, .logLevel), ("sf".toList, .statusFrequency),
    ("cf".toList, .changeFrequency), ("wd".toList, .watchdogEnabled),
    ("egf".toList, .edgeGuardFrequency), ("gps".toList, .gpsMode),
    ("gpsc".toList, .gpsCoordinates), ("gpsd".toList, .gpsDevice),
    ("gpsf".toList, .gpsScanFrequency), ("ft".toList, .arch), ("sec".toList, .secureMode),
    ("pf".toList, .pruningFrequency), ("dt".toList, .availableDiskThreshold),
    ("uf".toList, .upgradeScanFrequency), ("dev".toList, .devMode), ("tz".toList, .timeZone)]

def settingOf (option : Str) : Option Setting :=
  (configParamMap.find? fun p => p.1 == option).map Prod.snd

def defaultContainerEngineURLForEngine (engine : Str) : Str :=
  let engine := toLower (trimSpace engine)
  if engine = "edgelet".toList then edgeletEngineSocketURL
  else if engine = "podman".toList then "unix:///run/podman/podman.sock".toList
  else "unix:///var/run/docker.sock".toList

section Fields

variable (lib : Library)

def parsed {α : Type} (r : Except Str α) (what : String) (change : α → Change) :
    Except Str (List Change) :=
  match r with
  | .ok v => .ok [change v]
  | .error e => .error (what.toList ++ e)

def sameText (a b : Str) : Bool := a == b

def allowedArchValues : List Str :=
  ["auto".toList, "amd64".toList, "arm64".toList, "arm".toList, "riscv64".toList]

def validateArch (value : Str) : Option Str :=
  if allowedArchValues.contains (toLower (trimSpace value)) then none
  else some ("arch must be one of ".toList ++ "|".toList.intercalate allowedArchValues)

def onOff (b : Bool) : Str := if b then "on".toList else "off".toList

/-- What changes, or the error. The settings are looked at where a field depends on another. -/
def setConfigField (s : Settings) (field : Setting) (value : Str) : Except Str (List Change) :=
  match field with
  | .diskLimit => parsed (lib.parseFloat value) "invalid disk limit: " (⟨.diskLimit, ·, value⟩)
  | .diskDirectory => .ok [⟨.diskDirectory, value, value⟩]
  | .memoryLimit =>
    parsed (lib.parseFloat value) "invalid memory limit: " (⟨.memoryLimit, ·, value⟩)
  | .cpuLimit => parsed (lib.parseFloat value) "invalid CPU limit: " (⟨.cpuLimit, ·, value⟩)
  | .controllerURL => .ok [⟨.controllerURL, value, value⟩]
  | .controllerCert => .ok [⟨.controllerCert, value, value⟩]
  | .containerEngineURL =>
    if toLower (trimSpace (s .containerEngine)) = "edgelet".toList then
      if trimSpace value = edgeletEngineSocketURL then .ok []
      else .error ("containerEngineUrl is fixed for containerEngine edgelet (".toList ++
        edgeletEngineSocketURL ++ ")".toList)
    else .ok [⟨.containerEngineURL, value, value⟩]
  | .containerEngine =>
    if value = "docker".toList ∨ value = "podman".toList ∨ value = "edgelet".toList then
      let url := defaultContainerEngineURLForEngine value
      if sameText (s .containerEngine) value then .ok [⟨.containerEngine, value, value⟩]
      else .ok [⟨.containerEngine, value, value⟩, ⟨.containerEngineURL, url, url⟩]
    else .error ("invalid container engine ".toList ++ lib.quote value ++
      ": must be one of docker, podman, edgelet".toList)
  | .networkInterface => .ok [⟨.networkInterface, value, value⟩]
  | .logLimit => parsed (lib.parseFloat value) "invalid log limit: " (⟨.logLimit, ·, value⟩)
  | .logDirectory => .ok [⟨.logDirectory, value, value⟩]
  | .logFileCount =>
    parsed (lib.atoi value) "invalid log file count: " (⟨.logFileCount, ·, value⟩)
  | .logLevel => .ok [⟨.logLevel, value, value⟩]
  | .statusFrequency =>
    parsed (lib.atoi value) "invalid status frequency: " (⟨.statusFrequency, ·, value⟩)
  | .changeFrequency =>
    parsed (lib.atoi value) "invalid change frequency: " (⟨.changeFrequency, ·, value⟩)
  | .watchdogEnabled =>
    let on := parseSecureMode value
    .ok [⟨.watchdogEnabled, on, onOff on⟩]
  | .edgeGuardFrequency =>
    parsed (lib.parseInt value) "invalid edge guard frequency: " fun v =>
      let v := if sameText (s .iofogUUID) [] ∧ 0 < v then 0 else v
      ⟨.edgeGuardFrequency, v, lib.printInt v⟩
  | .gpsMode =>
    let mode := toLower (trimSpace value)
    if mode = "auto".toList ∨ mode = "dynamic".toList ∨ mode = "manual".toList ∨
        mode = "off".toList then .ok [⟨.gpsMode, mode, mode⟩]
    else .error ("invalid GPS mode ".toList ++ lib.quote value ++
      ": must be one of auto, dynamic, manual, off".toList)
  | .gpsCoordinates =>
    parsed (normalizeGPSCoordinates lib value) "" fun v => ⟨.gpsCoordinates, v, v⟩
  | .gpsDevice => .ok [⟨.gpsDevice, value, value⟩]
  | .gpsScanFrequency =>
    parsed (lib.parseInt value) "invalid GPS scan frequency: " (⟨.gpsScanFrequency, ·, value⟩)
  | .arch =>
    let arch := toLower (trimSpace value)
    match validateArch arch with
    | none => .ok [⟨.arch, arch, arch⟩]
    | some e => .error e
  | .secureMode =>
    let secure := parseSecureMode value
    .ok [⟨.secureMode, secure, onOff secure⟩]
  | .pruningFrequency =>
    parsed (lib.parseInt value) "invalid pruning frequency: " (⟨.pruningFrequency, ·, value⟩)
  | .availableDiskThreshold =>
    parsed (lib.parseInt value) "invalid available disk threshold: "
      (⟨.availableDiskThreshold, ·, value⟩)
  | .upgradeScanFrequency =>
    parsed (lib.atoi value) "invalid ready to upgrade scan frequency: "
      (⟨.upgradeScanFrequency, ·, value⟩)
  | .devMode => .ok [⟨.devMode, toLower value != "off".toList, value⟩]
  | .timeZone => .ok [⟨.timeZone, value, value⟩]
  | _ => .error "unknown config field: ".toList

def check (s : Settings) (option value : Str) : Except Str (List Change) :=
  match settingOf option with
  | none => .error "Invalid parameter".toList
  | some field =>
    let value := if "+".toList.isPrefixOf value then value.drop 1 else value
    if trimSpace value = [] ∧ option ≠ "ac".toList then
      .error "Command or value is invalid".toList
    else setConfigField lib s field value

end Fields

/-! ## The call -/

def YamlConfig.setProfile (y : YamlConfig) (name : ConfigSwitcherState) (p : ProfileConfig) :
    YamlConfig :=
  { y with profiles := Function.update y.profiles name.fullValue (some p) }

namespace Config

variable (c : Config)

def setYamlProperty (key value : Str) : Config :=
  match c.yamlConfig with
  | none => c
  | some y =>
    match y.profiles c.currentProfile.fullValue with
    | none => c
    | some p =>
      { c with yamlConfig := some (y.setProfile c.currentProfile (p.setProperty key value)) }

def put (ch : Change) : Config :=
  let c := { c with settings := Function.update c.settings ch.setting ch.value }
  c.setYamlProperty ch.key ch.text

end Config

structure ParamMap where
  entries : List (Str × Str)
  nodup : (entries.map Prod.fst).Nodup

def setConfigApplyOrder : List Str := ["ce".toList, "cu".toList]

def ParamMap.inOrder (m : ParamMap) : List (Str × Str) :=
  setConfigApplyOrder.flatMap (fun o => m.entries.filter fun e => e.1 == o) ++
    m.entries.filter fun e => !setConfigApplyOrder.contains e.1

structure Loop where
  config : Config
  errors : List (Str × Str)
  made : List Change

def applyOne (lib : Library) (l : Loop) (e : Str × Str) : Loop :=
  match check lib l.config.settings e.1 e.2 with
  | .error message => { l with errors := l.errors ++ [(e.1, message)] }
  | .ok changes =>
    { l with config := changes.foldl Config.put l.config, made := l.made ++ changes }

def applyAll (lib : Library) (c : Config) (m : ParamMap) : Loop :=
  m.inOrder.foldl (applyOne lib) ⟨c, [], []⟩

/-! ## Saving -/

section Save

variable (plat : Platform)

def defaultProperties : List (String × String) :=
  [("controllerUrl", "http://localhost:54421/api/v3/"), ("controllerCert", "/etc/edgelet/cert.crt"),
    ("networkInterface", "dynamic"), ("containerEngineUrl", "unix:///var/run/docker.sock"),
    ("diskDirectory", "/var/lib/edgelet/"), ("diskLimit", "10"), ("memoryLimit", "4096"),
    ("cpuLimit", "80"), ("logDirectory", "/var/log/edgelet/"), ("logLimit", "10"),
    ("logFileCount", "10"), ("logLevel", "INFO"), ("statusFrequency", "10"),
    ("changeFrequency", "20"), ("watchdogEnabled", "off"), ("edgeGuardFrequency", "0"),
    ("gpsDevice", "/dev/ttyUSB0"), ("gpsScanFrequency", "60"), ("gpsMode", "auto"),
    ("gpsCoordinates", "0,0"), ("arch", "auto"), ("secureMode", "off"), ("pruningFrequency", "1"),
    ("availableDiskThreshold", "20"), ("upgradeScanFrequency", "24"), ("devMode", "off"),
    ("timeZone", ""), ("namespace", "default")]

def ProfileConfig.ofList (properties : List (String × String)) : ProfileConfig :=
  properties.foldl (fun p e => p.setProperty e.1.toList e.2.toList) fun _ => none

def YamlConfig.single (name : ConfigSwitcherState) (p : ProfileConfig) : YamlConfig where
  currentProfile := name.fullValue
  profiles := Function.update (fun _ => none) name.fullValue (some p)

def Config.savePath (c : Config) : Str :=
  Lexical.clean (if c.configPath = [] then plat.configYAMLPath else c.configPath)

/-- The model that a save writes: it is created if there is none, and so is the current profile. -/
def Config.savedModel (c : Config) : YamlConfig :=
  match c.yamlConfig with
  | none => .single c.currentProfile (.ofList defaultProperties)
  | some y =>
    match y.profiles c.currentProfile.fullValue with
    | some _ => y
    | none => y.setProfile c.currentProfile fun _ => none

/-- `saveConfigUpdatesLocked`, when replacing the file succeeds and when it fails. The model and the
path are kept in either case. -/
def saveConfigUpdates (c : Config) (saved : Bool) (files : Files) : Config × Files :=
  let c' := { c with
    yamlConfig := some c.savedModel
    configPath := if c.yamlConfig.isNone ∧ c.configPath = [] then plat.configYAMLPath
      else c.configPath }
  (c', if saved then Function.update files (c.savePath plat) (.model c.savedModel) else files)

structure Outcome where
  config : Config
  errors : List (Str × Str)
  files : Files

def setConfig (lib : Library) (c : Config) (m : ParamMap) (saved : Bool) (files : Files) :
    Outcome :=
  let l := applyAll lib c m
  if l.errors = [] then
    let r := saveConfigUpdates plat l.config saved files
    ⟨r.1, [], r.2⟩
  else ⟨l.config, l.errors, files⟩

def switchProfile (c : Config) (profile : ConfigSwitcherState) (saved : Bool) (files : Files) :
    Config × Files :=
  saveConfigUpdates plat { c with currentProfile := profile } saved files

end Save

/-! ## One change -/

namespace Config

variable {c : Config} {ch : Change}

variable (key value : Str)

@[simp] theorem setYamlProperty_settings : (c.setYamlProperty key value).settings = c.settings := by
  simp only [setYamlProperty]
  split
  · rfl
  · split <;> rfl

@[simp] theorem setYamlProperty_currentProfile :
    (c.setYamlProperty key value).currentProfile = c.currentProfile := by
  simp only [setYamlProperty]
  split
  · rfl
  · split <;> rfl

@[simp] theorem setYamlProperty_configPath :
    (c.setYamlProperty key value).configPath = c.configPath := by
  simp only [setYamlProperty]
  split
  · rfl
  · split <;> rfl

theorem setYamlProperty_profile :
    (c.setYamlProperty key value).profile = c.profile.map (·.setProperty key value) := by
  simp only [setYamlProperty]
  split
  case h_1 h => simp [profile, h]
  case h_2 y h =>
    split
    case h_1 hp => simp [profile, h, hp]
    case h_2 p hp => simp [profile, h, hp, YamlConfig.setProfile]

theorem setYamlProperty_eq_self {key value : Str} (h : ∀ p ∈ c.profile, p key = some value) :
    c.setYamlProperty key value = c := by
  rcases c with ⟨_ | y, name, path, settings⟩
  · rfl
  · simp only [setYamlProperty]
    split
    · rfl
    case h_2 p hp =>
      have hset : p.setProperty key value = p := by
        rw [ProfileConfig.setProperty, ← h p hp, Function.update_eq_self]
      have hy : y.setProfile name p = y := by
        rw [YamlConfig.setProfile, ← hp, Function.update_eq_self]
      rw [hset, hy]

@[simp] theorem put_settings :
    (c.put ch).settings = Function.update c.settings ch.setting ch.value :=
  setYamlProperty_settings _ _

@[simp] theorem put_currentProfile : (c.put ch).currentProfile = c.currentProfile :=
  setYamlProperty_currentProfile _ _

@[simp] theorem put_configPath : (c.put ch).configPath = c.configPath :=
  setYamlProperty_configPath _ _

@[simp] theorem put_profile : (c.put ch).profile = c.profile.map (·.setProperty ch.key ch.text) :=
  setYamlProperty_profile _ _

def Present (c : Config) (ch : Change) : Prop :=
  c.settings ch.setting = ch.value ∧ ∀ p ∈ c.profile, p ch.key = some ch.text

theorem put_eq_self (h : c.Present ch) : c.put ch = c := by
  have hs : Function.update c.settings ch.setting ch.value = c.settings := by
    rw [← h.1, Function.update_eq_self]
  simp only [put, hs]
  exact setYamlProperty_eq_self h.2

theorem foldl_put_eq_self {changes : List Change} (h : ∀ ch ∈ changes, c.Present ch) :
    changes.foldl put c = c := by
  induction changes with
  | nil => rfl
  | cons ch changes ih =>
    rw [List.foldl_cons, put_eq_self (h ch (by simp))]
    exact ih fun x hx => h x (List.mem_cons_of_mem _ hx)

def SameAt (f : Setting) (c c' : Config) : Prop :=
  c'.settings f = c.settings f ∧ c'.profile.map (· f.key) = c.profile.map (· f.key)

variable {f : Setting}

theorem SameAt.trans {a b c : Config} (h : SameAt f a b) (h' : SameAt f b c) :
    SameAt f a c := ⟨h'.1.trans h.1, h'.2.trans h.2⟩

theorem sameAt_put (h : ch.setting.key ≠ f.key) : SameAt f c (c.put ch) := by
  have hf : f ≠ ch.setting := fun he => h (by rw [he])
  refine ⟨by rw [put_settings, Function.update_of_ne hf], ?_⟩
  rw [put_profile, Option.map_map]
  congr 1
  funext p
  exact Function.update_of_ne (Ne.symm h) _ _

theorem sameAt_foldl_put {changes : List Change}
    (h : ∀ ch ∈ changes, ch.setting.key ≠ f.key) : SameAt f c (changes.foldl put c) := by
  induction changes generalizing c with
  | nil => exact ⟨rfl, rfl⟩
  | cons ch changes ih =>
    exact (sameAt_put (h ch (by simp))).trans (ih fun x hx => h x (List.mem_cons_of_mem _ hx))

theorem present_of_sameAt (h : SameAt ch.setting (c.put ch) c) : c.Present ch := by
  obtain ⟨hs, hp⟩ := h
  rw [put_settings, Function.update_self] at hs
  refine ⟨hs, fun p hmem => ?_⟩
  rw [put_profile, Option.mem_def.mp hmem] at hp
  have hkey : p ch.key = p.setProperty ch.key ch.text ch.key := Option.some.inj hp
  exact hkey.trans (Function.update_self _ _ _)

end Config

/-! ## What a parameter changes -/

theorem mem_configParamMap {o : Str} {f : Setting} (h : settingOf o = some f) :
    (o, f) ∈ configParamMap := by
  obtain ⟨⟨o', f'⟩, hfind, rfl⟩ := Option.map_eq_some_iff.mp h
  have ho : o' = o := by simpa using List.find?_some hfind
  exact ho ▸ List.mem_of_find?_eq_some hfind

theorem settingOf_inj {o o' : Str} {f : Setting} (h : settingOf o = some f)
    (h' : settingOf o' = some f) : o = o' := by
  have hnodup : (configParamMap.map Prod.snd).Nodup := by decide
  exact congrArg Prod.fst
    (List.inj_on_of_nodup_map hnodup (mem_configParamMap h) (mem_configParamMap h') rfl)

theorem key_inj {o o' : Str} {f f' : Setting} (h : settingOf o = some f)
    (h' : settingOf o' = some f') (he : f.key = f'.key) : f = f' := by
  have hnodup : (configParamMap.map fun p => p.2.key).Nodup := of_decide_eq_true rfl
  exact congrArg Prod.snd
    (List.inj_on_of_nodup_map hnodup (mem_configParamMap h) (mem_configParamMap h') he)

inductive Changes (s : Settings) (f : Setting) : List Change → Prop
  | none : Changes s f []
  | one (ch : Change) (h : ch.setting = f) : Changes s f [ch]
  | engine (h : f = .containerEngine) (value : Str) (hne : s .containerEngine ≠ value) (ch : Change)
    (hch : ch.setting = .containerEngineURL) : Changes s f [⟨.containerEngine, value, value⟩, ch]

section Checks

variable {lib : Library} {s : Settings} {f : Setting} {value : Str} {changes : List Change}

theorem changes_of_parsed {α : Type} {r : Except Str α} {what : String} {change : α → Change}
    (hc : ∀ v, (change v).setting = f) (h : parsed r what change = .ok changes) :
    Changes s f changes := by
  cases r with
  | error e => cases h
  | ok v =>
    cases h
    exact .one _ (hc v)

theorem changes_of_setConfigField (h : setConfigField lib s f value = .ok changes) :
    Changes s f changes := by
  cases f <;> simp only [setConfigField] at h
  all_goals first
    | exact changes_of_parsed (fun _ => rfl) h
    | (cases h; exact .one _ rfl)
    | (cases h)
    | skip
  case containerEngine =>
    split at h
    · split at h
      · cases h
        exact .one _ rfl
      case isFalse hne =>
        cases h
        exact .engine rfl value (fun he => hne (beq_iff_eq.mpr he)) _ rfl
    · cases h
  case containerEngineURL =>
    split at h
    · split at h
      · cases h
        exact .none
      · cases h
    · cases h
      exact .one _ rfl
  case gpsMode =>
    split at h
    · cases h
      exact .one _ rfl
    · cases h
  case arch =>
    split at h
    · cases h
      exact .one _ rfl
    · cases h

theorem changes_of_check {o : Str} (h : check lib s o value = .ok changes) :
    ∃ f, settingOf o = some f ∧ Changes s f changes := by
  simp only [check] at h
  split at h
  · cases h
  case h_2 f hf =>
    generalize (if "+".toList.isPrefixOf value then value.drop 1 else value) = v at h
    split at h
    · cases h
    · exact ⟨f, hf, changes_of_setConfigField h⟩

end Checks

/-! ## The loop -/

def Apart (e e' : Str × Str) : Prop :=
  ∀ f f', settingOf e.1 = some f → settingOf e'.1 = some f' → f ≠ f' ∧ f' ≠ .containerEngine

theorem apart_of_ne {e e' : Str × Str} (hne : e.1 ≠ e'.1) (hce : e'.1 ≠ "ce".toList) :
    Apart e e' := by
  intro f f' hf hf'
  constructor
  · rintro rfl
    exact hne (settingOf_inj hf hf')
  · rintro rfl
    exact hce (settingOf_inj hf' (by decide))

theorem pairwise_apart (m : ParamMap) : m.inOrder.Pairwise Apart := by
  have hne : m.entries.Pairwise fun e e' => e.1 ≠ e'.1 := List.pairwise_map.mp m.nodup
  have hone (o : Str) : (m.entries.filter fun e => e.1 == o).Pairwise Apart := by
    refine List.Pairwise.imp_of_mem ?_ (hne.filter _)
    intro e e' he he' h
    exact absurd ((beq_iff_eq.mp (List.mem_filter.mp he).2).trans
      (beq_iff_eq.mp (List.mem_filter.mp he').2).symm) h
  simp only [ParamMap.inOrder, setConfigApplyOrder, List.flatMap_cons, List.flatMap_nil,
    List.append_nil]
  refine List.pairwise_append.mpr ⟨List.pairwise_append.mpr ⟨hone _, hone _, ?_⟩, ?_, ?_⟩
  · intro e he e' he'
    have h : e.1 = "ce".toList := beq_iff_eq.mp (List.mem_filter.mp he).2
    have h' : e'.1 = "cu".toList := beq_iff_eq.mp (List.mem_filter.mp he').2
    exact apart_of_ne (by rw [h, h']; decide) (by rw [h']; decide)
  · refine List.Pairwise.imp_of_mem ?_ (hne.filter _)
    intro e e' _ he' h
    have hrest := (List.mem_filter.mp he').2
    exact apart_of_ne h fun hce => by simp [hce] at hrest
  · intro e he e' he'
    have hrest := (List.mem_filter.mp he').2
    have hfirst : e.1 = "ce".toList ∨ e.1 = "cu".toList := by
      rcases List.mem_append.mp he with h | h
      · exact .inl (beq_iff_eq.mp (List.mem_filter.mp h).2)
      · exact .inr (beq_iff_eq.mp (List.mem_filter.mp h).2)
    refine apart_of_ne (fun he => ?_) fun hce => by simp [hce] at hrest
    rcases hfirst with h | h <;> simp [← he, h] at hrest

variable {m : ParamMap}

@[simp] theorem mem_inOrder {e : Str × Str} : e ∈ m.inOrder ↔ e ∈ m.entries := by
  simp only [ParamMap.inOrder, setConfigApplyOrder, List.flatMap_cons, List.flatMap_nil,
    List.append_nil, List.mem_append, List.mem_filter, beq_iff_eq, Bool.not_eq_true',
    List.contains_eq_mem, List.mem_cons, List.not_mem_nil, or_false, decide_eq_false_iff_not]
  tauto

section Loop

variable {lib : Library}

variable {l : Loop} {e : Str × Str}

theorem applyOne_error {message : Str} (h : check lib l.config.settings e.1 e.2 = .error message) :
    (applyOne lib l e).config = l.config := by
  simp only [applyOne, h]

theorem applyOne_ok {changes : List Change}
    (h : check lib l.config.settings e.1 e.2 = .ok changes) :
    (applyOne lib l e).config = changes.foldl put l.config := by
  simp only [applyOne, h]

theorem sameAt_applyOne {e e' : Str × Str} {f : Setting} (hf : settingOf e.1 = some f)
    (ha : Apart e e') : SameAt f l.config (applyOne lib l e').config := by
  cases h : check lib l.config.settings e'.1 e'.2 with
  | error message =>
    rw [applyOne_error h]
    exact ⟨rfl, rfl⟩
  | ok changes =>
    rw [applyOne_ok h]
    apply sameAt_foldl_put
    obtain ⟨f', hf', hc⟩ := changes_of_check h
    obtain ⟨hne, hce⟩ := ha f f' hf hf'
    intro ch hch hkey
    cases hc with
    | none => cases hch
    | one ch' heq =>
      obtain rfl := List.mem_singleton.mp hch
      rw [heq] at hkey
      exact hne (key_inj hf hf' hkey.symm)
    | engine heq => exact hce heq

variable {L : List (Str × Str)}

theorem sameAt_foldl_applyOne {f : Setting}
    (hf : settingOf e.1 = some f) (ha : ∀ e' ∈ L, Apart e e') :
    SameAt f l.config (L.foldl (applyOne lib) l).config := by
  induction L generalizing l with
  | nil => exact ⟨rfl, rfl⟩
  | cons e' L ih =>
    exact (sameAt_applyOne hf (ha e' (by simp))).trans
      (ih fun x hx => ha x (List.mem_cons_of_mem _ hx))

/-- **A loop that ends where it began only gave what was there already.** -/
theorem present_of_unchanged (hL : L.Pairwise Apart)
    (hs : (L.foldl (applyOne lib) l).config.settings = l.config.settings)
    (hp : (L.foldl (applyOne lib) l).config.profile = l.config.profile) :
    ∀ e ∈ L, ∀ changes, check lib l.config.settings e.1 e.2 = .ok changes →
      ∀ ch ∈ changes, l.config.Present ch := by
  induction L generalizing l with
  | nil => exact fun e he => absurd he (by simp)
  | cons e L ih =>
    obtain ⟨hhead, htail⟩ := List.pairwise_cons.mp hL
    rw [List.foldl_cons] at hs hp
    suffices hfirst : (applyOne lib l e).config = l.config ∧
        ∀ changes, check lib l.config.settings e.1 e.2 = .ok changes →
          ∀ ch ∈ changes, l.config.Present ch by
      intro e' he'
      rcases List.mem_cons.mp he' with rfl | he'
      · exact hfirst.2
      · have hrest := ih htail (hs.trans (by rw [hfirst.1])) (hp.trans (by rw [hfirst.1])) e' he'
        rwa [hfirst.1] at hrest
    cases h : check lib l.config.settings e.1 e.2 with
    | error message => exact ⟨applyOne_error h, fun _ hok => by cases hok⟩
    | ok changes =>
      obtain ⟨f, hf, hc⟩ := changes_of_check h
      have hlater : SameAt f (applyOne lib l e).config
          (L.foldl (applyOne lib) (applyOne lib l e)).config :=
        sameAt_foldl_applyOne hf hhead
      have hpresent : ∀ ch ∈ changes, l.config.Present ch := by
        cases hc with
        | none => exact fun ch hch => absurd hch (by simp)
        | one ch heq =>
          intro ch' hch'
          obtain rfl := List.mem_singleton.mp hch'
          apply present_of_sameAt
          rw [applyOne_ok h] at hlater
          subst heq
          exact ⟨(congrFun hs _).symm.trans hlater.1, by rw [← hp]; exact hlater.2⟩
        | engine heq value hne ch hch =>
          subst heq
          have hset := hlater.1
          rw [hs, applyOne_ok h] at hset
          refine absurd (hset.trans ?_) hne
          have hother : Setting.containerEngine ≠ ch.setting := by rw [hch]; decide
          rw [List.foldl_cons, List.foldl_cons, List.foldl_nil, put_settings,
            Function.update_of_ne hother, put_settings]
          exact Function.update_self _ _ _
      refine ⟨?_, fun changes' hok => by cases hok; exact hpresent⟩
      rw [applyOne_ok h, foldl_put_eq_self hpresent]

theorem unchanged_of_present
    (h : ∀ e ∈ L, ∀ changes, check lib l.config.settings e.1 e.2 = .ok changes →
      ∀ ch ∈ changes, l.config.Present ch) : (L.foldl (applyOne lib) l).config = l.config := by
  induction L generalizing l with
  | nil => rfl
  | cons e L ih =>
    have hfirst : (applyOne lib l e).config = l.config := by
      cases hc : check lib l.config.settings e.1 e.2 with
      | error message => exact applyOne_error hc
      | ok changes => rw [applyOne_ok hc, foldl_put_eq_self (h e (by simp) changes hc)]
    refine (ih ?_).trans hfirst
    rw [hfirst]
    exact fun e' he' => h e' (List.mem_cons_of_mem _ he')

theorem config_foldl_applyOne {c : Config} (h : l.config = l.made.foldl put c) :
    (L.foldl (applyOne lib) l).config = (L.foldl (applyOne lib) l).made.foldl put c := by
  induction L generalizing l with
  | nil => exact h
  | cons e L ih =>
    apply ih
    cases hc : check lib l.config.settings e.1 e.2 with
    | error message => simpa only [applyOne, hc] using h
    | ok changes => simp only [applyOne, hc, List.foldl_append, ← h]

theorem config_applyAll (c : Config) (m : ParamMap) :
    (applyAll lib c m).config = (applyAll lib c m).made.foldl put c :=
  config_foldl_applyOne rfl

end Loop

/-! ## The file -/

variable (made : List Change) (key : Str)

def lastText : Option Str :=
  made.foldl (fun t ch => if ch.key = key then some ch.text else t) none

def HasValue (file : File) (name : ConfigSwitcherState) (key text : Str) : Prop :=
  ∃ y p, file = .model y ∧ y.profiles name.fullValue = some p ∧ p key = some text

variable {c : Config}

theorem foldl_put_text {p : ProfileConfig}
    (hp : c.profile = some p) {t : Option Str} (ht : ∀ text ∈ t, p key = some text) :
    ∃ p', (made.foldl put c).profile = some p' ∧
      ∀ text ∈ made.foldl (fun t ch => if ch.key = key then some ch.text else t) t,
        p' key = some text := by
  induction made generalizing c p t with
  | nil => exact ⟨p, hp, ht⟩
  | cons ch made ih =>
    refine ih (p := p.setProperty ch.key ch.text) (by simp [hp]) ?_
    intro text htext
    dsimp only at htext
    by_cases hkey : ch.key = key
    · rw [if_pos hkey] at htext
      rw [ProfileConfig.setProperty, hkey, Function.update_self]
      exact htext
    · rw [if_neg hkey] at htext
      rw [ProfileConfig.setProperty, Function.update_of_ne (Ne.symm hkey)]
      exact ht text htext

@[simp] theorem foldl_put_currentProfile :
    (made.foldl put c).currentProfile = c.currentProfile := by
  induction made generalizing c with
  | nil => rfl
  | cons ch made ih => rw [List.foldl_cons, ih, put_currentProfile]

@[simp] theorem foldl_put_configPath : (made.foldl put c).configPath = c.configPath := by
  induction made generalizing c with
  | nil => rfl
  | cons ch made ih => rw [List.foldl_cons, ih, put_configPath]

theorem savedModel_of_profile {p : ProfileConfig} (h : c.profile = some p) :
    c.yamlConfig = some c.savedModel ∧
      c.savedModel.profiles c.currentProfile.fullValue = some p := by
  obtain ⟨y, hy, hp⟩ := Option.bind_eq_some_iff.mp h
  have hmodel : c.savedModel = y := by simp only [savedModel, hy, hp]
  exact ⟨by rw [hmodel, hy], by rw [hmodel, hp]⟩

variable {plat : Platform} {lib : Library} {files : Files}

theorem hasValue_saved (hprofile : c.profile.isSome) {key text : Str}
    (ht : lastText (applyAll lib c m).made key = some text) :
    HasValue ((saveConfigUpdates plat (applyAll lib c m).config true files).2 (c.savePath plat))
      c.currentProfile key text := by
  obtain ⟨p, hp⟩ := Option.isSome_iff_exists.mp hprofile
  obtain ⟨p', hp', htext⟩ := foldl_put_text (applyAll lib c m).made key hp (t := none) (by simp)
  rw [← config_applyAll] at hp'
  have hname : (applyAll lib c m).config.currentProfile = c.currentProfile := by
    rw [config_applyAll, foldl_put_currentProfile]
  have hpath : (applyAll lib c m).config.savePath plat = c.savePath plat := by
    rw [config_applyAll, savePath, foldl_put_configPath, savePath]
  refine ⟨(applyAll lib c m).config.savedModel, p', ?_, ?_, htext text ht⟩
  · simp only [saveConfigUpdates, hpath, if_true, Function.update_self]
  · rw [← hname]
    exact (savedModel_of_profile hp').2

/-- A call is all or nothing: with errors the settings and the model are those before it, and
without them the file has every value that was set. -/
def AllOrNothing (plat : Platform) (lib : Library) (c : Config) (m : ParamMap) (saved : Bool)
    (files : Files) : Prop :=
  let r := setConfig plat lib c m saved files
  (r.errors ≠ [] → r.config.settings = c.settings ∧ r.config.yamlConfig = c.yamlConfig) ∧
    (r.errors = [] → c.profile.isSome → ∀ key text,
      lastText (applyAll lib c m).made key = some text →
        HasValue (r.files (c.savePath plat)) c.currentProfile key text)

theorem allOrNothing_of_errors {saved : Bool} (h : (applyAll lib c m).errors ≠ []) :
    AllOrNothing plat lib c m saved files ↔
      (applyAll lib c m).config.settings = c.settings ∧
        (applyAll lib c m).config.yamlConfig = c.yamlConfig := by
  simp [AllOrNothing, setConfig, h]

theorem allOrNothing_of_no_errors {saved : Bool} (h : (applyAll lib c m).errors = []) :
    AllOrNothing plat lib c m saved files ↔
      (c.profile.isSome → ∀ key text, lastText (applyAll lib c m).made key = some text →
        HasValue ((saveConfigUpdates plat (applyAll lib c m).config saved files).2
          (c.savePath plat)) c.currentProfile key text) := by
  simp [AllOrNothing, setConfig, h]

/-- **Which calls are all or nothing.** When a parameter is rejected, those where each parameter
that is accepted gives what is there already; when none is, those where the file can be replaced or
has the values already. -/
theorem setConfig_atomic_iff (plat : Platform) (lib : Library) (c : Config) (m : ParamMap)
    (saved : Bool) (files : Files) :
    AllOrNothing plat lib c m saved files ↔
      ((applyAll lib c m).errors ≠ [] → ∀ e ∈ m.entries, ∀ changes,
        check lib c.settings e.1 e.2 = .ok changes → ∀ ch ∈ changes, c.Present ch) ∧
      ((applyAll lib c m).errors = [] → c.profile.isSome → saved = true ∨
        ∀ key text, lastText (applyAll lib c m).made key = some text →
          HasValue (files (c.savePath plat)) c.currentProfile key text) := by
  by_cases herr : (applyAll lib c m).errors = []
  · rw [allOrNothing_of_no_errors herr]
    constructor
    · intro h
      refine ⟨fun hne => absurd herr hne, fun _ hprofile => ?_⟩
      cases saved with
      | true => exact .inl rfl
      | false => exact .inr (h hprofile)
    · rintro ⟨-, h⟩ hprofile key text ht
      cases saved with
      | true => exact hasValue_saved hprofile ht
      | false => exact (h herr hprofile).resolve_left (by simp) key text ht
  · rw [allOrNothing_of_errors herr]
    constructor
    · rintro ⟨hs, hy⟩
      have hprofile : (applyAll lib c m).config.profile = c.profile := by
        rw [Config.profile, hy, config_applyAll, foldl_put_currentProfile, Config.profile]
      refine ⟨fun _ e he => ?_, fun h0 => absurd h0 herr⟩
      exact present_of_unchanged (l := ⟨c, [], []⟩) (pairwise_apart m) hs hprofile e
        (mem_inOrder.mpr he)
    · rintro ⟨h, -⟩
      have hsame : (applyAll lib c m).config = c :=
        unchanged_of_present (l := ⟨c, [], []⟩) fun e he => h herr e (mem_inOrder.mp he)
      exact ⟨by rw [hsame], by rw [hsame]⟩

def readDigits (s : Str) : Option ℕ :=
  if !s.isEmpty && s.all Char.isDigit then
    some (s.foldl (fun n d => 10 * n + (d.toNat - '0'.toNat)) 0)
  else none

def Library.decimal : Library where
  scanFloat s := .finite ((readDigits s).getD 0)
  scanInt s := (readDigits s).getD 0
  parseFloat s := match readDigits s with
    | some n => .ok (.finite n)
    | none => .error "invalid syntax".toList
  atoi s := match readDigits s with
    | some n => .ok n
    | none => .error "invalid syntax".toList
  parseInt s := match readDigits s with
    | some n => .ok n
    | none => .error "invalid syntax".toList
  printFixed _ := []
  printInt n := (toString n).toList
  quote s := "\"".toList ++ s ++ "\"".toList
  lower := toLower
  upper := toUpper

/-- The configuration that a file with an empty profile gives. -/
def Config.fresh : Config where
  yamlConfig := some (.single .standard fun _ => none)
  currentProfile := .standard
  configPath := "/etc/edgelet/config.yaml".toList
  settings := loadConfigValues .decimal (fun _ => none) Settings.zero

def Platform.plain : Platform where
  embedded := false
  configYAMLPath := "/etc/edgelet/config.yaml".toList
  backupConfigYAMLPath := "/etc/edgelet/config-bck.yaml".toList

/-- A time zone and a parameter that does not exist: the call reports the second and has set the
first, and the next call, which sets nothing, writes it. And a call whose save fails reports
nothing. -/
theorem setConfig_applies_despite_errors :
    let files : Files := fun _ => .model (.single .standard fun _ => none)
    let m : ParamMap := ⟨[("tz".toList, "UTC".toList), ("zz".toList, "1".toList)], by decide⟩
    let r := setConfig .plain .decimal .fresh m true files
    let next := setConfig .plain .decimal r.config ⟨[], by decide⟩ true r.files
    let zone : ParamMap := ⟨[("tz".toList, "UTC".toList)], by decide⟩
    r.errors = [("zz".toList, "Invalid parameter".toList)] ∧
      Config.fresh.settings .timeZone = "Europe/Istanbul".toList ∧
      r.config.settings .timeZone = "UTC".toList ∧
      HasValue (next.files "/etc/edgelet/config.yaml".toList) .standard "timeZone".toList
        "UTC".toList ∧
      ¬ AllOrNothing .plain .decimal .fresh m true files ∧
      (setConfig .plain .decimal .fresh zone false files).errors = [] ∧
      ¬ AllOrNothing .plain .decimal .fresh zone false files := by
  refine ⟨rfl, rfl, rfl, ⟨_, _, rfl, rfl, rfl⟩, fun h => ?_, rfl, fun h => ?_⟩
  · have hzone : "UTC".toList = "Europe/Istanbul".toList :=
      congrFun (h.1 (by decide)).1 .timeZone
    exact absurd hzone (by decide)
  · obtain ⟨y, p, hfile, hp, htext⟩ := h.2 rfl rfl "timeZone".toList "UTC".toList rfl
    obtain rfl : _ = y := File.model.inj hfile
    obtain rfl : _ = p := Option.some.inj hp
    cases htext

end Edgelet.Configuration
