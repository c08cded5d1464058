import Edgelet.Configuration.SetConfig

/-!
# Reloading

`FullReload` reads the file, validates what it has read and notifies the modules. When one of these
fails it logs that the last good configuration is kept. But loading has by then replaced the model
and every setting.
-/

namespace Edgelet.Configuration

open Lexical

/-! ## Loading a file -/

def loaderProperties : List (String × String) :=
  [("controllerUrl", "http://localhost:54421/api/v3/"), ("controllerCert", "/etc/edgelet/cert.crt"),
    ("networkInterface", "dynamic"), ("containerEngine", "edgelet"),
    ("containerEngineUrl", "unix:///run/edgelet/containerd.sock"),
    ("diskDirectory", "/var/lib/edgelet/"), ("diskLimit", "10"), ("memoryLimit", "4096"),
    ("cpuLimit", "80"), ("logDirectory", "/var/log/edgelet/"), ("logLimit", "10"),
    ("logFileCount", "10"), ("logLevel", "INFO"), ("statusFrequency", "10"),
    ("changeFrequency", "20"), ("watchdogEnabled", "off"), ("edgeGuardFrequency", "0"),
    ("gpsDevice", "/dev/ttyUSB0"), ("gpsScanFrequency", "60"), ("gpsMode", "auto"),
    ("gpsCoordinates", "0,0"), ("arch", "auto"), ("secureMode", "off"), ("pruningFrequency", "0"),
    ("availableDiskThreshold", "20"), ("upgradeScanFrequency", "24"),
    ("logReconcileCycleEveryNTicks", "60"), ("devMode", "off"), ("timeZone", ""),
    ("namespace", "default")]

def createDefaultYamlConfigForLoader : YamlConfig :=
  .single .standard (.ofList loaderProperties)

structure ReadError where
  missing : Bool
  text : Str

def loadYAMLFile (files : Files) (path : Str) : Except ReadError YamlConfig :=
  match files (clean path) with
  | .missing e => .error ⟨true, e⟩
  | .unreadable e => .error ⟨false, e⟩
  | .invalid e => .error ⟨false, "yaml parse error: ".toList ++ e⟩
  | .model y => .ok y

section Load

variable (plat : Platform) (lib : Library)

/-- The model that `LoadConfig` goes on with, and the files. A new file is written only when both
the file and the backup are missing; whether that succeeds has no effect on what is loaded. -/
def readConfig (configPath : Str) (saved : Bool) (files : Files) :
    Except Str (YamlConfig × Files) :=
  match loadYAMLFile files configPath with
  | .ok y => .ok (y, files)
  | .error primary =>
    match loadYAMLFile files plat.backupConfigYAMLPath with
    | .ok y => .ok (y, files)
    | .error backup =>
      if !primary.missing then
        .error ("failed to load primary config ".toList ++ configPath ++ " (".toList ++
          primary.text ++ ") and backup ".toList ++ plat.backupConfigYAMLPath ++ " (".toList ++
          backup.text ++ ")".toList)
      else if !backup.missing then
        .error ("failed to load backup config ".toList ++ plat.backupConfigYAMLPath ++
          " after missing primary ".toList ++ configPath ++ ": ".toList ++ backup.text)
      else
        let y := createDefaultYamlConfigForLoader
        .ok (y, if saved then Function.update files (clean configPath) (.model y) else files)

/-- The profile of a model that becomes current, and the model with its name. The default profile is
taken when the name is unknown or has no profile. -/
def chooseProfile (y : YamlConfig) : ConfigSwitcherState × YamlConfig :=
  let name := if y.currentProfile = [] then ConfigSwitcherState.standard.fullValue
    else y.currentProfile
  let fallback := (ConfigSwitcherState.standard,
    { y with currentProfile := ConfigSwitcherState.standard.fullValue })
  match ConfigSwitcherState.parse name with
  | none => fallback
  | some q =>
    if (y.profiles q.fullValue).isNone then fallback else (q, { y with currentProfile := name })

def loadConfig (configPath : Str) (saved : Bool) (c : Config) (files : Files) :
    Except Str (Config × Files) := do
  let (y, files) ← readConfig plat configPath saved files
  let (profile, y) := chooseProfile y
  let settings := match y.profiles profile.fullValue with
    | none => c.settings
    | some p => loadConfigValues lib p c.settings
  return (⟨some y, profile, configPath, settings⟩, files)

end Load

/-! ## A reload -/

structure World where
  config : Config
  files : Files
  lastReloadSuccessful : Bool

structure ReloadHooks (σ : Type) where
  configPath : Str
  beginReload : Config → σ → σ
  notifyModules : World → σ → (World × σ) × Option Str

inductive ReloadError
  | pathRequired
  | load (text : Str)
  | validation (text : Str)
  | notify (text : Str)

section Reload

variable {σ : Type} (plat : Platform) (lib : Library) (hooks : ReloadHooks σ)

def fullReload (saved : Bool) (w : World) (s : σ) : (World × σ) × Option ReloadError :=
  let w := { w with lastReloadSuccessful := false }
  let s := hooks.beginReload w.config s
  if hooks.configPath = [] then ((w, s), some .pathRequired)
  else
    match loadConfig plat lib hooks.configPath saved w.config w.files with
    | .error e => ((w, s), some (.load ("failed to reload configuration: ".toList ++ e)))
    | .ok (c, files) =>
      match validateConfig lib plat.embedded c.settings with
      | [] =>
        match hooks.notifyModules ⟨c, files, true⟩ s with
        | (r, none) => (r, none)
        | ((w, s), some e) => (({ w with lastReloadSuccessful := false }, s), some (.notify e))
      | messages =>
        ((⟨c, files, false⟩, s), some (.validation
          ("configuration validation failed: validation errors: ".toList ++
            "; ".toList.intercalate messages)))

end Reload

/-! ## What later calls write -/

section Later

variable (plat : Platform) (lib : Library)

def SameSaves (c c' : Config) : Prop :=
  (∀ m saved files,
    (setConfig plat lib c' m saved files).files = (setConfig plat lib c m saved files).files) ∧
  ∀ profile saved files,
    (switchProfile plat c' profile saved files).2 = (switchProfile plat c profile saved files).2

variable {plat lib} {c : Config}

theorem put_withPath (path : Str) (ch : Change) :
    { c with configPath := path }.put ch = { c.put ch with configPath := path } := by
  rcases c with ⟨_ | y, name, path', settings⟩
  · rfl
  · simp only [Config.put, Config.setYamlProperty]
    split <;> rfl

theorem foldl_put_withPath (path : Str) (changes : List Change) :
    changes.foldl Config.put { c with configPath := path } =
      { changes.foldl Config.put c with configPath := path } := by
  induction changes generalizing c with
  | nil => rfl
  | cons ch changes ih => rw [List.foldl_cons, put_withPath, ih, List.foldl_cons]

theorem foldl_applyOne_withPath (path : Str) (L : List (Str × Str)) (l : Loop) :
    L.foldl (applyOne lib) { l with config := { l.config with configPath := path } } =
      { L.foldl (applyOne lib) l with
        config := { (L.foldl (applyOne lib) l).config with configPath := path } } := by
  induction L generalizing l with
  | nil => rfl
  | cons e L ih =>
    rw [List.foldl_cons, List.foldl_cons, ← ih]
    congr 1
    simp only [applyOne]
    cases check lib l.config.settings e.1 e.2 with
    | error message => rfl
    | ok changes => simp only [foldl_put_withPath]

theorem sameSaves_withPath {path : Str}
    (h : { c with configPath := path }.savePath plat = c.savePath plat) :
    SameSaves plat lib c { c with configPath := path } := by
  have hsave (d : Config) (hd : d.configPath = c.configPath) (saved : Bool) (files : Files) :
      (saveConfigUpdates plat { d with configPath := path } saved files).2 =
        (saveConfigUpdates plat d saved files).2 := by
    have hpath : { d with configPath := path }.savePath plat = d.savePath plat := by
      rw [Config.savePath, Config.savePath, hd]
      exact h
    simp only [saveConfigUpdates, hpath]
    rfl
  constructor
  · intro m saved files
    have hloop : applyAll lib { c with configPath := path } m =
        { applyAll lib c m with config := { (applyAll lib c m).config with configPath := path } } :=
      foldl_applyOne_withPath path m.inOrder ⟨c, [], []⟩
    have hd : (applyAll lib c m).config.configPath = c.configPath := by
      rw [config_applyAll, foldl_put_configPath]
    simp only [setConfig, hloop]
    split
    · exact hsave _ hd saved files
    · rfl
  · intro profile saved files
    exact hsave { c with currentProfile := profile } rfl saved files

theorem setConfig_zone {zone : Str} (hzone : zone = "a".toList ∨ zone = "b".toList)
    (files : Files) :
    (setConfig plat lib c ⟨[("tz".toList, zone)], by simp⟩ true files).files =
      Function.update files ((c.put ⟨.timeZone, zone, zone⟩).savePath plat)
        (.model (c.put ⟨.timeZone, zone, zone⟩).savedModel) := by
  rcases hzone with rfl | rfl <;> rfl

theorem setConfig_nothing (files : Files) :
    (setConfig plat lib c ⟨[], by simp⟩ true files).files =
      Function.update files (c.savePath plat) (.model c.savedModel) := rfl

variable {y : YamlConfig}

theorem savedModel_profiles_of_ne (hy : c.yamlConfig = some y) {name : Str}
    (hne : name ≠ c.currentProfile.fullValue) : c.savedModel.profiles name = y.profiles name := by
  simp only [Config.savedModel, hy]
  split
  · rfl
  · exact Function.update_of_ne hne _ _

theorem put_profiles_of_ne (hy : c.yamlConfig = some y) {name : Str}
    (hne : name ≠ c.currentProfile.fullValue) (ch : Change) :
    (c.put ch).savedModel.profiles name = y.profiles name := by
  obtain ⟨y', hy', hsame⟩ : ∃ y', (c.put ch).yamlConfig = some y' ∧
      y'.profiles name = y.profiles name := by
    simp only [Config.put, Config.setYamlProperty, hy]
    split
    · exact ⟨y, rfl, rfl⟩
    · exact ⟨_, rfl, Function.update_of_ne hne _ _⟩
  rw [← hsame]
  exact savedModel_profiles_of_ne hy' (by rw [Config.put_currentProfile]; exact hne)

theorem savedModel_current (hy : c.yamlConfig = some y) :
    (c.savedModel.profiles c.currentProfile.fullValue).isSome := by
  simp only [Config.savedModel, hy]
  split
  case h_1 p hp => rw [hp]; rfl
  case h_2 => simp [YamlConfig.setProfile]

variable {c' : Config}

theorem eq_of_update_eq {path path' : Str} {y y' : YamlConfig}
    (h : Function.update (fun _ => File.missing []) path' (.model y') =
      Function.update (fun _ => File.missing []) path (.model y)) : path' = path ∧ y' = y := by
  have hat := congrFun h path'
  rw [Function.update_self] at hat
  by_cases hpath : path' = path
  · subst hpath
    rw [Function.update_self] at hat
    exact ⟨rfl, File.model.inj hat⟩
  · rw [Function.update_of_ne hpath] at hat
    cases hat

theorem same_of_sameSaves (hy : c.yamlConfig = some y)
    (hy' : c'.yamlConfig = some y) (h : SameSaves plat lib c c') :
    c'.currentProfile = c.currentProfile ∧ c'.savePath plat = c.savePath plat := by
  have hnothing := h.1 ⟨[], by simp⟩ true fun _ => .missing []
  rw [setConfig_nothing, setConfig_nothing] at hnothing
  obtain ⟨hpath, hmodel⟩ := eq_of_update_eq hnothing
  refine ⟨?_, hpath⟩
  by_contra hne
  have hname : c'.currentProfile.fullValue ≠ c.currentProfile.fullValue :=
    fun he => hne (ConfigSwitcherState.fullValue_injective he)
  cases hp : y.profiles c'.currentProfile.fullValue with
  | none =>
    have hsome := savedModel_current hy'
    rw [hmodel, savedModel_profiles_of_ne hy hname, hp] at hsome
    cases hsome
  | some p =>
    obtain ⟨zone, hzone, hnew⟩ : ∃ zone : Str, (zone = "a".toList ∨ zone = "b".toList) ∧
        p "timeZone".toList ≠ some zone := by
      by_cases ha : p "timeZone".toList = some "a".toList
      · exact ⟨"b".toList, .inr rfl, by rw [ha]; decide⟩
      · exact ⟨"a".toList, .inl rfl, ha⟩
    have hsaves := h.1 ⟨[("tz".toList, zone)], by simp⟩ true fun _ => .missing []
    rw [setConfig_zone hzone, setConfig_zone hzone] at hsaves
    have hput := (eq_of_update_eq hsaves).2
    have hprofile : c'.profile = some p := by
      rw [Config.profile, hy']
      exact hp
    have hcurrent := (savedModel_of_profile (c := c'.put ⟨.timeZone, zone, zone⟩)
      (p := p.setProperty "timeZone".toList zone) (by rw [Config.put_profile, hprofile]; rfl)).2
    rw [hput, Config.put_currentProfile, put_profiles_of_ne hy hname, hp] at hcurrent
    apply hnew
    rw [Option.some.inj hcurrent]
    exact Function.update_self _ _ _

end Later

/-! ## Rejected reloads -/

def Rejected : Option ReloadError → Prop
  | some (.load _) | some (.validation _) => True
  | _ => False

def Keeps (plat : Platform) (lib : Library) (c c' : Config) : Prop :=
  c'.settings = c.settings ∧ c'.yamlConfig = c.yamlConfig ∧ SameSaves plat lib c c'

theorem Keeps.refl (plat : Platform) (lib : Library) (c : Config) : Keeps plat lib c c :=
  ⟨rfl, rfl, fun _ _ _ => rfl, fun _ _ _ => rfl⟩

theorem keeps_iff {plat : Platform} {lib : Library} {c c' : Config} (h : c'.yamlConfig.isSome) :
    Keeps plat lib c c' ↔ c'.settings = c.settings ∧ c'.yamlConfig = c.yamlConfig ∧
      c'.currentProfile = c.currentProfile ∧ c'.savePath plat = c.savePath plat := by
  constructor
  · rintro ⟨hs, hy, hsaves⟩
    obtain ⟨y, hy'⟩ := Option.isSome_iff_exists.mp h
    exact ⟨hs, hy, same_of_sameSaves (hy ▸ hy') hy' hsaves⟩
  · rintro ⟨hs, hy, hprofile, hpath⟩
    refine ⟨hs, hy, ?_⟩
    have hc : c' = { c with configPath := c'.configPath } := by
      rw [← hs, ← hy, ← hprofile]
    rw [hc] at hpath ⊢
    exact sameSaves_withPath hpath

section Reload

variable {σ : Type} (plat : Platform) (lib : Library) (hooks : ReloadHooks σ)

variable {saved : Bool}

theorem isSome_of_loadConfig {configPath : Str} {c c' : Config} {files files' : Files}
    (h : loadConfig plat lib configPath saved c files = .ok (c', files')) :
    c'.yamlConfig.isSome := by
  simp only [loadConfig] at h
  cases hread : readConfig plat configPath saved files with
  | error e => rw [hread] at h; cases h
  | ok r =>
    rw [hread] at h
    cases h
    rfl

variable {w : World} {s : σ}

theorem fullReload_of_no_path (hpath : hooks.configPath = []) :
    fullReload plat lib hooks saved w s =
      (({ w with lastReloadSuccessful := false }, hooks.beginReload w.config s),
        some .pathRequired) := by
  simp only [fullReload, hpath, if_true]

section

variable (hpath : hooks.configPath ≠ [])

include hpath

theorem fullReload_of_error {e : Str}
    (hload : loadConfig plat lib hooks.configPath saved w.config w.files = .error e) :
    fullReload plat lib hooks saved w s =
      (({ w with lastReloadSuccessful := false }, hooks.beginReload w.config s),
        some (.load ("failed to reload configuration: ".toList ++ e))) := by
  simp only [fullReload, hpath, hload, if_false]

variable {c : Config} {files : Files}
  (hload : loadConfig plat lib hooks.configPath saved w.config w.files = .ok (c, files))

include hload

theorem fullReload_of_valid (hval : validateConfig lib plat.embedded c.settings = []) :
    let r := (hooks.notifyModules ⟨c, files, true⟩ (hooks.beginReload w.config s)).1
    (fullReload plat lib hooks saved w s).1.1.config = r.1.config ∧
      (fullReload plat lib hooks saved w s).1.2 = r.2 := by
  simp only [fullReload, hpath, hload, hval, if_false]
  split
  case h_1 r h => rw [h]; exact ⟨rfl, rfl⟩
  case h_2 w' s' e h => rw [h]; exact ⟨rfl, rfl⟩

theorem fullReload_of_invalid (hval : validateConfig lib plat.embedded c.settings ≠ []) :
    fullReload plat lib hooks saved w s =
      ((⟨c, files, false⟩, hooks.beginReload w.config s), some (.validation
        ("configuration validation failed: validation errors: ".toList ++
          "; ".toList.intercalate (validateConfig lib plat.embedded c.settings)))) := by
  simp only [fullReload, hpath, hload, if_false]

end

/-- **Which rejected reloads keep the last good configuration.** Those that could not load the file,
and those where what has been loaded is what was there: the settings, the model, the profile and the
path. -/
theorem fullReload_keeps_iff (saved : Bool) (w : World) (s : σ) :
    (Rejected (fullReload plat lib hooks saved w s).2 →
      Keeps plat lib w.config (fullReload plat lib hooks saved w s).1.1.config) ↔
    ∀ c files, hooks.configPath ≠ [] →
      loadConfig plat lib hooks.configPath saved w.config w.files = .ok (c, files) →
      validateConfig lib plat.embedded c.settings ≠ [] →
        c.settings = w.config.settings ∧ c.yamlConfig = w.config.yamlConfig ∧
          c.currentProfile = w.config.currentProfile ∧
          c.savePath plat = w.config.savePath plat := by
  by_cases hpath : hooks.configPath = []
  · simp [fullReload, hpath, Rejected]
  cases hload : loadConfig plat lib hooks.configPath saved w.config w.files with
  | error e => simp [fullReload, hpath, hload, Keeps.refl]
  | ok r =>
    obtain ⟨c, files⟩ := r
    have hmodel := isSome_of_loadConfig plat lib hload
    by_cases hval : validateConfig lib plat.embedded c.settings = []
    · have hnot : ¬ Rejected (fullReload plat lib hooks saved w s).2 := by
        simp only [fullReload, hpath, hload, hval, if_false]
        split <;> exact id
      refine ⟨fun _ c' files' _ heq hne => ?_, fun _ h => absurd h hnot⟩
      cases heq
      exact absurd hval hne
    · rw [fullReload_of_invalid plat lib hooks hpath hload hval]
      rw [keeps_iff hmodel]
      constructor
      · rintro h c' files' - heq -
        cases heq
        exact h trivial
      · intro h _
        exact h c files hpath rfl hval

end Reload

def loudProfile : ProfileConfig :=
  .ofList [("logLevel", "LOUD"), ("containerEngine", "docker"),
    ("containerEngineUrl", "unix:///var/run/docker.sock"), ("timeZone", "UTC")]

/-- A file with that profile is rejected, its log level and its time zone are the configuration's,
and a later call that sets nothing writes them. -/
theorem fullReload_keeps_rejected :
    let hooks : ReloadHooks Unit :=
      ⟨Platform.plain.configYAMLPath, fun _ s => s, fun w s => ((w, s), none)⟩
    let w : World := ⟨.fresh, fun _ => .model (.single .standard loudProfile), true⟩
    let r := fullReload .plain .decimal hooks true w ()
    r.2 = some (.validation ("configuration validation failed: validation errors: ".toList ++
        "log level must be one of: DEBUG, INFO, WARN, ERROR, FATAL, OFF".toList)) ∧
      w.config.settings .logLevel = "INFO".toList ∧
      r.1.1.config.settings .logLevel = "LOUD".toList ∧
      r.1.1.config.settings .timeZone = "UTC".toList ∧
      HasValue ((setConfig .plain .decimal r.1.1.config ⟨[], by simp⟩ true
          fun _ => .missing []).files Platform.plain.configYAMLPath) .standard
        "logLevel".toList "LOUD".toList ∧
      ¬ Keeps .plain .decimal w.config r.1.1.config := by
  intro hooks w r
  have hload : loadConfig .plain .decimal hooks.configPath true w.config w.files =
      .ok (⟨some (.single .standard loudProfile), .standard, hooks.configPath,
        loadConfigValues .decimal loudProfile w.config.settings⟩, w.files) := rfl
  have hval : validateConfig .decimal Platform.plain.embedded
      (loadConfigValues .decimal loudProfile w.config.settings) =
        ["log level must be one of: DEBUG, INFO, WARN, ERROR, FATAL, OFF".toList] := by
    decide +kernel
  have hr : r = _ := fullReload_of_invalid .plain .decimal hooks (by decide) hload
    (by rw [hval]; simp)
  rw [hval] at hr
  rw [hr]
  refine ⟨rfl, rfl, rfl, rfl, ⟨_, loudProfile, rfl, rfl, rfl⟩, fun h => ?_⟩
  have hlevel : "LOUD".toList = "INFO".toList := congrFun h.1 .logLevel
  exact absurd hlevel (by decide)

end Edgelet.Configuration
