import Edgelet.Configuration.Reload
import Edgelet.Machine.Run

/-!
# A reload and the container engine

When a reload brings another address of the same engine, the supervisor connects to it, and if it
cannot, puts the old address back. The old address is what the configuration says when the reload
begins. But the field agent has by then set the new one, which is compared with itself, and the
engine stays where it was. Whether connecting succeeds is left open.
-/

namespace Edgelet.Supervisor.Reload

open Lexical Machine Edgelet.Configuration

/-! ## The engine -/

inductive ExternalEngine
  | docker
  | podman

def ExternalEngine.name : ExternalEngine → Str
  | .docker => "docker".toList
  | .podman => "podman".toList

structure Engine where
  startupEngine : ExternalEngine
  reloadPriorContainerEngineURL : Str
  pendingReloadCtx : Option Str
  connectedTo : Str

def url (c : Config) : Str := c.settings .containerEngineURL

def kind (c : Config) : Str := toLower (trimSpace (c.settings .containerEngine))

inductive ChangeClass
  | hot
  | warm
  | cold

def startupEngineURL (engineName containerEngineURL : Str) : Str :=
  if toLower (trimSpace engineName) = "edgelet".toList then edgeletEngineSocketURL
  else trimSpace containerEngineURL

def classifyEngineConfigChange (startupEngine newEngine startupURL newURL : Str) : ChangeClass :=
  let startupEngine := toLower (trimSpace startupEngine)
  let newEngine := toLower (trimSpace newEngine)
  if startupEngine ≠ newEngine then .cold
  else if trimSpace startupURL ≠ trimSpace newURL ∧
      (newEngine = "docker".toList ∨ newEngine = "podman".toList) then .warm
  else .hot

def priorURL (e : Engine) (c : Config) : Str :=
  if e.reloadPriorContainerEngineURL = [] then url c else e.reloadPriorContainerEngineURL

def captureReloadEngineContext (c : Config) (e : Engine) : Str × Engine :=
  (priorURL e c, { e with reloadPriorContainerEngineURL := [] })

/-! ## A reload -/

structure Answers where
  created : Bool
  connect : Option Str
  reverted : Bool
  cold : Option Str

section Reload

variable (plat : Platform) (lib : Library) (o : Answers)

def revertContainerEngineURL (containerEngineURL : Str) (w : World) : World :=
  let r := saveConfigUpdates plat
    (w.config.put ⟨.containerEngineURL, containerEngineURL, containerEngineURL⟩) o.reverted w.files
  { w with config := r.1, files := r.2 }

variable (prior : Str) (w : World) (c : Config) (e : Engine)

def revertWarmReload : World :=
  if prior = [] then w else revertContainerEngineURL plat o prior w

def namedExternal : Bool :=
  sameText (c.settings .containerEngine) "docker".toList ||
    sameText (c.settings .containerEngine) "podman".toList

def handleWarmContainerEngineURLReload : (World × Engine) × Option Str :=
  if !namedExternal w.config then ((w, e), none)
  else
    match o.connect with
    | some message =>
      ((revertWarmReload plat o prior w, e),
        some ("containerEngineUrl reconnect failed: ".toList ++ message))
    | none => ((w, { e with connectedTo := url w.config }), none)

def reloadKind : ChangeClass :=
  classifyEngineConfigChange e.startupEngine.name (w.config.settings .containerEngine)
    (startupEngineURL e.startupEngine.name prior)
    (startupEngineURL (w.config.settings .containerEngine) (url w.config))

def handleEngineConfigReload : (World × Engine) × Option Str :=
  match reloadKind prior w e with
  | .cold => ((w, e), o.cold)
  | .warm => handleWarmContainerEngineURLReload plat o prior w e
  | .hot => ((w, e), none)

def beginConfigReload : Engine :=
  let (prior, e) := captureReloadEngineContext c e
  { e with pendingReloadCtx := some prior }

def reloadConfig : (World × Engine) × Option Str :=
  match e.pendingReloadCtx with
  | some prior => handleEngineConfigReload plat o prior w { e with pendingReloadCtx := none }
  | none =>
    let (prior, e) := captureReloadEngineContext w.config e
    handleEngineConfigReload plat o prior w e

def hooks : ReloadHooks Engine where
  configPath := plat.configYAMLPath
  beginReload := beginConfigReload
  notifyModules := reloadConfig plat o

def reloadFromDisk : (World × Engine) × Option ReloadError :=
  fullReload plat lib (hooks plat o) o.created w e

end Reload

/-! ## Runs -/

structure State where
  world : World
  engine : Engine

inductive Event
  | edit (files : Files)
  | setConfig (m : ParamMap) (saved : Bool)
  | reload (o : Answers)

section Runs

variable (plat : Platform) (lib : Library)

variable (s : State) (o : Answers)

def State.reload : State :=
  let r := reloadFromDisk plat lib o s.world s.engine
  ⟨r.1.1, r.1.2⟩

def step : Event → Option State
  | .edit files => some { s with world := { s.world with files := files } }
  | .setConfig m saved =>
    let r := setConfig plat lib s.world.config m saved s.world.files
    some { s with world := { s.world with config := r.config, files := r.files } }
  | .reload o => some (s.reload plat lib o)

/-- **The engine follows the configuration**: while its kind is that of the start, it is connected
to the address that the configuration holds. -/
def Follows : Prop :=
  kind s.world.config = s.engine.startupEngine.name → s.engine.connectedTo = url s.world.config

/-- The configuration with which a reload comes to the engine, and whether it does: when the file
cannot be loaded the configuration is the one before, and when it is not valid it is the new one. -/
def State.loaded : Config × Bool :=
  if plat.configYAMLPath = [] then (s.world.config, false)
  else
    match loadConfig plat lib plat.configYAMLPath o.created s.world.config s.world.files with
    | .error _ => (s.world.config, false)
    | .ok (c, _) => (c, (validateConfig lib plat.embedded c.settings).isEmpty)

/-- **A reload sees to the address**: if the address that is loaded differs from the one from which
the reload starts, connecting succeeds or the engine is at the address that is put back. Otherwise
the engine is there already. -/
def Seen : Prop :=
  let (c, valid) := s.loaded plat lib o
  let prior := priorURL s.engine s.world.config
  kind c = s.engine.startupEngine.name →
    if valid ∧ trimSpace prior ≠ trimSpace (url c) ∧ namedExternal c then
      o.connect = none ∨ s.engine.connectedTo = if prior = [] then url c else prior
    else s.engine.connectedTo = url c

end Runs

/-! ## The engine after a reload -/

section Handle

variable {plat : Platform} {o : Answers} {prior : Str} {w : World} {e : Engine}

theorem reloadKind_eq : reloadKind prior w e =
    if kind w.config ≠ e.startupEngine.name then .cold
    else if trimSpace prior ≠ trimSpace (url w.config) then .warm else .hot := by
  have hname : toLower (trimSpace e.startupEngine.name) = e.startupEngine.name := by
    cases e.startupEngine <;> decide
  have hedgelet : e.startupEngine.name ≠ "edgelet".toList := by
    cases e.startupEngine <;> decide
  have hexternal : e.startupEngine.name = "docker".toList ∨
      e.startupEngine.name = "podman".toList := by
    cases e.startupEngine
    · exact .inl rfl
    · exact .inr rfl
  by_cases hkind : kind w.config = e.startupEngine.name
  · rw [if_neg (not_not.mpr hkind)]
    simp only [kind] at hkind
    simp only [reloadKind, classifyEngineConfigChange, startupEngineURL, hkind, hname, hedgelet,
      if_false, trimSpace_trimSpace, hexternal, and_true, ne_eq, not_true_eq_false]
  · simp only [reloadKind, classifyEngineConfigChange, hname]
    rw [if_pos hkind]
    exact if_pos (Ne.symm hkind)

theorem revertWarmReload_config :
    url (revertWarmReload plat o prior w).config = (if prior = [] then url w.config else prior) ∧
      kind (revertWarmReload plat o prior w).config = kind w.config := by
  simp only [revertWarmReload]
  split
  · exact ⟨rfl, rfl⟩
  · simp only [revertContainerEngineURL, saveConfigUpdates, url, kind, Config.put_settings]
    constructor
    · exact Function.update_self _ _ _
    · exact congrArg (fun v : Str => toLower (trimSpace v)) (Function.update_of_ne (by decide) _ _)

/-- **What a valid reload leaves of the engine.** -/
theorem follows_handle_iff :
    Follows ⟨(handleEngineConfigReload plat o prior w e).1.1,
        (handleEngineConfigReload plat o prior w e).1.2⟩ ↔
      (kind w.config = e.startupEngine.name →
        if trimSpace prior ≠ trimSpace (url w.config) ∧ namedExternal w.config then
          o.connect = none ∨ e.connectedTo = if prior = [] then url w.config else prior
        else e.connectedTo = url w.config) := by
  by_cases hkind : kind w.config = e.startupEngine.name
  · simp only [handleEngineConfigReload, reloadKind_eq, if_neg (not_not.mpr hkind)]
    by_cases hurl : trimSpace prior = trimSpace (url w.config)
    · simp only [hurl, ne_eq, not_true_eq_false, if_false, false_and]
      exact Iff.rfl
    · simp only [ne_eq, hurl, not_false_eq_true, if_true, true_and]
      simp only [handleWarmContainerEngineURLReload]
      cases hnamed : namedExternal w.config with
      | false =>
        simp only [Bool.not_false, if_true, Bool.false_eq_true, if_false]
        exact Iff.rfl
      | true =>
        simp only [Bool.not_true, Bool.false_eq_true, if_false, if_true]
        cases hconnect : o.connect with
        | none => exact iff_of_true (fun _ => rfl) fun _ => .inl rfl
        | some message =>
          simp only [Follows, revertWarmReload_config, reduceCtorEq, false_or]
  · simp only [handleEngineConfigReload, reloadKind_eq, if_pos hkind]
    exact iff_of_true (fun h => absurd h hkind) fun h => absurd h hkind

end Handle

section Runs

variable {plat : Platform} {lib : Library} {s : State} {o : Answers}

def Engine.unnoted (e : Engine) : Engine :=
  { e with reloadPriorContainerEngineURL := [], pendingReloadCtx := none }

theorem reload_spec (plat : Platform) (lib : Library) (s : State) (o : Answers) :
    ∃ w : World, w.config = (s.loaded plat lib o).1 ∧
      if (s.loaded plat lib o).2 then
        let r := handleEngineConfigReload plat o (priorURL s.engine s.world.config) w
          s.engine.unnoted
        (s.reload plat lib o).world.config = r.1.1.config ∧ (s.reload plat lib o).engine = r.1.2
      else
        (s.reload plat lib o).world.config = w.config ∧
          (s.reload plat lib o).engine = beginConfigReload s.world.config s.engine := by
  simp only [State.reload, reloadFromDisk]
  by_cases hpath : plat.configYAMLPath = []
  · have hloaded : s.loaded plat lib o = (s.world.config, false) := by
      simp only [State.loaded, hpath, if_true]
    rw [fullReload_of_no_path plat lib (hooks plat o) hpath, hloaded]
    exact ⟨s.world, rfl, rfl, rfl⟩
  cases hload : loadConfig plat lib plat.configYAMLPath o.created s.world.config s.world.files with
  | error message =>
    have hloaded : s.loaded plat lib o = (s.world.config, false) := by
      simp only [State.loaded, hpath, if_false, hload]
    rw [fullReload_of_error plat lib (hooks plat o) hpath hload, hloaded]
    exact ⟨s.world, rfl, rfl, rfl⟩
  | ok r =>
    obtain ⟨c, files⟩ := r
    by_cases hval : validateConfig lib plat.embedded c.settings = []
    · have hloaded : s.loaded plat lib o = (c, true) := by
        simp only [State.loaded, hpath, if_false, hload, hval, List.isEmpty_nil]
      rw [hloaded]
      exact ⟨⟨c, files, true⟩, rfl, fullReload_of_valid plat lib (hooks plat o) hpath hload hval⟩
    · have hloaded : s.loaded plat lib o = (c, false) := by
        simp only [State.loaded, hpath, if_false, hload, Prod.mk.injEq, true_and]
        exact List.isEmpty_eq_false_iff.mpr hval
      rw [fullReload_of_invalid plat lib (hooks plat o) hpath hload hval, hloaded]
      exact ⟨⟨c, files, false⟩, rfl, rfl, rfl⟩

/-- **What a reload leaves of the engine**: it is where the configuration says exactly when the
reload has seen to that. -/
theorem follows_reload_iff : Follows (s.reload plat lib o) ↔ Seen plat lib s o := by
  obtain ⟨w, hw, hspec⟩ := reload_spec plat lib s o
  simp only [Seen, Follows, ← hw]
  cases hvalid : (s.loaded plat lib o).2 with
  | false =>
    simp only [hvalid, Bool.false_eq_true, if_false] at hspec
    simp only [hspec, Bool.false_eq_true, false_and, if_false]
    exact Iff.rfl
  | true =>
    simp only [hvalid, if_true] at hspec
    simp only [hspec, true_and]
    exact follows_handle_iff

/-- **After which reloads the engine follows the configuration.** Along a run of edits, calls of
`SetConfig` and reloads, the engine is at the address of the configuration after every reload
exactly when every reload sees to it. -/
theorem follows_iff (plat : Platform) (lib : Library) (s : State) (evs : List Event) :
    (∀ pre o, pre ++ [.reload o] <+: evs →
      ∀ s', run (step plat lib) s (pre ++ [.reload o]) = some s' → Follows s') ↔
    Along (step plat lib) (fun s a => ∀ o, a = .reload o → Seen plat lib s o) s evs := by
  rw [along_iff_forall_taken]
  constructor
  · rintro h pre a hpre s' hrun o rfl
    refine follows_reload_iff.mp (h pre o hpre _ ?_)
    exact run_append.mpr ⟨s', hrun, rfl⟩
  · intro h pre o hpre s'' hrun
    obtain ⟨s', hbefore, hlast⟩ := run_append.mp hrun
    cases hlast
    exact follows_reload_iff.mpr (h pre _ hpre s' hbefore o rfl)

end Runs

/-! ## Edits of the file -/

def dockerAt (address : String) : ProfileConfig :=
  .ofList [("containerEngine", "docker"), ("containerEngineUrl", address)]

def connectedAt (address : String) : State where
  world :=
    ⟨⟨some (.single .standard (dockerAt address)), .standard, Platform.plain.configYAMLPath,
        loadConfigValues .decimal (dockerAt address) Settings.zero⟩,
      fun _ => .model (.single .standard (dockerAt address)), true⟩
  engine := ⟨.docker, [], none, address.toList⟩

/-- The controller sets another address; the reload finds it in the configuration and in the file,
and the engine stays where it is. And an edit to an address that is not valid gets into the
configuration with a reload that is rejected. -/
theorem controller_url_unseen :
    let s := connectedAt "unix:///a"
    let ok : Answers := ⟨true, none, true, none⟩
    let m : ParamMap := ⟨[("cu".toList, "unix:///b".toList)], by simp⟩
    let bad : Files := fun _ => .model (.single .standard (dockerAt "http://b"))
    Follows s ∧
      (∃ s', run (step .plain .decimal) s [.setConfig m true, .reload ok] = some s' ∧
        kind s'.world.config = "docker".toList ∧ s'.engine.connectedTo = "unix:///a".toList ∧
        url s'.world.config = "unix:///b".toList) ∧
      ∃ s', run (step .plain .decimal) s [.edit bad, .reload ok] = some s' ∧
        kind s'.world.config = "docker".toList ∧ s'.engine.connectedTo = "unix:///a".toList ∧
        url s'.world.config = "http://b".toList := by
  refine ⟨fun _ => rfl, ⟨_, rfl, ?_⟩, ⟨_, rfl, ?_⟩⟩
  · decide +kernel
  · decide +kernel

end Edgelet.Supervisor.Reload
