import Mathlib.Data.List.Basic

/-!
# Processing the changes of the controller

`processChanges` runs the handler of each flag that the controller has set; when none returns an
error the worker acknowledges the flags. A handler is modelled by its run: the calls it issues, with
their answers, and whether it returns an error.
-/

namespace Edgelet.FieldAgent

/-! ## Calls and their answers -/

inductive Flag
  | deleteNode | reboot | config | version | registries | prune | volumeMounts | models
  | knowledge | runtimeClasses | microserviceConfig | microserviceList | microserviceModels
  | microserviceKnowledge | execSessions | tunnel | microserviceLogs | fogLogs
  deriving DecidableEq

inductive Endpoint
  | deleteNode | config | postConfig | version | registries | volumeMounts | models | knowledge
  | runtimeClasses | microservices | execSessions | tunnel | logSessions
  deriving DecidableEq

inductive Update
  | deprovision | reboot | setConfig | changeVersion | saveRegistries | updateRegistries
  | pruneDanglingImages | pruneUnusedLocalModels | pruneUnusedLocalKnowledge
  | processVolumeMounts | applyControllerModels | applyControllerKnowledge | saveRuntimeClasses
  | applyDesiredRuntimeClasses | saveMicroservices | reconcileManagedMicroservices
  | updateMicroservices | updateConfigs | handleExecSessions | updateProxy | handleLogSessions
  deriving DecidableEq

inductive Call
  | request (e : Endpoint)
  | update (u : Update)
  deriving DecidableEq

inductive Content
  | invalid
  | nothing
  | items
  deriving DecidableEq

inductive Answer
  | noClient
  | failed
  | missing
  | ok (content : Content)
  deriving DecidableEq

/-- What the handlers meet. Each handler looks at the connection for itself, since a
certificate error in one handler disconnects those after it. -/
structure World where
  connected : Endpoint → Bool
  answer : Endpoint → Answer
  update : Update → Bool
  configsChanged : Bool
  shouldSkipInitReload : Endpoint → Bool

structure Run where
  calls : List Call
  error : Bool

namespace Run

def done : Run := ⟨[], false⟩

def fail : Run := ⟨[], true⟩

def andThen (r r' : Run) : Run := ⟨r.calls ++ r'.calls, r.error || r'.error⟩

def andIfOk (r r' : Run) : Run := if r.error then r else r.andThen r'

def all (rs : List Run) : Run := rs.foldr andThen done

end Run

namespace World

variable (w : World)

variable (e : Endpoint) (u : Update)

def attempt : Run := ⟨[.update u], !w.update u⟩

def attemptLogged : Run := ⟨[.update u], false⟩

def gated (r : Run) : Run := if w.connected e then r else .done

def requestThen (next : Content → Run) : Run :=
  match w.answer e with
  | .noClient => .fail
  | .failed | .missing => ⟨[.request e], true⟩
  | .ok content => Run.andThen ⟨[.request e], false⟩ (next content)

def requestOrEmpty (apply : Run) : Run :=
  match w.answer e with
  | .noClient => .fail
  | .failed => ⟨[.request e], true⟩
  | .missing | .ok _ => Run.andThen ⟨[.request e], false⟩ apply

/-! ## The handlers -/

def deleteNode : Run :=
  (w.requestThen .deleteNode fun _ => .done).andThen (attemptLogged .deprovision)

def reboot : Run := w.attempt .reboot

def postFogConfig : Run := w.gated .config (w.requestThen .postConfig fun _ => .done)

def getFogConfig (initialization : Bool) : Run :=
  w.gated .config <|
    if initialization then w.postFogConfig
    else w.requestThen .config fun
      | .items => attemptLogged .setConfig
      | _ => .done

def changeVersion : Run :=
  w.gated .version <| w.requestThen .version fun
    | .invalid => .fail
    | .nothing => .done
    | .items => w.attempt .changeVersion

def loadRegistries : Run :=
  w.gated .registries <| w.requestThen .registries fun
    | .invalid => .fail
    | _ => (attemptLogged .saveRegistries).andThen (attemptLogged .updateRegistries)

def prune : Run :=
  (w.attempt .pruneDanglingImages).andThen <|
    (w.attempt .pruneUnusedLocalModels).andThen (w.attempt .pruneUnusedLocalKnowledge)

def loadVolumeMounts : Run :=
  match w.answer .volumeMounts with
  | .noClient => .fail
  | .failed | .missing => ⟨[.request .volumeMounts], false⟩
  | .ok .items => Run.andThen ⟨[.request .volumeMounts], false⟩ (attemptLogged .processVolumeMounts)
  | .ok _ => ⟨[.request .volumeMounts], false⟩

def loadModels : Run :=
  w.gated .models <| w.requestOrEmpty .models <| w.attempt .applyControllerModels

def loadKnowledge : Run :=
  w.gated .knowledge <| w.requestOrEmpty .knowledge <| w.attempt .applyControllerKnowledge

def loadRuntimeClasses : Run :=
  w.gated .runtimeClasses <| w.requestOrEmpty .runtimeClasses <|
    (w.attempt .saveRuntimeClasses).andIfOk (w.attempt .applyDesiredRuntimeClasses)

def loadMicroservices : Run :=
  w.gated .microservices <| w.requestThen .microservices fun
    | .invalid => .fail
    | _ => (attemptLogged .saveMicroservices).andThen <|
        (attemptLogged .reconcileManagedMicroservices).andThen (attemptLogged .updateMicroservices)

/-- While the controller is not connected the loaded list is empty, and no configuration in it
has changed. -/
def processMicroserviceConfig : Run :=
  if w.connected .microservices && w.configsChanged then w.attempt .updateConfigs else .done

def execSessions : Run :=
  (w.gated .execSessions (w.requestThen .execSessions fun _ => .done)).andIfOk
    (attemptLogged .handleExecSessions)

def updateTunnel : Run :=
  w.gated .tunnel <| w.requestThen .tunnel fun
    | .items => w.attempt .updateProxy
    | _ => .done

def logSessions : Run :=
  (w.gated .logSessions (w.requestThen .logSessions fun _ => .done)).andIfOk
    (attemptLogged .handleLogSessions)

end World

/-! ## The pass -/

abbrev Changes := Flag → Option Bool

def Changes.on (changes : Changes) (f : Flag) : Bool := changes f == some true

inductive Branch
  | deleteNode | reboot | config | version | registries | prune | volumeMounts | models
  | knowledge | runtimeClasses | microservices | execSessions | tunnel | logSessions
  deriving DecidableEq

/-- The branch that handles a flag. One load of the microservices serves four flags, and one
fetch of the log sessions two. -/
def Flag.branch : Flag → Branch
  | .deleteNode => .deleteNode
  | .reboot => .reboot
  | .config => .config
  | .version => .version
  | .registries => .registries
  | .prune => .prune
  | .volumeMounts => .volumeMounts
  | .models => .models
  | .knowledge => .knowledge
  | .runtimeClasses => .runtimeClasses
  | .microserviceConfig | .microserviceList | .microserviceModels | .microserviceKnowledge =>
    .microservices
  | .execSessions => .execSessions
  | .tunnel => .tunnel
  | .microserviceLogs | .fogLogs => .logSessions

namespace Branch

def others : List Branch :=
  [.reboot, .config, .version, .registries, .prune, .volumeMounts, .models, .knowledge,
    .runtimeClasses, .microservices, .execSessions, .tunnel, .logSessions]

variable (initialization : Bool) (changes : Changes) (w : World)

def taken : Branch → Bool
  | .deleteNode => changes.on .deleteNode && !initialization
  | .reboot => changes.on .reboot && !initialization
  | .config => changes.on .config && !initialization
  | .version => changes.on .version && !initialization
  | .registries => changes.on .registries || initialization && (changes .registries).isSome
  | .prune => changes.on .prune && !initialization
  | .volumeMounts => changes.on .volumeMounts || initialization && (changes .volumeMounts).isSome
  | .models => changes.on .models || initialization && (changes .models).isSome
  | .knowledge => changes.on .knowledge || initialization && (changes .knowledge).isSome
  | .runtimeClasses =>
    changes.on .runtimeClasses || initialization && (changes .runtimeClasses).isSome
  | .microservices =>
    changes.on .microserviceConfig || changes.on .microserviceList ||
      changes.on .microserviceModels || changes.on .microserviceKnowledge || initialization
  | .execSessions => changes.on .execSessions
  | .tunnel => changes.on .tunnel && !initialization
  | .logSessions => changes.on .microserviceLogs || changes.on .fogLogs

def reload (e : Endpoint) (r : Run) : Run :=
  if initialization && w.shouldSkipInitReload e then .done else r

def body : Branch → Run
  | .deleteNode => w.deleteNode
  | .reboot => w.reboot
  | .config => w.getFogConfig initialization
  | .version => w.changeVersion
  | .registries => reload initialization w .registries w.loadRegistries
  | .prune => w.prune
  | .volumeMounts => reload initialization w .volumeMounts w.loadVolumeMounts
  | .models => reload initialization w .models w.loadModels
  | .knowledge => reload initialization w .knowledge w.loadKnowledge
  | .runtimeClasses => reload initialization w .runtimeClasses w.loadRuntimeClasses
  | .microservices =>
    reload initialization w .microservices <| w.loadMicroservices.andIfOk <|
      if changes.on .microserviceConfig then w.processMicroserviceConfig else .done
  | .execSessions => w.execSessions
  | .tunnel => w.updateTunnel
  | .logSessions => w.logSessions

end Branch

/-- It returns true when the run has no error. The deletion of the node leaves no room for another
branch. -/
def processChanges (initialization : Bool) (changes : Changes) (w : World) : Run :=
  if Branch.deleteNode.taken initialization changes then
    Branch.deleteNode.body initialization changes w
  else
    .all <| (Branch.others.filter (·.taken initialization changes)).map
      (·.body initialization changes w)

/-! ## What an acknowledgement says -/

variable (w : World) (e : Endpoint) (r : Run)

def World.succeeded : Call → Bool
  | .request e =>
    match w.answer e with
    | .ok _ => true
    | _ => false
  | .update u => w.update u

def Call.onlyLogged : Call → Bool
  | .request e => e == .volumeMounts
  | .update u =>
    u ∈ [.deprovision, .setConfig, .saveRegistries, .updateRegistries, .processVolumeMounts,
      .saveMicroservices, .reconcileManagedMicroservices, .updateMicroservices,
      .handleExecSessions, .handleLogSessions]

def Endpoint.emptyWhenMissing : Bool :=
  e ∈ [.models, .knowledge, .runtimeClasses]

def World.Accepted (c : Call) : Prop :=
  w.succeeded c = true ∨ ∃ e, c = .request e ∧ e.emptyWhenMissing = true ∧ w.answer e = .missing

def World.onItems (u : Update) : List Call :=
  if w.answer e = .ok .items then [.update u] else []

def microservicesLoad : List Call :=
  [.request .microservices, .update .saveMicroservices, .update .reconcileManagedMicroservices,
    .update .updateMicroservices]

/-- **The load or the apply of a flag**: the calls that make it up. -/
def required : Flag → List Call
  | .deleteNode => [.request .deleteNode, .update .deprovision]
  | .reboot => [.update .reboot]
  | .config => .request .config :: w.onItems .config .setConfig
  | .version => .request .version :: w.onItems .version .changeVersion
  | .registries => [.request .registries, .update .saveRegistries, .update .updateRegistries]
  | .prune =>
    [.update .pruneDanglingImages, .update .pruneUnusedLocalModels,
      .update .pruneUnusedLocalKnowledge]
  | .volumeMounts => .request .volumeMounts :: w.onItems .volumeMounts .processVolumeMounts
  | .models => [.request .models, .update .applyControllerModels]
  | .knowledge => [.request .knowledge, .update .applyControllerKnowledge]
  | .runtimeClasses =>
    [.request .runtimeClasses, .update .saveRuntimeClasses, .update .applyDesiredRuntimeClasses]
  | .microserviceConfig =>
    microservicesLoad ++ if w.configsChanged then [.update .updateConfigs] else []
  | .microserviceList | .microserviceModels | .microserviceKnowledge => microservicesLoad
  | .execSessions => [.request .execSessions, .update .handleExecSessions]
  | .tunnel => .request .tunnel :: w.onItems .tunnel .updateProxy
  | .microserviceLogs | .fogLogs => [.request .logSessions, .update .handleLogSessions]

def Branch.gate : Branch → Option Endpoint
  | .deleteNode | .reboot | .prune | .volumeMounts => none
  | .config => some .config
  | .version => some .version
  | .registries => some .registries
  | .models => some .models
  | .knowledge => some .knowledge
  | .runtimeClasses => some .runtimeClasses
  | .microservices => some .microservices
  | .execSessions => some .execSessions
  | .tunnel => some .tunnel
  | .logSessions => some .logSessions

def World.Open (b : Branch) : Prop := ∀ e ∈ b.gate, w.connected e = true

/-- **The flag has been applied**: the calls of its load or apply were all issued, and they all
succeeded. -/
def Applied (f : Flag) : Prop :=
  ∀ c ∈ required w f, c ∈ r.calls ∧ w.succeeded c = true

instance (w : World) (r : Run) (f : Flag) : Decidable (Applied w r f) :=
  inferInstanceAs (Decidable (∀ c ∈ required w f, _))

/-! ### Failed calls are reported -/

def Run.Sound : Prop :=
  r.error = false → ∀ c ∈ r.calls, c.onlyLogged = false → w.Accepted c

section Sound

variable {w : World} {r r' : Run} {e : Endpoint} {u : Update}

namespace Run

@[simp] theorem calls_done : done.calls = [] := rfl

@[simp] theorem error_done : done.error = false := rfl

@[simp] theorem error_fail : fail.error = true := rfl

@[simp] theorem calls_andThen : (r.andThen r').calls = r.calls ++ r'.calls := rfl

@[simp] theorem error_andThen : (r.andThen r').error = (r.error || r'.error) := rfl

theorem error_andIfOk : (r.andIfOk r').error = false ↔ r.error = false ∧ r'.error = false := by
  cases h : r.error <;> simp [andIfOk, h]

theorem andIfOk_eq (h : r.error = false) : r.andIfOk r' = r.andThen r' := by
  simp [andIfOk, h]

variable {rs : List Run}

theorem error_all : (all rs).error = false ↔ ∀ r ∈ rs, r.error = false := by
  induction rs with
  | nil => simp [all]
  | cons r rs ih => simpa [all] using fun _ => ih

theorem mem_calls_all {c : Call} : c ∈ (all rs).calls ↔ ∃ r ∈ rs, c ∈ r.calls := by
  induction rs with
  | nil => simp [all]
  | cons r rs ih => simpa [all] using or_congr_right ih

theorem sound_done : Sound w done := fun _ _ hc => absurd hc List.not_mem_nil

theorem sound_fail : Sound w fail := fun h => absurd h Bool.noConfusion

theorem Sound.andThen (h : Sound w r) (h' : Sound w r') : Sound w (r.andThen r') := by
  intro hok c hc
  obtain ⟨hr, hr'⟩ := Bool.or_eq_false_iff.mp hok
  obtain hc | hc := List.mem_append.mp hc
  · exact h hr c hc
  · exact h' hr' c hc

theorem Sound.andIfOk (h : Sound w r) (h' : Sound w r') : Sound w (r.andIfOk r') := by
  unfold Run.andIfOk
  split
  · exact h
  · exact h.andThen h'

theorem Sound.all (h : ∀ r ∈ rs, Sound w r) : Sound w (all rs) := by
  intro hok c hc
  obtain ⟨r, hr, hc⟩ := mem_calls_all.mp hc
  exact h r hr (error_all.mp hok r hr) c hc

end Run

open Run

theorem World.sound_attempt : Sound w (w.attempt u) := by
  intro hok c hc _
  obtain rfl := List.mem_singleton.mp hc
  left
  simpa [World.attempt, World.succeeded] using hok

theorem World.sound_attemptLogged (hu : (Call.update u).onlyLogged = true) :
    Sound w (World.attemptLogged u) := by
  intro _ c hc hl
  obtain rfl := List.mem_singleton.mp hc
  exact absurd hu (by simp [hl])

theorem Run.Sound.gated (h : Sound w r) : Sound w (w.gated e r) := by
  unfold World.gated
  split
  · exact h
  · exact sound_done

variable {next : Content → Run}

theorem World.requestThen_ok (h : (w.requestThen e next).error = false) :
    ∃ content, w.answer e = .ok content ∧ (next content).error = false ∧
      (w.requestThen e next).calls = .request e :: (next content).calls := by
  unfold World.requestThen at h ⊢
  split at h
  · cases h
  · cases h
  · cases h
  · next content heq => exact ⟨content, heq, by simpa using h, by simp⟩

theorem World.requestOrEmpty_ok (h : (w.requestOrEmpty e r).error = false) :
    (w.succeeded (.request e) = true ∨ w.answer e = .missing) ∧ r.error = false ∧
      (w.requestOrEmpty e r).calls = .request e :: r.calls := by
  unfold World.requestOrEmpty at h ⊢
  split at h
  · cases h
  · cases h
  · next heq => exact ⟨.inr heq, by simpa using h, by simp⟩
  · next heq => exact ⟨.inl (by simp [World.succeeded, heq]), by simpa using h, by simp⟩

theorem World.sound_requestThen (h : ∀ content, Sound w (next content)) :
    Sound w (w.requestThen e next) := by
  intro hok c hc
  obtain ⟨content, hans, hnext, hcalls⟩ := World.requestThen_ok hok
  obtain rfl | hc := List.mem_cons.mp (hcalls ▸ hc)
  · exact fun _ => .inl (by simp [World.succeeded, hans])
  · exact h content hnext c hc

theorem World.sound_requestOrEmpty (he : e.emptyWhenMissing = true) (h : Sound w r) :
    Sound w (w.requestOrEmpty e r) := by
  intro hok c hc
  obtain ⟨hans, hr, hcalls⟩ := World.requestOrEmpty_ok hok
  obtain rfl | hc := List.mem_cons.mp (hcalls ▸ hc)
  · exact fun _ => hans.imp id fun hm => ⟨e, rfl, he, hm⟩
  · exact h hr c hc

theorem World.sound_loadVolumeMounts : Sound w w.loadVolumeMounts := by
  intro _ c hc hl
  have hmem : c = .request .volumeMounts ∨ c = .update .processVolumeMounts := by
    unfold World.loadVolumeMounts at hc
    split at hc <;> simp_all [Run.fail, World.attemptLogged]
  obtain rfl | rfl := hmem <;> cases hl

theorem World.sound_loadList (hinvalid : next .invalid = .fail)
    (hnext : ∀ content, content ≠ .invalid → next content = next .items)
    (hsave : Sound w (next .items)) : Sound w (w.gated e (w.requestThen e next)) := by
  refine Sound.gated (World.sound_requestThen fun content => ?_)
  by_cases hc : content = .invalid
  · rw [hc, hinvalid]
    exact sound_fail
  · rw [hnext content hc]
    exact hsave

theorem World.sound_loadMicroservices : Sound w w.loadMicroservices := by
  refine World.sound_loadList rfl (fun content hc => ?_) (.andThen (World.sound_attemptLogged rfl)
    (.andThen (World.sound_attemptLogged rfl) (World.sound_attemptLogged rfl)))
  cases content with
  | invalid => exact absurd rfl hc
  | _ => rfl

theorem World.sound_loadRegistries : Sound w w.loadRegistries := by
  refine World.sound_loadList rfl (fun content hc => ?_)
    (.andThen (World.sound_attemptLogged rfl) (World.sound_attemptLogged rfl))
  cases content with
  | invalid => exact absurd rfl hc
  | _ => rfl

theorem World.sound_getFogConfig (initialization : Bool) :
    Sound w (w.getFogConfig initialization) := by
  refine Sound.gated ?_
  cases initialization with
  | true => exact Sound.gated (World.sound_requestThen fun _ => sound_done)
  | false =>
    refine World.sound_requestThen fun content => ?_
    cases content with
    | items => exact World.sound_attemptLogged rfl
    | invalid | nothing => exact sound_done

theorem World.sound_changeVersion : Sound w w.changeVersion := by
  refine Sound.gated (World.sound_requestThen fun content => ?_)
  cases content with
  | invalid => exact sound_fail
  | nothing => exact sound_done
  | items => exact World.sound_attempt

theorem World.sound_updateTunnel : Sound w w.updateTunnel := by
  refine Sound.gated (World.sound_requestThen fun content => ?_)
  cases content with
  | items => exact World.sound_attempt
  | invalid | nothing => exact sound_done

theorem World.sound_processMicroserviceConfig : Sound w w.processMicroserviceConfig := by
  unfold World.processMicroserviceConfig
  split
  · exact World.sound_attempt
  · exact sound_done

variable {initialization : Bool} {changes : Changes}

theorem Run.Sound.reload (h : Sound w r) : Sound w (Branch.reload initialization w e r) := by
  unfold Branch.reload
  split
  · exact sound_done
  · exact h

theorem Branch.sound_body (b : Branch) : Sound w (b.body initialization changes w) := by
  cases b with
  | deleteNode =>
    exact .andThen (World.sound_requestThen fun _ => sound_done) (World.sound_attemptLogged rfl)
  | reboot => exact World.sound_attempt
  | config => exact World.sound_getFogConfig initialization
  | version => exact World.sound_changeVersion
  | registries => exact .reload World.sound_loadRegistries
  | prune =>
    exact .andThen World.sound_attempt (.andThen World.sound_attempt World.sound_attempt)
  | volumeMounts => exact .reload World.sound_loadVolumeMounts
  | models | knowledge =>
    exact .reload (.gated (World.sound_requestOrEmpty rfl World.sound_attempt))
  | runtimeClasses =>
    exact .reload (.gated (World.sound_requestOrEmpty rfl
      (.andIfOk World.sound_attempt World.sound_attempt)))
  | microservices =>
    refine .reload (.andIfOk World.sound_loadMicroservices ?_)
    split
    · exact World.sound_processMicroserviceConfig
    · exact sound_done
  | execSessions | logSessions =>
    exact .andIfOk (.gated (World.sound_requestThen fun _ => sound_done))
      (World.sound_attemptLogged rfl)
  | tunnel => exact World.sound_updateTunnel

theorem Run.Sound.processChanges : Sound w (processChanges initialization changes w) := by
  unfold FieldAgent.processChanges
  split
  · exact Branch.sound_body .deleteNode
  · refine Sound.all fun r hr => ?_
    obtain ⟨b, _, rfl⟩ := List.mem_map.mp hr
    exact Branch.sound_body b

end Sound

/-! ### Set flags are handled -/

section Handled

variable {w : World} {changes : Changes} {f : Flag} {e : Endpoint} {r : Run}

theorem World.gated_of_connected (h : w.connected e = true) : w.gated e r = r := if_pos h

theorem World.onItems_subset {next : Content → Run} {u : Update}
    (hconn : w.connected e = true) (hnext : .update u ∈ (next .items).calls)
    (h : (w.gated e (w.requestThen e next)).error = false) :
    .request e :: w.onItems e u ⊆ (w.gated e (w.requestThen e next)).calls := by
  rw [World.gated_of_connected hconn] at h ⊢
  obtain ⟨content, hans, _, hcalls⟩ := World.requestThen_ok h
  rw [hcalls]
  refine List.cons_subset_cons _ fun c hc => ?_
  unfold World.onItems at hc
  split at hc
  · next hitems =>
    obtain rfl := List.mem_singleton.mp hc
    obtain rfl : content = .items := Answer.ok.inj (hans.symm.trans hitems)
    exact hnext
  · cases hc

theorem World.calls_loadList {next : Content → Run} (hinvalid : next .invalid = .fail)
    (hnext : ∀ content, content ≠ .invalid → next content = next .items)
    (hconn : w.connected e = true) (h : (w.gated e (w.requestThen e next)).error = false) :
    (w.gated e (w.requestThen e next)).calls = .request e :: (next .items).calls := by
  rw [World.gated_of_connected hconn] at h ⊢
  obtain ⟨content, _, hok, hcalls⟩ := World.requestThen_ok h
  have hc : content ≠ .invalid := by
    rintro rfl
    rw [hinvalid] at hok
    cases hok
  rw [hcalls, hnext content hc]

theorem World.calls_loadMicroservices (hconn : w.connected .microservices = true)
    (h : w.loadMicroservices.error = false) : w.loadMicroservices.calls = microservicesLoad := by
  refine World.calls_loadList rfl (fun content hc => ?_) hconn h
  cases content with
  | invalid => exact absurd rfl hc
  | _ => rfl

theorem World.calls_loadRegistries (hconn : w.connected .registries = true)
    (h : w.loadRegistries.error = false) : w.loadRegistries.calls = required w .registries := by
  refine World.calls_loadList rfl (fun content hc => ?_) hconn h
  cases content with
  | invalid => exact absurd rfl hc
  | _ => rfl

theorem World.required_subset_loadVolumeMounts (h : w.loadVolumeMounts.error = false) :
    required w .volumeMounts ⊆ w.loadVolumeMounts.calls := by
  intro c hc
  unfold World.loadVolumeMounts at h ⊢
  split at h <;> simp_all [required, World.onItems, World.attemptLogged]

theorem World.sessions_subset {u : Update} (hconn : w.connected e = true)
    (h : ((w.gated e (w.requestThen e fun _ => .done)).andIfOk
      (World.attemptLogged u)).error = false) :
    [.request e, .update u] ⊆ ((w.gated e (w.requestThen e fun _ => .done)).andIfOk
      (World.attemptLogged u)).calls := by
  rw [World.gated_of_connected hconn] at h ⊢
  have hfetch := (Run.error_andIfOk.mp h).1
  obtain ⟨_, _, _, hcalls⟩ := World.requestThen_ok hfetch
  rw [Run.andIfOk_eq hfetch, Run.calls_andThen, hcalls]
  exact List.Subset.refl _

theorem World.catalog_calls (hconn : w.connected e = true)
    (h : (w.gated e (w.requestOrEmpty e r)).error = false) :
    r.error = false ∧ (w.gated e (w.requestOrEmpty e r)).calls = .request e :: r.calls := by
  rw [World.gated_of_connected hconn] at h ⊢
  exact (World.requestOrEmpty_ok h).2

theorem Branch.body_microservices_subset (hconn : w.connected .microservices = true)
    (h : (Branch.microservices.body false changes w).error = false) :
    microservicesLoad ++ (if changes.on .microserviceConfig then w.processMicroserviceConfig
      else .done).calls ⊆ (Branch.microservices.body false changes w).calls := by
  change (w.loadMicroservices.andIfOk _).error = false at h
  change _ ⊆ (w.loadMicroservices.andIfOk _).calls
  have hload := (Run.error_andIfOk.mp h).1
  rw [Run.andIfOk_eq hload, Run.calls_andThen, World.calls_loadMicroservices hconn hload]
  exact List.Subset.refl _

/-- **A branch without error has issued the calls of its flag**, when its gate is open. -/
theorem required_subset_body (hf : changes.on f = true) (hopen : w.Open f.branch)
    (h : (f.branch.body false changes w).error = false) :
    required w f ⊆ (f.branch.body false changes w).calls := by
  cases f with
  | deleteNode =>
    obtain ⟨hreq, _⟩ := Bool.or_eq_false_iff.mp h
    obtain ⟨_, _, _, hcalls⟩ := World.requestThen_ok hreq
    change _ ⊆ (w.requestThen _ _).calls ++ _
    rw [hcalls]
    exact List.Subset.refl _
  | reboot | prune => exact List.Subset.refl _
  | config => exact World.onItems_subset (hopen .config rfl) (.head _) h
  | version => exact World.onItems_subset (hopen .version rfl) (.head _) h
  | tunnel => exact World.onItems_subset (hopen .tunnel rfl) (.head _) h
  | registries =>
    exact (World.calls_loadRegistries (hopen .registries rfl) h) ▸ List.Subset.refl _
  | volumeMounts => exact World.required_subset_loadVolumeMounts h
  | models => exact (World.catalog_calls (hopen .models rfl) h).2 ▸ List.Subset.refl _
  | knowledge => exact (World.catalog_calls (hopen .knowledge rfl) h).2 ▸ List.Subset.refl _
  | runtimeClasses =>
    obtain ⟨happly, hcalls⟩ := World.catalog_calls (hopen .runtimeClasses rfl) h
    change _ ⊆ (w.gated _ (w.requestOrEmpty _ _)).calls
    rw [hcalls, Run.andIfOk_eq (Run.error_andIfOk.mp happly).1]
    exact List.Subset.refl _
  | microserviceConfig =>
    have hconn := hopen .microservices rfl
    refine List.Subset.trans ?_ (Branch.body_microservices_subset hconn h)
    refine List.append_subset.mpr ⟨List.subset_append_left _ _, ?_⟩
    refine List.Subset.trans ?_ (List.subset_append_right _ _)
    rw [if_pos hf]
    unfold World.processMicroserviceConfig
    rw [hconn]
    cases w.configsChanged with
    | true => exact List.Subset.refl _
    | false => exact List.nil_subset _
  | microserviceList | microserviceModels | microserviceKnowledge =>
    exact List.Subset.trans (List.subset_append_left _ _)
      (Branch.body_microservices_subset (hopen .microservices rfl) h)
  | execSessions => exact World.sessions_subset (hopen .execSessions rfl) h
  | microserviceLogs | fogLogs => exact World.sessions_subset (hopen .logSessions rfl) h

theorem taken_of_on (hf : changes.on f = true) : f.branch.taken false changes = true := by
  cases f <;> simp [Flag.branch, Branch.taken, hf]

theorem Flag.branch_mem_others (hf : f ≠ .deleteNode) : f.branch ∈ Branch.others := by
  cases f with
  | deleteNode => exact absurd rfl hf
  | _ => decide

theorem body_of_processChanges (hf : changes.on f = true)
    (hdel : f = .deleteNode ∨ changes.on .deleteNode = false)
    (hack : (processChanges false changes w).error = false) :
    (f.branch.body false changes w).error = false ∧
      (f.branch.body false changes w).calls ⊆ (processChanges false changes w).calls := by
  unfold processChanges at hack ⊢
  split at hack
  · next htaken =>
    have hon : changes.on .deleteNode = true := by simpa [Branch.taken] using htaken
    obtain rfl : f = .deleteNode := hdel.resolve_right (by simp [hon])
    exact ⟨hack, by rw [if_pos htaken]; exact List.Subset.refl _⟩
  · next htaken =>
    rw [if_neg htaken]
    have hne : f ≠ .deleteNode := by
      rintro rfl
      exact htaken (taken_of_on hf)
    have hmem : f.branch.body false changes w ∈
        (Branch.others.filter (·.taken false changes)).map (·.body false changes w) :=
      List.mem_map_of_mem (List.mem_filter.mpr ⟨Flag.branch_mem_others hne, taken_of_on hf⟩)
    exact ⟨Run.error_all.mp hack _ hmem, fun c hc => Run.mem_calls_all.mpr ⟨_, hmem, hc⟩⟩

/-- **An acknowledged flag has been handled.** Outside initialization, when `processChanges`
returns true, every set flag whose branch found its gate open, and whose place was not taken by
the deletion of the node, has issued all the calls of its load or apply; and each of them whose
error the handlers return was accepted. -/
theorem acknowledged_applied (hack : (processChanges false changes w).error = false)
    (hf : changes f = some true) (hdel : f = .deleteNode ∨ changes .deleteNode ≠ some true)
    (hopen : w.Open f.branch) :
    ∀ c ∈ required w f, c ∈ (processChanges false changes w).calls ∧
      (c.onlyLogged = false → w.Accepted c) := by
  intro c hc
  have hon : changes.on f = true := by simp [Changes.on, hf]
  have hdel' : f = .deleteNode ∨ changes.on .deleteNode = false :=
    hdel.imp_right fun h => by simpa [Changes.on] using h
  obtain ⟨hbody, hsub⟩ := body_of_processChanges hon hdel' hack
  have hcalled := hsub (required_subset_body hon hopen hbody hc)
  exact ⟨hcalled, Run.Sound.processChanges hack c hcalled⟩

end Handled

def Changes.only (fs : List Flag) : Changes := fun f => if f ∈ fs then some true else none

def World.steady (connected : Bool) : World where
  connected _ := connected
  answer _ := .ok .items
  update _ := true
  configsChanged := true
  shouldSkipInitReload _ := false

theorem acknowledged_applied_models :
    Call.update .applyControllerModels ∈
      (processChanges false (.only [.models, .tunnel]) (.steady true)).calls ∧
      ((Call.update .applyControllerModels).onlyLogged = false →
        (World.steady true).Accepted (.update .applyControllerModels)) :=
  acknowledged_applied (f := .models) (by decide) rfl (.inr (by decide)) (fun _ _ => rfl)
    (.update .applyControllerModels) (by decide)

/-- Beside the deletion of the node, and while the controller is not connected, the registries
are acknowledged without having been asked for. -/
theorem registries_acknowledged_unasked :
    ((processChanges false (.only [.deleteNode, .registries]) (.steady true)).error = false ∧
      Changes.only [.deleteNode, .registries] .registries = some true ∧
      ¬ Applied (.steady true)
        (processChanges false (.only [.deleteNode, .registries]) (.steady true)) .registries) ∧
    ((processChanges false (.only [.registries]) (.steady false)).error = false ∧
      Changes.only [.registries] .registries = some true ∧
      ¬ Applied (.steady false)
        (processChanges false (.only [.registries]) (.steady false)) .registries) := by
  decide

end Edgelet.FieldAgent
