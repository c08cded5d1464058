import Edgelet.Machine.Run
import Edgelet.ProcessManager.ControlPlane

/-!
# The writers of the control plane row

A pass of the process manager writes the row of the control plane back with what has become of the
container. The field agent raises the generation for another image or registry or a rebuild, and
sets two flags, the second from within the call that may raise the generation. Each reads the row
and later writes a whole copy, so what others have written in between is lost.

Parsing and printing the manifest and comparing images are left open.
-/

namespace Edgelet.FieldAgent.ControllerReconcile

open Lexical Machine Edgelet.Store
open ProcessManager.ControlPlane (PassCall Env calls)

/-! ## The field agent -/

inductive Flag
  | controllerRegistered
  | initialRebuildSkipped

def Flag.set (cp : ControlPlaneDeployment) : Flag → ControlPlaneDeployment
  | .controllerRegistered => { cp with controllerRegistered := true }
  | .initialRebuildSkipped => { cp with initialRebuildSkipped := true }

structure ListedMicroservice where
  microserviceUUID : Str
  isController : Bool
  rebuild : Bool
  imageName : Str
  registryID : ℤ

structure Manifest where
  image : Str
  registry : Option ℤ
  rest : Str

/-- The list of the controller, `isSucceeded` and `isInitialRebuildSkipped` of the register state,
and `imageref.Match` with the registry that is resolved for a manifest. -/
structure ControllerInput where
  microservices : List ListedMicroservice
  succeeded : Bool
  initialRebuildSkipped : Bool
  parse : Str → Option Manifest
  marshal : Manifest → Option Str
  imageMatch : Manifest → Str → Str → Bool

def findController (cpUUID : Str) :
    Option ListedMicroservice → List ListedMicroservice → Option ListedMicroservice
  | found, [] => found
  | found, ms :: rest =>
    if trimSpace ms.microserviceUUID ≠ cpUUID then findController cpUUID found rest
    else if ms.isController then some ms
    else findController cpUUID (some ms) rest

def controllerRegistryDrift (potRegistryID : ℤ) (doc : Manifest) : Bool :=
  if potRegistryID ≤ 0 then false
  else
    match doc.registry with
    | none => true
    | some id => potRegistryID != id

def nextGeneration (cp : ControlPlaneDeployment) : ControlPlaneDeployment :=
  { cp with generation := cp.generation + 1, lastTransitionAt := cp.lastReconcileAt }

variable (s : State) (input : ControllerInput) (ev : Event)

/-- The copy that `reconcileControllerMicroservice` writes, `none` when it writes nothing; `rebuild`
says that a rebuild is due. -/
def controllerWrite (cp : ControlPlaneDeployment)
    (ms : ListedMicroservice) (rebuild : Bool) : Option ControlPlaneDeployment :=
  let potImage := trimSpace ms.imageName
  let cpImage := trimSpace cp.image
  let unchanged := if rebuild then some (nextGeneration cp) else none
  if potImage = [] ∨ cpImage = [] then unchanged
  else
    match input.parse cp.manifestYAML with
    | none => none
    | some doc =>
      let imageChanged := !input.imageMatch doc potImage cpImage
      let registryChanged := controllerRegistryDrift ms.registryID doc
      if imageChanged || registryChanged then
        let doc := if imageChanged then { doc with image := potImage } else doc
        let doc := if registryChanged then { doc with registry := some ms.registryID } else doc
        (input.marshal doc).map fun yaml =>
          nextGeneration { cp with manifestYAML := yaml
                                   image := if imageChanged then potImage else cp.image }
      else unchanged

/-! ## The writers -/

/-- What a writer still has to do. Where a flag is set for a controller, `next` is the copy of the
call from within which this happens; `write` is the write of `reconcileControllerMicroservice`. -/
inductive Task
  | pass (calls : List PassCall)
  | load (flag : Flag) (uuid : Str) (next : Option ControlPlaneDeployment)
  | store (flag : Flag) (cp : ControlPlaneDeployment) (next : Option ControlPlaneDeployment)
  | write (cp : ControlPlaneDeployment)

/-- The first rebuild after the controller has been registered is skipped. -/
def controllerTask (cp : ControlPlaneDeployment) : Option Task :=
  let cpUUID := trimSpace cp.controllerUUID
  match findController cpUUID none input.microservices with
  | none => none
  | some ms =>
    let skip := ms.rebuild && input.succeeded && !input.initialRebuildSkipped
    let next := controllerWrite input cp ms (ms.rebuild && !skip)
    if skip then some (.load .initialRebuildSkipped cpUUID next) else next.map .write

/-- The start of `persistControllerRegistered` and `persistControllerInitialRebuildSkipped`: the
row, when it is that of the controller. -/
def loadFor (now : ℤ) (row : Option StoredControlPlane) (uuid : Str) :
    Option ControlPlaneDeployment :=
  if trimSpace uuid = [] then none
  else (getSystemControlPlane now row).filter fun cp =>
    trimSpace cp.controllerUUID == trimSpace uuid

def Task.writes (now : ℤ) (result : UpsertResult) : Task → Option StoredControlPlane
  | .pass (.upsert statement result :: _) => written statement result
  | .pass _ => none
  | .load _ _ _ => none
  | .store flag cp _ => written (upsertSystemControlPlane now (flag.set cp)) result
  | .write cp => written (upsertSystemControlPlane now cp) result

def Task.rest (now : ℤ) (row : Option StoredControlPlane) (result : UpsertResult) :
    Task → Option Task
  | .pass [] => none
  | .pass (_ :: calls) => some (.pass calls)
  | .load flag uuid next =>
    match (if result = .rowFailed then none else loadFor now row uuid) with
    | some cp => some (.store flag cp next)
    | none => next.map .write
  | .store _ _ next => next.map .write
  | .write _ => none

structure State where
  row : Option StoredControlPlane
  tasks : List Task

/-- The start of a writer, or its next call; `persist` is `persistControllerRegistered` or
`persistControllerInitialRebuildSkipped`. -/
inductive Event
  | reconcileControlPlane (env : Env)
  | reconcileControllerMicroservice (input : ControllerInput) (now : ℤ)
  | persist (flag : Flag) (uuid : Str) (now : ℤ)
  | deleteSystemControlPlane
  | proceed (n : ℕ) (now : ℤ) (result : UpsertResult)

def Event.task (row : Option StoredControlPlane) : Event → Option Task
  | .reconcileControlPlane env =>
    (getSystemControlPlane env.now row).map fun item => .pass (calls env item)
  | .reconcileControllerMicroservice input now =>
    if input.microservices.isEmpty then none
    else (getSystemControlPlane now row).bind (controllerTask input)
  | .persist flag uuid now => (loadFor now row uuid).map fun cp => .store flag cp none
  | _ => none

def step : Event → Option State
  | .deleteSystemControlPlane => some { s with row := none }
  | .proceed n now result =>
    match s.tasks[n]? with
    | none => none
    | some t =>
      some ⟨(t.writes now result).or s.row, replaceAt s.tasks n (t.rest now s.row result)⟩
  | ev => some { s with tasks := s.tasks ++ (ev.task s.row).toList }

def State.init (row : Option StoredControlPlane) : State := ⟨row, []⟩

/-! ## Updates -/

/-- The writer that raises the generation. -/
def Task.raises : Task → Bool
  | .write _ => true
  | _ => false

/-- **No update is lost**: the generation does not go back, the manifest changes only with a higher
generation, no flag is cleared, and a row that is deleted does not return. Within a generation a
pass records the image of what it launches; a writer that `raises` the generation changes the image
too only with a higher one. -/
structure Kept (raises : Bool) (row row' : Option StoredControlPlane) : Prop where
  generation : ∀ r r', row = some r → row' = some r' → r.dep.generation ≤ r'.dep.generation
  manifest : ∀ r r', row = some r → row' = some r' → r'.dep.generation = r.dep.generation →
    r'.dep.manifestYAML = r.dep.manifestYAML
  image : raises = true → ∀ r r', row = some r → row' = some r' →
    r'.dep.generation = r.dep.generation → r'.dep.image = r.dep.image
  controllerRegistered : ∀ r r', row = some r → row' = some r' →
    r.dep.controllerRegistered = true → r'.dep.controllerRegistered = true
  initialRebuildSkipped : ∀ r r', row = some r → row' = some r' →
    r.dep.initialRebuildSkipped = true → r'.dep.initialRebuildSkipped = true
  deleted : row = none → row' = none

/-- The step is that of a writer that raises the generation. -/
def Event.raises : Event → Bool
  | .proceed n _ _ => (s.tasks[n]?).any Task.raises
  | _ => false

def Lossless : Prop :=
  ∀ s', step s ev = some s' → Kept (ev.raises s) s.row s'.row

/-- The row is still what a writer has read, as far as others update it: a pass has left the
generation and the flags as they were, a writer of a flag all but the flag, and the writer of a new
generation finds the old one there, or its own, with the same manifest and image. -/
def Task.StillReads (r w : ControlPlaneDeployment) : Task → Prop
  | .store .controllerRegistered cp _ =>
    r.generation = cp.generation ∧ r.initialRebuildSkipped = cp.initialRebuildSkipped
  | .store .initialRebuildSkipped cp _ =>
    r.generation = cp.generation ∧ r.controllerRegistered = cp.controllerRegistered
  | .write cp => (r.generation < cp.generation ∨ r.generation = cp.generation ∧
      r.manifestYAML = cp.manifestYAML ∧ r.image = cp.image) ∧
    r.controllerRegistered = cp.controllerRegistered ∧
    r.initialRebuildSkipped = cp.initialRebuildSkipped
  | _ => r.generation = w.generation ∧ r.controllerRegistered = w.controllerRegistered ∧
    r.initialRebuildSkipped = w.initialRebuildSkipped

/-- **The condition**: when a writer writes, the row is there, and is still what the writer has
read. -/
def InStep : Event → Prop
  | .proceed n now result => ∀ t, s.tasks[n]? = some t → ∀ w, t.writes now result = some w →
    ∃ r, s.row = some r ∧ t.StillReads r.dep w.dep
  | _ => True

/-! ## Copies are behind the row -/

/-- A copy that may be older than the row, and has the manifest of its generation. -/
structure Behind (cp r : ControlPlaneDeployment) : Prop where
  pos : 0 < cp.generation
  generation : cp.generation ≤ r.generation
  manifest : cp.generation = r.generation → cp.manifestYAML = r.manifestYAML
  controllerRegistered : cp.controllerRegistered = true → r.controllerRegistered = true
  initialRebuildSkipped : cp.initialRebuildSkipped = true → r.initialRebuildSkipped = true

/-- A copy that raises the generation of one behind the row. -/
def NextBehind (cp r : ControlPlaneDeployment) : Prop :=
  ∃ old, Behind old r ∧ cp.generation = old.generation + 1 ∧
    cp.controllerRegistered = old.controllerRegistered ∧
    cp.initialRebuildSkipped = old.initialRebuildSkipped

def Task.Behind (r : ControlPlaneDeployment) : Task → Prop
  | .pass calls => ∀ w result, PassCall.upsert (some w) result ∈ calls →
    ControllerReconcile.Behind w.dep r
  | .load _ _ next => ∀ cp, next = some cp → NextBehind cp r
  | .store _ cp next =>
    ControllerReconcile.Behind cp r ∧ ∀ cp', next = some cp' → NextBehind cp' r
  | .write cp => NextBehind cp r

/-- **The invariant**: no writer is ahead of the row. -/
def Inv : Prop := ∀ t ∈ s.tasks, ∀ r, s.row = some r → t.Behind r.dep

variable {r r' w : StoredControlPlane} {cp d : ControlPlaneDeployment} {now : ℤ}
  {row : Option StoredControlPlane} {result : UpsertResult} {t t' : Task} {raises : Bool}

theorem behind_of_updates_eq (hpos : 0 < d.generation) (h : cp.updates = d.updates) :
    Behind cp d := by
  simp only [ControlPlaneDeployment.updates, Prod.mk.injEq] at h
  obtain ⟨hgen, hmanifest, hregistered, hskipped⟩ := h
  refine ⟨hgen ▸ hpos, hgen ▸ Int64.le_refl _, fun _ => hmanifest, ?_, ?_⟩
  · rw [hregistered]
    exact id
  · rw [hskipped]
    exact id

theorem Behind.mono (h : Behind cp r.dep) (hkept : Kept raises (some r) (some r')) :
    Behind cp r'.dep where
  pos := h.pos
  generation := Int64.le_trans h.generation (hkept.generation r r' rfl rfl)
  manifest heq := by
    have hle := hkept.generation r r' rfl rfl
    have hr : r'.dep.generation = r.dep.generation :=
      Int64.le_antisymm (heq ▸ h.generation) hle
    rw [hkept.manifest r r' rfl rfl hr]
    exact h.manifest (heq.trans hr)
  controllerRegistered := hkept.controllerRegistered r r' rfl rfl ∘ h.controllerRegistered
  initialRebuildSkipped := hkept.initialRebuildSkipped r r' rfl rfl ∘ h.initialRebuildSkipped

theorem NextBehind.mono (h : NextBehind cp r.dep) (hkept : Kept raises (some r) (some r')) :
    NextBehind cp r'.dep := by
  obtain ⟨old, hold, h⟩ := h
  exact ⟨old, hold.mono hkept, h⟩

theorem Task.Behind.mono (h : t.Behind r.dep) (hkept : Kept raises (some r) (some r')) :
    t.Behind r'.dep := by
  cases t with
  | pass calls => exact fun w result hmem => (h w result hmem).mono hkept
  | load flag uuid next => exact fun cp hcp => (h cp hcp).mono hkept
  | store flag cp next => exact ⟨h.1.mono hkept, fun cp' hcp' => (h.2 cp' hcp').mono hkept⟩
  | write cp => exact NextBehind.mono h hkept

theorem behind_of_get (h : getSystemControlPlane now row = some cp) (hr : row = some r) :
    Behind cp r.dep := by
  obtain ⟨r₀, hr₀, hupdates⟩ := updates_of_get h
  obtain rfl := Option.some.inj (hr₀.symm.trans hr)
  exact behind_of_updates_eq r₀.generation hupdates

theorem behind_of_loadFor {uuid : Str} (h : loadFor now row uuid = some cp) (hr : row = some r) :
    Behind cp r.dep := by
  unfold loadFor at h
  split at h
  · cases h
  · exact behind_of_get (Option.filter_eq_some_iff.mp h).1 hr

theorem nextBehind_of_controllerWrite {input : ControllerInput} {ms : ListedMicroservice}
    {rebuild : Bool} (hcp : Behind cp r.dep) (h : controllerWrite input cp ms rebuild = some d) :
    NextBehind d r.dep := by
  have hunchanged : ∀ d, (if rebuild then some (nextGeneration cp) else none) = some d →
      NextBehind d r.dep := by
    intro d hd
    obtain ⟨-, hd⟩ := Option.ite_none_right_eq_some.mp hd
    cases hd
    exact ⟨cp, hcp, rfl, rfl, rfl⟩
  unfold controllerWrite at h
  simp only at h
  split at h
  · exact hunchanged d h
  split at h
  · cases h
  split at h
  · obtain ⟨yaml, -, rfl⟩ := Option.map_eq_some_iff.mp h
    exact ⟨cp, hcp, rfl, rfl, rfl⟩
  · exact hunchanged d h

theorem behind_of_controllerTask {input : ControllerInput} (hcp : Behind cp r.dep)
    (h : controllerTask input cp = some t) : t.Behind r.dep := by
  unfold controllerTask at h
  simp only at h
  split at h
  · cases h
  split at h
  · cases h
    exact fun d hd => nextBehind_of_controllerWrite hcp hd
  · obtain ⟨d, hd, rfl⟩ := Option.map_eq_some_iff.mp h
    exact nextBehind_of_controllerWrite hcp hd

theorem behind_of_task {ev : Event} (h : ev.task row = some t) (hr : row = some r) :
    t.Behind r.dep := by
  cases ev with
  | reconcileControlPlane env =>
    obtain ⟨item, hitem, rfl⟩ := Option.map_eq_some_iff.mp h
    have hbehind := behind_of_get hitem hr
    intro w result hmem
    have hw := ProcessManager.ControlPlane.calls_keep_updates hbehind.pos w result hmem
    obtain ⟨r₀, hr₀, hupdates⟩ := updates_of_get hitem
    obtain rfl := Option.some.inj (hr₀.symm.trans hr)
    exact behind_of_updates_eq r₀.generation (hw.trans hupdates)
  | reconcileControllerMicroservice input now =>
    simp only [Event.task] at h
    split at h
    · cases h
    · obtain ⟨cp, hcp, h⟩ := Option.bind_eq_some_iff.mp h
      exact behind_of_controllerTask (behind_of_get hcp hr) h
  | persist flag uuid now =>
    obtain ⟨cp, hcp, rfl⟩ := Option.map_eq_some_iff.mp h
    refine ⟨behind_of_loadFor hcp hr, ?_⟩
    rintro cp' ⟨⟩
  | deleteSystemControlPlane | proceed n now result => cases h

theorem behind_rest (hbehind : t.Behind r.dep) (h : t.rest now (some r) result = some t') :
    t'.Behind r.dep := by
  cases t with
  | pass calls =>
    cases calls with
    | nil => cases h
    | cons call calls =>
      cases h
      exact fun w result hmem => hbehind w result (List.mem_cons_of_mem call hmem)
  | load flag uuid next =>
    simp only [Task.rest] at h
    split at h
    next cp hcp =>
      cases h
      rw [Option.ite_none_left_eq_some] at hcp
      exact ⟨behind_of_loadFor hcp.2 rfl, hbehind⟩
    next =>
      obtain ⟨d, hd, rfl⟩ := Option.map_eq_some_iff.mp h
      exact hbehind d hd
  | store flag cp next =>
    obtain ⟨d, hd, rfl⟩ := Option.map_eq_some_iff.mp h
    exact hbehind.2 d hd
  | write cp => cases h

/-! ## What a write loses -/

theorem kept_refl (raises : Bool) (row : Option StoredControlPlane) : Kept raises row row where
  generation r r' hr hr' := by
    obtain rfl := Option.some.inj (hr.symm.trans hr')
    exact Int64.le_refl _
  manifest r r' hr hr' _ := by
    obtain rfl := Option.some.inj (hr.symm.trans hr')
    rfl
  image _ r r' hr hr' _ := by
    obtain rfl := Option.some.inj (hr.symm.trans hr')
    rfl
  controllerRegistered r r' hr hr' := by
    obtain rfl := Option.some.inj (hr.symm.trans hr')
    exact id
  initialRebuildSkipped r r' hr hr' := by
    obtain rfl := Option.some.inj (hr.symm.trans hr')
    exact id
  deleted := id

theorem kept_none (row : Option StoredControlPlane) : Kept raises row none where
  generation r r' _ hr' := by cases hr'
  manifest r r' _ hr' := by cases hr'
  image _ r r' _ hr' := by cases hr'
  controllerRegistered r r' _ hr' := by cases hr'
  initialRebuildSkipped r r' _ hr' := by cases hr'
  deleted _ := rfl

/-- What is written keeps all updates of a row that is there. -/
structure Covers (raises : Bool) (w r : ControlPlaneDeployment) : Prop where
  generation : r.generation ≤ w.generation
  manifest : w.generation = r.generation → w.manifestYAML = r.manifestYAML
  image : raises = true → w.generation = r.generation → w.image = r.image
  controllerRegistered : r.controllerRegistered = true → w.controllerRegistered = true
  initialRebuildSkipped : r.initialRebuildSkipped = true → w.initialRebuildSkipped = true

theorem kept_some_iff :
    Kept raises row (some w) ↔ ∃ r, row = some r ∧ Covers raises w.dep r.dep := by
  constructor
  · intro h
    cases hrow : row with
    | none => cases h.deleted hrow
    | some r =>
      exact ⟨r, rfl, h.generation r w hrow rfl, h.manifest r w hrow rfl,
        fun hraises => h.image hraises r w hrow rfl, h.controllerRegistered r w hrow rfl,
        h.initialRebuildSkipped r w hrow rfl⟩
  · rintro ⟨r, rfl, hcovers⟩
    constructor
    · rintro r₁ r' ⟨⟩ ⟨⟩
      exact hcovers.generation
    · rintro r₁ r' ⟨⟩ ⟨⟩
      exact hcovers.manifest
    · rintro hraises r₁ r' ⟨⟩ ⟨⟩
      exact hcovers.image hraises
    · rintro r₁ r' ⟨⟩ ⟨⟩
      exact hcovers.controllerRegistered
    · rintro r₁ r' ⟨⟩ ⟨⟩
      exact hcovers.initialRebuildSkipped
    · rintro ⟨⟩

theorem generation_eq_iff {a b : Int64} (h : a ≤ b) : b ≤ a ↔ b = a := by
  constructor
  · intro h'
    exact Int64.le_antisymm h' h
  · rintro rfl
    exact Int64.le_refl _

theorem flag_eq_iff {a b : Bool} (h : a = true → b = true) : (b = true → a = true) ↔ b = a := by
  cases a <;> cases b <;> simp_all

theorem statement_of_written {statement : Option StoredControlPlane}
    (h : written statement result = some w) : statement = some w := by
  cases result with
  | ok | volumesFailed => exact h
  | rowFailed => cases h

theorem covers_iff_eq (h : Behind cp d) :
    Covers false cp d ↔ d.generation = cp.generation ∧
      d.controllerRegistered = cp.controllerRegistered ∧
      d.initialRebuildSkipped = cp.initialRebuildSkipped := by
  rw [← generation_eq_iff h.generation, ← flag_eq_iff h.controllerRegistered,
    ← flag_eq_iff h.initialRebuildSkipped]
  constructor
  · intro hc
    exact ⟨hc.generation, hc.controllerRegistered, hc.initialRebuildSkipped⟩
  · rintro ⟨hgen, hregistered, hskipped⟩
    exact ⟨hgen, h.manifest, nofun, hregistered, hskipped⟩

theorem covers_set_iff {flag : Flag} {next : Option ControlPlaneDeployment} (h : Behind cp d) :
    Covers false ((flag.set cp).normalizeDefaults now) d ↔
      Task.StillReads d ((flag.set cp).normalizeDefaults now) (.store flag cp next) := by
  have hgen : ((flag.set cp).normalizeDefaults now).generation = cp.generation := by
    cases flag with
    | controllerRegistered | initialRebuildSkipped => exact if_neg (Int64.not_le.mpr h.pos)
  have hmanifest : ((flag.set cp).normalizeDefaults now).generation = d.generation →
      ((flag.set cp).normalizeDefaults now).manifestYAML = d.manifestYAML := by
    rw [hgen]
    cases flag with
    | controllerRegistered | initialRebuildSkipped => exact h.manifest
  have hgen_iff := generation_eq_iff h.generation
  rw [← hgen] at hgen_iff
  cases flag with
  | controllerRegistered =>
    have hflag := flag_eq_iff h.initialRebuildSkipped
    constructor
    · intro hc
      exact ⟨(hgen_iff.mp hc.generation).trans hgen, hflag.mp hc.initialRebuildSkipped⟩
    · rintro ⟨hg, hs⟩
      exact ⟨hgen_iff.mpr (hg.trans hgen.symm), hmanifest, nofun, fun _ => rfl, hflag.mpr hs⟩
  | initialRebuildSkipped =>
    have hflag := flag_eq_iff h.controllerRegistered
    constructor
    · intro hc
      exact ⟨(hgen_iff.mp hc.generation).trans hgen, hflag.mp hc.controllerRegistered⟩
    · rintro ⟨hg, hs⟩
      exact ⟨hgen_iff.mpr (hg.trans hgen.symm), hmanifest, nofun, hflag.mpr hs, fun _ => rfl⟩

/-- A generation that runs over is stored as 1, which no row with the one before it has reached. -/
theorem le_normalized_iff {old g : Int64} (hpos : 0 < old) (hle : old ≤ g) :
    g ≤ (if old + 1 ≤ 0 then 1 else old + 1) ↔ g ≤ old + 1 := by
  split
  next hover => grind
  next => exact Iff.rfl

theorem normalized_eq_iff {old g : Int64} (hpos : 0 < old) (hle : old ≤ g) :
    (if old + 1 ≤ 0 then 1 else old + 1) = g ↔ old + 1 = g := by
  split
  next hover => grind
  next => exact Iff.rfl

theorem covers_next_iff (h : NextBehind cp d) :
    Covers true (cp.normalizeDefaults now) d ↔
      Task.StillReads d (cp.normalizeDefaults now) (.write cp) := by
  obtain ⟨old, hold, hgen, hregistered, hskipped⟩ := h
  have hle := le_normalized_iff hold.pos hold.generation
  have heq := normalized_eq_iff hold.pos hold.generation
  rw [← hgen] at hle heq
  have hregistered_iff := flag_eq_iff (hregistered ▸ hold.controllerRegistered)
  have hskipped_iff := flag_eq_iff (hskipped ▸ hold.initialRebuildSkipped)
  constructor
  · intro hc
    refine ⟨?_, hregistered_iff.mp hc.controllerRegistered,
      hskipped_iff.mp hc.initialRebuildSkipped⟩
    by_cases hsame : cp.generation = d.generation
    · have hsame' := heq.mpr hsame
      exact .inr ⟨hsame.symm, (hc.manifest hsame').symm, (hc.image rfl hsame').symm⟩
    · exact .inl (Int64.lt_of_le_of_ne (hle.mp hc.generation) (Ne.symm hsame))
  · rintro ⟨hcontent, hr, hs⟩
    have hcontent' : cp.generation = d.generation →
        cp.manifestYAML = d.manifestYAML ∧ cp.image = d.image := by
      intro hsame
      rcases hcontent with hlt | ⟨-, hmanifest, himage⟩
      · exact absurd (hsame ▸ hlt) Int64.lt_irrefl
      · exact ⟨hmanifest.symm, himage.symm⟩
    have hg : d.generation ≤ cp.generation := by
      rcases hcontent with hlt | ⟨hsame, -⟩
      · exact Int64.le_of_lt hlt
      · exact hsame ▸ Int64.le_refl _
    exact ⟨hle.mpr hg, fun h => (hcontent' (heq.mp h)).1, fun _ h => (hcontent' (heq.mp h)).2,
      hregistered_iff.mpr hr, hskipped_iff.mpr hs⟩

/-- **A write loses nothing exactly when the row is still what the writer has read.** -/
theorem covers_iff_stillReads (h : t.Behind d) (hw : t.writes now result = some w) :
    Covers t.raises w.dep d ↔ t.StillReads d w.dep := by
  match t with
  | .pass (.upsert statement result' :: calls) =>
    obtain rfl := statement_of_written hw
    exact covers_iff_eq (h w result' List.mem_cons_self)
  | .pass (.other :: calls) => cases hw
  | .pass [] => cases hw
  | .load flag uuid next => cases hw
  | .store flag cp next =>
    rw [dep_of_upsert (statement_of_written hw)]
    exact covers_set_iff h.1
  | .write cp =>
    rw [dep_of_upsert (statement_of_written hw)]
    exact covers_next_iff h

/-! ## Runs -/

theorem lossless_iff_inStep (hs : Inv s) : Lossless s ev ↔ InStep s ev := by
  cases ev with
  | reconcileControlPlane env | reconcileControllerMicroservice input now
  | persist flag uuid now =>
    refine iff_of_true ?_ trivial
    rintro s' ⟨⟩
    exact kept_refl _ s.row
  | deleteSystemControlPlane =>
    refine iff_of_true ?_ trivial
    rintro s' ⟨⟩
    exact kept_none s.row
  | proceed n now result =>
    cases ht : s.tasks[n]? with
    | none => simp [Lossless, InStep, step, ht]
    | some t =>
      have hbehind := hs t (List.mem_of_getElem? ht)
      simp only [Lossless, InStep, Event.raises, step, ht, Option.any_some, Option.some.injEq,
        forall_eq']
      cases hw : t.writes now result with
      | none => exact iff_of_true (kept_refl _ s.row) (by rintro w ⟨⟩)
      | some w =>
        rw [Option.some_or, kept_some_iff]
        constructor
        · rintro ⟨r, hr, hcovers⟩ w ⟨⟩
          exact ⟨r, hr, (covers_iff_stillReads (hbehind r hr) hw).mp hcovers⟩
        · intro h
          obtain ⟨r, hr, hreads⟩ := h w rfl
          exact ⟨r, hr, (covers_iff_stillReads (hbehind r hr) hw).mpr hreads⟩

theorem behind_before {s s' : State} {ev : Event} (hs : Inv s) (h : step s ev = some s')
    (ht : t ∈ s'.tasks) (hr : s.row = some r) : t.Behind r.dep := by
  have hcall : ∀ ev : Event, t ∈ s.tasks ++ (ev.task s.row).toList → t.Behind r.dep := by
    intro ev hmem
    rcases List.mem_append.mp hmem with hmem | hmem
    · exact hs t hmem r hr
    · exact behind_of_task (Option.mem_toList.mp hmem) hr
  cases ev with
  | reconcileControlPlane env | reconcileControllerMicroservice input now
  | persist flag uuid now =>
    cases h
    exact hcall _ ht
  | deleteSystemControlPlane =>
    cases h
    exact hs t ht r hr
  | proceed n now result =>
    simp only [step] at h
    split at h
    · cases h
    next t₀ ht₀ =>
      cases h
      rcases mem_of_mem_replaceAt ht with hmem | hrest
      · exact hs t hmem r hr
      · rw [hr] at hrest
        exact behind_rest (hs t₀ (List.mem_of_getElem? ht₀) r hr) hrest

theorem inv_step (s' : State) (hs : Inv s) (hok : Lossless s ev)
    (h : step s ev = some s') : Inv s' := by
  intro t ht r' hr'
  have hkept := hok s' h
  cases hrow : s.row with
  | none =>
    rw [hkept.deleted hrow] at hr'
    cases hr'
  | some r =>
    rw [hrow, hr'] at hkept
    exact (behind_before hs h ht hrow).mono hkept

/-- **When the row of the control plane loses no update**: along every run, from every row, no step
takes the generation back, changes the manifest or the image of a generation, clears a flag or
brings a deleted row back, exactly when at each write the row is there and is still what the writer
has read. -/
theorem updates_kept_iff (row : Option StoredControlPlane) (evs : List Event) :
    Along step Lossless (.init row) evs ↔ Along step InStep (.init row) evs :=
  along_iff_along lossless_iff_inStep inv_step (by rintro t ⟨⟩)

/-! ## Four runs that lose an update -/

def deployed : StoredControlPlane where
  dep :=
    { controllerUUID := "u".toList, nameSpace := "default".toList, name := "cp".toList
      manifestYAML := "v1".toList, image := "v1".toList, state := "running".toList
      containerID := "c".toList, desiredState := "running".toList
      runtimeState := "running".toList, lastError := [], restartCount := 0
      lastTransitionAt := 1, lastReconcileAt := 1, lastStartAttemptAt := 1, failureCount := 0
      deletedAt := none, generation := 1, observedGeneration := 1
      controllerRegistered := true, initialRebuildSkipped := false }
  uuid := by decide
  manifest := by decide
  name := by decide
  generation := by decide

def healthy : Env where
  now := 2
  clock _ := 2
  containerForControlPlane _ := .ok (some "c".toList)
  pullReady _ := true
  buildControlPlaneLaunchSpec _ manifest _ := .ok ⟨manifest, manifest⟩
  deferVolumeCreate _ := false
  volumeHeld _ := false
  ensureControllerImage _ := .ok ()
  launch _ := .ok "c".toList
  removeLocalContainer _ := .ok ()
  stopMicroservice _ := .ok ()
  getLocalContainerStatus _ := .ok ⟨"RUNNING".toList, none, false⟩
  startLocalMicroservice _ := .ok ()
  upsert _ := .ok

/-- The controller lists itself with an image. -/
def listed (image : String) (rebuild skipped : Bool) : ControllerInput where
  microservices := [⟨"u".toList, true, rebuild, image.toList, 0⟩]
  succeeded := true
  initialRebuildSkipped := skipped
  parse yaml := some ⟨yaml, none, []⟩
  marshal doc := some doc.image
  imageMatch _ pot cp := pot == cp

/-- After the events one more step of the first call replaces a value of the row by another. -/
def Replaces {α : Type} (f : StoredControlPlane → α) (es : List Event) (before after : Option α) :
    Prop :=
  ∃ s s', run step (.init (some deployed)) es = some s ∧ step s (.proceed 0 2 .ok) = some s' ∧
    s.row.map f = before ∧ s'.row.map f = after

/-- **Lost updates.** A pass writes back what it has read before the generation was raised; a call
that rebuilds the image it has read stores it under the generation of another call's image; the call
that sets the flag of the skipped rebuild clears it with its own write; and a pass writes back a row
that has been deleted meanwhile. -/
theorem updates_lost :
    Replaces (fun r => (r.dep.generation, r.dep.manifestYAML))
      [.reconcileControlPlane healthy, .reconcileControllerMicroservice (listed "v2" false false) 2,
        .proceed 1 2 .ok, .proceed 0 2 .ok, .proceed 0 2 .ok]
      (some (2, "v2".toList)) (some (1, "v1".toList)) ∧
    Replaces (fun r => (r.dep.generation, r.dep.manifestYAML))
      [.reconcileControllerMicroservice (listed "v1" true true) 2,
        .reconcileControllerMicroservice (listed "v2" false true) 2, .proceed 1 2 .ok]
      (some (2, "v2".toList)) (some (2, "v1".toList)) ∧
    Replaces (·.dep.initialRebuildSkipped)
      [.reconcileControllerMicroservice (listed "v2" true false) 2, .proceed 0 2 .ok,
        .proceed 0 2 .ok]
      (some true) (some false) ∧
    Replaces (·.dep.generation)
      [.reconcileControlPlane healthy, .deleteSystemControlPlane, .proceed 0 2 .ok,
        .proceed 0 2 .ok]
      none (some 1) := by
  refine ⟨⟨_, _, rfl, rfl, ?_, ?_⟩, ⟨_, _, rfl, rfl, ?_, ?_⟩, ⟨_, _, rfl, rfl, ?_, ?_⟩,
    _, _, rfl, rfl, ?_, ?_⟩ <;> decide

end Edgelet.FieldAgent.ControllerReconcile
