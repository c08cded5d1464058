import Edgelet.FieldAgent.Changes
import Edgelet.Machine.Run
import Mathlib.Data.Nat.Notation

/-!
# The end of initialization

The first pass over the changes that returns true ends the initialization. Until then a pass reloads
what the controller holds, unless a reconcile recorded the current connect generation less than two
minutes ago, whatever its loads came to. Each load is one step of the machine.
-/

namespace Edgelet.FieldAgent

/-! ## The loads -/

inductive Load
  | registries | volumeMounts | models | knowledge | runtimeClasses | microservices
  deriving DecidableEq

namespace Load

def endpoint : Load → Endpoint
  | .registries => .registries
  | .volumeMounts => .volumeMounts
  | .models => .models
  | .knowledge => .knowledge
  | .runtimeClasses => .runtimeClasses
  | .microservices => .microservices

def branch : Load → Branch
  | .registries => .registries
  | .volumeMounts => .volumeMounts
  | .models => .models
  | .knowledge => .knowledge
  | .runtimeClasses => .runtimeClasses
  | .microservices => .microservices

def run (w : World) : Load → Run
  | .registries => w.loadRegistries
  | .volumeMounts => w.loadVolumeMounts
  | .models => w.loadModels
  | .knowledge => w.loadKnowledge
  | .runtimeClasses => w.loadRuntimeClasses
  | .microservices => w.loadMicroservices

def reconciled : List Load :=
  [.registries, .volumeMounts, .models, .runtimeClasses, .microservices]

end Load

def Branch.load : Branch → Option Load
  | .registries => some .registries
  | .volumeMounts => some .volumeMounts
  | .models => some .models
  | .knowledge => some .knowledge
  | .runtimeClasses => some .runtimeClasses
  | .microservices => some .microservices
  | _ => none

def World.accepts (w : World) (e : Endpoint) : Bool :=
  w.succeeded (.request e) || e.emptyWhenMissing && w.answer e == .missing

/-- **The load succeeds**: it asks the controller, the answer is accepted, and no error is
returned. -/
def World.loads (w : World) (l : Load) (r : Run) : Bool :=
  !r.error && r.calls.contains (.request l.endpoint) && w.accepts l.endpoint

def branches (initialization : Bool) (changes : Changes) : List Branch :=
  if Branch.deleteNode.taken initialization changes then [.deleteNode]
  else Branch.others.filter (·.taken initialization changes)

namespace Initialization

/-! ## The machine -/

inductive ControllerStatus
  | ok | notConnected | brokenCertificate | notProvisioned
  deriving DecidableEq

structure Pass where
  changes : Changes
  initialization : Bool
  remaining : List Branch
  error : Bool

def Pass.start (initialization : Bool) (changes : Changes) : Pass where
  changes := changes
  initialization := initialization
  remaining := branches initialization changes
  error := false

structure State where
  initialization : Bool
  status : ControllerStatus
  connectGeneration : ℕ
  lastReconcileGeneration : ℕ
  /-- The zero time is `none`. -/
  lastReconcileAt : Option ℕ
  now : ℕ
  pass : Option Pass
  reconcile : Option (List Load)
  loaded : Load → Bool

def State.init : State where
  initialization := true
  status := .notConnected
  connectGeneration := 0
  lastReconcileGeneration := 0
  lastReconcileAt := none
  now := 0
  pass := none
  reconcile := none
  loaded _ := false

def initReloadDedupWindow : ℕ := 120

namespace State

variable (s : State)

def shouldSkipInitReload : Bool :=
  s.initialization && s.lastReconcileGeneration == s.connectGeneration &&
    match s.lastReconcileAt with
    | none => false
    | some t => s.now - t < initReloadDedupWindow

def reconnects : Bool := s.status == .notConnected || s.status == .brokenCertificate

def noteControllerReachable : State :=
  if s.reconnects then
    { s with connectGeneration := s.connectGeneration + 1, loaded := fun _ => false }
  else s

def mark (l : Load) (ok : Bool) : State :=
  { s with loaded := fun l' => s.loaded l' || (l' == l && ok) }

def world (w : World) : World :=
  { w with shouldSkipInitReload := fun _ => s.shouldSkipInitReload }

end State

/-- The steps. A load brings its answers with it, and what its gate found: the connection may
have changed since. -/
inductive Action
  | setStatus (status : ControllerStatus)
  | ping
  | elapse (seconds : ℕ)
  | otherLoad (l : Load) (w : World)
  | beginReconcile (connected : Bool)
  | reconcileLoad (w : World)
  | endReconcile
  | beginPass (changes : Changes)
  | branch (w : World)
  | endPass
  | timeout

def takeBranch (s : State) (p : Pass) (b : Branch) (bs : List Branch) (w : World) : State :=
  let r := b.body p.initialization p.changes (s.world w)
  let s' : State :=
    match b.load with
    | none => s
    | some l => s.mark l (w.loads l r)
  { s' with pass := some { p with remaining := bs, error := p.error || r.error } }

def step (s : State) : Action → Option State
  | .setStatus status => some { s with status }
  | .ping => some { s.noteControllerReachable with status := .ok }
  | .elapse seconds => some { s with now := s.now + seconds }
  | .otherLoad l w => some (s.mark l (w.loads l (l.run w)))
  | .beginReconcile connected =>
    match s.reconcile with
    | some _ => none
    | none => if connected then some { s with reconcile := some Load.reconciled } else some s
  | .reconcileLoad w =>
    match s.reconcile with
    | some (l :: ls) => some { s.mark l (w.loads l (l.run w)) with reconcile := some ls }
    | _ => none
  | .endReconcile =>
    match s.reconcile with
    | some [] =>
      some { s with
        reconcile := none
        lastReconcileGeneration := s.connectGeneration
        lastReconcileAt := some s.now }
    | _ => none
  | .beginPass changes =>
    match s.pass with
    | some _ => none
    | none => some { s with pass := some (Pass.start s.initialization changes) }
  | .branch w =>
    match s.pass with
    | some p =>
      match p.remaining with
      | b :: bs => some (takeBranch s p b bs w)
      | [] => none
    | none => none
  | .endPass =>
    match s.pass with
    | some p =>
      match p.remaining with
      | [] => some { s with pass := none, initialization := s.initialization && p.error }
      | _ => none
    | none => none
  | .timeout =>
    match s.pass with
    | some _ => some { s with pass := none }
    | none => none

/-! ## What a load says -/

section Loads

variable {w : World} {changes : Changes} {l : Load}

theorem accepts_iff {e : Endpoint} : w.accepts e = true ↔ w.Accepted (.request e) := by
  simp [World.accepts, World.Accepted]

def inPass (changes : Changes) (w : World) : Load → Run
  | .microservices =>
    w.loadMicroservices.andIfOk
      (if changes.on .microserviceConfig then w.processMicroserviceConfig else .done)
  | l => l.run w

theorem body_branch (hskip : w.shouldSkipInitReload l.endpoint = false) :
    l.branch.body true changes w = inPass changes w l := by
  have hreload (r : Run) : Branch.reload true w l.endpoint r = r := by
    simp [Branch.reload, hskip]
  cases l <;> exact hreload _

theorem request_mem_inPass (hopen : w.Open l.branch) (h : (inPass changes w l).error = false) :
    .request l.endpoint ∈ (inPass changes w l).calls := by
  cases l with
  | registries => exact World.calls_loadRegistries (hopen .registries rfl) h ▸ .head _
  | volumeMounts => exact World.required_subset_loadVolumeMounts h (.head _)
  | models => exact (World.catalog_calls (hopen .models rfl) h).2 ▸ .head _
  | knowledge => exact (World.catalog_calls (hopen .knowledge rfl) h).2 ▸ .head _
  | runtimeClasses => exact (World.catalog_calls (hopen .runtimeClasses rfl) h).2 ▸ .head _
  | microservices =>
    have hload := (Run.error_andIfOk.mp h).1
    change _ ∈ (w.loadMicroservices.andIfOk _).calls
    rw [Run.andIfOk_eq hload, Run.calls_andThen,
      World.calls_loadMicroservices (hopen .microservices rfl) hload]
    exact .head _

/-- **A branch without error has loaded**, when its gate is open and it is not left out. For the
volume mounts the answer is looked at as well, since their branch has no error to return. -/
theorem loads_of_body (hopen : w.Open l.branch) (hskip : w.shouldSkipInitReload l.endpoint = false)
    (hmounts : l = .volumeMounts → w.accepts .volumeMounts = true)
    (h : (l.branch.body true changes w).error = false) :
    w.loads l (l.branch.body true changes w) = true := by
  have hmem : .request l.endpoint ∈ (l.branch.body true changes w).calls := by
    rw [body_branch hskip] at h ⊢
    exact request_mem_inPass hopen h
  have haccepts : w.accepts l.endpoint = true := by
    by_cases hl : l = .volumeMounts
    · exact hl ▸ hmounts hl
    · refine accepts_iff.mpr (Branch.sound_body l.branch h _ hmem ?_)
      cases l with
      | volumeMounts => exact absurd rfl hl
      | _ => rfl
  simp [World.loads, h, hmem, haccepts]

end Loads

/-! ## The end of initialization -/

def reloadKeys : List Flag := [.registries, .volumeMounts, .models, .knowledge, .runtimeClasses]

/-- **An undisturbed step of initialization.** A reconnect comes neither during a pass nor during
a reconcile, and the loads of a reconcile succeed; the change map has the keys of the reloads; a
branch finds its gate open, the request of the volume mounts succeeds, and the load of the knowledge
is not left out. -/
def Undisturbed (s : State) : Action → Prop
  | .ping => s.reconnects = true → s.pass = none ∧ s.reconcile = none
  | .reconcileLoad w => ∀ l ls, s.reconcile = some (l :: ls) → w.loads l (l.run w) = true
  | .beginPass changes => ∀ f ∈ reloadKeys, (changes f).isSome = true
  | .branch w => ∀ p b bs, s.pass = some p → p.remaining = b :: bs →
      w.Open b ∧ (b = .volumeMounts → w.accepts .volumeMounts = true) ∧
        (b = .knowledge → s.shouldSkipInitReload = false)
  | _ => True

def Steady (s : State) (a : Action) : Prop := s.initialization = true → Undisturbed s a

structure Inv (s : State) : Prop where
  le_generation : s.lastReconcileGeneration ≤ s.connectGeneration
  recorded : s.lastReconcileAt ≠ none → s.lastReconcileGeneration = s.connectGeneration →
    ∀ l ∈ Load.reconciled, s.loaded l = true
  reconciling : ∀ ls, s.reconcile = some ls → ∀ l ∈ Load.reconciled, l ∈ ls ∨ s.loaded l = true
  started : ∀ p, s.pass = some p → p.initialization = true
  passing : ∀ p, s.pass = some p → p.error = false →
    ∀ l : Load, l.branch ∈ p.remaining ∨ s.loaded l = true

section Preservation

variable {s s' : State}

theorem inv_init : Inv State.init where
  le_generation := Nat.le_refl _
  recorded h := absurd rfl h
  reconciling _ h := nomatch h
  started _ h := nomatch h
  passing _ h := nomatch h

@[simp] theorem loaded_mark {l l' : Load} {ok : Bool} :
    (s.mark l ok).loaded l' = (s.loaded l' || (l' == l && ok)) := rfl

theorem loaded_mark_of_loaded {l l' : Load} {ok : Bool} (h : s.loaded l' = true) :
    (s.mark l ok).loaded l' = true := by simp [h]

variable {l : Load}

theorem loaded_mark_self : (s.mark l true).loaded l = true := by simp

theorem Inv.mark (h : Inv s) (l : Load) (ok : Bool) : Inv (s.mark l ok) where
  le_generation := h.le_generation
  recorded hat hgen l' hl' := loaded_mark_of_loaded (h.recorded hat hgen l' hl')
  reconciling ls hls l' hl' := (h.reconciling ls hls l' hl').imp_right loaded_mark_of_loaded
  started := h.started
  passing p hp herr l' := (h.passing p hp herr l').imp_right loaded_mark_of_loaded

theorem Inv.ping (h : Inv s) (hok : Undisturbed s .ping) :
    Inv { s.noteControllerReachable with status := .ok } := by
  unfold State.noteControllerReachable
  split
  · next hre =>
    obtain ⟨hpass, hrec⟩ := hok hre
    exact {
      le_generation := Nat.le_succ_of_le h.le_generation
      recorded := fun _ hgen => by
        have hle := h.le_generation
        dsimp only at hgen
        omega
      reconciling := fun ls hls => nomatch hrec.symm.trans hls
      started := fun p hp => nomatch hpass.symm.trans hp
      passing := fun p hp => nomatch hpass.symm.trans hp }
  · exact ⟨h.le_generation, h.recorded, h.reconciling, h.started, h.passing⟩

theorem Inv.beginReconcile (h : Inv s) : Inv { s with reconcile := some Load.reconciled } where
  le_generation := h.le_generation
  recorded := h.recorded
  reconciling _ hls _ hl := .inl (Option.some.inj hls ▸ hl)
  started := h.started
  passing := h.passing

theorem Inv.reconcileLoad {ls : List Load} (h : Inv s) (hrec : s.reconcile = some (l :: ls)) :
    Inv { s.mark l true with reconcile := some ls } where
  le_generation := h.le_generation
  recorded := (h.mark l true).recorded
  reconciling ls' hls' l' hl' := by
    obtain rfl := Option.some.inj hls'
    obtain hmem | hloaded := h.reconciling _ hrec l' hl'
    · obtain rfl | hmem := List.mem_cons.mp hmem
      · exact .inr loaded_mark_self
      · exact .inl hmem
    · exact .inr (loaded_mark_of_loaded hloaded)
  started := h.started
  passing := (h.mark l true).passing

theorem Inv.endReconcile (h : Inv s) (hrec : s.reconcile = some []) :
    Inv { s with
      reconcile := none
      lastReconcileGeneration := s.connectGeneration
      lastReconcileAt := some s.now } where
  le_generation := Nat.le_refl _
  recorded _ _ l hl := (h.reconciling [] hrec l hl).resolve_left List.not_mem_nil
  reconciling _ hls := nomatch hls
  started := h.started
  passing := h.passing

theorem branch_mem_branches {changes : Changes} (h : ∀ f ∈ reloadKeys, (changes f).isSome = true)
    (l : Load) : l.branch ∈ branches true changes := by
  have hdel : Branch.deleteNode.taken true changes = false := by simp [Branch.taken]
  rw [branches, if_neg (by simp [hdel]), List.mem_filter]
  simp only [reloadKeys, List.mem_cons, List.not_mem_nil, or_false, forall_eq_or_imp,
    forall_eq] at h
  obtain ⟨hreg, hvol, hmod, hkno, hrun⟩ := h
  cases l <;> simp [Load.branch, Branch.others, Branch.taken, hreg, hvol, hmod, hkno, hrun]

theorem Inv.beginPass {changes : Changes} (h : Inv s) (hinit : s.initialization = true)
    (hok : Undisturbed s (.beginPass changes)) :
    Inv { s with pass := some (Pass.start s.initialization changes) } where
  le_generation := h.le_generation
  recorded := h.recorded
  reconciling := h.reconciling
  started p hp := by
    obtain rfl := Option.some.inj hp
    exact hinit
  passing p hp _ l := by
    obtain rfl := Option.some.inj hp
    refine .inl ?_
    change l.branch ∈ branches s.initialization changes
    rw [hinit]
    exact branch_mem_branches hok l

theorem Inv.noPass (h : Inv s) : Inv { s with pass := none } :=
  ⟨h.le_generation, h.recorded, h.reconciling, fun _ hp => (nomatch hp), fun _ hp => (nomatch hp)⟩

/-! ### A branch of a pass -/

@[simp] theorem load_branch (l : Load) : l.branch.load = some l := by cases l <;> rfl

variable {b : Branch}

theorem branch_of_load (h : b.load = some l) : b = l.branch := by
  cases b <;> cases h <;> rfl

theorem recorded_of_shouldSkipInitReload (h : s.shouldSkipInitReload = true) :
    s.lastReconcileAt ≠ none ∧ s.lastReconcileGeneration = s.connectGeneration := by
  simp only [State.shouldSkipInitReload, Bool.and_eq_true, beq_iff_eq] at h
  obtain ⟨⟨_, hgen⟩, hat⟩ := h
  refine ⟨fun hnone => ?_, hgen⟩
  rw [hnone] at hat
  cases hat

theorem Inv.loaded_of_skip (h : Inv s) (hskip : s.shouldSkipInitReload = true)
    (hl : l ≠ .knowledge) : s.loaded l = true := by
  obtain ⟨hat, hgen⟩ := recorded_of_shouldSkipInitReload hskip
  refine h.recorded hat hgen l ?_
  cases l with
  | knowledge => exact absurd rfl hl
  | _ => decide

def Pass.next (s : State) (p : Pass) (b : Branch) (bs : List Branch) (w : World) : Pass :=
  { p with
    remaining := bs
    error := p.error || (b.body p.initialization p.changes (s.world w)).error }

variable {bs : List Branch} {w : World} {p : Pass}

theorem takeBranch_eq_of_load (hl : b.load = some l) :
    takeBranch s p b bs w =
      { s.mark l (w.loads l (b.body p.initialization p.changes (s.world w))) with
        pass := some (p.next s b bs w) } := by
  simp only [takeBranch, hl, Pass.next]

theorem takeBranch_eq_of_no_load (hl : b.load = none) :
    takeBranch s p b bs w = { s with pass := some (p.next s b bs w) } := by
  simp only [takeBranch, hl, Pass.next]

theorem Inv.loaded_next (h : Inv s) (hp : s.pass = some p) (hopen : w.Open l.branch)
    (hmounts : l = .volumeMounts → w.accepts .volumeMounts = true)
    (hknowledge : l = .knowledge → s.shouldSkipInitReload = false)
    (herr : (p.next s l.branch bs w).error = false) :
    (s.mark l (w.loads l (l.branch.body p.initialization p.changes (s.world w)))).loaded l =
      true := by
  have hinit := h.started p hp
  have hbody : (l.branch.body true p.changes (s.world w)).error = false := by
    have := (Bool.or_eq_false_iff.mp herr).2
    rwa [hinit] at this
  cases hskip : s.shouldSkipInitReload with
  | true =>
    have hl : l ≠ .knowledge := fun hl => absurd (hskip.symm.trans (hknowledge hl)) nofun
    exact loaded_mark_of_loaded (h.loaded_of_skip hskip hl)
  | false =>
    have hloads := @loads_of_body (s.world w) p.changes l hopen hskip hmounts hbody
    rw [hinit]
    change (s.mark l ((s.world w).loads l _)).loaded l = true
    rw [hloads]
    exact loaded_mark_self

theorem Inv.takeBranch (h : Inv s) (hp : s.pass = some p) (hrem : p.remaining = b :: bs)
    (hopen : w.Open b) (hmounts : b = .volumeMounts → w.accepts .volumeMounts = true)
    (hknowledge : b = .knowledge → s.shouldSkipInitReload = false) :
    Inv (takeBranch s p b bs w) := by
  have hkeep (l : Load) (herr : (p.next s b bs w).error = false) (hne : l.branch ≠ b) :
      l.branch ∈ bs ∨ s.loaded l = true := by
    obtain hmem | hloaded := h.passing p hp (Bool.or_eq_false_iff.mp herr).1 l
    · rw [hrem] at hmem
      exact .inl ((List.mem_cons.mp hmem).resolve_left hne)
    · exact .inr hloaded
  cases hl : b.load with
  | none =>
    rw [takeBranch_eq_of_no_load hl]
    refine ⟨h.le_generation, h.recorded, h.reconciling, ?_, ?_⟩
    · intro p' hp'
      obtain rfl := Option.some.inj hp'
      exact h.started p hp
    · intro p' hp' herr l
      obtain rfl := Option.some.inj hp'
      refine hkeep l herr ?_
      rintro rfl
      simp at hl
  | some l =>
    obtain rfl := branch_of_load hl
    rw [takeBranch_eq_of_load hl]
    have hm := h.mark l (w.loads l (l.branch.body p.initialization p.changes (s.world w)))
    refine ⟨hm.le_generation, hm.recorded, hm.reconciling, ?_, ?_⟩
    · intro p' hp'
      obtain rfl := Option.some.inj hp'
      exact h.started p hp
    · intro p' hp' herr l'
      obtain rfl := Option.some.inj hp'
      by_cases hne : l'.branch = l.branch
      · obtain rfl : l' = l := by simpa using congrArg Branch.load hne
        refine .inr (h.loaded_next hp hopen (fun hv => hmounts ?_) (fun hk => hknowledge ?_) herr)
        · rw [hv]
          rfl
        · rw [hk]
          rfl
      · exact (hkeep l' herr hne).imp_right loaded_mark_of_loaded

/-! ### Steps and runs -/

variable {a : Action}

/-- **What a step does to the flag**: nothing, unless it ends a pass. -/
theorem step_initialization (h : step s a = some s') :
    s'.initialization = s.initialization ∨
      ∃ p, s.pass = some p ∧ p.remaining = [] ∧
        s'.initialization = (s.initialization && p.error) ∧ s'.loaded = s.loaded := by
  cases a with
  | endPass =>
    simp only [step] at h
    split at h
    · next p hp =>
      split at h
      · next hrem =>
        cases h
        exact .inr ⟨p, hp, hrem, rfl, rfl⟩
      · cases h
    · cases h
  | ping =>
    cases h
    left
    simp only [State.noteControllerReachable]
    split <;> rfl
  | branch w =>
    simp only [step] at h
    split at h
    · split at h
      · next b bs _ =>
        cases h
        left
        cases hl : b.load with
        | none => rw [takeBranch_eq_of_no_load hl]
        | some l => rw [takeBranch_eq_of_load hl]; rfl
      · cases h
    · cases h
  | _ =>
    simp only [step] at h
    repeat' split at h
    all_goals cases h
    all_goals exact .inl rfl

theorem initialization_of_step (h : step s a = some s')
    (hinit : s'.initialization = true) : s.initialization = true := by
  obtain heq | ⟨p, _, _, heq, _⟩ := step_initialization h
  · exact heq ▸ hinit
  · exact (Bool.and_eq_true_iff.mp (heq ▸ hinit)).1

theorem inv_step (hs : s.initialization = true → Inv s) (hok : Steady s a)
    (h : step s a = some s') : s'.initialization = true → Inv s' := by
  intro hinit'
  have hinit := initialization_of_step h hinit'
  have hinv := hs hinit
  have hund := hok hinit
  cases a with
  | setStatus | elapse =>
    cases h
    exact ⟨hinv.le_generation, hinv.recorded, hinv.reconciling, hinv.started, hinv.passing⟩
  | ping =>
    cases h
    exact hinv.ping hund
  | otherLoad l w =>
    cases h
    exact hinv.mark l _
  | beginReconcile connected =>
    simp only [step] at h
    split at h
    · cases h
    · split at h
      · cases h
        exact hinv.beginReconcile
      · cases h
        exact hinv
  | reconcileLoad w =>
    simp only [step] at h
    split at h
    · next l ls hrec =>
      cases h
      rw [hund l ls hrec]
      exact hinv.reconcileLoad hrec
    · cases h
  | endReconcile =>
    simp only [step] at h
    split at h
    · next hrec =>
      cases h
      exact hinv.endReconcile hrec
    · cases h
  | beginPass changes =>
    simp only [step] at h
    split at h
    · cases h
    · cases h
      exact hinv.beginPass hinit hund
  | branch w =>
    simp only [step] at h
    split at h
    · next p hp =>
      split at h
      · next b bs hrem =>
        cases h
        obtain ⟨hopen, hmounts, hknowledge⟩ := hund p b bs hp hrem
        exact hinv.takeBranch hp hrem hopen hmounts hknowledge
      · cases h
    · cases h
  | endPass =>
    simp only [step] at h
    split at h
    · split at h
      · cases h
        have hno := hinv.noPass
        exact ⟨hno.le_generation, hno.recorded, hno.reconciling, hno.started, hno.passing⟩
      · cases h
    · cases h
  | timeout =>
    simp only [step] at h
    split at h
    · cases h
      exact hinv.noPass
    · cases h

theorem endPass_of_initialization (h : step s a = some s')
    (hon : s.initialization = true) (hoff : s'.initialization = false) :
    ∃ p, s.pass = some p ∧ p.remaining = [] ∧ p.error = false ∧ s'.loaded = s.loaded := by
  obtain heq | ⟨p, hp, hrem, heq, hloaded⟩ := step_initialization h
  · exact absurd (hoff.symm.trans (heq.trans hon)) Bool.noConfusion
  · exact ⟨p, hp, hrem, by simpa [hon, hoff] using heq.symm, hloaded⟩

/-- **Initialization ends after every load.** In every run whose steps during initialization are
undisturbed, the step that ends it finds every load made in the current connect generation. -/
theorem initialization_loaded (as : List Action) (a : Action)
    (hok : Machine.Along step Steady State.init as)
    (hrun : Machine.run step State.init as = some s) (hstep : step s a = some s')
    (hon : s.initialization = true) (hoff : s'.initialization = false) (l : Load) :
    s'.loaded l = true := by
  have hinv : s.initialization = true → Inv s :=
    Machine.invariant_run (fun _ _ _ hs hok h => inv_step hs hok h) hok (fun _ => inv_init) hrun
  obtain ⟨p, hp, hrem, herr, hloaded⟩ := endPass_of_initialization hstep hon hoff
  rw [hloaded]
  exact ((hinv hon).passing p hp herr l).resolve_left (by simp [hrem])

end Preservation

def quiet : Changes := fun _ => some false

/-- A reconnect and a pass with all its reloads. -/
def firstPass : List Action :=
  [.ping, .beginPass quiet] ++ (List.replicate 6 (World.steady true)).map .branch

theorem firstPass_steady : Machine.Along step Steady State.init firstPass := by
  have hbranch (s : State) (hskip : s.shouldSkipInitReload = false) :
      Steady s (.branch (.steady true)) :=
    fun _ _ _ _ _ _ => ⟨fun _ _ => rfl, fun _ => rfl, fun _ => hskip⟩
  refine ⟨fun _ _ => ⟨rfl, rfl⟩, fun s hs => ?_⟩
  cases hs
  refine ⟨fun _ _ _ => rfl, fun s hs => ?_⟩
  cases hs
  repeat
    refine ⟨hbranch _ rfl, fun s hs => ?_⟩
    cases hs
  trivial

theorem initialization_loaded_firstPass :
    ∃ s s', Machine.run step State.init firstPass = some s ∧ step s .endPass = some s' ∧
      s.initialization = true ∧ s'.initialization = false ∧ ∀ l, s'.loaded l = true :=
  ⟨_, _, rfl, rfl, rfl, rfl,
    initialization_loaded firstPass .endPass firstPass_steady rfl rfl rfl rfl⟩

/-- A controller that answers every request with an error. -/
def failing : World := { World.steady true with answer _ := .failed }

/-- A reconcile with its five loads. -/
def reconcileAll (w : World) : List Action :=
  [.beginReconcile true] ++ (List.replicate 5 w).map .reconcileLoad ++ [.endReconcile]

/-- The pass after such a reconcile ends initialization with these loads. -/
def EndsWith (w : World) (loaded : Load → Bool) : Prop :=
  ∃ s s', Machine.run step State.init ([.ping] ++ reconcileAll w ++ [.beginPass quiet] ++
      (List.replicate 6 (World.steady true)).map .branch) = some s ∧
    step s .endPass = some s' ∧ s.initialization = true ∧ s'.initialization = false ∧
    s'.loaded = loaded

/-- A reconcile all of whose loads have failed makes the next pass leave out every reload, so that
initialization ends with nothing loaded; after one whose loads have succeeded it ends without the
knowledge. -/
theorem reconcile_ends_initialization :
    EndsWith failing (fun _ => false) ∧ EndsWith (.steady true) (· != .knowledge) := by
  refine ⟨⟨_, _, rfl, rfl, rfl, rfl, ?_⟩, _, _, rfl, rfl, rfl, rfl, ?_⟩ <;>
    funext l <;> cases l <;> rfl

end Initialization

end Edgelet.FieldAgent
