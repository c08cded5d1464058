import Edgelet.Lexical.Text
import Edgelet.Machine.Run

/-!
# A switch of the container engine

When the configuration names another kind of engine, reconcile is paused until the daemon is
restarted, and what the database knows of the old engine is cleared. A drain of the data plane
pauses reconcile by the same flag, and what resumes after it looks at the flag of the drain only.
Calls that handle a change come one after another; they test and set two flags, before a cleanup
that may fail.

Every access to a flag and every statement is one step. Containers and other writers of the database
are left out.
-/

namespace Edgelet.Supervisor.Switch

open Lexical Machine

/-! ## The database -/

structure RuntimeContainerRef where
  msUUID : Str
  scope : Str
  workloadID : Str
  sandboxID : Str

structure ControllerRuntime where
  uuid : Str
  containerID : Str
  containerIP : Option Str
  isStuckInRestart : Bool
  isUpdating : Bool

structure LocalRuntime where
  localUUID : Str
  containerID : Str
  state : Str
  runtimeState : Str
  lastError : Str
  restartCount : ℤ
  lastTransitionAt : ℤ
  lastReconcileAt : ℤ
  lastStartAttemptAt : ℤ
  failureCount : ℤ

/-- The tables, with the `container_id` of the row of `system_control_plane`; `conn` says that the
database is open. -/
structure Database where
  conn : Bool
  refs : List RuntimeContainerRef
  microservices : List ControllerRuntime
  workloads : List LocalRuntime
  controlPlane : Option Str

/-- A statement on the database; when that is closed, it is left out without an error. -/
def exec (what : String) (update : Database → Database) (db : Database) (error : Option Str) :
    Database × Option Str :=
  if db.conn = false then (db, none)
  else
    match error with
    | none => (update db, none)
    | some e => (db, some (what.toList ++ e))

def clearRuntimeContainerRefs (scope : Str) : Database → Option Str → Database × Option Str :=
  exec "clear runtime_container_refs: " fun d =>
    { d with refs := if scope = [] then [] else d.refs.filter (·.scope ≠ scope) }

def clearControllerMicroserviceRuntimeFields : Database → Option Str → Database × Option Str :=
  exec "clear controller microservice runtime fields: " fun d =>
    { d with microservices := d.microservices.map fun r =>
        { r with containerID := [], containerIP := none, isStuckInRestart := false
                 isUpdating := false } }

def clearLocalWorkloadRuntimeFields : Database → Option Str → Database × Option Str :=
  exec "clear local workload runtime fields: " fun d =>
    { d with workloads := d.workloads.map fun r =>
        { r with containerID := [], state := "unknown".toList, runtimeState := "unknown".toList
                 lastError := [], restartCount := 0, lastTransitionAt := 0, lastReconcileAt := 0
                 lastStartAttemptAt := 0, failureCount := 0 } }

inductive Clear
  | refs
  | microservices
  | workloads

namespace Clear

def exec : Clear → Database → Option Str → Database × Option Str
  | .refs => clearRuntimeContainerRefs []
  | .microservices => clearControllerMicroserviceRuntimeFields
  | .workloads => clearLocalWorkloadRuntimeFields

def next : Clear → Option Clear
  | .refs => some .microservices
  | .microservices => some .workloads
  | .workloads => none

/-- What the statement is to achieve. -/
def Done (d : Database) : Clear → Prop
  | .refs => d.refs = []
  | .microservices => ∀ r ∈ d.microservices, r.containerID = []
  | .workloads => ∀ r ∈ d.workloads, r.containerID = []

def before : Clear → List Clear
  | .refs => []
  | .microservices => [.refs]
  | .workloads => [.refs, .microservices]

end Clear

/-- No table names a container, that of the control plane included. -/
def NoContainers (db : Database) : Prop := (∀ k, Clear.Done db k) ∧ ∀ id ∈ db.controlPlane, id = []

/-! ## The calls -/

inductive ColdStep
  | test
  /-- Models `PendingRestart`, when reconcile is paused. -/
  | testPending
  /-- Models `SetQuiesced(true)` of a call that takes itself for a duplicate. -/
  | again
  | quiesce
  | mark
  /-- A statement of `CleanupForEngineSwitch`. -/
  | clear (k : Clear)
  | returning (error : Option Str)

inductive ResumeStep
  | test
  /-- Models `BeginQuiesceForDataPlaneDrain`, when the file is there. -/
  | pause
  | notReady
  | resume

/-- The flags, the database and the calls under way; and what the statements need to know, whether a
cleanup of this switch has completed, or else one has failed, and whether a switch has paused
reconcile. -/
structure State where
  quiesced : Bool
  quiescedForDataPlaneDrain : Bool
  pendingRestart : Bool
  engineReady : Bool
  db : Database
  cold : Option ColdStep
  resumes : List ResumeStep
  cleaned : Bool
  failed : Bool
  switched : Bool

namespace State

variable (s : State)

def setQuiesced (v : Bool) : State :=
  { s with quiesced := v
           quiescedForDataPlaneDrain := if v then s.quiescedForDataPlaneDrain else false }

def beginQuiesceForDataPlaneDrain : State :=
  { s with quiesced := true, quiescedForDataPlaneDrain := true }

def coldStep (processManager : Bool) (error : Option Str) : ColdStep → State
  | .test => { s with cold := some (if s.quiesced then .testPending else .quiesce) }
  | .testPending => { s with cold := some (if s.pendingRestart then .again else .quiesce) }
  | .again => { s.setQuiesced true with cold := some (.returning none), switched := true }
  | .quiesce => { s.setQuiesced true with cold := some .mark, switched := true }
  | .mark =>
    { s with pendingRestart := true
             cold := some (if processManager then .clear .refs else .returning none) }
  | .clear k =>
    match k.exec s.db error with
    | (db, some e) =>
      { s with db := db, cold := some (.returning (some e)), failed := !s.cleaned }
    | (db, none) =>
      match k.next with
      | some k => { s with db := db, cold := some (.clear k) }
      | none =>
        { s with db := db, cold := some (.returning none), cleaned := true, failed := false }
  | .returning _ => { s with cold := none }

def resumeStep (hold : Bool) : ResumeStep → State × Option ResumeStep
  | .test => (s, some (if hold then .pause else .resume))
  | .pause => (s.beginQuiesceForDataPlaneDrain, some .notReady)
  | .notReady => ({ s with engineReady := false }, none)
  | .resume =>
    if s.quiescedForDataPlaneDrain then
      ({ s with quiescedForDataPlaneDrain := false, quiesced := false, engineReady := true }, none)
    else (s, none)

def restarted : State where
  quiesced := false
  quiescedForDataPlaneDrain := false
  pendingRestart := false
  engineReady := false
  db := s.db
  cold := none
  resumes := []
  cleaned := false
  failed := false
  switched := false

/-- No switch is under way. -/
def noSwitch : State :=
  { s with pendingRestart := false, cold := none, cleaned := false, failed := false
           switched := false }

end State

inductive Event
  | handleColdEngineChange
  | cold (error : Option Str)
  | beginQuiesceForDataPlaneDrain
  | tryResume
  | resume (n : ℕ) (hold : Bool)
  | setQuiesced (v : Bool)
  | restart

def step (processManager : Bool) (s : State) : Event → Option State
  | .handleColdEngineChange =>
    match s.cold with
    | none => some { s with cold := some .test }
    | some _ => none
  | .cold error => s.cold.map (s.coldStep processManager error)
  | .beginQuiesceForDataPlaneDrain => some s.beginQuiesceForDataPlaneDrain
  | .tryResume => some { s with resumes := s.resumes ++ [.test] }
  | .resume n hold =>
    s.resumes[n]?.map fun r =>
      let (s', r') := s.resumeStep hold r
      { s' with resumes := replaceAt s.resumes n r' }
  | .setQuiesced v => some { s.setQuiesced v with switched := s.switched && v }
  | .restart => some s.restarted

/-! ## The cleanup -/

namespace Clear

variable {k j : Clear} {db : Database} {error : Option Str}

theorem exec_cases (k : Clear) (db : Database) (error : Option Str) (hopen : db.conn = true) :
    (k.exec db error).1.conn = true ∧ (k.exec db error).1.controlPlane = db.controlPlane ∧
      (∀ j, Done db j → Done (k.exec db error).1 j) ∧
      ((k.exec db error).2 = none → Done (k.exec db error).1 k) := by
  cases k with
  | refs | microservices | workloads =>
    simp only [exec, clearRuntimeContainerRefs, clearControllerMicroserviceRuntimeFields,
      clearLocalWorkloadRuntimeFields, Switch.exec, hopen, Bool.true_eq_false, if_false]
    cases error with
    | none =>
      refine ⟨rfl, rfl, fun j hj => ?_, fun _ => by simp [Done]⟩
      cases j with
      | refs | microservices | workloads => simp_all [Done]
    | some e => exact ⟨hopen, rfl, fun j hj => hj, nofun⟩

theorem exec_none (k : Clear) (db : Database) : (k.exec db none).2 = none := by
  cases k with
  | refs | microservices | workloads => cases hconn : db.conn <;>
      simp [exec, clearRuntimeContainerRefs, clearControllerMicroserviceRuntimeFields,
        clearLocalWorkloadRuntimeFields, Switch.exec, hconn]

theorem mem_before_of_next {k' : Clear} (h : k.next = some k') (hj : j ∈ k'.before) :
    j ∈ k.before ∨ j = k := by
  cases k <;> cases h <;> simp_all [before]

theorem mem_before_of_last (h : k.next = none) (j : Clear) : j ∈ k.before ∨ j = k := by
  cases k <;> cases h
  cases j <;> simp [before]

end Clear

/-! ## Acknowledged switches -/

/-- **A switch is acknowledged after its cleanup**: when a call returns without an error, a cleanup
of the switch has completed, and no container is left in the database. -/
def Acknowledged (s : State) : Prop :=
  s.cold = some (.returning none) → s.cleaned = true ∧ NoContainers s.db

/-- No call that takes itself for a duplicate comes after a cleanup that has failed. -/
def NotAfterFailure (s : State) (a : Event) : Prop :=
  ∀ error, a = .cold error → s.cold = some .again → s.failed = false

/-- No statement of a cleanup fails. -/
def Succeeds (s : State) : Event → Prop
  | .cold (some _) => ∀ k, s.cold ≠ some (.clear k)
  | _ => True

/-- **The invariant**: where a restart is pending, a cleanup is under way, has completed or has
failed. -/
structure Cleaning (s : State) : Prop where
  acknowledged : Acknowledged s
  conn : s.db.conn = true
  controlPlane : ∀ id ∈ s.db.controlPlane, id = []
  cleaned : s.cleaned = true → s.failed = false ∧ ∀ k, Clear.Done s.db k
  clearing : ∀ k, s.cold = some (.clear k) → ∀ j ∈ k.before, Clear.Done s.db j
  pending : s.pendingRestart = true →
    (∃ k, s.cold = some (.clear k)) ∨ s.cleaned = true ∨ s.failed = true
  again : s.cold = some .again → s.cleaned = true ∨ s.failed = true

variable {s s' : State}

theorem Cleaning.of_eq (h : Cleaning s) (hcold : s'.cold = s.cold)
    (hcleaned : s'.cleaned = s.cleaned) (hfailed : s'.failed = s.failed) (hdb : s'.db = s.db)
    (hpending : s'.pendingRestart = s.pendingRestart) : Cleaning s' := by
  obtain ⟨hack, hconn, hcp, hclean, hclear, hpend, hagain⟩ := h
  constructor <;> simp only [Acknowledged, hcold, hcleaned, hfailed, hdb, hpending] <;> assumption

theorem cleaning_clear (h : Cleaning s) {k : Clear} (hk : s.cold = some (.clear k))
    (error : Option Str) : Cleaning (s.coldStep true error (.clear k)) := by
  obtain ⟨hconn, hcp, hkept, hown⟩ := Clear.exec_cases k s.db error h.conn
  have hcp' : ∀ id ∈ (k.exec s.db error).1.controlPlane, id = [] := hcp ▸ h.controlPlane
  have hbefore : ∀ j ∈ k.before, Clear.Done (k.exec s.db error).1 j := fun j hj =>
    hkept j (h.clearing k hk j hj)
  simp only [State.coldStep]
  split
  case h_1 db e hexec =>
    rw [hexec] at hconn hcp' hkept
    refine ⟨nofun, hconn, hcp', fun hc => ⟨?_, fun j => hkept j ((h.cleaned hc).2 j)⟩, nofun,
      fun _ => .inr ?_, nofun⟩
    · rw [hc]
      rfl
    · cases s.cleaned with
      | true => exact .inl rfl
      | false => exact .inr rfl
  case h_2 db hexec =>
    rw [hexec] at hconn hcp' hkept hbefore hown
    have hdone : ∀ j, j ∈ k.before ∨ j = k → Clear.Done db j := by
      rintro j (hj | rfl)
      · exact hbefore j hj
      · exact hown rfl
    split
    case h_1 k' hnext =>
      refine ⟨nofun, hconn, hcp',
        fun hc => ⟨(h.cleaned hc).1, fun j => hkept j ((h.cleaned hc).2 j)⟩, ?_,
        fun _ => .inl ⟨k', rfl⟩, nofun⟩
      rintro k'' ⟨⟩ j hj
      exact hdone j (Clear.mem_before_of_next hnext hj)
    case h_2 hnext =>
      have hall : ∀ j, Clear.Done db j := fun j => hdone j (Clear.mem_before_of_last hnext j)
      exact ⟨fun _ => ⟨rfl, hall, hcp'⟩, hconn, hcp', fun _ => ⟨rfl, hall⟩, nofun,
        fun _ => .inr (.inl rfl), nofun⟩

/-- **A step of a call keeps the invariant**, when a duplicate does not come after a failure. -/
theorem cleaning_coldStep (h : Cleaning s) {c : ColdStep} (hc : s.cold = some c)
    (error : Option Str) (hagain : c = .again → s.failed = false) :
    Cleaning (s.coldStep true error c) := by
  have hpending : (∀ k, c ≠ .clear k) → s.pendingRestart = true →
      s.cleaned = true ∨ s.failed = true := by
    intro hne hp
    rcases h.pending hp with ⟨k, hk⟩ | hdone
    · exact absurd (Option.some.inj (hc.symm.trans hk)) (hne k)
    · exact hdone
  cases c with
  | test =>
    refine ⟨?_, h.conn, h.controlPlane, h.cleaned, ?_, fun hp => .inr (hpending nofun hp), ?_⟩
    all_goals simp only [Acknowledged, State.coldStep]; split <;> nofun
  | testPending =>
    refine ⟨?_, h.conn, h.controlPlane, h.cleaned, ?_, fun hp => .inr (hpending nofun hp), ?_⟩
    · simp only [Acknowledged, State.coldStep]
      split <;> nofun
    · simp only [State.coldStep]
      split <;> nofun
    · intro hnext
      refine hpending nofun ?_
      by_contra hp
      simp [State.coldStep, hp] at hnext
  | again =>
    have hcleaned : s.cleaned = true := by
      rcases h.again hc with hcleaned | hfailed
      · exact hcleaned
      · exact absurd hfailed (by simp [hagain rfl])
    exact ⟨fun _ => ⟨hcleaned, (h.cleaned hcleaned).2, h.controlPlane⟩, h.conn, h.controlPlane,
      h.cleaned, nofun, fun _ => .inr (.inl hcleaned), nofun⟩
  | quiesce | returning e =>
    exact ⟨nofun, h.conn, h.controlPlane, h.cleaned, nofun, fun hp => .inr (hpending nofun hp),
      nofun⟩
  | mark =>
    refine ⟨nofun, h.conn, h.controlPlane, h.cleaned, ?_, fun _ => .inl ⟨.refs, rfl⟩, nofun⟩
    rintro k ⟨⟩ j ⟨⟩
  | clear k => exact cleaning_clear h hc error

theorem cleaning_step {a : Event} (h : Cleaning s) (hok : NotAfterFailure s a)
    (hstep : step true s a = some s') : Cleaning s' := by
  cases a with
  | handleColdEngineChange =>
    simp only [step] at hstep
    split at hstep
    next hcold =>
      cases hstep
      refine ⟨nofun, h.conn, h.controlPlane, h.cleaned, nofun, fun hp => ?_, nofun⟩
      rcases h.pending hp with ⟨k, hk⟩ | hdone
      · rw [hcold] at hk
        cases hk
      · exact .inr hdone
    next => cases hstep
  | cold error =>
    obtain ⟨c, hc, rfl⟩ := Option.map_eq_some_iff.mp hstep
    exact cleaning_coldStep h hc error fun he => hok error rfl (he ▸ hc)
  | beginQuiesceForDataPlaneDrain | tryResume | setQuiesced v =>
    cases hstep
    exact h.of_eq rfl rfl rfl rfl rfl
  | resume n hold =>
    obtain ⟨r, -, rfl⟩ := Option.map_eq_some_iff.mp hstep
    cases r with
    | test | pause | notReady => exact h.of_eq rfl rfl rfl rfl rfl
    | resume =>
      refine h.of_eq ?_ ?_ ?_ ?_ ?_
      all_goals simp only [State.resumeStep]; split <;> rfl
  | restart =>
    cases hstep
    exact ⟨nofun, h.conn, h.controlPlane, nofun, nofun, nofun, nofun⟩

/-- **Which runs acknowledge a switch only after its cleanup.** With an open database in which the
control plane has no container, a call that returns without an error comes, in every state of a run,
after a completed cleanup of the switch, exactly when no call takes itself for a duplicate after a
cleanup that has failed. -/
theorem acknowledged_iff (s : State) (evs : List Event) (hopen : s.db.conn = true)
    (hcontrolPlane : ∀ id ∈ s.db.controlPlane, id = []) :
    Throughout (step true) Acknowledged s.noSwitch evs ↔
      Along (step true) NotAfterFailure s.noSwitch evs := by
  refine throughout_iff_along (fun s (h : Cleaning s) => h.acknowledged)
    (fun s a s' h hok hstep => cleaning_step h hok hstep) ?_
    ⟨nofun, hopen, hcontrolPlane, nofun, nofun, nofun, nofun⟩
  rintro s a hs hack error rfl hagain
  have hnext := hack _ (by rw [step, hagain]; rfl)
  exact (hs.cleaned (hnext rfl).1).1

/-- A run in which no statement of a cleanup fails has no such duplicate. -/
theorem notAfterFailure_of_succeeds (s : State) (evs : List Event)
    (h : Along (step true) Succeeds s.noSwitch evs) :
    Along (step true) NotAfterFailure s.noSwitch evs := by
  refine along_of_along (fun s a s' hs hok hstep => ?_)
    (fun s a (hs : s.failed = false) _ _ _ _ => hs) rfl h
  cases a with
  | cold error =>
    obtain ⟨c, hc, rfl⟩ := Option.map_eq_some_iff.mp hstep
    cases c with
    | clear k =>
      have hnone := Clear.exec_none k s.db
      obtain rfl : error = none := by
        cases error with
        | none => rfl
        | some e => exact absurd hc (hok k)
      simp only [State.coldStep]
      split
      case h_1 hexec =>
        rw [hexec] at hnone
        cases hnone
      case h_2 =>
        split
        · exact hs
        · rfl
    | _ => exact hs
  | handleColdEngineChange =>
    simp only [step] at hstep
    split at hstep
    · cases hstep
      exact hs
    · cases hstep
  | resume n hold =>
    obtain ⟨r, -, rfl⟩ := Option.map_eq_some_iff.mp hstep
    cases r with
    | resume =>
      simp only [State.resumeStep]
      split <;> exact hs
    | _ => exact hs
  | restart =>
    cases hstep
    rfl
  | _ =>
    cases hstep
    exact hs

def started (db : Database) : State :=
  ⟨false, false, false, true, db, none, [], false, false, false⟩

def running : LocalRuntime where
  localUUID := "w".toList
  containerID := "docker-1".toList
  state := "running".toList
  runtimeState := "running".toList
  lastError := []
  restartCount := 0
  lastTransitionAt := 0
  lastReconcileAt := 0
  lastStartAttemptAt := 0
  failureCount := 0

/-- A call whose statements succeed, up to its return. -/
def oneCall : List Event := .handleColdEngineChange :: List.replicate 6 (.cold none)

/-- Two calls, of which the second is a duplicate of the first. -/
theorem duplicate_acknowledged :
    let s := started ⟨true, [], [], [running], some []⟩
    let evs := oneCall ++ .cold none :: .handleColdEngineChange :: List.replicate 3 (.cold none)
    Throughout (step true) Acknowledged s.noSwitch evs ∧
      ∃ s', run (step true) s.noSwitch evs = some s' ∧ s'.cold = some (.returning none) :=
  ⟨(acknowledged_iff _ _ rfl (by simp [started])).mpr
    (notAfterFailure_of_succeeds _ _ (by simp [Along, Succeeds, oneCall])), _, rfl, rfl⟩

/-- **Acknowledged without a cleanup.** The first call fails in its cleanup; the second one finds
the flags that the first one has set and returns without an error. No cleanup clears the container
of the control plane, or a database that is closed. -/
theorem acknowledged_uncleaned :
    (∃ s, run (step true) (started ⟨true, [], [], [running], none⟩).noSwitch
        [.handleColdEngineChange, .cold none, .cold none, .cold none, .cold (some "locked".toList),
          .cold none, .handleColdEngineChange, .cold none, .cold none, .cold none] = some s ∧
      s.cold = some (.returning none) ∧ s.cleaned = false ∧ ¬ NoContainers s.db) ∧
    (∃ s, run (step true) (started ⟨true, [], [], [], some "docker-2".toList⟩).noSwitch oneCall =
        some s ∧ s.cold = some (.returning none) ∧ ¬ NoContainers s.db) ∧
    ∃ s, run (step true) (started ⟨false, [], [], [running], none⟩).noSwitch oneCall = some s ∧
      s.cold = some (.returning none) ∧ ¬ NoContainers s.db := by
  have hrunning : ¬ ∀ r ∈ [running], r.containerID = [] := by decide
  refine ⟨⟨_, rfl, rfl, rfl, ?_⟩, ⟨_, rfl, rfl, ?_⟩, _, rfl, rfl, ?_⟩
  · exact fun h => hrunning (h.1 .workloads)
  · exact fun h => absurd (h.2 _ rfl) (by decide)
  · exact fun h => hrunning (h.1 .workloads)

/-! ## The pause -/

/-- **The pause of a switch is sticky**: reconcile is paused once a switch has paused it. -/
def Sticky (s : State) : Prop := s.switched = true → s.quiesced = true

/-- No drain is over while a switch is under way: what resumes finds that the data plane is not
being drained. -/
def NoDrainEnds (s : State) (a : Event) : Prop :=
  ∀ n hold, a = .resume n hold → s.resumes[n]? = some .resume → s.switched = true →
    s.quiescedForDataPlaneDrain = false

theorem sticky_coldStep (h : Sticky s) (processManager : Bool) (error : Option Str)
    (c : ColdStep) : Sticky (s.coldStep processManager error c) := by
  cases c with
  | again | quiesce => exact fun _ => rfl
  | clear k =>
    simp only [State.coldStep]
    split
    · exact h
    · split <;> exact h
  | _ => exact h

theorem sticky_step {processManager : Bool} {s s' : State} {a : Event} (h : Sticky s)
    (hok : NoDrainEnds s a) (hstep : step processManager s a = some s') : Sticky s' := by
  cases a with
  | handleColdEngineChange =>
    simp only [step] at hstep
    split at hstep
    · cases hstep
      exact h
    · cases hstep
  | cold error =>
    obtain ⟨c, -, rfl⟩ := Option.map_eq_some_iff.mp hstep
    exact sticky_coldStep h processManager error c
  | beginQuiesceForDataPlaneDrain =>
    cases hstep
    exact fun _ => rfl
  | tryResume =>
    cases hstep
    exact h
  | resume n hold =>
    obtain ⟨r, hr, rfl⟩ := Option.map_eq_some_iff.mp hstep
    cases r with
    | test | notReady => exact h
    | pause => exact fun _ => rfl
    | resume =>
      intro hswitched
      simp only [State.resumeStep] at hswitched ⊢
      split at hswitched
      case isTrue hdrain => exact absurd (hok n hold rfl hr hswitched) (by simp [hdrain])
      case isFalse hdrain =>
        rw [if_neg hdrain]
        exact h hswitched
  | setQuiesced v =>
    cases hstep
    intro hswitched
    exact (Bool.and_eq_true_iff.mp hswitched).2
  | restart =>
    cases hstep
    intro hswitched
    cases hswitched

/-- **In which runs the pause is sticky.** In every state of a run reconcile is paused once a switch
has paused it, until it is resumed on purpose or the daemon restarts, exactly when no call that
resumes after a drain finds, with the file gone, that the data plane is being drained. -/
theorem sticky_iff (processManager : Bool) (s : State) (evs : List Event) :
    Throughout (step processManager) Sticky s.noSwitch evs ↔
      Along (step processManager) NoDrainEnds s.noSwitch evs := by
  refine throughout_iff_along (fun s (h : Sticky s) => h)
    (fun s a s' h hok hstep => sticky_step h hok hstep) ?_ fun hc => by cases hc
  rintro s a - hsticky n hold rfl hr hswitched
  by_contra hdrain
  rw [Bool.not_eq_false] at hdrain
  have hnext := hsticky _ (by rw [step, hr]; rfl)
  simp only [State.resumeStep, hdrain, if_true] at hnext
  exact absurd (hnext hswitched) (by simp)

/-- A drain pauses reconcile, a switch pauses it too, and the end of the drain resumes it. -/
theorem drain_resumes_switch :
    let evs : List Event :=
      [.beginQuiesceForDataPlaneDrain, .handleColdEngineChange, .cold none, .cold none, .cold none,
        .cold none, .tryResume, .resume 0 false, .resume 0 false]
    ∃ s, run (step true) (started ⟨true, [], [], [], none⟩).noSwitch evs = some s ∧
      s.switched = true ∧ s.pendingRestart = true ∧ s.quiesced = false ∧
      ¬ Throughout (step true) Sticky (started ⟨true, [], [], [], none⟩).noSwitch evs := by
  refine ⟨_, rfl, rfl, rfl, rfl, fun h => ?_⟩
  have hpaused : false = true := h _ List.prefix_rfl _ rfl rfl
  cases hpaused

end Edgelet.Supervisor.Switch
