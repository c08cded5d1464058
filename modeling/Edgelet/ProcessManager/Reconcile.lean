import Edgelet.ProcessManager.Window
import Mathlib.Logic.Relation

/-!
# One microservice in a reconcile pass

A reconcile pass decides for each of the latest microservices whether a task is due. What the
engine, the catalogs, the status reporter and the host answer during one visit is a parameter
(`Answers`); the restart checker, the microservice object and the task to queue come back as a
`Verdict`.
-/

namespace Edgelet.ProcessManager

open Lexical Keyed

inductive MicroserviceState
  | queued | pulling | creating | created | starting | running | updating | restarting
  | exiting | stuckInRestart | failed | markedForDeletion | deleting | deleted | stopping
  | stopped | unknown
  deriving DecidableEq

structure Microservice where
  microserviceUUID : Str
  imageName : Str
  schedule : ℤ
  rebuild : Bool
  delete : Bool
  deleteWithCleanup : Bool
  isStuckInRestart : Bool
  isUpdating : Bool
  hasCatalogItems : Bool

structure ReportedStatus where
  status : MicroserviceState
  /-- The message names a runtime reason after which the container cannot be restarted. -/
  nonRestartable : Bool
  volumeWait : Bool

inductive CatalogGate
  | ready
  | wait
  | fail
  | error
  deriving DecidableEq

inductive StartResult
  | ok
  | nonRestartable
  | failed

structure Answers where
  present : Bool
  reported : Option ReportedStatus
  catalogGate : CatalogGate
  mountChanged : Bool
  /-- The status the engine tells, `none` on an error. -/
  status : Option ReportedStatus
  volumeHeld : Bool
  volumeHeldAgain : Bool
  start : StartResult
  graceElapsed : Bool
  equal : Bool

structure Verdict where
  checker : RestartStuckChecker
  ms : Microservice
  task : Option ContainerTask

section Visit

variable (c : RestartStuckChecker) (now : ℕ) (ms : Microservice)

def recreateSkipReason : RestartStuckChecker × RecreateSkip :=
  if ms.rebuild then
    (c, if c.rebuildSkipAvailable ms.microserviceUUID then .rebuild else .none)
  else
    let c := c.noteRebuildCleared ms.microserviceUUID
    match c.consumeCatalogReadySkip ms.microserviceUUID with
    | (c, true) => (c, .catalogReady)
    | (c, false) => (c, .none)

def crashDrivenMissing : Option ReportedStatus → Bool
  | none => false
  | some st =>
    st.status != .queued && st.status != .unknown && st.status != .deleted &&
      st.status != .markedForDeletion

variable (st : Option ReportedStatus) (uuid : Str)

def volumeWaitActive : Bool := (st.map (·.volumeWait)).getD false

def shouldForceRecreateFromStatus : Bool :=
  (st.map (·.nonRestartable)).getD false

def syncRuntimeStatus (st : ReportedStatus) (graceElapsed : Bool) : RestartStuckChecker :=
  if st.status = .running ∧ graceElapsed = true then c.resetBackoff uuid else c

def consumeRebuildSkip (skip : RecreateSkip) : RestartStuckChecker :=
  if skip = .rebuild then c.consumeRebuildSkip uuid else c

section

variable (skip : RecreateSkip) (st : ReportedStatus) (a : Answers)

def nonRestartableSkip : RecreateSkip :=
  if skip = .none then .nonRestartable else skip

/-- The queueing half of a visit that found no container: image delay, restart delay, and
then the ADD task with the flag raised (`addMicroservice`). -/
def addMissing : Verdict :=
  let uuid := ms.microserviceUUID
  let pull := c.pullReady now uuid ms.imageName skip
  if pull.2 = false then ⟨pull.1, ms, none⟩
  else
    let ready := pull.1.ready now uuid skip
    if ready.2 = false then ⟨ready.1, ms, none⟩
    else
      ⟨consumeRebuildSkip ready.1 uuid skip,
        { ms with isStuckInRestart := false, isUpdating := true },
        some (newContainerTask .add uuid)⟩

def recordRestart : RestartStuckChecker :=
  if ms.rebuild then c else c.recordIfNew now ms.microserviceUUID

/-- A container that went missing is recorded as a crash, unless the recreate was asked for or
the volume has just been released. -/
def recordMissing (reported : Option ReportedStatus) : RestartStuckChecker :=
  if crashDrivenMissing reported = true ∧ volumeWaitActive reported = false then
    recordRestart c now ms
  else c

def isStuck : Bool := ms.isStuckInRestart && !ms.rebuild

def unstick : Microservice :=
  if isStuck ms then { ms with isStuckInRestart := false } else ms

def reconcileMissing : Verdict :=
  let uuid := ms.microserviceUUID
  if ms.hasCatalogItems = true ∧ a.catalogGate ≠ .ready then
    ⟨if a.catalogGate = .wait then c.markCatalogWaiting uuid else c, ms, none⟩
  else
    let skipped := recreateSkipReason c ms
    if isStuck ms = true ∧ shouldForceRecreateFromStatus a.reported = false then
      ⟨skipped.1, ms, none⟩
    else if a.reported.map (·.status) = some .failed ∧ ms.rebuild = false ∧
        ms.hasCatalogItems = false then
      ⟨skipped.1, unstick ms, none⟩
    else if a.volumeHeld then ⟨skipped.1, unstick ms, none⟩
    else
      addMissing (recordMissing skipped.1 now ms a.reported) now (unstick ms)
        (if isStuck ms then nonRestartableSkip skipped.2 else skipped.2)

def recreateTerminal (graceElapsed volumeHeld : Bool) : Verdict :=
  let uuid := ms.microserviceUUID
  let ready := c.ready now uuid (nonRestartableSkip skip)
  if ready.2 = false then ⟨syncRuntimeStatus ready.1 uuid st graceElapsed, ms, none⟩
  else if volumeHeld then ⟨syncRuntimeStatus ready.1 uuid st graceElapsed, ms, none⟩
  else
    ⟨ready.1, { ms with isStuckInRestart := false, isUpdating := true },
      some (newContainerTask .update uuid)⟩

def startCreated : Verdict :=
  let uuid := ms.microserviceUUID
  let ready := c.ready now uuid skip
  if ready.2 = false then ⟨syncRuntimeStatus ready.1 uuid st a.graceElapsed, ms, none⟩
  else if a.volumeHeld then ⟨syncRuntimeStatus ready.1 uuid st a.graceElapsed, ms, none⟩
  else
    match a.start with
    | .ok => ⟨ready.1, ms, none⟩
    | .nonRestartable =>
      recreateTerminal (ready.1.recordFailedStart now uuid) now ms skip st a.graceElapsed
        a.volumeHeldAgain
    | .failed =>
      let c := ready.1.recordFailedStart now uuid
      ⟨c,
        { ms with
          isStuckInRestart := ms.isStuckInRestart || c.isStuckInContainerCreation now uuid },
        none⟩

def shouldContainerBeUpdated (equal : Bool) : Bool :=
  if ms.isUpdating then false
  else if ms.rebuild then true
  else if st.status = .queued ∨ st.status = .updating ∨ st.status = .stuckInRestart then false
  else st.status != .running || !equal

/-- The queueing half of `updateMicroservice`. A running container is replaced without a
look at the restart delay, and so is one whose volume has just been released. The flag of
the object stays as it is. -/
def queueUpdate (released : Bool) : Verdict :=
  let uuid := ms.microserviceUUID
  let skipped := recreateSkipReason c ms
  let pull := skipped.1.pullReady now uuid ms.imageName skipped.2
  if pull.2 = false then ⟨pull.1, ms, none⟩
  else if st.status ≠ .running ∧ released = false then
    let c := recordRestart pull.1 now ms
    if ms.rebuild = true ∧ skipped.2 = .rebuild then
      ⟨consumeRebuildSkip c uuid skipped.2, ms, some (newContainerTask .update uuid)⟩
    else
      let ready := c.ready now uuid skipped.2
      if ready.2 = false then ⟨ready.1, ms, none⟩
      else
        ⟨consumeRebuildSkip ready.1 uuid skipped.2, ms, some (newContainerTask .update uuid)⟩
  else ⟨consumeRebuildSkip pull.1 uuid skipped.2, ms, some (newContainerTask .update uuid)⟩

def Microservice.clearStuck : Microservice :=
  { ms with isStuckInRestart := false }

def updateMicroservice : Verdict :=
  if shouldContainerBeUpdated ms st a.equal = false then
    ⟨if st.status = .running then c.clearPullWait ms.microserviceUUID else c, ms, none⟩
  else if st.status ≠ .running ∧ a.volumeHeld = true then ⟨c, ms, none⟩
  else
    queueUpdate c now ms.clearStuck st (volumeWaitActive a.reported)

def refreshCatalogProjection : Microservice :=
  if a.mountChanged then { ms with rebuild := true } else ms

def observeExit : RestartStuckChecker × Microservice × ReportedStatus :=
  if st.status = .exiting then
    let c := recordRestart c now ms
    if c.isStuck now ms.microserviceUUID then
      (c, { ms with isStuckInRestart := true }, { st with status := .stuckInRestart })
    else (c, ms, st)
  else (c, ms, st)

def reconcileExisting : Verdict :=
  let uuid := ms.microserviceUUID
  if ms.isStuckInRestart = true ∧ ms.rebuild = false then ⟨c, ms, none⟩
  else
    let ms := refreshCatalogProjection ms a
    match a.status with
    | none => ⟨c, ms, none⟩
    | some st =>
      let c := if st.status = .running then c.observeRunning uuid else c
      let skipped := recreateSkipReason c ms
      if st.nonRestartable then
        recreateTerminal (recordRestart skipped.1 now ms) now ms skipped.2 st a.graceElapsed
          a.volumeHeld
      else if st.status = .created then startCreated skipped.1 now ms skipped.2 st a
      else
        let seen := observeExit skipped.1 now ms st
        let c := syncRuntimeStatus seen.1 uuid seen.2.2 a.graceElapsed
        updateMicroservice c now seen.2.1 seen.2.2 a

def deleteMicroservice : ContainerTask :=
  newContainerTask (if ms.deleteWithCleanup then .removeWithCleanUp else .remove)
    ms.microserviceUUID

/-- **The decision about one microservice**: the body of the loop in
`reconcileControllerMicroservices`, after the in-flight check and the container lookup. -/
def reconcileOne : Verdict :=
  if ms.delete then
    ⟨c, ms, if a.present then some (deleteMicroservice ms) else none⟩
  else if a.present = false then reconcileMissing c now ms a
  else reconcileExisting c now ms a

end

end Visit

/-! ## What every visit does -/

/-- The operations of a visit: on its own microservice, and those that end a rebuild or use up a
grant only where no rebuild is asked for. -/
def CheckerOp.OfVisit (uuid : Str) (rebuild : Bool) : CheckerOp → Prop
  | .recordIfNew u | .recordFailedStart u | .observeRunning u | .resetBackoff u
  | .consumeRebuildSkip u | .pullReady u _ _ | .clearPullWait u | .ready u _ => u = uuid
  | .noteRebuildCleared u | .consumeCatalogReadySkip u => u = uuid ∧ rebuild = false
  | _ => False

/-- The second checker comes from the first by operations of a visit. -/
def Visits (uuid : Str) (rebuild : Bool) : RestartStuckChecker → RestartStuckChecker → Prop :=
  Relation.ReflTransGen fun c c' => ∃ t op, op.OfVisit uuid rebuild ∧ c.step (t, op) = c'

def NoNewRetry (c c' : RestartStuckChecker) : Prop := ∀ t ∈ c'.parked, t ∈ c.parked

/-- **What every visit does**: it stays with its microservice, raises the flag only together with a
create task, and works on the checker as the relation says. -/
structure Verdict.Sound (R : RestartStuckChecker → RestartStuckChecker → Prop)
    (c : RestartStuckChecker) (ms : Microservice) (v : Verdict) : Prop where
  uuid : v.ms.microserviceUUID = ms.microserviceUUID
  task : ∀ t ∈ v.task, t.microserviceUUID = ms.microserviceUUID
  checker : R c v.checker
  flag : v.ms.isUpdating = true →
    ms.isUpdating = true ∨ ∃ t ∈ v.task, t.creates ms.microserviceUUID = true

section Sound

variable {c c' : RestartStuckChecker} {now : ℕ} {ms ms' : Microservice} {a : Answers}
  {st : ReportedStatus} {skip : RecreateSkip} {u : Str} {rebuild : Bool} {v : Verdict}

namespace Visits

theorem refl : Visits u rebuild c c := Relation.ReflTransGen.refl

theorem trans {c'' : RestartStuckChecker} (h : Visits u rebuild c c')
    (h' : Visits u rebuild c' c'') : Visits u rebuild c c'' :=
  Relation.ReflTransGen.trans h h'

theorem op (t : ℕ) (op : CheckerOp) (h : op.OfVisit u rebuild) :
    Visits u rebuild c (c.step (t, op)) :=
  Relation.ReflTransGen.single ⟨t, op, h, rfl⟩

theorem pullReady {image : Str} : Visits u rebuild c (c.pullReady now u image skip).1 :=
  .op now (.pullReady u image skip) rfl

theorem ready : Visits u rebuild c (c.ready now u skip).1 :=
  .op now (.ready u skip) rfl

theorem syncRuntimeStatus {grace : Bool} :
    Visits u rebuild c (syncRuntimeStatus c u st grace) := by
  unfold ProcessManager.syncRuntimeStatus
  split
  · exact .op 0 (.resetBackoff u) rfl
  · exact .refl

theorem consumeRebuildSkip : Visits u rebuild c (consumeRebuildSkip c u skip) := by
  unfold ProcessManager.consumeRebuildSkip
  split
  · exact .op 0 (.consumeRebuildSkip u) rfl
  · exact .refl

theorem recordRestart : Visits ms.microserviceUUID rebuild c (recordRestart c now ms) := by
  unfold ProcessManager.recordRestart
  split
  · exact .refl
  · exact .op now (.recordIfNew _) rfl

theorem recordMissing {reported : Option ReportedStatus} :
    Visits ms.microserviceUUID rebuild c (recordMissing c now ms reported) := by
  unfold ProcessManager.recordMissing
  split
  · exact recordRestart
  · exact .refl

theorem recreateSkipReason :
    Visits ms.microserviceUUID ms.rebuild c (recreateSkipReason c ms).1 := by
  unfold ProcessManager.recreateSkipReason
  split
  · exact .refl
  next hrebuild =>
    have hnone : ms.rebuild = false := by simpa using hrebuild
    have hops : Visits ms.microserviceUUID ms.rebuild c
        ((c.noteRebuildCleared ms.microserviceUUID).consumeCatalogReadySkip
          ms.microserviceUUID).1 :=
      (op 0 (.noteRebuildCleared _) ⟨rfl, hnone⟩).trans
        (op 0 (.consumeCatalogReadySkip _) ⟨rfl, hnone⟩)
    simp only
    split
    next heq =>
      rw [heq] at hops
      exact hops
    next heq =>
      rw [heq] at hops
      exact hops

/-- A visit parks no task. -/
theorem noNewRetry (h : Visits u rebuild c c') : NoNewRetry c c' := by
  induction h with
  | refl => exact fun _ ht => ht
  | tail _ hstep ih =>
    obtain ⟨t, op, hop, rfl⟩ := hstep
    refine fun task htask => ih task ?_
    cases op with
    | resetBackoff => exact (RestartStuckChecker.mem_parked_resetBackoff.mp htask).1
    | consumeRebuildSkip => exact (RestartStuckChecker.mem_parked_consumeRebuildSkip.mp htask).1
    | recordIfNew | pullReady | ready | consumeCatalogReadySkip =>
      simpa [RestartStuckChecker.step] using htask
    | recordFailedStart | observeRunning | noteRebuildCleared | clearPullWait => exact htask
    | _ => exact hop.elim

end Visits

namespace Verdict.Sound

variable {R R' : RestartStuckChecker → RestartStuckChecker → Prop}

theorem quiet (hchecker : R c c') (huuid : ms'.microserviceUUID = ms.microserviceUUID)
    (hflag : ms'.isUpdating = ms.isUpdating) : Sound R c ms ⟨c', ms', none⟩ :=
  ⟨huuid, by simp, hchecker, fun h => .inl (hflag ▸ h)⟩

theorem create {action : TaskAction} (haction : action = .add ∨ action = .update)
    (hchecker : R c c') (huuid : ms'.microserviceUUID = ms.microserviceUUID) :
    Sound R c ms ⟨c', ms', some (newContainerTask action ms.microserviceUUID)⟩ := by
  refine ⟨huuid, by simp [newContainerTask], hchecker, fun _ => .inr ⟨_, rfl, ?_⟩⟩
  rcases haction with rfl | rfl <;> simp [ContainerTask.creates, newContainerTask]

theorem trans (h : Sound R c' ms' v) (hchecker : R c' v.checker → R' c v.checker)
    (huuid : ms'.microserviceUUID = ms.microserviceUUID)
    (hflag : ms'.isUpdating = ms.isUpdating) : Sound R' c ms v := by
  refine ⟨h.uuid.trans huuid, fun t ht => (h.task t ht).trans huuid, hchecker h.checker,
    fun hup => ?_⟩
  rw [← huuid, ← hflag]
  exact h.flag hup

end Verdict.Sound

theorem addMissing_sound :
    (addMissing c now ms skip).Sound (Visits ms.microserviceUUID rebuild) c ms := by
  unfold addMissing
  simp only
  split
  · exact .quiet .pullReady rfl rfl
  · split
    · exact .quiet (Visits.pullReady.trans .ready) rfl rfl
    · exact .create (.inl rfl) ((Visits.pullReady.trans .ready).trans .consumeRebuildSkip) rfl

theorem recreateTerminal_sound {grace held : Bool} :
    (recreateTerminal c now ms skip st grace held).Sound (Visits ms.microserviceUUID rebuild) c
      ms := by
  unfold recreateTerminal
  simp only
  split
  · exact .quiet (Visits.ready.trans .syncRuntimeStatus) rfl rfl
  · split
    · exact .quiet (Visits.ready.trans .syncRuntimeStatus) rfl rfl
    · exact .create (.inr rfl) .ready rfl

theorem startCreated_sound :
    (startCreated c now ms skip st a).Sound (Visits ms.microserviceUUID rebuild) c ms := by
  have hfailed : Visits ms.microserviceUUID rebuild c
      ((c.ready now ms.microserviceUUID skip).1.recordFailedStart now ms.microserviceUUID) :=
    Visits.ready.trans (.op now (.recordFailedStart _) rfl)
  unfold startCreated
  simp only
  split
  · exact .quiet (Visits.ready.trans .syncRuntimeStatus) rfl rfl
  · split
    · exact .quiet (Visits.ready.trans .syncRuntimeStatus) rfl rfl
    · split
      · exact .quiet .ready rfl rfl
      · exact recreateTerminal_sound.trans hfailed.trans rfl rfl
      · exact .quiet hfailed rfl rfl

theorem queueUpdate_sound {released : Bool} : (queueUpdate c now ms st released).Sound
    (Visits ms.microserviceUUID ms.rebuild) c ms := by
  have hpull : Visits ms.microserviceUUID ms.rebuild c ((recreateSkipReason c ms).1.pullReady now
      ms.microserviceUUID ms.imageName (recreateSkipReason c ms).2).1 :=
    Visits.recreateSkipReason.trans .pullReady
  unfold queueUpdate
  simp only
  split
  · exact .quiet hpull rfl rfl
  · split
    · split
      · exact .create (.inr rfl) (hpull.trans (Visits.recordRestart.trans .consumeRebuildSkip)) rfl
      · split
        · exact .quiet (hpull.trans (Visits.recordRestart.trans .ready)) rfl rfl
        · exact .create (.inr rfl) (hpull.trans (Visits.recordRestart.trans
            (Visits.ready.trans .consumeRebuildSkip))) rfl
    · exact .create (.inr rfl) (hpull.trans .consumeRebuildSkip) rfl

theorem updateMicroservice_sound : (updateMicroservice c now ms st a).Sound
    (Visits ms.microserviceUUID ms.rebuild) c ms := by
  unfold updateMicroservice
  split
  · refine .quiet ?_ rfl rfl
    split
    · exact .op 0 (.clearPullWait _) rfl
    · exact .refl
  · split
    · exact .quiet .refl rfl rfl
    · exact queueUpdate_sound.trans id rfl rfl

theorem unstick_spec (ms : Microservice) :
    (unstick ms).microserviceUUID = ms.microserviceUUID ∧
      (unstick ms).isUpdating = ms.isUpdating := by
  unfold unstick
  split <;> exact ⟨rfl, rfl⟩

/-- A visit that finds no container, from where it has read its skip. -/
theorem reconcileMissing_sound (hopen : ¬ (ms.hasCatalogItems = true ∧ a.catalogGate ≠ .ready)) :
    (reconcileMissing c now ms a).Sound (Visits ms.microserviceUUID ms.rebuild)
      (recreateSkipReason c ms).1 ms := by
  unfold reconcileMissing
  simp only [if_neg hopen]
  obtain ⟨huuid, hflag⟩ := unstick_spec ms
  split
  · exact .quiet .refl rfl rfl
  · split
    · exact .quiet .refl huuid hflag
    · split
      · exact .quiet .refl huuid hflag
      · refine addMissing_sound.trans (R := Visits (unstick ms).microserviceUUID ms.rebuild)
          (fun h => ?_) huuid hflag
        rw [huuid] at h
        exact Visits.recordMissing.trans h

variable (c now ms st) in
theorem observeExit_spec :
    Visits ms.microserviceUUID ms.rebuild c (observeExit c now ms st).1 ∧
      (observeExit c now ms st).2.1.microserviceUUID = ms.microserviceUUID ∧
      (observeExit c now ms st).2.1.isUpdating = ms.isUpdating ∧
      (observeExit c now ms st).2.1.rebuild = ms.rebuild := by
  unfold observeExit
  split
  · simp only
    split
    · exact ⟨.recordRestart, rfl, rfl, rfl⟩
    · exact ⟨.recordRestart, rfl, rfl, rfl⟩
  · exact ⟨.refl, rfl, rfl, rfl⟩

variable (ms a) in
theorem refreshCatalogProjection_spec :
    (refreshCatalogProjection ms a).microserviceUUID = ms.microserviceUUID ∧
      (refreshCatalogProjection ms a).isUpdating = ms.isUpdating := by
  unfold refreshCatalogProjection
  split <;> exact ⟨rfl, rfl⟩

/-- A visit that finds a container, from where it has read its skip. -/
theorem reconcileExisting_sound (c : RestartStuckChecker) (now : ℕ) (hst : a.status = some st)
    (hopen : ¬ (ms.isStuckInRestart = true ∧ ms.rebuild = false)) :
    ∃ c₁, Visits ms.microserviceUUID (refreshCatalogProjection ms a).rebuild c c₁ ∧
      (reconcileExisting c now ms a).Sound
        (Visits ms.microserviceUUID (refreshCatalogProjection ms a).rebuild)
        (recreateSkipReason c₁ (refreshCatalogProjection ms a)).1 ms := by
  obtain ⟨huuid, hflag⟩ := refreshCatalogProjection_spec ms a
  obtain ⟨c₁, hc₁⟩ : ∃ c₁,
      (if st.status = .running then c.observeRunning ms.microserviceUUID else c) = c₁ := ⟨_, rfl⟩
  refine ⟨c₁, ?_, ?_⟩
  · rw [← hc₁]
    split
    · exact .op 0 (.observeRunning _) rfl
    · exact .refl
  · unfold reconcileExisting
    simp only [if_neg hopen, hst, hc₁]
    rw [← huuid]
    split
    · exact recreateTerminal_sound.trans Visits.recordRestart.trans huuid hflag
    · split
      · exact startCreated_sound.trans id huuid hflag
      · obtain ⟨hexit, hkeeps, hflag', hrebuild⟩ := observeExit_spec
          (recreateSkipReason c₁ (refreshCatalogProjection ms a)).1 now
          (refreshCatalogProjection ms a) st
        refine updateMicroservice_sound.trans (fun h => ?_) (hkeeps.trans huuid)
          (hflag'.trans hflag)
        rw [hkeeps, hrebuild] at h
        exact (hexit.trans .syncRuntimeStatus).trans h

/-- **Every visit is sound**, and parks nothing. -/
theorem reconcileOne_sound : (reconcileOne c now ms a).Sound NoNewRetry c ms := by
  have hsame : NoNewRetry c c := fun _ ht => ht
  unfold reconcileOne
  split
  · refine ⟨rfl, ?_, hsame, .inl⟩
    split
    · simp [deleteMicroservice, newContainerTask]
    · simp
  · split
    · by_cases hopen : ms.hasCatalogItems = true ∧ a.catalogGate ≠ .ready
      · unfold reconcileMissing
        simp only [if_pos hopen]
        refine .quiet ?_ rfl rfl
        split <;> exact hsame
      · exact (reconcileMissing_sound hopen).trans
          (fun h => (Visits.recreateSkipReason.trans h).noNewRetry) rfl rfl
    · by_cases hopen : ms.isStuckInRestart = true ∧ ms.rebuild = false
      · unfold reconcileExisting
        simp only [if_pos hopen]
        exact .quiet hsame rfl rfl
      · obtain ⟨huuid, hflag⟩ := refreshCatalogProjection_spec ms a
        cases hst : a.status with
        | none =>
          unfold reconcileExisting
          simp only [if_neg hopen, hst]
          exact .quiet hsame huuid hflag
        | some st =>
          obtain ⟨c₁, hc₁, hsound⟩ := reconcileExisting_sound c now hst hopen
          refine hsound.trans (fun h => (hc₁.trans (.trans ?_ h)).noNewRetry) rfl rfl
          exact huuid ▸ .recreateSkipReason

end Sound

end Edgelet.ProcessManager
