import Edgelet.Machine.Run
import Edgelet.ProcessManager.Backoff
import Edgelet.ProcessManager.Window

/-!
# The skips of the reconcile

A rebuild request and a catalog that has become ready each let one attempt pass the delays. But a
start and the recreate of a container that ended for good leave the skip of a rebuild as it is, and
the grant of a catalog is used up before the pass knows whether it will act.

What a visit does to the restart checker is a sequence of operations on its own microservice
(`Visits`), so what it keeps follows from what each operation keeps.
-/

namespace Edgelet.ProcessManager

open Lexical Machine
open RestartStuckChecker hiding consumeRebuildSkip isStuck modify step

variable (c : RestartStuckChecker) (now : ℕ) (ms : Microservice) (a : Answers) (uuid : Str)

/-- The visit starts a container that has been created. -/
def starts : Bool :=
  let skipped := recreateSkipReason c (refreshCatalogProjection ms a)
  a.present && !ms.delete && !isStuck ms && !a.volumeHeld &&
    (skipped.1.ready now ms.microserviceUUID skipped.2).2 &&
    a.status.any fun st => !st.nonRestartable && st.status == .created

/-- The visit queues an ADD or UPDATE, or starts the container. -/
def issues : Bool :=
  (reconcileOne c now ms a).task.any (·.creates ms.microserviceUUID) || starts c now ms a

/-! ## Rebuilds -/

/-- A visit of a pass, or an operation on the checker between the visits. -/
inductive RebuildEvent
  | pass (ms : Microservice) (a : Answers)
  | checker (op : CheckerOp)

def RebuildEvent.step (e : ℕ × RebuildEvent) : RestartStuckChecker :=
  match e.2 with
  | .pass ms a => (reconcileOne c e.1 ms a).checker
  | .checker op => c.step (e.1, op)

def RebuildEvent.next (e : ℕ × RebuildEvent) : Option RestartStuckChecker :=
  some (RebuildEvent.step c e)

/-- The rebuild stays requested. -/
def RebuildEvent.Rebuilds : RebuildEvent → Prop
  | .pass ms _ => ms.microserviceUUID = uuid → ms.rebuild = true
  | .checker op => op ≠ .noteRebuildCleared uuid ∧ op ≠ .clear uuid

/-- The pass finds a container that runs, was created or ended for good, or its volume has just been
released: it passes the delay without the skip, or without using it up. -/
def Answers.passesBy : Bool :=
  a.present && (volumeWaitActive a.reported ||
    a.status.any fun st => st.nonRestartable || st.status == .created || st.status == .running)

/-- While the delay is running, no visit passes it by. -/
def RebuildEvent.Guarded (c : RestartStuckChecker) (e : ℕ × RebuildEvent) : Prop :=
  match e.2 with
  | .pass ms a => ms.microserviceUUID = uuid → c.Delayed e.1 uuid → a.passesBy = false
  | .checker _ => True

def RebuildEvent.bypasses (c : RestartStuckChecker) (e : ℕ × RebuildEvent) : Bool :=
  match e.2 with
  | .pass ms a =>
    ms.microserviceUUID == uuid && isBefore e.1 (c.state uuid).nextAttemptAt && issues c e.1 ms a
  | .checker _ => false

def bypassCount (uuid : Str) : RestartStuckChecker → List (ℕ × RebuildEvent) → ℕ
  | _, [] => 0
  | c, e :: es =>
    (if RebuildEvent.bypasses uuid c e then 1 else 0) +
      bypassCount uuid (RebuildEvent.step c e) es

namespace RestartStuckChecker

def Used (uuid : Str) (c : RestartStuckChecker) : Prop := (c.state uuid).rebuildSkipUsed = true

theorem Used.step {c : RestartStuckChecker} {uuid : Str} (h : Used uuid c) (t : ℕ) (op : CheckerOp)
    (hnote : op ≠ .noteRebuildCleared uuid) (hclear : op ≠ .clear uuid) :
    Used uuid (c.step (t, op)) := by
  unfold Used at h ⊢
  cases op with
  | recordIfNew | pullReady | ready | consumeCatalogReadySkip | parkTask =>
    simp only [RestartStuckChecker.step, recordIfNew, pullReady, ready, consumeCatalogReadySkip,
      parkTask]
    repeat' split
    all_goals simp [modify_state, armFailureLocked, apply_ite UuidRestartState.rebuildSkipUsed, h]
  | noteRebuildCleared u | clear u =>
    have hu : uuid ≠ u := by
      rintro rfl
      simp at hnote hclear
    simpa [RestartStuckChecker.step, noteRebuildCleared, clear, unpark, modify_state, hu] using h
  | _ =>
    simp [RestartStuckChecker.step, pruneRestarts, pruneContainerCreation, recordFailedStart,
      observeRunning, resetBackoff, consumeRebuildSkip, armPullMiss, clearPullWait,
      markCatalogWaiting, armFailure, takeDueTasks, unpark, armFailureLocked, modify_state,
      apply_ite UuidRestartState.rebuildSkipUsed, h]

end RestartStuckChecker

/-! ### What a visit does to the checker -/

/-- The visit gets as far as `recreateSkipReason`. -/
def reads (ms : Microservice) (a : Answers) : Bool :=
  !ms.delete &&
    if a.present then !isStuck ms && a.status.isSome
    else !ms.hasCatalogItems || a.catalogGate == .ready

section Rebuild

variable {c c' : RestartStuckChecker} {now t : ℕ} {ms : Microservice} {a : Answers}
  {st : ReportedStatus} {skip : RecreateSkip} {uuid u : Str} {rebuild : Bool}

theorem not_granted_recreateSkipReason (h : ms.rebuild = false) :
    ((recreateSkipReason c ms).1.state ms.microserviceUUID).catalogWait = false := by
  cases hwait : (c.state ms.microserviceUUID).catalogWait <;>
    simp [recreateSkipReason, h, consumeCatalogReadySkip, noteRebuildCleared, hwait]

/-- **A visit that reads its skip** works on the checker with operations of its own, and uses up the
grant unless a rebuild is asked for. -/
theorem visits_of_reads (c : RestartStuckChecker) (now : ℕ) (hreads : reads ms a = true) :
    ∃ c₁, Visits ms.microserviceUUID (rebuilds ms a) c c₁ ∧
      Visits ms.microserviceUUID (rebuilds ms a) c₁ (reconcileOne c now ms a).checker ∧
      (rebuilds ms a = false → (c₁.state ms.microserviceUUID).catalogWait = false) := by
  simp only [reads, Bool.and_eq_true, Bool.not_eq_true'] at hreads
  obtain ⟨hdelete, hreads⟩ := hreads
  rw [reconcileOne, if_neg (by simp [hdelete]), rebuilds]
  cases hpresent : a.present with
  | false =>
    have hopen : ¬ (ms.hasCatalogItems = true ∧ a.catalogGate ≠ .ready) := by
      rintro ⟨hitems, hgate⟩
      simp [hpresent, hitems, hgate] at hreads
    rw [Bool.false_and, Bool.or_false, if_pos rfl]
    exact ⟨_, .recreateSkipReason, (reconcileMissing_sound hopen).checker,
      not_granted_recreateSkipReason⟩
  | true =>
    simp only [hpresent, if_true, Bool.and_eq_true, Bool.not_eq_true'] at hreads
    obtain ⟨st, hst⟩ := Option.isSome_iff_exists.mp hreads.2
    have hopen : ¬ (ms.isStuckInRestart = true ∧ ms.rebuild = false) := by
      simpa [isStuck] using hreads.1
    obtain ⟨c₁, hc₁, hsound⟩ := reconcileExisting_sound c now hst hopen
    have hrest := hsound.checker
    rw [Bool.true_and, ← rebuild_refreshCatalogProjection, if_neg Bool.true_eq_false.mp]
    rw [← (refreshCatalogProjection_spec ms a).1] at hc₁ hrest ⊢
    exact ⟨_, hc₁.trans .recreateSkipReason, hrest, not_granted_recreateSkipReason⟩

/-- A visit that does not get there leaves the checker as it is, or marks the catalog. -/
theorem checker_of_not_reads (c : RestartStuckChecker) (now : ℕ) (hreads : reads ms a = false) :
    (reconcileOne c now ms a).checker = c ∨
      (reconcileOne c now ms a).checker = c.markCatalogWaiting ms.microserviceUUID := by
  unfold reconcileOne
  split
  · exact .inl rfl
  next hdelete =>
    split
    next hpresent =>
      have hgate : ms.hasCatalogItems = true ∧ a.catalogGate ≠ .ready := by
        simpa [reads, hdelete, hpresent] using hreads
      unfold reconcileMissing
      simp only [if_pos hgate]
      split
      · exact .inr rfl
      · exact .inl rfl
    next hpresent =>
      rw [Bool.not_eq_false] at hpresent
      unfold reconcileExisting
      simp only
      split
      · exact .inl rfl
      next hopen =>
        have hstuck : isStuck ms = false := by simpa [isStuck] using hopen
        have hst : a.status = none := by simpa [reads, hdelete, hpresent, hstuck] using hreads
        rw [hst]
        exact .inl rfl

/-! ### The skip stays used -/

theorem Visits.used (h : Visits u rebuild c c') (hkeep : u = uuid → rebuild = true)
    (hused : Used uuid c) : Used uuid c' := by
  induction h with
  | refl => exact hused
  | tail _ hstep ih =>
    obtain ⟨t, op, hop, rfl⟩ := hstep
    refine ih.step t op ?_ ?_
    · rintro rfl
      exact absurd (hkeep hop.1.symm) (by simp [hop.2])
    · rintro rfl
      exact hop

theorem used_reconcileOne (hkeep : ms.microserviceUUID = uuid → ms.rebuild = true)
    (h : Used uuid c) : Used uuid (reconcileOne c now ms a).checker := by
  cases hreads : reads ms a with
  | true =>
    obtain ⟨c₁, hc₁, hrest, -⟩ := visits_of_reads c now hreads
    refine (hc₁.trans hrest).used (fun huuid => ?_) h
    simp [rebuilds, hkeep huuid]
  | false =>
    rcases checker_of_not_reads c now hreads with heq | heq
    · rw [heq]
      exact h
    · rw [heq]
      exact h.step 0 (.markCatalogWaiting _) (by simp) (by simp)

/-! ### A bypass uses the skip -/

theorem consumeRebuildSkip_used : Used uuid (consumeRebuildSkip c uuid .rebuild) := by
  simp [Used, consumeRebuildSkip, RestartStuckChecker.consumeRebuildSkip,
    unpark]

theorem queueUpdate_spends (ms : Microservice) (hdelay : c.Delayed now ms.microserviceUUID)
    (hrebuild : ms.rebuild = true) (hstatus : st.status ≠ .running)
    (ht : (queueUpdate c now ms st false).task.isSome) :
    (recreateSkipReason c ms).2 = .rebuild ∧
      Used ms.microserviceUUID (queueUpdate c now ms st false).checker := by
  have hskip : (recreateSkipReason c ms).2 = .rebuild := by
    by_contra hne
    have hnone : (recreateSkipReason c ms).2 = .none := by
      rw [recreateSkipReason_spec, if_pos hrebuild] at hne ⊢
      split at hne
      · exact absurd rfl hne
      next hused => rw [if_neg hused]
    simp [queueUpdate_held hdelay hstatus hnone] at ht
  obtain ⟨c', hc'⟩ := queueUpdate_consumes hskip ht
  exact ⟨hskip, hc' ▸ consumeRebuildSkip_used⟩

theorem reconcileExisting_eq_update (c : RestartStuckChecker) (now : ℕ)
    (hrebuild : ms.rebuild = true) (hst : a.status = some st)
    (hterminal : st.nonRestartable = false) (hcreated : st.status ≠ .created)
    (hrunning : st.status ≠ .running) :
    ∃ ms' st', ms'.microserviceUUID = ms.microserviceUUID ∧ ms'.rebuild = true ∧
      st'.status ≠ .running ∧
      reconcileExisting c now ms a = updateMicroservice c now ms' st' a := by
  obtain ⟨-, huuid, -, hkeeps⟩ := observeExit_spec c now (refreshCatalogProjection ms a) st
  have hrebuild' : (refreshCatalogProjection ms a).rebuild = true := by
    rw [rebuild_refreshCatalogProjection, hrebuild, Bool.true_or]
  have hexit : (observeExit c now (refreshCatalogProjection ms a) st).1 = c := by
    simp [observeExit, recordRestart, hrebuild', apply_ite Prod.fst]
  have hrunning' : (observeExit c now (refreshCatalogProjection ms a) st).2.2.status ≠ .running :=
    mt observeExit_running.mp hrunning
  refine ⟨(observeExit c now (refreshCatalogProjection ms a) st).2.1, _,
    huuid.trans (refreshCatalogProjection_spec ms a).1, hkeeps.trans hrebuild', hrunning', ?_⟩
  simp [reconcileExisting, hrebuild, hst, hterminal, hcreated, hrunning, recreateSkipReason,
    hrebuild', hexit, syncRuntimeStatus, hrunning']

theorem not_used_of_skipReason (h : (recreateSkipReason c ms).2 = .rebuild) :
    ¬ Used ms.microserviceUUID c := by
  intro hused
  unfold Used at hused
  rw [recreateSkipReason_spec] at h
  simp only [rebuildSkipAvailable, hused] at h
  split at h
  · cases h
  · split at h <;> cases h

theorem reconcileMissing_spends (hrebuild : ms.rebuild = true)
    (hdelay : c.Delayed now ms.microserviceUUID)
    (htask : (reconcileMissing c now ms a).task.isSome) :
    ¬ Used ms.microserviceUUID c ∧
      Used ms.microserviceUUID (reconcileMissing c now ms a).checker := by
  obtain ⟨t, ht⟩ := Option.isSome_iff_exists.mp htask
  have hunstick := (unstick_spec ms).1
  have hmissing : recordMissing (recreateSkipReason c ms).1 now ms a.reported = c := by
    simp [recordMissing, recordRestart, recreateSkipReason, hrebuild]
  have hskip : (recreateSkipReason c ms).2 ≠ .catalogReady ∧
      (recreateSkipReason c ms).2 ≠ .nonRestartable := by
    rw [recreateSkipReason_spec, if_pos hrebuild]
    split <;> simp
  have hstuck : isStuck ms = false := by simp [isStuck, hrebuild]
  rw [(reconcileMissing_of_task ht).2, hmissing, hstuck, if_neg Bool.false_ne_true] at htask ⊢
  rw [← hunstick] at hdelay ⊢
  obtain ⟨hreason, c', hc'⟩ :=
    addMissing_consumes hdelay hskip.1 (fun hne => absurd hne hskip.2) htask
  exact ⟨hunstick ▸ not_used_of_skipReason hreason, hc' ▸ consumeRebuildSkip_used⟩

theorem reconcileExisting_spends (hrebuild : ms.rebuild = true) (hpresent : a.present = true)
    (hpasses : a.passesBy = false) (hdelay : c.Delayed now ms.microserviceUUID)
    (htask : (reconcileExisting c now ms a).task.isSome) :
    ¬ Used ms.microserviceUUID c ∧
      Used ms.microserviceUUID (reconcileExisting c now ms a).checker := by
  cases hst : a.status with
  | none => simp [reconcileExisting, hrebuild, hst] at htask
  | some st =>
    simp only [Answers.passesBy, hpresent, hst, Option.any_some, Bool.true_and,
      Bool.or_eq_false_iff, beq_eq_false_iff_ne] at hpasses
    obtain ⟨hreleased, ⟨hterminal, hcreated⟩, hrunning⟩ := hpasses
    obtain ⟨ms', st', huuid, hrebuild', hrunning', hupdate⟩ :=
      reconcileExisting_eq_update c now hrebuild hst hterminal hcreated hrunning
    rw [hupdate, updateMicroservice, hreleased] at htask ⊢
    rw [← huuid] at hdelay ⊢
    split at htask
    · cases htask
    next hneeded =>
      split at htask
      · cases htask
      next hheld =>
        rw [if_neg hneeded, if_neg hheld]
        obtain ⟨hreason, hused⟩ :=
          queueUpdate_spends ms'.clearStuck hdelay hrebuild' hrunning' htask
        exact ⟨not_used_of_skipReason hreason, hused⟩

theorem bypass_spends (hrebuild : ms.rebuild = true) (hpasses : a.passesBy = false)
    (hdelay : c.Delayed now ms.microserviceUUID) (hissues : issues c now ms a = true) :
    ¬ Used ms.microserviceUUID c ∧ Used ms.microserviceUUID (reconcileOne c now ms a).checker := by
  have hstarts : starts c now ms a = false := by
    unfold Answers.passesBy at hpasses
    unfold starts
    cases hst : a.status <;> simp_all
  rw [issues, hstarts, Bool.or_false, Option.any_eq_true] at hissues
  obtain ⟨t, ht, hcreates⟩ := hissues
  have htask := Option.isSome_of_mem ht
  unfold reconcileOne at ht htask ⊢
  split at ht
  · split at ht
    · obtain rfl := Option.some_inj.mp ht
      cases hd : ms.deleteWithCleanup <;>
        simp [hd, deleteMicroservice, ContainerTask.creates, newContainerTask] at hcreates
    · cases ht
  next hdelete =>
    rw [if_neg hdelete] at htask ⊢
    split at ht
    next hpresent =>
      rw [if_pos hpresent] at htask ⊢
      exact reconcileMissing_spends hrebuild hdelay htask
    next hpresent =>
      rw [if_neg hpresent] at htask ⊢
      exact reconcileExisting_spends hrebuild (by simpa using hpresent) hpasses hdelay htask

/-! ### Runs -/

theorem used_step {e : ℕ × RebuildEvent} (hrebuilds : e.2.Rebuilds uuid) (h : Used uuid c) :
    Used uuid (RebuildEvent.step c e) := by
  obtain ⟨t, e⟩ := e
  cases e with
  | pass ms a => exact used_reconcileOne hrebuilds h
  | checker op => exact h.step t op hrebuilds.1 hrebuilds.2

theorem spends_of_bypasses {e : ℕ × RebuildEvent} (hrebuilds : e.2.Rebuilds uuid)
    (hguarded : RebuildEvent.Guarded uuid c e) (h : RebuildEvent.bypasses uuid c e = true) :
    ¬ Used uuid c ∧ Used uuid (RebuildEvent.step c e) := by
  obtain ⟨t, e⟩ := e
  cases e with
  | pass ms a =>
    simp only [RebuildEvent.bypasses, Bool.and_eq_true, beq_iff_eq] at h
    obtain ⟨⟨rfl, hdelay⟩, hissues⟩ := h
    exact bypass_spends (hrebuilds rfl) (hguarded rfl hdelay) hdelay hissues
  | checker op => cases h

theorem bypassCount_le {es : List (ℕ × RebuildEvent)} (hrebuilds : ∀ e ∈ es, e.2.Rebuilds uuid)
    (hguarded : Along RebuildEvent.next (RebuildEvent.Guarded uuid) c es) :
    bypassCount uuid c es ≤ 1 ∧ (Used uuid c → bypassCount uuid c es = 0) := by
  induction es generalizing c with
  | nil => simp [bypassCount]
  | cons e es ih =>
    have he : e ∈ e :: es := List.mem_cons_self
    obtain ⟨hle, hzero⟩ := ih (c := RebuildEvent.step c e)
      (fun a ha => hrebuilds a (List.mem_cons_of_mem _ ha)) (hguarded.2 _ rfl)
    rw [bypassCount]
    split
    next h =>
      obtain ⟨hfree, hused⟩ := spends_of_bypasses (hrebuilds e he) hguarded.1 h
      rw [hzero hused]
      exact ⟨le_rfl, fun h => absurd h hfree⟩
    next =>
      rw [Nat.zero_add]
      exact ⟨hle, fun h => hzero (used_step (hrebuilds e he) h)⟩

end Rebuild

def rebuilt : Microservice :=
  ⟨"ms".toList, "app".toList, 0, true, false, false, false, false, false⟩

def absent : Answers := ⟨false, none, .ready, false, none, false, false, .ok, false, false⟩

def startFails : Answers :=
  ⟨true, none, .ready, false, some ⟨.created, false, false⟩, false, false, .failed, false, false⟩

variable (c : RestartStuckChecker) (now : ℕ) (ms : Microservice) (a : Answers)

/-- The grant of a ready catalog is there. -/
def RestartStuckChecker.granted (uuid : Str) : Bool := (c.state uuid).catalogWait

/-- A crash has been recorded before, and its delay has passed. -/
def RestartStuckChecker.elapsed (uuid : Str) : Bool :=
  (c.state uuid).pending && !isBefore now (c.state uuid).nextAttemptAt

/-- The wait for the image has passed, or was for another image. -/
def RestartStuckChecker.pullOpen : Bool :=
  let st := c.state ms.microserviceUUID
  let image := trimSpace ms.imageName
  decide (image ≠ [] ∧ st.pullImage ≠ [] ∧ image ≠ st.pullImage) || !isBefore now st.pullNextAt

/-- The container is missing, has ended for good, has only been created, or is to be updated. -/
def attemptNeeded : Bool :=
  !a.present || a.status.any fun st =>
    let seen := observeExit (recreateSkipReason c ms).1 now ms st
    st.nonRestartable || st.status == .created ||
      shouldContainerBeUpdated seen.2.1 seen.2.2 a.equal

/-- What has to hold for a visit that uses up the grant to act: no gate behind it abandons the
visit, and a container that is to be replaced need not wait for anything. -/
def grantHonoured : Bool :=
  if a.present then
    a.status.any fun st =>
      if st.nonRestartable || st.status == .created then !a.volumeHeld
      else
        (st.status == .running || !a.volumeHeld) && c.pullOpen now ms &&
          (st.status == .running || volumeWaitActive a.reported ||
            c.elapsed now ms.microserviceUUID)
  else
    !(isStuck ms && !shouldForceRecreateFromStatus a.reported) &&
      !(a.reported.map (·.status) == some .failed && !ms.hasCatalogItems) && !a.volumeHeld

/-- No rebuild is asked for, and nothing but a visit takes the grant away. -/
def RebuildEvent.Plain : RebuildEvent → Prop
  | .pass ms a => ms.microserviceUUID = uuid → rebuilds ms a = false
  | .checker op => op ≠ .resetBackoff uuid ∧ op ≠ .consumeCatalogReadySkip uuid ∧ op ≠ .clear uuid

/-- The event is a visit of the microservice that makes an attempt. -/
def RebuildEvent.issuesFor (e : ℕ × RebuildEvent) : Bool :=
  match e.2 with
  | .pass ms a => ms.microserviceUUID == uuid && issues c e.1 ms a
  | .checker _ => false

/-- The event is a visit of the microservice that finds the catalog ready and an attempt needed. -/
def RebuildEvent.due (e : ℕ × RebuildEvent) : Bool :=
  match e.2 with
  | .pass ms a => ms.microserviceUUID == uuid && (reads ms a && attemptNeeded c e.1 ms a)
  | .checker _ => false

/-- **A grant is not wasted**: it goes only in a visit that makes an attempt, and the first attempt
that is due does not wait. -/
def GrantKept (c : RestartStuckChecker) (e : ℕ × RebuildEvent) : Prop :=
  c.granted uuid = true →
    ((RebuildEvent.step c e).granted uuid = false → RebuildEvent.issuesFor uuid c e = true) ∧
    (RebuildEvent.due uuid c e = true → RebuildEvent.issuesFor uuid c e = true)

/-- **The condition**: a visit that finds the catalog ready while the grant is there finds an
attempt needed, and nothing that holds it up. -/
def GrantUsable (c : RestartStuckChecker) (e : ℕ × RebuildEvent) : Prop :=
  match e.2 with
  | .pass ms a => ms.microserviceUUID = uuid → c.granted uuid = true → reads ms a = true →
    attemptNeeded c e.1 ms a = true ∧ grantHonoured c e.1 ms a = true
  | .checker _ => True

section Grant

variable {c c' : RestartStuckChecker} {now : ℕ} {ms : Microservice} {a : Answers}
  {st : ReportedStatus} {uuid : Str}

theorem creates_newContainerTask {action : TaskAction} {uuid : Str}
    (h : action = .add ∨ action = .update) :
    (newContainerTask action uuid).creates uuid = true := by
  rcases h with rfl | rfl <;> simp [ContainerTask.creates, newContainerTask]

theorem addMissing_catalogReady : (addMissing c now ms .catalogReady).task =
    some (newContainerTask .add ms.microserviceUUID) := by
  have hpull : (c.pullReady now ms.microserviceUUID ms.imageName .catalogReady).2 = true := by
    unfold pullReady
    simp only
    repeat' split
    all_goals simp_all
  simp [addMissing, hpull, ready]

theorem issues_missing (hdelete : ms.delete = false) (hpresent : a.present = false)
    (hgate : (!ms.hasCatalogItems || a.catalogGate == .ready) = true)
    (hrebuild : ms.rebuild = false) (hskip : (recreateSkipReason c ms).2 = .catalogReady) :
    issues c now ms a = (attemptNeeded c now ms a && grantHonoured c now ms a) := by
  have hopen : ¬ (ms.hasCatalogItems = true ∧ a.catalogGate ≠ .ready) := by
    rintro ⟨hitems, hne⟩
    simp [hitems, hne] at hgate
  have hstarts : starts c now ms a = false := by simp [starts, hpresent]
  have hneeded : attemptNeeded c now ms a = true := by simp [attemptNeeded, hpresent]
  rw [issues, hstarts, Bool.or_false, hneeded, Bool.true_and, grantHonoured, hpresent, reconcileOne,
    hdelete]
  simp only [Bool.false_eq_true, if_false, if_true, hpresent, reconcileMissing, if_neg hopen, hskip,
    hrebuild, true_and]
  split
  next hstuck => simp [hstuck]
  next hstuck =>
    have hpass : (!(isStuck ms && !shouldForceRecreateFromStatus a.reported)) = true := by
      by_contra hne
      exact hstuck (by simpa using hne)
    rw [hpass, Bool.true_and]
    split
    next hfailed => simp [hfailed]
    next hfailed =>
      have hpass : (!(a.reported.map (·.status) == some .failed && !ms.hasCatalogItems)) =
          true := by
        by_contra hne
        exact hfailed (by simpa using hne)
      rw [hpass, Bool.true_and]
      split
      next hheld => simp [hheld]
      next hheld =>
        have hadd : (if isStuck ms then nonRestartableSkip .catalogReady else .catalogReady) =
            RecreateSkip.catalogReady := by
          split <;> rfl
        rw [hadd, addMissing_catalogReady, (unstick_spec ms).1, Option.any_some,
          creates_newContainerTask (.inl rfl)]
        simp [hheld]

theorem pullReady_none :
    (c.pullReady now ms.microserviceUUID ms.imageName .none).2 = c.pullOpen now ms := by
  unfold pullReady pullOpen
  simp only
  split <;> simp_all

theorem recordIfNew_elapsed {u : Str} :
    (!isBefore now ((c.recordIfNew now u).state u).nextAttemptAt) = c.elapsed now u ∧
      (c.recordIfNew now u).elapsed now u = c.elapsed now u := by
  unfold recordIfNew RestartStuckChecker.elapsed
  split
  next hpending => simp [hpending]
  next hpending =>
    have hdelayed : isBefore now (some (now + restartDelay ((c.state u).n + 1))) = true := by
      simp [isBefore, restartDelay_pos]
    simp [hpending, armFailureLocked, hdelayed]

theorem queueUpdate_creates (ms : Microservice) {released : Bool} (hrebuild : ms.rebuild = false)
    (hwait : (c.state ms.microserviceUUID).catalogWait = false) :
    (queueUpdate c now ms st released).task.any (·.creates ms.microserviceUUID) =
      (c.pullOpen now ms &&
        (st.status == .running || released || c.elapsed now ms.microserviceUUID)) := by
  have hskip : recreateSkipReason c ms = (c.noteRebuildCleared ms.microserviceUUID, .none) := by
    simp [recreateSkipReason, hrebuild, consumeCatalogReadySkip,
      noteRebuildCleared, hwait]
  have hcreates : (newContainerTask .update ms.microserviceUUID).creates ms.microserviceUUID =
    true := creates_newContainerTask (.inr rfl)
  have hpull : ((c.noteRebuildCleared ms.microserviceUUID).pullReady now ms.microserviceUUID
      ms.imageName .none).2 = c.pullOpen now ms := by
    simp [pullReady_none, pullOpen, noteRebuildCleared]
  have helapsed : ((c.noteRebuildCleared ms.microserviceUUID).pullReady now ms.microserviceUUID
      ms.imageName .none).1.elapsed now ms.microserviceUUID =
      c.elapsed now ms.microserviceUUID := by
    unfold pullReady noteRebuildCleared
    simp only
    repeat' split
    all_goals simp [RestartStuckChecker.elapsed]
  unfold queueUpdate
  simp only [hskip, hpull, hrebuild]
  cases hready : c.pullOpen now ms
  · rfl
  by_cases hrunning : st.status = .running
  · simp [hrunning, hcreates]
  cases released
  · rw [← helapsed, ← recordIfNew_elapsed.1]
    simp [hrunning, recordRestart, hrebuild, ready]
    split <;> simp_all
  · simp [hrunning, hcreates]

theorem updateMicroservice_creates (huuid : ms.microserviceUUID = uuid)
    (hrebuild : ms.rebuild = false) (hwait : (c.state uuid).catalogWait = false) :
    (updateMicroservice c now ms st a).task.any (·.creates uuid) =
      (shouldContainerBeUpdated ms st a.equal &&
        ((st.status == .running || !a.volumeHeld) && c.pullOpen now ms &&
          (st.status == .running || volumeWaitActive a.reported || c.elapsed now uuid))) := by
  subst huuid
  unfold updateMicroservice
  split
  next hneeded => simp [hneeded]
  next hneeded =>
    rw [Bool.not_eq_false] at hneeded
    rw [hneeded, Bool.true_and]
    split
    next hheld => simp [hheld]
    next hheld =>
      have hopen : (st.status == .running || !a.volumeHeld) = true := by
        by_cases hrunning : st.status = .running
        · simp [hrunning]
        · simpa [hrunning] using hheld
      rw [hopen, Bool.true_and]
      exact queueUpdate_creates ms.clearStuck hrebuild hwait

theorem skip_granted (hrebuild : ms.rebuild = false)
    (hwait : (c.state ms.microserviceUUID).catalogWait = true) :
    (recreateSkipReason c ms).2 = .catalogReady ∧
      ((recreateSkipReason c ms).1.state ms.microserviceUUID) =
        { c.state ms.microserviceUUID with rebuildSkipUsed := false, catalogWait := false } := by
  simp [recreateSkipReason, hrebuild, consumeCatalogReadySkip,
    noteRebuildCleared, hwait]

theorem recreateTerminal_granted {grace held : Bool} :
    (recreateTerminal c now ms .catalogReady st grace held).task =
      if held then none else some (newContainerTask .update ms.microserviceUUID) := by
  cases held <;> simp [recreateTerminal, nonRestartableSkip, ready]

theorem observeExit_waits (c : RestartStuckChecker) (now : ℕ) (st : ReportedStatus)
    (hrebuild : ms.rebuild = false) :
    let seen := observeExit c now ms st
    (seen.1.state ms.microserviceUUID).catalogWait = (c.state ms.microserviceUUID).catalogWait ∧
    seen.1.pullOpen now seen.2.1 = c.pullOpen now ms ∧
    seen.1.elapsed now ms.microserviceUUID = c.elapsed now ms.microserviceUUID := by
  have hrecord : (c.recordIfNew now ms.microserviceUUID).pullOpen now ms = c.pullOpen now ms ∧
      ((c.recordIfNew now ms.microserviceUUID).state ms.microserviceUUID).catalogWait =
        (c.state ms.microserviceUUID).catalogWait := by
    unfold recordIfNew
    split <;> simp [pullOpen, armFailureLocked]
  unfold observeExit recordRestart
  simp only [hrebuild, Bool.false_eq_true, if_false]
  split
  · split <;> exact ⟨hrecord.2, hrecord.1, recordIfNew_elapsed.2⟩
  · exact ⟨rfl, rfl, rfl⟩

theorem issues_existing (hdelete : ms.delete = false) (hpresent : a.present = true)
    (hstuck : isStuck ms = false) (hst : a.status = some st) (hrefresh : a.mountChanged = false)
    (hrebuild : ms.rebuild = false) (hwait : (c.state ms.microserviceUUID).catalogWait = true) :
    issues c now ms a = (attemptNeeded c now ms a && grantHonoured c now ms a) := by
  have hrefresh' : refreshCatalogProjection ms a = ms := by
    simp [refreshCatalogProjection, hrefresh]
  have hstuck' : ms.isStuckInRestart = false := by simpa [isStuck, hrebuild] using hstuck
  have hcreates : (newContainerTask .update ms.microserviceUUID).creates ms.microserviceUUID =
    true := creates_newContainerTask (.inr rfl)
  obtain ⟨c₁, hc₁⟩ : ∃ c₁,
      (if st.status = .running then c.observeRunning ms.microserviceUUID else c) = c₁ := ⟨_, rfl⟩
  have hwait₁ : (c₁.state ms.microserviceUUID).catalogWait = true := by
    rw [← hc₁]
    split <;> simp [observeRunning, hwait]
  obtain ⟨hskip, hstate⟩ := skip_granted hrebuild hwait₁
  rw [issues, reconcileOne, hdelete, hpresent, grantHonoured, starts, attemptNeeded]
  simp only [Bool.false_eq_true, if_false, Bool.true_eq_false, hst, Option.any_some, hpresent,
    reconcileExisting, hrefresh', hdelete, hstuck, hrebuild, hstuck', if_true, false_and, hc₁,
    hskip]
  by_cases hterminal : st.nonRestartable = true
  · rw [if_pos hterminal, recreateTerminal_granted]
    cases a.volumeHeld <;> simp [hterminal, hcreates]
  by_cases hcreated : st.status = .created
  · have hc : c₁ = c := by rw [← hc₁, if_neg (by simp [hcreated])]
    subst hc
    cases hheld : a.volumeHeld <;>
      simp [hterminal, hcreated, hheld, startCreated, ready, hskip]
  have hpull₁ : c₁.pullOpen now ms = c.pullOpen now ms := by
    rw [← hc₁]
    split <;> simp [pullOpen, observeRunning]
  have hpull : (recreateSkipReason c₁ ms).1.pullOpen now ms = c₁.pullOpen now ms := by
    simp [pullOpen, hstate]
  simp only [Bool.not_true, hterminal, hcreated, beq_eq_false_iff_ne.mpr, Bool.false_or, ne_eq,
    not_false_eq_true, Bool.false_eq_true, if_false, Bool.and_false, Bool.or_false]
  by_cases hrunning : st.status = .running
  · have hseen (c' : RestartStuckChecker) : observeExit c' now ms st = (c', ms, st) := by
      simp [observeExit, hrunning]
    rw [hseen, hseen, updateMicroservice_creates rfl hrebuild, ← hpull₁, ← hpull]
    · simp only [hrunning, beq_self_eq_true, Bool.true_or, Bool.true_and, Bool.and_true]
      unfold syncRuntimeStatus
      split <;> simp [pullOpen, resetBackoff, unpark]
    · unfold syncRuntimeStatus
      split <;> simp [resetBackoff, unpark, hstate]
  · have hc : c₁ = c := by rw [← hc₁, if_neg hrunning]
    subst hc
    obtain ⟨hwait', hpull', helapsed⟩ := observeExit_waits
      (recreateSkipReason c₁ ms).1 now st hrebuild
    have hrunning' : (observeExit (recreateSkipReason c₁ ms).1 now ms st).2.2.status ≠ .running :=
      mt observeExit_running.mp hrunning
    have hsync : syncRuntimeStatus (observeExit (recreateSkipReason c₁ ms).1 now ms st).1
        ms.microserviceUUID (observeExit (recreateSkipReason c₁ ms).1 now ms st).2.2
        a.graceElapsed = (observeExit (recreateSkipReason c₁ ms).1 now ms st).1 := by
      simp [syncRuntimeStatus, hrunning']
    obtain ⟨-, huuid, -, hkeeps⟩ := observeExit_spec (recreateSkipReason c₁ ms).1 now ms st
    rw [hsync, updateMicroservice_creates huuid (hkeeps.trans hrebuild)
      (hwait'.trans (by rw [hstate])), hpull', hpull, helapsed]
    rw [beq_eq_false_iff_ne.mpr hrunning, beq_eq_false_iff_ne.mpr hrunning']
    simp [RestartStuckChecker.elapsed, hstate]

theorem issues_eq (hreads : reads ms a = true) (hplain : rebuilds ms a = false)
    (hwait : c.granted ms.microserviceUUID = true) :
    issues c now ms a = (attemptNeeded c now ms a && grantHonoured c now ms a) := by
  simp only [reads, Bool.and_eq_true, Bool.not_eq_true'] at hreads
  obtain ⟨hdelete, hreads⟩ := hreads
  rw [rebuilds, Bool.or_eq_false_iff] at hplain
  obtain ⟨hrebuild, hmount⟩ := hplain
  cases hpresent : a.present with
  | false =>
    rw [hpresent] at hreads
    exact issues_missing hdelete hpresent hreads hrebuild (skip_granted hrebuild hwait).1
  | true =>
    simp only [hpresent, if_true, Bool.and_eq_true, Bool.not_eq_true'] at hreads
    obtain ⟨st, hst⟩ := Option.isSome_iff_exists.mp hreads.2
    rw [hpresent, Bool.true_and] at hmount
    exact issues_existing hdelete hpresent hreads.1 hst hmount hrebuild hwait

/-! ### What becomes of the grant -/

theorem catalogWait_step (t : ℕ) {op : CheckerOp} (hmark : op ≠ .markCatalogWaiting uuid)
    (hreset : op ≠ .resetBackoff uuid) (hconsume : op ≠ .consumeCatalogReadySkip uuid)
    (hclear : op ≠ .clear uuid) :
    ((c.step (t, op)).state uuid).catalogWait = (c.state uuid).catalogWait := by
  cases op with
  | recordIfNew | pullReady | ready | parkTask =>
    simp only [RestartStuckChecker.step, recordIfNew, RestartStuckChecker.pullReady,
      RestartStuckChecker.ready, parkTask]
    repeat' split
    all_goals simp [modify_state, armFailureLocked, apply_ite UuidRestartState.catalogWait]
  | consumeCatalogReadySkip u =>
    have hu : uuid ≠ u := by
      rintro rfl
      exact hconsume rfl
    simp only [RestartStuckChecker.step, consumeCatalogReadySkip]
    split
    · rw [modify_state, if_neg hu]
    · rfl
  | markCatalogWaiting u | resetBackoff u | clear u =>
    have hu : uuid ≠ u := by
      rintro rfl
      simp at hmark hreset hclear
    simp [RestartStuckChecker.step, markCatalogWaiting, resetBackoff, clear, unpark, modify_state,
      hu]
  | _ =>
    simp [RestartStuckChecker.step, pruneRestarts, pruneContainerCreation, recordFailedStart,
      observeRunning, RestartStuckChecker.consumeRebuildSkip, noteRebuildCleared, armPullMiss,
      clearPullWait, armFailure, takeDueTasks, unpark, armFailureLocked, modify_state,
      apply_ite UuidRestartState.catalogWait]

theorem granted_markCatalogWaiting {u : Str} (h : c.granted uuid = true) :
    (c.markCatalogWaiting u).granted uuid = true := by
  rw [granted, markCatalogWaiting, modify_state]
  split
  · rfl
  · exact h

theorem granted_checker {t : ℕ} {op : CheckerOp} (hplain : (RebuildEvent.checker op).Plain uuid)
    (h : c.granted uuid = true) : (c.step (t, op)).granted uuid = true := by
  by_cases hmark : op = .markCatalogWaiting uuid
  · subst hmark
    exact granted_markCatalogWaiting h
  · rw [granted, catalogWait_step t hmark hplain.1 hplain.2.1 hplain.2.2]
    exact h

theorem not_granted_step {u : Str} {t : ℕ} {op : CheckerOp} {rebuild : Bool}
    (hop : op.OfVisit u rebuild) (h : c.granted u = false) :
    (c.step (t, op)).granted u = false := by
  by_cases hreset : op = .resetBackoff u
  · subst hreset
    simp [granted, RestartStuckChecker.step, resetBackoff]
  by_cases hconsume : op = .consumeCatalogReadySkip u
  · subst hconsume
    simp only [RestartStuckChecker.step, consumeCatalogReadySkip]
    split
    · simp [granted]
    · exact h
  · rw [granted, catalogWait_step t ?_ hreset hconsume ?_]
    · exact h
    · rintro rfl
      exact hop
    · rintro rfl
      exact hop

theorem Visits.granted_of_ne {u : Str} {rebuild : Bool} (h : Visits u rebuild c c')
    (hu : uuid ≠ u) : c'.granted uuid = c.granted uuid := by
  induction h with
  | refl => rfl
  | tail _ hstep ih =>
    obtain ⟨t, op, hop, rfl⟩ := hstep
    rw [← ih]
    refine catalogWait_step t ?_ ?_ ?_ ?_
    · rintro rfl
      exact hop
    · rintro rfl
      exact hu hop
    · rintro rfl
      exact hu hop.1
    · rintro rfl
      exact hop

theorem Visits.not_granted {u : Str} {rebuild : Bool} (h : Visits u rebuild c c')
    (hc : c.granted u = false) : c'.granted u = false := by
  induction h with
  | refl => exact hc
  | tail _ hstep ih =>
    obtain ⟨t, op, hop, rfl⟩ := hstep
    exact not_granted_step hop ih

/-- **The grant of a microservice after a visit**, where no rebuild is asked for: it is used up
exactly by the visits of that microservice that read it. -/
theorem granted_reconcileOne (hplain : ms.microserviceUUID = uuid → rebuilds ms a = false)
    (h : c.granted uuid = true) :
    (reconcileOne c now ms a).checker.granted uuid = false ↔
      ms.microserviceUUID = uuid ∧ reads ms a = true := by
  cases hreads : reads ms a with
  | true =>
    obtain ⟨c₁, hc₁, hrest, hspent⟩ := visits_of_reads c now hreads
    by_cases huuid : ms.microserviceUUID = uuid
    · subst huuid
      exact iff_of_true (hrest.not_granted (hspent (hplain rfl))) ⟨rfl, rfl⟩
    · rw [(hc₁.trans hrest).granted_of_ne (Ne.symm huuid), h]
      exact iff_of_false nofun fun hsame => huuid hsame.1
  | false =>
    refine iff_of_false ?_ (by simp)
    rw [Bool.not_eq_false]
    rcases checker_of_not_reads c now hreads with heq | heq
    · rw [heq]
      exact h
    · rw [heq]
      exact granted_markCatalogWaiting h

theorem grantKept_iff {e : ℕ × RebuildEvent} (hplain : e.2.Plain uuid) :
    GrantKept uuid c e ↔ GrantUsable uuid c e := by
  obtain ⟨now, e⟩ := e
  cases e with
  | checker op =>
    refine iff_of_true (fun hc => ⟨fun hgone => ?_, nofun⟩) trivial
    rw [RebuildEvent.step, granted_checker hplain hc] at hgone
    cases hgone
  | pass ms a =>
    simp only [GrantKept, GrantUsable, RebuildEvent.step, RebuildEvent.issuesFor, RebuildEvent.due,
      Bool.and_eq_true, beq_iff_eq]
    constructor
    · rintro h rfl hc hreads
      have hissues := ((h hc).1 ((granted_reconcileOne hplain hc).mpr ⟨rfl, hreads⟩)).2
      rw [issues_eq hreads (hplain rfl) hc, Bool.and_eq_true] at hissues
      exact hissues
    · intro h hc
      have hissues : ms.microserviceUUID = uuid → reads ms a = true → issues c now ms a = true := by
        rintro rfl hreads
        rw [issues_eq hreads (hplain rfl) hc, Bool.and_eq_true]
        exact h rfl hc hreads
      constructor
      · intro hgone
        obtain ⟨huuid, hreads⟩ := (granted_reconcileOne hplain hc).mp hgone
        exact ⟨huuid, hissues huuid hreads⟩
      · rintro ⟨huuid, hreads, -⟩
        exact ⟨huuid, hissues huuid hreads⟩

/-- **Grants that are not wasted**: in every run of visits and of operations between them, without a
rebuild of the microservice, its grant goes only in a visit that makes an attempt and no attempt
that is due waits while it is there, exactly when each visit that finds the catalog ready while the
grant is there finds an attempt needed, no later gate that abandons it, and, for a container that is
to be replaced, neither its image nor its restart to wait for. -/
theorem grants_kept_iff (uuid : Str) (c : RestartStuckChecker) (es : List (ℕ × RebuildEvent))
    (hplain : ∀ e ∈ es, e.2.Plain uuid) :
    Along RebuildEvent.next (GrantKept uuid) c es ↔
      Along RebuildEvent.next (GrantUsable uuid) c es := by
  induction es generalizing c with
  | nil => exact Iff.rfl
  | cons e es ih =>
    have he := grantKept_iff (c := c) (hplain e List.mem_cons_self)
    exact and_congr he (forall₂_congr fun c' _ =>
      ih c' fun e' he' => hplain e' (List.mem_cons_of_mem e he'))

end Grant

def catalogued : Microservice := { rebuilt with rebuild := false, hasCatalogItems := true }

def catalogWaits : Answers := { absent with catalogGate := .wait }

/-- Its attempt failed, then its catalog made it wait. -/
def waits : List (ℕ × RebuildEvent) :=
  [(0, .checker (.armFailure "ms".toList)), (1, .pass catalogued catalogWaits)]

def upToDate : Answers := { absent with present := true, equal := true,
                                        status := some ⟨.running, false, false⟩ }

/-- With the catalog ready, the container is added within the delay of the failure. -/
theorem missing_grant_kept :
    let es := waits ++ [(2, .pass catalogued absent)]
    Along RebuildEvent.next (GrantKept "ms".toList) .fresh es ∧
      ∃ c, run RebuildEvent.next .fresh waits = some c ∧ c.granted "ms".toList = true ∧
        c.Delayed 2 "ms".toList ∧ issues c 2 catalogued absent = true := by
  refine ⟨(grants_kept_iff _ _ _ ?_).mpr ?_, _, rfl, rfl, rfl, rfl⟩
  · simp [waits, RebuildEvent.Plain, rebuilds, catalogued, rebuilt, catalogWaits, absent]
  · refine ⟨trivial, ?_⟩
    rintro c ⟨⟩
    refine ⟨by rintro - - ⟨⟩, ?_⟩
    rintro c ⟨⟩
    exact ⟨fun _ _ _ => ⟨rfl, rfl⟩, fun _ _ => trivial⟩

/-- The visit with these answers uses up the grant for nothing, and the next attempt waits. -/
def Wastes (a : Answers) : Prop :=
  ∃ c, run RebuildEvent.next .fresh waits = some c ∧ c.granted "ms".toList = true ∧
    issues c 2 catalogued a = false ∧
    (reconcileOne c 2 catalogued a).checker.granted "ms".toList = false ∧
    attemptNeeded (reconcileOne c 2 catalogued a).checker 3 catalogued absent = true ∧
    issues (reconcileOne c 2 catalogued a).checker 3 catalogued absent = false

/-- **Wasted grants.** The volume is held in the visit that uses up the grant, or the container runs
and has nothing to be updated; so the attempt that is due next waits for the delay of the failure
before. -/
theorem grant_wasted : Wastes { absent with volumeHeld := true } ∧ Wastes upToDate :=
  ⟨⟨_, rfl, rfl, rfl, rfl, rfl, rfl⟩, _, rfl, rfl, rfl, rfl, rfl, rfl⟩

end Edgelet.ProcessManager
