import Edgelet.ProcessManager.Reconcile

/-!
# A parked retry and the visits it meets

A task that failed is parked until its delay has elapsed. Most branches of a visit look at the delay
before they queue a create or recreate. This module says which do not, and what follows when none of
them is taken.
-/

namespace Edgelet.ProcessManager

open Lexical Keyed
open RestartStuckChecker hiding consumeRebuildSkip isStuck modify

def rebuilds (ms : Microservice) (a : Answers) : Bool := ms.rebuild || (a.present && a.mountChanged)

def hasRebuildSkip (c : RestartStuckChecker) (ms : Microservice) (a : Answers) : Bool :=
  rebuilds ms a && c.rebuildSkipAvailable ms.microserviceUUID

/-- **The delay of a parked retry holds against a visit**: it is running, and none of the ways
around it is open. -/
structure RetryHeld (c : RestartStuckChecker) (now : ℕ) (ms : Microservice) (a : Answers) :
    Prop where
  delayed : c.Delayed now ms.microserviceUUID
  catalog : rebuilds ms a = false → (c.state ms.microserviceUUID).catalogWait = false
  terminal : shouldForceRecreateFromStatus (if a.present then a.status else a.reported) = true →
    (c.state ms.microserviceUUID).criSkipUsed = true
  rebuild : a.present = true → hasRebuildSkip c ms a = true →
    ∀ st ∈ a.status, st.nonRestartable = false ∧ st.status ≠ .created
  drift : a.present = true → (∀ st ∈ a.status, st.status = .running → a.graceElapsed = true) ∨
    hasRebuildSkip c ms a = true
  volume : a.present = true → volumeWaitActive a.reported = true → hasRebuildSkip c ms a = true

section Unparks

variable {c : RestartStuckChecker} {now : ℕ} {ms : Microservice} {a : Answers}
  {st : ReportedStatus} {skip : RecreateSkip}

def Unparked (c : RestartStuckChecker) (uuid : Str) : Prop :=
  ∀ t ∈ c.parked, t.microserviceUUID ≠ uuid

variable {uuid : Str}

theorem unparked_consumeRebuildSkip {c : RestartStuckChecker} :
    Unparked (consumeRebuildSkip c uuid .rebuild) uuid :=
  fun _ ht => (mem_parked_consumeRebuildSkip.mp ht).2

theorem recreateSkipReason_spec (c : RestartStuckChecker) (ms : Microservice) :
    (recreateSkipReason c ms).2 =
      if ms.rebuild then
        if c.rebuildSkipAvailable ms.microserviceUUID then .rebuild else .none
      else if (c.state ms.microserviceUUID).catalogWait then .catalogReady else .none := by
  unfold recreateSkipReason
  split
  · rfl
  · unfold consumeCatalogReadySkip
    simp only [noteRebuildCleared, modify_state_self]
    split <;> rename_i h <;> split at h <;> simp_all

theorem recreateSkipReason_state (c : RestartStuckChecker) (ms : Microservice) :
    ((recreateSkipReason c ms).1.state ms.microserviceUUID).nextAttemptAt =
        (c.state ms.microserviceUUID).nextAttemptAt ∧
      ((recreateSkipReason c ms).1.state ms.microserviceUUID).criSkipUsed =
        (c.state ms.microserviceUUID).criSkipUsed := by
  unfold recreateSkipReason
  split
  · exact ⟨rfl, rfl⟩
  · unfold consumeCatalogReadySkip
    simp only [noteRebuildCleared, modify_state_self]
    split <;> rename_i h <;> split at h <;> simp_all
    all_goals
      obtain rfl := h
      simp

theorem recordRestart_delayed (h : c.Delayed now ms.microserviceUUID) :
    (recordRestart c now ms).Delayed now ms.microserviceUUID := by
  unfold recordRestart
  split
  · exact h
  · exact h.recordIfNew

@[simp] theorem recordRestart_criSkipUsed :
    ((recordRestart c now ms).state ms.microserviceUUID).criSkipUsed =
      (c.state ms.microserviceUUID).criSkipUsed := by
  unfold recordRestart
  split <;> simp

variable {t : ContainerTask}

/-- While the delay is running, only the skip of a rebuild lets an ADD pass, and the ADD uses it. -/
theorem addMissing_consumes (hdelay : c.Delayed now ms.microserviceUUID)
    (hcatalog : skip ≠ .catalogReady)
    (hcri : skip = .nonRestartable → (c.state ms.microserviceUUID).criSkipUsed = true)
    (ht : (addMissing c now ms skip).task.isSome) :
    skip = .rebuild ∧ ∃ c',
      (addMissing c now ms skip).checker = consumeRebuildSkip c' ms.microserviceUUID .rebuild := by
  unfold addMissing at ht ⊢
  simp only at ht ⊢
  split at ht
  · cases ht
  · rename_i hpull
    split at ht
    · cases ht
    · rename_i hready
      rw [if_neg hpull, if_neg hready]
      rw [Bool.not_eq_false] at hready
      rcases ready_of_delayed hdelay.pullReady hready with h | h | ⟨h, hused⟩
      · subst h
        exact ⟨rfl, _, rfl⟩
      · exact absurd h hcatalog
      · rw [pullReady_criSkipUsed, hcri h] at hused
        cases hused

theorem recreateTerminal_held {grace held : Bool} (hdelay : c.Delayed now ms.microserviceUUID)
    (hcri : (c.state ms.microserviceUUID).criSkipUsed = true) :
    (recreateTerminal c now ms .none st grace held).task = none := by
  have hready : (c.ready now ms.microserviceUUID (nonRestartableSkip .none)).2 = false := by
    by_contra hne
    rw [Bool.not_eq_false] at hne
    rcases ready_of_delayed hdelay hne with h | h | ⟨-, hused⟩
    · cases h
    · cases h
    · rw [hcri] at hused
      cases hused
  simp [recreateTerminal, hready]

theorem ready_none_of_delayed (hdelay : c.Delayed now uuid) :
    (c.ready now uuid .none).2 = false := by
  by_contra hne
  rw [Bool.not_eq_false] at hne
  rcases ready_of_delayed hdelay hne with h | h | ⟨h, -⟩ <;> cases h

theorem startCreated_held (hdelay : c.Delayed now ms.microserviceUUID) :
    (startCreated c now ms .none st a).task = none := by
  simp [startCreated, ready_none_of_delayed hdelay]

theorem queueUpdate_held (hdelay : c.Delayed now ms.microserviceUUID)
    (hstatus : st.status ≠ .running) (hskip : (recreateSkipReason c ms).2 = .none) :
    (queueUpdate c now ms st false).task = none := by
  have hdelay' : (recreateSkipReason c ms).1.Delayed now ms.microserviceUUID :=
    hdelay.of_eq (recreateSkipReason_state c ms).1
  unfold queueUpdate
  simp only [hskip, hstatus, ne_eq, not_false_eq_true, and_self, if_true, reduceCtorEq, and_false,
    if_false]
  split
  · rfl
  · rw [ready_none_of_delayed (recordRestart_delayed hdelay'.pullReady)]
    rfl

theorem queueUpdate_consumes {released : Bool} (hskip : (recreateSkipReason c ms).2 = .rebuild)
    (ht : (queueUpdate c now ms st released).task.isSome) :
    ∃ c', (queueUpdate c now ms st released).checker =
      consumeRebuildSkip c' ms.microserviceUUID .rebuild := by
  unfold queueUpdate at ht ⊢
  simp only [hskip] at ht ⊢
  split at ht
  · cases ht
  · rename_i hpull
    rw [if_neg hpull]
    split
    · split
      · exact ⟨_, rfl⟩
      · split
        · rename_i hready
          cases hready
        · exact ⟨_, rfl⟩
    · exact ⟨_, rfl⟩

def SameSkips (c c' : RestartStuckChecker) (uuid : Str) : Prop :=
  (c'.state uuid).catalogWait = (c.state uuid).catalogWait ∧
    (c'.state uuid).rebuildSkipUsed = (c.state uuid).rebuildSkipUsed

theorem SameSkips.skipReason {c c' : RestartStuckChecker} {ms ms' : Microservice}
    (h : SameSkips c c' ms.microserviceUUID) (huuid : ms'.microserviceUUID = ms.microserviceUUID)
    (hrebuild : ms'.rebuild = ms.rebuild) :
    (recreateSkipReason c' ms').2 = (recreateSkipReason c ms).2 := by
  rw [recreateSkipReason_spec, recreateSkipReason_spec, huuid, hrebuild,
    rebuildSkipAvailable, rebuildSkipAvailable, h.1, h.2]

theorem sameSkips_recordRestart : SameSkips c (recordRestart c now ms) ms.microserviceUUID := by
  unfold recordRestart recordIfNew
  split
  · exact ⟨rfl, rfl⟩
  · split
    · exact ⟨rfl, rfl⟩
    · constructor <;> simp [armFailureLocked]

theorem sameSkips_observeExit : SameSkips c (observeExit c now ms st).1 ms.microserviceUUID := by
  unfold observeExit
  split
  · simp only
    split <;> exact sameSkips_recordRestart
  · exact ⟨rfl, rfl⟩

theorem skipReason_again (h : (recreateSkipReason c ms).2 ≠ .catalogReady) :
    (recreateSkipReason (recreateSkipReason c ms).1 ms).2 = (recreateSkipReason c ms).2 := by
  have hspec := recreateSkipReason_spec c ms
  by_cases hrebuild : ms.rebuild = true
  · simp [recreateSkipReason, hrebuild]
  · have hwait : (c.state ms.microserviceUUID).catalogWait = false := by
      by_contra hne
      rw [Bool.not_eq_false] at hne
      rw [if_neg hrebuild, if_pos hne] at hspec
      exact h hspec
    simp [recreateSkipReason, hrebuild, consumeCatalogReadySkip,
      noteRebuildCleared, hwait]

theorem observeExit_delayed (h : c.Delayed now ms.microserviceUUID) :
    (observeExit c now ms st).1.Delayed now ms.microserviceUUID := by
  unfold observeExit
  split
  · simp only
    split <;> exact recordRestart_delayed h
  · exact h

theorem observeExit_running :
    (observeExit c now ms st).2.2.status = .running ↔ st.status = .running := by
  unfold observeExit
  split
  · rename_i hexit
    simp only
    split
    · simp [hexit]
    · exact Iff.rfl
  · exact Iff.rfl

theorem syncRuntimeStatus_rebuildSkipUsed {uuid u : Str} {grace : Bool} :
    ((syncRuntimeStatus c uuid st grace).state u).rebuildSkipUsed =
      (c.state u).rebuildSkipUsed := by
  unfold syncRuntimeStatus
  split
  · by_cases hu : u = uuid
    · subst hu
      simp [resetBackoff, unpark]
    · simp [resetBackoff, RestartStuckChecker.modify, hu,
        unpark]
  · rfl

variable {ms' : Microservice}

theorem skipReason_rebuild_of_same {st' : ReportedStatus}
    {grace : Bool} (huuid : ms'.microserviceUUID = ms.microserviceUUID)
    (hrebuild : ms'.rebuild = ms.rebuild) (h : (recreateSkipReason c ms).2 = .rebuild) :
    (recreateSkipReason (syncRuntimeStatus (observeExit (recreateSkipReason c ms).1 now ms st).1
      uuid st' grace) ms').2 = .rebuild := by
  have hms : ms.rebuild = true := by
    by_contra hne
    rw [recreateSkipReason_spec, if_neg hne] at h
    split at h <;> cases h
  have hsame : SameSkips c (observeExit (recreateSkipReason c ms).1 now ms st).1
      ms.microserviceUUID := by
    have hc : (recreateSkipReason c ms).1 = c := by simp [recreateSkipReason, hms]
    rw [hc]
    exact sameSkips_observeExit
  rw [recreateSkipReason_spec, if_pos hms] at h
  rw [recreateSkipReason_spec, if_pos (hrebuild.trans hms), huuid,
    rebuildSkipAvailable, syncRuntimeStatus_rebuildSkipUsed, hsame.2]
  exact h

theorem NoNewRetry.unparked {c c' : RestartStuckChecker} (h : NoNewRetry c c')
    (hc : Unparked c uuid) : Unparked c' uuid :=
  fun t ht => hc t (h t ht)

theorem recordMissing_delayed {reported : Option ReportedStatus}
    (h : c.Delayed now ms.microserviceUUID) :
    (recordMissing c now ms reported).Delayed now ms.microserviceUUID := by
  unfold recordMissing
  split
  · exact recordRestart_delayed h
  · exact h

theorem recordMissing_criSkipUsed {reported : Option ReportedStatus} :
    ((recordMissing c now ms reported).state ms.microserviceUUID).criSkipUsed =
      (c.state ms.microserviceUUID).criSkipUsed := by
  unfold recordMissing
  split
  · exact recordRestart_criSkipUsed
  · rfl

theorem reconcileMissing_of_task (ht : (reconcileMissing c now ms a).task = some t) :
    (isStuck ms = true → shouldForceRecreateFromStatus a.reported = true) ∧
      reconcileMissing c now ms a =
        addMissing (recordMissing (recreateSkipReason c ms).1 now ms a.reported) now (unstick ms)
          (if isStuck ms then nonRestartableSkip (recreateSkipReason c ms).2
            else (recreateSkipReason c ms).2) := by
  unfold reconcileMissing at ht ⊢
  simp only at ht ⊢
  split at ht
  · cases ht
  rename_i hgate
  split at ht
  · cases ht
  rename_i hstuck
  split at ht
  · cases ht
  rename_i hfailed
  split at ht
  · cases ht
  rename_i hheld
  rw [if_neg hgate, if_neg hstuck, if_neg hfailed, if_neg hheld]
  refine ⟨fun hpassed => ?_, rfl⟩
  by_contra hforce
  exact hstuck ⟨hpassed, by simpa using hforce⟩

theorem skipReason_ne_nonRestartable : (recreateSkipReason c ms).2 ≠ .nonRestartable := by
  rw [recreateSkipReason_spec]
  split <;> split <;> simp

theorem RetryHeld.skipReason_missing (hpresent : a.present = false) (h : RetryHeld c now ms a) :
    (recreateSkipReason c ms).2 ≠ .catalogReady := by
  rw [recreateSkipReason_spec]
  by_cases hrebuild : ms.rebuild = true
  · rw [if_pos hrebuild]
    split <;> simp
  · rw [if_neg hrebuild, h.catalog (by simp [rebuilds, hpresent, hrebuild])]
    simp

theorem reconcileMissing_unparks (hpresent : a.present = false) (h : RetryHeld c now ms a)
    (ht : (reconcileMissing c now ms a).task = some t) :
    Unparked (reconcileMissing c now ms a).checker ms.microserviceUUID := by
  obtain ⟨hpassed, heq⟩ := reconcileMissing_of_task ht
  obtain ⟨hdelayed, hcri⟩ := recreateSkipReason_state c ms
  have huuid := (unstick_spec ms).1
  rw [heq] at ht ⊢
  rw [← huuid]
  refine (addMissing_consumes ?_ ?_ (fun hskip => ?_) (Option.isSome_of_mem ht)).2.elim
    fun c' hc' => hc' ▸ unparked_consumeRebuildSkip
  · rw [huuid]
    exact recordMissing_delayed (h.delayed.of_eq hdelayed)
  · have hcatalog := h.skipReason_missing hpresent
    unfold nonRestartableSkip
    split
    · split
      · simp
      · exact hcatalog
    · exact hcatalog
  · have hstuck : isStuck ms = true := by
      by_contra hnot
      rw [if_neg hnot] at hskip
      exact skipReason_ne_nonRestartable hskip
    rw [huuid, recordMissing_criSkipUsed, hcri]
    refine h.terminal ?_
    rw [hpresent]
    exact hpassed hstuck

theorem rebuild_refreshCatalogProjection :
    (refreshCatalogProjection ms a).rebuild = (ms.rebuild || a.mountChanged) := by
  unfold refreshCatalogProjection
  split
  next h => simp [h]
  next h => simp [h]

variable {c' : RestartStuckChecker}

theorem RetryHeld.skipReason (hpresent : a.present = true)
    (h : RetryHeld c now ms a) (hc : SameSkips c c' ms.microserviceUUID) :
    (recreateSkipReason c' (refreshCatalogProjection ms a)).2 =
      if hasRebuildSkip c ms a then .rebuild else .none := by
  obtain ⟨huuid, -⟩ := refreshCatalogProjection_spec ms a
  have hrebuilds : rebuilds ms a = (ms.rebuild || a.mountChanged) := by rw [rebuilds, hpresent]; rfl
  rw [recreateSkipReason_spec, huuid, rebuild_refreshCatalogProjection, ← hrebuilds,
    rebuildSkipAvailable, hc.1, hc.2, hasRebuildSkip, rebuildSkipAvailable]
  cases hrebuild : rebuilds ms a with
  | true => simp
  | false => simp [h.catalog hrebuild]

theorem updateMicroservice_unparks
    (hrebuild : (recreateSkipReason c' ms').2 = .rebuild ∨
      (st.status = .running ∧ Unparked c' ms'.microserviceUUID) ∨
      (st.status ≠ .running ∧ c'.Delayed now ms'.microserviceUUID ∧
        (recreateSkipReason c' ms').2 = .none ∧ volumeWaitActive a.reported = false))
    (ht : (updateMicroservice c' now ms' st a).task = some t) :
    Unparked (updateMicroservice c' now ms' st a).checker ms'.microserviceUUID := by
  have hsame : (recreateSkipReason c' ms'.clearStuck).2 = (recreateSkipReason c' ms').2 := by
    rw [recreateSkipReason_spec, recreateSkipReason_spec]
    rfl
  rcases hrebuild with hskip | ⟨-, hunparked⟩ | ⟨hstatus, hdelay, hskip, hvolume⟩
  · unfold updateMicroservice at ht ⊢
    split at ht
    · cases ht
    · rename_i hshould
      rw [if_neg hshould]
      split at ht
      · cases ht
      · rename_i hheld
        rw [if_neg hheld]
        obtain ⟨c', hc'⟩ := queueUpdate_consumes (hsame.trans hskip) (Option.isSome_of_mem ht)
        rw [hc']
        exact unparked_consumeRebuildSkip
  · exact updateMicroservice_sound.checker.noNewRetry.unparked hunparked
  · unfold updateMicroservice at ht
    split at ht
    · cases ht
    · split at ht
      · cases ht
      · have hheld : (queueUpdate c' now ms'.clearStuck st false).task = none :=
          queueUpdate_held hdelay hstatus (hsame.trans hskip)
        rw [hvolume, hheld] at ht
        cases ht

theorem observeRunning_same
    (hc : (if st.status = .running then c.observeRunning uuid else c) = c') :
    SameSkips c c' uuid ∧ (c'.state uuid).nextAttemptAt = (c.state uuid).nextAttemptAt ∧
      (c'.state uuid).criSkipUsed = (c.state uuid).criSkipUsed := by
  rw [← hc]
  split
  · refine ⟨⟨?_, ?_⟩, ?_, ?_⟩ <;> simp [observeRunning]
  · exact ⟨⟨rfl, rfl⟩, rfl, rfl⟩

theorem afterExit_unparks
    {seen : RestartStuckChecker × Microservice × ReportedStatus}
    (hseen : observeExit (recreateSkipReason c' ms').1 now ms' st = seen)
    (hpresent : a.present = true) (h : RetryHeld c now ms a) (hst : a.status = some st)
    (huuid : ms'.microserviceUUID = ms.microserviceUUID)
    (hreason : (recreateSkipReason c' ms').2 = if hasRebuildSkip c ms a then .rebuild else .none)
    (hdelay : c'.Delayed now ms'.microserviceUUID)
    (ht : (updateMicroservice (syncRuntimeStatus seen.1 ms.microserviceUUID seen.2.2
      a.graceElapsed) now seen.2.1 seen.2.2 a).task = some t) :
    Unparked (updateMicroservice (syncRuntimeStatus seen.1 ms.microserviceUUID seen.2.2
      a.graceElapsed) now seen.2.1 seen.2.2 a).checker ms.microserviceUUID := by
  subst hseen
  obtain ⟨-, hexit, -, hexit'⟩ := observeExit_spec (recreateSkipReason c' ms').1 now ms' st
  rw [← huuid, ← hexit] at ht ⊢
  refine updateMicroservice_unparks ?_ ht
  by_cases hrebuild : hasRebuildSkip c ms a = true
  · left
    rw [if_pos hrebuild] at hreason
    exact skipReason_rebuild_of_same hexit hexit' hreason
  rw [if_neg hrebuild] at hreason
  right
  by_cases hrunning : st.status = .running
  · left
    have hgrace : a.graceElapsed = true :=
      (h.drift hpresent).resolve_right hrebuild st hst hrunning
    refine ⟨observeExit_running.mpr hrunning, ?_⟩
    rw [syncRuntimeStatus, if_pos ⟨observeExit_running.mpr hrunning, hgrace⟩, hexit, huuid]
    exact fun t ht => (mem_parked_resetBackoff.mp ht).2
  · right
    have hnot : (observeExit (recreateSkipReason c' ms').1 now ms' st).2.2.status ≠ .running :=
      mt observeExit_running.mp hrunning
    refine ⟨hnot, ?_, ?_, ?_⟩
    · rw [syncRuntimeStatus, if_neg fun h => hnot h.1, hexit]
      exact observeExit_delayed (hdelay.of_eq (recreateSkipReason_state c' ms').1)
    · rw [syncRuntimeStatus, if_neg fun h => hnot h.1,
        sameSkips_observeExit.skipReason hexit hexit', skipReason_again]
      · exact hreason
      · rw [hreason]
        simp
    · by_contra hvol
      rw [Bool.not_eq_false] at hvol
      exact hrebuild (h.volume hpresent hvol)

theorem reconcileExisting_unparks (hpresent : a.present = true) (h : RetryHeld c now ms a)
    (ht : (reconcileExisting c now ms a).task = some t) :
    Unparked (reconcileExisting c now ms a).checker ms.microserviceUUID := by
  obtain ⟨huuid, -⟩ := refreshCatalogProjection_spec ms a
  unfold reconcileExisting at ht ⊢
  simp only at ht ⊢
  split at ht
  · cases ht
  rename_i hstuck
  rw [if_neg hstuck]
  cases hstatus : a.status with
  | none =>
    rw [hstatus] at ht
    cases ht
  | some st =>
    rw [hstatus] at ht
    simp only at ht ⊢
    generalize hc :
      (if st.status = .running then c.observeRunning ms.microserviceUUID else c) = c' at ht ⊢
    obtain ⟨hskips, hnext, hcri⟩ := observeRunning_same hc
    have hdelay := h.delayed.of_eq hnext
    have hreason := h.skipReason hpresent hskips
    have hterminal := fun hst => h.rebuild hpresent hst st hstatus
    set ms' := refreshCatalogProjection ms a
    rw [← huuid] at hdelay hcri
    have hdelay' := hdelay.of_eq (recreateSkipReason_state c' ms').1
    split at ht
    · rename_i hnr
      have hnone : (recreateSkipReason c' ms').2 = .none := by
        rw [hreason, if_neg]
        intro hst
        rw [(hterminal hst).1] at hnr
        cases hnr
      rw [hnone, recreateTerminal_held (recordRestart_delayed hdelay')] at ht
      · cases ht
      · rw [recordRestart_criSkipUsed, (recreateSkipReason_state c' ms').2, hcri, huuid]
        refine h.terminal ?_
        simp [hpresent, hstatus, shouldForceRecreateFromStatus, hnr]
    rename_i hnr
    split at ht
    · rename_i hcreated
      have hnone : (recreateSkipReason c' ms').2 = .none := by
        rw [hreason, if_neg]
        exact fun hst => (hterminal hst).2 hcreated
      rw [hnone, startCreated_held hdelay'] at ht
      cases ht
    rename_i hcreated
    rw [if_neg hnr, if_neg hcreated]
    exact afterExit_unparks rfl hpresent h hstatus huuid hreason hdelay ht

/-- **A visit drops the retry it overtakes**: a visit that queues a create or recreate, while
the delay of a parked retry holds against it, has dropped that retry. -/
theorem reconcileOne_unparks (h : RetryHeld c now ms a)
    (ht : (reconcileOne c now ms a).task = some t)
    (hcreates : t.creates ms.microserviceUUID = true) :
    Unparked (reconcileOne c now ms a).checker ms.microserviceUUID := by
  unfold reconcileOne at ht ⊢
  split at ht
  · split at ht
    · rw [Option.some.injEq] at ht
      subst ht
      unfold deleteMicroservice newContainerTask ContainerTask.creates at hcreates
      split at hcreates <;> simp at hcreates
    · cases ht
  · rename_i hdelete
    rw [if_neg hdelete]
    split at ht
    · rename_i hpresent
      rw [if_pos hpresent]
      exact reconcileMissing_unparks hpresent h ht
    · rename_i hpresent
      rw [if_neg hpresent]
      exact reconcileExisting_unparks (by simpa using hpresent) h ht

end Unparks

end Edgelet.ProcessManager
