import Edgelet.ProcessManager.Status

/-!
# The running grace

A microservice that has been running for a while gets its error message cleared and its backoff
reset. The tracker that measures this sees every status read off the runtime with what was recorded
before. A created container is recorded without a word to the tracker, so the clock of the previous
one goes on.
-/

namespace Edgelet.ProcessManager

open Lexical Keyed

/-! ## The tracker -/

def errorClearGrace : ℕ := 30

structure RunningGraceTracker where
  runningSince : Str → Option ℕ
  containerID : Str → Str

namespace RunningGraceTracker

variable (t : RunningGraceTracker) (now : ℕ) (uuid : Str)

def set (since : Option ℕ) (cid : Str) : RunningGraceTracker :=
  ⟨Function.update t.runningSince uuid since, Function.update t.containerID uuid cid⟩

def observe (prevState : MicroserviceState) (prevContainerID : Str) (next : MicroserviceStatus) :
    RunningGraceTracker :=
  if next.status ≠ .running then t.set uuid none []
  else
    let nextCID := trimSpace next.containerID
    let prevCID := trimSpace prevContainerID
    let newGeneration := nextCID ≠ [] ∧ prevCID ≠ [] ∧ nextCID ≠ prevCID
    if t.runningSince uuid = none ∨ prevState ≠ .running ∨ newGeneration then
      t.set uuid (some now) nextCID
    else t

def elapsed : Bool :=
  match t.runningSince uuid with
  | none => false
  | some since => decide (since + errorClearGrace ≤ now)

end RunningGraceTracker

def preserveUsageFromPrevious (prev next : MicroserviceStatus) : MicroserviceStatus :=
  let nextCID := trimSpace next.containerID
  if next.status ≠ .running ∨ nextCID = [] ∨ nextCID ≠ trimSpace prev.containerID then next
  else { next with cpuUsage := prev.cpuUsage, memoryUsage := prev.memoryUsage }

structure GraceState where
  tracker : RunningGraceTracker
  reporter : ProcessManagerStatus

def GraceState.initial : GraceState := ⟨⟨fun _ => none, fun _ => []⟩, .new⟩

variable (w : GraceState) (now : ℕ) (uuid : Str) (status : MicroserviceStatus)

def syncMicroserviceStatusToReporter : GraceState :=
  if uuid = [] then w
  else
    let prev := (w.reporter.lookupMicroserviceStatus uuid).getD newMicroserviceStatus
    let tracker := w.tracker.observe now uuid prev.status prev.containerID status
    let status := { status with
      restartCount := prev.restartCount
      imagePullStatus :=
        if trimSpace status.imagePullStatus = [] then trimSpace prev.imagePullStatus
        else status.imagePullStatus }
    let engineMsg := trimSpace (status.errorMessage.getD [])
    let status :=
      if engineMsg ≠ [] then { status with lastError := engineMsg, lastErrorAt := 1000 * now }
      else
        { status with
          lastError := prev.lastError
          lastErrorAt := prev.lastErrorAt
          errorMessage :=
            if status.status = .running ∧ tracker.elapsed now uuid = true ∧
              status.imagePullStatus ≠ imagePullStatusFailed then some [] else prev.errorMessage }
    ⟨tracker, w.reporter.setMicroservicesStatus uuid (preserveUsageFromPrevious prev status)⟩

def recordCreated (uuid containerID podID : Str)
    (ipAddress : Option Str) (pullTracked : Bool) : GraceState :=
  let p := (w.reporter.setMicroservicesState uuid .running).modify uuid fun m =>
    { m with
      startTime := 1000 * now, containerID := containerID, podID := podID
      ipAddress := ipAddress.or m.ipAddress }
  { w with reporter := p.resolveImagePull uuid pullTracked }

def maybeResetRestartBackoff (c : RestartStuckChecker) : RestartStuckChecker :=
  if status.status = .running ∧ w.tracker.elapsed now uuid = true then c.resetBackoff uuid else c

inductive GraceEvent
  | observed (uuid : Str) (status : MicroserviceStatus)
  | created (uuid containerID podID : Str) (ipAddress : Option Str) (pullTracked : Bool)
  | state (uuid : Str) (state : MicroserviceState)

namespace GraceState

def step (w : GraceState) (a : ℕ × GraceEvent) : GraceState :=
  match a.2 with
  | .observed uuid status => syncMicroserviceStatusToReporter w a.1 uuid status
  | .created uuid containerID podID ipAddress pullTracked =>
    recordCreated w a.1 uuid containerID podID ipAddress pullTracked
  | .state uuid st => { w with reporter := w.reporter.setMicroservicesState uuid st }

def after (es : List (ℕ × GraceEvent)) : GraceState := es.foldl GraceState.step initial

def recorded (w : GraceState) (uuid : Str) : MicroserviceStatus :=
  (w.reporter.lookupMicroserviceStatus uuid).getD newMicroserviceStatus

def container (w : GraceState) (uuid : Str) : Str := trimSpace (w.recorded uuid).containerID

end GraceState

/-! ## What was observed -/

open GraceState

/-- Since when the recorded container has been observed running, where it was `since` before the
event. Another container that is recorded has not been observed yet. -/
def observedBy (uuid : Str) (w : GraceState) (since : Option ℕ) (a : ℕ × GraceEvent) : Option ℕ :=
  let same := (w.step a).container uuid = w.container uuid
  match a.2 with
  | .observed u status =>
    if u ≠ uuid ∨ u = [] then since
    else if status.status ≠ .running then none
    else if same then since.or (some a.1) else some a.1
  | _ => if same then since else none

def observedSince (uuid : Str) : GraceState → Option ℕ → List (ℕ × GraceEvent) → Option ℕ
  | _, since, [] => since
  | w, since, a :: as => observedSince uuid (w.step a) (observedBy uuid w since a) as

/-- The event records another container and leaves the clock of the previous one on. -/
def Carries (uuid : Str) (w : GraceState) (a : ℕ × GraceEvent) : Prop :=
  ∃ s, w.tracker.runningSince uuid = some s ∧ (w.step a).tracker.runningSince uuid = some s ∧
    (w.step a).container uuid ≠ w.container uuid ∧
    ∀ status, a.2 = .observed uuid status → s < a.1

/-! ## Steps -/

section Step

variable {w : GraceState} {t : ℕ} {uuid u : Str} {m : MicroserviceStatus}

theorem lookup_setMicroservicesStatus {p : ProcessManagerStatus} :
    (p.setMicroservicesStatus u m).lookupMicroserviceStatus uuid =
      if u = uuid then some m else p.lookupMicroserviceStatus uuid := by
  rw [ProcessManagerStatus.lookupMicroserviceStatus, ProcessManagerStatus.setMicroservicesStatus,
    Table.get?_upsert]
  split <;> rfl

theorem observed_of_ne (h : u ≠ uuid ∨ u = []) :
    (w.step (t, .observed u m)).tracker.runningSince uuid = w.tracker.runningSince uuid ∧
      (w.step (t, .observed u m)).container uuid = w.container uuid := by
  simp only [GraceState.step, syncMicroserviceStatusToReporter]
  split
  · exact ⟨rfl, rfl⟩
  next hne =>
    have hu : u ≠ uuid := h.resolve_right hne
    refine ⟨?_, ?_⟩
    · simp only [RunningGraceTracker.observe, RunningGraceTracker.set]
      repeat' split
      all_goals simp [Function.update_of_ne (Ne.symm hu)]
    · rw [container, GraceState.recorded, lookup_setMicroservicesStatus, if_neg hu]
      rfl

theorem runningSince_observed (hne : uuid ≠ []) :
    (w.step (t, .observed uuid m)).tracker.runningSince uuid =
        (if m.status ≠ .running then none else some t) ∨
      m.status = .running ∧ (w.step (t, .observed uuid m)).tracker.runningSince uuid =
        w.tracker.runningSince uuid := by
  simp only [GraceState.step, syncMicroserviceStatusToReporter, if_neg hne,
    RunningGraceTracker.observe, RunningGraceTracker.set]
  split
  · simp
  next hrunning =>
    rw [not_not] at hrunning
    split
    · simp
    · exact .inr ⟨hrunning, rfl⟩

def Sound (uuid : Str) (t : ℕ) (w : GraceState) (since : Option ℕ) : Prop :=
  (∀ g, since = some g → g ≤ t) ∧
    ∀ s, w.tracker.runningSince uuid = some s → ∃ g, since = some g ∧ g ≤ s

theorem Sound.observed {since : Option ℕ} (h : Sound uuid t w since) (hne : uuid ≠ [])
    (hcarries : ¬ Carries uuid w (t, .observed uuid m)) :
    Sound uuid t (w.step (t, .observed uuid m))
      (observedBy uuid w since (t, .observed uuid m)) := by
  have hclock := runningSince_observed (w := w) (t := t) (m := m) hne
  simp only [observedBy, ne_eq, not_true, false_or, if_neg hne]
  by_cases hrunning : m.status = .running
  · simp only [hrunning, not_true, if_false, ne_eq, true_and] at hclock ⊢
    cases since with
    | none =>
      simp only [Option.none_or, ite_self]
      refine ⟨fun g hg => (Option.some.inj hg).ge, fun s hs => ⟨t, rfl, ?_⟩⟩
      rcases hclock with hclock | hclock
      · exact (Option.some.inj (hclock.symm.trans hs)).le
      · obtain ⟨g, hg, -⟩ := h.2 s (hclock ▸ hs)
        cases hg
    | some g =>
      have hg := h.1 g rfl
      split
      · refine ⟨h.1, fun s hs => ⟨g, rfl, ?_⟩⟩
        rcases hclock with hclock | hclock
        · exact hg.trans (Option.some.inj (hclock.symm.trans hs)).le
        · obtain ⟨g', hg', hle⟩ := h.2 s (hclock ▸ hs)
          exact Option.some.inj hg' ▸ hle
      next hother =>
        refine ⟨fun g hg => (Option.some.inj hg).ge, fun s hs => ⟨t, rfl, ?_⟩⟩
        rcases hclock with hclock | hclock
        · exact (Option.some.inj (hclock.symm.trans hs)).le
        · by_contra hlt
          exact hcarries ⟨s, hclock ▸ hs, hs, hother, fun _ _ => not_le.mp hlt⟩
  · simp only [hrunning, not_false_eq_true, if_true, ne_eq, false_and, or_false] at hclock ⊢
    refine ⟨by simp, fun s hs => ?_⟩
    rw [hclock] at hs
    cases hs

theorem Sound.step {since : Option ℕ} {e : GraceEvent} (h : Sound uuid t w since)
    (hcarries : ¬ Carries uuid w (t, e)) :
    Sound uuid t (w.step (t, e)) (observedBy uuid w since (t, e)) := by
  cases e with
  | observed u m =>
    by_cases hu : u ≠ uuid ∨ u = []
    · simp only [observedBy, if_pos hu]
      refine ⟨h.1, fun s hs => h.2 s ?_⟩
      rw [← (observed_of_ne hu).1]
      exact hs
    · push Not at hu
      obtain ⟨rfl, hne⟩ := hu
      exact h.observed hne hcarries
  | _ =>
    simp only [observedBy]
    split
    · exact h
    next hother =>
      exact ⟨fun _ hg => by simp at hg,
        fun s hs => absurd ⟨s, hs, hs, hother, fun _ hstatus => by simp at hstatus⟩ hcarries⟩

end Step

/-! ## Runs -/

section Runs

variable {w : GraceState} {t : ℕ} {uuid : Str} {since : Option ℕ} {es : List (ℕ × GraceEvent)}

theorem Sound.run (h : Sound uuid t w since) (es : List (ℕ × GraceEvent))
    (hclock : (t :: es.map (·.1)).Pairwise (· ≤ ·))
    (hcarries : ∀ p a, p ++ [a] <+: es → ¬ Carries uuid (p.foldl GraceState.step w) a) :
    ∃ t', Sound uuid t' (es.foldl GraceState.step w) (observedSince uuid w since es) := by
  induction es generalizing w since t with
  | nil => exact ⟨t, h⟩
  | cons a es ih =>
    obtain ⟨hfirst, hclock⟩ := List.pairwise_cons.mp hclock
    have hlater : Sound uuid a.1 w since :=
      ⟨fun g hg => (h.1 g hg).trans (hfirst _ List.mem_cons_self), h.2⟩
    refine ih (hlater.step (hcarries [] a (List.prefix_append [a] es))) hclock fun p b hp => ?_
    exact hcarries (a :: p) b (List.cons_prefix_cons.mpr ⟨rfl, hp⟩)

theorem observedSince_append (es' : List (ℕ × GraceEvent)) :
    observedSince uuid w since (es ++ es') =
      observedSince uuid (es.foldl GraceState.step w) (observedSince uuid w since es) es' := by
  induction es generalizing w since with
  | nil => rfl
  | cons a es ih => exact ih

theorem not_observed_of_carries (since : Option ℕ) {a : ℕ × GraceEvent} (h : Carries uuid w a) :
    ∃ s, (w.step a).tracker.runningSince uuid = some s ∧
      ∀ g, observedBy uuid w since a = some g → s < g ∧ g = a.1 := by
  obtain ⟨t, e⟩ := a
  obtain ⟨s, -, hs, hother, hobserved⟩ := h
  refine ⟨s, hs, fun g hg => ?_⟩
  cases e with
  | observed u m =>
    by_cases hu : u ≠ uuid ∨ u = []
    · exact absurd (observed_of_ne hu).2 hother
    · push Not at hu
      obtain ⟨rfl, hne⟩ := hu
      simp only [observedBy, ne_eq, not_true, false_or, if_neg hne, if_neg hother] at hg
      split at hg
      · cases hg
      · obtain rfl := Option.some.inj hg
        exact ⟨hobserved m rfl, rfl⟩
  | _ =>
    simp only [observedBy, if_neg hother] at hg
    cases hg

end Runs

/-- **The grace measures one container exactly when no clock is carried over.** For every list of
observations, created containers and written states under a clock that does not go back: at every
moment the grace has elapsed only if the recorded container has been observed running for it,
exactly when no event records another container and leaves the clock of the previous one on. -/
theorem grace_one_container_iff (es : List (ℕ × GraceEvent))
    (hclock : (es.map (·.1)).Pairwise (· ≤ ·)) (uuid : Str) :
    (∀ p, p <+: es → ∀ now, (∀ a ∈ p, a.1 ≤ now) →
      (after p).tracker.elapsed now uuid = true →
        ∃ s, observedSince uuid .initial none p = some s ∧ s + errorClearGrace ≤ now) ↔
    ∀ p a, p ++ [a] <+: es → ¬ Carries uuid (after p) a := by
  constructor
  · intro hgrace p a hp hcarries
    obtain ⟨s, hs, hnot⟩ := not_observed_of_carries (observedSince uuid .initial none p) hcarries
    have hafter : after (p ++ [a]) = (after p).step a := List.foldl_concat ..
    have hnow : ∀ b ∈ p ++ [a], b.1 ≤ max a.1 (s + errorClearGrace) := by
      intro b hb
      have hpair := hclock.sublist (hp.sublist.map (·.1))
      rw [List.map_append, List.pairwise_append] at hpair
      rcases List.mem_append.mp hb with hb | hb
      · exact (hpair.2.2 _ (List.mem_map_of_mem hb) _ List.mem_cons_self).trans (le_max_left _ _)
      · rw [List.mem_singleton.mp hb]
        exact le_max_left _ _
    obtain ⟨g, hg, hle⟩ := hgrace _ hp _ hnow (by
      rw [hafter, RunningGraceTracker.elapsed, hs]
      exact decide_eq_true (le_max_right _ _))
    rw [observedSince_append] at hg
    obtain ⟨hlt, rfl⟩ := hnot g hg
    unfold errorClearGrace at hle
    omega
  · intro hcarries p hp now _ helapsed
    have hstart : Sound uuid 0 .initial none := ⟨by simp, by simp [GraceState.initial]⟩
    obtain ⟨_, -, hsound⟩ := hstart.run p
      (List.pairwise_cons.mpr ⟨fun _ _ => Nat.zero_le _, hclock.sublist (hp.sublist.map _)⟩)
      fun q a hq => hcarries q a (hq.trans hp)
    rw [RunningGraceTracker.elapsed] at helapsed
    split at helapsed
    · cases helapsed
    next s hs =>
      obtain ⟨g, hg, hle⟩ := hsound s hs
      exact ⟨g, hg, (Nat.add_le_add_right hle _).trans (of_decide_eq_true helapsed)⟩

/-- Without a replacement the grace of a container is its own. -/
theorem one_container_grace :
    let m := { newMicroserviceStatus with status := .running, containerID := ['a'] }
    (after [(0, .observed ['u'] m)]).tracker.elapsed 30 ['u'] = true ∧
      ∃ s, observedSince ['u'] .initial none [(0, .observed ['u'] m)] = some s ∧
        s + errorClearGrace ≤ 30 := by
  refine ⟨rfl, (grace_one_container_iff _ (List.pairwise_singleton _ _) ['u']).mpr ?_ _
    (List.prefix_refl _) 30 (by simp) rfl⟩
  rintro p a hp ⟨s, hs, -⟩
  obtain rfl : p = [] := by
    have hlength := hp.length_le
    simp only [List.length_append, List.length_singleton] at hlength
    exact List.length_eq_zero_iff.mp (by omega)
  cases hs

/-- A container that ran for a hundred seconds is replaced. One second later the backoff is reset,
although the new container has just been observed for the first time. -/
theorem replaced_container_resets_backoff :
    let m := { newMicroserviceStatus with status := .running, containerID := ['a'] }
    let m' := { m with containerID := ['b'] }
    let es := [(0, .observed ['u'] m), (100, .created ['u'] ['b'] ['b'] none false),
      (101, GraceEvent.observed ['u'] m')]
    let c := (RestartStuckChecker.fresh.armFailure 99 ['u']).1
    (after es).container ['u'] = ['b'] ∧ observedSince ['u'] .initial none es = some 101 ∧
      (after es).tracker.elapsed 101 ['u'] = true ∧
      maybeResetRestartBackoff (after es) 101 ['u'] m' c = c.resetBackoff ['u'] :=
  ⟨rfl, rfl, rfl, rfl⟩

end Edgelet.ProcessManager
