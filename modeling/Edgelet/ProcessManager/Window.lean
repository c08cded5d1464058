import Edgelet.ProcessManager.Task

/-!
# The window of the restart checker

The checker drops the times of restarts and failed starts that have left the window whenever it
looks at them or adds one. Beside it stands the full history since the microservice was last
cleared. Under a clock that does not go back no later question tells the two apart.
-/

namespace Edgelet.ProcessManager

open Lexical Keyed

namespace RestartStuckChecker

/-! ## Operations -/

variable (c : RestartStuckChecker) (now : ℕ) (uuid : Str)

def pruneRestarts : RestartStuckChecker :=
  { c with
    restarts := fun u => if u = uuid then pruneTimestamps now (c.restarts u) else c.restarts u }

def pruneContainerCreation : RestartStuckChecker :=
  { c with
    containerCreation := fun u =>
      if u = uuid then pruneTimestamps now (c.containerCreation u) else c.containerCreation u }

def clear : RestartStuckChecker :=
  let c := { c with
    restarts := fun u => if u = uuid then [] else c.restarts u
    containerCreation := fun u => if u = uuid then [] else c.containerCreation u }
  (c.unpark uuid).modify uuid fun _ => .zero

end RestartStuckChecker

inductive CheckerOp
  | isStuck (uuid : Str)
  | isStuckInContainerCreation (uuid : Str)
  | recordIfNew (uuid : Str)
  | recordFailedStart (uuid : Str)
  | observeRunning (uuid : Str)
  | resetBackoff (uuid : Str)
  | consumeRebuildSkip (uuid : Str)
  | noteRebuildCleared (uuid : Str)
  | armPullMiss (uuid image : Str)
  | pullReady (uuid image : Str) (skip : RecreateSkip)
  | clearPullWait (uuid : Str)
  | ready (uuid : Str) (skip : RecreateSkip)
  | markCatalogWaiting (uuid : Str)
  | consumeCatalogReadySkip (uuid : Str)
  | armFailure (uuid : Str)
  | parkTask (t : ContainerTask)
  | takeDueTasks
  | clear (uuid : Str)
  | read
  deriving DecidableEq

namespace RestartStuckChecker

def step (c : RestartStuckChecker) (a : ℕ × CheckerOp) : RestartStuckChecker :=
  match a.2 with
  | .isStuck uuid => c.pruneRestarts a.1 uuid
  | .isStuckInContainerCreation uuid => c.pruneContainerCreation a.1 uuid
  | .recordIfNew uuid => c.recordIfNew a.1 uuid
  | .recordFailedStart uuid => c.recordFailedStart a.1 uuid
  | .observeRunning uuid => c.observeRunning uuid
  | .resetBackoff uuid => c.resetBackoff uuid
  | .consumeRebuildSkip uuid => c.consumeRebuildSkip uuid
  | .noteRebuildCleared uuid => c.noteRebuildCleared uuid
  | .armPullMiss uuid image => c.armPullMiss a.1 uuid image
  | .pullReady uuid image skip => (c.pullReady a.1 uuid image skip).1
  | .clearPullWait uuid => c.clearPullWait uuid
  | .ready uuid skip => (c.ready a.1 uuid skip).1
  | .markCatalogWaiting uuid => c.markCatalogWaiting uuid
  | .consumeCatalogReadySkip uuid => (c.consumeCatalogReadySkip uuid).1
  | .armFailure uuid => (c.armFailure a.1 uuid).1
  | .parkTask t => c.parkTask t
  | .takeDueTasks => (c.takeDueTasks a.1).1
  | .clear uuid => c.clear uuid
  | .read => c

def after (ops : List (ℕ × CheckerOp)) : RestartStuckChecker := ops.foldl step fresh

end RestartStuckChecker

open RestartStuckChecker

/-! ## The history -/

inductive Change
  | keep
  | prune
  | record
  | clear

variable (uuid : Str) (now : ℕ) (dates : List ℕ)

def Change.apply : Change → List ℕ
  | keep => dates
  | prune => pruneTimestamps now dates
  | record => pruneTimestamps now dates ++ [now]
  | clear => []

def Change.log : Change → List ℕ
  | keep | prune => dates
  | record => dates ++ [now]
  | clear => []

def restartChange (c : RestartStuckChecker) : CheckerOp → Change
  | .isStuck u => if u = uuid then .prune else .keep
  | .recordIfNew u => if u = uuid ∧ (c.state uuid).pending = false then .record else .keep
  | .consumeRebuildSkip u | .clear u => if u = uuid then .clear else .keep
  | _ => .keep

def failedChange (_ : RestartStuckChecker) : CheckerOp → Change
  | .isStuckInContainerCreation u => if u = uuid then .prune else .keep
  | .recordFailedStart u => if u = uuid then .record else .keep
  | .consumeRebuildSkip u | .clear u => if u = uuid then .clear else .keep
  | _ => .keep

def history (change : RestartStuckChecker → CheckerOp → Change) :
    RestartStuckChecker → List ℕ → List (ℕ × CheckerOp) → List ℕ
  | _, dates, [] => dates
  | c, dates, a :: as => history change (c.step a) ((change c a.2).log a.1 dates) as

def recorded (uuid : Str) : RestartStuckChecker → List (ℕ × CheckerOp) → ℕ
  | _, [] => 0
  | c, a :: as =>
    (if a.2 = .recordIfNew uuid ∧ (c.state uuid).pending = false then 1 else 0) +
      recorded uuid (c.step a) as

def CheckerOp.endsEpisode : CheckerOp → Bool
  | .observeRunning u | .resetBackoff u | .consumeRebuildSkip u | .clear u => u = uuid
  | _ => false

def CheckerOp.isQuery : CheckerOp → Bool
  | .isStuck _ | .isStuckInContainerCreation _ => true
  | _ => false

def Clock (ops : List (ℕ × CheckerOp)) (now : ℕ) : Prop :=
  (ops.map (·.1) ++ [now]).Pairwise (· ≤ ·)

/-! ## Steps -/

namespace RestartStuckChecker

section Step

variable (c : RestartStuckChecker) (t : ℕ) (op : CheckerOp) (uuid : Str)

@[simp] theorem modify_restarts {f : UuidRestartState → UuidRestartState} :
    (c.modify uuid f).restarts = c.restarts := rfl

@[simp] theorem modify_containerCreation {f : UuidRestartState → UuidRestartState} :
    (c.modify uuid f).containerCreation = c.containerCreation := rfl

theorem restarts_step : (c.step (t, op)).restarts uuid =
    (restartChange uuid c op).apply t (c.restarts uuid) := by
  cases op with
  | isStuck u | consumeRebuildSkip u | clear u =>
    by_cases hu : uuid = u
    · simp [step, pruneRestarts, consumeRebuildSkip, clear, unpark, restartChange, Change.apply, hu]
    · simp [step, pruneRestarts, consumeRebuildSkip, clear, unpark, restartChange, Change.apply, hu,
        Ne.symm hu]
  | recordIfNew u =>
    by_cases hu : uuid = u
    · subst hu
      simp only [step, recordIfNew, restartChange]
      cases (c.state uuid).pending <;> simp [armFailureLocked, Change.apply]
    · simp only [step, recordIfNew, restartChange, Ne.symm hu, false_and, if_false, Change.apply]
      split <;> simp [armFailureLocked, hu]
  | pullReady | ready | consumeCatalogReadySkip | parkTask =>
    simp only [step, pullReady, ready, consumeCatalogReadySkip, parkTask]
    repeat' split
    all_goals rfl
  | _ => rfl

theorem containerCreation_step : (c.step (t, op)).containerCreation uuid =
    (failedChange uuid c op).apply t (c.containerCreation uuid) := by
  cases op with
  | isStuckInContainerCreation u | consumeRebuildSkip u | clear u | recordFailedStart u =>
    by_cases hu : uuid = u
    · simp [step, pruneContainerCreation, consumeRebuildSkip, clear, recordFailedStart,
        armFailureLocked, unpark, failedChange, Change.apply, hu]
    · simp [step, pruneContainerCreation, consumeRebuildSkip, clear, recordFailedStart,
        armFailureLocked, unpark, failedChange, Change.apply, hu, Ne.symm hu]
  | recordIfNew | pullReady | ready | consumeCatalogReadySkip | parkTask =>
    simp only [step, recordIfNew, pullReady, ready, consumeCatalogReadySkip, parkTask]
    repeat' split
    all_goals rfl
  | _ => rfl

theorem pending_step : ((c.step (t, op)).state uuid).pending =
    if op.endsEpisode uuid then false
    else if op = .recordIfNew uuid ∨ op = .recordFailedStart uuid then true
    else (c.state uuid).pending := by
  cases op with
  | observeRunning u | resetBackoff u | consumeRebuildSkip u | clear u | recordFailedStart u =>
    by_cases hu : uuid = u
    · simp [step, observeRunning, resetBackoff, consumeRebuildSkip, clear, recordFailedStart,
        armFailureLocked, unpark, CheckerOp.endsEpisode, UuidRestartState.zero, hu]
    · simp [step, observeRunning, resetBackoff, consumeRebuildSkip, clear, recordFailedStart,
        armFailureLocked, unpark, modify_state, CheckerOp.endsEpisode, hu, Ne.symm hu]
  | recordIfNew u =>
    simp only [step, recordIfNew]
    by_cases hu : uuid = u
    · subst hu
      cases hpending : (c.state uuid).pending <;>
        simp [armFailureLocked, CheckerOp.endsEpisode, hpending]
    · split <;> simp [armFailureLocked, modify_state, CheckerOp.endsEpisode, hu, Ne.symm hu]
  | pullReady | ready | consumeCatalogReadySkip | parkTask =>
    simp only [step, pullReady, ready, consumeCatalogReadySkip, parkTask, CheckerOp.endsEpisode]
    repeat' split
    all_goals simp_all [modify_state, apply_ite UuidRestartState.pending]
  | _ => simp [step, noteRebuildCleared, armPullMiss, clearPullWait, markCatalogWaiting, armFailure,
      armFailureLocked, takeDueTasks, pruneRestarts, pruneContainerCreation, modify_state,
      apply_ite UuidRestartState.pending, CheckerOp.endsEpisode]

end Step

end RestartStuckChecker

/-! ## Runs -/

section Runs

variable {c c' : RestartStuckChecker} {uuid : Str} {ops : List (ℕ × CheckerOp)} {now t : ℕ}
  {dates full : List ℕ}

theorem prune_prune (h : t ≤ now) (dates : List ℕ) :
    pruneTimestamps now (pruneTimestamps t dates) = pruneTimestamps now dates := by
  rw [pruneTimestamps, pruneTimestamps, List.filter_filter]
  refine List.filter_congr fun d _ => ?_
  simp only [Bool.and_eq_left_iff_imp, decide_eq_true_eq]
  omega

def Agrees (t : ℕ) (dates full : List ℕ) : Prop :=
  ∀ now, t ≤ now → pruneTimestamps now dates = pruneTimestamps now full

theorem Agrees.change {t' : ℕ} (h : Agrees t dates full) (ht : t ≤ t') (ch : Change) :
    Agrees t' (ch.apply t' dates) (ch.log t' full) := by
  intro now hnow
  have hold := h now (ht.trans hnow)
  cases ch with
  | keep => exact hold
  | clear => rfl
  | prune => exact (prune_prune hnow dates).trans hold
  | record =>
    have happend : ∀ l, pruneTimestamps now (l ++ [t']) =
        pruneTimestamps now l ++ pruneTimestamps now [t'] := fun l => List.filter_append ..
    rw [Change.apply, Change.log, happend, happend, prune_prune hnow, hold]

theorem agrees_history {change : RestartStuckChecker → CheckerOp → Change}
    (kept : RestartStuckChecker → List ℕ)
    (hstep : ∀ c t op, kept (c.step (t, op)) = (change c op).apply t (kept c))
    (h : Agrees t (kept c) full) (ht : ∀ a ∈ ops, t ≤ a.1) (hclock : Clock ops now)
    (hnow : t ≤ now) :
    pruneTimestamps now (kept (ops.foldl RestartStuckChecker.step c)) =
      pruneTimestamps now (history change c full ops) := by
  induction ops generalizing c t full with
  | nil => exact h now hnow
  | cons a ops ih =>
    obtain ⟨hfirst, hclock⟩ := List.pairwise_cons.mp hclock
    refine ih (hstep c a.1 a.2 ▸ h.change (ht a List.mem_cons_self) _) ?_ hclock ?_
    · exact fun b hb => hfirst _ (List.mem_append_left _ (List.mem_map_of_mem hb))
    · exact hfirst now (List.mem_append_right _ List.mem_cons_self)

theorem history_filter (uuid : Str) {change : RestartStuckChecker → CheckerOp → Change}
    (hpending : ∀ c c' : RestartStuckChecker, (c.state uuid).pending = (c'.state uuid).pending →
      change c = change c')
    (hquery : ∀ c op t dates, op.isQuery = true → (change c op).log t dates = dates)
    (h : (c.state uuid).pending = (c'.state uuid).pending) :
    history change c dates ops = history change c' dates (ops.filter (!·.2.isQuery)) := by
  induction ops generalizing c c' dates with
  | nil => rfl
  | cons a ops ih =>
    obtain ⟨t, op⟩ := a
    cases hop : op.isQuery with
    | true =>
      rw [List.filter_cons_of_neg (by simp [hop]), history, hquery c op t dates hop]
      refine ih ?_
      rw [pending_step]
      cases op <;> first | exact h | cases hop
    | false =>
      rw [List.filter_cons_of_pos (by simp [hop]), history, history, hpending c c' h]
      refine ih ?_
      rw [pending_step, pending_step, h]

theorem recorded_eq_zero (hends : ∀ a ∈ ops, a.2.endsEpisode uuid = false)
    (h : (c.state uuid).pending = true) : recorded uuid c ops = 0 := by
  induction ops generalizing c with
  | nil => rfl
  | cons a ops ih =>
    rw [recorded, if_neg (by simp [h]), ih fun b hb => hends b (List.mem_cons_of_mem _ hb)]
    rw [pending_step, hends a List.mem_cons_self, h]
    simp

theorem recorded_le_one (hends : ∀ a ∈ ops, a.2.endsEpisode uuid = false) :
    recorded uuid c ops ≤ 1 := by
  induction ops generalizing c with
  | nil => exact Nat.zero_le _
  | cons a ops ih =>
    have hrest : ∀ b ∈ ops, b.2.endsEpisode uuid = false := fun b hb =>
      hends b (List.mem_cons_of_mem _ hb)
    rw [recorded]
    split
    next hrecord =>
      rw [recorded_eq_zero hrest]
      rw [pending_step, hends a List.mem_cons_self, hrecord.1]
      simp
    · rw [Nat.zero_add]
      exact ih hrest

def restartEvents (uuid : Str) (ops : List (ℕ × CheckerOp)) : List ℕ :=
  history (restartChange uuid) fresh [] ops

def failedStartEvents (uuid : Str) (ops : List (ℕ × CheckerOp)) : List ℕ :=
  history (failedChange uuid) fresh [] ops

theorem prune_restarts (hclock : Clock ops now) :
    pruneTimestamps now ((after ops).restarts uuid) =
      pruneTimestamps now (restartEvents uuid ops) :=
  agrees_history (fun c => c.restarts uuid) (fun c t op => restarts_step c t op uuid)
    (fun _ _ => rfl) (fun _ _ => Nat.zero_le _) hclock (Nat.zero_le _)

theorem prune_failedStarts (hclock : Clock ops now) :
    pruneTimestamps now ((after ops).containerCreation uuid) =
      pruneTimestamps now (failedStartEvents uuid ops) :=
  agrees_history (fun c => c.containerCreation uuid)
    (fun c t op => containerCreation_step c t op uuid)
    (fun _ _ => rfl) (fun _ _ => Nat.zero_le _) hclock (Nat.zero_le _)

theorem restartEvents_filter :
    restartEvents uuid ops = restartEvents uuid (ops.filter (!·.2.isQuery)) := by
  refine history_filter uuid (fun c c' h => ?_) (fun c op t dates hop => ?_) rfl
  · funext op
    cases op <;> simp [restartChange, h]
  · cases op with
    | isStuck u =>
      simp only [restartChange]
      split <;> rfl
    | isStuckInContainerCreation => rfl
    | _ => cases hop

theorem failedStartEvents_filter :
    failedStartEvents uuid ops = failedStartEvents uuid (ops.filter (!·.2.isQuery)) := by
  refine history_filter uuid (fun _ _ _ => rfl) (fun c op t dates hop => ?_) rfl
  cases op with
  | isStuckInContainerCreation u =>
    simp only [failedChange]
    split <;> rfl
  | isStuck => rfl
  | _ => cases hop

end Runs

/-- **The detector is an exact sliding window.** Under a clock that does not go back, after any
operations: a microservice is stuck exactly when enough of its restarts, recorded since it was last
cleared, are in the window, and likewise for failed starts; between two ends of an episode at most
one restart is recorded; and the answers are the same whatever questions were asked before. -/
theorem sliding_window (ops : List (ℕ × CheckerOp)) (now : ℕ) (hclock : Clock ops now)
    (uuid : Str) :
    ((after ops).isStuck now uuid = true ↔ abnormalNumberOfRestarts ≤
      (restartEvents uuid ops).countP fun d => now < d + restartInterval) ∧
    ((after ops).isStuckInContainerCreation now uuid = true ↔ abnormalNumberOfRestarts ≤
      (failedStartEvents uuid ops).countP fun d => now < d + restartInterval) ∧
    (∀ before between rest, ops = before ++ between ++ rest →
      (∀ a ∈ between, a.2.endsEpisode uuid = false) → recorded uuid (after before) between ≤ 1) ∧
    ∀ ops', Clock ops' now → ops'.filter (!·.2.isQuery) = ops.filter (!·.2.isQuery) →
      (after ops').isStuck now uuid = (after ops).isStuck now uuid ∧
        (after ops').isStuckInContainerCreation now uuid =
          (after ops).isStuckInContainerCreation now uuid := by
  refine ⟨?_, ?_, fun _ between _ _ hends => recorded_le_one hends, ?_⟩
  · rw [RestartStuckChecker.isStuck, prune_restarts hclock, decide_eq_true_eq,
      List.countP_eq_length_filter]
    rfl
  · rw [isStuckInContainerCreation, prune_failedStarts hclock, decide_eq_true_eq,
      List.countP_eq_length_filter]
    rfl
  · intro ops' hclock' hsame
    rw [RestartStuckChecker.isStuck, RestartStuckChecker.isStuck, isStuckInContainerCreation,
      isStuckInContainerCreation, prune_restarts hclock, prune_restarts hclock',
      prune_failedStarts hclock, prune_failedStarts hclock', restartEvents_filter, hsame,
      ← restartEvents_filter, failedStartEvents_filter, hsame, ← failedStartEvents_filter]
    exact ⟨rfl, rfl⟩

/-- A microservice that restarts every minute is stuck after the tenth time. -/
theorem stuck_after_ten :
    let ops := (List.range 10).flatMap fun n =>
      [(60 * n, .recordIfNew ['u']), (60 * n, CheckerOp.observeRunning ['u'])]
    Clock ops 540 ∧ (after ops).isStuck 540 ['u'] = true := by
  have hclock : Clock ((List.range 10).flatMap fun n =>
      [(60 * n, .recordIfNew ['u']), (60 * n, CheckerOp.observeRunning ['u'])]) 540 := by
    unfold Clock
    decide
  exact ⟨hclock, (sliding_window _ 540 hclock ['u']).1.mpr (by decide)⟩

end Edgelet.ProcessManager
