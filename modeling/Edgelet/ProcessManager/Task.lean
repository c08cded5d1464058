import Mathlib.Algebra.Group.Nat.Defs
import Edgelet.Keyed.Table
import Edgelet.Lexical.Text

/-!
# Tasks, the task queue and the restart checker

A reconcile pass puts tasks into a bounded queue and one worker takes them out. A task that fails is
parked in the restart checker until its delay has elapsed. An absent record of the checker reads as
one with all fields at zero, so the records are a total function. Times are in seconds, and `none`
is the zero time.
-/

namespace Edgelet.ProcessManager

open Lexical Keyed

inductive TaskAction
  | add
  | update
  | remove
  | removeWithCleanUp
  deriving DecidableEq

structure ContainerTask where
  action : TaskAction
  microserviceUUID : Str
  retries : ℕ
  deriving DecidableEq

def newContainerTask (action : TaskAction) (uuid : Str) : ContainerTask := ⟨action, uuid, 0⟩

variable (queue : List ContainerTask) (uuid : Str) (t : ContainerTask)

def ContainerTask.creates : Bool :=
  (t.action == .add || t.action == .update) && t.microserviceUUID == uuid

theorem creates_iff {uuid : Str} {t : ContainerTask} : t.creates uuid = true ↔
    (t.action = .add ∨ t.action = .update) ∧ t.microserviceUUID = uuid := by
  simp [ContainerTask.creates]

theorem creates_uuid {uuid : Str} {t : ContainerTask} (h : t.creates uuid = true) :
    t.microserviceUUID = uuid := (creates_iff.mp h).2

def queueCapacity : ℕ := 100

def TaskQueue.add : List ContainerTask :=
  if queue.length < queueCapacity then queue ++ [t] else queue

theorem subset_add : queue ⊆ TaskQueue.add queue t := by
  unfold TaskQueue.add
  split
  · exact List.subset_append_left _ _
  · exact List.Subset.refl _

theorem subset_foldl_add (ts queue : List ContainerTask) :
    queue ⊆ ts.foldl TaskQueue.add queue := by
  induction ts generalizing queue with
  | nil => exact List.Subset.refl _
  | cons t ts ih => exact List.Subset.trans (subset_add queue t) (ih _)

/-! ## The restart checker -/

inductive RecreateSkip
  | none
  | rebuild
  | catalogReady
  | nonRestartable
  deriving DecidableEq

structure UuidRestartState where
  n : ℕ
  nextAttemptAt : Option ℕ
  pending : Bool
  criSkipUsed : Bool
  catalogWait : Bool
  pullN : ℕ
  pullNextAt : Option ℕ
  pullImage : Str
  rebuildSkipUsed : Bool

def UuidRestartState.zero : UuidRestartState :=
  ⟨0, none, false, false, false, 0, none, [], false⟩

/-- The restart checker: recorded restarts and failed starts, the records, and the parked
retries, at most one for a microservice. -/
structure RestartStuckChecker where
  restarts : Str → List ℕ
  containerCreation : Str → List ℕ
  state : Str → UuidRestartState
  parked : Table ContainerTask.microserviceUUID

def restartInterval : ℕ := 10 * 60

def abnormalNumberOfRestarts : ℕ := 10

def restartDelay (n : ℕ) : ℕ :=
  if n = 0 then 0 else if 5 ≤ n - 1 then 300 else 10 * 2 ^ (n - 1)

theorem restartDelay_pos {n : ℕ} (h : n ≠ 0) : 0 < restartDelay n := by
  unfold restartDelay
  rw [if_neg h]
  split
  · omega
  · exact Nat.mul_pos (by omega) (Nat.two_pow_pos _)

def isBefore (now : ℕ) : Option ℕ → Bool
  | none => false
  | some t => decide (now < t)

namespace RestartStuckChecker

variable (c : RestartStuckChecker) (now : ℕ) (uuid : Str)

def fresh : RestartStuckChecker := ⟨fun _ => [], fun _ => [], fun _ => .zero, Table.empty _⟩

def modify (f : UuidRestartState → UuidRestartState) : RestartStuckChecker :=
  { c with state := fun u => if u = uuid then f (c.state u) else c.state u }

def armFailureLocked : RestartStuckChecker :=
  c.modify uuid fun st =>
    { st with n := st.n + 1, nextAttemptAt := some (now + restartDelay (st.n + 1)) }

def pruneTimestamps (dates : List ℕ) : List ℕ := dates.filter fun d => now < d + restartInterval

/-- Too many restarts in the window. The source also writes the pruned list back; a time outside the
window never counts again, so that write is left out. -/
def isStuck : Bool := abnormalNumberOfRestarts ≤ (pruneTimestamps now (c.restarts uuid)).length

def isStuckInContainerCreation : Bool :=
  abnormalNumberOfRestarts ≤ (pruneTimestamps now (c.containerCreation uuid)).length

def recordIfNew : RestartStuckChecker :=
  if (c.state uuid).pending then c
  else
    let c := { c with
      restarts := fun u =>
        if u = uuid then pruneTimestamps now (c.restarts u) ++ [now] else c.restarts u }
    (c.modify uuid fun st => { st with pending := true }).armFailureLocked now uuid

def recordFailedStart : RestartStuckChecker :=
  let c := { c with
    containerCreation := fun u =>
      if u = uuid then pruneTimestamps now (c.containerCreation u) ++ [now]
      else c.containerCreation u }
  (c.modify uuid fun st => { st with pending := true }).armFailureLocked now uuid

def observeRunning : RestartStuckChecker :=
  c.modify uuid fun st => { st with pending := false }

def unpark : RestartStuckChecker :=
  { c with parked := c.parked.deleteWhere fun t => t.microserviceUUID == uuid }

def resetBackoff : RestartStuckChecker :=
  (c.unpark uuid).modify uuid fun st =>
    { st with
      n := 0, nextAttemptAt := none, pending := false, criSkipUsed := false,
      catalogWait := false }

def consumeRebuildSkip : RestartStuckChecker :=
  let c := { c with
    restarts := fun u => if u = uuid then [] else c.restarts u
    containerCreation := fun u => if u = uuid then [] else c.containerCreation u }
  (c.unpark uuid).modify uuid fun st =>
    { st with
      rebuildSkipUsed := true, pullNextAt := none, n := 0, nextAttemptAt := none,
      pending := false, criSkipUsed := false }

def rebuildSkipAvailable : Bool := !(c.state uuid).rebuildSkipUsed

def noteRebuildCleared : RestartStuckChecker :=
  c.modify uuid fun st => { st with rebuildSkipUsed := false }

def armPullMiss (image : Str) : RestartStuckChecker :=
  c.modify uuid fun st =>
    let image := trimSpace image
    let n := if image ≠ [] ∧ st.pullImage ≠ [] ∧ image ≠ st.pullImage then 0 else st.pullN
    { st with
      pullN := n + 1
      pullNextAt := some (now + restartDelay (n + 1))
      pullImage := if image ≠ [] then image else st.pullImage }

def pullReady (image : Str) (skip : RecreateSkip) : RestartStuckChecker × Bool :=
  let st := c.state uuid
  let image := trimSpace image
  if image ≠ [] ∧ st.pullImage ≠ [] ∧ image ≠ st.pullImage then
    (c.modify uuid fun st => { st with pullN := 0, pullNextAt := none, pullImage := [] }, true)
  else if skip = .rebuild ∨ skip = .catalogReady then
    (c.modify uuid fun st => { st with pullNextAt := none }, true)
  else (c, !isBefore now st.pullNextAt)

def clearPullWait : RestartStuckChecker :=
  c.modify uuid fun st => { st with pullN := 0, pullNextAt := none, pullImage := [] }

def ready (skip : RecreateSkip) : RestartStuckChecker × Bool :=
  let st := c.state uuid
  match skip with
  | .rebuild | .catalogReady => (c.modify uuid fun st => { st with nextAttemptAt := none }, true)
  | .nonRestartable =>
    if st.criSkipUsed then (c, !isBefore now st.nextAttemptAt)
    else (c.modify uuid fun st => { st with criSkipUsed := true, nextAttemptAt := none }, true)
  | .none => (c, !isBefore now st.nextAttemptAt)

def markCatalogWaiting : RestartStuckChecker :=
  c.modify uuid fun st => { st with catalogWait := true }

def consumeCatalogReadySkip : RestartStuckChecker × Bool :=
  if (c.state uuid).catalogWait then
    (c.modify uuid fun st => { st with catalogWait := false }, true)
  else (c, false)

def armFailure : RestartStuckChecker × ℕ :=
  (c.armFailureLocked now uuid, restartDelay ((c.state uuid).n + 1))

def parkTask (t : ContainerTask) : RestartStuckChecker :=
  if t.microserviceUUID = [] then c else { c with parked := c.parked.upsert t }

def isDue (t : ContainerTask) : Bool :=
  !isBefore now (c.state t.microserviceUUID).nextAttemptAt

def takeDueTasks : RestartStuckChecker × List ContainerTask :=
  ({ c with parked := c.parked.deleteWhere (c.isDue now) }, c.parked.rows.filter (c.isDue now))

/-! ## What the operations leave alone -/

variable {c now uuid}

variable {f : UuidRestartState → UuidRestartState}

@[simp] theorem modify_parked :
    (c.modify uuid f).parked = c.parked := rfl

@[simp] theorem modify_state_self : (c.modify uuid f).state uuid = f (c.state uuid) := by
  simp [modify]

theorem modify_state {u : Str} :
    (c.modify u f).state uuid = if uuid = u then f (c.state uuid) else c.state uuid := rfl

@[simp] theorem recordIfNew_parked : (c.recordIfNew now uuid).parked = c.parked := by
  unfold recordIfNew
  split <;> rfl

@[simp] theorem recordFailedStart_parked : (c.recordFailedStart now uuid).parked = c.parked := rfl

variable {skip : RecreateSkip} {image : Str}

@[simp] theorem pullReady_parked : (c.pullReady now uuid image skip).1.parked = c.parked := by
  unfold pullReady
  simp only
  split
  · rfl
  · split <;> rfl

@[simp] theorem ready_parked : (c.ready now uuid skip).1.parked = c.parked := by
  cases skip with
  | nonRestartable =>
    simp only [ready]
    split <;> rfl
  | _ => rfl

@[simp] theorem consumeCatalogReadySkip_parked :
    (c.consumeCatalogReadySkip uuid).1.parked = c.parked := by
  unfold consumeCatalogReadySkip
  split <;> rfl

@[simp] theorem recordIfNew_criSkipUsed :
    ((c.recordIfNew now uuid).state uuid).criSkipUsed = (c.state uuid).criSkipUsed := by
  unfold recordIfNew
  split
  · rfl
  · simp [armFailureLocked]

@[simp] theorem pullReady_criSkipUsed :
    ((c.pullReady now uuid image skip).1.state uuid).criSkipUsed =
      (c.state uuid).criSkipUsed := by
  unfold pullReady
  simp only
  split
  · simp
  · split
    · simp
    · rfl

variable {t : ContainerTask}

theorem mem_parked_unpark :
    t ∈ (c.unpark uuid).parked ↔ t ∈ c.parked ∧ t.microserviceUUID ≠ uuid := by
  simp [unpark]

theorem mem_parked_resetBackoff :
    t ∈ (c.resetBackoff uuid).parked ↔ t ∈ c.parked ∧ t.microserviceUUID ≠ uuid :=
  mem_parked_unpark

theorem mem_parked_consumeRebuildSkip :
    t ∈ (c.consumeRebuildSkip uuid).parked ↔ t ∈ c.parked ∧ t.microserviceUUID ≠ uuid := by
  simp [consumeRebuildSkip, unpark]

/-! ## Delays -/

def Delayed (c : RestartStuckChecker) (now : ℕ) (uuid : Str) : Prop :=
  isBefore now (c.state uuid).nextAttemptAt = true

theorem Delayed.of_eq {c' : RestartStuckChecker} (h : c.Delayed now uuid)
    (heq : (c'.state uuid).nextAttemptAt = (c.state uuid).nextAttemptAt) : c'.Delayed now uuid := by
  unfold Delayed at h ⊢
  rw [heq]
  exact h

theorem delayed_armFailureLocked : (c.armFailureLocked now uuid).Delayed now uuid := by
  have hpos : 0 < restartDelay ((c.state uuid).n + 1) := restartDelay_pos (Nat.succ_ne_zero _)
  simp only [Delayed, armFailureLocked, modify_state_self, isBefore, decide_eq_true_eq]
  omega

theorem Delayed.recordIfNew (h : c.Delayed now uuid) :
    (c.recordIfNew now uuid).Delayed now uuid := by
  unfold RestartStuckChecker.recordIfNew
  split
  · exact h
  · exact delayed_armFailureLocked

theorem Delayed.pullReady (h : c.Delayed now uuid) :
    (c.pullReady now uuid image skip).1.Delayed now uuid := by
  unfold RestartStuckChecker.pullReady
  simp only
  split
  · exact h.of_eq (by simp)
  · split
    · exact h.of_eq (by simp)
    · exact h

/-- **Past a running delay**: only an unused skip lets a recreate through. -/
theorem ready_of_delayed (h : c.Delayed now uuid) (hready : (c.ready now uuid skip).2 = true) :
    skip = .rebuild ∨ skip = .catalogReady ∨
      skip = .nonRestartable ∧ (c.state uuid).criSkipUsed = false := by
  unfold Delayed at h
  cases skip with
  | none => simp [ready, h] at hready
  | rebuild => exact .inl rfl
  | catalogReady => exact .inr (.inl rfl)
  | nonRestartable =>
    refine .inr (.inr ⟨rfl, ?_⟩)
    by_contra hused
    rw [Bool.not_eq_false] at hused
    simp [ready, h, hused] at hready

end RestartStuckChecker

end Edgelet.ProcessManager
