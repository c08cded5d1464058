import Edgelet.Machine.Run
import Edgelet.ProcessManager.Reconcile

/-!
# The process manager as a machine

The monitor goes through the latest microservices and queues the retries whose delay has elapsed,
the worker runs one task after the other, and the field agent replaces the latest microservices by
freshly parsed objects. Objects live in a heap and are named by their index: after a replacement the
monitor may still hold an object of the old list.
-/

namespace Edgelet.ProcessManager

open Lexical Keyed

inductive ExecError
  | reconcilePaused
  | volumeInUse
  | imagePullMiss
  | other

inductive Worker
  | idle
  | taken (t : ContainerTask)
  | running (t : ContainerTask) (obj : ℕ)
  | removing (t : ContainerTask)
  | failed (t : ContainerTask) (e : ExecError)
  | armed (t : ContainerTask) (delay : ℕ)

def Worker.task : Worker → List ContainerTask
  | .idle => []
  | .taken t | .running t _ | .removing t | .failed t _ | .armed t _ => [t]

structure State where
  heap : List Microservice
  latest : List ℕ
  queue : List ContainerTask
  worker : Worker
  checker : RestartStuckChecker
  todo : List ℕ
  only : Option (List Str)
  /-- The object being visited: the in-flight check is behind, the decision ahead. -/
  visiting : Option ℕ
  now : ℕ

inductive Action
  /-- The monitor begins a pass over the latest list, in an order of ascending schedule. -/
  | beginPass (only : Option (List Str)) (order : List ℕ)
  /-- The monitor checks the next object: whether the control plane manages it, and whether the
  container lookup succeeds. -/
  | visit (controlPlaneManaged lookupOk : Bool)
  | conclude (a : Answers)
  | enqueueDueRetries (order : List ContainerTask)
  | take
  | start
  | finish (result : Option ExecError) (image : Option Str)
  | settle
  | park
  | replace (list : List Microservice)
  | tick (d : ℕ)

namespace State

variable (s : State)

variable (list : List Microservice) (uuid : Str) (obj : ℕ)

def parsed : List Microservice :=
  list.map fun ms => { ms with isUpdating := false }

def init (now : ℕ) : State where
  heap := parsed list
  latest := List.range list.length
  queue := []
  worker := .idle
  checker := .fresh
  todo := []
  only := none
  visiting := none
  now := now

def uuids : List Str := s.heap.map (·.microserviceUUID)

def setIsUpdating (up : Bool) : State :=
  { s with heap := s.heap.modify obj fun ms => { ms with isUpdating := up } }

def findLatest : Option ℕ := s.latest.find? fun o => s.uuids[o]? == some uuid

def lowerLatest : State :=
  match s.findLatest uuid with
  | none => s
  | some o => s.setIsUpdating o false

def scheduleOf (o : ℕ) : ℤ := ((s.heap[o]?).map (·.schedule)).getD 0

def excluded : Bool :=
  match s.only with
  | none => false
  | some us => !us.contains (trimSpace uuid)

/-! ## The steps of the monitor -/

def beginPass (only : Option (List Str)) (order : List ℕ) : Option State :=
  if s.todo = [] ∧ s.visiting = none ∧ order.Perm s.latest ∧
      order.Pairwise (fun a b => s.scheduleOf a ≤ s.scheduleOf b) then
    some { s with todo := order, only := only }
  else none

def visit (controlPlaneManaged lookupOk : Bool) : Option State :=
  match s.visiting, s.todo with
  | none, o :: rest =>
    (s.heap[o]?).map fun ms =>
      if s.excluded ms.microserviceUUID || ms.isUpdating || controlPlaneManaged || !lookupOk then
        { s with todo := rest }
      else { s with todo := rest, visiting := some o }
  | _, _ => none

def enqueue (t : Option ContainerTask) : List ContainerTask :=
  match t with
  | none => s.queue
  | some t => TaskQueue.add s.queue t

def conclude (a : Answers) : Option State :=
  s.visiting.bind fun o =>
    (s.heap[o]?).map fun ms =>
      let v := reconcileOne s.checker s.now ms a
      { s with
        heap := s.heap.set o v.ms, checker := v.checker, queue := s.enqueue v.task,
        visiting := none }

def enqueueDueRetries (order : List ContainerTask) : Option State :=
  let due := s.checker.takeDueTasks s.now
  if s.todo = [] ∧ s.visiting = none ∧ order.Perm due.2 then
    some { s with checker := due.1, queue := order.foldl TaskQueue.add s.queue }
  else none

/-! ## The steps of the worker -/

def take : Option State :=
  match s.worker, s.queue with
  | .idle, t :: rest => some { s with worker := .taken t, queue := rest }
  | _, _ => none

/-- The lookup of `executeTask`. A create task whose microservice is gone does nothing; one
whose microservice is there holds its flag up (`AddContainer`, `UpdateContainer`). -/
def start : Option State :=
  match s.worker with
  | .taken t =>
    if t.action = .add ∨ t.action = .update then
      match s.findLatest t.microserviceUUID with
      | none => some { s with worker := .idle }
      | some o => some { s.setIsUpdating o true with worker := .running t o }
    else some { s with worker := .removing t }
  | _ => none

def setImage (image : Option Str) : State :=
  match image with
  | none => s
  | some name => { s with heap := s.heap.modify obj fun ms => { ms with imageName := name } }

def ended (t : ContainerTask) : Option ExecError → Worker
  | none => .idle
  | some e => .failed t e

/-- The end of an execution. The flag of the object goes down when `AddContainer` or
`UpdateContainer` returns, before the failure is settled. -/
def finish (result : Option ExecError) (image : Option Str) : Option State :=
  match s.worker with
  | .running t o =>
    some { (s.setImage o image).setIsUpdating o false with worker := ended t result }
  | .removing t => some { s with worker := ended t result }
  | _ => none

def maxTaskRetries : ℕ := 5

def latestImage : Str :=
  (((s.findLatest uuid).bind fun o => s.heap[o]?).map (·.imageName)).getD []

def settle : Option State :=
  match s.worker with
  | .failed t e =>
    let uuid := t.microserviceUUID
    match e with
    | .reconcilePaused | .volumeInUse => some { s.lowerLatest uuid with worker := .idle }
    | .imagePullMiss =>
      some { s.lowerLatest uuid with
        worker := .idle, checker := s.checker.armPullMiss s.now uuid (s.latestImage uuid) }
    | .other =>
      if t.retries < maxTaskRetries then
        let armed := s.checker.armFailure s.now uuid
        some { s with
          worker := .armed { t with retries := t.retries + 1 } armed.2, checker := armed.1 }
      else some { s.lowerLatest uuid with worker := .idle }
  | _ => none

def park : Option State :=
  match s.worker with
  | .armed t delay =>
    if delay = 0 then some { s with worker := .idle, queue := TaskQueue.add s.queue t }
    else some { s with worker := .idle, checker := s.checker.parkTask t }
  | _ => none

def replace : State :=
  { s with
    heap := s.heap ++ parsed list
    latest := (List.range list.length).map (· + s.heap.length) }

def pending : ℕ :=
  (s.queue ++ s.worker.task ++ s.checker.parked.rows).countP (ContainerTask.creates uuid)

end State

def step (s : State) : Action → Option State
  | .beginPass only order => s.beginPass only order
  | .visit managed ok => s.visit managed ok
  | .conclude a => s.conclude a
  | .enqueueDueRetries order => s.enqueueDueRetries order
  | .take => s.take
  | .start => s.start
  | .finish result image => s.finish result image
  | .settle => s.settle
  | .park => s.park
  | .replace list => some (s.replace list)
  | .tick d => some { s with now := s.now + d }

/-! ## No step changes an identifier -/

namespace State

variable {s s' : State}

theorem uuids_modify {heap : List Microservice} {f : Microservice → Microservice} (o : ℕ)
    (hf : ∀ ms, (f ms).microserviceUUID = ms.microserviceUUID) :
    (heap.modify o f).map (·.microserviceUUID) = heap.map (·.microserviceUUID) := by
  apply List.ext_getElem?
  intro i
  rw [List.getElem?_map, List.getElem?_map, List.getElem?_modify]
  cases heap[i]? with
  | none => rfl
  | some ms =>
    show some (if o = i then f ms else ms).microserviceUUID = some ms.microserviceUUID
    split
    · rw [hf]
    · rfl

@[simp] theorem setIsUpdating_uuids {o : ℕ} {up : Bool} :
    (s.setIsUpdating o up).uuids = s.uuids := uuids_modify o fun _ => rfl

@[simp] theorem setImage_uuids {o : ℕ} {image : Option Str} :
    (s.setImage o image).uuids = s.uuids := by
  unfold setImage
  split
  · rfl
  · exact uuids_modify o fun _ => rfl

@[simp] theorem lowerLatest_uuids {uuid : Str} : (s.lowerLatest uuid).uuids = s.uuids := by
  unfold lowerLatest
  split
  · rfl
  · exact setIsUpdating_uuids

theorem lowerLatest_frame (s : State) (uuid : Str) :
    ∃ heap, s.lowerLatest uuid = { s with heap := heap } := by
  unfold lowerLatest
  split
  · exact ⟨s.heap, rfl⟩
  · exact ⟨_, rfl⟩

theorem setImage_frame (s : State) (o : ℕ) (image : Option Str) :
    ∃ heap, s.setImage o image = { s with heap := heap } := by
  unfold setImage
  split
  · exact ⟨s.heap, rfl⟩
  · exact ⟨_, rfl⟩

theorem conclude_uuids {a : Answers} (h : s.conclude a = some s') : s'.uuids = s.uuids := by
  simp only [conclude, Option.bind_eq_some_iff, Option.map_eq_some_iff] at h
  obtain ⟨o, -, ms, hms, rfl⟩ := h
  have huuid : (reconcileOne s.checker s.now ms a).ms.microserviceUUID = ms.microserviceUUID :=
    reconcileOne_sound.uuid
  have hget : (s.heap.map (·.microserviceUUID))[o]? = some ms.microserviceUUID := by simp [hms]
  obtain ⟨ho, hget⟩ := List.getElem?_eq_some_iff.mp hget
  show (s.heap.set o _).map (·.microserviceUUID) = s.heap.map (·.microserviceUUID)
  rw [List.map_set, huuid, ← hget, List.set_getElem_self]

end State

/-- **Objects keep their identifiers**: a step only adds objects. -/
theorem step_uuids {s s' : State} {a : Action} (h : step s a = some s') : s.uuids <+: s'.uuids := by
  suffices hsame : s'.uuids = s.uuids ∨ ∃ list, a = .replace list by
    rcases hsame with hsame | ⟨list, rfl⟩
    · exact hsame ▸ List.prefix_rfl
    · obtain rfl : s.replace list = s' := by simpa [step] using h
      refine ⟨(State.parsed list).map Microservice.microserviceUUID, ?_⟩
      simp only [State.uuids, State.replace, List.map_append]
  cases a with
  | replace list => exact .inr ⟨list, rfl⟩
  | conclude a => exact .inl (State.conclude_uuids h)
  | beginPass only order =>
    simp only [step, State.beginPass, Option.ite_none_right_eq_some, Option.some.injEq] at h
    exact .inl (h.2 ▸ rfl)
  | enqueueDueRetries order =>
    simp only [step, State.enqueueDueRetries, Option.ite_none_right_eq_some,
      Option.some.injEq] at h
    exact .inl (h.2 ▸ rfl)
  | tick d => exact .inl (by cases h; rfl)
  | visit managed ok =>
    simp only [step, State.visit] at h
    split at h
    · obtain ⟨ms, -, rfl⟩ := Option.map_eq_some_iff.mp h
      left
      split <;> rfl
    · cases h
  | take =>
    simp only [step, State.take] at h
    split at h
    · exact .inl (by cases h; rfl)
    · cases h
  | start =>
    simp only [step, State.start] at h
    left
    split at h
    · split at h
      · split at h
        · cases h; rfl
        · cases h; exact State.setIsUpdating_uuids
      · cases h; rfl
    · cases h
  | finish result image =>
    simp only [step, State.finish] at h
    left
    split at h
    · cases h
      exact State.setIsUpdating_uuids.trans State.setImage_uuids
    · cases h; rfl
    · cases h
  | settle =>
    simp only [step, State.settle] at h
    left
    split at h
    · split at h
      · cases h; exact State.lowerLatest_uuids
      · cases h; exact State.lowerLatest_uuids
      · cases h; exact State.lowerLatest_uuids
      · split at h
        · cases h; rfl
        · cases h; exact State.lowerLatest_uuids
    · cases h
  | park =>
    simp only [step, State.park] at h
    left
    split at h
    · split at h <;> cases h <;> rfl
    · cases h

end Edgelet.ProcessManager
