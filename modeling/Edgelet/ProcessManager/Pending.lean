import Edgelet.ProcessManager.Backoff
import Edgelet.ProcessManager.Machine

/-!
# Pending creates

A create or recreate task is active while it is queued or in the hands of the worker, and parked
while it waits for its delay. A visit is the only step that makes one. So the in-flight flag has to
keep visits away from an active task, and the delay from a parked one.
-/

namespace Edgelet.ProcessManager

open Lexical Keyed ContainerTask

namespace State

variable (s : State) (uuid : Str)

def active : ℕ := (s.queue ++ s.worker.task).countP (ContainerTask.creates uuid)

def waiting : ℕ := s.checker.parked.rows.countP (ContainerTask.creates uuid)

theorem pending_eq : s.pending uuid = s.active uuid + s.waiting uuid := List.countP_append

end State

/-! ## Counting in the queue and in the parked retries -/

section Counting

variable {uuid : Str} {t : ContainerTask} {c c' : RestartStuckChecker}

theorem countP_add_le (queue : List ContainerTask) :
    (TaskQueue.add queue t).countP (creates uuid) ≤
      queue.countP (creates uuid) + [t].countP (creates uuid) := by
  unfold TaskQueue.add
  split
  · exact List.countP_append.le
  · omega

theorem countP_foldl_add_le (ts queue : List ContainerTask) :
    (ts.foldl TaskQueue.add queue).countP (creates uuid) ≤
      queue.countP (creates uuid) + ts.countP (creates uuid) := by
  induction ts generalizing queue with
  | nil => simp
  | cons t ts ih =>
    have hadd := @countP_add_le uuid t queue
    have hrest := ih (TaskQueue.add queue t)
    have hsplit : (t :: ts).countP (creates uuid) =
        [t].countP (creates uuid) + ts.countP (creates uuid) :=
      @List.countP_append _ _ [t] ts
    rw [List.foldl_cons]
    omega

theorem waiting_le_one : c.parked.rows.countP (creates uuid) ≤ 1 :=
  Table.countP_le_one fun _ h => creates_uuid h

theorem waiting_mono (h : ∀ t ∈ c'.parked, t.creates uuid = true → t ∈ c.parked) :
    c'.parked.rows.countP (creates uuid) ≤
      c.parked.rows.countP (creates uuid) := by
  by_cases hsome : ∃ t ∈ c'.parked, t.creates uuid = true
  · obtain ⟨t, ht, hcreates⟩ := hsome
    have hpos : 0 < c.parked.rows.countP (creates uuid) :=
      List.countP_pos_iff.mpr ⟨t, h t ht hcreates, hcreates⟩
    have hle : c'.parked.rows.countP (creates uuid) ≤ 1 := waiting_le_one
    omega
  · have hzero : c'.parked.rows.countP (creates uuid) = 0 :=
      List.countP_eq_zero.mpr fun t ht hcreates => hsome ⟨t, ht, hcreates⟩
    omega

theorem waiting_eq_zero (h : Unparked c uuid) :
    c.parked.rows.countP (creates uuid) = 0 :=
  List.countP_eq_zero.mpr fun t ht hcreates => h t ht (creates_uuid hcreates)

theorem waiting_parkTask_le :
    (c.parkTask t).parked.rows.countP (creates uuid) ≤
      c.parked.rows.countP (creates uuid) +
        [t].countP (creates uuid) := by
  unfold RestartStuckChecker.parkTask
  split
  · omega
  · by_cases hcreates : t.creates uuid = true
    · have hle : (c.parked.upsert t).rows.countP (creates uuid) ≤ 1 :=
        Table.countP_le_one fun _ h => creates_uuid h
      have hone : [t].countP (creates uuid) = 1 := by simp [hcreates]
      show (c.parked.upsert t).rows.countP _ ≤ _
      omega
    · refine le_trans (waiting_mono (c := c) ?_) (Nat.le_add_right _ _)
      intro t' ht' hcreates'
      rcases Table.mem_upsert.mp ht' with rfl | ⟨hmem, -⟩
      · exact absurd hcreates' hcreates
      · exact hmem

theorem waiting_takeDueTasks (now : ℕ) :
    (c.takeDueTasks now).1.parked.rows.countP (creates uuid) +
      (c.takeDueTasks now).2.countP (creates uuid) =
      c.parked.rows.countP (creates uuid) := by
  simp only [RestartStuckChecker.takeDueTasks, Table.deleteWhere]
  rw [Nat.add_comm, ← List.countP_append]
  exact (List.filter_append_perm _ _).countP_eq _

end Counting

/-! ## What a step does to the create tasks -/

structure Moves (s s' : State) : Prop where
  active : ∀ uuid, s'.active uuid ≤ s.active uuid
  pending : ∀ uuid, s'.pending uuid ≤ s.pending uuid
  visiting : s'.visiting = s.visiting

namespace Moves

variable {s s' : State}

theorem of_parked (hactive : ∀ uuid, s'.active uuid ≤ s.active uuid)
    (hparked : s'.checker.parked = s.checker.parked) (hvisiting : s'.visiting = s.visiting) :
    Moves s s' := by
  refine ⟨hactive, ?_, hvisiting⟩
  intro uuid
  have hle := hactive uuid
  rw [s'.pending_eq, s.pending_eq, State.waiting, State.waiting, hparked]
  omega

theorem of_worker (hqueue : s'.queue = s.queue)
    (hworker : ∀ uuid, s'.worker.task.countP (creates uuid) ≤
      s.worker.task.countP (creates uuid))
    (hparked : s'.checker.parked = s.checker.parked) (hvisiting : s'.visiting = s.visiting) :
    Moves s s' := by
  apply of_parked _ hparked hvisiting
  intro uuid
  have hle := hworker uuid
  rw [State.active, State.active, hqueue, List.countP_append, List.countP_append]
  omega

end Moves

section Steps

variable {s s' : State}

theorem take_moves (h : s.take = some s') : Moves s s' := by
  unfold State.take at h
  split at h
  · rename_i t rest hworker hqueue
    cases h
    refine .of_parked ?_ rfl rfl
    intro uuid
    simp only [State.active, hworker, hqueue, Worker.task, List.append_nil]
    exact (List.perm_append_singleton t rest).countP_eq _ |>.le
  · cases h

theorem start_moves (h : s.start = some s') : Moves s s' := by
  unfold State.start at h
  split at h
  · rename_i t hworker
    split at h
    · split at h
      · cases h
        exact .of_worker rfl (by simp [Worker.task]) rfl rfl
      · cases h
        exact .of_worker rfl (by simp [Worker.task, hworker]) rfl rfl
    · cases h
      exact .of_worker rfl (by simp [Worker.task, hworker]) rfl rfl
  · cases h

theorem ended_le (t : ContainerTask) (result : Option ExecError) (uuid : Str) :
    (State.ended t result).task.countP (creates uuid) ≤
      [t].countP (creates uuid) := by
  cases result with
  | none => simp [State.ended, Worker.task]
  | some e => exact le_rfl

theorem finish_moves {result : Option ExecError} {image : Option Str}
    (h : s.finish result image = some s') : Moves s s' := by
  unfold State.finish at h
  split at h
  · rename_i t o hworker
    obtain ⟨heap, hframe⟩ := s.setImage_frame o image
    rw [hframe] at h
    cases h
    exact .of_worker rfl (fun uuid => by rw [hworker]; exact ended_le t result uuid) rfl rfl
  · rename_i t hworker
    cases h
    exact .of_worker rfl (fun uuid => by rw [hworker]; exact ended_le t result uuid) rfl rfl
  · cases h

theorem giveUp_moves (uuid : Str) : Moves s { s.lowerLatest uuid with worker := .idle } := by
  obtain ⟨heap, hframe⟩ := s.lowerLatest_frame uuid
  rw [hframe]
  exact .of_worker rfl (by simp [Worker.task]) rfl rfl

theorem settle_moves (h : s.settle = some s') : Moves s s' := by
  unfold State.settle at h
  split at h
  · rename_i t e hworker
    cases e with
    | reconcilePaused | volumeInUse => cases h; exact giveUp_moves _
    | imagePullMiss =>
      obtain ⟨heap, hframe⟩ := s.lowerLatest_frame t.microserviceUUID
      simp only [hframe] at h
      cases h
      exact .of_worker rfl (by simp [Worker.task]) rfl rfl
    | other =>
      simp only at h
      split at h
      · cases h
        exact .of_worker rfl (fun uuid => by rw [hworker]; exact le_rfl) rfl rfl
      · cases h
        exact giveUp_moves _
  · cases h

theorem park_moves (h : s.park = some s') : Moves s s' := by
  unfold State.park at h
  split at h
  · rename_i t delay hworker
    have hactive : ∀ uuid, s.active uuid =
        s.queue.countP (creates uuid) +
          [t].countP (creates uuid) := by
      intro uuid
      rw [State.active, hworker, List.countP_append]
      rfl
    split at h
    · cases h
      refine .of_parked ?_ rfl rfl
      intro uuid
      rw [hactive]
      simp only [State.active, Worker.task, List.append_nil]
      exact countP_add_le s.queue
    · cases h
      refine ⟨?_, ?_, rfl⟩
      · intro uuid
        rw [hactive]
        simp only [State.active, Worker.task, List.append_nil]
        omega
      · intro uuid
        have hpark := @waiting_parkTask_le uuid t s.checker
        rw [State.pending_eq, State.pending_eq, hactive]
        simp only [State.active, State.waiting, Worker.task, List.append_nil]
        omega
  · cases h

theorem enqueueDueRetries_pending {order : List ContainerTask}
    (h : s.enqueueDueRetries order = some s') :
    s'.visiting = none ∧ ∀ uuid, s'.pending uuid ≤ s.pending uuid := by
  simp only [State.enqueueDueRetries, Option.ite_none_right_eq_some, Option.some.injEq] at h
  obtain ⟨⟨-, hvisiting, hperm⟩, rfl⟩ := h
  refine ⟨hvisiting, ?_⟩
  intro uuid
  have hqueue := @countP_foldl_add_le uuid order s.queue
  have horder := hperm.countP_eq (creates uuid)
  have hdue := @waiting_takeDueTasks uuid s.checker s.now
  simp only [State.pending, List.countP_append]
  omega

theorem visit_spec {managed ok : Bool} (h : s.visit managed ok = some s') :
    s'.queue = s.queue ∧ s'.worker = s.worker ∧ s'.checker = s.checker ∧ s'.heap = s.heap ∧
      (s'.visiting = none ∨ ∃ o rest ms, s.todo = o :: rest ∧ s.heap[o]? = some ms ∧
        s.excluded ms.microserviceUUID = false ∧ ms.isUpdating = false ∧
        s'.visiting = some o) := by
  unfold State.visit at h
  split at h
  · rename_i o rest hvisiting htodo
    obtain ⟨ms, hms, hs'⟩ := Option.map_eq_some_iff.mp h
    split at hs'
    · subst hs'
      exact ⟨rfl, rfl, rfl, rfl, .inl hvisiting⟩
    · rename_i hpass
      subst hs'
      simp only [Bool.or_eq_true, not_or, Bool.not_eq_true] at hpass
      exact ⟨rfl, rfl, rfl, rfl, .inr ⟨o, rest, ms, htodo, hms, hpass.1.1.1, hpass.1.1.2, rfl⟩⟩
  · cases h

/-- **What a step does to the create tasks**: it moves them, or it is the retry tick, or the
check or the conclusion of a visit. -/
theorem step_tasks {a : Action} (h : step s a = some s') :
    Moves s s' ∨ (s'.visiting = none ∧ ∀ uuid, s'.pending uuid ≤ s.pending uuid) ∨
      (∃ managed ok, a = .visit managed ok) ∨ ∃ b, a = .conclude b := by
  cases a with
  | visit managed ok => exact .inr (.inr (.inl ⟨managed, ok, rfl⟩))
  | conclude b => exact .inr (.inr (.inr ⟨b, rfl⟩))
  | enqueueDueRetries order => exact .inr (.inl (enqueueDueRetries_pending h))
  | beginPass only order =>
    simp only [step, State.beginPass, Option.ite_none_right_eq_some, Option.some.injEq] at h
    obtain ⟨-, rfl⟩ := h
    exact .inl (.of_parked (fun _ => le_rfl) rfl rfl)
  | take => exact .inl (take_moves h)
  | start => exact .inl (start_moves h)
  | finish result image => exact .inl (finish_moves h)
  | settle => exact .inl (settle_moves h)
  | park => exact .inl (park_moves h)
  | replace list | tick d => cases h; exact .inl (.of_parked (fun _ => le_rfl) rfl rfl)

end Steps

/-! ## At most one create is pending -/

/-- **The guards against a second create.** When a pass comes to a microservice with an active
create task its flag is up, and when a visit of a microservice with a parked one concludes the
delay holds against it. -/
def Guarded (s : State) : Action → Prop
  | .visit _ _ => ∀ o rest ms, s.todo = o :: rest → s.heap[o]? = some ms →
      s.excluded ms.microserviceUUID = false → 0 < s.active ms.microserviceUUID →
      ms.isUpdating = true
  | .conclude a => ∀ o ms, s.visiting = some o → s.heap[o]? = some ms →
      0 < s.waiting ms.microserviceUUID → RetryHeld s.checker s.now ms a
  | _ => True

structure AtMostOne (s : State) : Prop where
  pending : ∀ uuid, s.pending uuid ≤ 1
  valid : ∀ o, s.visiting = some o → o < s.uuids.length
  visited : ∀ o uuid, s.visiting = some o → s.uuids[o]? = some uuid → s.active uuid = 0

namespace AtMostOne

variable {s s' : State}

theorem of_not_visiting (hpending : ∀ uuid, s.pending uuid ≤ 1) (h : s.visiting = none) :
    AtMostOne s :=
  ⟨hpending, by simp [h], by simp [h]⟩

theorem of_moves (hs : AtMostOne s) (h : Moves s s') (huuids : s.uuids <+: s'.uuids) :
    AtMostOne s' := by
  refine ⟨fun uuid => (h.pending uuid).trans (hs.pending uuid), ?_, ?_⟩
  · intro o ho
    exact (hs.valid o (h.visiting ▸ ho)).trans_le huuids.length_le
  · intro o uuid ho huuid
    have hvisiting : s.visiting = some o := h.visiting ▸ ho
    have hold : s.uuids[o]? = some uuid := by
      obtain ⟨added, hadded⟩ := huuids
      rwa [← hadded, List.getElem?_append_left (hs.valid o hvisiting)] at huuid
    have hzero := hs.visited o uuid hvisiting hold
    have hle := h.active uuid
    omega

theorem of_visit {managed ok : Bool} (hs : AtMostOne s) (hok : Guarded s (.visit managed ok))
    (h : s.visit managed ok = some s') : AtMostOne s' := by
  obtain ⟨hqueue, hworker, hchecker, hheap, hvisiting⟩ := visit_spec h
  have hpending : ∀ uuid, s'.pending uuid ≤ 1 := by
    intro uuid
    rw [State.pending, hqueue, hworker, hchecker]
    exact hs.pending uuid
  rcases hvisiting with hnone | ⟨o, rest, ms, htodo, hms, hexcluded, hflag, hvisiting⟩
  · exact of_not_visiting hpending hnone
  · have huuid : s'.uuids[o]? = some ms.microserviceUUID := by simp [State.uuids, hheap, hms]
    have hactive : s'.active ms.microserviceUUID = 0 := by
      rw [State.active, hqueue, hworker]
      by_contra hne
      have hup := hok o rest ms htodo hms hexcluded (Nat.pos_of_ne_zero hne)
      rw [hup] at hflag
      cases hflag
    refine ⟨hpending, ?_, ?_⟩
    · intro o' ho'
      obtain rfl : o = o' := by simpa [hvisiting] using ho'
      exact (List.getElem?_eq_some_iff.mp huuid).1
    · intro o' uuid ho' huuid'
      obtain rfl : o = o' := by simpa [hvisiting] using ho'
      obtain rfl : ms.microserviceUUID = uuid := by simpa [huuid] using huuid'
      exact hactive

theorem of_conclude {a : Answers} (hs : AtMostOne s) (hok : Guarded s (.conclude a))
    (h : s.conclude a = some s') : AtMostOne s' := by
  simp only [State.conclude, Option.bind_eq_some_iff, Option.map_eq_some_iff] at h
  obtain ⟨o, hvisiting, ms, hms, rfl⟩ := h
  have hsound : (reconcileOne s.checker s.now ms a).Sound NoNewRetry s.checker ms :=
    reconcileOne_sound
  have hzero : s.active ms.microserviceUUID = 0 :=
    hs.visited o _ hvisiting (by simp [State.uuids, hms])
  refine of_not_visiting ?_ rfl
  intro uuid
  have hold := hs.pending uuid
  have hwaiting := @waiting_mono uuid _ _ fun t ht _ => hsound.checker t ht
  rw [State.pending_eq] at hold ⊢
  simp only [State.active, State.waiting, State.enqueue, List.countP_append]
    at hold hzero hwaiting ⊢
  cases htask : (reconcileOne s.checker s.now ms a).task with
  | none => simp only; omega
  | some t =>
    have hadd := @countP_add_le uuid t s.queue
    by_cases hcreates : t.creates uuid = true
    · obtain rfl : ms.microserviceUUID = uuid :=
        (hsound.task t htask).symm.trans (creates_uuid hcreates)
      have hone : [t].countP (creates ms.microserviceUUID) = 1 := by simp [hcreates]
      have hclear : (reconcileOne s.checker s.now ms a).checker.parked.rows.countP
          (creates ms.microserviceUUID) = 0 := by
        by_cases hparked : 0 < s.waiting ms.microserviceUUID
        · exact waiting_eq_zero
            (reconcileOne_unparks (hok o ms hvisiting hms hparked) htask hcreates)
        · rw [State.waiting] at hparked
          omega
      simp only
      omega
    · have hnone : [t].countP (creates uuid) = 0 := by simp [hcreates]
      simp only
      omega

theorem step {a : Action} (hs : AtMostOne s) (hok : Guarded s a)
    (h : ProcessManager.step s a = some s') : AtMostOne s' := by
  rcases step_tasks h with hmoves | ⟨hnone, hpending⟩ | ⟨managed, ok, rfl⟩ | ⟨b, rfl⟩
  · exact hs.of_moves hmoves (step_uuids h)
  · exact of_not_visiting (fun uuid => (hpending uuid).trans (hs.pending uuid)) hnone
  · exact hs.of_visit hok h
  · exact hs.of_conclude hok h

theorem init (list : List Microservice) (now : ℕ) : AtMostOne (.init list now) := by
  apply of_not_visiting _ rfl
  intro uuid
  simp [State.pending, State.init, Worker.task, RestartStuckChecker.fresh, Table.empty]

end AtMostOne

/-- **At most one create is pending**: in every state reached by a run all of whose steps are
guarded, at most one create or recreate task of a microservice is queued, in the hands of the
worker or parked. -/
theorem pending_le_one_of_guarded (list : List Microservice) (now : ℕ) (as : List Action)
    (s : State) (hguarded : Machine.Along step Guarded (.init list now) as)
    (hrun : Machine.run step (.init list now) as = some s) (uuid : Str) : s.pending uuid ≤ 1 := by
  have hinv : AtMostOne s :=
    Machine.invariant_run (fun _ _ _ hs hok h => hs.step hok h) hguarded (.init list now) hrun
  exact hinv.pending uuid

def web : Microservice where
  microserviceUUID := "web".toList
  imageName := "nginx".toList
  schedule := 0
  rebuild := false
  delete := false
  deleteWithCleanup := false
  isStuckInRestart := false
  isUpdating := false
  hasCatalogItems := false

def missing : Answers where
  present := false
  reported := none
  catalogGate := .ready
  mountChanged := false
  status := none
  volumeHeld := false
  volumeHeldAgain := false
  start := .ok
  graceElapsed := false
  equal := true

def drifted : Answers :=
  { missing with present := true, status := some ⟨.running, false, false⟩, equal := false }

def wholePass (n : ℕ) (a : Answers) : List Action :=
  .beginPass none (List.range n) ::
    (List.range n).flatMap fun _ => [.visit false true, .conclude a]

theorem wholePass_guarded : Machine.Along step Guarded (.init [web] 0) (wholePass 1 missing) := by
  refine ⟨trivial, fun s hs => ?_⟩
  cases hs
  refine ⟨?_, fun s hs => ?_⟩
  · intro o rest ms htodo hms _ hactive
    cases htodo
    cases hms
    exact absurd hactive (by decide)
  · cases hs
    refine ⟨?_, fun _ _ => trivial⟩
    intro o ms hvisiting hms hwaiting
    cases hvisiting
    cases hms
    exact absurd hwaiting (by decide)

/-- A first pass over a missing container leaves one create. -/
theorem pending_le_one_wholePass :
    ∃ s, Machine.run step (.init [web] 0) (wholePass 1 missing) = some s ∧
      s.pending web.microserviceUUID ≤ 1 :=
  ⟨_, rfl, pending_le_one_of_guarded [web] 0 (wholePass 1 missing) _ wholePass_guarded rfl _⟩

/-- Two passes over a running container that has drifted queue two updates: the first leaves
the flag down. -/
theorem pending_driftedTwice :
    (Machine.run step (.init [web] 0) (wholePass 1 drifted ++ wholePass 1 drifted)).map
      (·.pending web.microserviceUUID) = some 2 := by
  decide

end Edgelet.ProcessManager
