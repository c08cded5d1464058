import Edgelet.ProcessManager.Pending

/-!
# The in-flight flag

A pass raises the flag of an object before it queues the create task, and the worker lowers it when
the task has run. A full queue drops the task and leaves the flag up. And the worker looks its
object up by identifier, so of two objects with one identifier it lowers the flag of the first.
-/

namespace Edgelet.ProcessManager

open Lexical State

namespace State

variable (s : State)

def raised (o : ℕ) : Bool := ((s.heap[o]?).map (·.isUpdating)).getD false

variable {s}

theorem raised_setIsUpdating {o o' : ℕ} {up : Bool}
    (h : (s.setIsUpdating o up).raised o' = true) : (o = o' ∧ up = true) ∨
      (o ≠ o' ∧ s.raised o' = true) := by
  simp only [raised, setIsUpdating, List.getElem?_modify] at h
  by_cases ho : o = o'
  · left
    refine ⟨ho, ?_⟩
    cases hget : s.heap[o']? with
    | none => simp [hget] at h
    | some ms => simpa [hget, ho] using h
  · right
    refine ⟨ho, ?_⟩
    cases hget : s.heap[o']? with
    | none => simp [hget] at h
    | some ms => simpa [raised, hget, ho] using h

theorem raised_lowerLatest {uuid : Str} {o : ℕ} (h : (s.lowerLatest uuid).raised o = true) :
    s.raised o = true := by
  unfold lowerLatest at h
  split at h
  · exact h
  · rcases raised_setIsUpdating h with ⟨-, hup⟩ | ⟨-, hraised⟩
    · cases hup
    · exact hraised

@[simp] theorem raised_setImage {o o' : ℕ} {image : Option Str} :
    (s.setImage o image).raised o' = s.raised o' := by
  unfold setImage
  split
  · rfl
  · simp only [raised, List.getElem?_modify]
    cases s.heap[o']? with
    | none => rfl
    | some ms =>
      show (if o = o' then _ else ms).isUpdating = ms.isUpdating
      split <;> rfl

theorem findLatest_spec {uuid : Str} {o : ℕ} (h : s.findLatest uuid = some o) :
    o ∈ s.latest ∧ s.uuids[o]? = some uuid :=
  ⟨List.mem_of_find?_eq_some h, by simpa using List.find?_some h⟩

end State

/-! ## What lowers a flag again -/

def Carrier (s : State) (o : ℕ) (uuid : Str) : Prop :=
  (∃ t ∈ s.queue, t.creates uuid = true) ∨
    (∃ t, s.worker = .taken t ∧ t.creates uuid = true) ∨
      ∃ t, s.worker = .running t o ∧ t.creates uuid = true

theorem Carrier.task {s : State} {o : ℕ} {uuid : Str} (h : Carrier s o uuid) :
    ∃ t ∈ s.queue ++ s.worker.task, t.microserviceUUID = uuid := by
  rcases h with ⟨t, ht, hcreates⟩ | ⟨t, hworker, hcreates⟩ | ⟨t, hworker, hcreates⟩
  · exact ⟨t, List.mem_append_left _ ht, creates_uuid hcreates⟩
  · exact ⟨t, List.mem_append_right _ (by simp [hworker, Worker.task]), creates_uuid hcreates⟩
  · exact ⟨t, List.mem_append_right _ (by simp [hworker, Worker.task]), creates_uuid hcreates⟩

theorem Carrier.mono {s s' : State} {o : ℕ} {uuid : Str} (h : Carrier s o uuid)
    (hqueue : s.queue ⊆ s'.queue) (hworker : s'.worker = s.worker) : Carrier s' o uuid := by
  unfold Carrier
  rw [hworker]
  exact h.imp_left fun ⟨t, ht, hcreates⟩ => ⟨t, hqueue ht, hcreates⟩

theorem Carrier.queued {s : State} {o : ℕ} {uuid : Str} (h : Carrier s o uuid)
    (htaken : ∀ t, s.worker ≠ .taken t) (hrunning : ∀ t, s.worker ≠ .running t o) :
    ∃ t ∈ s.queue, t.creates uuid = true := by
  rcases h with h | ⟨t, h, -⟩ | ⟨t, h, -⟩
  · exact h
  · exact absurd h (htaken t)
  · exact absurd h (hrunning t)

theorem Carrier.of_taken {s : State} {o : ℕ} {uuid : Str} {t : ContainerTask}
    (h : Carrier s o uuid) (hworker : s.worker = .taken t) :
    (∃ t ∈ s.queue, t.creates uuid = true) ∨ t.creates uuid = true := by
  rcases h with h | ⟨t', h, hcreates⟩ | ⟨t', h, -⟩
  · exact .inl h
  · cases hworker.symm.trans h
    exact .inr hcreates
  · cases hworker.symm.trans h

structure Carried (s : State) : Prop where
  valid : ∀ o ∈ s.latest, o < s.uuids.length
  distinct : ∀ o ∈ s.latest, ∀ o' ∈ s.latest, s.uuids[o]? = s.uuids[o']? → o = o'
  carrier : ∀ o ∈ s.latest, ∀ uuid, s.uuids[o]? = some uuid → s.raised o = true →
    Carrier s o uuid

namespace Carried

variable {s s' : State}

section

variable (hs : Carried s)

include hs

theorem of_frame (hlatest : s'.latest = s.latest) (huuids : s'.uuids = s.uuids)
    (h : ∀ o ∈ s.latest, ∀ uuid, s.uuids[o]? = some uuid → s'.raised o = true →
      (s.raised o = true → Carrier s o uuid) → Carrier s' o uuid) : Carried s' := by
  refine ⟨?_, ?_, ?_⟩
  · rw [hlatest, huuids]
    exact hs.valid
  · rw [hlatest, huuids]
    exact hs.distinct
  · rw [hlatest, huuids]
    intro o ho uuid huuid hraised
    exact h o ho uuid huuid hraised (hs.carrier o ho uuid huuid)

theorem of_quiet (hlatest : s'.latest = s.latest) (huuids : s'.uuids = s.uuids)
    (hraised : ∀ o, s'.raised o = true → s.raised o = true) (hqueue : s.queue ⊆ s'.queue)
    (hworker : s'.worker = s.worker) : Carried s' :=
  hs.of_frame hlatest huuids fun o _ _ _ hup hcarrier =>
    (hcarrier (hraised o hup)).mono hqueue hworker

theorem of_take (h : s.take = some s') : Carried s' := by
  unfold take at h
  split at h
  · rename_i t rest hworker hqueue
    cases h
    refine hs.of_frame rfl rfl ?_
    intro o _ uuid _ hraised hcarrier
    obtain ⟨t', ht', hcreates⟩ := (hcarrier hraised).queued (by simp [hworker]) (by simp [hworker])
    rw [hqueue, List.mem_cons] at ht'
    rcases ht' with rfl | ht'
    · exact .inr (.inl ⟨t', rfl, hcreates⟩)
    · exact .inl ⟨t', ht', hcreates⟩
  · cases h

theorem of_start (h : s.start = some s') : Carried s' := by
  unfold start at h
  split at h
  · rename_i t hworker
    split at h
    · rename_i haction
      split at h
      · rename_i hnone
        cases h
        refine hs.of_frame rfl rfl ?_
        intro o ho uuid huuid hraised hcarrier
        rcases (hcarrier hraised).of_taken hworker with hqueued | hcreates
        · exact .inl hqueued
        · rw [findLatest, creates_uuid hcreates, List.find?_eq_none] at hnone
          exact absurd (by simpa using huuid) (hnone o ho)
      · rename_i found hfound
        obtain ⟨hmem, hfound⟩ := findLatest_spec hfound
        cases h
        refine hs.of_frame rfl setIsUpdating_uuids ?_
        intro o ho uuid huuid hraised hcarrier
        by_cases hsame : found = o
        · subst hsame
          obtain rfl : t.microserviceUUID = uuid := by simpa [hfound] using huuid
          exact .inr (.inr ⟨t, rfl, creates_iff.mpr ⟨haction, rfl⟩⟩)
        · have hbefore : s.raised o = true := by
            rcases raised_setIsUpdating hraised with ⟨heq, -⟩ | ⟨-, hbefore⟩
            · exact absurd heq hsame
            · exact hbefore
          rcases (hcarrier hbefore).of_taken hworker with hqueued | hcreates
          · exact .inl hqueued
          · rw [creates_uuid hcreates, ← huuid] at hfound
            exact absurd (hs.distinct found hmem o ho hfound) hsame
    · rename_i haction
      cases h
      refine hs.of_frame rfl rfl ?_
      intro o _ uuid _ hraised hcarrier
      rcases (hcarrier hraised).of_taken hworker with hqueued | hcreates
      · exact .inl hqueued
      · exact absurd (creates_iff.mp hcreates).1 haction
  · cases h

theorem of_finish {result : Option ExecError} {image : Option Str}
    (h : s.finish result image = some s') : Carried s' := by
  unfold finish at h
  split at h
  · rename_i t ran hworker
    cases h
    obtain ⟨heap, hframe⟩ := s.setImage_frame ran image
    refine hs.of_frame (by simp [setIsUpdating, hframe])
      (setIsUpdating_uuids.trans setImage_uuids) ?_
    intro o _ uuid _ hraised hcarrier
    rcases raised_setIsUpdating hraised with ⟨-, hup⟩ | ⟨hne, hbefore⟩
    · cases hup
    · rw [raised_setImage] at hbefore
      have hqueued := (hcarrier hbefore).queued (by simp [hworker]) (by simp [hworker, hne])
      left
      simpa [setIsUpdating, hframe] using hqueued
  · rename_i t hworker
    cases h
    refine hs.of_frame rfl rfl ?_
    intro o _ uuid _ hraised hcarrier
    exact .inl ((hcarrier hraised).queued (by simp [hworker]) (by simp [hworker]))
  · cases h

theorem of_idle (htaken : ∀ t, s.worker ≠ .taken t)
    (hrunning : ∀ t o, s.worker ≠ .running t o) (hlatest : s'.latest = s.latest)
    (huuids : s'.uuids = s.uuids) (hraised : ∀ o, s'.raised o = true → s.raised o = true)
    (hqueue : s.queue ⊆ s'.queue) : Carried s' := by
  refine hs.of_frame hlatest huuids ?_
  intro o _ uuid _ hup hcarrier
  obtain ⟨t, ht, hcreates⟩ := (hcarrier (hraised o hup)).queued htaken fun t => hrunning t o
  exact .inl ⟨t, hqueue ht, hcreates⟩

theorem of_settle (h : s.settle = some s') : Carried s' := by
  unfold settle at h
  split at h
  · rename_i t e hworker
    obtain ⟨heap, hframe⟩ := s.lowerLatest_frame t.microserviceUUID
    have hlatest : (s.lowerLatest t.microserviceUUID).latest = s.latest := by rw [hframe]
    have hqueue : s.queue ⊆ (s.lowerLatest t.microserviceUUID).queue := by rw [hframe]; simp
    have hidle := @of_idle s
    simp only [hworker] at hidle
    cases e with
    | reconcilePaused | volumeInUse | imagePullMiss =>
      cases h
      exact hidle hs (by simp) (by simp) hlatest lowerLatest_uuids
        (fun _ => raised_lowerLatest) hqueue
    | other =>
      simp only at h
      split at h
      · cases h
        exact hidle hs (by simp) (by simp) rfl rfl (fun _ h => h) (List.Subset.refl _)
      · cases h
        exact hidle hs (by simp) (by simp) hlatest lowerLatest_uuids
          (fun _ => raised_lowerLatest) hqueue
  · cases h

theorem of_park (h : s.park = some s') : Carried s' := by
  unfold park at h
  split at h
  · rename_i t delay hworker
    have hidle := @of_idle s
    simp only [hworker] at hidle
    split at h
    · cases h
      exact hidle hs (by simp) (by simp) rfl rfl (fun _ h => h) (subset_add _ _)
    · cases h
      exact hidle hs (by simp) (by simp) rfl rfl (fun _ h => h) (List.Subset.refl _)
  · cases h

theorem of_conclude {a : Answers} (hroom : s.queue.length < queueCapacity)
    (h : s.conclude a = some s') : Carried s' := by
  have huuids := conclude_uuids h
  simp only [conclude, Option.bind_eq_some_iff, Option.map_eq_some_iff] at h
  obtain ⟨o, hvisiting, ms, hms, rfl⟩ := h
  have hsound : (reconcileOne s.checker s.now ms a).Sound NoNewRetry s.checker ms :=
    reconcileOne_sound
  have hqueue : s.queue ⊆ s.enqueue (reconcileOne s.checker s.now ms a).task := by
    unfold enqueue
    split
    · exact List.Subset.refl _
    · exact subset_add _ _
  refine hs.of_frame rfl huuids ?_
  intro o' _ uuid huuid hraised hcarrier
  by_cases hsame : o = o'
  · subst hsame
    obtain rfl : ms.microserviceUUID = uuid := by simpa [uuids, hms] using huuid
    have hlt : o < s.heap.length := (List.getElem?_eq_some_iff.mp hms).1
    have hup : (reconcileOne s.checker s.now ms a).ms.isUpdating = true := by
      simpa [raised, hlt] using hraised
    rcases hsound.flag hup with hbefore | ⟨t, ht, hcreates⟩
    · exact (hcarrier (by simp [raised, hms, hbefore])).mono hqueue rfl
    · refine .inl ⟨t, ?_, hcreates⟩
      rw [Option.mem_def] at ht
      simp [enqueue, ht, TaskQueue.add, hroom]
  · have hbefore : s.raised o' = true := by
      simpa [raised, List.getElem?_set_ne hsame] using hraised
    exact (hcarrier hbefore).mono hqueue rfl

end

theorem of_parsed {list old : List Microservice} (hheap : s.heap = old ++ parsed list)
    (hlatest : s.latest = (List.range list.length).map (· + old.length))
    (hnodup : (list.map (·.microserviceUUID)).Nodup) : Carried s := by
  have hget : ∀ i, s.heap[i + old.length]? = (parsed list)[i]? := by
    intro i
    rw [hheap, List.getElem?_append_right (by omega), Nat.add_sub_cancel]
  have huuid : ∀ i, s.uuids[i + old.length]? = (list.map (·.microserviceUUID))[i]? := by
    intro i
    rw [uuids, List.getElem?_map, hget]
    simp only [parsed, List.getElem?_map, Option.map_map]
    rfl
  have hmem : ∀ o ∈ s.latest, ∃ i < list.length, o = i + old.length := by
    intro o ho
    rw [hlatest] at ho
    obtain ⟨i, hi, rfl⟩ := List.mem_map.mp ho
    exact ⟨i, List.mem_range.mp hi, rfl⟩
  refine ⟨?_, ?_, ?_⟩
  · intro o ho
    obtain ⟨i, hi, rfl⟩ := hmem o ho
    simp only [uuids, hheap, parsed, List.length_map, List.length_append]
    omega
  · intro o ho o' ho' heq
    obtain ⟨i, hi, rfl⟩ := hmem o ho
    obtain ⟨j, hj, rfl⟩ := hmem o' ho'
    rw [huuid, huuid] at heq
    have hij := (List.getElem?_inj (by simpa using hi) hnodup).mp heq
    omega
  · intro o ho uuid _ hraised
    obtain ⟨i, hi, rfl⟩ := hmem o ho
    simp [raised, hget, parsed, List.getElem?_eq_getElem hi] at hraised

end Carried

/-! ## No flag is stranded -/

/-- **Room and distinct identifiers**: a visit concludes while the queue has room for a task,
and a list that replaces the latest one names no identifier twice. -/
def Roomy (s : State) : Action → Prop
  | .conclude _ => s.queue.length < queueCapacity
  | .replace list => (list.map (·.microserviceUUID)).Nodup
  | _ => True

theorem Carried.step {s s' : State} {a : Action} (hs : Carried s) (hok : Roomy s a)
    (h : ProcessManager.step s a = some s') : Carried s' := by
  cases a with
  | take => exact hs.of_take h
  | start => exact hs.of_start h
  | finish result image => exact hs.of_finish h
  | settle => exact hs.of_settle h
  | park => exact hs.of_park h
  | conclude a => exact hs.of_conclude hok h
  | replace list =>
    cases h
    exact .of_parsed rfl rfl hok
  | tick d =>
    cases h
    exact hs.of_quiet rfl rfl (fun _ h => h) (List.Subset.refl _) rfl
  | beginPass only order =>
    simp only [ProcessManager.step, beginPass, Option.ite_none_right_eq_some,
      Option.some.injEq] at h
    obtain ⟨-, rfl⟩ := h
    exact hs.of_quiet rfl rfl (fun _ h => h) (List.Subset.refl _) rfl
  | enqueueDueRetries order =>
    simp only [ProcessManager.step, enqueueDueRetries, Option.ite_none_right_eq_some,
      Option.some.injEq] at h
    obtain ⟨-, rfl⟩ := h
    exact hs.of_quiet rfl rfl (fun _ h => h) (subset_foldl_add _ _) rfl
  | visit managed ok =>
    simp only [ProcessManager.step, visit] at h
    split at h
    · obtain ⟨ms, -, rfl⟩ := Option.map_eq_some_iff.mp h
      split <;> exact hs.of_quiet rfl rfl (fun _ h => h) (List.Subset.refl _) rfl
    · cases h

/-- **No flag is stranded**: in every state reached by a run with room in the queue and
distinct identifiers, a latest object whose flag is up has a task of its identifier in the
queue or in the hands of the worker. -/
theorem carried_of_roomy (list : List Microservice) (now : ℕ) (as : List Action) (s : State)
    (hdistinct : (list.map (·.microserviceUUID)).Nodup)
    (hroomy : Machine.Along step Roomy (.init list now) as)
    (hrun : Machine.run step (.init list now) as = some s) (o : ℕ) (ho : o ∈ s.latest)
    (ms : Microservice) (hms : s.heap[o]? = some ms) (hup : ms.isUpdating = true) :
    ∃ t ∈ s.queue ++ s.worker.task, t.microserviceUUID = ms.microserviceUUID := by
  have hinit : Carried (.init list now) :=
    @Carried.of_parsed _ list [] rfl (by simp [State.init]) hdistinct
  have hcarried : Carried s :=
    Machine.invariant_run (fun _ _ _ hs hok h => hs.step hok h) hroomy hinit hrun
  have hcarrier : Carrier s o ms.microserviceUUID :=
    hcarried.carrier o ho _ (by simp [State.uuids, hms]) (by simp [State.raised, hms, hup])
  exact hcarrier.task

def fleet (n : ℕ) : List Microservice :=
  (List.range n).map fun i =>
    { web with microserviceUUID := "ms-".toList ++ [Char.ofNat (0x4e00 + i)] }

def State.stranded (s : State) (o : ℕ) : Bool :=
  s.latest.contains o && s.raised o &&
    (s.queue ++ s.worker.task).all fun t => s.uuids[o]? != some t.microserviceUUID

theorem wholePass_roomy : Machine.Along step Roomy (.init (fleet 1) 0) (wholePass 1 missing) := by
  refine ⟨trivial, fun s hs => ?_⟩
  cases hs
  refine ⟨trivial, fun s hs => ?_⟩
  cases hs
  exact ⟨show 0 < queueCapacity by decide, fun _ _ => trivial⟩

/-- A pass over one missing container raises the flag together with a task. -/
theorem carried_wholePass :
    ∃ s ms, Machine.run step (.init (fleet 1) 0) (wholePass 1 missing) = some s ∧
      s.heap[0]? = some ms ∧ ms.isUpdating = true ∧
      ∃ t ∈ s.queue ++ s.worker.task, t.microserviceUUID = ms.microserviceUUID :=
  ⟨_, _, rfl, rfl, rfl, carried_of_roomy (fleet 1) 0 (wholePass 1 missing) _ (by decide)
    wholePass_roomy rfl 0 (by decide) _ rfl rfl⟩

/-- One pass over 101 missing containers strands the last of them: the queue holds a hundred
tasks. -/
theorem wholePass_strands :
    (Machine.run step (.init (fleet 101) 0) (wholePass 101 missing)).map (·.stranded 100) =
      some true := by
  decide +kernel

end Edgelet.ProcessManager
