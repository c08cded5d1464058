import Edgelet.Machine.Run
import Edgelet.ProcessManager.Task

/-!
# Stopping the process manager

`Stop` cancels the context, closes the task queue, and then waits for the goroutines. A worker waits
for the context or a task, and a closed queue gives a nil task for ever. A pass, and a worker that
retries, put tasks into the queue without a look at either, and a send on a closed channel panics.
Had `Stop` waited before it closed the queue, nothing could have gone wrong.
-/

namespace Edgelet.ProcessManager.Shutdown

open Machine

/-! ## The machine -/

inductive Worker
  | get
  | execute (task : Option ContainerTask)
  | add (task : ContainerTask)
  deriving DecidableEq

inductive Monitor
  | wait
  | pass
  deriving DecidableEq

inductive Thread
  | worker (pc : Worker)
  | monitor (pc : Monitor)
  deriving DecidableEq

inductive Stop
  | notCalled
  | close
  | wait
  | returned

structure State where
  cancelled : Bool
  closed : Bool
  tasks : List ContainerTask
  stop : Stop
  threads : List Thread

def started (workers monitors : ℕ) : State where
  cancelled := false
  closed := false
  tasks := []
  stop := .notCalled
  threads := List.replicate workers (.worker .get) ++ List.replicate monitors (.monitor .wait)

inductive Choice
  | done
  | receive
  | retry
  | add (task : ContainerTask)
  | proceed
  deriving DecidableEq

inductive Action
  | stop
  | advance (n : ℕ) (c : Choice)

variable (s : State) (t : Thread) (c : Choice)

def add (task : ContainerTask) (next : Thread) : List ContainerTask × Option Thread :=
  if s.closed then (s.tasks, none) else (TaskQueue.add s.tasks task, some next)

def Thread.step : Thread → Choice → Option (List ContainerTask × Option Thread)
  | .worker .get, .done => if s.cancelled then some (s.tasks, none) else none
  | .worker .get, .receive =>
    match s.tasks with
    | task :: rest => some (rest, some (.worker (.execute (some task))))
    | [] => if s.closed then some ([], some (.worker (.execute none))) else none
  | .worker (.execute (some _)), .proceed => some (s.tasks, some (.worker .get))
  | .worker (.execute (some task)), .retry =>
    some (s.tasks, some (.worker (.add { task with retries := task.retries + 1 })))
  | .worker (.execute none), .proceed => some (s.tasks, none)
  | .worker (.add task), .proceed => some (add s task (.worker .get))
  | .monitor .wait, .done => if s.cancelled then some (s.tasks, none) else none
  | .monitor .wait, .proceed => some (s.tasks, some (.monitor .pass))
  | .monitor .pass, .add task => some (add s task (.monitor .pass))
  | .monitor .pass, .proceed => some (s.tasks, some (.monitor .wait))
  | _, _ => none

def step : Action → Option State
  | .stop =>
    match s.stop with
    | .notCalled => some { s with cancelled := true, stop := .close }
    | .close => some { s with closed := true, stop := .wait }
    | .wait => if s.threads = [] then some { s with stop := .returned } else none
    | .returned => none
  | .advance n c =>
    match s.threads[n]? with
    | none => none
    | some t =>
      (t.step s c).map fun next =>
        { s with tasks := next.1, threads := replaceAt s.threads n next.2 }

/-! ## The property and the condition -/

def GivenNil : Prop :=
  t = .worker .get ∧ c = .receive ∧ s.tasks = [] ∧ s.closed = true

def SendsOnClosed : Prop :=
  s.closed = true ∧
    ((∃ task, t = .worker (.add task) ∧ c = .proceed) ∨ t = .monitor .pass ∧ ∃ task, c = .add task)

/-- **The action is clean**: no worker is given a nil task as a valid one, and no `Add` sends on the
closed channel. -/
def Clean : Action → Prop
  | .stop => True
  | .advance n c => ∀ t, s.threads[n]? = some t → ¬ GivenNil s t c ∧ ¬ SendsOnClosed s t c

/-- **The condition**: the queue is closed only when all goroutines have returned. -/
def Waits : Action → Prop
  | .stop => s.stop = .close → s.threads = []
  | .advance _ _ => True

/-! ## Runs that wait -/

section Steps

variable {s s' : State} {a : Action}

structure Inv (s : State) : Prop where
  open_of_close : s.stop = .notCalled ∨ s.stop = .close → s.closed = false
  valid : s.closed = false → .worker (.execute none) ∉ s.threads

theorem inv_started (workers monitors : ℕ) : Inv (started workers monitors) where
  open_of_close _ := rfl
  valid _ := by simp [started]

theorem add_ne_nil_task {task : ContainerTask} {next : Thread}
    (hnext : next ≠ .worker (.execute none)) : .worker (.execute none) ∉ (add s task next).2 := by
  unfold add
  split
  · exact nofun
  · intro h
    exact hnext (Option.some.inj h)

theorem Thread.step_valid {t : Thread} {c : Choice} {next : List ContainerTask × Option Thread}
    (hopen : s.closed = false) (h : t.step s c = some next) : .worker (.execute none) ∉ next.2 := by
  unfold Thread.step at h
  split at h
  case h_2 =>
    rw [hopen] at h
    split at h <;> cases h
    exact nofun
  case h_6 =>
    cases h
    exact add_ne_nil_task nofun
  case h_9 =>
    cases h
    exact add_ne_nil_task nofun
  all_goals (try split at h) <;> cases h <;> exact nofun

theorem Inv.step (h : Inv s) (hstep : step s a = some s') : Inv s' := by
  cases a with
  | stop =>
    simp only [Shutdown.step] at hstep
    split at hstep
    next hstop =>
      cases hstep
      have hopen := h.open_of_close (.inl hstop)
      exact ⟨fun _ => hopen, h.valid⟩
    next =>
      cases hstep
      exact ⟨fun hor => (hor.elim nofun nofun), nofun⟩
    next =>
      split at hstep <;> cases hstep
      exact ⟨fun hor => (hor.elim nofun nofun), h.valid⟩
    next => cases hstep
  | advance n c =>
    simp only [Shutdown.step] at hstep
    split at hstep
    next => cases hstep
    next t ht =>
      obtain ⟨next, hnext, rfl⟩ := Option.map_eq_some_iff.mp hstep
      refine ⟨h.open_of_close, fun hopen hmem => ?_⟩
      rcases mem_of_mem_replaceAt hmem with hold | hnew
      · exact h.valid hopen hold
      · exact Thread.step_valid (s := s) hopen hnext hnew

def Deserted (s : State) : Prop := s.closed = true → s.threads = []

theorem Deserted.step (h : Deserted s) (hwaits : Waits s a) (hstep : step s a = some s') :
    Deserted s' := by
  cases a with
  | stop =>
    simp only [Shutdown.step] at hstep
    split at hstep
    next =>
      cases hstep
      exact h
    next hstop =>
      cases hstep
      exact fun _ => hwaits hstop
    next =>
      split at hstep <;> cases hstep
      exact h
    next => cases hstep
  | advance n c =>
    simp only [Shutdown.step] at hstep
    split at hstep
    next => cases hstep
    next t ht =>
      obtain ⟨next, hnext, rfl⟩ := Option.map_eq_some_iff.mp hstep
      intro hclosed
      rw [h hclosed] at ht
      cases ht

theorem threads_nil_step (h : s.threads = []) (hstep : step s a = some s') : s'.threads = [] := by
  cases a with
  | stop =>
    simp only [Shutdown.step] at hstep
    split at hstep <;> (try split at hstep) <;> cases hstep <;> exact h
  | advance n c =>
    simp only [Shutdown.step, h] at hstep
    cases hstep

theorem Deserted.clean (h : Deserted s) : Clean s a := by
  cases a with
  | stop => trivial
  | advance n c =>
    intro t ht
    have hopen : s.closed ≠ true := by
      intro hclosed
      rw [h hclosed] at ht
      cases ht
    exact ⟨fun hnil => hopen hnil.2.2.2, fun hsend => hopen hsend.1⟩

end Steps

/-! ## A queue that is closed too early -/

section Early

variable {s : State}

theorem not_along_append {s' : State} {as bs : List Action} (hrun : run step s as = some s')
    (h : ¬ Along step Clean s' bs) : ¬ Along step Clean s (as ++ bs) :=
  fun hall => h ((along_append.mp hall).2 s' hrun)

theorem exists_unclean_get {ts : List Thread} (hclosed : s.closed = true)
    (hthreads : s.threads = .worker .get :: ts) : ∃ as, ¬ Along step Clean s as := by
  induction htasks : s.tasks generalizing s with
  | nil =>
    refine ⟨[.advance 0 .receive], fun h => ?_⟩
    exact (h.1 (.worker .get) (by simp [hthreads])).1 ⟨rfl, rfl, htasks, hclosed⟩
  | cons task rest ih =>
    have hrun : run step s [.advance 0 .receive, .advance 0 .proceed] =
        some { s with tasks := rest, threads := .worker .get :: ts } := by
      simp [run, step, hthreads, Thread.step, htasks, replaceAt]
    obtain ⟨as, has⟩ := ih (s := { s with tasks := rest, threads := .worker .get :: ts })
      hclosed rfl rfl
    exact ⟨_, not_along_append hrun has⟩

theorem exists_unclean_pass {ts : List Thread} (hclosed : s.closed = true)
    (hthreads : s.threads = .monitor .pass :: ts) : ∃ as, ¬ Along step Clean s as := by
  refine ⟨[.advance 0 (.add (newContainerTask .add []))], fun h => ?_⟩
  exact (h.1 (.monitor .pass) (by simp [hthreads])).2 ⟨hclosed, .inr ⟨rfl, _, rfl⟩⟩

theorem exists_unclean (hclosed : s.closed = true) (hvalid : .worker (.execute none) ∉ s.threads)
    (halive : s.threads ≠ []) : ∃ as, ¬ Along step Clean s as := by
  obtain ⟨t, ts, hthreads⟩ := List.exists_cons_of_ne_nil halive
  have hget? : s.threads[0]? = some t := by simp [hthreads]
  have hgoes : ∀ (c : Choice) (next : Thread), t.step s c = some (s.tasks, some next) →
      (∃ as, ¬ Along step Clean { s with threads := next :: ts } as) →
      ∃ as, ¬ Along step Clean s as := by
    rintro c next hstep ⟨as, has⟩
    have hrun : run step s [.advance 0 c] = some { s with threads := next :: ts } := by
      simp [run, step, hstep, replaceAt, hthreads]
    exact ⟨_, not_along_append hrun has⟩
  cases t with
  | worker pc =>
    cases pc with
    | get => exact exists_unclean_get hclosed hthreads
    | execute task =>
      cases task with
      | none => exact absurd (hthreads ▸ List.mem_cons_self) hvalid
      | some task => exact hgoes .proceed _ rfl (exists_unclean_get hclosed rfl)
    | add task =>
      refine ⟨[.advance 0 .proceed], fun h => ?_⟩
      exact (h.1 _ hget?).2 ⟨hclosed, .inl ⟨task, rfl, rfl⟩⟩
  | monitor pc =>
    cases pc with
    | wait => exact hgoes .proceed _ rfl (exists_unclean_pass hclosed rfl)
    | pass => exact exists_unclean_pass hclosed hthreads

end Early

/-- **When stopping is clean**, for every interleaving of `Stop` with any number of workers and
monitors: a run is clean if the queue is closed only when all goroutines have returned; and wherever
`Stop` is about to close it, all that can follow is clean exactly when they have. -/
theorem clean_iff_waits {workers monitors : ℕ} {as : List Action} {s : State}
    (hrun : run step (started workers monitors) as = some s) :
    (Along step Waits (started workers monitors) as →
      Along step Clean (started workers monitors) as) ∧
    (s.stop = .close → ((∀ bs, Along step Clean s (.stop :: bs)) ↔ s.threads = [])) := by
  refine ⟨fun h => ?_, fun hstop => ?_⟩
  · have hstart : Deserted (started workers monitors) := nofun
    exact along_of_along (fun _ _ _ h => h.step) (fun _ _ h _ => h.clean) hstart h
  have hinv : Inv s :=
    invariant_run_always (fun _ _ _ h => h.step) (inv_started workers monitors) hrun
  have hclose : step s .stop = some { s with closed := true, stop := .wait } := by
    simp [step, hstop]
  constructor
  · intro hclean
    by_contra halive
    have hvalid := hinv.valid (hinv.open_of_close (.inr hstop))
    obtain ⟨bs, hbs⟩ := exists_unclean (s := { s with closed := true, stop := .wait }) rfl hvalid
      halive
    exact hbs ((hclean bs).2 _ hclose)
  · intro hgone bs
    refine ⟨trivial, fun s' hs' => ?_⟩
    cases hclose.symm.trans hs'
    exact along_of_along (fun _ _ _ h _ => threads_nil_step h)
      (fun _ _ h _ => Deserted.clean fun _ => h) hgone
      (along_of_forall (fun _ _ => trivial) _ bs)

/-- A manager with one worker and no monitor is stopped after its worker has returned. -/
theorem clean_iff_waits_worker_gone :
    run step (started 1 0) [.stop, .advance 0 .done] =
        some { started 0 0 with cancelled := true, stop := .close } ∧
      ∀ bs, Along step Clean { started 0 0 with cancelled := true, stop := .close } (.stop :: bs) :=
  have hrun : run step (started 1 0) [.stop, .advance 0 .done] =
      some { started 0 0 with cancelled := true, stop := .close } := rfl
  ⟨hrun, ((clean_iff_waits hrun).2 rfl).mpr rfl⟩

/-- `Stop` cancels and closes, and the worker, for whom both are ready, receives from the queue; or
a pass that is under way adds a task. -/
theorem stop_unclean :
    ¬ Along step Clean (started 1 0) [.stop, .stop, .advance 0 .receive] ∧
    ¬ Along step Clean (started 0 1) [.advance 0 .proceed, .stop, .stop,
      .advance 0 (.add (newContainerTask .add ['m']))] := by
  constructor
  · intro h
    have hbad := ((h.2 _ rfl).2 _ rfl).1
    exact (hbad _ rfl).1 ⟨rfl, rfl, rfl, rfl⟩
  · intro h
    have hbad := (((h.2 _ rfl).2 _ rfl).2 _ rfl).1
    exact (hbad _ rfl).2 ⟨rfl, .inr ⟨rfl, _, rfl⟩⟩

end Edgelet.ProcessManager.Shutdown
