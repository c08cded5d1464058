import Edgelet.Lexical.Text
import Edgelet.Machine.Run
import Mathlib.Algebra.GroupWithZero.Nat
import Mathlib.Algebra.Order.BigOperators.Group.List
import Mathlib.Algebra.Order.Group.Nat

/-!
# The concurrent stop of labeled workloads

Up to eight workers receive the identifiers of the containers over an unbuffered channel. A worker
that receives one looks at the context first, and when it is cancelled returns without a stop. The
function can only end when every identifier has found a worker, so what matters is how many are left
when the cancellation comes.
-/

namespace Edgelet.ProcessManager.Drain

open Lexical

/-! ## The machine -/

inductive Worker
  | idle
  | holding (id : Str)
  | stopping (id : Str)
  | exited
  deriving DecidableEq

inductive Main
  | sending
  | waiting
  | returned
  deriving DecidableEq

structure State where
  unsent : List Str
  workers : List Worker
  main : Main
  cancelled : Bool
  deriving DecidableEq

def shutdownDrainMaxWorkers : ℕ := 8

def shutdownDrainWorkerCount (containerCount : ℕ) : ℕ :=
  if containerCount = 0 then 1
  else if containerCount < shutdownDrainMaxWorkers then containerCount
  else shutdownDrainMaxWorkers

theorem shutdownDrainWorkerCount_pos (n : ℕ) : 0 < shutdownDrainWorkerCount n := by
  unfold shutdownDrainWorkerCount shutdownDrainMaxWorkers
  split
  · omega
  · split <;> omega

def start (ids : List Str) : State :=
  if ids = [] then { unsent := [], workers := [], main := .returned, cancelled := false }
  else
    { unsent := ids
      workers := List.replicate (shutdownDrainWorkerCount ids.length) .idle
      main := .sending
      cancelled := false }

inductive Action
  | hand (i : ℕ)
  | check (i : ℕ)
  | stopped (i : ℕ) (ok : Bool)
  | leave (i : ℕ)
  | close
  | ret
  | cancel

variable (s : State)

def State.put (i : ℕ) (w : Worker) : State := { s with workers := s.workers.set i w }

def step : Action → Option State
  | .hand i =>
    match s.main, s.unsent, s.workers[i]? with
    | .sending, id :: rest, some .idle => some { s.put i (.holding id) with unsent := rest }
    | _, _, _ => none
  | .check i =>
    match s.workers[i]? with
    | some (.holding id) => some (s.put i (if s.cancelled then .exited else .stopping id))
    | _ => none
  | .stopped i _ =>
    match s.workers[i]? with
    | some (.stopping _) => some (s.put i .idle)
    | _ => none
  | .leave i =>
    match s.main, s.workers[i]? with
    | .sending, _ => none
    | _, some .idle => some (s.put i .exited)
    | _, _ => none
  | .close =>
    match s.main, s.unsent with
    | .sending, [] => some { s with main := .waiting }
    | _, _ => none
  | .ret =>
    if s.main = .waiting ∧ ∀ w ∈ s.workers, w = .exited then some { s with main := .returned }
    else none
  | .cancel => if s.cancelled then none else some { s with cancelled := true }

/-! ## Counting workers -/

def total (f : Worker → ℕ) (ws : List Worker) : ℕ := (ws.map f).sum

theorem total_set {f : Worker → ℕ} {ws : List Worker} {i : ℕ} {w w' : Worker}
    (h : ws[i]? = some w) : total f (ws.set i w') + f w = total f ws + f w' := by
  induction ws generalizing i with
  | nil => simp at h
  | cons x ws ih =>
    cases i with
    | zero =>
      obtain rfl : x = w := by simpa using h
      simp [total]
      omega
    | succ i =>
      have hrest := ih (by simpa using h)
      simp only [total, List.set_cons_succ, List.map_cons, List.sum_cons] at hrest ⊢
      omega

theorem total_mono {f g : Worker → ℕ} (h : ∀ w, f w ≤ g w) (ws : List Worker) :
    total f ws ≤ total g ws :=
  List.sum_le_sum fun w _ => h w

theorem total_eq_zero {f : Worker → ℕ} {ws : List Worker} (h : ∀ w ∈ ws, f w = 0) :
    total f ws = 0 := by
  refine List.sum_eq_zero fun n hn => ?_
  obtain ⟨w, hw, rfl⟩ := List.mem_map.mp hn
  exact h w hw

def Worker.held : Worker → ℕ
  | .holding _ => 1
  | _ => 0

def Worker.alive : Worker → ℕ
  | .exited => 0
  | _ => 1

def Worker.steps : Worker → ℕ
  | .idle => 1
  | .holding _ => 3
  | .stopping _ => 2
  | .exited => 0

def State.pending : ℕ := s.unsent.length + total Worker.held s.workers

def State.alive : ℕ := total Worker.alive s.workers

/-- **The condition**: a cancellation while identifiers are handed over finds no more of them that
no worker has looked at than there are workers. -/
def Timely : Action → Prop
  | .cancel => s.main = .sending → s.pending ≤ s.workers.length
  | _ => True

/-! ## What a step does -/

section Steps

variable {s s' : State} {a : Action}

def Main.steps : Main → ℕ
  | .sending => 2
  | .waiting => 1
  | .returned => 0

def State.measure (s : State) : ℕ :=
  3 * s.unsent.length + total Worker.steps s.workers + s.main.steps + (!s.cancelled).toNat

inductive Effect (s s' : State) (a : Action) : Prop
  | work (hmain : s'.main = s.main) (hcancelled : s'.cancelled = s.cancelled)
      (hpending : s'.pending = s.pending) (halive : s'.alive = s.alive)
  | look (hmain : s'.main = s.main) (hcancelled : s'.cancelled = s.cancelled)
      (hpending : s'.pending + 1 = s.pending)
      (halive : s'.alive + (if s.cancelled then 1 else 0) = s.alive)
  | finish (hmain : s.main ≠ .sending) (hmain' : s'.main ≠ .sending)
  | close (hmain : s.main = .sending) (hempty : s.unsent = []) (hmain' : s'.main = .waiting)
  | cancel (ha : a = .cancel) (hbefore : s.cancelled = false)
      (hs : s' = { s with cancelled := true })

theorem counts_put {i : ℕ} {w : Worker} (w' : Worker) (hw : s.workers[i]? = some w) :
    (s.put i w').measure + w.steps = s.measure + w'.steps ∧
      (s.put i w').pending + w.held = s.pending + w'.held ∧
      (s.put i w').alive + w.alive = s.alive + w'.alive := by
  have hsteps := @total_set Worker.steps _ _ _ w' hw
  have hheld := @total_set Worker.held _ _ _ w' hw
  refine ⟨?_, ?_, total_set hw⟩
  · simp only [State.measure, State.put] at hsteps ⊢
    omega
  · simp only [State.pending, State.put] at hheld ⊢
    omega

/-- **What a step can do**: it lowers the measure, keeps the number of workers, and has one of the
effects. -/
structure Does (s s' : State) (a : Action) : Prop where
  measure : s'.measure < s.measure
  length : s'.workers.length = s.workers.length
  effect : Effect s s' a

theorem does_hand {i : ℕ} (h : step s (.hand i) = some s') : Does s s' (.hand i) := by
  simp only [step] at h
  split at h
  next id rest hmain hunsent hw =>
    cases h
    obtain ⟨hm, hp, ha⟩ := counts_put (.holding id) hw
    simp only [State.measure, State.pending, State.alive, State.put, hunsent, List.length_cons,
      Worker.steps, Worker.held, Worker.alive] at hm hp ha
    refine ⟨?_, by simp [State.put], .work rfl rfl ?_ ?_⟩
    · simp only [State.measure, State.put, hunsent, hmain, List.length_cons] at hm ⊢
      omega
    · simp only [State.pending, State.put, hunsent, List.length_cons]
      omega
    · simp only [State.alive, State.put]
      omega
  next => cases h

theorem does_check {i : ℕ} (h : step s (.check i) = some s') : Does s s' (.check i) := by
  simp only [step] at h
  split at h
  next id hw =>
    cases h
    have hcounts := counts_put (if s.cancelled then .exited else .stopping id) hw
    cases hc : s.cancelled with
    | false | true =>
      simp only [hc, Bool.false_eq_true, if_false, if_true, Worker.steps, Worker.held,
        Worker.alive] at hcounts ⊢
      exact ⟨by omega, by simp [State.put], .look rfl rfl (by omega) (by simp [hc]; omega)⟩
  next => cases h

theorem step_effect (h : step s a = some s') : Does s s' a := by
  cases a with
  | hand i => exact does_hand h
  | check i => exact does_check h
  | stopped i ok =>
    simp only [step] at h
    split at h
    next id hw =>
      cases h
      obtain ⟨hm, hp, ha⟩ := counts_put .idle hw
      simp only [Worker.steps, Worker.held, Worker.alive] at hm hp ha
      exact ⟨by omega, by simp [State.put], .work rfl rfl (by omega) (by omega)⟩
    next => cases h
  | leave i =>
    simp only [step] at h
    split at h
    next => cases h
    next hw hmain =>
      cases h
      obtain ⟨hm, -, -⟩ := counts_put .exited hw
      simp only [Worker.steps] at hm
      exact ⟨by omega, by simp [State.put], .finish hmain hmain⟩
    next => cases h
  | close =>
    simp only [step] at h
    split at h
    next hmain hunsent =>
      cases h
      refine ⟨?_, rfl, .close hmain hunsent rfl⟩
      simp only [State.measure, hmain, Main.steps]
      omega
    next => cases h
  | ret =>
    simp only [step] at h
    split at h
    next hret =>
      cases h
      refine ⟨?_, rfl, .finish (by simp [hret.1]) (by simp)⟩
      simp only [State.measure, hret.1, Main.steps]
      omega
    next => cases h
  | cancel =>
    simp only [step] at h
    split at h
    next => cases h
    next hc =>
      cases h
      refine ⟨?_, rfl, .cancel rfl (Bool.eq_false_iff.mpr hc) rfl⟩
      simp [State.measure, hc]

/-! ## Invariants -/

structure Inv (s : State) : Prop where
  crew : s.main = .sending → 0 < s.workers.length
  whole : s.main = .sending → s.cancelled = false → s.alive = s.workers.length

def Enough (s : State) : Prop := s.main = .sending → s.cancelled → s.pending ≤ s.alive

structure Short (s : State) : Prop where
  sending : s.main = .sending
  cancelled : s.cancelled
  few : s.alive < s.pending

theorem Inv.step (hs : Inv s) (h : step s a = some s') : Inv s' := by
  obtain ⟨-, hlength, heffect⟩ := step_effect h
  cases heffect with
  | work hmain hcancelled _ halive =>
    refine ⟨fun hm => ?_, fun hm hc => ?_⟩
    · exact hlength ▸ hs.crew (hmain ▸ hm)
    · rw [halive, hlength]
      exact hs.whole (hmain ▸ hm) (hcancelled ▸ hc)
  | look hmain hcancelled _ halive =>
    refine ⟨fun hm => ?_, fun hm hc => ?_⟩
    · exact hlength ▸ hs.crew (hmain ▸ hm)
    · rw [hcancelled] at hc
      rw [hlength, ← hs.whole (hmain ▸ hm) hc, ← halive]
      simp [hc]
  | finish _ hmain' => exact ⟨fun hm => absurd hm hmain', fun hm => absurd hm hmain'⟩
  | close _ _ hmain' =>
    have hno : s'.main ≠ .sending := by simp [hmain']
    exact ⟨fun hm => absurd hm hno, fun hm => absurd hm hno⟩
  | cancel _ _ hs' =>
    subst hs'
    exact ⟨hs.crew, fun _ hc => nomatch hc⟩

theorem Enough.step (hs : Inv s) (he : Enough s) (hok : Timely s a) (h : step s a = some s') :
    Enough s' := by
  obtain ⟨-, -, heffect⟩ := step_effect h
  intro hm hc
  cases heffect with
  | work hmain hcancelled hpending halive =>
    rw [hpending, halive]
    exact he (hmain ▸ hm) (hcancelled ▸ hc)
  | look hmain hcancelled hpending halive =>
    rw [hcancelled] at hc
    have hle := he (hmain ▸ hm) hc
    rw [if_pos hc] at halive
    omega
  | finish _ hmain' => exact absurd hm hmain'
  | close _ _ hmain' => simp [hmain'] at hm
  | cancel ha hbefore hs' =>
    subst hs' ha
    exact (hs.whole hm hbefore).symm ▸ hok hm

def Manned (s : State) : Prop := Inv s ∧ Enough s

theorem Manned.step (hs : Manned s) (hok : Timely s a) (h : step s a = some s') : Manned s' :=
  ⟨hs.1.step h, hs.2.step hs.1 hok h⟩

theorem held_le_alive (s : State) : total Worker.held s.workers ≤ s.alive :=
  total_mono (fun w => by cases w <;> simp [Worker.held, Worker.alive]) s.workers

theorem Short.step (hs : Short s) (h : step s a = some s') : Short s' := by
  obtain ⟨-, -, heffect⟩ := step_effect h
  cases heffect with
  | work hmain hcancelled hpending halive =>
    exact ⟨hmain ▸ hs.sending, hcancelled ▸ hs.cancelled, by rw [hpending, halive]; exact hs.few⟩
  | look hmain hcancelled hpending halive =>
    refine ⟨hmain ▸ hs.sending, hcancelled ▸ hs.cancelled, ?_⟩
    have hfew := hs.few
    rw [if_pos hs.cancelled] at halive
    omega
  | finish hmain _ => exact absurd hs.sending hmain
  | close _ hempty _ =>
    have hfew := hs.few
    have hle := held_le_alive s
    simp only [State.pending, hempty, List.length_nil] at hfew
    omega
  | cancel _ hbefore _ =>
    have hc := hs.cancelled
    simp [hbefore] at hc

end Steps

/-! ## Runs -/

section Runs

variable {s s' : State} {as : List Action}

def Stuck (s : State) : Prop := ∀ a, a ≠ .cancel → step s a = none

theorem Stuck.idle_or_exited (h : Stuck s) {i : ℕ} {w : Worker} (hw : s.workers[i]? = some w) :
    w = .idle ∨ w = .exited := by
  cases w with
  | idle => exact .inl rfl
  | exited => exact .inr rfl
  | holding id =>
    have := h (.check i) nofun
    simp [step, hw] at this
  | stopping id =>
    have := h (.stopped i true) nofun
    simp [step, hw] at this

theorem Stuck.returned (h : Stuck s) (hs : Inv s) (he : Enough s) : s.main = .returned := by
  cases hmain : s.main with
  | returned => rfl
  | waiting =>
    have hall : ∀ w ∈ s.workers, w = .exited := by
      intro w hw
      obtain ⟨i, hi⟩ := List.mem_iff_getElem?.mp hw
      rcases h.idle_or_exited hi with rfl | rfl
      · have := h (.leave i) nofun
        simp [step, hmain, hi] at this
      · rfl
    have := h .ret nofun
    simp only [step, hmain, true_and] at this
    rw [if_pos hall] at this
    cases this
  | sending =>
    cases hunsent : s.unsent with
    | nil =>
      have := h .close nofun
      simp [step, hmain, hunsent] at this
    | cons id rest =>
      have hall : ∀ w ∈ s.workers, w = .exited := by
        intro w hw
        obtain ⟨i, hi⟩ := List.mem_iff_getElem?.mp hw
        rcases h.idle_or_exited hi with rfl | rfl
        · have := h (.hand i) nofun
          simp [step, hmain, hunsent, hi] at this
        · rfl
      have halive : s.alive = 0 := total_eq_zero fun w hw => by rw [hall w hw]; rfl
      cases hc : s.cancelled with
      | false =>
        have hcrew := hs.crew hmain
        have hwhole := hs.whole hmain hc
        omega
      | true =>
        have hle := he hmain hc
        simp only [State.pending, hunsent, List.length_cons] at hle
        omega

theorem inv_start (ids : List Str) : Inv (start ids) := by
  unfold start
  split
  · exact ⟨nofun, nofun⟩
  · refine ⟨fun _ => ?_, fun _ _ => ?_⟩
    · simpa using shutdownDrainWorkerCount_pos ids.length
    · simp [State.alive, total, Worker.alive]

theorem measure_start_le (ids : List Str) :
    (start ids).measure ≤ 3 * ids.length + shutdownDrainWorkerCount ids.length + 3 := by
  unfold start
  split
  · simp [State.measure, total, Main.steps]
  · simp [State.measure, total, Main.steps, Worker.steps]

theorem short_run (hs : Short s) (h : Machine.run step s as = some s') : Short s' :=
  Machine.invariant_run_always (fun _ _ _ hs h => hs.step h) hs h

theorem short_cancel {a : Action} (hs : Inv s) (h : step s a = some s') (hlate : ¬ Timely s a) :
    Short s' := by
  cases a with
  | cancel =>
    simp only [Timely, Classical.not_imp, Nat.not_le] at hlate
    simp only [step] at h
    split at h
    next => cases h
    next hc =>
      cases h
      refine ⟨hlate.1, rfl, ?_⟩
      exact (hs.whole hlate.1 (Bool.eq_false_iff.mpr hc)).trans_lt hlate.2
  | _ => exact absurd trivial hlate

theorem timely_of_returned (hs : Inv s) (h : Machine.run step s as = some s')
    (hret : s'.main = .returned) : Machine.Along step Timely s as := by
  induction as generalizing s with
  | nil => exact trivial
  | cons a as ih =>
    obtain ⟨t, ht, hrun⟩ := Machine.run_cons_eq_some.mp h
    constructor
    · by_contra hlate
      have hsending := (short_run (short_cancel hs ht hlate) hrun).sending
      rw [hret] at hsending
      cases hsending
    · intro t' ht'
      cases ht.symm.trans ht'
      exact ih (hs.step ht) hrun

/-- **The call returns exactly when its cancellation is timely**: whatever the identifiers, the stop
outcomes, the interleaving and the moment of the cancellation, a run makes a bounded number of
steps, and one that cannot go on has returned if and only if the cancellation, should there be one,
was timely. -/
theorem returns_iff_timely (ids : List Str) (as : List Action) (s : State)
    (hrun : Machine.run step (start ids) as = some s) :
    as.length ≤ 3 * ids.length + shutdownDrainWorkerCount ids.length + 3 ∧
      (Stuck s → (s.main = .returned ↔ Machine.Along step Timely (start ids) as)) := by
  constructor
  · have hle := Machine.length_add_measure_le (fun _ _ _ h => (step_effect h).1) hrun
    have hstart := measure_start_le ids
    omega
  · refine fun hstuck => ⟨timely_of_returned (inv_start ids) hrun, fun hok => ?_⟩
    have hinit : Manned (start ids) := by
      refine ⟨inv_start ids, fun _ hc => ?_⟩
      unfold start at hc
      split at hc <;> cases hc
    have hs : Manned s := Machine.invariant_run (fun _ _ _ hs hok h => hs.step hok h) hok hinit hrun
    exact hstuck.returned hs.1 hs.2

theorem stuck_of_exited (hall : ∀ w ∈ s.workers, w = .exited)
    (hmain : s.main = .returned ∨ s.main = .sending ∧ s.unsent ≠ []) : Stuck s := by
  intro a ha
  have hget : ∀ i : ℕ, s.workers[i]? = none ∨ s.workers[i]? = some .exited := by
    intro i
    cases hi : s.workers[i]? with
    | none => exact .inl rfl
    | some w => exact .inr (congrArg some (hall w (List.mem_of_getElem? hi)))
  cases a with
  | cancel => exact absurd rfl ha
  | close | ret => rcases hmain with hmain | ⟨hmain, hunsent⟩ <;> simp [step, *]
  | hand i =>
    simp only [step]
    split
    next hi => rcases hget i with h | h <;> simp [h] at hi
    next => rfl
  | leave i =>
    simp only [step]
    split
    next => rfl
    next hi _ => rcases hget i with h | h <;> simp [h] at hi
    next => rfl
  | check i | stopped i ok => rcases hget i with h | h <;> simp [step, h]

/-- Two containers, stopped by two workers. -/
theorem returns_iff_timely_twoContainers :
    let ids := ["a".toList, "b".toList]
    let as : List Action := [.hand 0, .hand 1, .check 1, .cancel, .stopped 1 false, .check 0,
      .close, .leave 1, .ret]
    ∃ s, Machine.run step (start ids) as = some s ∧ Stuck s ∧ s.main = .returned ∧
      Machine.Along step Timely (start ids) as := by
  intro ids as
  have hrun : Machine.run step (start ids) as =
      some ⟨[], [.exited, .exited], .returned, true⟩ := by decide
  have hstuck : Stuck ⟨[], [.exited, .exited], .returned, true⟩ :=
    stuck_of_exited (by decide) (.inl rfl)
  exact ⟨_, hrun, hstuck, rfl, ((returns_iff_timely ids as _ hrun).2 hstuck).mp rfl⟩

/-- **A cancelled drain blocks**: with nine containers and a context that is cancelled before the
first is handed over, each of the eight workers takes one identifier and returns, and the caller
waits forever for somebody to take the ninth. -/
theorem cancelled_drain_blocks :
    ∃ as s, Machine.run step (start (List.replicate 9 "c".toList)) as = some s ∧ Stuck s ∧
      s.main = .sending := by
  have hrun : Machine.run step (start (List.replicate 9 "c".toList))
      (.cancel :: (List.range 8).flatMap fun i => [.hand i, .check i]) =
      some ⟨["c".toList], List.replicate 8 .exited, .sending, true⟩ := by decide
  have hstuck : Stuck ⟨["c".toList], List.replicate 8 .exited, .sending, true⟩ :=
    stuck_of_exited (by decide) (.inr ⟨rfl, nofun⟩)
  exact ⟨_, _, hrun, hstuck, rfl⟩

end Runs

end Edgelet.ProcessManager.Drain
