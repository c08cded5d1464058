import Edgelet.Machine.Run
import Mathlib.Data.List.Pairwise
import Mathlib.Data.Nat.Notation
import Mathlib.Logic.Function.Basic

/-!
# The desired microservice list

`loadMicroservices` saves the answer of the controller and then replaces the latest list in memory.
It is called by a pass of the changes worker, which the worker gives up after five minutes but does
not stop, by the reconcile after a reconnect, by a provisioning and at boot. Nothing orders these
loads. Answers are numbered, and a log says what has been applied where.
-/

namespace Edgelet.FieldAgent.DesiredList

/-! ## The machine -/

inductive Loader
  | pass (n : ℕ)
  | reconcile
  | provision (n : ℕ)
  | bootstrap
  deriving DecidableEq

structure Response (M : Type) where
  seq : ℕ
  list : List M

inductive Phase (M : Type)
  | idle
  | fetched (r : Response M)
  | saved (r : Response M)
  | finished

def Phase.holds {M : Type} : Phase M → Option (Response M)
  | .fetched r | .saved r => some r
  | .idle | .finished => none

inductive Target
  | memory | table
  deriving DecidableEq

structure Applied where
  target : Target
  seq : ℕ

structure State (M : Type) where
  produced : ℕ
  passes : ℕ
  waiting : Bool
  phase : Loader → Phase M
  latestMicroservices : List M
  controllerMicroservices : Response M
  log : List Applied

variable {M : Type}

def State.init (stored : List M) : State M where
  produced := 0
  passes := 0
  waiting := false
  phase _ := .idle
  latestMicroservices := []
  controllerMicroservices := ⟨0, stored⟩
  log := []

inductive Action (M : Type)
  | beginPass
  | endPass
  | timeout
  | respond (l : Loader) (list : List M)
  | abandon (l : Loader)
  | saveControllerMicroservices (l : Loader) (ok : Bool)
  | replaceLatestMicroservices (l : Loader)
  | readStore

def Loader.begun (passes : ℕ) : Loader → Bool
  | .pass n => 0 < n && n ≤ passes
  | _ => true

def Loader.rest : Loader → Phase M
  | .pass _ => .finished
  | _ => .idle

variable (s : State M)

def State.setPhase (l : Loader) (p : Phase M) : State M :=
  { s with phase := Function.update s.phase l p }

def step : Action M → Option (State M)
  | .beginPass =>
    if s.waiting then none else some { s with passes := s.passes + 1, waiting := true }
  | .endPass =>
    match s.waiting, s.phase (.pass s.passes) with
    | true, .idle | true, .finished =>
      some { s.setPhase (.pass s.passes) .finished with waiting := false }
    | _, _ => none
  | .timeout => if s.waiting then some { s with waiting := false } else none
  | .respond l list =>
    match s.phase l with
    | .idle =>
      if l.begun s.passes then
        some { s.setPhase l (.fetched ⟨s.produced + 1, list⟩) with produced := s.produced + 1 }
      else none
    | _ => none
  | .abandon l =>
    match s.phase l with
    | .fetched _ | .saved _ => some (s.setPhase l l.rest)
    | _ => none
  | .saveControllerMicroservices l ok =>
    match s.phase l with
    | .fetched r =>
      if ok then
        some { s.setPhase l (.saved r) with
          controllerMicroservices := r
          log := ⟨.table, r.seq⟩ :: s.log }
      else some (s.setPhase l (.saved r))
    | _ => none
  | .replaceLatestMicroservices l =>
    match s.phase l with
    | .saved r =>
      some { s.setPhase l l.rest with
        latestMicroservices := r.list
        log := ⟨.memory, r.seq⟩ :: s.log }
    | _ => none
  | .readStore =>
    match s.phase .bootstrap, s.controllerMicroservices.list with
    | .idle, _ :: _ => some (s.setPhase .bootstrap (.saved s.controllerMicroservices))
    | _, _ => none

/-! ## One load at a time -/

/-- **The list never goes backwards**: after a list has reached the memory, no older one is
applied, neither to the memory nor to the table. -/
def NeverBack (log : List Applied) : Prop :=
  log.Pairwise fun later earlier => earlier.target = .memory → earlier.seq ≤ later.seq

instance (log : List Applied) : Decidable (NeverBack log) :=
  inferInstanceAs (Decidable (List.Pairwise _ _))

def State.Quiet : Prop := ∀ l, (s.phase l).holds = none

/-- **Loads come one at a time**: when the controller answers a load no other holds an answer it
has yet to apply. The table is read at boot, before anything has been applied. -/
def OneAtATime : Action M → Prop
  | .respond _ _ => s.Quiet
  | .readStore => s.Quiet ∧ s.log = []
  | _ => True

structure Inv (s : State M) : Prop where
  applied_le : ∀ a ∈ s.log, a.seq ≤ s.produced
  unique : ∀ l l' r r', (s.phase l).holds = some r → (s.phase l').holds = some r' → l = l'
  newest : ∀ l r, (s.phase l).holds = some r → r.seq ≤ s.produced ∧ ∀ a ∈ s.log, a.seq ≤ r.seq
  stored_le : s.controllerMicroservices.seq ≤ s.produced
  neverBack : NeverBack s.log

section Preservation

variable {s s' : State M} {l : Loader} {r : Response M} {p : Phase M}

theorem inv_init (stored : List M) : Inv (State.init stored) where
  applied_le _ h := nomatch h
  unique _ _ _ _ h := nomatch h
  newest _ _ h := nomatch h
  stored_le := Nat.le_refl _
  neverBack := .nil

@[simp] theorem holds_rest : (l.rest : Phase M).holds = none := by cases l <;> rfl

@[simp] theorem phase_setPhase : (s.setPhase l p).phase = Function.update s.phase l p := rfl

theorem holds_setPhase {l' : Loader} {r' : Response M}
    (h : ((s.setPhase l p).phase l').holds = some r') :
    l' = l ∧ p.holds = some r' ∨ l' ≠ l ∧ (s.phase l').holds = some r' := by
  by_cases hl : l' = l
  · subst hl
    exact .inl ⟨rfl, by simpa using h⟩
  · exact .inr ⟨hl, by simpa [Function.update_of_ne hl] using h⟩

section

variable (h : Inv s)

include h

theorem Inv.setPhase (hp : ∀ r', p.holds = some r' → (s.phase l).holds = some r') :
    Inv (s.setPhase l p) := by
  have hback {l' : Loader} {r' : Response M}
      (hl' : ((s.setPhase l p).phase l').holds = some r') : (s.phase l').holds = some r' := by
    obtain ⟨rfl, hr'⟩ | ⟨_, hr'⟩ := holds_setPhase hl'
    · exact hp r' hr'
    · exact hr'
  exact {
    applied_le := h.applied_le
    unique := fun l₁ l₂ r₁ r₂ h₁ h₂ => h.unique l₁ l₂ r₁ r₂ (hback h₁) (hback h₂)
    newest := fun l' r' hl' => h.newest l' r' (hback hl')
    stored_le := h.stored_le
    neverBack := h.neverBack }

theorem Inv.take (hquiet : s.Quiet) (hp : p.holds = some r) (hle : r.seq ≤ s.produced)
    (hnew : ∀ a ∈ s.log, a.seq ≤ r.seq) : Inv (s.setPhase l p) := by
  have honly {l' : Loader} {r' : Response M}
      (hl' : ((s.setPhase l p).phase l').holds = some r') : l' = l ∧ r' = r := by
    obtain ⟨rfl, hr'⟩ | ⟨_, hr'⟩ := holds_setPhase hl'
    · exact ⟨rfl, Option.some.inj (hr'.symm.trans hp)⟩
    · exact nomatch (hquiet l').symm.trans hr'
  exact {
    applied_le := h.applied_le
    unique := fun l₁ l₂ r₁ r₂ h₁ h₂ => (honly h₁).1.trans (honly h₂).1.symm
    newest := fun l' r' hl' => by
      obtain ⟨_, rfl⟩ := honly hl'
      exact ⟨hle, hnew⟩
    stored_le := h.stored_le
    neverBack := h.neverBack }

theorem Inv.neverBack_cons (hl : (s.phase l).holds = some r) (target : Target) :
    NeverBack (⟨target, r.seq⟩ :: s.log) :=
  List.pairwise_cons.mpr ⟨fun a ha _ => (h.newest l r hl).2 a ha, h.neverBack⟩

theorem Inv.apply (hl : (s.phase l).holds = some r)
    (hp : ∀ r', p.holds = some r' → r' = r) (target : Target) {stored : Response M}
    (hstored : stored.seq ≤ s.produced) (latest : List M) :
    Inv { s.setPhase l p with
      latestMicroservices := latest
      controllerMicroservices := stored
      log := ⟨target, r.seq⟩ :: s.log } := by
  have hset : Inv (s.setPhase l p) := h.setPhase fun r' hr' => hp r' hr' ▸ hl
  exact {
    applied_le := fun a ha => by
      obtain rfl | ha := List.mem_cons.mp ha
      · exact (h.newest l r hl).1
      · exact h.applied_le a ha
    unique := hset.unique
    newest := fun l' r' hl' => by
      obtain ⟨hle, hnew⟩ := hset.newest l' r' hl'
      refine ⟨hle, fun a ha => ?_⟩
      obtain rfl | ha := List.mem_cons.mp ha
      · obtain ⟨_, hr'⟩ | ⟨hne, hr'⟩ := holds_setPhase hl'
        · exact (hp r' hr') ▸ Nat.le_refl _
        · exact absurd (h.unique l' l r' r hr' hl) hne
      · exact hnew a ha
    stored_le := hstored
    neverBack := h.neverBack_cons hl target }

theorem Inv.produce : Inv { s with produced := s.produced + 1 } where
  applied_le a ha := Nat.le_succ_of_le (h.applied_le a ha)
  unique := h.unique
  newest l r hl := ⟨Nat.le_succ_of_le (h.newest l r hl).1, (h.newest l r hl).2⟩
  stored_le := Nat.le_succ_of_le h.stored_le
  neverBack := h.neverBack

theorem Inv.step {a : Action M} (hok : OneAtATime s a)
    (hstep : DesiredList.step s a = some s') : Inv s' := by
  cases a with
  | beginPass =>
    simp only [DesiredList.step] at hstep
    split at hstep
    · cases hstep
    · cases hstep
      exact ⟨h.applied_le, h.unique, h.newest, h.stored_le, h.neverBack⟩
  | timeout =>
    simp only [DesiredList.step] at hstep
    split at hstep
    · cases hstep
      exact ⟨h.applied_le, h.unique, h.newest, h.stored_le, h.neverBack⟩
    · cases hstep
  | endPass =>
    have hset : Inv (s.setPhase (.pass s.passes) .finished) := h.setPhase (fun _ hr' => nomatch hr')
    simp only [DesiredList.step] at hstep
    split at hstep
    · cases hstep
      exact ⟨hset.applied_le, hset.unique, hset.newest, hset.stored_le, hset.neverBack⟩
    · cases hstep
      exact ⟨hset.applied_le, hset.unique, hset.newest, hset.stored_le, hset.neverBack⟩
    · cases hstep
  | respond l list =>
    simp only [DesiredList.step] at hstep
    split at hstep
    · split at hstep
      · cases hstep
        have htake : Inv (({ s with produced := s.produced + 1 } : State M).setPhase l
            (.fetched ⟨s.produced + 1, list⟩)) :=
          h.produce.take hok rfl (Nat.le_refl _) fun a ha => Nat.le_succ_of_le (h.applied_le a ha)
        exact htake
      · cases hstep
    · cases hstep
  | abandon l =>
    have hset : Inv (s.setPhase l l.rest) := h.setPhase fun r' hr' => by simp at hr'
    simp only [DesiredList.step] at hstep
    split at hstep
    · cases hstep
      exact hset
    · cases hstep
      exact hset
    · cases hstep
  | saveControllerMicroservices l ok =>
    simp only [DesiredList.step] at hstep
    split at hstep
    · next r hphase =>
      have hl : (s.phase l).holds = some r := by rw [hphase]; rfl
      split at hstep
      · cases hstep
        have hkeep (r' : Response M) (hr' : (Phase.saved r).holds = some r') : r' = r :=
          (Option.some.inj hr').symm
        exact h.apply hl hkeep .table (h.newest l r hl).1 _
      · cases hstep
        exact h.setPhase fun r' hr' => hl.trans hr'
    · cases hstep
  | replaceLatestMicroservices l =>
    simp only [DesiredList.step] at hstep
    split at hstep
    · next r hphase =>
      have hl : (s.phase l).holds = some r := by rw [hphase]; rfl
      cases hstep
      exact h.apply hl (fun r' hr' => by simp at hr') .memory h.stored_le _
    · cases hstep
  | readStore =>
    simp only [DesiredList.step] at hstep
    split at hstep
    · cases hstep
      obtain ⟨hquiet, hlog⟩ := hok
      exact h.take hquiet rfl h.stored_le fun a ha => by simp [hlog] at ha
    · cases hstep

end

end Preservation

/-- **Loads that come one at a time never go back.** -/
theorem never_back (stored : List M) (as : List (Action M)) {s : State M}
    (hok : Machine.Along step OneAtATime (State.init stored) as)
    (hrun : Machine.run step (State.init stored) as = some s) : NeverBack s.log :=
  (Machine.invariant_run (fun _ _ _ hs hok h => hs.step hok h) hok (inv_init stored) hrun).neverBack

def wholeLoad (l : Loader) (list : List M) : List (Action M) :=
  [.respond l list, .saveControllerMicroservices l true, .replaceLatestMicroservices l]

def twoLoads : List (Action String) :=
  wholeLoad .reconcile ["web"] ++ wholeLoad (.provision 1) ["web", "db"]

theorem never_back_twoLoads :
    ∃ s, Machine.run step (State.init []) twoLoads = some s ∧ NeverBack s.log := by
  refine ⟨_, rfl, never_back [] twoLoads ?_ rfl⟩
  refine ⟨fun _ => rfl, fun s hs => ?_⟩
  cases hs
  refine ⟨trivial, fun s hs => ⟨trivial, fun s' hs' => ?_⟩⟩
  cases hs
  cases hs'
  refine ⟨fun l => ?_, fun s hs => ⟨trivial, fun s' hs' => ⟨trivial, fun _ _ => trivial⟩⟩⟩
  by_cases hl : l = .reconcile
  · subst hl
    rfl
  · simp [Function.update_of_ne hl]
    rfl

def outlivedPass : List (Action String) :=
  [.beginPass, .respond (.pass 1) ["web"], .timeout, .beginPass] ++
    wholeLoad (.pass 2) ["web", "db"] ++
    [.saveControllerMicroservices (.pass 1) true, .replaceLatestMicroservices (.pass 1)]

/-- **A pass that outlives its time limit** takes the list back, in the table and in memory. -/
theorem outlived_pass_goes_back :
    ∃ s, Machine.run step (State.init []) outlivedPass = some s ∧ ¬ NeverBack s.log ∧
      s.latestMicroservices = ["web"] ∧ s.controllerMicroservices.list = ["web"] :=
  ⟨_, rfl, by decide, rfl, rfl⟩

end Edgelet.FieldAgent.DesiredList
