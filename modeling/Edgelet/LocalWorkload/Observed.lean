import Edgelet.Machine.Run
import Mathlib.Data.Nat.Notation
import Mathlib.Logic.Relation

/-!
# The observed generation of a local workload

An apply raises the generation, removes the container and launches one from the new manifest; passes
leave the row alone meanwhile, for half an hour. One whose manifest needs no new container keeps the
one there is. A pass that finds the container running records the generation as observed, also the
one that an apply could not remove. Manifests and what decides about a recreate are parameters.
-/

namespace Edgelet.LocalWorkload.Observed

variable {M : Type}

inductive RuntimeState
  | starting
  | running
  | other
  deriving DecidableEq

structure Deployment (M : Type) where
  manifest : M
  runtimeState : RuntimeState
  containerID : Option ℕ
  lastTransitionAt : ℕ
  lastStartAttemptAt : ℕ
  generation : ℕ
  observedGeneration : ℕ

def localLaunchInFlightStaleTimeout : ℕ := 30 * 60

def Deployment.startedAt (d : Deployment M) : ℕ :=
  if d.lastStartAttemptAt = 0 then d.lastTransitionAt else d.lastStartAttemptAt

def localDeploymentLaunchInFlight (d : Deployment M) (now : ℕ) : Bool :=
  d.runtimeState == .starting && decide (d.observedGeneration < d.generation) &&
    !(decide (0 < d.startedAt) &&
      decide (d.startedAt + localLaunchInFlightStaleTimeout < now))

structure Container (M : Type) where
  id : ℕ
  manifest : M

inductive Apply (M : Type)
  | idle
  /-- The new row is written; the container named by the previous row is to be removed. -/
  | persisted (item : Deployment M) (previous : Option ℕ)
  | launching (item : Deployment M)

structure State (M : Type) where
  row : Option (Deployment M)
  container : Option (Container M)
  apply : Apply M
  nextID : ℕ
  now : ℕ

def State.init (M : Type) (now : ℕ) : State M := ⟨none, none, .idle, 0, now⟩

/-- How the launch of a container ends. A failed one removes what it created, unless that
fails too. -/
inductive Launch
  | ok
  | failed
  | leftover
  deriving DecidableEq

inductive Visit
  | running
  | notRunning
  | recreate (launch : Launch)
  | keep
  deriving DecidableEq

inductive Action (M : Type)
  | apply (manifest : M)
  | remove (ok : Bool)
  | launch (result : Launch)
  /-- A pass: how its launch ends if there is no container, what it finds if there is one. -/
  | pass (result : Launch) (visit : Visit)
  | lose
  | tick (d : ℕ)

namespace State

variable (needsRecreate : M → M → Bool) (s : State M)

variable (manifest : M) (result : Launch)

/-- The container after a launch; a failed one leaves what there was. -/
def created : Launch → Option (Container M)
  | .ok | .leftover => some ⟨s.nextID, manifest⟩
  | .failed => s.container

def launchFrom (d : Deployment M) (result : Launch) : State M :=
  { s with
    container := s.created d.manifest result
    nextID := s.nextID + 1
    row := some (if result = .ok then
      { d with
        containerID := some s.nextID, runtimeState := .running, lastTransitionAt := s.now
        observedGeneration := d.generation }
      else { d with runtimeState := .other, lastTransitionAt := s.now }) }

def applied : Deployment M :=
  ⟨manifest, .starting, none, s.now, s.now, ((s.row.map (·.generation)).getD 0) + 1, 0⟩

def keepContainer : Bool :=
  match s.row with
  | none => false
  | some r => r.containerID.isSome && !needsRecreate r.manifest manifest

def beginApply : Option (State M) :=
  match s.apply with
  | .idle =>
    let item := s.applied manifest
    let previous := s.row.bind (·.containerID)
    if s.keepContainer needsRecreate manifest then
      some { s with row := some { item with
        containerID := previous, runtimeState := .running, lastStartAttemptAt := 0
        observedGeneration := item.generation } }
    else some { s with row := some item, apply := .persisted item previous }
  | _ => none

def removePrevious (ok : Bool) : Option (State M) :=
  match s.apply with
  | .persisted item previous =>
    let item' := { item with lastStartAttemptAt := s.now }
    if previous.isSome && !ok then some { s with apply := .idle }
    else
      some { s with
        row := some item', apply := .launching item'
        container := s.container.filter fun c => decide (previous ≠ some c.id) }
  | _ => none

def launch : Option (State M) :=
  match s.apply with
  | .launching item => some { s.launchFrom item result with apply := .idle }
  | _ => none

def pass (visit : Visit) : State M :=
  match s.row with
  | none => s
  | some d =>
    if localDeploymentLaunchInFlight d s.now then s
    else
      match s.container with
      | none => s.launchFrom d result
      | some c =>
        match visit with
        | .running =>
          { s with row := some { d with
            containerID := some c.id, runtimeState := .running, lastTransitionAt := s.now
            observedGeneration := d.generation } }
        | .notRunning =>
          { s with row := some { d with
            containerID := some c.id, runtimeState := .other, lastTransitionAt := s.now } }
        | .recreate launch => { s with container := none }.launchFrom d launch
        | .keep => s

end State

variable (needsRecreate : M → M → Bool) (s : State M)

def step : Action M → Option (State M)
  | .apply manifest => s.beginApply needsRecreate manifest
  | .remove ok => s.removePrevious ok
  | .launch result => s.launch result
  | .pass result visit => some (s.pass result visit)
  | .lose => some { s with container := none }
  | .tick d => some { s with now := s.now + d }

/-! ## The observed generation is sound -/

/-- **A container stands for a manifest** when it was created from it, or from one that it was
applied over, step by step, without a recreate. -/
def StandsFor : M → M → Prop :=
  Relation.ReflTransGen fun a b => needsRecreate a b = false

/-- **A pass that looks at a container finds it named**: unless a launch is in flight, the row
names a container when there is one. -/
def Named : Action M → Prop
  | .pass _ visit => visit = .running ∨ visit = .notRunning → ∀ d ∈ s.row,
      localDeploymentLaunchInFlight d s.now = false → s.container.isSome → d.containerID.isSome
  | _ => True

instance : DecidablePred (Named s)
  | .pass _ _ => inferInstanceAs (Decidable (_ → _))
  | .apply _ | .remove _ | .launch _ | .lose | .tick _ => isTrue trivial

section

variable {needsRecreate : M → M → Bool} {s s' : State M}

/-- The row names a container, or has its generation observed. -/
def Deployment.Claims (d : Deployment M) : Prop :=
  d.containerID.isSome ∨ d.observedGeneration = d.generation

/-- The row that an apply is about to write again. -/
def Apply.item : Apply M → Option (Deployment M)
  | .idle => none
  | .persisted item _ | .launching item => some item

/-- The container stands for the manifest of a row that claims one, and the row of an apply claims
none before the launch. -/
structure Inv (needsRecreate : M → M → Bool) (s : State M) : Prop where
  stands : ∀ c ∈ s.container, ∀ d ∈ s.row, d.Claims →
    StandsFor needsRecreate c.manifest d.manifest
  item : ∀ d ∈ s.apply.item, ¬ d.Claims

theorem not_claims_applied {manifest : M} : ¬ (s.applied manifest).Claims := by
  simp [Deployment.Claims, State.applied]

variable {result : Launch} {d : Deployment M}

theorem stands_launchFrom (h : result = .failed → d.Claims → s.container = none) :
    ∀ c ∈ (s.launchFrom d result).container, ∀ d' ∈ (s.launchFrom d result).row, d'.Claims →
      StandsFor needsRecreate c.manifest d'.manifest := by
  rintro c hc d' ⟨⟩ hclaims
  cases result with
  | failed => exact absurd hc (by simp [State.launchFrom, State.created, h rfl hclaims])
  | ok | leftover =>
    cases hc
    exact .refl

theorem Inv.beginApply {manifest : M} (hs : Inv needsRecreate s)
    (h : s.beginApply needsRecreate manifest = some s') : Inv needsRecreate s' := by
  unfold State.beginApply at h
  split at h
  case h_2 => cases h
  case h_1 hidle =>
    split at h
    · rename_i hkeep
      cases h
      refine ⟨?_, hs.item⟩
      rintro c hc d ⟨⟩ -
      unfold State.keepContainer at hkeep
      split at hkeep
      · cases hkeep
      · rename_i r hrow
        obtain ⟨hnamed, hkept⟩ := Bool.and_eq_true_iff.mp hkeep
        exact (hs.stands c hc r hrow (.inl hnamed)).tail (by simpa [State.applied] using hkept)
    · cases h
      constructor
      · rintro c - d ⟨⟩ hclaims
        exact absurd hclaims not_claims_applied
      · rintro d ⟨⟩
        exact not_claims_applied

theorem Inv.removePrevious {ok : Bool} (hs : Inv needsRecreate s)
    (h : s.removePrevious ok = some s') : Inv needsRecreate s' := by
  unfold State.removePrevious at h
  split at h
  case h_2 => cases h
  case h_1 item previous hpersisted =>
    have hitem : ¬ item.Claims := hs.item item (by simp [hpersisted, Apply.item])
    split at h
    · cases h
      exact ⟨hs.stands, nofun⟩
    · cases h
      constructor
      · rintro c - d ⟨⟩ hclaims
        exact absurd hclaims hitem
      · rintro d ⟨⟩
        exact hitem

theorem Inv.launch (hs : Inv needsRecreate s) (h : s.launch result = some s') :
    Inv needsRecreate s' := by
  unfold State.launch at h
  split at h
  case h_2 => cases h
  case h_1 item hlaunching =>
    have hitem : ¬ item.Claims := hs.item item (by simp [hlaunching, Apply.item])
    cases h
    exact ⟨stands_launchFrom fun _ hclaims => absurd hclaims hitem, nofun⟩

theorem Inv.pass {visit : Visit} (hs : Inv needsRecreate s)
    (hnamed : Named s (.pass result visit)) : Inv needsRecreate (s.pass result visit) := by
  unfold State.pass
  split
  · exact hs
  · rename_i d hrow
    split
    · exact hs
    · rename_i hflight
      split
      · rename_i hnone
        exact ⟨stands_launchFrom fun _ _ => hnone, hs.item⟩
      · rename_i c hc
        have hfound (hvisit : visit = .running ∨ visit = .notRunning) :
            StandsFor needsRecreate c.manifest d.manifest := by
          refine hs.stands c hc d hrow (.inl ?_)
          exact hnamed hvisit d hrow (by simpa using hflight) (by simp [hc])
        cases visit with
        | keep => exact hs
        | recreate launch => exact ⟨stands_launchFrom fun _ _ => rfl, hs.item⟩
        | running =>
          refine ⟨?_, hs.item⟩
          rintro c' hc' d' ⟨⟩ -
          obtain rfl : c = c' := Option.some.inj (hc.symm.trans hc')
          exact hfound (.inl rfl)
        | notRunning =>
          refine ⟨?_, hs.item⟩
          rintro c' hc' d' ⟨⟩ -
          obtain rfl : c = c' := Option.some.inj (hc.symm.trans hc')
          exact hfound (.inr rfl)

theorem Inv.step {a : Action M} (hs : Inv needsRecreate s) (hnamed : Named s a)
    (h : step needsRecreate s a = some s') : Inv needsRecreate s' := by
  cases a with
  | apply manifest => exact hs.beginApply h
  | remove ok => exact hs.removePrevious h
  | launch result => exact hs.launch h
  | pass result visit =>
    cases h
    exact hs.pass hnamed
  | tick =>
    cases h
    exact ⟨hs.stands, hs.item⟩
  | lose =>
    cases h
    exact ⟨nofun, hs.item⟩

end

structure Manifest where
  image : String
  catalogItems : List String
  deriving DecidableEq

def imageChanged (a b : Manifest) : Bool := a.image != b.image

def wholeApply (m : Manifest) : List (Action Manifest) := [.apply m, .remove true, .launch .ok]

/-- An apply whose removal fails, a pass that leaves it alone, the apply again, and one that adds
an item. -/
def addItem : List (Action Manifest) :=
  wholeApply ⟨"web", []⟩ ++ [.apply ⟨"db", []⟩, .remove false, .pass .ok .running] ++
    wholeApply ⟨"db", []⟩ ++ [.apply ⟨"db", ["llm"]⟩]

end Edgelet.LocalWorkload.Observed
