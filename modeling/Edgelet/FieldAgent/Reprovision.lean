import Edgelet.Machine.Run
import Mathlib.Data.Nat.Notation
import Mathlib.Logic.Function.Basic

/-!
# A provision during the cleanup of a deprovision

`DeprovisionWithOptions` returns while a goroutine still clears the cache tables three times, stops
the microservices and empties the listeners. Neither it nor `Provision` takes a lock. Both are lists
of statements: one clears places that hold data of the controller, the other stores into them.
-/

namespace Edgelet.FieldAgent.Reprovision

/-! ## The two threads -/

inductive Place
  | registryRows
  | volumeMountRows
  | modelRows
  | knowledgeRows
  | runtimeClassRows
  | microserviceRows
  | volumeLedger
  | serviceAccountTokens
  | registries
  | latestMicroservices
  | currentMicroservices
  | registriesListener
  | microservicesListener
  deriving DecidableEq

inductive Cleanup
  | clear (p : Place)
  | clearLocalWorkloads
  | stopRunningMicroservices
  | pruneContainers
  | purgeWorkloads
  | resetControllerRegisterState
  | notify (p : Place)
  | notifyConfigs

def Cleanup.clears : Cleanup → List Place
  | clear p => [p]
  | purgeWorkloads => [.volumeLedger]
  | notify p => [p]
  | _ => []

def clearSQLiteCacheTablesOnDeprovision (preserveLocal : Bool) : List Cleanup :=
  [.clear .microserviceRows, .clear .registryRows, .clear .modelRows, .clear .runtimeClassRows,
    .clear .knowledgeRows] ++ if preserveLocal then [] else [.clearLocalWorkloads]

def applyDeprovisionVolumePolicy (preserveLocal purgeVolumes : Bool) : List Cleanup :=
  clearSQLiteCacheTablesOnDeprovision preserveLocal ++
    (if purgeVolumes then [.purgeWorkloads] else []) ++ [.clear .volumeMountRows]

def cleanupProgram (preserveLocal purgeVolumes lite : Bool) : List Cleanup :=
  clearSQLiteCacheTablesOnDeprovision preserveLocal ++ [.stopRunningMicroservices] ++
    (if !preserveLocal && lite then [.pruneContainers] else []) ++
    applyDeprovisionVolumePolicy preserveLocal purgeVolumes ++
    [.clear .serviceAccountTokens, .resetControllerRegisterState] ++
    clearSQLiteCacheTablesOnDeprovision preserveLocal ++
    [.notify .microservicesListener, .notify .registriesListener, .notifyConfigs]

def loadProgram : List Place :=
  [.registryRows, .registries, .registriesListener, .volumeMountRows, .modelRows, .knowledgeRows,
    .runtimeClassRows, .microserviceRows, .volumeLedger, .latestMicroservices,
    .currentMicroservices, .serviceAccountTokens, .microservicesListener]

/-! ## The machine -/

structure State (α : Type) where
  contents : Place → List α
  stored : Place → List α
  cleanup : List Cleanup
  load : List Place

def State.start {α : Type} (contents : Place → List α) (preserveLocal purgeVolumes lite : Bool) :
    State α where
  contents := contents
  stored _ := []
  cleanup := cleanupProgram preserveLocal purgeVolumes lite
  load := loadProgram

inductive Action (α : Type)
  | cleanup
  | cleanupFails
  | purge (keep : α → Bool)
  | store (items : List α)
  /-- The load of the next place fails, there is no listener, or the ledger is complete. -/
  | skip

def written {α : Type} (p : Place) (before items : List α) : List α :=
  if p = .volumeLedger then before ++ items else items

def step {α : Type} (s : State α) : Action α → Option (State α)
  | .cleanup =>
    match s.cleanup with
    | .clear p :: rest | .notify p :: rest =>
      some { s with contents := Function.update s.contents p [], cleanup := rest }
    | _ :: rest => some { s with cleanup := rest }
    | [] => none
  | .cleanupFails =>
    match s.cleanup with
    | _ :: rest => some { s with cleanup := rest }
    | [] => none
  | .purge keep =>
    match s.cleanup with
    | .purgeWorkloads :: _ =>
      some { s with contents :=
        Function.update s.contents .volumeLedger ((s.contents .volumeLedger).filter keep) }
    | _ => none
  | .store items =>
    match s.load with
    | p :: rest =>
      some { s with
        contents := Function.update s.contents p (written p (s.contents p) items)
        stored := Function.update s.stored p (written p (s.stored p) items)
        load := if p = .volumeLedger then p :: rest else rest }
    | [] => none
  | .skip =>
    match s.load with
    | _ :: rest => some { s with load := rest }
    | [] => none

/-- **Nothing of the provision is lost**: what it has stored is present. -/
def Kept {α : Type} (s : State α) : Prop := ∀ p, s.stored p ⊆ s.contents p

def State.Threatened {α : Type} (s : State α) (p : Place) : Prop :=
  ∃ c ∈ s.cleanup, p ∈ c.clears

/-- **The condition**: the provision stores items only at a place that the goroutine will not clear
any more. -/
def Settled {α : Type} (s : State α) : Action α → Prop
  | .store items => items ≠ [] → ∀ p ∈ s.load.head?, ¬ s.Threatened p
  | _ => True

instance {α : Type} (s : State α) (p : Place) : Decidable (s.Threatened p) :=
  inferInstanceAs (Decidable (∃ c ∈ s.cleanup, p ∈ c.clears))

instance {α : Type} (s : State α) : ∀ a, Decidable (Settled s a)
  | .store items =>
    inferInstanceAs (Decidable (items ≠ [] → ∀ p ∈ s.load.head?, ¬ s.Threatened p))
  | .cleanup | .cleanupFails | .purge _ | .skip => isTrue trivial

/-! ## What a step does -/

section Steps

variable {α : Type} {s s' : State α} {a : Action α}

structure Clearing (s s' : State α) : Prop where
  stored : s'.stored = s.stored
  cleanup : s'.cleanup ⊆ s.cleanup
  contents : ∀ p, s.Threatened p ∨ s'.contents p = s.contents p

variable {p : Place}

theorem clearing_update {c : Cleanup} {rest : List Cleanup} {items : List α}
    {cleanup : List Cleanup} (hc : s.cleanup = c :: rest) (hp : p ∈ c.clears)
    (hsub : cleanup ⊆ s.cleanup) :
    Clearing s { s with contents := Function.update s.contents p items, cleanup := cleanup } := by
  refine ⟨rfl, hsub, fun q => ?_⟩
  by_cases hq : q = p
  · subst hq
    exact .inl ⟨c, by simp [hc], hp⟩
  · exact .inr (Function.update_of_ne hq _ _)

theorem clearing_rest {c : Cleanup} {rest : List Cleanup} (hc : s.cleanup = c :: rest) :
    Clearing s { s with cleanup := rest } :=
  ⟨rfl, hc ▸ List.subset_cons_self c rest, fun _ => .inr rfl⟩

theorem step_cases (h : step s a = some s') :
    Clearing s s' ∨ ∃ items p, a = .store items ∧ p ∈ s.load.head? ∧ s'.cleanup = s.cleanup ∧
      s'.contents = Function.update s.contents p (written p (s.contents p) items) ∧
      s'.stored = Function.update s.stored p (written p (s.stored p) items) := by
  cases a with
  | cleanup =>
    left
    simp only [step] at h
    split at h
    next p rest hc =>
      cases h
      exact clearing_update hc (by simp [Cleanup.clears]) (hc ▸ List.subset_cons_self _ rest)
    next p rest hc =>
      cases h
      exact clearing_update hc (by simp [Cleanup.clears]) (hc ▸ List.subset_cons_self _ rest)
    next hc =>
      cases h
      exact clearing_rest hc
    next => cases h
  | cleanupFails =>
    left
    simp only [step] at h
    split at h
    next hc =>
      cases h
      exact clearing_rest hc
    next => cases h
  | purge keep =>
    left
    simp only [step] at h
    split at h
    next hc =>
      cases h
      exact clearing_update hc (by simp [Cleanup.clears]) (List.Subset.refl _)
    next => cases h
  | store items =>
    right
    simp only [step] at h
    split at h
    next p rest hl =>
      cases h
      exact ⟨items, p, rfl, by simp [hl], rfl, rfl, rfl⟩
    next => cases h
  | skip =>
    left
    simp only [step] at h
    split at h
    next =>
      cases h
      exact ⟨rfl, List.Subset.refl _, fun _ => .inr rfl⟩
    next => cases h

/-! ## Settled stores are kept -/

def Inv (s : State α) : Prop :=
  ∀ p, s.stored p ⊆ s.contents p ∧ (s.stored p ≠ [] → ¬ s.Threatened p)

theorem State.Threatened.mono (hsub : s'.cleanup ⊆ s.cleanup)
    (h : s'.Threatened p) : s.Threatened p := by
  obtain ⟨c, hc, hp⟩ := h
  exact ⟨c, hsub hc, hp⟩

theorem Inv.clearing (hs : Inv s) (h : Clearing s s') : Inv s' := by
  intro p
  rw [h.stored]
  constructor
  · rcases h.contents p with hthreat | heq
    · have hnil : s.stored p = [] := by
        by_contra hne
        exact (hs p).2 hne hthreat
      rw [hnil]
      exact List.nil_subset _
    · rw [heq]
      exact (hs p).1
  · exact fun hne hthreat => (hs p).2 hne (hthreat.mono h.cleanup)

theorem written_subset {before before' items : List α} (h : before ⊆ before') :
    written p before items ⊆ written p before' items := by
  unfold written
  split
  · exact List.append_subset.mpr ⟨fun x hx => List.mem_append_left _ (h hx),
      List.subset_append_right _ _⟩
  · exact List.Subset.refl _

theorem Inv.step (hs : Inv s) (hok : Settled s a) (h : step s a = some s') : Inv s' := by
  rcases step_cases h with hclear | ⟨items, p, rfl, hp, hcleanup, hcontents, hstored⟩
  · exact hs.clearing hclear
  · intro q
    have hiff : s'.Threatened q ↔ s.Threatened q := by
      unfold State.Threatened
      rw [hcleanup]
    rw [hiff, hcontents, hstored]
    by_cases hq : q = p
    · subst hq
      rw [Function.update_self, Function.update_self]
      refine ⟨written_subset (hs q).1, fun hne => ?_⟩
      by_cases hitems : items = []
      · apply (hs q).2
        intro hnil
        simp [written, hitems, hnil] at hne
      · exact hok hitems q hp
    · rw [Function.update_of_ne hq, Function.update_of_ne hq]
      exact hs q

end Steps

/-- **Settled stores are kept**: in every interleaving in which the provision stores only at places
that the goroutine will not clear any more, what it has stored is present in every state reached,
and so once both have finished. -/
theorem kept_of_settled {α : Type} (contents : Place → List α)
    (preserveLocal purgeVolumes lite : Bool) (as : List (Action α)) (s : State α)
    (hok : Machine.Along step Settled (.start contents preserveLocal purgeVolumes lite) as)
    (hrun : Machine.run step (.start contents preserveLocal purgeVolumes lite) as = some s) :
    Kept s := by
  have hinit : Inv (State.start contents preserveLocal purgeVolumes lite) :=
    fun p => ⟨List.nil_subset _, fun hne => absurd rfl hne⟩
  have hs : Inv s := Machine.invariant_run (fun _ _ _ hs hok h => hs.step hok h) hok hinit hrun
  exact fun p => (hs p).1

def wholeCleanup : List (Action ℕ) := List.replicate 22 .cleanup

def wholeLoad : List (Action ℕ) :=
  [.store [1], .store [1], .skip, .store [], .store [], .store [], .store [], .store [2],
    .store [3], .skip, .store [2], .store [2], .store [4], .skip]

/-- A provision that loads after the goroutine has ended keeps its rows. -/
theorem kept_of_settled_lateProvision :
    ∃ s, Machine.run step (.start (fun _ => []) true false false) (wholeCleanup ++ wholeLoad) =
        some s ∧ s.cleanup = [] ∧ s.load = [] ∧ s.stored .microserviceRows = [2] ∧ Kept s := by
  have hok : Machine.Along step Settled (.start (fun _ => []) true false false)
      (wholeCleanup ++ wholeLoad) := by decide
  exact ⟨_, rfl, rfl, rfl, rfl, kept_of_settled _ _ _ _ _ _ hok rfl⟩

/-- **A provision that comes too early loses its rows**: it loads as soon as the deprovision has
returned, and when both have finished the tables of registries and microservices are empty. -/
theorem early_provision_loses :
    ∃ s, Machine.run step (.start (fun _ => []) true false false) (wholeLoad ++ wholeCleanup) =
        some s ∧ s.cleanup = [] ∧ s.load = [] ∧
      s.stored .microserviceRows = [2] ∧ s.contents .microserviceRows = [] ∧
      s.stored .registryRows = [1] ∧ s.contents .registryRows = [] ∧ ¬ Kept s := by
  refine ⟨_, rfl, rfl, rfl, rfl, rfl, rfl, rfl, fun h => ?_⟩
  exact absurd (h .microserviceRows (List.mem_singleton_self 2)) (List.not_mem_nil)

end Edgelet.FieldAgent.Reprovision
