import Edgelet.ModelManager.Slots

/-!
# The observed generation

A pull works with a copy of the row and writes its outcome to the row that is there at the end: if
another specification was stored in between, the outcome is taken for its. Likewise a row that was
read before a specification was stored, and is written back, removes it.
-/

namespace Edgelet.ModelManager

open Machine Lexical

/-! ## The property -/

def SameSpec (a : Option Spec) (b : Spec) : Prop := a.map Spec.identity = some b.identity

instance (a : Option Spec) (b : Spec) : Decidable (SameSpec a b) :=
  inferInstanceAs (Decidable (_ = _))

def Row.Done (r : Row) : Prop := r.observedGeneration = r.generation ∧ SameSpec r.pulled r.spec

/-- **The observed generation is the truth**: when it is the generation, the outcome is that of a
pull of the stored specification. This is the one that was asked for last, and without such an
outcome it is selected by `needsPull`, if no pull is under way and its registry is known. -/
structure Truthful (env : Env) (sh : Shared) : Prop where
  outcome : ∀ r, sh.row = some r → r.observedGeneration = r.generation → SameSpec r.pulled r.spec
  stored : ∀ r, sh.row = some r → SameSpec sh.desired r.spec
  selected : ∀ r, sh.row = some r → ¬ r.Done → sh.active = none →
    env.resolveRegistry r.spec.registryID ≠ none →
    env.needsPull sh r = .pull ∨ env.needsPull sh r = .skip

/-- **What is written back belongs to the specification that is there**: an outcome is that of a
pull of it, a row that was read is still the one asked for, and a specification that is taken for
the stored one, since its fingerprint is the same, is the same. -/
def Faithful (env : Env) (sh : Shared) : Pc → Answer → Prop
  | .markWrite o current _, _ => SameSpec o.of current.spec ∧ SameSpec sh.desired current.spec
  | .setStateWrite _ current, _ => SameSpec sh.desired current.spec
  | .touchReconcileWrite current, _ => SameSpec sh.desired current.spec
  | .upsertLocalModel incoming (some existing), _ =>
    env.specFingerprint existing.spec = env.specFingerprint (env.normalizeDefaults incoming) →
      existing.observedGeneration = existing.generation → SameSpec existing.spec incoming
  | _, _ => True

/-! ## Truthful rows -/

variable {env : Env} {i : ℕ} {sh sh' : Shared} {pc pc' : Pc} {answer : Answer}

section SameSpec

variable {a : Option Spec} {b c : Spec}

theorem sameSpec_mark {r : Row} {o : Outcome} : SameSpec a (r.mark o).spec ↔ SameSpec a r.spec := by
  have hidentity : (r.mark o).spec.identity = r.spec.identity := by
    rw [Row.mark]
    cases o.format <;> rfl
  rw [SameSpec, SameSpec, hidentity]

theorem identity_normalizeDefaults : (env.normalizeDefaults b).identity = b.identity := by
  rw [Spec.identity, Env.normalizeDefaults, trimSpace_trimSpace, trimSpace_trimSpace]
  rfl

theorem sameSpec_normalizeDefaults : SameSpec a (env.normalizeDefaults b) ↔ SameSpec a b := by
  rw [SameSpec, SameSpec, identity_normalizeDefaults]

theorem SameSpec.trans (hab : SameSpec a b) (hbc : SameSpec (some b) c) : SameSpec a c :=
  Eq.trans hab hbc

theorem SameSpec.of_common (hab : SameSpec a b) (hac : SameSpec a c) : SameSpec (some b) c :=
  hab.symm.trans hac

end SameSpec

structure Row.Sound (r : Row) : Prop where
  le : r.observedGeneration ≤ r.generation
  outcome : r.observedGeneration = r.generation → SameSpec r.pulled r.spec

abbrev Sound : State → Prop :=
  Threads.Holds (fun sh => ∀ r, sh.row = some r → r.Sound ∧ SameSpec sh.desired r.spec)
    fun _ _ pc => ∀ r, pc.held = some r → r.Sound

theorem sound_start (calls : List Call) : Sound (start calls) := by
  refine ⟨fun r hr => (nomatch hr), fun i t ht r hr => ?_⟩
  obtain ⟨call, -, rfl⟩ := List.mem_map.mp (List.mem_of_getElem? ht)
  cases call <;> cases hr

theorem sound_upserted {incoming : Spec} {existing : Option Row}
    (hexisting : ∀ r, existing = some r → r.Sound)
    (hfaithful : Faithful env sh (.upsertLocalModel incoming existing) answer) :
    (env.upserted incoming existing).Sound := by
  cases existing with
  | none => exact ⟨Nat.zero_le _, fun h => nomatch h⟩
  | some r =>
    have hr := hexisting r rfl
    rw [Env.upserted]
    split
    next hsame =>
      refine ⟨hr.le, fun hobserved => sameSpec_normalizeDefaults.mpr ?_⟩
      exact (hr.outcome hobserved).trans (hfaithful hsame hobserved)
    · exact ⟨Nat.zero_le _, fun h => nomatch h⟩

theorem spec_upserted (incoming : Spec) (existing : Option Row) :
    (env.upserted incoming existing).spec = env.normalizeDefaults incoming := by
  cases existing with
  | none => rfl
  | some r =>
    rw [Env.upserted]
    split <;> rfl

theorem sound_act (hrow : ∀ r, sh.row = some r → r.Sound ∧ SameSpec sh.desired r.spec)
    (hheld : ∀ r, pc.held = some r → r.Sound) (hfaithful : Faithful env sh pc answer)
    (h : act env i sh pc answer = some (sh', pc')) :
    (∀ r, sh'.row = some r → r.Sound ∧ SameSpec sh'.desired r.spec) ∧
      ∀ r, pc'.held = some r → r.Sound := by
  cases (act_effect h).row with
  | keep hrow' hdesired hread =>
    rw [hrow', hdesired]
    exact ⟨hrow, fun r hr => (hrow r (hread r hr)).1⟩
  | upsert incoming existing hpc hrow' hdesired hnone =>
    subst hpc
    refine ⟨fun r hr => ?_, fun r hr => nomatch hnone.symm.trans hr⟩
    obtain rfl := Option.some.inj (hrow'.symm.trans hr)
    refine ⟨sound_upserted hheld hfaithful, ?_⟩
    rw [hdesired, spec_upserted, sameSpec_normalizeDefaults]
    rfl
  | mark o current caller hpc hrow' hdesired hnone =>
    subst hpc
    refine ⟨fun r hr => ?_, fun r hr => nomatch hnone.symm.trans hr⟩
    obtain rfl := Option.some.inj (hrow'.symm.trans hr)
    rw [hdesired, sameSpec_mark]
    exact ⟨⟨le_rfl, fun _ => sameSpec_mark.mpr hfaithful.1⟩, hfaithful.2⟩
  | back current state hpc hrow' hdesired hnone =>
    have hback : current.Sound ∧ SameSpec sh.desired current.spec := by
      rcases hpc with ⟨row, rfl⟩ | rfl
      · exact ⟨hheld current rfl, hfaithful⟩
      · exact ⟨hheld current rfl, hfaithful⟩
    refine ⟨fun r hr => ?_, fun r hr => nomatch hnone.symm.trans hr⟩
    obtain rfl := Option.some.inj (hrow'.symm.trans hr)
    rw [hdesired]
    exact ⟨⟨hback.1.le, hback.1.outcome⟩, hback.2⟩

theorem sound_step {s s' : State} {a : ℕ × Answer} (h : Sound s)
    (hok : Threads.Meets (Faithful env) s a) (hstep : step env s a = some s') : Sound s' := by
  refine h.step (G := fun _ _ _ => True) ?_ (fun _ _ _ _ _ _ _ => id) hok hstep
  intro i sh pc answer sh' pc' hrow hheld hfaithful hact
  obtain ⟨hrow', hheld'⟩ := sound_act hrow hheld hfaithful hact
  exact ⟨hrow', hheld', trivial⟩

theorem needsPull_of_lt {r : Row} (hlt : r.observedGeneration < r.generation)
    (hactive : sh.active = none) (hreg : env.resolveRegistry r.spec.registryID ≠ none) :
    env.needsPull sh r = .pull ∨ env.needsPull sh r = .skip := by
  obtain ⟨reg, hreg⟩ := Option.ne_none_iff_exists'.mp hreg
  rw [Env.needsPull, if_neg (by simp [hactive]), if_pos hlt, Env.canSkipPull, hreg, Option.map_some]
  split
  next hnone => cases hnone
  · exact .inr rfl
  · exact .inl rfl

theorem truthful_of_sound {s : State} (h : Sound s) : Truthful env s.shared where
  outcome r hr := (h.shared r hr).1.outcome
  stored r hr := (h.shared r hr).2
  selected r hr hdone hactive hreg := by
    have hsound := (h.shared r hr).1
    refine needsPull_of_lt ?_ hactive hreg
    exact lt_of_le_of_ne hsound.le fun heq => hdone ⟨heq, hsound.outcome heq⟩

theorem faithful_of_truthful (hheld : ∀ r, pc.held = some r → r.Sound)
    (h : ∀ sh' pc', act env i sh pc answer = some (sh', pc') → Truthful env sh') :
    Faithful env sh pc answer := by
  cases pc with
  | upsertLocalModel incoming existing =>
    cases existing with
    | none => trivial
    | some existing =>
      intro hsame hobserved
      have hpulled := (h _ _ rfl).outcome _ rfl
      rw [Env.upserted, if_pos hsame] at hpulled
      exact ((hheld existing rfl).outcome hobserved).of_common
        (sameSpec_normalizeDefaults.mp (hpulled hobserved))
  | setStateWrite row current =>
    exact (h _ _ rfl).stored { current with state := .pulling } rfl
  | touchReconcileWrite current => exact (h _ _ rfl).stored _ rfl
  | markWrite o current caller =>
    exact ⟨sameSpec_mark.mp ((h _ _ rfl).outcome _ rfl rfl),
      sameSpec_mark.mp ((h _ _ rfl).stored _ rfl)⟩
  | _ => trivial

/-- **The observed generation is the truth in every state of an interleaving exactly when all that
is written back is faithful.** -/
theorem truthful_iff_faithful (env : Env) (calls : List Call) (as : List (ℕ × Answer)) :
    Throughout (step env) (fun s => Truthful env s.shared) (start calls) as ↔
      Along (step env) (Threads.Meets (Faithful env)) (start calls) as := by
  refine throughout_iff_along (fun _ (hs : Sound _) => truthful_of_sound hs)
    (fun _ _ _ => sound_step) ?_ (sound_start calls)
  intro s a hsound h t ht
  refine faithful_of_truthful (i := a.1) (hsound.thread a.1 t ht) fun sh' pc' hact => ?_
  exact h ⟨sh', s.threads.set a.1 pc'⟩ (Threads.step_eq_some_iff.mpr ⟨t, ht, sh', pc', hact, rfl⟩)

/-! ## A specification that is stored during a pull -/

def otherSpec : Spec := ⟨1, "other".toList, [], [], []⟩

/-- While the first specification is pulled, the other one is stored. The pull fails, and its
failure is recorded for the other one, which is not selected any more. -/
theorem outcome_of_another :
    ∃ s r, run (step plainEnv)
        (start [.upsertDesired modelSpec, .startPull, .upsertDesired otherSpec])
        (go 0 2 ++ go 1 7 ++ go 2 2 ++ [(1, .fail false)] ++ go 1 5) = some s ∧
      s.shared.row = some r ∧ r.spec = otherSpec ∧ r.observedGeneration = r.generation ∧
      r.state = .failed ∧ r.pulled = some modelSpec ∧ plainEnv.needsPull s.shared r = .no ∧
      ¬ Truthful plainEnv s.shared := by
  have h : (run (step plainEnv)
      (start [.upsertDesired modelSpec, .startPull, .upsertDesired otherSpec])
      (go 0 2 ++ go 1 7 ++ go 2 2 ++ [(1, .fail false)] ++ go 1 5)).any
        (fun s => s.shared.row = some ⟨otherSpec, 2, 2, .failed, some modelSpec⟩ ∧
          plainEnv.needsPull s.shared ⟨otherSpec, 2, 2, .failed, some modelSpec⟩ = .no) = true := by
    rfl
  obtain ⟨s, hs, hrow⟩ := (Option.any_eq_true _ _).mp h
  obtain ⟨hrow, hneeds⟩ := of_decide_eq_true hrow
  refine ⟨s, _, hs, hrow, rfl, rfl, rfl, rfl, hneeds, fun htrue => ?_⟩
  exact absurd (htrue.outcome _ hrow rfl) (of_decide_eq_true rfl)

end Edgelet.ModelManager
