import Mathlib.Data.List.Nodup
import Mathlib.Data.Option.Basic

/-!
# Runs of a partial step function

A machine is a partial function `step : σ → α → Option σ`, where `none` says that the action is not
enabled. An interleaving of several threads is a list of actions.

## Main results

* `invariant_run` — what every permitted step preserves holds at the end of every permitted run
* `along_of_along` — from a condition on the actions of a run to a consequence of it
* `throughout_iff_along` — when every state of a run has a property, in terms of its actions
* `length_add_measure_le` — a measure that every step lowers bounds the length of a run
-/

namespace Machine

variable {σ α : Type*} {step : σ → α → Option σ} {ok : σ → α → Prop} {s s' : σ}
  {as : List α}

/-- The state that a list of actions leads to, `none` when one of them is not enabled. -/
def run (step : σ → α → Option σ) : σ → List α → Option σ
  | s, [] => some s
  | s, a :: as => (step s a).bind fun s' => run step s' as

/-- **Every action meets the condition**: `ok` holds of each state of the run and the action
taken from it. -/
def Along (step : σ → α → Option σ) (ok : σ → α → Prop) : σ → List α → Prop
  | _, [] => True
  | s, a :: as => ok s a ∧ ∀ s', step s a = some s' → Along step ok s' as

instance decidableAlong [∀ s a, Decidable (ok s a)] :
    ∀ (s : σ) (as : List α), Decidable (Along step ok s as)
  | _, [] => isTrue trivial
  | s, a :: as =>
    match h : step s a with
    | none =>
      decidable_of_iff (ok s a) ⟨fun hok => ⟨hok, fun _ ht => nomatch h.symm.trans ht⟩, And.left⟩
    | some s' =>
      have := decidableAlong s' as
      decidable_of_iff (ok s a ∧ Along step ok s' as)
        ⟨fun hok => ⟨hok.1, fun _ ht => Option.some.inj (h.symm.trans ht) ▸ hok.2⟩,
          fun hok => ⟨hok.1, hok.2 s' h⟩⟩

@[simp] theorem run_nil : run step s [] = some s := rfl

theorem run_cons_eq_some {a : α} {s'' : σ} :
    run step s (a :: as) = some s'' ↔ ∃ s', step s a = some s' ∧ run step s' as = some s'' := by
  simp only [run, Option.bind_eq_some_iff]

theorem run_append {bs : List α} {s'' : σ} :
    run step s (as ++ bs) = some s'' ↔
      ∃ s', run step s as = some s' ∧ run step s' bs = some s'' := by
  induction as generalizing s with
  | nil => simp
  | cons a as ih =>
    simp only [List.cons_append, run_cons_eq_some, ih]
    constructor
    · rintro ⟨t, ht, s', has, hbs⟩
      exact ⟨s', ⟨t, ht, has⟩, hbs⟩
    · rintro ⟨s', ⟨t, ht, has⟩, hbs⟩
      exact ⟨t, ht, s', has, hbs⟩

theorem along_iff_forall_taken :
    Along step ok s as ↔
      ∀ pre a, pre ++ [a] <+: as → ∀ s', run step s pre = some s' → ok s' a := by
  induction as generalizing s with
  | nil =>
    refine iff_of_true trivial fun pre a h => ?_
    exact absurd (List.prefix_nil.mp h) (by simp)
  | cons b as ih =>
    constructor
    · rintro ⟨hb, h⟩ pre a hpre s' hrun
      cases pre with
      | nil =>
        obtain ⟨rfl, -⟩ := List.cons_prefix_cons.mp hpre
        cases hrun
        exact hb
      | cons c pre =>
        obtain ⟨rfl, hrest⟩ := List.cons_prefix_cons.mp hpre
        obtain ⟨t, ht, hrun⟩ := run_cons_eq_some.mp hrun
        exact ih.mp (h t ht) pre a hrest s' hrun
    · intro h
      refine ⟨h [] b (by simp) s rfl, fun t ht => ih.mpr ?_⟩
      intro pre a hpre s' hrun
      exact h (b :: pre) a (List.cons_prefix_cons.mpr ⟨rfl, hpre⟩) s'
        (run_cons_eq_some.mpr ⟨t, ht, hrun⟩)

theorem along_append {bs : List α} :
    Along step ok s (as ++ bs) ↔
      Along step ok s as ∧ ∀ s', run step s as = some s' → Along step ok s' bs := by
  induction as generalizing s with
  | nil => simp [Along]
  | cons a as ih =>
    simp only [List.cons_append, Along, ih, run_cons_eq_some]
    constructor
    · rintro ⟨ha, h⟩
      exact ⟨⟨ha, fun t ht => (h t ht).1⟩, fun s' ⟨t, ht, hrun⟩ => (h t ht).2 s' hrun⟩
    · rintro ⟨⟨ha, h⟩, hrest⟩
      exact ⟨ha, fun t ht => ⟨h t ht, fun s' hrun => hrest s' ⟨t, ht, hrun⟩⟩⟩

variable {Inv : σ → Prop}

/-- **The invariant rule**: what every permitted step preserves holds at the end of every
run whose steps are all permitted. -/
theorem invariant_run (hstep : ∀ s a s', Inv s → ok s a → step s a = some s' → Inv s')
    (h : Along step ok s as) (hs : Inv s) (hrun : run step s as = some s') : Inv s' := by
  induction as generalizing s with
  | nil =>
    simp only [run_nil, Option.some.injEq] at hrun
    exact hrun ▸ hs
  | cons a as ih =>
    obtain ⟨t, ht, hrun⟩ := run_cons_eq_some.mp hrun
    exact ih (h.2 t ht) (hstep s a t hs h.1 ht) hrun

theorem along_of_forall (h : ∀ s a, ok s a) (s : σ) (as : List α) : Along step ok s as := by
  induction as generalizing s with
  | nil => exact trivial
  | cons a as ih => exact ⟨h s a, fun s' _ => ih s'⟩

variable {ok' : σ → α → Prop}

theorem along_and :
    Along step (fun s a => ok s a ∧ ok' s a) s as ↔ Along step ok s as ∧ Along step ok' s as := by
  simp only [along_iff_forall_taken, ← forall_and]

/-- **The safety rule**: under an invariant that the permitted steps preserve, what the permitted
steps meet, every step of a run of permitted steps meets. -/
theorem along_of_along (hstep : ∀ s a s', Inv s → ok s a → step s a = some s' → Inv s')
    (hok' : ∀ s a, Inv s → ok s a → ok' s a) (hs : Inv s) (h : Along step ok s as) :
    Along step ok' s as := by
  induction as generalizing s with
  | nil => trivial
  | cons a as ih => exact ⟨hok' s a hs h.1, fun t ht => ih (hstep s a t hs h.1 ht) (h.2 t ht)⟩

theorem along_iff_along (hiff : ∀ s a, Inv s → (ok s a ↔ ok' s a))
    (hstep : ∀ s a s', Inv s → ok s a → step s a = some s' → Inv s') (hs : Inv s) :
    Along step ok s as ↔ Along step ok' s as := by
  induction as generalizing s with
  | nil => exact Iff.rfl
  | cons a as ih =>
    constructor
    · rintro ⟨ha, h⟩
      refine ⟨(hiff s a hs).mp ha, fun s' hs' => ?_⟩
      exact (ih (hstep s a s' hs ha hs')).mp (h s' hs')
    · rintro ⟨ha, h⟩
      have ha := (hiff s a hs).mpr ha
      exact ⟨ha, fun s' hs' => (ih (hstep s a s' hs ha hs')).mpr (h s' hs')⟩

theorem invariant_run_always (hstep : ∀ s a s', Inv s → step s a = some s' → Inv s') (hs : Inv s)
    (hrun : run step s as = some s') : Inv s' :=
  invariant_run (fun s a s' hs (_ : True) h => hstep s a s' hs h)
    (along_of_forall (fun _ _ => trivial) s as) hs hrun

/-- **Every state of the run**: whatever part of the actions has been taken, the state has the
property. -/
def Throughout (step : σ → α → Option σ) (P : σ → Prop) (s : σ) (as : List α) : Prop :=
  ∀ pre, pre <+: as → ∀ s', run step s pre = some s' → P s'

section Throughout

variable {P : σ → Prop}

theorem throughout_nil : Throughout step P s [] ↔ P s := by
  constructor
  · intro h
    exact h [] List.nil_prefix s rfl
  · rintro h pre hpre s' hrun
    obtain rfl := List.prefix_nil.mp hpre
    cases hrun
    exact h

theorem throughout_cons {a : α} :
    Throughout step P s (a :: as) ↔ P s ∧ ∀ s', step s a = some s' → Throughout step P s' as := by
  constructor
  · intro h
    refine ⟨h [] List.nil_prefix s rfl, fun t ht pre hpre s' hrun => ?_⟩
    exact h (a :: pre) ((List.prefix_cons_inj a).mpr hpre) s'
      (run_cons_eq_some.mpr ⟨t, ht, hrun⟩)
  · rintro ⟨hs, h⟩ pre hpre s' hrun
    rcases List.prefix_cons_iff.mp hpre with rfl | ⟨pre', rfl, hpre'⟩
    · cases hrun
      exact hs
    · obtain ⟨t, ht, hrun⟩ := run_cons_eq_some.mp hrun
      exact h t ht pre' hpre' s' hrun

variable {Inv : σ → Prop}

theorem throughout_of_along (hinv : ∀ s, Inv s → P s)
    (hstep : ∀ s a s', Inv s → ok s a → step s a = some s' → Inv s') (hs : Inv s)
    (h : Along step ok s as) : Throughout step P s as := by
  induction as generalizing s with
  | nil => exact throughout_nil.mpr (hinv s hs)
  | cons a as ih =>
    exact throughout_cons.mpr
      ⟨hinv s hs, fun s' hs' => ih (hstep s a s' hs h.1 hs') (h.2 s' hs')⟩

/-- A property of every state of a run gives a condition on its actions, when the property after an
action gives the condition under an invariant that the condition keeps. -/
theorem along_of_throughout (hstep : ∀ s a s', Inv s → ok s a → step s a = some s' → Inv s')
    (hok : ∀ s a, Inv s → (∀ s', step s a = some s' → P s') → ok s a) (hs : Inv s)
    (h : Throughout step P s as) : Along step ok s as := by
  induction as generalizing s with
  | nil => trivial
  | cons a as ih =>
    obtain ⟨-, h⟩ := throughout_cons.mp h
    have ha : ok s a := by
      refine hok s a hs fun s' hs' => ?_
      exact h s' hs' [] List.nil_prefix s' rfl
    exact ⟨ha, fun s' hs' => ih (hstep s a s' hs ha hs') (h s' hs')⟩

/-- **Which runs have the property in every state**: those whose actions all meet a condition, when
the condition keeps an invariant that gives the property, and under the invariant the property after
an action gives the condition. -/
theorem throughout_iff_along (hinv : ∀ s, Inv s → P s)
    (hstep : ∀ s a s', Inv s → ok s a → step s a = some s' → Inv s')
    (hok : ∀ s a, Inv s → (∀ s', step s a = some s' → P s') → ok s a) (hs : Inv s) :
    Throughout step P s as ↔ Along step ok s as :=
  ⟨along_of_throughout hstep hok hs, throughout_of_along hinv hstep hs⟩

end Throughout

/-- **The measure rule**: when every step lowers a measure, a run has no more steps than the
measure it starts with. -/
theorem length_add_measure_le {μ : σ → ℕ} (hstep : ∀ s a s', step s a = some s' → μ s' < μ s)
    (hrun : run step s as = some s') : as.length + μ s' ≤ μ s := by
  induction as generalizing s with
  | nil =>
    cases hrun
    simp
  | cons a as ih =>
    obtain ⟨t, ht, hrun⟩ := run_cons_eq_some.mp hrun
    have hrest := ih hrun
    have hlower := hstep s a t ht
    simp only [List.length_cons]
    omega

theorem log_foldl {β : Type*} {f : σ → α → σ} (log : σ → List β) (added : α → List β)
    (h : ∀ s a, log (f s a) = log s ++ added a) (s : σ) (as : List α) :
    log (as.foldl f s) = log s ++ as.flatMap added := by
  induction as generalizing s with
  | nil => simp
  | cons a as ih => rw [List.foldl_cons, ih, h, List.flatMap_cons, List.append_assoc]

/-! ## Threads -/

section Threads

variable {τ : Type*}

def replaceAt (ts : List τ) (n : ℕ) (t' : Option τ) : List τ :=
  ts.take n ++ t'.toList ++ ts.drop (n + 1)

theorem exists_split {ts : List τ} {n : ℕ} {t : τ} (h : ts[n]? = some t) :
    ∃ before after, ts = before ++ t :: after ∧
      ∀ t', replaceAt ts n t' = before ++ t'.toList ++ after := by
  obtain ⟨hn, rfl⟩ := List.getElem?_eq_some_iff.mp h
  refine ⟨ts.take n, ts.drop (n + 1), ?_, fun _ => rfl⟩
  rw [← List.drop_eq_getElem_cons hn, List.take_append_drop]

theorem mem_of_mem_replaceAt {ts : List τ} {n : ℕ} {t' : Option τ} {u : τ}
    (h : u ∈ replaceAt ts n t') : u ∈ ts ∨ u ∈ t' := by
  rcases List.mem_append.mp h with h | h
  · rcases List.mem_append.mp h with h | h
    · exact .inl (List.mem_of_mem_take h)
    · exact .inr (Option.mem_toList.mp h)
  · exact .inl (List.mem_of_mem_drop h)

variable {β : Type*} {holds : τ → Option β} {before after : List τ} {t : τ}

theorem notMem_others {b : β} (h : ((before ++ t :: after).filterMap holds).Nodup)
    (hb : holds t = some b) : b ∉ (before ++ after).filterMap holds := by
  rw [List.filterMap_append, List.filterMap_cons_some hb, List.nodup_middle,
    List.nodup_cons] at h
  rw [List.filterMap_append]
  exact h.1

theorem nodup_replace {t' : Option τ} (h : ((before ++ t :: after).filterMap holds).Nodup)
    (hnew : ∀ u ∈ t', ∀ b ∈ holds u, b ∉ (before ++ after).filterMap holds) :
    ((before ++ t'.toList ++ after).filterMap holds).Nodup := by
  have hrest : ((before ++ after).filterMap holds).Nodup :=
    h.sublist (((List.sublist_cons_self t after).append_left before).filterMap holds)
  cases t' with
  | none => simpa using hrest
  | some u =>
    cases hu : holds u with
    | none => simpa [hu] using hrest
    | some b =>
      have hfresh := hnew u rfl b hu
      rw [List.filterMap_append] at hrest hfresh
      rw [List.append_assoc, List.filterMap_append, Option.toList_some, List.singleton_append,
        List.filterMap_cons_some hu, List.nodup_middle]
      exact List.nodup_cons.mpr ⟨hfresh, hrest⟩

end Threads

end Machine
