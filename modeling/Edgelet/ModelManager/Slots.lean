import Edgelet.ModelManager.Pull

/-!
# One pull per name

The slot of a name is given back when the outcome of the pull is written, and once more when the
pull ends, without a look whose slot it is: a pull that started in between loses it, and a third one
starts beside it.
-/

namespace Edgelet.ModelManager

open Machine

/-! ## Slots -/

def Pc.executing : Pc → Bool
  | .acquire | .doPull | .setState _ | .setStateWrite .. | .canSkipPull _ .doPull
  | .statContent _ _ .doPull | .pull .. | .writeManifest .. | .recordIdentity ..
  | .recordIdentityWrite .. | .mark _ .doPull | .markWrite _ _ .doPull | .releaseName .doPull =>
    true
  | _ => false

def Pc.releases : Pc → Bool
  | .releaseName _ | .deferredRelease => true
  | _ => false

/-- **At most one pull** is under way. -/
def AtMostOne (s : State) : Prop :=
  ∀ (i j : ℕ) (t u : Pc), s.threads[i]? = some t → s.threads[j]? = some u → t.executing = true →
    u.executing = true → i = j

def OwnSlot (i : ℕ) (sh : Shared) (pc : Pc) (_ : Answer) : Prop :=
  pc.releases = true → sh.active = none ∨ sh.active = some i

instance (i : ℕ) (sh : Shared) (pc : Pc) (answer : Answer) :
    Decidable (OwnSlot i sh pc answer) :=
  inferInstanceAs (Decidable (_ → _))

/-! ## What a step does -/

def Pc.held : Pc → Option Row
  | .upsertLocalModel _ existing => existing
  | .setStateWrite _ current => some current
  | .markWrite _ current _ => some current
  | .touchReconcileWrite current => some current
  | _ => none

/-- What a step does to the slot: only `take` takes it, and a release does not look whose it is. -/
inductive SlotStep (i : ℕ) (sh sh' : Shared) (pc pc' : Pc) : Prop
  | keep (active : sh'.active = sh.active)
      (executing : pc'.executing = true → pc.executing = true)
  | take (free : sh.active = none) (active : sh'.active = some i)
  | release (releases : pc.releases = true) (active : sh'.active = none)
      (ended : pc'.executing = false)

/-- What a step does to the row: it reads it at most, or it writes a specification, an outcome, or
the row that it holds. -/
inductive RowStep (env : Env) (sh sh' : Shared) (pc pc' : Pc) : Prop
  | keep (row : sh'.row = sh.row) (desired : sh'.desired = sh.desired)
      (held : ∀ r, pc'.held = some r → sh.row = some r)
  | upsert (incoming : Spec) (existing : Option Row) (pc : pc = .upsertLocalModel incoming existing)
      (row : sh'.row = some (env.upserted incoming existing))
      (desired : sh'.desired = some incoming) (held : pc'.held = none)
  | mark (o : Outcome) (current : Row) (caller : Caller) (pc : pc = .markWrite o current caller)
      (row : sh'.row = some (current.mark o)) (desired : sh'.desired = sh.desired)
      (held : pc'.held = none)
  | back (current : Row) (state : ModelState)
      (pc : (∃ row, pc = .setStateWrite row current) ∨ pc = .touchReconcileWrite current)
      (row : sh'.row = some { current with state := state }) (desired : sh'.desired = sh.desired)
      (held : pc'.held = none)

/-- The next step neither begins a pull nor holds a row. -/
structure Pc.Leads (pc pc' : Pc) : Prop where
  executing : pc'.executing = true → pc.executing = true
  held : pc'.held = none

variable {env : Env} {i : ℕ} {sh sh' : Shared} {pc pc' : Pc} {answer : Answer}

variable {caller : Caller} {row : Row}

theorem Pc.Leads.of_caller {q : Caller → Pc} (h : caller = .doPull → pc.executing = true)
    (hheld : (q .doPull).held = none) (hreconcile : pc.Leads (q .reconcile)) :
    pc.Leads (q caller) := by
  cases caller with
  | doPull => exact ⟨fun _ => h rfl, hheld⟩
  | reconcile => exact hreconcile

theorem executing_next (caller : Caller) : caller.next.executing = false := by
  cases caller with
  | doPull | reconcile => rfl

theorem held_next (caller : Caller) : caller.next.held = none := by
  cases caller with
  | doPull | reconcile => rfl

theorem leads_need (pc : Pc) (row : Row) : pc.Leads row.need := by
  rw [Row.need]
  split
  · exact ⟨nofun, rfl⟩
  · split <;> exact ⟨nofun, rfl⟩

theorem RowStep.of_held_eq_none (hrow : sh'.row = sh.row) (hdesired : sh'.desired = sh.desired)
    (hheld : pc'.held = none) : RowStep env sh sh' pc pc' :=
  .keep hrow hdesired fun _ h => nomatch hheld.symm.trans h

/-- What a step does to the slot and to the row. -/
structure Effect (env : Env) (i : ℕ) (sh sh' : Shared) (pc pc' : Pc) : Prop where
  slot : SlotStep i sh sh' pc pc'
  row : RowStep env sh sh' pc pc'

theorem Pc.Leads.effect (h : pc.Leads pc') (hactive : sh'.active = sh.active)
    (hrow : sh'.row = sh.row) (hdesired : sh'.desired = sh.desired) :
    Effect env i sh sh' pc pc' :=
  ⟨.keep hactive h.executing, .of_held_eq_none hrow hdesired h.held⟩

theorem effect_take (h : act env i sh .take answer = some (sh', pc')) :
    Effect env i sh sh' .take pc' := by
  simp only [act] at h
  split at h
  · cases h
    exact Pc.Leads.effect ⟨id, rfl⟩ rfl rfl rfl
  next hfree =>
    cases h
    exact ⟨.take (by simpa using hfree) rfl, .of_held_eq_none rfl rfl rfl⟩

theorem effect_canSkipPull (h : act env i sh (.canSkipPull row caller) answer = some (sh', pc')) :
    Effect env i sh sh' (.canSkipPull row caller) pc' := by
  have hcaller : caller = .doPull → (Pc.canSkipPull row caller).executing = true :=
    fun hc => hc ▸ rfl
  simp only [act] at h
  split at h
  · cases h
    exact Pc.Leads.effect (.of_caller hcaller rfl ⟨nofun, rfl⟩) rfl rfl rfl
  · split at h <;> cases h
    · exact Pc.Leads.effect (.of_caller hcaller rfl ⟨nofun, rfl⟩) rfl rfl rfl
    · refine Pc.Leads.effect ⟨?_, rfl⟩ rfl rfl rfl
      cases caller <;> exact id

theorem effect_statContent {of : Spec}
    (h : act env i sh (.statContent row of caller) answer = some (sh', pc')) :
    Effect env i sh sh' (.statContent row of caller) pc' := by
  have hcaller : caller = .doPull → (Pc.statContent row of caller).executing = true :=
    fun hc => hc ▸ rfl
  simp only [act] at h
  split at h <;> cases h
  · exact Pc.Leads.effect (.of_caller hcaller rfl ⟨nofun, rfl⟩) rfl rfl rfl
  · refine Pc.Leads.effect ?_ rfl rfl rfl
    split
    · refine .of_caller hcaller rfl ?_
      rw [Caller.skipped]
      split <;> exact ⟨nofun, rfl⟩
    · exact .of_caller hcaller rfl ⟨nofun, rfl⟩

/-- A step that reads the row goes on with the row that is there. -/
theorem effect_reads {absent : Pc} {present : Row → Pc}
    (h : (match sh.row with
      | none => some (sh, absent)
      | some current => some (sh, present current)) = some (sh', pc'))
    (hnone : pc.Leads absent) (hexec : ∀ r, (present r).executing = true → pc.executing = true)
    (hheld : ∀ r, (present r).held = none ∨ (present r).held = some r) :
    Effect env i sh sh' pc pc' := by
  split at h <;> cases h
  · exact hnone.effect rfl rfl rfl
  next current hcurrent =>
    refine ⟨.keep rfl (hexec current), .keep rfl rfl fun r hr => ?_⟩
    rcases hheld current with hnot | hthat
    · cases hnot.symm.trans hr
    · exact hcurrent.trans (hthat.symm.trans hr)

/-- **Every step is one of these.** -/
theorem act_effect (h : act env i sh pc answer = some (sh', pc')) :
    Effect env i sh sh' pc pc' := by
  cases pc with
  | upsertDesired incoming =>
    cases h
    exact ⟨.keep rfl id, .keep rfl rfl fun _ => id⟩
  | upsertLocalModel incoming existing =>
    cases h
    exact ⟨.keep rfl id, .upsert incoming existing rfl rfl rfl rfl⟩
  | startPull =>
    cases answer with
    | ok =>
      cases h
      refine Pc.Leads.effect ?_ rfl rfl rfl
      split <;> exact ⟨nofun, rfl⟩
    | fail =>
      cases h
      exact Pc.Leads.effect ⟨id, rfl⟩ rfl rfl rfl
  | take => exact effect_take h
  | acquire | recordIdentity =>
    simp only [act] at h
    split at h <;> cases h <;> exact Pc.Leads.effect ⟨fun _ => rfl, rfl⟩ rfl rfl rfl
  | doPull => exact effect_reads h ⟨fun _ => rfl, rfl⟩ (fun _ _ => rfl) fun _ => .inl rfl
  | setState row => exact effect_reads h ⟨fun _ => rfl, rfl⟩ (fun _ _ => rfl) fun _ => .inr rfl
  | setStateWrite row current =>
    cases h
    exact ⟨.keep rfl fun _ => rfl, .back current .pulling (.inl ⟨row, rfl⟩) rfl rfl rfl⟩
  | canSkipPull row caller => exact effect_canSkipPull h
  | statContent row of caller => exact effect_statContent h
  | pull | writeManifest | recordIdentityWrite =>
    cases answer with
    | ok | fail =>
      cases h
      exact Pc.Leads.effect ⟨fun _ => rfl, rfl⟩ rfl rfl rfl
  | mark o caller =>
    refine effect_reads h ⟨by simp [executing_next], held_next caller⟩ (fun _ => ?_)
      fun _ => .inr rfl
    cases caller <;> exact id
  | markWrite o current caller =>
    cases h
    refine ⟨.keep rfl ?_, .mark o current caller rfl rfl rfl rfl⟩
    cases caller <;> exact id
  | releaseName caller =>
    cases h
    exact ⟨.release rfl rfl (executing_next caller), .of_held_eq_none rfl rfl (held_next caller)⟩
  | deferredRelease =>
    cases h
    exact ⟨.release rfl rfl rfl, .of_held_eq_none rfl rfl rfl⟩
  | leave | removeContent =>
    cases h
    exact Pc.Leads.effect ⟨id, rfl⟩ rfl rfl rfl
  | reconcile =>
    cases answer with
    | ok => exact effect_reads h ⟨id, rfl⟩ (fun _ => id) fun _ => .inl rfl
    | fail =>
      cases h
      exact Pc.Leads.effect ⟨id, rfl⟩ rfl rfl rfl
  | hasActivePull row =>
    cases h
    refine Pc.Leads.effect ?_ rfl rfl rfl
    split
    · exact ⟨nofun, rfl⟩
    · exact leads_need _ row
  | touchReconcile => exact effect_reads h ⟨id, rfl⟩ (fun _ => id) fun _ => .inr rfl
  | touchReconcileWrite current =>
    cases h
    exact ⟨.keep rfl id, .back current current.state (.inr rfl) rfl rfl rfl⟩
  | done => cases h

/-! ## One pull at a time -/

def Owns (i : ℕ) (sh : Shared) (pc : Pc) : Prop := pc.executing = true → sh.active = some i

def Leaves (i : ℕ) (sh sh' : Shared) : Prop := ∀ j, j ≠ i → sh.active = some j → sh'.active = some j

theorem owns_act (howns : Owns i sh pc) (hslot : OwnSlot i sh pc answer)
    (h : act env i sh pc answer = some (sh', pc')) : Owns i sh' pc' ∧ Leaves i sh sh' := by
  cases (act_effect h).slot with
  | keep hactive hexec => exact ⟨fun h => hactive.trans (howns (hexec h)), fun _ _ => hactive.trans⟩
  | take hfree hactive => exact ⟨fun _ => hactive, fun _ _ hj => nomatch hfree.symm.trans hj⟩
  | release hreleases _ hended =>
    refine ⟨fun h => absurd h (by simp [hended]), fun j hne hj => ?_⟩
    rcases hslot hreleases with hnone | hown
    · cases hnone.symm.trans hj
    · exact absurd (Option.some.inj (hj.symm.trans hown)) hne

abbrev Owned : State → Prop := Threads.Holds (fun _ => True) Owns

theorem owned_start (calls : List Call) : Owned (start calls) := by
  refine ⟨trivial, fun i t ht h => ?_⟩
  obtain ⟨call, -, rfl⟩ := List.mem_map.mp (List.mem_of_getElem? ht)
  cases call <;> cases h

theorem owned_step {s s' : State} {a : ℕ × Answer} (h : Owned s)
    (hok : Threads.MeetsAt OwnSlot s a) (hstep : step env s a = some s') : Owned s' := by
  refine h.step_at (G := Leaves) ?_ ?_ hok hstep
  · intro i sh pc answer sh' pc' _ howns hslot hact
    exact ⟨trivial, owns_act howns hslot hact⟩
  · intro i j sh sh' pc hj hleaves howns hexec
    exact hleaves j hj (howns hexec)

theorem atMostOne_of_owned {s : State} (h : Owned s) : AtMostOne s := by
  intro i j t u ht hu hti huj
  have hi := h.thread i t ht hti
  have hj := h.thread j u hu huj
  exact Option.some.inj (hi.symm.trans hj)

/-- **One pull at a time**, in every state of every interleaving in which nobody gives back a slot
that another pull has taken. -/
theorem atMostOne_of_ownSlot (env : Env) (calls : List Call) (as : List (ℕ × Answer))
    (h : Along (step env) (Threads.MeetsAt OwnSlot) (start calls) as) :
    Throughout (step env) AtMostOne (start calls) as :=
  throughout_of_along (fun _ => atMostOne_of_owned) (fun _ _ _ => owned_step) (owned_start calls) h

/-! ## Two pulls -/

def plainEnv : Env := ⟨id, id, fun _ => some .oci⟩

def modelSpec : Spec := ⟨1, "repo".toList, [], [], []⟩

def go (i n : ℕ) : List (ℕ × Answer) := List.replicate n (i, .ok none)

def threeRequests : List Call := [.upsertDesired modelSpec, .startPull, .startPull, .startPull]

def firstFails : List (ℕ × Answer) := go 0 2 ++ go 1 7 ++ [(1, .fail false)] ++ go 1 3

/-- When the first pull has ended before the second one starts, there is one at a time. -/
theorem atMostOne_in_turn :
    Along (step plainEnv) (Threads.MeetsAt OwnSlot) (start threeRequests)
        (firstFails ++ go 1 2 ++ go 2 7 ++ go 3 2) ∧
      Throughout (step plainEnv) AtMostOne (start threeRequests)
        (firstFails ++ go 1 2 ++ go 2 7 ++ go 3 2) :=
  have h : Along (step plainEnv) (Threads.MeetsAt OwnSlot) (start threeRequests)
      (firstFails ++ go 1 2 ++ go 2 7 ++ go 3 2) := of_decide_eq_true rfl
  ⟨h, atMostOne_of_ownSlot plainEnv threeRequests _ h⟩

/-- The second pull starts before the first one has ended. The first one then gives back the slot of
the second, and the third starts: two pulls fetch the model at once. -/
theorem two_pulls :
    ∃ s, run (step plainEnv) (start threeRequests)
        (firstFails ++ go 2 7 ++ go 1 2 ++ go 3 7) = some s ∧
      (∃ row row', s.threads[2]? = some (.pull row .oci) ∧
        s.threads[3]? = some (.pull row' .oci)) ∧
      ¬ AtMostOne s := by
  have h : (run (step plainEnv) (start threeRequests)
      (firstFails ++ go 2 7 ++ go 1 2 ++ go 3 7)).any
        (fun s => s.threads[2]? = some (.pull ⟨modelSpec, 1, 1, .failed, some modelSpec⟩ .oci) ∧
          s.threads[3]? = some (.pull ⟨modelSpec, 1, 1, .pulling, some modelSpec⟩ .oci)) =
        true := by
    rfl
  obtain ⟨s, hs, hthreads⟩ := (Option.any_eq_true _ _).mp h
  obtain ⟨h₂, h₃⟩ := of_decide_eq_true hthreads
  exact ⟨s, hs, ⟨_, _, h₂, h₃⟩, fun hone => absurd (hone 2 3 _ _ h₂ h₃ rfl rfl) (by decide)⟩

end Edgelet.ModelManager
