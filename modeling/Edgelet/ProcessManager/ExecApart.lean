import Edgelet.ProcessManager.ExecRuntime

/-!
# Sessions that do not share an exec

A call under way carries the session it was made for, and the invariant says that no other
registered session has the same identifier or the same exec. All steps but a registration leave
fewer sessions or the same ones, so for these it is enough to look at the thread that takes the
step.
-/

namespace Edgelet.ProcessManager.ExecRuntime

open Lexical Keyed Machine ExecSessionRegistry

/-! ## The invariant -/

def sessions (r : ExecSessionRegistry) : List Job := r.rows.map jobOf

variable {r : ExecSessionRegistry}

theorem jobOf_mem {rec : ExecSessionRecord} (h : rec ∈ r) : jobOf rec ∈ sessions r :=
  List.mem_map_of_mem h

theorem mem_sessions {j : Job} : j ∈ sessions r ↔ ∃ rec ∈ r, jobOf rec = j :=
  List.mem_map

structure Agrees (j job : Job) : Prop where
  session : j.session = job.session
  exec : j.exec = job.exec
  container : trimSpace j.container = trimSpace job.container

def Thread.Covers (js : List Job) : Thread → Prop
  | .create job (.load kept) =>
    ∀ j ∈ js, trimSpace j.container = trimSpace job.container → j.exec ≠ [] → j.exec ∈ kept
  | _ => True

def Thread.Trimmed : Thread → Prop
  | .create job _ => trimSpace job.session = job.session ∧ trimSpace job.exec = job.exec
  | _ => True

structure Sound (js : List Job) (t : Thread) : Prop where
  jobs : ∀ job ∈ t.jobs, ∀ j ∈ js, j.session = job.session ∨ j.exec = job.exec → Agrees j job
  doomed : ∀ x ∈ t.doomed, ∀ j ∈ js, j.exec ≠ x
  covers : t.Covers js
  trimmed : t.Trimmed

def InPlace (js : List Job) (e : Str × Str) : Prop :=
  e.1 ≠ [] ∧ ∀ j ∈ js, j.exec = e.1 → trimSpace j.container = trimSpace e.2

/-- **The invariant** of the runs whose registrations are fresh. -/
structure Inv (s : State) : Prop where
  distinct : ∀ j ∈ sessions s.registry, ∀ j' ∈ sessions s.registry, j.exec = j'.exec →
    j.session = j'.session
  threads : ∀ t ∈ s.threads, Sound (sessions s.registry) t
  execs : ∀ e ∈ s.pendingExecs ++ s.execSessions, InPlace (sessions s.registry) e

theorem inv_initial : Inv initial where
  distinct := nofun
  threads := nofun
  execs := nofun

variable {s : State}

theorem Inv.apart (h : Inv s) : Distinct s :=
  fun _ hrec _ hrec' heq => h.distinct _ (jobOf_mem hrec) _ (jobOf_mem hrec') heq

theorem Inv.harmless (h : Inv s) (ev : Event) : Harmless s ev := by
  cases ev with
  | advance n ok =>
    intro t ht session x hstops rec hrec hx
    have hsound := h.threads t (List.mem_of_getElem? ht)
    have hown : ∀ job ∈ t.jobs, x = job.exec → rec.sessionID = job.session := by
      rintro job hjob rfl
      exact (hsound.jobs job hjob _ (jobOf_mem hrec) (.inr hx)).session
    unfold Thread.stops at hstops
    split at hstops
    next job y doomed =>
      cases hstops
      exact absurd hx (hsound.doomed x List.mem_cons_self _ (jobOf_mem hrec))
    next job =>
      cases hstops
      exact hown job List.mem_cons_self rfl
    next job =>
      split at hstops <;> cases hstops
      exact hown job List.mem_cons_self rfl
    next job =>
      cases hstops
      exact hown job List.mem_cons_self rfl
    next job jobs =>
      cases hstops
      exact hown job List.mem_cons_self rfl
    next => cases hstops
  | _ => trivial

/-! ## Fewer sessions -/

theorem sessions_remove (r : ExecSessionRegistry) (id : Str) :
    sessions (r.remove id) ⊆ sessions r := by
  intro j hj
  obtain ⟨rec, hrec, rfl⟩ := mem_sessions.mp hj
  exact jobOf_mem (Table.mem_deleteWhere.mp hrec).1

theorem sessions_markStarted (r : ExecSessionRegistry) (id : Str) :
    sessions (r.markStarted id) ⊆ sessions r := by
  intro j hj
  obtain ⟨rec, hrec, rfl⟩ := mem_sessions.mp hj
  obtain ⟨rec', hrec', rfl⟩ := (Table.mem_updateWhere _).mp hrec
  refine mem_sessions.mpr ⟨rec', hrec', ?_⟩
  split <;> rfl

theorem sessions_setRuntimeExecID {id x : Str}
    (h : ∀ j ∈ sessions r, j.session = trimSpace id → j.exec = trimSpace x) :
    sessions (r.setRuntimeExecID id x) ⊆ sessions r := by
  unfold setRuntimeExecID
  split
  · exact List.Subset.refl _
  intro j hj
  obtain ⟨rec, hrec, rfl⟩ := mem_sessions.mp hj
  obtain ⟨rec', hrec', rfl⟩ := (Table.mem_updateWhere _).mp hrec
  refine mem_sessions.mpr ⟨rec', hrec', ?_⟩
  split
  next hid =>
    have hx : trimSpace rec'.runtimeExecID = trimSpace x :=
      h _ (jobOf_mem hrec') (by simpa [jobOf] using hid)
    simp [jobOf, hx, trimSpace_trimSpace]
  next => rfl

section Subset

variable {js js' : List Job} {t : Thread} {e : Str × Str}

theorem Sound.subset (h : Sound js t) (hsub : js' ⊆ js) : Sound js' t where
  jobs job hjob j hj := h.jobs job hjob j (hsub hj)
  doomed x hx j hj := h.doomed x hx j (hsub hj)
  covers := by
    have hcovers := h.covers
    unfold Thread.Covers at hcovers ⊢
    split
    next job kept => exact fun j hj => hcovers j (hsub hj)
    next => trivial
  trimmed := h.trimmed

theorem InPlace.subset (h : InPlace js e) (hsub : js' ⊆ js) : InPlace js' e :=
  ⟨h.1, fun j hj => h.2 j (hsub hj)⟩

end Subset

/-! ## Steps of the threads -/

structure Keeps (js : List Job) (s' : State) (next : List Thread) : Prop where
  sessions : sessions s'.registry ⊆ js
  threads : ∀ t ∈ next, Sound js t
  execs : ∀ e ∈ s'.pendingExecs ++ s'.execSessions, InPlace js e

theorem Inv.keeps {s s' : State} {next : List Thread} (h : Inv s)
    (hkeeps : Keeps (sessions s.registry) s' next)
    (hthreads : ∀ t ∈ s'.threads, t ∈ s.threads ∨ t ∈ next) : Inv s' where
  distinct j hj j' hj' := h.distinct j (hkeeps.sessions hj) j' (hkeeps.sessions hj')
  threads t ht := by
    rcases hthreads t ht with hold | hnew
    · exact (h.threads t hold).subset hkeeps.sessions
    · exact (hkeeps.threads t hnew).subset hkeeps.sessions
  execs e he := (hkeeps.execs e he).subset hkeeps.sessions

section Threads

variable {s : State} {job : Job} {t : Thread}

theorem mem_of_mem_without {x : Str} {es : List (Str × Str)} {e : Str × Str}
    (h : e ∈ without x es) : e ∈ es :=
  List.mem_of_mem_filter h

theorem mem_of_mem_stopExec {x : Str} {e : Str × Str}
    (h : e ∈ (s.stopExec x).pendingExecs ++ (s.stopExec x).execSessions) :
    e ∈ s.pendingExecs ++ s.execSessions := by
  rcases List.mem_append.mp h with h | h
  · refine List.mem_append.mpr (.inl ?_)
    unfold State.stopExec at h
    split at h
    · exact mem_of_mem_without h
    · exact h
  · exact List.mem_append.mpr (.inr (mem_of_mem_without h))

theorem Sound.goto {js : List Job} {pc pc' : Pc} (h : Sound js (.create job pc))
    (hdoomed : (Thread.create job pc').doomed = []) (hload : ∀ kept, pc' ≠ .load kept) :
    Sound js (.create job pc') where
  jobs := h.jobs
  doomed := by
    rw [hdoomed]
    exact nofun
  covers := by
    unfold Thread.Covers
    split
    next _ kept heq =>
      cases heq
      exact absurd rfl (hload kept)
    next => trivial
  trimmed := h.trimmed

theorem Inv.orphans_free (h : Inv s) {kept : List Str}
    (hsound : Sound (sessions s.registry) (.create job (.load kept))) {x : Str}
    (hx : x ∈ orphans s.execSessions job.container kept) :
    ∀ j ∈ sessions s.registry, j.exec ≠ x := by
  unfold orphans at hx
  split at hx
  · cases hx
  rw [List.mem_filter, List.mem_map] at hx
  obtain ⟨⟨e, he, rfl⟩, hkept⟩ := hx
  obtain ⟨he, hcontainer⟩ := List.mem_filter.mp he
  simp only [beq_iff_eq] at hcontainer
  simp only [Bool.and_eq_true, Bool.not_eq_true', List.contains_eq_mem,
    decide_eq_false_iff_not] at hkept
  obtain ⟨hne, hplace⟩ := h.execs e (List.mem_append.mpr (.inr he))
  intro j hj heq
  refine hkept.1 (heq ▸ hsound.covers j hj ?_ (heq ▸ hne))
  rw [hplace j hj heq, hcontainer, trimSpace_trimSpace]

theorem Pc.keeps_step (h : Inv s) (ok : Bool) {pc : Pc}
    (hsound : Sound (sessions s.registry) (.create job pc)) :
    Keeps (sessions s.registry) (pc.step s job ok).1 (pc.step s job ok).2 := by
  have hself : sessions s.registry ⊆ sessions s.registry := List.Subset.refl _
  have hgoto : ∀ pc', (Thread.create job pc').doomed = [] → (∀ kept, pc' ≠ .load kept) →
      Keeps (sessions s.registry) s [.create job pc'] := by
    intro pc' hdoomed hload
    exact ⟨hself, List.forall_mem_singleton.mpr (hsound.goto hdoomed hload), h.execs⟩
  cases pc with
  | keep =>
    cases ok with
    | false => exact hgoto .create rfl nofun
    | true =>
      refine ⟨hself, List.forall_mem_singleton.mpr ⟨hsound.jobs, nofun, ?_, hsound.trimmed⟩,
        h.execs⟩
      intro j hj hcontainer hne
      obtain ⟨rec, hrec, rfl⟩ := mem_sessions.mp hj
      refine List.mem_filter.mpr ⟨List.mem_map.mpr ⟨rec, ?_, rfl⟩, by simpa using hne⟩
      exact List.mem_filter.mpr ⟨hrec, by simpa [jobOf] using hcontainer⟩
  | load kept =>
    refine ⟨hself, List.forall_mem_singleton.mpr ⟨hsound.jobs, ?_, trivial, hsound.trimmed⟩,
      h.execs⟩
    exact fun x hx => h.orphans_free hsound hx
  | sweep doomed =>
    cases doomed with
    | nil => exact hgoto .create rfl nofun
    | cons x doomed =>
      refine ⟨hself, List.forall_mem_singleton.mpr ⟨hsound.jobs, ?_, trivial, hsound.trimmed⟩,
        fun e he => h.execs e (mem_of_mem_stopExec he)⟩
      exact fun y hy => hsound.doomed y (List.mem_cons_of_mem x hy)
  | create =>
    simp only [Pc.step]
    split
    next hok =>
      refine ⟨hself, List.forall_mem_singleton.mpr (hsound.goto rfl nofun), fun e he => ?_⟩
      rw [List.cons_append, List.mem_cons, List.mem_append] at he
      rcases he with rfl | he | he
      · refine ⟨hok.2, fun j hj hexec => ?_⟩
        exact (hsound.jobs job List.mem_cons_self j hj (.inr hexec)).container
      · exact h.execs e (List.mem_append.mpr (.inl (mem_of_mem_without he)))
      · exact h.execs e (List.mem_append.mpr (.inr he))
    next => exact hgoto .remove rfl nofun
  | setRuntimeExecID =>
    refine ⟨sessions_setRuntimeExecID fun j hj hid => ?_,
      List.forall_mem_singleton.mpr (hsound.goto rfl nofun), h.execs⟩
    rw [hsound.trimmed.1] at hid
    rw [hsound.trimmed.2]
    exact (hsound.jobs job List.mem_cons_self j hj (.inl hid)).exec
  | launch =>
    refine ⟨hself, fun t ht => ?_, h.execs⟩
    rcases List.mem_cons.mp ht with rfl | ht
    · exact ⟨hsound.jobs, nofun, trivial, trivial⟩
    · cases ok with
      | false => cases ht
      | true =>
        obtain rfl := List.mem_singleton.mp ht
        exact hsound.goto rfl nofun
  | wait =>
    cases ok with
    | false => exact hgoto .stop rfl nofun
    | true => exact hgoto .markStarted rfl nofun
  | stop =>
    exact ⟨hself, List.forall_mem_singleton.mpr (hsound.goto rfl nofun),
      fun e he => h.execs e (mem_of_mem_stopExec he)⟩
  | markStarted => exact ⟨sessions_markStarted _ _, nofun, h.execs⟩
  | remove => exact ⟨sessions_remove _ _, nofun, h.execs⟩

theorem Thread.keeps_step (h : Inv s) (ok : Bool) (hsound : Sound (sessions s.registry) t) :
    Keeps (sessions s.registry) (t.step s ok).1 (t.step s ok).2 := by
  have hself : sessions s.registry ⊆ sessions s.registry := List.Subset.refl _
  have hstop : ∀ x, ∀ e ∈ (s.stopExec x).pendingExecs ++ (s.stopExec x).execSessions,
      InPlace (sessions s.registry) e := fun x e he => h.execs e (mem_of_mem_stopExec he)
  cases t with
  | create job pc => exact Pc.keeps_step h ok hsound
  | io job =>
    have hcleanup : ∀ t ∈ [Thread.cleanup job], Sound (sessions s.registry) t :=
      List.forall_mem_singleton.mpr ⟨hsound.jobs, nofun, trivial, trivial⟩
    have hrest : ∀ e ∈ without job.exec s.pendingExecs ++ s.execSessions,
        InPlace (sessions s.registry) e := by
      intro e he
      rcases List.mem_append.mp he with he | he
      · exact h.execs e (List.mem_append.mpr (.inl (mem_of_mem_without he)))
      · exact h.execs e (List.mem_append.mpr (.inr he))
    simp only [Thread.step]
    split
    next => exact ⟨hself, hcleanup, h.execs⟩
    next pending hpending =>
      split
      · refine ⟨hself, nofun, fun e he => ?_⟩
        rcases List.mem_append.mp he with he | he
        · exact hrest e (List.mem_append.mpr (.inl he))
        rcases List.mem_cons.mp he with rfl | he
        · have hexec : pending.1 = job.exec := by simpa using List.find?_some hpending
          have hplace := h.execs pending
            (List.mem_append.mpr (.inl (List.mem_of_find?_eq_some hpending)))
          rw [← hexec]
          exact hplace
        · exact hrest e (List.mem_append.mpr (.inr (mem_of_mem_without he)))
      · exact ⟨hself, hcleanup, hrest⟩
  | cleanup job => exact ⟨sessions_remove _ _, nofun, h.execs⟩
  | release job => exact ⟨hself, nofun, hstop job.exec⟩
  | stopAll jobs stopped =>
    cases jobs with
    | nil => exact ⟨hself, nofun, h.execs⟩
    | cons job jobs =>
      cases stopped with
      | false =>
        refine ⟨hself, List.forall_mem_singleton.mpr ?_, hstop job.exec⟩
        exact ⟨hsound.jobs, nofun, trivial, trivial⟩
      | true =>
        refine ⟨sessions_remove _ _, List.forall_mem_singleton.mpr ?_, h.execs⟩
        exact ⟨fun j hj => hsound.jobs j (List.mem_cons_of_mem job hj), nofun, trivial, trivial⟩

end Threads

/-! ## Steps -/

section Steps

variable {build : ExecOwner → Str → Str → Str} {s s' : State} {ev : Event} {owner : ExecOwner}
  {sessionID msUUID containerID : Str}

theorem createSession_of_registers (h : Registers s sessionID msUUID) :
    createSession build s owner sessionID msUUID containerID =
      { s with
        registry := s.registry.upsert (newRecord build owner sessionID msUUID containerID)
        threads := s.threads ++ [.create (newJob build owner sessionID containerID) .keep] } := by
  obtain ⟨hid, hms, hnone⟩ := h
  simp only [createSession, hid, hms, or_self, if_false, register, trimSpace_trimSpace, hnone]
  rfl

theorem createSession_of_not_registers (h : ¬ Registers s sessionID msUUID) :
    createSession build s owner sessionID msUUID containerID = s := by
  unfold createSession
  simp only
  split
  · rfl
  next hids =>
    rw [not_or] at hids
    have hsome : s.registry.get? (trimSpace sessionID) ≠ none := fun hnone =>
      h ⟨hids.1, hids.2, hnone⟩
    simp only [register, trimSpace_trimSpace, hids.1, if_false]
    split
    next => rfl
    next registry hok =>
      split at hok
      · cases hok
      next hnone => exact absurd hnone hsome

variable {rec : ExecSessionRecord}

theorem mem_sessions_upsert {j : Job}
    (h : j ∈ sessions (s.registry.upsert rec)) : j = jobOf rec ∨ j ∈ sessions s.registry := by
  obtain ⟨rec', hrec', rfl⟩ := mem_sessions.mp h
  rcases Table.mem_upsert.mp hrec' with rfl | ⟨hold, -⟩
  · exact .inl rfl
  · exact .inr (jobOf_mem hold)

theorem Inv.createSession (h : Inv s) (hreg : Registers s sessionID msUUID)
    (hnew : ∀ rec ∈ s.registry,
      trimSpace rec.runtimeExecID ≠ (newJob build owner sessionID containerID).exec)
    (hclear : Clear s (newJob build owner sessionID containerID)) :
    Inv (createSession build s owner sessionID msUUID containerID) := by
  rw [createSession_of_registers hreg]
  have hexec : ∀ j ∈ sessions s.registry,
      j.exec ≠ (newJob build owner sessionID containerID).exec := by
    intro j hj
    obtain ⟨rec, hrec, rfl⟩ := mem_sessions.mp hj
    exact hnew rec hrec
  have hsession : ∀ j ∈ sessions s.registry,
      j.session ≠ (newJob build owner sessionID containerID).session := by
    intro j hj heq
    obtain ⟨rec, hrec, rfl⟩ := mem_sessions.mp hj
    have hget := Table.get?_eq_some_iff.mpr ⟨hrec, heq⟩
    exact absurd (hreg.2.2.symm.trans hget) nofun
  have hjob : jobOf (newRecord build owner sessionID msUUID containerID) =
    newJob build owner sessionID containerID := rfl
  refine ⟨?_, ?_, ?_⟩
  · intro j hj j' hj' heq
    rcases mem_sessions_upsert hj with rfl | hj <;> rcases mem_sessions_upsert hj' with rfl | hj'
    · rfl
    · exact absurd heq.symm (hexec j' hj')
    · exact absurd heq (hexec j hj)
    · exact h.distinct j hj j' hj' heq
  · intro t ht
    rcases List.mem_append.mp ht with ht | ht
    · have hsound := h.threads t ht
      refine ⟨fun job hmem j hj hor => ?_, fun x hx j hj => ?_, ?_, hsound.trimmed⟩
      · rcases mem_sessions_upsert hj with rfl | hj
        · obtain ⟨hs, he⟩ := hclear.jobs t ht job hmem
          exact (hor.elim (fun e => hs e.symm) fun e => he e.symm).elim
        · exact hsound.jobs job hmem j hj hor
      · rcases mem_sessions_upsert hj with rfl | hj
        · rintro rfl
          exact hclear.doomed t ht hx
        · exact hsound.doomed x hx j hj
      · have hcovers := hsound.covers
        have hsweeping := hclear.sweeping t ht
        unfold Thread.Covers at hcovers ⊢
        split
        next job kept =>
          intro j hj hcontainer
          rcases mem_sessions_upsert hj with rfl | hj
          · exact absurd hcontainer.symm hsweeping
          · exact hcovers j hj hcontainer
        next => trivial
    · obtain rfl := List.mem_singleton.mp ht
      refine ⟨fun job hmem j hj hor => ?_, nofun, trivial,
        trimSpace_trimSpace _, trimSpace_trimSpace _⟩
      obtain rfl := List.mem_singleton.mp hmem
      rcases mem_sessions_upsert hj with rfl | hj
      · exact ⟨rfl, rfl, rfl⟩
      · exact (hor.elim (hsession j hj) (hexec j hj)).elim
  · intro e he
    obtain ⟨hne, hplace⟩ := h.execs e he
    refine ⟨hne, fun j hj heq => ?_⟩
    rcases mem_sessions_upsert hj with rfl | hj
    · exact (hclear.elsewhere e he heq.symm).symm
    · exact hplace j hj heq

theorem Inv.agrees (h : Inv s) (hrec : rec ∈ s.registry) {j : Job} (hj : j ∈ sessions s.registry)
    (hor : j.session = (jobOf rec).session ∨ j.exec = (jobOf rec).exec) : Agrees j (jobOf rec) := by
  obtain ⟨rec', hrec', rfl⟩ := mem_sessions.mp hj
  have hsession : rec'.sessionID = rec.sessionID :=
    hor.elim id fun he => h.distinct _ (jobOf_mem hrec') _ (jobOf_mem hrec) he
  obtain rfl := Table.eq_of_key_eq hrec' hrec hsession
  exact ⟨rfl, rfl, rfl⟩

theorem release_eq_ok {r r' : ExecSessionRegistry}
    (h : r.release sessionID owner = .ok (rec, r')) : rec ∈ r ∧ r' = r.remove sessionID := by
  unfold release at h
  split at h
  next => cases h
  next rec' hget =>
    split at h <;> cases h
    exact ⟨(Table.get?_eq_some_iff.mp hget).1, rfl⟩

/-- **The step lemma**: an event whose registration is fresh preserves the invariant. -/
theorem Inv.step (h : Inv s) (hfresh : Fresh build s ev) (hstep : step build s ev = some s') :
    Inv s' := by
  have hself : sessions s.registry ⊆ sessions s.registry := List.Subset.refl _
  cases ev with
  | createSession owner sessionID msUUID containerID =>
    cases hstep
    by_cases hreg : Registers s sessionID msUUID
    · exact h.createSession hreg (hfresh.1 hreg) (hfresh.2 hreg)
    · rw [createSession_of_not_registers hreg]
      exact h
  | releaseSession sessionID owner =>
    simp only [ExecRuntime.step] at hstep
    split at hstep
    next =>
      cases hstep
      exact h
    next rec registry hrelease =>
      cases hstep
      obtain ⟨hrec, rfl⟩ := release_eq_ok hrelease
      have hkeeps : Keeps (sessions s.registry)
          { s with
            registry := s.registry.remove sessionID
            threads := s.threads ++ [.release (jobOf rec)] } [.release (jobOf rec)] := by
        refine ⟨sessions_remove _ _, List.forall_mem_singleton.mpr ?_, h.execs⟩
        refine ⟨fun job hjob j hj hor => ?_, nofun, trivial, trivial⟩
        obtain rfl := List.mem_singleton.mp hjob
        exact h.agrees hrec hj hor
      exact h.keeps hkeeps fun t ht => List.mem_append.mp ht
  | stopAllInteractive msUUID order =>
    simp only [ExecRuntime.step] at hstep
    split at hstep
    · cases hstep
      exact h
    split at hstep
    next hperm =>
      cases hstep
      have hkeeps : Keeps (sessions s.registry)
          { s with threads := s.threads ++ [.stopAll (order.map jobOf) false] }
          [.stopAll (order.map jobOf) false] := by
        refine ⟨hself, List.forall_mem_singleton.mpr ?_, h.execs⟩
        refine ⟨fun job hjob j hj hor => ?_, nofun, trivial, trivial⟩
        obtain ⟨rec, hrec, rfl⟩ := List.mem_map.mp hjob
        exact h.agrees (List.mem_of_mem_filter (hperm.subset hrec)) hj hor
      exact h.keeps hkeeps fun t ht => List.mem_append.mp ht
    next => cases hstep
  | exit x =>
    cases hstep
    have hkeeps : Keeps (sessions s.registry)
        { s with execSessions := without x s.execSessions } [] := by
      refine ⟨hself, nofun, fun e he => h.execs e ?_⟩
      exact (List.mem_append.mp he).elim (fun he => List.mem_append.mpr (.inl he)) fun he =>
        List.mem_append.mpr (.inr (mem_of_mem_without he))
    exact h.keeps hkeeps fun t ht => .inl ht
  | advance n ok =>
    simp only [ExecRuntime.step] at hstep
    split at hstep
    next => cases hstep
    next t ht =>
      cases hstep
      have hnext := Thread.keeps_step h ok (h.threads t (List.mem_of_getElem? ht))
      have hkeeps : Keeps (sessions s.registry)
          { (t.step s ok).1 with threads := s.threads.eraseIdx n ++ (t.step s ok).2 }
          (t.step s ok).2 := ⟨hnext.sessions, hnext.threads, hnext.execs⟩
      refine h.keeps hkeeps fun u hu => ?_
      exact (List.mem_append.mp hu).imp_left List.mem_of_mem_eraseIdx

end Steps

/-! ## Runs -/

variable {build : ExecOwner → Str → Str → Str}

theorem newExec_of_distinct {ev : Event}
    (h : ∀ s', step build s ev = some s' → Distinct s') : NewExec build s ev := by
  cases ev with
  | createSession owner sessionID msUUID containerID =>
    intro hreg rec hrec heq
    have hdistinct := h _ rfl
    rw [createSession_of_registers hreg] at hdistinct
    have hid : rec.sessionID ≠ trimSpace sessionID := by
      intro hid
      have hget := Table.get?_eq_some_iff.mpr ⟨hrec, hid⟩
      exact absurd (hreg.2.2.symm.trans hget) nofun
    have hold : rec ∈ s.registry.upsert (newRecord build owner sessionID msUUID containerID) :=
      Table.mem_upsert.mpr (.inr ⟨hrec, hid⟩)
    exact hid (hdistinct rec hold _ (Table.mem_upsert.mpr (.inl rfl)) heq)
  | _ => trivial

/-- **Sessions whose registrations are fresh do not get in each other's way**: in every run, over
any number of sessions, containers and calls, no two registered sessions share an exec and no call
stops the exec of a registered session other than its own. And in a run in which no two share one,
every registration has an exec that no registered session has. -/
theorem apart_of_fresh (build : ExecOwner → Str → Str → Str) (as : List Event) :
    (Along (step build) (Fresh build) initial as →
      Throughout (step build) Distinct initial as ∧ Along (step build) Harmless initial as) ∧
    (Throughout (step build) Distinct initial as →
      Along (step build) (NewExec build) initial as) := by
  refine ⟨fun h => ⟨?_, ?_⟩, fun h => ?_⟩
  · exact throughout_of_along (fun _ => Inv.apart) (fun _ _ _ h => h.step) inv_initial h
  · exact along_of_along (fun _ _ _ h => h.step) (fun _ ev h _ => h.harmless ev) inv_initial h
  · exact along_of_throughout (fun _ _ _ _ _ _ => trivial) (fun _ _ _ => newExec_of_distinct)
      trivial h

theorem along_advance (s : State) (ns : List ℕ) :
    Along (step runtimeExecID) (Fresh runtimeExecID) s (ns.map (.advance · true)) := by
  induction ns generalizing s with
  | nil => trivial
  | cons n ns ih => exact ⟨⟨trivial, trivial⟩, fun s _ => ih s⟩

/-- The exec of the first session runs; the session is released, a second one sweeps its exec, and
then the release stops it. -/
def freshRun : List Event :=
  .createSession .controller ['a'] ['m'] ['c'] ::
    ((List.replicate 9 0).map (.advance · true) ++
      .releaseSession ['a'] .controller :: .createSession .localAPI ['b'] ['m'] ['c'] ::
        [1, 1, 1, 0].map (.advance · true))

theorem apart_of_fresh_two_owners :
    (run (step runtimeExecID) initial freshRun).isSome ∧
      Along (step runtimeExecID) (Fresh runtimeExecID) initial freshRun ∧
      Along (step runtimeExecID) Harmless initial freshRun := by
  have hfresh : Along (step runtimeExecID) (Fresh runtimeExecID) initial freshRun := by
    refine ⟨⟨nofun, fun _ => ⟨nofun, nofun, nofun, nofun⟩⟩, ?_⟩
    rintro s ⟨⟩
    refine along_append.mpr ⟨along_advance _ _, ?_⟩
    rintro s ⟨⟩
    refine ⟨⟨trivial, trivial⟩, ?_⟩
    rintro s ⟨⟩
    refine ⟨⟨nofun, fun _ => ⟨fun t ht j hj => ?_, fun t ht => ?_, fun t ht => ?_, fun e he => ?_⟩⟩,
      fun s _ => along_advance s _⟩
    · obtain rfl := List.mem_singleton.mp ht
      obtain rfl := List.mem_singleton.mp hj
      decide
    · obtain rfl := List.mem_singleton.mp ht
      exact nofun
    · obtain rfl := List.mem_singleton.mp ht
      exact nofun
    · obtain rfl := List.mem_singleton.mp he
      exact fun _ => rfl
  exact ⟨rfl, hfresh, ((apart_of_fresh runtimeExecID freshRun).1 hfresh).2⟩

def sharingRun : List Event :=
  [.createSession .controller "aaaaaaaa1".toList ['m'] ['c'],
    .createSession .controller "aaaaaaaa2".toList ['m'] ['c'],
    .releaseSession "aaaaaaaa1".toList .controller]

def sweepingRun : List Event :=
  [.createSession .controller ['a'] ['m'] ['c'], .advance 0 true,
    .createSession .controller ['b'] ['m'] ['c']] ++ List.replicate 7 (.advance 1 true) ++
    [.advance 0 true]

theorem execs_shared_and_swept :
    (∃ s, run (step runtimeExecID) initial (sharingRun.take 2) = some s ∧ ¬ Distinct s) ∧
    (∃ s, run (step runtimeExecID) initial sharingRun = some s ∧ ¬ Harmless s (.advance 2 true)) ∧
    (∃ s, run (step runtimeExecID) initial sweepingRun = some s ∧
      Distinct s ∧ ¬ Harmless s (.advance 1 true)) := by
  have hshared : ((run (step runtimeExecID) initial (sharingRun.take 2)).any fun s =>
      !decide (Distinct s)) = true := rfl
  have hreleased : ((run (step runtimeExecID) initial sharingRun).any fun s =>
      !decide (Harmless s (.advance 2 true))) = true := rfl
  have hswept : ((run (step runtimeExecID) initial sweepingRun).any fun s =>
      decide (Distinct s) && !decide (Harmless s (.advance 1 true))) = true := rfl
  simp only [Option.any_eq_true, Bool.and_eq_true, Bool.not_eq_true', decide_eq_true_eq,
    decide_eq_false_iff_not] at hshared hreleased hswept
  exact ⟨hshared, hreleased, hswept⟩

end Edgelet.ProcessManager.ExecRuntime
