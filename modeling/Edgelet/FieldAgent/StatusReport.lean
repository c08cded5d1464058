import Edgelet.Machine.Run
import Edgelet.ProcessManager.Status

/-!
# Reporting before removing

`PostStatusHelper` takes a snapshot, sends it, and then removes the entries in the states `unknown`
and `deleted`, with the reporter locked for each step and not across them. An entry that gets there
after the snapshot is removed without having been reported.

The setters of one update are steps of their own here, although only the snapshot can come between
them.
-/

namespace Edgelet.FieldAgent.StatusReport

open Lexical Keyed Machine ProcessManager ProcessManagerStatus

structure Post where
  snapshot : List StatusItem
  sent : Bool

structure State where
  pm : ProcessManagerStatus
  posts : List Post
  reported : List (List StatusItem)

variable (pm : ProcessManagerStatus) (state : MicroserviceState)

def idle : State := ⟨pm, [], []⟩

inductive Event
  | gather (env : Surroundings)
  /-- A call sends it; without a connection it does not, which is no success either. -/
  | put (n : ℕ) (ok : Bool)
  | prune (n : ℕ)
  | update (u : StatusWrite)

/-- The call with that snapshot has sent it. -/
def State.report (s : State) (n : ℕ) (snapshot : List StatusItem) : State :=
  { s with posts := s.posts.set n ⟨snapshot, true⟩, reported := s.reported ++ [snapshot] }

def step (s : State) : Event → Option State
  | .gather env => some { s with posts := s.posts ++ [⟨microserviceStatus env s.pm, false⟩] }
  | .put n ok =>
    match s.posts[n]? with
    | some ⟨snapshot, false⟩ =>
      if ok then some (s.report n snapshot)
      else some { s with posts := s.posts.eraseIdx n }
    | _ => none
  | .prune n =>
    match s.posts[n]? with
    | some ⟨_, true⟩ =>
      some { s with pm := s.pm.removeNotRunningMicroserviceStatus
                    posts := s.posts.eraseIdx n }
    | _ => none
  | .update u => some { s with pm := u.apply s.pm }

def Shows (snapshot : List StatusItem) (e : Entry) : Prop :=
  ∃ item ∈ snapshot, item.id = e.uuid ∧ item.status = e.status.status

def State.Reported (s : State) (e : Entry) : Prop := ∃ snapshot ∈ s.reported, Shows snapshot e

/-- **The condition on a step**: an update that comes while a call is under way leaves no entry
in a state that is removed, unless the entry was in that state before or was reported in it. -/
def Quiet (s : State) : Event → Prop
  | .update u => s.posts = [] ∨ ∀ e ∈ (u.apply s.pm).microservicesStatus,
      notRunning e.status.status = true → s.Reported e ∨
        ∃ e' ∈ s.pm.microservicesStatus, e'.uuid = e.uuid ∧ e'.status.status = e.status.status
  | _ => True

/-! ## Steps -/

variable {s s' : State}

theorem step_put {n : ℕ} {ok : Bool} (h : step s (.put n ok) = some s') :
    ∃ snapshot, ⟨snapshot, false⟩ ∈ s.posts ∧
      (s' = s.report n snapshot ∨ s' = { s with posts := s.posts.eraseIdx n }) := by
  simp only [step] at h
  split at h
  · rename_i snapshot hn
    refine ⟨snapshot, List.mem_of_getElem? hn, ?_⟩
    split at h
    · exact .inl (Option.some.inj h).symm
    · exact .inr (Option.some.inj h).symm
  · cases h

theorem step_prune {n : ℕ} (h : step s (.prune n) = some s') :
    ∃ snapshot, ⟨snapshot, true⟩ ∈ s.posts ∧
      s' = { s with pm := s.pm.removeNotRunningMicroserviceStatus
                    posts := s.posts.eraseIdx n } := by
  simp only [step] at h
  split at h
  · rename_i snapshot hn
    exact ⟨snapshot, List.mem_of_getElem? hn, (Option.some.inj h).symm⟩
  · cases h

/-- **The invariant**: what a removal would remove is in the snapshot of every call under way or
has been reported, and the snapshots that were sent have been. -/
structure Inv (s : State) : Prop where
  shown : ∀ post ∈ s.posts, ∀ e ∈ s.pm.microservicesStatus, notRunning e.status.status = true →
    Shows post.snapshot e ∨ s.Reported e
  sent : ∀ post ∈ s.posts, post.sent = true → post.snapshot ∈ s.reported

theorem Shows.congr {snapshot : List StatusItem} {e e' : Entry} (h : Shows snapshot e')
    (huuid : e'.uuid = e.uuid) (hstate : e'.status.status = e.status.status) :
    Shows snapshot e := by
  obtain ⟨item, hitem, hid, hst⟩ := h
  exact ⟨item, hitem, hid.trans huuid, hst.trans hstate⟩

theorem State.Reported.congr {e e' : Entry} (h : s.Reported e') (huuid : e'.uuid = e.uuid)
    (hstate : e'.status.status = e.status.status) : s.Reported e := by
  obtain ⟨snapshot, hmem, hshows⟩ := h
  exact ⟨snapshot, hmem, hshows.congr huuid hstate⟩

theorem inv_idle : Inv (idle pm) :=
  ⟨fun _ h => absurd h List.not_mem_nil, fun _ h => absurd h List.not_mem_nil⟩

theorem Inv.gather (h : Inv s) (env : Surroundings) :
    Inv { s with posts := s.posts ++ [⟨microserviceStatus env s.pm, false⟩] } where
  shown post hpost e he hstate := by
    rcases List.mem_append.mp hpost with hpost | hpost
    · exact h.shown post hpost e he hstate
    · rw [List.mem_singleton.mp hpost]
      exact .inl (exists_item_iff.mpr ⟨e, he, rfl, rfl⟩)
  sent post hpost hsent := by
    rcases List.mem_append.mp hpost with hpost | hpost
    · exact h.sent post hpost hsent
    · rw [List.mem_singleton.mp hpost] at hsent
      cases hsent

theorem Inv.taken (h : Inv s) {n : ℕ} {snapshot : List StatusItem}
    (hmem : ⟨snapshot, false⟩ ∈ s.posts) : Inv (s.report n snapshot) where
  shown post hpost e he hstate := by
    have hreported : s.Reported e → (s.report n snapshot).Reported e :=
      fun ⟨sn, hsn, hshows⟩ => ⟨sn, List.mem_append_left _ hsn, hshows⟩
    rcases List.mem_or_eq_of_mem_set hpost with hpost | rfl
    · exact (h.shown post hpost e he hstate).imp_right hreported
    · exact (h.shown _ hmem e he hstate).imp_right hreported
  sent post hpost hsent := by
    rcases List.mem_or_eq_of_mem_set hpost with hpost | rfl
    · exact List.mem_append_left _ (h.sent post hpost hsent)
    · exact List.mem_append_right _ (List.mem_singleton_self _)

theorem Inv.mono (h : Inv s) {pm : ProcessManagerStatus} {posts : List Post}
    (hpm : ∀ e ∈ pm.microservicesStatus, e ∈ s.pm.microservicesStatus)
    (hposts : ∀ post ∈ posts, post ∈ s.posts) : Inv ⟨pm, posts, s.reported⟩ where
  shown post hpost e he hstate := h.shown post (hposts post hpost) e (hpm e he) hstate
  sent post hpost := h.sent post (hposts post hpost)

theorem Inv.update (h : Inv s) {u : StatusWrite} (hquiet : Quiet s (.update u)) :
    Inv { s with pm := u.apply s.pm } where
  shown post hpost e he hstate := by
    rcases hquiet with hnone | hquiet
    · rw [hnone] at hpost
      cases hpost
    · rcases hquiet e he hstate with hreported | ⟨e', he', huuid, hsame⟩
      · exact .inr hreported
      · rcases h.shown post hpost e' he' (hsame ▸ hstate) with hshows | hreported
        · exact .inl (hshows.congr huuid hsame)
        · exact .inr (hreported.congr huuid hsame)
  sent := h.sent

theorem Inv.step (h : Inv s) {ev : Event} (hquiet : Quiet s ev)
    (hstep : step s ev = some s') : Inv s' := by
  cases ev with
  | gather env =>
    cases hstep
    exact h.gather env
  | put n ok =>
    obtain ⟨snapshot, hmem, rfl | rfl⟩ := step_put hstep
    · exact h.taken hmem
    · exact h.mono (fun _ he => he) fun _ hpost => List.mem_of_mem_eraseIdx hpost
  | prune n =>
    obtain ⟨snapshot, -, rfl⟩ := step_prune hstep
    exact h.mono (fun e he => (s.pm.mem_removeNotRunning.mp he).1)
      fun _ hpost => List.mem_of_mem_eraseIdx hpost
  | update u =>
    cases hstep
    exact h.update hquiet

/-! ## Runs -/

/-- **What is removed was reported**: in every run whose updates are quiet, an entry that a call
removes after its report had been in a snapshot that the controller took, in the same state. -/
theorem removed_reported {pm : ProcessManagerStatus} {evs : List Event} {n : ℕ}
    (hquiet : Along step Quiet (idle pm) evs) (hrun : run step (idle pm) evs = some s)
    (hprune : step s (.prune n) = some s') {e : Entry} (he : e ∈ s.pm.microservicesStatus)
    (hgone : e ∉ s'.pm.microservicesStatus) : s.Reported e := by
  have hinv : Inv s :=
    invariant_run (fun _ _ _ h hok hstep => h.step hok hstep) hquiet (inv_idle pm) hrun
  obtain ⟨snapshot, hmem, rfl⟩ := step_prune hprune
  have hstate : notRunning e.status.status = true := by
    by_contra hrunning
    exact hgone (s.pm.mem_removeNotRunning.mpr ⟨he, Bool.eq_false_iff.mpr hrunning⟩)
  rcases hinv.shown _ hmem e he hstate with hshows | hreported
  · exact ⟨snapshot, hinv.sent _ hmem rfl, hshows⟩
  · exact hreported

def entryIn : Entry :=
  ⟨"a".toList, { newMicroserviceStatus with status := state }⟩

def statusIn : ProcessManagerStatus :=
  ⟨0, (Table.empty _).upsert (entryIn state)⟩

def plainSurroundings : Surroundings := ⟨0, fun _ => [], fun _ => [], [], false⟩

def afterReport (shown state : MicroserviceState) : State :=
  ⟨statusIn state, [⟨microserviceStatus plainSurroundings (statusIn shown), true⟩],
    [microserviceStatus plainSurroundings (statusIn shown)]⟩

theorem deleted_removed (shown : MicroserviceState) :
    entryIn .deleted ∈ (afterReport shown .deleted).pm.microservicesStatus ∧
      ∃ s', step (afterReport shown .deleted) (.prune 0) = some s' ∧
        entryIn .deleted ∉ s'.pm.microservicesStatus :=
  ⟨Table.mem_upsert.mpr (.inl rfl), _, rfl, fun h => nomatch ((mem_removeNotRunning _).mp h).2⟩

/-- A microservice that was deleted before the snapshot is reported and then removed. -/
theorem removed_reported_deleted :
    Along step Quiet (idle .new)
        [.update (.state "a".toList .deleted), .gather plainSurroundings, .put 0 true] ∧
      run step (idle .new)
        [.update (.state "a".toList .deleted), .gather plainSurroundings, .put 0 true] =
          some (afterReport .deleted .deleted) ∧
      (afterReport .deleted .deleted).Reported (entryIn .deleted) := by
  have hquiet : Along step Quiet (idle .new)
      [.update (.state "a".toList .deleted), .gather plainSurroundings, .put 0 true] :=
    ⟨.inl rfl, fun _ _ => ⟨trivial, fun _ _ => ⟨trivial, fun _ _ => trivial⟩⟩⟩
  obtain ⟨hmem, s', hprune, hgone⟩ := deleted_removed .deleted
  exact ⟨hquiet, rfl, removed_reported hquiet rfl hprune hmem hgone⟩

/-- A microservice that is deleted between the snapshot and the removal is removed, and the
controller has only seen it running. -/
theorem unreported_removed :
    ∃ s s' : State, run step (idle .new)
        [.update (.state "a".toList .running), .gather plainSurroundings, .put 0 true,
          .update (.state "a".toList .deleted)] = some s ∧
      step s (.prune 0) = some s' ∧ entryIn .deleted ∈ s.pm.microservicesStatus ∧
      entryIn .deleted ∉ s'.pm.microservicesStatus ∧ ¬ s.Reported (entryIn .deleted) := by
  obtain ⟨hmem, s', hprune, hgone⟩ := deleted_removed .running
  refine ⟨afterReport .running .deleted, s', rfl, hprune, hmem, hgone, ?_⟩
  rintro ⟨snapshot, hsnapshot, item, hitem, -, hstate⟩
  rw [List.mem_singleton.mp hsnapshot] at hitem
  rw [List.mem_singleton.mp hitem] at hstate
  cases hstate

end Edgelet.FieldAgent.StatusReport
