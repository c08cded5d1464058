import Edgelet.Machine.Run
import Edgelet.Models.Microservice

/-!
# Health checks run by the agent

A pass visits the running containers and counts for each microservice the probes that failed in a
row. The counter outlives the container: a replaced one starts with the failures of its predecessor.

The record of the executed probes, the last one first, is not part of the source.
-/

namespace Edgelet.Healthcheck

open Lexical Models Machine

/-- A container of the listing, with what is told about it during its visit. -/
structure Container where
  id : Str
  microserviceUUID : Str
  latest : Option Healthcheck := none
  label : Option Healthcheck := none
  startedAt : ℤ := 0
  now : ℤ := 0
  /-- Models `ExecWithExitCode`, `none` on an error. -/
  exitCode : Option ℤ

structure Probe where
  microserviceUUID : Str
  container : Str
  healthy : Bool
  deriving DecidableEq

inductive Health
  | healthy
  | unhealthy
  deriving DecidableEq

structure Runner where
  consecutiveFailures : Str → ℕ := fun _ => 0
  health : Str → Option Health := fun _ => none
  probes : List Probe := []

def retries (hc : Healthcheck) : ℕ :=
  match hc.retries with
  | some n => if 0 < n then n.toNat else 3
  | none => 3

/-- The failures after which a visit reports the container, `none` when no probe is executed. -/
def Container.due (c : Container) : Option ℕ :=
  if c.microserviceUUID = [] then none
  else
    match c.latest.or c.label with
    | none => none
    | some hc =>
      if hc.test.length < 2 then none
      else if (c.now - c.startedAt).tdiv 1000 < hc.startPeriod.getD 0 then none
      else some (retries hc)

def check (r : Runner) (c : Container) : Runner :=
  match c.due with
  | none => r
  | some retries =>
    let uuid := c.microserviceUUID
    let healthy := c.exitCode == some 0
    let failures := if healthy then 0 else r.consecutiveFailures uuid + 1
    { consecutiveFailures := Function.update r.consecutiveFailures uuid failures
      health :=
        if healthy then Function.update r.health uuid (some .healthy)
        else if failures < retries then r.health
        else Function.update r.health uuid (some .unhealthy)
      probes := ⟨uuid, c.id, healthy⟩ :: r.probes }

def runOnce (r : Runner) (containers : Option (List Container)) : Runner :=
  (containers.getD []).foldl check r

/-! ## Failures of one container -/

def visit (r : Runner) (c : Container) : Option Runner := some (check r c)

def visits (passes : List (Option (List Container))) : List Container :=
  passes.flatMap (·.getD [])

/-- **Unhealthy means failures of this container**: a visit that makes a microservice unhealthy
executes a probe, and the last probes of its container, as many as the retries, have failed. -/
def Honest (r : Runner) (c : Container) : Prop :=
  ∀ uuid, (check r c).health uuid = some .unhealthy → r.health uuid = some .unhealthy ∨
    ∃ n, c.due = some n ∧ (((check r c).probes.filter fun p =>
      p.container = c.id ∧ p.microserviceUUID = uuid).take n) = List.replicate n ⟨uuid, c.id, false⟩

/-- **The condition**: an executed probe finds no failures of its microservice, or the last probe of
the microservice was one of the same container. -/
def Settled (r : Runner) (c : Container) : Prop :=
  c.due ≠ none → r.consecutiveFailures c.microserviceUUID = 0 ∨
    ∃ p ∈ (r.probes.filter (·.microserviceUUID = c.microserviceUUID)).head?, p.container = c.id

def Counted (r : Runner) : Prop :=
  ∀ uuid, ∃ id rest, r.probes.filter (·.microserviceUUID = uuid) =
    List.replicate (r.consecutiveFailures uuid) ⟨uuid, id, false⟩ ++ rest

variable {r : Runner} {c : Container}

section

variable (hr : Counted r) (hc : Settled r c)

include hr hc

/-- The failures that the counter has after a failed probe are all of its container. -/
theorem Counted.failed {n : ℕ} (hdue : c.due = some n) :
    ∃ rest, r.probes.filter (·.microserviceUUID = c.microserviceUUID) =
      List.replicate (r.consecutiveFailures c.microserviceUUID) ⟨c.microserviceUUID, c.id, false⟩ ++
        rest := by
  obtain ⟨id, rest, heq⟩ := hr c.microserviceUUID
  rcases hc (by simp [hdue]) with hzero | ⟨p, hp, hid⟩
  · exact ⟨rest, by rw [heq, hzero]; rfl⟩
  · rw [heq] at hp ⊢
    cases hn : r.consecutiveFailures c.microserviceUUID with
    | zero => exact ⟨rest, rfl⟩
    | succ k =>
      rw [hn] at hp
      cases hp
      exact ⟨rest, by rw [← hid]⟩

theorem Counted.check : Counted (check r c) := by
  unfold Healthcheck.check
  split
  · exact hr
  next n hdue =>
    intro uuid
    by_cases hu : uuid = c.microserviceUUID
    · subst hu
      obtain ⟨rest, heq⟩ := hr.failed hc hdue
      cases hhealthy : c.exitCode == some 0 with
      | true => exact ⟨c.id, _, by simp; rfl⟩
      | false =>
        refine ⟨c.id, rest, ?_⟩
        simp [heq, List.replicate_succ]
    · obtain ⟨id, rest, heq⟩ := hr uuid
      exact ⟨id, rest, by simp [Ne.symm hu, hu, heq]⟩

theorem Counted.honest : Honest r c := by
  intro uuid hun
  unfold Healthcheck.check at hun ⊢
  cases hdue : c.due with
  | none => exact .inl (by simpa [hdue] using hun)
  | some n =>
    simp only [hdue] at hun ⊢
    by_cases hu : uuid = c.microserviceUUID
    · subst hu
      cases hhealthy : c.exitCode == some 0 with
      | true => simp [hhealthy] at hun
      | false =>
        simp only [hhealthy, Bool.false_eq_true, if_false] at hun ⊢
        split_ifs at hun with hfew
        · exact .inl hun
        · obtain ⟨rest, heq⟩ := hr.failed hc hdue
          refine .inr ⟨n, rfl, ?_⟩
          simp only [Bool.decide_and, ← List.filter_filter]
          rw [List.filter_cons_of_pos (by simp), heq, ← List.cons_append, ← List.replicate_succ,
            List.filter_append, List.filter_replicate_of_pos (by simp),
            List.take_append_of_le_length (by simpa using hfew), List.take_replicate,
            Nat.min_eq_left (Nat.not_lt.mp hfew)]
    · refine .inl ?_
      split_ifs at hun
      · simpa [hu] using hun
      · exact hun
      · simpa [hu] using hun

end

theorem run_visit (cs : List Container) : run visit r cs = some (cs.foldl check r) := by
  induction cs generalizing r with
  | nil => rfl
  | cons c cs ih => exact ih

/-- **When unhealthy means failures of this container**: in every sequence of passes in which a
container never inherits the failures of another one. -/
theorem unhealthy_of_settled (passes : List (Option (List Container)))
    (h : Along visit Settled {} (visits passes)) :
    run visit {} (visits passes) = some (passes.foldl runOnce {}) ∧
      Along visit Honest {} (visits passes) := by
  refine ⟨?_, along_of_along ?_ (fun _ _ (hr : Counted _) => hr.honest)
    (fun _ => ⟨[], [], rfl⟩) h⟩
  · rw [run_visit, visits, List.foldl_flatMap]
    rfl
  · rintro r c _ hr hc ⟨⟩
    exact hr.check hc

def failing (id : Str) : Option (List Container) :=
  some [{ id, microserviceUUID := "web".toList, exitCode := none
          latest := some { test := ["CMD".toList, "true".toList] } }]

/-- Three failures of one container make its microservice unhealthy. -/
theorem unhealthy_after_three :
    Along visit Honest {} (visits [failing ['a'], failing ['a'], failing ['a']]) := by
  refine (unhealthy_of_settled [failing ['a'], failing ['a'], failing ['a']] ?_).2
  refine ⟨fun _ => .inl rfl, ?_⟩
  rintro _ ⟨⟩
  refine ⟨fun _ => .inr ⟨_, rfl, rfl⟩, ?_⟩
  rintro _ ⟨⟩
  exact ⟨fun _ => .inr ⟨_, rfl, rfl⟩, fun _ _ => trivial⟩

/-- **A new container pays for the old one**: two failures of a container and one of its successor
make the microservice unhealthy after a single probe of the running container. -/
theorem unhealthy_after_one :
    let r := [failing ['a'], failing ['a'], failing ['b']].foldl runOnce {}
    r.health "web".toList = some .unhealthy ∧
      r.probes.filter (·.container = ['b']) = [⟨"web".toList, ['b'], false⟩] := by
  decide

/-- The probes of the microservice that failed since the last one that did not. -/
def streak (r : Runner) (uuid : Str) : ℕ :=
  ((r.probes.filter (·.microserviceUUID = uuid)).takeWhile (!·.healthy)).length

def Tallied (r : Runner) : Prop := ∀ uuid, r.consecutiveFailures uuid = streak r uuid

theorem Tallied.check (h : Tallied r) : Tallied (check r c) := by
  intro uuid
  have huuid := h uuid
  unfold streak Healthcheck.check at *
  split
  · exact huuid
  · by_cases hu : uuid = c.microserviceUUID
    · subst hu
      cases hhealthy : c.exitCode == some 0 <;> simp [huuid]
    · simpa [hu, Ne.symm hu] using huuid

/-- **What unhealthy means in any sequence of passes**: the counter of a microservice is the length
of its current run of failures, and a probe leaves its microservice unhealthy
when it failed and the microservice was unhealthy, or as many probes in a row as the retries failed,
of whichever containers. -/
theorem unhealthy_iff_streak (passes : List (Option (List Container))) :
    Along visit (fun r c =>
      (∀ uuid, (check r c).consecutiveFailures uuid = streak (check r c) uuid) ∧
      ∀ n, c.due = some n →
        ((check r c).health c.microserviceUUID = some .unhealthy ↔ c.exitCode ≠ some 0 ∧
          (r.health c.microserviceUUID = some .unhealthy ∨
            n ≤ streak (check r c) c.microserviceUUID))) {} (visits passes) := by
  refine along_of_along (fun r c _ (h : Tallied r) (_ : True) hstep => ?_)
    (fun r c h _ => ⟨h.check, fun n hdue => ?_⟩) (fun _ => rfl)
    (along_of_forall (fun _ _ => trivial) _ _)
  · cases hstep
    exact h.check
  · rw [← h.check]
    simp only [check, hdue]
    by_cases hexit : c.exitCode = some 0
    · simp [hexit]
    · by_cases hfew : r.consecutiveFailures c.microserviceUUID + 1 < n
      · simp [hexit, hfew]
      · simp [hexit, hfew, not_lt.mp hfew]

end Edgelet.Healthcheck
