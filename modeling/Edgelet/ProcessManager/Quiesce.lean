import Edgelet.Lexical.Text
import Edgelet.Machine.Logged
import Mathlib.Data.Nat.Notation

/-!
# Quiescing labeled workloads

An attempt of `QuiesceLabeledWorkloads` drains and releases the labeled workloads and lists the
remaining tasks; when there are none, it kills the processes that still hold a volume, and verifies.
Attempts are repeated until a deadline. Everything the function is given may answer in any way; the
log holds every call with its answer.
-/

namespace Edgelet.ProcessManager.Quiesce

open Lexical Machine

/-! ## Dependencies and their log -/

structure Grace where
  listings : List (List Str)
  error : Option Str
  deriving DecidableEq

/-- A listing as Go returns it: `none` is the nil slice. -/
abbrev Listing := Option (List Str)

def Listing.ids (l : Listing) : List Str := l.getD []

inductive Event
  | attempt
  | now
  | sleep
  | grace (g : Grace)
  | released (error : Option Str)
  | tasks (r : Except Str Listing)
  | pids (r : Except Str (List ℤ))
  | holders (r : Except Str (List ℤ))
  | protect (pid : ℤ) (answer : Bool)
  | kill (pid : ℤ)
  deriving DecidableEq

def Event.grace? : Event → Option Grace
  | .grace g => some g
  | _ => none

/-- The injected dependencies, after `withDefaults`. What they answer is a function of the time. -/
structure Deps where
  selfPID : ℤ
  grace : Option (ℕ → Grace)
  release : Option (ℕ → Option Str)
  listTasks : Option (ℕ → Except Str Listing)
  listPIDs : Option (ℕ → Except Str (List ℤ))
  volumeHolders : ℕ → Except Str (List ℤ)
  protectPID : Option (ℕ → ℤ → Bool)
  now : ℕ → ℤ
  /-- The result of `stopTimeoutForBudget`. -/
  stopSec : ℕ → ℤ
  polls : ℕ → ℕ
  timeoutText : Str

inductive Status
  | complete
  | timedOut
  | verifyFailed
  deriving DecidableEq

abbrev M := Logged Event

/-! ## Processes -/

section Processes

variable (d : Deps)

def sparePID (pid : ℤ) : M Bool :=
  if pid ≤ 1 ∨ pid = d.selfPID then pure true
  else
    match d.protectPID with
    | none => pure false
    | some protect => ask (fun t => protect t pid) (.protect pid)

def killablePIDs : List ℤ → M (List ℤ)
  | [] => pure []
  | pid :: rest => do
    let spared ← sparePID d pid
    let out ← killablePIDs rest
    return if spared then out else pid :: out

def killPIDs : List ℤ → List ℤ → M Unit
  | [], _ => pure ()
  | pid :: rest, seen => do
    let spared ← sparePID d pid
    if spared ∨ pid ∈ seen then killPIDs rest seen
    else do
      emit (.kill pid)
      killPIDs rest (pid :: seen)

def killableHolders : M (Except Str (List ℤ)) := do
  match ← ask d.volumeHolders .holders with
  | .error e => return .error e
  | .ok holders => return .ok (← killablePIDs d holders)

def waitHoldersGone : ℕ → M Unit
  | 0 => pure ()
  | polls + 1 => do
    match ← killableHolders d with
    | .ok [] => pure ()
    | _ => waitHoldersGone polls

def uniquePIDs (pids : List ℤ) : List ℤ :=
  pids.foldl (fun out pid => if pid ≤ 0 ∨ pid ∈ out then out else out ++ [pid]) []

def listedPIDs : M (List ℤ) :=
  match d.listPIDs with
  | none => pure []
  | some listPIDs => do
    match ← ask listPIDs .pids with
    | .ok pids => return pids
    | .error _ => return []

def collectForcePIDs : M (List ℤ) := do
  let listed ← listedPIDs d
  match ← ask d.volumeHolders .holders with
  | .ok holders => return uniquePIDs (listed ++ holders)
  | .error _ => return uniquePIDs listed

def awaitHolders : M Unit := do
  let polls ← ask d.polls fun _ => .now
  waitHoldersGone d polls

def forceLeftovers : M Unit := do
  let pids ← collectForcePIDs d
  killPIDs d pids []
  awaitHolders d

def forceVolumeHolders : M Unit := do
  match ← ask d.volumeHolders .holders with
  | .error _ => pure ()
  | .ok holders => do
    killPIDs d holders []
    awaitHolders d

end Processes

/-! ## The attempts -/

section Attempts

variable (d : Deps)

def errLabeledTasksUnknown : Str := "cannot verify labeled workload tasks".toList

def labeledResidue : M (Except Str Listing) :=
  match d.listTasks with
  | none => pure (.error errLabeledTasksUnknown)
  | some listTasks => ask listTasks .tasks

def volumeHoldersRemain : M Bool := do
  match ← killableHolders d with
  | .ok [] => return false
  | _ => return true

inductive Verdict
  | clear
  | held
  | failed

def verifyDataPlaneClear : M Verdict := do
  match ← killableHolders d with
  | .error _ => return .failed
  | .ok (_ :: _) => return .held
  | .ok [] =>
    match ← labeledResidue d with
    | .error _ => return .failed
    | .ok tasks => return if tasks.ids = [] then .clear else .failed

def isLabeledWorkloadDrainTimeout (e : Str) : Bool :=
  occursIn "timed out draining labeled workloads".toList (toLower e)

def failedOtherwise : Option Str → Bool
  | none => false
  | some e => !isLabeledWorkloadDrainTimeout e

structure Carried where
  graceErr : Option Str
  releaseErr : Option Str
  residue : Listing

def finalResidue : Listing → M Listing
  | some ids => pure (some ids)
  | none => do
    match ← labeledResidue d with
    | .ok tasks => return tasks
    | .error _ => return none

variable (deadline : ℤ) (c : Carried)

def finishQuiesce : M Status := do
  if ← volumeHoldersRemain d then return .verifyFailed
  else
    let residue ← finalResidue d c.residue
    if c.releaseErr.isSome ∨ residue.ids ≠ [] then return .verifyFailed
    else if failedOtherwise c.graceErr then return .timedOut
    else return .verifyFailed

def drain : M (Option Str) := do
  let stopSec ← ask d.stopSec fun _ => .now
  let now ← ask d.now fun _ => .now
  if deadline - now ≤ 0 ∨ stopSec ≤ 0 then
    return some ("timed out draining labeled workloads after ".toList ++ d.timeoutText)
  else
    match d.grace with
    | none => return none
    | some grace => return (← ask grace .grace).error

inductive Next
  | done (s : Status)
  | again (c : Carried)

def forceAndVerify : M Next := do
  forceLeftovers d
  if ← volumeHoldersRemain d then return .done .verifyFailed
  else
    match ← verifyDataPlaneClear d with
    | .held => return .done .verifyFailed
    | .clear => return .done .complete
    | .failed => do
      match ← labeledResidue d with
      | .ok tasks => return .again { c with residue := tasks }
      | .error _ => return .again { c with residue := none }

def releaseStep (stopSec : ℤ) : M (Option Str) :=
  match d.release with
  | none => pure none
  | some release => if 0 < stopSec then ask release .released else pure none

def releaseAndForce (graceErr : Option Str) : M Next := do
  let stopSec ← ask d.stopSec fun _ => .now
  let releaseErr ← releaseStep d stopSec
  match ← labeledResidue d with
  | .error e =>
    let graceErr := if graceErr = none then some e else graceErr
    return .again { graceErr := graceErr, releaseErr := releaseErr, residue := none }
  | .ok tasks =>
    let c := { graceErr := graceErr, releaseErr := releaseErr, residue := tasks }
    if releaseErr = none ∧ tasks.ids = [] then forceAndVerify d c else return .again c

def attempt : M Next := do
  emit .attempt
  let graceErr ← drain d deadline
  if failedOtherwise graceErr ∧ d.grace.isSome then
    forceVolumeHolders d
    if ← volumeHoldersRemain d then return .done .verifyFailed
    else return .again { c with graceErr := graceErr }
  else releaseAndForce d graceErr

def pastDeadline : M Bool := do
  return decide (deadline ≤ (← ask d.now fun _ => .now))

def expired (attempted : Bool) : M Bool :=
  if attempted then pastDeadline d deadline else pure false

def quiesceLoop (deadline : ℤ) : ℕ → Bool → Carried → M (Option Status)
  | 0, _, _ => pure none
  | fuel + 1, attempted, c => do
    if ← expired d deadline attempted then return some (← finishQuiesce d c)
    else
      match ← attempt d deadline c with
      | .done s => return some s
      | .again c => do
        if ← pastDeadline d deadline then return some (← finishQuiesce d c)
        else
          let _ ← ask d.now fun _ => .now
          emit .sleep
          quiesceLoop deadline fuel true c

def quiesceLabeledWorkloads (timeout : ℤ) (fuel : ℕ) : M (Option Status) := do
  let started ← ask d.now fun _ => .now
  let deadline := if timeout ≤ 0 then started else started + timeout
  quiesceLoop d deadline fuel false { graceErr := none, releaseErr := none, residue := none }

end Attempts

/-! ## What is known when a process is killed -/

section Kills

variable {d : Deps} {l : List Event}

def Approved (d : Deps) (l : List Event) (pid : ℤ) : Prop :=
  1 < pid ∧ pid ≠ d.selfPID ∧ (d.protectPID.isSome → l.getLast? = some (.protect pid false))

def Event.listed : Event → Option (List Str)
  | .tasks (.ok r) => some r.ids
  | .grace g => g.listings.getLast?
  | _ => none

def lastListed (l : List Event) : List Str := (l.filterMap Event.listed).getLast?.getD []

variable {e : Event}

theorem lastListed_concat : lastListed (l ++ [e]) = (e.listed).getD (lastListed l) := by
  unfold lastListed
  cases h : e.listed with
  | none | some ids => simp [List.filterMap_append, h]

/-- **The condition**: no drain has failed otherwise than by running out of time. -/
def Calm (l : List Event) : Prop :=
  ∀ e ∈ l, ∀ g ∈ e.grace?, failedOtherwise g.error = false

instance : DecidablePred Calm := fun l =>
  inferInstanceAs (Decidable (∀ e ∈ l, ∀ g ∈ e.grace?, failedOtherwise g.error = false))

theorem Calm.before (h : Calm (l ++ [e])) : Calm l :=
  fun e he => h e (List.mem_append_left _ he)

/-- **The condition on a kill**: it is approved and, as long as the drains have been calm, no task
is listed. -/
def KillCond (d : Deps) (l : List Event) (e : Event) : Prop :=
  ∀ pid, e = .kill pid → Approved d l pid ∧ (Calm l → lastListed l = [])

abbrev Good (d : Deps) (l : List Event) : Prop := Each (KillCond d) l

def Quiet (d : Deps) (l : List Event) : Prop := Good d l ∧ (Calm l → lastListed l = [])

def Event.Neutral (e : Event) : Prop := e.listed = none ∧ (∀ pid, e ≠ .kill pid) ∧ e ≠ .attempt

theorem Good.concat (h : Good d l) (he : ∀ pid, e ≠ .kill pid) : Good d (l ++ [e]) :=
  each_concat.mpr ⟨h, fun pid hpid => absurd hpid (he pid)⟩

theorem Quiet.neutral (h : Quiet d l) (he : e.Neutral) : Quiet d (l ++ [e]) := by
  refine ⟨h.1.concat he.2.1, fun hcalm => ?_⟩
  rw [lastListed_concat, he.1]
  exact h.2 hcalm.before

theorem Quiet.kill {pid : ℤ} (h : Quiet d l) (happroved : Approved d l pid) :
    Quiet d (l ++ [.kill pid]) := by
  refine ⟨each_concat.mpr ⟨h.1, fun pid' hpid => ?_⟩, fun hcalm => ?_⟩
  · cases hpid
    exact ⟨happroved, h.2⟩
  · rw [lastListed_concat]
    exact h.2 hcalm.before

end Kills

/-! ## Properties that the calls keep -/

section Keeping

variable {d : Deps} {P : List Event → Prop}

def KeptByNeutral (P : List Event → Prop) : Prop := ∀ l e, P l → e.Neutral → P (l ++ [e])

def KeptByKill (d : Deps) (P : List Event → Prop) : Prop :=
  ∀ l pid, P l → Approved d l pid → P (l ++ [.kill pid])

section

variable (hP : KeptByNeutral P)

include hP

theorem keep_ask {α : Type} {answer : ℕ → α} {event : α → Event}
    (h : ∀ a, (event a).Neutral) : Triple P (ask answer event) fun _ => P :=
  triple_ask fun a l hl => hP l _ hl (h a)

theorem keep_sparePID (pid : ℤ) :
    Triple P (sparePID d pid) fun spared l => P l ∧ (spared = false → Approved d l pid) := by
  unfold sparePID
  apply Triple.ite
  · exact fun _ => triple_pure fun l hl => ⟨hl, fun h => nomatch h⟩
  · intro hpid
    have hpid : 1 < pid ∧ pid ≠ d.selfPID := by
      constructor
      · exact Int.not_le.mp fun h => hpid (.inl h)
      · exact fun h => hpid (.inr h)
    split
    next hp => exact triple_pure fun l hl => ⟨hl, fun _ => ⟨hpid.1, hpid.2, by simp [hp]⟩⟩
    next protect hp =>
      refine triple_ask fun spared l hl =>
        ⟨hP l _ hl ⟨rfl, fun _ => nofun, nofun⟩, fun hspared => ?_⟩
      subst hspared
      exact ⟨hpid.1, hpid.2, fun _ => by simp⟩

theorem keep_killPIDs (hkill : KeptByKill d P) (pids seen : List ℤ) :
    Triple P (killPIDs d pids seen) fun _ => P := by
  induction pids generalizing seen with
  | nil => exact triple_return
  | cons pid rest ih =>
    refine (keep_sparePID hP pid).bind fun spared => Triple.ite ?_ ?_
    · exact fun _ => (ih seen).pre fun _ hl => hl.1
    · intro hno
      have hspared : spared = false := by
        cases spared with
        | false => rfl
        | true => exact absurd (.inl rfl) hno
      exact (triple_emit fun l hl => hkill l pid hl.1 (hl.2 hspared)).bind fun _ => ih (pid :: seen)

theorem keep_killablePIDs (pids : List ℤ) : Triple P (killablePIDs d pids) fun _ => P := by
  induction pids with
  | nil => exact triple_return
  | cons pid rest ih =>
    refine (keep_sparePID hP pid).bind fun spared => ?_
    exact (ih.pre (fun _ hl => hl.1)).bind fun _ => triple_return

theorem keep_killableHolders : Triple P (killableHolders d) fun _ => P := by
  refine (keep_ask hP (by simp [Event.Neutral, Event.listed])).bind fun r => ?_
  cases r with
  | error e => exact triple_return
  | ok holders => exact (keep_killablePIDs hP holders).bind fun _ => triple_return

theorem keep_waitHoldersGone (polls : ℕ) : Triple P (waitHoldersGone d polls) fun _ => P := by
  induction polls with
  | zero => exact triple_return
  | succ polls ih =>
    refine (keep_killableHolders hP).bind fun r => ?_
    split
    · exact triple_return
    · exact ih

theorem keep_awaitHolders : Triple P (awaitHolders d) fun _ => P :=
  (keep_ask hP (by simp [Event.Neutral, Event.listed])).bind fun polls =>
    keep_waitHoldersGone hP polls

theorem keep_listedPIDs : Triple P (listedPIDs d) fun _ => P := by
  unfold listedPIDs
  split
  · exact triple_return
  · refine (keep_ask hP (by simp [Event.Neutral, Event.listed])).bind fun r => ?_
    cases r <;> exact triple_return

theorem keep_collectForcePIDs : Triple P (collectForcePIDs d) fun _ => P := by
  refine (keep_listedPIDs hP).bind fun listed => ?_
  refine (keep_ask hP (by simp [Event.Neutral, Event.listed])).bind fun r => ?_
  cases r <;> exact triple_return

theorem keep_forceLeftovers (hkill : KeptByKill d P) : Triple P (forceLeftovers d) fun _ => P :=
  (keep_collectForcePIDs hP).bind fun pids =>
    (keep_killPIDs hP hkill pids []).bind fun _ => keep_awaitHolders hP

theorem keep_forceVolumeHolders (hkill : KeptByKill d P) :
    Triple P (forceVolumeHolders d) fun _ => P := by
  refine (keep_ask hP (by simp [Event.Neutral, Event.listed])).bind fun r => ?_
  cases r with
  | error e => exact triple_return
  | ok holders => exact (keep_killPIDs hP hkill holders []).bind fun _ => keep_awaitHolders hP

theorem keep_volumeHoldersRemain : Triple P (volumeHoldersRemain d) fun _ => P := by
  refine (keep_killableHolders hP).bind fun r => ?_
  split <;> exact triple_return

theorem keep_pastDeadline (deadline : ℤ) : Triple P (pastDeadline d deadline) fun _ => P :=
  (keep_ask hP (by simp [Event.Neutral, Event.listed])).bind fun _ => triple_return

theorem keep_expired (deadline : ℤ) (attempted : Bool) :
    Triple P (expired d deadline attempted) fun _ => P :=
  Triple.ite (fun _ => keep_pastDeadline hP deadline) fun _ => triple_return

end

end Keeping

/-! ## Every kill is approved and comes when no task is listed -/

section Good

variable {d : Deps}

theorem good_neutral : KeptByNeutral (Good d) := fun _ _ hl he => hl.concat he.2.1

theorem quiet_neutral : KeptByNeutral (Quiet d) := fun _ _ hl he => hl.neutral he

theorem quiet_kill : KeptByKill d (Quiet d) := fun _ _ hl happroved => hl.kill happroved

theorem good_emit {e : Event} (he : ∀ pid, e ≠ .kill pid) :
    Triple (Good d) (emit e) fun _ => Good d :=
  triple_emit fun _ hl => hl.concat he

theorem good_labeledResidue :
    Triple (Good d) (labeledResidue d) fun r l =>
      Good d l ∧ ∀ tasks, r = .ok tasks → tasks.ids = [] → Quiet d l := by
  unfold labeledResidue
  split
  · exact triple_pure fun l hl => ⟨hl, fun _ h => nomatch h⟩
  · refine triple_ask fun r l hl => ⟨hl.concat nofun, fun tasks hr hempty => ?_⟩
    subst hr
    refine ⟨hl.concat nofun, fun _ => ?_⟩
    rw [lastListed_concat]
    exact hempty

theorem good_finalResidue (residue : Listing) :
    Triple (Good d) (finalResidue d residue) fun _ => Good d := by
  cases residue with
  | some ids => exact triple_return
  | none =>
    refine good_labeledResidue.bind fun r => ?_
    cases r <;> exact triple_pure fun _ hl => hl.1

variable (deadline : ℤ) (c : Carried)

theorem good_finishQuiesce : Triple (Good d) (finishQuiesce d c) fun _ => Good d := by
  refine (keep_volumeHoldersRemain good_neutral).bind fun held => Triple.ite ?_ ?_
  · exact fun _ => triple_return
  · intro _
    refine (good_finalResidue c.residue).bind fun residue => Triple.ite ?_ ?_
    · exact fun _ => triple_return
    · exact fun _ => Triple.ite (fun _ => triple_return)
        fun _ => triple_return

theorem good_forceAndVerify : Triple (Quiet d) (forceAndVerify d c) fun _ => Good d := by
  refine (keep_forceLeftovers quiet_neutral quiet_kill).bind fun _ => ?_
  refine (keep_volumeHoldersRemain quiet_neutral).bind fun held => Triple.ite ?_ ?_
  · exact fun _ => triple_pure fun _ hl => hl.1
  · intro _
    refine Triple.bind (R := fun _ => Good d) ?_ fun verdict => ?_
    · refine (keep_killableHolders quiet_neutral).bind fun r => ?_
      split
      · exact triple_pure fun _ hl => hl.1
      · exact triple_pure fun _ hl => hl.1
      · refine (good_labeledResidue.pre (fun _ hl => hl.1)).bind fun r => ?_
        cases r <;> exact triple_pure fun _ hl => hl.1
    · cases verdict with
      | held | clear => exact triple_return
      | failed =>
        refine good_labeledResidue.bind fun r => ?_
        cases r <;> exact triple_pure fun _ hl => hl.1

theorem good_releaseStep (stopSec : ℤ) :
    Triple (Good d) (releaseStep d stopSec) fun _ => Good d := by
  unfold releaseStep
  split
  · exact triple_return
  · apply Triple.ite
    · exact fun _ => triple_ask fun _ _ hl => hl.concat nofun
    · exact fun _ => triple_return

theorem good_releaseAndForce (graceErr : Option Str) :
    Triple (Good d) (releaseAndForce d graceErr) fun _ => Good d := by
  refine (triple_ask fun _ _ hl => hl.concat nofun).bind fun stopSec => ?_
  refine (good_releaseStep stopSec).bind fun releaseErr => ?_
  refine good_labeledResidue.bind fun r => ?_
  cases r with
  | error e => exact triple_pure fun _ hl => hl.1
  | ok tasks =>
    apply Triple.ite
    · exact fun h => (good_forceAndVerify _).pre fun _ hl => hl.2 tasks rfl h.2
    · exact fun _ => triple_pure fun _ hl => hl.1

theorem failedOtherwise_outOfTime (text : Str) :
    failedOtherwise (some ("timed out draining labeled workloads after ".toList ++ text)) =
      false := by
  have hin : "timed out draining labeled workloads".toList <:+:
      toLower ("timed out draining labeled workloads after ".toList ++ text) := by
    refine ⟨[], " after ".toList ++ toLower text, ?_⟩
    have hlower : toLower "timed out draining labeled workloads after ".toList =
        "timed out draining labeled workloads".toList ++ " after ".toList := by decide
    rw [toLower_append, hlower, List.nil_append, List.append_assoc]
  rw [failedOtherwise, isLabeledWorkloadDrainTimeout, occursIn, decide_eq_true hin]
  rfl

theorem good_drain : Triple (Good d) (drain d deadline) fun err l =>
      Good d l ∧ (failedOtherwise err → ¬ Calm l) := by
  refine (triple_ask fun _ _ hl => hl.concat nofun).bind fun stopSec => ?_
  refine (triple_ask fun _ _ hl => hl.concat nofun).bind fun now => Triple.ite ?_ ?_
  · refine fun _ => triple_pure fun l hl => ⟨hl, fun h => ?_⟩
    rw [failedOtherwise_outOfTime] at h
    cases h
  · intro _
    split
    · exact triple_pure fun l hl => ⟨hl, fun h => nomatch h⟩
    · refine Triple.bind (R := fun (g : Grace) l =>
        Good d l ∧ (failedOtherwise g.error → ¬ Calm l)) ?_ fun g => triple_pure fun _ hl => hl
      refine triple_ask fun g l hl => ⟨hl.concat nofun, fun hfailed hcalm => ?_⟩
      have hcalm := hcalm (.grace g) (by simp) g rfl
      rw [hfailed] at hcalm
      cases hcalm

theorem good_attempt : Triple (Good d) (attempt d deadline c) fun _ => Good d := by
  refine (good_emit (e := .attempt) nofun).bind fun _ => ?_
  refine (good_drain deadline).bind fun graceErr => Triple.ite ?_ ?_
  · intro hfailed
    have hquiet : ∀ l, Good d l ∧ (failedOtherwise graceErr → ¬ Calm l) → Quiet d l :=
      fun l hl => ⟨hl.1, fun hcalm => absurd hcalm (hl.2 hfailed.1)⟩
    refine ((keep_forceVolumeHolders quiet_neutral quiet_kill).pre hquiet).bind fun _ => ?_
    refine (keep_volumeHoldersRemain quiet_neutral).bind fun held => Triple.ite ?_ ?_
    · exact fun _ => triple_pure fun _ hl => hl.1
    · exact fun _ => triple_pure fun _ hl => hl.1
  · exact fun _ => (good_releaseAndForce graceErr).pre fun _ hl => hl.1

theorem good_quiesceLoop (fuel : ℕ) (attempted : Bool) (c : Carried) :
    Triple (Good d) (quiesceLoop d deadline fuel attempted c) fun _ => Good d := by
  induction fuel generalizing attempted c with
  | zero => exact triple_return
  | succ fuel ih =>
    refine (keep_expired good_neutral deadline attempted).bind fun past => Triple.ite ?_ ?_
    · exact fun _ => (good_finishQuiesce c).bind fun _ => triple_return
    · intro _
      refine (good_attempt deadline c).bind fun next => ?_
      cases next with
      | done s => exact triple_return
      | again c =>
        refine (keep_pastDeadline good_neutral deadline).bind fun past => Triple.ite ?_ ?_
        · exact fun _ => (good_finishQuiesce c).bind fun _ => triple_return
        · intro _
          refine (triple_ask fun _ _ hl => hl.concat nofun).bind fun _ => ?_
          exact (good_emit (e := .sleep) nofun).bind fun _ => ih true c

end Good

/-! ## What is known when the function reports that it is complete -/

section Complete

variable {d : Deps} {l : List Event}

def Event.Prelude (e : Event) : Prop :=
  e ≠ .attempt ∧ (∀ pid, e ≠ .kill pid) ∧ ∀ err, e ≠ .released (some err)

def Started (l : List Event) : Prop :=
  ∃ before since, l = before ++ .attempt :: since ∧ ∀ e ∈ since, e.Prelude

def Emptied (l : List Event) : Prop :=
  ∃ l₁ tasks since, Started l₁ ∧ l = l₁ ++ .tasks (.ok tasks) :: since ∧ tasks.ids = [] ∧
    ∀ e ∈ since, e ≠ .attempt

def SparedBy (d : Deps) (checks : List Event) (pid : ℤ) : Prop :=
  pid ≤ 1 ∨ pid = d.selfPID ∨ .protect pid true ∈ checks

def Checked (d : Deps) (l₀ : List Event) (pids : List ℤ) (l : List Event) : Prop :=
  ∃ checks, l = l₀ ++ checks ∧ (∀ e ∈ checks, ∃ pid answer, e = .protect pid answer) ∧
    ∀ pid ∈ pids, SparedBy d checks pid

def Unheld (d : Deps) (l : List Event) : Prop :=
  ∃ l₁ holders, Emptied l₁ ∧ Checked d (l₁ ++ [.holders (.ok holders)]) holders l

/-- **A complete run**: in its last attempt no release has failed, the tasks were listed before the
first kill and there were none, the volume holders listed last must all survive, and then the tasks
were listed once more and there were none. -/
def CompleteLog (d : Deps) (l : List Event) : Prop :=
  ∃ l₁ tasks, Unheld d l₁ ∧ tasks.ids = [] ∧ l = l₁ ++ [.tasks (.ok tasks)]

theorem Started.concat {e : Event} (h : Started l) (he : e.Prelude) : Started (l ++ [e]) := by
  obtain ⟨before, since, rfl, hsince⟩ := h
  refine ⟨before, since ++ [e], by simp, fun e' he' => ?_⟩
  rcases List.mem_append.mp he' with he' | he'
  · exact hsince e' he'
  · rw [List.mem_singleton.mp he']
    exact he

theorem Emptied.concat {e : Event} (h : Emptied l) (he : e ≠ .attempt) : Emptied (l ++ [e]) := by
  obtain ⟨l₁, tasks, since, hl₁, rfl, hempty, hsince⟩ := h
  refine ⟨l₁, tasks, since ++ [e], hl₁, by simp, hempty, fun e' he' => ?_⟩
  rcases List.mem_append.mp he' with he' | he'
  · exact hsince e' he'
  · rw [List.mem_singleton.mp he']
    exact he

theorem emptied_neutral : KeptByNeutral Emptied := fun _ _ hl he => hl.concat he.2.2

theorem emptied_kill : KeptByKill d Emptied := fun _ _ hl _ => hl.concat nofun

theorem Checked.subset {l₀ : List Event} {pids pids' : List ℤ} (h : Checked d l₀ pids l)
    (hsub : pids' ⊆ pids) : Checked d l₀ pids' l := by
  obtain ⟨checks, hl, hchecks, hspared⟩ := h
  exact ⟨checks, hl, hchecks, fun pid hpid => hspared pid (hsub hpid)⟩

variable (c : Carried) (l₀ : List Event) (deadline : ℤ)

theorem checked_sparePID (pids : List ℤ) (pid : ℤ) :
    Triple (Checked d l₀ pids) (sparePID d pid) fun spared l =>
      Checked d l₀ (if spared then pid :: pids else pids) l := by
  unfold sparePID
  apply Triple.ite
  · rintro hpid
    refine triple_pure fun l hl => ?_
    obtain ⟨checks, hl, hchecks, hspared⟩ := hl
    refine ⟨checks, hl, hchecks, fun p hp => ?_⟩
    rcases List.mem_cons.mp hp with rfl | hp
    · exact hpid.elim .inl fun h => .inr (.inl h)
    · exact hspared p hp
  · intro _
    split
    · exact triple_return
    · refine triple_ask fun spared l hl => ?_
      obtain ⟨checks, rfl, hchecks, hspared⟩ := hl
      have hold : ∀ p ∈ pids, SparedBy d (checks ++ [.protect pid spared]) p := fun p hp =>
        (hspared p hp).imp_right (Or.imp_right (List.mem_append_left _))
      refine ⟨checks ++ [.protect pid spared], by simp, fun e he => ?_, fun p hp => ?_⟩
      · rcases List.mem_append.mp he with he | he
        · exact hchecks e he
        · exact ⟨pid, spared, List.mem_singleton.mp he⟩
      · cases spared with
        | false => exact hold p hp
        | true =>
          rcases List.mem_cons.mp hp with rfl | hp
          · exact .inr (.inr (by simp))
          · exact hold p hp

theorem checked_killablePIDs (holders pids : List ℤ) :
    Triple (Checked d l₀ pids) (killablePIDs d holders) fun out l =>
      ∃ spared, Checked d l₀ spared l ∧ (out = [] → holders ⊆ spared) ∧ pids ⊆ spared := by
  induction holders generalizing pids with
  | nil => exact triple_pure fun l hl => ⟨pids, hl, fun _ => List.nil_subset _, List.Subset.refl _⟩
  | cons pid rest ih =>
    refine (checked_sparePID l₀ pids pid).bind fun spared => (ih _).bind fun out => ?_
    refine triple_pure fun l hl => ?_
    obtain ⟨all, hall, hrest, hpids⟩ := hl
    cases spared with
    | false => exact ⟨all, hall, nofun, hpids⟩
    | true =>
      rw [if_pos rfl] at hpids
      refine ⟨all, hall, fun hout => ?_, fun p hp => hpids (List.mem_cons_of_mem _ hp)⟩
      exact List.cons_subset.mpr ⟨hpids List.mem_cons_self, hrest hout⟩

theorem unheld_killableHolders :
    Triple Emptied (killableHolders d) fun r l => r = .ok [] → Unheld d l := by
  refine Triple.bind (R := fun r l => ∀ holders, r = .ok holders →
    ∃ l₁, Emptied l₁ ∧ l = l₁ ++ [.holders (.ok holders)]) ?_ fun r => ?_
  · refine triple_ask fun r l hl holders hr => ⟨l, hl, ?_⟩
    rw [hr]
  · cases r with
    | error e => exact triple_pure fun _ _ h => nomatch h
    | ok holders =>
      intro l hl
      obtain ⟨l₁, hl₁, rfl⟩ := hl holders rfl
      have hstart :
          Checked d (l₁ ++ [.holders (.ok holders)]) [] (l₁ ++ [.holders (.ok holders)]) :=
        ⟨[], by simp, by simp, by simp⟩
      obtain ⟨spared, hchecked, hsub, -⟩ := checked_killablePIDs _ holders [] _ hstart
      intro hout
      exact ⟨l₁, holders, hl₁, hchecked.subset (hsub (Except.ok.inj hout))⟩

theorem empty_labeledResidue {P : List Event → Prop} :
    Triple P (labeledResidue d) fun r l => ∀ tasks, r = .ok tasks →
      ∃ l₁, P l₁ ∧ l = l₁ ++ [.tasks (.ok tasks)] := by
  unfold labeledResidue
  split
  · exact triple_pure fun _ _ _ h => nomatch h
  · refine triple_ask fun r l hl tasks hr => ⟨l, hl, ?_⟩
    rw [hr]

theorem complete_verifyDataPlaneClear :
    Triple Emptied (verifyDataPlaneClear d) fun verdict l =>
      verdict = .clear → CompleteLog d l := by
  refine unheld_killableHolders.bind fun r => ?_
  split
  · exact triple_pure fun _ _ h => nomatch h
  · exact triple_pure fun _ _ h => nomatch h
  · refine (empty_labeledResidue.pre (fun _ hl => hl rfl)).bind fun r => ?_
    cases r with
    | error e => exact triple_pure fun _ _ h => nomatch h
    | ok tasks =>
      refine triple_pure fun l hl hclear => ?_
      obtain ⟨l₁, hl₁, rfl⟩ := hl tasks rfl
      split at hclear
      next hempty => exact ⟨l₁, tasks, hl₁, hempty, rfl⟩
      next => cases hclear

theorem complete_forceAndVerify : Triple Emptied (forceAndVerify d c) fun next l =>
      next = .done .complete → CompleteLog d l := by
  refine (keep_forceLeftovers emptied_neutral emptied_kill).bind fun _ => ?_
  refine (keep_volumeHoldersRemain emptied_neutral).bind fun held => Triple.ite ?_ ?_
  · exact fun _ => triple_pure fun _ _ h => nomatch h
  · intro _
    refine complete_verifyDataPlaneClear.bind fun verdict => ?_
    cases verdict with
    | held => exact triple_pure fun _ _ h => nomatch h
    | clear => exact triple_pure fun _ hl _ => hl rfl
    | failed =>
      refine triple_trivial.bind fun r => ?_
      cases r <;> exact triple_pure fun _ _ h => nomatch h

theorem started_ask {α : Type} {answer : ℕ → α} {event : α → Event}
    (h : ∀ a, (event a).Prelude) : Triple Started (ask answer event) fun _ => Started :=
  triple_ask fun a _ hl => hl.concat (h a)

theorem started_releaseStep (stopSec : ℤ) :
    Triple Started (releaseStep d stopSec) fun err l => err = none → Started l := by
  unfold releaseStep
  split
  · exact triple_pure fun _ hl _ => hl
  · apply Triple.ite
    · intro _
      refine triple_ask fun err l hl herr => hl.concat ?_
      subst herr
      simp [Event.Prelude]
    · exact fun _ => triple_pure fun _ hl _ => hl

theorem complete_releaseAndForce (graceErr : Option Str) :
    Triple Started (releaseAndForce d graceErr) fun next l =>
      next = .done .complete → CompleteLog d l := by
  refine (started_ask (by simp [Event.Prelude])).bind fun stopSec => ?_
  refine (started_releaseStep stopSec).bind fun releaseErr => ?_
  refine empty_labeledResidue.bind fun r => ?_
  cases r with
  | error e => exact triple_pure fun _ _ h => nomatch h
  | ok tasks =>
    apply Triple.ite
    · intro h
      refine (complete_forceAndVerify _).pre fun l hl => ?_
      obtain ⟨l₁, hl₁, rfl⟩ := hl tasks rfl
      exact ⟨l₁, tasks, [], hl₁ h.1, rfl, h.2, by simp⟩
    · exact fun _ => triple_pure fun _ _ h => nomatch h

theorem started_drain : Triple Started (drain d deadline) fun _ => Started := by
  refine (started_ask (by simp [Event.Prelude])).bind fun stopSec => ?_
  refine (started_ask (by simp [Event.Prelude])).bind fun now => Triple.ite ?_ ?_
  · exact fun _ => triple_return
  · intro _
    split
    · exact triple_return
    · exact (started_ask (by simp [Event.Prelude])).bind fun _ => triple_return

theorem complete_attempt (c : Carried) : Triple (fun _ => True) (attempt d deadline c) fun next l =>
      next = .done .complete → CompleteLog d l := by
  have hstart : Triple (fun _ => True) (emit .attempt) fun _ => Started :=
    triple_emit fun l _ => ⟨l, [], rfl, by simp⟩
  refine hstart.bind fun _ => (started_drain deadline).bind fun graceErr => Triple.ite ?_ ?_
  · intro _
    refine triple_trivial.bind fun _ => triple_trivial.bind fun held => Triple.ite ?_ ?_
    · exact fun _ => triple_pure fun _ _ h => nomatch h
    · exact fun _ => triple_pure fun _ _ h => nomatch h
  · exact fun _ => complete_releaseAndForce graceErr

theorem incomplete_finishQuiesce :
    Triple (fun _ => True) (finishQuiesce d c) fun status _ => status ≠ .complete := by
  refine triple_trivial.bind fun held => Triple.ite ?_ ?_
  · exact fun _ => triple_pure fun _ _ => nofun
  · intro _
    refine triple_trivial.bind fun residue => Triple.ite ?_ ?_
    · exact fun _ => triple_pure fun _ _ => nofun
    · exact fun _ => Triple.ite (fun _ => triple_pure fun _ _ => nofun)
        fun _ => triple_pure fun _ _ => nofun

theorem complete_quiesceLoop (fuel : ℕ) (attempted : Bool) (c : Carried) :
    Triple (fun _ => True) (quiesceLoop d deadline fuel attempted c) fun status l =>
      status = some .complete → CompleteLog d l := by
  have hfinish : ∀ c, Triple (fun _ => True) (some <$> finishQuiesce d c) fun status l =>
      status = some .complete → CompleteLog d l := fun c =>
    (incomplete_finishQuiesce c).bind fun _ => triple_pure fun _ hne h =>
      absurd (Option.some.inj h) hne
  induction fuel generalizing attempted c with
  | zero => exact triple_pure fun _ _ h => nomatch h
  | succ fuel ih =>
    refine triple_trivial.bind fun past => Triple.ite (fun _ => hfinish c) ?_
    intro _
    refine (complete_attempt deadline c).bind fun next => ?_
    cases next with
    | done s => exact triple_pure fun _ hl h => hl (congrArg Next.done (Option.some.inj h))
    | again c =>
      refine triple_trivial.bind fun past => Triple.ite (fun _ => hfinish c) ?_
      exact fun _ => triple_trivial.bind fun _ => triple_trivial.bind fun _ => ih true c

end Complete

/-! ## The result -/

/-- **Quiescing is sound**, whatever the dependencies answer: when the function reports that it is
complete, its log is that of a complete run; every process that it kills may be killed; and when it
kills one, no task is listed, unless a drain has failed before otherwise than by running out of
time. -/
theorem quiesce_sound (d : Deps) (timeout : ℤ) (fuel : ℕ) :
    ((quiesceLabeledWorkloads d timeout fuel []).1 = some .complete →
      CompleteLog d (quiesceLabeledWorkloads d timeout fuel []).2) ∧
    ∀ before pid after,
      (quiesceLabeledWorkloads d timeout fuel []).2 = before ++ .kill pid :: after →
        Approved d before pid ∧ (Calm before → lastListed before = []) := by
  have hcomplete : Triple (fun _ => True) (quiesceLabeledWorkloads d timeout fuel)
      fun status l => status = some .complete → CompleteLog d l :=
    triple_trivial.bind fun started => complete_quiesceLoop _ fuel false _
  have hgood : Triple (Good d) (quiesceLabeledWorkloads d timeout fuel) fun _ => Good d :=
    (triple_ask fun _ _ hl => hl.concat nofun).bind fun started =>
      good_quiesceLoop _ fuel false _
  refine ⟨hcomplete [] trivial, fun before pid after hlog => ?_⟩
  exact hgood [] each_nil before (.kill pid) after hlog pid rfl

def oneHolder (grace : Grace) (heldUntil : ℕ) : Deps where
  selfPID := 5
  grace := some fun _ => grace
  release := some fun _ => none
  listTasks := some fun _ => .ok none
  listPIDs := none
  volumeHolders t := if t < heldUntil then .ok [77] else .ok []
  protectPID := some fun _ _ => false
  now t := t
  stopSec _ := 30
  polls _ := 1
  timeoutText := "10s".toList

/-- The workload exits, and the process that still holds its volume is killed. -/
theorem quiesce_sound_oneHolder :
    let d := oneHolder ⟨[["c1".toList], []], none⟩ 9
    let run := quiesceLabeledWorkloads d 1000 1 []
    run.1 = some .complete ∧ CompleteLog d run.2 ∧
      ∃ before after, run.2 = before ++ .kill 77 :: after ∧ lastListed before = [] := by
  intro d run
  have hsound := quiesce_sound d 1000 1
  have hcomplete : run.1 = some .complete := by decide +kernel
  have hkill : run.2 = run.2.take 10 ++ .kill 77 :: run.2.drop 11 := by decide +kernel
  have hcalm : Calm (run.2.take 10) := by decide +kernel
  refine ⟨hcomplete, hsound.1 hcomplete, run.2.take 10, run.2.drop 11, hkill, ?_⟩
  exact (hsound.2 _ 77 _ hkill).2 hcalm

/-- **A failed drain kills**: the drain lists the task `c1`, then the runtime fails to list, and the
process that holds a volume is killed while `c1` is the last task that was listed. -/
theorem failed_drain_kills :
    let d := oneHolder ⟨[["c1".toList]],
      some "list labeled workloads during data-plane drain: cri unavailable".toList⟩ 6
    ∃ before after, (quiesceLabeledWorkloads d 1000 1 []).2 = before ++ .kill 77 :: after ∧
      lastListed before = ["c1".toList] := by
  intro d
  exact ⟨(quiesceLabeledWorkloads d 1000 1 []).2.take 7,
    (quiesceLabeledWorkloads d 1000 1 []).2.drop 8, by decide +kernel, by decide +kernel⟩

end Edgelet.ProcessManager.Quiesce
