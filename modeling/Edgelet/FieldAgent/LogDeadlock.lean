import Edgelet.FieldAgent.LogLocks
import Mathlib.Logic.Relation

/-!
# Deadlocks of the log sessions

The manager calls `Disconnect` while it holds its mutex, and waits for the workers. The read worker
takes that mutex for a `LOG_START`. If the message comes while the session is being stopped, the two
wait for each other, and that is the only way to a deadlock.
-/

namespace Edgelet.FieldAgent.LogLocks

open Lexical Keyed Machine WebSocket
open LogSessions (LogSession Manager Answers)

/-! ## Deadlocks -/

section

variable (g : Goroutine) (id : Str) (s : State)

def Goroutine.wantsManager : Bool :=
  match g.op, g.cmds with
  | some (_, .close _ .notify), _ => true
  | some (_, .read .starting), _ => true
  | none, .lock :: _ => true
  | _, _ => false

def Goroutine.WantsLifecycle : Prop :=
  (∃ cause, g.op = some (id, .reset cause .lock)) ∨
    (∃ cause, g.op = some (id, .reset cause .disconnect)) ∨ g.op = some (id, .connect .lock)

def Goroutine.HoldsLifecycle : Prop :=
  ∃ pc, g.op = some (id, pc) ∧ pc.holds = true

def Goroutine.WantsWorkers : Prop :=
  ∃ cause, g.op = some (id, .reset cause .wait)

def Goroutine.WorksFor : Prop :=
  ∃ pc, g.op = some (id, pc) ∧ pc.isWorker = true

/-- One goroutine waits for another: for a mutex that the other holds, or for a worker to return. -/
def WaitsFor (i j : ℕ) : Prop :=
  ∃ g ∈ s.goroutines[i]?, ∃ g' ∈ s.goroutines[j]?,
    (g.wantsManager = true ∧ g'.holdsManager = true) ∨
    (∃ id, g.WantsLifecycle id ∧ g'.HoldsLifecycle id) ∨
    (∃ id, g.WantsWorkers id ∧ g'.WorksFor id)

/-- **The state is deadlocked**: the mutex of the manager is held by a goroutine that waits,
directly or through others, for one that waits for the mutex. -/
def Deadlocked : Prop :=
  ∃ i j, (∃ g ∈ s.goroutines[i]?, g.holdsManager = true) ∧ Relation.TransGen (WaitsFor s) i j ∧
    ∃ g ∈ s.goroutines[j]?, g.wantsManager = true

def starting : Pc → Bool
  | .read .storeState | .read .storeActive | .read .starting => true
  | _ => false

def takesUp (h : Handler) : Pc → Bool
  | .read .expectPending => h.state = .pending
  | .read .expectConnected => h.state = .connected
  | _ => false

def Goroutine.Starting : Prop :=
  ∃ pc, g.op = some (id, pc) ∧ starting pc = true

def entering : Pc → Bool
  | .reset _ .disconnect | .reset _ .graceful | .reset _ .lock | .reset _ .cancel
  | .reset _ .closeConn | .reset _ .wait | .connect .lock => true
  | _ => false

def Goroutine.Entering : Prop :=
  g.holdsManager = true ∧ ∃ pc, g.op = some (id, pc) ∧ entering pc = true

def Cmd.enters (m : Manager) : Cmd → Option Str
  | .stop id => if m.webSocketHandlers.contains id then some id else none
  | .start session => some session.sessionID
  | .resetIfConnected id | .resetUnlessDisconnected id | .connect id => some id
  | _ => none

structure Goroutine.Apart (s : State) (g : Goroutine) : Prop where
  starts : ∀ id pc, g.op = some (id, pc) → takesUp (s.handlers id) pc = true →
    ∀ g' ∈ s.goroutines, ¬ g'.Entering id
  enters : g.op = none → g.holdsManager = true → ∀ cmd ∈ g.cmds.head?,
    ∀ id ∈ cmd.enters s.manager, ∀ g' ∈ s.goroutines, ¬ g'.Starting id

instance (g : Goroutine) (id : Str) : Decidable (g.Entering id) :=
  decidable_of_iff (g.holdsManager = true ∧ ∃ x ∈ g.op, x.1 = id ∧ entering x.2 = true) <| by
    refine and_congr_right fun _ => ⟨?_, ?_⟩
    · rintro ⟨⟨_, pc⟩, hop, rfl, hpc⟩
      exact ⟨pc, hop, hpc⟩
    · rintro ⟨pc, hop, hpc⟩
      exact ⟨(id, pc), hop, rfl, hpc⟩

instance (g : Goroutine) (id : Str) : Decidable (g.Starting id) :=
  decidable_of_iff (∃ x ∈ g.op, x.1 = id ∧ starting x.2 = true) <| by
    constructor
    · rintro ⟨⟨_, pc⟩, hop, rfl, hpc⟩
      exact ⟨pc, hop, hpc⟩
    · rintro ⟨pc, hop, hpc⟩
      exact ⟨(id, pc), hop, rfl, hpc⟩

instance (s : State) (g : Goroutine) : Decidable (g.Apart s) :=
  decidable_of_iff
    ((∀ x ∈ g.op, takesUp (s.handlers x.1) x.2 = true → ∀ g' ∈ s.goroutines, ¬ g'.Entering x.1) ∧
      (g.op = none → g.holdsManager = true → ∀ cmd ∈ g.cmds.head?,
        ∀ id ∈ cmd.enters s.manager, ∀ g' ∈ s.goroutines, ¬ g'.Starting id)) <| by
    constructor
    · rintro ⟨hstarts, henters⟩
      exact ⟨fun id pc hop => hstarts (id, pc) hop, henters⟩
    · rintro ⟨hstarts, henters⟩
      exact ⟨fun x hop => hstarts x.1 x.2 hop, henters⟩

/-- **The manager and the read workers are kept apart**: a read worker takes up a `LOG_START` only
while no goroutine that holds the mutex of the manager is tearing its session down or about to
connect it, and the manager begins to do so only while the read worker of the session is not at a
`LOG_START`. -/
def Apart : Action → Prop
  | .run n _ => ∀ g ∈ s.goroutines[n]?, g.Apart s
  | _ => True

end

instance (s : State) : DecidablePred (Apart s)
  | .run n _ => inferInstanceAs (Decidable (∀ g ∈ s.goroutines[n]?, g.Apart s))
  | .call _ | .callback _ _ => isTrue trivial

/-! ## One step -/

def ofHandler : Pc → Bool
  | .close _ _ | .read _ | .ping _ => true
  | _ => false

section Statements

variable {h : Handler} {quiet : Bool} {pc pc' : Pc} {c : Choice} {o : Out}

section

variable (hstep : pc.step .log h quiet c = some o) (hnext : o.next = some pc')

include hstep hnext

theorem outside_of_next (hpc : ofHandler pc = false) :
    ofHandler pc' = false ∧ (entering pc' = true → entering pc = true) := by
  cases pc with
  | reset cause p =>
    cases c with
    | go =>
      simp only [Pc.step] at hstep
      unfold ResetPc.step at hstep
      split at hstep <;> (try split at hstep) <;> cases hstep <;> cases hnext <;>
        first | exact ⟨rfl, fun _ => rfl⟩ | exact ⟨rfl, nofun⟩
    | _ => cases hstep
  | connect p =>
    simp only [Pc.step] at hstep
    unfold ConnectPc.step at hstep
    split at hstep <;> (try split at hstep) <;> cases hstep <;> cases hnext <;>
      first | exact ⟨rfl, fun _ => rfl⟩ | exact ⟨rfl, nofun⟩
  | _ => cases hpc

theorem ofHandler_of_next (hpc' : ofHandler pc' = true) : ofHandler pc = true := by
  by_contra hpc
  rw [(outside_of_next hstep hnext (Bool.eq_false_iff.mpr hpc)).1] at hpc'
  cases hpc'

theorem entering_of_next
    (hpc' : entering pc' = true) : entering pc = true ∨ ofHandler pc = true := by
  cases hpc : ofHandler pc with
  | true => exact .inr rfl
  | false => exact .inl ((outside_of_next hstep hnext hpc).2 hpc')

theorem starting_of_next
    (hpc' : starting pc' = true) : starting pc = true ∨ takesUp h pc = true := by
  cases pc with
  | close k p =>
    cases c with
    | go =>
      cases hstep
      cases p <;> simp only [ClosePc.step] at hnext <;> (try split at hnext) <;> cases hnext <;>
        cases hpc'
    | _ => cases hstep
  | reset cause p | connect p =>
    have hpc := ofHandler_of_next hstep hnext (by cases pc' <;> first | rfl | cases hpc')
    cases hpc
  | ping p =>
    simp only [Pc.step] at hstep
    unfold PingPc.step at hstep
    split at hstep <;> (try split at hstep) <;> cases hstep <;> cases hnext <;> cases hpc'
  | read p =>
    cases p with
    | loop =>
      cases c with
      | go =>
        cases hstep
        simp only [Option.ite_none_left_eq_some, Option.map_eq_some_iff] at hnext
        obtain ⟨-, j, -, rfl⟩ := hnext
        cases hpc'
      | _ => cases hstep
    | expectPending | expectConnected =>
      refine .inr (decide_eq_true ?_)
      by_contra hstate
      cases c with
      | go =>
        cases hstep
        simp only [if_neg hstate] at hnext
        cases hnext
        cases hpc'
      | _ => cases hstep
    | reading j =>
      cases c with
      | message m => cases m <;> cases hstep <;> cases hnext <;> cases hpc'
      | fail =>
        cases hstep
        cases hnext
      | _ => cases hstep
    | checkActive =>
      cases c with
      | go =>
        cases hstep
        cases hnext
        split at hpc' <;> cases hpc'
      | _ => cases hstep
    | storeState | storeActive | starting => exact .inl rfl

end

end Statements

/-! ## Deadlocks need a message -/

/-- **The invariant** of the runs that are kept apart. -/
structure Inv (s : State) : Prop where
  plain : ∀ g ∈ s.goroutines, ∀ id pc, g.op = some (id, pc) → ofHandler pc = true → g.cmds = []
  apart : ∀ g ∈ s.goroutines, ∀ g' ∈ s.goroutines, ∀ id, g.Entering id → ¬ g'.Starting id

section Deadlocks

variable {s s' : State} {g g' : Goroutine} {id : Str}

theorem Goroutine.wantsManager_cases (h : g.wantsManager = true) :
    (∃ id k, g.op = some (id, .close k .notify)) ∨ (∃ id, g.op = some (id, .read .starting)) ∨
      (g.op = none ∧ ∃ rest, g.cmds = .lock :: rest) := by
  unfold Goroutine.wantsManager at h
  split at h
  next hop => exact .inl ⟨_, _, hop⟩
  next hop => exact .inr (.inl ⟨_, hop⟩)
  next rest hop hcmds => exact .inr (.inr ⟨hop, rest, hcmds⟩)
  next => cases h

theorem Inv.not_holds_of_wants (hinv : Inv s) (hg : g ∈ s.goroutines)
    (h : g.wantsManager = true) : g.holdsManager = false := by
  rcases g.wantsManager_cases h with ⟨id, k, hop⟩ | ⟨id, hop⟩ | ⟨-, rest, hcmds⟩
  · rw [Goroutine.holdsManager, hinv.plain g hg _ _ hop rfl]
    rfl
  · rw [Goroutine.holdsManager, hinv.plain g hg _ _ hop rfl]
    rfl
  · rw [Goroutine.holdsManager, hcmds]
    rfl

theorem Inv.entering_of_waits (hinv : Inv s) {i j : ℕ} (hg : g ∈ s.goroutines[i]?)
    (hholds : g.holdsManager = true) (hwaits : WaitsFor s i j) :
    ∃ id, g.Entering id ∧ ∃ g' ∈ s.goroutines[j]?, g'.HoldsLifecycle id ∨ g'.WorksFor id := by
  obtain ⟨g₁, hg₁, g', hg', h⟩ := hwaits
  obtain rfl : g = g₁ := Option.some.inj (hg.symm.trans hg₁)
  rcases h with ⟨hwants, -⟩ | ⟨id, hwants, hlife⟩ | ⟨id, ⟨cause, hop⟩, hworks⟩
  · rw [hinv.not_holds_of_wants (List.mem_of_getElem? hg) hwants] at hholds
    cases hholds
  · refine ⟨id, ⟨hholds, ?_⟩, g', hg', .inl hlife⟩
    rcases hwants with ⟨cause, hop⟩ | ⟨cause, hop⟩ | hop <;> exact ⟨_, hop, rfl⟩
  · exact ⟨id, ⟨hholds, _, hop, rfl⟩, g', hg', .inr hworks⟩

theorem starting_of_worksFor (hworks : g.WorksFor id) :
    (g.wantsManager = true → g.Starting id) ∧ (∀ id', ¬ g.WantsLifecycle id') ∧
      ∀ id', ¬ g.WantsWorkers id' := by
  obtain ⟨pc, hop, hpc⟩ := hworks
  refine ⟨fun hwants => ?_, ?_, ?_⟩
  · rcases g.wantsManager_cases hwants with ⟨id', k, hop'⟩ | ⟨id', hop'⟩ | ⟨hop', -⟩
    · rw [hop] at hop'
      cases hop'
      cases hpc
    · rw [hop] at hop'
      cases hop'
      exact ⟨_, hop, rfl⟩
    · rw [hop] at hop'
      cases hop'
  · rintro id' (⟨cause, hop'⟩ | ⟨cause, hop'⟩ | hop') <;>
      (rw [hop] at hop'; cases hop'; cases hpc)
  · rintro id' ⟨cause, hop'⟩
    rw [hop] at hop'
    cases hop'
    cases hpc

theorem worksFor_of_holdsLifecycle (hholds : g.HoldsLifecycle id) :
    g.wantsManager = false ∧ (∀ id', ¬ g.WantsLifecycle id') ∧
      ∀ id', g.WantsWorkers id' → id' = id := by
  obtain ⟨pc, hop, hpc⟩ := hholds
  refine ⟨?_, ?_, ?_⟩
  · by_contra hwants
    rcases g.wantsManager_cases (by simpa using hwants) with
      ⟨id', k, hop'⟩ | ⟨id', hop'⟩ | ⟨hop', -⟩
    · rw [hop] at hop'
      cases hop'
      cases hpc
    · rw [hop] at hop'
      cases hop'
      cases hpc
    · rw [hop] at hop'
      cases hop'
  · rintro id' (⟨cause, hop'⟩ | ⟨cause, hop'⟩ | hop') <;>
      (rw [hop] at hop'; cases hop'; cases hpc)
  · rintro id' ⟨cause, hop'⟩
    rw [hop] at hop'
    cases hop'
    rfl

def Involved (s : State) (id : Str) (i : ℕ) : Prop :=
  ∃ g ∈ s.goroutines[i]?, g.HoldsLifecycle id ∨ g.WorksFor id

theorem Involved.step {i j : ℕ} (hi : Involved s id i)
    (hno : ∀ g ∈ s.goroutines, ¬ g.Starting id) (hwaits : WaitsFor s i j) : Involved s id j := by
  obtain ⟨g, hg, hinvolved⟩ := hi
  obtain ⟨g₁, hg₁, g', hg', h⟩ := hwaits
  obtain rfl : g = g₁ := Option.some.inj (hg.symm.trans hg₁)
  rcases hinvolved with hholds | hworks
  · obtain ⟨hwants, hlife, hworkers⟩ := worksFor_of_holdsLifecycle hholds
    rcases h with ⟨h, -⟩ | ⟨id', h, -⟩ | ⟨id', h, hworks⟩
    · rw [hwants] at h
      cases h
    · exact absurd h (hlife id')
    · obtain rfl := hworkers id' h
      exact ⟨g', hg', .inr hworks⟩
  · obtain ⟨hwants, hlife, hworkers⟩ := starting_of_worksFor hworks
    rcases h with ⟨h, -⟩ | ⟨id', h, -⟩ | ⟨id', h, -⟩
    · exact absurd (hwants h) (hno g (List.mem_of_getElem? hg))
    · exact absurd h (hlife id')
    · exact absurd h (hworkers id')

theorem Inv.not_deadlocked (hinv : Inv s) : ¬ Deadlocked s := by
  rintro ⟨i, j, ⟨g, hg, hholds⟩, hchain, g', hg', hwants⟩
  obtain ⟨k, hfirst, hrest⟩ := Relation.TransGen.head'_iff.mp hchain
  obtain ⟨id, hentering, hinvolved⟩ := hinv.entering_of_waits hg hholds hfirst
  have hno : ∀ g' ∈ s.goroutines, ¬ g'.Starting id := fun g' hg' =>
    hinv.apart g (List.mem_of_getElem? hg) g' hg' id hentering
  have hlast : Involved s id j := by
    clear hg' hwants hfirst hchain
    induction hrest with
    | refl => exact hinvolved
    | tail _ hstep ih => exact ih.step hno hstep
  obtain ⟨g₁, hg₁, hholds | hworks⟩ := hlast
  · obtain rfl : g' = g₁ := Option.some.inj (hg'.symm.trans hg₁)
    rw [(worksFor_of_holdsLifecycle hholds).1] at hwants
    cases hwants
  · obtain rfl : g' = g₁ := Option.some.inj (hg'.symm.trans hg₁)
    exact hno g' (List.mem_of_getElem? hg') ((starting_of_worksFor hworks).1 hwants)

end Deadlocks

/-! ## Runs -/

section Runs

variable {s s' : State} {env : Env} {g g' : Goroutine} {id : Str}

variable {quiet : Bool}

theorem worker_of_spawn {kind : Kind} {h : Handler} {pc q : Pc} {c : Choice}
    {o : Out} (hstep : pc.step kind h quiet c = some o) (hq : .worker q ∈ o.spawn) :
    q = .ping .loop ∨ q = .read .loop := by
  cases pc with
  | close k p =>
    cases c with
    | go =>
      cases hstep
      cases p <;> cases hq
    | _ => cases hstep
  | reset cause p =>
    cases c with
    | go =>
      simp only [Pc.step] at hstep
      unfold ResetPc.step at hstep
      split at hstep <;> (try split at hstep) <;> cases hstep <;> cases hq
    | _ => cases hstep
  | connect p =>
    simp only [Pc.step] at hstep
    unfold ConnectPc.step at hstep
    split at hstep <;> (try split at hstep) <;> cases hstep <;>
      first | (cases hq; done) | simpa using hq
  | read p =>
    simp only [Pc.step] at hstep
    unfold ReadPc.step at hstep
    split at hstep <;> cases hstep <;> simp at hq
  | ping p =>
    simp only [Pc.step] at hstep
    unfold PingPc.step at hstep
    split at hstep <;> (try split at hstep) <;> cases hstep <;> simp at hq

structure Fresh (g : Goroutine) : Prop where
  plain : ∀ id pc, g.op = some (id, pc) → ofHandler pc = true → g.cmds = []
  entering : ∀ id, ¬ g.Entering id
  starting : ∀ id, ¬ g.Starting id

theorem fresh_of_handler {pc : Pc} (hpc : starting pc = false) :
    Fresh ⟨some (id, pc), [], false⟩ := by
  refine ⟨fun _ _ _ _ => rfl, ?_, ?_⟩
  · rintro id' ⟨h, -⟩
    cases h
  · rintro id' ⟨pc', h, hpc'⟩
    cases h
    rw [hpc] at hpc'
    cases hpc'

theorem fresh_of_call {cmds : List Cmd} : Fresh ⟨none, cmds, false⟩ := by
  refine ⟨nofun, ?_, ?_⟩
  · rintro id' ⟨-, pc', h, -⟩
    cases h
  · rintro id' ⟨pc', h, -⟩
    cases h

theorem fresh_spawned {pc : Pc} {h : Handler} {c : Choice} {o : Out}
    (hstep : pc.step .log h quiet c = some o) {x : Spawn} (hx : x ∈ o.spawn) :
    Fresh (spawned id x) := by
  cases x with
  | stopSession => exact fresh_of_call
  | close j => exact fresh_of_handler rfl
  | worker q =>
    rcases worker_of_spawn hstep hx with rfl | rfl
    · exact fresh_of_handler rfl
    · exact fresh_of_handler rfl

theorem stopLogStreamingLocked_webSocketHandlers (m : Manager) (id : Str) :
    (m.stopLogStreamingLocked id).webSocketHandlers = m.webSocketHandlers := by
  have htail : ∀ (m : Manager) n f, (m.modifyTail id n f).webSocketHandlers =
      m.webSocketHandlers := by
    intro m n f
    cases n <;> rfl
  simp only [Manager.stopLogStreamingLocked, Manager.modifyInfo, htail]

theorem Cmd.step_spec {cmd : Cmd} {rest : List Cmd} {err : Bool} {p : Manager × Goroutine}
    (hstep : cmd.step s env err rest = some p) :
    p.2.op = none ∨ ∃ id pc, p.2.op = some (id, pc) ∧ ofHandler pc = false ∧
      id ∈ cmd.enters s.manager ∧ inside p.2.cmds = inside (cmd :: rest) := by
  cases cmd with
  | lock | handle fetched | expire =>
    simp only [Cmd.step] at hstep
    split at hstep <;> cases hstep
    exact .inl rfl
  | unlock | activate session | forget id => cases hstep; exact .inl rfl
  | scan fetched =>
    cases fetched with
    | nil => cases hstep; exact .inl rfl
    | cons session fetched =>
      simp only [Cmd.step] at hstep
      split at hstep
      · split at hstep <;> cases hstep <;> exact .inl rfl
      · cases hstep
        exact .inl rfl
  | reconnect id | started session =>
    simp only [Cmd.step] at hstep
    split at hstep <;> cases hstep <;> exact .inl rfl
  | resetIfConnected id =>
    simp only [Cmd.step] at hstep
    split at hstep <;> cases hstep
    · exact .inr ⟨id, _, rfl, rfl, rfl, rfl⟩
    · exact .inl rfl
  | resetUnlessDisconnected id =>
    simp only [Cmd.step] at hstep
    split at hstep <;> cases hstep
    · exact .inl rfl
    · exact .inr ⟨id, _, rfl, rfl, rfl, rfl⟩
  | connect id =>
    cases hstep
    exact .inr ⟨id, _, rfl, rfl, rfl, rfl⟩
  | start session =>
    simp only [Cmd.step] at hstep
    split at hstep <;> cases hstep
    · exact .inl rfl
    · exact .inr ⟨_, _, rfl, rfl, rfl, rfl⟩
  | stop id =>
    cases hstep
    by_cases hmem : s.manager.webSocketHandlers.contains id = true
    · refine .inr ⟨id, .reset none .disconnect, ?_, rfl, if_pos hmem, rfl⟩
      simp only [stopLogStreamingLocked_webSocketHandlers, if_pos hmem]
    · left
      simp only [stopLogStreamingLocked_webSocketHandlers, if_neg hmem]

/-- **What a step of a goroutine can do** to the locks: the goroutine enters a call of a handler
under the mutex of the manager only if it was in it or executes a command that enters it, and it is
at a `LOG_START` only if it was or takes it up. -/
structure Moves (s : State) (g g' : Goroutine) : Prop where
  plain : ∀ id pc, g'.op = some (id, pc) → ofHandler pc = true → g'.cmds = []
  entering : ∀ id, g'.Entering id → g.Entering id ∨
    (g.op = none ∧ g.holdsManager = true ∧ ∃ cmd ∈ g.cmds.head?, id ∈ cmd.enters s.manager)
  starting : ∀ id, g'.Starting id → g.Starting id ∨
    ∃ pc, g.op = some (id, pc) ∧ takesUp (s.handlers id) pc = true

theorem ofHandler_of_starting {pc : Pc} (h : starting pc = true) : ofHandler pc = true := by
  cases pc <;> first | rfl | cases h

theorem moves_of_returned (hop : g'.op = none) : Moves s g g' := by
  refine ⟨?_, ?_, ?_⟩
  · intro id pc h
    rw [hop] at h
    cases h
  · rintro id ⟨-, pc, h, -⟩
    rw [hop] at h
    cases h
  · rintro id ⟨pc, h, -⟩
    rw [hop] at h
    cases h

theorem Cmd.step_moves {cmd : Cmd} {rest : List Cmd} {p : Manager × Goroutine}
    (hg : g.op = none) (hcmds : g.cmds = cmd :: rest)
    (hstep : cmd.step s env g.err rest = some p) : Moves s g p.2 := by
  rcases Cmd.step_spec hstep with hop | ⟨id, pc, hop, hpc, henters, hinside⟩
  · exact moves_of_returned hop
  · refine ⟨?_, ?_, ?_⟩
    · intro id' pc' h hpc'
      rw [hop] at h
      cases h
      rw [hpc] at hpc'
      cases hpc'
    · rintro id' ⟨hholds, pc', h, -⟩
      rw [hop] at h
      cases h
      refine .inr ⟨hg, ?_, cmd, by rw [hcmds]; rfl, henters⟩
      rw [Goroutine.holdsManager, hcmds, ← hinside]
      exact hholds
    · rintro id' ⟨pc', h, hpc'⟩
      rw [hop] at h
      cases h
      rw [ofHandler_of_starting hpc'] at hpc
      cases hpc

theorem moves_of_step {pc pc' : Pc} {o : Out} (hinv : Inv s) (hg : g ∈ s.goroutines)
    (hop : g.op = some (id, pc)) (hstep : pc.step .log (s.handlers id) quiet env.choice = some o)
    (hnext : o.next = some pc') : Moves s g { g with op := some (id, pc') } := by
  refine ⟨?_, ?_, ?_⟩
  · rintro id' pc'' ⟨⟩ hpc'
    exact hinv.plain g hg id pc hop (ofHandler_of_next hstep hnext hpc')
  · rintro id' ⟨hholds, pc'', ⟨⟩, hpc'⟩
    rcases entering_of_next hstep hnext hpc' with hpc | hpc
    · exact .inl ⟨hholds, pc, hop, hpc⟩
    · have hcmds : g.cmds = [] := hinv.plain g hg id pc hop hpc
      have hholds : inside g.cmds = true := hholds
      rw [hcmds] at hholds
      cases hholds
  · rintro id' ⟨pc'', ⟨⟩, hpc'⟩
    rcases starting_of_next hstep hnext hpc' with hpc | hpc
    · exact .inl ⟨pc, hop, hpc⟩
    · exact .inr ⟨pc, hop, hpc⟩

theorem Goroutine.step_spec (hinv : Inv s) (hg : g ∈ s.goroutines)
    {p : Manager × (Str → Handler) × Option Goroutine × List Goroutine}
    (hstep : g.step s env = some p) :
    (∀ g' ∈ p.2.2.1, Moves s g g') ∧ ∀ g' ∈ p.2.2.2, Fresh g' := by
  unfold Goroutine.step at hstep
  split at hstep
  next id pc hop =>
    simp only [Option.bind_eq_bind, Option.bind_eq_some_iff] at hstep
    obtain ⟨m, -, o, ho, hp⟩ := hstep
    cases hp
    constructor
    · intro g' hg'
      simp only [Option.mem_def, Option.ite_none_left_eq_some] at hg'
      obtain ⟨-, hg'⟩ := hg'
      cases hnext : o.next with
      | none =>
        simp only [hnext, Option.some.injEq] at hg'
        subst hg'
        exact moves_of_returned rfl
      | some pc' =>
        simp only [hnext, Option.some.injEq] at hg'
        subst hg'
        exact moves_of_step hinv hg hop ho hnext
    · intro g' hg'
      obtain ⟨x, hx, rfl⟩ := List.mem_map.mp hg'
      exact fresh_spawned ho hx
  next hop =>
    split at hstep
    next =>
      cases hstep
      exact ⟨nofun, nofun⟩
    next cmd rest hcmds =>
      obtain ⟨q, hq, rfl⟩ := Option.map_eq_some_iff.mp hstep
      refine ⟨?_, nofun⟩
      rintro g' ⟨⟩
      exact Cmd.step_moves hop hcmds hq

theorem Inv.of_goroutines (hinv : Inv s) (hg : g.Apart s)
    (hnew : ∀ x ∈ s'.goroutines,
      x ∈ s.goroutines ∨ Fresh x ∨ (g ∈ s.goroutines ∧ Moves s g x)) : Inv s' := by
  constructor
  · intro x hx
    rcases hnew x hx with hx | hx | ⟨-, hx⟩
    · exact hinv.plain x hx
    · exact hx.plain
    · exact hx.plain
  · intro x hx y hy id hentering hstarting
    have hx : (∃ e ∈ s.goroutines, e.Entering id) ∨
        (g.op = none ∧ ∀ e ∈ s.goroutines, ¬ e.Starting id) := by
      rcases hnew x hx with hx | hx | ⟨hmem, hx⟩
      · exact .inl ⟨x, hx, hentering⟩
      · exact absurd hentering (hx.entering id)
      · rcases hx.entering id hentering with h | ⟨hop, hholds, cmd, hcmd, henters⟩
        · exact .inl ⟨g, hmem, h⟩
        · exact .inr ⟨hop, hg.enters hop hholds cmd hcmd id henters⟩
    have hy : (∃ e ∈ s.goroutines, e.Starting id) ∨
        (g.op ≠ none ∧ ∀ e ∈ s.goroutines, ¬ e.Entering id) := by
      rcases hnew y hy with hy | hy | ⟨hmem, hy⟩
      · exact .inl ⟨y, hy, hstarting⟩
      · exact absurd hstarting (hy.starting id)
      · rcases hy.starting id hstarting with h | ⟨pc, hop, htakes⟩
        · exact .inl ⟨g, hmem, h⟩
        · exact .inr ⟨by simp [hop], hg.starts id pc hop htakes⟩
    rcases hx with ⟨e, he, hentering⟩ | ⟨hop, hno⟩
    · rcases hy with ⟨e', he', hstarting⟩ | ⟨-, hno⟩
      · exact hinv.apart e he e' he' id hentering hstarting
      · exact hno e he hentering
    · rcases hy with ⟨e', he', hstarting⟩ | ⟨hop', -⟩
      · exact hno e' he' hstarting
      · exact hop' hop

/-- **The step lemma**: an action that keeps the manager and the read workers apart preserves the
invariant. -/
theorem Inv.step {a : Action} (hinv : Inv s) (hok : Apart s a) (hstep : step s a = some s') :
    Inv s' := by
  cases a with
  | call c =>
    cases hstep
    have hidle : Goroutine.Apart s ⟨none, [], false⟩ := ⟨nofun, nofun⟩
    refine hinv.of_goroutines hidle fun x hx => ?_
    rcases List.mem_append.mp hx with hx | hx
    · exact .inl hx
    · rw [List.mem_singleton.mp hx]
      exact .inr (.inl fresh_of_call)
  | callback id kind =>
    simp only [LogLocks.step] at hstep
    split at hstep <;> cases hstep
    exact ⟨hinv.plain, hinv.apart⟩
  | run n env =>
    simp only [LogLocks.step] at hstep
    cases hg : s.goroutines[n]? with
    | none => simp [hg] at hstep
    | some g =>
      simp only [hg, Option.map_eq_some_iff] at hstep
      obtain ⟨p, hp, rfl⟩ := hstep
      have hmem : g ∈ s.goroutines := List.mem_of_getElem? hg
      obtain ⟨hmoves, hfresh⟩ := Goroutine.step_spec hinv hmem hp
      refine hinv.of_goroutines (hok g hg) fun x hx => ?_
      rcases List.mem_append.mp hx with hx | hx
      · rcases mem_of_mem_replaceAt hx with hx | hx
        · exact .inl hx
        · exact .inr (.inr ⟨hmem, hmoves x hx⟩)
      · exact .inr (.inl (hfresh x hx))

theorem inv_initial (processManager containerEngine : Bool) :
    Inv (initial processManager containerEngine) :=
  ⟨nofun, nofun⟩

end Runs

/-- **No deadlock without a `LOG_START` during a stop**: in a run that keeps the manager and the
read workers apart, no state is deadlocked. -/
theorem deadlock_free (processManager containerEngine : Bool) (as : List Action)
    (hapart : Along step Apart (initial processManager containerEngine) as) :
    Throughout step (fun s => ¬ Deadlocked s) (initial processManager containerEngine) as :=
  throughout_of_along (fun _ => Inv.not_deadlocked) (fun _ _ _ h hok hstep => h.step hok hstep)
    (inv_initial processManager containerEngine) hapart

/-! ## A session that is opened, started and stopped -/

def answers : Answers where
  isConnected := fun _ => false
  isConnectedAgain := fun _ => false
  handler := fun _ => true
  connect := fun _ => true
  getContainer := fun _ => none
  now := 0

def fogSession : LogSession := ⟨"s".toList, [], "node".toList, "PENDING".toList⟩

def go (n : ℕ) (choice : Choice := .go) : Action :=
  .run n { choice, sessionID := fogSession.sessionID, ans := answers }

def opens : List Action :=
  .call (.handleLogSessions [fogSession]) ::
    (List.replicate 19 (go 0) ++ go 0 .ok :: List.replicate 9 (go 0))

def takesUpStart : List Action := [go 1, go 1 (.message .start), go 1]

def stops : List Action := .call (.stopLogSession fogSession.sessionID) :: List.replicate 6 (go 2)

/-- A `LOG_START` before a stop: the session is opened, its stream started and stopped, and the
workers and `StopLogSession` return. -/
theorem deadlock_free_stop :
    let as := opens ++ takesUpStart ++ List.replicate 3 (go 1) ++ stops ++ [go 1, go 0 .fail] ++
      List.replicate 9 (go 0)
    ((run step (initial false false) as).map (·.goroutines)) = some [] ∧
      Throughout step (fun s => ¬ Deadlocked s) (initial false false) as :=
  ⟨rfl, deadlock_free false false _ (of_decide_eq_true rfl)⟩

/-- **A `LOG_START` during a stop**: `StopLogSession` holds the mutex of the manager and waits for
the workers; the read worker, in the middle of a `LOG_START`, waits for the mutex. Neither can take
another step. -/
theorem logStart_deadlocks :
    ∃ s, run step (initial false false) (opens ++ takesUpStart ++ stops ++ [go 1, go 1]) = some s ∧
      Deadlocked s ∧ ∀ env, step s (.run 1 env) = none ∧ step s (.run 2 env) = none := by
  have hgs : (run step (initial false false)
      (opens ++ takesUpStart ++ stops ++ [go 1, go 1])).map (·.goroutines) =
      some [⟨some (fogSession.sessionID, .ping .loop), [], false⟩,
        ⟨some (fogSession.sessionID, .read .starting), [], false⟩,
        ⟨some (fogSession.sessionID, .reset none .wait), [.forget fogSession.sessionID, .unlock],
          false⟩] := by
    rfl
  obtain ⟨s, hs, hgs⟩ := Option.map_eq_some_iff.mp hgs
  refine ⟨s, hs, ?_, ?_⟩
  · refine ⟨2, 1, ⟨_, by rw [hgs]; rfl, rfl⟩, .single ?_, _, by rw [hgs]; rfl, rfl⟩
    exact ⟨_, by rw [hgs]; rfl, _, by rw [hgs]; rfl,
      .inr (.inr ⟨fogSession.sessionID, ⟨none, rfl⟩, _, rfl, rfl⟩)⟩
  · have hfree : s.free = false := by rw [State.free, hgs]; rfl
    have hbusy : s.idle fogSession.sessionID = false := by rw [State.idle, hgs]; rfl
    intro env
    constructor
    · simp [step, hgs, Goroutine.step, managerAfter, critical?, hfree]
    · cases hchoice : env.choice <;>
        simp [step, hgs, Goroutine.step, managerAfter, critical?, Pc.step, ResetPc.step, hbusy,
          hchoice]

end Edgelet.FieldAgent.LogLocks
