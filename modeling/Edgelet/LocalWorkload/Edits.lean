import Edgelet.Lexical.Text
import Edgelet.Machine.Run

/-!
# Operator edits and the local reconcile

A pass loads the row of a local workload, acts on the container, and writes the whole row back if it
is still there with no newer generation. `updateLocalContainerAfterRecreate`, which it runs where it
recreates the container, and `clearLocalWorkloadRuntimeRef` do so with a copy of their own. The
operator writes the row too, and anything can happen between two statements. The machine has one
row, the operator requests on it, any number of copies, and what the last statement of an operator
left.
-/

namespace Edgelet.LocalWorkload

open Lexical

inductive Desired
  | running
  | stopped
  | deleted
  deriving DecidableEq

structure Runtime where
  runtimeState : Str
  containerID : Str
  observedGeneration : ℕ
  deriving DecidableEq

structure Row where
  desired : Desired
  manifest : Str
  generation : ℕ
  runtime : Runtime
  deriving DecidableEq

def Row.Same (r r' : Row) : Prop :=
  r.desired = r'.desired ∧ r.manifest = r'.manifest ∧ r.generation = r'.generation

instance (r r' : Row) : Decidable (r.Same r') :=
  inferInstanceAs (Decidable (_ ∧ _ ∧ _))

theorem Row.Same.refl (r : Row) : r.Same r := ⟨rfl, rfl, rfl⟩

theorem Row.Same.symm {r r' : Row} (h : r.Same r') : r'.Same r :=
  ⟨h.1.symm, h.2.1.symm, h.2.2.symm⟩

theorem Row.Same.trans {r r' r'' : Row} (h : r.Same r') (h' : r'.Same r'') : r.Same r'' :=
  ⟨h.1.trans h'.1, h.2.1.trans h'.2.1, h.2.2.trans h'.2.2⟩

inductive Edit
  | start
  | stop
  | restart
  deriving DecidableEq

variable (e : Edit) (r : Row)

def Edit.runtimeState : Str :=
  match e with
  | .start => "starting".toList
  | .stop => "stopping".toList
  | .restart => "restarting".toList

def Edit.apply : Row :=
  { r with
    desired := if e = .stop then .stopped else .running
    generation := r.generation + 1
    runtime := { r.runtime with runtimeState := e.runtimeState } }

inductive Op
  | edit (e : Edit)
  | editing (e : Edit) (r : Row)
  | report
  | reporting (r : Row)
  | remove
  | removing (r : Row)
  | removed
  | apply (manifest : Str)
  | applying (r : Row)
  | replacing (r : Row)
  | launching (r : Row)
  | launched (r : Row)
  | done
  deriving DecidableEq

/-- A copy of the row, from its load to the end of the function that loaded it. -/
inductive Reconcile
  | idle
  | holding (r : Row)
  | checked (r : Row)
  | deleting (r : Row)
  deriving DecidableEq

structure State where
  row : Option Row
  ops : List Op
  copies : List Reconcile
  last : Option Row

/-! ## The statements of the facade -/

inductive Write
  | nothing
  | upsert (r : Row)
  | delete

structure Choice where
  ok : Bool
  container : Bool
  keep : Bool
  runtime : Runtime

def Edit.after (c : Choice) : Op :=
  if c.ok then (if e = .stop then .done else .report) else .done

def Row.leaving : Bool :=
  r.desired == .deleted || r.runtime.runtimeState == "deleting".toList

def Row.patch (manifest : Str) : Row :=
  ⟨.running, manifest, r.generation + 1, ⟨"starting".toList, [], 0⟩⟩

def Op.next (row : Option Row) (c : Choice) : Op → Option (Write × Op)
  | .edit e => some (.nothing, (row.map (Op.editing e)).getD (e.after c))
  | .editing e r => some (.upsert (e.apply r), e.after c)
  | .report => some (.nothing, (row.map Op.reporting).getD .done)
  | .reporting r =>
    some (.upsert { r with runtime := { r.runtime with runtimeState := "running".toList } }, .done)
  | .remove => some (.nothing, (row.map Op.removing).getD .done)
  | .removing r =>
    some (.upsert { r with
      desired := .deleted
      runtime := { r.runtime with runtimeState := "deleting".toList } }, .removed)
  | .removed => some (.delete, if c.container then .removed else .done)
  | .apply manifest =>
    some (.nothing, (row.map fun r => if r.leaving then .done else
      .applying (r.patch manifest)).getD .done)
  | .applying r =>
    if c.keep then
      some (.upsert { r with
        runtime := ⟨"running".toList, c.runtime.containerID, r.generation⟩ }, .done)
    else some (.upsert r, .replacing r)
  | .replacing r =>
    if c.container then some (if c.ok then (.delete, .launching r) else (.nothing, .done))
    else some (.nothing, .launching r)
  | .launching r => some (.upsert r, .launched r)
  | .launched r => some (.upsert { r with runtime := c.runtime }, .done)
  | .done => none

/-! ## The steps of the machine -/

/-- What a function does with its copy. -/
inductive Action
  | load
  /-- Models `persistLocalWorkloadIfPresent`, up to its write. -/
  | check
  /-- The write of `persistLocalWorkloadIfPresent`. -/
  | upsert (runtime : Runtime)
  /-- The check of `reconcileLocalDesiredDeleted`. -/
  | beginDelete
  | removeContainer (ok : Bool)
  | delete
  | finish

inductive Event
  | op (k : ℕ) (c : Choice)
  | copy (k : ℕ) (a : Action)

/-- The steps of `reconcileOneLocalDeployment` and of `updateLocalContainerAfterRecreate`: the row,
the copy, and what becomes of the two. A row to delete takes the branch of
`reconcileLocalDesiredDeleted`; every other branch changes the runtime fields of its copy. -/
def Reconcile.step (row : Option Row) : Reconcile → Action → Option (Option Row × Reconcile)
  | .idle, .load => some (row, (row.map .holding).getD .idle)
  | .holding i, .check =>
    match row with
    | none => some (row, .holding i)
    | some r => some (row, if i.generation < r.generation then .holding i else .checked i)
  | .checked i, .upsert runtime =>
    some (some { i with runtime := runtime }, .holding { i with runtime := runtime })
  | .holding i, .beginDelete =>
    if i.desired = .deleted then some (row, if row.isSome then .deleting i else .idle) else none
  | .deleting i, .removeContainer ok => some (if ok then (none, .deleting i) else (row, .holding i))
  | .deleting _, .delete => some (none, .idle)
  | .holding _, .finish => some (row, .idle)
  | _, _ => none

namespace State

variable (s : State)

/-- No copy is held. -/
def init (row : Option Row) (ops : List Op) (n : ℕ) : State :=
  ⟨row, ops, List.replicate n .idle, row⟩

def written (w : Write) : State :=
  match w with
  | .nothing => s
  | .upsert r => { s with row := some r, last := some r }
  | .delete => { s with row := none, last := none }

def statement (k : ℕ) (c : Choice) : Option (Write × Op) :=
  (s.ops[k]?).bind (Op.next s.row c)

def opStep (k : ℕ) (c : Choice) : Option State :=
  (s.statement k c).map fun n => { s.written n.1 with ops := s.ops.set k n.2 }

def copyStep (k : ℕ) (a : Action) : Option State :=
  ((s.copies[k]?).bind fun p => p.step s.row a).map fun n =>
    { s with row := n.1, copies := s.copies.set k n.2 }

end State

def step (s : State) : Event → Option State
  | .op k c => s.opStep k c
  | .copy k a => s.copyStep k a

/-! ## Edits that survive -/

def Settled (row last : Option Row) : Prop :=
  match row, last with
  | some r, some l => r.Same l
  | none, some l => l.desired = .deleted
  | none, none => True
  | some _, none => False

instance : (row last : Option Row) → Decidable (Settled row last)
  | some r, some l => inferInstanceAs (Decidable (r.Same l))
  | none, some l => inferInstanceAs (Decidable (l.desired = .deleted))
  | none, none => inferInstanceAs (Decidable True)
  | some _, none => inferInstanceAs (Decidable False)

/-- The copy is older than the row, and will not be written. -/
def Behind (i r : Row) : Prop := i.desired ≠ .deleted ∧ i.generation < r.generation

/-- **Where a write may fall.** Between the check of a copy and its write, and between the load of a
row to delete and its deletion, it changes neither desired state nor manifest nor generation, and
before the write of a copy it does not delete the row. As long as a copy is held what is written has
a newer generation than the copy. -/
def Harmless (w : Write) : Reconcile → Prop
  | .idle => True
  | .holding i => ∀ r, w = .upsert r → Behind i r ∨ r.Same i
  | .checked i => w ≠ .delete ∧ ∀ r, w = .upsert r → r.Same i
  | .deleting i => ∀ r, w = .upsert r → r.Same i

/-- The write of a request, and a deletion of a pass, do no harm to any copy. -/
def Undisturbed (s : State) : Event → Prop
  | .op k c => ∀ n, s.statement k c = some n → ∀ p ∈ s.copies, Harmless n.1 p
  | .copy _ (.removeContainer _) | .copy _ .delete => ∀ p ∈ s.copies, Harmless .delete p
  | .copy _ _ => True

def CopyInv (row : Option Row) : Reconcile → Prop
  | .idle => True
  | .holding i => ∀ r ∈ row, Behind i r ∨ r.Same i
  | .checked i => ∃ r ∈ row, r.Same i
  | .deleting i => i.desired = .deleted ∧ ∀ r ∈ row, r.Same i

structure Inv (s : State) : Prop where
  settled : Settled s.row s.last
  copies : ∀ p ∈ s.copies, CopyInv s.row p

theorem Settled.of_same {r r' : Row} {last : Option Row} (h : Settled (some r) last)
    (hsame : r'.Same r) : Settled (some r') last := by
  cases last with
  | none => exact h
  | some l => exact hsame.trans h

theorem Settled.deleted {row last : Option Row} (h : Settled row last)
    (hrow : ∀ r ∈ row, r.desired = .deleted) : Settled none last := by
  cases row with
  | none => exact h
  | some r =>
    cases last with
    | none => exact h.elim
    | some l => exact h.1.symm.trans (hrow r rfl)

theorem CopyInv.upsert {row : Option Row} {p : Reconcile} {r : Row} (h : CopyInv row p)
    (hw : Harmless (.upsert r) p) : CopyInv (some r) p := by
  cases p with
  | idle => trivial
  | holding i =>
    intro r' hr'
    obtain rfl := Option.some.inj hr'
    exact hw r rfl
  | checked i => exact ⟨r, rfl, hw.2 r rfl⟩
  | deleting i =>
    refine ⟨h.1, fun r' hr' => ?_⟩
    obtain rfl := Option.some.inj hr'
    exact hw r rfl

theorem CopyInv.delete {row : Option Row} {p : Reconcile} (h : CopyInv row p)
    (hw : Harmless .delete p) : CopyInv none p := by
  cases p with
  | idle => trivial
  | holding i => exact nofun
  | checked i => exact absurd rfl hw.1
  | deleting i => exact ⟨h.1, nofun⟩

/-- A row that says the same as the one before does no harm. -/
theorem CopyInv.harmless_of_same {r r' : Row} {p : Reconcile} (h : CopyInv (some r) p)
    (hsame : r'.Same r) : Harmless (.upsert r') p := by
  cases p with
  | idle => trivial
  | holding i =>
    rintro _ ⟨⟩
    rcases h r rfl with hbehind | hi
    · exact .inl ⟨hbehind.1, hsame.2.2 ▸ hbehind.2⟩
    · exact .inr (hsame.trans hi)
  | checked i =>
    obtain ⟨_, ⟨⟩, hi⟩ := h
    exact ⟨nofun, by rintro _ ⟨⟩; exact hsame.trans hi⟩
  | deleting i =>
    rintro _ ⟨⟩
    exact hsame.trans (h.2 r rfl)

namespace Inv

variable {s s' : State} {k : ℕ}

theorem init (row : Option Row) (ops : List Op) (n : ℕ) : Inv (.init row ops n) := by
  refine ⟨?_, fun p hp => ?_⟩
  · cases row with
    | none => exact trivial
    | some r => exact .refl r
  · rw [List.eq_of_mem_replicate hp]
    trivial

section

variable (hs : Inv s)

include hs

theorem written {w : Write} (hw : ∀ p ∈ s.copies, Harmless w p) : Inv (s.written w) := by
  cases w with
  | nothing => exact hs
  | upsert r => exact ⟨Row.Same.refl r, fun p hp => (hs.copies p hp).upsert (hw p hp)⟩
  | delete => exact ⟨trivial, fun p hp => (hs.copies p hp).delete (hw p hp)⟩

/-- A step that leaves the row. -/
theorem keep {p : Reconcile} (hp : CopyInv s.row p) :
    Inv { s with copies := s.copies.set k p } := by
  refine ⟨hs.settled, fun q hq => ?_⟩
  rcases List.mem_or_eq_of_mem_set hq with hq | rfl
  · exact hs.copies q hq
  · exact hp

/-- A step that writes a row that says the same. -/
theorem rewrite {r r' : Row} {p : Reconcile} (hrow : s.row = some r) (hsame : r'.Same r)
    (hp : CopyInv (some r') p) :
    Inv { s with row := some r', copies := s.copies.set k p } := by
  have hsettled := hs.settled
  rw [hrow] at hsettled
  refine ⟨hsettled.of_same hsame, fun q hq => ?_⟩
  rcases List.mem_or_eq_of_mem_set hq with hq | rfl
  · have hinv := hrow ▸ hs.copies q hq
    exact hinv.upsert (hinv.harmless_of_same hsame)
  · exact hp

/-- A step that deletes a row the operator has marked deleted. -/
theorem remove {i : Row} {p : Reconcile} (hi : CopyInv s.row (.deleting i))
    (hw : ∀ q ∈ s.copies, Harmless .delete q) (hp : CopyInv none p) :
    Inv { s with row := none, copies := s.copies.set k p } := by
  refine ⟨hs.settled.deleted fun r hr => (hi.2 r hr).1.trans hi.1, fun q hq => ?_⟩
  rcases List.mem_or_eq_of_mem_set hq with hq | rfl
  · exact (hs.copies q hq).delete (hw q hq)
  · exact hp

theorem copyStep {a : Action} (hok : Undisturbed s (.copy k a))
    (h : s.copyStep k a = some s') : Inv s' := by
  obtain ⟨⟨row, p'⟩, hn, rfl⟩ := Option.map_eq_some_iff.mp h
  obtain ⟨p, hp, hstep⟩ := Option.bind_eq_some_iff.mp hn
  have hinv := hs.copies p (List.mem_of_getElem? hp)
  unfold Reconcile.step at hstep
  split at hstep
  case h_1 =>
    cases hstep
    refine hs.keep ?_
    cases hrow : s.row with
    | none => trivial
    | some i =>
      intro r hr
      obtain rfl := Option.some.inj hr
      exact .inr (.refl i)
  case h_2 i =>
    split at hstep
    · cases hstep
      exact hs.keep hinv
    · rename_i r hrow
      cases hstep
      refine hs.keep ?_
      split
      · exact hinv
      next hgen =>
        refine ⟨r, hrow, ?_⟩
        rcases hinv r hrow with hbehind | hsame
        · exact absurd hbehind.2 hgen
        · exact hsame
  case h_3 i runtime =>
    obtain ⟨r, hrow, hsame⟩ := hinv
    cases hstep
    have hcopy : Row.Same { i with runtime := runtime } i := ⟨rfl, rfl, rfl⟩
    refine hs.rewrite hrow (hcopy.trans hsame.symm) fun r' hr' => ?_
    obtain rfl := Option.some.inj hr'
    exact .inr (.refl _)
  case h_4 i =>
    split at hstep
    next hdesired =>
      cases hstep
      refine hs.keep ?_
      split
      · refine ⟨hdesired, fun r hr => ?_⟩
        rcases hinv r hr with hbehind | hsame
        · exact absurd hdesired hbehind.1
        · exact hsame
      · trivial
    next => cases hstep
  case h_5 i ok =>
    cases ok with
    | true =>
      cases hstep
      exact hs.remove hinv hok ⟨hinv.1, nofun⟩
    | false =>
      cases hstep
      exact hs.keep fun r hr => .inr (hinv.2 r hr)
  case h_6 =>
    cases hstep
    exact hs.remove hinv hok trivial
  case h_7 =>
    cases hstep
    exact hs.keep trivial
  case h_8 => cases hstep

theorem step {e : Event} (hok : Undisturbed s e)
    (h : LocalWorkload.step s e = some s') : Inv s' := by
  cases e with
  | op k c =>
    obtain ⟨n, hn, rfl⟩ := Option.map_eq_some_iff.mp h
    have hwritten := hs.written (hok n hn)
    cases hw : n.1 <;> exact ⟨hw ▸ hwritten.settled, hw ▸ hwritten.copies⟩
  | copy k a => exact hs.copyStep hok h

end

end Inv

/-- **An edit survives the reconcile**: in every state of an undisturbed run, whatever row and
requests it starts from, the row is what the last operator statement left. -/
theorem edit_survives (row : Option Row) (ops : List Op) (n : ℕ) (es : List Event) (s : State)
    (hok : Machine.Along step Undisturbed (.init row ops n) es)
    (hrun : Machine.run step (.init row ops n) es = some s) : Settled s.row s.last :=
  (Machine.invariant_run (fun _ _ _ hs hok h => hs.step hok h) hok (Inv.init row ops n)
    hrun).settled

def webRow : Row := ⟨.running, "image: web".toList, 1, ⟨"running".toList, "c1".toList, 1⟩⟩

def willing : Choice := ⟨true, false, false, webRow.runtime⟩

/-- The container is recreated and the second copy written while the pass holds the first; the stop
falls before the check of the first. -/
def stopBeforeCheck : List Event :=
  [.copy 0 .load, .copy 1 .load, .copy 1 .check, .copy 1 (.upsert webRow.runtime), .copy 1 .finish,
    .op 0 willing, .op 0 willing, .copy 0 .check, .copy 0 .finish]

/-- The stop falls between the check of a copy and its write: of that of the pass, or of that of
`updateLocalContainerAfterRecreate`. -/
def stopAfterCheck (k : ℕ) : List Event :=
  [.copy 0 .load, .copy 1 .load, .copy k .check, .op 0 willing, .op 0 willing,
    .copy k (.upsert webRow.runtime), .copy 0 .finish, .copy 1 .finish]

theorem stopBeforeCheck_undisturbed :
    Machine.Along step Undisturbed (.init (some webRow) [.edit .stop] 2) stopBeforeCheck := by
  iterate 5
    refine ⟨trivial, ?_⟩
    rintro _ ⟨⟩
  refine ⟨?_, ?_⟩
  · rintro _ ⟨⟩ p hp
    rcases List.mem_pair.mp hp with rfl | rfl
    · exact nofun
    · trivial
  rintro _ ⟨⟩
  refine ⟨?_, ?_⟩
  · rintro _ ⟨⟩ p hp
    rcases List.mem_pair.mp hp with rfl | rfl
    · rintro _ ⟨⟩
      exact .inl ⟨by decide, by decide⟩
    · trivial
  rintro _ ⟨⟩
  refine ⟨trivial, ?_⟩
  rintro _ ⟨⟩
  exact ⟨trivial, fun _ _ => trivial⟩

/-- The check of the pass sees the newer generation and leaves the stopped row alone. -/
theorem edit_survives_stopBeforeCheck :
    ∃ s, Machine.run step (.init (some webRow) [.edit .stop] 2) stopBeforeCheck = some s ∧
      s.copies = [.idle, .idle] ∧ s.ops = [.done] ∧ Settled s.row s.last :=
  ⟨_, rfl, rfl, rfl, edit_survives (some webRow) [.edit .stop] 2 stopBeforeCheck _
    stopBeforeCheck_undisturbed rfl⟩

/-- The stop is lost: at rest the row wants the workload running, in its first generation. -/
theorem stopAfterCheck_lost :
    ([0, 1].map fun k =>
      (Machine.run step (.init (some webRow) [.edit .stop] 2) (stopAfterCheck k)).map fun s =>
        (s.copies, s.ops, s.row, decide (Settled s.row s.last))) =
      List.replicate 2 (some ([.idle, .idle], [.done], some webRow, false)) := by
  decide

end Edgelet.LocalWorkload
