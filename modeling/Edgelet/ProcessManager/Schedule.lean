import Edgelet.Lexical.Text

/-!
# The scheduled pass

A scheduled pass takes all dirty marks at once and hands each identifier to the function for its
kind, which is found out by lookups in the store that can fail. While the watchdog is on, local
workloads are out of scope and no pass lists them.
-/

namespace Edgelet.ProcessManager

open Lexical

structure DirtySet where
  uuids : List Str
  trimmed : ∀ u ∈ uuids, trimSpace u = u ∧ u ≠ []

def DirtySet.empty : DirtySet := ⟨[], by simp⟩

def addReconcileDirty (d : DirtySet) (uuid : Str) : DirtySet :=
  if h : trimSpace uuid = [] ∨ trimSpace uuid ∈ d.uuids then d
  else
    ⟨d.uuids ++ [trimSpace uuid], by
      intro u hu
      rcases List.mem_append.mp hu with hu | hu
      · exact d.trimmed u hu
      · rw [List.mem_singleton.mp hu]
        exact ⟨trimSpace_trimSpace _, fun hnil => h (.inl hnil)⟩⟩

inductive Lookup (α : Type)
  | value (a : α)
  | absent
  | error

def lookupControlPlane : Lookup Str → Str
  | .value c => trimSpace c
  | .absent | .error => []

structure DispatchAnswers where
  controlPlane : Lookup Str
  load : Lookup Unit

structure Pass where
  sweep : Bool
  degraded : Bool
  statusOnly : Bool
  watchdogEnabled : Bool
  dirty : DirtySet
  latest : List Str
  workloadAppearsRunning : Str → Bool
  atStart : Lookup Str
  /-- The local workloads of the store, `none` on an error. -/
  stored : Option (List Str)
  again : DispatchAnswers
  forItem : ℕ → DispatchAnswers
  meanwhile : List Str

inductive Handed
  | controlPlane
  | controller (only : List Str)
  | localWorkload (uuid : Str)
  deriving DecidableEq

def reconcileWorkload (latest : List Str) (uuid : Str) (a : DispatchAnswers) : List Handed :=
  let uuid := trimSpace uuid
  let cp := lookupControlPlane a.controlPlane
  if uuid = [] then []
  else if cp ≠ [] ∧ uuid = cp then [.controlPlane]
  else if uuid ∈ latest then [.controller [uuid]]
  else
    match a.load with
    | .value () => [.localWorkload uuid]
    | .absent | .error => []

namespace Pass

variable (p : Pass)

def cpUUID : Str := lookupControlPlane p.atStart

def locals : Option (List Str) := if p.watchdogEnabled then some [] else p.stored

def markAllWorkloads : DirtySet :=
  let d := if p.cpUUID ≠ [] then addReconcileDirty p.dirty p.cpUUID else p.dirty
  let d := p.latest.foldl addReconcileDirty d
  (p.locals.getD []).foldl addReconcileDirty d

def markStopped (d : DirtySet) (uuid : Str) : DirtySet :=
  if trimSpace uuid = [] ∨ p.workloadAppearsRunning (trimSpace uuid) then d
  else addReconcileDirty d uuid

def markStoppedWorkloads : DirtySet :=
  let d := if p.cpUUID ≠ [] ∧ p.workloadAppearsRunning p.cpUUID = false then
    addReconcileDirty p.dirty p.cpUUID else p.dirty
  let d := p.latest.foldl p.markStopped d
  (p.locals.getD []).foldl p.markStopped d

def idle : Bool := !p.sweep && !p.degraded && !p.statusOnly && p.dirty.uuids.isEmpty

def taken : DirtySet :=
  if p.idle then .empty
  else if p.sweep || p.degraded then p.markAllWorkloads
  else if p.statusOnly then p.markStoppedWorkloads
  else p.dirty

def handedControlPlane : List Handed :=
  if p.cpUUID ≠ [] then
    if p.cpUUID ∈ p.taken.uuids then reconcileWorkload p.latest p.cpUUID p.again else []
  else if p.sweep || p.degraded then [.controlPlane] else []

def reconcileMarkedLocal : List Handed :=
  match p.locals with
  | none => []
  | some items =>
    items.zipIdx.flatMap fun (uuid, k) =>
      if trimSpace uuid ∈ p.taken.uuids then reconcileWorkload p.latest uuid (p.forItem k) else []

def reconcileScheduled : List Handed :=
  if p.idle then []
  else p.handedControlPlane ++ [.controller p.taken.uuids] ++ p.reconcileMarkedLocal

def dirtyAfter : DirtySet :=
  if p.idle then p.meanwhile.foldl addReconcileDirty p.dirty
  else p.meanwhile.foldl addReconcileDirty .empty

end Pass

/-! ## What there is, and lookups that tell it -/

structure Store where
  controlPlane : Option Str
  locals : List Str

namespace Store

variable (w : Store)

def IsControlPlane (uuid : Str) : Prop := w.controlPlane.map trimSpace = some uuid

def IsLocal (uuid : Str) : Prop := uuid ∈ w.locals.map trimSpace

instance (uuid : Str) : Decidable (w.IsControlPlane uuid) := inferInstanceAs (Decidable (_ = _))

instance (uuid : Str) : Decidable (w.IsLocal uuid) := inferInstanceAs (Decidable (_ ∈ _))

end Store

namespace Pass

variable (p : Pass) (w : Store)

/-- **The lookups about the identifier answer.** Both of the control plane's deployment find it when
the identifier is that of the control plane. For a local workload the watchdog is off, the listing
succeeds, and at its row the row is loaded and no control plane is found under the identifier. -/
structure Answered (uuid : Str) : Prop where
  controlPlane : w.IsControlPlane uuid →
    p.cpUUID = uuid ∧ lookupControlPlane p.again.controlPlane = uuid
  localWorkload : ¬w.IsControlPlane uuid → w.IsLocal uuid →
    p.watchdogEnabled = false ∧ p.stored = some w.locals ∧
      ∀ k item, w.locals[k]? = some item → trimSpace item = uuid →
        lookupControlPlane (p.forItem k).controlPlane ≠ uuid ∧ (p.forItem k).load = .value ()

def IsController (uuid : Str) : Prop := uuid ∈ p.latest.map trimSpace

instance (uuid : Str) : Decidable (p.IsController uuid) := inferInstanceAs (Decidable (_ ∈ _))

def HandedToController (uuid : Str) : Prop :=
  ∃ h ∈ p.reconcileScheduled, ∃ only, h = .controller only ∧ uuid ∈ only

/-- **The mark is kept**: the identifier is handed to the function for its kind, or it is
dirty again when the pass returns. The control plane comes before the controller, and the
controller before the local workloads. -/
def Kept (uuid : Str) : Prop :=
  uuid ∈ p.dirtyAfter.uuids ∨
    ((w.IsControlPlane uuid → .controlPlane ∈ p.reconcileScheduled) ∧
      (¬w.IsControlPlane uuid → p.IsController uuid → p.HandedToController uuid) ∧
      (¬w.IsControlPlane uuid → ¬p.IsController uuid → w.IsLocal uuid →
        .localWorkload uuid ∈ p.reconcileScheduled))

variable {p w} {uuid : Str}

section

variable (h : uuid ∈ p.taken.uuids)

include h

theorem not_idle_of_taken : p.idle = false := by
  by_contra hidle
  simp only [Bool.not_eq_false] at hidle
  simp [taken, hidle, DirtySet.empty] at h

theorem reconcileScheduled_eq : p.reconcileScheduled =
    p.handedControlPlane ++ [.controller p.taken.uuids] ++ p.reconcileMarkedLocal := by
  rw [reconcileScheduled, not_idle_of_taken h]
  rfl

/-- **A marked microservice of the controller is handed on**, whatever the lookups answer: the
controller loop gets all marks. -/
theorem controller_handed : p.HandedToController uuid := by
  refine ⟨.controller p.taken.uuids, ?_, p.taken.uuids, rfl, h⟩
  rw [reconcileScheduled_eq h]
  simp

end

theorem controlPlane_handed (ha : p.Answered w uuid) (h : uuid ∈ p.taken.uuids)
    (hcp : w.IsControlPlane uuid) : .controlPlane ∈ p.reconcileScheduled := by
  obtain ⟨htrim, hne⟩ := p.taken.trimmed uuid h
  obtain ⟨hstart, hagain⟩ := ha.controlPlane hcp
  have hmem : .controlPlane ∈ p.handedControlPlane := by
    simp [handedControlPlane, hstart, hne, h, reconcileWorkload, htrim, hagain]
  rw [reconcileScheduled_eq h]
  simp [hmem]

theorem localWorkload_handed (ha : p.Answered w uuid) (h : uuid ∈ p.taken.uuids)
    (hcp : ¬w.IsControlPlane uuid) (hcontroller : ¬p.IsController uuid)
    (hlocal : w.IsLocal uuid) : .localWorkload uuid ∈ p.reconcileScheduled := by
  obtain ⟨htrim, hne⟩ := p.taken.trimmed uuid h
  obtain ⟨hwatchdog, hstored, hitems⟩ := ha.localWorkload hcp hlocal
  obtain ⟨item, hitem, rfl⟩ := List.mem_map.mp hlocal
  obtain ⟨k, hk⟩ := List.mem_iff_getElem?.mp hitem
  obtain ⟨hother, hload⟩ := hitems k item hk rfl
  have hlatest : trimSpace item ∉ p.latest := by
    intro hmem
    exact hcontroller (List.mem_map.mpr ⟨_, hmem, htrim⟩)
  have hdispatch : .localWorkload (trimSpace item) ∈
      reconcileWorkload p.latest item (p.forItem k) := by
    have hcp : ¬(lookupControlPlane (p.forItem k).controlPlane ≠ [] ∧
        trimSpace item = lookupControlPlane (p.forItem k).controlPlane) :=
      fun hfound => hother hfound.2.symm
    simp only [reconcileWorkload, if_neg hne, if_neg hcp, if_neg hlatest, hload]
    exact List.mem_singleton_self _
  have hmem : .localWorkload (trimSpace item) ∈ p.reconcileMarkedLocal := by
    have hlocals : p.locals = some w.locals := by simp [locals, hwatchdog, hstored]
    rw [reconcileMarkedLocal, hlocals]
    refine List.mem_flatMap.mpr ⟨(item, k), ?_, ?_⟩
    · exact List.mem_zipIdx_iff_getElem?.mpr (by simpa using hk)
    · simpa only [if_pos h] using hdispatch
  rw [reconcileScheduled_eq h]
  simp [hmem]

end Pass

def oneLocal : Store := ⟨none, ["db".toList]⟩

/-- A pass with the mark of one local workload, which its load in the dispatch finds or not. -/
def oneMark (load : Lookup Unit) : Pass where
  sweep := false
  degraded := false
  statusOnly := false
  watchdogEnabled := false
  dirty := addReconcileDirty .empty "db".toList
  latest := []
  workloadAppearsRunning := fun _ => false
  atStart := .error
  stored := some ["db".toList]
  again := ⟨.error, .error⟩
  forItem := fun _ => ⟨.error, load⟩
  meanwhile := []

end Edgelet.ProcessManager
