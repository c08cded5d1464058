import Edgelet.Keyed.Table
import Edgelet.Lexical.Text

/-!
# The registry of interactive exec sessions

The process manager registers every interactive exec session under its trimmed identifier. A
creation registers first, asks the engine to create and start the exec, waits until it runs, and
takes the record back where one of these fails; a release removes a record of the right owner and
stops its exec.
-/

namespace Edgelet.ProcessManager

open Lexical Keyed

inductive ExecOwner
  | controller
  | localAPI
  deriving DecidableEq

structure ExecSessionRecord where
  sessionID : Str
  msUUID : Str
  containerID : Str
  runtimeExecID : Str
  owner : ExecOwner
  started : Bool
  deriving DecidableEq

inductive ExecSessionError
  | sessionIDRequired
  | microserviceUUIDRequired
  | engineNotInitialized
  | container
  | containerNotFound
  | duplicate
  | notFound
  | ownerMismatch

abbrev ExecSessionRegistry := Table ExecSessionRecord.sessionID

namespace ExecSessionRegistry

variable (r : ExecSessionRegistry)

def register (rec : ExecSessionRecord) : Except ExecSessionError ExecSessionRegistry :=
  let id := trimSpace rec.sessionID
  if id = [] then .error .sessionIDRequired
  else
    match r.get? id with
    | some _ => .error .duplicate
    | none => .ok (r.upsert { rec with sessionID := id })

def setRuntimeExecID (sessionID engineExecID : Str) : ExecSessionRegistry :=
  if trimSpace sessionID = [] ∨ trimSpace engineExecID = [] then r
  else r.updateWhere (fun rec => rec.sessionID == trimSpace sessionID)
    (fun rec => { rec with runtimeExecID := trimSpace engineExecID }) fun _ => rfl

def markStarted (sessionID : Str) : ExecSessionRegistry :=
  r.updateWhere (fun rec => rec.sessionID == trimSpace sessionID)
    (fun rec => { rec with started := true }) fun _ => rfl

def remove (sessionID : Str) : ExecSessionRegistry :=
  r.deleteWhere fun rec => rec.sessionID == trimSpace sessionID

def release (sessionID : Str) (owner : ExecOwner) :
    Except ExecSessionError (ExecSessionRecord × ExecSessionRegistry) :=
  match r.get? (trimSpace sessionID) with
  | none => .error .notFound
  | some rec => if rec.owner ≠ owner then .error .ownerMismatch else .ok (rec, r.remove sessionID)

end ExecSessionRegistry

open ExecSessionRegistry

/-- The source cuts bytes, which are the characters of an ASCII text. -/
def containerIDPrefix (containerID : Str) : Str := (trimSpace containerID).take 12

def sessionPrefix (sessionID : Str) : Str := (trimSpace sessionID).take 8

def runtimeExecIDController (containerID sessionID : Str) : Str :=
  containerIDPrefix containerID ++ "-exec-".toList ++ sessionPrefix sessionID

def registerExecSession (r : ExecSessionRegistry) (sessionID msUUID : Str)
    (container : Except ExecSessionError Str) : Except ExecSessionError ExecSessionRegistry :=
  if trimSpace sessionID = [] then .error .sessionIDRequired
  else if trimSpace msUUID = [] then .error .microserviceUUIDRequired
  else
    match container with
    | .error e => .error e
    | .ok containerID =>
      r.register ⟨trimSpace sessionID, trimSpace msUUID, containerID,
        runtimeExecIDController containerID sessionID, .controller, false⟩

def releaseExecSession (r : ExecSessionRegistry) (sessionID : Str) (owner : ExecOwner) :
    ExecSessionRegistry :=
  match r.release sessionID owner with
  | .error _ => r
  | .ok (_, r) => r

/-! ## The sessions of the controller -/

def Held (r : ExecSessionRegistry) (id : Str) : Prop :=
  ∃ rec ∈ r, rec.sessionID = id ∧ rec.owner = .controller

variable {r r' : ExecSessionRegistry} {id : Str}

theorem held_upsert {rec : ExecSessionRecord} (h : Held (r.upsert rec) id) :
    Held r id ∨ rec.sessionID = id ∧ rec.owner = .controller := by
  obtain ⟨x, hx, hid, howner⟩ := h
  rcases Table.mem_upsert.mp hx with rfl | ⟨hx, -⟩
  · exact .inr ⟨hid, howner⟩
  · exact .inl ⟨x, hx, hid, howner⟩

theorem held_register {sessionID msUUID : Str} {container : Except ExecSessionError Str}
    (hok : registerExecSession r sessionID msUUID container = .ok r') (h : Held r' id) :
    Held r id ∨ trimSpace sessionID = id := by
  unfold registerExecSession at hok
  split at hok
  · cases hok
  · split at hok
    · cases hok
    · split at hok
      · cases hok
      · simp only [register] at hok
        split at hok
        · cases hok
        · split at hok
          · cases hok
          · cases hok
            exact (held_upsert h).imp_right fun hnew => by
              simpa only [trimSpace_trimSpace] using hnew.1

theorem held_updateWhere {p : ExecSessionRecord → Bool}
    {f : ExecSessionRecord → ExecSessionRecord} {hf : ∀ rec, (f rec).sessionID = rec.sessionID}
    (h : Held (r.updateWhere p f hf) id) (howner : ∀ rec, (f rec).owner = rec.owner) :
    Held r id := by
  obtain ⟨x, hx, hid, hctl⟩ := h
  obtain ⟨y, hy, rfl⟩ := (Table.mem_updateWhere hf).mp hx
  refine ⟨y, hy, ?_, ?_⟩
  · split at hid
    · exact (hf y).symm.trans hid
    · exact hid
  · split at hctl
    · exact (howner y).symm.trans hctl
    · exact hctl

theorem held_setRuntimeExecID {sessionID engineExecID : Str}
    (h : Held (r.setRuntimeExecID sessionID engineExecID) id) : Held r id := by
  unfold setRuntimeExecID at h
  split at h
  · exact h
  · exact held_updateWhere h fun _ => rfl

variable {sessionID : Str}

theorem held_markStarted (h : Held (r.markStarted sessionID) id) : Held r id :=
  held_updateWhere h fun _ => rfl

theorem held_remove (h : Held (r.remove sessionID) id) : Held r id ∧ id ≠ trimSpace sessionID := by
  obtain ⟨x, hx, hid, howner⟩ := h
  obtain ⟨hx, hne⟩ := Table.mem_deleteWhere.mp hx
  exact ⟨⟨x, hx, hid, howner⟩, hid ▸ by simpa using hne⟩

theorem held_release (h : Held (releaseExecSession r sessionID .controller) id) :
    Held r id ∧ id ≠ trimSpace sessionID := by
  unfold releaseExecSession release at h
  cases hget : r.get? (trimSpace sessionID) with
  | none =>
    simp only [hget] at h
    refine ⟨h, ?_⟩
    rintro rfl
    obtain ⟨x, hx, hid, -⟩ := h
    rw [Table.get?_eq_some_iff.mpr ⟨hx, hid⟩] at hget
    cases hget
  | some rec =>
    simp only [hget] at h
    by_cases howner : rec.owner = .controller
    · simp only [howner, ne_eq, not_true_eq_false, if_false] at h
      exact held_remove h
    · simp only [ne_eq, howner, not_false_eq_true, if_true] at h
      refine ⟨h, ?_⟩
      rintro rfl
      obtain ⟨x, hx, hid, hctl⟩ := h
      rw [Table.get?_eq_some_iff.mpr ⟨hx, hid⟩, Option.some.injEq] at hget
      exact howner (hget ▸ hctl)

end Edgelet.ProcessManager
