import Mathlib.Data.List.Sort
import Edgelet.Codec.JsonText
import Edgelet.Machine.Threads

/-!
# Pulls of a model

The row of a model has its specification with a generation, and the last generation whose outcome is
known. `UpsertDesired` stores a specification, `Reconcile` starts a pull where `needsPull` says so,
and a pull, which takes the slot of the name, writes its outcome back.

Each access to the store, to the disk or to the slots is one step. One name is modelled; pulls of
others only make a pull wait. `StartPull` returns, so the thread that gets the slot goes on as the
pull. Progress, times and errors are left out.
-/

namespace Edgelet.ModelManager

open Lexical Json

/-! ## Specifications -/

structure Spec where
  registryID : ℤ
  repo : Str
  revision : Str
  files : List Str
  format : Str
  deriving DecidableEq

inductive RegistryType
  | oci
  | hf
  deriving DecidableEq

def RegistryType.text : RegistryType → Str
  | .oci => "oci".toList
  | .hf => "hf".toList

structure Env where
  sha256 : Str → Str
  toLower : Str → Str
  resolveRegistry : ℤ → Option RegistryType

def cleanedFiles (files : List Str) : List Str :=
  ((files.map trimSpace).filter (· ≠ [])).insertionSort fun a b => strLe a b

section

variable (env : Env) (row : Row) (reg : RegistryType) (s : Spec) (sh : Shared)

def Env.filesHash (files : List Str) : Str :=
  env.sha256 ((cleanedFiles files).flatMap (· ++ [Char.ofNat 0]))

def barred (id : ℤ) (a b c d : Str) : Str :=
  intText id ++ '|' :: a ++ '|' :: b ++ '|' :: c ++ '|' :: d

def Env.specFingerprint : Str :=
  barred s.registryID (trimSpace s.repo) (trimSpace s.revision) (env.filesHash s.files)
    (env.toLower (trimSpace s.format))

def Env.identityForDesired : Str :=
  barred s.registryID reg.text (trimSpace s.repo) (trimSpace s.revision) (env.filesHash s.files)

/-- What a pull fetches: blanks around the texts and the order of the files do not matter, and the
format is only a hint. -/
def Spec.identity : ℤ × Str × Str × List Str :=
  (s.registryID, trimSpace s.repo, trimSpace s.revision, cleanedFiles s.files)

def Env.normalizeDefaults : Spec :=
  { s with
    repo := trimSpace s.repo
    revision := trimSpace s.revision
    format := env.toLower (trimSpace s.format) }

/-! ## What is shared -/

inductive ModelState
  | pending
  | pulling
  | ready
  | failed
  deriving DecidableEq

/-- `LocalModel`, with the specification whose pull the recorded outcome is of. No function reads
that. -/
structure Row where
  spec : Spec
  generation : ℕ
  observedGeneration : ℕ
  state : ModelState
  pulled : Option Spec
  deriving DecidableEq

structure Manifest where
  registryID : ℤ
  registryType : RegistryType
  repo : Str
  requestedRevision : Str
  identityKey : Str
  of : Spec
  deriving DecidableEq

/-- The store, the slot, the semaphore and the disk; the thread of a pull is its operation.
`desired` is the last specification that `UpsertDesired` has written, which no function reads. -/
structure Shared where
  row : Option Row
  desired : Option Spec
  active : Option ℕ
  inFlight : ℕ
  manifest : Option Manifest
  content : Bool

def Shared.initial : Shared := ⟨none, none, none, 0, none, false⟩

def maxConcurrentPulls : ℕ := 2

/-! ## Functions on rows -/

def Env.upserted (incoming : Spec) : Option Row → Row
  | none => ⟨env.normalizeDefaults incoming, 1, 0, .pending, none⟩
  | some existing =>
    if env.specFingerprint existing.spec = env.specFingerprint (env.normalizeDefaults incoming) then
      { existing with spec := env.normalizeDefaults incoming }
    else ⟨env.normalizeDefaults incoming, existing.generation + 1, 0, .pending, none⟩

structure Outcome where
  state : ModelState
  of : Option Spec
  format : Option Str
  deriving DecidableEq

def Row.mark (current : Row) (o : Outcome) : Row where
  spec := match o.format with
    | none => current.spec
    | some format => { current.spec with format := format }
  generation := current.generation
  observedGeneration := current.generation
  state := o.state
  pulled := o.of

def Env.identityMatchesManifest (m : Manifest) : Bool :=
  if trimSpace m.identityKey ≠ [] then m.identityKey == env.identityForDesired reg s
  else m.registryID == s.registryID && m.registryType == reg &&
    trimSpace m.repo == trimSpace s.repo && trimSpace m.requestedRevision == trimSpace s.revision

def onDiskManifest : Manifest :=
  ⟨s.registryID, reg, s.repo, trimSpace s.revision, [], s⟩

def Env.canSkipPull (row : Row) : Option Bool :=
  (env.resolveRegistry row.spec.registryID).map fun reg =>
    sh.manifest.any (env.identityMatchesManifest reg row.spec) && sh.content

inductive Need
  | pull
  | skip
  | no
  | error
  deriving DecidableEq

def Env.needsPull (row : Row) : Need :=
  if sh.active.isSome then .no
  else if row.observedGeneration < row.generation then
    match env.canSkipPull sh row with
    | none => .error
    | some true => .skip
    | some false => .pull
  else
    match row.state with
    | .pending => .pull
    | .ready =>
      match env.canSkipPull sh row with
      | none => .error
      | some true => .no
      | some false => .pull
    | _ => .no

/-! ## Threads -/

inductive Caller
  | doPull
  | reconcile
  deriving DecidableEq

inductive Pc
  | upsertDesired (incoming : Spec)
  | upsertLocalModel (incoming : Spec) (existing : Option Row)
  | startPull
  | take
  | acquire
  | doPull
  | setState (row : Row)
  | setStateWrite (row current : Row)
  | canSkipPull (row : Row) (caller : Caller)
  | statContent (row : Row) (of : Spec) (caller : Caller)
  /-- Models `Pull` of an adapter: the files are fetched, and the content directory is replaced. -/
  | pull (row : Row) (reg : RegistryType)
  | writeManifest (row : Row) (reg : RegistryType)
  | recordIdentity (row : Row) (reg : RegistryType) (format : Option Str)
  | recordIdentityWrite (row : Row) (reg : RegistryType) (format : Option Str) (onDisk : Manifest)
  | mark (o : Outcome) (caller : Caller)
  | markWrite (o : Outcome) (current : Row) (caller : Caller)
  | releaseName (caller : Caller)
  | leave
  | deferredRelease
  | reconcile
  | hasActivePull (row : Row)
  | touchReconcile
  | touchReconcileWrite (current : Row)
  | removeContent
  | done
  deriving DecidableEq

inductive Answer
  | ok (format : Option Str)
  | fail (removed : Bool)

def Pc.fail : Pc := .mark ⟨.failed, some row.spec, none⟩ .doPull

def Caller.error : Caller → Pc
  | .doPull => .fail row
  | .reconcile => .done

def Caller.needed : Caller → Pc
  | .doPull => .pull row reg
  | .reconcile => .startPull

def Caller.skipped (of : Spec) : Caller → Pc
  | .doPull => .mark ⟨.ready, some of, none⟩ .doPull
  | .reconcile =>
    if row.observedGeneration < row.generation then .mark ⟨.ready, some of, none⟩ .reconcile
    else .touchReconcile

def Caller.next : Caller → Pc
  | .doPull => .leave
  | .reconcile => .touchReconcile

def Row.need : Pc :=
  if row.observedGeneration < row.generation then .canSkipPull row .reconcile
  else
    match row.state with
    | .pending => .startPull
    | .ready => .canSkipPull row .reconcile
    | _ => .touchReconcile

/-- **One step of a thread**, `none` when it has to wait or is done. -/
def act (i : ℕ) (sh : Shared) : Pc → Answer → Option (Shared × Pc)
  | .upsertDesired incoming, _ => some (sh, .upsertLocalModel incoming sh.row)
  | .upsertLocalModel incoming existing, _ =>
    some ({ sh with row := some (env.upserted incoming existing), desired := some incoming }, .done)
  | .startPull, .fail _ => some (sh, .done)
  | .startPull, .ok _ => some (sh, if sh.row.isSome then .take else .done)
  | .take, _ =>
    if sh.active.isSome then some (sh, .done) else some ({ sh with active := some i }, .acquire)
  | .acquire, _ =>
    if sh.inFlight < maxConcurrentPulls then some ({ sh with inFlight := sh.inFlight + 1 }, .doPull)
    else none
  | .doPull, _ =>
    match sh.row with
    | none => some (sh, .mark ⟨.failed, none, none⟩ .doPull)
    | some row => some (sh, .setState row)
  | .setState row, _ =>
    match sh.row with
    | none => some (sh, .fail row)
    | some current => some (sh, .setStateWrite row current)
  | .setStateWrite row current, _ =>
    some ({ sh with row := some { current with state := .pulling } }, .canSkipPull row .doPull)
  | .canSkipPull row caller, _ =>
    match env.resolveRegistry row.spec.registryID with
    | none => some (sh, caller.error row)
    | some reg =>
      match sh.manifest.filter (env.identityMatchesManifest reg row.spec) with
      | none => some (sh, caller.needed row reg)
      | some m => some (sh, .statContent row m.of caller)
  | .statContent row of caller, _ =>
    match env.resolveRegistry row.spec.registryID with
    | none => some (sh, caller.error row)
    | some reg => some (sh, if sh.content then caller.skipped row of else caller.needed row reg)
  | .pull row reg, .ok _ => some ({ sh with content := true }, .writeManifest row reg)
  | .pull row _, .fail removed =>
    some ({ sh with content := sh.content && !removed }, .fail row)
  | .writeManifest row reg, .ok format =>
    some ({ sh with manifest := some (onDiskManifest reg row.spec) },
      .recordIdentity row reg format)
  | .writeManifest row _, .fail _ => some (sh, .fail row)
  | .recordIdentity row reg format, _ =>
    match sh.manifest with
    | none => some (sh, .fail row)
    | some m => some (sh, .recordIdentityWrite row reg format m)
  | .recordIdentityWrite row reg format m, .ok _ =>
    some ({ sh with
      manifest := some { m with identityKey := env.identityForDesired reg row.spec } },
      .mark ⟨.ready, some row.spec, format⟩ .doPull)
  | .recordIdentityWrite row _ _ _, .fail _ => some (sh, .fail row)
  | .mark o caller, _ =>
    match sh.row with
    | none => some (sh, caller.next)
    | some current => some (sh, .markWrite o current caller)
  | .markWrite o current caller, _ =>
    some ({ sh with row := some (current.mark o) }, .releaseName caller)
  | .releaseName caller, _ => some ({ sh with active := none }, caller.next)
  | .leave, _ => some ({ sh with inFlight := sh.inFlight - 1 }, .deferredRelease)
  | .deferredRelease, _ => some ({ sh with active := none }, .done)
  | .reconcile, .fail _ => some (sh, .done)
  | .reconcile, .ok _ =>
    match sh.row with
    | none => some (sh, .done)
    | some row => some (sh, .hasActivePull row)
  | .hasActivePull row, _ => some (sh, if sh.active.isSome then .touchReconcile else row.need)
  | .touchReconcile, _ =>
    match sh.row with
    | none => some (sh, .done)
    | some current => some (sh, .touchReconcileWrite current)
  | .touchReconcileWrite current, _ => some ({ sh with row := some current }, .done)
  | .removeContent, _ => some ({ sh with content := false }, .done)
  | .done, _ => none

inductive Call
  | upsertDesired (incoming : Spec)
  | startPull
  | reconcile
  | removeContent

def Call.pc : Call → Pc
  | .upsertDesired incoming => .upsertDesired incoming
  | .startPull => .startPull
  | .reconcile => .reconcile
  | .removeContent => .removeContent

abbrev State := Machine.Threads Shared Pc

def start (calls : List Call) : State := ⟨.initial, calls.map Call.pc⟩

def step : State → ℕ × Answer → Option State := Machine.Threads.step (act env)

end

end Edgelet.ModelManager
