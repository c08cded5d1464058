import Edgelet.Keyed.Table
import Edgelet.Lexical.Text
import Edgelet.Machine.Threads

/-!
# The shared store of OCI artifacts

The store keeps blobs and manifests under their digests. `refs.json` says which model claims which,
and `CollectUnused` removes what nobody claims, in the order of the listing; here it may look at any
place at any time. A pull writes its blobs and manifest, claims them with `Track`, and unpacks the
model.

The lock is that of the `Store` value, and every pull and prune opens its own. Each access to a file
is one step. What was claimed and secured, and what was removed although it was claimed, is kept
beside the files; nothing reads it.
-/

namespace Edgelet.ModelPull

open Lexical Keyed

/-! ## Digests -/

abbrev Place := Str × Str

def Place.text (p : Place) : Str := p.1 ++ ':' :: p.2

variable (c : Char) (digest : Str) (refs : Refs) (job : Job)

def sha : Str := "sha256:".toList ++ List.replicate 64 c

def place : Place := ("sha256".toList, List.replicate 64 c)

def cutColon (s : Str) : Option (Str × Str) :=
  if s.contains ':' then some (s.takeWhile (· ≠ ':'), (s.dropWhile (· ≠ ':')).tail) else none

def isASCIIHexDigit : Bool :=
  c.isDigit || ('a' ≤ c && c ≤ 'f') || ('A' ≤ c && c ≤ 'F')

def wantLen (algo : Str) : Option ℕ :=
  if algo = "sha256".toList then some 64
  else if algo = "sha512".toList then some 128
  else none

def parseDigest : Option Place :=
  match cutColon (trimSpace digest) with
  | none => none
  | some (algo, hexPart) =>
    if wantLen algo = some hexPart.length ∧ hexPart.all isASCIIHexDigit = true then
      some (algo, hexPart.map Char.toLower)
    else none

def Canonical : Prop := ∀ p, parseDigest digest = some p → digest = p.text

/-! ## Claims -/

structure ModelRef where
  digest : Str
  blobs : List Str
  deriving DecidableEq

def uniqueDigests (digests : List Str) : List Str :=
  ((digests.map trimSpace).filter (· ≠ [])).foldl
    (fun out d => if out.contains d then out else out ++ [d]) []

abbrev Refs := Table fun e : Str × ModelRef => e.1

def usedBlobs : List Str :=
  refs.rows.flatMap fun e => (e.2.blobs.map trimSpace).filter (· ≠ [])

def usedManifests : List Str :=
  (refs.rows.map fun e => trimSpace e.2.digest).filter (· ≠ [])

inductive Update
  | track (modelName : Str) (ref : ModelRef)
  | release (modelName : Str)

def Update.apply : Update → Refs → Refs
  | .track modelName ref, refs => refs.upsert (modelName, ref)
  | .release modelName, refs => refs.deleteWhere (·.1 == modelName)

def Update.writes : Update → Refs → Bool
  | .track .., _ => true
  | .release modelName, refs => (refs.get? modelName).isSome

structure Claim where
  modelName : Str
  ref : ModelRef
  pulled : Bool
  deriving DecidableEq

structure Job where
  name : Str
  digest : Str
  config : Str
  layers : List Str

def Job.files : List Str := (job.config :: job.layers).filter (· ≠ [])

def Job.ref : ModelRef := ⟨trimSpace job.digest, uniqueDigests job.files⟩

/-! ## What is shared -/

/-- The files of the store, the locks of the `Store` values with the threads that hold them, and
what was claimed, secured by pulls, reported and removed although it was claimed. -/
structure Files where
  refs : Refs
  index : List Str
  blobs : List Place
  manifests : List Place
  locks : ℕ → Option ℕ
  claims : Table Claim.modelName
  secured : List (ℕ × Place)
  succeeded : List (Str × ModelRef)
  wronged : List Place

def Files.empty : Files := ⟨Table.empty _, [], [], [], fun _ => none, Table.empty _, [], [], []⟩

namespace Files

variable (sh : Files) (i : ℕ) (p : Place)

def secure : Files := { sh with secured := (i, p) :: sh.secured }

def abandon : Files :=
  { sh with secured := sh.secured.filter (·.1 != i) }

def claimsBlob : Bool :=
  sh.claims.rows.any fun c => c.ref.blobs.any fun b => parseDigest b = some p

def claimsManifest : Bool :=
  sh.claims.rows.any fun c => parseDigest c.ref.digest = some p

def removeBlob : Files :=
  { sh with
    blobs := sh.blobs.filter (· ≠ p)
    wronged := if sh.claimsBlob p then p :: sh.wronged else sh.wronged }

def removeManifest : Files :=
  { sh with
    manifests := sh.manifests.filter (· ≠ p)
    wronged := if sh.claimsManifest p then p :: sh.wronged else sh.wronged }

def complete (pulled : Bool) : Update → Files
  | .track modelName ref => { sh with claims := sh.claims.upsert ⟨modelName, ref, pulled⟩ }
  | .release modelName => { sh with claims := sh.claims.deleteWhere (·.modelName == modelName) }

def setLock (h : ℕ) (owner : Option ℕ) : Files :=
  { sh with locks := fun k => if k = h then owner else sh.locks k }

end Files

/-! ## Threads -/

inductive Task
  | update (u : Update) (next : Option Job)
  | collect

inductive Pc
  | hasBlob (job : Job) (todo : List Str)
  | writeBlob (job : Job) (p : Place) (todo : List Str)
  | writeManifest (job : Job)
  | readIndex (job : Job)
  | writeIndex (job : Job) (index : List Str)
  | lock (task : Task)
  | readRefs (u : Update) (next : Option Job)
  | writeRefs (u : Update) (refs : Refs) (next : Option Job)
  | unlock (next : Option Job)
  | unpack (job : Job) (todo : List Str)
  | collectRefs
  | collectBlobs (refs : Refs)
  | collectIndex (refs : Refs)
  | collectManifests (refs : Refs) (index todo kept : List Str)
  | collectWrite (kept : List Str)
  | done

inductive Answer
  | ok
  | fail
  | visit (p : Place)

def upsertID (index : List Str) (id : Str) : List Str :=
  if index.contains id then index else index ++ [id]

def Task.begin : Task → Pc
  | .update u next => .readRefs u next
  | .collect => .collectRefs

def afterUnlock : Option Job → Pc
  | none => .done
  | some job => .unpack job job.layers

/-- **One step of a thread**, `none` when it has to wait or is done. `handle` says which `Store`
value a thread has. -/
def act (handle : ℕ → ℕ) (i : ℕ) (sh : Files) : Pc → Answer → Option (Files × Pc)
  | .hasBlob job [], _ => some (sh, .writeManifest job)
  | .hasBlob job (digest :: todo), _ =>
    match parseDigest digest with
    | none => some (sh.abandon i, .done)
    | some p =>
      if sh.blobs.contains p then some (sh.secure i p, .hasBlob job todo)
      else some (sh, .writeBlob job p todo)
  | .writeBlob job p todo, .ok =>
    some ({ sh with blobs := p :: sh.blobs }.secure i p, .hasBlob job todo)
  | .writeBlob .., _ => some (sh.abandon i, .done)
  | .writeManifest job, .ok =>
    match parseDigest job.digest with
    | none => some (sh.abandon i, .done)
    | some p => some ({ sh with manifests := p :: sh.manifests }, .readIndex job)
  | .writeManifest _, _ => some (sh.abandon i, .done)
  | .readIndex job, _ => some (sh, .writeIndex job sh.index)
  | .writeIndex job index, .ok =>
    if trimSpace job.name = [] then
      some ({ sh with index := upsertID index job.digest }.abandon i, .done)
    else some ({ sh with index := upsertID index job.digest },
      .lock (.update (.track (trimSpace job.name) job.ref) (some job)))
  | .writeIndex .., _ => some (sh.abandon i, .done)
  | .lock task, _ =>
    if (sh.locks (handle i)).isSome then none
    else some (sh.setLock (handle i) (some i), task.begin)
  | .readRefs u next, _ =>
    some (if u.writes sh.refs then (sh, .writeRefs u sh.refs next)
      else (sh.complete next.isSome u, .unlock next))
  | .writeRefs u refs next, .ok =>
    some (({ sh with refs := u.apply refs }.complete next.isSome u).abandon i, .unlock next)
  | .writeRefs .., _ => some (sh.abandon i, .unlock none)
  | .unlock next, _ => some (sh.setLock (handle i) none, afterUnlock next)
  | .unpack job (digest :: todo), .ok =>
    match parseDigest digest with
    | none => some (sh, .done)
    | some p => some (sh, if sh.blobs.contains p then .unpack job todo else .done)
  | .unpack job [], .ok =>
    some ({ sh with succeeded := (trimSpace job.name, job.ref) :: sh.succeeded }, .done)
  | .unpack .., _ => some (sh, .done)
  | .collectRefs, _ => some (sh, .collectBlobs sh.refs)
  | .collectBlobs refs, .visit p =>
    some (if (usedBlobs refs).contains p.text then (sh, .collectBlobs refs)
      else (sh.removeBlob p, .collectBlobs refs))
  | .collectBlobs refs, _ => some (sh, .collectIndex refs)
  | .collectIndex refs, _ => some (sh, .collectManifests refs sh.index sh.index [])
  | .collectManifests refs index (id :: todo) kept, _ =>
    if (usedManifests refs).contains id then
      some (sh, .collectManifests refs index todo (kept ++ [id]))
    else
      match parseDigest id with
      | none => some (sh, .collectManifests refs index todo kept)
      | some p => some (sh.removeManifest p, .collectManifests refs index todo kept)
  | .collectManifests _ index [] kept, _ =>
    some (sh, if kept.length = index.length then .unlock none else .collectWrite kept)
  | .collectWrite kept, _ => some ({ sh with index := kept }, .unlock none)
  | .done, _ => none

inductive Call
  | pull (job : Job)
  | track (modelName digest : Str) (blobs : List Str)
  | release (modelName : Str)
  | collectUnused

def Call.pc : Call → Pc
  | .pull job => .hasBlob job job.files
  | .track modelName digest blobs =>
    if trimSpace modelName = [] then .done
    else .lock (.update (.track (trimSpace modelName) ⟨trimSpace digest, uniqueDigests blobs⟩) none)
  | .release modelName =>
    if trimSpace modelName = [] then .done
    else .lock (.update (.release (trimSpace modelName)) none)
  | .collectUnused => .lock .collect

abbrev State := Machine.Threads Files Pc

def start (calls : List Call) : State := ⟨.empty, calls.map Call.pc⟩

def step (handle : ℕ → ℕ) : State → ℕ × Answer → Option State := Machine.Threads.step (act handle)

end Edgelet.ModelPull
