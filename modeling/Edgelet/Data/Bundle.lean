import Edgelet.Keyed.Table
import Edgelet.Lexical.Text
import Edgelet.Machine.Threads

/-!
# The bundle that a binary carries

A binary unpacks its bundle of runtime files under the hash of the bundle. The link `current` points
at the bundle in use and `previous` at the one before; `pruneStaleExtracts` removes all others.
Several processes do this at once, and `extract` takes the lock only when it finds the bundle
incomplete: where it is ready, the links are changed without the lock.

Each call of the file system is one step, and fails only for what it finds. The links below `cni`
are left out; that part of `extract` may fail. A link is the name of a tree.
-/

namespace Edgelet.Data

open Lexical Machine Keyed

/-! ## Names -/

def isHexDigit (c : Char) : Bool :=
  ('0' ≤ c && c ≤ '9') || ('a' ≤ c && c ≤ 'f') || ('A' ≤ c && c ≤ 'F')

section

variable (d : Disk) (name : Str) (b : Str) (i : ℕ)

def isBundleHashName : Bool := name.length == 64 && name.all isHexDigit

def tmpSuffix : Str := "-tmp".toList

def staleExtractName : Str :=
  if tmpSuffix.isSuffixOf name then
    if isBundleHashName (name.take (name.length - 4)) then name.take (name.length - 4) else []
  else if isBundleHashName name then name else []

/-! ## The data directory -/

inductive Part
  | fatRuntime
  | shim
  | netAux
  deriving DecidableEq

structure Tree where
  fatRuntime : Bool
  shim : Bool
  netAux : Bool
  deriving DecidableEq

def Tree.has (t : Tree) : Part → Bool
  | .fatRuntime => t.fatRuntime
  | .shim => t.shim
  | .netAux => t.netAux

def Tree.complete : Tree := ⟨true, true, true⟩

abbrev Trees := Table fun entry : Str × Tree => entry.1

structure Disk where
  current : Option Str
  previous : Option Str
  trees : Trees
  lock : Option ℕ
  removed : List Str

def Disk.tree : Option Tree := (d.trees.get? name).map (·.2)

def Disk.Ready : Prop :=
  d.tree name = some Tree.complete

instance (d : Disk) (name : Str) : Decidable (d.Ready name) := inferInstanceAs (Decidable (_ = _))

def Disk.has (p : Part) : Bool := (d.tree name).any (·.has p)

def Disk.removeAll : Disk :=
  { d with
    trees := d.trees.deleteWhere (·.1 == name)
    removed := if d.Ready name then d.removed ++ [name] else d.removed }

def Disk.put (t : Tree) : Disk :=
  { d with trees := d.trees.upsert (name, t) }

/-! ## Extracting -/

inductive Promote
  | readlink
  | lstat
  | rename
  | symlink
  | cni
  deriving DecidableEq

inductive Branch
  | fast
  | locked
  | unpacked
  deriving DecidableEq

inductive Extract
  | check (br : Branch) (p : Part)
  | promote (br : Branch) (pc : Promote)
  | acquire
  | clearTemp
  | untar
  | stat
  | recheck (p : Part)
  | removeDir
  | renameTemp
  | cleanTemp (result : Option Str)
  | release (result : Option Str)
  | returned (result : Option Str)
  deriving DecidableEq

def Branch.return (result : Option Str) : Branch → Extract
  | .fast => .returned result
  | .locked => .release result
  | .unpacked => .cleanTemp result

def Part.next (p : Part) (check : Part → Extract) (ready : Extract) : Extract :=
  match p with
  | .fatRuntime => check .shim
  | .shim => check .netAux
  | .netAux => ready

/-- `promoteCurrentBundle`, call by call. A rename needs the link, and a new link that there is
none. -/
def Promote.act (d : Disk) (br : Branch) (ok : Bool) : Promote → Disk × Extract
  | .readlink => (d, .promote br (if d.current = some b then .cni else .lstat))
  | .lstat => (d, .promote br (if d.current.isSome then .rename else .symlink))
  | .rename =>
    match d.current with
    | some target => ({ d with current := none, previous := some target }, .promote br .symlink)
    | none => (d, br.return none)
  | .symlink =>
    match d.current with
    | some _ => (d, br.return none)
    | none => ({ d with current := some b }, .promote br .cni)
  | .cni => (d, br.return (if ok then some b else none))

def Extract.act (d : Disk) (ok : Bool) : Extract → Option (Disk × Extract)
  | .check br p =>
    some (d, if d.has b p then p.next (.check br) (.promote br .readlink)
      else match br with
        | .fast => .acquire
        | _ => .clearTemp)
  | .promote br pc => some (pc.act b d br ok)
  | .acquire =>
    if d.lock = none then some ({ d with lock := some i }, .check .locked .fatRuntime) else none
  | .clearTemp => some (d.removeAll (b ++ tmpSuffix), .untar)
  | .untar => some (d.put (b ++ tmpSuffix) .complete, .stat)
  | .stat => some (d, if (d.tree b).isSome then .recheck .fatRuntime else .renameTemp)
  | .recheck p =>
    some (d, if d.has b p then p.next .recheck (.promote .unpacked .readlink) else .removeDir)
  | .removeDir => some (d.removeAll b, .renameTemp)
  | .renameTemp =>
    match d.tree (b ++ tmpSuffix), d.tree b with
    | some t, none =>
      some ({ d with trees := (d.trees.deleteWhere (·.1 == b ++ tmpSuffix)).upsert (b, t) },
        .promote .unpacked .readlink)
    | _, _ => some (d, .cleanTemp none)
  | .cleanTemp result => some (d.removeAll (b ++ tmpSuffix), .release result)
  | .release result => some ({ d with lock := none }, .returned result)
  | .returned _ => none

/-! ## Pruning -/

inductive Prune
  | acquire
  | readCurrent
  | check (currentHash : Str) (p : Part)
  | readPrevious (currentHash : Str)
  | readDir (keep : List Str)
  | remove (pending : List Str)
  | release
  | returned
  deriving DecidableEq

def resolvedBundleHash (link : Option Str) : Option Str := link.filter isBundleHashName

def isStale (keep : List Str) (name : Str) : Bool :=
  !(staleExtractName name).isEmpty && !keep.contains (staleExtractName name)

def Prune.act (wantHash : Str) (execHash : Option Str) (i : ℕ) (d : Disk) :
    Prune → Option (Disk × Prune)
  | .acquire =>
    if wantHash = [] then some (d, .returned)
    else if d.lock = none then some ({ d with lock := some i }, .readCurrent)
    else none
  | .readCurrent =>
    match resolvedBundleHash d.current with
    | some currentHash => some (d, .check currentHash .fatRuntime)
    | none => some (d, .release)
  | .check currentHash p =>
    some (d, if d.has currentHash p then
      match p with
      | .fatRuntime => .check currentHash .shim
      | .shim => .check currentHash .netAux
      | .netAux => if currentHash = wantHash then .readPrevious currentHash else .release
    else .release)
  | .readPrevious currentHash =>
    some (d, .readDir ([currentHash, wantHash] ++ (resolvedBundleHash d.previous).toList ++
      execHash.toList))
  | .readDir keep => some (d, .remove ((d.trees.rows.map (·.1)).filter (isStale keep)))
  | .remove [] => some (d, .release)
  | .remove (name :: rest) => some (d.removeAll name, .remove rest)
  | .release => some ({ d with lock := none }, .returned)
  | .returned => none

/-! ## The system -/

inductive Process
  | extract (pc : Extract)
  | prune (wantHash : Str) (execHash : Option Str) (pc : Prune)

abbrev State := Threads Disk Process

def act (d : Disk) : Process → Bool → Option (Disk × Process)
  | .extract pc, ok => (pc.act b i d ok).map fun r => (r.1, .extract r.2)
  | .prune wantHash execHash pc, _ =>
    (pc.act wantHash execHash i d).map fun r => (r.1, .prune wantHash execHash r.2)

def step (s : State) (a : ℕ × Bool) : Option State := Threads.step (act b) s a

def Process.begins : Process → Bool
  | .extract pc => pc = .check .fast .fatRuntime
  | .prune _ _ pc => pc = .acquire

def Process.returned : Process → Bool
  | .extract (.returned _) => true
  | .prune _ _ .returned => true
  | _ => false

structure Bundles (a b : Str) : Prop where
  old : isBundleHashName a = true
  new : isBundleHashName b = true
  ne : a ≠ b

structure Start (a : Str) (s : State) : Prop where
  current : s.shared.current = some a
  ready : s.shared.Ready a
  lock : s.shared.lock = none
  removed : s.shared.removed = []
  begins : ∀ p ∈ s.threads, p.begins = true
  extract : ∃ pc, .extract pc ∈ s.threads

/-- **The new bundle is the current one**, the old one is the previous one, and neither was
removed, nor a directory that an `extract` returned. -/
structure Promoted (a b : Str) (s : State) : Prop where
  current : s.shared.current = some b
  ready : s.shared.Ready b
  previous : s.shared.previous = some a
  readyPrevious : s.shared.Ready a
  keptPrevious : a ∉ s.shared.removed
  kept : b ∉ s.shared.removed
  keptReturned : ∀ dir, .extract (.returned (some dir)) ∈ s.threads → dir ∉ s.shared.removed

/-- **The condition**: `current` is not renamed once it points at the new bundle, and a prune that
finds the new bundle ready keeps it. -/
def Orderly (d : Disk) : Process → Bool → Prop
  | .extract (.promote _ .rename), _ => d.current ≠ some b
  | .prune _ _ (.readDir keep), _ => d.Ready b → b ∈ keep
  | _, _ => True

end

instance (b : Str) (d : Disk) (p : Process) (ok : Bool) : Decidable (Orderly b d p ok) :=
  match p with
  | .extract (.promote _ pc) =>
    match pc with
    | .rename => inferInstanceAs (Decidable (d.current ≠ some b))
    | .readlink | .lstat | .symlink | .cni => isTrue trivial
  | .prune _ _ pc =>
    match pc with
    | .readDir keep => inferInstanceAs (Decidable (d.Ready b → b ∈ keep))
    | .acquire | .readCurrent | .check _ _ | .readPrevious _ | .remove _ | .release | .returned =>
      isTrue trivial
  | .extract (.check _ _) | .extract .acquire | .extract .clearTemp | .extract .untar
  | .extract .stat | .extract (.recheck _) | .extract .removeDir | .extract .renameTemp
  | .extract (.cleanTemp _) | .extract (.release _) | .extract (.returned _) => isTrue trivial

end Edgelet.Data
