import Mathlib.Logic.Function.Basic
import Edgelet.ModelPull.Store

/-!
# Writing a blob

`writeBlob` writes to the incomplete file of the digest, compares the hash and renames it. Two calls
for one digest share that file: one may write to it after the other has compared the hash.

An opened file stays the same when it is renamed or removed; files are numbered. Each call of the
file system is one step, and a file is written and read in any number of calls. Which call is
writing a digest is remembered beside the state.
-/

namespace Edgelet.ModelPull

open Lexical Machine

/-! ## Files -/

abbrev Bytes := List UInt8

structure Disk where
  incomplete : Place → Option ℕ
  blob : Place → Option ℕ
  bytes : ℕ → Bytes
  next : ℕ
  writer : Place → Option ℕ

def Disk.empty : Disk := ⟨fun _ => none, fun _ => none, fun _ => [], 0, fun _ => none⟩

namespace Disk

variable (d : Disk) (p : Place) (file : ℕ)

def setIncomplete (file : Option ℕ) : Disk :=
  { d with incomplete := Function.update d.incomplete p file }

def setBytes (bytes : Bytes) : Disk :=
  { d with bytes := Function.update d.bytes file bytes }

def setWriter (writer : Option ℕ) : Disk :=
  { d with writer := Function.update d.writer p writer }

def create : Disk :=
  { d.setIncomplete p (some d.next) with
    bytes := Function.update d.bytes d.next []
    next := d.next + 1 }

def rename : Disk :=
  { d.setIncomplete p none with blob := Function.update d.blob p (some file) }

end Disk

def writeAt (old : Bytes) (offset : ℕ) (data : Bytes) : Bytes :=
  old.take offset ++ List.replicate (offset - old.length) 0 ++ data ++
    old.drop (offset + data.length)

/-! ## Calls -/

structure WriteBlob where
  digest : Str
  appendIncomplete : Bool
  expectedSize : ℤ
  deriving DecidableEq

inductive BlobPc
  | hasBlob (c : WriteBlob)
  | reset (c : WriteBlob) (p : Place)
  | openFile (c : WriteBlob) (p : Place)
  /-- The `io.Copy` to the file. -/
  | copy (c : WriteBlob) (p : Place) (file offset : ℕ)
  | stat (c : WriteBlob) (p : Place)
  | openVerify (p : Place)
  | verify (p : Place) (file : ℕ) (read : Bytes)
  | removeMismatch (p : Place)
  | rename (p : Place)
  | returned (ok : Bool)
  deriving DecidableEq

inductive BlobAnswer
  | ok
  | fail
  | chunk (data : Bytes)
  | read (n : ℕ)

variable (sha256 : Bytes → Str) (d : Disk)

def Disk.finish (p : Place) (ok : Bool) : Disk × BlobPc :=
  (d.setWriter p none, .returned ok)

/-- **One step of `writeBlob`**, `none` when the call has returned. -/
def writeBlobAct (i : ℕ) (d : Disk) : BlobPc → BlobAnswer → Option (Disk × BlobPc)
  | .hasBlob _, .fail => some (d, .returned false)
  | .hasBlob c, _ =>
    match parseDigest c.digest with
    | none => some (d, .returned false)
    | some p =>
      if (d.blob p).isSome then some (d, .returned true)
      else some (d.setWriter p (some i), if c.appendIncomplete then .openFile c p else .reset c p)
  | .reset _ p, .fail => some (d.finish p false)
  | .reset c p, _ => some (d.setIncomplete p none, .openFile c p)
  | .openFile _ p, .fail => some (d.finish p false)
  | .openFile c p, _ =>
    match d.incomplete p with
    | none => some (d.create p, .copy c p d.next 0)
    | some file =>
      some (if c.appendIncomplete then d else d.setBytes file [], .copy c p file 0)
  | .copy c p file offset, .chunk data =>
    some (d.setBytes file (writeAt (d.bytes file)
      (if c.appendIncomplete then (d.bytes file).length else offset) data),
      .copy c p file (offset + data.length))
  | .copy _ p _ _, .fail => some (d.finish p false)
  | .copy c p _ _, _ => some (d, .stat c p)
  | .stat _ p, .fail => some (d.finish p false)
  | .stat c p, _ =>
    match d.incomplete p with
    | none => some (d.finish p false)
    | some file =>
      if 0 < c.expectedSize ∧ (d.bytes file).length < c.expectedSize then some (d.finish p false)
      else some (d, .openVerify p)
  | .openVerify p, .fail => some (d.finish p false)
  | .openVerify p, _ =>
    if p.1 = "sha256".toList then
      match d.incomplete p with
      | none => some (d.finish p false)
      | some file => some (d, .verify p file [])
    else some (d.finish p false)
  | .verify p _ _, .fail => some (d.finish p false)
  | .verify p file read, .read n =>
    some (d, .verify p file (read ++ ((d.bytes file).drop read.length).take n))
  | .verify p file read, _ =>
    if (d.bytes file).length ≤ read.length then
      some (d, if sha256 read = p.2 then .rename p else .removeMismatch p)
    else none
  | .removeMismatch p, .fail => some (d.finish p false)
  | .removeMismatch p, _ => some ((d.setIncomplete p none).finish p false)
  | .rename p, .fail => some (d.finish p false)
  | .rename p, _ =>
    match d.incomplete p with
    | none => some (d.finish p false)
    | some file => some ((d.rename p file).finish p true)
  | .returned _, _ => none

abbrev BlobState := Threads Disk BlobPc

def startBlobs (calls : List WriteBlob) : BlobState := ⟨.empty, calls.map .hasBlob⟩

def stepBlobs : BlobState → ℕ × BlobAnswer → Option BlobState :=
  Threads.step (writeBlobAct sha256)

/-- **Every blob matches its digest.** -/
def Matches : Prop :=
  ∀ p file, d.blob p = some file → p.1 = "sha256".toList ∧ sha256 (d.bytes file) = p.2

def Alone : BlobPc → BlobAnswer → Prop
  | .hasBlob c, _ => ∀ p, parseDigest c.digest = some p → d.writer p = none
  | _, _ => True

/-! ## What holds of the files -/

section Files

variable {sha256 : Bytes → Str} {d : Disk} {p : Place} {file : ℕ}

/-- **The invariant of the store**: the blobs match, and a file has at most one name that a writer
may use. -/
structure Sound (sha256 : Bytes → Str) (d : Disk) : Prop where
  blobs : Matches sha256 d
  incomplete_lt : ∀ p file, d.incomplete p = some file → file < d.next
  blob_lt : ∀ p file, d.blob p = some file → file < d.next
  apart : ∀ p q file, d.incomplete p = some file → d.incomplete q = some file → p = q
  not_blob : ∀ p q file, d.incomplete p = some file → d.blob q ≠ some file

theorem Sound.setWriter (h : Sound sha256 d) (writer : Option ℕ) :
    Sound sha256 (d.setWriter p writer) :=
  ⟨h.blobs, h.incomplete_lt, h.blob_lt, h.apart, h.not_blob⟩

variable {q : Place}

theorem of_update_eq_some {names : Place → Option ℕ} {name : Option ℕ}
    (h : Function.update names p name q = some file) :
    q = p ∧ name = some file ∨ q ≠ p ∧ names q = some file := by
  by_cases hq : q = p
  · subst hq
    rw [Function.update_self] at h
    exact .inl ⟨rfl, h⟩
  · rw [Function.update_of_ne hq] at h
    exact .inr ⟨hq, h⟩

theorem incomplete_of_removed (h : (d.setIncomplete p none).incomplete q = some file) :
    q ≠ p ∧ d.incomplete q = some file :=
  (of_update_eq_some h).resolve_left fun hp => nomatch hp.2

theorem Sound.remove (h : Sound sha256 d) : Sound sha256 (d.setIncomplete p none) where
  blobs := h.blobs
  incomplete_lt q file hq := h.incomplete_lt q file (incomplete_of_removed hq).2
  blob_lt := h.blob_lt
  apart q r file hq hr := h.apart q r file (incomplete_of_removed hq).2 (incomplete_of_removed hr).2
  not_blob q r file hq := h.not_blob q r file (incomplete_of_removed hq).2

theorem Sound.setBytes (h : Sound sha256 d) (hp : d.incomplete p = some file) (bytes : Bytes) :
    Sound sha256 (d.setBytes file bytes) where
  blobs q f hq := by
    have hf : f ≠ file := by
      rintro rfl
      exact h.not_blob p q f hp hq
    have hbytes : (d.setBytes file bytes).bytes f = d.bytes f := Function.update_of_ne hf _ _
    rw [hbytes]
    exact h.blobs q f hq
  incomplete_lt := h.incomplete_lt
  blob_lt := h.blob_lt
  apart := h.apart
  not_blob := h.not_blob

theorem bytes_create (hlt : file < d.next) : (d.create p).bytes file = d.bytes file :=
  Function.update_of_ne (Nat.ne_of_lt hlt) _ _

theorem Sound.create (h : Sound sha256 d) : Sound sha256 (d.create p) where
  blobs q f hq := by
    rw [bytes_create (h.blob_lt q f hq)]
    exact h.blobs q f hq
  incomplete_lt q f hq := by
    rcases of_update_eq_some hq with ⟨-, ⟨⟩⟩ | ⟨-, hq⟩
    · exact Nat.lt_succ_self _
    · exact Nat.lt_succ_of_lt (h.incomplete_lt q f hq)
  blob_lt q f hq := Nat.lt_succ_of_lt (h.blob_lt q f hq)
  apart q r f hq hr := by
    rcases of_update_eq_some hq with ⟨rfl, ⟨⟩⟩ | ⟨-, hold⟩ <;>
      rcases of_update_eq_some hr with ⟨rfl, hf⟩ | ⟨-, hold'⟩
    · rfl
    · exact absurd (h.incomplete_lt r _ hold') (Nat.lt_irrefl _)
    · exact absurd (Option.some.inj hf ▸ h.incomplete_lt q f hold) (Nat.lt_irrefl _)
    · exact h.apart q r f hold hold'
  not_blob q r f hq hr := by
    rcases of_update_eq_some hq with ⟨-, ⟨⟩⟩ | ⟨-, hq⟩
    · exact Nat.lt_irrefl _ (h.blob_lt r _ hr)
    · exact h.not_blob q r f hq hr

/-- **The rename keeps the invariant when the file has the hash at that time.** -/
theorem Sound.rename (h : Sound sha256 d) (hp : d.incomplete p = some file)
    (hhash : p.1 = "sha256".toList ∧ sha256 (d.bytes file) = p.2) :
    Sound sha256 (d.rename p file) where
  blobs q f hq := by
    rcases of_update_eq_some hq with ⟨rfl, ⟨⟩⟩ | ⟨-, hq⟩
    · exact hhash
    · exact h.blobs q f hq
  incomplete_lt q f hq := h.incomplete_lt q f (incomplete_of_removed hq).2
  blob_lt q f hq := by
    rcases of_update_eq_some hq with ⟨-, ⟨⟩⟩ | ⟨-, hq⟩
    · exact h.incomplete_lt p file hp
    · exact h.blob_lt q f hq
  apart q r f hq hr := h.apart q r f (incomplete_of_removed hq).2 (incomplete_of_removed hr).2
  not_blob q r f hq hr := by
    obtain ⟨hne, hold⟩ := incomplete_of_removed hq
    rcases of_update_eq_some hr with ⟨-, ⟨⟩⟩ | ⟨-, hr⟩
    · exact hne (h.apart q p file hold hp)
    · exact h.not_blob q r f hold hr

end Files

/-! ## What a call knows, and what it leaves to the others -/

section Calls

variable {sha256 : Bytes → Str} {d d' : Disk} {p : Place} {i : ℕ}

def Knows (sha256 : Bytes → Str) (i : ℕ) (d : Disk) : BlobPc → Prop
  | .hasBlob _ | .returned _ => True
  | .reset _ p | .openFile _ p | .stat _ p | .openVerify p | .removeMismatch p =>
    d.writer p = some i
  | .copy _ p file _ => d.writer p = some i ∧ d.incomplete p = some file
  | .verify p file read =>
    d.writer p = some i ∧ d.incomplete p = some file ∧ p.1 = "sha256".toList ∧
      read = (d.bytes file).take read.length
  | .rename p =>
    d.writer p = some i ∧ ∀ file, d.incomplete p = some file →
      p.1 = "sha256".toList ∧ sha256 (d.bytes file) = p.2

/-- **The digests of the other calls are left alone**: who writes them, and their incomplete files
with all bytes. -/
def Spares (i : ℕ) (d d' : Disk) : Prop :=
  ∀ j, j ≠ i → ∀ p, d.writer p = some j →
    d'.writer p = some j ∧ d'.incomplete p = d.incomplete p ∧
      ∀ file, d.incomplete p = some file → d'.bytes file = d.bytes file

theorem Spares.refl : Spares i d d := fun _ _ _ hp => ⟨hp, rfl, fun _ _ => rfl⟩

theorem Spares.trans {d'' : Disk} (h : Spares i d d') (h' : Spares i d' d'') : Spares i d d'' := by
  intro j hj p hp
  obtain ⟨hp', hincomplete, hbytes⟩ := h j hj p hp
  obtain ⟨hp'', hincomplete', hbytes'⟩ := h' j hj p hp'
  refine ⟨hp'', hincomplete'.trans hincomplete, fun file hfile => ?_⟩
  exact (hbytes' file (hincomplete.trans hfile)).trans (hbytes file hfile)

theorem ne_of_writer {j : ℕ} {q : Place} (hj : j ≠ i) (hp : ∀ k, d.writer p = some k → k = i)
    (hq : d.writer q = some j) : q ≠ p := by
  rintro rfl
  exact hj (hp j hq)

theorem only_of_writer (hp : d.writer p = some i) : ∀ k, d.writer p = some k → k = i :=
  fun _ hk => Option.some.inj (hk.symm.trans hp)

theorem spares_setWriter (hp : ∀ k, d.writer p = some k → k = i) (writer : Option ℕ) :
    Spares i d (d.setWriter p writer) := by
  intro j hj q hq
  refine ⟨?_, rfl, fun _ _ => rfl⟩
  exact (Function.update_of_ne (ne_of_writer hj hp hq) _ _).trans hq

theorem spares_setIncomplete (hp : d.writer p = some i) (file : Option ℕ) :
    Spares i d (d.setIncomplete p file) := by
  intro j hj q hq
  refine ⟨hq, ?_, fun _ _ => rfl⟩
  exact Function.update_of_ne (ne_of_writer hj (only_of_writer hp) hq) _ _

theorem spares_setBytes {file : ℕ} (h : Sound sha256 d) (hp : d.writer p = some i)
    (hfile : d.incomplete p = some file) (bytes : Bytes) : Spares i d (d.setBytes file bytes) := by
  intro j hj q hq
  refine ⟨hq, rfl, fun f hf => Function.update_of_ne ?_ _ _⟩
  rintro rfl
  exact ne_of_writer hj (only_of_writer hp) hq (h.apart q p f hf hfile)

theorem spares_create (h : Sound sha256 d) (hp : d.writer p = some i) :
    Spares i d (d.create p) := by
  intro j hj q hq
  refine ⟨hq, ?_, fun f hf => bytes_create (h.incomplete_lt q f hf)⟩
  exact Function.update_of_ne (ne_of_writer hj (only_of_writer hp) hq) _ _

theorem spares_rename (hp : d.writer p = some i) (file : ℕ) : Spares i d (d.rename p file) :=
  spares_setIncomplete hp none

variable {pc : BlobPc}

theorem Knows.stable {j : ℕ} (hj : j ≠ i) (hspares : Spares i d d')
    (h : Knows sha256 j d pc) : Knows sha256 j d' pc := by
  cases pc with
  | hasBlob _ | returned _ => trivial
  | reset _ p | openFile _ p | stat _ p | openVerify p | removeMismatch p =>
    exact (hspares j hj p h).1
  | copy _ p file _ =>
    obtain ⟨hp, hfile⟩ := h
    obtain ⟨hp', hincomplete, -⟩ := hspares j hj p hp
    exact ⟨hp', hincomplete.trans hfile⟩
  | verify p file read =>
    obtain ⟨hp, hfile, halgo, hread⟩ := h
    obtain ⟨hp', hincomplete, hbytes⟩ := hspares j hj p hp
    exact ⟨hp', hincomplete.trans hfile, halgo, (hbytes file hfile).symm ▸ hread⟩
  | rename p =>
    obtain ⟨hp, hhash⟩ := h
    obtain ⟨hp', hincomplete, hbytes⟩ := hspares j hj p hp
    refine ⟨hp', fun file hfile => ?_⟩
    rw [hincomplete] at hfile
    rw [hbytes file hfile]
    exact hhash file hfile

/-! ## Steps -/

structure StepsTo (sha256 : Bytes → Str) (i : ℕ) (d : Disk) (next : Disk × BlobPc) : Prop where
  sound : Sound sha256 next.1
  knows : Knows sha256 i next.1 next.2
  spares : Spares i d next.1

theorem StepsTo.stay (h : Sound sha256 d) (hpc : Knows sha256 i d pc) :
    StepsTo sha256 i d (d, pc) := ⟨h, hpc, .refl⟩

theorem StepsTo.finish_after (h : Sound sha256 d') (hp : d'.writer p = some i)
    (hspares : Spares i d d') (ok : Bool) : StepsTo sha256 i d (d'.finish p ok) :=
  ⟨h.setWriter none, trivial, hspares.trans (spares_setWriter (only_of_writer hp) none)⟩

theorem StepsTo.finish (h : Sound sha256 d) (hp : d.writer p = some i) (ok : Bool) :
    StepsTo sha256 i d (d.finish p ok) := .finish_after h hp .refl ok

variable {next : Disk × BlobPc} {answer : BlobAnswer}

theorem stepsTo_hasBlob {c : WriteBlob} (h : Sound sha256 d) (halone : Alone d (.hasBlob c) answer)
    (hnext : writeBlobAct sha256 i d (.hasBlob c) answer = some next) :
    StepsTo sha256 i d next := by
  have hbegin : ∀ p, parseDigest c.digest = some p →
      StepsTo sha256 i d (d.setWriter p (some i),
        if c.appendIncomplete then .openFile c p else .reset c p) := by
    intro p hp
    have hnone : d.writer p = none := halone p hp
    refine ⟨h.setWriter _, ?_, spares_setWriter (fun k hk => ?_) _⟩
    · have hwriter : (d.setWriter p (some i)).writer p = some i := Function.update_self ..
      cases c.appendIncomplete <;> exact hwriter
    · rw [hnone] at hk
      cases hk
  cases answer with
  | fail =>
    cases hnext
    exact .stay h trivial
  | ok | chunk _ | read _ =>
    simp only [writeBlobAct] at hnext
    split at hnext
    · cases hnext
      exact .stay h trivial
    next p hp =>
      split at hnext
      · cases hnext
        exact .stay h trivial
      · cases hnext
        exact hbegin p hp

theorem stepsTo_openFile {c : WriteBlob} (h : Sound sha256 d) (hp : d.writer p = some i)
    (hnext : writeBlobAct sha256 i d (.openFile c p) answer = some next) :
    StepsTo sha256 i d next := by
  cases answer with
  | fail =>
    cases hnext
    exact .finish h hp false
  | ok | chunk _ | read _ =>
    simp only [writeBlobAct] at hnext
    split at hnext
    · cases hnext
      exact ⟨h.create, ⟨hp, Function.update_self ..⟩, spares_create h hp⟩
    next file hfile =>
      cases hnext
      cases c.appendIncomplete with
      | true => exact .stay h ⟨hp, hfile⟩
      | false => exact ⟨h.setBytes hfile [], ⟨hp, hfile⟩, spares_setBytes h hp hfile []⟩

theorem take_of_read {bytes read : Bytes} (h : read = bytes.take read.length) (n : ℕ) :
    read ++ (bytes.drop read.length).take n =
      bytes.take (read ++ (bytes.drop read.length).take n).length := by
  have hmore : read ++ (bytes.drop read.length).take n = bytes.take (read.length + n) := by
    rw [List.take_add, ← h]
  rw [hmore, List.length_take, List.take_eq_take_min]

/-- **The hash is compared once all of the file was read.** -/
theorem stepsTo_verify {file : ℕ} {read : Bytes}
    (h : Sound sha256 d) (hknows : Knows sha256 i d (.verify p file read))
    (hnext : writeBlobAct sha256 i d (.verify p file read) answer = some next) :
    StepsTo sha256 i d next := by
  obtain ⟨hp, hfile, halgo, hread⟩ := hknows
  cases answer with
  | fail =>
    cases hnext
    exact .finish h hp false
  | read n =>
    cases hnext
    exact .stay h ⟨hp, hfile, halgo, take_of_read hread n⟩
  | ok | chunk _ =>
    simp only [writeBlobAct] at hnext
    split at hnext
    next hend =>
      cases hnext
      have hall : read = d.bytes file := by rw [hread, List.take_of_length_le hend]
      split
      next hhash =>
        refine .stay h ⟨hp, fun f hf => ⟨halgo, ?_⟩⟩
        rw [← Option.some.inj (hfile.symm.trans hf), ← hall]
        exact hhash
      · exact .stay h hp
    · cases hnext

theorem stepsTo_rename (h : Sound sha256 d) (hknows : Knows sha256 i d (.rename p))
    (hnext : writeBlobAct sha256 i d (.rename p) answer = some next) : StepsTo sha256 i d next := by
  obtain ⟨hp, hhash⟩ := hknows
  cases answer with
  | fail =>
    cases hnext
    exact .finish h hp false
  | ok | chunk _ | read _ =>
    simp only [writeBlobAct] at hnext
    split at hnext
    · cases hnext
      exact .finish h hp false
    next file hfile =>
      cases hnext
      exact .finish_after (h.rename hfile (hhash file hfile)) hp (spares_rename hp file) true

/-- **Every step of a call that is alone** keeps the invariant, leads to what the call then knows,
and leaves the digests of the other calls alone. -/
theorem stepsTo_act (h : Sound sha256 d) (hknows : Knows sha256 i d pc) (halone : Alone d pc answer)
    (hnext : writeBlobAct sha256 i d pc answer = some next) : StepsTo sha256 i d next := by
  cases pc with
  | hasBlob c => exact stepsTo_hasBlob h halone hnext
  | reset c p =>
    cases answer with
    | fail =>
      cases hnext
      exact .finish h hknows false
    | ok | chunk _ | read _ =>
      cases hnext
      exact ⟨h.remove, hknows, spares_setIncomplete hknows none⟩
  | openFile c p => exact stepsTo_openFile h hknows hnext
  | copy c p file offset =>
    obtain ⟨hp, hfile⟩ := hknows
    cases answer with
    | fail =>
      cases hnext
      exact .finish h hp false
    | chunk data =>
      cases hnext
      exact ⟨h.setBytes hfile _, ⟨hp, hfile⟩, spares_setBytes h hp hfile _⟩
    | ok | read _ =>
      cases hnext
      exact .stay h hp
  | stat c p =>
    cases answer with
    | fail =>
      cases hnext
      exact .finish h hknows false
    | ok | chunk _ | read _ =>
      simp only [writeBlobAct] at hnext
      split at hnext
      · cases hnext
        exact .finish h hknows false
      · split at hnext <;> cases hnext
        · exact .finish h hknows false
        · exact .stay h hknows
  | openVerify p =>
    cases answer with
    | fail =>
      cases hnext
      exact .finish h hknows false
    | ok | chunk _ | read _ =>
      simp only [writeBlobAct] at hnext
      split at hnext
      next halgo =>
        split at hnext
        · cases hnext
          exact .finish h hknows false
        next file hfile =>
          cases hnext
          exact .stay h ⟨hknows, hfile, halgo, rfl⟩
      · cases hnext
        exact .finish h hknows false
  | verify p file read => exact stepsTo_verify h hknows hnext
  | removeMismatch p =>
    cases answer with
    | fail =>
      cases hnext
      exact .finish h hknows false
    | ok | chunk _ | read _ =>
      cases hnext
      exact .finish_after h.remove hknows (spares_setIncomplete hknows none) false
  | rename p => exact stepsTo_rename h hknows hnext
  | returned _ => cases hnext

end Calls

/-! ## Runs -/

theorem sound_empty (sha256 : Bytes → Str) : Sound sha256 .empty where
  blobs _ _ h := nomatch h
  incomplete_lt _ _ h := nomatch h
  blob_lt _ _ h := nomatch h
  apart _ _ _ h := nomatch h
  not_blob _ _ _ h := nomatch h

theorem holds_startBlobs (sha256 : Bytes → Str) (calls : List WriteBlob) :
    Threads.Holds (Sound sha256) (Knows sha256) (startBlobs calls) where
  shared := sound_empty sha256
  thread i pc hpc := by
    obtain ⟨c, -, rfl⟩ := List.mem_map.mp (List.mem_of_getElem? hpc)
    trivial

/-- **A stored blob matches its digest in every interleaving** of any number of calls, whichever of
them fail at whichever step, as long as each call starts when no other one writes its digest. -/
theorem matches_of_alone (sha256 : Bytes → Str) (calls : List WriteBlob)
    (as : List (ℕ × BlobAnswer))
    (halone : Along (stepBlobs sha256) (Threads.Meets Alone) (startBlobs calls) as) :
    Throughout (stepBlobs sha256) (fun s => Matches sha256 s.shared) (startBlobs calls) as := by
  refine throughout_of_along
    (fun _ (h : Threads.Holds (Sound sha256) (Knows sha256) _) => h.shared.blobs)
    (fun s a s' h hok hstep => ?_) (holds_startBlobs sha256 calls) halone
  refine h.step (G := Spares) ?_ ?_ hok hstep
  · intro i d pc answer d' pc' hsound hknows hok hact
    have hnext := stepsTo_act hsound hknows hok hact
    exact ⟨hnext.sound, hnext.knows, hnext.spares⟩
  · intro i j d d' pc hj hspares hknows
    exact hknows.stable hj hspares

instance decidableAlone (d : Disk) : ∀ (pc : BlobPc) (answer : BlobAnswer),
    Decidable (Alone d pc answer)
  | .hasBlob c, _ =>
    match h : parseDigest c.digest with
    | none => isTrue fun _ hp => nomatch h.symm.trans hp
    | some p =>
      decidable_of_iff (d.writer p = none)
        ⟨fun hd _ hp => Option.some.inj (h.symm.trans hp) ▸ hd, fun hd => hd p h⟩
  | .reset .., _ | .openFile .., _ | .copy .., _ | .stat .., _ | .openVerify _, _ | .verify .., _
  | .removeMismatch _, _ | .rename _, _ | .returned _, _ => isTrue trivial

def twoByteHash (bytes : Bytes) : Str := List.replicate 64 (if bytes = [1, 2] then 'a' else 'b')

def twoByteBlob (appendIncomplete : Bool) : WriteBlob := ⟨sha 'a', appendIncomplete, 2⟩

/-- A call fails after one of two bytes, and another one appends what is missing. -/
theorem matches_resumed :
    Throughout (stepBlobs twoByteHash) (fun s => Matches twoByteHash s.shared)
      (startBlobs [twoByteBlob false, twoByteBlob true])
      [(0, .ok), (0, .ok), (0, .ok), (0, .chunk [1]), (0, .fail),
        (1, .ok), (1, .ok), (1, .chunk [2]), (1, .ok), (1, .ok), (1, .ok), (1, .read 2), (1, .ok),
        (1, .ok)] :=
  matches_of_alone _ _ _ (of_decide_eq_true rfl)

/-- Two calls for one digest. The second one begins after the first has compared the hash. -/
def intertwined :=
  run (stepBlobs twoByteHash) (startBlobs [twoByteBlob false, twoByteBlob false])
    [(0, .ok), (0, .ok), (0, .ok), (0, .chunk [1, 2]), (0, .ok), (0, .ok), (0, .ok), (0, .read 2),
      (0, .ok), (1, .ok), (1, .ok), (1, .ok), (0, .ok), (1, .fail)]

/-- The first call puts the empty file of the second in place and succeeds; the second fails. -/
theorem wrong_blob :
    ∃ s, intertwined = some s ∧ s.threads = [.returned true, .returned false] ∧
      ¬ Matches twoByteHash s.shared := by
  have h : intertwined.any (fun s => s.threads = [.returned true, .returned false] ∧
        s.shared.blob (place 'a') = some 1 ∧ s.shared.bytes 1 = []) = true := rfl
  obtain ⟨s, hs, hfiles⟩ := (Option.any_eq_true _ _).mp h
  obtain ⟨hthreads, hblob, hbytes⟩ := of_decide_eq_true hfiles
  refine ⟨s, hs, hthreads, fun hmatches => ?_⟩
  have hhash := (hmatches (place 'a') 1 hblob).2
  rw [hbytes] at hhash
  exact absurd hhash (by decide)

end Edgelet.ModelPull
