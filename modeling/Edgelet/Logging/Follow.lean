import Edgelet.Lexical.Text
import Edgelet.Machine.Run

/-!
# Following a log file

A tick of `watchForNewLines` compares the size of the file with the position up to which it has
read, and then reads lines from there to the end. The file may grow in between: what is read beyond
the size is read again. A line that is not complete yet is delivered in parts. A rotation renames
the files one by one and then creates a new one. The new file is only noticed by its smaller size,
and what was not read of the old one is lost; a tick that finds no file at the path goes on with the
end of another file of the series, which may be the old one. There are no filters by time.
-/

namespace Edgelet.Logging

open Lexical Machine

/-! ## Lines -/

/-- The texts between line breaks, without an empty one at the end. -/
def pieces (s : Str) : List Str :=
  let ls := s.splitOn '\n'
  if ls.getLast? = some [] then ls.dropLast else ls

def dropCR (l : Str) : Str := if l.getLast? = some '\r' then l.dropLast else l

def lines (s : Str) : List Str := (pieces s).map dropCR

def maxScanTokenSize : ℕ := 64 * 1024

/-- What `bufio.Scanner` gives: it stops at a line that does not fit into its buffer. -/
def scan (s : Str) : List Str := ((pieces s).takeWhile (·.length < maxScanTokenSize)).map dropCR

def Whole (s : Str) : Prop := s = [] ∨ ∃ t, s = t ++ ['\n']

instance (s : Str) : Decidable (Whole s) :=
  decidable_of_iff (s = [] ∨ s.getLast? = some '\n') (by simp [Whole, List.getLast?_eq_some_iff])

/-! ## The reader and the writer -/

/-- The files of the series, their paths `edgelet.i.log`, and the reader. -/
structure Follow where
  contents : ℕ → Str
  /-- The first file that has not been created. -/
  next : ℕ
  path : ℕ → Option ℕ
  followed : ℕ := 0
  opened : ℕ
  lastPosition : ℕ
  /-- The size that a tick has found, before it reads. -/
  seen : Option ℕ := none
  delivered : List Str := []
  /-- All that was appended since the start. -/
  appended : Str := []

namespace Follow

/-- The steps of the writer, of whose rotation every renaming is one, and those of a tick. -/
inductive Event
  | append (chunk : Str)
  | rename (i : ℕ)
  | create
  | stat
  | read

def findLatestLogFile (s : Follow) : Option ℕ := (List.range 10).find? fun i => (s.path i).isSome

/-- The start of `watchForNewLines`, at the end of a file of the series. -/
def watch (s : Follow) (i : ℕ) : Follow :=
  match s.path i with
  | some file =>
    { s with followed := i, opened := file, lastPosition := (s.contents file).length }
  | none => s

def stat (s : Follow) : Follow :=
  match s.path s.followed with
  | none => (s.findLatestLogFile.map s.watch).getD s
  | some file =>
    if (s.contents file).length < s.lastPosition then { s with opened := file, lastPosition := 0 }
    else if (s.contents file).length > s.lastPosition then
      { s with seen := some (s.contents file).length }
    else s

def step (s : Follow) : Event → Option Follow
  | .append chunk => (s.path 0).map fun file =>
    { s with
      contents := Function.update s.contents file (s.contents file ++ chunk)
      appended := s.appended ++ chunk }
  | .rename i => (s.path i).map fun file =>
    { s with path := Function.update (Function.update s.path (i + 1) (some file)) i none }
  | .create =>
    if (s.path 0).isSome then none
    else some { s with
      contents := Function.update s.contents s.next []
      next := s.next + 1
      path := Function.update s.path 0 (some s.next) }
  | .stat => if s.seen.isSome then none else some s.stat
  | .read => s.seen.map fun size =>
    { s with
      delivered := s.delivered ++ scan ((s.contents s.opened).drop s.lastPosition)
      lastPosition := size
      seen := none }

/-- What the active file has and the reader has not read. -/
def unread (s : Follow) : Str :=
  match s.path 0 with
  | none => []
  | some file => (s.contents file).drop (if file = s.opened then s.lastPosition else 0)

/-- **Each line is delivered once**: the lines delivered are those of the appended text without what
is still to be read, which begins with a line. -/
def Once (s : Follow) : Prop :=
  ∃ r, s.appended = r ++ s.unread ∧ Whole r ∧ s.delivered = lines r

/-- **The condition**: a read finds the size that the tick has found, and complete lines that fit
into the buffer; the active file is renamed when it is not empty and has been read to its end; and a
tick finds an active file, which is smaller if it is a new one. -/
def Orderly (s : Follow) : Event → Prop
  | .append _ | .create => True
  | .rename i => i = 0 → s.path 0 = some s.opened ∧ s.seen = none ∧ 0 < s.lastPosition ∧
      s.lastPosition = (s.contents s.opened).length
  | .stat => s.path 0 ≠ none ∧
      ∀ file ∈ s.path 0, file ≠ s.opened → (s.contents file).length < s.lastPosition
  | .read => s.seen = some (s.contents s.opened).length ∧ Whole s.unread ∧
      ∀ l ∈ pieces s.unread, l.length < maxScanTokenSize

instance : DecidableRel Orderly
  | _, .append _ | _, .create => isTrue trivial
  | _, .rename _ => inferInstanceAs (Decidable (_ → _))
  | _, .stat | _, .read => inferInstanceAs (Decidable (_ ∧ _))

/-! ## The invariant -/

structure Inv (s : Follow) : Prop where
  once : s.Once
  followed : s.followed = 0
  opened : s.opened < s.next
  created : ∀ file ∈ s.path 0, file < s.next
  position : s.path 0 = some s.opened → s.lastPosition ≤ (s.contents s.opened).length
  replaced : s.path 0 ≠ some s.opened → s.seen = none

theorem pieces_append {r : Str} (h : Whole r) (u : Str) :
    pieces (r ++ u) = pieces r ++ pieces u := by
  obtain rfl | ⟨t, rfl⟩ := h
  · rfl
  · have hne : u.splitOn '\n' ≠ [] := List.splitOn_ne_nil _ _
    have hr : (t ++ ['\n']).splitOn '\n' = t.splitOn '\n' ++ [[]] :=
      List.splitOn_append_cons_self t []
    have hru : (t ++ ['\n'] ++ u).splitOn '\n' = t.splitOn '\n' ++ u.splitOn '\n' := by
      rw [List.append_assoc]
      exact List.splitOn_append_cons_self t u
    simp only [pieces, hr, hru, List.getLast?_concat, List.dropLast_concat, if_true,
      List.getLast?_append_of_ne_nil _ hne, List.dropLast_append_of_ne_nil hne]
    split <;> rfl

theorem scan_eq_lines {s : Str} (h : ∀ l ∈ pieces s, l.length < maxScanTokenSize) :
    scan s = lines s := by
  rw [scan, lines, List.takeWhile_eq_self_iff.mpr (by simpa using h)]

section Steps

variable {s s' : Follow}

theorem unread_of_opened (h : s.path 0 = some s.opened) :
    s.unread = (s.contents s.opened).drop s.lastPosition := by
  simp [unread, h]

theorem unread_of_ne {file : ℕ} (h : s.path 0 = some file) (hne : file ≠ s.opened) :
    s.unread = s.contents file := by
  simp [unread, h, hne]

theorem Inv.append {chunk : Str} (hs : Inv s) (h : step s (.append chunk) = some s') : Inv s' := by
  obtain ⟨file, hfile, rfl⟩ := Option.map_eq_some_iff.mp h
  obtain ⟨r, happ, hr, hdel⟩ := hs.once
  refine ⟨⟨r, ?_, hr, hdel⟩, hs.followed, hs.opened, hs.created, fun ho => ?_, hs.replaced⟩
  · by_cases ho : file = s.opened
    · have hle := hs.position (ho ▸ hfile)
      simp only [happ, unread, hfile, if_pos ho, Function.update_self, List.append_assoc]
      rw [List.drop_append_of_le_length (ho ▸ hle)]
    · simp [happ, unread, hfile, if_neg ho]
  · have ho : file = s.opened := Option.some.inj (hfile.symm.trans ho)
    have hle := hs.position (ho ▸ hfile)
    simp only [ho, Function.update_self, List.length_append]
    omega

theorem Inv.rename {i : ℕ} (hs : Inv s) (hi : Orderly s (.rename i))
    (h : step s (.rename i) = some s') : Inv s' := by
  obtain ⟨file, hfile, rfl⟩ := Option.map_eq_some_iff.mp h
  obtain ⟨r, happ, hr, hdel⟩ := hs.once
  cases i with
  | zero =>
    obtain ⟨ho, hseen, -, hall⟩ := hi rfl
    refine ⟨⟨r, ?_, hr, hdel⟩, hs.followed, hs.opened, nofun, nofun, fun _ => hseen⟩
    rw [unread_of_opened ho, hall, List.drop_length] at happ
    simpa [unread] using happ
  | succ i =>
    have hpath : Function.update (Function.update s.path (i + 1 + 1) (some file)) (i + 1) none 0 =
        s.path 0 := by simp [Function.update]
    refine ⟨⟨r, ?_, hr, hdel⟩, hs.followed, hs.opened, ?_, ?_, ?_⟩
    · simpa only [unread, hpath] using happ
    · simpa only [hpath] using hs.created
    · simpa only [hpath] using hs.position
    · simpa only [hpath] using hs.replaced

theorem Inv.create (hs : Inv s) (h : step s .create = some s') : Inv s' := by
  simp only [Follow.step] at h
  split at h
  · cases h
  next hnone =>
    cases h
    have hpath : s.path 0 = none := by simpa using hnone
    have hne : s.next ≠ s.opened := hs.opened.ne'
    obtain ⟨r, happ, hr, hdel⟩ := hs.once
    refine ⟨⟨r, ?_, hr, hdel⟩, hs.followed, hs.opened.trans (Nat.lt_succ_self _), ?_, ?_, ?_⟩
    · simpa [unread, hpath, hne] using happ
    · simp
    · exact fun ho => absurd (by simpa using ho) hne
    · exact fun _ => hs.replaced (by simp [hpath])

theorem Inv.stat (hs : Inv s) (he : Orderly s .stat) (h : step s .stat = some s') : Inv s' := by
  obtain ⟨file, hfile⟩ := Option.ne_none_iff_exists'.mp he.1
  have hsmall := he.2 file hfile
  obtain ⟨r, happ, hr, hdel⟩ := hs.once
  have hpath : s.path s.followed = some file := hs.followed.symm ▸ hfile
  simp only [Follow.step] at h
  split at h
  · cases h
  cases h
  simp only [Follow.stat, hpath]
  split_ifs with hless hmore
  · have hne : file ≠ s.opened := by
      rintro rfl
      exact absurd (hs.position hfile) (by omega)
    refine ⟨⟨r, ?_, hr, hdel⟩, hs.followed, hs.created file hfile, hs.created, ?_, ?_⟩
    · rw [happ, unread_of_ne hfile hne]
      simp [unread, hfile]
    · exact fun _ => Nat.zero_le _
    · exact fun ho => absurd hfile ho
  · refine ⟨⟨r, happ, hr, hdel⟩, hs.followed, hs.opened, hs.created, hs.position, fun ho => ?_⟩
    refine absurd (hsmall ?_) hless
    rintro rfl
    exact ho hfile
  · exact hs

theorem Inv.read (hs : Inv s) (he : Orderly s .read) (h : step s .read = some s') : Inv s' := by
  obtain ⟨hseen, hwhole, hfit⟩ := he
  obtain ⟨r, happ, hr, hdel⟩ := hs.once
  have ho : s.path 0 = some s.opened := by
    by_contra ho
    rw [hs.replaced ho] at hseen
    cases hseen
  have hunread := unread_of_opened ho
  simp only [Follow.step, hseen, Option.map_some, ← hunread, Option.some.injEq] at h
  subst h
  refine ⟨⟨r ++ s.unread, ?_, ?_, ?_⟩, hs.followed, hs.opened, hs.created, fun _ => le_rfl,
    fun _ => rfl⟩
  · simp [unread, ho, happ]
  · rcases hwhole with hnil | ⟨t, ht⟩
    · rwa [hnil, List.append_nil]
    · exact .inr ⟨r ++ t, by rw [ht, List.append_assoc]⟩
  · rw [hdel, scan_eq_lines hfit, lines, lines, lines, pieces_append hr, List.map_append]

theorem Inv.step {e : Event} (hs : Inv s) (he : Orderly s e) (h : step s e = some s') : Inv s' := by
  cases e with
  | append chunk => exact hs.append h
  | rename i => exact hs.rename he h
  | create => exact hs.create h
  | stat => exact hs.stat he h
  | read => exact hs.read he h

end Steps

/-- The reader has just started at the end of the active file, whatever the series has. -/
structure Started (s : Follow) : Prop where
  followed : s.followed = 0
  opened : s.path 0 = some s.opened
  created : s.opened < s.next
  position : s.lastPosition = (s.contents s.opened).length
  seen : s.seen = none
  delivered : s.delivered = []
  appended : s.appended = []

/-- **Orderly reads deliver each line once**, unsplit and in order, from any series on and through
all appends, rotations and ticks. -/
theorem delivered_once_of_orderly (s₀ s : Follow) (events : List Event) (hstart : Started s₀)
    (horderly : Along step Orderly s₀ events) (hrun : run step s₀ events = some s) : s.Once := by
  have hinv : Inv s₀ := by
    refine ⟨⟨[], ?_, .inl rfl, hstart.delivered⟩, hstart.followed, hstart.created, ?_, ?_,
      fun _ => hstart.seen⟩
    · simp [unread_of_opened hstart.opened, hstart.position, hstart.appended]
    · exact fun file hfile => Option.some.inj (hstart.opened.symm.trans hfile) ▸ hstart.created
    · exact fun _ => hstart.position.le
  exact (invariant_run (fun _ _ _ => Inv.step) horderly hinv hrun).once

/-- A series of one empty file. -/
def start : Follow where
  contents _ := []
  next := 1
  path i := if i = 0 then some 0 else none
  opened := 0
  lastPosition := 0

theorem started_start : Started start := ⟨rfl, rfl, Nat.one_pos, rfl, rfl, rfl, rfl⟩

def rotated : List Event :=
  [.append "ab
".toList, .stat, .read, .rename 0, .create, .append "c
".toList, .stat, .stat,
    .read]

/-- The lines of the old file and of the new one are delivered. -/
theorem rotated_delivered : ∃ s, run step start rotated = some s ∧ s.Once ∧
    s.delivered = ["ab".toList, "c".toList] :=
  ⟨_, rfl, delivered_once_of_orderly start _ rotated started_start (by decide) rfl, rfl⟩

/-- A line that is appended in two parts is delivered in two parts; a line that is appended between
the look at the size and the read is delivered twice; and after a tick between a rename and the new
file nothing more is delivered. -/
theorem lines_split_and_repeated :
    (run step start [.append "ab".toList, .stat, .read, .append "c
".toList, .stat, .read]).map
      (fun s => (s.delivered, lines s.appended)) =
      some (["ab".toList, "c".toList], ["abc".toList]) ∧
    (run step start [.append "a
".toList, .stat, .append "b
".toList, .read, .stat, .read]).map
      (fun s => (s.delivered, lines s.appended)) =
      some (["a".toList, "b".toList, "b".toList], ["a".toList, "b".toList]) ∧
    (run step start [.append "a
".toList, .stat, .read, .rename 0, .stat, .create,
      .append "b
".toList, .stat, .append "c
".toList, .stat]).map
      (fun s => (s.seen, s.delivered, lines s.appended)) =
      some (none, ["a".toList], ["a".toList, "b".toList, "c".toList]) :=
  ⟨rfl, rfl, rfl⟩

end Follow

end Edgelet.Logging
