import Edgelet.Codec.JsonText
import Edgelet.Machine.Run

/-!
# The projected files of a service account

A write of the projection fills a version directory named after the clock, turns the link `..data`
to it, and then removes every version but the one whose name is the last as a text. When the clock
goes back, that is not the version just written.
-/

namespace Edgelet.ServiceAccount

open Lexical Machine Json

/-- `projectionFilenames`. -/
inductive Filename
  | token
  | ca
  | signingJWK
  deriving DecidableEq

def projectionFilenames : List Filename := [.token, .ca, .signingJWK]

/-- The directory of a projection; the link of a file leads to the file of that name in `..data`. -/
structure ProjectionDir where
  dirs : List Str := []
  file : Str → Filename → Option (List UInt8) := fun _ _ => none
  data : Option Str := none
  link : Filename → Bool := fun _ => false

/-- The bytes of a call, and how the clock and the file system answer it: only its first `done`
changes are made, and a write that is interrupted leaves `part`. -/
structure Write where
  now : ℤ
  content : Filename → List UInt8
  done : ℕ
  part : List UInt8 := []
  listed : Bool := true
  removed : Str → Filename → Bool := fun _ _ => true

def isVersion (name : Str) : Bool :=
  "..".toList.isPrefixOf name && name != "..data".toList && name != "..data.tmp".toList

def later (latest name : Str) : Str := if strLe name latest then latest else name

variable (c : Write) (d : ProjectionDir)

namespace ProjectionDir

def read (f : Filename) : Option (List UInt8) :=
  if d.link f then d.data.bind (d.file · f) else none

def put (name : Str) (f : Filename) (bytes : List UInt8) : ProjectionDir :=
  { d with file := Function.update d.file name (Function.update (d.file name) f bytes) }

def setLink (f : Filename) (present : Bool) : ProjectionDir :=
  { d with link := Function.update d.link f present }

def latest : Str := (d.dirs.filter isVersion).foldl later []

def old (name : Str) : Bool := d.dirs.contains name && isVersion name && name != d.latest

def cleanupOldVersions : ProjectionDir :=
  if c.listed then
    { d with
      dirs := d.dirs.filter fun name => !(d.old name && projectionFilenames.all (c.removed name))
      file := fun name f => if d.old name && c.removed name f then none else d.file name f }
  else d

end ProjectionDir

def Write.versionDir : Str := "..".toList ++ intText c.now

def Write.changes : List (ProjectionDir → ProjectionDir) :=
  [fun d => { d with dirs := if d.dirs.contains c.versionDir then d.dirs
      else c.versionDir :: d.dirs }]
    ++ projectionFilenames.flatMap (fun f => [(·.put c.versionDir f c.part),
      (·.put c.versionDir f (c.content f))])
    ++ [fun d => { d with data := some c.versionDir }]
    ++ projectionFilenames.flatMap (fun f => [(·.setLink f false), (·.setLink f true)])

def Write.changesAndCleanup : List (ProjectionDir → ProjectionDir) :=
  c.changes ++ [(·.cleanupOldVersions c)]

def writeProjectionAtomic : ProjectionDir :=
  (c.changesAndCleanup.take c.done).foldl (fun d change => change d) d

def Write.ReturnsNil : Prop := c.changesAndCleanup.length ≤ c.done

/-- The paths of the projection lead to the bytes of the call. -/
def Projected : Prop :=
  c.ReturnsNil → ∀ f, (writeProjectionAtomic c d).read f = some (c.content f)

/-- No version that the call finds has a name after its own, or its own version is not removed. -/
def Newest : Prop :=
  c.ReturnsNil → c.listed = true → ∀ f, c.removed c.versionDir f = true →
    ∀ name ∈ d.dirs, isVersion name = true → strLe name c.versionDir = true

/-! ## The version that is kept -/

variable {c} {d e : ProjectionDir}

theorem later_spec (l n : Str) :
    strLe l (later l n) = true ∧ strLe n (later l n) = true ∧ later l n ∈ [l, n] := by
  have hrefl (s : Str) : strLe s s = true := (strLe_total s s).elim id id
  unfold later
  split
  next h => exact ⟨hrefl l, h, by simp⟩
  next h => exact ⟨(strLe_total l n).resolve_right h, hrefl n, by simp⟩

theorem foldl_later (names : List Str) (l : Str) :
    names.foldl later l ∈ l :: names ∧
      ∀ name ∈ l :: names, strLe name (names.foldl later l) = true := by
  induction names generalizing l with
  | nil => simpa using strLe_total l l
  | cons n names ih =>
    obtain ⟨hl, hn, hmem⟩ := later_spec l n
    obtain ⟨hin, hle⟩ := ih (later l n)
    have hfirst := hle _ List.mem_cons_self
    constructor
    · rcases List.mem_cons.mp hin with heq | hin
      · rw [List.foldl_cons, heq]
        exact List.mem_append_left names hmem
      · exact List.mem_cons_of_mem _ (List.mem_cons_of_mem _ hin)
    · intro name hname
      rcases List.mem_cons.mp hname with rfl | hname
      · exact strLe_trans hl hfirst
      · rcases List.mem_cons.mp hname with rfl | hname
        · exact strLe_trans hn hfirst
        · exact hle name (List.mem_cons_of_mem _ hname)

theorem isVersion_versionDir : isVersion c.versionDir = true := by
  have hne : ∀ (n : ℤ) (s : Str), 'd' ∈ s → intText n ≠ s := by
    rintro n s hs rfl
    cases n with
    | ofNat n => exact absurd (isDigit_natText hs) (by decide)
    | negSucc n =>
      rcases List.mem_cons.mp hs with h | h
      · exact absurd h (by decide)
      · exact absurd (isDigit_natText h) (by decide)
  have hdata := hne c.now "data".toList (by decide)
  have htmp := hne c.now "data.tmp".toList (by decide)
  simpa [isVersion, Write.versionDir] using ⟨hdata, htmp⟩

/-- The version of the call is removed when a name after its own is found. -/
theorem old_versionDir (hdirs : ∀ name, name ∈ d.dirs ↔ name = c.versionDir ∨ name ∈ e.dirs) :
    d.old c.versionDir = true ↔
      ∃ name ∈ e.dirs, isVersion name = true ∧ strLe name c.versionDir = false := by
  obtain ⟨hmem, hle⟩ : d.latest ∈ [] :: d.dirs.filter isVersion ∧
      ∀ name ∈ [] :: d.dirs.filter isVersion, strLe name d.latest = true := foldl_later _ []
  have hfound {name : Str} (hdir : name ∈ d.dirs) (hversion : isVersion name = true) :
      strLe name d.latest = true :=
    hle name (List.mem_cons_of_mem _ (List.mem_filter.mpr ⟨hdir, hversion⟩))
  have hv := (hdirs c.versionDir).mpr (.inl rfl)
  have hold : d.old c.versionDir = true ↔ c.versionDir ≠ d.latest := by
    simp [ProjectionDir.old, isVersion_versionDir, hv]
  rw [hold]
  constructor
  · intro hne
    have hafter : strLe d.latest c.versionDir = false :=
      Bool.eq_false_iff.mpr fun h => hne (strLe_antisymm (hfound hv isVersion_versionDir) h)
    rcases List.mem_cons.mp hmem with hnil | hmem
    · rw [hnil] at hafter
      cases hafter
    · obtain ⟨hdir, hversion⟩ := List.mem_filter.mp hmem
      exact ⟨_, ((hdirs _).mp hdir).resolve_left hne.symm, hversion, hafter⟩
  · rintro ⟨name, hname, hversion, hafter⟩ heq
    rw [heq, hfound ((hdirs name).mpr (.inr hname)) hversion] at hafter
    cases hafter

/-! ## A call and a run of calls -/

theorem writeProjectionAtomic_eq (hnil : c.ReturnsNil) : writeProjectionAtomic c d =
    (c.changes.foldl (fun d change => change d) d).cleanupOldVersions c := by
  rw [writeProjectionAtomic, List.take_of_length_le hnil, Write.changesAndCleanup,
    List.foldl_append]
  rfl

theorem projected_iff_newest : Projected c d ↔ Newest c d := by
  refine imp_congr_right fun hnil => ?_
  rw [writeProjectionAtomic_eq hnil]
  set e := c.changes.foldl (fun d change => change d) d with he
  have hfile : ∀ f, e.file c.versionDir f = some (c.content f) := by
    rintro ⟨⟩ <;> simp [he, Write.changes, projectionFilenames, ProjectionDir.put,
      ProjectionDir.setLink]
  have hlink : ∀ f, e.link f = true := by rintro ⟨⟩ <;> rfl
  have hdata : e.data = some c.versionDir := rfl
  have hdirs : ∀ name, name ∈ e.dirs ↔ name = c.versionDir ∨ name ∈ d.dirs := by
    intro name
    have heq : e.dirs = if d.dirs.contains c.versionDir then d.dirs else c.versionDir :: d.dirs :=
      rfl
    rw [heq]
    split
    next h => exact (or_iff_right_of_imp fun hname => hname ▸ List.contains_iff_mem.mp h).symm
    · exact List.mem_cons
  have hread : ∀ f, (e.cleanupOldVersions c).read f = some (c.content f) ↔
      (c.listed = true → c.removed c.versionDir f = true → e.old c.versionDir = false) := by
    intro f
    simp only [ProjectionDir.read, ProjectionDir.cleanupOldVersions]
    by_cases hlisted : c.listed = true <;> simp [hlisted, hlink, hdata, hfile]
  simp only [hread, ← Bool.not_eq_true, old_versionDir hdirs, not_exists, not_and, not_not]
  exact ⟨fun h hlisted f => h f hlisted, fun h f hlisted => h hlisted f⟩

/-- **A projection is the one just written as long as the clock does**: along every sequence of
calls, each call that returns `nil` leaves its bytes at the paths of the projection, exactly when
each of them finds no version with a name after its own. -/
theorem projected_along (d : ProjectionDir) (calls : List Write) :
    Along (fun d c => some (writeProjectionAtomic c d)) (fun d c => Projected c d) d calls ↔
      Along (fun d c => some (writeProjectionAtomic c d)) (fun d c => Newest c d) d calls :=
  along_iff_along (fun _ _ (_ : True) => projected_iff_newest) (fun _ _ _ _ _ _ => trivial) trivial

def writeAt (now : ℤ) : Write where
  now
  content _ := [now.toNat.toUInt8]
  done := 15

/-- The clock goes back between two calls, and the files of the second one are gone. -/
theorem clock_back_unprojected : ¬ Along (fun d c => some (writeProjectionAtomic c d))
    (fun d c => Projected c d) {} [writeAt 2, writeAt 1] := by
  intro h
  have hread := (h.2 _ rfl).1 (Nat.le_refl 15) .token
  revert hread
  decide

/-! ## What a reader sees -/

/-- All paths lead to what they led to before the call, or none to anything but its bytes. -/
def Atomic (c : Write) (d : ProjectionDir) : Prop :=
  let e := writeProjectionAtomic c d
  (∀ f, e.read f = d.read f) ∨ ∀ f, e.read f = none ∨ e.read f = some (c.content f)

def Turned (c : Write) (d : ProjectionDir) : Prop :=
  d.data = some c.versionDir ∧
    ∀ f, d.file c.versionDir f = none ∨ d.file c.versionDir f = some (c.content f)

/-- **A write is atomic for its readers**, wherever it is interrupted, unless it takes the name of
the version in place. -/
theorem atomic_of_new_name (hnew : d.data ≠ some c.versionDir) : Atomic c d := by
  have hturned : Turned c ((c.changesAndCleanup.take 8).foldl (fun d change => change d) d) := by
    refine ⟨rfl, ?_⟩
    rintro ⟨⟩ <;> simp [Write.changesAndCleanup, Write.changes, projectionFilenames,
      ProjectionDir.put]
  have hafter : ∀ e, Turned c e → ∀ change ∈ c.changesAndCleanup.drop 8, Turned c (change e) := by
    simp [Turned, Write.changesAndCleanup, Write.changes, projectionFilenames,
      ProjectionDir.setLink]
    grind [ProjectionDir.cleanupOldVersions]
  unfold Atomic writeProjectionAtomic
  rcases c.done with _ | _ | _ | _ | _ | _ | _ | _ | n
  case succ.succ.succ.succ.succ.succ.succ.succ =>
    rw [show n + 1 + 1 + 1 + 1 + 1 + 1 + 1 + 1 = 8 + n by omega, List.take_add, List.foldl_append]
    have hend : Turned c _ := List.foldlRecOn _ _ hturned fun e he change hchange =>
      hafter e he change (List.mem_of_mem_take (i := n) hchange)
    refine .inr fun f => ?_
    unfold ProjectionDir.read
    split
    · rw [hend.1]
      exact hend.2 f
    · exact .inl rfl
  all_goals
    refine .inl fun f => if_congr Iff.rfl (Option.bind_congr fun v hv => ?_) rfl
    have hne : v ≠ c.versionDir := fun hv' => hnew (hv' ▸ hv)
    simp [Write.changesAndCleanup, Write.changes, projectionFilenames, ProjectionDir.put, hne]

/-- A call that is interrupted in its second file, after another one. -/
theorem atomic_of_interrupted :
    Atomic { writeAt 2 with done := 4 } (writeProjectionAtomic (writeAt 1) {}) :=
  atomic_of_new_name (by decide)

end Edgelet.ServiceAccount
