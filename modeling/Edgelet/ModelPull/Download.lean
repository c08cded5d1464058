import Edgelet.ModelPull.Blob
import Edgelet.ModelPull.Unpack
import Mathlib.Logic.Function.Iterate

/-!
# Downloads that are resumed

A file is downloaded under its name with `.incomplete` behind it and then renamed. What is left
there is continued by a range request, which a server refuses when it begins at the end of the file.

A pull from the hub goes on in the staging directory of the failed ones, takes a file of the right
size for the right one, and asks for the revision anew with every file. The calls of the file system
succeed, and which files are selected is given.
-/

namespace Edgelet.ModelPull.Resume

open Lexical Format

/-- The file at a path and the one with `.incomplete` behind it. -/
structure Target where
  dest : Option Bytes
  incomplete : Option Bytes

inductive Response
  | ok (body : Bytes)
  | partialContent (body : Bytes)
  | refused

/-- A server that honours ranges. The offset 0 is asked for without one. -/
def serve (file : Option Bytes) (offset : ℕ) : Response :=
  match file with
  | none => .refused
  | some file =>
    if offset = 0 then .ok file
    else if offset < file.length then .partialContent (file.drop offset)
    else .refused

def existingSize (file : Option Bytes) : ℕ := (file.getD []).length

def received (left : Bytes) : Response → Option Bytes
  | .ok body => some body
  | .partialContent body => some (left ++ body)
  | .refused => none

/-- The file is taken for complete. -/
abbrev Kept (expectedSize : ℤ) (t : Target) : Prop :=
  0 < expectedSize ∧ existingSize t.dest = expectedSize

section Programs

variable (server : ℕ → Response) (expectedSize : ℤ) (t : Target)

/-- `Download` of the hub client. -/
def download : Target × Bool :=
  if Kept expectedSize t then (t, true)
  else
    let t := if 0 < existingSize t.dest then { t with dest := none } else t
    let t := if 0 < expectedSize ∧ expectedSize < existingSize t.incomplete then
      { t with incomplete := none } else t
    match received (t.incomplete.getD []) (server (existingSize t.incomplete)) with
    | none => (t, false)
    | some data =>
      if 0 < expectedSize ∧ data.length ≠ expectedSize then
        ({ t with incomplete := some data }, false)
      else (⟨some data, none⟩, true)

variable (sha256 : Bytes → Str) (hash : Str)

/-- `pullBlob` with `writeBlob`, undisturbed. -/
def pullBlob : Target × Bool :=
  if t.dest.isSome then (t, true)
  else
    match received (t.incomplete.getD []) (server (existingSize t.incomplete)) with
    | none => (t, false)
    | some data =>
      if 0 < expectedSize ∧ data.length < expectedSize then
        ({ t with incomplete := some data }, false)
      else if sha256 data = hash then (⟨some data, none⟩, true)
      else ({ t with incomplete := none }, false)

end Programs

/-! ## Retries -/

/-- **Some number of retries has the file in place.** -/
def Resumes (attempt : Target → Target × Bool) (file : Bytes) (t : Target) : Prop :=
  ∃ n, ((fun t => (attempt t).1)^[n] t).dest = some file

theorem received_serve (left file : Bytes) : received left (serve (some file) left.length) =
    if left = [] ∨ left.length < file.length then some (left ++ file.drop left.length)
    else none := by
  by_cases hnil : left = []
  · simp [serve, received, hnil]
  · by_cases hlt : left.length < file.length <;> simp [serve, received, hnil, hlt]

theorem resumes_iff_of {attempt : Target → Target × Bool} {file : Bytes} {t : Target} {c : Prop}
    (ht : t.dest = none) (hdone : c → (attempt t).1.dest = some file)
    (hstuck : ¬ c → (attempt t).1 = t) : Resumes attempt file t ↔ c := by
  constructor
  · rintro ⟨n, hn⟩
    by_contra hc
    have hfixed : (fun t => (attempt t).1)^[n] t = t := Function.iterate_fixed (hstuck hc) n
    rw [hfixed, ht] at hn
    cases hn
  · exact fun hc => ⟨1, hdone hc⟩

/-- **Which downloads can be resumed**: of what an interruption has left, both clients get the whole
file by some number of retries exactly when it was not complete already. -/
theorem resumes_iff (file : Bytes) (incomplete : Option Bytes) (expectedSize : ℤ)
    (sha256 : Bytes → Str) (hleft : incomplete.getD [] <+: file)
    (hsize : expectedSize = 0 ∨ expectedSize = file.length) :
    (Resumes (download (serve (some file)) expectedSize) file ⟨none, incomplete⟩ ↔
      existingSize incomplete < file.length ∨ file = []) ∧
    (Resumes (pullBlob (serve (some file)) expectedSize · sha256 (sha256 file)) file
        ⟨none, incomplete⟩ ↔
      existingSize incomplete < file.length ∨ file = []) := by
  obtain ⟨rest, rfl⟩ := hleft
  generalize hl : incomplete.getD [] = left at *
  have hwhole : left ++ (left ++ rest).drop left.length = left ++ rest := by simp
  have hserved := received_serve left (left ++ rest)
  rw [hwhole] at hserved
  constructor
  · refine resumes_iff_of rfl (fun hc => ?_) fun hc => ?_ <;>
      simp only [download, Kept, existingSize] at hc ⊢ <;> grind
  · refine resumes_iff_of rfl (fun hc => ?_) fun hc => ?_ <;>
      simp only [pullBlob, existingSize, hl, hserved] at hc ⊢ <;> grind

/-- One of two bytes is there. -/
theorem one_byte_resumes :
    Resumes (download (serve (some [1, 2])) 2) [1, 2] ⟨none, some [1]⟩ ∧
    Resumes (pullBlob (serve (some [1, 2])) 2 · (fun _ => []) []) [1, 2] ⟨none, some [1]⟩ := by
  have h := resumes_iff [1, 2] (some [1]) 2 (fun _ => []) ⟨[2], rfl⟩ (.inr rfl)
  exact ⟨h.1.mpr (.inl (by decide)), h.2.mpr (.inl (by decide))⟩

/-- A file that was downloaded and not renamed stays so. -/
theorem complete_never_renamed :
    ¬ Resumes (download (serve (some [1])) 1) [1] ⟨none, some [1]⟩ ∧
    ¬ Resumes (pullBlob (serve (some [1])) 1 · (fun _ => []) []) [1] ⟨none, some [1]⟩ := by
  constructor
  · rw [resumes_iff_of (c := False) rfl nofun fun _ => rfl]
    exact id
  · rw [resumes_iff_of (c := False) rfl nofun fun _ => rfl]
    exact id

/-! ## Pulls from the hub -/

/-- The commit that the revision is at, at each request, and the files of the commits. -/
structure Hub where
  revision : ℕ → Str
  file : Str → Str → Option Bytes

abbrev Files := Str → Option Bytes

def incompletePath (dest : Str) : Str := dest ++ ".incomplete".toList

def Files.target (d : Files) (dest : Str) : Target := ⟨d dest, d (incompletePath dest)⟩

def Files.set (d : Files) (dest : Str) (t : Target) : Files :=
  Function.update (Function.update d dest t.dest) (incompletePath dest) t.incomplete

section Pull

variable (hub : Hub) (size : Str → ℤ) (tmp : Str)

def pullFiles : ℕ → List Str → Files → Option Files
  | _, [], d => some d
  | n, path :: rest, d =>
    match safeJoin tmp path with
    | none => none
    | some dest =>
      match download (serve (hub.file (hub.revision n) path)) (size path) (d.target dest) with
      | (t, true) => pullFiles (n + 1) rest (d.set dest t)
      | (_, false) => none

variable (selected : List Str) (expectedSize : ℤ) (t : Target)

/-- The commit that is reported and what the content directory holds. -/
def pull (staging : Files) : Option (Str × Files) :=
  if trimSpace (hub.revision 0) = [] ∨ selected = [] then none
  else (pullFiles hub size tmp 1 selected staging).map (hub.revision 0, ·)

/-- **The content is exactly the selected files**, at the commit. -/
def Exact (commit : Str) (content : Files) : Prop :=
  ∀ q, content q = (selected.find? (safeJoin tmp · == some q)).bind (hub.file commit)

/-- What is left of an earlier download and goes on. -/
def continued : Bytes :=
  if 0 < expectedSize ∧ expectedSize < existingSize t.incomplete then []
  else t.incomplete.getD []

/-- The file that is kept, or else what is left with the rest of the file that is served. -/
def outcome (served : Option Bytes) : Option Bytes :=
  if Kept expectedSize t then t.dest
  else served.map fun file =>
    continued expectedSize t ++ file.drop (continued expectedSize t).length

/-- **The condition**: what comes of each file is what the commit has, and the directory holds
nothing but selected files and incomplete ones that go on. -/
structure Staged (selected : List Str) (staging : Files) : Prop where
  outcome : ∀ x ∈ selected.zipIdx 1, ∀ dest, safeJoin tmp x.1 = some dest →
    outcome (size x.1) (staging.target dest) (hub.file (hub.revision x.2) x.1) =
      hub.file (hub.revision 0) x.1
  only : ∀ q, staging q ≠ none → ∃ path ∈ selected, ∃ dest, safeJoin tmp path = some dest ∧
    (q = dest ∨ q = incompletePath dest ∧ ¬ Kept (size path) (staging.target dest))

/-- The places of the selected files and of their incomplete ones are different. -/
structure Apart (selected : List Str) : Prop where
  nodup : selected.Nodup
  inj : ∀ a ∈ selected, ∀ b ∈ selected, safeJoin tmp a = safeJoin tmp b → a = b
  incomplete : ∀ a ∈ selected, ∀ b ∈ selected, ∀ dest, safeJoin tmp a = some dest →
    safeJoin tmp b ≠ some (incompletePath dest)

end Pull

variable {hub : Hub} {size : Str → ℤ} {tmp : Str} {selected : List Str} {d content : Files}

theorem download_ok {served : Option Bytes} {expectedSize : ℤ} {t : Target}
    (h : (download (serve served) expectedSize t).2 = true) :
    (download (serve served) expectedSize t).1 = ⟨outcome expectedSize t served,
      if Kept expectedSize t then t.incomplete else none⟩ := by
  by_cases hkept : Kept expectedSize t
  · simp only [download, if_pos hkept, outcome]
  · unfold download at h ⊢
    rw [if_neg hkept] at h ⊢
    simp only [outcome, if_neg hkept] at h ⊢
    generalize ht₁ : (if 0 < existingSize t.dest then { t with dest := none } else t) = t₁ at h ⊢
    have hsame : t₁.incomplete = t.incomplete := by
      subst ht₁
      split <;> rfl
    generalize ht₂ : (if 0 < expectedSize ∧ expectedSize < existingSize t₁.incomplete then
      { t₁ with incomplete := none } else t₁) = t₂ at h ⊢
    have hleft : t₂.incomplete.getD [] = continued expectedSize t := by
      subst ht₂
      rw [continued, ← hsame]
      split <;> rfl
    rw [show existingSize t₂.incomplete = _ from congrArg List.length hleft, hleft] at h ⊢
    cases served with
    | none => cases h
    | some file =>
      rw [received_serve] at h ⊢
      grind

theorem ne_incompletePath (dest : Str) : dest ≠ incompletePath dest := by
  intro h
  simpa [incompletePath] using congrArg List.length h

theorem incompletePath_injective : Function.Injective incompletePath :=
  fun _ _ h => List.append_cancel_right h

theorem Apart.tail {path : Str} {rest : List Str} (h : Apart tmp (path :: rest)) :
    Apart tmp rest where
  nodup := h.nodup.of_cons
  inj a ha b hb := h.inj a (List.mem_cons_of_mem _ ha) b (List.mem_cons_of_mem _ hb)
  incomplete a ha b hb := h.incomplete a (List.mem_cons_of_mem _ ha) b (List.mem_cons_of_mem _ hb)

/-- The places of the other files are not those of the first. -/
theorem Apart.places {path dest b dest' : Str} {rest : List Str} (h : Apart tmp (path :: rest))
    (hdest : safeJoin tmp path = some dest) (hb : b ∈ rest) (hdest' : safeJoin tmp b = some dest') :
    dest' ≠ dest ∧ dest' ≠ incompletePath dest ∧ incompletePath dest' ≠ dest ∧
      incompletePath dest' ≠ incompletePath dest := by
  have hself : path ∈ path :: rest := List.mem_cons_self
  have hrest : b ∈ path :: rest := List.mem_cons_of_mem _ hb
  have hne : dest' ≠ dest := by
    rintro rfl
    exact h.nodup.notMem (h.inj path hself b hrest (hdest.trans hdest'.symm) ▸ hb)
  refine ⟨hne, ?_, ?_, fun he => hne (incompletePath_injective he)⟩
  · rintro rfl
    exact h.incomplete path hself b hrest dest hdest hdest'
  · rintro rfl
    exact h.incomplete b hrest path hself dest' hdest' hdest

/-- **What a pull leaves** at the places of a file, and that it leaves the others. -/
theorem pullFiles_spec {n : ℕ} (hapart : Apart tmp selected)
    (h : pullFiles hub size tmp n selected d = some content) :
    (∀ x ∈ selected.zipIdx n, ∃ dest, safeJoin tmp x.1 = some dest ∧
      content dest = outcome (size x.1) (d.target dest) (hub.file (hub.revision x.2) x.1) ∧
      content (incompletePath dest) =
        if Kept (size x.1) (d.target dest) then d (incompletePath dest) else none) ∧
    ∀ q, (∀ path ∈ selected, ∀ dest, safeJoin tmp path = some dest →
      q ≠ dest ∧ q ≠ incompletePath dest) → content q = d q := by
  induction selected generalizing n d with
  | nil =>
    cases h
    exact ⟨nofun, fun _ _ => rfl⟩
  | cons path rest ih =>
    unfold pullFiles at h
    split at h
    · cases h
    next dest hdest =>
      split at h
      next t ht =>
        obtain ⟨hfiles, hothers⟩ := ih hapart.tail h
        have hdone := download_ok (congrArg Prod.snd ht)
        rw [ht] at hdone
        subst hdone
        constructor
        · rw [List.zipIdx_cons]
          rintro x hx
          rcases List.mem_cons.mp hx with rfl | hx
          · refine ⟨dest, hdest, ?_, ?_⟩
            · rw [hothers dest fun b hb dest' hdest' => ?_]
              · simp [Files.set, ne_incompletePath]
              · obtain ⟨h₁, -, h₃, -⟩ := hapart.places hdest hb hdest'
                exact ⟨h₁.symm, h₃.symm⟩
            · rw [hothers _ fun b hb dest' hdest' => ?_]
              · simp [Files.set, Files.target]
              · obtain ⟨-, h₂, -, h₄⟩ := hapart.places hdest hb hdest'
                exact ⟨h₂.symm, h₄.symm⟩
          · obtain ⟨dest', hdest', hcontent⟩ := hfiles x hx
            obtain ⟨h₁, h₂, h₃, h₄⟩ :=
              hapart.places hdest (List.fst_mem_of_mem_zipIdx hx) hdest'
            have hsame : ∀ t, (d.set dest t).target dest' = d.target dest' := fun t => by
              simp [Files.target, Files.set, h₁, h₂, h₃, h₄]
            have hinc := fun t => congrArg Target.incomplete (hsame t)
            simp only [Files.target] at hinc
            rw [hsame, hinc] at hcontent
            exact ⟨dest', hdest', hcontent⟩
        · intro q hq
          rw [hothers q fun b hb => hq b (List.mem_cons_of_mem _ hb)]
          obtain ⟨h₁, h₂⟩ := hq path List.mem_cons_self dest hdest
          simp [Files.set, h₁, h₂]
      next => cases h

theorem find?_of_apart (hapart : Apart tmp selected) {path dest : Str} (hpath : path ∈ selected)
    (hdest : safeJoin tmp path = some dest) :
    selected.find? (safeJoin tmp · == some dest) = some path := by
  cases hfind : selected.find? (safeJoin tmp · == some dest) with
  | none => simpa [hdest] using List.find?_eq_none.mp hfind path hpath
  | some other =>
    have hother : safeJoin tmp other = some dest := by simpa using List.find?_some hfind
    rw [hapart.inj other (List.mem_of_find?_eq_some hfind) path hpath (hother.trans hdest.symm)]

/-- What a pull leaves where no selected file is. -/
theorem pullFiles_ne_none_iff {n : ℕ} (hapart : Apart tmp selected)
    (h : pullFiles hub size tmp n selected d = some content) {q : Str}
    (hq : ∀ path ∈ selected, safeJoin tmp path ≠ some q) :
    content q ≠ none ↔ d q ≠ none ∧ ∀ path ∈ selected, ∀ dest, safeJoin tmp path = some dest →
      q = incompletePath dest → Kept (size path) (d.target dest) := by
  obtain ⟨hfiles, hothers⟩ := pullFiles_spec hapart h
  by_cases hinc : ∃ path ∈ selected, ∃ dest, safeJoin tmp path = some dest ∧ q = incompletePath dest
  · obtain ⟨path, hpath, dest, hdest, rfl⟩ := hinc
    rw [← List.zipIdx_map_fst n selected, List.mem_map] at hpath
    obtain ⟨x, hx, rfl⟩ := hpath
    have hmem : x.1 ∈ selected := List.fst_mem_of_mem_zipIdx hx
    obtain ⟨dest', hdest', -, hcontent⟩ := hfiles x hx
    cases hdest.symm.trans hdest'
    rw [hcontent]
    constructor
    · intro hne
      split at hne
      next hkept =>
        refine ⟨hne, fun path hpath dest' hdest' he => ?_⟩
        cases incompletePath_injective he
        exact hapart.inj x.1 hmem path hpath (hdest.trans hdest'.symm) ▸ hkept
      · exact absurd rfl hne
    · rintro ⟨hne, hkept⟩
      rwa [if_pos (hkept x.1 hmem dest hdest rfl)]
  · have hsame : content q = d q := by
      refine hothers q fun path hpath dest hdest => ⟨?_, fun he => ?_⟩
      · rintro rfl
        exact hq path hpath hdest
      · exact hinc ⟨path, hpath, dest, hdest, he⟩
    rw [hsame, and_iff_left fun path hpath dest hdest he => ?_]
    exact absurd ⟨path, hpath, dest, hdest, he⟩ hinc

/-- **When a pull delivers what it recorded**: where the names are apart, a pull that succeeds has
exactly the selected files of the reported commit exactly when the staging directory allows it. -/
theorem pull_exact_iff (hub : Hub) (size : Str → ℤ) (tmp : Str) (selected : List Str)
    (staging : Files) (commit : Str) (content : Files) (hapart : Apart tmp selected)
    (h : pull hub size tmp selected staging = some (commit, content)) :
    Exact hub tmp selected commit content ↔ Staged hub size tmp selected staging := by
  unfold pull at h
  split at h
  · cases h
  obtain ⟨_, hpull, heq⟩ := Option.map_eq_some_iff.mp h
  cases heq
  obtain ⟨hfiles, hothers⟩ := pullFiles_spec hapart hpull
  constructor
  · intro hexact
    refine ⟨fun x hx dest hdest => ?_, fun q hq => ?_⟩
    · obtain ⟨dest', hdest', hcontent, -⟩ := hfiles x hx
      cases hdest.symm.trans hdest'
      rw [← hcontent, hexact dest, find?_of_apart hapart (List.fst_mem_of_mem_zipIdx hx) hdest]
      rfl
    · by_contra hno
      have hq' : ∀ path ∈ selected, safeJoin tmp path ≠ some q := fun path hpath hdest =>
        hno ⟨path, hpath, q, hdest, .inl rfl⟩
      refine (pullFiles_ne_none_iff hapart hpull hq').mpr ⟨hq, fun path hpath dest hdest he => ?_⟩
        ?_
      · by_contra hkept
        exact hno ⟨path, hpath, dest, hdest, .inr ⟨he, hkept⟩⟩
      · rw [hexact q, List.find?_eq_none.mpr (by simpa using hq')]
        rfl
  · intro hstaged q
    cases hfind : selected.find? (safeJoin tmp · == some q) with
    | some path =>
      have hpath := List.mem_of_find?_eq_some hfind
      have hdest : safeJoin tmp path = some q := by simpa using List.find?_some hfind
      rw [← List.zipIdx_map_fst 1 selected, List.mem_map] at hpath
      obtain ⟨x, hx, rfl⟩ := hpath
      obtain ⟨dest, hdest', hcontent, -⟩ := hfiles x hx
      cases hdest.symm.trans hdest'
      rw [hcontent, hstaged.outcome x hx q hdest]
      rfl
    | none =>
      have hq : ∀ path ∈ selected, safeJoin tmp path ≠ some q := by
        simpa using List.find?_eq_none.mp hfind
      by_contra hne
      obtain ⟨hd, hkept⟩ := (pullFiles_ne_none_iff hapart hpull hq).mp hne
      obtain ⟨path, hpath, dest, hdest, rfl | ⟨he, hnot⟩⟩ := hstaged.only q hd
      · exact hq path hpath hdest
      · exact hnot (hkept path hpath dest hdest he)

/-- A file that is `[1, 4]` at the commit `c` and `[2, 4]` later. -/
def sampleHub (revision : ℕ → Str) : Hub :=
  ⟨revision, fun commit path =>
    if path = "a".toList then some [if commit = "c".toList then 1 else 2, 4] else none⟩

/-- The first byte was left, and the revision stays where it is. -/
theorem staged_pull_exact :
    let left : Files := fun q => if q = "/m/a.incomplete".toList then some [1] else none
    ∃ content, pull (sampleHub fun _ => "c".toList) (fun _ => 2) "/m".toList ["a".toList] left =
        some ("c".toList, content) ∧
      Exact (sampleHub fun _ => "c".toList) "/m".toList ["a".toList] "c".toList content := by
  intro left
  have hdest : safeJoin "/m".toList "a".toList = some "/m/a".toList := rfl
  refine ⟨_, rfl, (pull_exact_iff _ (fun _ => 2) _ _ left _ _
    ⟨List.nodup_singleton _, by simp, ?_⟩ rfl).mpr ⟨?_, fun q hq => ?_⟩⟩
  · simp only [List.mem_singleton]
    rintro _ rfl _ rfl dest hd
    cases hdest.symm.trans hd
    decide
  · rintro x hx dest hd
    cases List.mem_singleton.mp hx
    cases hdest.symm.trans hd
    rfl
  · obtain rfl : q = "/m/a.incomplete".toList := by
      by_contra hne
      exact hq (if_neg hne)
    exact ⟨_, List.mem_singleton_self _, _, hdest, .inr ⟨rfl, by decide⟩⟩

/-- The revision moves between the requests; another file of the same size was left; and a file that
is not selected was left. -/
theorem pulls_inexact :
    let hub := sampleHub fun n => if n = 0 then "c".toList else "d".toList
    let pulled (left path : Str) := (pull hub (fun _ => 2) "/m".toList ["a".toList]
      fun q => if q = left then some [3, 4] else none).map fun r => (r.1, r.2 path)
    hub.file "c".toList "a".toList = some [1, 4] ∧
    pulled [] "/m/a".toList = some ("c".toList, some [2, 4]) ∧
    pulled "/m/a".toList "/m/a".toList = some ("c".toList, some [3, 4]) ∧
    pulled "/m/b".toList "/m/b".toList = some ("c".toList, some [3, 4]) :=
  ⟨rfl, rfl, rfl, rfl⟩

end Edgelet.ModelPull.Resume
