import Edgelet.Lexical.Text

/-!
# Stale partial downloads

The prune of models walks the directory of models and removes what has the name of a partial
download and was not changed for seven days. It walks the content of ready models as well, where the
names come from the artifact. A walk is given by its entries in the order of the visit.
-/

namespace Edgelet.ModelPull

open Lexical

def contentDirName : Str := "content".toList

def incompleteExt : Str := ".incomplete".toList

def contentStagingSuffix : Str := ".tmp".toList

def isTempWriteName (name : Str) : Bool := occursIn ".tmp-".toList name

def staleIncompleteAge : ℤ := 7 * 24 * 3600 * 1000000000

structure DirEntry where
  path : List Str
  isDir : Bool
  modTime : Option ℤ

variable (o : WalkAnswers) (cutoff : ℤ) (w : Walk) (d : DirEntry)

def DirEntry.name : Str := d.path.getLast?.getD []

def DirEntry.staleFile (cutoff : ℤ) : Bool := d.modTime.any (· ≤ cutoff)

inductive RootStat
  | missing | failed | file | dir

/-- Whether the calls of the file system succeed, as for the source they do when an error says that
nothing is there. -/
structure WalkAnswers where
  root : RootStat
  readDir : List Str → Bool
  remove : List Str → Bool

structure Walk where
  handed : List (List Str) := []  -- to `os.Remove` and `os.RemoveAll`, with any outcome
  removed : ℕ := 0
  failed : Bool := false

def Walk.remove (o : WalkAnswers) (path : List Str) : Walk where
  handed := w.handed ++ [path]
  removed := if o.remove path then w.removed + 1 else w.removed
  failed := !o.remove path

def Walk.visit : Walk :=
  if w.failed || w.handed.any (·.isPrefixOf d.path) then w
  else if d.isDir then
    if decide (contentStagingSuffix <:+ d.name) && !d.path.isEmpty && d.staleFile cutoff then
      w.remove o d.path
    else { w with failed := !o.readDir d.path }
  else if !decide (incompleteExt <:+ d.name) && !isTempWriteName d.name then w
  else if !d.staleFile cutoff then w
  else w.remove o d.path

def cleanupStaleIncomplete (entries : List DirEntry) (root : Str) (maxAge : ℤ)
    (now : Option ℤ) (clock : ℤ) : Walk :=
  if trimSpace root = [] then {}
  else
    let maxAge := if maxAge ≤ 0 then staleIncompleteAge else maxAge
    match o.root with
    | .missing | .file => {}
    | .failed => { failed := true }
    | .dir => entries.foldl (Walk.visit o (now.getD clock - maxAge)) {}

/-! ## What is taken for a partial download -/

def DirEntry.Taken : Prop :=
  d.staleFile cutoff ∧
    if d.isDir then contentStagingSuffix <:+ d.name ∧ d.path ≠ []
    else incompleteExt <:+ d.name ∨ isTempWriteName d.name

def DirEntry.InContent (ready : Str → Prop) (d : DirEntry) : Prop :=
  d.isDir = false ∧ ∃ name, ready name ∧ [name, contentDirName] <+: d.path

section Visit

variable {o : WalkAnswers} {cutoff : ℤ} {w : Walk} {d : DirEntry}

theorem visit_handed : (w.visit o cutoff d).handed = w.handed ∨
    d.Taken cutoff ∧ (w.visit o cutoff d).handed = w.handed ++ [d.path] := by
  unfold Walk.visit
  split_ifs <;> simp_all [DirEntry.Taken, Walk.remove]
  tauto

theorem handed_subset_visit : w.handed ⊆ (w.visit o cutoff d).handed := by
  obtain h | ⟨-, h⟩ := @visit_handed o cutoff w d <;> simp [h]

theorem mem_handed_foldl {q : List Str} (l : List DirEntry)
    (h : q ∈ (l.foldl (Walk.visit o cutoff) w).handed) :
    q ∈ w.handed ∨ ∃ d ∈ l, d.path = q ∧ d.Taken cutoff := by
  induction l generalizing w with
  | nil => exact .inl h
  | cons d l ih =>
    obtain hq | ⟨e, he, hq⟩ := ih h
    · obtain hv | ⟨ht, hv⟩ := @visit_handed o cutoff w d
      · exact .inl (hv ▸ hq)
      · rw [hv, List.mem_append, List.mem_singleton] at hq
        exact hq.imp_right fun hq => ⟨d, List.mem_cons_self, hq.symm, ht⟩
    · exact .inr ⟨e, List.mem_cons_of_mem d he, hq⟩

theorem handed_subset_foldl (l : List DirEntry) :
    w.handed ⊆ (l.foldl (Walk.visit o cutoff) w).handed := by
  induction l generalizing w with
  | nil => exact fun _ h => h
  | cons d l ih => exact fun _ h => ih (handed_subset_visit h)

end Visit

def WalkAnswers.good : WalkAnswers := ⟨.dir, fun _ => true, fun _ => true⟩

theorem failed_visit_good {cutoff : ℤ} {w : Walk} {d : DirEntry} (h : w.failed = false) :
    (w.visit .good cutoff d).failed = false := by
  unfold Walk.visit
  split_ifs <;> simp_all [Walk.remove, WalkAnswers.good]

theorem exists_handed_visit_good {cutoff : ℤ} {w : Walk} {d : DirEntry} (h : w.failed = false)
    (ht : d.Taken cutoff) : ∃ q ∈ (w.visit .good cutoff d).handed, q <+: d.path := by
  unfold Walk.visit
  obtain ⟨hs, ht⟩ := ht
  split_ifs <;> simp_all [Walk.remove]

theorem exists_handed_foldl_good {cutoff : ℤ} {w : Walk} {l : List DirEntry} {d : DirEntry}
    (h : w.failed = false) (hd : d ∈ l) (ht : d.Taken cutoff) :
    ∃ q ∈ (l.foldl (Walk.visit .good cutoff) w).handed, q <+: d.path := by
  induction l generalizing w with
  | nil => cases hd
  | cons e l ih =>
    obtain rfl | hd := List.mem_cons.mp hd
    · obtain ⟨q, hq, hp⟩ := exists_handed_visit_good h ht
      exact ⟨q, handed_subset_foldl l hq, hp⟩
    · exact ih (failed_visit_good h) hd

/-- **What the cleanup spares.** Whatever the file system answers, the cleanup of a prune removes no
file of a ready model, exactly when no file in its content, and no directory on the way to one, is
taken for a partial download. -/
theorem cleanup_spares_content_iff (entries : List DirEntry) (ready : Str → Prop) (root : Str)
    (now : Option ℤ) (clock : ℤ) :
    (∀ o, ∀ q ∈ (cleanupStaleIncomplete o entries root staleIncompleteAge now clock).handed,
      ∀ f ∈ entries, f.InContent ready → ¬ q <+: f.path) ↔
    (trimSpace root ≠ [] → ∀ d ∈ entries, d.Taken (now.getD clock - staleIncompleteAge) →
      ∀ f ∈ entries, f.InContent ready → ¬ d.path <+: f.path) := by
  have hage : ¬ staleIncompleteAge ≤ 0 := by decide
  constructor
  · intro hsafe hroot d hd ht f hf hc hp
    obtain ⟨q, hq, hqd⟩ := exists_handed_foldl_good (w := {}) rfl hd ht
    refine hsafe .good q ?_ f hf hc (hqd.trans hp)
    rw [cleanupStaleIncomplete, if_neg hroot, if_neg hage]
    exact hq
  · intro hsafe o q hq f hf hc
    by_cases hroot : trimSpace root = []
    · simp [cleanupStaleIncomplete, hroot] at hq
    · rw [cleanupStaleIncomplete, if_neg hroot, if_neg hage] at hq
      cases ho : o.root <;> rw [ho] at hq
      case dir =>
        obtain hq | ⟨d, hd, rfl, ht⟩ := mem_handed_foldl entries hq
        · cases hq
        · exact hsafe hroot d hd ht f hf hc
      all_goals cases hq

def llamaEntries : List DirEntry :=
  let dir := ["llama".toList, contentDirName]
  [⟨[], true, some 0⟩, ⟨dir.take 1, true, some 0⟩, ⟨dir, true, some 0⟩,
    ⟨dir ++ ["w.incomplete".toList], false, some 0⟩, ⟨dir ++ ["lora.tmp".toList], true, some 0⟩,
    ⟨dir ++ ["lora.tmp".toList, "a.gguf".toList], false, some 0⟩]

/-- Both are removed, the second one with its directory. -/
theorem ready_content_removed :
    (cleanupStaleIncomplete .good llamaEntries "/models".toList staleIncompleteAge
      (some (8 * 24 * 3600 * 1000000000)) 0).handed =
      [["llama".toList, contentDirName, "w.incomplete".toList],
        ["llama".toList, contentDirName, "lora.tmp".toList]] := rfl

end Edgelet.ModelPull
