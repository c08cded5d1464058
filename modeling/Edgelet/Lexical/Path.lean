import Mathlib.Data.List.Infix
import Edgelet.Lexical.Text

/-!
# Lexical processing of slash-separated paths

The path functions of the Go standard library on a Unix system, as functions on texts. None of them
looks at a file system.

An absolute path is understood through its cleaned components, `absComponents`: two absolute paths
name one place exactly when these agree, and one lies in the tree of the other exactly when its
components extend those of the other.
-/

namespace Lexical

def dot : Str := ['.']

def dotdot : Str := ['.', '.']

section

variable (s : Str) (rooted : Bool) (cs : List Str)

def components : List Str := s.splitOn '/'

def unsplit : Str := ['/'].intercalate cs

def isAbs : Bool := s.head? == some '/'

/-- One component read by the cleaning: empty components and dots go, a parent component
removes the one before it, unless there is none to remove. -/
def push (acc : List Str) (c : Str) : List Str :=
  if c = [] ∨ c = dot then acc
  else if c = dotdot then
    match acc.getLast? with
    | some l => if l = dotdot then acc ++ [dotdot] else acc.dropLast
    | none => if rooted then [] else [dotdot]
  else acc ++ [c]

def normalize : List Str :=
  cs.foldl (push rooted) []

def render : Str :=
  if rooted then '/' :: unsplit cs else if cs = [] then dot else unsplit cs

def clean : Str :=
  if s = [] then dot else render (isAbs s) (normalize (isAbs s) (components s))

def join (elems : List Str) : Str :=
  let kept := elems.filter (· ≠ [])
  if kept = [] then [] else clean (unsplit kept)

/-- `filepath.Abs`: the cleaned path, below the working directory if it is not absolute. The
working directory is `none` where the system does not tell it. -/
def toAbs (cwd : Option Str) (s : Str) : Option Str :=
  if isAbs s then some (clean s) else cwd.map fun d => join [d, s]

def stripCommon : List Str → List Str → List Str × List Str
  | b :: bs, t :: ts => if b = t then stripCommon bs ts else (b :: bs, t :: ts)
  | bs, ts => (bs, ts)

def cleanComponents : List Str :=
  normalize (isAbs s) (components s)

/-- The path that leads from `base` to `targ`, `none` where none does. -/
def rel (base targ : Str) : Option Str :=
  if cleanComponents base = cleanComponents targ ∧ isAbs base = isAbs targ then some dot
  else if isAbs base ≠ isAbs targ then none
  else
    match stripCommon (cleanComponents base) (cleanComponents targ) with
    | ([], ts) => some (unsplit ts)
    | (b :: bs, ts) =>
      if b = dotdot then none else some (unsplit ((b :: bs).map (fun _ => dotdot) ++ ts))

/-- The path is not absolute, not empty, and does not climb above the place it starts from. -/
def isLocal : Bool :=
  if isAbs s || s == [] then false
  else
    let p := if (components s).any (fun c => c == dot || c == dotdot) then clean s else s
    !(p == dotdot || (dotdot ++ ['/']).isPrefixOf p)

def base : Str :=
  let t := s.rdropWhile (· == '/')
  if s = [] then dot else if t = [] then ['/'] else t.rtakeWhile (· != '/')

def dir : Str := clean (s.rdropWhile (· != '/'))

def ext : Str :=
  let p : Char → Bool := fun c => c != '.' && c != '/'
  if (s.rdropWhile p).getLast? = some '.' then '.' :: s.rtakeWhile p else []

def absComponents : List Str := normalize true (components s)

end

/-- The tree at the absolute path `p` holds the place `q`. -/
def Contains (p q : Str) : Prop := absComponents p <+: absComponents q

/-- One of two absolute paths lies in the tree of the other. -/
def Overlap (p q : Str) : Prop := Contains p q ∨ Contains q p

instance (p q : Str) : Decidable (Contains p q) :=
  inferInstanceAs (Decidable (absComponents p <+: absComponents q))

instance (p q : Str) : Decidable (Overlap p q) :=
  inferInstanceAs (Decidable (_ ∨ _))

/-- A component that cleaning keeps as it is. -/
structure Plain (c : Str) : Prop where
  ne_nil : c ≠ []
  ne_dot : c ≠ dot
  ne_dotdot : c ≠ dotdot
  no_sep : '/' ∉ c

instance (c : Str) : Decidable (Plain c) :=
  decidable_of_iff (c ≠ [] ∧ c ≠ dot ∧ c ≠ dotdot ∧ '/' ∉ c)
    ⟨fun ⟨h₁, h₂, h₃, h₄⟩ => ⟨h₁, h₂, h₃, h₄⟩, fun h => ⟨h.1, h.2, h.3, h.4⟩⟩

abbrev Name := {c : Str // Plain c}

def relText (rel : List Name) : Str := if rel = [] then dot else unsplit (rel.map (·.1))

/-! ## Splitting and putting together -/

variable {cs : List Str}

/-- What occurs in a path and holds no separator occurs in one of its components. -/
theorem occursIn_unsplit {sub : Str} (hsep : '/' ∉ sub) (hne : sub ≠ [])
    (h : ∀ c ∈ cs, occursIn sub c = false) : occursIn sub (unsplit cs) = false := by
  have hinfix : ∀ c ∈ cs, ¬ sub <:+: c := fun c hc => by simpa [occursIn] using h c hc
  clear h
  rw [occursIn, decide_eq_false_iff_not]
  induction cs with
  | nil => simpa [unsplit] using hne
  | cons c cs ih =>
    cases cs with
    | nil => simpa [unsplit] using hinfix c List.mem_cons_self
    | cons d cs =>
      have hsplit : unsplit (c :: d :: cs) = c ++ '/' :: unsplit (d :: cs) := by
        simp [unsplit, List.intercalate]
      rw [hsplit]
      intro hin
      rcases infix_of_infix_append_cons hsep hin with hin | hin
      · exact hinfix c List.mem_cons_self hin
      · exact ih (fun e he => hinfix e (List.mem_cons_of_mem _ he)) hin

theorem components_append_sep (a b : Str) :
    components (a ++ '/' :: b) = components a ++ components b :=
  List.splitOn_append_cons_self a b

theorem components_ne_nil (s : Str) : components s ≠ [] := List.splitOn_ne_nil _ _

theorem no_sep_of_mem_components {c s : Str} (h : c ∈ components s) : '/' ∉ c := by
  induction s generalizing c with
  | nil =>
    simp only [components, List.splitOn_nil, List.mem_singleton] at h
    simp [h]
  | cons x s ih =>
    rw [components, List.splitOn_cons_eq_if_modifyHead] at h
    split at h
    · rcases List.mem_cons.mp h with rfl | h
      · simp
      · exact ih h
    · rename_i hx
      cases hs : components s with
      | nil => exact absurd hs (components_ne_nil s)
      | cons d ds =>
        rw [components] at hs
        rw [hs, List.modifyHead_cons, List.mem_cons] at h
        have hmem : ∀ e ∈ d :: ds, '/' ∉ e := fun e he => ih (by rw [components, hs]; exact he)
        rcases h with rfl | h
        · simp only [beq_iff_eq] at hx
          rw [List.mem_cons, not_or]
          exact ⟨Ne.symm hx, hmem d (by simp)⟩
        · exact hmem c (List.mem_cons_of_mem _ h)

theorem components_unsplit (h : ∀ c ∈ cs, '/' ∉ c) (hne : cs ≠ []) : components (unsplit cs) = cs :=
  List.splitOn_intercalate '/' h hne

variable {c : Str}

theorem unsplit_cons (hne : cs ≠ []) : unsplit (c :: cs) = c ++ '/' :: unsplit cs := by
  rw [unsplit, List.intercalate_cons_of_ne_nil hne]
  simp [unsplit]

@[simp] theorem unsplit_singleton (c : Str) : unsplit [c] = c := List.intercalate_singleton

theorem components_unsplit_flatMap (cs : List Str) (hne : cs ≠ []) :
    components (unsplit cs) = cs.flatMap components := by
  induction cs with
  | nil => exact absurd rfl hne
  | cons c cs ih =>
    by_cases hcs : cs = []
    · simp [hcs]
    · rw [unsplit_cons hcs, components_append_sep, ih hcs, List.flatMap_cons]

/-! ## Cleaning -/

@[simp] theorem push_nil (rooted : Bool) (acc : List Str) : push rooted acc [] = acc := by
  simp [push]

variable {rooted : Bool} {acc : List Str}

theorem push_plain (h : Plain c) : push rooted acc c = acc ++ [c] := by
  simp [push, h.ne_nil, h.ne_dot, h.ne_dotdot]

theorem foldl_push_plain (rooted : Bool) (acc cs : List Str) (h : ∀ c ∈ cs, Plain c) :
    cs.foldl (push rooted) acc = acc ++ cs := by
  induction cs generalizing acc with
  | nil => simp
  | cons c cs ih =>
    rw [List.foldl_cons, push_plain (h c (by simp)),
      ih _ fun d hd => h d (List.mem_cons_of_mem _ hd)]
    simp

theorem normalize_plain (h : ∀ c ∈ cs, Plain c) : normalize rooted cs = cs := by
  simpa [normalize] using foldl_push_plain rooted [] cs h

theorem plain_of_mem_push {c d : Str} (hacc : ∀ e ∈ acc, Plain e)
    (hc : '/' ∉ c) (hd : d ∈ push true acc c) : Plain d := by
  unfold push at hd
  split at hd
  · exact hacc d hd
  · rename_i hempty
    rw [not_or] at hempty
    split at hd
    · split at hd
      · rename_i l hl
        have hplain := hacc l (List.mem_of_getLast? hl)
        rw [if_neg hplain.ne_dotdot] at hd
        exact hacc d (List.dropLast_subset acc hd)
      · simp at hd
    · rename_i hdd
      rcases List.mem_append.mp hd with hd | hd
      · exact hacc d hd
      · rw [List.mem_singleton] at hd
        subst hd
        exact ⟨hempty.1, hempty.2, hdd, hc⟩

/-- **Rooted cleaning leaves plain components only**: every parent component has been used
up, at the root at the latest. -/
theorem plain_of_mem_normalize (h : ∀ c ∈ cs, '/' ∉ c) : ∀ d ∈ normalize true cs, Plain d := by
  have hfold : ∀ acc : List Str, (∀ e ∈ acc, Plain e) →
      ∀ d ∈ cs.foldl (push true) acc, Plain d := by
    induction cs with
    | nil => exact fun acc hacc => hacc
    | cons c cs ih =>
      intro acc hacc
      exact ih (fun e he => h e (List.mem_cons_of_mem _ he)) _
        fun e he => plain_of_mem_push hacc (h c (by simp)) he
  exact hfold [] (by simp)

theorem plain_of_mem_absComponents {c s : Str} (h : c ∈ absComponents s) : Plain c :=
  plain_of_mem_normalize (fun _ => no_sep_of_mem_components) c h

theorem ne_nil_of_mem_push {c d : Str}
    (hacc : ∀ e ∈ acc, e ≠ []) (hd : d ∈ push rooted acc c) : d ≠ [] := by
  have hdd : dotdot ≠ [] := nofun
  unfold push at hd
  split at hd
  · exact hacc d hd
  · rename_i hempty
    split at hd
    · split at hd
      · split at hd
        · rcases List.mem_append.mp hd with hd | hd
          · exact hacc d hd
          · exact List.mem_singleton.mp hd ▸ hdd
        · exact hacc d (List.dropLast_subset acc hd)
      · split at hd
        · cases hd
        · exact List.mem_singleton.mp hd ▸ hdd
    · rcases List.mem_append.mp hd with hd | hd
      · exact hacc d hd
      · exact List.mem_singleton.mp hd ▸ (not_or.mp hempty).1

theorem ne_nil_of_mem_normalize : ∀ d ∈ normalize rooted cs, d ≠ [] := by
  have hfold : ∀ acc : List Str, (∀ e ∈ acc, e ≠ []) →
      ∀ d ∈ cs.foldl (push rooted) acc, d ≠ [] := by
    induction cs with
    | nil => exact fun acc hacc => hacc
    | cons c cs ih => exact fun acc hacc => ih _ fun e he => ne_nil_of_mem_push hacc he
  exact hfold [] (by simp)

theorem clean_ne_nil (s : Str) : clean s ≠ [] := by
  unfold clean render
  split
  · exact nofun
  · split
    · exact nofun
    · split
      · exact nofun
      · rename_i hne
        obtain ⟨c, cs, hcs⟩ := List.exists_cons_of_ne_nil hne
        have hc : c ≠ [] := ne_nil_of_mem_normalize c (hcs ▸ List.mem_cons_self)
        rw [hcs]
        by_cases hrest : cs = []
        · rwa [hrest, unsplit_singleton]
        · rw [unsplit_cons hrest]
          exact fun h => hc (List.append_eq_nil_iff.mp h).1

theorem foldl_push_flatMap_filter (rooted : Bool) (acc : List Str) (elems : List Str) :
    ((elems.filter (· ≠ [])).flatMap components).foldl (push rooted) acc =
      (elems.flatMap components).foldl (push rooted) acc := by
  induction elems generalizing acc with
  | nil => rfl
  | cons e elems ih =>
    by_cases he : e = []
    · subst he
      simpa [components] using ih acc
    · rw [List.filter_cons_of_pos (by simpa using he), List.flatMap_cons, List.flatMap_cons,
        List.foldl_append, List.foldl_append, ih]

/-! ## The components of cleaned and joined paths -/

variable {s : Str}

theorem isAbs_iff : isAbs s = true ↔ ∃ t, s = '/' :: t := by
  cases s with
  | nil | cons c t => simp [isAbs]

theorem isAbs_append (h : isAbs s = true) (t : Str) : isAbs (s ++ t) = true := by
  obtain ⟨u, rfl⟩ := isAbs_iff.mp h
  rfl

theorem isAbs_unsplit (h : isAbs c = true) : isAbs (unsplit (c :: cs)) = true := by
  by_cases hcs : cs = []
  · simpa [hcs] using h
  · rw [unsplit_cons hcs]
    exact isAbs_append h _

theorem absComponents_render (h : ∀ c ∈ cs, Plain c) : absComponents (render true cs) = cs := by
  have hsplit : components ('/' :: unsplit cs) = [] :: components (unsplit cs) :=
    components_append_sep [] (unsplit cs)
  rw [absComponents, render, if_pos rfl, hsplit, normalize, List.foldl_cons, push_nil]
  by_cases hcs : cs = []
  · subst hcs
    rfl
  · rw [components_unsplit (fun c hc => (h c hc).no_sep) hcs]
    exact normalize_plain h

theorem clean_of_isAbs (h : isAbs s = true) : clean s = render true (absComponents s) := by
  obtain ⟨t, rfl⟩ := isAbs_iff.mp h
  simp [clean, absComponents, h]

theorem isAbs_clean (h : isAbs s = true) : isAbs (clean s) = true := by
  rw [clean_of_isAbs h]
  rfl

theorem absComponents_clean (h : isAbs s = true) : absComponents (clean s) = absComponents s := by
  rw [clean_of_isAbs h]
  exact absComponents_render fun c hc => plain_of_mem_absComponents hc

variable {es : List Str} {d : Str}

theorem join_cons_of_isAbs (h : isAbs d = true) :
    join (d :: es) = clean (unsplit (d :: es.filter (· ≠ []))) := by
  have hne : d ≠ [] := by
    rintro rfl
    simp [isAbs] at h
  simp [join, hne]

theorem isAbs_join (h : isAbs d = true) : isAbs (join (d :: es)) = true := by
  rw [join_cons_of_isAbs h]
  exact isAbs_clean (isAbs_unsplit h)

/-- **The place a joined path names**: its elements' components, cleaned together. -/
theorem absComponents_join (h : isAbs d = true) :
    absComponents (join (d :: es)) = normalize true (components d ++ es.flatMap components) := by
  rw [join_cons_of_isAbs h, absComponents_clean (isAbs_unsplit h), absComponents,
    components_unsplit_flatMap _ (List.cons_ne_nil _ _), List.flatMap_cons, normalize,
    normalize, List.foldl_append, List.foldl_append, foldl_push_flatMap_filter]

theorem flatMap_components_plain (hes : ∀ e ∈ es, Plain e) : es.flatMap components = es := by
  induction es with
  | nil => rfl
  | cons e es ih =>
    rw [List.flatMap_cons, ih fun e he => hes e (List.mem_cons_of_mem _ he), components,
      List.splitOn_eq_singleton (hes e List.mem_cons_self).no_sep, List.singleton_append]

/-- Elements with plain components are appended to the place an absolute path names. -/
theorem absComponents_join_components {es cs : List Str} (h : isAbs d = true)
    (hes : es.flatMap components = cs) (hcs : ∀ c ∈ cs, Plain c) :
    absComponents (join (d :: es)) = absComponents d ++ cs := by
  rw [absComponents_join h, hes, normalize, List.foldl_append, foldl_push_plain _ _ cs hcs]
  rfl

theorem absComponents_join_plain (h : isAbs d = true)
    (hes : ∀ e ∈ es, Plain e) : absComponents (join (d :: es)) = absComponents d ++ es :=
  absComponents_join_components h (flatMap_components_plain hes) hes

/-! ## Relative paths -/

theorem foldl_push_dotdot (k n : ℕ) :
    (List.replicate n dotdot).foldl (push false) (List.replicate k dotdot) =
      List.replicate (k + n) dotdot := by
  induction n generalizing k with
  | zero => rfl
  | succ n ih =>
    have hpush : push false (List.replicate k dotdot) dotdot = List.replicate (k + 1) dotdot := by
      cases k with
      | zero => rfl
      | succ k =>
        rw [push, if_neg (by decide), if_pos rfl, List.getLast?_replicate]
        simp [List.replicate_succ' (n := k + 1)]
    rw [List.replicate_succ, List.foldl_cons, hpush, ih]
    congr 1
    omega

/-! ## Trees -/

theorem Contains.refl (p : Str) : Contains p p := List.prefix_refl _

theorem Contains.trans {p q r : Str} (hpq : Contains p q) (hqr : Contains q r) : Contains p r :=
  List.IsPrefix.trans hpq hqr

theorem join_eq_render (h : isAbs d = true) :
    join (d :: es) = render true (absComponents (join (d :: es))) := by
  have habs : isAbs (unsplit (d :: es.filter (· ≠ []))) = true := isAbs_unsplit h
  rw [join_cons_of_isAbs h, absComponents_clean habs, clean_of_isAbs habs]

theorem unsplit_concat {init : List Str} (hnil : init ≠ []) :
    unsplit (init ++ [c]) = unsplit init ++ '/' :: c := by
  induction init with
  | nil => exact absurd rfl hnil
  | cons d init ih =>
    rw [List.cons_append, unsplit_cons (by simp)]
    by_cases hrest : init = []
    · simp [hrest]
    · rw [ih hrest, unsplit_cons hrest, List.append_assoc, List.cons_append]

theorem absComponents_dir (h : ∀ c ∈ cs, Plain c) :
    absComponents (dir (render true cs)) = cs.dropLast := by
  rcases List.eq_nil_or_concat' cs with rfl | ⟨init, c, rfl⟩
  · rfl
  have hinit : ∀ d ∈ init, Plain d := fun d hd => h d (by simp [hd])
  have hall : ∀ x ∈ c.reverse, (x != '/') = true := by
    intro x hx
    rw [bne_iff_ne]
    rintro rfl
    exact (h c (by simp)).no_sep (List.mem_reverse.mp hx)
  rw [List.dropLast_concat]
  by_cases hnil : init = []
  · subst hnil
    have hdrop : List.rdropWhile (· != '/') (render true [c]) = ['/'] := by
      rw [render, if_pos rfl, unsplit_singleton, List.rdropWhile, List.reverse_cons,
        List.dropWhile_append_of_pos hall]
      rfl
    rw [List.nil_append, dir, hdrop]
    rfl
  · have hdrop : List.rdropWhile (· != '/') (render true (init ++ [c])) =
        render true init ++ ['/'] := by
      rw [render, if_pos rfl, unsplit_concat hnil, List.rdropWhile, List.reverse_cons,
        List.reverse_append, List.reverse_cons, List.append_assoc, List.append_assoc,
        List.dropWhile_append_of_pos hall]
      simp [render]
    have habs : isAbs (render true init ++ ['/']) = true := rfl
    have hcomp : absComponents (render true init ++ ['/']) = absComponents (render true init) := by
      rw [absComponents, components_append_sep, normalize, List.foldl_append]
      exact push_nil true _
    rw [dir, hdrop, absComponents_clean habs, hcomp, absComponents_render hinit]

section

variable (h : isAbs d = true)

include h

theorem contains_dir_join : Contains (dir (join (d :: es))) (join (d :: es)) := by
  have hdir : absComponents (dir (join (d :: es))) = (absComponents (join (d :: es))).dropLast := by
    rw [join_eq_render h, absComponents_dir fun c hc => plain_of_mem_absComponents hc,
      absComponents_render fun c hc => plain_of_mem_absComponents hc]
  rw [Contains, hdir]
  exact List.dropLast_prefix _

/-- A path that ends in a trimmed name is trimmed. -/
theorem trimSpace_join (hes : ∀ e ∈ es ++ [c], Plain e) (hc : trimSpace c = c) :
    trimSpace (join (d :: (es ++ [c]))) = join (d :: (es ++ [c])) := by
  have hne : c ≠ [] := (hes c (by simp)).ne_nil
  have hlast : ∀ init, ('/' :: unsplit (init ++ [c])).getLast? = c.getLast? := by
    intro init
    by_cases hnil : init = []
    · simp [hnil, unsplit, List.getLast?_cons, List.getLast?_eq_some_getLast hne]
    · simp [unsplit_concat hnil, List.getLast?_append, List.getLast?_cons,
        List.getLast?_eq_some_getLast hne]
  rw [join_eq_render h, absComponents_join_plain h hes, ← List.append_assoc, render, if_pos rfl]
  refine trimSpace_eq_self ?_ ?_
  · rintro x ⟨⟩
    decide
  · rw [hlast, ← hc]
    exact isSpace_getLast_trimSpace c

theorem absComponents_join_relText (rel : List Name) :
    absComponents (join [d, relText rel]) = absComponents d ++ rel.map (·.1) := by
  have hplain : ∀ c ∈ rel.map (·.1), Plain c := by
    intro c hc
    obtain ⟨n, -, rfl⟩ := List.mem_map.mp hc
    exact n.2
  by_cases hnil : rel = []
  · subst hnil
    have hdot : (components (relText [])).foldl (push true) (absComponents d) =
      absComponents d := rfl
    rw [absComponents_join h, normalize, List.foldl_append, List.flatMap_singleton,
      List.map_nil, List.append_nil]
    exact hdot
  · refine absComponents_join_components h ?_ hplain
    rw [relText, if_neg hnil, List.flatMap_singleton,
      components_unsplit (fun c hc => (hplain c hc).no_sep) (mt List.map_eq_nil_iff.mp hnil)]

theorem contains_join_relText (rel : List Name) : Contains d (join [d, relText rel]) := by
  rw [Contains, absComponents_join_relText h]
  exact List.prefix_append _ _

theorem contains_join_name (hc : Plain c) : Contains d (join [d, c]) := by
  rw [Contains, absComponents_join_plain h (by simpa using hc)]
  exact List.prefix_append _ _

end

/-- Every place in the tree of a path is reached by a path below it. -/
theorem exists_relText_of_contains {d q : Str} (h : isAbs d = true) (hq : Contains d q) :
    ∃ rel : List Name, absComponents (join [d, relText rel]) = absComponents q := by
  obtain ⟨rest, hrest⟩ := hq
  have hplain : ∀ c ∈ rest, Plain c := fun c hc =>
    plain_of_mem_absComponents (s := q) (hrest ▸ List.mem_append_right _ hc)
  refine ⟨rest.pmap (fun c hc => ⟨c, hc⟩) hplain, ?_⟩
  rw [absComponents_join_relText h, List.map_pmap, List.pmap_eq_map, List.map_id', hrest]

/-! ## Climbing -/

theorem push_dotdot_concat (hc : Plain c) : push rooted (cs ++ [c]) dotdot = cs := by
  rw [push, if_neg (by decide), if_pos rfl, List.getLast?_concat]
  simp [hc.ne_dotdot]

theorem push_dotdot_replicate (k : ℕ) :
    push false (List.replicate k dotdot) dotdot = List.replicate (k + 1) dotdot := by
  have h := foldl_push_dotdot k 1
  rwa [List.replicate_one, List.foldl_cons, List.foldl_nil] at h

/-- A climb takes the last component of a place away, and stays at the root. -/
theorem push_dotdot_take {place : List Str} (hplace : ∀ c ∈ place, Plain c) (k : ℕ) :
    push true (place.take (place.length - k)) dotdot = place.take (place.length - (k + 1)) := by
  rcases List.eq_nil_or_concat' (place.take (place.length - k)) with hnil | ⟨init, c, hconcat⟩
  · have hlen := congrArg List.length hnil
    rw [List.length_take, List.length_nil] at hlen
    rw [hnil, show place.length - (k + 1) = 0 by omega, List.take_zero]
    rfl
  · have hmem : c ∈ place.take (place.length - k) := by simp [hconcat]
    have hc : Plain c := hplace c (List.mem_of_mem_take hmem)
    rw [hconcat, push_dotdot_concat hc]
    have hlen := congrArg List.length hconcat
    rw [List.length_take, List.length_append, List.length_singleton] at hlen
    have hinit : (place.take (place.length - k)).take init.length = init := by
      rw [hconcat, List.take_left']
      rfl
    rw [← hinit, List.take_take]
    congr 1
    omega

/-- A cleaned relative path climbs first and then goes down, and cleaning it after a place takes as
many components of the place away. -/
theorem normalize_false_shape {place cs : List Str} (hplace : ∀ c ∈ place, Plain c)
    (hcs : ∀ c ∈ cs, '/' ∉ c) :
    ∃ k r, (∀ c ∈ r, Plain c) ∧ normalize false cs = List.replicate k dotdot ++ r ∧
      cs.foldl (push true) place = place.take (place.length - k) ++ r := by
  induction cs using List.reverseRecOn with
  | nil => exact ⟨0, [], by simp, rfl, by simp⟩
  | append_singleton cs c ih =>
    obtain ⟨k, r, hr, hrel, habs⟩ := ih fun d hd => hcs d (List.mem_append_left _ hd)
    have hnorm : normalize false (cs ++ [c]) = push false (normalize false cs) c := by
      rw [normalize, List.foldl_append, List.foldl_cons, List.foldl_nil, normalize]
    rw [hnorm, hrel, List.foldl_append, habs, List.foldl_cons, List.foldl_nil]
    by_cases hempty : c = [] ∨ c = dot
    · exact ⟨k, r, hr, by rw [push, if_pos hempty], by rw [push, if_pos hempty]⟩
    by_cases hdd : c = dotdot
    · subst hdd
      rcases List.eq_nil_or_concat' r with rfl | ⟨r, d, rfl⟩
      · refine ⟨k + 1, [], by simp, ?_, ?_⟩
        · rw [List.append_nil, push_dotdot_replicate, List.append_nil]
        · rw [List.append_nil, push_dotdot_take hplace, List.append_nil]
      · have hd : Plain d := hr d (by simp)
        refine ⟨k, r, fun c hc => hr c (List.mem_append_left _ hc), ?_, ?_⟩
        · rw [← List.append_assoc, push_dotdot_concat hd]
        · rw [← List.append_assoc, push_dotdot_concat hd]
    · have hc : Plain c := by
        rw [not_or] at hempty
        exact ⟨hempty.1, hempty.2, hdd, hcs c (by simp)⟩
      refine ⟨k, r ++ [c], fun d hd => ?_, ?_, ?_⟩
      · rcases List.mem_append.mp hd with hd | hd
        · exact hr d hd
        · exact List.mem_singleton.mp hd ▸ hc
      · rw [push_plain hc, List.append_assoc]
      · rw [push_plain hc, List.append_assoc]

/-- **A path that does not climb stays below a place**: cleaning it after the place leads to its
cleaned form below it. -/
theorem foldl_push_of_not_climbing {place cs : List Str} (hplace : ∀ c ∈ place, Plain c)
    (hcs : ∀ c ∈ cs, '/' ∉ c) (hstays : dotdot ∉ normalize false cs) :
    cs.foldl (push true) place = place ++ normalize false cs := by
  obtain ⟨k, r, -, hrel, habs⟩ := normalize_false_shape hplace hcs
  obtain rfl : k = 0 := by
    by_contra hk
    exact hstays (hrel ▸ List.mem_append_left _ (List.mem_replicate.mpr ⟨hk, rfl⟩))
  rw [habs, hrel, Nat.sub_zero, List.take_length]
  rfl

end Lexical
