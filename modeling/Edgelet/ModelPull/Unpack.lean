import Edgelet.Codec.JsonText
import Edgelet.Lexical.Path

/-!
# Unpacking the layers of an artifact

A layer is a tar archive or becomes one file, whose name comes from its annotations, its media type
or its position. Names are joined to the destination by `safeJoin`. The steps act on what is below
the destination, where a link would lead elsewhere; calls of the system fail only for what they
find. A relative destination is taken for the absolute path that it stands for. The bytes are of any
type.
-/

namespace Edgelet.ModelPull.Format

open Lexical Json

abbrev AbsPath := {s : Str // isAbs s = true}

def safeJoin (root rel : Str) : Option Str :=
  if trimSpace rel = [] ∨ occursIn dotdot rel = true then none
  else
    let rel := (clean ('/' :: rel)).drop 1
    if rel = [] ∨ rel = dot then none
    else
      let dest := join [root, rel]
      match Lexical.rel (clean root) dest with
      | some r => if dotdot.isPrefixOf r then none else some dest
      | none => none

/-! ## The tree below the destination -/

inductive Node (β : Type)
  | dir
  | file (bytes : β)
  | link

structure Tree (β : Type) where
  /-- By the components below the destination. -/
  node : List Str → Option (Node β)
  /-- Something was created through a link, or not below the destination. -/
  outside : Bool := false
  relPaths : List Str := []

variable {β : Type}

abbrev Step (β : Type) := Tree β → Tree β × Bool

namespace Step

def fail : Step β := fun t => (t, false)

def andThen (f g : Step β) : Step β := fun t =>
  if (f t).2 then g (f t).1 else f t

def all : List (Step β) → Step β
  | [] => fun t => (t, true)
  | f :: fs => f.andThen (all fs)

end Step

namespace Tree

def set (t : Tree β) (p : List Str) (n : Node β) : Tree β :=
  { t with node := Function.update t.node p (some n) }

def mkdirs (t : Tree β) (here : List Str) : List Str → Tree β × Bool
  | [] => (t, true)
  | c :: cs =>
    match t.node (here ++ [c]) with
    | none => (t.set (here ++ [c]) .dir).mkdirs (here ++ [c]) cs
    | some .dir => t.mkdirs (here ++ [c]) cs
    | some (.file _) => (t, false)
    | some .link => ({ t with outside := true }, true)

def fileAt (t : Tree β) (p : List Str) : Option β :=
  match t.node p with
  | some (.file bytes) => some bytes
  | _ => none

def Sound (t : Tree β) : Prop := t.outside = false ∧ ∀ p, t.node p ≠ some .link

end Tree

section Unpack

variable (dest : AbsPath)

def below (path : Str) : Option (List Str) :=
  if Contains dest path then some ((absComponents path).drop (absComponents dest).length) else none

def mkdirAll (path : Str) : Step β := fun t =>
  match below dest path with
  | none => ({ t with outside := true }, true)
  | some cs => t.mkdirs [] cs

/-- `os.Create` and `os.OpenFile`, in a directory that is there, and what is written. -/
def writeFile (path : Str) (bytes : β) : Step β := fun t =>
  match below dest path with
  | none => ({ t with outside := true }, true)
  | some [] => (t, false)
  | some cs =>
    match t.node cs with
    | none | some (.file _) => (t.set cs (.file bytes), true)
    | some .dir => (t, false)
    | some .link => ({ t with outside := true }, true)

def addRelPath (path : Str) : Step β := fun t =>
  ({ t with relPaths := t.relPaths ++ [join ["content".toList, path]] }, true)

/-! ## Archives -/

inductive Typeflag
  | dir | reg | other

structure TarEntry (β : Type) where
  name : Str
  typeflag : Typeflag
  size : ℤ
  data : β
  /-- The data is as long as the header says. -/
  complete : Bool

/-- The entries of a blob that is read as an archive, and whether the last one is followed by the
end; `none` when it cannot be uncompressed. -/
abbrev TarReader (β : Type) := (gzipped : Bool) → β → Option (List (TarEntry β) × Bool)

variable (blobs : Str → Option β) (tar : TarReader β)

def maxTarEntryBytes : ℤ := 512 * 1073741824

def TarEntry.path (e : TarEntry β) : Str :=
  if "./".toList.isPrefixOf e.name then e.name.drop 2 else e.name

def extractEntry (e : TarEntry β) : Step β :=
  if e.path = [] ∨ e.path = dot then Step.all []
  else
    match safeJoin dest e.path, e.typeflag with
    | none, _ => .fail
    | some path, .dir => mkdirAll dest path
    | some path, .reg =>
      if e.size < 0 ∨ e.size > maxTarEntryBytes then .fail
      else .all [mkdirAll dest (dir path), writeFile dest path e.data, fun t => (t, e.complete),
        addRelPath e.path]
    | some _, .other => Step.all []  -- links and specials are skipped

def extractTar (data : β) (gzipped : Bool) : Step β :=
  match tar gzipped data with
  | none => .fail
  | some (entries, ended) =>
    (Step.all (entries.map (extractEntry dest))).andThen fun t => (t, ended)

/-! ## Layers -/

structure Layer where
  mediaType : Str
  digest : Str
  filePath : Str := []
  title : Str := []

def Layer.mt (l : Layer) : Str := toLower (trimSpace l.mediaType)

def isTarMedia (mt : Str) : Bool := occursIn "tar".toList (toLower mt)

def isGzipTarMedia (mt : Str) : Bool :=
  occursIn "tar".toList (toLower mt) &&
    (occursIn "gzip".toList (toLower mt) || ".gz".toList.isSuffixOf (toLower mt))

def copyBlobToFile (digest path : Str) : Step β :=
  (mkdirAll dest (dir path)).andThen (match blobs digest with
    | none => .fail
    | some bytes => writeFile dest path bytes)

def unpackLayer (l : Layer) (name : Str) : Step β :=
  if isTarMedia l.mt then
    match blobs l.digest with
    | none => .fail
    | some data => extractTar dest tar data (isGzipTarMedia l.mt)
  else
    match safeJoin dest name with
    | none => .fail
    | some path => (copyBlobToFile dest blobs l.digest path).andThen (addRelPath name)

def extensionForMedia (mt : Str) : Str :=
  if occursIn "gguf".toList mt then ".gguf".toList
  else if occursIn "safetensors".toList mt then ".safetensors".toList
  else if occursIn "jinja".toList mt then ".jinja".toList
  else if occursIn "onnx".toList mt then ".onnx".toList
  else ".bin".toList

def fallbackLayerName (l : Layer) : Str :=
  if trimSpace l.title ≠ [] then base (trimSpace l.title)
  else
    let hex := (l.digest.dropWhile (· ≠ ':')).drop 1
    (if hex = [] then "blob".toList else hex) ++ extensionForMedia l.mt

def mediaDocker (s : String) : Str := "application/vnd.docker.ai.".toList ++ s.toList

def pad5 (n : ℕ) : Str := List.replicate (5 - (natText n).length) '0' ++ natText n

def shardName (i total : ℕ) (ext : Str) : Str :=
  if total ≤ 1 then "model.".toList ++ ext
  else "model-".toList ++ pad5 i ++ "-of-".toList ++ pad5 total ++ ['.'] ++ ext

def dockerLayerName (mt : Str) (ggufIdx ggufTotal safeIdx safeTotal : ℕ) : Str × ℕ × ℕ :=
  if mt = mediaDocker "gguf.v3" then
    (shardName (ggufIdx + 1) ggufTotal "gguf".toList, ggufIdx + 1, safeIdx)
  else if mt = mediaDocker "safetensors" then
    (shardName (safeIdx + 1) safeTotal "safetensors".toList, ggufIdx, safeIdx + 1)
  else
    (if mt = mediaDocker "gguf.v3.lora" then "adapter.gguf".toList
    else if mt = mediaDocker "gguf.v3.mmproj" ∨ mt = mediaDocker "mmproj" then "model.mmproj".toList
    else if mt = mediaDocker "license" then "LICENSE".toList
    else if mt = mediaDocker "chat.template.jinja" then "template.jinja".toList
    else if mt = mediaDocker "dduf" then "model.dduf".toList
    else [], ggufIdx, safeIdx)

def dockerNames (ggufTotal safeTotal : ℕ) : ℕ → ℕ → List Layer → List Str
  | _, _, [] => []
  | ggufIdx, safeIdx, l :: ls =>
    if trimSpace l.filePath ≠ [] then
      trimSpace l.filePath :: dockerNames ggufTotal safeTotal ggufIdx safeIdx ls
    else
      let (name, ggufIdx, safeIdx) := dockerLayerName l.mt ggufIdx ggufTotal safeIdx safeTotal
      (if name = [] then fallbackLayerName l else name) ::
        dockerNames ggufTotal safeTotal ggufIdx safeIdx ls

inductive ArtifactKind
  | docker | modelPack | modelKit | oras
  deriving DecidableEq

def layerName (l : Layer) (i : ℕ) : Str :=
  "layer-".toList ++ natText i ++ extensionForMedia l.mt

def annotatedName (l : Layer) (other : Str) : Str :=
  if trimSpace l.filePath ≠ [] then trimSpace l.filePath
  else if trimSpace l.title ≠ [] then trimSpace l.title else other

def layerNames (layers : List Layer) : ArtifactKind → List Str
  | .docker =>
    let total (mt : String) := layers.countP fun l => toLower l.mediaType = mediaDocker mt
    dockerNames (total "gguf.v3") (total "safetensors") 0 0 layers
  | .modelPack => layers.zipIdx.map fun (l, i) => annotatedName l (layerName l i)
  | .modelKit => layers.zipIdx.map fun (l, i) =>
    let name := fallbackLayerName l
    annotatedName l (if ".bin".toList.isSuffixOf name then layerName l i else name)
  | .oras => layers.zipIdx.map fun (l, i) =>
    annotatedName l (if layers.length = 1 then "model.bin".toList else layerName l i)

def unpack (kind : ArtifactKind) (layers : List Layer) : Step β := fun t =>
  (Step.all ((layers.zip (layerNames layers kind)).map fun x =>
      unpackLayer dest blobs tar x.1 x.2)).andThen
    (fun t => (t, if kind = .oras then !layers.isEmpty else !t.relPaths.isEmpty))
    { t with relPaths := [] }

/-! ## What a step does -/

def overlay (ws : List (List Str × β)) (files : List Str → Option β) : List Str → Option β :=
  ws.foldl (fun files w => Function.update files w.1 (some w.2)) files

/-- **What a step does** to a tree without links: nothing is created elsewhere and no link appears,
and if it succeeds the files are those before with some written over them. -/
def Step.Does (f : Step β) (ws : List (List Str × β)) : Prop :=
  ∀ t, t.Sound → (f t).1.Sound ∧ ((f t).2 = true → (f t).1.fileAt = overlay ws t.fileAt)

def place (name : Str) : Option (List Str) := (safeJoin dest name).bind (below dest)

def TarEntry.writes (e : TarEntry β) : List (List Str × β) :=
  match e.typeflag, place dest e.path with
  | .reg, some cs => [(cs, e.data)]
  | _, _ => []

def layerWrites (l : Layer) (name : Str) : List (List Str × β) :=
  if isTarMedia l.mt then
    match (blobs l.digest).bind (tar (isGzipTarMedia l.mt)) with
    | some (entries, _) => entries.flatMap (·.writes dest)
    | none => []
  else
    match place dest name, blobs l.digest with
    | some cs, some bytes => [(cs, bytes)]
    | _, _ => []

def writes (kind : ArtifactKind) (layers : List Layer) : List (List Str × β) :=
  (layers.zip (layerNames layers kind)).flatMap fun x => layerWrites dest blobs tar x.1 x.2

section Does

variable {f g : Step β} {ws ws' : List (List Str × β)} {path : Str} {cs : List Str}

theorem does_fail : Step.fail.Does ws := fun _ ht => ⟨ht, nofun⟩

theorem does_done : (Step.all []).Does ([] : List (List Str × β)) := fun _ ht => ⟨ht, fun _ => rfl⟩

theorem Step.Does.andThen (hf : f.Does ws) (hg : g.Does ws') : (f.andThen g).Does (ws ++ ws') := by
  intro t ht
  obtain ⟨hsound, hfiles⟩ := hf t ht
  unfold Step.andThen
  split
  next hok =>
    refine ⟨(hg _ hsound).1, fun hg' => ?_⟩
    rw [(hg _ hsound).2 hg', hfiles hok, overlay, overlay, overlay, List.foldl_append]
  next hno => exact ⟨hsound, fun hok => absurd hok hno⟩

theorem does_all {α : Type} {xs : List α} {f : α → Step β} {w : α → List (List Str × β)}
    (h : ∀ x ∈ xs, (f x).Does (w x)) : (Step.all (xs.map f)).Does (xs.flatMap w) := by
  induction xs with
  | nil => exact does_done
  | cons x xs ih =>
    exact (h x List.mem_cons_self).andThen (ih fun y hy => h y (List.mem_cons_of_mem x hy))

theorem Tree.Sound.set {t : Tree β} {n : Node β} (ht : t.Sound) (hn : n ≠ .link) :
    (t.set cs n).Sound := by
  refine ⟨ht.1, fun p => ?_⟩
  by_cases hp : p = cs
  · simpa [Tree.set, hp] using hn
  · simpa [Tree.set, hp] using ht.2 p

theorem does_mkdirs (here : List Str) : Step.Does (fun t : Tree β => t.mkdirs here cs) [] := by
  induction cs generalizing here with
  | nil => exact does_done
  | cons c cs ih =>
    intro t ht
    simp only [Tree.mkdirs]
    split
    next hnone =>
      have hfiles : (t.set (here ++ [c]) .dir).fileAt = t.fileAt := by
        funext p
        by_cases hp : p = here ++ [c] <;> simp [Tree.fileAt, Tree.set, hp, hnone]
      have hrest := ih (here ++ [c]) (t.set (here ++ [c]) .dir) (ht.set nofun)
      rwa [hfiles] at hrest
    next => exact ih _ t ht
    next => exact ⟨ht, nofun⟩
    next hlink => exact absurd hlink (ht.2 _)

theorem does_mkdirAll (h : below dest path = some cs) : (mkdirAll (β := β) dest path).Does [] := by
  unfold mkdirAll
  rw [h]
  exact does_mkdirs []

theorem does_writeFile {bytes : β} (h : below dest path = some cs) :
    (writeFile dest path bytes).Does [(cs, bytes)] := by
  intro t ht
  have hfiles : (t.set cs (.file bytes)).fileAt = overlay [(cs, bytes)] t.fileAt := by
    funext p
    by_cases hp : p = cs <;> simp [Tree.fileAt, Tree.set, overlay, hp]
  simp only [writeFile, h]
  split
  next => contradiction
  next => exact ⟨ht, nofun⟩
  next heq =>
    cases heq
    split
    next => exact ⟨ht.set nofun, fun _ => hfiles⟩
    next => exact ⟨ht.set nofun, fun _ => hfiles⟩
    next => exact ⟨ht, nofun⟩
    next hlink => exact absurd hlink (ht.2 _)

theorem does_addRelPath : (addRelPath (β := β) path).Does [] := fun _ ht => ⟨ht, fun _ => rfl⟩

theorem below_of_components {rest : List Str}
    (h : absComponents path = absComponents dest.1 ++ rest) : below dest path = some rest := by
  have hc : Contains dest.1 path := ⟨rest, h.symm⟩
  rw [below, if_pos hc, h, List.drop_left]

theorem below_of_safeJoin {rel : Str} (h : safeJoin dest rel = some path) :
    ∃ cs, below dest path = some cs ∧ below dest (dir path) = some cs.dropLast ∧
      absComponents ('/' :: rel) = cs := by
  have hplain : ∀ c ∈ absComponents ('/' :: rel), Plain c := fun c => plain_of_mem_absComponents
  have hclean : clean ('/' :: rel) = '/' :: unsplit (absComponents ('/' :: rel)) :=
    clean_of_isAbs rfl
  generalize hrel : absComponents ('/' :: rel) = cs at hplain hclean
  obtain ⟨hne, rfl⟩ : unsplit cs ≠ [] ∧ join [dest.1, unsplit cs] = path := by
    simp only [safeJoin, hclean, List.drop_succ_cons, List.drop_zero] at h
    split_ifs at h with h1 h2
    split at h
    · split_ifs at h
      exact ⟨fun hnil => h2 (.inl hnil), Option.some.inj h⟩
    · cases h
  have hcs : cs ≠ [] := by
    rintro rfl
    exact hne rfl
  have hpath : absComponents (join [dest.1, unsplit cs]) = absComponents dest.1 ++ cs := by
    refine absComponents_join_components dest.2 ?_ hplain
    simp [components_unsplit (fun c hc => (hplain c hc).no_sep) hcs]
  refine ⟨cs, below_of_components dest hpath, below_of_components dest ?_, rfl⟩
  rw [join_eq_render dest.2, absComponents_dir fun c => plain_of_mem_absComponents, hpath,
    List.dropLast_append_of_ne_nil hcs]

theorem does_extractEntry (e : TarEntry β) : (extractEntry dest e).Does (e.writes dest) := by
  unfold extractEntry TarEntry.writes place
  split
  next hblank =>
    have hnone : safeJoin dest e.path = none := by
      rcases hblank with h | h <;> rw [h] <;> rfl
    simp only [hnone, Option.bind_none]
    split
    next => contradiction
    next => exact does_done
  next =>
    cases hjoin : safeJoin dest e.path with
    | none => exact does_fail
    | some path =>
      obtain ⟨cs, hcs, hdir, -⟩ := below_of_safeJoin dest hjoin
      simp only [Option.bind_some, hcs]
      cases e.typeflag with
      | dir => exact does_mkdirAll dest hcs
      | other => exact does_done
      | reg =>
        simp only
        split
        · exact does_fail
        · have hend : Step.Does (fun t => (t, e.complete)) ([] : List (List Str × β)) :=
            fun _ ht => ⟨ht, fun _ => rfl⟩
          exact (does_mkdirAll dest hdir).andThen ((does_writeFile dest hcs).andThen
            (hend.andThen (does_addRelPath.andThen does_done)))

theorem does_unpackLayer (l : Layer) (name : Str) :
    (unpackLayer dest blobs tar l name).Does (layerWrites dest blobs tar l name) := by
  unfold unpackLayer layerWrites
  split
  next =>
    cases blobs l.digest with
    | none => exact does_fail
    | some data =>
      simp only [extractTar, Option.bind_some]
      cases tar (isGzipTarMedia l.mt) data with
      | none => exact does_fail
      | some archive =>
        have hend : Step.Does (fun t => (t, archive.2)) ([] : List (List Str × β)) :=
          fun _ ht => ⟨ht, fun _ => rfl⟩
        simpa using (does_all fun e _ => does_extractEntry dest e).andThen hend
  next =>
    cases hjoin : safeJoin dest name with
    | none => exact does_fail
    | some path =>
      obtain ⟨cs, hcs, hdir, -⟩ := below_of_safeJoin dest hjoin
      simp only [copyBlobToFile, place, hjoin, Option.bind_some, hcs]
      cases blobs l.digest with
      | none =>
        exact ((does_mkdirAll dest hdir).andThen (@does_fail _ [])).andThen does_addRelPath
      | some bytes =>
        exact ((does_mkdirAll dest hdir).andThen (does_writeFile dest hcs)).andThen does_addRelPath

theorem does_unpack (kind : ArtifactKind) (layers : List Layer) :
    (unpack dest blobs tar kind layers).Does (writes dest blobs tar kind layers) := by
  have hall := @does_all β _ (layers.zip (layerNames layers kind)) _ _ fun x _ =>
    does_unpackLayer dest blobs tar x.1 x.2
  have hend : Step.Does (fun t : Tree β =>
      (t, if kind = .oras then !layers.isEmpty else !t.relPaths.isEmpty)) [] :=
    fun _ ht => ⟨ht, fun _ => rfl⟩
  have hunpack := hall.andThen hend
  rw [List.append_nil] at hunpack
  exact fun t ht => hunpack { t with relPaths := [] } ht

end Does

/-- **Unpacking stays inside the destination**: whatever the layers and archives are, also when it
fails, nothing is created elsewhere and no link is created. -/
theorem unpack_inside (kind : ArtifactKind) (layers : List Layer) (t : Tree β) (h : t.Sound) :
    (unpack dest blobs tar kind layers t).1.Sound :=
  (does_unpack dest blobs tar kind layers t h).1

/-- Different files hold the blobs of the layers that are no archives. -/
def Kept (layers : List Layer) (files : List Str → Option β) : Prop :=
  ∃ file : ℕ → List Str, ∀ i l, layers[i]? = some l → isTarMedia l.mt = false →
    (∃ bytes, blobs l.digest = some bytes ∧ files (file i) = some bytes) ∧
      ∀ j l', layers[j]? = some l' → isTarMedia l'.mt = false → file i = file j → i = j

/-- **The names stay apart**: no later layer writes at the place of a layer that is no archive, be
it as a file of its own or as an entry of an archive. -/
def Apart (kind : ArtifactKind) (layers : List Layer) : Prop :=
  (layers.zip (layerNames layers kind)).Pairwise fun x y => isTarMedia x.1.mt = false →
    ∀ cs ∈ place dest x.2, cs ∉ (layerWrites dest blobs tar y.1 y.2).map (·.1)

section Kept

variable {ws : List (List Str × β)} {files : List Str → Option β} {layers : List Layer}
  {kind : ArtifactKind} {l : Layer} {name : Str}

theorem overlay_of_not_mem {cs : List Str} (h : cs ∉ ws.map (·.1)) :
    overlay ws files cs = files cs := by
  induction ws generalizing files with
  | nil => rfl
  | cons w ws ih =>
    obtain ⟨hne, hrest⟩ := not_or.mp (mt List.mem_cons.mpr h)
    rw [overlay, List.foldl_cons, ← overlay, ih hrest, Function.update_of_ne hne]

theorem overlay_flatMap {α : Type} {xs : List α} {w : α → List (List Str × β)} {i : ℕ} {x : α}
    {cs : List Str} {bytes : β} (hx : xs[i]? = some x) (hw : w x = [(cs, bytes)])
    (hlater : ∀ y ∈ xs.drop (i + 1), cs ∉ (w y).map (·.1)) :
    overlay (xs.flatMap w) files cs = some bytes := by
  obtain ⟨hi, rfl⟩ := List.getElem?_eq_some_iff.mp hx
  have hrest : cs ∉ ((xs.drop (i + 1)).flatMap w).map (·.1) := by
    simp only [List.map_flatMap, List.mem_flatMap, not_exists, not_and]
    exact hlater
  conv_lhs => rw [← List.take_append_drop i xs, List.drop_eq_getElem_cons hi]
  rw [List.flatMap_append, List.flatMap_cons, hw, ← List.append_assoc, overlay, List.foldl_append,
    ← overlay, overlay_of_not_mem hrest]
  simp

theorem ok_of_andThen {f g : Step β} {t : Tree β} (h : ((f.andThen g) t).2 = true) :
    (f t).2 = true := by
  unfold Step.andThen at h
  split at h
  next hf => exact hf
  next hf => exact absurd h hf

theorem exists_ok_of_all {fs : List (Step β)} {t : Tree β} (h : (Step.all fs t).2 = true)
    {f : Step β} (hf : f ∈ fs) : ∃ t', (f t').2 = true := by
  induction fs generalizing t with
  | nil => cases hf
  | cons g fs ih =>
    simp only [Step.all, Step.andThen] at h
    split at h
    next hg =>
      obtain rfl | hf := List.mem_cons.mp hf
      · exact ⟨t, hg⟩
      · exact ih h hf
    next hg => exact absurd h hg

theorem layerWrites_of_ok {t : Tree β} (h : (unpackLayer dest blobs tar l name t).2 = true)
    (htar : isTarMedia l.mt = false) : ∃ cs bytes, place dest name = some cs ∧
      blobs l.digest = some bytes ∧ layerWrites dest blobs tar l name = [(cs, bytes)] := by
  unfold unpackLayer at h
  rw [if_neg (by simp [htar])] at h
  cases hjoin : safeJoin dest name with
  | none => simp [hjoin, Step.fail] at h
  | some path =>
    obtain ⟨cs, hcs, -, -⟩ := below_of_safeJoin dest hjoin
    cases hbytes : blobs l.digest with
    | none =>
      simp only [hjoin, copyBlobToFile, hbytes, Step.andThen, Step.fail] at h
      split at h <;> simp_all
    | some bytes =>
      have hplace : place dest name = some cs := by simp [place, hjoin, hcs]
      exact ⟨cs, bytes, hplace, rfl, by simp [layerWrites, htar, hplace, hbytes]⟩

theorem length_dockerNames (ggufTotal safeTotal ggufIdx safeIdx : ℕ) :
    (dockerNames ggufTotal safeTotal ggufIdx safeIdx layers).length = layers.length := by
  induction layers generalizing ggufIdx safeIdx with
  | nil => rfl
  | cons l layers ih =>
    unfold dockerNames
    split <;> simp [ih]

theorem length_layerNames : (layerNames layers kind).length = layers.length := by
  cases kind with
  | docker => exact length_dockerNames _ _ 0 0
  | _ => simp only [layerNames, List.length_map, List.length_zipIdx]

/-- The pair of a layer and its name, between those before and those after it. -/
theorem exists_name (kind : ArtifactKind) {i : ℕ} (h : layers[i]? = some l) :
    ∃ name, (layers.zip (layerNames layers kind))[i]? = some (l, name) := by
  have hi : i < (layerNames layers kind).length := by
    rw [length_layerNames]
    exact (List.getElem?_eq_some_iff.mp h).1
  exact ⟨(layerNames layers kind)[i], by simp [List.getElem?_zip_eq_some, h]⟩

/-! ### Names by position -/

theorem place_of_plain {cs : List Str} (hplain : Plain name) (h : place dest name = some cs) :
    cs = [name] := by
  obtain ⟨path, hpath, hcs⟩ := Option.bind_eq_some_iff.mp h
  obtain ⟨cs', hcs', -, hname⟩ := below_of_safeJoin dest hpath
  obtain rfl := Option.some.inj (hcs'.symm.trans hcs)
  rw [← hname]
  have hrender := @absComponents_render [name] (by simpa using hplain)
  simpa [render, unsplit] using hrender

theorem extensionForMedia_mem (mt : Str) : extensionForMedia mt ∈
    [".gguf".toList, ".safetensors".toList, ".jinja".toList, ".onnx".toList, ".bin".toList] := by
  unfold extensionForMedia
  repeat' split
  all_goals decide

theorem head?_extensionForMedia (mt : Str) : (extensionForMedia mt).head? = some '.' := by
  unfold extensionForMedia
  repeat' split
  all_goals rfl

theorem plain_layerName (l : Layer) (i : ℕ) : Plain (layerName l i) := by
  have hsep : '/' ∉ layerName l i := by
    simp only [layerName, List.mem_append, not_or]
    refine ⟨⟨by decide, fun h => absurd (isDigit_natText h) (by decide)⟩, ?_⟩
    exact (show ∀ e ∈ _, '/' ∉ e by decide) _ (extensionForMedia_mem l.mt)
  exact ⟨nofun, nofun, nofun, hsep⟩

theorem layerName_inj {l l' : Layer} {i j : ℕ} (h : layerName l i = layerName l' j) : i = j := by
  have hstops (mt : Str) : Stops (extensionForMedia mt) := by
    intro c hc
    rw [head?_extensionForMedia, Option.mem_some] at hc
    exact hc ▸ rfl
  rw [layerName, layerName, List.append_assoc, List.append_assoc] at h
  exact (natText_append_inj (hstops _) (hstops _) (List.append_cancel_left h)).1

/-- **Names by position stay apart**: those of a ModelPack manifest without annotations and
archives. -/
theorem apart_modelPack (h : ∀ l ∈ layers, trimSpace l.filePath = [] ∧ trimSpace l.title = [] ∧
    isTarMedia l.mt = false) : Apart dest blobs tar .modelPack layers := by
  have hzip : layers.zip (layerNames layers .modelPack) =
      layers.zipIdx.map fun x => (x.1, layerName x.1 x.2) := by
    have hnames : layerNames layers .modelPack = layers.zipIdx.map fun x => layerName x.1 x.2 := by
      refine List.map_congr_left fun x hx => ?_
      obtain ⟨hfile, htitle, -⟩ := h x.1 (List.fst_mem_of_mem_zipIdx hx)
      simp [annotatedName, hfile, htitle]
    rw [hnames]
    nth_rewrite 1 [← List.zipIdx_map_fst 0 layers]
    exact List.zip_map' ..
  have hlt : (layers.zipIdx.map (·.2)).Pairwise (· < ·) := by
    rw [List.zipIdx_map_snd]
    exact List.pairwise_lt_range'
  rw [Apart, hzip, List.pairwise_map]
  refine (List.pairwise_map.mp hlt).imp_of_mem fun {x y} _ hy hxy _ cs hcs hmem => ?_
  obtain ⟨-, -, htar⟩ := h y.1 (List.fst_mem_of_mem_zipIdx hy)
  obtain rfl := place_of_plain dest (plain_layerName _ _) hcs
  simp only [layerWrites, htar, Bool.false_eq_true, if_false] at hmem
  split at hmem
  next cs' bytes hplace _ =>
    obtain rfl := place_of_plain dest (plain_layerName _ _) hplace
    have hname : layerName x.1 x.2 = layerName y.1 y.2 := by simpa using hmem
    exact absurd (layerName_inj hname) hxy.ne
  next => cases hmem

end Kept

end Unpack

/-! ## Two adapters -/

def emptyTree : Tree ℕ := { node := fun _ => none }

theorem sound_emptyTree : emptyTree.Sound := ⟨rfl, fun _ => nofun⟩

def twoBlobs (digest : Str) : Option ℕ :=
  if digest = "sha256:1".toList then some 1 else if digest = "sha256:2".toList then some 2 else none

def noTar : TarReader ℕ := fun _ _ => none

def contentRoot : AbsPath := ⟨"/models/m/content".toList, rfl⟩

def adapter (digest : String) : Layer := ⟨mediaDocker "gguf.v3.lora", digest.toList, [], []⟩

/-- An adapter and an archive. -/
def adapterAndArchive : List Layer :=
  [adapter "sha256:1", ⟨"application/x-tar".toList, "sha256:2".toList, [], []⟩]

/-- Every archive has the file `a.txt` and some more. -/
def oneFile (more : List String) : TarReader ℕ := fun _ _ =>
  some (("a.txt" :: more).map fun name => ⟨name.toList, .reg, 1, 7, true⟩, true)

/-- The unpacking fails at the name that climbs, after the file before it is written. -/
theorem adapter_inside :
    let t := (unpack contentRoot twoBlobs (oneFile ["../b"]) .docker adapterAndArchive emptyTree).1
    t.Sound ∧ t.fileAt ["a.txt".toList] = some 7 :=
  ⟨unpack_inside contentRoot twoBlobs (oneFile ["../b"]) .docker adapterAndArchive emptyTree
    sound_emptyTree, rfl⟩

end Edgelet.ModelPull.Format
