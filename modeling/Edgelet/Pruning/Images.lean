import Edgelet.Lexical.Text

/-!
# The scheduled prune of images

The references of running containers and configured microservices are looked up among the
identifiers and tags that the engine lists, as they are written. An engine resolves more: `nginx` is
an image whose listed tag is `docker.io/library/nginx:latest`, and that image is deleted.
-/

namespace Edgelet.Pruning

open Lexical

structure ImageInfo where
  id : Str
  repoTags : List Str
  inUse : ℤ

section

variable (images : List ImageInfo) (running msImages : List Str) (img : ImageInfo)

def ImageInfo.names : List Str := img.id :: img.repoTags

def ImageInfo.key : Str := img.repoTags.head?.getD img.id

/-- The images of an engine, and the identifier of the image that a reference is resolved to. A
listed name need not be resolved: untagged images may share `<none>:<none>`. -/
structure Engine where
  images : List ImageInfo
  resolve : Str → Option Str
  trimmed : ∀ img ∈ images, img.id ≠ [] ∧ trimSpace img.id = img.id
  apart : ∀ img ∈ images, ∀ img' ∈ images, img'.id ∈ img.names → img' = img
  own : ∀ img ∈ images, ∀ n ∈ img.names, ∀ id, resolve n = some id → id = img.id

def tagToID (ref : Str) : Str :=
  ((images.reverse.find? fun img => img.names.contains ref).map (·.id)).getD []

def markUsedImage (tagToID : Str → Str) (ref : Str) : List Str :=
  let ref := trimSpace ref
  if ref = [] then []
  else
    let id := trimSpace (tagToID ref)
    if id = [] then [ref] else [ref, id]

def imageProtected (used : List Str) : Bool :=
  used.contains img.id || img.repoTags.any used.contains || decide (0 < img.inUse)

def markedRefs : List Str :=
  running ++ (images.filter (0 < ·.inUse)).flatMap ImageInfo.names ++ msImages

def usedImageIDs : List Str :=
  (markedRefs images running msImages).flatMap (markUsedImage (tagToID images))

def getUnwantedImagesList : List Str :=
  (images.filter fun img => !imageProtected img (usedImageIDs images running msImages)).map
    ImageInfo.key

end

variable (latest : List Str) (workloads : Option (List (Str × Bool)))

def configuredNames : List Str :=
  latest ++ ((workloads.getD []).filter (!·.2)).map (·.1)

def add (names : List Str) (name : Str) : List Str :=
  let name := trimSpace name
  if name = [] ∨ names.contains name then names else names ++ [name]

def configuredMicroserviceImages : List Str :=
  (configuredNames latest workloads).foldl add []

namespace Engine

variable (e : Engine) (running msImages : List Str)

/-- The engine is told to delete the image; one with several tags only loses the tag. -/
def Deletes (img : ImageInfo) : Prop :=
  ∃ key ∈ getUnwantedImagesList e.images running msImages, e.resolve key = some img.id

def Named (img : ImageInfo) : Prop :=
  ∃ ref ∈ markedRefs e.images running msImages, trimSpace ref ≠ [] ∧ trimSpace ref ∈ img.names

variable {e running msImages} {img : ImageInfo}

theorem tagToID_cases (e : Engine) (ref : Str) : tagToID e.images ref = [] ∨
    ∃ img ∈ e.images, ref ∈ img.names ∧ tagToID e.images ref = img.id := by
  unfold tagToID
  cases hfind : e.images.reverse.find? fun img => img.names.contains ref with
  | none => exact .inl rfl
  | some img =>
    exact .inr ⟨img, by simpa using List.mem_of_find?_eq_some hfind,
      by simpa using List.find?_some hfind, rfl⟩

theorem mem_markUsedImage {n ref : Str} (himg : img ∈ e.images) (hn : n ∈ img.names)
    (h : n ∈ markUsedImage (tagToID e.images) ref) :
    trimSpace ref ≠ [] ∧ trimSpace ref ∈ img.names := by
  unfold markUsedImage at h
  rcases e.tagToID_cases (trimSpace ref) with hid | ⟨img', himg', href, hid⟩
  · have htrim : trimSpace [] = [] := rfl
    grind
  · have htrim := (e.trimmed img' himg').2
    have hsame := e.apart img himg img' himg'
    grind

theorem imageProtected_iff (himg : img ∈ e.images) :
    imageProtected img (usedImageIDs e.images running msImages) = true ↔
      e.Named running msImages img := by
  have huse : 0 < img.inUse → e.Named running msImages img := by
    intro h
    have htrim := e.trimmed img himg
    refine ⟨img.id, ?_, by rw [htrim.2]; exact htrim.1,
      by rw [htrim.2]; exact List.mem_cons_self⟩
    simp only [markedRefs, List.mem_append, List.mem_flatMap, List.mem_filter]
    exact .inl (.inr ⟨img, ⟨himg, by simpa using h⟩, List.mem_cons_self⟩)
  have hprot : imageProtected img (usedImageIDs e.images running msImages) = true ↔
      (∃ n ∈ img.names, n ∈ usedImageIDs e.images running msImages) ∨ 0 < img.inUse := by
    simp [imageProtected, ImageInfo.names]
  rw [hprot]
  constructor
  · rintro (⟨n, hn, hused⟩ | h)
    · obtain ⟨ref, href, hmark⟩ := List.mem_flatMap.mp hused
      exact ⟨ref, href, mem_markUsedImage himg hn hmark⟩
    · exact huse h
  · rintro ⟨ref, href, hne, hmem⟩
    refine .inl ⟨trimSpace ref, hmem, List.mem_flatMap.mpr ⟨ref, href, ?_⟩⟩
    unfold markUsedImage
    grind

theorem key_mem_names : img.key ∈ img.names := by
  unfold ImageInfo.key ImageInfo.names
  cases img.repoTags <;> simp

theorem deletes_iff (himg : img ∈ e.images) : e.Deletes running msImages img ↔
    ¬ e.Named running msImages img ∧ e.resolve img.key = some img.id := by
  rw [← imageProtected_iff himg]
  constructor
  · rintro ⟨key, hkey, hres⟩
    obtain ⟨img', himg', rfl⟩ := List.mem_map.mp hkey
    obtain ⟨himg', hprot⟩ := List.mem_filter.mp himg'
    have hid := e.own img' himg' img'.key key_mem_names img.id hres
    obtain rfl := e.apart img' himg' img himg (hid ▸ List.mem_cons_self)
    exact ⟨by simpa using hprot, hres⟩
  · rintro ⟨hprot, hres⟩
    exact ⟨img.key, List.mem_map_of_mem (List.mem_filter.mpr ⟨himg, by simpa using hprot⟩), hres⟩

/-- **Configured images are kept only as they are listed.** No image to which the reference of a
configured microservice resolves is deleted, if and only if each of these is marked under one of its
listed names, or has a key that the engine does not resolve. -/
theorem configured_kept_iff (e : Engine) (running latest : List Str)
    (workloads : Option (List (Str × Bool))) :
    (∀ name ∈ configuredNames latest workloads, ∀ img ∈ e.images, e.resolve name = some img.id →
      ¬ e.Deletes running (configuredMicroserviceImages latest workloads) img) ↔
    ∀ name ∈ configuredNames latest workloads, ∀ img ∈ e.images, e.resolve name = some img.id →
      e.Named running (configuredMicroserviceImages latest workloads) img ∨
        e.resolve img.key ≠ some img.id := by
  refine forall₄_congr fun name _ img himg => imp_congr_right fun _ => ?_
  rw [deletes_iff himg, not_and_or, not_not]

def nginxEngine : Engine where
  images := [⟨"sha256:1".toList, ["docker.io/library/nginx:latest".toList], 0⟩]
  resolve := fun _ => some "sha256:1".toList
  trimmed := by decide
  apart := by simp
  own := by simp

/-- The image of the only microservice, `nginx`, is deleted. -/
theorem nginx_deleted : nginxEngine.resolve "nginx".toList = some "sha256:1".toList ∧
    nginxEngine.Deletes [] (configuredMicroserviceImages ["nginx".toList] (some []))
      ⟨"sha256:1".toList, ["docker.io/library/nginx:latest".toList], 0⟩ :=
  ⟨rfl, "docker.io/library/nginx:latest".toList, by decide, rfl⟩

end Engine

end Edgelet.Pruning
