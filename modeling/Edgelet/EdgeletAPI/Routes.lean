import Edgelet.Models.Microservice

/-!
# Routes of the local API

A request is mapped to a permission by its method and path: a resource, a verb and, for single
objects, a name, which is the trimmed rest of the path. The cases are tried in order. Two kinds of
volumes share a resource, so the permission does not say of which kind a volume is.
-/

namespace Edgelet.EdgeletAPI

open Lexical
open Edgelet.Models (Platform)

/-! ## Requests and permissions -/

structure Request where
  method : Str
  path : Str
  authorization : Str := []

structure RbacPermission where
  apiGroups : List Str
  resource : Str
  verb : Str
  resourceName : Str

def localAPIAuthorizationGroups : List Str := ["edgelet.iofog.org/v1".toList]

inductive Kind
  | model | knowledge | sharedVolume | privateVolume | microservice | deployedMicroservice
  | registry | runtimeClass
  deriving DecidableEq

/-- How a case of `mapRequestToPermission` selects paths. The kind says what the rest of the path
is the name of. -/
inductive Pattern
  /-- The test `path == p || …`. -/
  | exactly (paths : List String)
  /-- The test `strings.HasPrefix(path, start)`. -/
  | below (start : String)
  /-- The test `strings.HasPrefix(path, start)`, with the rest as the name. -/
  | named (start : String) (kind : Kind)
  /-- The test `strings.HasPrefix(path, "/v1/ms/")`, with the first segment of the rest as the
  name. -/
  | microservice
  deriving DecidableEq

/-- A case of `mapRequestToPermission`. The verb is that of the method unless the case has one of
its own. -/
structure Route where
  pattern : Pattern
  resource : String
  verb : Option String := none
  deriving DecidableEq

def routes : List Route := [
  ⟨.exactly ["/v1/system/status"], "system/status", none⟩,
  ⟨.exactly ["/v1/system/info"], "system/info", none⟩,
  ⟨.exactly ["/v1/system/version"], "system/version", none⟩,
  ⟨.exactly ["/v1/system/provision"], "system/provision", none⟩,
  ⟨.exactly ["/v1/system/reload"], "system/reload", none⟩,
  ⟨.exactly ["/v1/runtime/drain"], "runtime/drain", none⟩,
  ⟨.exactly ["/v1/system/prune"], "system/prune", none⟩,
  ⟨.exactly ["/v1/system/logs"], "system/logs", none⟩,
  ⟨.exactly ["/v1/system/logs:stream"], "system/logs/stream", none⟩,
  ⟨.exactly ["/v1/system/config"], "system/config", none⟩,
  ⟨.exactly ["/v1/system/controller/cert"], "system/controller/cert", some "update"⟩,
  ⟨.exactly ["/v1/system/config/switch"], "system/config/switch", some "update"⟩,
  ⟨.exactly ["/v1/system/gps"], "system/gps", none⟩,
  ⟨.exactly ["/v1/system/controlplane", "/v1/system/controlplane/manifest"],
    "system/controlplane", none⟩,
  ⟨.exactly ["/v1/system/controlplane/restart"], "system/controlplane", some "create"⟩,
  ⟨.exactly ["/v1/system/controller"], "system/controller", none⟩,
  ⟨.exactly ["/v1/images"], "images", none⟩,
  ⟨.exactly ["/v1/images:pull"], "images/pull", none⟩,
  ⟨.below "/v1/images:pull/", "images/pull/status", none⟩,
  ⟨.exactly ["/v1/images:load"], "images/load", none⟩,
  ⟨.below "/v1/images:load/", "images/load/status", none⟩,
  ⟨.exactly ["/v1/images:prune"], "images/prune", none⟩,
  ⟨.exactly ["/v1/images:remove"], "images/remove", none⟩,
  ⟨.exactly ["/v1/models"], "models", none⟩,
  ⟨.exactly ["/v1/models:pull"], "models/pull", none⟩,
  ⟨.below "/v1/models:pull/", "models/pull/status", none⟩,
  ⟨.exactly ["/v1/models:prune"], "models/prune", none⟩,
  ⟨.named "/v1/models/" .model, "models", none⟩,
  ⟨.exactly ["/v1/knowledge"], "knowledge", none⟩,
  ⟨.exactly ["/v1/knowledge:pull"], "knowledge/pull", none⟩,
  ⟨.below "/v1/knowledge:pull/", "knowledge/pull/status", none⟩,
  ⟨.exactly ["/v1/knowledge:prune"], "knowledge/prune", none⟩,
  ⟨.named "/v1/knowledge/" .knowledge, "knowledge", none⟩,
  ⟨.exactly ["/v1/volumes:prune"], "volumes/prune", none⟩,
  ⟨.named "/v1/volumes/shared/" .sharedVolume, "volumes", none⟩,
  ⟨.exactly ["/v1/volumes/shared"], "volumes", none⟩,
  ⟨.exactly ["/v1/volumes"], "volumes", none⟩,
  ⟨.named "/v1/volumes/" .privateVolume, "volumes", none⟩,
  ⟨.exactly ["/v1/microservices/config"], "microservices/config/self", none⟩,
  ⟨.exactly ["/v1/microservices/control"], "microservices/control/self", none⟩,
  ⟨.exactly ["/v1/ms"], "microservices", none⟩,
  ⟨.microservice, "microservices", none⟩,
  ⟨.named "/v1/deploy/microservices/" .deployedMicroservice, "deploy/microservices", none⟩,
  ⟨.below "/v1/deploy/microservices:apply/", "deploy/microservices/apply/status", none⟩,
  ⟨.named "/v1/deploy/registries/" .registry, "deploy/registries", none⟩,
  ⟨.named "/v1/deploy/runtimeclasses/" .runtimeClass, "deploy/runtimeclasses", none⟩,
  ⟨.below "/v1/deploy/microservices", "deploy/microservices", none⟩,
  ⟨.below "/v1/deploy/registries", "deploy/registries", none⟩,
  ⟨.below "/v1/deploy/models", "deploy/models", none⟩,
  ⟨.below "/v1/deploy/knowledge", "deploy/knowledge", none⟩,
  ⟨.below "/v1/deploy/runtimeclasses", "deploy/runtimeclasses", none⟩,
  ⟨.below "/v1/deploy/controlplane:apply/", "deploy/controlplane/apply/status", none⟩,
  ⟨.below "/v1/deploy/controlplane", "deploy/controlplane", none⟩,
  ⟨.exactly ["/v1/auth/whoami"], "auth/whoami", none⟩,
  ⟨.exactly ["/v1/auth/tokens", "/v1/auth/tokens/revoke"], "auth/tokens", none⟩]

def microserviceResourceName (path : Str) : Option Str :=
  let rest := trimSpace (path.drop "/v1/ms/".toList.length)
  if rest = [] then none
  else
    let id := trimSpace (rest.takeWhile (· ≠ '/'))
    if id = [] then none else some id

namespace Pattern

def test (path : Str) : Pattern → Bool
  | exactly paths => paths.any (·.toList = path)
  | below start => start.toList.isPrefixOf path
  | named start _ => start.toList.isPrefixOf path
  | microservice => "/v1/ms/".toList.isPrefixOf path

def resourceName (path : Str) : Pattern → Str
  | named start _ => trimSpace (path.drop start.toList.length)
  | microservice => (microserviceResourceName path).getD []
  | _ => []

def kind? : Pattern → Option Kind
  | named _ kind => some kind
  | microservice => some .microservice
  | _ => none

end Pattern

section Permission

variable (p : Platform)

def canonicalVerb (verb : Str) : Str := Models.canonicalVerb (p.toLower (trimSpace verb))

def toRBACVerb (method : Str) : Str :=
  let upper := toUpper method
  if upper = "GET".toList then "get".toList
  else if upper = "POST".toList then "create".toList
  else if upper = "PATCH".toList ∨ upper = "PUT".toList then "update".toList
  else if upper = "DELETE".toList then "delete".toList
  else canonicalVerb p (p.toLower method)

def Route.permission (ρ : Route) (r : Request) : RbacPermission where
  apiGroups := localAPIAuthorizationGroups
  resource := ρ.resource.toList
  verb := (ρ.verb.map String.toList).getD (toRBACVerb p (toUpper r.method))
  resourceName := ρ.pattern.resourceName r.path

def mapRequestToPermission (r : Request) : Option RbacPermission :=
  (routes.find? (·.pattern.test r.path)).map (·.permission p r)

end Permission

/-! ## The objects that paths name -/

structure Target where
  kind : Kind
  name : Str

/-- The object that a path names: that of the first case for it, when its name is not blank. The
paths of collections and those of operations name none. -/
def objectOf (path : Str) : Option Target := do
  let ρ ← routes.find? (·.pattern.test path)
  let kind ← ρ.pattern.kind?
  if ρ.pattern.resourceName path = [] then none else some ⟨kind, ρ.pattern.resourceName path⟩

section Paths

variable {p : Platform} {path : Str} {ρ : Route} {o : Target}

theorem Pattern.kind?_isSome {π : Pattern} (h : π.resourceName path ≠ []) :
    π.kind?.isSome = true := by
  cases π with
  | exactly paths | below start => exact absurd rfl h
  | named start kind | microservice => rfl

theorem objectOf_eq_some_iff (hρ : routes.find? (·.pattern.test path) = some ρ) :
    objectOf path = some o ↔
      ρ.pattern.kind? = some o.kind ∧ ρ.pattern.resourceName path = o.name ∧ o.name ≠ [] := by
  unfold objectOf
  simp only [hρ, Option.bind_eq_bind, Option.bind_some, Option.bind_eq_some_iff]
  constructor
  · rintro ⟨kind, hkind, h⟩
    split at h
    · cases h
    · rename_i hname
      cases h
      exact ⟨hkind, rfl, hname⟩
  · rintro ⟨hkind, hname, hne⟩
    refine ⟨o.kind, hkind, ?_⟩
    rw [hname, if_neg hne]

def Kind.resource : Kind → String
  | model => "models"
  | knowledge => "knowledge"
  | sharedVolume => "volumes"
  | privateVolume => "volumes"
  | microservice => "microservices"
  | deployedMicroservice => "deploy/microservices"
  | registry => "deploy/registries"
  | runtimeClass => "deploy/runtimeclasses"

theorem resource_of_kind (hρ : ρ ∈ routes) {kind : Kind} (hkind : ρ.pattern.kind? = some kind) :
    ρ.resource = kind.resource := by
  have hall : ∀ ρ ∈ routes, ∀ kind ∈ ρ.pattern.kind?.toList, ρ.resource = kind.resource := by
    exact of_decide_eq_true rfl
  exact hall ρ hρ kind (by simp [hkind])

theorem Kind.volume_of_resource_eq {k k' : Kind} (h : k.resource = k'.resource) (hne : k ≠ k') :
    k.resource = "volumes" := by
  cases k <;> cases k' <;> first | rfl | exact absurd rfl hne | exact absurd h (by decide)

theorem Kind.eq_of_resource_volumes {k : Kind} (h : k.resource = "volumes") :
    k = sharedVolume ∨ k = privateVolume := by
  cases k <;> simp_all [Kind.resource]

/-! ### Paths of volumes -/

def Pattern.avoids (start : Str) : Pattern → Bool
  | exactly paths => paths.all fun q => !start.isPrefixOf q.toList
  | below s => !s.toList.isPrefixOf start && !start.isPrefixOf s.toList
  | named s _ => !s.toList.isPrefixOf start && !start.isPrefixOf s.toList
  | microservice => !"/v1/ms/".toList.isPrefixOf start && !start.isPrefixOf "/v1/ms/".toList

theorem not_isPrefixOf_of_apart {s start : Str}
    (h : (!s.isPrefixOf start && !start.isPrefixOf s) = true) (hpath : start <+: path) :
    s.isPrefixOf path = false := by
  simp only [Bool.and_eq_true, Bool.not_eq_true', ← Bool.not_eq_true,
    List.isPrefixOf_iff_prefix] at h
  rw [← Bool.not_eq_true, List.isPrefixOf_iff_prefix]
  intro hs
  rcases List.prefix_or_prefix_of_prefix hs hpath with hle | hle
  · exact h.1 hle
  · exact h.2 hle

theorem Pattern.test_of_avoids {π : Pattern} {start : Str} (h : π.avoids start = true)
    (hpath : start <+: path) : π.test path = false := by
  cases π with
  | exactly paths =>
    simp only [avoids, List.all_eq_true, Bool.not_eq_true', ← Bool.not_eq_true,
      List.isPrefixOf_iff_prefix] at h
    simp only [test, List.any_eq_false, decide_eq_true_eq]
    intro q hq heq
    exact h q hq (heq ▸ hpath)
  | below s | named s kind | microservice => exact not_isPrefixOf_of_apart h hpath

theorem find?_routes {i : ℕ} {start : Str} (hi : routes[i]? = some ρ)
    (havoid : (routes.take i).all (·.pattern.avoids start) = true) (hpath : start <+: path)
    (htest : ρ.pattern.test path = true) : routes.find? (·.pattern.test path) = some ρ := by
  rw [List.find?_eq_some_iff_append]
  obtain ⟨hlt, hget⟩ := List.getElem?_eq_some_iff.mp hi
  refine ⟨htest, routes.take i, routes.drop (i + 1), ?_, ?_⟩
  · rw [← hget, ← List.drop_eq_getElem_cons hlt, List.take_append_drop]
  · intro a ha
    rw [List.all_eq_true] at havoid
    rw [Pattern.test_of_avoids (havoid a ha) hpath]
    rfl

def modelRoute : Route := ⟨.named "/v1/models/" .model, "models", none⟩

def sharedVolumeRoute : Route := ⟨.named "/v1/volumes/shared/" .sharedVolume, "volumes", none⟩

def privateVolumeRoute : Route := ⟨.named "/v1/volumes/" .privateVolume, "volumes", none⟩

theorem routes_avoid :
    (routes.take 23).all (·.pattern.avoids "/v1/models".toList) = true ∧
      (routes.take 27).all (·.pattern.avoids "/v1/models/".toList) = true ∧
      (routes.take 34).all (·.pattern.avoids "/v1/volumes/shared/".toList) = true ∧
      (routes.take 37).all (·.pattern.avoids "/v1/volumes/ ".toList) = true ∧
      (routes.take 37).all (·.pattern.avoids "/v1/volumes/data".toList) = true := by
  exact of_decide_eq_true rfl

theorem find?_model (name : Str) :
    routes.find? (·.pattern.test ("/v1/models/".toList ++ name)) = some modelRoute := by
  have hstart := List.prefix_append "/v1/models/".toList name
  exact find?_routes (i := 27) rfl routes_avoid.2.1 hstart (List.isPrefixOf_iff_prefix.mpr hstart)

theorem find?_sharedVolume (name : Str) :
    routes.find? (·.pattern.test ("/v1/volumes/shared/".toList ++ name)) =
      some sharedVolumeRoute := by
  have hstart := List.prefix_append "/v1/volumes/shared/".toList name
  exact find?_routes (i := 34) rfl routes_avoid.2.2.1 hstart
    (List.isPrefixOf_iff_prefix.mpr hstart)

theorem find?_privateVolume (name : Str) :
    routes.find? (·.pattern.test ("/v1/volumes/ ".toList ++ name)) = some privateVolumeRoute := by
  refine find?_routes (i := 37) rfl routes_avoid.2.2.2.1 (List.prefix_append _ name) ?_
  exact List.isPrefixOf_iff_prefix.mpr
    ((List.prefix_append "/v1/volumes/".toList [' ']).trans (List.prefix_append _ name))

theorem route_of_volume (hρ : ρ ∈ routes) {kind : Kind} (hkind : ρ.pattern.kind? = some kind)
    (hvolume : kind = .sharedVolume ∨ kind = .privateVolume) :
    ρ = sharedVolumeRoute ∨ ρ = privateVolumeRoute := by
  have hall : ∀ ρ ∈ routes, ρ.pattern.kind? = some .sharedVolume ∨
      ρ.pattern.kind? = some .privateVolume → ρ = sharedVolumeRoute ∨ ρ = privateVolumeRoute := by
    exact of_decide_eq_true rfl
  apply hall ρ hρ
  rcases hvolume with rfl | rfl
  · exact .inl hkind
  · exact .inr hkind

variable {r : Request}

theorem permission_of_volume (h : ρ = sharedVolumeRoute ∨ ρ = privateVolumeRoute) :
    ρ.permission p r = ⟨localAPIAuthorizationGroups, "volumes".toList,
      toRBACVerb p (toUpper r.method), ρ.pattern.resourceName r.path⟩ := by
  rcases h with rfl | rfl <;> rfl

variable {perm : RbacPermission}

theorem mapRequestToPermission_eq_some_iff :
    mapRequestToPermission p r = some perm ↔
      ∃ ρ, routes.find? (·.pattern.test r.path) = some ρ ∧ ρ.permission p r = perm :=
  Option.map_eq_some_iff

section

variable (hmap : mapRequestToPermission p r = some perm)

include hmap

theorem name_of_objectOf (ho : objectOf r.path = some o) :
    o.name = perm.resourceName ∧ o.name ≠ [] := by
  obtain ⟨ρ, hρ, rfl⟩ := mapRequestToPermission_eq_some_iff.mp hmap
  obtain ⟨-, hname, hne⟩ := (objectOf_eq_some_iff hρ).mp ho
  exact ⟨hname.symm, hne⟩

theorem resource_of_map (ho : objectOf r.path = some o) :
    perm.resource = o.kind.resource.toList := by
  obtain ⟨ρ, hρ, rfl⟩ := mapRequestToPermission_eq_some_iff.mp hmap
  obtain ⟨hkind, -⟩ := (objectOf_eq_some_iff hρ).mp ho
  exact congrArg String.toList (resource_of_kind (List.mem_of_find?_eq_some hρ) hkind)

theorem exists_objectOf (hne : perm.resourceName ≠ []) : ∃ o, objectOf r.path = some o := by
  obtain ⟨ρ, hρ, rfl⟩ := mapRequestToPermission_eq_some_iff.mp hmap
  obtain ⟨kind, hkind⟩ := Option.isSome_iff_exists.mp (Pattern.kind?_isSome hne)
  exact ⟨⟨kind, _⟩, (objectOf_eq_some_iff hρ).mpr ⟨hkind, rfl, hne⟩⟩

theorem apiGroups_of_map : perm.apiGroups = localAPIAuthorizationGroups := by
  obtain ⟨ρ, -, rfl⟩ := mapRequestToPermission_eq_some_iff.mp hmap
  rfl

theorem volume_of_resource
    (ho : objectOf r.path = some o) (hvolumes : perm.resource = "volumes".toList) :
    o.kind = .sharedVolume ∨ o.kind = .privateVolume := by
  rw [resource_of_map hmap ho] at hvolumes
  exact Kind.eq_of_resource_volumes (String.toList_inj.mp hvolumes)

/-- **Every path of a volume has one of the other kind with the same permission.** -/
theorem exists_other_volume
    (ho : objectOf r.path = some o) (hvolume : o.kind = .sharedVolume ∨ o.kind = .privateVolume) :
    ∃ r' o', mapRequestToPermission p r' = some perm ∧ objectOf r'.path = some o' ∧
      o'.name = o.name ∧ o'.kind ≠ o.kind := by
  obtain ⟨ρ, hρ, rfl⟩ := mapRequestToPermission_eq_some_iff.mp hmap
  obtain ⟨hkind, hname, hne⟩ := (objectOf_eq_some_iff hρ).mp ho
  have hρ' : ρ = sharedVolumeRoute ∨ ρ = privateVolumeRoute :=
    route_of_volume (List.mem_of_find?_eq_some hρ) hkind hvolume
  have htrim : trimSpace o.name = o.name := by
    rcases hρ' with rfl | rfl <;> (rw [← hname]; exact trimSpace_trimSpace _)
  have hother : ∀ path' ρ' kind', routes.find? (·.pattern.test path') = some ρ' →
      (ρ' = sharedVolumeRoute ∨ ρ' = privateVolumeRoute) → ρ'.pattern.kind? = some kind' →
      ρ'.pattern.resourceName path' = o.name → kind' ≠ o.kind →
      ∃ r' o', mapRequestToPermission p r' = some (ρ.permission p r) ∧
        objectOf r'.path = some o' ∧ o'.name = o.name ∧ o'.kind ≠ o.kind := by
    intro path' ρ' kind' hfind hvolume' hkind' hname' hdiff
    refine ⟨{ r with path := path' }, ⟨kind', o.name⟩, ?_, ?_, rfl, hdiff⟩
    · refine mapRequestToPermission_eq_some_iff.mpr ⟨ρ', hfind, ?_⟩
      rw [permission_of_volume hvolume', permission_of_volume hρ', hname, hname']
    · exact (objectOf_eq_some_iff hfind).mpr ⟨hkind', hname', hne⟩
  rcases hvolume with hshared | hprivate
  · exact hother _ _ _ (find?_privateVolume o.name) (.inr rfl) rfl htrim (by simp [hshared])
  · exact hother _ _ _ (find?_sharedVolume o.name) (.inl rfl) rfl htrim (by simp [hprivate])

end

end Paths

end Edgelet.EdgeletAPI
