import Edgelet.Auth.Tokens
import Edgelet.EdgeletAPI.Routes

/-!
# Authorization of requests to the local API

The claims of a token grant a permission when a rule for the group of the local API covers its
resource and verb. A rule with a list of names is meant for these objects only. But the paths of a
collection have no name, the two kinds of volumes share theirs, and names are compared without
regard to case.
-/

namespace Edgelet.EdgeletAPI

open Lexical Json Auth
open Edgelet.FieldAgent (str? arr? obj? objects strings strings?)
open Edgelet.Models (Platform)

section Decision

variable (p : Platform)

/-! ## Claims and rules -/

/-- The folding of letters under `strings.EqualFold`, as the choice of one letter among those that
are equal under it. -/
structure Folding where
  fold : Char → Char
  fold_ascii : ∀ c, c.toNat < 128 → fold c = c.toLower

variable (f : Folding)

def Folding.equalFold (f : Folding) (s t : Str) : Bool := s.map f.fold = t.map f.fold

variable (groups : Object ℚ) (claims : Claims) (raw : Option (Value ℚ)) (rule : Object ℚ)
  (expected : Str)

def ruleListMatch : Bool :=
  if expected = [] then true
  else match raw with
    | some (.arr values) =>
      (strings values).any fun s => s = "*".toList || f.equalFold s expected
    | _ => false

def ruleVerbMatch : Bool :=
  match raw with
  | some (.arr values) =>
    (strings values).any fun s => s = "*".toList || canonicalVerb p s = canonicalVerb p expected
  | _ => false

def covers (resource verb : Str) : Bool :=
  ruleListMatch f (rule.lookup "resources".toList) resource &&
    ruleVerbMatch p (rule.lookup "verbs".toList) verb

def admitsName (resourceName : Str) : Bool :=
  resourceName = [] ||
    match rule.lookup "resourceNames".toList with
    | some rawNames => ruleListMatch f (some rawNames) resourceName
    | none => true

def rulesOfGroup (group : Str) : List (Object ℚ) :=
  match groups.lookup group with
  | some (.arr rules) => objects rules
  | some _ => []
  | none =>
    match groups.lookup "*".toList with
    | some (.arr rules) => objects rules
    | _ => []

def rulesMatch (group resource verb resourceName : Str) : Bool :=
  (rulesOfGroup groups group).any fun rule =>
    covers p f rule resource verb && admitsName f rule resourceName

def rulesMatchAnyGroup (apiGroups : List Str) (resource verb resourceName : Str) : Bool :=
  apiGroups.any fun group => rulesMatch p f groups group resource verb resourceName

def isAdmin : Bool :=
  let sub := (str? claims "sub").getD []
  trimSpace ((str? claims "tokenUse").getD []) = tokenUseEdgeletAPI &&
    ("system:edgeletadmin:".toList.isPrefixOf sub || sub = "system:edgeletadmin:bootstrap".toList)

def rulesByGroup (claims : Claims) : Option (Object ℚ) := do
  let iofog ← obj? claims "edgelet.iofog.org"
  let rbac ← obj? iofog "rbac"
  obj? rbac "rulesByGroup"

def isAuthorized (perm : RbacPermission) : Bool :=
  isAdmin claims ||
    match rulesByGroup claims with
    | some groups =>
      rulesMatchAnyGroup p f groups perm.apiGroups perm.resource perm.verb perm.resourceName
    | none => false

def granted (r : Request) : Bool :=
  match mapRequestToPermission p r with
  | some perm => isAuthorized p f claims perm
  | none => false

end Decision

/-! ## Restricted claims -/

variable (p : Platform) (f : Folding) (claims : Claims)

def decisiveRules : List (Object ℚ) :=
  match rulesByGroup claims with
  | some groups => localAPIAuthorizationGroups.flatMap (rulesOfGroup groups)
  | none => []

def OfServiceAccount : Prop :=
  trimSpace ((str? claims "tokenUse").getD []) = tokenUseServiceAccount

def Restricted (resource : Str) : Prop :=
  ∀ rule ∈ decisiveRules claims, ruleListMatch f (rule.lookup "resources".toList) resource = true →
    ∃ names, rule.lookup "resourceNames".toList = some (.arr names) ∧ "*".toList ∉ strings names

def Listed (same : Str → Str → Prop) (claims : Claims) (perm : RbacPermission) : Prop :=
  ∃ rule ∈ decisiveRules claims, covers p f rule perm.resource perm.verb = true ∧
    ∃ s ∈ strings? rule "resourceNames", same s perm.resourceName

/-- **A grant keeps to the lists of names**: the request names an object, a rule that covers the
request lists its name, and no request is granted for an object of another kind of the resource
that only has the same name. -/
def Confined (r : Request) : Prop :=
  ∀ perm, mapRequestToPermission p r = some perm → granted p f claims r = true →
    ∃ o, objectOf r.path = some o ∧
      (∃ rule ∈ decisiveRules claims, covers p f rule perm.resource perm.verb = true ∧
        o.name ∈ strings? rule "resourceNames") ∧
      ∀ r' perm' o', mapRequestToPermission p r' = some perm' → perm'.resource = perm.resource →
        objectOf r'.path = some o' → o'.name = o.name → o'.kind ≠ o.kind →
        granted p f claims r' = false

section Restriction

variable {p : Platform} {f : Folding} {claims : Claims} {r : Request} {perm : RbacPermission}

theorem granted_of_map (h : mapRequestToPermission p r = some perm) :
    granted p f claims r = isAuthorized p f claims perm := by
  rw [granted, h]

theorem isAdmin_of_serviceAccount (h : OfServiceAccount claims) : isAdmin claims = false := by
  rw [OfServiceAccount] at h
  simp only [isAdmin, h, Bool.and_eq_false_imp, decide_eq_true_eq]
  intro heq
  exact absurd heq (by decide)

theorem isAuthorized_iff (hadmin : isAdmin claims = false)
    (hgroups : perm.apiGroups = localAPIAuthorizationGroups) :
    isAuthorized p f claims perm = true ↔
      ∃ rule ∈ decisiveRules claims, covers p f rule perm.resource perm.verb = true ∧
        admitsName f rule perm.resourceName = true := by
  unfold isAuthorized decisiveRules
  rw [hadmin, Bool.false_or, hgroups]
  split
  · simp only [rulesMatchAnyGroup, rulesMatch, List.any_eq_true, Bool.and_eq_true, List.mem_flatMap]
    constructor
    · rintro ⟨group, hgroup, rule, hrule, hmatch⟩
      exact ⟨rule, ⟨group, hgroup, hrule⟩, hmatch⟩
    · rintro ⟨rule, ⟨group, hgroup, hrule⟩, hmatch⟩
      exact ⟨group, hgroup, rule, hrule, hmatch⟩
  · simp

theorem listed_of_admitsName {rule : Object ℚ} {names : List (Value ℚ)} {name : Str}
    (hnames : rule.lookup "resourceNames".toList = some (.arr names))
    (hstar : "*".toList ∉ strings names) (hne : name ≠ []) (h : admitsName f rule name = true) :
    ∃ s ∈ strings? rule "resourceNames", f.equalFold s name = true := by
  have hlist : strings? rule "resourceNames" = strings names := by
    simp only [strings?, arr?, hnames, Option.map_some, Option.getD_some]
  simp only [admitsName, hne, decide_false, Bool.false_or, hnames] at h
  rw [ruleListMatch, if_neg hne] at h
  simp only [List.any_eq_true, Bool.or_eq_true, decide_eq_true_eq] at h
  obtain ⟨s, hs, heq | hfold⟩ := h
  · exact absurd (heq ▸ hs) hstar
  · exact ⟨s, hlist ▸ hs, hfold⟩

/-- **Which requests restricted claims grant only for an object of their lists.** For the claims
of a service account whose rules for the resource of a request all have lists of names, the grant
of the request keeps to the lists exactly when it is refused, or it has a name, is not for a volume,
and its name is not listed in other letters only. -/
theorem grants_confined_iff (hsa : OfServiceAccount claims)
    (hrestricted : ∀ perm, mapRequestToPermission p r = some perm →
      Restricted f claims perm.resource) :
    Confined p f claims r ↔
      ∀ perm, mapRequestToPermission p r = some perm → granted p f claims r = true →
        perm.resourceName ≠ [] ∧ perm.resource ≠ "volumes".toList ∧
          (Listed p f (f.equalFold · · = true) claims perm → Listed p f (· = ·) claims perm) := by
  constructor
  · intro h perm hmap hgrant
    obtain ⟨o, ho, ⟨rule, hrule, hcovers, hlisted⟩, hkind⟩ := h perm hmap hgrant
    obtain ⟨hname, hne⟩ := name_of_objectOf hmap ho
    refine ⟨hname ▸ hne, ?_, ?_⟩
    · intro hvolumes
      obtain ⟨r', o', hmap', ho', hname', hdiff⟩ :=
        exists_other_volume hmap ho (volume_of_resource hmap ho hvolumes)
      have hrefused := hkind r' perm o' hmap' rfl ho' hname' hdiff
      rw [granted_of_map hmap', ← granted_of_map hmap, hgrant] at hrefused
      cases hrefused
    · intro _
      exact ⟨rule, hrule, hcovers, o.name, hlisted, hname⟩
  · intro h perm hmap hgrant
    obtain ⟨hne, hvolumes, hletters⟩ := h perm hmap hgrant
    obtain ⟨o, ho⟩ := exists_objectOf hmap hne
    obtain ⟨hname, -⟩ := name_of_objectOf hmap ho
    refine ⟨o, ho, ?_, ?_⟩
    · rw [granted_of_map hmap, isAuthorized_iff (isAdmin_of_serviceAccount hsa)
        (apiGroups_of_map hmap)] at hgrant
      obtain ⟨rule, hrule, hcovers, hadmits⟩ := hgrant
      have hresource := (Bool.and_eq_true_iff.mp hcovers).1
      obtain ⟨names, hnames, hstar⟩ := hrestricted perm hmap rule hrule hresource
      obtain ⟨rule', hrule', hcovers', s, hs, heq⟩ := hletters
        ⟨rule, hrule, hcovers, listed_of_admitsName hnames hstar hne hadmits⟩
      exact ⟨rule', hrule', hcovers', hname ▸ heq ▸ hs⟩
    · intro r' perm' o' hmap' hresource ho' _ hdiff
      refine absurd ?_ hvolumes
      have hres := resource_of_map hmap ho
      have hres' := resource_of_map hmap' ho'
      have hsame : o'.kind.resource = o.kind.resource :=
        String.toList_inj.mp (hres'.symm.trans (hresource.trans hres))
      rw [hres, ← hsame, Kind.volume_of_resource_eq hsame hdiff]

end Restriction

/-! ### Claims that evade their restriction -/

def Folding.ascii : Folding where
  fold := Platform.ascii.lower
  fold_ascii := Platform.ascii.lower_ascii

def ruleOf (resources verbs names : List String) : Value ℚ :=
  let texts (l : List String) : Value ℚ := .arr (l.map fun s => .str s.toList)
  .obj [("resources".toList, texts resources), ("verbs".toList, texts verbs),
    ("resourceNames".toList, texts names)]

def claimsOf (rules : List (Value ℚ)) : Claims :=
  [("tokenUse".toList, .str tokenUseServiceAccount),
    ("edgelet.iofog.org".toList, .obj [("rbac".toList, .obj [("rulesByGroup".toList,
      .obj [("edgelet.iofog.org/v1".toList, .arr rules)])])])]

def llamaClaims : Claims :=
  claimsOf [ruleOf ["models"] ["get"] ["llama"], ruleOf ["volumes"] ["delete"] ["data"]]

theorem restricted_llamaClaims (f : Folding) (resource : Str) :
    Restricted f llamaClaims resource := by
  have hrules : ∀ rule ∈ decisiveRules llamaClaims,
      rule.lookup "resourceNames".toList = some (.arr [.str "llama".toList]) ∨
        rule.lookup "resourceNames".toList = some (.arr [.str "data".toList]) := by
    intro rule hrule
    rcases List.mem_cons.mp hrule with rfl | hrule
    · exact .inl rfl
    · rcases List.mem_cons.mp hrule with rfl | hrule
      · exact .inr rfl
      · cases hrule
  intro rule hrule _
  rcases hrules rule hrule with h | h
  · exact ⟨_, h, by decide⟩
  · exact ⟨_, h, by decide⟩

def getModel (name : String) : Request :=
  ⟨"GET".toList, "/v1/models/".toList ++ name.toList, []⟩

def getModels : Request := ⟨"GET".toList, "/v1/models".toList, []⟩

def deleteShared : Request := ⟨"DELETE".toList, "/v1/volumes/shared/".toList ++ "data".toList, []⟩

def deletePrivate : Request := ⟨"DELETE".toList, "/v1/volumes/data".toList, []⟩

theorem find?_getModels :
    routes.find? (·.pattern.test getModels.path) =
      some ⟨.exactly ["/v1/models"], "models", none⟩ :=
  find?_routes (i := 23) rfl routes_avoid.1 List.prefix_rfl rfl

theorem find?_deletePrivate :
    routes.find? (·.pattern.test deletePrivate.path) = some privateVolumeRoute :=
  find?_routes (i := 37) rfl routes_avoid.2.2.2.2 List.prefix_rfl rfl

theorem map_of_find {p : Platform} {r : Request} {ρ : Route} {perm : RbacPermission}
    (hρ : routes.find? (·.pattern.test r.path) = some ρ) (hperm : ρ.permission p r = perm) :
    mapRequestToPermission p r = some perm :=
  mapRequestToPermission_eq_some_iff.mpr ⟨ρ, hρ, hperm⟩

def modelPermission (name : String) : RbacPermission :=
  ⟨localAPIAuthorizationGroups, "models".toList, "get".toList, name.toList⟩

def volumePermission : RbacPermission :=
  ⟨localAPIAuthorizationGroups, "volumes".toList, "delete".toList, "data".toList⟩

theorem map_getModel {name : String} (h : trimSpace name.toList = name.toList) :
    mapRequestToPermission Platform.ascii (getModel name) = some (modelPermission name) := by
  refine map_of_find (find?_model _) ?_
  have hname : modelRoute.pattern.resourceName (getModel name).path = name.toList := by
    show trimSpace (("/v1/models/".toList ++ name.toList).drop "/v1/models/".toList.length) = _
    rw [List.drop_left, h]
  have hverb : toRBACVerb Platform.ascii (toUpper "GET".toList) = "get".toList := rfl
  rw [Route.permission, hname]
  exact congrArg (RbacPermission.mk localAPIAuthorizationGroups "models".toList · name.toList) hverb

theorem map_getModels :
    mapRequestToPermission Platform.ascii getModels = some (modelPermission "") :=
  map_of_find find?_getModels rfl

theorem map_deleteShared :
    mapRequestToPermission Platform.ascii deleteShared = some volumePermission :=
  map_of_find (find?_sharedVolume _) rfl

theorem map_deletePrivate :
    mapRequestToPermission Platform.ascii deletePrivate = some volumePermission :=
  map_of_find find?_deletePrivate rfl

/-- Reading the model `llama` is granted, and the grant keeps to the list. -/
theorem confined_llama :
    OfServiceAccount llamaClaims ∧
      granted Platform.ascii .ascii llamaClaims (getModel "llama") = true ∧
      Confined Platform.ascii .ascii llamaClaims (getModel "llama") := by
  have hsa : OfServiceAccount llamaClaims := rfl
  have hmodel := @map_getModel "llama" rfl
  refine ⟨hsa, (granted_of_map hmodel).trans rfl, ?_⟩
  refine (grants_confined_iff hsa fun perm _ => restricted_llamaClaims _ perm.resource).mpr ?_
  intro perm hmap _
  obtain rfl : modelPermission "llama" = perm := Option.some_inj.mp (hmodel.symm.trans hmap)
  refine ⟨by decide, by decide, fun _ => ?_⟩
  exact ⟨_, List.mem_cons_self, rfl, "llama".toList, by decide, rfl⟩

theorem llamaClaims_authorize :
    isAuthorized Platform.ascii .ascii llamaClaims (modelPermission "") = true ∧
      isAuthorized Platform.ascii .ascii llamaClaims volumePermission = true ∧
      isAuthorized Platform.ascii .ascii llamaClaims (modelPermission "LLAMA") = true :=
  ⟨rfl, rfl, rfl⟩

theorem not_confined_getModels : ¬Confined Platform.ascii .ascii llamaClaims getModels := by
  intro h
  obtain ⟨o, ho, -⟩ :=
    h _ map_getModels ((granted_of_map map_getModels).trans llamaClaims_authorize.1)
  obtain ⟨hkind, -⟩ := (objectOf_eq_some_iff find?_getModels).mp ho
  cases hkind

theorem not_confined_deleteShared : ¬Confined Platform.ascii .ascii llamaClaims deleteShared := by
  intro h
  obtain ⟨o, ho, -, hother⟩ :=
    h _ map_deleteShared ((granted_of_map map_deleteShared).trans llamaClaims_authorize.2.1)
  obtain ⟨hkind, hname, hne⟩ := (objectOf_eq_some_iff (find?_sharedVolume _)).mp ho
  have hdata : privateVolumeRoute.pattern.resourceName deletePrivate.path =
      sharedVolumeRoute.pattern.resourceName deleteShared.path := rfl
  have ho' := (objectOf_eq_some_iff (o := ⟨.privateVolume, o.name⟩) find?_deletePrivate).mpr
    ⟨rfl, hdata.trans hname, hne⟩
  have hdiff : Kind.privateVolume ≠ o.kind := by
    rw [← Option.some_inj.mp hkind]
    decide
  have hrefused := hother _ _ _ map_deletePrivate rfl ho' rfl hdiff
  rw [granted_of_map map_deletePrivate, llamaClaims_authorize.2.1] at hrefused
  cases hrefused

theorem not_confined_capitals : ¬Confined Platform.ascii .ascii llamaClaims (getModel "LLAMA") := by
  have hmap := @map_getModel "LLAMA" rfl
  intro h
  obtain ⟨o, ho, ⟨rule, hrule, -, hlisted⟩, -⟩ :=
    h _ hmap ((granted_of_map hmap).trans llamaClaims_authorize.2.2)
  obtain ⟨hname, -⟩ := name_of_objectOf hmap ho
  have hnames : ∀ rule ∈ decisiveRules llamaClaims,
      "LLAMA".toList ∉ strings? rule "resourceNames" := by decide
  rw [hname] at hlisted
  exact hnames rule hrule hlisted

/-- With the same claims all models can be listed, the private volume `data` can be deleted like
the shared one, and a model whose name is `LLAMA` can be read. -/
theorem restriction_evaded :
    OfServiceAccount llamaClaims ∧ (∀ resource, Restricted .ascii llamaClaims resource) ∧
      (granted Platform.ascii .ascii llamaClaims getModels = true ∧
        ¬Confined Platform.ascii .ascii llamaClaims getModels) ∧
      (granted Platform.ascii .ascii llamaClaims deletePrivate = true ∧
        ¬Confined Platform.ascii .ascii llamaClaims deleteShared) ∧
      (granted Platform.ascii .ascii llamaClaims (getModel "LLAMA") = true ∧
        ¬Confined Platform.ascii .ascii llamaClaims (getModel "LLAMA")) := by
  have hcapitals := @map_getModel "LLAMA" rfl
  refine ⟨rfl, restricted_llamaClaims _, ⟨?_, not_confined_getModels⟩,
    ⟨?_, not_confined_deleteShared⟩, ?_, not_confined_capitals⟩
  · exact (granted_of_map map_getModels).trans llamaClaims_authorize.1
  · exact (granted_of_map map_deletePrivate).trans llamaClaims_authorize.2.1
  · exact (granted_of_map hcapitals).trans llamaClaims_authorize.2.2

end Edgelet.EdgeletAPI
