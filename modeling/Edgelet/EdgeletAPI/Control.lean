import Edgelet.EdgeletAPI.Authorization

/-!
# Authorization of the control websocket

The control websocket checks the claims of a token by functions of its own. They find the rules as
the HTTP check does, and read the texts in a rule differently: white space at the ends of a text is
dropped, and the case of letters counts.
-/

namespace Edgelet.EdgeletAPI

open Lexical Json Auth
open Edgelet.FieldAgent (arr? strings strings?)
open Edgelet.Models (Platform)

def stringListMatch (raw : Option (Value ℚ)) (target : Str) : Bool :=
  let target := trimSpace target
  if target = [] then false
  else match raw with
    | some (.arr v) =>
      let values := (strings v).map trimSpace
      values.contains "*".toList || values.contains target
    | _ => false

def groupRulesMatch (groups : Object ℚ) (group resource verb : Str) : Bool :=
  (rulesOfGroup groups group).any fun rule =>
    stringListMatch (rule.lookup "resources".toList) resource &&
      stringListMatch (rule.lookup "verbs".toList) verb

def controlResource : Str := "microservices/control/self".toList

def authorizeV3WebsocketClaims (claims : Claims) : Bool :=
  isAdmin claims ||
    match rulesByGroup claims with
    | some groups =>
      ["edgelet.iofog.org/v1".toList, "edgelet.iofog.org/v1".toList].any fun group =>
        groupRulesMatch groups group controlResource "get".toList
    | none => false

def controlRequest : Request := ⟨"GET".toList, "/v1/microservices/control".toList, []⟩

/-! ## Two readings of a rule -/

structure Reading where
  resource : Str → Prop
  verb : Str → Prop

def Reading.Covers (ρ : Reading) (rule : Object ℚ) : Prop :=
  (∃ s ∈ strings? rule "resources", ρ.resource s) ∧ ∃ s ∈ strings? rule "verbs", ρ.verb s

def httpReading (p : Platform) (f : Folding) : Reading where
  resource s := s = "*".toList ∨ f.equalFold s controlResource = true
  verb s := s = "*".toList ∨ p.toLower (trimSpace s) = "get".toList

def websocketReading : Reading where
  resource s := trimSpace s = "*".toList ∨ trimSpace s = controlResource
  verb s := trimSpace s = "*".toList ∨ trimSpace s = "get".toList

section Readings

variable {p : Platform} {f : Folding} {claims : Claims} {rule : Object ℚ}

theorem stringListMatch_iff {key : String} {target : Str} (ht : trimSpace target = target)
    (hne : target ≠ []) :
    stringListMatch (rule.lookup key.toList) target = true ↔
      ∃ s ∈ strings? rule key, trimSpace s = "*".toList ∨ trimSpace s = target := by
  simp only [stringListMatch, ht, if_neg hne, strings?, arr?]
  split <;> simp_all [← exists_or, and_or_left]

theorem ruleListMatch_iff {key : String} {expected : Str} (hne : expected ≠ []) :
    ruleListMatch f (rule.lookup key.toList) expected = true ↔
      ∃ s ∈ strings? rule key, s = "*".toList ∨ f.equalFold s expected = true := by
  simp only [ruleListMatch, if_neg hne, strings?, arr?]
  split <;> simp_all

theorem lower_get : p.toLower "get".toList = "get".toList := by
  show List.map p.lower ['g', 'e', 't'] = ['g', 'e', 't']
  simp [p.lower_ascii]

theorem canonicalVerb_eq_get_iff (s : Str) :
    canonicalVerb p s = canonicalVerb p "get".toList ↔ p.toLower (trimSpace s) = "get".toList := by
  have hget : canonicalVerb p "get".toList = "get".toList := by
    rw [canonicalVerb, show trimSpace "get".toList = "get".toList from rfl, lower_get]
    rfl
  rw [hget, canonicalVerb, Models.canonicalVerb]
  split_ifs with h1 h2 h3
  · rcases h1 with h | h <;> simp [h]
  · simp [h2]
  · simp [h3]
  · rfl

theorem ruleVerbMatch_get_iff :
    ruleVerbMatch p (rule.lookup "verbs".toList) "get".toList = true ↔
      ∃ s ∈ strings? rule "verbs", (httpReading p f).verb s := by
  simp only [ruleVerbMatch, httpReading, canonicalVerb_eq_get_iff, strings?, arr?]
  split <;> simp_all

def controlPermission : RbacPermission :=
  ⟨localAPIAuthorizationGroups, controlResource, "get".toList, []⟩

theorem map_controlRequest : mapRequestToPermission p controlRequest = some controlPermission := rfl

theorem isAuthorized_control_iff (h : isAdmin claims = false) :
    isAuthorized p f claims controlPermission = true ↔
      ∃ rule ∈ decisiveRules claims, (httpReading p f).Covers rule := by
  rw [isAuthorized_iff h rfl]
  refine exists_congr fun rule => and_congr_right fun _ => ?_
  simp only [controlPermission, admitsName, decide_true, Bool.true_or, and_true, covers,
    Bool.and_eq_true, ruleVerbMatch_get_iff (f := f), Reading.Covers]
  exact and_congr_left' (ruleListMatch_iff (by decide))

theorem authorizeV3WebsocketClaims_iff (h : isAdmin claims = false) :
    authorizeV3WebsocketClaims claims = true ↔
      ∃ rule ∈ decisiveRules claims, websocketReading.Covers rule := by
  have hmatch (rule : Object ℚ) :
      (stringListMatch (rule.lookup "resources".toList) controlResource &&
        stringListMatch (rule.lookup "verbs".toList) "get".toList) = true ↔
      websocketReading.Covers rule := by
    rw [Bool.and_eq_true, stringListMatch_iff rfl (by decide), stringListMatch_iff rfl (by decide)]
    rfl
  rw [authorizeV3WebsocketClaims, decisiveRules, h, Bool.false_or]
  cases rulesByGroup claims with
  | none => simp
  | some groups =>
    simp only [groupRulesMatch, localAPIAuthorizationGroups, List.any_cons, List.any_nil,
      Bool.or_false, Bool.or_self, List.any_eq_true, hmatch, List.flatMap_cons, List.flatMap_nil,
      List.append_nil]

/-- **A text is written plainly**: a resource that one of the readings takes for `*` or for the
control resource is that text, and so is a verb up to white space around `get`. -/
structure PlainTexts (p : Platform) (f : Folding) (rule : Object ℚ) : Prop where
  resources : ∀ s ∈ strings? rule "resources", (trimSpace s = "*".toList → s = "*".toList) ∧
    (trimSpace s = controlResource ∨ f.equalFold s controlResource = true → s = controlResource)
  verbs : ∀ s ∈ strings? rule "verbs", (trimSpace s = "*".toList → s = "*".toList) ∧
    (p.toLower (trimSpace s) = "get".toList → trimSpace s = "get".toList)

theorem trimSpace_star : trimSpace "*".toList = "*".toList := rfl

theorem PlainTexts.covers_iff (h : PlainTexts p f rule) :
    (httpReading p f).Covers rule ↔ websocketReading.Covers rule := by
  refine and_congr (exists_congr fun s => and_congr_right fun hs => ?_)
    (exists_congr fun s => and_congr_right fun hs => ?_)
  · obtain ⟨hstar, hresource⟩ := h.resources s hs
    constructor
    · rintro (rfl | hfold)
      · exact .inl trimSpace_star
      · rw [hresource (.inr hfold)]
        exact .inr rfl
    · rintro (htrim | htrim)
      · exact .inl (hstar htrim)
      · rw [hresource (.inl htrim)]
        exact .inr (decide_eq_true rfl)
  · obtain ⟨hstar, hverb⟩ := h.verbs s hs
    constructor
    · rintro (rfl | hlower)
      · exact .inl trimSpace_star
      · exact .inr (hverb hlower)
    · rintro (htrim | htrim)
      · exact .inl (hstar htrim)
      · refine .inr ?_
        rw [htrim]
        exact lower_get

end Readings

/-- The rule names the resource among others, in words of its own. -/
def plainClaims : Claims :=
  claimsOf [ruleOf ["microservices/control/self", " Logs"] [" get ", "watch"] []]

def capitalClaims : Claims := claimsOf [ruleOf ["*"] ["GET"] []]

def spacedClaims : Claims := claimsOf [ruleOf [" microservices/control/self"] ["get"] []]

end Edgelet.EdgeletAPI
