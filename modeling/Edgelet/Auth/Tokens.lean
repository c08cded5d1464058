import Edgelet.FieldAgent.ParseMicroservice

/-!
# Tokens of the local API

A provisioned agent accepts tokens signed with its own key, whose times the library checks. One that
is not accepts an unsigned bootstrap token, which nothing but `parseClaimsUnverified` reads. The
tokens of microservices are listed in `local_service_account_tokens`, where a rotation or the API
revokes them; the check of a request does not look at the table.
-/

namespace Edgelet.Auth

open Lexical Json
open Edgelet.FieldAgent (str?)

/-! ## The library -/

abbrev Claims := Object ℚ

structure ParsedToken where
  claims : Claims
  alg : Str

/-- Whether the time `now` is before the `exp` and not before the `nbf` of a token. A time that is
missing is not checked, and one that is no number fails. -/
def timesValid (now : ℚ) (claims : Claims) : Bool :=
  (match claims.lookup "exp".toList with
    | some (.num e) => decide (now < e)
    | some _ => false
    | none => true) &&
  match claims.lookup "nbf".toList with
    | some (.num n) => decide (n ≤ now)
    | some _ => false
    | none => true

structure Jwt (κ : Type) where
  parseUnverified : Str → Except Str ParsedToken
  /-- The error of `Parse` at a time, with a key and `EdDSA` as the only method allowed. -/
  parse : ℚ → κ → Str → Option Str
  parse_times : ∀ {now key s}, parse now key s = none →
    ∃ t, parseUnverified s = .ok t ∧ timesValid now t.claims = true

/-! ## The agent -/

structure Agent (κ : Type) where
  iofogUUID : Str
  agentPrivateKey : Except Str (Option Str)
  signer : Option κ
  loadPrivateKeyFromConfig : Str → Except Str κ

variable {κ : Type}

def hydrateProvisionedPrivateKeyFromDB (a : Agent κ) : Except Str (Option Str) :=
  if trimSpace a.iofogUUID = [] then .ok none
  else match a.agentPrivateKey with
    | .error e => .error e
    | .ok none => .ok none
    | .ok (some key) => .ok (if trimSpace key = [] then none else some key)

def refuse (b : Bool) (message : String) : Except Str Unit :=
  if b then .error message.toList else .ok ()

def wrap {α : Type} (message : Str) (x : Except Str α) : Except Str α :=
  x.mapError (message ++ ·)

def Agent.signingKey (a : Agent κ) (privateKey : Str) : Except Str κ :=
  match a.signer with
  | some key => .ok key
  | none => a.loadPrivateKeyFromConfig privateKey

def validateJWT (jwt : Jwt κ) (a : Agent κ) (now : ℚ) (privateKey tokenString : Str) :
    Except Str Unit := do
  let key ← wrap "JWT manager not initialized: ".toList (a.signingKey privateKey)
  match jwt.parse now key tokenString with
  | some e => .error ("failed to parse JWT: ".toList ++ e)
  | none => .ok ()

/-! ## The check -/

def validateRequiredTemporalClaims (claims : Claims) : Except Str Unit :=
  match ["iat", "nbf", "exp", "jti"].find? fun key => (claims.lookup key.toList).isNone with
  | some key => .error ("missing required claim: ".toList ++ key.toList)
  | none => .ok ()

def jwtIssuer : Str := "https://edgelet.default.svc.bridge.local".toList

def edgeletAPIAudience : Str := "edgelet://edgeletapi/v1".toList

def serviceAccountAudience : Str := "https://edgelet.default.svc.bridge.local".toList

def tokenUseEdgeletAPI : Str := "edgeletapi".toList

def tokenUseServiceAccount : Str := "serviceaccount".toList

def isAudience (expected : Str) : Value ℚ → Bool
  | .str aud => trimSpace aud = expected
  | _ => false

def validateEdgeletAPITokenClaims (claims : Claims) : Except Str Unit := do
  refuse (trimSpace ((str? claims "iss").getD []) ≠ jwtIssuer) "invalid issuer"
  let tokenUse := trimSpace ((str? claims "tokenUse").getD [])
  refuse (tokenUse ≠ tokenUseEdgeletAPI ∧ tokenUse ≠ tokenUseServiceAccount) "invalid token use"
  let expectedAudience :=
    if tokenUse = tokenUseServiceAccount then serviceAccountAudience else edgeletAPIAudience
  match claims.lookup "aud".toList with
  | some (.arr auds) => refuse (!auds.any (isAudience expectedAudience)) "invalid audience"
  | some aud => refuse (!isAudience expectedAudience aud) "invalid audience"
  | none => .error "missing audience".toList

def isUnsigned (alg : Str) : Bool := toLower alg = "none".toList

def validateEdgeletAPIJWT (jwt : Jwt κ) (a : Agent κ) (now : ℚ) (tokenString : Str) :
    Except Str ParsedToken := do
  refuse (trimSpace tokenString = []) "empty token"
  let t ← wrap "failed to parse JWT: ".toList (jwt.parseUnverified (trimSpace tokenString))
  validateRequiredTemporalClaims t.claims
  let provisioned ← wrap "failed to resolve provisioning state: ".toList
    (hydrateProvisionedPrivateKeyFromDB a)
  match provisioned with
  | some key =>
    refuse (isUnsigned t.alg) "unsigned JWT not allowed in provisioned mode"
    wrap "signed JWT validation failed: ".toList (validateJWT jwt a now key (trimSpace tokenString))
    validateEdgeletAPITokenClaims t.claims
    return t
  | none =>
    refuse (!isUnsigned t.alg) "only unsigned bootstrap JWT is allowed when unprovisioned"
    validateEdgeletAPITokenClaims t.claims
    refuse (!(str? t.claims "tokenUse").all (· = tokenUseEdgeletAPI))
      "bootstrap mode only accepts edgeletapi tokenUse"
    return t

/-! ## What is accepted -/

theorem bind_eq_ok_iff {α β : Type} {x : Except Str α} {f : α → Except Str β} {b : β} :
    x >>= f = .ok b ↔ ∃ a, x = .ok a ∧ f a = .ok b := by
  rcases x with e | a
  · simp [bind, Except.bind]
  · simp [bind, Except.bind]

@[simp] theorem refuse_eq_ok_iff {b : Bool} {message : String} {u : Unit} :
    refuse b message = .ok u ↔ b = false := by
  cases b <;> simp [refuse]

@[simp] theorem wrap_eq_ok_iff {α : Type} {message : Str} {x : Except Str α} {r : α} :
    wrap message x = .ok r ↔ x = .ok r := by
  rcases x with e | a <;> simp [wrap, Except.mapError]

def TimesPresent (claims : Claims) : Prop :=
  ∀ key ∈ ["iat", "nbf", "exp", "jti"], (claims.lookup key.toList).isSome = true

theorem validateRequiredTemporalClaims_eq_ok_iff {claims : Claims} {u : Unit} :
    validateRequiredTemporalClaims claims = .ok u ↔ TimesPresent claims := by
  unfold validateRequiredTemporalClaims TimesPresent
  split
  · rename_i key hkey
    have hnone := List.find?_some hkey
    have hmem := List.mem_of_find?_eq_some hkey
    simp only [reduceCtorEq, false_iff]
    intro hall
    rw [Option.isNone_iff_eq_none] at hnone
    simpa [hnone] using hall key hmem
  · rename_i hnone
    rw [List.find?_eq_none] at hnone
    simpa using hnone

/-- What the check asks of a token `t` with text `s`: of an agent that is provisioned a signature
and current times, of one that is not no more than the presence of the times. -/
inductive Accepted (jwt : Jwt κ) (a : Agent κ) (now : ℚ) (s : Str) (t : ParsedToken) : Prop
  | signed (key : Str) (provisioned : hydrateProvisionedPrivateKeyFromDB a = .ok (some key))
      (nonempty : trimSpace s ≠ []) (parsed : jwt.parseUnverified (trimSpace s) = .ok t)
      (present : TimesPresent t.claims) (alg : isUnsigned t.alg = false)
      (valid : validateJWT jwt a now key (trimSpace s) = .ok ())
      (claims : validateEdgeletAPITokenClaims t.claims = .ok ())
  | bootstrap (unprovisioned : hydrateProvisionedPrivateKeyFromDB a = .ok none)
      (nonempty : trimSpace s ≠ []) (parsed : jwt.parseUnverified (trimSpace s) = .ok t)
      (present : TimesPresent t.claims) (alg : isUnsigned t.alg = true)
      (claims : validateEdgeletAPITokenClaims t.claims = .ok ())
      (tokenUse : (str? t.claims "tokenUse").all (· = tokenUseEdgeletAPI) = true)

variable {jwt : Jwt κ} {a : Agent κ} {now : ℚ} {t : ParsedToken}

theorem validateEdgeletAPIJWT_eq_ok_iff {s : Str} :
    validateEdgeletAPIJWT jwt a now s = .ok t ↔ Accepted jwt a now s t := by
  constructor
  · intro h
    simp only [validateEdgeletAPIJWT, bind_eq_ok_iff, refuse_eq_ok_iff, wrap_eq_ok_iff,
      validateRequiredTemporalClaims_eq_ok_iff] at h
    obtain ⟨_, hne, t', hparsed, _, hpresent, mode, hmode, h⟩ := h
    cases mode with
    | some key =>
      simp only [bind_eq_ok_iff, refuse_eq_ok_iff, wrap_eq_ok_iff] at h
      obtain ⟨_, halg, _, hvalid, _, hclaims, ht⟩ := h
      cases ht
      exact .signed key hmode (by simpa using hne) hparsed hpresent halg hvalid hclaims
    | none =>
      simp only [bind_eq_ok_iff, refuse_eq_ok_iff] at h
      obtain ⟨_, halg, _, hclaims, _, huse, ht⟩ := h
      cases ht
      refine .bootstrap hmode (by simpa using hne) hparsed hpresent (by simpa using halg) hclaims ?_
      simpa only [Bool.not_eq_false'] using huse
  · rintro (⟨key, hmode, hne, hparsed, hpresent, halg, hvalid, hclaims⟩ |
      ⟨hmode, hne, hparsed, hpresent, halg, hclaims, huse⟩)
    all_goals
      simp only [validateEdgeletAPIJWT, bind_eq_ok_iff, refuse_eq_ok_iff, wrap_eq_ok_iff,
        validateRequiredTemporalClaims_eq_ok_iff]
    · refine ⟨(), by simpa using hne, t, hparsed, (), hpresent, some key, hmode, ?_⟩
      simp only [bind_eq_ok_iff, refuse_eq_ok_iff, wrap_eq_ok_iff]
      exact ⟨(), halg, (), hvalid, (), hclaims, rfl⟩
    · refine ⟨(), by simpa using hne, t, hparsed, (), hpresent, none, hmode, ?_⟩
      simp only [bind_eq_ok_iff, refuse_eq_ok_iff]
      refine ⟨(), by simpa using halg, (), hclaims, (), ?_, rfl⟩
      simpa only [Bool.not_eq_false'] using huse

def Current (now : ℚ) (claims : Claims) : Prop :=
  ∃ nbf exp, claims.lookup "nbf".toList = some (.num nbf) ∧ nbf ≤ now ∧
    claims.lookup "exp".toList = some (.num exp) ∧ now < exp

theorem current_of_timesValid {claims : Claims}
    (hpresent : TimesPresent claims)
    (h : timesValid now claims = true) : Current now claims := by
  have hnbf := hpresent "nbf" (by simp)
  have hexp := hpresent "exp" (by simp)
  rw [timesValid, Bool.and_eq_true] at h
  obtain ⟨he, hn⟩ := h
  split at he
  · rename_i exp hlook
    split at hn
    · rename_i nbf hlook'
      exact ⟨nbf, exp, hlook', of_decide_eq_true hn, hlook, of_decide_eq_true he⟩
    · cases hn
    · rename_i hnone
      rw [hnone] at hnbf
      cases hnbf
  · cases he
  · rename_i hnone
    rw [hnone] at hexp
    cases hexp

theorem parse_eq_none_of_validateJWT {privateKey s : Str}
    (h : validateJWT jwt a now privateKey s = .ok ()) : ∃ key, jwt.parse now key s = none := by
  obtain ⟨key, -, hparse⟩ := bind_eq_ok_iff.mp h
  refine ⟨key, ?_⟩
  split at hparse
  · cases hparse
  · assumption

theorem Accepted.parsed {s : Str} (h : Accepted jwt a now s t) :
    jwt.parseUnverified (trimSpace s) = .ok t := by
  cases h <;> assumption

/-- The times of an accepted token are current, if those of a bootstrap token are. -/
theorem Accepted.current {s : Str} (h : Accepted jwt a now s t)
    (hbootstrap : hydrateProvisionedPrivateKeyFromDB a = .ok none → Current now t.claims) :
    Current now t.claims := by
  rcases h with ⟨_, -, -, hparsed, hpresent, -, hvalid, -⟩ | ⟨hmode, -⟩
  · obtain ⟨k, hk⟩ := parse_eq_none_of_validateJWT hvalid
    obtain ⟨t', ht', htimes⟩ := jwt.parse_times hk
    rw [hparsed] at ht'
    cases ht'
    exact current_of_timesValid hpresent htimes
  · exact hbootstrap hmode

/-! ## The table of tokens -/

/-- `ServiceAccountToken`. The columns that describe the principal and the text of the token are
not read by any function modelled here. -/
structure ServiceAccountToken where
  id : Str
  tokenUse : Str
  microserviceUUID : Str
  jti : Str
  issuedAt : ℤ
  notBefore : ℤ
  expiresAt : ℤ
  revokedAt : Option ℤ
  rotatedFromJTI : Str

/-- The table `local_service_account_tokens`: the primary key is `id`, and `jti` has a unique
index. -/
structure TokenTable where
  rows : List ServiceAccountToken
  id_nodup : (rows.map (·.id)).Nodup
  jti_nodup : (rows.map (·.jti)).Nodup

namespace TokenTable

theorem nodup_replace {rows : List ServiceAccountToken} {x : ServiceAccountToken}
    {column : ServiceAccountToken → Str} {p : ServiceAccountToken → Bool}
    (h : (rows.map column).Nodup) (hp : ∀ y, p y = true → column y ≠ column x) :
    ((rows.filter p ++ [x]).map column).Nodup := by
  rw [List.map_append, List.nodup_append]
  refine ⟨h.sublist (List.filter_sublist.map column), List.nodup_singleton _, ?_⟩
  intro v hv w hw
  obtain ⟨y, hy, rfl⟩ := List.mem_map.mp hv
  rw [List.map_singleton, List.mem_singleton] at hw
  subst hw
  exact hp y (List.mem_filter.mp hy).2

/-- `UpsertServiceAccountToken`: `INSERT OR REPLACE` deletes every row in conflict with the new
one. -/
def upsert (t : TokenTable) (x : ServiceAccountToken) : TokenTable where
  rows := t.rows.filter (fun y => y.id ≠ x.id && y.jti ≠ x.jti) ++ [x]
  id_nodup := nodup_replace t.id_nodup (by simp +contextual)
  jti_nodup := nodup_replace t.jti_nodup (by simp +contextual)

theorem map_revoke {rows : List ServiceAccountToken} (column : ServiceAccountToken → Str)
    (h : ∀ x time, column { x with revokedAt := time } = column x)
    (p : ServiceAccountToken → Bool) (time : ℤ) :
    (rows.map fun x => if p x then { x with revokedAt := some time } else x).map column =
      rows.map column := by
  rw [List.map_map]
  refine List.map_congr_left fun x _ => ?_
  show column (if p x then { x with revokedAt := some time } else x) = column x
  split
  · exact h x _
  · rfl

def revokeWhere (t : TokenTable) (p : ServiceAccountToken → Bool) (time : ℤ) : TokenTable where
  rows := t.rows.map fun x => if p x then { x with revokedAt := some time } else x
  id_nodup := by
    rw [map_revoke (·.id) fun _ _ => rfl]
    exact t.id_nodup
  jti_nodup := by
    rw [map_revoke (·.jti) fun _ _ => rfl]
    exact t.jti_nodup

def Revoked (t : TokenTable) (jti : Str) : Prop :=
  ∃ x ∈ t.rows, x.jti = jti ∧ x.revokedAt.isSome = true

end TokenTable

def revokeServiceAccountToken (t : TokenTable) (now : ℤ) (jti : Str) (revokedAtSec : ℤ)
    (failure : Option Str) : TokenTable × Except Str Unit :=
  if jti = [] then (t, .error "jti is required".toList)
  else match failure with
    | some e => (t, .error e)
    | none =>
      (t.revokeWhere (·.jti = jti) (if revokedAtSec = 0 then now else revokedAtSec), .ok ())

/-! ## Rotation -/

def listActiveServiceAccountTokens (t : TokenTable) : List ServiceAccountToken :=
  (t.rows.filter (·.revokedAt.isNone)).insertionSort fun x y => y.issuedAt ≤ x.issuedAt

def activeTokenByMicroservice (t : TokenTable) (microserviceUUID : Str) :
    Option ServiceAccountToken :=
  (listActiveServiceAccountTokens t).find? fun item =>
    item.tokenUse = tokenUseServiceAccount && trimSpace item.microserviceUUID ≠ [] &&
      item.microserviceUUID = microserviceUUID

structure Minted where
  jti : Str
  iat : ℤ
  exp : ℤ

structure Rotation where
  mint : Except Str Minted
  readCA : Except Str Unit
  readJWK : Except Str Unit
  writeProjection : Except Str Unit
  upsert : Except Str Unit
  revoke : Option Str
  now : ℤ

def Rotation.issue (r : Rotation) (microserviceUUID : Str) : Except Str Minted := do
  let minted ← wrap
    ("failed to mint service-account token for ".toList ++ microserviceUUID ++ ": ".toList) r.mint
  wrap "failed to read edgeletapi CA: ".toList r.readCA
  wrap "failed to read edgelet signing JWK: ".toList r.readJWK
  r.writeProjection
  wrap "failed to persist service-account token metadata: ".toList r.upsert
  return minted

def Minted.row (minted : Minted) (microserviceUUID : Str) (previous : Option ServiceAccountToken) :
    ServiceAccountToken where
  id := microserviceUUID ++ ":".toList ++ minted.jti
  tokenUse := tokenUseServiceAccount
  microserviceUUID := microserviceUUID
  jti := minted.jti
  issuedAt := minted.iat
  notBefore := minted.iat
  expiresAt := minted.exp
  revokedAt := none
  rotatedFromJTI := (previous.map (·.jti)).getD []

/-- `rotateForMicroservice`. The error of the last update is ignored. -/
def rotateForMicroservice (t : TokenTable) (microserviceUUID : Str)
    (previous : Option ServiceAccountToken) (r : Rotation) : TokenTable × Except Str Unit :=
  match r.issue microserviceUUID with
  | .error e => (t, .error e)
  | .ok minted =>
    let t := t.upsert (minted.row microserviceUUID previous)
    match previous with
    | none => (t, .ok ())
    | some p =>
      if p.jti = [] then (t, .ok ())
      else ((revokeServiceAccountToken t r.now p.jti r.now r.revoke).1, .ok ())

/-- The loop over the microservices, each with the answers of its rotation. A microservice without
an identifier is passed over, and so is one whose token is not `due`. -/
def rotateAll (active : Str → Option ServiceAccountToken) (due : Str → Bool) :
    TokenTable → List (Str × Rotation) → TokenTable × Except Str Unit
  | t, [] => (t, .ok ())
  | t, (uuid, r) :: rest =>
    if trimSpace uuid = [] || !due uuid then rotateAll active due t rest
    else match rotateForMicroservice t uuid (active uuid) r with
      | (t', .error e) => (t', .error e)
      | (t', .ok ()) => rotateAll active due t' rest

def reconcileManagedMicroservices (t : TokenTable) (microservices : List (Str × Rotation)) :
    TokenTable × Except Str Unit :=
  rotateAll (activeTokenByMicroservice t) (fun _ => true) t microservices

/-! ## Stale tokens -/

def RevokedIn (t : TokenTable) (claims : Claims) : Prop :=
  ∃ jti, str? claims "jti" = some jti ∧ t.Revoked jti

/-- A token expires as its row says, if the table has one with its `jti`. -/
def AsListed (t : TokenTable) (claims : Claims) : Prop :=
  ∀ row ∈ t.rows, str? claims "jti" = some row.jti →
    claims.lookup "exp".toList = some (.num row.expiresAt)

def Jwt.ofTokens (tokens : List (Str × ParsedToken)) : Jwt Unit where
  parseUnverified s :=
    match tokens.lookup s with
    | some t => .ok t
    | none => .error "token is malformed".toList
  parse now _ s :=
    match tokens.lookup s with
    | some t => if timesValid now t.claims then none else some "token has invalid claims".toList
    | none => some "token is malformed".toList
  parse_times := by
    intro now _ s h
    split at h
    · rename_i t hlook
      split at h
      · exact ⟨t, rfl, by assumption⟩
      · cases h
    · cases h

def sampleClaims (tokenUse aud jti : Str) (nbf exp : ℚ) : Claims :=
  [("iss".toList, .str jwtIssuer), ("aud".toList, .arr [.str aud]),
    ("tokenUse".toList, .str tokenUse), ("jti".toList, .str jti), ("iat".toList, .num nbf),
    ("nbf".toList, .num nbf), ("exp".toList, .num exp)]

def sampleTokens : Jwt Unit :=
  .ofTokens [
    ("a".toList, ⟨sampleClaims tokenUseServiceAccount serviceAccountAudience "j1".toList 0 2000,
      "EdDSA".toList⟩),
    ("b".toList, ⟨sampleClaims tokenUseEdgeletAPI edgeletAPIAudience "j0".toList 0 10,
      "none".toList⟩),
    ("c".toList, ⟨sampleClaims tokenUseServiceAccount serviceAccountAudience "j2".toList 1000 3000,
      "EdDSA".toList⟩)]

def sampleAgent (privateKey : Option Str) : Agent Unit :=
  ⟨"node".toList, .ok privateKey, none, fun _ => .ok ()⟩

def sampleTable : TokenTable where
  rows := [⟨"m:j1".toList, tokenUseServiceAccount, "m".toList, "j1".toList, 0, 0, 2000, none, []⟩]
  id_nodup := List.nodup_singleton _
  jti_nodup := List.nodup_singleton _

def sampleRotation : Rotation :=
  ⟨.ok ⟨"j2".toList, 1000, 3000⟩, .ok (), .ok (), .ok (), .ok (), none, 1000⟩

def rotatedTable : TokenTable :=
  (reconcileManagedMicroservices sampleTable [("m".toList, sampleRotation)]).1

end Edgelet.Auth
