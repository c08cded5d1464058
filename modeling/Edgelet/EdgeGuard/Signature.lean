import Edgelet.EdgeGuard.Fingerprint
import Edgelet.Machine.Run

/-!
# The hardware signature

The edge guard keeps a signed baseline: the hash of the identity of the hardware and the states of
its links. A node without a baseline trusts what it finds. When the identity differs, or a link that
was down is up, the node is deprovisioned, which is refused while the provisioning lock is taken,
and then the baseline is deleted whatever became of that.
-/

namespace Edgelet.EdgeGuard

open Lexical Machine

/-! ## The link lock -/

structure EdgeGuardLink where
  name : Str
  mac : Str
  linkState : Str
  deriving DecidableEq

variable (lib : Library)

def normalizeLinkState (state : Str) : Str :=
  if normalizeString lib state = [] then "unknown".toList else normalizeString lib state

section

variable (c : Circumstances) (payload : FingerprintPayload) (hash : Str) (s : Node)
  (links : List EdgeGuardLink)

def linkLockFromPayload : List EdgeGuardLink :=
  (normalizeFingerprintPayload lib payload).primaryNICs.map fun nic =>
    ⟨nic.name, nic.mac, normalizeLinkState lib nic.linkState⟩

def linkKey (link : EdgeGuardLink) : Str :=
  normalizeString lib link.mac ++ '|' :: normalizeString lib link.name

def indexLinks (key : Str) : Option EdgeGuardLink :=
  links.reverse.find? fun link => linkKey lib link = key

def linkLockBroken (locked live : List EdgeGuardLink) : Bool :=
  locked.any fun lock =>
    match indexLinks lib live (linkKey lib lock) with
    | none => false
    | some current =>
      let lockedState := normalizeLinkState lib lock.linkState
      (lockedState = "0".toList || lockedState = "unknown".toList) &&
        normalizeLinkState lib current.linkState = "1".toList

inductive SignatureAction
  | signatureRebaseline
  | signatureDeprovision
  | signatureRefreshLock

def evaluateSignature (linksPresent : Bool) (storedHash newHash : Str)
    (locked live : List EdgeGuardLink) : SignatureAction × List EdgeGuardLink :=
  if !linksPresent then (.signatureRebaseline, live)
  else if storedHash ≠ newHash ∨ linkLockBroken lib locked live then (.signatureDeprovision, [])
  else (.signatureRefreshLock, locked)

/-! ## Signatures -/

inductive HashClaim
  | missing
  | notText
  | text (hash : Str)
  deriving DecidableEq

inductive LinksClaim
  | missing
  | invalid
  | links (links : List EdgeGuardLink)
  deriving DecidableEq

inductive Signature
  | empty
  | blank
  | unparsable
  | token (hash : HashClaim) (links : LinksClaim) (jti : ℕ)
  deriving DecidableEq

def edgeGuardHashFromJWT : Signature → Except String Str
  | .empty | .blank => .error "edgeguard jwt is empty"
  | .unparsable => .error "parse edgeguard jwt"
  | .token .missing _ _ => .error "edgeguard jwt missing hash claim"
  | .token .notText _ _ => .error "edgeguard jwt hash claim is invalid"
  | .token (.text hash) _ _ =>
    if trimSpace hash = [] then .error "edgeguard jwt hash claim is invalid" else .ok hash

def edgeGuardLinksFromJWT : Signature → Except String (Option (List EdgeGuardLink))
  | .empty | .blank => .error "edgeguard jwt is empty"
  | .unparsable => .error "parse edgeguard jwt"
  | .token _ .missing _ => .ok none
  | .token _ .invalid _ => .error "decode edgeguard link claim"
  | .token _ (.links links) _ => .ok (some links)

/-! ## The node -/

structure Node where
  iofogUUID : Str
  privateKey : Str
  notProvisioned : Bool
  signatureCache : Signature
  signatureRow : Option Signature

structure Deprovision where
  lockBusy : Bool
  deletesRow : Bool
  panics : Bool
  rotates : Bool

inductive Ending
  | returns (result : Except String Unit)
  | panics

def deprovisionWithOptions (d : Deprovision) (s : Node) : Node × Ending :=
  if d.lockBusy then (s, .returns (.error "Provisioning in progress"))
  else if s.notProvisioned then (s, .returns (.error "\nFailure - not provisioned"))
  else
    let s := if d.deletesRow then { s with signatureRow := none } else s
    if d.panics then (s, .panics)
    else
      let s := { s with iofogUUID := [], privateKey := [] }
      if !d.rotates then
        (s, .returns (.error "deprovisioning succeeded but failed to rotate edgelet-api JWT"))
      else ({ s with notProvisioned := true }, .returns (.ok ()))

inductive PostStatus
  | returns
  | deprovisions (d : Deprovision)
  | panics

def postStatusHelper (p : PostStatus) (s : Node) : Node × Ending :=
  match p with
  | .returns => (s, .returns (.ok ()))
  | .deprovisions d =>
    match deprovisionWithOptions d s with
    | (s, .returns _) => (s, .returns (.ok ()))
    | (s, .panics) => (s, .panics)
  | .panics => (s, .panics)

structure Circumstances where
  postStatus : PostStatus
  deprovision : Deprovision
  deletes : Bool
  /-- The identifier of the token that `GenerateEdgeGuardJWT` signs, if it does. -/
  signs : Option ℕ
  upserts : Bool

def deleteStoredSignature (deletes : Bool) (s : Node) : Node :=
  if deletes then { s with signatureRow := none, signatureCache := .empty } else s

def handleHardwareChange : Node :=
  match postStatusHelper c.postStatus s with
  | (s, .panics) => s
  | (s, .returns _) =>
    match deprovisionWithOptions c.deprovision s with
    | (s, .panics) => s
    | (s, .returns _) => deleteStoredSignature c.deletes s

/-! ## A check -/

/-- The hash of the identity in a payload. The payload has been canonicalised before, which sorted
its lists. -/
def newHash : Str :=
  lib.sum256 (canonicalizeIdentityFingerprint lib (sortSlices lib payload))

def liveLinks : List EdgeGuardLink :=
  linkLockFromPayload lib (sortSlices lib payload)

def SameHardware (p q : FingerprintPayload) : Prop :=
  newHash lib p = newHash lib q ∧ liveLinks lib p = liveLinks lib q

inductive Verdict
  | skipped
  | baseline (failure : String)
  | evaluated (action : SignatureAction) (lockLinks : List EdgeGuardLink)

def verdict : Verdict :=
  if s.iofogUUID = [] ∨ s.privateKey = [] then .skipped
  else if s.signatureCache = .empty then .baseline "failed to save initial hardware signature"
  else
    match edgeGuardHashFromJWT s.signatureCache with
    | .error _ => .baseline "failed to re-baseline hardware signature"
    | .ok storedHash =>
      match edgeGuardLinksFromJWT s.signatureCache with
      | .error _ | .ok none => .baseline "failed to re-baseline hardware signature"
      | .ok (some storedLinks) =>
        let (action, lockLinks) :=
          evaluateSignature lib true storedHash (newHash lib payload) storedLinks
            (liveLinks lib payload)
        .evaluated action lockLinks

def signWithPrivateKey (signs : Option ℕ) (hash : Str) (links : List EdgeGuardLink) :
    Except String Signature :=
  match signs with
  | none => .error "failed to sign edgeguard token"
  | some jti => .ok (.token (.text hash) (.links links) jti)

def saveSignatureToDB (upserts : Bool) (signature : Signature) (s : Node) :
    Node × Except String Unit :=
  if !upserts then (s, .error "upsert edgeguard signature")
  else ({ s with signatureRow := some signature, signatureCache := signature }, .ok ())

def persistBaseline (s : Node) : Node × Except String Unit :=
  match signWithPrivateKey c.signs hash links with
  | .error e => (s, .error e)
  | .ok signature => saveSignatureToDB c.upserts signature s

def refreshLock (lockLinks : List EdgeGuardLink) (s : Node) : Node × Except String Unit :=
  match signWithPrivateKey c.signs hash lockLinks with
  | .error e => (s, .error e)
  | .ok signature =>
    if signature ≠ s.signatureCache then saveSignatureToDB c.upserts signature s else (s, .ok ())

def wrap (message : String) (r : Node × Except String Unit) : Node × Except String Unit :=
  (r.1, r.2.mapError (message ++ ": " ++ ·))

def checkHardwareSignature : Node × Except String Unit :=
  match verdict lib payload s with
  | .skipped => (s, .ok ())
  | .baseline failure =>
    wrap failure (persistBaseline c (newHash lib payload) (liveLinks lib payload) s)
  | .evaluated .signatureDeprovision _ => (handleHardwareChange c s, .ok ())
  | .evaluated .signatureRefreshLock lockLinks =>
    wrap "failed to refresh edgeguard attestation JWT"
      (refreshLock c (newHash lib payload) lockLinks s)
  | .evaluated .signatureRebaseline _ => (s, .error "unexpected edgeguard signature action 0")

structure Check where
  circumstances : Circumstances
  payload : FingerprintPayload

def step (c : Check) : Option Node :=
  some (checkHardwareSignature lib c.circumstances c.payload s).1

/-! ## What is remembered -/

def Provisioned : Prop := s.iofogUUID ≠ [] ∧ s.privateKey ≠ []

instance (s : Node) : Decidable (Provisioned s) :=
  inferInstanceAs (Decidable (s.iofogUUID ≠ [] ∧ s.privateKey ≠ []))

def Detects : Prop :=
  ∃ lockLinks, verdict lib payload s = .evaluated .signatureDeprovision lockLinks

def StoresBaseline : Prop :=
  ∃ failure, verdict lib payload s = .baseline failure

/-- **A detected change is never forgiven.** After a check that evaluates to `signatureDeprovision`
the node is deprovisioned, or the next check on the same hardware evaluates to
`signatureDeprovision` again; and as long as the node stays provisioned no later check makes this
hardware the baseline. -/
def NeverForgiven (cs : List Check) : Prop :=
  ∀ before c after s₁ s₂, cs = before ++ c :: after → run (step lib) s before = some s₁ →
    Detects lib c.payload s₁ → step lib s₁ c = some s₂ →
    (¬ Provisioned s₂ ∨ ∀ q, SameHardware lib q c.payload → Detects lib q s₂) ∧
    ∀ between d rest s₃, after = between ++ d :: rest → run (step lib) s₂ between = some s₃ →
      SameHardware lib d.payload c.payload → Provisioned s₃ → ¬ StoresBaseline lib d.payload s₃

def Deprovision.Refused (d : Deprovision) (s : Node) : Prop :=
  d.lockBusy = true ∨ s.notProvisioned = true

def PostStatus.Idle : PostStatus → Prop
  | .returns => True
  | .deprovisions d => d.Refused s
  | .panics => False

def Circumstances.Forgets : Prop :=
  c.postStatus.Idle s ∧ c.deprovision.Refused s ∧ c.deletes = true

/-! ## The verdict -/

def Baseline (hash : Str) (links : List EdgeGuardLink) : Prop :=
  edgeGuardHashFromJWT s.signatureCache = .ok hash ∧
    edgeGuardLinksFromJWT s.signatureCache = .ok (some links)

end

variable {lib} {s s' : Node} {payload : FingerprintPayload}

variable {links : List EdgeGuardLink}

theorem baseline_of_token {hash : Str} {jti : ℕ}
    (hcache : s.signatureCache = .token (.text hash) (.links links) jti)
    (hblank : trimSpace hash ≠ []) : Baseline s hash links := by
  rw [Baseline, hcache]
  exact ⟨if_neg hblank, rfl⟩

theorem verdict_of_not_provisioned (h : ¬ Provisioned s) : verdict lib payload s = .skipped := by
  rw [verdict, if_pos]
  by_contra hne
  rw [not_or] at hne
  exact h hne

theorem verdict_of_empty (h : Provisioned s) (hempty : s.signatureCache = .empty) :
    StoresBaseline lib payload s := by
  refine ⟨"failed to save initial hardware signature", ?_⟩
  rw [verdict, if_neg (not_or.mpr h), if_pos hempty]

theorem verdict_of_baseline {hash : Str} (h : Provisioned s) (hbase : Baseline s hash links) :
    verdict lib payload s =
      .evaluated
        (evaluateSignature lib true hash (newHash lib payload) links (liveLinks lib payload)).1
        (evaluateSignature lib true hash (newHash lib payload) links
          (liveLinks lib payload)).2 := by
  have hne : s.signatureCache ≠ .empty := by
    intro hempty
    have hhash := hbase.1
    rw [hempty] at hhash
    cases hhash
  rw [verdict, if_neg (not_or.mpr h), if_neg hne]
  simp only [hbase.1, hbase.2]

theorem exists_baseline_of_evaluated {action : SignatureAction} {lockLinks : List EdgeGuardLink}
    (h : verdict lib payload s = .evaluated action lockLinks) :
    Provisioned s ∧ ∃ hash links, Baseline s hash links := by
  by_cases hp : Provisioned s
  · refine ⟨hp, ?_⟩
    rw [verdict, if_neg (not_or.mpr hp)] at h
    split_ifs at h
    rcases hhash : edgeGuardHashFromJWT s.signatureCache with e | hash
    · simp [hhash] at h
    rcases hlinks : edgeGuardLinksFromJWT s.signatureCache with e | (_ | links)
    · simp [hhash, hlinks] at h
    · simp [hhash, hlinks] at h
    · exact ⟨hash, links, hhash, hlinks⟩
  · rw [verdict_of_not_provisioned hp] at h
    cases h

theorem detects_congr {q : FingerprintPayload} (hcache : s'.signatureCache = s.signatureCache)
    (hp : Provisioned s') (hsame : SameHardware lib q payload) (h : Detects lib payload s) :
    Detects lib q s' := by
  obtain ⟨lockLinks, h⟩ := h
  obtain ⟨hps, hash, links, hbase⟩ := exists_baseline_of_evaluated h
  have hbase' : Baseline s' hash links := by
    rw [Baseline, hcache]
    exact hbase
  rw [verdict_of_baseline hps hbase] at h
  refine ⟨lockLinks, ?_⟩
  rw [verdict_of_baseline hp hbase', hsame.1, hsame.2, h]

/-! ## The reaction -/

variable {d : Deprovision}

theorem deprovisionWithOptions_of_refused (h : d.Refused s) :
    ∃ e, deprovisionWithOptions d s = (s, .returns (.error e)) := by
  unfold deprovisionWithOptions
  rcases h with h | h
  · exact ⟨_, by rw [if_pos h]⟩
  · by_cases hbusy : d.lockBusy = true
    · exact ⟨_, by rw [if_pos hbusy]⟩
    · exact ⟨_, by rw [if_neg hbusy, if_pos h]⟩

theorem deprovisionWithOptions_of_not_refused (h : ¬ d.Refused s) :
    (∃ t r, deprovisionWithOptions d s = (t, .returns r) ∧ ¬ Provisioned t) ∨
      ∃ t, deprovisionWithOptions d s = (t, .panics) ∧ t.signatureCache = s.signatureCache ∧
        (Provisioned t → Provisioned s) := by
  rw [Deprovision.Refused, not_or] at h
  unfold deprovisionWithOptions
  rw [if_neg h.1, if_neg h.2]
  by_cases hpanics : d.panics = true
  · refine .inr ⟨_, by rw [if_pos hpanics], ?_⟩
    split <;> exact ⟨rfl, id⟩
  · refine .inl ?_
    simp only [if_neg hpanics]
    split
    · exact ⟨_, _, rfl, fun hp => hp.1 rfl⟩
    · exact ⟨_, _, rfl, fun hp => hp.1 rfl⟩

theorem provisioned_of_deprovisionWithOptions
    (h : Provisioned (deprovisionWithOptions d s).1) : Provisioned s := by
  by_cases hr : d.Refused s
  · obtain ⟨e, he⟩ := deprovisionWithOptions_of_refused hr
    rwa [he] at h
  · rcases deprovisionWithOptions_of_not_refused hr with ⟨t, r, ht, hp⟩ | ⟨t, ht, -, hp⟩
    · rw [ht] at h
      exact absurd h hp
    · rw [ht] at h
      exact hp h

theorem provisioned_deleteStoredSignature (deletes : Bool) :
    Provisioned (deleteStoredSignature deletes s) ↔ Provisioned s := by
  unfold deleteStoredSignature
  split <;> exact Iff.rfl

theorem postStatusHelper_of_idle {p : PostStatus} (h : p.Idle s) :
    postStatusHelper p s = (s, .returns (.ok ())) := by
  cases p with
  | returns => rfl
  | deprovisions d =>
    obtain ⟨e, he⟩ := deprovisionWithOptions_of_refused h
    simp only [postStatusHelper, he]
  | panics => exact h.elim

theorem postStatusHelper_of_not_idle {p : PostStatus} (h : ¬ p.Idle s) :
    (∃ t r, postStatusHelper p s = (t, .returns r) ∧ ¬ Provisioned t) ∨
      ∃ t, postStatusHelper p s = (t, .panics) ∧ t.signatureCache = s.signatureCache := by
  cases p with
  | returns => exact absurd trivial h
  | panics => exact .inr ⟨s, rfl, rfl⟩
  | deprovisions d =>
    rcases deprovisionWithOptions_of_not_refused h with ⟨t, r, ht, hp⟩ | ⟨t, ht, hcache, -⟩
    · exact .inl ⟨t, .ok (), by simp only [postStatusHelper, ht], hp⟩
    · exact .inr ⟨t, by simp only [postStatusHelper, ht], hcache⟩

variable {c : Circumstances}

theorem handleHardwareChange_of_forgets (h : c.Forgets s) :
    handleHardwareChange c s = { s with signatureRow := none, signatureCache := .empty } := by
  obtain ⟨hidle, hrefused, hdeletes⟩ := h
  obtain ⟨e, he⟩ := deprovisionWithOptions_of_refused hrefused
  simp only [handleHardwareChange, postStatusHelper_of_idle hidle, he, deleteStoredSignature,
    hdeletes, if_true]

theorem handleHardwareChange_of_not_forgets (h : ¬ c.Forgets s) :
    ¬ Provisioned (handleHardwareChange c s) ∨
      (handleHardwareChange c s).signatureCache = s.signatureCache := by
  unfold handleHardwareChange
  by_cases hidle : c.postStatus.Idle s
  · rw [postStatusHelper_of_idle hidle]
    by_cases hrefused : c.deprovision.Refused s
    · obtain ⟨e, he⟩ := deprovisionWithOptions_of_refused hrefused
      have hdeletes : c.deletes = false := by
        by_contra hne
        exact h ⟨hidle, hrefused, by simpa using hne⟩
      right
      simp only [he, deleteStoredSignature, hdeletes]
      rfl
    · rcases deprovisionWithOptions_of_not_refused hrefused with
        ⟨t, r, ht, hp⟩ | ⟨t, ht, hcache, -⟩
      · left
        simp only [ht]
        rwa [provisioned_deleteStoredSignature]
      · right
        simp only [ht]
        exact hcache
  · rcases postStatusHelper_of_not_idle hidle with ⟨t, r, ht, hp⟩ | ⟨t, ht, hcache⟩
    · left
      have hp' : ¬ Provisioned (deprovisionWithOptions c.deprovision t).1 :=
        mt provisioned_of_deprovisionWithOptions hp
      simp only [ht]
      rcases hd : deprovisionWithOptions c.deprovision t with ⟨u, r' | _⟩
      · rw [hd] at hp'
        rwa [provisioned_deleteStoredSignature]
      · rw [hd] at hp'
        exact hp'
    · right
      simp only [ht]
      exact hcache

/-! ## Runs -/

def Guarded (s : Node) : Prop := Provisioned s → ∃ hash links, Baseline s hash links

theorem Guarded.not_storesBaseline (h : Guarded s) (hp : Provisioned s) :
    ¬ StoresBaseline lib payload s := by
  rintro ⟨failure, hv⟩
  obtain ⟨hash, links, hbase⟩ := h hp
  rw [verdict_of_baseline hp hbase] at hv
  cases hv

theorem guarded_refreshLock (h : Guarded s) :
    Guarded (refreshLock c (newHash lib payload) links s).1 := by
  unfold refreshLock signWithPrivateKey
  rcases c.signs with _ | jti
  · exact h
  · simp only [saveSignatureToDB]
    split_ifs
    · exact h
    · intro _
      exact ⟨newHash lib payload, links, baseline_of_token rfl (lib.sum256_ne_blank _)⟩
    · exact h

theorem guarded_step {c : Check} (h : Guarded s)
    (hok : Detects lib c.payload s → ¬ c.circumstances.Forgets s) (hstep : step lib s c = some s') :
    Guarded s' := by
  rw [step, Option.some.injEq] at hstep
  subst hstep
  unfold checkHardwareSignature
  split
  case h_1 => exact h
  case h_2 failure hv =>
    by_cases hp : Provisioned s
    · exact absurd ⟨failure, hv⟩ (h.not_storesBaseline hp)
    · rw [verdict_of_not_provisioned hp] at hv
      cases hv
  case h_3 lockLinks hv =>
    obtain ⟨-, hash, links, hbase⟩ := exists_baseline_of_evaluated hv
    intro hp
    rcases handleHardwareChange_of_not_forgets (hok ⟨lockLinks, hv⟩) with hnot | hcache
    · exact absurd hp hnot
    · refine ⟨hash, links, ?_⟩
      rw [Baseline, hcache]
      exact hbase
  case h_4 lockLinks hv => exact guarded_refreshLock h
  case h_5 => exact h

theorem step_of_detects {c : Check} (h : Detects lib c.payload s) :
    step lib s c = some (handleHardwareChange c.circumstances s) := by
  obtain ⟨lockLinks, hv⟩ := h
  rw [step, checkHardwareSignature, hv]

theorem storesBaseline_of_forgets {c : Check} (h : Detects lib c.payload s)
    (hf : c.circumstances.Forgets s) (hstep : step lib s c = some s') (q : FingerprintPayload) :
    Provisioned s' ∧ StoresBaseline lib q s' := by
  obtain ⟨lockLinks, hv⟩ := h
  obtain ⟨hp, -⟩ := exists_baseline_of_evaluated hv
  rw [step_of_detects ⟨lockLinks, hv⟩, handleHardwareChange_of_forgets hf,
    Option.some.injEq] at hstep
  subst hstep
  exact ⟨hp, verdict_of_empty hp rfl⟩

/-- **Changes are never forgiven exactly when no reaction loses one**: at every check of the run
that detects a change, the deprovision is not refused, or a status post deprovisions the node or
panics, or the baseline cannot be deleted. -/
theorem neverForgiven_iff (lib : Library) (s : Node) (cs : List Check) :
    NeverForgiven lib s cs ↔
      Along (step lib) (fun s c => Detects lib c.payload s → ¬ c.circumstances.Forgets s) s cs := by
  constructor
  · intro h
    rw [along_iff_forall_taken]
    rintro before c ⟨after, hcs⟩ s₁ hrun hd hf
    have hcs' : cs = before ++ c :: after := by rw [← hcs, List.append_assoc]; rfl
    obtain ⟨s₂, hs₂⟩ : ∃ s₂, step lib s₁ c = some s₂ := ⟨_, rfl⟩
    obtain ⟨hp, hv⟩ := storesBaseline_of_forgets hd hf hs₂ c.payload
    rcases (h before c after s₁ s₂ hcs' hrun hd hs₂).1 with hnot | hagain
    · exact hnot hp
    · obtain ⟨failure, hv⟩ := hv
      obtain ⟨lockLinks, hv'⟩ := hagain c.payload ⟨rfl, rfl⟩
      rw [hv] at hv'
      cases hv'
  · rintro halong before c after s₁ s₂ rfl hrun hd hstep
    obtain ⟨hc, hafter⟩ := (along_append.mp halong).2 s₁ hrun
    have hguarded : Guarded s₂ := by
      refine guarded_step (fun _ => ?_) hc hstep
      exact (exists_baseline_of_evaluated hd.choose_spec).2
    refine ⟨?_, ?_⟩
    · rw [step_of_detects hd, Option.some.injEq] at hstep
      subst hstep
      rcases handleHardwareChange_of_not_forgets (hc hd) with hnot | hcache
      · exact .inl hnot
      · by_cases hp : Provisioned (handleHardwareChange c.circumstances s₁)
        · exact .inr fun q hq => detects_congr hcache hp hq hd
        · exact .inl hp
    · rintro between d rest s₃ rfl hbetween - hp
      have hguarded₃ : Guarded s₃ :=
        invariant_run (fun t a t' ht hok hstep => guarded_step ht hok hstep)
          (along_append.mp (hafter s₂ hstep)).1 hguarded hbetween
      exact hguarded₃.not_storesBaseline hp

/-! ## A change that is forgiven -/

section Forgiven

def machine (uuid : Str) : FingerprintPayload := { system := { uuid := uuid } }

theorem newHash_machine_ne {uuid uuid' : Str}
    (h : normalizeString .ascii uuid ≠ normalizeString .ascii uuid') :
    newHash .ascii (machine uuid) ≠ newHash .ascii (machine uuid') := by
  intro heq
  have hforms := (canonicalizeIdentityFingerprint_eq_iff .ascii).mp (List.cons.inj heq).2
  exact h (congrArg (fun p => p.system.uuid) hforms)

theorem step_of_storesBaseline {c : Check} {jti : ℕ} (h : StoresBaseline lib c.payload s)
    (hsigns : c.circumstances.signs = some jti) (hupserts : c.circumstances.upserts = true) :
    ∃ s', step lib s c = some s' ∧ (Provisioned s' ↔ Provisioned s) ∧
      s'.signatureCache =
        .token (.text (newHash lib c.payload)) (.links (liveLinks lib c.payload)) jti := by
  obtain ⟨failure, hv⟩ := h
  refine ⟨_, rfl, ?_⟩
  simp only [checkHardwareSignature, hv, wrap, persistBaseline, hsigns, signWithPrivateKey,
    saveSignatureToDB, hupserts]
  exact ⟨Iff.rfl, rfl⟩

def nodeA : Node where
  iofogUUID := "node".toList
  privateKey := "key".toList
  notProvisioned := false
  signatureCache := .token (.text (newHash .ascii (machine ['a']))) (.links []) 0
  signatureRow := some (.token (.text (newHash .ascii (machine ['a']))) (.links []) 0)

def checkB : Check where
  circumstances :=
    { postStatus := .returns
      deprovision := ⟨true, true, false, true⟩
      deletes := true
      signs := some 1
      upserts := true }
  payload := machine ['b']

theorem detects_checkB : Detects .ascii checkB.payload nodeA := by
  refine ⟨[], ?_⟩
  have hp : Provisioned nodeA := ⟨by decide, by decide⟩
  have hbase : Baseline nodeA (newHash .ascii (machine ['a'])) [] :=
    baseline_of_token rfl (Library.ascii.sum256_ne_blank _)
  have hne : newHash .ascii (machine ['a']) ≠ newHash .ascii (machine ['b']) :=
    newHash_machine_ne (by decide)
  rw [verdict_of_baseline hp hbase, evaluateSignature, if_neg (by decide), if_pos (.inl hne)]

/-- **A busy lock forgives**: the first check of the changed machine detects the change, but the
node stays provisioned and loses its baseline, and the second check of the same machine makes it
the baseline. -/
theorem busy_lock_forgives :
    ¬ NeverForgiven .ascii nodeA [checkB, checkB] ∧
      ∃ s, run (step .ascii) nodeA [checkB, checkB] = some s ∧ Provisioned s ∧
        s.signatureCache = .token (.text (newHash .ascii checkB.payload))
          (.links (liveLinks .ascii checkB.payload)) 1 := by
  have hf : checkB.circumstances.Forgets nodeA := ⟨trivial, .inl rfl, rfl⟩
  have hstep : step .ascii nodeA checkB =
      some { nodeA with signatureRow := none, signatureCache := .empty } := by
    rw [step_of_detects detects_checkB, handleHardwareChange_of_forgets hf]
  obtain ⟨hp, hstores⟩ := storesBaseline_of_forgets detects_checkB hf hstep checkB.payload
  refine ⟨fun h => ?_, ?_⟩
  · obtain ⟨-, hnever⟩ := h [] checkB [checkB] _ _ rfl rfl detects_checkB hstep
    exact hnever [] checkB [] _ rfl rfl ⟨rfl, rfl⟩ hp hstores
  · obtain ⟨s, hsecond, hps, hcache⟩ := step_of_storesBaseline hstores rfl rfl
    refine ⟨s, ?_, hps.mpr hp, hcache⟩
    rw [run_cons_eq_some]
    exact ⟨_, hstep, run_cons_eq_some.mpr ⟨s, hsecond, rfl⟩⟩

end Forgiven

end Edgelet.EdgeGuard
