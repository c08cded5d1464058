import Edgelet.FieldAgent.ControllerAPI
import Mathlib.Data.List.Induction

/-!
# Deprovisioning over rejected status posts

Five authentication failures of a status post, the first a minute old, deprovision the node unless
an OTA reprovision is pending or a provision is in flight. An error counts when it is an answer 401,
but also when `unauthorized` or `401` occur anywhere in its text, which holds the URL of the
controller and the body of the answer.
-/

namespace Edgelet.FieldAgent.StatusAuth

open Lexical

/-! ## The classification of an error -/

def contains (s substr : Str) : Bool := occursIn (toLower substr) (toLower s)

variable (e : Failure) (s : AuthFailures) (now : ℤ)

def isCertificateError : Bool :=
  contains e.error "certificate".toList || contains e.error "tls".toList ||
    contains e.error "ssl".toList

def isUnauthorizedError : Bool :=
  occursIn "unauthorized".toList (toLower e.error) || occursIn "401".toList (toLower e.error)

def isStatusAuthFailure : Bool :=
  isNonRetryableAgentAuthError e || isLegacyControllerAuthError e || isUnauthorizedError e

theorem isStatusAuthFailure_cases {e : Failure} (h : isStatusAuthFailure e) :
    (∃ a, e.apiError? = some a ∧ a.statusCode = statusUnauthorized) ∨ isUnauthorizedError e := by
  rw [isStatusAuthFailure, Bool.or_eq_true, Bool.or_eq_true] at h
  rcases h with (h | h) | h
  · left
    unfold isNonRetryableAgentAuthError at h
    split at h
    next a ha => exact ⟨a, ha, by simp_all⟩
    next => cases h
  · left
    unfold isLegacyControllerAuthError at h
    split at h
    next a ha => exact ⟨a, ha, by simp_all⟩
    next => cases h
  · exact .inr h

/-! ## The pending OTA reprovision -/

inductive PendingFile
  | absent
  | empty
  | malformed
  | decoded (provisionKey : Str)

def PendingFile.Pending : PendingFile → Prop
  | decoded provisionKey => trimSpace provisionKey ≠ []
  | _ => False

inductive PendingError
  | read
  | unmarshal
  | missingProvisionKey

def readOTAReprovisionPending (readable : Bool) : PendingFile → Except PendingError (Option Str)
  | .absent => .ok none
  | f =>
    if !readable then .error .read
    else
      match f with
      | .decoded provisionKey =>
        if trimSpace provisionKey = [] then .error .missingProvisionKey
        else .ok (some provisionKey)
      | .malformed => .error .unmarshal
      | _ => .ok none

theorem readOTAReprovisionPending_pending {f : PendingFile} (h : f.Pending) :
    ∃ key, readOTAReprovisionPending true f = .ok (some key) := by
  cases f with
  | decoded key => exact ⟨key, if_neg h⟩
  | _ => exact h.elim

/-! ## One call -/

structure Post where
  connected : Bool
  client : Bool
  put : Exchanges
  pendingFile : PendingFile
  readable : Bool
  provisionInFlight : Bool
  notProvisioned : Bool
  now : ℤ

structure AuthFailures where
  count : ℕ
  firstFailureAt : ℤ
  deriving DecidableEq

def statusDeprovision401MaxAttempts : ℕ := 5

def statusDeprovision401MinWindow : ℤ := 60 * 1000000000

def AuthFailures.record : AuthFailures :=
  { count := s.count + 1, firstFailureAt := if s.count = 0 then now else s.firstFailureAt }

def AuthFailures.reset : AuthFailures := { count := 0, firstFailureAt := 0 }

def AuthFailures.shouldDeprovision : Bool :=
  if s.count < statusDeprovision401MaxAttempts then false
  else if s.firstFailureAt = 0 then false
  else statusDeprovision401MinWindow ≤ now - s.firstFailureAt

section Call

variable (unmarshal : Str → Option Payload)

def Post.putStatus (p : Post) : List Exchange × Option Failure :=
  if p.client then request unmarshal p.put
  else ([], some (.text "api client is not initialized".toList))

def Post.shouldSuppress (p : Post) : Bool :=
  match readOTAReprovisionPending p.readable p.pendingFile with
  | .ok (some _) => true
  | _ => p.provisionInFlight

def postStatusHelper (s : AuthFailures) (p : Post) : AuthFailures × Bool :=
  if !p.connected then (s, false)
  else
    match (p.putStatus unmarshal).2 with
    | none => (.reset, false)
    | some e =>
      if isCertificateError e then (s, false)
      else if isRetryableControllerError e then (s, false)
      else if p.shouldSuppress then (s, false)
      else if isStatusAuthFailure e then
        (s.record p.now, (s.record p.now).shouldDeprovision p.now && !p.notProvisioned)
      else (s, false)

end Call

/-! ## Sequences of calls -/

inductive Event
  | post (p : Post)
  | provisioned

section Sequence

variable (unmarshal : Str → Option Payload)

def step (s : AuthFailures) : Event → AuthFailures
  | .post p => (postStatusHelper unmarshal s p).1
  | .provisioned => .reset

variable (since : List Post) (p : Post) (es : List Event)

def recorded : AuthFailures := es.foldl (step unmarshal) .reset

def Post.Succeeds : Prop := p.connected ∧ (p.putStatus unmarshal).2 = none

instance (p : Post) : Decidable (p.Succeeds unmarshal) := inferInstanceAs (Decidable (_ ∧ _))

def Post.Rejected : Prop :=
  p.connected ∧ ∃ y ∈ (p.putStatus unmarshal).1, y.status? = some statusUnauthorized

def note : Event → List Post
  | .post p => if p.Succeeds unmarshal then [] else since ++ [p]
  | .provisioned => since

def sinceSuccess : List Post := es.foldl (note unmarshal) []

/-- **The node is rejected** at the call `p` after the calls `since`: at least
`statusDeprovision401MaxAttempts` puts were answered with 401, the last of them in this call and
the first at least `statusDeprovision401MinWindow` earlier, and at this call neither is an OTA
reprovision pending nor a provision in flight. -/
def NodeRejected : Prop :=
  (∃ rs, rs.Sublist since ∧ (∀ r ∈ rs ++ [p], r.Rejected unmarshal) ∧
    statusDeprovision401MaxAttempts ≤ (rs ++ [p]).length ∧
    ∀ r ∈ (rs ++ [p]).head?, statusDeprovision401MinWindow ≤ p.now - r.now) ∧
  ¬ p.pendingFile.Pending ∧ p.provisionInFlight = false

/-- **Only answers count**: an error that reaches the classification and whose text holds
`unauthorized` or `401` is an answer with status 401, and a pending OTA reprovision can be read. -/
def Post.Genuine : Prop :=
  (∀ e, (p.putStatus unmarshal).2 = some e → isCertificateError e = false →
    isRetryableControllerError e = false → isUnauthorizedError e →
    ∃ a, e.apiError? = some a ∧ a.statusCode = statusUnauthorized) ∧
  (p.pendingFile.Pending → p.readable)

def Event.Genuine : Event → Prop
  | .post p => p.Genuine unmarshal
  | .provisioned => True

end Sequence

/-! ## What counts -/

section Proofs

variable {unmarshal : Str → Option Payload} {s : AuthFailures} {p : Post} {since : List Post}

structure Post.Counts (unmarshal : Str → Option Payload) (p : Post) (e : Failure) : Prop where
  connected : p.connected
  failed : (p.putStatus unmarshal).2 = some e
  notCertificate : isCertificateError e = false
  notRetryable : isRetryableControllerError e = false
  notSuppressed : p.shouldSuppress = false
  authFailure : isStatusAuthFailure e

theorem postStatusHelper_cases (unmarshal : Str → Option Payload) (s : AuthFailures) (p : Post) :
    (p.Succeeds unmarshal ∧ postStatusHelper unmarshal s p = (.reset, false)) ∨
    (¬ p.Succeeds unmarshal ∧ postStatusHelper unmarshal s p = (s, false)) ∨
    (¬ p.Succeeds unmarshal ∧ (∃ e, p.Counts unmarshal e) ∧
      postStatusHelper unmarshal s p =
        (s.record p.now, (s.record p.now).shouldDeprovision p.now && !p.notProvisioned)) := by
  unfold postStatusHelper
  by_cases hconnected : p.connected
  · cases hput : (p.putStatus unmarshal).2 with
    | none => exact .inl ⟨⟨hconnected, hput⟩, by simp [hconnected]⟩
    | some e =>
      have hfails : ¬ p.Succeeds unmarshal := fun h => by simp [Post.Succeeds, hput] at h
      right
      by_cases hcounts : p.Counts unmarshal e
      · obtain ⟨-, -, h1, h2, h3, h4⟩ := hcounts
        refine .inr ⟨hfails, ⟨e, hconnected, hput, h1, h2, h3, h4⟩, ?_⟩
        simp [hconnected, h1, h2, h3, h4]
      · refine .inl ⟨hfails, ?_⟩
        dsimp only
        split
        · rfl
        · split_ifs with h1 h2 h3 h4
          · rfl
          · rfl
          · rfl
          · exact absurd ⟨hconnected, hput, by simpa using h1, by simpa using h2, by simpa using h3,
              h4⟩ hcounts
          · rfl
  · exact .inr (.inl ⟨fun h => hconnected h.1, by simp [hconnected]⟩)

variable {e : Failure}

theorem Post.putStatus_apiError {a : ControllerAPIError}
    (h : (p.putStatus unmarshal).2 = some e) (ha : e.apiError? = some a) :
    ∃ y ∈ (p.putStatus unmarshal).1, y.status? = some a.statusCode := by
  unfold Post.putStatus at h ⊢
  split at h
  next hclient =>
    rw [if_pos hclient]
    exact request_apiError h ha
  next =>
    cases h
    cases ha

theorem Post.Counts.rejected (h : p.Counts unmarshal e)
    (hgen : p.Genuine unmarshal) : p.Rejected unmarshal := by
  have hanswer : ∃ a, e.apiError? = some a ∧ a.statusCode = statusUnauthorized := by
    rcases isStatusAuthFailure_cases h.authFailure with hanswer | htext
    · exact hanswer
    · exact hgen.1 e h.failed h.notCertificate h.notRetryable htext
  obtain ⟨a, ha, hstatus⟩ := hanswer
  obtain ⟨y, hy, hy'⟩ := putStatus_apiError h.failed ha
  exact ⟨h.connected, y, hy, hstatus ▸ hy'⟩

theorem Post.Counts.unsuppressed (h : p.Counts unmarshal e) (hgen : p.Genuine unmarshal) :
    ¬ p.pendingFile.Pending ∧ p.provisionInFlight = false := by
  have hno := h.notSuppressed
  unfold Post.shouldSuppress at hno
  constructor
  · intro hpending
    obtain ⟨key, hkey⟩ := readOTAReprovisionPending_pending hpending
    rw [hgen.2 hpending, hkey] at hno
    cases hno
  · split at hno
    · cases hno
    · exact hno

/-! ## The invariant -/

def Backed (unmarshal : Str → Option Payload) (s : AuthFailures) (since : List Post) : Prop :=
  ∃ rs : List Post, rs.Sublist since ∧ (∀ r ∈ rs, r.Rejected unmarshal) ∧
    rs.length = s.count ∧ ∀ r ∈ rs.head?, r.now = s.firstFailureAt

theorem backed_reset (since : List Post) : Backed unmarshal .reset since :=
  ⟨[], List.nil_sublist _, by simp, rfl, by simp⟩

theorem Backed.record {rs : List Post} (hrs : ∀ r ∈ rs, r.Rejected unmarshal)
    (hlen : rs.length = s.count) (hfirst : ∀ r ∈ rs.head?, r.now = s.firstFailureAt)
    (hp : p.Rejected unmarshal) :
    (∀ r ∈ rs ++ [p], r.Rejected unmarshal) ∧ (rs ++ [p]).length = (s.record p.now).count ∧
      ∀ r ∈ (rs ++ [p]).head?, r.now = (s.record p.now).firstFailureAt := by
  refine ⟨?_, by simp [AuthFailures.record, hlen], ?_⟩
  · intro r hr
    rcases List.mem_append.mp hr with hr | hr
    · exact hrs r hr
    · rw [List.mem_singleton.mp hr]
      exact hp
  · cases rs with
    | nil =>
      have hzero : s.count = 0 := hlen.symm
      simp [AuthFailures.record, hzero]
    | cons r rs =>
      have hpos : s.count ≠ 0 := by simp [← hlen]
      simpa [AuthFailures.record, hpos] using hfirst

theorem Backed.step {e : Event} (h : Backed unmarshal s since) (hgen : e.Genuine unmarshal) :
    Backed unmarshal (step unmarshal s e) (note unmarshal since e) := by
  cases e with
  | provisioned => exact backed_reset since
  | post p =>
    obtain ⟨rs, hsub, hrs, hlen, hfirst⟩ := h
    rcases postStatusHelper_cases unmarshal s p with
      ⟨-, hr⟩ | ⟨hfails, hr⟩ | ⟨hfails, ⟨e, hcounts⟩, hr⟩
    · simp only [StatusAuth.step, hr]
      exact backed_reset _
    · simp only [StatusAuth.step, hr, note, if_neg hfails]
      exact ⟨rs, List.sublist_append_of_sublist_left hsub, hrs, hlen, hfirst⟩
    · simp only [StatusAuth.step, hr, note, if_neg hfails]
      exact ⟨rs ++ [p], hsub.append (List.Sublist.refl _),
        Backed.record hrs hlen hfirst (hcounts.rejected hgen)⟩

theorem backed_recorded {es : List Event} (hgen : ∀ e ∈ es, e.Genuine unmarshal) :
    Backed unmarshal (recorded unmarshal es) (sinceSuccess unmarshal es) := by
  induction es using List.reverseRecOn with
  | nil => exact backed_reset []
  | append_singleton es e ih =>
    rw [recorded, sinceSuccess, List.foldl_concat, List.foldl_concat]
    have hes := ih fun e he => hgen e (List.mem_append_left _ he)
    exact hes.step (hgen e (by simp))

end Proofs

/-! ## The result -/

/-- **Deprovisioned by rejections only**: when all calls are genuine, a call deprovisions the node
only if the node is rejected, and a call whose put was not answered with 401 counts nothing. -/
theorem deprovision_rejected (unmarshal : Str → Option Payload) :
    (∀ (es : List Event) (p : Post), (∀ e ∈ es, e.Genuine unmarshal) → p.Genuine unmarshal →
      (postStatusHelper unmarshal (recorded unmarshal es) p).2 = true →
      NodeRejected unmarshal (sinceSuccess unmarshal es) p) ∧
    ∀ (s : AuthFailures) (p : Post), p.Genuine unmarshal → ¬ p.Rejected unmarshal →
      (postStatusHelper unmarshal s p).1.count ≤ s.count := by
  constructor
  · intro es p hgen hp hdep
    obtain ⟨rs, hsub, hrs, hlen, hfirst⟩ := backed_recorded hgen
    rcases postStatusHelper_cases unmarshal (recorded unmarshal es) p with
      ⟨-, hr⟩ | ⟨-, hr⟩ | ⟨-, ⟨e, hcounts⟩, hr⟩
    · simp [hr] at hdep
    · simp [hr] at hdep
    · obtain ⟨hall, hlen, hfirst⟩ := Backed.record hrs hlen hfirst (hcounts.rejected hp)
      rw [hr, Bool.and_eq_true] at hdep
      have hopen := hdep.1
      unfold AuthFailures.shouldDeprovision at hopen
      split_ifs at hopen with hmany hzero
      refine ⟨⟨rs, hsub, hall, ?_, ?_⟩, hcounts.unsuppressed hp⟩
      · rw [hlen]
        exact Nat.le_of_not_lt hmany
      · intro r hr
        rw [hfirst r hr]
        exact of_decide_eq_true hopen
  · intro s p hp hrejected
    rcases postStatusHelper_cases unmarshal s p with ⟨-, hr⟩ | ⟨-, hr⟩ | ⟨-, ⟨e, hcounts⟩, hr⟩
    · simp [hr, AuthFailures.reset]
    · simp [hr]
    · exact absurd (hcounts.rejected hp) hrejected

def Post.every (x : Exchange) (now : ℤ) : Post where
  connected := true
  client := true
  put := { attempt := fun _ => x, done := fun _ => none }
  pendingFile := .absent
  readable := true
  provisionInFlight := false
  notProvisioned := false
  now := now

def fourTimes : List ℤ := [1, 16, 31, 46].map (· * 1000000000)

/-- Five answers 401 without a body, over 61 seconds. -/
theorem deprovision_rejected_fiveAnswers :
    let unmarshal : Str → Option Payload := fun _ => none
    let x : Exchange := .response 401 none (.ok [])
    let es := fourTimes.map fun t => Event.post (.every x t)
    let p := Post.every x 62000000000
    (postStatusHelper unmarshal (recorded unmarshal es) p).2 = true ∧
      NodeRejected unmarshal (sinceSuccess unmarshal es) p := by
  intro unmarshal x es p
  have hgen : ∀ t, (Post.every x t).Genuine unmarshal := by
    refine fun t => ⟨fun e he _ _ _ => ?_, fun h => h.elim⟩
    cases he
    exact ⟨_, rfl, rfl⟩
  have hes : ∀ e ∈ es, e.Genuine unmarshal := by
    intro e he
    obtain ⟨t, -, rfl⟩ := List.mem_map.mp he
    exact hgen t
  have hdep : (postStatusHelper unmarshal (recorded unmarshal es) p).2 = true := by
    decide +kernel
  exact ⟨hdep, (deprovision_rejected unmarshal).1 es p hes (hgen _) hdep⟩

def timeoutOnPort : Exchange :=
  .transportFailed ("Put \"https://controller:4010/api/v3/agent/status\": ".toList ++
    "context deadline exceeded".toList)

/-- **A port deprovisions the node**: five puts that time out, none of them answered, are taken for
authentication failures because the digits 401 occur in the URL of the controller. -/
theorem port_deprovisions :
    let unmarshal : Str → Option Payload := fun _ => none
    let es := fourTimes.map fun t => Event.post (.every timeoutOnPort t)
    let p := Post.every timeoutOnPort 62000000000
    (postStatusHelper unmarshal (recorded unmarshal es) p).2 = true ∧ ¬ p.Rejected unmarshal ∧
      ¬ NodeRejected unmarshal (sinceSuccess unmarshal es) p := by
  intro unmarshal es p
  have hunanswered : ¬ p.Rejected unmarshal := by
    rintro ⟨-, y, hy, hstatus⟩
    have hnone : ∀ y ∈ (p.putStatus unmarshal).1, y.status? = none := by decide +kernel
    rw [hnone y hy] at hstatus
    cases hstatus
  refine ⟨by decide +kernel, hunanswered, ?_⟩
  rintro ⟨⟨rs, -, hall, -⟩, -⟩
  exact hunanswered (hall p (by simp))

end Edgelet.FieldAgent.StatusAuth
