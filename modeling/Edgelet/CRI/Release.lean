import Edgelet.Lexical.Text
import Edgelet.Machine.Logged

/-!
# Releasing labeled workloads

Before the runtime is shut down, the containers of microservices are stopped and removed, and then
their sandboxes. A container refers to its sandbox by a field and by a label; a shared sandbox that
a container is left in stays. Any call may fail, and no container is created meanwhile.
-/

namespace Edgelet.CRI

open Lexical Machine

/-! ## The runtime -/

inductive ContainerState
  | created
  | running
  | exited
  | unknown
  deriving DecidableEq

structure Container where
  id : Str
  podSandboxId : Str
  labels : List (Str × Str)
  state : ContainerState

structure PodSandbox where
  id : Str
  labels : List (Str × Str)

inductive Call
  | stopContainer (id : Str) (timeout : ℤ)
  | removeContainer (id : Str)
  | stopPodSandbox (id : Str)
  | removePodSandbox (id : Str)

structure Runtime where
  releaser : Bool
  listContainers : Except Str (List (Option Container))
  listPodSandboxes : ℕ → Except Str (List (Option PodSandbox))
  answer : Call → ℕ → Option Str

inductive Event
  | listContainers (r : Except Str (List (Option Container)))
  | listPodSandboxes (r : Except Str (List (Option PodSandbox)))
  | call (c : Call) (err : Option Str)

section

variable (rt : Runtime) (l : List Event) (p : Progress) (c : Container)

def Runtime.call (c : Call) : Logged Event (Option Str) :=
  ask (rt.answer c) (.call c)

/-! ## Labels -/

def labelMicroserviceUID : Str := "edgelet.iofog.org/microservice-uid".toList

def labelSandboxID : Str := "edgelet.iofog.org/sandbox-id".toList

variable (labels : List (Str × Str)) (s : PodSandbox) (timeout : ℤ) (x : Str)

def label (key : Str) : Str :=
  ((labels.find? (·.1 == key)).map (·.2)).getD []

def microserviceUIDFromLabels : Str :=
  trimSpace (label labels labelMicroserviceUID)

def rememberSandboxID (ids : List Str) (id : Str) : List Str :=
  if trimSpace id = [] ∨ ids.contains (trimSpace id) then ids else ids ++ [trimSpace id]

def containerSandboxIDs : List Str :=
  rememberSandboxID (rememberSandboxID [] c.podSandboxId) (label c.labels labelSandboxID)

def protectSandboxes (ids dst : List Str) : List Str := ids.foldl rememberSandboxID dst

def workloadAlreadyGone (err : Str) : Bool :=
  occursIn "not found".toList (toLower err) || occursIn "does not exist".toList (toLower err)

def failed : Option Str → Bool
  | none => false
  | some err => !workloadAlreadyGone err

def wrap (what : String) (id : Str) (err : Option Str) : Option Str :=
  some (what.toList ++ id ++ ": ".toList ++ err.getD [])

/-! ## The release -/

structure Progress where
  protectedSandboxes : List Str
  releasedContainers : List (List Str)
  releaseErr : Option Str

def Progress.leave (err : Option Str) : Progress :=
  { p with
    protectedSandboxes := protectSandboxes (containerSandboxIDs c) p.protectedSandboxes
    releaseErr := err }

def stopContainer (c : Container) : Logged Event (Option Str) :=
  if c.state = .running ∨ c.state = .created then rt.call (.stopContainer c.id timeout)
  else return none

def releaseContainer (p : Progress) : Option Container → Logged Event Progress
  | none => return p
  | some c =>
    if trimSpace c.id = [] then return p
    else if microserviceUIDFromLabels c.labels = [] then return p
    else do
      let stopErr ← stopContainer rt timeout c
      if failed stopErr then return p.leave c (wrap "stop container " c.id stopErr)
      else
        let removeErr ← rt.call (.removeContainer c.id)
        if failed removeErr then return p.leave c (wrap "remove container " c.id removeErr)
        else return { p with releasedContainers := p.releasedContainers ++ [containerSandboxIDs c] }

def referencedSandboxes : List Str :=
  (p.releasedContainers.flatten.filter fun id => !p.protectedSandboxes.contains id).foldl
    rememberSandboxID []

def rememberSandbox (blocked ids : List Str) : Option PodSandbox → List Str
  | none => ids
  | some sandbox =>
    if trimSpace sandbox.id = [] then ids
    else if blocked.contains sandbox.id then ids
    else if microserviceUIDFromLabels sandbox.labels = [] then ids
    else rememberSandboxID ids sandbox.id

def releaseSandbox (blocked : List Str) (err : Option Str) (id : Str) : Logged Event (Option Str) :=
  if blocked.contains id then return err
  else do
    let stopErr ← rt.call (.stopPodSandbox id)
    if failed stopErr then return wrap "stop pod sandbox " id stopErr
    else
      let removeErr ← rt.call (.removePodSandbox id)
      if failed removeErr then return wrap "remove pod sandbox " id removeErr
      else return err

def releaseSandboxes : Logged Event (Option Str) := do
  let listed ← ask rt.listPodSandboxes .listPodSandboxes
  match listed with
  | .error err => return wrap "list labeled sandboxes for delete" [] (some err)
  | .ok sandboxes =>
    let ids := sandboxes.foldl (rememberSandbox p.protectedSandboxes) (referencedSandboxes p)
    (ids.mergeSort strLe).foldlM (releaseSandbox rt p.protectedSandboxes) p.releaseErr

def releaseLabeledWorkloads (runtime : Option Runtime) (stopTimeoutSec : ℤ) :
    Logged Event (Option Str) :=
  match runtime with
  | none => return none
  | some rt =>
    if rt.releaser = false then return none
    else do
      emit (.listContainers rt.listContainers)
      match rt.listContainers with
      | .error err => return wrap "list labeled workloads for delete" [] (some err)
      | .ok containers =>
        let timeout := if stopTimeoutSec ≤ 0 then 1 else stopTimeoutSec
        let p ← containers.foldlM (releaseContainer rt timeout) ⟨[], [], none⟩
        releaseSandboxes rt p

/-! ## What a release may do -/

def Container.Labeled : Prop :=
  trimSpace c.id ≠ [] ∧ microserviceUIDFromLabels c.labels ≠ []

def PodSandbox.Labeled : Prop :=
  trimSpace s.id ≠ [] ∧ microserviceUIDFromLabels s.labels ≠ []

def Container.References : Prop :=
  trimSpace c.podSandboxId = x ∨ trimSpace (label c.labels labelSandboxID) = x

def Gone (c : Call) : Prop :=
  ∃ err, .call c err ∈ l ∧ failed err = false

def ListedContainer : Prop :=
  ∃ cs, .listContainers (.ok cs) ∈ l ∧ some c ∈ cs ∧ c.Labeled

def ListedSandbox : Prop :=
  ∃ ss, .listPodSandboxes (.ok ss) ∈ l ∧ some s ∈ ss ∧ s.Labeled

def Unused : Prop :=
  ∀ c, ListedContainer l c → c.References x → Gone l (.removeContainer c.id)

end

/-- **What may be called after what**: a container only if it has a label, a sandbox only once
nothing is left in it. -/
def Allowed (before : List Event) : Event → Prop
  | .call (.stopContainer id _) _ => ∃ c, ListedContainer before c ∧ c.id = id
  | .call (.removeContainer id) _ => ∃ c, ListedContainer before c ∧ c.id = id
  | .call (.stopPodSandbox x) _ => Unused before x
  | .call (.removePodSandbox x) _ => Unused before x
  | .listContainers _ => True
  | .listPodSandboxes _ => True

/-- **A safe release**, with its error and its log. -/
structure Released (err : Option Str) (l : List Event) : Prop where
  allowed : Each Allowed l
  containers : err = none → ∀ c, ListedContainer l c → Gone l (.removeContainer c.id)
  sandboxes : err = none → ∀ s, ListedSandbox l s → Gone l (.removePodSandbox (trimSpace s.id))

theorem Gone.concat {l : List Event} {c : Call} (h : Gone l c) (e : Event) : Gone (l ++ [e]) c := by
  obtain ⟨err, hmem, hok⟩ := h
  exact ⟨err, List.mem_append_left _ hmem, hok⟩

theorem gone_concat {l : List Event} {c : Call} {err : Option Str} (h : failed err = false) :
    Gone (l ++ [.call c err]) c :=
  ⟨err, by simp, h⟩

/-! ## Sets of identifiers -/

theorem mem_rememberSandboxID {ids : List Str} {id x : Str} :
    x ∈ rememberSandboxID ids id ↔ x ∈ ids ∨ (x ≠ [] ∧ x = trimSpace id) := by
  unfold rememberSandboxID
  split_ifs with h
  · refine ⟨Or.inl, ?_⟩
    rintro (hx | ⟨hne, rfl⟩)
    · exact hx
    · exact List.contains_iff_mem.mp (h.resolve_left hne)
  · push Not at h
    rw [List.mem_append, List.mem_singleton]
    constructor
    · rintro (hx | rfl)
      · exact .inl hx
      · exact .inr ⟨h.1, rfl⟩
    · rintro (hx | ⟨-, rfl⟩)
      · exact .inl hx
      · exact .inr rfl

variable {x : Str}

theorem mem_foldl_rememberSandboxID {ids dst : List Str} :
    x ∈ ids.foldl rememberSandboxID dst ↔
      x ∈ dst ∨ ∃ id ∈ ids, x ≠ [] ∧ x = trimSpace id := by
  induction ids generalizing dst with
  | nil => simp
  | cons id ids ih =>
    rw [List.foldl_cons, ih, mem_rememberSandboxID, List.exists_mem_cons_iff, or_assoc]

theorem mem_containerSandboxIDs {c : Container} :
    x ∈ containerSandboxIDs c ↔ x ≠ [] ∧ c.References x := by
  unfold containerSandboxIDs Container.References
  rw [mem_rememberSandboxID, mem_rememberSandboxID]
  constructor
  · rintro ((h | ⟨hne, rfl⟩) | ⟨hne, rfl⟩)
    · cases h
    · exact ⟨hne, .inl rfl⟩
    · exact ⟨hne, .inr rfl⟩
  · rintro ⟨hne, rfl | rfl⟩
    · exact .inl (.inr ⟨hne, rfl⟩)
    · exact .inr ⟨hne, rfl⟩

theorem mem_protectSandboxes {c : Container} {dst : List Str} :
    x ∈ protectSandboxes (containerSandboxIDs c) dst ↔ x ∈ dst ∨ x ∈ containerSandboxIDs c := by
  unfold protectSandboxes
  rw [mem_foldl_rememberSandboxID]
  refine or_congr_right ⟨?_, fun hx => ⟨x, hx, (mem_containerSandboxIDs.mp hx).1, ?_⟩⟩
  · rintro ⟨id, hid, hne, rfl⟩
    obtain ⟨-, h | h⟩ := mem_containerSandboxIDs.mp hid
    all_goals
      rw [← h, trimSpace_trimSpace, h]
      exact hid
  · obtain ⟨-, h | h⟩ := mem_containerSandboxIDs.mp hx
    all_goals rw [← h, trimSpace_trimSpace]

theorem mem_rememberSandbox {blocked ids : List Str} {entry : Option PodSandbox} :
    x ∈ rememberSandbox blocked ids entry ↔
      x ∈ ids ∨ ∃ s, entry = some s ∧ s.Labeled ∧ s.id ∉ blocked ∧ x = trimSpace s.id := by
  unfold rememberSandbox PodSandbox.Labeled
  cases entry with
  | none => simp
  | some s =>
    simp only [Option.some.injEq, exists_eq_left', List.contains_iff_mem]
    split_ifs with hid hblocked huid
    · simp [hid]
    · simp [hblocked]
    · simp [huid]
    · rw [mem_rememberSandboxID]
      refine or_congr_right ⟨fun h => ⟨⟨hid, huid⟩, hblocked, h.2⟩, fun h => ⟨?_, h.2.2⟩⟩
      rw [h.2.2]
      exact hid

theorem mem_foldl_rememberSandbox {blocked ids : List Str} {entries : List (Option PodSandbox)} :
    x ∈ entries.foldl (rememberSandbox blocked) ids ↔
      x ∈ ids ∨ ∃ s, some s ∈ entries ∧ s.Labeled ∧ s.id ∉ blocked ∧ x = trimSpace s.id := by
  induction entries generalizing ids with
  | nil => simp
  | cons entry entries ih =>
    rw [List.foldl_cons, ih, mem_rememberSandbox, or_assoc, ← exists_or]
    refine or_congr_right (exists_congr fun s => ?_)
    rw [List.mem_cons, or_and_right, eq_comm]

theorem ne_nil_of_mem_referencedSandboxes {p : Progress}
    (h : x ∈ referencedSandboxes p) : x ≠ [] := by
  obtain h | ⟨_, -, hne, -⟩ := mem_foldl_rememberSandboxID.mp h
  · cases h
  · exact hne

/-! ## The containers -/

/-- **The invariant of the release**, when it has gone through some of the containers: each of them
is gone or its sandboxes are protected, and while there is no error nothing is protected. Sandboxes
have been listed as `known` says. -/
structure Settled (known : List (Except Str (List (Option PodSandbox))))
    (cs done : List (Option Container)) (p : Progress) (l : List Event) : Prop where
  allowed : Each Allowed l
  listed : .listContainers (.ok cs) ∈ l
  once : ∀ r, .listContainers r ∈ l → r = .ok cs
  known : ∀ r, .listPodSandboxes r ∈ l → r ∈ known
  settled : ∀ c, some c ∈ done → c.Labeled →
    Gone l (.removeContainer c.id) ∨ ∀ x ∈ containerSandboxIDs c, x ∈ p.protectedSandboxes
  clean : p.releaseErr = none → p.protectedSandboxes = []
  gone : p.releaseErr = none → ∀ c, some c ∈ done → c.Labeled → Gone l (.removeContainer c.id)

section Settled

variable {known : List (Except Str (List (Option PodSandbox)))} {cs done : List (Option Container)}
  {p : Progress} {l : List Event} {c : Container}

section

variable (h : Settled known cs done p l)

include h

theorem Settled.call {call : Call} {err : Option Str}
    (hcall : Allowed l (.call call err)) : Settled known cs done p (l ++ [.call call err]) where
  allowed := each_concat.mpr ⟨h.allowed, hcall⟩
  listed := List.mem_append_left _ h.listed
  once r hr := h.once r (by simpa using hr)
  known r hr := h.known r (by simpa using hr)
  settled c hc hlabel := (h.settled c hc hlabel).imp_left (·.concat _)
  clean := h.clean
  gone hnone c hc hlabel := (h.gone hnone c hc hlabel).concat _

theorem Settled.pass {entry : Option Container}
    (hentry : ∀ c, entry = some c → ¬ c.Labeled) : Settled known cs (done ++ [entry]) p l := by
  have hmem : ∀ c, some c ∈ done ++ [entry] → c.Labeled → some c ∈ done := by
    intro c hc hlabel
    rw [List.mem_append, List.mem_singleton] at hc
    exact hc.resolve_right fun heq => hentry c heq.symm hlabel
  exact { h with
    settled := fun c hc hlabel => h.settled c (hmem c hc hlabel) hlabel
    gone := fun hnone c hc hlabel => h.gone hnone c (hmem c hc hlabel) hlabel }

theorem Settled.leave (what : String) (err : Option Str) :
    Settled known cs (done ++ [some c]) (p.leave c (wrap what c.id err)) l where
  allowed := h.allowed
  listed := h.listed
  once := h.once
  known := h.known
  settled c' hc' hlabel := by
    rw [List.mem_append, List.mem_singleton] at hc'
    rcases hc' with hc' | hc'
    · refine (h.settled c' hc' hlabel).imp_right fun hall x hx => ?_
      exact mem_protectSandboxes.mpr (.inl (hall x hx))
    · cases hc'
      exact .inr fun x hx => mem_protectSandboxes.mpr (.inr hx)
  clean hnone := by cases hnone
  gone hnone := by cases hnone

theorem Settled.release (hgone : Gone l (.removeContainer c.id)) (ids : List (List Str)) :
    Settled known cs (done ++ [some c]) { p with releasedContainers := ids } l where
  allowed := h.allowed
  listed := h.listed
  once := h.once
  known := h.known
  settled c' hc' hlabel := by
    rw [List.mem_append, List.mem_singleton] at hc'
    rcases hc' with hc' | hc'
    · exact h.settled c' hc' hlabel
    · cases hc'
      exact .inl hgone
  clean := h.clean
  gone hnone c' hc' hlabel := by
    rw [List.mem_append, List.mem_singleton] at hc'
    rcases hc' with hc' | hc'
    · exact h.gone hnone c' hc' hlabel
    · cases hc'
      exact hgone

end

/-- **One container.** -/
theorem releaseContainer_settled (rt : Runtime) (timeout : ℤ) {entry : Option Container}
    (hentry : entry ∈ cs) :
    Triple (Settled known cs done p) (releaseContainer rt timeout p entry)
      (Settled known cs (done ++ [entry])) := by
  unfold releaseContainer
  cases entry with
  | none => exact triple_pure fun l h => h.pass fun c hc => by cases hc
  | some c =>
    refine Triple.ite (fun hid => triple_pure fun l h => h.pass ?_) fun hid => ?_
    · rintro _ ⟨⟩ hlabel
      exact hlabel.1 hid
    refine Triple.ite (fun huid => triple_pure fun l h => h.pass ?_) fun huid => ?_
    · rintro _ ⟨⟩ hlabel
      exact hlabel.2 huid
    have hlisted : ∀ l, Settled known cs done p l → ∃ c', ListedContainer l c' ∧ c'.id = c.id :=
      fun l h => ⟨c, ⟨cs, h.listed, hentry, hid, huid⟩, rfl⟩
    refine Triple.bind (R := fun _ => Settled known cs done p) ?_ fun stopErr => ?_
    · unfold stopContainer
      refine Triple.ite (fun _ => triple_ask fun _ l h => h.call (hlisted l h)) fun _ => ?_
      exact triple_return
    refine Triple.ite (fun _ => triple_pure fun l h => h.leave _ _) fun _ => ?_
    refine Triple.bind (triple_ask (Q := fun err l => Settled known cs done p l ∧
      (failed err = false → Gone l (.removeContainer c.id))) fun err l h =>
        ⟨h.call (hlisted l h), gone_concat⟩) fun removeErr => ?_
    refine Triple.ite (fun _ => triple_pure fun l h => h.1.leave _ _) fun hok => ?_
    exact triple_pure fun l h => h.1.release (h.2 (by simpa using hok)) _

theorem settled_start (cs : List (Option Container)) :
    Settled [] cs [] ⟨[], [], none⟩ [.listContainers (.ok cs)] where
  allowed := each_concat.mpr ⟨each_nil, trivial⟩
  listed := List.mem_singleton_self _
  once r hr := by simpa using hr
  known r hr := by simp at hr
  settled c hc := by cases hc
  clean _ := rfl
  gone _ c hc := by cases hc

end Settled

/-! ## The sandboxes -/

/-- **The invariant of the second half**, when it has gone through some of the sandboxes. -/
structure Cleared (known : List (Except Str (List (Option PodSandbox))))
    (cs : List (Option Container)) (p : Progress) (done : List Str) (err : Option Str)
    (l : List Event) : Prop extends Settled known cs cs p l where
  unchanged : err = none → p.releaseErr = none
  cleared : err = none → ∀ x ∈ done, x ∈ p.protectedSandboxes ∨ Gone l (.removePodSandbox x)

section Cleared

variable {known : List (Except Str (List (Option PodSandbox)))} {cs : List (Option Container)}
  {p : Progress} {done : List Str} {err : Option Str} {l : List Event} {x : Str}

theorem Settled.unused (h : Settled known cs cs p l) (hne : x ≠ [])
    (hx : x ∉ p.protectedSandboxes) : Unused l x := by
  rintro c ⟨cs', hcs', hc, hlabel⟩ href
  cases h.once _ hcs'
  refine (h.settled c hc hlabel).resolve_right fun hall => hx (hall x ?_)
  exact mem_containerSandboxIDs.mpr ⟨hne, href⟩

section

variable (h : Cleared known cs p done err l)

include h

theorem Cleared.call {call : Call} {answer : Option Str} (hcall : Allowed l (.call call answer)) :
    Cleared known cs p done err (l ++ [.call call answer]) where
  toSettled := h.toSettled.call hcall
  unchanged := h.unchanged
  cleared hnone y hy := (h.cleared hnone y hy).imp_right (·.concat _)

theorem Cleared.fail (done' : List Str) (text : Str) : Cleared known cs p done' (some text) l where
  toSettled := h.toSettled
  unchanged hnone := by cases hnone
  cleared hnone := by cases hnone

theorem Cleared.clear (hx : x ∈ p.protectedSandboxes ∨ Gone l (.removePodSandbox x)) :
    Cleared known cs p (done ++ [x]) err l where
  toSettled := h.toSettled
  unchanged := h.unchanged
  cleared hnone y hy := by
    rw [List.mem_append, List.mem_singleton] at hy
    rcases hy with hy | rfl
    · exact h.cleared hnone y hy
    · exact hx

end

/-- **One sandbox.** -/
theorem releaseSandbox_cleared (rt : Runtime) (hne : x ≠ []) :
    Triple (Cleared known cs p done err) (releaseSandbox rt p.protectedSandboxes err x)
      (Cleared known cs p (done ++ [x])) := by
  unfold releaseSandbox
  refine Triple.ite (fun hx => triple_pure fun l h => h.clear (.inl ?_)) fun hx => ?_
  · rwa [List.contains_iff_mem] at hx
  rw [List.contains_iff_mem] at hx
  refine Triple.bind (R := fun _ => Cleared known cs p done err)
    (triple_ask fun _ l h => h.call (h.toSettled.unused hne hx)) fun stopErr => ?_
  refine Triple.ite (fun _ => triple_pure fun l h => h.fail _ _) fun _ => ?_
  refine Triple.bind (triple_ask (Q := fun answer l => Cleared known cs p done err l ∧
    (failed answer = false → Gone l (.removePodSandbox x))) fun answer l h =>
      ⟨h.call (h.toSettled.unused hne hx), gone_concat⟩) fun removeErr => ?_
  refine Triple.ite (fun _ => triple_pure fun l h => h.1.fail _ _) fun hok => ?_
  exact triple_pure fun l h => h.1.clear (.inr (h.2 (by simpa using hok)))

theorem Cleared.released {ss : List (Option PodSandbox)} (h : Cleared [.ok ss] cs p done err l)
    (hdone : ∀ s, some s ∈ ss → s.Labeled → s.id ∉ p.protectedSandboxes → trimSpace s.id ∈ done) :
    Released err l where
  allowed := h.allowed
  containers hnone := by
    rintro c ⟨cs', hcs', hc, hlabel⟩
    cases h.once _ hcs'
    exact h.gone (h.unchanged hnone) c hc hlabel
  sandboxes hnone := by
    rintro s ⟨ss', hss', hs, hlabel⟩
    cases List.mem_singleton.mp (h.known _ hss')
    have hclean := h.clean (h.unchanged hnone)
    have hmem := hdone s hs hlabel (by simp [hclean])
    exact (h.cleared hnone _ hmem).resolve_left (by simp [hclean])

end Cleared

/-! ## A release -/

theorem releaseSandboxes_released (rt : Runtime) (cs : List (Option Container)) (p : Progress) :
    Triple (Settled [] cs cs p) (releaseSandboxes rt p) Released := by
  unfold releaseSandboxes
  refine Triple.bind (triple_ask (Q := fun r => Settled [r] cs cs p) fun r l h => ?_) fun r => ?_
  · exact {
      allowed := each_concat.mpr ⟨h.allowed, trivial⟩
      listed := List.mem_append_left _ h.listed
      once := fun r' hr' => h.once r' (by simpa using hr')
      known := fun r' hr' => by
        rw [List.mem_append, List.mem_singleton] at hr'
        rcases hr' with hr' | hr'
        · cases h.known r' hr'
        · cases hr'
          exact List.mem_singleton_self _
      settled := fun c hc hlabel => (h.settled c hc hlabel).imp_left (·.concat _)
      clean := h.clean
      gone := fun hnone c hc hlabel => (h.gone hnone c hc hlabel).concat _ }
  cases r with
  | error err =>
    exact triple_pure fun l h =>
      ⟨h.allowed, (nomatch ·), (nomatch ·)⟩
  | ok ss =>
    have hne : ∀ x ∈ ss.foldl (rememberSandbox p.protectedSandboxes) (referencedSandboxes p),
        x ≠ [] := by
      intro x hx
      obtain hx | ⟨s, -, hlabel, -, rfl⟩ := mem_foldl_rememberSandbox.mp hx
      · exact ne_nil_of_mem_referencedSandboxes hx
      · exact hlabel.1
    have hstep : ∀ done x rest err,
        (ss.foldl (rememberSandbox p.protectedSandboxes) (referencedSandboxes p)).mergeSort
            strLe = done ++ x :: rest →
          Triple (Cleared [.ok ss] cs p done err) (releaseSandbox rt p.protectedSandboxes err x)
            (Cleared [.ok ss] cs p (done ++ [x])) := by
      intro done x rest err heq
      refine releaseSandbox_cleared rt (hne x ?_)
      rw [← List.mem_mergeSort, heq]
      simp
    refine ((Triple.foldlM hstep p.releaseErr).pre fun l h => ?_).post fun err l h => ?_
    · exact { toSettled := h, unchanged := id, cleared := fun _ x hx => by cases hx }
    · exact h.released fun s hs hlabel hblocked =>
        List.mem_mergeSort.mpr (mem_foldl_rememberSandbox.mpr (.inr ⟨s, hs, hlabel, hblocked, rfl⟩))

/-- **A release is safe**: whatever the runtime holds and whatever it answers. -/
theorem release_safe (runtime : Option Runtime) (stopTimeoutSec : ℤ) :
    Released (releaseLabeledWorkloads runtime stopTimeoutSec []).1
      (releaseLabeledWorkloads runtime stopTimeoutSec []).2 := by
  have hempty : Released none [] := by
    refine ⟨each_nil, ?_, ?_⟩
    · rintro - c ⟨_, h, -⟩
      cases h
    · rintro - s ⟨_, h, -⟩
      cases h
  have htriple : Triple (· = []) (releaseLabeledWorkloads runtime stopTimeoutSec) Released := by
    cases runtime with
    | none => exact triple_pure fun l hl => hl ▸ hempty
    | some rt =>
      refine Triple.ite (fun _ => triple_pure fun l hl => hl ▸ hempty) fun _ => ?_
      refine Triple.bind (triple_emit (Q := fun _ l => l = [.listContainers rt.listContainers])
        fun l hl => by rw [hl, List.nil_append]) fun _ => ?_
      cases hlist : rt.listContainers with
      | error err =>
        refine triple_pure fun l hl => ⟨?_, (nomatch ·), (nomatch ·)⟩
        rw [hl]
        exact each_concat.mpr ⟨each_nil, trivial⟩
      | ok cs =>
        have hstep : ∀ done entry rest p, cs = done ++ entry :: rest →
            Triple (Settled [] cs done p)
              (releaseContainer rt (if stopTimeoutSec ≤ 0 then 1 else stopTimeoutSec) p entry)
              (Settled [] cs (done ++ [entry])) := by
          intro done entry rest p heq
          exact releaseContainer_settled rt _ (by simp [heq])
        refine Triple.bind ((Triple.foldlM hstep _).pre fun l hl => ?_)
          (releaseSandboxes_released rt cs)
        subst hl
        exact settled_start cs
  exact htriple [] rfl

end Edgelet.CRI
