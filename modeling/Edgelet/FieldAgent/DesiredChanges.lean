import Edgelet.CRI.Release
import Edgelet.Codec.JsonText
import Edgelet.ContainerApply.Label
import Edgelet.FieldAgent.ParseMicroservice

/-!
# Changes of the desired list

A new list of microservices is compared with the one before it by signatures, the JSON texts of some
of the fields, and what has changed is marked. The containers whose microservice is not in the list
are removed, also where an entry of the answer could not be parsed.

A signature is the document that its text spells. A nil pointer of the list is passed over.
-/

namespace Edgelet.FieldAgent

open Lexical Json Models ContainerApply

/-! ## Signatures -/

structure DesiredView where
  image : Str
  registryID : ℤ
  hostNetwork : Bool
  env : Str
  ports : Str
  fingerprint : Str
  modelItems : List Str
  knowledgeItems : List Str
  delete : Bool
  deleteWithCleanup : Bool
  rebuild : Bool

section Codec

open Fields

def DesiredView.codec : Codec DesiredView :=
  .struct
    ((omitEmpty "image".toList (·.image) .str).and <|
      (omitEmpty "registryId".toList (·.registryID) .int).and <|
      (omitEmpty "hostNetwork".toList (·.hostNetwork) .bool).and <|
      (omitEmpty "env".toList (·.env) .str).and <|
      (omitEmpty "ports".toList (·.ports) .str).and <|
      (omitEmpty "fingerprint".toList (·.fingerprint) .str).and <|
      (omitEmpty "modelItems".toList (·.modelItems) (.list .str)).and <|
      (omitEmpty "knowledgeItems".toList (·.knowledgeItems) (.list .str)).and <|
      (omitEmpty "delete".toList (·.delete) .bool).and <|
      (omitEmpty "deleteWithCleanup".toList (·.deleteWithCleanup) .bool).and <|
      omitEmpty "rebuild".toList (·.rebuild) .bool)
    fun (image, registryID, hostNetwork, env, ports, fingerprint, modelItems, knowledgeItems,
        delete, deleteWithCleanup, rebuild) =>
      { image, registryID, hostNetwork, env, ports, fingerprint, modelItems, knowledgeItems,
        delete, deleteWithCleanup, rebuild }

end Codec

def jsonCompact {α : Type} (c : Codec α) : List α → Str
  | [] => []
  | as => print ((Codec.list c).encode as)

def catalogItemNames (c : Option Catalog) : List Str :=
  (((c.map (·.items)).getD []).map (trimSpace ·.name)).filter (· ≠ [])

section

variable (p : Platform) (list : List (Option Microservice)) (ms : Microservice)

def desiredView : DesiredView where
  image := trimSpace ms.imageName
  registryID := ms.registryID
  hostNetwork := ms.hostNetworkMode
  env := jsonCompact EnvVar.codec ms.envVars
  ports := jsonCompact PortMapping.codec ms.portMappings
  fingerprint := print (marshal (fromMicroservice p ms))
  modelItems := catalogItemNames ms.models
  knowledgeItems := catalogItemNames ms.knowledge
  delete := ms.delete
  deleteWithCleanup := ms.deleteWithCleanup
  rebuild := ms.rebuild

def desiredSignature : Value ℤ :=
  DesiredView.codec.encode (desiredView p ms)

def desiredNeedsWake (sig : Value ℤ) : Bool :=
  match DesiredView.codec.decode sig with
  | none => true
  | some view => view.delete || view.rebuild

abbrev Desired := List (Str × Value ℤ)

def addDesired (next : Desired) : Option Microservice → Desired
  | none => next
  | some ms =>
    let uuid := trimSpace ms.microserviceUUID
    if uuid = [] ∨ (next.lookup uuid).isSome then next
    else next ++ [(uuid, desiredSignature p ms)]

def desiredOf : Desired :=
  list.foldl (addDesired p) []

def changed (old sig : Option (Value ℤ)) : Bool :=
  old.map print ≠ sig.map print || (sig.map desiredNeedsWake).getD true

def replaceLatestMicroservices (prev : Desired) (list : List (Option Microservice)) :
    Desired × List Str :=
  let next := desiredOf p list
  (next, ((next.map Prod.fst).filter fun uuid => changed (prev.lookup uuid) (next.lookup uuid)) ++
    (prev.map Prod.fst).filter fun uuid => (next.lookup uuid).isNone)

/-! ## What is marked -/

def entry (uuid : Str) : Option Microservice :=
  list.findSome? (·.filter fun ms => trimSpace ms.microserviceUUID = uuid ∧ uuid ≠ [])

def creation : Microservice × Fingerprint :=
  ({ microserviceUUID := []
     imageName := ms.imageName
     registryID := ms.registryID
     hostNetworkMode := ms.hostNetworkMode
     envVars := ms.envVars
     portMappings := ms.portMappings
     volumeMappings := ms.volumeMappings
     memoryLimit := ms.memoryLimit
     cpuSetCpus := ms.cpuSetCpus
     capAdd := ms.capAdd
     capDrop := ms.capDrop
     isPrivileged := ms.isPrivileged
     runAsUser := ms.runAsUser
     extraHosts := ms.extraHosts
     pidMode := ms.pidMode
     ipcMode := ms.ipcMode
     runtime := ms.runtime
     platform := ms.platform
     annotations := ms.annotations
     cdiDevs := ms.cdiDevs
     healthcheck := ms.healthcheck
     logSize := ms.logSize }, fromMicroservice p ms)

def marks (old new : List (Option Microservice)) : List Str :=
  (replaceLatestMicroservices p (desiredOf p old) new).2

end

/-- **The marks are complete**: what is in one list only is marked, and what is in both with another
field that the creation reads; what is the same and neither deleted nor rebuilt is not. -/
structure Complete (p : Platform) (old new : List (Option Microservice)) : Prop where
  one : ∀ uuid, (entry old uuid).isSome ≠ (entry new uuid).isSome → uuid ∈ marks p old new
  differ : ∀ uuid o n, entry old uuid = some o → entry new uuid = some n →
    creation p o ≠ creation p n → uuid ∈ marks p old new
  same : ∀ uuid ms, entry old uuid = some ms → entry new uuid = some ms → ms.delete = false →
    ms.rebuild = false → uuid ∉ marks p old new

section Marks

variable {p : Platform} {old new : List (Option Microservice)} {uuid : Str}

theorem lookup_addDesired (next : Desired) (ms : Option Microservice) :
    (addDesired p next ms).lookup uuid = (next.lookup uuid).or ((ms.filter fun ms =>
      trimSpace ms.microserviceUUID = uuid ∧ uuid ≠ []).map (desiredSignature p)) := by
  cases ms with
  | none => simp [addDesired]
  | some ms =>
    by_cases huuid : trimSpace ms.microserviceUUID = uuid
    · subst huuid
      cases hnext : next.lookup (trimSpace ms.microserviceUUID) with
      | some sig => simp [addDesired, hnext]
      | none =>
        by_cases hblank : trimSpace ms.microserviceUUID = []
        · simp [addDesired, hblank, ← hnext]
        · simp [addDesired, hblank, hnext, List.lookup_append]
    · have hne : (uuid == trimSpace ms.microserviceUUID) = false := by simpa using Ne.symm huuid
      have hnone : (some ms).filter (fun ms => trimSpace ms.microserviceUUID = uuid ∧ uuid ≠ []) =
          none := by simp [Option.filter, huuid]
      rw [hnone, addDesired]
      split <;> simp [List.lookup_append, List.lookup_cons, hne]

theorem lookup_desiredOf (list : List (Option Microservice)) :
    (desiredOf p list).lookup uuid = (entry list uuid).map (desiredSignature p) := by
  have hfold : ∀ next : Desired, (list.foldl (addDesired p) next).lookup uuid =
      (next.lookup uuid).or ((entry list uuid).map (desiredSignature p)) := by
    induction list with
    | nil => simp [entry]
    | cons ms list ih =>
      intro next
      rw [List.foldl_cons, ih, lookup_addDesired, Option.or_assoc]
      simp only [entry, List.findSome?_cons]
      cases ms.filter _ <;> rfl
  exact hfold []

theorem mem_keys_iff {d : Desired} : uuid ∈ d.map Prod.fst ↔ (d.lookup uuid).isSome := by
  rw [← not_iff_not, Bool.not_eq_true, Option.isSome_eq_false_iff, Option.isNone_iff_eq_none,
    List.lookup_eq_none_iff]
  simp only [List.mem_map, not_exists, not_and, bne_iff_ne]
  exact forall₂_congr fun _ _ => ne_comm

theorem signature_eq_iff {o n : Microservice} :
    print (desiredSignature p o) = print (desiredSignature p n) ↔
      desiredView p o = desiredView p n := by
  constructor
  · intro h
    have hdecode := congrArg DesiredView.codec.decode (print_injective h)
    simpa [desiredSignature, DesiredView.codec.decode_encode] using hdecode
  · intro h
    rw [desiredSignature, h, desiredSignature]

theorem desiredNeedsWake_signature (ms : Microservice) :
    desiredNeedsWake (desiredSignature p ms) = (ms.delete || ms.rebuild) := by
  rw [desiredNeedsWake, desiredSignature, DesiredView.codec.decode_encode]
  rfl

theorem mem_marks_iff : uuid ∈ marks p old new ↔
    ((entry old uuid).isSome ≠ (entry new uuid).isSome) ∨
      ∃ o n, entry old uuid = some o ∧ entry new uuid = some n ∧
        (desiredView p o = desiredView p n → n.delete = true ∨ n.rebuild = true) := by
  simp only [marks, replaceLatestMicroservices, List.mem_append, List.mem_filter, mem_keys_iff,
    lookup_desiredOf]
  cases entry old uuid with
  | none => cases entry new uuid <;> simp [changed]
  | some o =>
    cases entry new uuid with
    | none => simp
    | some n =>
      simp only [changed, Option.map_some, Option.getD_some, Option.isSome_some,
        desiredNeedsWake_signature, Bool.or_eq_true, decide_eq_true_eq, ne_eq, Option.some.injEq,
        signature_eq_iff]
      by_cases hview : desiredView p o = desiredView p n <;> simp [hview]

/-- **When the marks are complete**: exactly when no microservice that is neither deleted nor
rebuilt changes in what the creation reads without a change of its signature. -/
theorem complete_iff (p : Platform) (old new : List (Option Microservice)) : Complete p old new ↔
    ∀ uuid o n, entry old uuid = some o → entry new uuid = some n →
      desiredView p o = desiredView p n → n.delete = false → n.rebuild = false →
      creation p o = creation p n := by
  constructor
  · intro hc uuid o n ho hn hview hdelete hrebuild
    by_contra hne
    rcases mem_marks_iff.mp (hc.differ uuid o n ho hn hne) with hone | ⟨o', n', ho', hn', hwake⟩
    · simp [ho, hn] at hone
    · rw [ho] at ho'
      rw [hn] at hn'
      cases ho'
      cases hn'
      simpa [hdelete, hrebuild] using hwake hview
  · intro hall
    refine ⟨fun uuid hone => mem_marks_iff.mpr (.inl hone), fun uuid o n ho hn hne => ?_,
      fun uuid ms ho hn hdelete hrebuild hmem => ?_⟩
    · refine mem_marks_iff.mpr (.inr ⟨o, n, ho, hn, fun hview => ?_⟩)
      by_contra hwake
      rw [not_or, Bool.not_eq_true, Bool.not_eq_true] at hwake
      exact hne (hall uuid o n ho hn hview hwake.1 hwake.2)
    · rcases mem_marks_iff.mp hmem with hone | ⟨o', n', ho', hn', hwake⟩
      · simp [ho, hn] at hone
      · rw [ho] at ho'
        rw [hn] at hn'
        cases ho'
        cases hn'
        simpa [hdelete, hrebuild] using hwake rfl

end Marks

def web (isPrivileged : Bool) : Microservice where
  microserviceUUID := "a".toList
  imageName := "web".toList
  isPrivileged := isPrivileged

/-- **A change that is not marked**: the container is to be privileged, and nothing is marked. -/
theorem privilege_unmarked :
    marks .ascii [some (web false)] [some (web true)] = [] ∧
      ¬ Complete .ascii [some (web false)] [some (web true)] := by
  have hmarks : marks .ascii [some (web false)] [some (web true)] = [] := of_decide_eq_true rfl
  refine ⟨hmarks, fun hc => ?_⟩
  have hmem := hc.differ "a".toList (web false) (web true) rfl rfl
    fun h => nomatch congrArg (·.1.isPrivileged) h
  rw [hmarks] at hmem
  cases hmem

/-! ## Remaining microservices -/

structure RunningContainer where
  labels : List (Str × Str)
  id : Str
  image : Str
  deriving DecidableEq

/-- What the removal depends on besides the lists: whether a container is the agent's own or the
control plane, which is decided by its image, and whether the watchdog is enabled. -/
structure Watchdog where
  isEdgeletSelf : RunningContainer → Bool
  isControllerWorkload : RunningContainer → Bool
  watchdogEnabled : Bool

variable (p : Platform) (labels : List (Str × Str)) (answer : List (Value ℚ)) (uuid : Str)
  (w : Watchdog)

def labelIs (key word : String) : Bool :=
  (trimSpace (CRI.label labels key.toList)).map Char.toLower = word.toList

def isManagedByIofog : Bool :=
  labelIs labels "app.kubernetes.io/managed-by" "edgelet" &&
    CRI.microserviceUIDFromLabels labels ≠ []

def isSystemWorkload : Bool :=
  labelIs labels "edgelet.iofog.org/system" "true"

def isControllerRole : Bool :=
  p.toLower (trimSpace (CRI.label labels "edgelet.iofog.org/role".toList)) = "controller".toList

def cleanupDecision (c : RunningContainer) (isCurrent isLatest : Bool) : Bool × Bool :=
  if w.isEdgeletSelf c then (false, false)
  else if isControllerRole p c.labels && w.isControllerWorkload c then (false, false)
  else if !isControllerRole p c.labels && isSystemWorkload c.labels then (false, false)
  else if !isLatest && isManagedByIofog c.labels &&
      !labelIs c.labels "edgelet.iofog.org/scope" "local" then (true, false)
  else if !isCurrent && !isLatest && w.watchdogEnabled then (false, true)
  else (false, false)

def isListed (list : List Microservice) (uuid : Str) : Bool :=
  list.any (·.microserviceUUID == uuid)

def deleteRemainingMicroservices (latest current : List Microservice)
    (containers : List RunningContainer) : List Str × List RunningContainer :=
  let labelled := containers.filter (CRI.microserviceUIDFromLabels ·.labels ≠ [])
  let decision (c : RunningContainer) :=
    cleanupDecision p w c (isListed current (CRI.microserviceUIDFromLabels c.labels))
      (isListed latest (CRI.microserviceUIDFromLabels c.labels))
  ((labelled.filter fun c => (decision c).1).map (CRI.microserviceUIDFromLabels ·.labels),
    labelled.filter fun c => !(decision c).1 && (decision c).2)

/-! ## Entries that cannot be parsed -/

def InAnswer : Prop :=
  ∃ data ∈ objects answer, str? data "uuid" = some uuid

/-- The microservice is taken for one that is not desired any more once the answer is loaded: by the
comparison with the list before, or by the removal of containers. -/
def TakenAway (before : List (Option Microservice)) (answer : List (Value ℚ))
    (ms : Microservice) : Prop :=
  let list := parseMicroservices p answer
  let next := (replaceLatestMicroservices p (desiredOf p before) (list.map some)).1
  let uuid := trimSpace ms.microserviceUUID
  (((desiredOf p before).lookup uuid).isSome ∧ (next.lookup uuid).isNone) ∨
    ∃ w containers,
      ms.microserviceUUID ∈ (deleteRemainingMicroservices p w list list containers).1 ∨
      ∃ c ∈ (deleteRemainingMicroservices p w list list containers).2,
        CRI.microserviceUIDFromLabels c.labels = ms.microserviceUUID

/-- Some entry of the answer with the identifier can be parsed. The comparison takes identifiers
without the space around them, the labels of a container never have any. -/
def Parsed : Prop :=
  (trimSpace uuid ≠ [] → ∃ ms ∈ parseMicroservices p answer,
      trimSpace ms.microserviceUUID = trimSpace uuid) ∧
    (trimSpace uuid = uuid → uuid ≠ [] → ∃ ms ∈ parseMicroservices p answer,
      ms.microserviceUUID = uuid)

section Taken

variable {p : Platform} {before : List (Option Microservice)} {answer : List (Value ℚ)}
  {list : List Microservice} {uuid : Str}

theorem isSome_entry_iff (list : List (Option Microservice)) : (entry list uuid).isSome ↔
    uuid ≠ [] ∧ ∃ ms, some ms ∈ list ∧ trimSpace ms.microserviceUUID = uuid := by
  rw [entry, List.findSome?_isSome_iff]
  constructor
  · rintro ⟨ms, hmem, hsome⟩
    obtain ⟨found, hfound⟩ := Option.isSome_iff_exists.mp hsome
    obtain ⟨rfl, hkey⟩ := Option.filter_eq_some_iff.mp hfound
    rw [decide_eq_true_eq] at hkey
    exact ⟨hkey.2, found, hmem, hkey.1⟩
  · rintro ⟨hne, ms, hmem, huuid⟩
    exact ⟨some ms, hmem, by simp [Option.filter, huuid, hne]⟩

theorem cleanupDecision_latest (w : Watchdog) (c : RunningContainer) (isCurrent : Bool) :
    cleanupDecision p w c isCurrent true = (false, false) := by
  simp [cleanupDecision]

theorem exists_removed_iff : (∃ w containers,
      uuid ∈ (deleteRemainingMicroservices p w list list containers).1 ∨
      ∃ c ∈ (deleteRemainingMicroservices p w list list containers).2,
        CRI.microserviceUIDFromLabels c.labels = uuid) ↔
    trimSpace uuid = uuid ∧ uuid ≠ [] ∧ ¬ ∃ ms ∈ list, ms.microserviceUUID = uuid := by
  constructor
  · rintro ⟨w, containers, hremoved⟩
    obtain ⟨c, hlabel, hne, hdecision⟩ : ∃ c : RunningContainer,
        CRI.microserviceUIDFromLabels c.labels = uuid ∧ uuid ≠ [] ∧
          cleanupDecision p w c (isListed list uuid) (isListed list uuid) ≠ (false, false) := by
      simp only [deleteRemainingMicroservices, List.mem_map, List.mem_filter,
        decide_eq_true_eq, Bool.and_eq_true] at hremoved
      rcases hremoved with ⟨c, ⟨⟨-, hne⟩, hby⟩, rfl⟩ | ⟨c, ⟨⟨-, hne⟩, -, hby⟩, rfl⟩
      · exact ⟨c, rfl, hne, fun heq => by rw [heq] at hby; cases hby⟩
      · exact ⟨c, rfl, hne, fun heq => by rw [heq] at hby; cases hby⟩
    refine ⟨hlabel ▸ trimSpace_trimSpace _, hne, fun ⟨ms, hms, huuid⟩ => hdecision ?_⟩
    have hlisted : isListed list uuid = true :=
      List.any_eq_true.mpr ⟨ms, hms, beq_iff_eq.mpr huuid⟩
    rw [hlisted, cleanupDecision_latest]
  · rintro ⟨htrim, hne, hnot⟩
    let c : RunningContainer := ⟨[(CRI.labelMicroserviceUID, uuid),
      ("app.kubernetes.io/managed-by".toList, "edgelet".toList)], [], []⟩
    have hlabel : CRI.microserviceUIDFromLabels c.labels = uuid := htrim
    have hlisted : isListed list uuid = false := by
      rw [isListed, List.any_eq_false]
      exact fun ms hms huuid => hnot ⟨ms, hms, beq_iff_eq.mp huuid⟩
    have hdecision : cleanupDecision p ⟨fun _ => false, fun _ => false, false⟩ c false false =
        (true, false) := by
      have hrole : isControllerRole p c.labels = false := rfl
      have hsystem : isSystemWorkload c.labels = false := rfl
      have hword : labelIs c.labels "app.kubernetes.io/managed-by" "edgelet" = true := rfl
      have hscope : labelIs c.labels "edgelet.iofog.org/scope" "local" = false := rfl
      simp [cleanupDecision, isManagedByIofog, hrole, hsystem, hword, hscope, hlabel, hne]
    refine ⟨⟨fun _ => false, fun _ => false, false⟩, [c], .inl ?_⟩
    simp only [deleteRemainingMicroservices, List.mem_map, List.mem_filter]
    refine ⟨c, ⟨⟨List.mem_singleton_self c, ?_⟩, ?_⟩, hlabel⟩
    · simpa [hlabel] using hne
    · rw [hlabel, hlisted, hdecision]

theorem takenAway_iff {ms : Microservice} (hms : some ms ∈ before) :
    TakenAway p before answer ms ↔ ¬ Parsed p answer ms.microserviceUUID := by
  have hbefore : (entry before (trimSpace ms.microserviceUUID)).isSome ↔
      trimSpace ms.microserviceUUID ≠ [] :=
    (isSome_entry_iff before).trans ⟨And.left, fun hne => ⟨hne, ms, hms, rfl⟩⟩
  have hafter : (entry ((parseMicroservices p answer).map some)
      (trimSpace ms.microserviceUUID)).isNone ↔ (trimSpace ms.microserviceUUID ≠ [] →
        ¬ ∃ ms' ∈ parseMicroservices p answer,
          trimSpace ms'.microserviceUUID = trimSpace ms.microserviceUUID) := by
    rw [← Option.not_isSome, Bool.not_eq_true', ← Bool.not_eq_true, isSome_entry_iff]
    simp
  simp only [TakenAway, Parsed, replaceLatestMicroservices, lookup_desiredOf, Option.isSome_map,
    Option.isNone_map, exists_removed_iff, hbefore, hafter, not_and_or, Classical.not_imp]
  exact or_congr_left (and_congr_right fun hne => by simp [hne])

end Taken

/-- **When no entry is taken for a deletion**: no microservice that was desired and whose identifier
is in the answer is taken away if and only if each of them has an entry that can be parsed. -/
theorem kept_iff (p : Platform) (before : List (Option Microservice)) (answer : List (Value ℚ)) :
    (∀ ms, some ms ∈ before → InAnswer answer ms.microserviceUUID →
        ¬ TakenAway p before answer ms) ↔
      ∀ ms, some ms ∈ before → InAnswer answer ms.microserviceUUID →
        Parsed p answer ms.microserviceUUID :=
  forall₃_congr fun _ hms _ => by rw [takenAway_iff hms, not_not]

def malformedEntry : Value ℚ :=
  .obj [("uuid".toList, .str "a".toList), ("imageId".toList, .str "web".toList),
    ("supplementalGroups".toList, .str "audio".toList)]

def webContainer : RunningContainer where
  labels := [(CRI.labelMicroserviceUID, "a".toList),
    ("app.kubernetes.io/managed-by".toList, "edgelet".toList)]
  id := "c1".toList
  image := "web".toList

/-- **A malformed entry takes the workload down**: the answer still has the microservice, its groups
cannot be parsed, it is marked as one that is gone, and its container is removed. -/
theorem malformed_removed :
    let list := parseMicroservices .ascii [malformedEntry]
    InAnswer [malformedEntry] (web false).microserviceUUID ∧
      marks .ascii [some (web false)] (list.map some) = ["a".toList] ∧
      deleteRemainingMicroservices .ascii ⟨fun _ => false, fun _ => false, false⟩ list list
        [webContainer] = (["a".toList], []) ∧
      TakenAway .ascii [some (web false)] [malformedEntry] (web false) := by
  refine ⟨⟨_, List.mem_singleton_self _, rfl⟩, of_decide_eq_true rfl, of_decide_eq_true rfl, ?_⟩
  exact .inl ⟨rfl, rfl⟩

end Edgelet.FieldAgent
