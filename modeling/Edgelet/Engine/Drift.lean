import Mathlib.Data.List.Dedup
import Mathlib.Data.Prod.Lex
import Edgelet.Keyed.Canonical
import Edgelet.Store.Microservices

/-!
# Containers that differ from what is desired

Both engines compare a container with its microservice, and a difference leads to a new container.
The embedded engine asks whether every pair of ports is one of those in a label; it neither counts
them nor looks at the protocol. The Docker engine sorts the mappings of both sides by the ports
alone, while the bindings come out of a map, and it expects every variable to be in the container,
where one that is given twice has one value and the agent's own are not given.
-/

namespace Edgelet.Engine

open Lexical Keyed Models Store

/-! ## The embedded engine -/

namespace Embedded

def ports (p : PortMapping) : ℤ × ℤ := (p.outside, p.inside)

def portMappingsEqual (a b : List PortMapping) : Bool :=
  a.length = b.length && b.all fun p => (a.map ports).contains (ports p)

def storedPorts (label : Option Doc) : List PortMapping :=
  (label.map (readJSON (.list PortMapping.codec) [])).getD []

def portsLabel (ports : List PortMapping) : Doc := (Json.Codec.list PortMapping.codec).encode ports

def matchContainerInfo (ms : Microservice) (image hostNetwork applied : Bool)
    (label : Option Doc) : Bool :=
  image && (ms.hostNetworkMode || portMappingsEqual (storedPorts label) ms.portMappings) &&
    ms.hostNetworkMode == hostNetwork && applied

variable {a b : List PortMapping}

theorem portMappingsEqual_iff : portMappingsEqual a b = true ↔
    a.length = b.length ∧ ∀ p ∈ b, ports p ∈ a.map ports := by
  simp [portMappingsEqual]

theorem portMappingsEqual_of_perm (h : a.Perm b) : portMappingsEqual a b = true :=
  portMappingsEqual_iff.mpr ⟨h.length_eq, fun _ hp => List.mem_map_of_mem (h.mem_iff.mpr hp)⟩

@[simp] theorem storedPorts_portsLabel (stored : List PortMapping) :
    storedPorts (some (portsLabel stored)) = stored := by
  simp [storedPorts, portsLabel]

/-- Pairs that are all different and stored, with the same protocols, are those stored when the
lists are equally long. -/
theorem perm_of_portMappingsEqual (hdistinct : (b.map ports).Nodup)
    (hprotocol : ∀ p ∈ a, ∀ q ∈ b, ports p = ports q → p.udp = q.udp)
    (h : portMappingsEqual a b = true) : a.Perm b := by
  obtain ⟨hlength, hports⟩ := portMappingsEqual_iff.mp h
  have hsub : b ⊆ a := by
    intro q hq
    obtain ⟨p, hp, hpq⟩ := List.mem_map.mp (hports q hq)
    obtain ⟨o, i, u⟩ := p
    obtain ⟨rfl, rfl⟩ := Prod.mk.inj hpq
    obtain rfl : u = q.udp := hprotocol _ hp q hq rfl
    exact hp
  have hsubperm := List.subperm_of_subset (List.Nodup.of_map ports hdistinct) hsub
  exact (hsubperm.perm_of_length_le hlength.le).symm

def webAndDns : Microservice :=
  { microserviceUUID := ['u'], imageName := [],
    portMappings := [⟨80, 8080, false⟩, ⟨53, 53, true⟩] }

end Embedded

/-! ## Docker -/

namespace Docker

structure Port where
  num : ℕ
  udp : Bool
  deriving DecidableEq

abbrev PortMap := List (Port × List ℤ)

def PortMap.bind : PortMap → Port → ℤ → PortMap
  | [], port, hostPort => [(port, [hostPort])]
  | (q, hostPorts) :: m, port, hostPort =>
    if q = port then (q, hostPorts ++ [hostPort]) :: m else (q, hostPorts) :: bind m port hostPort

def portOf (pm : PortMapping) : Port := ⟨(pm.inside % 65536).toNat, pm.udp⟩

def buildPortBindings (portFrom : Port → Bool) (pms : List PortMapping) : Option PortMap :=
  pms.foldlM (fun bindings pm =>
    if portFrom (portOf pm) then some (bindings.bind (portOf pm) pm.outside) else none) []

structure Config where
  iofogUUID : Str
  timeZone : Str

def resolveScope (application : Str) (hostNetwork : Bool) : Str :=
  if hostNetwork then "managed".toList
  else if toLower (trimSpace application) = "edgelet".toList then "local".toList
  else "managed".toList

section

variable (c : Container) (cfg : Config) (ms : Microservice)

def canonicalEnv : List (Str × Str) :=
  [("EDGELET_MICROSERVICE_UID".toList, trimSpace ms.microserviceUUID),
    ("EDGELET_MICROSERVICE_NAME".toList, trimSpace ms.microserviceName),
    ("EDGELET_APPLICATION_NAME".toList, trimSpace ms.applicationName),
    ("EDGELET_NODE_UID".toList, trimSpace cfg.iofogUUID),
    ("EDGELET_SCOPE".toList, if ms.isController then "local".toList
      else resolveScope ms.applicationName ms.hostNetworkMode),
    ("EDGELET_RUNTIME_ENGINE".toList, "docker".toList),
    ("EDGELET_ROLE".toList, if ms.isController then "controller".toList
      else if ms.isRouter then "router".toList else if ms.isNats then "nats".toList
      else "workload".toList)]

def reservedEnvKeys : List Str :=
  ["EDGELET_MICROSERVICE_UID".toList, "EDGELET_MICROSERVICE_NAME".toList,
    "EDGELET_APPLICATION_NAME".toList, "EDGELET_NODE_UID".toList, "EDGELET_SCOPE".toList,
    "EDGELET_RUNTIME_ENGINE".toList, "EDGELET_ROLE".toList]

def envVarMap (envVars : List EnvVar) (key : Str) : Option Str :=
  ((envVars.filter fun e => e.key ≠ [] ∨ e.value ≠ []).reverse.find? (·.key = key)).map (·.value)

def userEnv : List (Str × Str) :=
  ((((ms.envVars.filter fun e => e.key ≠ [] ∨ e.value ≠ []).map (·.key)).filter fun key =>
    !reservedEnvKeys.contains key).dedup.insertionSort
      fun s t => strLe s t = true).map fun key => (key, (envVarMap ms.envVars key).getD [])

def timeZoneEnv : List (Str × Str) :=
  if (userEnv ms).any fun e => toLower (trimSpace e.1) = "tz".toList then []
  else [("TZ".toList, if trimSpace cfg.timeZone = [] then "UTC".toList else trimSpace cfg.timeZone)]

def buildEnv : List Str :=
  (canonicalEnv cfg ms ++ userEnv ms ++ timeZoneEnv cfg ms).map fun e => e.1 ++ '=' :: e.2

structure Container where
  portBindings : PortMap
  networkMode : Str
  env : List Str

def createContainer (portFrom : Port → Bool) (cfg : Config) (ms : Microservice) :
    Option Container := do
  let portBindings ← buildPortBindings portFrom ms.portMappings
  return {
    portBindings
    networkMode := if ms.hostNetworkMode then "host".toList else "edgelet".toList
    env := buildEnv cfg ms }

def getContainerPorts (bindings : PortMap) : List PortMapping :=
  bindings.flatMap fun e => e.2.map fun hostPort => ⟨hostPort, e.1.num, e.1.udp⟩

def sortKey (p : PortMapping) : ℤ ×ₗ ℤ := toLex (p.inside, p.outside)

def isPortMappingEqual (srt : SortFunc (ℤ ×ₗ ℤ)) (c : Container) (ms : Microservice) : Bool :=
  srt.sort sortKey ms.portMappings = srt.sort sortKey (getContainerPorts c.portBindings)

def isNetworkModeEqual : Bool :=
  c.networkMode = if ms.hostNetworkMode then "host".toList else "edgelet".toList

def splitN (s : Str) : Option (Str × Str) :=
  if s.contains '=' then some (s.takeWhile (· ≠ '='), (s.dropWhile (· ≠ '=')).tail) else none

def lookup (env : List (Str × Str)) (key : Str) : Option Str :=
  (env.reverse.find? (·.1 = key)).map (·.2)

def isEnvVarsEqual : Bool :=
  ms.envVars.all fun e => lookup (c.env.filterMap splitN) e.key = some e.value

end

def areEqual (srt : SortFunc (ℤ ×ₗ ℤ)) (c : Container) (ms : Microservice) : Bool :=
  isPortMappingEqual srt c ms && isNetworkModeEqual c ms && isEnvVarsEqual c ms

structure Inspected (c c' : Container) : Prop where
  bindings : c'.portBindings.Perm c.portBindings
  networkMode : c'.networkMode = c.networkMode
  env : ∃ image, c'.env = c.env ++ image ∧ ∀ e ∈ image.filterMap splitN,
    e.1 ∉ (c.env.filterMap splitN).map (·.1)

/-- Container ports are in range, and no two mappings of a microservice differ in the protocol
only. -/
structure PortsApart (pms : List PortMapping) : Prop where
  range : ∀ p ∈ pms, 0 ≤ p.inside ∧ p.inside < 65536
  apart : ∀ p ∈ pms, ∀ q ∈ pms, sortKey p = sortKey q → p.udp = q.udp

/-- The variables of a microservice are found in its container: none has two empty texts, a key with
`=` or two values, and one that the agent sets has that value. -/
structure EnvKept (cfg : Config) (ms : Microservice) : Prop where
  ne_empty : ∀ e ∈ ms.envVars, e.key ≠ [] ∨ e.value ≠ []
  no_equals : ∀ e ∈ ms.envVars, '=' ∉ e.key
  one_value : ∀ e ∈ ms.envVars, ∀ e' ∈ ms.envVars, e.key = e'.key → e.value = e'.value
  canonical : ∀ e ∈ ms.envVars, ∀ v, (e.key, v) ∈ canonicalEnv cfg ms → v = e.value

/-! ### Ports -/

def bound (p : PortMapping) : PortMapping := { p with inside := p.inside % 65536 }

theorem perm_bind (m : PortMap) (p : PortMapping) :
    (getContainerPorts (m.bind (portOf p) p.outside)).Perm (bound p :: getContainerPorts m) := by
  have hp : (⟨p.outside, (portOf p).num, (portOf p).udp⟩ : PortMapping) = bound p := by
    have hnum : ((portOf p).num : ℤ) = p.inside % 65536 :=
      Int.toNat_of_nonneg (Int.emod_nonneg _ (by decide))
    rw [hnum]
    rfl
  induction m with
  | nil => simp [PortMap.bind, getContainerPorts, hp]
  | cons e m ih =>
    simp only [PortMap.bind]
    split
    next heq =>
      simp only [getContainerPorts, List.flatMap_cons, List.map_append, List.map_cons, List.map_nil,
        heq, hp, List.append_assoc]
      exact List.perm_middle
    next =>
      simp only [getContainerPorts, List.flatMap_cons] at ih ⊢
      exact (ih.append_left _).trans List.perm_middle

theorem perm_getContainerPorts {portFrom : Port → Bool} {pms : List PortMapping} {m : PortMap}
    (h : buildPortBindings portFrom pms = some m) : (getContainerPorts m).Perm (pms.map bound) := by
  have hfold : ∀ (pms : List PortMapping) (m₀ m : PortMap), pms.foldlM (fun bindings pm =>
      if portFrom (portOf pm) then some (PortMap.bind bindings (portOf pm) pm.outside) else none)
      m₀ = some m → (getContainerPorts m).Perm (pms.map bound ++ getContainerPorts m₀) := by
    intro pms
    induction pms with
    | nil =>
      rintro m₀ m ⟨⟩
      exact List.Perm.refl _
    | cons p pms ih =>
      intro m₀ m hm
      rw [List.foldlM_cons] at hm
      split at hm
      · refine (ih _ m hm).trans (((perm_bind m₀ p).append_left _).trans ?_)
        exact List.perm_middle
      · cases hm
  simpa [getContainerPorts] using hfold pms [] m h

theorem bound_eq_self {p : PortMapping} (h : 0 ≤ p.inside ∧ p.inside < 65536) : bound p = p := by
  rw [bound, Int.emod_eq_of_lt h.1 h.2]

section Ports

variable {portFrom : Port → Bool} {ms : Microservice} {m : PortMap}

theorem perm_of_equal {srt : SortFunc (ℤ ×ₗ ℤ)} {c : Container}
    (h : isPortMappingEqual srt c ms = true) :
    ms.portMappings.Perm (getContainerPorts c.portBindings) := by
  rw [isPortMappingEqual, decide_eq_true_eq] at h
  exact (srt.perm sortKey _).symm.trans (h ▸ srt.perm sortKey _)

theorem sorts_apart {env : List Str} {mode : Str} {p : PortMapping} {e : Port × List ℤ}
    (hhost : p.outside ∈ e.2) (hinside : (e.1.num : ℤ) = p.inside)
    (h : isPortMappingEqual (.insertion _) ⟨e :: m.erase e, mode, env⟩ ms = true) :
    ((ms.portMappings.filter (sortKey · = sortKey p)).head?).map (·.udp) = some e.1.udp := by
  rw [isPortMappingEqual, decide_eq_true_eq] at h
  have hfilter := congrArg (List.filter (sortKey · = sortKey p)) h
  rw [SortFunc.filter_insertion, SortFunc.filter_insertion] at hfilter
  obtain ⟨q, rest, hq⟩ := List.exists_cons_of_ne_nil (l := (e.2.map fun hostPort =>
    (⟨hostPort, e.1.num, e.1.udp⟩ : PortMapping)).filter (sortKey · = sortKey p)) (by
      refine List.ne_nil_of_mem (a := ⟨p.outside, e.1.num, e.1.udp⟩) ?_
      simp [hhost, sortKey, hinside])
  have hudp : q.udp = e.1.udp := by
    have hmem := List.mem_of_mem_filter (hq ▸ List.mem_cons_self :
      q ∈ (e.2.map _).filter (sortKey · = sortKey p))
    obtain ⟨_, -, rfl⟩ := List.mem_map.mp hmem
    rfl
  rw [hfilter, getContainerPorts, List.flatMap_cons, List.filter_append, hq]
  simp [hudp]

theorem ports_iff (hm : buildPortBindings portFrom ms.portMappings = some m) (mode : Str)
    (env : List Str) :
    (∀ srt order, order.Perm m → isPortMappingEqual srt ⟨order, mode, env⟩ ms = true) ↔
      PortsApart ms.portMappings := by
  have hperm := perm_getContainerPorts hm
  constructor
  · intro h
    have hsame := perm_of_equal (h (.insertion _) m (.refl _))
    have hrange : ∀ p ∈ ms.portMappings, 0 ≤ p.inside ∧ p.inside < 65536 := by
      intro p hp
      obtain ⟨q, -, rfl⟩ := List.mem_map.mp (hperm.mem_iff.mp (hsame.mem_iff.mp hp))
      exact ⟨Int.emod_nonneg _ (by decide), Int.emod_lt_of_pos _ (by decide)⟩
    have hfirst : ∀ p ∈ ms.portMappings,
        ((ms.portMappings.filter (sortKey · = sortKey p)).head?).map (·.udp) = some p.udp := by
      intro p hp
      obtain ⟨e, he, hpe⟩ := List.mem_flatMap.mp (hsame.mem_iff.mp hp)
      obtain ⟨hostPort, hhost, rfl⟩ := List.mem_map.mp hpe
      exact sorts_apart hhost rfl (h _ _ (List.perm_cons_erase he).symm)
    refine ⟨hrange, fun p hp q hq hkey => ?_⟩
    have hpq := (hfirst p hp).symm.trans (hkey ▸ hfirst q hq)
    exact Option.some.inj hpq
  · rintro ⟨hrange, hapart⟩ srt order horder
    have hsame : ms.portMappings.Perm (getContainerPorts order) := by
      have hbound : ms.portMappings.map bound = ms.portMappings :=
        (List.map_congr_left (g := id) fun p hp => bound_eq_self (hrange p hp)).trans
          (List.map_id _)
      exact (hbound ▸ hperm).symm.trans (horder.flatMap_right _).symm
    rw [isPortMappingEqual, decide_eq_true_eq]
    refine srt.sort_eq_of_perm (fun p hp q hq hkey => ?_) hsame
    obtain ⟨o, i, u⟩ := p
    obtain ⟨o', i', u'⟩ := q
    obtain ⟨rfl, rfl⟩ := Prod.mk.inj (toLex.injective hkey)
    obtain rfl := hapart _ hp _ hq hkey
    rfl

end Ports

/-! ### Variables -/

theorem splitN_entry {key value : Str} (h : '=' ∉ key) :
    splitN (key ++ '=' :: value) = some (key, value) := by
  have hall : ∀ c ∈ key, (fun c => decide (c ≠ '=')) c = true := fun c hc => by
    simpa using fun heq : c = '=' => h (heq ▸ hc)
  rw [splitN, if_pos (by simp), List.takeWhile_append_of_pos hall,
    List.dropWhile_append_of_pos hall]
  simp

theorem no_equals_of_splitN {s : Str} {e : Str × Str} (h : splitN s = some e) : '=' ∉ e.1 := by
  rw [splitN] at h
  split at h
  · cases h
    intro hmem
    simpa using List.mem_takeWhile_imp hmem
  · cases h

theorem lookup_eq_some_iff {env : List (Str × Str)} (h : (env.map (·.1)).Nodup) {key value : Str} :
    lookup env key = some value ↔ (key, value) ∈ env := by
  rw [lookup, Option.map_eq_some_iff]
  constructor
  · rintro ⟨e, he, rfl⟩
    have hkey : e.1 = key := by simpa using List.find?_some he
    exact hkey ▸ List.mem_reverse.mp (List.mem_of_find?_eq_some he)
  · intro hmem
    have hsome : (env.reverse.find? (·.1 = key)).isSome = true := by
      rw [List.find?_isSome]
      exact ⟨_, List.mem_reverse.mpr hmem, by simp⟩
    obtain ⟨e, he⟩ := Option.isSome_iff_exists.mp hsome
    have hkey : e.1 = key := by simpa using List.find?_some he
    have heq : e = (key, value) :=
      List.inj_on_of_nodup_map h (List.mem_reverse.mp (List.mem_of_find?_eq_some he)) hmem hkey
    exact ⟨e, he, by rw [heq]⟩

theorem lookup_append {env image : List (Str × Str)} {key : Str}
    (h : ∀ e ∈ image, e.1 ≠ key) : lookup (env ++ image) key = lookup env key := by
  have hnone : image.reverse.find? (·.1 = key) = none := by
    rw [List.find?_eq_none]
    intro e he
    simpa using h e (List.mem_reverse.mp he)
  rw [lookup, List.reverse_append, List.find?_append, hnone]
  rfl

section Env

variable {cfg : Config} {ms : Microservice}

theorem keys_canonicalEnv : (canonicalEnv cfg ms).map (·.1) = reservedEnvKeys := rfl

theorem reservedEnvKeys_spec : reservedEnvKeys.Nodup ∧ "TZ".toList ∉ reservedEnvKeys ∧
    ∀ key ∈ reservedEnvKeys, key ≠ [] ∧ '=' ∉ key := of_decide_eq_true rfl

def entries (cfg : Config) (ms : Microservice) : List (Str × Str) :=
  canonicalEnv cfg ms ++ userEnv ms ++ timeZoneEnv cfg ms

theorem mem_userEnv {e : Str × Str} : e ∈ userEnv ms ↔
    (∃ v ∈ ms.envVars, (v.key ≠ [] ∨ v.value ≠ []) ∧ v.key = e.1) ∧
      e.1 ∉ reservedEnvKeys ∧ (envVarMap ms.envVars e.1).getD [] = e.2 := by
  obtain ⟨key, value⟩ := e
  simp only [userEnv, List.mem_map, List.mem_insertionSort, List.mem_dedup, List.mem_filter,
    Prod.mk.injEq, Bool.not_eq_true', Bool.eq_false_iff, ne_eq, List.contains_iff_mem,
    decide_eq_true_eq]
  constructor
  · rintro ⟨_, ⟨⟨v, ⟨hv, hne⟩, rfl⟩, hnot⟩, rfl, rfl⟩
    exact ⟨⟨v, hv, hne, rfl⟩, hnot, rfl⟩
  · rintro ⟨⟨v, hv, hne, rfl⟩, hnot, rfl⟩
    exact ⟨_, ⟨⟨v, ⟨hv, hne⟩, rfl⟩, hnot⟩, rfl, rfl⟩

theorem key_timeZoneEnv {e : Str × Str} (h : e ∈ timeZoneEnv cfg ms) : e.1 = "TZ".toList := by
  rw [timeZoneEnv] at h
  split at h
  · cases h
  · rw [List.mem_singleton.mp h]

theorem nodup_entries : ((entries cfg ms).map (·.1)).Nodup := by
  have huser : ((userEnv ms).map (·.1)).Nodup := by
    rw [userEnv, List.map_map]
    exact (List.map_id' _).symm ▸ (List.perm_insertionSort _ _).nodup_iff.mpr (List.nodup_dedup _)
  rw [entries, List.map_append, List.map_append, keys_canonicalEnv, List.nodup_append',
    List.nodup_append']
  refine ⟨⟨reservedEnvKeys_spec.1, huser, ?_⟩, ?_, ?_⟩
  · intro key hkey hmem
    obtain ⟨e, he, rfl⟩ := List.mem_map.mp hmem
    exact (mem_userEnv.mp he).2.1 hkey
  · rw [timeZoneEnv]
    split
    · exact List.nodup_nil
    · exact List.nodup_singleton _
  · intro key hkey hzone
    rw [timeZoneEnv] at hzone
    split at hzone
    · cases hzone
    next hno =>
      obtain rfl : key = "TZ".toList := List.mem_singleton.mp hzone
      rcases List.mem_append.mp hkey with hkey | hkey
      · exact reservedEnvKeys_spec.2.1 hkey
      · obtain ⟨e, he, heq⟩ := List.mem_map.mp hkey
        refine hno (List.any_eq_true.mpr ⟨e, he, ?_⟩)
        rw [heq]
        decide

theorem filterMap_buildEnv (h : ∀ e ∈ ms.envVars, '=' ∉ e.key) :
    (buildEnv cfg ms).filterMap splitN = entries cfg ms := by
  have hkeys : ∀ e ∈ entries cfg ms, '=' ∉ e.1 := by
    intro e he
    rw [entries, List.mem_append, List.mem_append] at he
    rcases he with (he | he) | he
    · exact (reservedEnvKeys_spec.2.2 _ (keys_canonicalEnv ▸ List.mem_map_of_mem he)).2
    · obtain ⟨⟨v, hv, -, hkey⟩, -⟩ := mem_userEnv.mp he
      exact hkey ▸ h v hv
    · rw [key_timeZoneEnv he]
      decide
  rw [buildEnv, List.filterMap_map]
  refine (List.filterMap_congr (g := some) fun e he => ?_).trans List.filterMap_some
  exact splitN_entry (hkeys e he)

theorem envVarMap_eq {v : EnvVar} (hv : v ∈ ms.envVars) (hne : v.key ≠ [] ∨ v.value ≠ [])
    (hone : ∀ w ∈ ms.envVars, v.key = w.key → v.value = w.value) :
    (envVarMap ms.envVars v.key).getD [] = v.value := by
  have hsome : ((ms.envVars.filter fun e => e.key ≠ [] ∨ e.value ≠ []).reverse.find?
      (·.key = v.key)).isSome = true := by
    rw [List.find?_isSome]
    exact ⟨v, List.mem_reverse.mpr (List.mem_filter.mpr ⟨hv, by simpa using hne⟩), by simp⟩
  obtain ⟨w, hw⟩ := Option.isSome_iff_exists.mp hsome
  have hmem := List.mem_of_mem_filter (List.mem_reverse.mp (List.mem_of_find?_eq_some hw))
  have hkey : w.key = v.key := by simpa using List.find?_some hw
  rw [envVarMap, hw]
  exact (hone w hmem hkey.symm).symm

theorem mem_entries_iff (h : ∀ e ∈ ms.envVars, '=' ∉ e.key) :
    (∀ v ∈ ms.envVars, (v.key, v.value) ∈ entries cfg ms) ↔ EnvKept cfg ms := by
  have hinj : ∀ e ∈ entries cfg ms, ∀ e' ∈ entries cfg ms, e.1 = e'.1 → e = e' :=
    fun e he e' he' => List.inj_on_of_nodup_map nodup_entries he he'
  constructor
  · intro hall
    refine ⟨fun v hv => ?_, h, fun v hv w hw hkey => ?_, fun v hv value hvalue => ?_⟩
    · by_contra hempty
      simp only [not_or, not_not] at hempty
      have hmem := hall v hv
      rw [hempty.1, hempty.2, entries, List.mem_append, List.mem_append] at hmem
      rcases hmem with (hmem | hmem) | hmem
      · exact (reservedEnvKeys_spec.2.2 _ (keys_canonicalEnv ▸ List.mem_map_of_mem hmem)).1 rfl
      · obtain ⟨⟨w, hw, hne, hkey⟩, -, -⟩ := mem_userEnv.mp hmem
        have heq := hinj _ (hall w hw) _ (hall v hv) (by rw [hempty.1]; exact hkey)
        rcases hne with hne | hne
        · exact hne hkey
        · exact hne ((congrArg Prod.snd heq).trans hempty.2)
      · exact absurd (key_timeZoneEnv hmem) (by decide)
    · exact congrArg Prod.snd (hinj _ (hall v hv) _ (hall w hw) hkey)
    · have hmem : (v.key, value) ∈ entries cfg ms :=
        List.mem_append_left _ (List.mem_append_left _ hvalue)
      exact congrArg Prod.snd (hinj _ hmem _ (hall v hv) rfl)
  · rintro ⟨hne, -, hone, hcanonical⟩ v hv
    by_cases hkey : v.key ∈ reservedEnvKeys
    · obtain ⟨⟨key, value⟩, hmem, rfl⟩ := List.mem_map.mp
        (show v.key ∈ (canonicalEnv cfg ms).map (·.1) from hkey)
      rw [← hcanonical v hv value hmem]
      exact List.mem_append_left _ (List.mem_append_left _ hmem)
    · refine List.mem_append_left _ (List.mem_append_right _ (mem_userEnv.mpr ⟨?_, hkey, ?_⟩))
      · exact ⟨v, hv, hne v hv, rfl⟩
      · exact envVarMap_eq hv (hne v hv) fun w hw => hone v hv w hw

theorem env_iff (order : PortMap) (mode : Str) :
    (∀ image, (∀ e ∈ image.filterMap splitN,
        e.1 ∉ ((buildEnv cfg ms).filterMap splitN).map (·.1)) →
      isEnvVarsEqual ⟨order, mode, buildEnv cfg ms ++ image⟩ ms = true) ↔ EnvKept cfg ms := by
  simp only [isEnvVarsEqual, List.all_eq_true, decide_eq_true_eq, List.filterMap_append]
  constructor
  · intro h
    have hplain := h [] fun _ he => nomatch he
    simp only [List.filterMap_nil, List.append_nil] at hplain
    have hno : ∀ v ∈ ms.envVars, '=' ∉ v.key := by
      intro v hv
      obtain ⟨e, he, -⟩ := Option.map_eq_some_iff.mp (hplain v hv)
      obtain ⟨s, -, hs⟩ := List.mem_filterMap.mp
        (List.mem_reverse.mp (List.mem_of_find?_eq_some he))
      have hkey : e.1 = v.key := by simpa using List.find?_some he
      exact hkey ▸ no_equals_of_splitN hs
    rw [filterMap_buildEnv hno] at hplain
    exact (mem_entries_iff hno).mp fun v hv =>
      (lookup_eq_some_iff nodup_entries).mp (hplain v hv)
  · intro hkept image himage v hv
    rw [filterMap_buildEnv hkept.no_equals] at himage ⊢
    have hmem := (mem_entries_iff hkept.no_equals).mpr hkept v hv
    rw [lookup_append fun e he heq => himage e he (heq ▸ List.mem_map_of_mem hmem)]
    exact (lookup_eq_some_iff nodup_entries).mpr hmem

end Env

theorem areEqual_iff {srt : SortFunc (ℤ ×ₗ ℤ)} {c : Container} {ms : Microservice} :
    areEqual srt c ms = true ↔ isPortMappingEqual srt c ms = true ∧
      isNetworkModeEqual c ms = true ∧ isEnvVarsEqual c ms = true := by
  rw [areEqual, Bool.and_eq_true, Bool.and_eq_true, and_assoc]

/-- **When Docker finds no difference in an unchanged container**, whatever the order of its map of
bindings, whatever the sort does with mappings of the same ports, and whatever the image adds. -/
theorem reflexive_iff (portFrom : Port → Bool) (cfg : Config) (ms : Microservice) (c : Container)
    (hc : createContainer portFrom cfg ms = some c) :
    (∀ srt c', Inspected c c' → areEqual srt c' ms = true) ↔
      PortsApart ms.portMappings ∧ EnvKept cfg ms := by
  rw [createContainer] at hc
  obtain ⟨m, hm, hc⟩ := Option.bind_eq_some_iff.mp hc
  cases hc
  rw [← ports_iff hm [] [], ← env_iff m []]
  constructor
  · intro h
    constructor
    · intro srt order horder
      have hequal := h srt ⟨order, _, buildEnv cfg ms⟩
        ⟨horder, rfl, [], (List.append_nil _).symm, fun _ he => nomatch he⟩
      exact (areEqual_iff.mp hequal).1
    · intro image himage
      have hequal := h (.insertion _) ⟨m, _, buildEnv cfg ms ++ image⟩
        ⟨.refl _, rfl, image, rfl, himage⟩
      exact (areEqual_iff.mp hequal).2.2
  · rintro ⟨hports, henv⟩ srt ⟨order, mode, env⟩ ⟨horder, rfl, image, rfl, himage⟩
    exact areEqual_iff.mpr ⟨hports srt order horder, decide_eq_true rfl, henv image himage⟩

def dnsService : Microservice :=
  { microserviceUUID := ['u'], imageName := [],
    portMappings := [⟨53, 53, false⟩, ⟨53, 53, true⟩] }

def twiceService : Microservice :=
  { microserviceUUID := ['u'], imageName := [], envVars := [⟨['A'], ['1']⟩, ⟨['A'], ['2']⟩] }

/-- DNS is published for TCP and for UDP, and the bindings for UDP are found first. A variable is
given twice. -/
theorem unchanged_but_unequal :
    (∃ c, createContainer (fun _ => true) ⟨[], []⟩ dnsService = some c ∧
      areEqual (.insertion _) { c with portBindings := c.portBindings.reverse } dnsService =
        false) ∧
    ∃ c, createContainer (fun _ => true) ⟨[], []⟩ twiceService = some c ∧
      areEqual (.insertion _) c twiceService = false :=
  ⟨⟨_, rfl, rfl⟩, ⟨_, rfl, rfl⟩⟩

def plainService : Microservice :=
  { microserviceUUID := ['u'], imageName := [], portMappings := [⟨80, 8080, false⟩],
    envVars := [⟨['A'], ['1']⟩] }

theorem plainService_unchanged :
    ∃ c, createContainer (fun _ => true) ⟨[], []⟩ plainService = some c ∧
      ∀ srt c', Inspected c c' → areEqual srt c' plainService = true := by
  refine ⟨_, rfl, (reflexive_iff (fun _ => true) ⟨[], []⟩ plainService _ rfl).mpr ⟨?_, ?_⟩⟩
  · exact ⟨by decide, by decide⟩
  · refine ⟨by decide, by decide, by decide, fun e he v hv => ?_⟩
    have hkey : e.key ∈ reservedEnvKeys := keys_canonicalEnv ▸ List.mem_map_of_mem hv
    rw [List.mem_singleton.mp he] at hkey
    exact absurd hkey (by decide)

end Docker

end Edgelet.Engine
