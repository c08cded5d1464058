import Edgelet.Codec.Compare
import Edgelet.Models.Microservice

/-!
# The apply label

A container carries a label with the fingerprint of its microservice and is created anew when the
label no longer matches. Both fingerprints are compared as untyped values, an integer as the double
it is rounded to.

A label is the document that its text spells, a blank one `none`. A CPU limit is a double, written
as its numerator and denominator.
-/

namespace Edgelet.ContainerApply

open Lexical Json Models

structure Fingerprint where
  bindPath : Str := []
  permissions : Str := []
  knowledgeBindPath : Str := []
  knowledgePermissions : Str := []
  entrypoint : List Str := []
  commands : List Str := []
  workingDir : Str := []
  runAsGroup : Str := []
  supplementalGroups : List ℤ := []
  readOnlyRoot : Bool := false
  tmpfs : List TmpfsMount := []
  shmSize : Option ℤ := none
  cpus : Option ℚ := none
  memoryReservation : Option ℤ := none
  memorySwap : Option ℤ := none
  sysctls : StrMap Str := ∅
  ulimits : StrMap Ulimit := ∅
  devices : List DeviceMapping := []
  envHash : Str := []
  deriving DecidableEq

def floatCodec : Codec ℚ where
  encode q := .arr [.num q.num, .num q.den]
  decode
    | .arr [.num n, .num d] => some (mkRat n d.toNat)
    | _ => none
  decode_encode q := by simp [Rat.mkRat_self]
  encode_ne_null _ := nofun

section Codec

open Fields

def Fingerprint.codec : Codec Fingerprint :=
  .struct
    ((omitEmpty "bindPath".toList (·.bindPath) .str).and <|
      (omitEmpty "permissions".toList (·.permissions) .str).and <|
      (omitEmpty "knowledgeBindPath".toList (·.knowledgeBindPath) .str).and <|
      (omitEmpty "knowledgePermissions".toList (·.knowledgePermissions) .str).and <|
      (omitEmpty "entrypoint".toList (·.entrypoint) (.list .str)).and <|
      (omitEmpty "commands".toList (·.commands) (.list .str)).and <|
      (omitEmpty "workingDir".toList (·.workingDir) .str).and <|
      (omitEmpty "runAsGroup".toList (·.runAsGroup) .str).and <|
      (omitEmpty "supplementalGroups".toList (·.supplementalGroups) (.list .int)).and <|
      (omitEmpty "readOnlyRoot".toList (·.readOnlyRoot) .bool).and <|
      (omitEmpty "tmpfs".toList (·.tmpfs) (.list TmpfsMount.codec)).and <|
      (pointer "shmSize".toList (·.shmSize) .int).and <|
      (pointer "cpus".toList (·.cpus) floatCodec).and <|
      (pointer "memoryReservation".toList (·.memoryReservation) .int).and <|
      (pointer "memorySwap".toList (·.memorySwap) .int).and <|
      (omitEmpty "sysctls".toList (·.sysctls) (.map .str)).and <|
      (omitEmpty "ulimits".toList (·.ulimits) (.map Ulimit.codec)).and <|
      (omitEmpty "devices".toList (·.devices) (.list DeviceMapping.codec)).and <|
      omitEmpty "envHash".toList (·.envHash) .str)
    fun (bindPath, permissions, knowledgeBindPath, knowledgePermissions, entrypoint, commands,
        workingDir, runAsGroup, supplementalGroups, readOnlyRoot, tmpfs, shmSize, cpus,
        memoryReservation, memorySwap, sysctls, ulimits, devices, envHash) =>
      { bindPath, permissions, knowledgeBindPath, knowledgePermissions, entrypoint, commands,
        workingDir, runAsGroup, supplementalGroups, readOnlyRoot, tmpfs, shmSize, cpus,
        memoryReservation, memorySwap, sysctls, ulimits, devices, envHash }

end Codec

variable (p : Platform) (sum256 : Str → Str) (ms : Microservice) (fp : Fingerprint) (env : List Str)

def marshal : Value ℤ := Fingerprint.codec.encode fp

def boundCatalog (c : Option Catalog) : Str × Str :=
  match c.filter (·.hasItems) with
  | some c => (trimSpace c.bindPath, Catalog.permissionsOf p true c.permissions)
  | none => ([], [])

def fromMicroservice : Fingerprint where
  bindPath := (boundCatalog p ms.models).1
  permissions := (boundCatalog p ms.models).2
  knowledgeBindPath := (boundCatalog p ms.knowledge).1
  knowledgePermissions := (boundCatalog p ms.knowledge).2
  entrypoint := ms.entrypoint.getD []
  commands := ms.commands.getD []
  workingDir := trimSpace (ms.workingDir.getD [])
  runAsGroup := trimSpace (ms.runAsGroup.getD [])
  supplementalGroups := ms.supplementalGroups
  readOnlyRoot := ms.readOnlyRootFilesystem
  tmpfs := ms.tmpfs
  shmSize := ms.shmSize
  cpus := ms.cpus
  memoryReservation := ms.memoryReservation
  memorySwap := ms.memorySwap
  sysctls := ms.sysctls
  ulimits := ms.ulimits
  devices := ms.devices

def envPair (e : Str) : Str × Str := (e.takeWhile (· ≠ '='), (e.dropWhile (· ≠ '=')).drop 1)

def hashEnv : Str :=
  let pairs := ((env.filter (· ≠ [])).map envPair).insertionSort fun a b =>
    if a.1 = b.1 then strLe a.2 b.2 else strLe a.1 b.1
  sum256 (pairs.flatMap fun e => e.1 ++ '=' :: e.2 ++ [Char.ofNat 0])

def applyLabel : Value ℤ :=
  marshal { fromMicroservice p ms with envHash := hashEnv sum256 env }

def Fingerprint.empty : Bool := { fp with envHash := [] } = ({} : Fingerprint)

def matchesLabel (label : Option (Value ℤ)) (ms : Microservice) : Bool :=
  let want := fromMicroservice p ms
  match label with
  | none => want.empty
  | some text =>
    match Fingerprint.codec.decode text with
    | none => false
    | some got => jsonEqual (marshal want) (marshal { got with envHash := [] })

/-! ## What the label tells apart -/

/-- **Two fingerprints are alike**: they are equal except that integers are compared as doubles. -/
def Fingerprint.Alike (f g : Fingerprint) : Prop :=
  f.bindPath = g.bindPath ∧ f.permissions = g.permissions ∧
    f.knowledgeBindPath = g.knowledgeBindPath ∧ f.knowledgePermissions = g.knowledgePermissions ∧
    List.Forall₂ (· = ·) f.entrypoint g.entrypoint ∧ List.Forall₂ (· = ·) f.commands g.commands ∧
    f.workingDir = g.workingDir ∧ f.runAsGroup = g.runAsGroup ∧
    List.Forall₂ (toFloat64 · = toFloat64 ·) f.supplementalGroups g.supplementalGroups ∧
    f.readOnlyRoot = g.readOnlyRoot ∧
    List.Forall₂ (fun m m' => (m.containerPath = m'.containerPath ∧
      Option.Rel (toFloat64 · = toFloat64 ·) m.size m'.size) ∧ m.mode = m'.mode) f.tmpfs g.tmpfs ∧
    Option.Rel (toFloat64 · = toFloat64 ·) f.shmSize g.shmSize ∧
    Option.Rel (fun q q' => toFloat64 q.num = toFloat64 q'.num ∧
      toFloat64 q.den = toFloat64 q'.den) f.cpus g.cpus ∧
    Option.Rel (toFloat64 · = toFloat64 ·) f.memoryReservation g.memoryReservation ∧
    Option.Rel (toFloat64 · = toFloat64 ·) f.memorySwap g.memorySwap ∧
    (∀ k, Option.Rel (· = ·) (f.sysctls.lookup k) (g.sysctls.lookup k)) ∧
    (∀ k, Option.Rel (fun u u' => toFloat64 u.soft = toFloat64 u'.soft ∧
      toFloat64 u.hard = toFloat64 u'.hard) (f.ulimits.lookup k) (g.ulimits.lookup k)) ∧
    List.Forall₂ (fun d d' => (d.hostPath = d'.hostPath ∧ d.containerPath = d'.containerPath) ∧
      d.permissions = d'.permissions) f.devices g.devices ∧
    f.envHash = g.envHash

theorem rel_refl {α : Type} {R : α → α → Prop} (h : ∀ a, R a a) : ∀ o, Option.Rel R o o
  | none => .none
  | some a => .some (h a)

theorem forall₂_refl {α : Type} {R : α → α → Prop} (h : ∀ a, R a a) (as : List α) :
    List.Forall₂ R as as :=
  List.forall₂_same.mpr fun a _ => h a

theorem Fingerprint.Alike.refl (f : Fingerprint) : f.Alike f :=
  have hnum : ∀ n, toFloat64 n = toFloat64 n := fun _ => rfl
  ⟨rfl, rfl, rfl, rfl, forall₂_refl (fun _ => rfl) _, forall₂_refl (fun _ => rfl) _, rfl, rfl,
    forall₂_refl hnum _, rfl, forall₂_refl (fun _ => ⟨⟨rfl, rel_refl hnum _⟩, rfl⟩) _,
    rel_refl hnum _, rel_refl (fun _ => ⟨rfl, rfl⟩) _, rel_refl hnum _, rel_refl hnum _,
    fun _ => rel_refl (fun _ => rfl) _, fun _ => rel_refl (fun _ => ⟨rfl, rfl⟩) _,
    forall₂_refl (fun _ => ⟨⟨rfl, rfl⟩, rfl⟩) _, rfl⟩

section Compares

open Codec.Compares Fields.Compares

variable {σ α : Type} {name : Str}

variable {c : Codec α}

theorem compares_omitEmpty [Inhabited α] [DecidableEq α] {get : σ → α} (h : c.Compares (· = ·)) :
    (Fields.omitEmpty name get c).Compares fun s t => get s = get t :=
  omitEmpty h (fun _ => eq_comm) fun _ => Iff.rfl

theorem compares_omitEmpty_list [DecidableEq α] {get : σ → List α}
    {R : α → α → Prop} (h : c.Compares R) :
    (Fields.omitEmpty name get (.list c)).Compares fun s t => List.Forall₂ R (get s) (get t) :=
  omitEmpty (list h) (fun _ => List.forall₂_nil_left_iff) fun _ => List.forall₂_nil_right_iff

theorem compares_omitEmpty_map [DecidableEq α] {get : σ → StrMap α}
    {R : α → α → Prop} (h : c.Compares R) :
    (Fields.omitEmpty name get (.map c)).Compares fun s t =>
      ∀ k, Option.Rel R ((get s).lookup k) ((get t).lookup k) := by
  refine omitEmpty (map h) (fun m => ?_) fun m => ?_
  all_goals
    constructor
    · intro hall
      refine Finmap.ext_lookup fun k => ?_
      have hrel := hall k
      rw [show (default : StrMap α).lookup k = none from Finmap.lookup_empty k] at hrel ⊢
      generalize m.lookup k = a at hrel ⊢
      cases hrel
      rfl
    · rintro rfl k
      rw [show (default : StrMap α).lookup k = none from Finmap.lookup_empty k]
      exact .none

theorem compares_float : floatCodec.Compares fun q q' =>
    toFloat64 q.num = toFloat64 q'.num ∧ toFloat64 q.den = toFloat64 q'.den := fun q q' => by
  simp [floatCodec, jsonEqual, elementsEqual]

theorem compares_fingerprint : Fingerprint.codec.Compares Fingerprint.Alike :=
  .struct <| .and (compares_omitEmpty str) <| .and (compares_omitEmpty str) <|
    .and (compares_omitEmpty str) <| .and (compares_omitEmpty str) <|
    .and (compares_omitEmpty_list str) <| .and (compares_omitEmpty_list str) <|
    .and (compares_omitEmpty str) <| .and (compares_omitEmpty str) <|
    .and (compares_omitEmpty_list int) <| .and (compares_omitEmpty bool) <|
    .and (compares_omitEmpty_list (.struct
      (.and (.and (required str) (pointer int)) (compares_omitEmpty str)))) <|
    .and (pointer int) <| .and (pointer compares_float) <| .and (pointer int) <|
    .and (pointer int) <| .and (compares_omitEmpty_map str) <|
    .and (compares_omitEmpty_map (.struct (.and (required int) (required int)))) <|
    .and (compares_omitEmpty_list (.struct
      (.and (.and (required str) (required str)) (compares_omitEmpty str)))) <|
    compares_omitEmpty str

end Compares

theorem matchesLabel_applyLabel_iff (p : Platform) (sum256 : Str → Str) (ms₁ ms₂ : Microservice)
    (env : List Str) : matchesLabel p (some (applyLabel p sum256 ms₁ env)) ms₂ = true ↔
      (fromMicroservice p ms₂).Alike (fromMicroservice p ms₁) := by
  simp only [matchesLabel, applyLabel, marshal, Fingerprint.codec.decode_encode]
  exact compares_fingerprint (fromMicroservice p ms₂) (fromMicroservice p ms₁)

/-- **When the label detects exactly the drift**: the label of a microservice matches those with an
equal fingerprint and no others if and only if the fingerprints do not differ merely in integers
that are the same as doubles. -/
theorem matchesLabel_exact_iff (p : Platform) (sum256 : Str → Str) (ms₁ ms₂ : Microservice)
    (env : List Str) :
    (matchesLabel p (some (applyLabel p sum256 ms₁ env)) ms₂ = true ↔
        fromMicroservice p ms₁ = fromMicroservice p ms₂) ↔
      ((fromMicroservice p ms₂).Alike (fromMicroservice p ms₁) →
        fromMicroservice p ms₁ = fromMicroservice p ms₂) := by
  rw [matchesLabel_applyLabel_iff]
  exact ⟨Iff.mp, fun hexact => ⟨hexact, fun heq => heq ▸ .refl _⟩⟩

/-! ## A limit that changes unseen -/

def allowedUlimits : List String :=
  ["core", "cpu", "data", "fsize", "locks", "memlock", "msgqueue", "nice", "nofile", "nproc", "rss",
    "rtprio", "rttime", "sigpending", "stack"]

def validateUlimitRange (limit : Ulimit) : Bool :=
  -1 ≤ limit.soft && -1 ≤ limit.hard && (limit.soft ≠ -1 || limit.hard = -1) &&
    (limit.soft = -1 || limit.hard = -1 || limit.soft ≤ limit.hard)

def validateUlimits (p : Platform) (ulimits : StrMap Ulimit) : Bool :=
  let keys := (entries ulimits).map fun e => p.toLower (trimSpace e.1)
  keys.all (allowedUlimits.contains <| String.ofList ·) && keys.Nodup &&
    (entries ulimits).all (validateUlimitRange ·.2)

def limited (hard : ℤ) : Microservice where
  microserviceUUID := "a".toList
  imageName := "web".toList
  ulimits := ofEntries [("nofile".toList, ⟨1024, hard⟩)]

/-- **A changed limit matches**: the label of a microservice matches another one, although both
pass the validation and their fingerprints are different. -/
theorem large_limits_match :
    let a := limited (2 ^ 53)
    let b := limited (2 ^ 53 + 1)
    validateUlimits .ascii a.ulimits = true ∧ validateUlimits .ascii b.ulimits = true ∧
      matchesLabel .ascii (some (applyLabel .ascii id a [])) b = true ∧
      fromMicroservice .ascii a ≠ fromMicroservice .ascii b := by
  decide +kernel

/-! ## The text under the environment digest -/

abbrev pairLe (a b : Str × Str) : Prop :=
  (if a.1 = b.1 then strLe a.2 b.2 else strLe a.1 b.1) = true

theorem pairLe_iff {a b : Str × Str} : pairLe a b ↔
    strLe a.1 b.1 = true ∧ (a.1 = b.1 → strLe a.2 b.2 = true) := by
  unfold pairLe
  split_ifs with h
  · exact ⟨fun hle => ⟨h ▸ (strLe_total a.1 a.1).elim id id, fun _ => hle⟩, fun hle => hle.2 h⟩
  · exact ⟨fun hle => ⟨hle, fun heq => absurd heq h⟩, And.left⟩

instance : Std.Total pairLe := ⟨fun a b => by
  rw [pairLe_iff, pairLe_iff]
  by_cases h : a.1 = b.1
  · have hself : strLe b.1 b.1 = true := (strLe_total b.1 b.1).elim id id
    rw [h]
    exact (strLe_total a.2 b.2).imp (fun hle => ⟨hself, fun _ => hle⟩)
      fun hle => ⟨hself, fun _ => hle⟩
  · exact (strLe_total a.1 b.1).imp (fun hle => ⟨hle, fun heq => absurd heq h⟩)
      fun hle => ⟨hle, fun heq => absurd heq.symm h⟩⟩

instance : IsTrans _ pairLe := ⟨fun a b c hab hbc => by
  rw [pairLe_iff] at *
  refine ⟨strLe_trans hab.1 hbc.1, fun hac => ?_⟩
  have heq : a.1 = b.1 := strLe_antisymm hab.1 (hac ▸ hbc.1)
  exact strLe_trans (hab.2 heq) (hbc.2 (heq ▸ hac))⟩

theorem pairLe_antisymm {a b : Str × Str} (hab : pairLe a b) (hba : pairLe b a) : a = b := by
  rw [pairLe_iff] at *
  have hkey : a.1 = b.1 := strLe_antisymm hab.1 hba.1
  exact Prod.ext hkey (strLe_antisymm (hab.2 hkey) (hba.2 hkey.symm))

def written (p : Str × Str) : Str := p.1 ++ '=' :: p.2 ++ [Char.ofNat 0]

/-- The first `=` ends a key and the first NUL after it a value, so the text is read back pair by
pair. -/
theorem pairs_eq_of_written {xs ys : List (Str × Str)}
    (hxs : ∀ p ∈ xs, '=' ∉ p.1 ∧ Char.ofNat 0 ∉ p.2)
    (hys : ∀ p ∈ ys, '=' ∉ p.1 ∧ Char.ofNat 0 ∉ p.2)
    (h : xs.flatMap written = ys.flatMap written) : xs = ys := by
  induction xs generalizing ys with
  | nil => cases ys with
    | nil => rfl
    | cons q ys => simp [written] at h
  | cons p xs ih =>
    cases ys with
    | nil => simp [written] at h
    | cons q ys =>
      rw [List.forall_mem_cons] at hxs hys
      simp only [List.flatMap_cons, written, List.append_assoc, List.cons_append,
        List.nil_append] at h
      obtain ⟨hkey, hrest⟩ := append_cons_inj hxs.1.1 hys.1.1 h
      obtain ⟨hvalue, hrest⟩ := append_cons_inj hxs.1.2 hys.1.2 hrest
      rw [Prod.ext hkey hvalue, ih hxs.2 hys.2 hrest]

theorem envPair_clean {env : List Str} (h : ∀ e ∈ env, Char.ofNat 0 ∉ e) :
    ∀ p ∈ (env.filter (· ≠ [])).map envPair, '=' ∉ p.1 ∧ Char.ofNat 0 ∉ p.2 := by
  intro p hp
  obtain ⟨e, he, rfl⟩ := List.mem_map.mp hp
  refine ⟨fun hmem => by simpa using List.mem_takeWhile_imp hmem, fun hmem => ?_⟩
  exact h e (List.mem_of_mem_filter he)
    ((List.dropWhile_sublist _).mem (List.mem_of_mem_drop hmem))

/-- **The digest is canonical**: two lists of entries without a NUL are written as one text if and
only if they hold the same pairs equally often. -/
theorem hashEnv_text_eq_iff (env env' : List Str) (h : ∀ e ∈ env, Char.ofNat 0 ∉ e)
    (h' : ∀ e ∈ env', Char.ofNat 0 ∉ e) :
    hashEnv id env = hashEnv id env' ↔
      ((env.filter (· ≠ [])).map envPair).Perm ((env'.filter (· ≠ [])).map envPair) := by
  have hperm := fun xs => List.perm_insertionSort pairLe xs
  constructor
  · intro heq
    have hsorted := pairs_eq_of_written
      (fun p hp => envPair_clean h p ((hperm _).mem_iff.mp hp))
      (fun p hp => envPair_clean h' p ((hperm _).mem_iff.mp hp)) heq
    exact (hperm _).symm.trans (hsorted ▸ hperm _)
  · intro heq
    have hsorted := (((hperm _).trans heq).trans (hperm _).symm).eq_of_pairwise
      (fun _ _ _ _ => pairLe_antisymm) (List.pairwise_insertionSort _ _)
      (List.pairwise_insertionSort _ _)
    exact congrArg (List.flatMap written) hsorted

/-- Reordered entries with an empty one and a key without a value are written alike. -/
theorem hashEnv_text_reordered :
    hashEnv id ["B=1".toList, [], "A".toList] = hashEnv id ["A=".toList, "B=1".toList] :=
  (hashEnv_text_eq_iff _ _ (by decide) (by decide)).mpr (by decide)

end Edgelet.ContainerApply
