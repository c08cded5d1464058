import Edgelet.DnsResolver.Reconcile

/-!
# Names that nobody else can take

A workload `default` of an application `router` has the reserved name of the router among its own,
and two workloads share a name where the dot between application and name falls at different places.
Where that does not happen, nobody's choice of a name changes another's answers. Status and address
change over time and the names do not, so the question is which workloads are safe whatever their
status is.
-/

namespace Edgelet.DnsResolver

open Lexical Keyed

variable {Addr : Type} {env : Env Addr} {r : Resolver}

/-! ## Runs -/

inductive Change
  | upsert (rec : WorkloadRecord)
  | setActive (uuid : Str) (active : Bool) (startedAt : ℤ)
  | remove (uuid : Str)
  | reconcile (answer : Option (Except Str (List WorkloadRecord)))
  | restore (records : List WorkloadRecord)

def apply (env : Env Addr) (r : Resolver) : Change → Resolver
  | .upsert rec => upsertWorkload env r rec
  | .setActive uuid active startedAt => setWorkloadActive r uuid active startedAt
  | .remove uuid => removeWorkload env r uuid
  | .reconcile answer => runReconcileOnce env r answer
  | .restore records => applySnapshotRecords env r records

structure Sound (env : Env Addr) (r : Resolver) : Prop extends Indexed env r where
  localOff : r.scopeEnabled scopeLocal = false

theorem scopeEnabled_runReconcileOnce (answer : Option (Except Str (List WorkloadRecord)))
    (h : r.scopeEnabled scopeLocal = false) :
    (runReconcileOnce env r answer).scopeEnabled scopeLocal = false := by
  have hpolicy : ∀ records, (updateScopePolicy r records).scopeEnabled scopeLocal = false := by
    intro records
    have hne : scopeLocal ≠ scopeManaged := by decide
    simp [updateScopePolicy, hne]
  unfold runReconcileOnce
  split
  · exact h
  · exact h
  next records =>
    dsimp only
    split_ifs
    · exact hpolicy records
    · exact hpolicy records

/-- **One change keeps the index in step with the records.** -/
theorem Sound.apply (h : Sound env r) (c : Change) : Sound env (apply env r c) := by
  cases c with
  | upsert rec =>
    refine ⟨h.toIndexed.upsertWorkload rec, ?_⟩
    show (upsertWorkload env r rec).scopeEnabled scopeLocal = false
    unfold upsertWorkload
    dsimp only
    split <;> (try split) <;> (try split_ifs) <;> exact h.localOff
  | setActive uuid active startedAt =>
    refine ⟨h.toIndexed.setWorkloadActive uuid active startedAt, ?_⟩
    show (setWorkloadActive r uuid active startedAt).scopeEnabled scopeLocal = false
    unfold setWorkloadActive
    split <;> exact h.localOff
  | remove uuid =>
    refine ⟨h.toIndexed.removeWorkload uuid, ?_⟩
    show (removeWorkload env r uuid).scopeEnabled scopeLocal = false
    unfold removeWorkload
    split <;> exact h.localOff
  | reconcile answer =>
    exact ⟨h.toIndexed.runReconcileOnce answer, scopeEnabled_runReconcileOnce answer h.localOff⟩
  | restore records =>
    refine ⟨indexed_rebuildIndex (fun _ => normal_of_mem_desired) fun _ hentry => ?_, h.localOff⟩
    exact (exists_of_mem_desired hentry).1

theorem sound_foldl (env : Env Addr) (changes : List Change) :
    Sound env (changes.foldl (apply env) initial) := by
  have hrun : ∀ (changes : List Change) (r : Resolver), Sound env r →
      Sound env (changes.foldl (apply env) r) := by
    intro changes
    induction changes with
    | nil => exact fun r h => h
    | cons c changes ih => exact fun r h => ih _ (h.apply c)
  exact hrun changes initial ⟨indexed_initial, rfl⟩

/-! ## The question -/

inductive Role
  | router
  | nats

def Role.name : Role → Str
  | .router => reservedRouterName
  | .nats => reservedNatsName

def Role.has : Role → WorkloadRecord → Bool
  | .router, rec => rec.isRouter
  | .nats, rec => rec.isNats

def pairOf (env : Env Addr) (rec : WorkloadRecord) : Str × Str :=
  ((trimSpace rec.application).map env.lower, (trimSpace rec.name).map env.lower)

def Distinct (env : Env Addr) (x y : WorkloadRecord) : Prop :=
  pairOf env x ≠ pairOf env y ∧ x.uuid ≠ y.uuid

def Shared (env : Env Addr) (x y : WorkloadRecord) (name : Str) : Prop :=
  isReservedRoleName name = true ∨ isHostReservedName env name = true ∨
    name ∈ addNames env (controllerNames env x) ∨ name ∈ addNames env (controllerNames env y)

def Protected (env : Env Addr) (r : Resolver) (x : WorkloadRecord) (name : Str) : Prop :=
  (∃ role : Role, name = role.name ∧ role.has x = false) ∨
    ∃ other ∈ r.workloads, Distinct env x other.2 ∧ name ∈ addNames env (ownNames other.2) ∧
      ¬ Shared env x other.2 name

/-- **No name is captured.** -/
structure Isolated (env : Env Addr) (r : Resolver) : Prop where
  reserved : ∀ (role : Role) (qtype : QType),
    ∀ rr ∈ (resolveInternal env r scopeManaged role.name qtype).2.1,
      ∃ entry ∈ r.workloads, role.has entry.2 = true ∧ entry.2.active = true ∧
        env.parseAddr (trimSpace entry.2.ip) = some rr.addr
  aliases : ∀ x ∈ r.workloads, ∀ y ∈ r.workloads, Distinct env x.2 y.2 →
    ∀ name ∈ aliasesForWorkload env x.2, name ∈ aliasesForWorkload env y.2 →
      Shared env x.2 y.2 name
  unchanged : ∀ x ∈ r.workloads, ∀ name, Protected env r x.2 name → ∀ qtype,
    (resolveInternal env (removeWorkload env r x.1) scopeManaged name qtype).2.1 =
      (resolveInternal env r scopeManaged name qtype).2.1

def Reaches (env : Env Addr) (r : Resolver) (x : WorkloadRecord) (name : Str) : Prop :=
  x.scope = scopeManaged ∨
    ∀ entry ∈ r.workloads, entry.2.scope = scopeManaged → name ∉ aliasesForWorkload env entry.2

/-- **The condition on the names**: who has a reserved name as an own name, where a query gets to
it, has the role; and different workloads have no own name in common. -/
structure Apart (env : Env Addr) (r : Resolver) : Prop where
  reserved : ∀ role : Role, ∀ x ∈ r.workloads, role.name ∈ addNames env (ownNames x.2) →
    Reaches env r x.2 role.name → role.has x.2 = true
  names : ∀ x ∈ r.workloads, ∀ y ∈ r.workloads, Distinct env x.2 y.2 →
    ∀ name ∈ addNames env (ownNames x.2), name ∈ addNames env (ownNames y.2) →
      Shared env x.2 y.2 name

/-! ## The names of a workload -/

variable {name : Str}

theorem normalizeName_eq_self
    (hascii : name.all (fun c => decide (c.toNat < 128) && c.toLower == c) = true)
    (htrim : trimDot (trimSpace name) = name) : normalizeName env name = name := by
  have hmap : name.map env.lower = name := by
    have hid : ∀ c ∈ name, env.lower c = id c := by
      intro c hc
      have hsmall := List.all_eq_true.mp hascii c hc
      simp only [Bool.and_eq_true, decide_eq_true_eq, beq_iff_eq] at hsmall
      exact (env.lower_ascii c hsmall.1).trans hsmall.2
    rw [List.map_congr_left hid, List.map_id]
  rw [normalizeName, hmap, htrim]

theorem head?_normalizeName {c : Char} (rest : Str) (h : isSpace (env.lower c) = false) :
    ∀ x ∈ (normalizeName env (c :: rest)).head?, x = env.lower c := by
  intro x hx
  have htrim : x ∈ (trimSpace (env.lower c :: rest.map env.lower)).head? := by
    unfold normalizeName trimDot at hx
    split_ifs at hx
    · obtain ⟨t, ht⟩ := List.dropLast_prefix (trimSpace (env.lower c :: rest.map env.lower))
      rw [← ht, List.head?_append]
      rw [List.map_cons] at hx
      rw [Option.mem_def.mp hx]
      rfl
    · exact hx
  have hhead := head?_rdropWhile htrim
  rw [List.dropWhile_cons_of_neg (by simp [h])] at hhead
  exact (Option.some.inj hhead).symm

theorem normalizeName_ne_role {name rest : Str} {c : Char} (hname : name = c :: rest)
    (hc : c = 'c' ∨ c = 'e' ∨ c = 'h') (role : Role) : normalizeName env name ≠ role.name := by
  intro heq
  have hlower : env.lower c = c := by
    rcases hc with rfl | rfl | rfl <;> exact (env.lower_ascii _ (by decide)).trans (by decide)
  have hspace : isSpace (env.lower c) = false := by
    rw [hlower]
    rcases hc with rfl | rfl | rfl <;> decide
  have hhead := head?_normalizeName rest hspace
  rw [← hname, heq, hlower] at hhead
  cases role with
  | router =>
    have hr := hhead 'r' rfl
    rcases hc with rfl | rfl | rfl <;> cases hr
  | nats =>
    have hn := hhead 'n' rfl
    rcases hc with rfl | rfl | rfl <;> cases hn

theorem mem_addNames {names : List Str} {x : Str} :
    x ∈ addNames env names ↔ (∃ n ∈ names, normalizeName env n = x) ∧ x ≠ [] := by
  simp [addNames, List.mem_filter]

variable {rec : WorkloadRecord}

theorem mem_aliases {x : Str} :
    x ∈ aliasesForWorkload env rec ↔
      x ∈ addNames env (ownNames rec) ∨ x ∈ addNames env (controllerNames env rec) ∨
        x ∈ addNames env (roleNames rec) ∨ x ∈ addNames env (hostNames env rec) := by
  unfold aliasesForWorkload
  simp only [mem_addNames, List.mem_append, or_assoc, or_and_right, exists_or]

def OtherLetter (name : Str) : Prop := ∃ c rest, name = c :: rest ∧ (c = 'c' ∨ c = 'e' ∨ c = 'h')

theorem role_notMem_addNames {names : List Str} (h : ∀ n ∈ names, OtherLetter n) (role : Role) :
    role.name ∉ addNames env names := by
  rw [mem_addNames]
  rintro ⟨⟨n, hn, heq⟩, -⟩
  obtain ⟨c, rest, hname, hc⟩ := h n hn
  exact normalizeName_ne_role hname hc role heq

theorem otherLetter_controllerNames : ∀ n ∈ controllerNames env rec, OtherLetter n := by
  intro n hn
  have hns : namespaceController env rec.application ≠ [] →
      namespaceController env rec.application =
        "controller.".toList ++ normalizeName env rec.application := by
    unfold namespaceController
    split_ifs
    · exact fun h => absurd rfl h
    · exact fun _ => rfl
  unfold controllerNames at hn
  split_ifs at hn with hctl hne
  · rw [hns hne] at hn
    rcases List.mem_append.mp hn with hn | hn
    all_goals
      simp only [List.mem_cons, List.not_mem_nil, or_false] at hn
      rcases hn with rfl | rfl <;> exact ⟨_, _, rfl, by decide⟩
  · simp only [List.append_nil, List.mem_cons, List.not_mem_nil, or_false] at hn
    rcases hn with rfl | rfl <;> exact ⟨_, _, rfl, by decide⟩
  · cases hn

theorem otherLetter_hostNames : ∀ n ∈ hostNames env rec, OtherLetter n := by
  intro n hn
  unfold hostNames at hn
  split_ifs at hn
  · simp only [List.mem_cons, List.not_mem_nil, or_false] at hn
    rcases hn with rfl | rfl | rfl <;> exact ⟨_, _, rfl, by decide⟩
  · rw [List.mem_singleton] at hn
    subst hn
    exact ⟨'e', _, rfl, by decide⟩
  · cases hn

variable (role : Role)

theorem normalizeName_role : normalizeName env role.name = role.name := by
  cases role <;> exact normalizeName_eq_self rfl rfl

theorem mem_roleNames {x : Str} :
    x ∈ addNames env (roleNames rec) ↔
      ∃ role : Role, x = role.name ∧ rec.scope = scopeManaged ∧ role.has rec = true := by
  have hnames : ∀ n, n ∈ roleNames rec ↔
      ∃ role : Role, n = role.name ∧ rec.scope = scopeManaged ∧ role.has rec = true := by
    intro n
    unfold roleNames
    rw [List.mem_append]
    constructor
    · rintro (hn | hn) <;> split_ifs at hn with h
      · exact ⟨.router, List.mem_singleton.mp hn, h⟩
      · cases hn
      · exact ⟨.nats, List.mem_singleton.mp hn, h⟩
      · cases hn
    · rintro ⟨role, rfl, h⟩
      cases role with
      | router =>
        have hrouter : rec.scope = scopeManaged ∧ rec.isRouter = true := h
        exact .inl (by simp [hrouter, Role.name])
      | nats =>
        have hnats : rec.scope = scopeManaged ∧ rec.isNats = true := h
        exact .inr (by simp [hnats, Role.name])
  rw [mem_addNames]
  constructor
  · rintro ⟨⟨n, hn, rfl⟩, -⟩
    obtain ⟨role, rfl, h⟩ := (hnames n).mp hn
    exact ⟨role, normalizeName_role role, h⟩
  · rintro ⟨role, rfl, h⟩
    refine ⟨⟨role.name, (hnames _).mpr ⟨role, rfl, h⟩, normalizeName_role role⟩, ?_⟩
    cases role <;> exact List.cons_ne_nil _ _

theorem role_name_inj {x y : Role} (h : x.name = y.name) : x = y := by
  cases x <;> cases y <;> first | rfl | exact absurd h (by decide)

theorem role_mem_aliases {role : Role} :
    role.name ∈ aliasesForWorkload env rec ↔
      role.name ∈ addNames env (ownNames rec) ∨
        rec.scope = scopeManaged ∧ role.has rec = true := by
  rw [mem_aliases, mem_roleNames]
  constructor
  · rintro (h | h | ⟨role', heq, h⟩ | h)
    · exact .inl h
    · exact absurd h (role_notMem_addNames otherLetter_controllerNames role)
    · rw [role_name_inj heq]
      exact .inr h
    · exact absurd h (role_notMem_addNames otherLetter_hostNames role)
  · rintro (h | h)
    · exact .inl h
    · exact .inr (.inr (.inl ⟨role, rfl, h⟩))

theorem isReservedRoleName_role : isReservedRoleName role.name = true := by
  cases role <;> rfl

theorem isHostReservedName_role : isHostReservedName env role.name = false := by
  have hne : role.name ≠ reservedAgentName ∧ role.name ≠ compatDockerHostName ∧
      role.name ≠ compatContainerHost := by
    cases role <;> exact of_decide_eq_true rfl
  simp [isHostReservedName, hne]

theorem isHostReservedName_of_mem {x : Str}
    (h : x ∈ addNames env (hostNames env rec)) : isHostReservedName env x = true := by
  have hself : ∀ n ∈ [reservedAgentName, compatDockerHostName, compatContainerHost],
      normalizeName env n = n := by
    intro n hn
    simp only [List.mem_cons, List.not_mem_nil, or_false] at hn
    rcases hn with rfl | rfl | rfl <;> exact normalizeName_eq_self rfl rfl
  obtain ⟨⟨n, hn, rfl⟩, -⟩ := mem_addNames.mp h
  unfold hostNames at hn
  split_ifs at hn with hscope hcompat
  · rw [hself n hn]
    simp only [List.mem_cons, List.not_mem_nil, or_false] at hn
    rcases hn with rfl | rfl | rfl <;> simp [isHostReservedName, hcompat]
  · rw [List.mem_singleton] at hn
    subst hn
    rw [hself _ List.mem_cons_self]
    simp [isHostReservedName]
  · cases hn

theorem own_or_shared {x y : WorkloadRecord} (h : name ∈ aliasesForWorkload env x) :
    name ∈ addNames env (ownNames x) ∨ Shared env x y name := by
  rcases mem_aliases.mp h with h | h | h | h
  · exact .inl h
  · exact .inr (.inr (.inr (.inl h)))
  · obtain ⟨role, rfl, -⟩ := mem_roleNames.mp h
    exact .inr (.inl (isReservedRoleName_role role))
  · exact .inr (.inr (.inl (isHostReservedName_of_mem h)))

theorem Shared.symm {x y : WorkloadRecord} (h : Shared env x y name) : Shared env y x name := by
  rcases h with h | h | h | h
  · exact .inl h
  · exact .inr (.inl h)
  · exact .inr (.inr (.inr h))
  · exact .inr (.inr (.inl h))

/-! ## Names that are apart -/

theorem Indexed.notMem_aliases (h : Indexed env r) (hempty : r.index.ids scopeManaged name = []) :
    ∀ entry ∈ r.workloads, entry.2.scope = scopeManaged →
      name ∉ aliasesForWorkload env entry.2 := by
  intro entry hentry hscope halias
  have hid := (h.ids scopeManaged name entry.1).mpr ⟨entry.2, hentry, hscope.symm, halias⟩
  rw [hempty] at hid
  cases hid

theorem Sound.mem_activeRecords_lookup (h : Sound env r) {wl : WorkloadRecord} :
    wl ∈ activeRecords r (lookupIDs r scopeManaged name) ↔
      ∃ id, (id, wl) ∈ r.workloads ∧ Reaches env r wl name ∧ Answers env wl name := by
  unfold lookupIDs
  by_cases hempty : r.index.ids scopeManaged name = []
  · have hnone := h.toIndexed.notMem_aliases hempty
    rw [if_pos ⟨hempty, rfl, h.localOff⟩, h.toIndexed.mem_activeRecords]
    refine exists_congr fun id => and_congr_right fun hmem => ?_
    refine and_congr_left fun hans => iff_of_true ?_ (.inr hnone)
    exact (h.normal _ hmem).scope.resolve_left fun hs => hnone _ hmem hs hans.named
  · rw [if_neg fun hc => hempty hc.1, h.toIndexed.mem_activeRecords]
    refine exists_congr fun id => and_congr_right fun hmem => ?_
    refine and_congr_left fun _ => ⟨.inl, fun hreach => hreach.resolve_right fun hnone => ?_⟩
    obtain ⟨id', hid'⟩ := List.exists_mem_of_ne_nil _ hempty
    obtain ⟨wl', hwl', hs, hn⟩ := (h.ids _ _ _).mp hid'
    exact hnone _ hwl' hs.symm hn

theorem Apart.reserved_answered (hr : Sound env r) (h : Apart env r) (role : Role) (qtype : QType) :
    ∀ rr ∈ (resolveInternal env r scopeManaged role.name qtype).2.1,
      ∃ entry ∈ r.workloads, role.has entry.2 = true ∧ entry.2.active = true ∧
        env.parseAddr (trimSpace entry.2.ip) = some rr.addr := by
  intro rr hrr
  rw [answer_eq_flatMap (isHostReservedName_role role)] at hrr
  obtain ⟨wl, hwl, hrr⟩ := List.mem_flatMap.mp hrr
  obtain ⟨id, hid, hreach, hans⟩ :=
    hr.mem_activeRecords_lookup.mp (mem_active_of_mem_targets hwl)
  refine ⟨(id, wl), hid, ?_, hans.active, parseAddr_of_mem_rrFromIP hrr⟩
  rcases role_mem_aliases.mp hans.named with hown | ⟨-, hhas⟩
  · exact h.reserved role _ hid hown hreach
  · exact hhas

theorem Apart.aliases_apart (h : Apart env r) :
    ∀ x ∈ r.workloads, ∀ y ∈ r.workloads, Distinct env x.2 y.2 →
      ∀ name ∈ aliasesForWorkload env x.2, name ∈ aliasesForWorkload env y.2 →
        Shared env x.2 y.2 name := by
  intro x hx y hy hdistinct name hnx hny
  rcases own_or_shared (y := y.2) hnx with hown | hshared
  · rcases own_or_shared (y := x.2) hny with hown' | hshared
    · exact h.names x hx y hy hdistinct name hown hown'
    · exact hshared.symm
  · exact hshared

/-! ### Without a workload -/

theorem deindexLocked_of_notMem {index : Index} {s n : Str}
    (h : ¬ (s = rec.scope ∧ n ∈ aliasesForWorkload env rec)) :
    deindexLocked env rec index s n = index s n := by
  unfold deindexLocked
  revert h
  generalize aliasesForWorkload env rec = names
  intro h
  induction names generalizing index with
  | nil => rfl
  | cons name names ih =>
    rw [List.mem_cons, and_or_left, not_or] at h
    rw [List.foldl_cons, ih h.2, Index.drop, if_neg h.1]

variable {x : Str × WorkloadRecord}

theorem Sound.resolve_removeWorkload (h : Sound env r)
    (hx : x ∈ r.workloads) (hname : name ∈ aliasesForWorkload env x.2 →
      ¬ Reaches env r x.2 name) (qtype : QType) :
    (resolveInternal env (removeWorkload env r x.1) scopeManaged name qtype).2.1 =
      (resolveInternal env r scopeManaged name qtype).2.1 := by
  have hkey : trimSpace x.1 = x.1 := h.key x hx ▸ (h.normal x hx).uuid
  have hremove : removeWorkload env r x.1 = { r with
      workloads := r.workloads.deleteWhere (·.1 == x.1)
      index := deindexLocked env x.2 r.index } := by
    unfold removeWorkload
    rw [hkey, Table.get?_eq_some_iff.mpr ⟨hx, rfl⟩]
  have hmanaged : deindexLocked env x.2 r.index scopeManaged name = r.index scopeManaged name := by
    refine deindexLocked_of_notMem fun ⟨hs, hn⟩ => hname hn (.inl hs.symm)
  have hlocal : r.index.ids scopeManaged name = [] →
      deindexLocked env x.2 r.index scopeLocal name = r.index scopeLocal name := by
    intro hempty
    refine deindexLocked_of_notMem fun ⟨_, hn⟩ => hname hn (.inr ?_)
    exact h.toIndexed.notMem_aliases hempty
  have hids : lookupIDs (removeWorkload env r x.1) scopeManaged name =
      lookupIDs r scopeManaged name := by
    rw [hremove]
    unfold lookupIDs
    simp only [Index.ids, hmanaged]
    split_ifs with hempty
    · rw [hlocal hempty.1]
    · rfl
  have hnot : x.1 ∉ lookupIDs r scopeManaged name := by
    intro hmem
    unfold lookupIDs at hmem
    split_ifs at hmem with hempty
    · obtain ⟨wl, hwl, hs, hn⟩ := (h.ids _ _ _).mp hmem
      obtain rfl : wl = x.2 := congrArg Prod.snd (Table.eq_of_key_eq hwl hx rfl)
      exact hname hn (.inr (h.toIndexed.notMem_aliases hempty.1))
    · obtain ⟨wl, hwl, hs, hn⟩ := (h.ids _ _ _).mp hmem
      obtain rfl : wl = x.2 := congrArg Prod.snd (Table.eq_of_key_eq hwl hx rfl)
      exact hname hn (.inl hs.symm)
  have hactive : activeRecords (removeWorkload env r x.1) (lookupIDs r scopeManaged name) =
      activeRecords r (lookupIDs r scopeManaged name) := by
    unfold activeRecords
    congr 1
    refine List.filterMap_congr fun id hid => ?_
    rw [hremove]
    dsimp only
    rw [Table.get?_deleteWhere_of_false]
    intro entry hentry
    rw [hentry, beq_eq_false_iff_ne]
    rintro rfl
    exact hnot hid
  unfold resolveInternal targets
  rw [hids, hactive]
  split_ifs <;> rfl

theorem Apart.unchanged_without (hr : Sound env r) (h : Apart env r) :
    ∀ x ∈ r.workloads, ∀ name, Protected env r x.2 name → ∀ qtype,
      (resolveInternal env (removeWorkload env r x.1) scopeManaged name qtype).2.1 =
        (resolveInternal env r scopeManaged name qtype).2.1 := by
  rintro x hx name hprotected qtype
  refine hr.resolve_removeWorkload hx (fun hn hreach => ?_) qtype
  rcases hprotected with ⟨role, rfl, hhas⟩ | ⟨other, hother, hdistinct, hown, hshared⟩
  · rcases role_mem_aliases.mp hn with hown | ⟨-, hhas'⟩
    · rw [h.reserved role x hx hown hreach] at hhas
      cases hhas
    · rw [hhas'] at hhas
      cases hhas
  · rcases own_or_shared (y := other.2) hn with hown' | hs
    · exact hshared (h.names x hx other hother hdistinct name hown' hown)
    · exact hshared hs

theorem Apart.isolated (hr : Sound env r) (h : Apart env r) : Isolated env r :=
  ⟨h.reserved_answered hr, h.aliases_apart, h.unchanged_without hr⟩

/-! ## Any status -/

structure Status where
  active : Bool
  ip : Str
  startedAt : ℤ

def setStatus (rec : WorkloadRecord) (st : Status) : WorkloadRecord :=
  { rec with active := st.active, ip := st.ip, startedAt := st.startedAt }

def withStatus (r : Resolver) (status : Str → Status) : Resolver :=
  { r with
    workloads := r.workloads.updateWhere (fun _ => true)
      (fun entry => (entry.1, setStatus entry.2 (status entry.1))) fun _ => rfl }

theorem mem_withStatus {status : Str → Status} {entry : Str × WorkloadRecord} :
    entry ∈ (withStatus r status).workloads ↔
      ∃ x ∈ r.workloads, (x.1, setStatus x.2 (status x.1)) = entry := by
  unfold withStatus
  simp

theorem setStatus_mem (hx : x ∈ r.workloads) (status : Str → Status) :
    (x.1, setStatus x.2 (status x.1)) ∈ (withStatus r status).workloads :=
  mem_withStatus.mpr ⟨x, hx, rfl⟩

theorem role_has_setStatus (rec : WorkloadRecord) (st : Status) :
    role.has (setStatus rec st) = role.has rec := by
  cases role <;> rfl

theorem Sound.withStatus (h : Sound env r) (status : Str → Status) :
    Sound env (withStatus r status) where
  normal entry hentry := by
    obtain ⟨x, hx, rfl⟩ := mem_withStatus.mp hentry
    obtain ⟨h₁, h₂, h₃, h₄, h₅⟩ := h.normal x hx
    exact ⟨h₁, h₂, h₃, h₄, h₅⟩
  key entry hentry := by
    obtain ⟨x, hx, rfl⟩ := mem_withStatus.mp hentry
    exact h.key x hx
  ids s n id := by
    refine (h.ids s n id).trans ⟨?_, ?_⟩
    · rintro ⟨wl, hwl, hs, hn⟩
      exact ⟨_, setStatus_mem hwl status, hs, hn⟩
    · rintro ⟨wl, hwl, hs, hn⟩
      obtain ⟨x, hx, heq⟩ := mem_withStatus.mp hwl
      cases heq
      exact ⟨x.2, hx, hs, hn⟩
  localOff := h.localOff

theorem reaches_withStatus {status : Str → Status} {x : WorkloadRecord} {st : Status} :
    Reaches env (withStatus r status) (setStatus x st) name ↔ Reaches env r x name := by
  refine or_congr_right ⟨fun hnone y hy hs => ?_, fun hnone entry hentry hs => ?_⟩
  · exact hnone (y.1, setStatus y.2 (status y.1)) (setStatus_mem hy status) hs
  · obtain ⟨y, hy, rfl⟩ := mem_withStatus.mp hentry
    exact hnone y hy hs

theorem Apart.withStatus (h : Apart env r) (status : Str → Status) :
    Apart env (withStatus r status) where
  reserved role entry hentry hown hreach := by
    obtain ⟨x, hx, rfl⟩ := mem_withStatus.mp hentry
    rw [role_has_setStatus]
    exact h.reserved role x hx hown (reaches_withStatus.mp hreach)
  names entry hentry entry' hentry' hdistinct name hn hn' := by
    obtain ⟨x, hx, rfl⟩ := mem_withStatus.mp hentry
    obtain ⟨y, hy, rfl⟩ := mem_withStatus.mp hentry'
    exact h.names x hx y hy hdistinct name hn hn'

def onlyActive (id : Str) : Str → Status := fun k =>
  if k = id then ⟨true, "127.0.0.1".toList, 0⟩ else ⟨false, [], 0⟩

theorem eq_of_active {id : Str} {entry : Str × WorkloadRecord}
    (h : entry ∈ (withStatus r (onlyActive id)).workloads) (hactive : entry.2.active = true) :
    entry.1 = id := by
  obtain ⟨x, -, rfl⟩ := mem_withStatus.mp h
  by_contra hne
  have hstatus : (onlyActive id x.1).active = false := by
    unfold onlyActive
    rw [if_neg hne]
  rw [show (setStatus x.2 (onlyActive id x.1)).active = _ from hstatus] at hactive
  cases hactive

theorem Isolated.role_has (hr : Sound env r) (hx : x ∈ r.workloads) {role : Role}
    (hname : role.name ∈ aliasesForWorkload env x.2) (hreach : Reaches env r x.2 role.name)
    (h : Isolated env (withStatus r (onlyActive x.1))) : role.has x.2 = true := by
  have hs := hr.withStatus (onlyActive x.1)
  have hx' := setStatus_mem hx (onlyActive x.1)
  have hstatus : onlyActive x.1 x.1 = ⟨true, "127.0.0.1".toList, 0⟩ := if_pos rfl
  have hactive : setStatus x.2 (onlyActive x.1 x.1) ∈
      activeRecords (withStatus r (onlyActive x.1))
        (lookupIDs (withStatus r (onlyActive x.1)) scopeManaged role.name) := by
    refine hs.mem_activeRecords_lookup.mpr
      ⟨x.1, hx', reaches_withStatus.mpr hreach, hname, ?_, ?_⟩
    · rw [hstatus]
      rfl
    · rw [hstatus]
      exact List.cons_ne_nil _ _
  obtain ⟨best, hbest⟩ := exists_pickReservedTarget hactive
  obtain ⟨id, hid, -, hans⟩ := hs.mem_activeRecords_lookup.mp (pickReservedTarget_spec hbest).1
  have hpicked : (id, best) = (x.1, setStatus x.2 (onlyActive x.1 x.1)) :=
    Table.eq_of_key_eq hid hx' (eq_of_active hid hans.active)
  have htarget : setStatus x.2 (onlyActive x.1 x.1) ∈
      targets (withStatus r (onlyActive x.1)) scopeManaged role.name := by
    unfold targets
    dsimp only
    rw [if_pos (isReservedRoleName_role role), hbest]
    cases hpicked
    exact List.mem_singleton_self _
  obtain ⟨addr, haddr⟩ := Option.isSome_iff_exists.mp env.parseAddr_loopback
  have hip : env.parseAddr (trimSpace (setStatus x.2 (onlyActive x.1 x.1)).ip) = some addr := by
    rw [hstatus, ← haddr]
    rfl
  obtain ⟨rr, hrr, -⟩ := exists_mem_rrFromIP role.name hip (show Fits env addr .any = true from rfl)
  obtain ⟨entry, hentry, hhas, hentryActive, -⟩ := h.reserved role .any rr (by
    rw [answer_eq_flatMap (isHostReservedName_role role)]
    exact List.mem_flatMap.mpr ⟨_, htarget, hrr⟩)
  have hentryEq := Table.eq_of_key_eq hentry hx' (eq_of_active hentry hentryActive)
  rw [hentryEq, role_has_setStatus] at hhas
  exact hhas

/-- **When no name is captured**: after any changes of the resolver, in every status of its
workloads, exactly when their names are apart. -/
theorem isolated_iff_apart (env : Env Addr) (changes : List Change) :
    (∀ status, Isolated env (withStatus (changes.foldl (apply env) initial) status)) ↔
      Apart env (changes.foldl (apply env) initial) := by
  have hr := sound_foldl env changes
  constructor
  · intro h
    refine ⟨fun role x hx hown hreach => ?_, fun x hx y hy hdistinct name hn hn' => ?_⟩
    · exact Isolated.role_has hr hx (mem_aliases.mpr (.inl hown)) hreach (h _)
    · exact (h (onlyActive x.1)).aliases _ (setStatus_mem hx _) _ (setStatus_mem hy _) hdistinct
        name (mem_aliases.mpr (.inl hn)) (mem_aliases.mpr (.inl hn'))
  · exact fun h status => (h.withStatus status).isolated (hr.withStatus status)

/-! ### Captured names -/

def tenant (uuid application name ip : String) : WorkloadRecord where
  uuid := uuid.toList
  application := application.toList
  name := name.toList
  scope := scopeManaged
  ip := ip.toList
  hostNetwork := false
  isRouter := false
  isNats := false
  isController := false
  active := true
  startedAt := 1

def addresses (r : Resolver) (name : Str) : List Str :=
  (resolveInternal textEnv r scopeManaged name .a).2.1.map (·.addr)

/-- A workload `default` of an application `router` answers for the router; and a workload `c` of an
application `a.b` answers for the workload `b.c` of `a`. -/
theorem names_captured :
    ¬ Isolated textEnv
        (upsertWorkload textEnv initial (tenant "u1" "router" "default" "10.88.0.66")) ∧
      addresses (upsertWorkload textEnv initial (tenant "u1" "a" "b.c" "10.88.0.2"))
        "a.b.c".toList = ["10.88.0.2".toList] ∧
      addresses (upsertWorkload textEnv
        (upsertWorkload textEnv initial (tenant "u1" "a" "b.c" "10.88.0.2"))
        (tenant "u2" "a.b" "c" "10.88.0.66")) "a.b.c".toList =
          ["10.88.0.66".toList, "10.88.0.2".toList] := by
  refine ⟨fun h => ?_, of_decide_eq_true rfl⟩
  have hanswer : addresses
      (upsertWorkload textEnv initial (tenant "u1" "router" "default" "10.88.0.66"))
        reservedRouterName = ["10.88.0.66".toList] := by decide +kernel
  obtain ⟨rr, hrr, -⟩ := List.mem_map.mp (hanswer ▸ List.mem_singleton_self _)
  obtain ⟨entry, hentry, hrouter, -⟩ := h.reserved .router .a rr hrr
  have hnone : (upsertWorkload textEnv initial
      (tenant "u1" "router" "default" "10.88.0.66")).workloads.rows.all (fun entry =>
        !entry.2.isRouter) = true := rfl
  have hnot := List.all_eq_true.mp hnone entry hentry
  rw [show entry.2.isRouter = true from hrouter] at hnot
  cases hnot

end Edgelet.DnsResolver
