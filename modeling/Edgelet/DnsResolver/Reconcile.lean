import Edgelet.Models.Microservice
import Edgelet.DnsResolver.Resolver

/-!
# Reconciling the resolver with the runtime

A reconcile replaces the records by those of a snapshot of the runtime, filtered by the enabled
scopes. The local scope is never enabled, so local workloads are dropped, although a managed query
could answer for them; and when a snapshot has none but local ones, nothing is reconciled at all.
-/

namespace Edgelet.DnsResolver

open Lexical Keyed

variable {Addr : Type} {env : Env Addr} {r : Resolver} {records : List WorkloadRecord}

/-! ## The records after a reconcile -/

theorem get?_applyDesired {ws ws' : Workloads} (h : ∀ k, ws.get? k = ws'.get? k)
    (entry : Str × WorkloadRecord) (k : Str) :
    (applyDesired ws entry).get? k = (ws'.upsert entry).get? k := by
  have hupsert : (ws.upsert entry).get? k = (ws'.upsert entry).get? k := by
    rw [Table.get?_upsert, Table.get?_upsert, h]
  unfold applyDesired
  cases hcurrent : ws.get? entry.1 with
  | none => exact hupsert
  | some current =>
    dsimp only
    split_ifs with heq
    · rw [Table.get?_upsert, ← h]
      split_ifs with hk
      · have hkey := (Table.get?_eq_some_iff.mp hcurrent).2
        rw [← hk, hcurrent, ← Prod.ext hkey heq]
      · rfl
    · exact hupsert

theorem get?_foldl_applyDesired (rows : List (Str × WorkloadRecord)) {ws ws' : Workloads}
    (h : ∀ k, ws.get? k = ws'.get? k) (k : Str) :
    (rows.foldl applyDesired ws).get? k = (ws'.upsertAll rows).get? k := by
  induction rows generalizing ws ws' with
  | nil => exact h k
  | cons entry rows ih => exact ih (get?_applyDesired h entry)

/-- **The records after a reconcile** are the desired ones. -/
theorem get?_reconcile (desired ws : Workloads) (k : Str) :
    (desired.rows.foldl applyDesired
      (ws.deleteWhere fun entry => (desired.get? entry.1).isNone)).get? k = desired.get? k := by
  rw [get?_foldl_applyDesired desired.rows (fun _ => rfl), Table.get?_upsertAll]
  cases hlast : (desired.rows.filter fun entry => entry.1 = k).getLast? with
  | some entry =>
    have hmem := List.mem_filter.mp (List.mem_of_getLast? hlast)
    exact (Table.get?_eq_some_iff.mpr ⟨hmem.1, of_decide_eq_true hmem.2⟩).symm
  | none =>
    have hnone : desired.get? k = none := by
      refine Option.eq_none_iff_forall_ne_some.mpr fun entry hentry => ?_
      obtain ⟨hmem, hkey⟩ := Table.get?_eq_some_iff.mp hentry
      exact List.filter_eq_nil_iff.mp (List.getLast?_eq_none_iff.mp hlast) entry hmem
        (decide_eq_true hkey)
    rw [Option.none_or, hnone]
    refine Table.get?_deleteWhere_of_true fun entry hentry => ?_
    rw [hentry, hnone]
    rfl

variable {entry : Str × WorkloadRecord}

theorem mem_iff_get? {ws : Workloads} : entry ∈ ws ↔ ws.get? entry.1 = some entry := by
  rw [Table.get?_eq_some_iff]
  exact (and_iff_left rfl).symm

theorem mem_workloads_reconcile :
    entry ∈ (reconcileAgainstRecords env r records).workloads ↔
      entry ∈ desiredRecords env records := by
  rw [mem_iff_get?, mem_iff_get?]
  show (List.foldl _ _ _ : Workloads).get? entry.1 = _ ↔ _
  rw [get?_reconcile]

theorem exists_of_mem_desired (h : entry ∈ desiredRecords env records) :
    entry.2.uuid = entry.1 ∧ ∃ rec ∈ records, normalizeReconcileRecord env rec = some entry.2 := by
  rcases Table.mem_or_mem_of_mem_upsertAll h with hmem | ⟨hmem, -⟩
  · obtain ⟨new, hnew, rfl⟩ := List.mem_map.mp hmem
    obtain ⟨rec, hrec, hnormal⟩ := List.mem_filterMap.mp hnew
    exact ⟨rfl, rec, hrec, hnormal⟩
  · cases hmem

theorem normal_of_mem_desired (h : entry ∈ desiredRecords env records) : Normal entry.2 := by
  obtain ⟨-, rec, -, hnormal⟩ := exists_of_mem_desired h
  exact normal_of_normalizeReconcileRecord hnormal

theorem indexed_reconcile : Indexed env (reconcileAgainstRecords env r records) := by
  refine indexed_rebuildIndex (fun entry hentry => ?_) fun entry hentry => ?_
  · exact normal_of_mem_desired (mem_workloads_reconcile (r := r) |>.mp hentry)
  · exact (exists_of_mem_desired (mem_workloads_reconcile (r := r) |>.mp hentry)).1

theorem Indexed.runReconcileOnce (h : Indexed env r)
    (answer : Option (Except Str (List WorkloadRecord))) :
    Indexed env (runReconcileOnce env r answer) := by
  unfold DnsResolver.runReconcileOnce
  split
  · exact h
  · exact h
  · dsimp only
    split_ifs
    · exact ⟨h.normal, h.key, h.ids⟩
    · exact indexed_reconcile

/-! ## Answers -/

structure Answers (env : Env Addr) (wl : WorkloadRecord) (name : Str) : Prop where
  named : name ∈ aliasesForWorkload env wl
  active : wl.active = true
  ip : trimSpace wl.ip ≠ []

variable {wl : WorkloadRecord} {scope name : Str}

theorem Indexed.mem_activeRecords (h : Indexed env r) :
    wl ∈ activeRecords r (r.index.ids scope name) ↔
      ∃ id, (id, wl) ∈ r.workloads ∧ wl.scope = scope ∧ Answers env wl name := by
  unfold activeRecords
  simp only [List.mem_filter, List.mem_filterMap, Option.map_eq_some_iff, Bool.and_eq_true,
    bne_iff_ne, h.ids]
  constructor
  · rintro ⟨⟨id, ⟨wl', hwl', hs, hn⟩, ⟨id', wl''⟩, hget, rfl⟩, hactive, hip⟩
    obtain ⟨hmem, rfl⟩ := mem_get? hget
    cases Table.eq_of_key_eq hwl' hmem rfl
    exact ⟨_, hmem, hs.symm, hn, hactive, hip⟩
  · rintro ⟨id, hmem, rfl, hn, hactive, hip⟩
    exact ⟨⟨id, ⟨wl, hmem, rfl, hn⟩, (id, wl), Table.get?_eq_some_iff.mpr ⟨hmem, rfl⟩, rfl⟩,
      hactive, hip⟩

variable {active : List WorkloadRecord}

theorem mem_of_mem_distinctIPs (h : wl ∈ distinctIPs active) : wl ∈ active := by
  have hfold : ∀ (active seen : List WorkloadRecord), wl ∈ active.foldl (fun seen wl =>
      if seen.any (·.ip == wl.ip) then seen else seen ++ [wl]) seen → wl ∈ seen ∨ wl ∈ active := by
    intro active
    induction active with
    | nil => exact fun seen h => .inl h
    | cons x active ih =>
      intro seen h
      rcases ih _ h with h | h
      · dsimp only at h
        split_ifs at h
        · exact .inl h
        · rcases List.mem_append.mp h with h | h
          · exact .inl h
          · exact .inr (by simp [List.mem_singleton.mp h])
      · exact .inr (List.mem_cons_of_mem _ h)
  exact (hfold active [] h).resolve_left List.not_mem_nil

theorem exists_mem_distinctIPs (h : wl ∈ active) : ∃ wl' ∈ distinctIPs active, wl'.ip = wl.ip := by
  have hfold : ∀ (active seen : List WorkloadRecord),
      (∃ wl' ∈ seen, wl'.ip = wl.ip) ∨ wl ∈ active →
        ∃ wl' ∈ active.foldl (fun seen wl =>
          if seen.any (·.ip == wl.ip) then seen else seen ++ [wl]) seen, wl'.ip = wl.ip := by
    intro active
    induction active with
    | nil => exact fun seen h => h.resolve_right List.not_mem_nil
    | cons x active ih =>
      intro seen h
      refine ih _ ?_
      rcases h with ⟨wl', hwl', hip⟩ | h
      · refine .inl ⟨wl', ?_, hip⟩
        dsimp only
        split_ifs
        · exact hwl'
        · exact List.mem_append_left _ hwl'
      · rcases List.mem_cons.mp h with rfl | h
        · left
          dsimp only
          split_ifs with hseen
          · obtain ⟨wl', hwl', hip⟩ := List.any_eq_true.mp hseen
            exact ⟨wl', hwl', beq_iff_eq.mp hip⟩
          · exact ⟨wl, by simp, rfl⟩
        · exact .inr h
  exact hfold active [] (.inr h)

theorem startedLater_iff {x y : WorkloadRecord} :
    startedLater x y = true ↔
      y.startedAt < x.startedAt ∨ x.startedAt = y.startedAt ∧ strLe x.uuid y.uuid = true := by
  unfold startedLater
  split_ifs with h
  · simp [h]
  · simp [h]

theorem startedLater_trans (x y z : WorkloadRecord) (hxy : startedLater x y = true)
    (hyz : startedLater y z = true) : startedLater x z = true := by
  rw [startedLater_iff] at *
  rcases hxy with hxy | ⟨hxy, hxy'⟩
  · rcases hyz with hyz | ⟨hyz, -⟩ <;> exact .inl (by omega)
  · rcases hyz with hyz | ⟨hyz, hyz'⟩
    · exact .inl (by omega)
    · exact .inr ⟨by omega, strLe_trans hxy' hyz'⟩

theorem startedLater_total (x y : WorkloadRecord) :
    (startedLater x y || startedLater y x) = true := by
  rw [Bool.or_eq_true, startedLater_iff, startedLater_iff]
  rcases Int.lt_trichotomy x.startedAt y.startedAt with h | h | h
  · exact .inr (.inl h)
  · exact (strLe_total x.uuid y.uuid).imp (fun hle => .inr ⟨h, hle⟩) fun hle => .inr ⟨h.symm, hle⟩
  · exact .inl (.inl h)

theorem uuid_eq_of_startedLater {x y : WorkloadRecord} (hxy : startedLater x y = true)
    (hyx : startedLater y x = true) : x.uuid = y.uuid := by
  rw [startedLater_iff] at *
  rcases hxy with hxy | ⟨hxy, hle⟩
  · rcases hyx with hyx | ⟨hyx, -⟩ <;> omega
  · rcases hyx with hyx | ⟨-, hle'⟩
    · omega
    · exact strLe_antisymm hle hle'

theorem pickReservedTarget_spec {best : WorkloadRecord}
    (h : pickReservedTarget active = some best) :
    best ∈ active ∧ ∀ wl ∈ active, startedLater best wl = true := by
  have hsorted := List.pairwise_mergeSort startedLater_trans startedLater_total active
  obtain ⟨rest, hrest⟩ := List.head?_eq_some_iff.mp h
  have hmem : ∀ wl, wl ∈ active ↔ wl = best ∨ wl ∈ rest := by
    intro wl
    rw [← List.mem_cons, ← hrest]
    exact List.mem_mergeSort.symm
  rw [hrest, List.pairwise_cons] at hsorted
  refine ⟨(hmem best).mpr (.inl rfl), fun wl hwl => ?_⟩
  rcases (hmem wl).mp hwl with rfl | hwl
  · simpa using startedLater_total wl wl
  · exact hsorted.1 wl hwl

theorem exists_pickReservedTarget
    (h : wl ∈ active) : ∃ best, pickReservedTarget active = some best := by
  rw [← Option.isSome_iff_exists]
  unfold pickReservedTarget
  rw [List.isSome_head?]
  intro hnil
  have hmem : wl ∈ active.mergeSort startedLater := List.mem_mergeSort.mpr h
  rw [hnil] at hmem
  cases hmem

theorem mem_active_of_mem_targets
    (h : wl ∈ targets r scope name) : wl ∈ activeRecords r (lookupIDs r scope name) := by
  unfold targets at h
  dsimp only at h
  split_ifs at h
  · exact (pickReservedTarget_spec (Option.mem_toList.mp h)).1
  · exact mem_of_mem_distinctIPs h

/-! ## What should be found -/

structure Valid (env : Env Addr) (w : WorkloadRecord) (addr : Addr) : Prop where
  active : w.active = true
  bridge : w.hostNetwork = false
  ip : env.parseAddr (trimSpace w.ip) = some addr

/-- The names by which a workload should be found: its application and name, and its UUID, each
also in the default zone. -/
def queryNames (env : Env Addr) (w : WorkloadRecord) : List Str :=
  addNames env (ownNames { w with
    uuid := trimSpace w.uuid
    application := trimSpace w.application
    name := trimSpace w.name })

def Fits (env : Env Addr) (addr : Addr) : QType → Bool
  | .a => env.is4 addr
  | .aaaa => !env.is4 addr
  | .any => true

def Answered (env : Env Addr) (r : Resolver) (name : Str) (addr : Addr) : Prop :=
  ∀ qtype, Fits env addr qtype = true →
    ∃ rr ∈ (resolveInternal env r scopeManaged name qtype).2.1, rr.addr = addr

def Current (env : Env Addr) (r : Resolver) (records : List WorkloadRecord) (name : Str) : Prop :=
  isHostReservedName env name = false →
    ∀ wl ∈ targets r scopeManaged name, ∃ rec ∈ records, trimSpace rec.uuid = wl.uuid

/-- **The resolver has converged to the snapshot.** -/
def Converged (env : Env Addr) (r : Resolver) (records : List WorkloadRecord) : Prop :=
  ∀ w ∈ records, ∀ addr, Valid env w addr → ∀ name ∈ queryNames env w,
    Answered env r name addr ∧ Current env r records name

def survivors (env : Env Addr) (records : List WorkloadRecord) : Workloads :=
  desiredRecords env (records.filter fun rec => rec.scope ≠ scopeLocal)

/-- **What the survivors would answer**: one of them has the name and the address. For a reserved
role it is the one that was started last, and a name of the host is answered by the host. -/
def Served (env : Env Addr) (records : List WorkloadRecord) (addr : Addr) (name : Str) : Prop :=
  if isHostReservedName env name = true then env.parseAddr (trimSpace env.hostIP) = some addr
  else ∃ entry ∈ survivors env records, Answers env entry.2 name ∧
    env.parseAddr (trimSpace entry.2.ip) = some addr ∧
    (isReservedRoleName name = true → ∀ other ∈ survivors env records,
      Answers env other.2 name → startedLater entry.2 other.2 = true)

/-! ## Answers with an address -/

variable {addr : Addr} {qtype : QType}

theorem exists_mem_rrFromIP (name : Str) {ip : Str} (h : env.parseAddr (trimSpace ip) = some addr)
    (hfits : Fits env addr qtype = true) : ∃ rr ∈ rrFromIP env name ip qtype, rr.addr = addr := by
  unfold rrFromIP
  rw [h]
  cases qtype with
  | a =>
    have h4 : env.is4 addr = true := hfits
    simp [h4]
  | aaaa =>
    have h6 : env.is4 addr = false := Bool.not_eq_true' _ ▸ hfits
    simp [h6]
  | any => simp

theorem parseAddr_of_mem_rrFromIP {name ip : Str} {rr : RR Addr}
    (h : rr ∈ rrFromIP env name ip qtype) : env.parseAddr (trimSpace ip) = some rr.addr := by
  unfold rrFromIP at h
  split at h
  · cases h
  next addr haddr =>
    have hrr : rr.addr = addr := by
      split at h <;> (try split_ifs at h) <;>
        first | cases h; done | (rw [List.mem_singleton] at h; rw [h])
    rw [haddr, hrr]

theorem answered_of_host {name : Str} (hhost : isHostReservedName env name = true) :
    Answered env r name addr ↔ env.parseAddr (trimSpace env.hostIP) = some addr := by
  unfold Answered resolveInternal
  simp only [hhost, if_true]
  constructor
  · intro h
    obtain ⟨rr, hrr, rfl⟩ := h .any rfl
    exact parseAddr_of_mem_rrFromIP hrr
  · exact fun h qtype hfits => exists_mem_rrFromIP name h hfits

theorem answer_eq_flatMap (hhost : isHostReservedName env name = false) :
    (resolveInternal env r scope name qtype).2.1 =
      (targets r scope name).flatMap fun wl => rrFromIP env name wl.ip qtype := by
  unfold resolveInternal
  rw [if_neg (by simp [hhost])]
  by_cases hids : lookupIDs r scope name = []
  · have hnone : targets r scope name = [] := by
      rw [List.eq_nil_iff_forall_not_mem]
      intro wl hwl
      have hmem := mem_active_of_mem_targets hwl
      rw [hids] at hmem
      cases hmem
    rw [if_pos hids, hnone]
    rfl
  · rw [if_neg hids]

theorem answered_iff_targets {name : Str} (hhost : isHostReservedName env name = false) :
    Answered env r name addr ↔
      ∃ wl ∈ targets r scopeManaged name, env.parseAddr (trimSpace wl.ip) = some addr := by
  unfold Answered
  simp only [answer_eq_flatMap hhost, List.mem_flatMap]
  constructor
  · intro h
    obtain ⟨rr, ⟨wl, hwl, hrr⟩, rfl⟩ := h .any rfl
    exact ⟨wl, hwl, parseAddr_of_mem_rrFromIP hrr⟩
  · rintro ⟨wl, hwl, haddr⟩ qtype hfits
    obtain ⟨rr, hrr, hr⟩ := exists_mem_rrFromIP name haddr hfits
    exact ⟨rr, ⟨wl, hwl, hrr⟩, hr⟩

/-! ## After a reconcile -/

theorem filterRecords_updateScopePolicy (h : ∃ rec ∈ records, rec.hostNetwork = false) :
    filterRecordsByEnabledScopes (updateScopePolicy r records) records =
      records.filter fun rec => rec.scope ≠ scopeLocal := by
  have hmanaged : records.any (fun rec => !rec.hostNetwork) = true := by
    obtain ⟨rec, hrec, hbridge⟩ := h
    exact List.any_eq_true.mpr ⟨rec, hrec, by simp [hbridge]⟩
  have hne : scopeLocal ≠ scopeManaged := by decide
  refine List.filter_congr fun rec _ => ?_
  by_cases hscope : rec.scope = scopeLocal
  · simp [isScopeEnabled, updateScopePolicy, normalizeScope, hscope, hne]
  · simp [isScopeEnabled, updateScopePolicy, normalizeScope, hscope, hmanaged]

theorem scope_survivors (h : entry ∈ survivors env records) : entry.2.scope = scopeManaged := by
  obtain ⟨-, rec, hrec, hnormal⟩ := exists_of_mem_desired h
  have hscope : rec.scope ≠ scopeLocal := by simpa using (List.mem_filter.mp hrec).2
  rw [(normalizeReconcileRecord_eq_some hnormal).2]
  exact if_neg hscope

section Reconciled

variable (hbridge : ∃ rec ∈ records, rec.hostNetwork = false)
  (hmanaged : (records.filter fun rec => rec.scope ≠ scopeLocal) ≠ [])

include hbridge hmanaged

theorem mem_activeRecords_reconcile (name : Str) (wl : WorkloadRecord) :
    let r' := runReconcileOnce env r (some (.ok records))
    wl ∈ activeRecords r' (lookupIDs r' scopeManaged name) ↔
      ∃ id, (id, wl) ∈ survivors env records ∧ Answers env wl name := by
  have hr' : runReconcileOnce env r (some (.ok records)) = reconcileAgainstRecords env
      (updateScopePolicy r records) (records.filter fun rec => rec.scope ≠ scopeLocal) := by
    unfold runReconcileOnce
    dsimp only
    rw [filterRecords_updateScopePolicy hbridge, if_neg hmanaged]
  rw [hr']
  intro r'
  have hindexed : Indexed env r' := indexed_reconcile
  have hmem : ∀ entry, entry ∈ r'.workloads ↔ entry ∈ survivors env records :=
    fun entry => mem_workloads_reconcile
  have hscope : ∀ entry ∈ r'.workloads, entry.2.scope = scopeManaged :=
    fun entry hentry => scope_survivors ((hmem entry).mp hentry)
  have hlocal : r'.index.ids scopeLocal name = [] := by
    rw [List.eq_nil_iff_forall_not_mem]
    intro id hid
    obtain ⟨wl, hwl, hs, -⟩ := (hindexed.ids _ _ _).mp hid
    exact absurd (hs.trans (hscope _ hwl)) (by decide)
  have hlookup : lookupIDs r' scopeManaged name = r'.index.ids scopeManaged name := by
    unfold lookupIDs
    split_ifs with hempty
    · rw [hlocal, hempty.1]
    · rfl
  rw [hlookup, hindexed.mem_activeRecords]
  refine exists_congr fun id => ?_
  rw [hmem]
  exact and_congr_right fun h => and_iff_right (scope_survivors h)

theorem answered_reconcile_iff {name : Str} {addr : Addr} :
    Answered env (runReconcileOnce env r (some (.ok records))) name addr ↔
      Served env records addr name := by
  unfold Served
  split_ifs with hhost
  · exact answered_of_host hhost
  rw [Bool.not_eq_true] at hhost
  rw [answered_iff_targets hhost]
  have hactive : ∀ wl, _ ↔ ∃ id, (id, wl) ∈ survivors env records ∧ Answers env wl name :=
    mem_activeRecords_reconcile (r := r) hbridge hmanaged name
  unfold targets
  dsimp only
  split_ifs with hrole
  · constructor
    · rintro ⟨wl, hwl, haddr⟩
      obtain ⟨hmem, hbest⟩ := pickReservedTarget_spec (Option.mem_toList.mp hwl)
      obtain ⟨id, hid, hans⟩ := (hactive wl).mp hmem
      refine ⟨(id, wl), hid, hans, haddr, fun _ other hother hans' => ?_⟩
      exact hbest _ ((hactive other.2).mpr ⟨other.1, hother, hans'⟩)
    · rintro ⟨entry, hentry, hans, haddr, hfirst⟩
      have hmem := (hactive entry.2).mpr ⟨entry.1, hentry, hans⟩
      obtain ⟨best, hbest⟩ := exists_pickReservedTarget hmem
      obtain ⟨hmem', hle⟩ := pickReservedTarget_spec hbest
      obtain ⟨id, hid, hans'⟩ := (hactive best).mp hmem'
      have huuid : best.uuid = entry.2.uuid :=
        uuid_eq_of_startedLater (hle _ hmem) (hfirst hrole (id, best) hid hans')
      have hkey : (id, best) = entry := by
        refine Table.eq_of_key_eq hid hentry ?_
        have h₁ := (exists_of_mem_desired hid).1
        have h₂ := (exists_of_mem_desired hentry).1
        exact h₁.symm.trans (huuid.trans h₂)
      refine ⟨best, Option.mem_toList.mpr hbest, ?_⟩
      rw [← haddr, ← hkey]
  · constructor
    · rintro ⟨wl, hwl, haddr⟩
      obtain ⟨id, hid, hans⟩ := (hactive wl).mp (mem_of_mem_distinctIPs hwl)
      exact ⟨(id, wl), hid, hans, haddr, fun h => absurd h hrole⟩
    · rintro ⟨entry, hentry, hans, haddr, -⟩
      obtain ⟨wl, hwl, hip⟩ :=
        exists_mem_distinctIPs ((hactive entry.2).mpr ⟨entry.1, hentry, hans⟩)
      exact ⟨wl, hwl, by rw [hip, haddr]⟩

theorem current_reconcile (name : Str) :
    Current env (runReconcileOnce env r (some (.ok records))) records name := by
  intro _ wl hwl
  obtain ⟨id, hid, -⟩ := (mem_activeRecords_reconcile hbridge hmanaged name wl).mp
    (mem_active_of_mem_targets hwl)
  obtain ⟨-, rec, hrec, hnormal⟩ := exists_of_mem_desired hid
  refine ⟨rec, (List.mem_filter.mp hrec).1, ?_⟩
  exact (congrArg WorkloadRecord.uuid (normalizeReconcileRecord_eq_some hnormal).2).symm

end Reconciled

theorem targets_initial_of_no_managed (hbridge : ∃ rec ∈ records, rec.hostNetwork = false)
    (h : (records.filter fun rec => rec.scope ≠ scopeLocal) = []) (name : Str) :
    targets (runReconcileOnce env initial (some (.ok records))) scopeManaged name = [] := by
  have hr : runReconcileOnce env initial (some (.ok records)) =
      updateScopePolicy initial records := by
    unfold runReconcileOnce
    dsimp only
    rw [filterRecords_updateScopePolicy hbridge, if_pos h]
  rw [hr, List.eq_nil_iff_forall_not_mem]
  intro wl hwl
  have hmem := mem_active_of_mem_targets hwl
  have hids : lookupIDs (updateScopePolicy initial records) scopeManaged name = [] := by
    unfold lookupIDs
    split_ifs <;> rfl
  rw [hids] at hmem
  cases hmem

/-- **Which snapshots are served after a reconcile**, whatever the resolver held before: those in
which every active bridge workload with a valid address has a managed record, the last one of its
UUID, that answers with its address for each of its names. -/
theorem converged_iff_served (env : Env Addr) (records : List WorkloadRecord)
    (hbridge : ∃ rec ∈ records, rec.hostNetwork = false) :
    (∀ r, Converged env (runReconcileOnce env r (some (.ok records))) records) ↔
      ∀ w ∈ records, ∀ addr, Valid env w addr → ∀ name ∈ queryNames env w,
        Served env records addr name := by
  by_cases hmanaged : (records.filter fun rec => rec.scope ≠ scopeLocal) = []
  · constructor
    · intro h w hw addr hvalid name hname
      have hanswered := (h initial w hw addr hvalid name hname).1
      unfold Served
      split_ifs with hhost
      · exact (answered_of_host hhost).mp hanswered
      · rw [answered_iff_targets (Bool.not_eq_true _ ▸ hhost),
          targets_initial_of_no_managed hbridge hmanaged] at hanswered
        obtain ⟨wl, hwl, -⟩ := hanswered
        cases hwl
    · intro h r w hw addr hvalid name hname
      have hserved := h w hw addr hvalid name hname
      unfold Served at hserved
      split_ifs at hserved with hhost
      · refine ⟨(answered_of_host hhost).mpr hserved, fun hnot => ?_⟩
        rw [hhost] at hnot
        cases hnot
      · obtain ⟨entry, hentry, -⟩ := hserved
        obtain ⟨-, rec, hrec, -⟩ := exists_of_mem_desired hentry
        rw [hmanaged] at hrec
        cases hrec
  · constructor
    · intro h w hw addr hvalid name hname
      exact (answered_reconcile_iff hbridge hmanaged).mp (h initial w hw addr hvalid name hname).1
    · intro h r w hw addr hvalid name hname
      exact ⟨(answered_reconcile_iff hbridge hmanaged).mpr (h w hw addr hvalid name hname),
        current_reconcile hbridge hmanaged name⟩

theorem served_of_managed {w : WorkloadRecord} {name : Str} (hw : w ∈ records)
    (hscope : w.scope ≠ scopeLocal) (huuid : trimSpace w.uuid ≠ [])
    (hdistinct : ∀ rec ∈ records, trimSpace rec.uuid = trimSpace w.uuid → rec = w)
    (hvalid : Valid env w addr) (hname : name ∈ queryNames env w)
    (hhost : isHostReservedName env name = false) (hrole : isReservedRoleName name = false) :
    Served env records addr name := by
  have hkept : ∃ new, normalizeReconcileRecord env w = some new := by
    unfold normalizeReconcileRecord
    rw [if_neg huuid]
    exact ⟨_, rfl⟩
  obtain ⟨new, hnew⟩ := hkept
  have hmem : new ∈ (records.filter fun rec => rec.scope ≠ scopeLocal).filterMap
      (normalizeReconcileRecord env) :=
    List.mem_filterMap.mpr ⟨w, List.mem_filter.mpr ⟨hw, decide_eq_true hscope⟩, hnew⟩
  have hlisted : (new.uuid, new) ∈ ((records.filter fun rec => rec.scope ≠ scopeLocal).filterMap
      (normalizeReconcileRecord env)).map fun rec => (rec.uuid, rec) :=
    List.mem_map_of_mem hmem
  obtain ⟨entry, hentry, hkey, -⟩ : ∃ entry ∈ survivors env records, entry.1 = new.uuid ∧ _ :=
    Table.exists_mem_upsertAll hlisted
  obtain ⟨hold, rec, hrec, hnormal⟩ := exists_of_mem_desired hentry
  obtain ⟨-, hfields⟩ := normalizeReconcileRecord_eq_some hnew
  have hsame : rec = w := by
    refine hdistinct rec (List.mem_filter.mp hrec).1 ?_
    have h₁ := congrArg WorkloadRecord.uuid (normalizeReconcileRecord_eq_some hnormal).2
    have h₂ := congrArg WorkloadRecord.uuid hfields
    exact (h₁.symm.trans (hold.trans hkey)).trans h₂
  have hvalue : entry.2 = new := by
    rw [hsame, hnew] at hnormal
    exact (Option.some.inj hnormal).symm
  have hip : trimSpace w.ip ≠ [] := by
    intro hnil
    have haddr := hvalid.ip
    rw [hnil, env.parseAddr_nil] at haddr
    cases haddr
  have hnewip : trimSpace new.ip = trimSpace w.ip := by
    rw [hfields]
    show trimSpace (if w.hostNetwork = true ∧ trimSpace w.ip = [] then _ else _) = _
    rw [if_neg fun h => hip h.2, trimSpace_trimSpace]
  unfold Served
  rw [if_neg (by simp [hhost])]
  refine ⟨entry, hentry, ?_, ?_, fun h => absurd h (by simp [hrole])⟩
  · rw [hvalue]
    refine ⟨?_, by rw [hfields]; exact hvalid.active, by rwa [hnewip]⟩
    rw [hfields]
    unfold aliasesForWorkload addNames
    unfold queryNames addNames at hname
    obtain ⟨hmem', hne⟩ := List.mem_filter.mp hname
    refine List.mem_filter.mpr ⟨?_, hne⟩
    rw [List.map_append, List.map_append, List.map_append]
    exact List.mem_append_left _ (List.mem_append_left _ (List.mem_append_left _ hmem'))
  · rw [hvalue, hnewip]
    exact hvalid.ip

/-! ### A local workload -/

def textEnv : Env Str where
  lower := Char.toLower
  parseAddr ip := if ip = [] then none else some ip
  is4 _ := true
  hostIP := "10.88.0.1".toList
  compat := false
  lower_ascii := Models.Platform.ascii.lower_ascii
  parseAddr_nil := rfl
  parseAddr_loopback := rfl

def shopDb (uuid scope ip : String) : WorkloadRecord where
  uuid := uuid.toList
  application := "shop".toList
  name := "db".toList
  scope := scope.toList
  ip := ip.toList
  hostNetwork := false
  isRouter := false
  isNats := false
  isController := false
  active := true
  startedAt := 1

def shop : WorkloadRecord := shopDb "u1" "edgelet" "10.88.0.2"

def localShop : WorkloadRecord := shopDb "u1" "iofog-local" "10.88.0.2"

/-- A managed workload is found. -/
theorem converged_iff_served_managed :
    Converged textEnv (runReconcileOnce textEnv initial (some (.ok [shop]))) [shop] := by
  refine (converged_iff_served textEnv _ ⟨_, List.mem_singleton_self _, rfl⟩).mpr ?_ initial
  intro w hw addr hvalid name hname
  cases List.mem_singleton.mp hw
  have hplain : isHostReservedName textEnv name = false ∧ isReservedRoleName name = false := by
    revert name
    exact of_decide_eq_true rfl
  refine served_of_managed (List.mem_singleton_self _) (by decide) (by decide)
    (fun rec hrec _ => List.mem_singleton.mp hrec) hvalid hname hplain.1 hplain.2

/-- A local workload is not found; and a workload that is gone, with the name of a local one, is
still answered. -/
theorem local_workload_dropped :
    ¬ Converged textEnv (runReconcileOnce textEnv initial (some (.ok [localShop]))) [localShop] ∧
      (targets (runReconcileOnce textEnv
          (upsertWorkload textEnv initial (shopDb "u0" "edgelet" "10.88.0.9"))
          (some (.ok [localShop])))
        scopeManaged "shop.db".toList).map (·.uuid) = ["u0".toList] := by
  refine ⟨fun h => ?_, rfl⟩
  have hfound := (h _ (List.mem_singleton_self _) "10.88.0.2".toList ⟨rfl, rfl, rfl⟩
    "shop.db".toList (of_decide_eq_true rfl)).1 .any rfl
  obtain ⟨rr, hrr, -⟩ := hfound
  have hnone : (resolveInternal textEnv (runReconcileOnce textEnv initial
      (some (.ok [localShop]))) scopeManaged "shop.db".toList .any).2.1.length = 0 := rfl
  rw [List.length_eq_zero_iff.mp hnone] at hrr
  cases hrr

end Edgelet.DnsResolver
