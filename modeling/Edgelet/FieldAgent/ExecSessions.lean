import Edgelet.Machine.Run
import Edgelet.ProcessManager.ExecRegistry

/-!
# The exec sessions of the controller

The session manager attaches each exec session of the controller to a shell. Its lock is released
while a session is stopped, a connection is made, and an exec is created; a step is a stretch
between two of these points. A start registers the exec after it has put the entry in place, so a
stop in between finds no exec, and the shell then belongs to no entry.

Of a connection only whether it is made is kept; the stop of all sessions of one microservice is
left out.
-/

namespace Edgelet.FieldAgent.ExecSessions

open Lexical Keyed Machine ProcessManager ExecSessionRegistry

structure ExecSession where
  sessionID : Str
  microserviceUUID : Str
  status : Str
  agentConnected : Bool
  deriving DecidableEq

def maxControllerExecSessionsPerMS : ℕ := 3

structure Manager where
  activeSessions : Table ExecSession.sessionID
  webSocketHandlers : List Str
  processManager : Bool
  registry : ExecSessionRegistry

namespace Manager

variable (m : Manager)

def countControllerSessionsForMS (msUUID : Str) : ℕ :=
  m.activeSessions.rows.countP (·.microserviceUUID == msUUID)

def removeExecSessionStateLocked (sessionID : Str) : Manager :=
  { m with activeSessions := m.activeSessions.deleteWhere (·.sessionID == sessionID)
           webSocketHandlers := m.webSocketHandlers.filter (· != sessionID) }

end Manager

structure Answers where
  isConnected : Str → Bool
  handler : Str → Bool
  connect : Bool
  container : Except ExecSessionError Str
  /-- The exec that the engine creates, `none` on an error. -/
  createExec : Option Str
  running : Bool

inductive After
  | returns
  | scanning (rows : List ExecSession)
  deriving DecidableEq

inductive Thread
  | stopping (ids : List Str) (after : After)
  /-- The entry is gone, its exec is not released yet; `pm` says whether there is somebody to ask.
  -/
  | teardown (id : Str) (pm : Bool) (ids : List Str) (after : After)
  | connecting (session : ExecSession) (rest : List ExecSession)
  | reconnecting (rest : List ExecSession)
  | registering (session : ExecSession) (rest : List ExecSession)
  | creating (session : ExecSession) (rest : List ExecSession)
  | awaiting (session : ExecSession) (rest : List ExecSession)
  | created (session : ExecSession) (rest : List ExecSession) (ok : Bool)

def Thread.next (ids : List Str) (after : After) : Option Thread :=
  if ids = [] ∧ after = .returns then none else some (.stopping ids after)

def abandon (m : Manager) (session : ExecSession) (rest : List ExecSession) :
    Manager × Option Thread :=
  (m.removeExecSessionStateLocked session.sessionID,
    some (.teardown session.sessionID m.processManager [] (.scanning rest)))

def scan (ans : Answers) : Manager → List ExecSession → Manager × Option Thread
  | m, [] => (m, none)
  | m, session :: rest =>
    let id := session.sessionID
    match m.activeSessions.get? id with
    | some _ =>
      let m := { m with activeSessions := m.activeSessions.upsert session }
      if m.webSocketHandlers.contains id && !ans.isConnected id then (m, some (.reconnecting rest))
      else scan ans m rest
    | none =>
      if maxControllerExecSessionsPerMS ≤
          m.countControllerSessionsForMS session.microserviceUUID then scan ans m rest
      else if m.processManager = false then scan ans m rest
      else
        let m := { m with activeSessions := m.activeSessions.upsert session }
        if ans.handler id then
          ({ m with webSocketHandlers := id :: m.webSocketHandlers },
            some (.connecting session rest))
        else abandon m session rest

variable (ans : Answers) (pm : Bool)

/-- **One step of a thread**, up to the next point where it has released the lock. -/
def advance (m : Manager) : Thread → Manager × Option Thread
  | .stopping (id :: ids) after =>
    (m.removeExecSessionStateLocked id, some (.teardown id m.processManager ids after))
  | .stopping [] .returns => (m, none)
  | .stopping [] (.scanning rows) => scan ans m rows
  | .teardown id pm ids after =>
    (if pm then { m with registry := releaseExecSession m.registry id .controller } else m,
      Thread.next ids after)
  | .connecting session rest =>
    if ans.connect then (m, some (.registering session rest)) else abandon m session rest
  | .reconnecting rest => scan ans m rest
  | .registering session rest =>
    match registerExecSession m.registry session.sessionID session.microserviceUUID
        ans.container with
    | .error _ => (m, some (.created session rest false))
    | .ok registry => ({ m with registry := registry }, some (.creating session rest))
  | .creating session rest =>
    match ans.createExec.map trimSpace with
    | none | some [] =>
      ({ m with registry := m.registry.remove session.sessionID },
        some (.created session rest false))
    | some execID =>
      ({ m with registry := m.registry.setRuntimeExecID session.sessionID execID },
        some (.awaiting session rest))
  | .awaiting session rest =>
    if ans.running then
      ({ m with registry := m.registry.markStarted session.sessionID },
        some (.created session rest true))
    else
      ({ m with registry := m.registry.remove session.sessionID },
        some (.created session rest false))
  | .created session rest ok => if ok then scan ans m rest else abandon m session rest

def Thread.starting : Thread → Option Str
  | .connecting session _ | .registering session _ | .creating session _ | .awaiting session _
  | .created session _ _ => some session.sessionID
  | _ => none

def Thread.stopTarget : Thread → Option Str
  | .stopping (id :: _) _ => some id
  | _ => none

structure State where
  manager : Manager
  threads : List Thread

def initial : State := ⟨⟨Table.empty _, [], pm, Table.empty _⟩, []⟩

inductive Event
  /-- A call with the sessions that the controller lists, and the order in which the map of the
  entries is iterated. -/
  | handleExecSessions (fetched : List ExecSession) (order : List Str)
  | stopExecSession (id : Str)
  | setProcessManager
  | advance (n : ℕ) (ans : Answers)
  | registerLocal (rec : ExecSessionRecord)
  | removeRecord (id : Str)

def step (s : State) : Event → Option State
  | .handleExecSessions fetched order =>
    if order.Perm (s.manager.activeSessions.rows.map (·.sessionID)) then
      let gone := order.filter fun id => !(fetched.map (·.sessionID)).contains id
      some { s with threads := s.threads ++ [.stopping gone (.scanning fetched)] }
    else none
  | .stopExecSession id =>
    some ⟨s.manager.removeExecSessionStateLocked id,
      s.threads ++ [.teardown id s.manager.processManager [] .returns]⟩
  | .setProcessManager => some { s with manager := { s.manager with processManager := true } }
  | .advance n ans =>
    (s.threads[n]?).map fun t =>
      ⟨(advance ans s.manager t).1, replaceAt s.threads n (advance ans s.manager t).2⟩
  | .registerLocal rec =>
    match s.manager.registry.register { rec with owner := .localAPI } with
    | .error _ => some s
    | .ok registry => some { s with manager := { s.manager with registry := registry } }
  | .removeRecord id =>
    some { s with manager := { s.manager with registry := s.manager.registry.remove id } }

/-! ## What a step can do -/

variable {home : Str → Str} {s s' : State} {m m' : Manager} {t : Thread} {t' : Option Thread}

def Manager.HasEntry (m : Manager) (id : Str) : Prop :=
  ∃ a ∈ m.activeSessions, a.sessionID = id

variable {session : ExecSession} {id : Str}

theorem hasEntry_upsert :
    ({ m with activeSessions := m.activeSessions.upsert session } : Manager).HasEntry id ↔
      m.HasEntry id ∨ session.sessionID = id := by
  constructor
  · rintro ⟨a, ha, rfl⟩
    rcases Table.mem_upsert.mp ha with rfl | ⟨ha, -⟩
    · exact .inr rfl
    · exact .inl ⟨a, ha, rfl⟩
  · rintro (⟨a, ha, rfl⟩ | rfl)
    · by_cases hid : a.sessionID = session.sessionID
      · exact ⟨session, Table.mem_upsert.mpr (.inl rfl), hid.symm⟩
      · exact ⟨a, Table.mem_upsert.mpr (.inr ⟨ha, hid⟩), rfl⟩
    · exact ⟨session, Table.mem_upsert.mpr (.inl rfl), rfl⟩

theorem hasEntry_remove {id id' : Str} :
    (m.removeExecSessionStateLocked id').HasEntry id ↔ m.HasEntry id ∧ id ≠ id' := by
  constructor
  · rintro ⟨a, ha, rfl⟩
    obtain ⟨ha, hne⟩ := Table.mem_deleteWhere.mp ha
    exact ⟨⟨a, ha, rfl⟩, by simpa using hne⟩
  · rintro ⟨⟨a, ha, rfl⟩, hne⟩
    exact ⟨a, Table.mem_deleteWhere.mpr ⟨ha, by simpa using hne⟩, rfl⟩

theorem hasEntry_of_get? (h : m.activeSessions.get? id = some session) : m.HasEntry id :=
  ⟨session, Table.get?_eq_some_iff.mp h⟩

theorem not_hasEntry_of_get? (h : m.activeSessions.get? id = none) : ¬ m.HasEntry id := by
  rintro ⟨a, ha, hid⟩
  rw [Table.get?_eq_some_iff.mpr ⟨ha, hid⟩] at h
  cases h

/-- What the loop over the listed sessions can do before it releases the lock: it keeps the
registry and every entry, and a session that it starts had no entry and has one now. -/
structure Scanned (m m' : Manager) (t' : Option Thread) : Prop where
  registry : m'.registry = m.registry
  processManager : m'.processManager = m.processManager
  kept : ∀ id, m.HasEntry id → m'.HasEntry id
  started : ∀ u ∈ t', ∀ id ∈ u.starting,
    m.processManager = true ∧ m'.HasEntry id ∧ ¬ m.HasEntry id

theorem hasEntry_refresh {session entry : ExecSession}
    (hget : m.activeSessions.get? session.sessionID = some entry) :
    ({ m with activeSessions := m.activeSessions.upsert session } : Manager).HasEntry id ↔
      m.HasEntry id := by
  rw [hasEntry_upsert, or_iff_left_iff_imp]
  rintro rfl
  exact hasEntry_of_get? hget

theorem scanned_scan (rows : List ExecSession) (m : Manager) :
    Scanned m (scan ans m rows).1 (scan ans m rows).2 := by
  fun_induction scan ans m rows with
  | case1 m => exact ⟨rfl, rfl, fun _ h => h, nofun⟩
  | case2 m session rest id entry hget =>
    refine ⟨rfl, rfl, fun id h => (hasEntry_refresh hget).mpr h, fun u hu => ?_⟩
    cases hu
    exact nofun
  | case3 m session rest id entry hget m₁ hconnected ih =>
    refine ⟨ih.registry, ih.processManager, fun id h => ?_, fun u hu id hid => ?_⟩
    · exact ih.kept id ((hasEntry_refresh hget).mpr h)
    · obtain ⟨hset, hentry, hfresh⟩ := ih.started u hu id hid
      exact ⟨hset, hentry, fun h => hfresh ((hasEntry_refresh hget).mpr h)⟩
  | case4 m session rest id hget hcount ih => exact ih
  | case5 m session rest id hget hcount hset ih => exact ih
  | case6 m session rest id hget hcount hset =>
    refine ⟨rfl, rfl, fun id h => hasEntry_upsert.mpr (.inl h), fun u hu id hid => ?_⟩
    cases hu
    cases hid
    exact ⟨by simpa using hset, hasEntry_upsert.mpr (.inr rfl), not_hasEntry_of_get? hget⟩
  | case7 m session rest id hget hcount hset =>
    refine ⟨rfl, rfl, fun id' h => ?_, fun u hu => ?_⟩
    · refine hasEntry_remove.mpr ⟨hasEntry_upsert.mpr (.inl h), ?_⟩
      rintro rfl
      exact not_hasEntry_of_get? hget h
    · cases hu
      exact nofun

/-- **What a step of a thread can do.** The controller gains a session only from the thread that
starts it; a teardown leaves none; an entry goes only with a teardown of the same session, by the
thread that starts it or by a stop; and a session whose start begins had no entry before. -/
structure Effect (m : Manager) (t : Thread) (m' : Manager) (t' : Option Thread) : Prop where
  processManager : m'.processManager = m.processManager
  held : ∀ id, Held m'.registry id → Held m.registry id ∨ ∃ sid ∈ t.starting, trimSpace sid = id
  released : ∀ sid ids after, t = .teardown sid true ids after →
    ¬ Held m'.registry (trimSpace sid)
  kept : ∀ id, m.HasEntry id → m'.HasEntry id ∨
    (t.starting = some id ∨ t.stopTarget = some id) ∧
      ∃ ids after, t' = some (.teardown id m.processManager ids after)
  started : ∀ u ∈ t', ∀ id ∈ u.starting, t.starting = some id ∨
    m.processManager = true ∧ m'.HasEntry id ∧ ¬ m.HasEntry id

theorem Scanned.effect (h : Scanned m m' t')
    (ht : ∀ sid ids after, t ≠ .teardown sid true ids after) : Effect m t m' t' where
  processManager := h.processManager
  held _ hheld := .inl (h.registry ▸ hheld)
  released sid ids after heq := absurd heq (ht sid ids after)
  kept id hentry := .inl (h.kept id hentry)
  started u hu id hid := .inr (h.started u hu id hid)

theorem effect_remove {ids : List Str} {after : After}
    (ht : t.starting = some id ∨ t.stopTarget = some id) :
    Effect m t (m.removeExecSessionStateLocked id)
      (some (.teardown id m.processManager ids after)) where
  processManager := rfl
  held _ hheld := .inl hheld
  released sid ids after heq := by
    subst heq
    rcases ht with ht | ht <;> cases ht
  kept id' hentry := by
    by_cases hid : id' = id
    · subst hid
      exact .inr ⟨ht, ids, after, rfl⟩
    · exact .inl (hasEntry_remove.mpr ⟨hentry, hid⟩)
  started u hu := by
    cases hu
    exact nofun

theorem effect_registry {u : Thread} {sid : Str} {r : ExecSessionRegistry}
    (ht : t.starting = some sid) (hu : u.starting = some sid)
    (hheld : ∀ id, Held r id → Held m.registry id ∨ trimSpace sid = id) :
    Effect m t { m with registry := r } (some u) where
  processManager := rfl
  held id hid := (hheld id hid).imp_right fun h => ⟨sid, ht, h⟩
  released sid' ids after heq := by
    subst heq
    cases ht
  kept id hentry := .inl hentry
  started v hv id hid := by
    cases hv
    exact .inl (ht.trans (hu.symm.trans hid))

theorem advance_effect (m : Manager) (t : Thread) :
    Effect m t (advance ans m t).1 (advance ans m t).2 := by
  cases t with
  | stopping ids after =>
    cases ids with
    | cons id ids => exact effect_remove (.inr rfl)
    | nil =>
      cases after with
      | returns => exact Scanned.effect ⟨rfl, rfl, fun _ h => h, nofun⟩ nofun
      | scanning rows => exact (scanned_scan ans rows m).effect nofun
  | teardown id pm ids after =>
    have hnext : ∀ u ∈ Thread.next ids after, u.starting = none := by
      intro u hu
      unfold Thread.next at hu
      split at hu
      · cases hu
      · cases hu
        rfl
    refine ⟨?_, fun i hi => .inl ?_, ?_, fun i hi => .inl ?_, fun u hu i hi => ?_⟩
    · cases pm <;> rfl
    · cases pm with
      | false => exact hi
      | true => exact (held_release hi).1
    · rintro _ _ _ ⟨⟩ hheld
      exact (held_release hheld).2 rfl
    · cases pm <;> exact hi
    · rw [hnext u hu] at hi
      cases hi
  | connecting session rest =>
    simp only [advance]
    split
    · exact effect_registry rfl rfl fun _ h => .inl h
    · exact effect_remove (.inl rfl)
  | reconnecting rest => exact (scanned_scan ans rest m).effect nofun
  | registering session rest =>
    simp only [advance]
    split
    · exact effect_registry rfl rfl fun _ h => .inl h
    · rename_i r hr
      exact effect_registry rfl rfl fun _ h => held_register hr h
  | creating session rest =>
    simp only [advance]
    split
    · exact effect_registry rfl rfl fun _ h => .inl (held_remove h).1
    · exact effect_registry rfl rfl fun _ h => .inl (held_remove h).1
    · exact effect_registry rfl rfl fun _ h => .inl (held_setRuntimeExecID h)
  | awaiting session rest =>
    simp only [advance]
    split
    · exact effect_registry rfl rfl fun _ h => .inl (held_markStarted h)
    · exact effect_registry rfl rfl fun _ h => .inl (held_remove h).1
  | created session rest ok =>
    simp only [advance]
    split
    · exact (scanned_scan ans rest m).effect nofun
    · exact effect_remove (.inl rfl)

/-! ## Every exec has its entry -/

/-- **The condition on a step.** The sessions that the controller lists stay with the microservice
that `home` gives them, and a stop does not take the entry from a start that is under way. -/
def Orderly (home : Str → Str) (s : State) : Event → Prop
  | .handleExecSessions fetched _ => ∀ row ∈ fetched, row.microserviceUUID = home row.sessionID
  | .stopExecSession id => ∀ t ∈ s.threads, t.starting ≠ some id
  | .advance n _ => ∀ id ∈ (s.threads[n]?).bind Thread.stopTarget,
      ∀ t ∈ s.threads, t.starting ≠ some id
  | _ => True

instance : DecidableRel (Orderly home)
  | _, .handleExecSessions _ _ => inferInstanceAs (Decidable (∀ _ ∈ _, _))
  | _, .stopExecSession _ => inferInstanceAs (Decidable (∀ _ ∈ _, _))
  | _, .setProcessManager => isTrue trivial
  | _, .advance _ _ => inferInstanceAs (Decidable (∀ _ ∈ _, ∀ _ ∈ _, _))
  | _, .registerLocal _ => isTrue trivial
  | _, .removeRecord _ => isTrue trivial

def Releasing (ts : List Thread) (id : Str) : Prop :=
  ∃ sid ids after, .teardown sid true ids after ∈ ts ∧ trimSpace sid = id

theorem Releasing.mono {ts ts' : List Thread} (h : Releasing ts id) (hsub : ts ⊆ ts') :
    Releasing ts' id := by
  obtain ⟨sid, ids, after, hmem, hid⟩ := h
  exact ⟨sid, ids, after, hsub hmem, hid⟩

/-- **The invariant**: a session of the controller has an entry or is going to be released, and a
start under way has its entry to itself. -/
structure Attached (s : State) : Prop where
  held : ∀ id, Held s.manager.registry id → s.manager.processManager = true ∧
    ((∃ sid, s.manager.HasEntry sid ∧ trimSpace sid = id) ∨ Releasing s.threads id)
  starts : ∀ t ∈ s.threads, ∀ id ∈ t.starting,
    s.manager.processManager = true ∧ s.manager.HasEntry id
  nodup : (s.threads.filterMap Thread.starting).Nodup

theorem attached_initial : Attached (initial pm) where
  held _ h := by
    obtain ⟨_, hrec, -⟩ := h
    exact absurd hrec List.not_mem_nil
  starts _ h := absurd h List.not_mem_nil
  nodup := List.nodup_nil

theorem Attached.spawn (h : Attached s) {t : Thread} (ht : t.starting = none) :
    Attached { s with threads := s.threads ++ [t] } where
  held id hid := by
    obtain ⟨hset, hentry⟩ := h.held id hid
    exact ⟨hset, hentry.imp_right fun hr => hr.mono (List.subset_append_left _ _)⟩
  starts u hu id hid := by
    rcases List.mem_append.mp hu with hu | hu
    · exact h.starts u hu id hid
    · rw [List.mem_singleton.mp hu, ht] at hid
      cases hid
  nodup := by
    rw [List.filterMap_append, List.filterMap_cons_none ht, List.filterMap_nil, List.append_nil]
    exact h.nodup

theorem Attached.registry (h : Attached s) {r : ExecSessionRegistry}
    (hr : ∀ id, Held r id → Held s.manager.registry id) :
    Attached { s with manager := { s.manager with registry := r } } :=
  ⟨fun id hid => h.held id (hr id hid), h.starts, h.nodup⟩

theorem Attached.stop (h : Attached s) (hid : ∀ t ∈ s.threads, t.starting ≠ some id) :
    Attached ⟨s.manager.removeExecSessionStateLocked id,
      s.threads ++ [.teardown id s.manager.processManager [] .returns]⟩ where
  held i hi := by
    obtain ⟨hset, ⟨sid, hentry, hsid⟩ | hr⟩ := h.held i hi
    · refine ⟨hset, ?_⟩
      by_cases hgone : sid = id
      · refine .inr ⟨sid, [], .returns, List.mem_append_right _ ?_, hsid⟩
        rw [hset, hgone]
        exact List.mem_singleton_self _
      · exact .inl ⟨sid, hasEntry_remove.mpr ⟨hentry, hgone⟩, hsid⟩
    · exact ⟨hset, .inr (hr.mono (List.subset_append_left _ _))⟩
  starts u hu i hi := by
    rcases List.mem_append.mp hu with hold | hnew
    · obtain ⟨hset, hentry⟩ := h.starts u hold i hi
      exact ⟨hset, hasEntry_remove.mpr ⟨hentry, fun heq => hid u hold (heq ▸ hi)⟩⟩
    · rw [List.mem_singleton.mp hnew] at hi
      cases hi
  nodup := (h.spawn (t := .teardown id s.manager.processManager [] .returns) rfl).nodup

theorem Effect.entry_or_releasing (he : Effect m t m' t') {ts : List Thread} {sid : Str}
    (ht' : ∀ u ∈ t', u ∈ ts) (hset : m.processManager = true) (hsid : m.HasEntry sid) :
    (∃ sid', m'.HasEntry sid' ∧ trimSpace sid' = trimSpace sid) ∨
      Releasing ts (trimSpace sid) := by
  rcases he.kept sid hsid with hkept | ⟨-, ids, k, rfl⟩
  · exact .inl ⟨sid, hkept, rfl⟩
  · exact .inr ⟨sid, ids, k, ht' _ (by rw [hset]; rfl), rfl⟩

/-- **A step of a thread keeps the invariant**, whatever the others are at. -/
theorem Attached.effect {before after : List Thread} {t : Thread}
    (h : Attached ⟨m, before ++ t :: after⟩) (he : Effect m t m' t')
    (hstop : ∀ id ∈ t.stopTarget, ∀ u ∈ before ++ t :: after, u.starting ≠ some id) :
    Attached ⟨m', before ++ t'.toList ++ after⟩ := by
  have hself : t ∈ before ++ t :: after := List.mem_append_right _ List.mem_cons_self
  have hothers : before ++ after ⊆ before ++ t :: after :=
    ((List.sublist_cons_self t after).append_left before).subset
  have hnext : ∀ u ∈ t', u ∈ before ++ t'.toList ++ after := fun u hu =>
    List.mem_append_left _ (List.mem_append_right _ (Option.mem_toList.mpr hu))
  have hdistinct : ∀ u ∈ before ++ after, ∀ id, u.starting = some id →
      t.starting ≠ some id := fun u hu id hid ht =>
    notMem_others h.nodup ht (List.mem_filterMap.mpr ⟨u, hu, hid⟩)
  constructor
  case held =>
    intro id hid
    rcases he.held id hid with hold | ⟨sid, hsid, rfl⟩
    · obtain ⟨hset, ⟨sid, hsid, rfl⟩ | ⟨sid, ids, k, hmem, rfl⟩⟩ := h.held id hold
      · exact ⟨he.processManager.trans hset, he.entry_or_releasing hnext hset hsid⟩
      · refine ⟨he.processManager.trans hset, .inr ⟨sid, ids, k, ?_, rfl⟩⟩
        rcases List.mem_append.mp hmem with hmem | hmem
        · exact List.mem_append_left _ (List.mem_append_left _ hmem)
        · rcases List.mem_cons.mp hmem with heq | hmem
          · exact absurd hid (he.released sid ids k heq.symm)
          · exact List.mem_append_right _ hmem
    · obtain ⟨hset, hsid⟩ := h.starts t hself sid hsid
      exact ⟨he.processManager.trans hset, he.entry_or_releasing hnext hset hsid⟩
  case starts =>
    intro u hu id hid
    have hcases : u ∈ before ++ after ∨ u ∈ t' := by
      simp only [List.mem_append, Option.mem_toList] at hu ⊢
      tauto
    rcases hcases with hu | hu
    · obtain ⟨hset, hsid⟩ := h.starts u (hothers hu) id hid
      refine ⟨he.processManager.trans hset, ?_⟩
      rcases he.kept id hsid with hkept | ⟨ht | ht, -⟩
      · exact hkept
      · exact absurd ht (hdistinct u hu id hid)
      · exact absurd hid (hstop id ht u (hothers hu))
    · rcases he.started u hu id hid with ht | ⟨hset, hnew, -⟩
      · obtain ⟨hset, hsid⟩ := h.starts t hself id ht
        refine ⟨he.processManager.trans hset, ?_⟩
        rcases he.kept id hsid with hkept | ⟨-, ids, k, rfl⟩
        · exact hkept
        · cases hu
          cases hid
      · exact ⟨he.processManager.trans hset, hnew⟩
  case nodup =>
    refine nodup_replace h.nodup fun u hu id hid hmem => ?_
    obtain ⟨v, hv, hvid⟩ := List.mem_filterMap.mp hmem
    rcases he.started u hu id hid with ht | ⟨-, -, hfresh⟩
    · exact hdistinct v hv id hvid ht
    · exact hfresh (h.starts v (hothers hv) id hvid).2

theorem Attached.step (h : Attached s) {ev : Event} (hok : Orderly home s ev)
    (hstep : step s ev = some s') : Attached s' := by
  cases ev with
  | handleExecSessions fetched order =>
    simp only [ExecSessions.step] at hstep
    split at hstep
    · cases hstep
      exact h.spawn rfl
    · cases hstep
  | stopExecSession id =>
    cases hstep
    exact h.stop hok
  | setProcessManager =>
    cases hstep
    exact ⟨fun id hid => ⟨rfl, (h.held id hid).2⟩,
      fun t ht id hid => ⟨rfl, (h.starts t ht id hid).2⟩, h.nodup⟩
  | advance n ans =>
    obtain ⟨t, ht, rfl⟩ := Option.map_eq_some_iff.mp hstep
    obtain ⟨before, after, hsplit, hput⟩ := exists_split ht
    have hs : Attached ⟨s.manager, before ++ t :: after⟩ := hsplit ▸ h
    rw [hput]
    refine hs.effect (advance_effect ans s.manager t) fun id hid u hu => ?_
    exact hok id (Option.mem_bind_iff.mpr ⟨t, ht, hid⟩) u (hsplit ▸ hu)
  | registerLocal rec =>
    simp only [ExecSessions.step, register] at hstep
    split at hstep
    · cases hstep
      exact h
    · rename_i r hr
      cases hstep
      refine h.registry fun id hid => ?_
      split at hr
      · cases hr
      · split at hr
        · cases hr
        · cases hr
          exact (held_upsert hid).resolve_right fun hnew => by cases hnew.2
  | removeRecord id =>
    cases hstep
    exact h.registry fun _ hid => (held_remove hid).1

/-! ## The limit -/

/-- The rows that a thread has still to go through. -/
def After.rows : After → List ExecSession
  | .returns => []
  | .scanning rows => rows

def Thread.rows : Thread → List ExecSession
  | .stopping _ after | .teardown _ _ _ after => after.rows
  | .connecting _ rest | .reconnecting rest | .registering _ rest | .creating _ rest
  | .awaiting _ rest | .created _ rest _ => rest

def AtHome (home : Str → Str) (rows : List ExecSession) : Prop :=
  ∀ row ∈ rows, row.microserviceUUID = home row.sessionID

variable {rows : List ExecSession} {row : ExecSession}

theorem AtHome.head (h : AtHome home (row :: rows)) : row.microserviceUUID = home row.sessionID :=
  h row List.mem_cons_self

theorem AtHome.tail (h : AtHome home (row :: rows)) : AtHome home rows :=
  fun r hr => h r (List.mem_cons_of_mem _ hr)

theorem AtHome.upsert {entries : Table ExecSession.sessionID}
    (h : AtHome home entries.rows) (hrow : row.microserviceUUID = home row.sessionID) :
    AtHome home (entries.upsert row).rows := by
  intro r hr
  rcases Table.mem_upsert.mp hr with rfl | ⟨hr, -⟩
  · exact hrow
  · exact h r hr

structure Tidy (home : Str → Str) (m : Manager) : Prop where
  atHome : AtHome home m.activeSessions.rows
  limit : ∀ msUUID, m.countControllerSessionsForMS msUUID ≤ maxControllerExecSessionsPerMS

theorem Tidy.remove (h : Tidy home m) (id : Str) :
    Tidy home (m.removeExecSessionStateLocked id) where
  atHome row hrow := h.atHome row (List.mem_of_mem_filter hrow)
  limit msUUID := (List.filter_sublist.countP_le).trans (h.limit msUUID)

theorem Tidy.refresh (h : Tidy home m) {session entry : ExecSession}
    (hget : m.activeSessions.get? session.sessionID = some entry)
    (hsession : session.microserviceUUID = home session.sessionID) :
    Tidy home { m with activeSessions := m.activeSessions.upsert session } where
  atHome := h.atHome.upsert hsession
  limit msUUID := by
    obtain ⟨hmem, hid⟩ := Table.get?_eq_some_iff.mp hget
    have hsame : entry.microserviceUUID = session.microserviceUUID := by
      rw [h.atHome entry hmem, hid, hsession]
    refine le_of_eq_of_le (Table.countP_upsert_of_mem hmem hid ?_) (h.limit msUUID)
    rw [hsame]

theorem Tidy.insert (h : Tidy home m)
    (hget : m.activeSessions.get? session.sessionID = none)
    (hsession : session.microserviceUUID = home session.sessionID)
    (hcount : ¬ maxControllerExecSessionsPerMS ≤
      m.countControllerSessionsForMS session.microserviceUUID) :
    Tidy home { m with activeSessions := m.activeSessions.upsert session } where
  atHome := h.atHome.upsert hsession
  limit msUUID := by
    have hfresh : ∀ a ∈ m.activeSessions, a.sessionID ≠ session.sessionID :=
      fun a ha hid => not_hasEntry_of_get? hget ⟨a, ha, hid⟩
    refine le_of_eq_of_le (Table.countP_upsert_of_notMem hfresh) ?_
    split
    · rename_i hms
      rw [← beq_iff_eq.mp hms]
      exact not_le.mp hcount
    · exact h.limit msUUID

structure Keeps (home : Str → Str) (m' : Manager) (t' : Option Thread) (rows : List ExecSession) :
    Prop where
  tidy : Tidy home m'
  rows : ∀ u ∈ t', u.rows ⊆ rows

theorem keeps_abandon (h : Tidy home m) (session : ExecSession) (rest : List ExecSession) :
    Keeps home (abandon m session rest).1 (abandon m session rest).2 rest where
  tidy := h.remove session.sessionID
  rows u hu := by
    cases hu
    exact fun _ hrow => hrow

theorem Keeps.cons (h : Keeps home m' t' rows) :
    Keeps home m' t' (session :: rows) where
  tidy := h.tidy
  rows u hu _ hrow := List.mem_cons_of_mem _ (h.rows u hu hrow)

theorem keeps_scan (rows : List ExecSession) (m : Manager) (h : Tidy home m)
    (hrows : AtHome home rows) : Keeps home (scan ans m rows).1 (scan ans m rows).2 rows := by
  fun_induction scan ans m rows with
  | case1 m => exact ⟨h, nofun⟩
  | case2 m session rest id entry hget =>
    refine Keeps.cons ⟨h.refresh hget hrows.head, fun u hu => ?_⟩
    cases hu
    exact fun _ hrow => hrow
  | case3 m session rest id entry hget m₁ hconnected ih =>
    exact (ih (h.refresh hget hrows.head) hrows.tail).cons
  | case4 m session rest id hget hcount ih => exact (ih h hrows.tail).cons
  | case5 m session rest id hget hcount hset ih => exact (ih h hrows.tail).cons
  | case6 m session rest id hget hcount hset =>
    have htidy := h.insert hget hrows.head hcount
    refine Keeps.cons ⟨⟨htidy.atHome, htidy.limit⟩, fun u hu => ?_⟩
    cases hu
    exact fun _ hrow => hrow
  | case7 m session rest id hget hcount hset =>
    exact (keeps_abandon (h.insert hget hrows.head hcount) session rest).cons

theorem keeps_advance (m : Manager) (t : Thread) (h : Tidy home m)
    (hrows : AtHome home t.rows) : Keeps home (advance ans m t).1 (advance ans m t).2 t.rows := by
  have hgoes : ∀ (r : ExecSessionRegistry) (u : Thread), u.rows = t.rows →
      Keeps home { m with registry := r } (some u) t.rows := by
    intro r u hu
    refine ⟨⟨h.atHome, h.limit⟩, fun v hv => ?_⟩
    cases hv
    exact fun row hrow => hu ▸ hrow
  cases t with
  | stopping ids after =>
    cases ids with
    | cons id ids =>
      refine ⟨h.remove id, fun u hu => ?_⟩
      cases hu
      exact fun _ hrow => hrow
    | nil =>
      cases after with
      | returns => exact ⟨h, nofun⟩
      | scanning rows => exact keeps_scan ans rows m h hrows
  | teardown id pm ids after =>
    constructor
    · cases pm <;> exact ⟨h.atHome, h.limit⟩
    · intro u hu
      simp only [advance, Thread.next] at hu
      split at hu
      · cases hu
      · cases hu
        exact fun _ hrow => hrow
  | connecting session rest =>
    simp only [advance]
    split
    · exact hgoes _ _ rfl
    · exact keeps_abandon h session rest
  | reconnecting rest => exact keeps_scan ans rest m h hrows
  | registering session rest | awaiting session rest =>
    simp only [advance]
    split
    · exact hgoes _ _ rfl
    · exact hgoes _ _ rfl
  | creating session rest =>
    simp only [advance]
    split
    · exact hgoes _ _ rfl
    · exact hgoes _ _ rfl
    · exact hgoes _ _ rfl
  | created session rest ok =>
    simp only [advance]
    split
    · exact keeps_scan ans rest m h hrows
    · exact keeps_abandon h session rest

structure Limited (home : Str → Str) (s : State) : Prop where
  tidy : Tidy home s.manager
  rows : ∀ t ∈ s.threads, AtHome home t.rows

theorem limited_initial : Limited home (initial pm) where
  tidy := ⟨fun _ h => absurd h List.not_mem_nil, fun _ => Nat.zero_le _⟩
  rows _ h := absurd h List.not_mem_nil

theorem Limited.spawn (h : Limited home s) (htidy : Tidy home m) {t : Thread}
    (ht : AtHome home t.rows) : Limited home ⟨m, s.threads ++ [t]⟩ where
  tidy := htidy
  rows u hu := by
    rcases List.mem_append.mp hu with hu | hu
    · exact h.rows u hu
    · rw [List.mem_singleton.mp hu]
      exact ht

theorem Limited.step (h : Limited home s) {ev : Event} (hok : Orderly home s ev)
    (hstep : step s ev = some s') : Limited home s' := by
  cases ev with
  | handleExecSessions fetched order =>
    simp only [ExecSessions.step] at hstep
    split at hstep
    · cases hstep
      exact h.spawn h.tidy hok
    · cases hstep
  | stopExecSession id =>
    cases hstep
    exact h.spawn (h.tidy.remove id) fun _ hrow => absurd hrow List.not_mem_nil
  | setProcessManager | removeRecord id =>
    cases hstep
    exact ⟨⟨h.tidy.atHome, h.tidy.limit⟩, h.rows⟩
  | advance n ans =>
    obtain ⟨t, ht, rfl⟩ := Option.map_eq_some_iff.mp hstep
    have hmem := List.mem_of_getElem? ht
    obtain ⟨htidy, hrows⟩ := keeps_advance ans s.manager t h.tidy (h.rows t hmem)
    refine ⟨htidy, fun u hu => ?_⟩
    rcases mem_of_mem_replaceAt hu with hu | hu
    · exact h.rows u hu
    · exact fun row hrow => h.rows t hmem row (hrows u hu hrow)
  | registerLocal rec =>
    simp only [ExecSessions.step] at hstep
    split at hstep
    · cases hstep
      exact h
    · cases hstep
      exact ⟨⟨h.tidy.atHome, h.tidy.limit⟩, h.rows⟩

/-! ## Runs -/

/-- **No orphan shell**: in every orderly run, once all calls have returned, every exec that the
controller has in the registry belongs to an entry, and at no time does a microservice have more
entries than it may have. -/
theorem no_orphan_shell {pm : Bool} {evs : List Event}
    (hok : Along step (Orderly home) (initial pm) evs)
    (hrun : run step (initial pm) evs = some s) :
    (s.threads = [] → ∀ rec ∈ s.manager.registry, rec.owner = .controller →
      ∃ a ∈ s.manager.activeSessions, trimSpace a.sessionID = rec.sessionID) ∧
    ∀ msUUID, s.manager.countControllerSessionsForMS msUUID ≤ maxControllerExecSessionsPerMS := by
  have hattached : Attached s :=
    invariant_run (fun _ _ _ h hev hstep => h.step hev hstep) hok (attached_initial pm) hrun
  have hlimited : Limited home s :=
    invariant_run (fun _ _ _ h hev hstep => h.step hev hstep) hok (limited_initial pm) hrun
  refine ⟨fun hidle rec hrec howner => ?_, hlimited.tidy.limit⟩
  rcases (hattached.held rec.sessionID ⟨rec, hrec, rfl, howner⟩).2 with
    ⟨sid, ⟨a, ha, rfl⟩, hid⟩ | ⟨_, _, _, hmem, -⟩
  · exact ⟨a, ha, hid⟩
  · rw [hidle] at hmem
    cases hmem

def pending (id msUUID : String) : ExecSession :=
  ⟨id.toList, msUUID.toList, "PENDING".toList, false⟩

def granted : Answers :=
  ⟨fun _ => true, fun _ => true, true, .ok "c".toList, some "e".toList, true⟩

def steps (n : ℕ) : List Event := List.replicate n (.advance 0 granted)

/-- The controller lists a session, and it is started. -/
theorem no_orphan_shell_started :
    ∃ s, Along step (Orderly fun _ => "a".toList) (initial true)
        (.handleExecSessions [pending "s" "a"] [] :: steps 6) ∧
      run step (initial true) (.handleExecSessions [pending "s" "a"] [] :: steps 6) = some s ∧
      s.threads = [] ∧ (∀ rec ∈ s.manager.registry, rec.owner = .controller →
        ∃ a ∈ s.manager.activeSessions, trimSpace a.sessionID = rec.sessionID) ∧
      ∀ msUUID, s.manager.countControllerSessionsForMS msUUID ≤
        maxControllerExecSessionsPerMS := by
  have hok : Along step (Orderly fun _ => "a".toList) (initial true)
      (.handleExecSessions [pending "s" "a"] [] :: steps 6) := by decide
  exact ⟨_, hok, rfl, rfl, (no_orphan_shell hok rfl).1 rfl, (no_orphan_shell hok rfl).2⟩

/-- A session is stopped after its connection is made and before its exec is registered: the
shell stays without an entry. And a session that the controller lists for another microservice
than before makes a fourth one there. -/
theorem stopped_start_leaves_shell :
    (∃ s, run step (initial true)
        ([.handleExecSessions [pending "s" "a"] []] ++ steps 2 ++
          [.stopExecSession "s".toList, .advance 1 granted] ++ steps 4) = some s ∧
      s.threads = [] ∧ ∃ rec ∈ s.manager.registry, rec.owner = .controller ∧
        ∀ a ∈ s.manager.activeSessions, trimSpace a.sessionID ≠ rec.sessionID) ∧
    ∃ s, run step (initial true)
        ([.handleExecSessions [pending "s" "a", pending "t" "a", pending "u" "a",
            pending "v" "b"] []] ++ steps 21 ++
          [.handleExecSessions [pending "s" "a", pending "t" "a", pending "u" "a",
            pending "v" "a"] ["s".toList, "t".toList, "u".toList, "v".toList]] ++ steps 1) =
        some s ∧
      s.threads = [] ∧ maxControllerExecSessionsPerMS <
        s.manager.countControllerSessionsForMS "a".toList := by
  refine ⟨⟨_, rfl, rfl, _, List.mem_singleton_self _, rfl, ?_⟩, _, rfl, rfl, by decide⟩
  exact fun a ha => absurd ha List.not_mem_nil

end Edgelet.FieldAgent.ExecSessions
