import Edgelet.ProcessManager.Window

/-!
# The backoff of the restart checker as a gate

A failure counts up the consecutive failures of a microservice and moves its next attempt behind the
delay of that count. Until then only a reset or a granted skip lets an attempt through.
-/

namespace Edgelet.ProcessManager.RestartStuckChecker

open Lexical Keyed

variable (uuid : Str) (c : RestartStuckChecker)

def arms : CheckerOp → Bool
  | .recordIfNew u => u == uuid && !(c.state uuid).pending
  | .recordFailedStart u | .armFailure u => u == uuid
  | _ => false

def resets : CheckerOp → Bool
  | .resetBackoff u | .consumeRebuildSkip u | .clear u => u == uuid
  | _ => false

def grants : CheckerOp → Bool
  | .ready u .rebuild | .ready u .catalogReady => u == uuid
  | .ready u .nonRestartable => u == uuid && !(c.state uuid).criSkipUsed
  | _ => false

def undisturbed (uuid : Str) : RestartStuckChecker → List (ℕ × CheckerOp) → Bool
  | _, [] => true
  | c, a :: as => !resets uuid a.2 && !grants uuid c a.2 && undisturbed uuid (c.step a) as

def failures (uuid : Str) : RestartStuckChecker → ℕ → List (ℕ × CheckerOp) → ℕ
  | _, k, [] => k
  | c, k, a :: as =>
    failures uuid (c.step a)
      (if resets uuid a.2 then 0 else if arms uuid c a.2 then k + 1 else k) as

def criGrants (uuid : Str) : RestartStuckChecker → List (ℕ × CheckerOp) → ℕ
  | _, [] => 0
  | c, a :: as =>
    (if a.2 = .ready uuid .nonRestartable ∧ grants uuid c a.2 = true then 1 else 0) +
      criGrants uuid (c.step a) as

def returned (uuid : Str) : RestartStuckChecker → List (ℕ × CheckerOp) → List ContainerTask
  | _, [] => []
  | c, a :: as =>
    (if a.2 = .takeDueTasks then (c.takeDueTasks a.1).2.filter (·.microserviceUUID == uuid)
      else []) ++ returned uuid (c.step a) as

def parks : CheckerOp → Bool
  | .parkTask t => t.microserviceUUID == uuid
  | _ => false

/-! ## Steps -/

section Step

variable (c : RestartStuckChecker) (t : ℕ) (op : CheckerOp) (uuid : Str)

theorem gate_step :
    let st := c.state uuid
    let st' := (c.step (t, op)).state uuid
    (st'.n, st'.nextAttemptAt, st'.criSkipUsed) =
      if resets uuid op then (0, none, false)
      else if arms uuid c op then
        (st.n + 1, some (t + restartDelay (st.n + 1)), st.criSkipUsed)
      else if grants uuid c op then
        (st.n, none, st.criSkipUsed || decide (op = .ready uuid .nonRestartable))
      else (st.n, st.nextAttemptAt, st.criSkipUsed) := by
  intro st st'
  cases op with
  | recordIfNew u =>
    have hcomm : u = uuid ↔ uuid = u := eq_comm
    cases hpending : (c.state u).pending <;> by_cases hu : uuid = u <;>
      simp [st, st', step, recordIfNew, armFailureLocked, resets, arms, grants, hpending,
        modify_state, hcomm, hu]
  | ready u skip =>
    have hcomm : u = uuid ↔ uuid = u := eq_comm
    cases hused : (c.state u).criSkipUsed <;> cases skip <;> by_cases hu : uuid = u <;>
      simp [st, st', step, ready, resets, arms, grants, hused, modify_state, hcomm, hu]
  | pullReady | consumeCatalogReadySkip | parkTask =>
    simp only [st, st', step, pullReady, consumeCatalogReadySkip, parkTask, resets, arms, grants]
    repeat' split
    all_goals simp_all [modify_state, apply_ite]
  | takeDueTasks | read | isStuck u | isStuckInContainerCreation u => rfl
  | _ u =>
    have hcomm : u = uuid ↔ uuid = u := eq_comm
    by_cases hu : uuid = u <;>
      simp [st, st', step, recordFailedStart, observeRunning, resetBackoff, consumeRebuildSkip,
        noteRebuildCleared, armPullMiss, clearPullWait, markCatalogWaiting, armFailure, clear,
        armFailureLocked, unpark, UuidRestartState.zero, modify_state, resets, arms, grants, hcomm,
        hu]

theorem criSkipUsed_step (hresets : resets uuid op = false) :
    ((c.step (t, op)).state uuid).criSkipUsed =
      ((c.state uuid).criSkipUsed || decide (op = .ready uuid .nonRestartable)) := by
  by_cases hop : op = .ready uuid .nonRestartable
  · subst hop
    cases hused : (c.state uuid).criSkipUsed <;> simp [step, ready, hused]
  · have hstep := congrArg (·.2.2) (gate_step c t op uuid)
    simp only [hresets, Bool.false_eq_true, if_false] at hstep
    rw [hstep, decide_eq_false hop, Bool.or_false]
    repeat' split
    all_goals rfl

theorem parked_step (hparks : parks uuid op = false) :
    (returned uuid c [(t, op)]).length +
        (c.step (t, op)).parked.rows.countP (·.microserviceUUID == uuid) ≤
      c.parked.rows.countP (·.microserviceUUID == uuid) := by
  have hdelete : ∀ p, (c.parked.deleteWhere p).rows.countP (·.microserviceUUID == uuid) ≤
      c.parked.rows.countP (·.microserviceUUID == uuid) := fun p =>
    List.filter_sublist.countP_le
  cases op with
  | takeDueTasks =>
    have hsplit := List.countP_eq_countP_filter_add c.parked.rows
      (·.microserviceUUID == uuid) (c.isDue t)
    simp only [returned, if_true, List.append_nil, ← List.countP_eq_length_filter]
    exact hsplit.ge
  | resetBackoff | consumeRebuildSkip | clear => exact (Nat.zero_add _).trans_le (hdelete _)
  | parkTask task =>
    simp only [parks, beq_eq_false_iff_ne] at hparks
    refine (Nat.zero_add _).trans_le (le_of_eq ?_)
    simp only [step, parkTask]
    split
    · rfl
    by_cases hheld : ∃ y ∈ c.parked, y.microserviceUUID = task.microserviceUUID
    · obtain ⟨y, hy, hkey⟩ := hheld
      exact Table.countP_upsert_of_mem hy hkey (by rw [hkey])
    · rw [Table.countP_upsert_of_notMem fun y hy hkey => hheld ⟨y, hy, hkey⟩]
      simp [hparks]
  | recordIfNew | pullReady | ready | consumeCatalogReadySkip => simp [returned, step]
  | _ => exact (Nat.zero_add _).le

end Step

/-! ## Runs -/

section Runs

variable {c : RestartStuckChecker} {uuid : Str} {ops : List (ℕ × CheckerOp)}

def Held (uuid : Str) (n d : ℕ) (c : RestartStuckChecker) : Prop :=
  n ≤ (c.state uuid).n ∧ ∃ e, (c.state uuid).nextAttemptAt = some e ∧ d ≤ e

theorem restartDelay_mono {n m : ℕ} (h : n ≤ m) : restartDelay n ≤ restartDelay m := by
  have hpow : 2 ^ (n - 1) ≤ 2 ^ (m - 1) := Nat.pow_le_pow_right Nat.two_pos (by omega)
  unfold restartDelay
  split_ifs with hn hm hm5 hn5 hm hm5 hm hm5
  all_goals try omega
  have hcap : 2 ^ (n - 1) ≤ 2 ^ 4 := Nat.pow_le_pow_right Nat.two_pos (by omega)
  omega

theorem held_of_arms {t : ℕ} {op : CheckerOp} (h : arms uuid c op = true) :
    let n := ((c.step (t, op)).state uuid).n
    Held uuid n (t + restartDelay n) (c.step (t, op)) := by
  have hresets : resets uuid op = false := by cases op <;> first | rfl | cases h
  have hstep := gate_step c t op uuid
  simp only [hresets, h, if_true, Bool.false_eq_true, if_false, Prod.mk.injEq] at hstep
  rw [hstep.1]
  exact ⟨hstep.1.ge, _, hstep.2.1, le_rfl⟩

theorem Held.step {n t t' : ℕ} {op : CheckerOp} (h : Held uuid n (t + restartDelay n) c)
    (ht : t ≤ t') (hresets : resets uuid op = false) (hgrants : grants uuid c op = false) :
    Held uuid n (t + restartDelay n) (c.step (t', op)) := by
  have hstep := gate_step c t' op uuid
  simp only [hresets, hgrants, Bool.false_eq_true, if_false] at hstep
  split at hstep <;> rw [Prod.mk.injEq, Prod.mk.injEq] at hstep
  · have hdelay := restartDelay_mono (h.1.trans (Nat.le_succ _))
    exact ⟨hstep.1 ▸ h.1.trans (Nat.le_succ _), _, hstep.2.1, Nat.add_le_add ht hdelay⟩
  · exact ⟨hstep.1 ▸ h.1, hstep.2.1 ▸ h.2⟩

theorem Held.run {n t : ℕ} (h : Held uuid n (t + restartDelay n) c) (ht : ∀ a ∈ ops, t ≤ a.1)
    (hops : undisturbed uuid c ops = true) :
    Held uuid n (t + restartDelay n) (ops.foldl RestartStuckChecker.step c) := by
  induction ops generalizing c with
  | nil => exact h
  | cons a ops ih =>
    simp only [undisturbed, Bool.and_eq_true, Bool.not_eq_true'] at hops
    exact ih (h.step (ht a List.mem_cons_self) hops.1.1 hops.1.2)
      (fun b hb => ht b (List.mem_cons_of_mem _ hb)) hops.2

theorem n_eq_failures : ((ops.foldl RestartStuckChecker.step c).state uuid).n =
    failures uuid c (c.state uuid).n ops := by
  induction ops generalizing c with
  | nil => rfl
  | cons a ops ih =>
    rw [List.foldl_cons, ih, failures]
    have hstep := congrArg (·.1) (gate_step c a.1 a.2 uuid)
    simp only at hstep
    rw [hstep]
    congr 1
    repeat' split
    all_goals rfl

theorem length_returned_le (hparks : ∀ a ∈ ops, parks uuid a.2 = false) :
    (returned uuid c ops).length ≤ c.parked.rows.countP (·.microserviceUUID == uuid) := by
  induction ops generalizing c with
  | nil => exact Nat.zero_le _
  | cons a ops ih =>
    obtain ⟨t, op⟩ := a
    have hstep := parked_step c t op uuid (hparks _ List.mem_cons_self)
    have hrest := ih (c := c.step (t, op)) fun b hb => hparks b (List.mem_cons_of_mem _ hb)
    simp only [returned, List.append_nil, List.length_append] at hstep ⊢
    omega

theorem criGrants_le (hresets : ∀ a ∈ ops, resets uuid a.2 = false) :
    criGrants uuid c ops ≤ if (c.state uuid).criSkipUsed then 0 else 1 := by
  induction ops generalizing c with
  | nil => exact Nat.zero_le _
  | cons a ops ih =>
    obtain ⟨t, op⟩ := a
    have hrest := ih (c := c.step (t, op)) fun b hb => hresets b (List.mem_cons_of_mem _ hb)
    rw [criSkipUsed_step c t op uuid (hresets _ List.mem_cons_self)] at hrest
    rw [criGrants]
    by_cases hop : op = .ready uuid .nonRestartable
    · cases hused : (c.state uuid).criSkipUsed <;> simp_all [grants]
    · simpa [hop] using hrest

end Runs

/-- **The backoff gates every attempt.** Under a clock that does not go back, after any operations:
when the `n`-th failure in a row was armed at `t` and no reset and no granted skip came after it,
the microservice is not ready and none of its tasks is due before `t` and the delay of `n`; from one
parking of a task to the next at most one is returned; and between two resets the skip of a
container that cannot be restarted is granted at most once. -/
theorem backoff_gates_attempts (ops : List (ℕ × CheckerOp)) (now : ℕ) (hclock : Clock ops now)
    (uuid : Str) :
    (∀ before t op between, ops = before ++ (t, op) :: between →
      arms uuid (after before) op = true →
      undisturbed uuid (after (before ++ [(t, op)])) between = true →
      now < t + restartDelay (failures uuid fresh 0 (before ++ [(t, op)])) →
        ((after ops).ready now uuid .none).2 = false ∧
          ∀ task ∈ ((after ops).takeDueTasks now).2, task.microserviceUUID ≠ uuid) ∧
    ∀ before between rest, ops = before ++ between ++ rest →
      ((∀ a ∈ between, parks uuid a.2 = false) →
        (returned uuid (after before) between).length ≤ 1) ∧
      ((∀ a ∈ between, resets uuid a.2 = false) → criGrants uuid (after before) between ≤ 1) := by
  constructor
  · rintro before t op between rfl harms hquiet hnow
    have hlater : ∀ a ∈ between, t ≤ a.1 := by
      intro a ha
      rw [Clock, List.map_append, List.append_assoc, List.pairwise_append] at hclock
      exact (List.pairwise_cons.mp hclock.2.1).1 _
        (List.mem_append_left _ (List.mem_map_of_mem ha))
    have harmed : after (before ++ [(t, op)]) = (after before).step (t, op) := by
      simp [after]
    have hn : failures uuid fresh 0 (before ++ [(t, op)]) =
        (((after before).step (t, op)).state uuid).n := by
      rw [← harmed]
      exact n_eq_failures.symm
    rw [harmed] at hquiet
    rw [hn] at hnow
    obtain ⟨-, e, hnext, he⟩ := (held_of_arms harms).run hlater hquiet
    have hstate : after (before ++ (t, op) :: between) =
        between.foldl RestartStuckChecker.step ((after before).step (t, op)) := by
      simp [after]
    have hbefore : isBefore now ((after (before ++ (t, op) :: between)).state uuid).nextAttemptAt
        = true := by
      rw [hstate, hnext, isBefore, decide_eq_true_eq]
      omega
    refine ⟨by simp [ready, hbefore], ?_⟩
    rintro task htask rfl
    simp [takeDueTasks, isDue, hbefore] at htask
  · intro before between rest _
    refine ⟨fun hparks => (length_returned_le hparks).trans ?_, fun hresets => ?_⟩
    · exact Table.countP_le_one fun _ h => beq_iff_eq.mp h
    · refine (criGrants_le hresets).trans ?_
      split <;> omega

/-- A start fails twice; the delay of the second failure has not elapsed after nineteen seconds. -/
theorem second_failure_waits :
    Clock [(0, .recordFailedStart ['u']), (5, .recordFailedStart ['u'])] 24 ∧
      ((after [(0, .recordFailedStart ['u']), (5, .recordFailedStart ['u'])]).ready 24 ['u']
        .none).2 = false := by
  have hclock : Clock [(0, .recordFailedStart ['u']), (5, .recordFailedStart ['u'])] 24 := by
    unfold Clock
    decide
  exact ⟨hclock, ((backoff_gates_attempts _ 24 hclock ['u']).1 [_] 5 _ [] rfl rfl rfl
    (by decide)).1⟩

end Edgelet.ProcessManager.RestartStuckChecker
