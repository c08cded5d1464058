import Edgelet.Machine.Run
import Edgelet.ProcessManager.Schedule
import Mathlib.Logic.Function.Basic

/-!
# The deadlines of the workloads

A deadline is a slot with a generation number and a timer whose callback takes the slot away and
marks the workload. The callback of a replaced timer tells from the generation whether the slot is
its own. The generation is one more than that of the slot it replaces, and one where there is none,
so a callback can find its own generation in a later slot.

An arm is three steps and a callback two, with the lock released in between. A timer may fire at any
time, and waking the monitor is left out.
-/

namespace Edgelet.ProcessManager.Deadlines

open Lexical Machine

/-! ## The slots and the timers -/

structure Slot where
  generation : UInt64
  timer : Option ℕ
  deriving DecidableEq

inductive Timer
  | notMade
  | running
  | stopped
  /-- It has fired: the callback waits for the lock, and stopping the timer does not stop it. -/
  | fired
  | marking
  | returned
  deriving DecidableEq

def Timer.toCome : Timer → Bool
  | .notMade | .running | .fired => true
  | .stopped | .marking | .returned => false

def Timer.stop : Timer → Timer
  | .running => .stopped
  | t => t

structure Arm where
  generation : UInt64
  timer : Timer
  settled : Bool

structure State where
  deadlines : Str → Option Slot
  dirty : DirtySet
  arms : Str → List Arm

def State.init : State := ⟨fun _ => none, .empty, fun _ => []⟩

def nextGeneration : Option Slot → UInt64
  | none => 1
  | some prev => prev.generation + 1

namespace State

variable (s : State)

variable (uuid : Str) (n : ℕ) (a : Arm)

def modifyArm (f : Arm → Arm) : State :=
  { s with arms := Function.update s.arms uuid ((s.arms uuid).modify n f) }

def stopTimer : Option ℕ → State
  | none => s
  | some n => s.modifyArm uuid n fun a => { a with timer := a.timer.stop }

def armReconcileDeadline (delay : ℤ) : State :=
  let uuid := trimSpace uuid
  if uuid = [] ∨ delay ≤ 0 then s
  else
    let prev := s.deadlines uuid
    let gen := nextGeneration prev
    let s := s.stopTimer uuid (prev.bind (·.timer))
    { s with deadlines := Function.update s.deadlines uuid (some ⟨gen, none⟩)
             arms := Function.update s.arms uuid (s.arms uuid ++ [⟨gen, .notMade, false⟩]) }

def finds (gen : UInt64) : Bool :=
  match s.deadlines uuid with
  | none => false
  | some current => current.generation == gen

def settle : State :=
  let s := s.modifyArm uuid n fun a => { a with settled := true }
  if s.finds uuid a.generation then
    { s with deadlines := Function.update s.deadlines uuid (some ⟨a.generation, some n⟩) }
  else s.stopTimer uuid (some n)

def callback : State :=
  if s.finds uuid a.generation then
    { s.modifyArm uuid n fun a => { a with timer := .marking } with
      deadlines := Function.update s.deadlines uuid none }
  else s.modifyArm uuid n fun a => { a with timer := .returned }

def onArm (ready : Arm → Prop) [DecidablePred ready] (f : Arm → State) : Option State :=
  match (s.arms uuid)[n]? with
  | some a => if ready a then some (f a) else none
  | none => none

end State

inductive Event
  | armReconcileDeadline (uuid : Str) (delay : ℤ)
  | afterFunc (uuid : Str) (n : ℕ)
  | settle (uuid : Str) (n : ℕ)
  | fire (uuid : Str) (n : ℕ)
  | callback (uuid : Str) (n : ℕ)
  | mark (uuid : Str) (n : ℕ)
  | markReconcile (uuid : Str)
  | takeReconcileDirty

def step (s : State) : Event → Option State
  | .armReconcileDeadline uuid delay => some (s.armReconcileDeadline uuid delay)
  | .afterFunc uuid n => s.onArm uuid n (·.timer = .notMade) fun _ =>
    s.modifyArm uuid n fun a => { a with timer := .running }
  | .settle uuid n =>
    s.onArm uuid n (fun a => a.timer ≠ .notMade ∧ a.settled = false) (s.settle uuid n)
  | .fire uuid n => s.onArm uuid n (·.timer = .running) fun _ =>
    s.modifyArm uuid n fun a => { a with timer := .fired }
  | .callback uuid n => s.onArm uuid n (·.timer = .fired) (s.callback uuid n)
  | .mark uuid n => s.onArm uuid n (·.timer = .marking) fun _ =>
    { s.modifyArm uuid n fun a => { a with timer := .returned } with
      dirty := addReconcileDirty s.dirty uuid }
  | .markReconcile uuid => some { s with dirty := addReconcileDirty s.dirty uuid }
  | .takeReconcileDirty => some { s with dirty := .empty }

/-! ## Replaced arms -/

/-- **A callback is harmless**: it leaves all slots as they are, and it does not come to mark the
workload. -/
def HarmlessCallback (s : State) (uuid : Str) (n : ℕ) (a : Arm) : Prop :=
  (s.callback uuid n a).deadlines = s.deadlines ∧
    ∀ a', ((s.callback uuid n a).arms uuid)[n]? = some a' → a'.timer ≠ .marking

/-- **Replaced arms are harmless**: the callback of an arm whose workload has been armed again is
harmless, if it is still to come and should come now. -/
def Harmless (s : State) : Prop :=
  ∀ uuid n a, (s.arms uuid)[n]? = some a → n + 1 < (s.arms uuid).length →
    a.timer.toCome = true → HarmlessCallback s uuid n a

/-- **The condition**: the generation that a call gives is not that of an earlier arm of the
workload whose callback is still to come. -/
def Fresh (s : State) : Event → Prop
  | .armReconcileDeadline uuid delay =>
    trimSpace uuid ≠ [] → 0 < delay → ∀ a ∈ s.arms (trimSpace uuid),
      a.timer.toCome = true → a.generation ≠ nextGeneration (s.deadlines (trimSpace uuid))
  | _ => True

/-! ## The invariant -/

/-- **The invariant**: no callback of a replaced arm that is still to come has the generation of the
slot, and the timer in a slot is that of an arm with its generation. -/
structure Inv (s : State) : Prop where
  apart : ∀ uuid n a slot, (s.arms uuid)[n]? = some a → n + 1 < (s.arms uuid).length →
    a.timer.toCome = true → s.deadlines uuid = some slot → slot.generation ≠ a.generation
  timer : ∀ uuid slot n, s.deadlines uuid = some slot → slot.timer = some n →
    ∃ a, (s.arms uuid)[n]? = some a ∧ a.generation = slot.generation

theorem inv_init : Inv .init := by
  constructor
  · rintro uuid n a slot - - - ⟨⟩
  · rintro uuid slot n ⟨⟩

/-- A step that arms nothing: the arms keep their generations and no callback is to come that was
not so before; a slot keeps its generation or is taken away, and only an arm with its generation
puts a timer into it. -/
structure Ages (s s' : State) : Prop where
  length : ∀ uuid, (s'.arms uuid).length = (s.arms uuid).length
  arm : ∀ uuid (n : ℕ) (a' : Arm), (s'.arms uuid)[n]? = some a' → ∃ a : Arm,
    (s.arms uuid)[n]? = some a ∧ a'.generation = a.generation ∧
      (a'.timer.toCome = true → a.timer.toCome = true)
  slot : ∀ uuid slot', s'.deadlines uuid = some slot' → ∃ slot, s.deadlines uuid = some slot ∧
    slot'.generation = slot.generation ∧ ∀ n, slot'.timer = some n → slot.timer = some n ∨
      ∃ a, (s.arms uuid)[n]? = some a ∧ a.generation = slot.generation

variable {s s' : State} {uuid : Str} {n : ℕ} {a : Arm}

theorem Inv.ages (hs : Inv s) (h : Ages s s') : Inv s' := by
  constructor
  · intro uuid n a' slot' ha' hn hcome hslot'
    obtain ⟨a, ha, hgen, hback⟩ := h.arm uuid n a' ha'
    obtain ⟨slot, hslot, hsame, -⟩ := h.slot uuid slot' hslot'
    rw [hgen, hsame]
    exact hs.apart uuid n a slot ha (h.length uuid ▸ hn) (hback hcome) hslot
  · intro uuid slot' n hslot' htimer
    obtain ⟨slot, hslot, hsame, hput⟩ := h.slot uuid slot' hslot'
    obtain ⟨a, ha, hgen⟩ : ∃ a, (s.arms uuid)[n]? = some a ∧ a.generation = slot.generation :=
      (hput n htimer).elim (hs.timer uuid slot n hslot) id
    have hlt : n < (s'.arms uuid).length := by
      rw [h.length]
      exact (List.getElem?_eq_some_iff.mp ha).1
    have ha' := List.getElem?_eq_getElem hlt
    refine ⟨_, ha', ?_⟩
    obtain ⟨a₀, ha₀, hgen₀, -⟩ := h.arm uuid n _ ha'
    obtain rfl := Option.some.inj (ha₀.symm.trans ha)
    rw [hgen₀, hgen, hsame]

variable {f : Arm → Arm}

theorem getElem?_modifyArm {uuid' : Str} {k : ℕ} {a' : Arm}
    (h : ((s.modifyArm uuid n f).arms uuid')[k]? = some a') :
    ∃ a, (s.arms uuid')[k]? = some a ∧ (a' = a ∨ uuid' = uuid ∧ k = n ∧ a' = f a) := by
  by_cases hid : uuid' = uuid
  · subst hid
    simp only [State.modifyArm, Function.update_self, List.getElem?_modify] at h
    obtain ⟨a, ha, rfl⟩ := Option.map_eq_some_iff.mp h
    refine ⟨a, ha, ?_⟩
    split
    next hk => exact .inr ⟨rfl, hk.symm, rfl⟩
    next => exact .inl rfl
  · simp only [State.modifyArm, Function.update_of_ne hid] at h
    exact ⟨a', h, .inl rfl⟩

theorem length_modifyArm (uuid' : Str) :
    ((s.modifyArm uuid n f).arms uuid').length = (s.arms uuid').length := by
  by_cases hid : uuid' = uuid
  · subst hid
    simp [State.modifyArm]
  · simp [State.modifyArm, Function.update_of_ne hid]

theorem ages_modifyArm {deadlines : Str → Option Slot} {dirty : DirtySet}
    (hf : ∀ a, (s.arms uuid)[n]? = some a →
      (f a).generation = a.generation ∧ ((f a).timer.toCome = true → a.timer.toCome = true))
    (hslots : ∀ uuid slot, deadlines uuid = some slot → s.deadlines uuid = some slot) :
    Ages s { s.modifyArm uuid n f with deadlines := deadlines, dirty := dirty } := by
  refine ⟨length_modifyArm, ?_, ?_⟩
  · intro uuid' k a' ha'
    obtain ⟨a, ha, rfl | ⟨rfl, rfl, rfl⟩⟩ := getElem?_modifyArm ha'
    · exact ⟨a', ha, rfl, id⟩
    · exact ⟨a, ha, hf a ha⟩
  · intro uuid' slot hslot
    exact ⟨slot, hslots uuid' slot hslot, rfl, fun _ => .inl⟩

theorem ages_stopTimer (t : Option ℕ) : Ages s (s.stopTimer uuid t) := by
  cases t with
  | none => exact ⟨fun _ => rfl, fun _ _ a ha => ⟨a, ha, rfl, id⟩,
      fun _ slot hslot => ⟨slot, hslot, rfl, fun _ => .inl⟩⟩
  | some n =>
    refine ages_modifyArm (fun a _ => ⟨rfl, fun h => ?_⟩) fun _ _ => id
    cases ht : a.timer <;> simp_all [Timer.stop, Timer.toCome]

theorem finds_eq_true {gen : UInt64} (h : s.finds uuid gen = true) :
    ∃ slot, s.deadlines uuid = some slot ∧ slot.generation = gen := by
  unfold State.finds at h
  split at h
  · cases h
  next slot hslot => exact ⟨slot, hslot, by simpa using h⟩

variable {slot : Slot}

theorem ages_put {gen : UInt64} (ha : (s.arms uuid)[n]? = some a)
    (hslot : s.deadlines uuid = some slot) (hgen : slot.generation = gen)
    (hsame : a.generation = gen) :
    Ages s { s with deadlines := Function.update s.deadlines uuid (some ⟨gen, some n⟩) } := by
  refine ⟨fun _ => rfl, fun _ _ a ha => ⟨a, ha, rfl, id⟩, fun uuid' slot' hslot' => ?_⟩
  simp only at hslot'
  by_cases hid : uuid' = uuid
  · subst hid
    rw [Function.update_self, Option.some.injEq] at hslot'
    subst hslot'
    refine ⟨slot, hslot, hgen.symm, ?_⟩
    rintro k ⟨⟩
    exact .inr ⟨a, ha, hsame.trans hgen.symm⟩
  · rw [Function.update_of_ne hid] at hslot'
    exact ⟨slot', hslot', rfl, fun _ => .inl⟩

theorem inv_settle (hs : Inv s) (ha : (s.arms uuid)[n]? = some a) : Inv (s.settle uuid n a) := by
  have hages : Ages s (s.modifyArm uuid n fun a => { a with settled := true }) :=
    ages_modifyArm (fun _ _ => ⟨rfl, id⟩) fun _ _ => id
  have hs₁ := hs.ages hages
  unfold State.settle
  simp only
  split
  next hfinds =>
    obtain ⟨slot, hslot, hgen⟩ := finds_eq_true hfinds
    have ha₁ : ((s.modifyArm uuid n fun a => { a with settled := true }).arms uuid)[n]? =
        some { a with settled := true } := by
      simp [State.modifyArm, ha]
    exact hs₁.ages (ages_put ha₁ hslot hgen rfl)
  next => exact hs₁.ages (ages_stopTimer _)

theorem ages_callback : Ages s (s.callback uuid n a) := by
  unfold State.callback
  split
  · refine ages_modifyArm (fun _ _ => ⟨rfl, by simp [Timer.toCome]⟩) fun uuid' slot hslot => ?_
    by_cases hid : uuid' = uuid
    · subst hid
      rw [Function.update_self] at hslot
      cases hslot
    · rwa [Function.update_of_ne hid] at hslot
  · exact ages_modifyArm (fun _ _ => ⟨rfl, by simp [Timer.toCome]⟩) fun _ _ => id

theorem inv_armReconcileDeadline {delay : ℤ} (hs : Inv s)
    (hfresh : Fresh s (.armReconcileDeadline uuid delay)) :
    Inv (s.armReconcileDeadline uuid delay) := by
  unfold State.armReconcileDeadline
  simp only
  split
  · exact hs
  next hvalid =>
    rw [not_or] at hvalid
    have hfresh := hfresh hvalid.1 (by omega)
    generalize trimSpace uuid = uuid at hfresh
    generalize hprev : s.deadlines uuid = prev at hfresh
    have hages : Ages s (s.stopTimer uuid (prev.bind (·.timer))) := ages_stopTimer _
    have hs₁ := hs.ages hages
    generalize s.stopTimer uuid (prev.bind (·.timer)) = s₁ at hages hs₁
    constructor
    · intro uuid' n a slot ha hn hcome hslot
      by_cases hid : uuid' = uuid
      · subst hid
        simp only [Function.update_self, List.length_append, List.length_singleton,
          Option.some.injEq] at ha hn hslot
        rw [List.getElem?_append_left (by omega)] at ha
        obtain ⟨a₀, ha₀, hgen, hback⟩ := hages.arm uuid' n a ha
        rw [← hslot, hgen]
        exact (hfresh a₀ (List.mem_of_getElem? ha₀) (hback hcome)).symm
      · simp only [Function.update_of_ne hid] at ha hn hslot
        exact hs₁.apart uuid' n a slot ha hn hcome hslot
    · intro uuid' slot n hslot htimer
      by_cases hid : uuid' = uuid
      · subst hid
        simp only [Function.update_self, Option.some.injEq] at hslot
        rw [← hslot] at htimer
        cases htimer
      · simp only [Function.update_of_ne hid] at hslot ⊢
        exact hs₁.timer uuid' slot n hslot htimer

theorem exists_arm {ready : Arm → Prop} [DecidablePred ready] {f : Arm → State}
    (h : s.onArm uuid n ready f = some s') :
    ∃ a, (s.arms uuid)[n]? = some a ∧ ready a ∧ f a = s' := by
  unfold State.onArm at h
  split at h
  next a ha =>
    obtain ⟨hready, h⟩ := Option.ite_none_right_eq_some.mp h
    exact ⟨a, ha, hready, Option.some.inj h⟩
  next => cases h

theorem Inv.setTimer {s : State} (hs : Inv s) {uuid : Str} {n : ℕ} {a : Arm} {t : Timer}
    (ha : (s.arms uuid)[n]? = some a) (hcome : a.timer.toCome = true) :
    Inv (s.modifyArm uuid n fun a => { a with timer := t }) := by
  refine hs.ages (ages_modifyArm (fun b hb => ⟨rfl, fun _ => ?_⟩) fun _ _ => id)
  obtain rfl := Option.some.inj (hb.symm.trans ha)
  exact hcome

theorem inv_step (s : State) (ev : Event) (s' : State) (hs : Inv s) (hfresh : Fresh s ev)
    (h : step s ev = some s') : Inv s' := by
  cases ev with
  | armReconcileDeadline uuid delay =>
    cases h
    exact inv_armReconcileDeadline hs hfresh
  | afterFunc uuid n =>
    obtain ⟨a, ha, hmade, rfl⟩ := exists_arm h
    exact hs.setTimer ha (by rw [hmade]; rfl)
  | settle uuid n =>
    obtain ⟨a, ha, -, rfl⟩ := exists_arm h
    exact inv_settle hs ha
  | fire uuid n =>
    obtain ⟨a, ha, hrunning, rfl⟩ := exists_arm h
    exact hs.setTimer ha (by rw [hrunning]; rfl)
  | callback uuid n =>
    obtain ⟨a, ha, -, rfl⟩ := exists_arm h
    exact hs.ages ages_callback
  | mark uuid n =>
    obtain ⟨a, ha, -, rfl⟩ := exists_arm h
    exact hs.ages (ages_modifyArm (fun _ _ => ⟨rfl, by simp [Timer.toCome]⟩) fun _ _ => id)
  | markReconcile uuid | takeReconcileDirty =>
    cases h
    exact ⟨hs.apart, hs.timer⟩

/-! ## Runs -/

theorem harmlessCallback_of_finds_eq_false (h : s.finds uuid a.generation = false) :
    HarmlessCallback s uuid n a := by
  unfold HarmlessCallback State.callback
  rw [if_neg (by simp [h])]
  refine ⟨rfl, fun a' ha' => ?_⟩
  simp only [State.modifyArm, Function.update_self, List.getElem?_modify] at ha'
  obtain ⟨b, -, rfl⟩ := Option.map_eq_some_iff.mp ha'
  simp

theorem not_harmlessCallback_of_finds (h : s.finds uuid a.generation = true) :
    ¬ HarmlessCallback s uuid n a := by
  rintro ⟨hsame, -⟩
  obtain ⟨slot, hslot, -⟩ := finds_eq_true h
  unfold State.callback at hsame
  rw [if_pos h] at hsame
  have hnone : s.deadlines uuid = none := by rw [← hsame]; exact Function.update_self _ _ _
  rw [hslot] at hnone
  cases hnone

theorem Inv.harmless (s : State) (hs : Inv s) : Harmless s := by
  intro uuid n a ha hn hcome
  apply harmlessCallback_of_finds_eq_false
  cases hfinds : s.finds uuid a.generation with
  | false => rfl
  | true =>
    obtain ⟨slot, hslot, hgen⟩ := finds_eq_true hfinds
    exact absurd hgen (hs.apart uuid n a slot ha hn hcome hslot)

theorem getElem?_stopTimer (hs : Inv s) (hslot : s.deadlines uuid = some slot)
    (ha : (s.arms uuid)[n]? = some a) (hgen : a.generation ≠ slot.generation) :
    ((s.stopTimer uuid slot.timer).arms uuid)[n]? = some a := by
  cases htimer : slot.timer with
  | none => exact ha
  | some k =>
    obtain ⟨b, hb, hsame⟩ := hs.timer uuid slot k hslot htimer
    have hne : k ≠ n := by
      rintro rfl
      obtain rfl := Option.some.inj (ha.symm.trans hb)
      exact hgen hsame
    simp [State.stopTimer, State.modifyArm, hne, ha]

theorem nextGeneration_ne : nextGeneration (some slot) ≠ slot.generation := by
  simp [nextGeneration]

theorem fresh_of_harmless (s : State) (ev : Event) (hs : Inv s)
    (h : ∀ s', step s ev = some s' → Harmless s') : Fresh s ev := by
  cases ev with
  | armReconcileDeadline uuid delay =>
    intro huuid hdelay a hmem hcome hgen
    have hharmless := h _ rfl
    unfold State.armReconcileDeadline at hharmless
    simp only at hharmless
    rw [if_neg (by rw [not_or]; exact ⟨huuid, by omega⟩)] at hharmless
    generalize trimSpace uuid = uuid at hmem hgen hharmless
    obtain ⟨n, hn⟩ := List.mem_iff_getElem?.mp hmem
    have hkept : ((s.stopTimer uuid ((s.deadlines uuid).bind (·.timer))).arms uuid)[n]? =
        some a := by
      cases hslot : s.deadlines uuid with
      | none => exact hn
      | some slot =>
        rw [hslot] at hgen
        exact getElem?_stopTimer hs hslot hn fun heq => nextGeneration_ne (hgen.symm.trans heq)
    have hlt := (List.getElem?_eq_some_iff.mp hkept).1
    refine not_harmlessCallback_of_finds ?_ (hharmless uuid n a ?_ ?_ hcome)
    · simp [State.finds, hgen]
    · simp only [Function.update_self]
      rw [List.getElem?_append_left hlt]
      exact hkept
    · simp only [Function.update_self, List.length_append, List.length_singleton]
      omega
  | _ => trivial

/-- **When deadlines are safe from replaced arms**: in every state of a run the callbacks of
replaced arms that are still to come would leave the slots alone and mark nothing, exactly when no
arm of the run is given the generation of an earlier arm of the workload whose callback is
still to come. -/
theorem replaced_harmless_iff (evs : List Event) :
    Throughout step Harmless .init evs ↔ Along step Fresh .init evs :=
  throughout_iff_along Inv.harmless inv_step fresh_of_harmless inv_init

/-- **A generation that comes again**: the first timer fires and its callback waits for the lock.
Meanwhile the workload is armed again, the second callback takes the slot away, and a third arm gets
generation one. The first callback then takes the third slot away and marks the workload. -/
theorem callback_takes_later_slot :
    ∃ s s' s'', run step .init
        [.armReconcileDeadline "a".toList 5, .afterFunc "a".toList 0, .settle "a".toList 0,
          .fire "a".toList 0,
          .armReconcileDeadline "a".toList 5, .afterFunc "a".toList 1, .settle "a".toList 1,
          .fire "a".toList 1, .callback "a".toList 1, .mark "a".toList 1, .takeReconcileDirty,
          .armReconcileDeadline "a".toList 5, .afterFunc "a".toList 2, .settle "a".toList 2] =
        some s ∧
      s.deadlines "a".toList = some ⟨1, some 2⟩ ∧ s.dirty.uuids = [] ∧
      step s (.callback "a".toList 0) = some s' ∧ s'.deadlines "a".toList = none ∧
      step s' (.mark "a".toList 0) = some s'' ∧ s''.dirty.uuids = ["a".toList] := by
  refine ⟨_, _, _, rfl, ?_, ?_, rfl, ?_, rfl, ?_⟩ <;> decide

end Edgelet.ProcessManager.Deadlines
