import Edgelet.Machine.Run
import Mathlib.Data.Int.Notation

/-!
# The output of a session

`SendMessage` writes a frame to the websocket if the session is active and buffers it if not. The
message that activates the session sets the flag and starts `flushBuffer`, which writes the buffer
until it is empty. Flag and buffer are not looked at together: a frame may be buffered after the
flush has ended, or be written while earlier ones are still in the buffer.

Every access to the flag, the buffer, its two counters and the websocket is a step; the connection
is up all the time.
-/

namespace Edgelet.FieldAgent.SessionOutput

open Machine

/-! ## Frames and goroutines -/

structure Frame where
  call : ℕ
  msgType : UInt8
  data : List UInt8
  deriving DecidableEq

def maxBufferedFrames : ℤ := 1000

def maxBufferSize : ℤ := 1024 * 1024

inductive Producer
  | idle
  | check (x : Frame)
  | write (x : Frame)
  | loadFrames (x : Frame)
  | loadSize (x : Frame)
  | send (x : Frame)
  | addFrames (x : Frame)
  | addSize (x : Frame)
  deriving DecidableEq

inductive Flusher
  | notStarted
  | receive
  | subFrames (x : Frame)
  | subSize (x : Frame)
  | write (x : Frame)
  | returned
  deriving DecidableEq

inductive Activation
  | pending
  | flagged
  | done
  deriving DecidableEq

structure State where
  isActive : Bool
  outputBuffer : List Frame
  bufferedFrames : ℤ
  bufferedSize : ℤ
  producer : Producer
  flusher : Flusher
  activation : Activation
  sent : List Frame
  written : List Frame

def initial : State where
  isActive := false
  outputBuffer := []
  bufferedFrames := 0
  bufferedSize := 0
  producer := .idle
  flusher := .notStarted
  activation := .pending
  sent := []
  written := []

inductive Action
  | call (msgType : UInt8) (data : List UInt8)
  | produce
  | flush
  | activate

variable (s : State)

def produce : Producer → Option State
  | .idle => none
  | .check x => some { s with producer := if s.isActive then .write x else .loadFrames x }
  | .write x => some { s with written := s.written ++ [x], producer := .idle }
  | .loadFrames x =>
    some { s with producer := if maxBufferedFrames ≤ s.bufferedFrames then .idle else .loadSize x }
  | .loadSize x =>
    some { s with
      producer := if maxBufferSize < s.bufferedSize + x.data.length then .idle else .send x }
  | .send x =>
    if maxBufferedFrames ≤ s.outputBuffer.length then some { s with producer := .idle }
    else some { s with outputBuffer := s.outputBuffer ++ [x], producer := .addFrames x }
  | .addFrames x => some { s with bufferedFrames := s.bufferedFrames + 1, producer := .addSize x }
  | .addSize x =>
    some { s with bufferedSize := s.bufferedSize + x.data.length, producer := .idle }

def flush : Flusher → Option State
  | .notStarted | .returned => none
  | .receive =>
    match s.outputBuffer with
    | [] => some { s with flusher := .returned }
    | x :: rest => some { s with outputBuffer := rest, flusher := .subFrames x }
  | .subFrames x => some { s with bufferedFrames := s.bufferedFrames - 1, flusher := .subSize x }
  | .subSize x =>
    some { s with bufferedSize := s.bufferedSize - x.data.length, flusher := .write x }
  | .write x => some { s with written := s.written ++ [x], flusher := .receive }

def step : Action → Option State
  | .call msgType data =>
    if s.producer = .idle then
      let x : Frame := ⟨s.sent.length, msgType, data⟩
      some { s with sent := s.sent ++ [x], producer := .check x }
    else none
  | .produce => produce s s.producer
  | .flush => flush s s.flusher
  | .activate =>
    match s.activation with
    | .pending => some { s with isActive := true, activation := .flagged }
    | .flagged => some { s with flusher := .receive, activation := .done }
    | .done => none

/-! ## The property and the condition -/

def Accepts : Producer → Prop
  | .loadFrames _ => s.bufferedFrames < maxBufferedFrames
  | .loadSize x => s.bufferedSize + x.data.length ≤ maxBufferSize
  | .send _ => s.outputBuffer.length < maxBufferedFrames
  | _ => True

instance decidableAccepts (s : State) : ∀ p, Decidable (Accepts s p)
  | .loadFrames _ => inferInstanceAs (Decidable (_ < _))
  | .loadSize _ => inferInstanceAs (Decidable (_ ≤ _))
  | .send _ => inferInstanceAs (Decidable (_ < _))
  | .idle | .check _ | .write _ | .addFrames _ | .addSize _ => isTrue trivial

def Within : Action → Prop
  | .produce => Accepts s s.producer
  | _ => True

instance decidableWithin (s : State) : ∀ a, Decidable (Within s a)
  | .produce => inferInstanceAs (Decidable (Accepts s s.producer))
  | .call .. | .flush | .activate => isTrue trivial

def Paused : Prop := s.producer = .idle ∧ s.flusher = .returned

/-- **The output is delivered**: the frames on the websocket are the first ones of those passed to
`SendMessage`, each once and in the order of the calls; and when the producer pauses after the
activation they are all of them, and no frame is left in the buffer. -/
def Delivered : Prop :=
  s.written <+: s.sent ∧ (Paused s → s.written = s.sent ∧ s.outputBuffer = [])

def Flusher.held : Flusher → List Frame
  | .subFrames x | .subSize x | .write x => [x]
  | _ => []

def InTurn : Producer → Prop
  | .write _ => s.flusher.held ++ s.outputBuffer = []
  | .send _ => s.flusher ≠ .returned
  | _ => True

instance decidableInTurn (s : State) : ∀ p, Decidable (InTurn s p)
  | .write _ => inferInstanceAs (Decidable (_ = _))
  | .send _ => inferInstanceAs (Decidable (_ ≠ _))
  | .idle | .check _ | .loadFrames _ | .loadSize _ | .addFrames _ | .addSize _ => isTrue trivial

/-- **The action is orderly**: a call writes its frame only when no frame is in the buffer or in the
hands of `flushBuffer`, and puts it into the buffer only when `flushBuffer` has not returned. -/
def Orderly : Action → Prop
  | .produce => InTurn s s.producer
  | _ => True

instance decidableOrderly (s : State) : ∀ a, Decidable (Orderly s a)
  | .produce => inferInstanceAs (Decidable (InTurn s s.producer))
  | .call .. | .flush | .activate => isTrue trivial

/-! ## Orderly runs -/

def Producer.current : Producer → List Frame
  | .check x | .write x | .loadFrames x | .loadSize x | .send x => [x]
  | _ => []

/-- **The invariant** of orderly runs: the frames of the calls are, in their order, those on the
websocket, the one in the hands of `flushBuffer`, those in the buffer, and the one of the call under
way. -/
structure Inv (s : State) : Prop where
  frames : s.sent = s.written ++ s.flusher.held ++ s.outputBuffer ++ s.producer.current
  numbered : s.sent.map (·.call) = List.range s.sent.length
  notStarted : s.activation ≠ .done → s.flusher = .notStarted
  returned : s.flusher = .returned → s.outputBuffer = []

theorem inv_initial : Inv initial where
  frames := rfl
  numbered := rfl
  notStarted _ := rfl
  returned := nofun

theorem Inv.nodup {s : State} (h : Inv s) : s.sent.Nodup := by
  apply List.Nodup.of_map (·.call)
  rw [h.numbered]
  exact List.nodup_range

theorem Inv.delivered {s : State} (h : Inv s) : Delivered s := by
  refine ⟨?_, ?_⟩
  · rw [h.frames, List.append_assoc, List.append_assoc]
    exact List.prefix_append ..
  · rintro ⟨hidle, hreturned⟩
    have hempty := h.returned hreturned
    have hframes := h.frames
    rw [hidle, hreturned, hempty] at hframes
    simp only [Flusher.held, Producer.current, List.append_nil] at hframes
    exact ⟨hframes.symm, hempty⟩

section Steps

variable {s s' : State} {a : Action}

theorem Inv.produce (h : Inv s) (hwithin : Within s .produce) (hok : Orderly s .produce)
    (hstep : step s .produce = some s') : Inv s' := by
  obtain ⟨hframes, hnumbered, hnotStarted, hreturned⟩ := h
  simp only [SessionOutput.step] at hstep
  cases hp : s.producer with
  | idle =>
    rw [hp] at hstep
    cases hstep
  | check x =>
    rw [hp] at hstep hframes
    cases hstep
    refine ⟨?_, hnumbered, hnotStarted, hreturned⟩
    cases s.isActive <;> exact hframes
  | write x =>
    simp only [Orderly, InTurn, hp, List.append_eq_nil_iff] at hok
    rw [hp] at hstep hframes
    cases hstep
    refine ⟨?_, hnumbered, hnotStarted, hreturned⟩
    simpa [hok.1, hok.2, Producer.current] using hframes
  | loadFrames x | loadSize x =>
    simp only [Within, Accepts, hp] at hwithin
    rw [hp] at hstep hframes
    cases hstep
    rw [if_neg (by omega)]
    exact ⟨hframes, hnumbered, hnotStarted, hreturned⟩
  | send x =>
    simp only [Within, Accepts, hp] at hwithin
    simp only [Orderly, InTurn, hp] at hok
    rw [hp] at hstep hframes
    simp only [SessionOutput.produce] at hstep
    rw [if_neg (by omega)] at hstep
    cases hstep
    refine ⟨?_, hnumbered, hnotStarted, fun hr => absurd hr hok⟩
    simpa [Producer.current] using hframes
  | addFrames x | addSize x =>
    rw [hp] at hstep hframes
    cases hstep
    exact ⟨hframes, hnumbered, hnotStarted, hreturned⟩

theorem Inv.flush (h : Inv s) (hstep : step s .flush = some s') : Inv s' := by
  obtain ⟨hframes, hnumbered, hnotStarted, hreturned⟩ := h
  simp only [SessionOutput.step] at hstep
  cases hf : s.flusher with
  | notStarted | returned =>
    rw [hf] at hstep
    cases hstep
  | receive =>
    rw [hf] at hstep hframes hnotStarted
    simp only [SessionOutput.flush] at hstep
    split at hstep
    next hempty =>
      cases hstep
      exact ⟨hframes, hnumbered, fun hd => absurd (hnotStarted hd) nofun, fun _ => hempty⟩
    next x rest hx =>
      cases hstep
      refine ⟨?_, hnumbered, fun hd => absurd (hnotStarted hd) nofun, nofun⟩
      simpa [Flusher.held, hx] using hframes
  | subFrames x | subSize x =>
    rw [hf] at hstep hframes hnotStarted
    cases hstep
    exact ⟨hframes, hnumbered, fun hd => absurd (hnotStarted hd) nofun, nofun⟩
  | write x =>
    rw [hf] at hstep hframes hnotStarted
    cases hstep
    refine ⟨?_, hnumbered, fun hd => absurd (hnotStarted hd) nofun, nofun⟩
    simpa [Flusher.held] using hframes

/-- **The step lemma**: an orderly action within the limits preserves the invariant. -/
theorem Inv.step (h : Inv s) (hwithin : Within s a) (hok : Orderly s a)
    (hstep : step s a = some s') : Inv s' := by
  cases a with
  | produce => exact h.produce hwithin hok hstep
  | flush => exact h.flush hstep
  | call msgType data =>
    obtain ⟨hframes, hnumbered, hnotStarted, hreturned⟩ := h
    simp only [SessionOutput.step] at hstep
    split at hstep
    next hidle =>
      cases hstep
      rw [hidle] at hframes
      refine ⟨?_, ?_, hnotStarted, hreturned⟩
      · simp only [Producer.current, List.append_nil] at hframes ⊢
        rw [← hframes]
      · simp [hnumbered, List.range_succ]
    next => cases hstep
  | activate =>
    obtain ⟨hframes, hnumbered, hnotStarted, hreturned⟩ := h
    simp only [SessionOutput.step] at hstep
    split at hstep
    next hpending =>
      cases hstep
      exact ⟨hframes, hnumbered, fun _ => hnotStarted (by simp [hpending]), hreturned⟩
    next hflagged =>
      cases hstep
      rw [hnotStarted (by simp [hflagged])] at hframes
      exact ⟨hframes, hnumbered, fun hd => absurd rfl hd, nofun⟩
    next => cases hstep

/-! ## Disorderly actions -/

structure Stranded (s : State) : Prop where
  done : s.activation = .done
  returned : s.flusher = .returned
  buffered : s.outputBuffer ≠ []

theorem Stranded.step (h : Stranded s) (hstep : step s a = some s') : Stranded s' := by
  obtain ⟨hdone, hreturned, hne⟩ := h
  cases a with
  | call msgType data =>
    simp only [SessionOutput.step] at hstep
    split at hstep <;> cases hstep
    exact ⟨hdone, hreturned, hne⟩
  | produce =>
    simp only [SessionOutput.step] at hstep
    unfold SessionOutput.produce at hstep
    split at hstep <;> (try split at hstep) <;> cases hstep
    all_goals exact ⟨hdone, hreturned, by simp [hne]⟩
  | flush =>
    simp only [SessionOutput.step, hreturned] at hstep
    cases hstep
  | activate =>
    simp only [SessionOutput.step, hdone] at hstep
    cases hstep

theorem stranded_of_send (h : Inv s) {x : Frame} (hp : s.producer = .send x)
    (hreturned : s.flusher = .returned) (hwithin : Within s .produce)
    (hstep : step s .produce = some s') : Stranded s' := by
  have hdone : s.activation = .done := by
    by_contra hd
    exact absurd ((h.notStarted hd).symm.trans hreturned) nofun
  simp only [Within, Accepts, hp] at hwithin
  simp only [SessionOutput.step, hp, SessionOutput.produce] at hstep
  rw [if_neg (by omega)] at hstep
  cases hstep
  exact ⟨hdone, hreturned, by simp⟩

theorem not_delivered_of_write (h : Inv s) {x : Frame} (hp : s.producer = .write x)
    (hwaiting : s.flusher.held ++ s.outputBuffer ≠ []) (hstep : step s .produce = some s') :
    ¬ Delivered s' := by
  rintro ⟨hpre, -⟩
  obtain ⟨y, rest, hy⟩ := List.exists_cons_of_ne_nil hwaiting
  have hframes : s.sent = s.written ++ y :: (rest ++ [x]) := by
    rw [h.frames, hp, List.append_assoc s.written, hy]
    simp [Producer.current]
  simp only [SessionOutput.step, hp] at hstep
  cases hstep
  have hxy : x = y := by
    rw [hframes, List.prefix_append_right_inj] at hpre
    exact (List.cons_prefix_cons.mp hpre).1
  have hnodup := h.nodup
  rw [hframes, hxy] at hnodup
  exact absurd (List.nodup_append.mp hnodup).2.1 (by simp)

end Steps

/-! ## Delivery -/

variable {s s' : State} {as : List Action}

theorem delivered_of_orderly (hwithin : Along step Within initial as)
    (hok : Along step Orderly initial as) : Throughout step Delivered initial as :=
  throughout_of_along (fun _ => Inv.delivered) (fun _ _ _ h hok => h.step hok.1 hok.2) inv_initial
    (along_and.mpr ⟨hwithin, hok⟩)

theorem orderly_of_delivered (h : Inv s) (hwithin : Along step Within s as)
    (hrun : run step s as = some s') (hidle : s'.producer = .idle)
    (hdelivered : Throughout step Delivered s as) : Along step Orderly s as := by
  induction as generalizing s with
  | nil => trivial
  | cons a as ih =>
    obtain ⟨t, ht, htail⟩ := run_cons_eq_some.mp hrun
    have hrest := (throughout_cons.mp hdelivered).2 t ht
    have hok : Orderly s a := by
      cases a with
      | call msgType data | flush | activate => trivial
      | produce =>
        cases hp : s.producer with
        | write x =>
          simp only [Orderly, InTurn, hp]
          by_contra hwaiting
          exact not_delivered_of_write h hp hwaiting ht (hrest [] List.nil_prefix t rfl)
        | send x =>
          simp only [Orderly, InTurn, hp]
          intro hreturned
          have hlast : Stranded s' :=
            invariant_run_always (fun _ _ _ h => h.step)
              (stranded_of_send h hp hreturned hwithin.1 ht) htail
          have hend : Delivered s' := hrest as (List.prefix_refl as) s' htail
          exact hlast.buffered (hend.2 ⟨hidle, hlast.returned⟩).2
        | idle | check x | loadFrames x | loadSize x | addFrames x | addSize x =>
          simp [Orderly, InTurn, hp]
    refine ⟨hok, fun t' ht' => ?_⟩
    obtain rfl := Option.some.inj (ht.symm.trans ht')
    exact ih (h.step hwithin.1 hok ht) (hwithin.2 t ht) htail hrest

/-- **Which interleavings deliver the output**, for every run of the calls, the activation and
`flushBuffer` that keeps the limits of the buffer: those in which no call writes its frame while
earlier ones wait in the buffer, and none puts its frame into the buffer after `flushBuffer` has
returned. (A frame that is stranded is seen once the call has returned.) -/
theorem delivered_iff_orderly (hwithin : Along step Within initial as)
    (hrun : run step initial as = some s) :
    (Along step Orderly initial as → Throughout step Delivered initial as) ∧
      (s.producer = .idle → Throughout step Delivered initial as → Along step Orderly initial as) :=
  ⟨delivered_of_orderly hwithin, orderly_of_delivered inv_initial hwithin hrun⟩

def orderlyRun : List Action :=
  [.call 1 [104], .produce, .produce, .produce, .produce, .produce, .produce,
    .activate, .activate, .flush, .flush, .flush, .flush, .flush,
    .call 1 [105], .produce, .produce]

theorem delivered_iff_orderly_two_frames :
    Along step Within initial orderlyRun ∧ Throughout step Delivered initial orderlyRun :=
  have hrun : run step initial orderlyRun = some
      { initial with
        isActive := true
        flusher := .returned
        activation := .done
        sent := [⟨0, 1, [104]⟩, ⟨1, 1, [105]⟩]
        written := [⟨0, 1, [104]⟩, ⟨1, 1, [105]⟩] } := rfl
  ⟨by decide, (delivered_iff_orderly (by decide) hrun).1 (by decide)⟩

def strandingRun : List Action :=
  [.call 1 [104], .produce, .activate, .activate, .flush,
    .produce, .produce, .produce, .produce, .produce]

def overtakingRun : List Action :=
  [.call 1 [104], .produce, .produce, .produce, .produce, .produce, .produce, .activate,
    .call 1 [105], .produce, .produce, .activate, .flush, .flush, .flush, .flush, .flush]

/-- Two runs within the limits, after which the producer pauses: in the first one the frame stays in
the buffer, and in the second one the frames are written in the other order. -/
theorem frame_stranded_and_frame_overtaken :
    (Along step Within initial strandingRun ∧ ∃ s, run step initial strandingRun = some s ∧
      Paused s ∧ s.written = [] ∧ s.outputBuffer = [⟨0, 1, [104]⟩]) ∧
    (Along step Within initial overtakingRun ∧ ∃ s, run step initial overtakingRun = some s ∧
      Paused s ∧ s.sent = [⟨0, 1, [104]⟩, ⟨1, 1, [105]⟩] ∧
      s.written = [⟨1, 1, [105]⟩, ⟨0, 1, [104]⟩]) :=
  ⟨⟨by decide, _, rfl, ⟨rfl, rfl⟩, rfl, rfl⟩, by decide, _, rfl, ⟨rfl, rfl⟩, rfl, rfl⟩

end Edgelet.FieldAgent.SessionOutput
