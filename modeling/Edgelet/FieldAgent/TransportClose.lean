import Edgelet.FieldAgent.WebSocket
import Edgelet.Machine.Run

/-!
# Transports that close

Nothing in a `handleTransportClose` says which connection has failed. By the time it gets to run the
handler may have another one, and this one is marked as disconnected and closed.
-/

namespace Edgelet.FieldAgent.WebSocket

open Machine

/-! ## The machine -/

def Pc.writes : Pc → Bool
  | .close _ .check | .close _ .notify => false
  | .reset _ .lock | .reset _ .wait | .reset _ .unlock => false
  | .close _ _ | .reset _ _ => true
  | _ => false

structure State where
  handler : Handler
  threads : List Pc

def initial : State := ⟨.new, []⟩

inductive Call
  | reset
  | connect
  | disconnect

def Call.pc : Call → Pc
  | .reset => .reset none .lock
  | .connect => .connect .lock
  | .disconnect => .reset none .disconnect

inductive Action
  | call (c : Call)
  | run (n : ℕ) (c : Choice)

def Spawn.pc : Spawn → Option Pc
  | .worker pc => some pc
  | .close j => some (.close j .check)
  | .stopSession => none

def idle (threads : List Pc) : Bool := threads.all fun pc => !pc.isWorker

def step (kind : Kind) (s : State) : Action → Option State
  | .call c => some { s with threads := s.threads ++ [c.pc] }
  | .run n c =>
    match s.threads[n]? with
    | none => none
    | some pc =>
      (pc.step kind s.handler (idle s.threads) c).map fun o =>
        ⟨o.handler, replaceAt s.threads n o.next ++ o.spawn.filterMap Spawn.pc⟩

/-- **The action is harmless**: a goroutine that was started because the connection `k` failed does
not store to the handler, and does not close its connection, while the handler has a connection
that was established after `k`. -/
def Harmless (s : State) : Action → Prop
  | .call _ => True
  | .run n _ => ∀ pc ∈ s.threads[n]?, pc.writes = true → ∀ k ∈ pc.cause, ∀ j ∈ s.handler.conn, j ≤ k

/-- **Connections are made in settled states**: when a connection is established, no
`handleTransportClose` is under way. -/
def Settled (s : State) : Action → Prop
  | .run n .ok => s.threads[n]? = some (.connect .dial) → ∀ pc ∈ s.threads, pc.cause = none
  | _ => True

instance (s : State) : DecidablePred (Settled s)
  | .call _ => isTrue trivial
  | .run n .ok => inferInstanceAs (Decidable (s.threads[n]? = _ → ∀ pc ∈ s.threads, _))
  | .run _ .go | .run _ .fail | .run _ (.message _) => isTrue trivial

/-! ## The invariant -/

def Pc.mark : Pc → Option ℕ
  | .read (.reading j) | .ping (.pinging j) => some j
  | pc => pc.cause

def Pc.waited : Pc → Bool
  | .reset _ .storeConnected | .reset _ .storeActive | .reset _ .storeState
  | .reset _ .renew => true
  | _ => false

def Pc.closing : Pc → Bool
  | .close _ .check => false
  | .close _ _ => true
  | .reset cause .lock | .reset cause .cancel | .reset cause .closeConn | .reset cause .wait =>
    cause.isSome
  | _ => false

def Pc.dialing : Pc → Bool
  | .connect .storeDisconnected | .connect .expectDisconnected | .connect .storeConnecting
  | .connect .dial => true
  | _ => false

def Pc.established : Pc → Bool
  | .connect .storeConnected | .connect .expectConnecting | .connect .storePending
  | .connect .startWorkers => true
  | _ => false

variable {pc : Pc}

theorem Pc.holds_of_waited (h : pc.waited = true) : pc.holds = true := by
  unfold Pc.waited at h
  split at h <;> first | rfl | cases h

theorem Pc.holds_of_dialing (h : pc.dialing = true) : pc.holds = true := by
  unfold Pc.dialing at h
  split at h <;> first | rfl | cases h

theorem Pc.holds_of_established (h : pc.established = true) : pc.holds = true := by
  unfold Pc.established at h
  split at h <;> first | rfl | cases h

theorem Pc.cause_of_closing (h : pc.closing = true) : ∃ k, pc.cause = some k := by
  unfold Pc.closing at h
  split at h <;> first | exact ⟨_, rfl⟩ | exact Option.isSome_iff_exists.mp h | cases h

theorem Pc.mark_eq_cause (h : pc.isWorker = false) : pc.mark = pc.cause := by
  cases pc with
  | read p | ping p => cases h
  | _ => rfl

/-- **The invariant** of settled runs. Every goroutine that knows a connection knows the last one:
while there are workers, the handler is connected or a `handleTransportClose` is on the way to wait
for them, and it is still on its way when the next connection is made. -/
structure Inv (h : Handler) (ts : List Pc) : Prop where
  mutex : ts.countP Pc.holds = if h.locked then 1 else 0
  conn : ∀ j ∈ h.conn, j = h.made
  mark : ∀ pc ∈ ts, ∀ k ∈ pc.mark, k = h.made
  waited : ∀ pc ∈ ts, pc.waited = true → idle ts = true
  down : h.isConnected = false → idle ts = true ∨ ∃ pc ∈ ts, pc.closing = true
  dialing : ∀ pc ∈ ts, pc.dialing = true → h.isConnected = false
  established : ∀ pc ∈ ts, pc.established = true →
    idle ts = true ∧ (∀ q ∈ ts, q.cause = none) ∧
      (pc ≠ .connect .storeConnected → h.isConnected = true)

theorem inv_initial : Inv initial.handler initial.threads := by
  constructor <;> simp [initial, Handler.new, idle]

section Threads

variable {h : Handler} {pc : Pc} {ts ts' others : List Pc}

theorem idle_cons : idle (pc :: ts) = (!pc.isWorker && idle ts) := rfl

theorem Inv.change {h' : Handler} (hinv : Inv h ts)
    (hmutex : ts'.countP Pc.holds = ts.countP Pc.holds)
    (hnew : ∀ q ∈ ts', q ∈ ts ∨ q.holds = false ∧ ∀ k ∈ q.mark, k = h.made)
    (hidle : idle ts = true → idle ts' = true)
    (hcause : idle ts = true → (∀ q ∈ ts, q.cause = none) → ∀ q ∈ ts', q.cause = none)
    (hclosing : ∀ q ∈ ts, q.closing = true → ∃ r ∈ ts', r.closing = true)
    (hsame : h'.made = h.made ∧ h'.conn = h.conn ∧ h'.locked = h.locked)
    (hdown : h'.isConnected = h.isConnected ∨ h'.isConnected = false ∧
      (∃ q ∈ ts, q.cause ≠ none) ∧ ∃ r ∈ ts', r.closing = true) : Inv h' ts' := by
  obtain ⟨hmade, hconn, hlocked⟩ := hsame
  have hold : ∀ {P : Pc → Bool}, (∀ q, P q = true → q.holds = true) → ∀ q ∈ ts', P q = true →
      q ∈ ts := by
    intro P hP q hq hPq
    rcases hnew q hq with hq | ⟨hfree, -⟩
    · exact hq
    · rw [hP q hPq] at hfree
      cases hfree
  refine ⟨by rw [hmutex, hlocked, hinv.mutex], ?_, ?_, ?_, ?_, ?_, ?_⟩
  · rw [hconn, hmade]
    exact hinv.conn
  · rw [hmade]
    exact fun q hq => (hnew q hq).elim (hinv.mark q) And.right
  · exact fun q hq hw => hidle (hinv.waited q (hold (fun _ => Pc.holds_of_waited) q hq hw) hw)
  · intro hoff
    rcases hdown with hup | ⟨-, -, hc⟩
    · rcases hinv.down (hup ▸ hoff) with hi | ⟨q, hq, hc⟩
      · exact .inl (hidle hi)
      · exact .inr (hclosing q hq hc)
    · exact .inr hc
  · intro q hq hd
    have hoff := hinv.dialing q (hold (fun _ => Pc.holds_of_dialing) q hq hd) hd
    exact hdown.elim (fun hup => hup.trans hoff) And.left
  · intro q hq he
    obtain ⟨hi, hnone, hup⟩ :=
      hinv.established q (hold (fun _ => Pc.holds_of_established) q hq he) he
    refine ⟨hidle hi, hcause hi hnone, fun hne => ?_⟩
    rcases hdown with hsame | ⟨-, ⟨r, hr, hne'⟩, -⟩
    · rw [hsame, hup hne]
    · exact absurd (hnone r hr) hne'

theorem idle_perm (hp : ts.Perm ts') : idle ts' = idle ts := by
  rw [Bool.eq_iff_iff, idle, idle, List.all_eq_true, List.all_eq_true]
  exact forall_congr' fun pc => by rw [hp.mem_iff]

theorem Inv.perm (hp : ts.Perm ts') (hinv : Inv h ts) : Inv h ts' :=
  hinv.change (hp.countP_eq _).symm (fun _ hq => .inl (hp.mem_iff.mpr hq)) (idle_perm hp).trans
    (fun _ hnone q hq => hnone q (hp.mem_iff.mpr hq)) (fun q hq hc => ⟨q, hp.mem_iff.mp hq, hc⟩)
    ⟨rfl, rfl, rfl⟩ (.inl rfl)

theorem Inv.alone (hinv : Inv h (pc :: others)) (hpc : pc.holds = true ∨ h.locked = false) :
    ∀ q ∈ others, q.holds = false := by
  have hmutex := hinv.mutex
  rw [List.countP_cons] at hmutex
  have hnone : others.countP Pc.holds = 0 := by
    rcases hpc with hpc | hpc
    · rw [if_pos hpc] at hmutex
      split at hmutex <;> omega
    · rw [hpc] at hmutex
      simp only [Bool.false_eq_true, if_false] at hmutex
      omega
  intro q hq
  exact Bool.eq_false_iff.mpr (List.countP_eq_zero.mp hnone q hq)

theorem Inv.locked_of_holds (hinv : Inv h (pc :: others)) (hpc : pc.holds = true) :
    h.locked = true := by
  have hmutex := hinv.mutex
  rw [List.countP_cons_of_pos hpc] at hmutex
  by_contra hfree
  rw [if_neg hfree] at hmutex
  omega

theorem Inv.of_alone (halone : ∀ q ∈ others, q.holds = false) (hlocked : h.locked = pc.holds)
    (hconn : ∀ j ∈ h.conn, j = h.made) (hmark : ∀ k ∈ pc.mark, k = h.made)
    (hmarks : ∀ q ∈ others, ∀ k ∈ q.mark, k = h.made)
    (hwaited : pc.waited = true → idle (pc :: others) = true)
    (hdown : h.isConnected = false →
      idle (pc :: others) = true ∨ ∃ q ∈ pc :: others, q.closing = true)
    (hdialing : pc.dialing = true → h.isConnected = false)
    (hest : pc.established = true → idle (pc :: others) = true ∧
      (∀ q ∈ pc :: others, q.cause = none) ∧
      (pc ≠ .connect .storeConnected → h.isConnected = true)) : Inv h (pc :: others) := by
  have hnot : ∀ {P : Pc → Prop}, (∀ q, P q → q.holds = true) → ∀ q ∈ others, ¬ P q := by
    intro P hP q hq hPq
    have := halone q hq
    rw [hP q hPq] at this
    cases this
  refine ⟨?_, hconn, ?_, ?_, hdown, ?_, ?_⟩
  · rw [List.countP_cons, List.countP_eq_zero.mpr fun q hq => by simp [halone q hq], hlocked,
      Nat.zero_add]
  · intro q hq
    rcases List.mem_cons.mp hq with rfl | hq
    · exact hmark
    · exact hmarks q hq
  · intro q hq hw
    rcases List.mem_cons.mp hq with rfl | hq
    · exact hwaited hw
    · exact absurd hw (hnot (fun _ => Pc.holds_of_waited) q hq)
  · intro q hq hd
    rcases List.mem_cons.mp hq with rfl | hq
    · exact hdialing hd
    · exact absurd hd (hnot (fun _ => Pc.holds_of_dialing) q hq)
  · intro q hq he
    rcases List.mem_cons.mp hq with rfl | hq
    · exact hest he
    · exact absurd he (hnot (fun _ => Pc.holds_of_established) q hq)

theorem Inv.returned (hinv : Inv h (pc :: others)) (hpc : pc.holds = true)
    (hworker : pc.isWorker = false) (hclosing : pc.closing = false) :
    Inv { h with locked := false } others := by
  have halone := hinv.alone (.inl hpc)
  refine ⟨?_, hinv.conn, fun q hq => hinv.mark q (List.mem_cons_of_mem _ hq), ?_, ?_, ?_, ?_⟩
  · simpa [List.countP_eq_zero] using fun q hq => halone q hq
  · exact fun q hq hw => absurd (Pc.holds_of_waited hw) (by simp [halone q hq])
  · intro hdown
    rcases hinv.down hdown with hidle | ⟨q, hq, hc⟩
    · exact .inl (by simpa [idle_cons, hworker] using hidle)
    · rcases List.mem_cons.mp hq with rfl | hq
      · rw [hclosing] at hc
        cases hc
      · exact .inr ⟨q, hq, hc⟩
  · exact fun q hq hd => absurd (Pc.holds_of_dialing hd) (by simp [halone q hq])
  · exact fun q hq he => absurd (Pc.holds_of_established he) (by simp [halone q hq])

end Threads

/-! ## One statement -/

section Statement

variable {kind : Kind} {h : Handler} {others : List Pc} {o : Out} {c : Choice}

theorem Inv.reset_move {cause : Option ℕ} {p p' : ResetPc} {h' : Handler}
    (hinv : Inv h (.reset cause p :: others)) (hfree : p.step h true cause ≠ none)
    (hmade : h'.made = h.made) (hconn : h'.conn = h.conn ∨ h'.conn = none)
    (hconnected : h'.isConnected = h.isConnected)
    (hlocked : h'.locked = (Pc.reset cause p').holds)
    (hwaited : (Pc.reset cause p').waited = true → idle others = true)
    (hclosing : (Pc.reset cause p).closing = true →
      (Pc.reset cause p').closing = true ∨ idle others = true) :
    Inv h' (.reset cause p' :: others) := by
  have halone : ∀ q ∈ others, q.holds = false := by
    refine hinv.alone ?_
    cases p with
    | lock | disconnect => exact .inr (by simpa [ResetPc.step] using hfree)
    | _ => exact .inl rfl
  refine .of_alone halone hlocked ?_ ?_ ?_ hwaited ?_ nofun nofun
  · intro j hj
    rw [hmade]
    rcases hconn with hconn | hconn
    · exact hinv.conn j (hconn ▸ hj)
    · rw [hconn] at hj
      cases hj
  · rw [hmade]
    exact hinv.mark (.reset cause p) List.mem_cons_self
  · rw [hmade]
    exact fun q hq => hinv.mark q (List.mem_cons_of_mem _ hq)
  · intro hdown
    rcases hinv.down (hconnected ▸ hdown) with hidle | ⟨q, hq, hc⟩
    · exact .inl hidle
    · rcases List.mem_cons.mp hq with rfl | hq
      · rcases hclosing hc with hc | hidle
        · exact .inr ⟨_, List.mem_cons_self, hc⟩
        · exact .inl hidle
      · exact .inr ⟨q, List.mem_cons_of_mem _ hq, hc⟩

theorem Inv.reset_step {cause : Option ℕ} {p : ResetPc} (hinv : Inv h (.reset cause p :: others))
    (hstep : p.step h (idle (.reset cause p :: others)) cause = some o) :
    Inv o.handler (o.next.toList ++ (o.spawn.filterMap Spawn.pc ++ others)) := by
  have hkeep : (Pc.reset cause p).closing = true → (Pc.reset cause p).closing = true ∨
      idle others = true := .inl
  have hmove := @Inv.reset_move h others cause p
  cases p with
  | disconnect =>
    simp only [ResetPc.step] at hstep
    split at hstep
    next => cases hstep
    next hfree =>
      cases hstep
      exact hmove hinv (by simp [ResetPc.step, hfree]) rfl (.inl rfl) rfl rfl nofun nofun
  | graceful =>
    cases hstep
    exact hmove hinv nofun rfl (.inr rfl) rfl (hinv.locked_of_holds rfl) nofun nofun
  | lock =>
    simp only [ResetPc.step] at hstep
    split at hstep
    next => cases hstep
    next hfree =>
      cases hstep
      exact hmove hinv (by simp [ResetPc.step, hfree]) rfl (.inl rfl) rfl rfl nofun hkeep
  | cancel =>
    cases hstep
    exact hmove hinv nofun rfl (.inl rfl) rfl (hinv.locked_of_holds rfl) nofun hkeep
  | closeConn =>
    cases hstep
    exact hmove hinv nofun rfl (.inr rfl) rfl (hinv.locked_of_holds rfl) nofun hkeep
  | wait =>
    simp only [ResetPc.step] at hstep
    split at hstep
    next hidle =>
      cases hstep
      have hothers : idle others = true := hidle
      exact hmove hinv nofun rfl (.inl rfl) rfl (hinv.locked_of_holds rfl)
        (fun _ => hothers) (fun _ => .inr hothers)
    next => cases hstep
  | storeConnected =>
    cases hstep
    have hothers : idle others = true := hinv.waited _ List.mem_cons_self rfl
    exact .of_alone (hinv.alone (.inl rfl)) (hinv.locked_of_holds rfl) hinv.conn
      (hinv.mark (.reset cause .storeConnected) List.mem_cons_self)
      (fun q hq => hinv.mark q (List.mem_cons_of_mem _ hq)) (fun _ => hothers)
      (fun _ => .inl hothers) nofun nofun
  | storeActive | storeState =>
    cases hstep
    have hothers : idle others = true := hinv.waited _ List.mem_cons_self rfl
    exact hmove hinv nofun rfl (.inl rfl) rfl (hinv.locked_of_holds rfl)
      (fun _ => hothers) nofun
  | renew =>
    cases hstep
    exact hmove hinv nofun rfl (.inl rfl) rfl (hinv.locked_of_holds rfl) nofun nofun
  | unlock =>
    cases hstep
    exact hinv.returned rfl rfl rfl

theorem Inv.connect_move {p p' : ConnectPc} {h' : Handler}
    (hinv : Inv h (.connect p :: others)) (hfree : p = .lock → h.locked = false)
    (hmade : h'.made = h.made) (hconn : h'.conn = h.conn)
    (hconnected : h'.isConnected = h.isConnected) (hlocked : h'.locked = (Pc.connect p').holds)
    (hdialing : (Pc.connect p').dialing = true → h.isConnected = false)
    (hest : (Pc.connect p').established = true →
      (Pc.connect p).established = true ∧ p ≠ .storeConnected) :
    Inv h' (.connect p' :: others) := by
  have halone : ∀ q ∈ others, q.holds = false := by
    refine hinv.alone ?_
    cases p with
    | lock => exact .inr (hfree rfl)
    | _ => exact .inl rfl
  refine .of_alone halone hlocked ?_ nofun ?_ nofun ?_ (fun hd => hconnected ▸ hdialing hd) ?_
  · rw [hconn, hmade]
    exact hinv.conn
  · rw [hmade]
    exact fun q hq => hinv.mark q (List.mem_cons_of_mem _ hq)
  · intro hdown
    rcases hinv.down (hconnected ▸ hdown) with hidle | ⟨q, hq, hc⟩
    · exact .inl hidle
    · rcases List.mem_cons.mp hq with rfl | hq
      · cases hc
      · exact .inr ⟨q, List.mem_cons_of_mem _ hq, hc⟩
  · intro he
    obtain ⟨he, hne⟩ := hest he
    obtain ⟨hidle, hcause, hup⟩ := hinv.established _ List.mem_cons_self he
    refine ⟨hidle, ?_, fun _ => hconnected ▸ hup (by simpa using hne)⟩
    intro q hq
    rcases List.mem_cons.mp hq with rfl | hq
    · rfl
    · exact hcause q (List.mem_cons_of_mem _ hq)

theorem Inv.dial_ok (hinv : Inv h (.connect .dial :: others))
    (hsettled : ∀ q ∈ others, q.cause = none) :
    Inv { h with conn := some (h.made + 1), made := h.made + 1 }
      (.connect .storeConnected :: others) := by
  have hdown : h.isConnected = false := hinv.dialing _ List.mem_cons_self rfl
  have hidle : idle others = true := by
    rcases hinv.down hdown with hidle | ⟨q, hq, hc⟩
    · exact hidle
    · rcases List.mem_cons.mp hq with rfl | hq
      · cases hc
      · obtain ⟨k, hk⟩ := Pc.cause_of_closing hc
        rw [hsettled q hq] at hk
        cases hk
  have hmarks : ∀ q ∈ others, q.mark = none := by
    intro q hq
    have hworker : q.isWorker = false := by simpa using List.all_eq_true.mp hidle q hq
    rw [Pc.mark_eq_cause hworker, hsettled q hq]
  refine .of_alone (hinv.alone (.inl rfl)) (hinv.locked_of_holds rfl) ?_ nofun ?_ nofun
    (fun _ => .inl hidle) nofun fun _ => ⟨hidle, ?_, fun h => absurd rfl h⟩
  · rintro j ⟨⟩
    rfl
  · intro q hq k hk
    rw [hmarks q hq] at hk
    cases hk
  · intro q hq
    rcases List.mem_cons.mp hq with rfl | hq
    · rfl
    · exact hsettled q hq

theorem Inv.store_connected (hinv : Inv h (.connect .storeConnected :: others)) :
    Inv { h with isConnected := true } (.connect .expectConnecting :: others) := by
  obtain ⟨hidle, hcause, -⟩ := hinv.established _ List.mem_cons_self rfl
  refine .of_alone (hinv.alone (.inl rfl)) (hinv.locked_of_holds rfl) hinv.conn nofun
    (fun q hq => hinv.mark q (List.mem_cons_of_mem _ hq)) nofun nofun nofun
    fun _ => ⟨hidle, ?_, fun _ => rfl⟩
  intro q hq
  rcases List.mem_cons.mp hq with rfl | hq
  · rfl
  · exact hcause q (List.mem_cons_of_mem _ hq)

theorem Inv.start_workers (hinv : Inv h (.connect .startWorkers :: others)) :
    Inv h (.connect (.unlock false) :: .ping .loop :: .read .loop :: others) := by
  obtain ⟨-, -, hup⟩ := hinv.established _ List.mem_cons_self rfl
  have hup : h.isConnected = true := hup (by simp)
  refine .of_alone ?_ (hinv.locked_of_holds rfl) hinv.conn nofun ?_ nofun ?_ nofun nofun
  · intro q hq
    simp only [List.mem_cons] at hq
    rcases hq with rfl | rfl | hq
    · rfl
    · rfl
    · exact hinv.alone (.inl rfl) q hq
  · intro q hq
    simp only [List.mem_cons] at hq
    rcases hq with rfl | rfl | hq
    · exact nofun
    · exact nofun
    · exact hinv.mark q (List.mem_cons_of_mem _ hq)
  · intro hdown
    rw [hup] at hdown
    cases hdown

theorem Inv.connect_step {p : ConnectPc} (hinv : Inv h (.connect p :: others))
    (hsettled : p = .dial → c = .ok → ∀ q ∈ others, q.cause = none) (hstep : p.step h c = some o) :
    Inv o.handler (o.next.toList ++ (o.spawn.filterMap Spawn.pc ++ others)) := by
  have hmove := @Inv.connect_move h others p
  have hdialing : (Pc.connect p).dialing = true → h.isConnected = false :=
    hinv.dialing _ List.mem_cons_self
  have hlocked : (Pc.connect p).holds = true → h.locked = true := hinv.locked_of_holds
  unfold ConnectPc.step at hstep
  split at hstep
  next =>
    split at hstep
    next => cases hstep
    next hfree =>
      cases hstep
      exact hmove hinv (fun _ => by simpa using hfree) rfl rfl rfl rfl nofun nofun
  next =>
    cases hstep
    by_cases hup : h.isConnected = true
    · rw [if_pos hup]
      exact hmove hinv nofun rfl rfl rfl (hlocked rfl) nofun nofun
    · rw [if_neg hup]
      exact hmove hinv nofun rfl rfl rfl (hlocked rfl) (fun _ => by simpa using hup) nofun
  next =>
    cases hstep
    exact hmove hinv nofun rfl rfl rfl (hlocked rfl) (fun _ => hdialing rfl) nofun
  next =>
    cases hstep
    by_cases hstate : h.state = .disconnected
    · rw [if_pos hstate]
      exact hmove hinv nofun rfl rfl rfl (hlocked rfl) (fun _ => hdialing rfl) nofun
    · rw [if_neg hstate]
      exact hmove hinv nofun rfl rfl rfl (hlocked rfl) nofun nofun
  next =>
    cases hstep
    exact hmove hinv nofun rfl rfl rfl (hlocked rfl) (fun _ => hdialing rfl) nofun
  next => cases hstep; exact hinv.dial_ok (hsettled rfl rfl)
  next => cases hstep; exact hmove hinv nofun rfl rfl rfl (hlocked rfl) nofun nofun
  next =>
    cases hstep
    split <;> exact hmove hinv nofun rfl rfl rfl (hlocked rfl) nofun nofun
  next => cases hstep; exact hmove hinv nofun rfl rfl rfl (hlocked rfl) nofun nofun
  next => cases hstep; exact hinv.store_connected
  next =>
    cases hstep
    split <;> exact hmove hinv nofun rfl rfl rfl (hlocked rfl) nofun (fun _ => ⟨rfl, nofun⟩)
  next =>
    cases hstep
    exact hmove hinv nofun rfl rfl rfl (hlocked rfl) nofun (fun _ => ⟨rfl, nofun⟩)
  next => cases hstep; exact hinv.start_workers
  next => cases hstep; exact hinv.returned rfl rfl rfl
  next => cases hstep

theorem Inv.swap {pc q : Pc} {h' : Handler} (hinv : Inv h (pc :: others)) (hpc : pc.holds = false)
    (hq : q.holds = false) (hworker : q.isWorker = pc.isWorker) (hcause : q.cause = pc.cause)
    (hclosing : pc.closing = true → q.closing = true) (hmark : ∀ k ∈ q.mark, k = h.made)
    (hmade : h'.made = h.made) (hconn : h'.conn = h.conn) (hlocked : h'.locked = h.locked)
    (hdown : h'.isConnected = h.isConnected ∨
      h'.isConnected = false ∧ pc.cause ≠ none ∧ q.closing = true) : Inv h' (q :: others) := by
  refine hinv.change ?_ ?_ ?_ ?_ ?_ ⟨hmade, hconn, hlocked⟩ ?_
  · rw [List.countP_cons_of_neg (by simp [hq]), List.countP_cons_of_neg (by simp [hpc])]
  · intro r hr
    rcases List.mem_cons.mp hr with rfl | hr
    · exact .inr ⟨hq, hmark⟩
    · exact .inl (List.mem_cons_of_mem _ hr)
  · rw [idle_cons, idle_cons, hworker]
    exact id
  · intro _ hnone r hr
    rcases List.mem_cons.mp hr with rfl | hr
    · rw [hcause, hnone pc List.mem_cons_self]
    · exact hnone r (List.mem_cons_of_mem _ hr)
  · intro r hr hc
    rcases List.mem_cons.mp hr with rfl | hr
    · exact ⟨q, List.mem_cons_self, hclosing hc⟩
    · exact ⟨r, List.mem_cons_of_mem _ hr, hc⟩
  · exact hdown.imp_right fun hd =>
      ⟨hd.1, ⟨pc, List.mem_cons_self, hd.2.1⟩, q, List.mem_cons_self, hd.2.2⟩

theorem Inv.drop {pc : Pc} (hinv : Inv h (pc :: others)) (hpc : pc.holds = false)
    (hclosing : pc.closing = false) : Inv h others := by
  refine hinv.change ?_ (fun r hr => .inl (List.mem_cons_of_mem _ hr)) ?_
    (fun _ hnone r hr => hnone r (List.mem_cons_of_mem _ hr)) ?_ ⟨rfl, rfl, rfl⟩ (.inl rfl)
  · rw [List.countP_cons_of_neg (by simp [hpc])]
  · rw [idle_cons, Bool.and_eq_true]
    exact And.right
  · intro r hr hc
    rcases List.mem_cons.mp hr with rfl | hr
    · rw [hclosing] at hc
      cases hc
    · exact ⟨r, hr, hc⟩

theorem Inv.spawn_close {pc : Pc} {j : ℕ} (hinv : Inv h (pc :: others))
    (hworker : pc.isWorker = true) (hj : pc.mark = some j) :
    Inv h (pc :: .close j .check :: others) := by
  have hbusy : idle (pc :: others) ≠ true := by simp [idle_cons, hworker]
  refine hinv.change ?_ ?_ (fun hi => absurd hi hbusy) (fun hi => absurd hi hbusy) ?_
    ⟨rfl, rfl, rfl⟩ (.inl rfl)
  · rw [List.countP_cons, List.countP_cons, List.countP_cons]
    rfl
  · intro r hr
    simp only [List.mem_cons] at hr ⊢
    rcases hr with hr | rfl | hr
    · exact .inl (.inl hr)
    · refine .inr ⟨rfl, ?_⟩
      rintro _ ⟨⟩
      exact hinv.mark pc List.mem_cons_self _ hj
    · exact .inl (.inr hr)
  · intro r hr hc
    refine ⟨r, ?_, hc⟩
    simp only [List.mem_cons] at hr ⊢
    exact hr.imp_right .inr

theorem Inv.close_step {k : ℕ} {p : ClosePc} (hinv : Inv h (.close k p :: others)) :
    let o := p.step kind h k
    Inv o.handler (o.next.toList ++ (o.spawn.filterMap Spawn.pc ++ others)) := by
  intro o
  have hmark : ∀ j ∈ some k, j = h.made := hinv.mark _ List.mem_cons_self
  cases p with
  | check =>
    by_cases hup : h.isConnected = true
    · simp only [o, ClosePc.step, if_pos hup]
      exact hinv.swap rfl rfl rfl rfl nofun hmark rfl rfl rfl (.inl rfl)
    · simp only [o, ClosePc.step, if_neg hup]
      exact hinv.drop rfl rfl
  | storeConnected =>
    exact hinv.swap rfl rfl rfl rfl id hmark rfl rfl rfl (.inr ⟨rfl, nofun, rfl⟩)
  | storeActive | notify => exact hinv.swap rfl rfl rfl rfl id hmark rfl rfl rfl (.inl rfl)
  | storeState =>
    cases kind with
    | exec | log => exact hinv.swap rfl rfl rfl rfl id hmark rfl rfl rfl (.inl rfl)

theorem Inv.read_step {p : ReadPc} (hinv : Inv h (.read p :: others))
    (hstep : p.step kind h c = some o) :
    Inv o.handler (o.next.toList ++ (o.spawn.filterMap Spawn.pc ++ others)) := by
  have hgo : ∀ {h' : Handler} {p'}, (∀ j ∈ (Pc.read p').mark, j = h.made) → h'.made = h.made →
      h'.conn = h.conn → h'.locked = h.locked → h'.isConnected = h.isConnected →
      Inv h' (.read p' :: others) :=
    fun hmark hmade hconn hlocked hup =>
      hinv.swap rfl rfl rfl rfl nofun hmark hmade hconn hlocked (.inl hup)
  unfold ReadPc.step at hstep
  split at hstep
  next =>
    cases hstep
    by_cases hcancelled : h.cancelled = true
    · simp only [hcancelled, if_true]
      exact hinv.drop rfl rfl
    · cases hconn : h.conn with
      | none => simpa [hcancelled, hconn] using hinv.drop rfl rfl
      | some j =>
        have hmark : ∀ k ∈ (Pc.read (.reading j)).mark, k = h.made := by
          rintro _ ⟨⟩
          exact hinv.conn j hconn
        simpa [hcancelled, hconn] using hgo hmark rfl rfl rfl rfl
  next j =>
    cases hstep
    exact (hinv.spawn_close rfl rfl).drop rfl rfl
  next =>
    cases hstep
    cases kind <;> exact hgo nofun rfl rfl rfl rfl
  next => cases hstep; exact hgo nofun rfl rfl rfl rfl
  next => cases hstep; exact hgo nofun rfl rfl rfl rfl
  next =>
    cases hstep
    split <;> exact hgo nofun rfl rfl rfl rfl
  next =>
    cases hstep
    refine hgo ?_ rfl rfl rfl rfl
    split_ifs <;> exact nofun
  next =>
    cases hstep
    refine hgo ?_ rfl rfl rfl rfl
    split_ifs <;> exact nofun
  next => cases hstep; exact hgo nofun rfl rfl rfl rfl
  next =>
    cases hstep
    cases kind <;> exact hgo nofun rfl rfl rfl rfl
  next => cases hstep; exact hgo nofun rfl rfl rfl rfl
  next => cases hstep

theorem Inv.ping_step {p : PingPc} (hinv : Inv h (.ping p :: others))
    (hstep : p.step h c = some o) :
    Inv o.handler (o.next.toList ++ (o.spawn.filterMap Spawn.pc ++ others)) := by
  have hgo : ∀ {p'}, (∀ j ∈ (Pc.ping p').mark, j = h.made) → Inv h (.ping p' :: others) :=
    fun hmark => hinv.swap rfl rfl rfl rfl nofun hmark rfl rfl rfl (.inl rfl)
  unfold PingPc.step at hstep
  split at hstep
  next =>
    cases hstep
    refine hgo ?_
    split
    · cases hconn : h.conn with
      | none => exact nofun
      | some j =>
        rintro _ ⟨⟩
        exact hinv.conn j hconn
    · exact nofun
  next =>
    split at hstep
    next => cases hstep; exact hinv.drop rfl rfl
    next => cases hstep
  next => cases hstep; exact hgo nofun
  next j =>
    cases hstep
    exact (hinv.spawn_close rfl rfl).swap rfl rfl rfl rfl nofun nofun rfl rfl rfl (.inl rfl)
  next => cases hstep

theorem Inv.call {ts : List Pc} (hinv : Inv h ts) (c : Call) : Inv h (c.pc :: ts) := by
  have hpc : c.pc.holds = false ∧ c.pc.mark = none ∧ c.pc.cause = none ∧ c.pc.isWorker = false := by
    cases c <;> exact ⟨rfl, rfl, rfl, rfl⟩
  obtain ⟨hholds, hmark, hcause, hworker⟩ := hpc
  refine hinv.change ?_ ?_ ?_ ?_ (fun r hr hc => ⟨r, List.mem_cons_of_mem _ hr, hc⟩)
    ⟨rfl, rfl, rfl⟩ (.inl rfl)
  · rw [List.countP_cons_of_neg (by simp [hholds])]
  · intro r hr
    rcases List.mem_cons.mp hr with rfl | hr
    · exact .inr ⟨hholds, by simp [hmark]⟩
    · exact .inl hr
  · rw [idle_cons, hworker]
    exact id
  · intro _ hnone r hr
    rcases List.mem_cons.mp hr with rfl | hr
    · exact hcause
    · exact hnone r hr

/-- **The step lemma**: a settled action preserves the invariant. -/
theorem Inv.step {s s' : State} {a : Action} (hinv : Inv s.handler s.threads)
    (hsettled : Settled s a) (hstep : step kind s a = some s') : Inv s'.handler s'.threads := by
  cases a with
  | call c =>
    cases hstep
    exact (hinv.call c).perm (List.perm_append_singleton _ _).symm
  | run n c =>
    simp only [WebSocket.step] at hstep
    cases hpc : s.threads[n]? with
    | none => simp [hpc] at hstep
    | some pc =>
      simp only [hpc, Option.map_eq_some_iff] at hstep
      obtain ⟨o, ho, rfl⟩ := hstep
      obtain ⟨before, after, hsplit, hput⟩ := exists_split hpc
      have hfront : s.threads.Perm (pc :: (before ++ after)) := hsplit ▸ List.perm_middle
      have hback : (o.next.toList ++ (o.spawn.filterMap Spawn.pc ++ (before ++ after))).Perm
          (replaceAt s.threads n o.next ++ o.spawn.filterMap Spawn.pc) := by
        rw [hput, List.perm_iff_count]
        intro q
        simp only [List.count_append]
        omega
      refine Inv.perm hback ?_
      have hinv := hinv.perm hfront
      rw [← idle_perm hfront] at ho
      cases pc with
      | close k p =>
        cases c with
        | go =>
          cases ho
          exact hinv.close_step
        | _ => cases ho
      | reset cause p =>
        cases c with
        | go => exact hinv.reset_step ho
        | _ => cases ho
      | connect p =>
        refine hinv.connect_step ?_ ho
        rintro rfl rfl q hq
        exact hsettled hpc q (hfront.mem_iff.mpr (List.mem_cons_of_mem _ hq))
      | read p => exact hinv.read_step ho
      | ping p => exact hinv.ping_step ho

end Statement

/-! ## Dead transports -/

/-- **A dead transport does not take its successor down** in a settled run: when every connection is
made while no `handleTransportClose` is under way, no such goroutine stores to the handler, or
closes its connection, while there is a connection made after the one that failed. -/
theorem harmless_of_settled (kind : Kind) (as : List Action)
    (hsettled : Along (step kind) Settled initial as) :
    Along (step kind) Harmless initial as := by
  have hinv : ∀ s a, Inv s.handler s.threads → Settled s a → Harmless s a := by
    intro s a hinv _
    cases a with
    | call c => trivial
    | run n c =>
      intro pc hpc hwrites k hk j hj
      have hworker : pc.isWorker = false := by
        cases pc with
        | read p | ping p => cases hwrites
        | _ => rfl
      have hk : k = s.handler.made :=
        hinv.mark pc (List.mem_of_getElem? hpc) k (Pc.mark_eq_cause hworker ▸ hk)
      exact Nat.le_of_eq ((hinv.conn j hj).trans hk.symm)
  exact along_of_along (fun _ _ _ h hok hstep => h.step hok hstep) hinv inv_initial hsettled

def connects (n : ℕ) : List Action :=
  .call .connect :: (List.replicate 5 (.run n .go) ++ .run n .ok :: List.replicate 5 (.run n .go))

def connectsAndFails (m : ℕ) : List Action :=
  connects 0 ++ [.run 1 .go, .run 1 .fail] ++ List.replicate m (.run 1 .go)

/-- A run that is settled: the `handleTransportClose` of the first connection stores that the
handler is disconnected, closes the connection, waits for the ping worker and returns; then the
second connection is made. -/
def reconnects : List Action :=
  connectsAndFails 8 ++ [.run 0 .fail] ++ List.replicate 6 (.run 0 .go) ++ connects 0

theorem harmless_of_settled_reconnect :
    ((run (step .log) initial reconnects).map fun s => s.handler.conn) = some (some 2) ∧
      Along (step .log) Harmless initial reconnects :=
  ⟨rfl, harmless_of_settled .log _ (by decide)⟩

def successorUnderAttack : State where
  handler :=
    { conn := some 2, made := 2, isConnected := true, isActive := false, state := .pending
      cancelled := true, locked := true }
  threads := [.ping .loop, .reset (some 1) .closeConn, .ping .loop, .read .loop]

def ClosesSuccessor (kind : Kind) (as : List Action) : Prop :=
  run (step kind) initial as = some successorUnderAttack ∧
    ((step kind successorUnderAttack (.run 1 .go)).map fun s => s.handler.conn) = some none ∧
    ¬ Along (step kind) Harmless initial (as ++ [.run 1 .go])

theorem closesSuccessor_of_run {kind : Kind} {as : List Action}
    (h : run (step kind) initial as = some successorUnderAttack) : ClosesSuccessor kind as := by
  refine ⟨h, rfl, fun hharmless => ?_⟩
  have hlast : Harmless successorUnderAttack (.run 1 .go) :=
    along_iff_forall_taken.mp hharmless as _ (List.prefix_refl _) _ h
  have : 2 ≤ 1 := hlast _ rfl rfl 1 rfl 2 rfl
  omega

/-- **A connection is closed for its predecessor**: the `handleTransportClose` of the first
connection has stored that the handler is disconnected; the manager finds it disconnected, and makes
the second connection; the goroutine goes on to its `Reset`, cancels the context of the second
connection and closes it. So it is for both kinds of handlers. -/
theorem close_takes_successor_down :
    ClosesSuccessor .exec (connectsAndFails 4 ++ connects 2 ++ List.replicate 2 (.run 1 .go)) ∧
      ClosesSuccessor .log (connectsAndFails 4 ++ connects 2 ++ List.replicate 3 (.run 1 .go)) :=
  ⟨closesSuccessor_of_run rfl, closesSuccessor_of_run rfl⟩

/-- The workers use the last connection, and those of a new one are started when none is left. -/
def OneGeneration (s : State) : Prop :=
  ∀ pc ∈ s.threads, (∀ k ∈ pc.mark, k = s.handler.made) ∧
    (pc = .connect .startWorkers → idle s.threads = true)

/-- **The workers of two connections never run together** in a settled run. -/
theorem oneGeneration_of_settled (kind : Kind) (as : List Action)
    (hsettled : Along (step kind) Settled initial as) :
    Throughout (step kind) OneGeneration initial as := by
  refine throughout_of_along (fun s (h : Inv s.handler s.threads) pc hpc => ⟨h.mark pc hpc, ?_⟩)
    (fun _ _ _ h hok hstep => h.step hok hstep) inv_initial hsettled
  rintro rfl
  exact (h.established _ hpc rfl).1

theorem oneGeneration_reconnects : (run (step .log) initial reconnects).isSome ∧
    Throughout (step .log) OneGeneration initial reconnects :=
  ⟨rfl, oneGeneration_of_settled .log _ (by decide)⟩

end Edgelet.FieldAgent.WebSocket
