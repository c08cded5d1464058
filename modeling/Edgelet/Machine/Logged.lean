import Mathlib.Data.List.Basic

/-!
# Programs that log what they do

A program that calls its environment is a state monad over the log of its calls. What a call answers
may depend on how long the log is, so that such an environment answers in any way whatever.
Properties of programs are triples over the log, with a rule for each way to build a program, and
`Emits` says what a program adds, part by part.
-/

namespace Machine

abbrev Logged (ε : Type) (α : Type) := StateM (List ε) α

variable {ε α β : Type}

def emit (e : ε) : Logged ε Unit := modify (· ++ [e])

/-- A call of the environment: its answer is a function of the number of events so far, and is
logged. -/
def ask (answer : ℕ → α) (event : α → ε) : Logged ε α := do
  let l ← get
  let a := answer l.length
  emit (event a)
  return a

def look (answer : ℕ → α) : Logged ε α := do
  let l ← get
  return answer l.length

def ifOk (x : Logged ε Bool) (failed : α) (rest : Logged ε α) : Logged ε α := do
  if ← x then rest else return failed

/-! ## Triples -/

/-- **A triple**: when `P` holds of the log before, `Q` holds of the result and the log after. -/
def Triple (P : List ε → Prop) (x : Logged ε α) (Q : α → List ε → Prop) : Prop :=
  ∀ l, P l → Q (x l).1 (x l).2

variable {P : List ε → Prop} {Q : α → List ε → Prop} {a : α}

theorem triple_pure (h : ∀ l, P l → Q a l) :
    Triple P (pure a) Q := h

theorem triple_return : Triple P (pure a) fun _ => P :=
  triple_pure fun _ hl => hl

variable {x : Logged ε α} {f : α → Logged ε β}

theorem Triple.bind {R : α → List ε → Prop} {Q : β → List ε → Prop} (hx : Triple P x R)
    (hf : ∀ a, Triple (R a) (f a) Q) : Triple P (x >>= f) Q :=
  fun l hl => hf _ _ (hx l hl)

theorem triple_emit {Q : Unit → List ε → Prop} {e : ε}
    (h : ∀ l, P l → Q () (l ++ [e])) : Triple P (emit e) Q := h

variable {answer : ℕ → α} {event : α → ε}

theorem triple_ask_at
    (h : ∀ t l, P l → Q (answer t) (l ++ [event (answer t)])) : Triple P (ask answer event) Q :=
  fun l hl => h l.length l hl

theorem triple_ask (h : ∀ a l, P l → Q a (l ++ [event a])) : Triple P (ask answer event) Q :=
  triple_ask_at fun t l => h (answer t) l

theorem Triple.ite {c : Prop} [Decidable c]
    {x y : Logged ε α} (hx : c → Triple P x Q) (hy : ¬ c → Triple P y Q) :
    Triple P (if c then x else y) Q := by
  by_cases hc : c
  · rw [if_pos hc]
    exact hx hc
  · rw [if_neg hc]
    exact hy hc

variable {as : List α}

/-- **The rule for loops**: an invariant of the elements that were gone through, the value carried
along and the log. -/
theorem Triple.foldlM {Inv : List α → β → List ε → Prop} {f : β → α → Logged ε β}
    (hstep : ∀ done a rest b, as = done ++ a :: rest →
      Triple (Inv done b) (f b a) (Inv (done ++ [a])))
    (b : β) : Triple (Inv [] b) (as.foldlM f b) (Inv as) := by
  have hloop : ∀ rest done b, as = done ++ rest →
      Triple (Inv done b) (rest.foldlM f b) (Inv as) := by
    intro rest
    induction rest with
    | nil =>
      intro done b has
      rw [has, List.append_nil]
      exact triple_return
    | cons a rest ih =>
      intro done b has
      rw [List.foldlM_cons]
      exact (hstep done a rest b has).bind fun b' => ih (done ++ [a]) b' (by simp [has])
  exact hloop as [] b rfl

theorem triple_trivial : Triple P x fun _ _ => True :=
  fun _ _ => trivial

theorem Triple.pre {P P' : List ε → Prop}
    (h : Triple P x Q) (hP : ∀ l, P' l → P l) : Triple P' x Q :=
  fun l hl => h l (hP l hl)

theorem Triple.post {Q Q' : α → List ε → Prop}
    (h : Triple P x Q) (hQ : ∀ a l, Q a l → Q' a l) : Triple P x Q' :=
  fun l hl => hQ _ _ (h l hl)

/-! ## Conditions on every event -/

/-- **Every event meets a condition** on the events before it. -/
def Each (cond : List ε → ε → Prop) (l : List ε) : Prop :=
  ∀ before e after, l = before ++ e :: after → cond before e

variable {cond : List ε → ε → Prop} {l : List ε} {e : ε}

theorem each_nil : Each cond [] := fun before e after h => by simp at h

theorem each_concat : Each cond (l ++ [e]) ↔ Each cond l ∧ cond l e := by
  constructor
  · refine fun h => ⟨fun before e' after hl => ?_, h l e [] rfl⟩
    exact h before e' (after ++ [e]) (by simp [hl])
  · rintro ⟨hl, he⟩ before e' after heq
    rcases List.eq_nil_or_concat after with rfl | ⟨after, e'', rfl⟩
    · obtain ⟨rfl, h⟩ := List.append_inj' heq rfl
      cases h
      exact he
    · have hpre : l = before ++ e' :: after := by
        have h : l ++ [e] = (before ++ e' :: after) ++ [e''] := by simpa using heq
        exact (List.append_inj' h rfl).1
      exact hl before e' after hpre

/-! ## What a program adds -/

/-- **What a program adds**: the log grows by events that meet `P`, and `Q` holds of the result. -/
def Emits (P : ε → Prop) (x : Logged ε α) (Q : α → Prop) : Prop :=
  ∀ l, Q (x l).1 ∧ ∃ new, (x l).2 = l ++ new ∧ ∀ e ∈ new, P e

section Emits

variable {P : ε → Prop} {Q R : α → Prop}

theorem Emits.pure {a : α} (ha : Q a) : Emits P (pure a) Q :=
  fun l => ⟨ha, [], (List.append_nil l).symm, fun _ he => nomatch he⟩

variable {x : Logged ε α}

theorem Emits.bind {f : α → Logged ε β} {S : β → Prop}
    (hx : Emits P x R) (hf : ∀ a, R a → Emits P (f a) S) : Emits P (x >>= f) S := by
  intro l
  obtain ⟨hR, new, hnew, hP⟩ := hx l
  obtain ⟨hS, new', hnew', hP'⟩ := hf _ hR (x l).2
  refine ⟨hS, new ++ new', ?_, fun e he => ?_⟩
  · calc ((x >>= f) l).2 = (x l).2 ++ new' := hnew'
      _ = l ++ (new ++ new') := by rw [hnew, List.append_assoc]
  · exact (List.mem_append.mp he).elim (hP e) (hP' e)

variable {answer : ℕ → α}

theorem emits_ask {event : α → ε} (hP : ∀ a, P (event a))
    (hQ : ∀ t, Q (answer t)) : Emits P (ask answer event) Q :=
  fun _ => ⟨hQ _, [_], rfl, fun _ he => List.mem_singleton.mp he ▸ hP _⟩

theorem emits_look (hQ : ∀ t, Q (answer t)) : Emits P (look answer) Q :=
  fun l => ⟨hQ _, [], (List.append_nil l).symm, fun _ he => nomatch he⟩

theorem emits_look_bind {f : α → Logged ε β} {S : β → Prop}
    (hf : ∀ a, Emits P (f a) S) : Emits P (look answer >>= f) S :=
  fun l => hf (answer l.length) l

theorem Emits.ite {c : Prop} [Decidable c] {x y : Logged ε α} (hx : c → Emits P x Q)
    (hy : ¬ c → Emits P y Q) : Emits P (if c then x else y) Q := by
  by_cases hc : c
  · rw [if_pos hc]
    exact hx hc
  · rw [if_neg hc]
    exact hy hc

theorem Emits.imp {P' : ε → Prop} (hx : Emits P x Q) (hP : ∀ e, P e → P' e)
    (hQ : ∀ a, Q a → R a) : Emits P' x R := by
  intro l
  obtain ⟨ha, new, hnew, hev⟩ := hx l
  exact ⟨hQ _ ha, new, hnew, fun e he => hP e (hev e he)⟩

theorem Emits.ifOk {x : Logged ε Bool} {failed : α} {rest : Logged ε α} {B : Bool → Prop}
    (hx : Emits P x B) (hfailed : B false → Q failed) (hrest : B true → Emits P rest Q) :
    Emits P (ifOk x failed rest) Q :=
  hx.bind fun _ hok => Emits.ite (fun h => hrest (h ▸ hok)) fun h =>
    .pure (hfailed (Bool.eq_false_iff.mpr h ▸ hok))

variable {as : List α}

theorem Emits.allM {f : α → Logged ε Bool} {B : Bool → Prop} (htrue : B true)
    (hf : ∀ a ∈ as, Emits P (f a) B) : Emits P (as.allM f) B := by
  induction as with
  | nil => exact .pure htrue
  | cons a as ih =>
    refine (hf a List.mem_cons_self).bind fun ok hok => ?_
    cases ok with
    | true => exact ih fun b hb => hf b (List.mem_cons_of_mem _ hb)
    | false => exact .pure hok

theorem Emits.forM {f : α → Logged ε PUnit}
    (hf : ∀ a ∈ as, Emits P (f a) fun _ => True) : Emits P (as.forM f) fun _ => True := by
  induction as with
  | nil => exact .pure trivial
  | cons a as ih =>
    exact (hf a List.mem_cons_self).bind fun _ _ => ih fun b hb => hf b (List.mem_cons_of_mem _ hb)

theorem Emits.foldlM {I : List α → β → Prop} {f : β → α → Logged ε β}
    (hstep : ∀ done a rest b, as = done ++ a :: rest → I done b →
      Emits P (f b a) (I (done ++ [a]))) {b : β} (hb : I [] b) :
    Emits P (as.foldlM f b) (I as) := by
  have hloop : ∀ rest done b, as = done ++ rest → I done b →
      Emits P (rest.foldlM f b) (I as) := by
    intro rest
    induction rest with
    | nil =>
      intro done b has hinv
      rw [has, List.append_nil]
      exact .pure hinv
    | cons a rest ih =>
      intro done b has hinv
      rw [List.foldlM_cons]
      exact (hstep done a rest b has hinv).bind fun b' hinv' =>
        ih (done ++ [a]) b' (by simp [has]) hinv'
  exact hloop as [] b rfl hb

theorem Emits.log (hx : Emits P x Q) : ∀ e ∈ (x []).2, P e := by
  obtain ⟨-, new, hnew, hP⟩ := hx []
  rwa [hnew, List.nil_append]

end Emits

def Hits (e : ε) (x : Logged ε α) : Prop := ∀ l, e ∈ (x l).2

def Grows (x : Logged ε α) : Prop := Emits (fun _ => True) x fun _ => True

theorem hits_ask (h : ∀ a, event a = e) : Hits e (ask answer event) :=
  fun l => List.mem_append_right l (List.mem_singleton.mpr (h _).symm)

theorem Hits.bind_left (hx : Hits e x) (hf : ∀ a, Grows (f a)) : Hits e (x >>= f) := by
  intro l
  obtain ⟨-, new, hnew, -⟩ := hf (x l).1 (x l).2
  have hlog : ((x >>= f) l).2 = (x l).2 ++ new := hnew
  rw [hlog]
  exact List.mem_append_left _ (hx l)

theorem Hits.bind_right {R : α → Prop}
    (hx : Emits (fun _ => True) x R) (hf : ∀ a, R a → Hits e (f a)) : Hits e (x >>= f) :=
  fun l => hf _ (hx l).1 _

theorem Emits.grows {P : ε → Prop} {Q : α → Prop} (h : Emits P x Q) : Grows x :=
  h.imp (fun _ _ => trivial) fun _ _ => trivial

theorem Hits.ite_pos {c : Prop} [Decidable c] {x y : Logged ε α} (hc : c) (hx : Hits e x) :
    Hits e (if c then x else y) := by
  rwa [if_pos hc]

theorem Hits.ite_neg {c : Prop} [Decidable c] {x y : Logged ε α} (hc : ¬ c) (hy : Hits e y) :
    Hits e (if c then x else y) := by
  rwa [if_neg hc]

theorem Hits.ifOk_left {x : Logged ε Bool} {failed : α} {rest : Logged ε α} (hx : Hits e x)
    (hrest : Grows rest) : Hits e (ifOk x failed rest) :=
  hx.bind_left fun _ => .ite (fun _ => hrest) fun _ => .pure trivial

theorem Hits.ifOk_right {x : Logged ε Bool} {failed : α} {rest : Logged ε α}
    (hx : Emits (fun _ => True) x (· = true)) (hrest : Hits e rest) : Hits e (ifOk x failed rest) :=
  .bind_right hx fun _ hok => .ite_pos hok hrest

theorem Hits.allM {f : α → Logged ε Bool} (ha : a ∈ as)
    (hf : ∀ b ∈ as, Emits (fun _ => True) (f b) (· = true)) (hhit : Hits e (f a)) :
    Hits e (as.allM f) := by
  induction as with
  | nil => cases ha
  | cons b as ih =>
    have hrest : ∀ c ∈ as, Emits (fun _ => True) (f c) (· = true) :=
      fun c hc => hf c (List.mem_cons_of_mem _ hc)
    rcases List.mem_cons.mp ha with rfl | ha
    · refine hhit.bind_left fun ok => ?_
      cases ok with
      | true => exact (Emits.allM (B := (· = true)) rfl hrest).grows
      | false => exact .pure trivial
    · refine .bind_right (hf b List.mem_cons_self) fun ok hok => ?_
      subst hok
      exact ih ha hrest

theorem Hits.forM {f : α → Logged ε PUnit} (ha : a ∈ as)
    (hf : ∀ b ∈ as, Grows (f b)) (hhit : Hits e (f a)) : Hits e (as.forM f) := by
  induction as with
  | nil => cases ha
  | cons b as ih =>
    have hrest : ∀ c ∈ as, Grows (f c) := fun c hc => hf c (List.mem_cons_of_mem _ hc)
    rcases List.mem_cons.mp ha with rfl | ha
    · exact hhit.bind_left fun _ => Emits.forM hrest
    · exact .bind_right (hf b List.mem_cons_self) fun _ _ => ih ha hrest

end Machine
