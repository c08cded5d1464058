import Edgelet.Machine.Run

/-!
# Threads that share a state

Several threads share a state, and each has a state of its own. One at a time takes a step, which
may depend on a choice. A proof about all interleavings is one about each thread: what its steps
guarantee to the others, and that what is known of it is stable under what the others guarantee
(`Threads.Holds.step`).
-/

namespace Machine

structure Threads (σ τ : Type*) where
  shared : σ
  threads : List τ

namespace Threads

variable {σ τ χ : Type*} {act : ℕ → σ → τ → χ → Option (σ × τ)} {s s' : Threads σ τ} {a : ℕ × χ}

/-- A thread takes a step: `act` says what the step of each thread does with its choice, and `none`
that the thread cannot go on. -/
def step (act : ℕ → σ → τ → χ → Option (σ × τ)) (s : Threads σ τ) (a : ℕ × χ) :
    Option (Threads σ τ) :=
  s.threads[a.1]?.bind fun t =>
    (act a.1 s.shared t a.2).map fun next => ⟨next.1, s.threads.set a.1 next.2⟩

/-- **What a step does**: one thread acts, and the others stay where they are. -/
theorem step_eq_some_iff :
    step act s a = some s' ↔ ∃ t, s.threads[a.1]? = some t ∧
      ∃ d t', act a.1 s.shared t a.2 = some (d, t') ∧ s' = ⟨d, s.threads.set a.1 t'⟩ := by
  simp only [step, Option.bind_eq_some_iff, Option.map_eq_some_iff, Prod.exists]
  refine exists_congr fun t => and_congr_right fun _ => ?_
  refine exists_congr fun d => exists_congr fun t' => and_congr_right fun _ => ?_
  exact eq_comm

theorem getElem?_set_eq_some {ts : List τ} {n i : ℕ} {t' u : τ}
    (h : (ts.set n t')[i]? = some u) : i = n ∧ u = t' ∨ i ≠ n ∧ ts[i]? = some u := by
  by_cases hi : i = n
  · subst hi
    rw [List.getElem?_set_self'] at h
    cases hts : ts[i]? with
    | none => simp [hts] at h
    | some _ =>
      rw [hts] at h
      exact .inl ⟨rfl, (Option.some.inj h).symm⟩
  · rw [List.getElem?_set_ne (Ne.symm hi)] at h
    exact .inr ⟨hi, h⟩

theorem getElem?_set_of_getElem? {ts : List τ} {n : ℕ} {t : τ} (t' : τ) (h : ts[n]? = some t) :
    (ts.set n t')[n]? = some t' := by
  rw [List.getElem?_set_self', h]
  rfl

def Meets (ok : σ → τ → χ → Prop) (s : Threads σ τ) (a : ℕ × χ) : Prop :=
  ∀ t, s.threads[a.1]? = some t → ok s.shared t a.2

instance {ok : σ → τ → χ → Prop} [∀ d t c, Decidable (ok d t c)] (s : Threads σ τ) (a : ℕ × χ) :
    Decidable (Meets ok s a) :=
  match h : s.threads[a.1]? with
  | none => isTrue fun _ ht => nomatch h.symm.trans ht
  | some t =>
    decidable_of_iff (ok s.shared t a.2)
      ⟨fun hok _ ht => Option.some.inj (h.symm.trans ht) ▸ hok, fun hok => hok t h⟩

def MeetsAt (ok : ℕ → σ → τ → χ → Prop) (s : Threads σ τ) (a : ℕ × χ) : Prop :=
  ∀ t, s.threads[a.1]? = some t → ok a.1 s.shared t a.2

instance {ok : ℕ → σ → τ → χ → Prop} [∀ i d t c, Decidable (ok i d t c)] (s : Threads σ τ)
    (a : ℕ × χ) : Decidable (MeetsAt ok s a) :=
  inferInstanceAs (Decidable (Meets (ok a.1) s a))

/-- **Invariants of the shared state and of each thread.** -/
structure Holds (I : σ → Prop) (L : ℕ → σ → τ → Prop) (s : Threads σ τ) : Prop where
  shared : I s.shared
  thread : ∀ i t, s.threads[i]? = some t → L i s.shared t

/-- **The rely-guarantee rule**: a step of a thread keeps the invariant of the shared state and its
own, and guarantees `G` to the others; what is known of another thread is stable under `G`. -/
theorem Holds.step_at {I : σ → Prop} {L : ℕ → σ → τ → Prop} {G : ℕ → σ → σ → Prop}
    {ok : ℕ → σ → τ → χ → Prop}
    (hact : ∀ i d t c d' t', I d → L i d t → ok i d t c → act i d t c = some (d', t') →
      I d' ∧ L i d' t' ∧ G i d d')
    (hstable : ∀ i j d d' t, j ≠ i → G i d d' → L j d t → L j d' t)
    (h : Holds I L s) (hok : MeetsAt ok s a) (hstep : Threads.step act s a = some s') :
    Holds I L s' := by
  obtain ⟨t, ht, d, t', hd, rfl⟩ := step_eq_some_iff.mp hstep
  obtain ⟨hshared, hown, hguarantee⟩ :=
    hact a.1 _ t _ d t' h.shared (h.thread a.1 t ht) (hok t ht) hd
  refine ⟨hshared, fun j u hu => ?_⟩
  rcases getElem?_set_eq_some hu with ⟨rfl, rfl⟩ | ⟨hj, hu⟩
  · exact hown
  · exact hstable a.1 j _ d u hj hguarantee (h.thread j u hu)

theorem Holds.step {I : σ → Prop} {L : ℕ → σ → τ → Prop} {G : ℕ → σ → σ → Prop}
    {ok : σ → τ → χ → Prop}
    (hact : ∀ i d t c d' t', I d → L i d t → ok d t c → act i d t c = some (d', t') →
      I d' ∧ L i d' t' ∧ G i d d')
    (hstable : ∀ i j d d' t, j ≠ i → G i d d' → L j d t → L j d' t)
    (h : Holds I L s) (hok : Meets ok s a) (hstep : Threads.step act s a = some s') :
    Holds I L s' :=
  h.step_at hact hstable (show MeetsAt (fun _ => ok) s a from hok) hstep

end Threads

end Machine
