import Mathlib.Data.List.Induction
import Mathlib.Data.List.Nodup

/-!
# Tables with a primary key

A table is a list of rows no two of which share a key, with the single statements of a relational
store: insert a row or replace the one with its key, delete the rows that meet a condition, rewrite
rows in place. `Table.mem_upsert`, `Table.mem_deleteWhere` and `Table.mem_updateWhere` say which
rows it holds then.
-/

namespace Keyed

variable {α κ : Type*}

structure Table (key : α → κ) where
  rows : List α
  nodup : (rows.map key).Nodup

namespace Table

variable {key : α → κ}

def empty (key : α → κ) : Table key := ⟨[], List.nodup_nil⟩

instance : Membership α (Table key) := ⟨fun t x => x ∈ t.rows⟩

variable {t : Table key}

theorem mem_def {x : α} : x ∈ t ↔ x ∈ t.rows := Iff.rfl

theorem eq_of_key_eq {x y : α} (hx : x ∈ t) (hy : y ∈ t) (h : key x = key y) : x = y :=
  List.inj_on_of_nodup_map t.nodup hx hy h

variable {p : α → Bool}

theorem countP_le_one [DecidableEq κ] {k : κ}
    (hp : ∀ x, p x = true → key x = k) : t.rows.countP p ≤ 1 :=
  calc t.rows.countP p ≤ t.rows.countP fun x => key x == k :=
        List.countP_mono_left fun x _ h => beq_iff_eq.mpr (hp x h)
    _ = (t.rows.map key).count k := by rw [List.count, List.countP_map]; rfl
    _ ≤ 1 := List.nodup_iff_count_le_one.mp t.nodup k

def deleteWhere (t : Table key) (p : α → Bool) : Table key :=
  ⟨t.rows.filter fun x => !p x, t.nodup.sublist (List.filter_sublist.map key)⟩

@[simp] theorem mem_deleteWhere {x : α} : x ∈ t.deleteWhere p ↔ x ∈ t ∧ p x = false := by
  simp [mem_def, deleteWhere]

def updateWhere (t : Table key) (p : α → Bool) (f : α → α) (hf : ∀ x, key (f x) = key x) :
    Table key :=
  ⟨t.rows.map fun x => if p x then f x else x, by
    have hkey : ∀ x, key (if p x then f x else x) = key x := by
      intro x
      split
      · exact hf x
      · rfl
    have hmap : (t.rows.map fun x => if p x then f x else x).map key = t.rows.map key := by
      rw [List.map_map]
      exact List.map_congr_left fun x _ => hkey x
    exact hmap ▸ t.nodup⟩

@[simp] theorem mem_updateWhere {f : α → α} (hf : ∀ x, key (f x) = key x) {y : α} :
    y ∈ t.updateWhere p f hf ↔ ∃ x ∈ t, (if p x then f x else x) = y := by
  simp [mem_def, updateWhere]

section DecidableKey

variable [DecidableEq κ]

/-- The rows after `INSERT … ON CONFLICT DO UPDATE`: the row with the key of `x` becomes `x`
where it stands, and a new row goes to the end. -/
def upsertRows (key : α → κ) (x : α) : List α → List α
  | [] => [x]
  | y :: ys => if key y = key x then x :: ys else y :: upsertRows key x ys

theorem map_key_upsertRows (x : α) (ys : List α) :
    (upsertRows key x ys).map key =
      if key x ∈ ys.map key then ys.map key else ys.map key ++ [key x] := by
  induction ys with
  | nil => simp [upsertRows]
  | cons y ys ih =>
    by_cases h : key y = key x
    · simp [upsertRows, h]
    · have h' : key x ≠ key y := fun e => h e.symm
      rw [upsertRows, if_neg h, List.map_cons, ih]
      simp only [List.map_cons, List.mem_cons, h', false_or]
      split <;> rfl

def upsert (t : Table key) (x : α) : Table key :=
  ⟨upsertRows key x t.rows, by
    rw [map_key_upsertRows]
    split
    · exact t.nodup
    · rename_i h
      exact List.nodup_append_comm.mp (List.nodup_cons.mpr ⟨h, t.nodup⟩)⟩

variable {ys : List α}

theorem mem_upsertRows {x z : α} (h : (ys.map key).Nodup) :
    z ∈ upsertRows key x ys ↔ z = x ∨ z ∈ ys ∧ key z ≠ key x := by
  induction ys with
  | nil => simp [upsertRows]
  | cons y ys ih =>
    rw [List.map_cons, List.nodup_cons] at h
    by_cases hy : key y = key x
    · have hrest : ∀ w ∈ ys, key w ≠ key x := by
        intro w hw e
        exact h.1 (hy ▸ e ▸ List.mem_map_of_mem hw)
      rw [upsertRows, if_pos hy, List.mem_cons, List.mem_cons]
      constructor
      · rintro (rfl | hz)
        · exact .inl rfl
        · exact .inr ⟨.inr hz, hrest z hz⟩
      · rintro (rfl | ⟨rfl | hz, hne⟩)
        · exact .inl rfl
        · exact absurd hy hne
        · exact .inr hz
    · rw [upsertRows, if_neg hy, List.mem_cons, ih h.2, List.mem_cons]
      constructor
      · rintro (rfl | rfl | ⟨hz, hne⟩)
        · exact .inr ⟨.inl rfl, hy⟩
        · exact .inl rfl
        · exact .inr ⟨.inr hz, hne⟩
      · rintro (rfl | ⟨rfl | hz, hne⟩)
        · exact .inr (.inl rfl)
        · exact .inl rfl
        · exact .inr (.inr ⟨hz, hne⟩)

variable {t : Table key}

@[simp] theorem mem_upsert {x z : α} : z ∈ t.upsert x ↔ z = x ∨ z ∈ t ∧ key z ≠ key x :=
  mem_upsertRows t.nodup

variable {x : α} {p : α → Bool}

theorem countP_upsert_of_notMem (h : ∀ y ∈ t, key y ≠ key x) :
    (t.upsert x).rows.countP p = t.rows.countP p + if p x then 1 else 0 := by
  have hrows : ∀ ys : List α, (∀ y ∈ ys, key y ≠ key x) → upsertRows key x ys = ys ++ [x] := by
    intro ys hys
    induction ys with
    | nil => rfl
    | cons y ys ih =>
      rw [upsertRows, if_neg (hys y List.mem_cons_self),
        ih fun z hz => hys z (List.mem_cons_of_mem _ hz), List.cons_append]
  show (upsertRows key x t.rows).countP p = _
  rw [hrows t.rows h, List.countP_append, List.countP_singleton]

theorem countP_upsert_of_mem {x y : α} (hy : y ∈ t)
    (hkey : key y = key x) (hp : p y = p x) : (t.upsert x).rows.countP p = t.rows.countP p := by
  have hrows : ∀ ys : List α, (ys.map key).Nodup → y ∈ ys →
      (upsertRows key x ys).countP p = ys.countP p := by
    intro ys hnodup hmem
    induction ys with
    | nil => cases hmem
    | cons z ys ih =>
      rw [List.map_cons, List.nodup_cons] at hnodup
      by_cases hz : key z = key x
      · have hzy : z = y := by
          rcases List.mem_cons.mp hmem with h | h
          · exact h.symm
          · exact absurd (hz.trans hkey.symm ▸ List.mem_map_of_mem h) hnodup.1
        rw [upsertRows, if_pos hz, List.countP_cons, List.countP_cons, hzy, hp]
      · have hmem' : y ∈ ys := by
          rcases List.mem_cons.mp hmem with h | h
          · exact absurd (h ▸ hkey) hz
          · exact h
        rw [upsertRows, if_neg hz, List.countP_cons, List.countP_cons, ih hnodup.2 hmem']
  exact hrows t.rows t.nodup hy

def get? (t : Table key) (k : κ) : Option α := t.rows.find? fun x => key x = k

variable {k : κ}

theorem get?_eq_some_iff : t.get? k = some x ↔ x ∈ t ∧ key x = k := by
  constructor
  · intro h
    exact ⟨List.mem_of_find?_eq_some h, by simpa using List.find?_some h⟩
  · rintro ⟨hx, rfl⟩
    cases hget : t.get? (key x) with
    | none => simpa using List.find?_eq_none.mp hget x hx
    | some y =>
      have hkey : key y = key x := by simpa using List.find?_some hget
      rw [eq_of_key_eq (List.mem_of_find?_eq_some hget) hx hkey]

theorem get?_upsert (t : Table key) (x : α) (k : κ) :
    (t.upsert x).get? k = if key x = k then some x else t.get? k := by
  apply Option.ext
  intro y
  rw [get?_eq_some_iff, mem_upsert]
  split
  next hk =>
    constructor
    · rintro ⟨rfl | ⟨-, hne⟩, hy⟩
      · rfl
      · exact absurd (hy.trans hk.symm) hne
    · rintro ⟨⟩
      exact ⟨.inl rfl, hk⟩
  next hk =>
    rw [get?_eq_some_iff]
    constructor
    · rintro ⟨rfl | ⟨hmem, -⟩, hy⟩
      · exact absurd hy hk
      · exact ⟨hmem, hy⟩
    · rintro ⟨hmem, hy⟩
      exact ⟨.inr ⟨hmem, fun e => hk (e.symm.trans hy)⟩, hy⟩

theorem get?_upsert_of_eq (h : key x = k) : (t.upsert x).get? k = some x := by
  rw [get?_upsert, if_pos h]

theorem get?_updateWhere (t : Table key) (p : α → Bool) (f : α → α)
    (hf : ∀ x, key (f x) = key x) (k : κ) :
    (t.updateWhere p f hf).get? k = (t.get? k).map fun x => if p x then f x else x := by
  have hkey : ((fun y => decide (key y = k)) ∘ fun x => if p x then f x else x) =
      fun x => decide (key x = k) := by
    funext x
    show decide (key (if p x then f x else x) = k) = _
    split
    · rw [hf]
    · rfl
  show (t.rows.map _).find? _ = _
  rw [List.find?_map, hkey]
  rfl

theorem get?_deleteWhere_of_false
    (h : ∀ x, key x = k → p x = false) : (t.deleteWhere p).get? k = t.get? k := by
  apply Option.ext
  intro x
  rw [get?_eq_some_iff, get?_eq_some_iff, mem_deleteWhere]
  constructor
  · rintro ⟨⟨hx, -⟩, hk⟩
    exact ⟨hx, hk⟩
  · rintro ⟨hx, hk⟩
    exact ⟨⟨hx, h x hk⟩, hk⟩

theorem get?_deleteWhere_of_true
    (h : ∀ x, key x = k → p x = true) : (t.deleteWhere p).get? k = none := by
  refine Option.eq_none_iff_forall_ne_some.mpr fun x hx => ?_
  obtain ⟨hmem, hk⟩ := get?_eq_some_iff.mp hx
  rw [mem_deleteWhere, h x hk] at hmem
  cases hmem.2

theorem filter_key_eq (h : ys.Perm t.rows) (hx : x ∈ t) :
    ys.filter (fun y => key y = key x) = [x] := by
  have hnodup : ys.Nodup := (h.nodup_iff).mpr (List.Nodup.of_map key t.nodup)
  have hmem : ∀ y, y ∈ ys.filter (fun y => key y = key x) ↔ y ∈ [x] := by
    intro y
    rw [List.mem_filter, decide_eq_true_iff, List.mem_singleton]
    constructor
    · rintro ⟨hy, hkey⟩
      exact eq_of_key_eq (h.mem_iff.mp hy) hx hkey
    · rintro rfl
      exact ⟨h.mem_iff.mpr hx, rfl⟩
  exact List.perm_singleton.mp
    ((List.perm_ext_iff_of_nodup (hnodup.filter _) (List.nodup_singleton x)).mpr hmem)

/-- In whatever order the rows are read, a lookup finds the same one. -/
theorem find?_of_perm (h : ys.Perm t.rows) (k : κ) : ys.find? (fun x => key x = k) = t.get? k := by
  have hnodup : (ys.map key).Nodup := (h.map key).nodup_iff.mpr t.nodup
  apply Option.ext
  intro x
  have hys : ys.find? (fun x => key x = k) = (Table.mk ys hnodup).get? k := rfl
  rw [hys, get?_eq_some_iff, get?_eq_some_iff]
  exact and_congr_left fun _ => h.mem_iff

def upsertAll (t : Table key) (xs : List α) : Table key := xs.foldl upsert t

@[simp] theorem upsertAll_nil (t : Table key) : t.upsertAll [] = t := rfl

@[simp] theorem upsertAll_cons (t : Table key) (x : α) (xs : List α) :
    t.upsertAll (x :: xs) = (t.upsert x).upsertAll xs := rfl

theorem upsertAll_append (t : Table key) (xs ys : List α) :
    t.upsertAll (xs ++ ys) = (t.upsertAll xs).upsertAll ys := List.foldl_append

variable {xs : List α}

/-- A row of the table is one of the new ones, or an old one whose key no new one has. -/
theorem mem_or_mem_of_mem_upsertAll
    (h : x ∈ t.upsertAll xs) : x ∈ xs ∨ x ∈ t ∧ ∀ y ∈ xs, key y ≠ key x := by
  induction xs generalizing t with
  | nil => exact .inr ⟨h, by simp⟩
  | cons y xs ih =>
    rcases ih h with hx | ⟨hx, hkeys⟩
    · exact .inl (List.mem_cons_of_mem _ hx)
    · rcases mem_upsert.mp hx with rfl | ⟨hx, hne⟩
      · exact .inl List.mem_cons_self
      · refine .inr ⟨hx, fun z hz => ?_⟩
        rcases List.mem_cons.mp hz with rfl | hz
        · exact fun e => hne e.symm
        · exact hkeys z hz

theorem exists_key_upsertAll (h : x ∈ xs ∨ x ∈ t) : ∃ y ∈ t.upsertAll xs, key y = key x := by
  induction xs generalizing t x with
  | nil => exact ⟨x, h.resolve_left List.not_mem_nil, rfl⟩
  | cons z xs ih =>
    rcases h with h | h
    · rcases List.mem_cons.mp h with rfl | h
      · exact ih (.inr (mem_upsert.mpr (.inl rfl)))
      · exact ih (.inl h)
    · by_cases hkey : key x = key z
      · rw [hkey]
        exact ih (.inr (mem_upsert.mpr (.inl rfl)))
      · exact ih (.inr (mem_upsert.mpr (.inr ⟨h, hkey⟩)))

theorem exists_mem_upsertAll (h : x ∈ xs) : ∃ y ∈ t.upsertAll xs, key y = key x ∧ y ∈ xs := by
  obtain ⟨y, hy, hkey⟩ := exists_key_upsertAll (t := t) (.inl h)
  rcases mem_or_mem_of_mem_upsertAll hy with hnew | ⟨-, hold⟩
  · exact ⟨y, hy, hkey, hnew⟩
  · exact absurd hkey.symm (hold x h)

/-- After several upserts a lookup finds the last new row with the key, or else the old row. -/
theorem get?_upsertAll (t : Table key) (xs : List α) (k : κ) :
    (t.upsertAll xs).get? k = ((xs.filter fun x => key x = k).getLast?).or (t.get? k) := by
  induction xs using List.reverseRecOn with
  | nil => simp
  | append_singleton xs x ih =>
    rw [upsertAll_append, upsertAll_cons, upsertAll_nil, get?_upsert, ih, List.filter_append]
    split
    next hk => simp [hk]
    next hk => simp [hk]

end DecidableKey

end Table

end Keyed
