import Edgelet.Codec.Json

/-!
# Comparing documents as untyped values

A document that is read into a value of no type has doubles for its numbers, and two such values are
compared member by member, in any order. What this tells apart of the values of a codec is built as
the codec is: from the lists, maps and structures of its parts.
-/

namespace Json

open Lexical

def toFloat64 (n : ℤ) : ℤ :=
  let ulp := 2 ^ (n.natAbs.log2 - 52)
  let q := n.natAbs / ulp
  let r := n.natAbs % ulp
  n.sign * ((if ulp < 2 * r ∨ 2 * r = ulp ∧ q % 2 = 1 then q + 1 else q) * ulp)

mutual

def jsonEqual : Value ℤ → Value ℤ → Bool
  | .obj fs, .obj gs => fs.length == gs.length && membersEqual fs gs
  | .arr vs, .arr ws => elementsEqual vs ws
  | .num n, .num m => toFloat64 n == toFloat64 m
  | .str s, .str t => s == t
  | .bool b, .bool c => b == c
  | .null, .null => true
  | _, _ => false

def elementsEqual : List (Value ℤ) → List (Value ℤ) → Bool
  | v :: vs, w :: ws => jsonEqual v w && elementsEqual vs ws
  | [], [] => true
  | _, _ => false

def membersEqual : List (Str × Value ℤ) → List (Str × Value ℤ) → Bool
  | (name, v) :: fs, gs => jsonEqual v ((gs.lookup name).getD .null) && membersEqual fs gs
  | [], _ => true

end

theorem membersEqual_iff {fs gs : Object ℤ} : membersEqual fs gs = true ↔
    ∀ f ∈ fs, jsonEqual f.2 ((gs.lookup f.1).getD .null) = true := by
  induction fs with
  | nil => simp [membersEqual]
  | cons f fs ih => simp [membersEqual, ih]

variable {α β σ : Type*}

def Codec.Compares (c : Codec α) (R : α → α → Prop) : Prop :=
  ∀ a b, jsonEqual (c.encode a) (c.encode b) = true ↔ R a b

namespace Codec.Compares

variable {c : Codec α} {R : α → α → Prop}

theorem bool : Codec.bool.Compares (· = ·) := fun _ _ => beq_iff_eq

theorem str : Codec.str.Compares (· = ·) := fun _ _ => beq_iff_eq

theorem int : Codec.int.Compares fun a b => toFloat64 a = toFloat64 b := fun _ _ => beq_iff_eq

theorem list (h : c.Compares R) : (Codec.list c).Compares (List.Forall₂ R) := by
  intro as bs
  show elementsEqual (as.map c.encode) (bs.map c.encode) = true ↔ _
  induction as generalizing bs with
  | nil => cases bs <;> simp [elementsEqual]
  | cons a as ih => cases bs <;> simp [elementsEqual, h a _, ih]

theorem not_null (c : Codec α) (a : α) : jsonEqual (c.encode a) .null = false := by
  cases hv : c.encode a with
  | null => exact absurd hv (c.encode_ne_null a)
  | _ => rfl

theorem lookup_entries (c : Codec α) (m : StrMap α) (k : Str) :
    ((entries m).map fun e => (e.1, c.encode e.2)).lookup k = (m.lookup k).map c.encode := by
  cases hlook : ((entries m).map fun e => (e.1, c.encode e.2)).lookup k with
  | none =>
    cases hm : m.lookup k with
    | none => rfl
    | some v =>
      have hmem := List.mem_map_of_mem (f := fun e => (e.1, c.encode e.2))
        (mem_entries.mpr hm : (k, v) ∈ entries m)
      simpa using List.lookup_eq_none_iff.mp hlook _ hmem
  | some w =>
    obtain ⟨pre, post, hsplit, -⟩ := List.lookup_eq_some_iff.mp hlook
    obtain ⟨e, he, hew⟩ := List.mem_map.mp (hsplit ▸ List.mem_append_right pre List.mem_cons_self)
    cases hew
    rw [mem_entries.mp he, Option.map_some]

theorem length_entries (m : StrMap α) : (entries m).length = m.keys.card := by
  rw [← Finset.length_sort (· ≤ ·), entries, List.length_filterMap_eq_countP, List.countP_eq_length]
  intro k hk
  rw [Finset.mem_sort, Finmap.mem_keys, Finmap.mem_iff] at hk
  obtain ⟨v, hv⟩ := hk
  simp [hv]

theorem map (h : c.Compares R) :
    (Codec.map c).Compares fun m m' => ∀ k, Option.Rel R (m.lookup k) (m'.lookup k) := by
  intro m m'
  have hmember : ∀ e : Str × α, jsonEqual (c.encode e.2)
      ((((entries m').map fun e => (e.1, c.encode e.2)).lookup e.1).getD .null) = true ↔
        Option.Rel R (some e.2) (m'.lookup e.1) := fun e => by
    rw [lookup_entries]
    cases m'.lookup e.1 with
    | none => simp [not_null]
    | some v => simp [h e.2 v]
  show (_ == _ && membersEqual _ _) = true ↔ _
  simp only [Bool.and_eq_true, beq_iff_eq, List.length_map, length_entries, membersEqual_iff,
    List.forall_mem_map, hmember]
  constructor
  · rintro ⟨hcard, hall⟩ k
    have hsub : m.keys ⊆ m'.keys := fun k hk => by
      obtain ⟨v, hv⟩ := Finmap.mem_iff.mp (Finmap.mem_keys.mp hk)
      have hrel := hall (k, v) (mem_entries.mpr hv)
      rw [Finmap.mem_keys, Finmap.mem_iff]
      cases hm : m'.lookup k with
      | none => simp [hm] at hrel
      | some w => exact ⟨w, rfl⟩
    have hkeys := Finset.eq_of_subset_of_card_le hsub hcard.ge
    cases hm : m.lookup k with
    | some v => exact hall (k, v) (mem_entries.mpr hm)
    | none =>
      rw [Finmap.lookup_eq_none, ← Finmap.mem_keys, hkeys, Finmap.mem_keys,
        ← Finmap.lookup_eq_none] at hm
      rw [hm]
      exact .none
  · intro hall
    refine ⟨congrArg Finset.card (Finset.ext fun k => ?_), fun e he => ?_⟩
    · have hrel := hall k
      simp only [Finmap.mem_keys, Finmap.mem_iff]
      generalize m.lookup k = a, m'.lookup k = b at hrel ⊢
      cases hrel <;> simp
    · rw [← mem_entries.mp he]
      exact hall e.1

end Codec.Compares

def Fields.Compares (f : Fields σ α) (R : σ → σ → Prop) : Prop :=
  ∀ s t, (membersEqual (f.encode s) (f.encode t) = true →
      (f.encode s).length ≤ (f.encode t).length) ∧
    (membersEqual (f.encode s) (f.encode t) = true ∧
      (f.encode s).length = (f.encode t).length ↔ R s t)

namespace Fields.Compares

variable {f : Fields σ α} {g : Fields σ β} {R S : σ → σ → Prop}

section Field

variable {name : Str} {c : Codec α} {T : α → α → Prop}

theorem required [Inhabited α] {get : σ → α} (h : c.Compares T) :
    (Fields.required name get c).Compares fun s t => T (get s) (get t) :=
  fun s t => ⟨fun _ => le_rfl, by simp [Fields.required, membersEqual, h (get s) (get t)]⟩

theorem omitEmpty [Inhabited α] [DecidableEq α] {get : σ → α} (h : c.Compares T)
    (hleft : ∀ a, T default a ↔ a = default) (hright : ∀ a, T a default ↔ a = default) :
    (Fields.omitEmpty name get c).Compares fun s t => T (get s) (get t) := by
  intro s t
  by_cases hs : get s = default <;> by_cases ht : get t = default
  · simp [Fields.omitEmpty, membersEqual, hs, ht, (hleft default).mpr rfl]
  · simp [Fields.omitEmpty, membersEqual, hs, ht, (hleft (get t)).not.mpr ht]
  · simp [Fields.omitEmpty, membersEqual, hs, ht, (hright (get s)).not.mpr hs,
      Codec.Compares.not_null]
  · simp [Fields.omitEmpty, membersEqual, hs, ht, h (get s) (get t)]

theorem pointer {get : σ → Option α} (h : c.Compares T) :
    (Fields.pointer name get c).Compares fun s t => Option.Rel T (get s) (get t) := by
  intro s t
  cases hs : get s <;> cases ht : get t <;>
    simp [Fields.pointer, membersEqual, hs, ht, Codec.Compares.not_null, h _ _]

end Field

theorem mem_names {s : σ} {e : Str × Value ℤ} (he : e ∈ f.encode s) : e.1 ∈ f.names := by
  by_contra hnot
  simpa using List.lookup_eq_none_iff.mp (f.lookup_encode s e.1 hnot) e he

theorem and (hf : f.Compares R) (hg : g.Compares S) {h : ∀ n ∈ f.names, n ∉ g.names} :
    (f.and g h).Compares fun s t => R s t ∧ S s t := by
  intro s t
  have hleft : ∀ e ∈ f.encode s, (f.encode t ++ g.encode t).lookup e.1 = (f.encode t).lookup e.1 :=
    fun e he => by
      rw [List.lookup_append, g.lookup_encode t e.1 (h e.1 (mem_names he)), Option.or_none]
  have hright : ∀ e ∈ g.encode s, (f.encode t ++ g.encode t).lookup e.1 = (g.encode t).lookup e.1 :=
    fun e he => by
      rw [List.lookup_append, f.lookup_encode t e.1 fun hn => h e.1 hn (mem_names he),
        Option.none_or]
  have hboth : membersEqual ((f.and g h).encode s) ((f.and g h).encode t) = true ↔
      membersEqual (f.encode s) (f.encode t) = true ∧
        membersEqual (g.encode s) (g.encode t) = true := by
    simp only [encode_and, membersEqual_iff, List.forall_mem_append]
    exact and_congr (forall₂_congr fun e he => by rw [hleft e he])
      (forall₂_congr fun e he => by rw [hright e he])
  rw [hboth, encode_and, encode_and, List.length_append, List.length_append]
  beta_reduce
  rw [← (hf s t).2, ← (hg s t).2]
  have hlef := (hf s t).1
  have hleg := (hg s t).1
  constructor
  · rintro ⟨h₁, h₂⟩
    exact Nat.add_le_add (hlef h₁) (hleg h₂)
  · constructor
    · rintro ⟨⟨h₁, h₂⟩, hlen⟩
      have := hlef h₁
      have := hleg h₂
      exact ⟨⟨h₁, by omega⟩, h₂, by omega⟩
    · rintro ⟨⟨h₁, hlen₁⟩, h₂, hlen₂⟩
      exact ⟨⟨h₁, h₂⟩, by omega⟩

end Fields.Compares

theorem Codec.Compares.struct {f : Fields σ α} {R : σ → σ → Prop} {mk : α → σ}
    {h : ∀ s, mk (f.value s) = s} (hf : f.Compares R) : (Codec.struct f mk h).Compares R := by
  intro s t
  rw [← (hf s t).2, and_comm]
  simp [Codec.struct, jsonEqual]

end Json
