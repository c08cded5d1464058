import Mathlib.Data.Char
import Mathlib.Data.Finmap
import Mathlib.Data.Finset.Sort
import Mathlib.Data.List.Lex
import Edgelet.Lexical.Text

/-!
# JSON documents and codecs

A codec writes the values of a type as documents and reads them back, and carries the proof that
what it wrote is read back as it was. Codecs of structures are built field by field, as the tags of
a Go structure list them: a field is always written, or left out when it is empty, and a missing
field is read as its empty value.
-/

namespace Json

open Lexical

inductive Value (ν : Type*)
  | null
  | bool (b : Bool)
  | num (n : ν)
  | str (s : Str)
  | arr (vs : List (Value ν))
  | obj (fields : List (Str × Value ν))

abbrev Object (ν : Type*) := List (Str × Value ν)

/-! ## Maps -/

abbrev StrMap (β : Type*) := Finmap fun _ : Str => β

section Maps

variable {β : Type*}

def entries (m : StrMap β) : List (Str × β) :=
  (m.keys.sort (· ≤ ·)).filterMap fun k => (m.lookup k).map (k, ·)

def ofEntries (es : List (Str × β)) : StrMap β := es.foldl (fun m e => m.insert e.1 e.2) ∅

theorem lookup_foldl_insert {m : StrMap β} {es : List (Str × β)} (m₀ : StrMap β)
    (h : ∀ e ∈ es, m.lookup e.1 = some e.2) (k : Str) :
    (es.foldl (fun m e => m.insert e.1 e.2) m₀).lookup k =
      if k ∈ es.map Prod.fst then m.lookup k else m₀.lookup k := by
  induction es generalizing m₀ with
  | nil => simp
  | cons e es ih =>
    rw [List.foldl_cons, ih _ fun e' he' => h e' (List.mem_cons_of_mem _ he')]
    have he := h e List.mem_cons_self
    by_cases hk : k = e.1
    · subst hk
      simp [he, Finmap.lookup_insert]
    · rw [Finmap.lookup_insert_of_ne _ hk]
      have hmem : k ∈ (e :: es).map Prod.fst ↔ k ∈ es.map Prod.fst := by
        rw [List.map_cons, List.mem_cons, or_iff_right hk]
      simp only [hmem]

theorem mem_entries {m : StrMap β} {e : Str × β} : e ∈ entries m ↔ m.lookup e.1 = some e.2 := by
  rw [entries, List.mem_filterMap]
  constructor
  · rintro ⟨k, -, hk⟩
    obtain ⟨v, hv, rfl⟩ := Option.map_eq_some_iff.mp hk
    exact hv
  · intro he
    refine ⟨e.1, ?_, by simp [he]⟩
    rw [Finset.mem_sort, Finmap.mem_keys, Finmap.mem_iff]
    exact ⟨e.2, he⟩

theorem ofEntries_entries (m : StrMap β) : ofEntries (entries m) = m := by
  apply Finmap.ext_lookup
  intro k
  rw [ofEntries, lookup_foldl_insert (m := m) ∅ fun e => mem_entries.mp]
  split
  · rfl
  · rename_i hk
    cases hm : m.lookup k with
    | none => simp
    | some v => exact absurd (List.mem_map_of_mem (mem_entries.mpr hm : (k, v) ∈ _)) hk

end Maps

/-! ## Codecs -/

/-- A writer and a reader of the values of a type, the reader undoing the writer. The document
`null` stands for the absence of a value and is never written. -/
structure Codec (α : Type*) where
  encode : α → Value ℤ
  decode : Value ℤ → Option α
  decode_encode : ∀ a, decode (encode a) = some a
  encode_ne_null : ∀ a, encode a ≠ .null

namespace Codec

variable {α β : Type*}

def bool : Codec Bool where
  encode := .bool
  decode
    | .bool b => some b
    | _ => none
  decode_encode _ := rfl
  encode_ne_null _ := nofun

def int : Codec ℤ where
  encode := .num
  decode
    | .num n => some n
    | _ => none
  decode_encode _ := rfl
  encode_ne_null _ := nofun

def str : Codec Str where
  encode := .str
  decode
    | .str s => some s
    | _ => none
  decode_encode _ := rfl
  encode_ne_null _ := nofun

def text (toText : α → Str) (ofText : Str → Option α) (h : ∀ a, ofText (toText a) = some a) :
    Codec α where
  encode a := .str (toText a)
  decode
    | .str s => ofText s
    | _ => none
  decode_encode := h
  encode_ne_null _ := nofun

theorem mapM_encode (c : Codec α) (as : List α) : (as.map c.encode).mapM c.decode = some as := by
  induction as with
  | nil => rfl
  | cons a as ih => simp [c.decode_encode, ih]

def list (c : Codec α) : Codec (List α) where
  encode as := .arr (as.map c.encode)
  decode
    | .arr vs => vs.mapM c.decode
    | .null => some []
    | _ => none
  decode_encode := c.mapM_encode
  encode_ne_null _ := nofun

def decodeEntry (c : Codec β) (e : Str × Value ℤ) : Option (Str × β) := (c.decode e.2).map (e.1, ·)

def map (c : Codec β) : Codec (StrMap β) where
  encode m := .obj ((entries m).map fun e => (e.1, c.encode e.2))
  decode
    | .obj es => (es.mapM c.decodeEntry).map ofEntries
    | .null => some ∅
    | _ => none
  decode_encode m := by
    have hread : ∀ es : List (Str × β),
        (es.map fun e => (e.1, c.encode e.2)).mapM c.decodeEntry = some es := by
      intro es
      induction es with
      | nil => rfl
      | cons e es ih => simp [decodeEntry, c.decode_encode, ih]
    simp [hread, ofEntries_entries]
  encode_ne_null _ := nofun

end Codec

/-! ## Structures -/

/-- Some fields of a structure `σ`: how they are written, and how a value of type `α` that holds
them is read. They write no names but their own, and what is read depends on these alone. -/
structure Fields (σ α : Type*) where
  names : List Str
  encode : σ → Object ℤ
  decode : Object ℤ → Option α
  value : σ → α
  lookup_encode : ∀ s n, n ∉ names → (encode s).lookup n = none
  decode_encode : ∀ s fs, (∀ n ∈ names, fs.lookup n = (encode s).lookup n) →
    decode fs = some (value s)

namespace Fields

variable {σ α β : Type*}

def required [Inhabited α] (name : Str) (get : σ → α) (c : Codec α) : Fields σ α where
  names := [name]
  encode s := [(name, c.encode (get s))]
  decode fs :=
    match fs.lookup name with
    | some v => c.decode v
    | none => some default
  value := get
  lookup_encode s n hn := by
    have hne : n ≠ name := by simpa using hn
    simp [List.lookup_cons, List.lookup_nil, beq_false_of_ne hne]
  decode_encode s fs h := by
    rw [h name List.mem_cons_self]
    simp [c.decode_encode]

def omitEmpty [Inhabited α] [DecidableEq α] (name : Str) (get : σ → α) (c : Codec α) :
    Fields σ α where
  names := [name]
  encode s := if get s = default then [] else [(name, c.encode (get s))]
  decode fs :=
    match fs.lookup name with
    | some v => c.decode v
    | none => some default
  value := get
  lookup_encode s n hn := by
    have hne : n ≠ name := by simpa using hn
    split <;> simp [List.lookup_cons, List.lookup_nil, beq_false_of_ne hne]
  decode_encode s fs h := by
    rw [h name List.mem_cons_self]
    split_ifs with hempty
    · exact congrArg some hempty.symm
    · simp [c.decode_encode]

theorem encode_omitEmpty_ne_nil [Inhabited α] [DecidableEq α] {name : Str} {get : σ → α}
    {c : Codec α} {s : σ} (h : get s ≠ default) : (omitEmpty name get c).encode s ≠ [] := by
  simp only [omitEmpty, if_neg h]
  exact List.cons_ne_nil _ _

def pointer (name : Str) (get : σ → Option α) (c : Codec α) : Fields σ (Option α) where
  names := [name]
  encode s := (get s).toList.map fun a => (name, c.encode a)
  decode fs :=
    match fs.lookup name with
    | some .null => some none
    | some v => (c.decode v).map some
    | none => some none
  value := get
  lookup_encode s n hn := by
    have hne : n ≠ name := by simpa using hn
    cases get s <;> simp [List.lookup_cons, List.lookup_nil, beq_false_of_ne hne]
  decode_encode s fs h := by
    rw [h name List.mem_cons_self]
    cases get s with
    | none => rfl
    | some a =>
      have hnull := c.encode_ne_null a
      simp only [Option.toList_some, List.map_cons, List.map_nil, List.lookup_cons,
        beq_self_eq_true]
      rw [c.decode_encode, Option.map_some]

def and (f : Fields σ α) (g : Fields σ β) (h : ∀ n ∈ f.names, n ∉ g.names := by decide +kernel) :
    Fields σ (α × β) where
  names := f.names ++ g.names
  encode s := f.encode s ++ g.encode s
  decode fs := (f.decode fs).bind fun a => (g.decode fs).map (a, ·)
  value s := (f.value s, g.value s)
  lookup_encode s n hn := by
    rw [List.mem_append, not_or] at hn
    rw [List.lookup_append, f.lookup_encode s n hn.1, g.lookup_encode s n hn.2]
    rfl
  decode_encode s fs hfs := by
    have hf : f.decode fs = some (f.value s) := by
      apply f.decode_encode
      intro n hn
      rw [hfs n (List.mem_append_left _ hn), List.lookup_append, g.lookup_encode s n (h n hn),
        Option.or_none]
    have hg : g.decode fs = some (g.value s) := by
      apply g.decode_encode
      intro n hn
      rw [hfs n (List.mem_append_right _ hn), List.lookup_append,
        f.lookup_encode s n fun hn' => h n hn' hn, Option.none_or]
    rw [hf, hg]
    rfl

theorem encode_and (f : Fields σ α) (g : Fields σ β) (h : ∀ n ∈ f.names, n ∉ g.names) (s : σ) :
    (f.and g h).encode s = f.encode s ++ g.encode s := rfl

end Fields

def Codec.struct {σ α : Type*} (f : Fields σ α) (mk : α → σ)
    (h : ∀ s, mk (f.value s) = s := by intro s; rfl) : Codec σ where
  encode s := .obj (f.encode s)
  decode
    | .obj fs => (f.decode fs).map mk
    | _ => none
  decode_encode s := by
    simp only [f.decode_encode s _ fun _ _ => rfl, Option.map_some, h]
  encode_ne_null _ := nofun

end Json
