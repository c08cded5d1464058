import Mathlib.Data.List.DropRight
import Mathlib.Data.List.Infix

/-!
# Text and the trimming of white space

Texts are lists of characters, so that every function on them is structurally recursive and
evaluates in the kernel. White space is the Unicode property `White_Space`, which is what the
trimming function of the Go standard library removes from both ends.
-/

namespace Lexical

abbrev Str := List Char

variable (s : Str) (c : Char)

def isSpace : Bool :=
  let n := c.toNat
  (9 ≤ n && n ≤ 13) || n == 0x20 || n == 0x85 || n == 0xA0 || n == 0x1680 ||
    (0x2000 ≤ n && n ≤ 0x200A) || n == 0x2028 || n == 0x2029 || n == 0x202F || n == 0x205F ||
    n == 0x3000

def trimSpace : Str :=
  (s.dropWhile isSpace).rdropWhile isSpace

/-- A character in lower case. Besides the capital ASCII letters only the Kelvin sign and the
capital I with a dot have an ASCII letter as their lower case; what the other characters become
cannot be seen by a search for an ASCII text, and they are left as they are. -/
def lowerChar : Char :=
  if c.toNat = 0x212A then 'k' else if c.toNat = 0x130 then 'i' else c.toLower

def toLower : Str := s.map lowerChar

/-- A character in upper case. Besides the small ASCII letters only the long s and the small i
without a dot have an ASCII letter as their upper case. -/
def upperChar : Char :=
  if c.toNat = 0x17F then 'S' else if c.toNat = 0x131 then 'I' else c.toUpper

def toUpper : Str := s.map upperChar

theorem toLower_append (s t : Str) : toLower (s ++ t) = toLower s ++ toLower t := List.map_append

def occursIn (sub s : Str) : Bool := decide (sub <:+: s)

theorem infix_of_infix_append_cons {sub a b : Str} {c : Char} (hc : c ∉ sub)
    (h : sub <:+: a ++ c :: b) : sub <:+: a ∨ sub <:+: b := by
  obtain ⟨s, t, h⟩ := h
  rcases List.append_eq_append_iff.mp h with ⟨a', ha, -⟩ | ⟨r, hs, hb⟩
  · exact .inl ⟨s, a', ha.symm⟩
  · rcases List.append_eq_append_iff.mp hs with ⟨a', -, hsub⟩ | ⟨r', -, hr⟩
    · cases r with
      | nil => exact .inl ⟨s, [], by rw [List.append_nil, hs, List.append_nil]⟩
      | cons d r =>
        rw [List.cons_append, List.cons.injEq] at hb
        exact absurd (hsub ▸ by simp [hb.1]) hc
    · cases r' with
      | nil =>
        cases r with
        | nil => exact .inl (by simp [show sub = [] by simpa using hr.symm])
        | cons d r =>
          rw [List.cons_append, List.cons.injEq] at hb
          rw [List.nil_append] at hr
          exact absurd (hr ▸ by simp [hb.1]) hc
      | cons d r' =>
        subst hr
        simp only [List.cons_append, List.cons.injEq] at hb
        exact .inr ⟨r', t, hb.2.symm⟩

theorem trimSpace_eq_self {s : Str} (hfirst : ∀ c ∈ s.head?, isSpace c = false)
    (hlast : ∀ c ∈ s.getLast?, isSpace c = false) : trimSpace s = s := by
  have hdrop : s.dropWhile isSpace = s := by
    cases s with
    | nil => rfl
    | cons c s => simp [hfirst c rfl]
  rw [trimSpace, hdrop, List.rdropWhile_eq_self_iff]
  intro hne
  simp [hlast _ (List.getLast?_eq_getLast_of_ne_nil hne)]

theorem head?_rdropWhile {p : Char → Bool} {s : Str} {c : Char}
    (h : c ∈ (s.rdropWhile p).head?) : c ∈ s.head? := by
  obtain ⟨t, ht⟩ := List.rdropWhile_prefix p s
  rw [← ht, List.head?_append, Option.mem_def.mp h]
  rfl

theorem isSpace_getLast_trimSpace : ∀ c ∈ (trimSpace s).getLast?, isSpace c = false := by
  intro c hc
  have hne : trimSpace s ≠ [] := by
    rintro hnil
    simp [hnil] at hc
  have hlast := List.rdropWhile_last_not isSpace (s.dropWhile isSpace) hne
  rw [Option.mem_def, List.getLast?_eq_getLast_of_ne_nil hne, Option.some.injEq] at hc
  subst hc
  exact Bool.eq_false_iff.mpr hlast

theorem isSpace_head_trimSpace : ∀ c ∈ (trimSpace s).head?, isSpace c = false := by
  intro c hc
  have hhead := head?_rdropWhile hc
  have hno := List.head?_dropWhile_not isSpace s
  rw [Option.mem_def.mp hhead] at hno
  exact hno

theorem trimSpace_trimSpace : trimSpace (trimSpace s) = trimSpace s :=
  trimSpace_eq_self (isSpace_head_trimSpace s) (isSpace_getLast_trimSpace s)

/-! ## Order -/

def strLe : Str → Str → Bool
  | [], _ => true
  | _ :: _, [] => false
  | a :: s, b :: t => a.toNat < b.toNat || (a == b && strLe s t)

theorem strLe_cons {a b : Char} {s t : Str} :
    strLe (a :: s) (b :: t) = true ↔ a.toNat < b.toNat ∨ a = b ∧ strLe s t = true := by
  simp [strLe]

theorem strLe_total (s t : Str) : strLe s t = true ∨ strLe t s = true := by
  induction s generalizing t with
  | nil => exact .inl rfl
  | cons a s ih =>
    cases t with
    | nil => exact .inr rfl
    | cons b t =>
      rw [strLe_cons, strLe_cons]
      rcases Nat.lt_trichotomy a.toNat b.toNat with h | h | h
      · exact .inl (.inl h)
      · obtain rfl := Char.toNat_inj.mp h
        exact (ih t).imp (fun h => .inr ⟨rfl, h⟩) fun h => .inr ⟨rfl, h⟩
      · exact .inr (.inl h)

theorem strLe_trans {s t u : Str} (hst : strLe s t = true) (htu : strLe t u = true) :
    strLe s u = true := by
  induction s generalizing t u with
  | nil => rfl
  | cons a s ih =>
    cases t with
    | nil => cases hst
    | cons b t =>
      cases u with
      | nil => cases htu
      | cons c u =>
        rw [strLe_cons] at *
        rcases hst with hab | ⟨rfl, hst⟩
        · rcases htu with hbc | ⟨rfl, -⟩
          · exact .inl (hab.trans hbc)
          · exact .inl hab
        · rcases htu with hbc | ⟨rfl, htu⟩
          · exact .inl hbc
          · exact .inr ⟨rfl, ih hst htu⟩

theorem strLe_antisymm {s t : Str} (hst : strLe s t = true) (hts : strLe t s = true) : s = t := by
  induction s generalizing t with
  | nil =>
    cases t with
    | nil => rfl
    | cons b t => cases hts
  | cons a s ih =>
    cases t with
    | nil => cases hst
    | cons b t =>
      rw [strLe_cons] at hst hts
      rcases hst with hab | ⟨rfl, hst⟩
      · rcases hts with hba | ⟨rfl, -⟩
        · exact absurd hab (Nat.lt_asymm hba)
        · exact absurd hab (Nat.lt_irrefl _)
      · rcases hts with haa | ⟨-, hts⟩
        · exact absurd haa (Nat.lt_irrefl _)
        · rw [ih hst hts]

theorem append_cons_inj {a : Char} {s t u v : Str} (hs : a ∉ s) (ht : a ∉ t)
    (h : s ++ a :: u = t ++ a :: v) : s = t ∧ u = v := by
  induction s generalizing t with
  | nil => cases t <;> grind
  | cons c s ih =>
    cases t with
    | nil => grind
    | cons d t =>
      simp only [List.cons_append, List.cons.injEq, List.mem_cons, not_or] at h hs ht
      obtain ⟨rfl, hrest⟩ := ih hs.2 ht.2 h.2
      exact ⟨by rw [h.1], hrest⟩

end Lexical
