import Mathlib.Data.Nat.Digits.Defs
import Edgelet.Codec.Json

/-!
# The text of a JSON document

The text of a document as the Go standard library writes it: without white space, and in strings
with an escape for everything that JSON, HTML or JavaScript treats specially. A document can be read
off the front of any text that begins with its own (`print_append_inj`), so different documents have
different texts (`print_injective`).
-/

namespace Json

open Lexical

/-! ## Numbers -/

def natText (n : ℕ) : Str :=
  if n = 0 then ['0'] else (Nat.digits 10 n).reverse.map Nat.digitChar

def intText : ℤ → Str
  | .ofNat n => natText n
  | .negSucc n => '-' :: natText (n + 1)

def isDigit (c : Char) : Bool := '0' ≤ c && c ≤ '9'

theorem digitChar_inj : ∀ d < 10, ∀ d' < 10, d.digitChar = d'.digitChar → d = d' := by decide

theorem isDigit_digitChar : ∀ d < 10, isDigit d.digitChar = true := by decide

variable {c : Char}

theorem isDigit_natText {n : ℕ} (h : c ∈ natText n) : isDigit c = true := by
  unfold natText at h
  split_ifs at h
  · rw [List.mem_singleton.mp h]
    rfl
  · simp only [List.mem_map, List.mem_reverse] at h
    obtain ⟨d, hd, rfl⟩ := h
    exact isDigit_digitChar d (Nat.digits_lt_base (by decide) hd)

theorem natText_ne_nil (n : ℕ) : natText n ≠ [] := by
  unfold natText
  split_ifs with h
  · exact List.cons_ne_nil _ _
  · simp [Nat.digits_ne_nil_iff_ne_zero.mpr h]

theorem map_digitChar_injOn {ds ds' : List ℕ} (hds : ∀ d ∈ ds, d < 10) (hds' : ∀ d ∈ ds', d < 10)
    (h : ds.map Nat.digitChar = ds'.map Nat.digitChar) : ds = ds' := by
  induction ds generalizing ds' with
  | nil => exact (List.map_eq_nil_iff.mp h.symm).symm
  | cons d ds ih =>
    cases ds' with
    | nil => simp at h
    | cons d' ds' =>
      rw [List.map_cons, List.map_cons, List.cons.injEq] at h
      rw [digitChar_inj d (hds d (by simp)) d' (hds' d' (by simp)) h.1,
        ih (fun e he => hds e (by simp [he])) (fun e he => hds' e (by simp [he])) h.2]

theorem digits_reverse_ne_zero {n : ℕ} (h : n ≠ 0) :
    (Nat.digits 10 n).reverse.map Nat.digitChar ≠ ['0'] := by
  intro heq
  have hone : (Nat.digits 10 n).reverse = [0] := by
    refine map_digitChar_injOn (fun d hd => ?_) (by decide) heq
    exact Nat.digits_lt_base (by decide) (List.mem_reverse.mp hd)
  have hdigits : Nat.digits 10 n = [0] := by
    have hrev := congrArg List.reverse hone
    rwa [List.reverse_reverse] at hrev
  have hzero : Nat.ofDigits 10 (Nat.digits 10 n) = 0 := by rw [hdigits]; rfl
  exact h (by rwa [Nat.ofDigits_digits] at hzero)

theorem natText_injective : Function.Injective natText := by
  intro n m h
  unfold natText at h
  split_ifs at h with hn hm hm
  · rw [hn, hm]
  · exact absurd h.symm (digits_reverse_ne_zero hm)
  · exact absurd h (digits_reverse_ne_zero hn)
  · have hrev := map_digitChar_injOn
      (fun d hd => Nat.digits_lt_base (by decide) (List.mem_reverse.mp hd))
      (fun d hd => Nat.digits_lt_base (by decide) (List.mem_reverse.mp hd)) h
    exact Nat.digits_inj_iff.mp (List.reverse_injective hrev)

def Stops (r : Str) : Prop := ∀ c ∈ r.head?, isDigit c = false

/-- Two runs of characters with a property, each followed by something that begins without it, are
the same runs. -/
theorem append_inj_of_stops {p : Char → Bool} {xs xs' r r' : Str} (hxs : ∀ c ∈ xs, p c = true)
    (hxs' : ∀ c ∈ xs', p c = true) (hr : ∀ c ∈ r.head?, p c = false)
    (hr' : ∀ c ∈ r'.head?, p c = false) (h : xs ++ r = xs' ++ r') : xs = xs' ∧ r = r' := by
  induction xs generalizing xs' with
  | nil =>
    cases xs' with
    | nil => exact ⟨rfl, h⟩
    | cons c xs' =>
      have hhead : c ∈ r.head? := by simp_all
      exact absurd (hxs' c (by simp)) (by simp [hr c hhead])
  | cons c xs ih =>
    cases xs' with
    | nil =>
      have hhead : c ∈ r'.head? := by simp [← show c :: xs ++ r = r' from h]
      exact absurd (hxs c (by simp)) (by simp [hr' c hhead])
    | cons c' xs' =>
      rw [List.cons_append, List.cons_append, List.cons.injEq] at h
      have htail := ih (fun e he => hxs e (by simp [he])) (fun e he => hxs' e (by simp [he])) h.2
      exact ⟨by rw [h.1, htail.1], htail.2⟩

variable {r r' : Str} {n m : ℕ}

theorem natText_append_inj (hr : Stops r) (hr' : Stops r')
    (h : natText n ++ r = natText m ++ r') : n = m ∧ r = r' := by
  have hsame := append_inj_of_stops (fun _ => isDigit_natText) (fun _ => isDigit_natText) hr hr' h
  exact ⟨natText_injective hsame.1, hsame.2⟩

theorem natText_append_ne {n : ℕ} (hc : isDigit c = false) : natText n ++ r ≠ c :: r' := by
  intro h
  obtain ⟨d, ds, hds⟩ := List.exists_cons_of_ne_nil (natText_ne_nil n)
  have hdigit : isDigit d = true := isDigit_natText (n := n) (by simp [hds])
  rw [hds, List.cons_append, List.cons.injEq] at h
  rw [h.1, hc] at hdigit
  exact Bool.false_ne_true hdigit

theorem intText_append_inj {n m : ℤ} (hr : Stops r) (hr' : Stops r')
    (h : intText n ++ r = intText m ++ r') : n = m ∧ r = r' := by
  rcases n with n | n <;> rcases m with m | m
  · have hsame := natText_append_inj hr hr' h
    exact ⟨congrArg Int.ofNat hsame.1, hsame.2⟩
  · exact absurd h (natText_append_ne (by decide))
  · exact absurd h.symm (natText_append_ne (by decide))
  · have hsame := natText_append_inj hr hr' (List.cons.inj h).2
    exact ⟨congrArg Int.negSucc (Nat.succ.inj hsame.1), hsame.2⟩

/-! ## Strings -/

def hexChar (n : ℕ) : Char := Nat.digitChar (n % 16)

def unicodeEscape (n : ℕ) : Str :=
  ['\\', 'u', hexChar (n / 4096), hexChar (n / 256), hexChar (n / 16), hexChar n]

def shortEscapes : List (Char × Char) :=
  [('"', '"'), ('\\', '\\'), (Char.ofNat 8, 'b'), (Char.ofNat 12, 'f'), ('\n', 'n'), ('\r', 'r'),
    ('\t', 't')]

def isUnicodeEscaped (c : Char) : Bool :=
  c.toNat < 0x20 || c = '<' || c = '>' || c = '&' || c.toNat = 0x2028 || c.toNat = 0x2029

def escape (c : Char) : Str :=
  match shortEscapes.find? (·.1 = c) with
  | some (_, letter) => ['\\', letter]
  | none => if isUnicodeEscaped c then unicodeEscape c.toNat else [c]

theorem escape_cases (c : Char) :
    (∃ letter, (c, letter) ∈ shortEscapes ∧ escape c = ['\\', letter]) ∨
      (isUnicodeEscaped c = true ∧ escape c = unicodeEscape c.toNat) ∨
      (c ≠ '"' ∧ c ≠ '\\' ∧ escape c = [c]) := by
  rcases hshort : shortEscapes.find? (·.1 = c) with _ | ⟨d, letter⟩
  · by_cases hcode : isUnicodeEscaped c = true
    · exact .inr (.inl ⟨hcode, by simp [escape, hshort, hcode]⟩)
    · refine .inr (.inr ⟨?_, ?_, by simp [escape, hshort, hcode]⟩)
      all_goals
        rintro rfl
        exact absurd hshort (by decide)
  · have hd : d = c := by simpa using List.find?_some hshort
    subst hd
    exact .inl ⟨letter, List.mem_of_find?_eq_some hshort, by simp [escape, hshort]⟩

theorem shortEscapes_inj : ∀ e ∈ shortEscapes, ∀ e' ∈ shortEscapes, e.2 = e'.2 → e.1 = e'.1 := by
  decide

theorem shortEscapes_ne_u : ∀ e ∈ shortEscapes, e.2 ≠ 'u' := by decide

theorem hexChar_inj (h : hexChar n = hexChar m) : n % 16 = m % 16 := by
  have hinj : ∀ d < 16, ∀ d' < 16, d.digitChar = d'.digitChar → d = d' := by decide
  exact hinj _ (Nat.mod_lt _ (by decide)) _ (Nat.mod_lt _ (by decide)) h

theorem lt_of_isUnicodeEscaped (h : isUnicodeEscaped c = true) : c.toNat < 65536 := by
  simp only [isUnicodeEscaped, Bool.or_eq_true, decide_eq_true_eq] at h
  rcases h with ((((h | rfl) | rfl) | rfl) | h) | h
  · omega
  · decide
  · decide
  · decide
  · omega
  · omega

theorem unicodeEscape_append_inj (hn : n < 65536) (hm : m < 65536)
    (h : unicodeEscape n ++ r = unicodeEscape m ++ r') : n = m ∧ r = r' := by
  simp only [unicodeEscape, List.cons_append, List.nil_append, List.cons.injEq, true_and] at h
  obtain ⟨h3, h2, h1, h0, hr⟩ := h
  have d3 := hexChar_inj h3
  have d2 := hexChar_inj h2
  have d1 := hexChar_inj h1
  have d0 := hexChar_inj h0
  exact ⟨by omega, hr⟩

theorem escape_append_inj {c c' : Char} (h : escape c ++ r = escape c' ++ r') :
    c = c' ∧ r = r' := by
  rcases escape_cases c with ⟨a, ha, he⟩ | ⟨hc, he⟩ | ⟨-, hback, he⟩ <;>
    rcases escape_cases c' with ⟨a', ha', he'⟩ | ⟨hc', he'⟩ | ⟨-, hback', he'⟩ <;>
    rw [he, he'] at h
  · simp only [List.cons_append, List.nil_append, List.cons.injEq, true_and] at h
    exact ⟨shortEscapes_inj _ ha _ ha' h.1, h.2⟩
  · exact absurd (List.cons.inj (List.cons.inj h).2).1 (shortEscapes_ne_u _ ha)
  · exact absurd (List.cons.inj h).1.symm hback'
  · exact absurd (List.cons.inj (List.cons.inj h).2).1.symm (shortEscapes_ne_u _ ha')
  · have hsame :=
      unicodeEscape_append_inj (lt_of_isUnicodeEscaped hc) (lt_of_isUnicodeEscaped hc') h
    exact ⟨Char.toNat_inj.mp hsame.1, hsame.2⟩
  · exact absurd (List.cons.inj h).1.symm hback'
  · exact absurd (List.cons.inj h).1 hback
  · exact absurd (List.cons.inj h).1 hback
  · exact List.cons.inj h

theorem escape_append_ne_quote : escape c ++ r ≠ '"' :: r' := by
  intro h
  rcases escape_cases c with ⟨a, -, he⟩ | ⟨-, he⟩ | ⟨hquote, -, he⟩ <;> rw [he] at h
  · exact absurd (List.cons.inj h).1 (by decide)
  · exact absurd (List.cons.inj h).1 (by decide)
  · exact hquote (List.cons.inj h).1

def strText (s : Str) : Str := '"' :: (s.flatMap escape ++ ['"'])

theorem strText_append_inj {s s' r r' : Str} (h : strText s ++ r = strText s' ++ r') :
    s = s' ∧ r = r' := by
  simp only [strText, List.cons_append, List.cons.injEq, true_and, List.append_assoc,
    List.nil_append] at h
  induction s generalizing s' with
  | nil =>
    cases s' with
    | nil => exact ⟨rfl, (List.cons.inj h).2⟩
    | cons c s' =>
      rw [List.flatMap_cons, List.append_assoc] at h
      exact absurd h.symm escape_append_ne_quote
  | cons c s ih =>
    cases s' with
    | nil =>
      rw [List.flatMap_cons, List.append_assoc] at h
      exact absurd h escape_append_ne_quote
    | cons c' s' =>
      rw [List.flatMap_cons, List.flatMap_cons, List.append_assoc, List.append_assoc] at h
      obtain ⟨rfl, hrest⟩ := escape_append_inj h
      obtain ⟨rfl, hafter⟩ := ih hrest
      exact ⟨rfl, hafter⟩

/-! ## Documents -/

mutual

def print : Value ℤ → Str
  | .null => ['n', 'u', 'l', 'l']
  | .bool true => ['t', 'r', 'u', 'e']
  | .bool false => ['f', 'a', 'l', 's', 'e']
  | .num n => intText n
  | .str s => strText s
  | .arr [] => ['[', ']']
  | .arr (v :: vs) => '[' :: (print v ++ printElements vs)
  | .obj [] => ['\x7b', '\x7d']
  | .obj ((name, v) :: fs) => '\x7b' :: (strText name ++ ':' :: (print v ++ printMembers fs))

def printElements : List (Value ℤ) → Str
  | [] => [']']
  | v :: vs => ',' :: (print v ++ printElements vs)

def printMembers : List (Str × Value ℤ) → Str
  | [] => ['\x7d']
  | (name, v) :: fs => ',' :: (strText name ++ ':' :: (print v ++ printMembers fs))

end

def kind : Value ℤ → ℕ
  | .null => 0
  | .bool _ => 1
  | .num _ => 2
  | .str _ => 3
  | .arr _ => 4
  | .obj _ => 5

def kindOf (c : Char) : ℕ :=
  if c = 'n' then 0
  else if c = 't' || c = 'f' then 1
  else if c = '"' then 3
  else if c = '[' then 4
  else if c = '\x7b' then 5
  else if c = '-' || isDigit c then 2
  else 6

theorem kindOf_of_isDigit (h : isDigit c = true) : kindOf c = 2 := by
  have hne : ∀ d, isDigit d = false → c ≠ d := fun d hd hcd => by simp [← hcd, h] at hd
  simp [kindOf, h, hne 'n' rfl, hne 't' rfl, hne 'f' rfl, hne '"' rfl, hne '[' rfl, hne '\x7b' rfl]

theorem kindOf_head_intText (n : ℤ) : ∃ c t, intText n = c :: t ∧ kindOf c = 2 := by
  rcases n with n | n
  · obtain ⟨c, t, ht⟩ := List.exists_cons_of_ne_nil (natText_ne_nil n)
    exact ⟨c, t, ht, kindOf_of_isDigit (isDigit_natText (n := n) (by simp [ht]))⟩
  · exact ⟨'-', natText (n + 1), rfl, rfl⟩

theorem kindOf_head_print (v : Value ℤ) : ∃ c t, print v = c :: t ∧ kindOf c = kind v := by
  rcases v with _ | (_ | _) | n | s | (_ | ⟨v, vs⟩) | (_ | ⟨⟨name, v⟩, fs⟩)
  case num => simpa [print, kind] using kindOf_head_intText n
  all_goals exact ⟨_, _, rfl, rfl⟩

theorem kind_eq_of_print_append {v v' : Value ℤ}
    (h : print v ++ r = print v' ++ r') : kind v = kind v' := by
  obtain ⟨c, t, ht, hc⟩ := kindOf_head_print v
  obtain ⟨c', t', ht', hc'⟩ := kindOf_head_print v'
  rw [ht, ht', List.cons_append, List.cons_append] at h
  rw [← hc, ← hc', (List.cons.inj h).1]

theorem print_append_ne_bracket {v : Value ℤ} : print v ++ r ≠ ']' :: r' := by
  intro h
  obtain ⟨c, t, ht, hc⟩ := kindOf_head_print v
  rw [ht, List.cons_append] at h
  rw [(List.cons.inj h).1] at hc
  have hsix : kind v = 6 := hc.symm
  cases v <;> simp [kind] at hsix

theorem stops_cons {r : Str} (h : isDigit c = false) : Stops (c :: r) := by
  intro d hd
  rw [List.head?_cons, Option.mem_some_iff] at hd
  rw [← hd, h]

theorem stops_printElements (vs : List (Value ℤ)) (r : Str) : Stops (printElements vs ++ r) := by
  cases vs <;> exact stops_cons rfl

theorem stops_printMembers (fs : List (Str × Value ℤ)) (r : Str) :
    Stops (printMembers fs ++ r) := by
  cases fs <;> exact stops_cons rfl

mutual

theorem print_append_inj (v v' : Value ℤ) (r r' : Str) (hr : Stops r) (hr' : Stops r')
    (h : print v ++ r = print v' ++ r') : v = v' ∧ r = r' := by
  have hkind := kind_eq_of_print_append h
  match v, v' with
  | .null, .null => exact ⟨rfl, by simpa [print] using h⟩
  | .bool b, .bool b' =>
    cases b <;> cases b' <;> simp [print] at h ⊢
    · exact h
    · exact h
  | .num n, .num n' =>
    simp only [print] at h
    obtain ⟨rfl, hrest⟩ := intText_append_inj hr hr' h
    exact ⟨rfl, hrest⟩
  | .str s, .str s' =>
    simp only [print] at h
    obtain ⟨rfl, hrest⟩ := strText_append_inj h
    exact ⟨rfl, hrest⟩
  | .arr [], .arr [] => exact ⟨rfl, by simpa [print] using h⟩
  | .arr [], .arr (v :: vs) =>
    simp only [print, List.cons_append, List.append_assoc, List.cons.injEq, true_and] at h
    exact absurd h.symm print_append_ne_bracket
  | .arr (v :: vs), .arr [] =>
    simp only [print, List.cons_append, List.append_assoc, List.cons.injEq, true_and] at h
    exact absurd h print_append_ne_bracket
  | .arr (v :: vs), .arr (v' :: vs') =>
    obtain ⟨hvs, hafter⟩ := printElements_append_inj (v :: vs) (v' :: vs') r r'
      (congrArg (',' :: ·) (List.cons.inj h).2)
    exact ⟨by rw [hvs], hafter⟩
  | .obj [], .obj [] => exact ⟨rfl, by simpa [print] using h⟩
  | .obj [], .obj ((n, v) :: fs) | .obj ((n, v) :: fs), .obj [] => simp [print, strText] at h
  | .obj (f :: fs), .obj (f' :: fs') =>
    obtain ⟨hfs, hafter⟩ := printMembers_append_inj (f :: fs) (f' :: fs') r r'
      (congrArg (',' :: ·) (List.cons.inj h).2)
    exact ⟨by rw [hfs], hafter⟩

theorem printElements_append_inj (vs vs' : List (Value ℤ)) (r r' : Str)
    (h : printElements vs ++ r = printElements vs' ++ r') : vs = vs' ∧ r = r' := by
  match vs, vs' with
  | [], [] => exact ⟨rfl, by simpa [printElements] using h⟩
  | [], _ :: _ | _ :: _, [] => simp [printElements] at h
  | v :: vs, v' :: vs' =>
    simp only [printElements, List.cons_append, List.append_assoc, List.cons.injEq, true_and] at h
    obtain ⟨rfl, hrest⟩ :=
      print_append_inj v v' _ _ (stops_printElements vs r) (stops_printElements vs' r') h
    obtain ⟨rfl, hafter⟩ := printElements_append_inj vs vs' r r' hrest
    exact ⟨rfl, hafter⟩

theorem printMembers_append_inj (fs fs' : List (Str × Value ℤ)) (r r' : Str)
    (h : printMembers fs ++ r = printMembers fs' ++ r') : fs = fs' ∧ r = r' := by
  match fs, fs' with
  | [], [] => exact ⟨rfl, by simpa [printMembers] using h⟩
  | [], _ :: _ | _ :: _, [] => simp [printMembers] at h
  | (n, v) :: fs, (n', v') :: fs' =>
    simp only [printMembers, List.cons_append, List.append_assoc, List.cons.injEq, true_and] at h
    obtain ⟨rfl, hmember⟩ := strText_append_inj h
    obtain ⟨rfl, hrest⟩ := print_append_inj v v' _ _ (stops_printMembers fs r)
      (stops_printMembers fs' r') (List.cons.inj hmember).2
    obtain ⟨rfl, hafter⟩ := printMembers_append_inj fs fs' r r' hrest
    exact ⟨rfl, hafter⟩

end

/-- **Different documents have different texts.** -/
theorem print_injective : Function.Injective print := by
  intro v v' h
  have hstops : Stops [] := fun c hc => by simp at hc
  exact (print_append_inj v v' [] [] hstops hstops (by rw [h])).1

example : print (.obj [("a".toList, .arr [.num (-3), .null]), ("b".toList, .str ['<', '"'])]) =
    "\x7b\"a\":[-3,null],\"b\":\"\\u003c\\\"\"\x7d".toList := by
  rfl

end Json
