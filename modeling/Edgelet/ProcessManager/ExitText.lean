import Edgelet.Codec.JsonText
import Edgelet.ProcessManager.Reconcile

/-!
# The text of an exited container

The engine writes the reason, the exit code and the message of an exited container into one text,
and the reconcile searches it for the keys of the first two. Nothing is escaped: a reason with a
space is cut, and one that holds the key of the exit code is taken for it.
-/

namespace Edgelet.ProcessManager

open Lexical Json

/-! ## Writing -/

inductive ContainerState
  | created
  | running
  | exited
  | unknown

def reasonOrUnknown (reason : Str) : Str :=
  if trimSpace reason = [] then "UNKNOWN".toList else trimSpace reason

def reasonKey : Str := "CRI reason=".toList

def exitCodeKey : Str := "exitCode=".toList

def classifyMissingTask (state : ContainerState) (reason : Str) (exitCode : Int32)
    (message : Str) : MicroserviceState × Str :=
  let msState := match state with
    | .created => .created
    | .running => .running
    | .exited => .exiting
    | .unknown => .unknown
  if msState ≠ .exiting then (msState, [])
  else
    let reason := trimSpace reason
    let message := trimSpace message
    if reason = [] ∧ message = [] ∧ exitCode = 0 then (msState, [])
    else
      (msState, reasonKey ++ reasonOrUnknown reason ++ [' '] ++ exitCodeKey ++
        intText exitCode.toInt ++ " message=".toList ++ message)

/-! ## Reading -/

def afterFirst (key : Str) : Str → Option Str
  | [] => if key = [] then some [] else none
  | c :: s => if key <+: c :: s then some ((c :: s).drop key.length) else afterFirst key s

def valueOf (rest : Str) : Str := trimSpace (rest.takeWhile (· ≠ ' '))

def decimal (digits : Str) : ℕ := digits.foldl (fun n c => 10 * n + (c.toNat - 48)) 0

def parseDigits (negative : Bool) (digits : Str) : Option Int32 :=
  let n : ℤ := if negative then -decimal digits else decimal digits
  if digits ≠ [] ∧ digits.all isDigit = true ∧ -2 ^ 31 ≤ n ∧ n < 2 ^ 31 then some (.ofInt n)
  else none

def parseInt32 : Str → Option Int32
  | [] => none
  | c :: s =>
    if c = '-' then parseDigits true s
    else if c = '+' then parseDigits false s
    else parseDigits false (c :: s)

def parseCRIReasonAndExitCode (message : Str) : Str × Int32 :=
  let trimmed := trimSpace message
  if trimmed = [] then ([], 0)
  else
    ((afterFirst reasonKey trimmed).elim [] valueOf,
      ((afterFirst exitCodeKey trimmed).bind fun rest => parseInt32 (valueOf rest)).getD 0)

/-! ## Numbers -/

theorem decimal_natText (n : ℕ) : decimal (natText n) = n := by
  have hdigit : ∀ d < 10, d.digitChar.toNat - 48 = d := by decide
  unfold natText
  split_ifs with hn
  · rw [hn]
    rfl
  · rw [decimal, List.foldl_map, List.foldl_reverse]
    conv_rhs => rw [← Nat.ofDigits_digits 10 n, Nat.ofDigits_eq_foldr]
    refine List.foldr_ext _ _ _ fun d hd m => ?_
    rw [hdigit d (Nat.digits_lt_base (by decide) hd), Nat.add_comm]
    rfl

theorem parseInt32_intText (n : Int32) : parseInt32 (intText n.toInt) = some n := by
  have hlow := n.le_toInt
  have hhigh := n.toInt_lt
  have hdigits : ∀ k, natText k ≠ [] ∧ (natText k).all isDigit = true := fun k =>
    ⟨natText_ne_nil k, List.all_eq_true.mpr fun _ => isDigit_natText⟩
  conv_rhs => rw [← n.ofInt_toInt]
  generalize n.toInt = z at hlow hhigh ⊢
  rcases z with k | k
  · obtain ⟨c, t, hct⟩ := List.exists_cons_of_ne_nil (hdigits k).1
    have hc : isDigit c = true := isDigit_natText (n := k) (by simp [hct])
    rw [intText, hct, parseInt32, if_neg, if_neg, ← hct, parseDigits]
    · simp only [Bool.false_eq_true, if_false, decimal_natText]
      rw [if_pos ⟨(hdigits k).1, (hdigits k).2, hlow, hhigh⟩]
      rfl
    · rintro rfl
      cases hc
    · rintro rfl
      cases hc
  · rw [intText, parseInt32, if_pos rfl, parseDigits]
    simp only [if_true, decimal_natText]
    rw [if_pos ⟨(hdigits _).1, (hdigits _).2, hlow, hhigh⟩]
    rfl

/-! ## Keys -/

section Keys

variable {key a b : Str}

theorem afterFirst_append (hkey : key ≠ []) : afterFirst key (key ++ a) = some a := by
  obtain ⟨c, key, rfl⟩ := List.exists_cons_of_ne_nil hkey
  rw [List.cons_append, afterFirst, if_pos (by simp), ← List.cons_append, List.drop_left]

theorem afterFirst_append_space (hkey : key ≠ []) (hspace : ' ' ∉ key) :
    afterFirst key (a ++ ' ' :: b) =
      ((afterFirst key a).map (· ++ ' ' :: b)).or (afterFirst key b) := by
  induction a with
  | nil =>
    have hnot : ¬ key <+: ' ' :: b := fun ⟨t, ht⟩ => by
      obtain ⟨c, key, rfl⟩ := List.exists_cons_of_ne_nil hkey
      exact hspace ((List.cons.inj ht).1 ▸ List.mem_cons_self)
    simp [afterFirst, hnot, hkey]
  | cons c a ih =>
    have hiff : key <+: c :: a ++ ' ' :: b ↔ key <+: c :: a := by
      refine ⟨fun h => ?_, fun h => h.trans (List.prefix_append _ _)⟩
      rcases List.prefix_or_prefix_of_prefix h (List.prefix_append _ _) with h' | ⟨r, rfl⟩
      · exact h'
      · cases r with
        | nil => simp
        | cons d r =>
          obtain ⟨rfl, -⟩ := List.cons_prefix_cons.mp ((List.prefix_append_right_inj _).mp h)
          simp at hspace
    rw [List.cons_append, afterFirst, afterFirst, ← List.cons_append]
    simp only [hiff]
    split
    next hpre => rw [List.drop_append_of_le_length hpre.length_le]; rfl
    next => exact ih

theorem takeWhile_append_space (a b : Str) :
    (a ++ ' ' :: b).takeWhile (· ≠ ' ') = a.takeWhile (· ≠ ' ') := by
  induction a with
  | nil => simp
  | cons c a ih =>
    rw [List.cons_append, List.takeWhile_cons, List.takeWhile_cons, ih]

theorem valueOf_append_of_notMem (hspace : ' ' ∉ a) : valueOf (a ++ ' ' :: b) = trimSpace a := by
  rw [valueOf, takeWhile_append_space, List.takeWhile_eq_self_iff.mpr fun c hc => by
    simpa using ne_of_mem_of_not_mem hc hspace]

theorem valueOf_append_space (htrim : trimSpace a = a) : valueOf (a ++ ' ' :: b) = a ↔ ' ' ∉ a := by
  have hsub : (trimSpace (a.takeWhile (· ≠ ' '))).length ≤ (a.takeWhile (· ≠ ' ')).length :=
    (List.rdropWhile_prefix _ _).length_le.trans (List.dropWhile_sublist _).length_le
  refine ⟨fun h hspace => ?_, fun hspace => (valueOf_append_of_notMem hspace).trans htrim⟩
  rw [valueOf, takeWhile_append_space] at h
  rw [h] at hsub
  have hall := (List.takeWhile_prefix (fun c => decide (c ≠ ' '))).eq_of_length_le hsub
  rw [← hall] at hspace
  simpa using List.mem_takeWhile_imp hspace

end Keys

section RoundTrip

variable {state : ContainerState} {reason message : Str} {exitCode : Int32}

theorem trimSpace_reasonOrUnknown :
    trimSpace (reasonOrUnknown reason) = reasonOrUnknown reason := by
  unfold reasonOrUnknown
  split
  · rfl
  · exact trimSpace_trimSpace _

def exitText (reason code message : Str) : Str :=
  reasonKey ++ (reason ++ ' ' :: (exitCodeKey ++ (code ++ ' ' :: ("message=".toList ++ message))))

theorem classifyMissingTask_text (h : (classifyMissingTask state reason exitCode message).2 ≠ []) :
    (classifyMissingTask state reason exitCode message).2 =
      exitText (reasonOrUnknown reason) (intText exitCode.toInt) (trimSpace message) := by
  have hreason : reasonOrUnknown (trimSpace reason) = reasonOrUnknown reason := by
    rw [reasonOrUnknown, trimSpace_trimSpace]
    rfl
  revert h
  cases state <;> simp only [classifyMissingTask]
  case exited =>
    rw [if_neg (by simp)]
    split_ifs
    · exact fun h => absurd rfl h
    · simp only [hreason, List.append_assoc]
      exact fun _ => rfl
  all_goals exact fun h => absurd rfl h

theorem isSpace_of_mem_intText {n : ℤ} {c : Char} (h : c ∈ intText n) : isSpace c = false := by
  have hnat : ∀ k, c ∈ natText k → isSpace c = false := by
    intro k hk
    have hdigit := isDigit_natText hk
    simp only [isDigit, Bool.and_eq_true, decide_eq_true_eq] at hdigit
    have hrange : 48 ≤ c.toNat ∧ c.toNat ≤ 57 := hdigit
    simp only [isSpace, Bool.or_eq_false_iff, Bool.and_eq_false_iff, decide_eq_false_iff_not,
      beq_eq_false_iff_ne]
    omega
  cases n with
  | ofNat k => exact hnat k h
  | negSucc k =>
    rcases List.mem_cons.mp h with rfl | h
    · rfl
    · exact hnat _ h

theorem mem_of_afterFirst {key s rest : Str} (h : afterFirst key s = some rest) : rest ⊆ s := by
  induction s with
  | nil =>
    rw [afterFirst] at h
    split at h
    · rw [Option.some.inj h.symm]
      exact List.Subset.refl _
    · cases h
  | cons c s ih =>
    rw [afterFirst] at h
    split at h
    · rw [Option.some.inj h.symm]
      exact List.drop_subset _ _
    · exact fun d hd => List.mem_cons_of_mem _ (ih h hd)

theorem trimSpace_exitText (r n : Str) :
    trimSpace (exitText r n (trimSpace message)) = exitText r n (trimSpace message) := by
  refine trimSpace_eq_self (fun c hc => ?_) fun c hc => ?_
  · obtain rfl : 'C' = c := Option.some.inj hc
    rfl
  · have hassoc : exitText r n (trimSpace message) = (reasonKey ++ r ++ ' ' :: exitCodeKey ++ n ++
        ' ' :: "message=".toList) ++ trimSpace message := by simp [exitText]
    rw [hassoc, List.getLast?_append] at hc
    cases hmessage : (trimSpace message).getLast? with
    | none =>
      rw [hmessage, Option.none_or, List.getLast?_append] at hc
      obtain rfl : '=' = c := Option.some.inj hc
      rfl
    | some d =>
      rw [hmessage, Option.some_or] at hc
      exact isSpace_getLast_trimSpace message c (hmessage.trans hc)

theorem afterFirst_reasonKey (s : Str) :
    afterFirst exitCodeKey (reasonKey ++ s) = afterFirst exitCodeKey s := by
  rfl

end RoundTrip

/-- **When the reason and the exit code survive**: exactly when there is no space in the reason, and
what it holds behind the key of the exit code, if anything, is the exit code. -/
theorem exit_text_survives_iff (state : ContainerState) (reason : Str) (exitCode : Int32)
    (message : Str) (h : (classifyMissingTask state reason exitCode message).2 ≠ []) :
    parseCRIReasonAndExitCode (classifyMissingTask state reason exitCode message).2 =
        (reasonOrUnknown reason, exitCode) ↔
      ' ' ∉ reasonOrUnknown reason ∧
        ∀ rest, afterFirst exitCodeKey (reasonOrUnknown reason) = some rest →
          (parseInt32 (trimSpace rest)).getD 0 = exitCode := by
  rw [classifyMissingTask_text h]
  rw [parseCRIReasonAndExitCode]
  simp only [trimSpace_exitText]
  rw [exitText, if_neg (List.append_ne_nil_of_left_ne_nil (by decide) _),
    afterFirst_append (by decide), Option.elim_some, Prod.mk.injEq,
    valueOf_append_space trimSpace_reasonOrUnknown]
  refine and_congr_right fun hspace => ?_
  rw [afterFirst_reasonKey, afterFirst_append_space (by decide) (by decide),
    afterFirst_append (by decide)]
  cases hrest : afterFirst exitCodeKey (reasonOrUnknown reason) with
  | none =>
    have hcode : ' ' ∉ intText exitCode.toInt := fun hc => by cases isSpace_of_mem_intText hc
    have htrim : trimSpace (intText exitCode.toInt) = intText exitCode.toInt :=
      trimSpace_eq_self (fun _ hc => isSpace_of_mem_intText (List.mem_of_mem_head? hc))
        fun _ hc => isSpace_of_mem_intText (List.mem_of_mem_getLast? hc)
    rw [Option.map_none, Option.none_or, Option.bind_some, valueOf_append_of_notMem hcode, htrim,
      parseInt32_intText]
    exact iff_of_true rfl (by simp)
  | some rest =>
    have hcode : ' ' ∉ rest := fun hc => hspace (mem_of_afterFirst hrest hc)
    rw [Option.map_some, Option.some_or, Option.bind_some, valueOf_append_of_notMem hcode]
    exact ⟨fun h _ hr => Option.some.inj hr ▸ h, fun h => h rest rfl⟩

/-- An ordinary exit is read back. -/
theorem oom_exit_survives :
    (classifyMissingTask .exited "OOMKilled".toList 137 []).2 ≠ [] ∧
      parseCRIReasonAndExitCode (classifyMissingTask .exited "OOMKilled".toList 137 []).2 =
        ("OOMKilled".toList, 137) := by
  have htext : (classifyMissingTask .exited "OOMKilled".toList 137 []).2 ≠ [] :=
    List.cons_ne_nil 'C' _
  refine ⟨htext, (exit_text_survives_iff .exited "OOMKilled".toList 137 [] htext).mpr ⟨?_, ?_⟩⟩
  · decide
  · intro rest hrest
    cases hrest

/-- A reason of two words loses the second, and the text of a reason is taken for the exit code. -/
theorem exit_reason_cut :
    parseCRIReasonAndExitCode (classifyMissingTask .exited "Start Error".toList 1 []).2 =
        ("Start".toList, 1) ∧
      parseCRIReasonAndExitCode (classifyMissingTask .exited "exitCode=0".toList 1 []).2 =
        ("exitCode=0".toList, 0) :=
  ⟨rfl, rfl⟩

end Edgelet.ProcessManager
