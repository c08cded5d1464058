import Edgelet.Machine.Run
import Mathlib.Algebra.GroupWithZero.Nat
import Mathlib.Algebra.Order.BigOperators.Group.List
import Mathlib.Algebra.Order.Group.Nat

/-!
# The budget of a log series

A series of log files has a budget, which is divided by the number of files. The writer rotates
before the active file would get larger than its share. It keeps the active file and as many older
ones as there should be files, and a file that an earlier limit has left behind the last one stays.
File operations succeed.
-/

namespace Edgelet.Logging

def mib : ℕ := 1024 * 1024

def computeMaxFileSize (maxFileSizeMB logFileCount : ℕ) : ℕ :=
  let logFileCount := if logFileCount < 1 then 1 else logFileCount
  let maxFileSize := maxFileSizeMB * mib / logFileCount
  let maxFileSize := if maxFileSize < mib then mib else maxFileSize
  if maxFileSize > 2 * 1024 * mib then 2 * 1024 * mib else maxFileSize

/-- The size of the active file, the numbers and sizes of the older ones, and the limits with the
budget that they come from. -/
structure RotatingWriter where
  currentSize : ℕ := 0
  backups : List (ℕ × ℕ) := []
  maxSize : ℕ
  maxBackups : ℕ
  maxFileSizeMB : ℕ

/-- The file `i` takes the place of the file `i + 1`. -/
def renameUp (i : ℕ) (backups : List (ℕ × ℕ)) : List (ℕ × ℕ) :=
  if backups.any (·.1 = i) then
    (backups.filter (·.1 ≠ i + 1)).map fun f => if f.1 = i then (i + 1, f.2) else f
  else backups

namespace RotatingWriter

/-- The loop of `rotate` from the file `i - 1` down; the last one that moves is the active file. -/
def rotateFrom : ℕ → RotatingWriter → RotatingWriter
  | 0, w => w
  | 1, w => { w with currentSize := 0, backups := (1, w.currentSize) :: w.backups.filter (·.1 ≠ 1) }
  | i + 2, w => rotateFrom (i + 1) { w with backups := renameUp (i + 1) w.backups }

variable (w : RotatingWriter) (maxFileSizeMB logFileCount : ℕ)

def rotate : RotatingWriter := w.rotateFrom w.maxBackups

def write (len : ℕ) : RotatingWriter :=
  let w := if w.currentSize + len > w.maxSize then w.rotate else w
  { w with currentSize := w.currentSize + len }

def setLimits : RotatingWriter :=
  { w with
    maxSize := computeMaxFileSize maxFileSizeMB logFileCount
    maxBackups := max 1 logFileCount
    maxFileSizeMB }

def new : RotatingWriter where
  maxSize := computeMaxFileSize maxFileSizeMB logFileCount
  maxBackups := logFileCount
  maxFileSizeMB

inductive Op
  | write (len : ℕ)
  | setLimits (maxFileSizeMB logFileCount : ℕ)

def step : Op → RotatingWriter
  | .write len => w.write len
  | .setLimits maxFileSizeMB logFileCount => w.setLimits maxFileSizeMB logFileCount

/-- The size of all files of the series. -/
def total : ℕ := w.currentSize + (w.backups.map (·.2)).sum

/-- The backups have different numbers from 1 to `n`, and none is larger than `size`. -/
structure Kept (n size : ℕ) (backups : List (ℕ × ℕ)) : Prop where
  numbers : (backups.map (·.1)).Nodup
  pos : ∀ f ∈ backups, 0 < f.1
  le : ∀ f ∈ backups, f.1 ≤ n
  small : ∀ f ∈ backups, f.2 ≤ size

/-- The files are those that the limits allow: the active file and every backup is no larger than
one file, the backups have different numbers up to the last, and the files are shares of the
budget. -/
structure Fits : Prop where
  current : w.currentSize ≤ w.maxSize
  kept : Kept w.maxBackups w.maxSize w.backups
  pos : 0 < w.maxBackups
  share : w.maxBackups * w.maxSize ≤ w.maxFileSizeMB * mib

/-- A record is no larger than one file, and it begins a new active file or finds one backup fewer
than there may be. New limits are a budget of at least 1 MiB a file, and find no file that is
larger or has a higher number than they allow. -/
def Spare : Op → Prop
  | .write len => len ≤ w.maxSize ∧
      (w.maxSize < w.currentSize + len ∨ w.currentSize = 0 ∨ w.backups.length < w.maxBackups)
  | .setLimits maxFileSizeMB logFileCount =>
    0 < logFileCount ∧ logFileCount ≤ maxFileSizeMB ∧
      w.currentSize ≤ computeMaxFileSize maxFileSizeMB logFileCount ∧
      ∀ f ∈ w.backups,
        f.1 ≤ logFileCount ∧ f.2 ≤ computeMaxFileSize maxFileSizeMB logFileCount

instance : DecidablePred w.Spare
  | .write _ => inferInstanceAs (Decidable (_ ∧ _))
  | .setLimits _ _ => inferInstanceAs (Decidable (_ ∧ _))

/-- A write leaves no more on disk than the budget and the record. -/
def Within : Op → Prop
  | .write len => (w.write len).total ≤ w.maxFileSizeMB * mib + len
  | .setLimits _ _ => True

/-! ## The files that the limits allow -/

section Limits

variable {w : RotatingWriter} {backups : List (ℕ × ℕ)} {i n size len maxFileSizeMB : ℕ}

theorem Kept.length_le (h : Kept n size backups) : backups.length ≤ n := by
  have hsub : backups.map (·.1) ⊆ List.range' 1 n := by
    intro i hi
    obtain ⟨f, hf, rfl⟩ := List.mem_map.mp hi
    have hpos := h.pos f hf
    have hle := h.le f hf
    exact List.mem_range'_1.mpr ⟨hpos, by omega⟩
  simpa using (List.subperm_of_subset h.numbers hsub).length_le

theorem Kept.sum_le (h : Kept n size backups) :
    (backups.map (·.2)).sum ≤ backups.length * size := by
  simpa using List.sum_le_card_nsmul (backups.map (·.2)) size fun size hsize => by
    obtain ⟨f, hf, rfl⟩ := List.mem_map.mp hsize
    exact h.small f hf

theorem Kept.filter (h : Kept n size backups) (p : ℕ × ℕ → Bool) :
    Kept n size (backups.filter p) where
  numbers := h.numbers.sublist (List.filter_sublist.map _)
  pos f hf := h.pos f (List.mem_filter.mp hf).1
  le f hf := h.le f (List.mem_filter.mp hf).1
  small f hf := h.small f (List.mem_filter.mp hf).1

/-- The files that a renaming leaves are those before it, the renamed one under its new number. -/
theorem mem_renameUp {f : ℕ × ℕ} (h : f ∈ renameUp i backups) :
    f ∈ backups ∨ f.1 = i + 1 ∧ (i, f.2) ∈ backups := by
  unfold renameUp at h
  split at h
  · obtain ⟨g, hg, rfl⟩ := List.mem_map.mp h
    obtain ⟨hg, -⟩ := List.mem_filter.mp hg
    split
    case isTrue hi => exact .inr ⟨rfl, hi ▸ hg⟩
    case isFalse => exact .inl hg
  · exact .inl h

theorem nodup_renameUp (h : (backups.map (·.1)).Nodup) :
    ((renameUp i backups).map (·.1)).Nodup := by
  unfold renameUp
  split
  · have hkeys : ((backups.filter (·.1 ≠ i + 1)).map
        fun f => if f.1 = i then (i + 1, f.2) else f).map (·.1) =
        ((backups.filter (·.1 ≠ i + 1)).map (·.1)).map fun j => if j = i then i + 1 else j := by
      simp only [List.map_map]
      congr 1
      funext f
      simp only [Function.comp_apply]
      split <;> rfl
    rw [hkeys]
    refine List.Nodup.map_on ?_ (h.sublist (List.filter_sublist.map _))
    intro j hj j' hj' heq
    simp only [List.mem_map, List.mem_filter, decide_eq_true_eq] at hj hj'
    obtain ⟨f, ⟨-, hf⟩, rfl⟩ := hj
    obtain ⟨f', ⟨-, hf'⟩, rfl⟩ := hj'
    split at heq <;> split at heq <;> omega
  · exact h

theorem Kept.renameUp (h : Kept n size backups) (hi : i < n) :
    Kept n size (renameUp i backups) where
  numbers := nodup_renameUp h.numbers
  pos f hf := by
    rcases mem_renameUp hf with hf | ⟨hf, -⟩
    · exact h.pos f hf
    · omega
  le f hf := by
    rcases mem_renameUp hf with hf | ⟨hf, -⟩
    · exact h.le f hf
    · omega
  small f hf := by
    rcases mem_renameUp hf with hf | ⟨-, hf⟩
    · exact h.small f hf
    · exact h.small (i, f.2) hf

theorem Kept.rotateFrom (h : Kept n size w.backups) (hcurrent : w.currentSize ≤ size)
    (hi : i ≤ n) : Kept n size (w.rotateFrom i).backups := by
  induction i, w using rotateFrom.induct with
  | case1 w => exact h
  | case2 w =>
    have hrest := h.filter (·.1 ≠ 1)
    have hne : 1 ∉ (w.backups.filter (·.1 ≠ 1)).map (·.1) := by simp
    exact {
      numbers := List.nodup_cons.mpr ⟨hne, hrest.numbers⟩
      pos := List.forall_mem_cons.mpr ⟨Nat.one_pos, hrest.pos⟩
      le := List.forall_mem_cons.mpr ⟨hi, hrest.le⟩
      small := List.forall_mem_cons.mpr ⟨hcurrent, hrest.small⟩ }
  | case3 i w ih =>
    rw [RotatingWriter.rotateFrom]
    exact ih (h.renameUp (by omega)) hcurrent (by omega)

/-- A rotation empties the active file and keeps the limits. -/
theorem rotateFrom_eq (hi : 0 < i) :
    w.rotateFrom i = { w with currentSize := 0, backups := (w.rotateFrom i).backups } := by
  induction i, w using rotateFrom.induct with
  | case1 w => omega
  | case2 w => rfl
  | case3 i w ih =>
    rw [rotateFrom]
    exact ih (by omega)

theorem write_of_gt (hpos : 0 < w.maxBackups) (h : w.maxSize < w.currentSize + len) :
    w.write len = { w with currentSize := len, backups := w.rotate.backups } := by
  have hrotate : w.rotate = { w with currentSize := 0, backups := w.rotate.backups } :=
    rotateFrom_eq hpos
  rw [write, if_pos h, hrotate]
  simp

theorem write_of_le (h : w.currentSize + len ≤ w.maxSize) :
    w.write len = { w with currentSize := w.currentSize + len } := by
  rw [write, if_neg (by omega)]

theorem mib_le_div (hpos : 0 < n) (hle : n ≤ maxFileSizeMB) :
    mib ≤ maxFileSizeMB * mib / n :=
  (Nat.le_div_iff_mul_le hpos).mpr (by rw [Nat.mul_comm]; exact Nat.mul_le_mul_right _ hle)

theorem computeMaxFileSize_eq_min (hpos : 0 < n) (hle : n ≤ maxFileSizeMB) :
    computeMaxFileSize maxFileSizeMB n = min (maxFileSizeMB * mib / n) (2 * 1024 * mib) := by
  have hmib := mib_le_div hpos hle
  unfold computeMaxFileSize
  simp only [if_neg (show ¬ n < 1 by omega), if_neg (not_lt.mpr hmib)]
  split
  · rw [min_eq_right (by omega)]
  · rw [min_eq_left (by omega)]

theorem mul_computeMaxFileSize_le (hpos : 0 < n) (hle : n ≤ maxFileSizeMB) :
    n * computeMaxFileSize maxFileSizeMB n ≤ maxFileSizeMB * mib := by
  rw [computeMaxFileSize_eq_min hpos hle]
  exact (Nat.mul_le_mul_left n (min_le_left ..)).trans (Nat.mul_div_le ..)

theorem fits_new (hpos : 0 < n) (hle : n ≤ maxFileSizeMB) :
    (new maxFileSizeMB n).Fits where
  current := Nat.zero_le _
  kept := ⟨List.nodup_nil, nofun, nofun, nofun⟩
  pos := hpos
  share := mul_computeMaxFileSize_le hpos hle

theorem Fits.setLimits (h : w.Fits) (hpos : 0 < n) (hle : n ≤ maxFileSizeMB)
    (hcurrent : w.currentSize ≤ computeMaxFileSize maxFileSizeMB n)
    (hfiles : ∀ f ∈ w.backups, f.1 ≤ n ∧ f.2 ≤ computeMaxFileSize maxFileSizeMB n) :
    (w.setLimits maxFileSizeMB n).Fits := by
  have heq : w.setLimits maxFileSizeMB n =
      { w with maxSize := computeMaxFileSize maxFileSizeMB n, maxBackups := n, maxFileSizeMB } := by
    rw [RotatingWriter.setLimits, max_eq_right hpos]
  rw [heq]
  exact {
    current := hcurrent
    kept := ⟨h.kept.numbers, h.kept.pos, fun f hf => (hfiles f hf).1, fun f hf => (hfiles f hf).2⟩
    pos := hpos
    share := mul_computeMaxFileSize_le hpos hle }

theorem Fits.step {op : Op} (h : w.Fits) (hspare : w.Spare op) : (w.step op).Fits := by
  cases op with
  | write len =>
    by_cases hgt : w.maxSize < w.currentSize + len
    · rw [RotatingWriter.step, write_of_gt h.pos hgt]
      exact ⟨hspare.1, h.kept.rotateFrom h.current le_rfl, h.pos, h.share⟩
    · rw [RotatingWriter.step, write_of_le (not_lt.mp hgt)]
      exact ⟨not_lt.mp hgt, h.kept, h.pos, h.share⟩
  | setLimits maxFileSizeMB logFileCount =>
    obtain ⟨hpos, hle, hcurrent, hfiles⟩ := hspare
    exact h.setLimits hpos hle hcurrent hfiles

theorem Fits.within {op : Op} (h : w.Fits) (hspare : w.Spare op) : w.Within op := by
  cases op with
  | setLimits => trivial
  | write len =>
    have hshare := h.share
    by_cases hgt : w.maxSize < w.currentSize + len
    · have hkept : Kept w.maxBackups w.maxSize w.rotate.backups :=
        h.kept.rotateFrom h.current le_rfl
      have hfiles := Nat.mul_le_mul_right w.maxSize hkept.length_le
      have hsum := hkept.sum_le
      simp only [Within, write_of_gt h.pos hgt, total]
      omega
    · have hsum := h.kept.sum_le
      simp only [Within, write_of_le (not_lt.mp hgt), total]
      rcases hspare.2 with hgt' | hzero | hfew
      · exact absurd hgt' hgt
      · have hfiles := Nat.mul_le_mul_right w.maxSize h.kept.length_le
        omega
      · have hfiles := Nat.mul_le_mul_right w.maxSize (Nat.succ_le_of_lt hfew)
        rw [Nat.succ_mul] at hfiles
        omega

end Limits

/-- **When a series stays within its budget.** From files that the limits allow, every write of a
sequence leaves no more than the budget and the record, when every record begins a new active file
or finds one backup fewer than there may be, and new limits allow the files they find. -/
theorem within_budget_of_spare (w : RotatingWriter) (ops : List Op) (hfits : w.Fits)
    (hspare : Machine.Along (fun w op => some (w.step op)) Spare w ops) :
    Machine.Along (fun w op => some (w.step op)) Within w ops := by
  refine Machine.along_of_along ?_ (fun w op h hop => h.within hop) hfits hspare
  rintro w op w' h hop ⟨⟩
  exact h.step hop

/-- Two files of 5 MiB, and then three of 4 MiB: the series rotates, and all files stay. -/
theorem within_budget_of_spare_two_limits :
    let ops := [.write (4 * mib), .write (2 * mib), .setLimits 12 3, .write mib, .write (4 * mib)]
    Machine.Along (fun w op => some (w.step op)) Within (new 10 2) ops ∧
      (ops.foldl step (new 10 2)).total = 11 * mib :=
  ⟨within_budget_of_spare _ _ (fits_new (by decide) (by decide)) (by decide), by decide⟩

/-- **The budget is exceeded for every number of files.** For every budget of at least 1 MiB for
each of `n` files that is not capped, a record of one byte that fills the active file beside `n`
full backups leaves more than the budget and the record. -/
theorem budget_exceeded {maxFileSizeMB n : ℕ} (hn : 0 < n) (hmib : n < mib)
    (hle : n ≤ maxFileSizeMB) (hcap : maxFileSizeMB ≤ 2 * 1024 * n) :
    let size := computeMaxFileSize maxFileSizeMB n
    let w : RotatingWriter := { new maxFileSizeMB n with
      currentSize := size - 1, backups := (List.range' 1 n).map (·, size) }
    w.Fits ∧ maxFileSizeMB * mib + 1 < (w.write 1).total := by
  intro size w
  have hsize : size = maxFileSizeMB * mib / n := by
    rw [show size = _ from computeMaxFileSize_eq_min hn hle]
    refine min_eq_left (Nat.div_le_of_le_mul ?_)
    rw [← Nat.mul_assoc, Nat.mul_comm n]
    exact Nat.mul_le_mul_right _ hcap
  have hge : mib ≤ size := hsize ▸ mib_le_div hn hle
  constructor
  · have hfile : ∀ f ∈ w.backups, 0 < f.1 ∧ f.1 ≤ n ∧ f.2 ≤ size := by
      intro f hf
      obtain ⟨i, hi, rfl⟩ := List.mem_map.mp hf
      have hi := List.mem_range'_1.mp hi
      exact ⟨hi.1, by omega, le_rfl⟩
    have hnodup : (w.backups.map (·.1)).Nodup := by
      simpa [w, Function.comp_def] using List.nodup_range'
    refine ⟨Nat.sub_le .., ⟨hnodup, ?_, ?_, ?_⟩, hn, mul_computeMaxFileSize_le hn hle⟩
    · exact fun f hf => (hfile f hf).1
    · exact fun f hf => (hfile f hf).2.1
    · exact fun f hf => (hfile f hf).2.2
  · have hwrite : w.write 1 = { w with currentSize := size - 1 + 1 } :=
      write_of_le (show size - 1 + 1 ≤ size by omega)
    have hsum : (w.backups.map (·.2)).sum = n * size := by
      simp [w, Function.comp_def]
    have hmod := Nat.div_add_mod (maxFileSizeMB * mib) n
    have hlt := Nat.mod_lt (maxFileSizeMB * mib) hn
    rw [← hsize] at hmod
    simp only [hwrite, total, hsum]
    omega

/-- With a budget of 10 MiB for one file, records of 1 MiB come to 20 MiB. -/
theorem budget_doubled :
    ((List.replicate 20 (.write mib)).foldl step (new 10 1)).total = 20 * mib ∧
      10 * mib + mib < 20 * mib := by
  decide

end RotatingWriter

end Edgelet.Logging
