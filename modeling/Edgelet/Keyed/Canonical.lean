import Mathlib.Data.List.Nodup
import Mathlib.Data.List.Sort

/-!
# Canonical lists

A list whose order and repetitions mean nothing is sorted by one key, and of the elements with
another key the first is kept. The sort is any function that returns its argument in the order of
the keys. Lists with the same elements have the same canonical form, and no others do
(`mem_iff_of_dedupe_sort_eq`, `dedupe_sort_eq_of_mem_iff`).
-/

namespace Keyed

variable {α κ : Type}

/-! ## Sorting -/

structure SortFunc (κ : Type) [LinearOrder κ] where
  sort : {α : Type} → (α → κ) → List α → List α
  perm : ∀ {α : Type} (key : α → κ) (xs : List α), (sort key xs).Perm xs
  sorted : ∀ {α : Type} (key : α → κ) (xs : List α),
    (sort key xs).Pairwise fun x y => key x ≤ key y

def SortFunc.merge (κ : Type) [LinearOrder κ] : SortFunc κ where
  sort key xs := xs.mergeSort fun x y => key x ≤ key y
  perm _ xs := List.mergeSort_perm xs _
  sorted key xs := by
    have hsorted := @List.pairwise_mergeSort _ (fun x y => decide (key x ≤ key y))
      (fun x y z hxy hyz => by
        simp only [decide_eq_true_eq] at hxy hyz ⊢
        exact hxy.trans hyz)
      (fun x y => by simpa using le_total (key x) (key y)) xs
    exact hsorted.imp fun h => by simpa using h

def SortFunc.insertion (κ : Type) [LinearOrder κ] : SortFunc κ where
  sort key xs := xs.insertionSort fun x y => key x ≤ key y
  perm _ xs := List.perm_insertionSort _ xs
  sorted key xs :=
    haveI : Std.Total fun x y => key x ≤ key y := ⟨fun _ _ => le_total _ _⟩
    haveI : IsTrans _ fun x y => key x ≤ key y := ⟨fun _ _ _ => le_trans⟩
    List.pairwise_insertionSort _ xs

theorem SortFunc.filter_insertion [LinearOrder κ] (key : α → κ) (xs : List α) (k : κ) :
    ((insertion κ).sort key xs).filter (key · = k) = xs.filter (key · = k) := by
  have hsub : (xs.filter (key · = k)).Sublist ((insertion κ).sort key xs) := by
    refine List.sublist_insertionSort (List.pairwise_of_forall_mem_list ?_) List.filter_sublist
    intro x hx y hy
    simp only [List.mem_filter, decide_eq_true_eq] at hx hy
    exact (hx.2.trans hy.2.symm).le
  have hsub' := hsub.filter (key · = k)
  simp only [List.filter_filter, Bool.and_self] at hsub'
  exact (hsub'.eq_of_length (((insertion κ).perm key xs).filter _).length_eq.symm).symm

/-- Where the key tells the elements apart, the order of a list does not matter to a sort. -/
theorem SortFunc.sort_eq_of_perm [LinearOrder κ] (srt : SortFunc κ) {key : α → κ} {xs ys : List α}
    (hkey : ∀ x ∈ xs, ∀ y ∈ xs, key x = key y → x = y) (h : xs.Perm ys) :
    srt.sort key xs = srt.sort key ys := by
  refine (((srt.perm key xs).trans h).trans (srt.perm key ys).symm).eq_of_pairwise ?_
    (srt.sorted key xs) (srt.sorted key ys)
  intro x y hx hy hxy hyx
  exact hkey x ((srt.perm key xs).mem_iff.mp hx) y
    (h.mem_iff.mpr ((srt.perm key ys).mem_iff.mp hy)) (le_antisymm hxy hyx)

@[simp] theorem SortFunc.mem_sort [LinearOrder κ] (srt : SortFunc κ) {key : α → κ} {xs : List α}
    {x : α} : x ∈ srt.sort key xs ↔ x ∈ xs :=
  (srt.perm key xs).mem_iff

/-! ## Keeping the first element with a key -/

variable [DecidableEq κ]

def dedupeFrom (key : α → κ) (seen : List κ) : List α → List α
  | [] => []
  | x :: xs =>
    if key x ∈ seen then dedupeFrom key seen xs else x :: dedupeFrom key (key x :: seen) xs

def dedupe (key : α → κ) (xs : List α) : List α := dedupeFrom key [] xs

variable {key : α → κ} {seen : List κ} {xs : List α} {x : α}

theorem dedupeFrom_sublist (key : α → κ) (seen : List κ) (xs : List α) :
    (dedupeFrom key seen xs).Sublist xs := by
  induction xs generalizing seen with
  | nil => exact List.Sublist.refl _
  | cons x xs ih =>
    unfold dedupeFrom
    split_ifs
    · exact (ih seen).cons x
    · exact (ih (key x :: seen)).cons_cons x

theorem dedupe_sublist (key : α → κ) (xs : List α) : (dedupe key xs).Sublist xs :=
  dedupeFrom_sublist key [] xs

theorem notMem_seen_of_mem_dedupeFrom (h : x ∈ dedupeFrom key seen xs) : key x ∉ seen := by
  induction xs generalizing seen with
  | nil => simp [dedupeFrom] at h
  | cons y xs ih =>
    unfold dedupeFrom at h
    split_ifs at h with hseen
    · exact ih h
    · rcases List.mem_cons.mp h with rfl | h
      · exact hseen
      · exact fun hmem => ih h (List.mem_cons_of_mem _ hmem)

theorem nodup_map_dedupeFrom (key : α → κ) (seen : List κ) (xs : List α) :
    ((dedupeFrom key seen xs).map key).Nodup := by
  induction xs generalizing seen with
  | nil => exact List.nodup_nil
  | cons x xs ih =>
    unfold dedupeFrom
    split_ifs
    · exact ih seen
    · rw [List.map_cons, List.nodup_cons]
      refine ⟨fun hmem => ?_, ih _⟩
      obtain ⟨y, hy, hkey⟩ := List.mem_map.mp hmem
      exact notMem_seen_of_mem_dedupeFrom hy (by simp [hkey])

theorem nodup_dedupe (key : α → κ) (xs : List α) : (dedupe key xs).Nodup :=
  (nodup_map_dedupeFrom key [] xs).of_map

theorem exists_mem_dedupeFrom (hx : x ∈ xs) (hseen : key x ∉ seen) :
    ∃ y ∈ dedupeFrom key seen xs, key y = key x := by
  induction xs generalizing seen with
  | nil => simp at hx
  | cons z xs ih =>
    unfold dedupeFrom
    rcases List.mem_cons.mp hx with rfl | hx
    · rw [if_neg hseen]
      exact ⟨x, List.mem_cons_self, rfl⟩
    · split_ifs with hz
      · exact ih hx hseen
      · by_cases hkey : key x = key z
        · exact ⟨z, List.mem_cons_self, hkey.symm⟩
        · have hnot : key x ∉ key z :: seen := by simp [hkey, hseen]
          obtain ⟨y, hy, hyx⟩ := ih hx hnot
          exact ⟨y, List.mem_cons_of_mem _ hy, hyx⟩

theorem exists_mem_dedupe (hx : x ∈ xs) : ∃ y ∈ dedupe key xs, key y = key x :=
  exists_mem_dedupeFrom hx List.not_mem_nil

theorem mem_dedupe_iff (hkey : ∀ x ∈ xs, ∀ y ∈ xs, key x = key y → x = y) :
    x ∈ dedupe key xs ↔ x ∈ xs := by
  refine ⟨fun h => (dedupe_sublist key xs).subset h, fun h => ?_⟩
  obtain ⟨y, hy, hyx⟩ : ∃ y ∈ dedupe key xs, key y = key x := exists_mem_dedupe h
  rwa [hkey x h y ((dedupe_sublist key xs).subset hy) hyx.symm]

/-! ## Canonical forms -/

section Canonical

variable {ο : Type} [LinearOrder ο] (srt : SortFunc ο) {order : α → ο} {ys : List α}

section

variable (hkey : ∀ x ∈ xs, ∀ y ∈ xs, key x = key y → x = y)

include hkey

theorem mem_dedupe_sort : x ∈ dedupe key (srt.sort order xs) ↔ x ∈ xs := by
  rw [mem_dedupe_iff, SortFunc.mem_sort]
  intro x hx y hy
  rw [SortFunc.mem_sort] at hx hy
  exact hkey x hx y hy

/-- Where the key tells the elements apart, lists with the same canonical form have the same
elements. -/
theorem mem_iff_of_dedupe_sort_eq (hkey' : ∀ x ∈ ys, ∀ y ∈ ys, key x = key y → x = y)
    (h : dedupe key (srt.sort order xs) = dedupe key (srt.sort order ys)) (x : α) :
    x ∈ xs ↔ x ∈ ys := by
  rw [← mem_dedupe_sort srt hkey, h, mem_dedupe_sort srt hkey']

/-- Where both keys tell the elements apart, lists with the same elements have the same canonical
form. -/
theorem dedupe_sort_eq_of_mem_iff
    (horder : ∀ x ∈ xs, ∀ y ∈ xs, order x = order y → x = y) (h : ∀ x, x ∈ xs ↔ x ∈ ys) :
    dedupe key (srt.sort order xs) = dedupe key (srt.sort order ys) := by
  have hkey' : ∀ x ∈ ys, ∀ y ∈ ys, key x = key y → x = y := fun x hx y hy =>
    hkey x ((h x).mpr hx) y ((h y).mpr hy)
  have hperm : (dedupe key (srt.sort order xs)).Perm (dedupe key (srt.sort order ys)) :=
    (List.perm_ext_iff_of_nodup (nodup_dedupe _ _) (nodup_dedupe _ _)).mpr fun x => by
      rw [mem_dedupe_sort srt hkey, mem_dedupe_sort srt hkey', h]
  refine hperm.eq_of_pairwise ?_ ((srt.sorted order xs).sublist (dedupe_sublist _ _))
    ((srt.sorted order ys).sublist (dedupe_sublist _ _))
  intro x y hx hy hxy hyx
  rw [mem_dedupe_sort srt hkey] at hx
  rw [mem_dedupe_sort srt hkey', ← h] at hy
  exact horder x hx y hy (le_antisymm hxy hyx)

end

end Canonical

end Keyed
