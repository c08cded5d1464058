import Edgelet.Data.Bundle

/-!
# How a bundle is promoted

An `extract` looks before it renames `current`, and another may make the new link in between. Then
the rename moves the link to the new bundle, and the next prune removes the old one. That, and a
prune by another binary that does not keep the new bundle, is all that can go wrong.
-/

namespace Edgelet.Data

open Lexical Machine Keyed

variable {a b : Str} {d d' : Disk} {i : ℕ}

/-! ## Trees -/

theorem get?_deleteWhere_name (ts : Trees) (name m : Str) :
    (ts.deleteWhere (·.1 == name)).get? m = if m = name then none else ts.get? m := by
  split_ifs with h
  · refine Table.get?_deleteWhere_of_true fun entry hentry => ?_
    rw [hentry, h, beq_self_eq_true]
  · refine Table.get?_deleteWhere_of_false fun entry hentry => ?_
    rw [hentry, beq_eq_false_iff_ne]
    exact h

theorem get?_upsert_name (ts : Trees) (name m : Str) (t : Tree) :
    (ts.upsert (name, t)).get? m = if m = name then some (name, t) else ts.get? m := by
  rw [Table.get?_upsert]
  exact if_congr eq_comm rfl rfl

theorem tree_removeAll (d : Disk) (name m : Str) :
    (d.removeAll name).tree m = if m = name then none else d.tree m := by
  unfold Disk.tree
  rw [show (d.removeAll name).trees = d.trees.deleteWhere (·.1 == name) from rfl,
    get?_deleteWhere_name]
  split <;> rfl

theorem tree_put (d : Disk) (name m : Str) (t : Tree) :
    (d.put name t).tree m = if m = name then some t else d.tree m := by
  unfold Disk.tree
  rw [show (d.put name t).trees = d.trees.upsert (name, t) from rfl, get?_upsert_name]
  split <;> rfl

theorem tree_rename (d : Disk) (old new m : Str) (t : Tree) (h : m ≠ old) :
    Disk.tree { d with trees := (d.trees.deleteWhere (·.1 == old)).upsert (new, t) } m =
      if m = new then some t else d.tree m := by
  unfold Disk.tree
  rw [get?_upsert_name, get?_deleteWhere_name, if_neg h]
  split <;> rfl

theorem tree_of_trees_eq (h : d'.trees = d.trees) (name : Str) : d'.tree name = d.tree name := by
  unfold Disk.tree
  rw [h]

theorem ready_removeAll {name m : Str} (h : m ≠ name) : (d.removeAll name).Ready m ↔ d.Ready m := by
  unfold Disk.Ready
  rw [tree_removeAll, if_neg h]

theorem mem_removed_removeAll {name m : Str} :
    m ∈ (d.removeAll name).removed ↔ m ∈ d.removed ∨ d.Ready name ∧ m = name := by
  unfold Disk.removeAll
  split_ifs with h <;> simp [h]

variable {name : Str}

theorem mem_names_of_ready (h : d.Ready name) : name ∈ d.trees.rows.map (·.1) := by
  unfold Disk.Ready Disk.tree at h
  obtain ⟨entry, hentry, -⟩ := Option.map_eq_some_iff.mp h
  obtain ⟨hmem, rfl⟩ := Table.get?_eq_some_iff.mp hentry
  exact List.mem_map_of_mem hmem

/-! ## Names -/

theorem length_of_isBundleHashName (h : isBundleHashName name = true) : name.length = 64 := by
  simp only [isBundleHashName, Bool.and_eq_true, beq_iff_eq] at h
  exact h.1

theorem ne_temp (hb : isBundleHashName b = true) (h : isBundleHashName name = true) :
    name ≠ b ++ tmpSuffix := by
  intro heq
  have hlen := congrArg List.length heq
  rw [List.length_append, length_of_isBundleHashName hb, length_of_isBundleHashName h] at hlen
  cases hlen

theorem staleExtractName_of_isBundleHashName (h : isBundleHashName name = true) :
    staleExtractName name = name := by
  have hsuffix : tmpSuffix.isSuffixOf name = false := by
    rw [Bool.eq_false_iff, ne_eq, List.isSuffixOf_iff_suffix]
    intro hsuf
    simp only [isBundleHashName, Bool.and_eq_true] at h
    have hhyphen := List.all_eq_true.mp h.2 '-' (hsuf.subset (by decide))
    revert hhyphen
    decide
  unfold staleExtractName
  rw [hsuffix, h]
  rfl

theorem isStale_iff (h : isBundleHashName name = true) (keep : List Str) :
    isStale keep name = true ↔ name ∉ keep := by
  have hne : name ≠ [] := by
    rintro rfl
    cases h
  unfold isStale
  rw [staleExtractName_of_isBundleHashName h]
  simp [hne]

/-! ## Parts -/

def Part.Before : Part → Tree → Prop
  | .fatRuntime, _ => True
  | .shim, t => t.fatRuntime = true
  | .netAux, t => t.fatRuntime = true ∧ t.shim = true

def Seen (b : Str) (p : Part) (d : Disk) : Prop := ∀ t, d.tree b = some t → p.Before t

theorem before_complete (p : Part) : p.Before .complete := by
  cases p <;> simp [Part.Before, Tree.complete]

theorem seen_fatRuntime (b : Str) (d : Disk) : Seen b .fatRuntime d := fun _ _ => trivial

theorem Seen.next {Q : Extract → Prop} {p : Part} {check : Part → Extract} {ready : Extract}
    (h : Seen b p d) (hp : d.has b p = true) (hcheck : ∀ p', Seen b p' d → Q (check p'))
    (hready : d.Ready b → Q ready) : Q (p.next check ready) := by
  obtain ⟨t, ht, hpart⟩ := (Option.any_eq_true _ _).mp hp
  have hbefore := h t ht
  have hseen : ∀ p', p'.Before t → Seen b p' d := by
    intro p' hp' t' ht'
    cases ht.symm.trans ht'
    exact hp'
  cases p with
  | fatRuntime => exact hcheck .shim (hseen _ hpart)
  | shim => exact hcheck .netAux (hseen _ ⟨hbefore, hpart⟩)
  | netAux =>
    refine hready ?_
    obtain ⟨fat, shim, net⟩ := t
    obtain ⟨rfl, rfl⟩ := hbefore
    cases hpart
    exact ht

theorem not_ready_of_not_has {p : Part} (h : d.has b p = false) : ¬ d.Ready b := by
  intro hready
  unfold Disk.has at h
  rw [hready] at h
  cases p <;> cases h

/-! ## The lock -/

def Extract.Locked : Extract → Bool
  | .check br _ => br ≠ .fast
  | .promote br _ => br ≠ .fast
  | .acquire => false
  | .returned _ => false
  | _ => true

def Prune.Locked : Prune → Bool
  | .acquire => false
  | .returned => false
  | _ => true

def Process.Locked : Process → Bool
  | .extract pc => pc.Locked
  | .prune _ _ pc => pc.Locked

def Lost (b : Str) (d : Disk) : Prop :=
  d.previous = some b ∧ (d.current = none ∨ d.current = some b)

/-- **What any step leaves**: while another process holds the lock it keeps it, and the trees stay
as they are. -/
structure Frame (b : Str) (i : ℕ) (d d' : Disk) : Prop where
  lost : Lost b d → Lost b d'
  removed : d.removed ⊆ d'.removed
  locked : ∀ j, j ≠ i → d.lock = some j → d'.lock = some j ∧ d'.trees = d.trees

theorem Frame.refl (b : Str) (i : ℕ) (d : Disk) : Frame b i d d :=
  ⟨id, List.Subset.refl _, fun _ _ h => ⟨h, rfl⟩⟩

theorem Frame.acquire (h : d.lock = none) : Frame b i d { d with lock := some i } where
  lost := id
  removed := List.Subset.refl _
  locked _ _ hj := by
    rw [h] at hj
    cases hj

theorem Frame.release (h : d.lock = some i) : Frame b i d { d with lock := none } where
  lost := id
  removed := List.Subset.refl _
  locked _ hne hj := absurd (Option.some.inj (hj.symm.trans h)) hne

theorem Frame.trees (h : d.lock = some i) (hcurrent : d'.current = d.current)
    (hprevious : d'.previous = d.previous) (hremoved : d.removed ⊆ d'.removed) :
    Frame b i d d' where
  lost := by
    unfold Lost
    rw [hcurrent, hprevious]
    exact id
  removed := hremoved
  locked _ hne hj := absurd (Option.some.inj (hj.symm.trans h)) hne

theorem Frame.removeAll (h : d.lock = some i) (name : Str) : Frame b i d (d.removeAll name) :=
  .trees h rfl rfl fun _ hm => mem_removed_removeAll.mpr (.inl hm)

theorem locked_return (br : Branch) (result : Option Str) :
    (br.return result).Locked = true ↔ br ≠ .fast := by
  cases br <;> simp [Branch.return, Extract.Locked]

theorem Promote.act_locked (b : Str) {br : Branch} (pc : Promote) (ok : Bool)
    (h : br ≠ .fast → d.lock = some i) :
    ((pc.act b d br ok).2.Locked = true → (pc.act b d br ok).1.lock = some i) ∧
      Frame b i d (pc.act b d br ok).1 := by
  have hstay : ∀ pc', (Extract.promote br pc').Locked = true → d.lock = some i :=
    fun pc' hpc => h (by simpa [Extract.Locked] using hpc)
  have hreturn : ∀ result, (br.return result).Locked = true → d.lock = some i :=
    fun result hpc => h ((locked_return br result).mp hpc)
  cases pc with
  | readlink | lstat => exact ⟨hstay _, .refl b i d⟩
  | cni => exact ⟨hreturn _, .refl b i d⟩
  | rename =>
    unfold Promote.act
    cases hcurrent : d.current with
    | none => exact ⟨hreturn _, .refl b i d⟩
    | some target =>
      refine ⟨hstay _, ⟨fun hlost => ⟨?_, .inl rfl⟩, List.Subset.refl _, fun _ _ hj => ⟨hj, rfl⟩⟩⟩
      rcases hlost.2 with hnone | hnew
      · cases hcurrent.symm.trans hnone
      · exact hcurrent.symm.trans hnew
  | symlink =>
    unfold Promote.act
    cases hcurrent : d.current with
    | some target => exact ⟨hreturn _, .refl b i d⟩
    | none =>
      exact ⟨hstay _, ⟨fun hlost => ⟨hlost.1, .inr rfl⟩, List.Subset.refl _,
        fun _ _ hj => ⟨hj, rfl⟩⟩⟩

theorem locked_next {p : Part} {check : Part → Extract} {ready : Extract}
    (h : (p.next check ready).Locked = true) :
    (∃ p', (check p').Locked = true) ∨ ready.Locked = true := by
  cases p with
  | fatRuntime | shim => exact .inl ⟨_, h⟩
  | netAux => exact .inr h

variable {ok : Bool}

theorem Extract.act_locked {pc pc' : Extract} (h : pc.Locked = true → d.lock = some i)
    (hact : pc.act b i d ok = some (d', pc')) :
    (pc'.Locked = true → d'.lock = some i) ∧ Frame b i d d' := by
  cases pc with
  | check br p =>
    cases hact
    refine ⟨fun hpc => h ?_, .refl b i d⟩
    split at hpc
    · rcases locked_next hpc with ⟨p', hp'⟩ | hp'
      · exact hp'
      · exact hp'
    · cases br with
      | fast => cases hpc
      | locked | unpacked => rfl
  | promote br pc =>
    have hlocked := Promote.act_locked b pc ok fun hbr => h (by simpa [Extract.Locked] using hbr)
    rwa [show pc.act b d br ok = (d', pc') from Option.some.inj hact] at hlocked
  | acquire =>
    simp only [Extract.act, Option.ite_none_right_eq_some] at hact
    obtain ⟨hfree, hact⟩ := hact
    cases hact
    exact ⟨fun _ => rfl, .acquire hfree⟩
  | clearTemp | removeDir | cleanTemp result =>
    cases hact
    exact ⟨fun _ => h rfl, .removeAll (h rfl) _⟩
  | untar =>
    cases hact
    exact ⟨fun _ => h rfl, .trees (h rfl) rfl rfl (List.Subset.refl _)⟩
  | stat | recheck p =>
    cases hact
    exact ⟨fun _ => h rfl, .refl b i d⟩
  | renameTemp =>
    simp only [Extract.act] at hact
    split at hact <;> cases hact
    · exact ⟨fun _ => h rfl, .trees (h rfl) rfl rfl (List.Subset.refl _)⟩
    · exact ⟨fun _ => h rfl, .refl b i d⟩
  | release result =>
    cases hact
    exact ⟨(nomatch ·), .release (h rfl)⟩
  | returned result => cases hact

theorem Prune.act_locked {pc pc' : Prune} {wantHash : Str} {execHash : Option Str}
    (h : pc.Locked = true → d.lock = some i)
    (hact : pc.act wantHash execHash i d = some (d', pc')) :
    (pc'.Locked = true → d'.lock = some i) ∧ Frame b i d d' := by
  cases pc with
  | acquire =>
    simp only [Prune.act] at hact
    split_ifs at hact with hwant hfree
    · cases hact
      exact ⟨(nomatch ·), .refl b i d⟩
    · cases hact
      exact ⟨fun _ => rfl, .acquire hfree⟩
  | readCurrent =>
    simp only [Prune.act] at hact
    split at hact <;> cases hact <;> exact ⟨fun _ => h rfl, .refl b i d⟩
  | check currentHash p | readPrevious currentHash | readDir keep =>
    cases hact
    exact ⟨fun _ => h rfl, .refl b i d⟩
  | remove pending =>
    cases pending with
    | nil =>
      cases hact
      exact ⟨fun _ => h rfl, .refl b i d⟩
    | cons name rest =>
      cases hact
      exact ⟨fun _ => h rfl, .removeAll (h rfl) name⟩
  | release =>
    cases hact
    exact ⟨(nomatch ·), .release (h rfl)⟩
  | returned => cases hact

variable {p p' : Process}

theorem act_locked (h : p.Locked = true → d.lock = some i) (hact : act b i d p ok = some (d', p')) :
    (p'.Locked = true → d'.lock = some i) ∧ Frame b i d d' := by
  cases p with
  | extract pc =>
    obtain ⟨⟨d₁, pc'⟩, hpc, heq⟩ := Option.map_eq_some_iff.mp hact
    cases heq
    exact Extract.act_locked h hpc
  | prune wantHash execHash pc =>
    obtain ⟨⟨d₁, pc'⟩, hpc, heq⟩ := Option.map_eq_some_iff.mp hact
    cases heq
    exact Prune.act_locked h hpc

/-! ## What a process knows -/

/-- **The links**, and the trees they point at. -/
inductive Links (a b : Str) (d : Disk) : Prop
  | untouched (current : d.current = some a)
  | renamed (current : d.current = none) (previous : d.previous = some a)
  | promoted (current : d.current = some b) (previous : d.previous = some a) (ready : d.Ready b)

structure Safe (a b : Str) (d : Disk) : Prop where
  ready : d.Ready a
  links : Links a b d
  keptPrevious : a ∉ d.removed
  kept : b ∉ d.removed

def Promote.Known (a : Str) (d : Disk) : Promote → Prop
  | .symlink => d.current ≠ some a
  | .cni => d.current ≠ some a
  | _ => True

def Ended (a b : Str) (d : Disk) (result : Option Str) : Prop :=
  d.current ≠ some a ∧ ∀ dir, result = some dir → dir = b

def Unpacked (b : Str) (d : Disk) : Prop := d.Ready (b ++ tmpSuffix)

def Extract.Known (a b : Str) (d : Disk) : Extract → Prop
  | .check _ p => Seen b p d
  | .promote _ pc => d.Ready b ∧ pc.Known a d
  | .stat => Unpacked b d
  | .recheck p => Unpacked b d ∧ Seen b p d
  | .removeDir => Unpacked b d ∧ ¬ d.Ready b
  | .renameTemp => Unpacked b d ∧ d.tree b = none
  | .cleanTemp result => Ended a b d result
  | .release result => Ended a b d result
  | .returned result => Ended a b d result
  | .acquire => True
  | .clearTemp => True
  | .untar => True

def ReadLink (a b : Str) (d : Disk) (currentHash : Str) : Prop :=
  currentHash = a ∨ currentHash = b ∧ d.current = some b ∧ d.previous = some a

def Prune.Known (a b : Str) (d : Disk) : Prune → Prop
  | .check currentHash _ => ReadLink a b d currentHash
  | .readPrevious currentHash => ReadLink a b d currentHash
  | .readDir keep => a ∈ keep
  | .remove pending => a ∉ pending ∧ (b ∈ pending → ¬ d.Ready b)
  | _ => True

def Process.Known (a b : Str) (d : Disk) : Process → Prop
  | .extract pc => pc.Known a b d
  | .prune _ _ pc => pc.Known a b d

/-- **What a step guarantees to the other processes.** -/
structure Guarantee (a b : Str) (i : ℕ) (d d' : Disk) : Prop extends Frame b i d d' where
  rotated : d.current ≠ some a → d'.current ≠ some a
  promoted : d.current = some b → d.previous = some a →
    d'.current = some b ∧ d'.previous = some a
  seen : ∀ p, Seen b p d → Seen b p d'
  ready : d.Ready b → d'.Ready b

theorem Ended.stable {result : Option Str} (h : Ended a b d result) (hg : Guarantee a b i d d') :
    Ended a b d' result :=
  ⟨hg.rotated h.1, h.2⟩

theorem ReadLink.stable {currentHash : Str} (h : ReadLink a b d currentHash)
    (hg : Guarantee a b i d d') : ReadLink a b d' currentHash := by
  rcases h with h | ⟨h, hcurrent, hprevious⟩
  · exact .inl h
  · exact .inr ⟨h, hg.promoted hcurrent hprevious⟩

/-- **What a process knows is stable**: of the trees it knows something only under the lock, apart
from the new bundle, which stays once it is ready. -/
theorem Process.Known.stable {p : Process} {j : ℕ} (hj : j ≠ i) (hg : Guarantee a b i d d')
    (hlock : p.Locked = true → d.lock = some j) (h : p.Known a b d) : p.Known a b d' := by
  have htree : p.Locked = true → ∀ name, d'.tree name = d.tree name :=
    fun hp => tree_of_trees_eq (hg.locked j hj (hlock hp)).2
  cases p with
  | extract pc =>
    cases pc with
    | check br p => exact hg.seen p h
    | promote br pc =>
      refine ⟨hg.ready h.1, ?_⟩
      cases pc with
      | symlink | cni => exact hg.rotated h.2
      | readlink | lstat | rename => trivial
    | stat => exact (htree rfl _).trans h
    | recheck p => exact ⟨(htree rfl _).trans h.1, hg.seen p h.2⟩
    | removeDir => exact ⟨(htree rfl _).trans h.1, fun hr => h.2 ((htree rfl _).symm.trans hr)⟩
    | renameTemp => exact ⟨(htree rfl _).trans h.1, (htree rfl _).trans h.2⟩
    | cleanTemp result | release result | returned result => exact Ended.stable h hg
    | acquire | clearTemp | untar => trivial
  | prune wantHash execHash pc =>
    cases pc with
    | check currentHash p | readPrevious currentHash => exact ReadLink.stable h hg
    | readDir keep => exact h
    | remove pending => exact ⟨h.1, fun hb hr => h.2 hb ((htree rfl _).symm.trans hr)⟩
    | acquire | readCurrent | release | returned => trivial

/-! ## One step -/

structure Kept (a b : Str) (i : ℕ) (d d' : Disk) (known : Prop) : Prop where
  safe : Safe a b d'
  known : known
  guarantee : Guarantee a b i d d'

theorem Guarantee.of_frame (hf : Frame b i d d') (hcurrent : d'.current = d.current)
    (hprevious : d'.previous = d.previous) (htree : d'.tree b = d.tree b) :
    Guarantee a b i d d' where
  toFrame := hf
  rotated := by
    rw [hcurrent]
    exact id
  promoted := by
    rw [hcurrent, hprevious]
    exact And.intro
  seen p h := by
    unfold Seen
    rw [htree]
    exact h
  ready := by
    unfold Disk.Ready
    rw [htree]
    exact id

variable {known : Prop}

theorem Safe.stay (hs : Safe a b d) (h : known) : Kept a b i d d known :=
  ⟨hs, h, .of_frame (.refl b i d) rfl rfl rfl⟩

theorem Safe.setLock {lock : Option ℕ} (hs : Safe a b d)
    (hf : Frame b i d { d with lock := lock }) (h : known) :
    Kept a b i d { d with lock := lock } known := by
  refine ⟨⟨hs.ready, ?_, hs.keptPrevious, hs.kept⟩, h, .of_frame hf rfl rfl rfl⟩
  cases hs.links with
  | untouched hc => exact .untouched hc
  | renamed hc hp => exact .renamed hc hp
  | promoted hc hp hr => exact .promoted hc hp hr

theorem Links.of_ready (h : Links a b d) (hcurrent : d'.current = d.current)
    (hprevious : d'.previous = d.previous) (hready : d.Ready b → d'.Ready b) : Links a b d' := by
  cases h with
  | untouched hc => exact .untouched (hcurrent.trans hc)
  | renamed hc hp => exact .renamed (hcurrent.trans hc) (hprevious.trans hp)
  | promoted hc hp hr => exact .promoted (hcurrent.trans hc) (hprevious.trans hp) (hready hr)

theorem Safe.removeAll (hs : Safe a b d) (hf : Frame b i d (d.removeAll name)) (ha : a ≠ name)
    (hb : b = name → ¬ d.Ready b) (h : known) : Kept a b i d (d.removeAll name) known := by
  have hready : d.Ready b → (d.removeAll name).Ready b := by
    intro hr
    exact (ready_removeAll fun hname => hb hname hr).mpr hr
  refine ⟨⟨(ready_removeAll ha).mpr hs.ready, hs.links.of_ready rfl rfl hready, ?_, ?_⟩, h, ?_⟩
  · rw [mem_removed_removeAll]
    rintro (hmem | ⟨-, hname⟩)
    · exact hs.keptPrevious hmem
    · exact ha hname
  · rw [mem_removed_removeAll]
    rintro (hmem | ⟨hr, rfl⟩)
    · exact hs.kept hmem
    · exact hb rfl hr
  · refine ⟨hf, id, And.intro, fun p hseen t ht => ?_, hready⟩
    rw [tree_removeAll] at ht
    split_ifs at ht
    exact hseen t ht

theorem known_return {br : Branch} {result : Option Str} (h : Ended a b d result) :
    (br.return result).Known a b d := by
  cases br <;> exact h

/-- **A call of `promoteCurrentBundle`.** -/
theorem Promote.act_kept (br : Branch) (ok : Bool) {pc : Promote} (hne : a ≠ b)
    (hs : Safe a b d) (hready : d.Ready b) (hknown : pc.Known a d)
    (hf : Frame b i d (pc.act b d br ok).1) (hok : pc = .rename → d.current ≠ some b) :
    Kept a b i d (pc.act b d br ok).1 ((pc.act b d br ok).2.Known a b (pc.act b d br ok).1) := by
  cases pc with
  | readlink =>
    refine hs.stay ⟨hready, ?_⟩
    split_ifs with hcurrent
    · intro h
      exact hne (Option.some.inj (h.symm.trans hcurrent))
    · trivial
  | lstat =>
    refine hs.stay ⟨hready, ?_⟩
    split_ifs with hcurrent
    · trivial
    · intro h
      rw [show d.current = some a from h] at hcurrent
      exact hcurrent rfl
  | rename =>
    unfold Promote.act at hf ⊢
    cases hcurrent : d.current with
    | none =>
      refine hs.stay (known_return ⟨?_, fun _ h => nomatch h⟩)
      rw [hcurrent]
      exact (nomatch ·)
    | some target =>
      rw [hcurrent] at hf
      have htarget : d.current = some a := by
        cases hs.links with
        | untouched h => exact h
        | renamed h _ => cases hcurrent.symm.trans h
        | promoted h _ _ => exact absurd h (hok rfl)
      obtain rfl : target = a := Option.some.inj (hcurrent.symm.trans htarget)
      refine ⟨⟨hs.ready, .renamed rfl rfl, hs.keptPrevious, hs.kept⟩, ⟨hready, (nomatch ·)⟩, ?_⟩
      exact ⟨hf, fun h => absurd htarget h, fun h => absurd h (hok rfl), fun _ => id, id⟩
  | symlink =>
    unfold Promote.act at hf ⊢
    cases hcurrent : d.current with
    | some target => exact hs.stay (known_return ⟨hknown, fun _ h => nomatch h⟩)
    | none =>
      rw [hcurrent] at hf
      have hprevious : d.previous = some a := by
        cases hs.links with
        | untouched h | promoted h _ _ => cases hcurrent.symm.trans h
        | renamed _ h => exact h
      have hold : some b ≠ some a := fun h => hne (Option.some.inj h).symm
      refine ⟨⟨hs.ready, .promoted rfl hprevious hready, hs.keptPrevious, hs.kept⟩,
        ⟨hready, hold⟩, ?_⟩
      exact ⟨hf, fun _ => hold, fun _ h => ⟨rfl, h⟩, fun _ => id, id⟩
  | cni =>
    refine hs.stay (known_return ⟨hknown, fun dir hdir => ?_⟩)
    split_ifs at hdir
    exact (Option.some.inj hdir).symm

/-- **A call of `extract`.** -/
theorem Extract.act_kept {pc pc' : Extract} (hn : Bundles a b) (hs : Safe a b d)
    (hknown : pc.Known a b d) (hf : Frame b i d d')
    (hok : ∀ br, pc = .promote br .rename → d.current ≠ some b)
    (hact : pc.act b i d ok = some (d', pc')) : Kept a b i d d' (pc'.Known a b d') := by
  have htemp : a ≠ b ++ tmpSuffix := ne_temp hn.new hn.old
  have htemp' : b ≠ b ++ tmpSuffix := ne_temp hn.new hn.new
  cases pc with
  | check br p =>
    cases hact
    refine hs.stay ?_
    split_ifs with hp
    · exact hknown.next hp (fun _ h => h) fun h => ⟨h, trivial⟩
    · cases br <;> trivial
  | promote br pc =>
    have hpair : pc.act b d br ok = (d', pc') := Option.some.inj hact
    have hkept := Promote.act_kept (i := i) br ok hn.ne hs hknown.1 hknown.2 (by rwa [hpair])
      fun hpc => hok br (by rw [hpc])
    rwa [hpair] at hkept
  | acquire =>
    simp only [Extract.act, Option.ite_none_right_eq_some] at hact
    obtain ⟨-, hact⟩ := hact
    cases hact
    exact hs.setLock hf (seen_fatRuntime b _)
  | clearTemp =>
    cases hact
    exact hs.removeAll hf htemp (fun h => absurd h htemp') trivial
  | untar =>
    cases hact
    have htree : ∀ m, m ≠ b ++ tmpSuffix →
        (d.put (b ++ tmpSuffix) .complete).tree m = d.tree m := by
      intro m hm
      rw [tree_put, if_neg hm]
    refine ⟨⟨(htree a htemp).trans hs.ready, ?_, hs.keptPrevious, hs.kept⟩, ?_, ?_⟩
    · exact hs.links.of_ready rfl rfl (htree b htemp').trans
    · show _ = _
      rw [tree_put, if_pos rfl]
    · exact .of_frame hf rfl rfl (htree b htemp')
  | stat =>
    cases hact
    refine hs.stay ?_
    split_ifs with hb
    · exact ⟨hknown, seen_fatRuntime b d⟩
    · exact ⟨hknown, Option.not_isSome_iff_eq_none.mp hb⟩
  | recheck p =>
    cases hact
    refine hs.stay ?_
    split_ifs with hp
    · exact hknown.2.next hp (fun _ h => ⟨hknown.1, h⟩) fun h => ⟨h, trivial⟩
    · exact ⟨hknown.1, not_ready_of_not_has (Bool.eq_false_iff.mpr hp)⟩
  | removeDir =>
    cases hact
    refine hs.removeAll hf hn.ne (fun _ => hknown.2) ⟨?_, ?_⟩
    · exact (ready_removeAll htemp'.symm).mpr hknown.1
    · rw [tree_removeAll, if_pos rfl]
  | renameTemp =>
    simp only [Extract.act] at hact
    rw [show d.tree (b ++ tmpSuffix) = some .complete from hknown.1, hknown.2] at hact
    cases hact
    have htree := fun m => tree_rename d (b ++ tmpSuffix) b m .complete
    have hnew := (htree b htemp').trans (if_pos rfl)
    refine ⟨⟨?_, hs.links.of_ready rfl rfl fun _ => hnew, hs.keptPrevious, hs.kept⟩,
      ⟨hnew, trivial⟩, ⟨hf, id, And.intro, fun p _ t ht => ?_, fun _ => hnew⟩⟩
    · exact ((htree a htemp).trans (if_neg hn.ne)).trans hs.ready
    · cases ht.symm.trans hnew
      exact before_complete p
  | cleanTemp result =>
    cases hact
    exact hs.removeAll hf htemp (fun h => absurd h htemp') hknown
  | release result =>
    cases hact
    exact hs.setLock hf hknown
  | returned result => cases hact

/-- **A call of `pruneStaleExtracts`.** -/
theorem Prune.act_kept {pc pc' : Prune} {wantHash : Str} {execHash : Option Str}
    (hn : Bundles a b) (hs : Safe a b d) (hknown : pc.Known a b d) (hf : Frame b i d d')
    (hok : ∀ keep, pc = .readDir keep → d.Ready b → b ∈ keep)
    (hact : pc.act wantHash execHash i d = some (d', pc')) :
    Kept a b i d d' (pc'.Known a b d') := by
  cases pc with
  | acquire =>
    simp only [Prune.act] at hact
    split_ifs at hact <;> cases hact
    · exact hs.stay trivial
    · exact hs.setLock hf trivial
  | readCurrent =>
    simp only [Prune.act] at hact
    split at hact <;> cases hact
    next currentHash hread =>
      obtain ⟨hcurrent, -⟩ := Option.filter_eq_some_iff.mp hread
      refine hs.stay ?_
      cases hs.links with
      | untouched h => exact .inl (Option.some.inj (hcurrent.symm.trans h))
      | renamed h _ => cases hcurrent.symm.trans h
      | promoted h hp _ => exact .inr ⟨Option.some.inj (hcurrent.symm.trans h), h, hp⟩
    · exact hs.stay trivial
  | check currentHash p =>
    cases hact
    refine hs.stay ?_
    cases p <;> split_ifs <;> first | exact hknown | trivial
  | readPrevious currentHash =>
    cases hact
    refine hs.stay ?_
    rcases hknown with rfl | ⟨-, -, hprevious⟩
    · show currentHash ∈ _
      simp
    · have hread : resolvedBundleHash d.previous = some a := by
        rw [hprevious]
        exact Option.filter_eq_some_iff.mpr ⟨rfl, hn.old⟩
      show a ∈ _
      simp [hread]
  | readDir keep =>
    cases hact
    refine hs.stay ⟨fun ha => ?_, fun hb hr => ?_⟩
    · exact (isStale_iff hn.old keep).mp (List.mem_filter.mp ha).2 hknown
    · exact (isStale_iff hn.new keep).mp (List.mem_filter.mp hb).2 (hok keep rfl hr)
  | remove pending =>
    cases pending with
    | nil =>
      cases hact
      exact hs.stay trivial
    | cons name rest =>
      cases hact
      obtain ⟨ha, hb⟩ := hknown
      rw [List.mem_cons, not_or] at ha
      refine hs.removeAll hf ha.1 (fun h => hb (by simp [h])) ⟨ha.2, fun hmem hr => ?_⟩
      by_cases hname : b = name
      · rw [Disk.Ready, tree_removeAll, if_pos hname] at hr
        cases hr
      · exact hb (List.mem_cons_of_mem _ hmem) ((ready_removeAll hname).mp hr)
  | release =>
    cases hact
    exact hs.setLock hf trivial
  | returned => cases hact

theorem act_kept (hn : Bundles a b) (hs : Safe a b d)
    (hknown : p.Known a b d) (hf : Frame b i d d') (hok : Orderly b d p ok)
    (hact : act b i d p ok = some (d', p')) : Kept a b i d d' (p'.Known a b d') := by
  cases p with
  | extract pc =>
    obtain ⟨⟨d₁, pc'⟩, hpc, heq⟩ := Option.map_eq_some_iff.mp hact
    cases heq
    refine Extract.act_kept hn hs hknown hf ?_ hpc
    rintro br rfl
    exact hok
  | prune wantHash execHash pc =>
    obtain ⟨⟨d₁, pc'⟩, hpc, heq⟩ := Option.map_eq_some_iff.mp hact
    cases heq
    refine Prune.act_kept hn hs hknown hf ?_ hpc
    rintro keep rfl
    exact hok

/-! ## Orderly runs -/

def Local (a b : Str) (i : ℕ) (d : Disk) (p : Process) : Prop :=
  (p.Locked = true → d.lock = some i) ∧ p.Known a b d

def Linking (s : State) : Prop :=
  s.shared.current = none →
    ∃ (j : ℕ) (br : Branch), s.threads[j]? = some (Process.extract (.promote br .symlink))

structure Good (a b : Str) (s : State) : Prop where
  holds : Threads.Holds (Safe a b) (Local a b) s
  linking : Linking s

theorem act_current_none (hact : act b i d p ok = some (d', p')) (hnone : d'.current = none) :
    (∃ br, p' = .extract (.promote br .symlink)) ∨
      d.current = none ∧ ∀ br, p ≠ .extract (.promote br .symlink) := by
  cases p with
  | prune wantHash execHash pc =>
    obtain ⟨⟨d₁, pc'⟩, hpc, heq⟩ := Option.map_eq_some_iff.mp hact
    cases heq
    refine .inr ⟨?_, fun br => (nomatch ·)⟩
    rw [← hnone]
    unfold Prune.act at hpc
    split at hpc <;> (try split_ifs at hpc) <;> (try split at hpc) <;> cases hpc <;> rfl
  | extract pc =>
    obtain ⟨⟨d₁, pc'⟩, hpc, heq⟩ := Option.map_eq_some_iff.mp hact
    cases heq
    cases pc with
    | promote br pc =>
      have hpair : pc.act b d br ok = (d₁, pc') := Option.some.inj hpc
      cases pc with
      | rename =>
        simp only [Promote.act] at hpair
        split at hpair <;> cases hpair
        · exact .inl ⟨br, rfl⟩
        · exact .inr ⟨hnone, fun br => (nomatch ·)⟩
      | symlink =>
        simp only [Promote.act] at hpair
        split at hpair <;> cases hpair
        next h => cases h.symm.trans hnone
        · cases hnone
      | readlink | lstat | cni =>
        cases hpair
        exact .inr ⟨hnone, fun br => (nomatch ·)⟩
    | acquire =>
      simp only [Extract.act, Option.ite_none_right_eq_some] at hpc
      obtain ⟨-, hpc⟩ := hpc
      cases hpc
      exact .inr ⟨hnone, fun br => (nomatch ·)⟩
    | renameTemp =>
      simp only [Extract.act] at hpc
      split at hpc <;> cases hpc <;> exact .inr ⟨hnone, fun br => (nomatch ·)⟩
    | _ =>
      cases hpc
      try exact .inr ⟨hnone, fun br => (nomatch ·)⟩

variable {s s' : State} {x : ℕ × Bool}

theorem Linking.step (h : Linking s) (hstep : step b s x = some s') : Linking s' := by
  obtain ⟨p, hp, d', p', hact, rfl⟩ := Threads.step_eq_some_iff.mp hstep
  intro hnone
  rcases act_current_none hact hnone with ⟨br, rfl⟩ | ⟨hcurrent, hne⟩
  · exact ⟨x.1, br, Threads.getElem?_set_of_getElem? _ hp⟩
  · obtain ⟨j, br, hj⟩ := h hcurrent
    refine ⟨j, br, ?_⟩
    rw [List.getElem?_set_ne, hj]
    rintro rfl
    exact hne br (Option.some.inj (hp.symm.trans hj))

theorem Good.step (hn : Bundles a b) (h : Good a b s)
    (hok : Threads.Meets (Orderly b) s x) (hstep : step b s x = some s') : Good a b s' := by
  refine ⟨?_, h.linking.step hstep⟩
  refine h.holds.step (G := Guarantee a b) ?_ ?_ hok hstep
  · intro i d p ok d' p' hs hlocal hok hact
    obtain ⟨hlock, hf⟩ := act_locked hlocal.1 hact
    have hkept := act_kept hn hs hlocal.2 hf hok hact
    exact ⟨hkept.safe, ⟨hlock, hkept.known⟩, hkept.guarantee⟩
  · intro i j d d' p hj hg hlocal
    refine ⟨fun hp => (hg.locked j hj (hlocal.1 hp)).1, ?_⟩
    exact Process.Known.stable hj hg hlocal.1 hlocal.2

theorem Start.good {s : State} (h : Start a s) : Good a b s where
  holds := by
    refine ⟨⟨h.ready, .untouched h.current, by simp [h.removed], by simp [h.removed]⟩, ?_⟩
    intro i p hp
    have hbegins := h.begins p (List.mem_of_getElem? hp)
    cases p with
    | extract pc =>
      cases of_decide_eq_true hbegins
      exact ⟨(nomatch ·), seen_fatRuntime b _⟩
    | prune wantHash execHash pc =>
      cases of_decide_eq_true hbegins
      exact ⟨(nomatch ·), trivial⟩
  linking hnone := by
    rw [h.current] at hnone
    cases hnone

theorem exists_of_returned {pc : Extract} (h : (Process.extract pc).returned = true) :
    ∃ result, pc = .returned result := by
  cases pc with
  | returned result => exact ⟨result, rfl⟩
  | _ => cases h

theorem Good.promoted {s : State} (h : Good a b s) (hextract : ∃ pc, .extract pc ∈ s.threads)
    (hdone : ∀ p ∈ s.threads, p.returned = true) : Promoted a b s := by
  have hended : ∀ pc, .extract pc ∈ s.threads →
      ∃ result, pc = .returned result ∧ Ended a b s.shared result := by
    intro pc hpc
    obtain ⟨result, rfl⟩ := exists_of_returned (hdone _ hpc)
    obtain ⟨j, hj⟩ := List.mem_iff_getElem?.mp hpc
    exact ⟨result, rfl, (h.holds.thread j _ hj).2⟩
  obtain ⟨hcurrent, hprevious, hready⟩ :
      s.shared.current = some b ∧ s.shared.previous = some a ∧ s.shared.Ready b := by
    cases h.holds.shared.links with
    | untouched hc =>
      obtain ⟨pc, hpc⟩ := hextract
      obtain ⟨result, -, hend⟩ := hended pc hpc
      exact absurd hc hend.1
    | renamed hc _ =>
      obtain ⟨j, br, hj⟩ := h.linking hc
      cases hdone _ (List.mem_of_getElem? hj)
    | promoted hc hp hr => exact ⟨hc, hp, hr⟩
  refine ⟨hcurrent, hready, hprevious, h.holds.shared.ready, h.holds.shared.keptPrevious,
    h.holds.shared.kept, fun dir hdir => ?_⟩
  obtain ⟨result, hresult, hend⟩ := hended _ hdir
  cases hresult
  rw [hend.2 dir rfl]
  exact h.holds.shared.kept

/-! ## Other runs -/

def Removing (b : Str) (s : State) : Prop :=
  ∃ (j : ℕ) (wantHash : Str) (execHash : Option Str) (pending : List Str),
    s.threads[j]? = some (.prune wantHash execHash (.remove pending)) ∧ b ∈ pending ∧
      s.shared.Ready b

/-- **The old bundle or the new one is lost**, now or soon. -/
def Doomed (b : Str) (s : State) : Prop :=
  Lost b s.shared ∨ b ∈ s.shared.removed ∨ Removing b s

def Exclusive (s : State) : Prop :=
  ∀ i p, s.threads[i]? = some p → p.Locked = true → s.shared.lock = some i

theorem Exclusive.step (h : Exclusive s) (hstep : step b s x = some s') : Exclusive s' := by
  have hholds : Threads.Holds (fun _ => True)
      (fun i (d : Disk) (p : Process) => p.Locked = true → d.lock = some i) s :=
    ⟨trivial, h⟩
  have hmeets : Threads.Meets (fun (_ : Disk) (_ : Process) (_ : Bool) => True) s x :=
    fun _ _ => trivial
  refine (hholds.step (G := Frame b) ?_ ?_ hmeets hstep).thread
  · intro i d p c d' p' _ hlock _ hact
    obtain ⟨hlock', hf⟩ := act_locked hlock hact
    exact ⟨trivial, hlock', hf⟩
  · intro i j d d' p hj hf hlock hp
    exact (hf.locked j hj (hlock hp)).1

/-- **What is lost stays lost.** -/
theorem Doomed.step (hx : Exclusive s) (h : Doomed b s)
    (hstep : step b s x = some s') : Doomed b s' := by
  obtain ⟨p, hp, d', p', hact, rfl⟩ := Threads.step_eq_some_iff.mp hstep
  obtain ⟨-, hf⟩ := act_locked (hx x.1 p hp) hact
  rcases h with hlost | hremoved | ⟨j, wantHash, execHash, pending, hj, hb, hready⟩
  · exact .inl (hf.lost hlost)
  · exact .inr (.inl (hf.removed hremoved))
  · by_cases hjx : j = x.1
    · subst hjx
      cases hp.symm.trans hj
      obtain ⟨⟨d₁, pc'⟩, hpc, heq⟩ := Option.map_eq_some_iff.mp hact
      cases heq
      cases pending with
      | nil => cases hb
      | cons name rest =>
        cases hpc
        by_cases hname : b = name
        · exact .inr (.inl (mem_removed_removeAll.mpr (.inr ⟨hname ▸ hready, hname⟩)))
        · refine .inr (.inr ⟨x.1, wantHash, execHash, rest, ?_, ?_, ?_⟩)
          · exact Threads.getElem?_set_of_getElem? _ hj
          · exact (List.mem_cons.mp hb).resolve_left hname
          · exact (ready_removeAll hname).mpr hready
    · have htrees := (hf.locked j hjx (hx j _ hj rfl)).2
      refine .inr (.inr ⟨j, wantHash, execHash, pending, ?_, hb, ?_⟩)
      · rw [List.getElem?_set_ne (Ne.symm hjx)]
        exact hj
      · exact (tree_of_trees_eq htrees b).trans hready

theorem doomed_of_not_orderly {p : Process} (hn : Bundles a b) (hp : s.threads[x.1]? = some p)
    (hok : ¬ Orderly b s.shared p x.2) (hstep : step b s x = some s') : Doomed b s' := by
  obtain ⟨p₁, hp₁, d', p', hact, rfl⟩ := Threads.step_eq_some_iff.mp hstep
  cases hp.symm.trans hp₁
  unfold Orderly at hok
  split at hok
  next br =>
    push Not at hok
    simp only [act, Extract.act, Promote.act, hok, Option.map_some] at hact
    cases hact
    exact .inl ⟨rfl, .inl rfl⟩
  next wantHash execHash keep =>
    push Not at hok
    cases hact
    refine .inr (.inr ⟨x.1, wantHash, execHash, (s.shared.trees.rows.map (·.1)).filter
      (isStale keep), ?_, ?_, hok.1⟩)
    · exact Threads.getElem?_set_of_getElem? _ hp
    · exact List.mem_filter.mpr ⟨mem_names_of_ready hok.1, (isStale_iff hn.new keep).mpr hok.2⟩
  · exact absurd trivial hok

theorem Doomed.not_promoted {s : State} (hn : Bundles a b) (h : Doomed b s)
    (hdone : ∀ p ∈ s.threads, p.returned = true) : ¬ Promoted a b s := by
  intro hpromoted
  rcases h with hlost | hremoved | ⟨j, wantHash, execHash, pending, hj, -⟩
  · exact hn.ne (Option.some.inj (hpromoted.previous.symm.trans hlost.1))
  · exact hpromoted.kept hremoved
  · cases hdone _ (List.mem_of_getElem? hj)

/-! ## Runs -/

def HasExtract (s : State) : Prop := ∃ pc, .extract pc ∈ s.threads

theorem HasExtract.step (h : HasExtract s) (hstep : step b s x = some s') : HasExtract s' := by
  obtain ⟨p, hp, d', p', hact, rfl⟩ := Threads.step_eq_some_iff.mp hstep
  obtain ⟨pc, hpc⟩ := h
  obtain ⟨j, hj⟩ := List.mem_iff_getElem?.mp hpc
  by_cases hjx : j = x.1
  · subst hjx
    cases hp.symm.trans hj
    obtain ⟨⟨d₁, pc'⟩, -, heq⟩ := Option.map_eq_some_iff.mp hact
    cases heq
    exact ⟨pc', List.mem_of_getElem? (Threads.getElem?_set_of_getElem? _ hp)⟩
  · refine ⟨pc, List.mem_iff_getElem?.mpr ⟨j, ?_⟩⟩
    rw [List.getElem?_set_ne (Ne.symm hjx)]
    exact hj

theorem Start.exclusive {s : State} (h : Start a s) : Exclusive s := by
  intro i p hp
  have hbegins := h.begins p (List.mem_of_getElem? hp)
  cases p <;> cases of_decide_eq_true hbegins <;> exact (nomatch ·)

structure Losing (b : Str) (s : State) : Prop where
  exclusive : Exclusive s
  doomed : Doomed b s

theorem Losing.step (h : Losing b s) (hstep : step b s x = some s') : Losing b s' :=
  ⟨h.exclusive.step hstep, h.doomed.step h.exclusive hstep⟩

theorem along_of_promoted {xs : List (ℕ × Bool)} (hn : Bundles a b)
    (hx : Exclusive s) (hrun : run (step b) s xs = some s')
    (hdone : ∀ p ∈ s'.threads, p.returned = true) (hpromoted : Promoted a b s') :
    Along (step b) (Threads.Meets (Orderly b)) s xs := by
  induction xs generalizing s with
  | nil => trivial
  | cons x xs ih =>
    obtain ⟨t, ht, hrest⟩ := run_cons_eq_some.mp hrun
    have hxt := hx.step ht
    refine ⟨fun p hp => ?_, fun t' ht' => ?_⟩
    · by_contra hok
      have hlosing : Losing b s' := invariant_run_always (fun _ _ _ h hstep => h.step hstep)
        ⟨hxt, doomed_of_not_orderly hn hp hok ht⟩ hrest
      exact hlosing.doomed.not_promoted hn hdone hpromoted
    · cases ht.symm.trans ht'
      exact ih hxt hrest

/-- **When a promotion is safe**: whatever processes there are and however they interleave, the new
bundle is promoted and the old one kept exactly when no `extract` renames the new link, and no prune
that finds the new bundle ready drops it. -/
theorem promoted_iff_orderly {s s' : State} {xs : List (ℕ × Bool)} (hn : Bundles a b)
    (hstart : Start a s) (hrun : run (step b) s xs = some s')
    (hdone : ∀ p ∈ s'.threads, p.returned = true) :
    Promoted a b s' ↔ Along (step b) (Threads.Meets (Orderly b)) s xs := by
  refine ⟨along_of_promoted hn hstart.exclusive hrun hdone, fun halong => ?_⟩
  have hgood : Good a b s' :=
    invariant_run (fun _ _ _ h hok hstep => h.step hn hok hstep) halong hstart.good hrun
  have hextract : HasExtract s' :=
    invariant_run_always (fun _ _ _ h hstep => h.step hstep) hstart.extract hrun
  exact hgood.promoted hextract hdone

/-! ### Two processes with one bundle -/

def oldBundle : Str := List.replicate 64 'a'

def newBundle : Str := List.replicate 64 'b'

theorem bundles_old_new : Bundles oldBundle newBundle :=
  ⟨rfl, rfl, of_decide_eq_true rfl⟩

def twoExtracts : State where
  shared :=
    { current := some oldBundle
      previous := none
      trees := (Table.empty _).upsertAll [(oldBundle, .complete), (newBundle, .complete)]
      lock := none
      removed := [] }
  threads := [.extract (.check .fast .fatRuntime), .extract (.check .fast .fatRuntime),
    .prune newBundle none .acquire]

theorem start_twoExtracts : Start oldBundle twoExtracts :=
  ⟨rfl, rfl, rfl, rfl, of_decide_eq_true rfl, ⟨_, List.mem_cons_self ..⟩⟩

def steps (n i : ℕ) : List (ℕ × Bool) := List.replicate n (i, true)

/-- One after the other: the second process finds the new link. -/
theorem promoted_iff_orderly_in_turn :
    ∃ s, run (step newBundle) twoExtracts (steps 8 0 ++ steps 5 1 ++ steps 9 2) = some s ∧
      Promoted oldBundle newBundle s := by
  have hrun : (run (step newBundle) twoExtracts (steps 8 0 ++ steps 5 1 ++ steps 9 2)).any
      (fun s => s.threads.all Process.returned) = true := rfl
  obtain ⟨s, hs, hdone⟩ := (Option.any_eq_true _ _).mp hrun
  refine ⟨s, hs, (promoted_iff_orderly bundles_old_new start_twoExtracts hs ?_).mpr ?_⟩
  · exact List.all_eq_true.mp hdone
  · exact of_decide_eq_true rfl

/-- Both look at the link before either renames it: the second rename moves the new link, and the
prune removes the old bundle. -/
theorem old_bundle_removed :
    ∃ s, run (step newBundle) twoExtracts
        (steps 5 0 ++ steps 5 1 ++ steps 3 0 ++ steps 3 1 ++ steps 10 2) = some s ∧
      (∀ p ∈ s.threads, p.returned = true) ∧ s.shared.previous = some newBundle ∧
      oldBundle ∈ s.shared.removed ∧ ¬ Promoted oldBundle newBundle s := by
  have hrun : (run (step newBundle) twoExtracts
      (steps 5 0 ++ steps 5 1 ++ steps 3 0 ++ steps 3 1 ++ steps 10 2)).any (fun s =>
        s.threads.all Process.returned && decide (s.shared.previous = some newBundle) &&
          decide (oldBundle ∈ s.shared.removed)) = true := rfl
  obtain ⟨s, hs, h⟩ := (Option.any_eq_true _ _).mp hrun
  simp only [Bool.and_eq_true, decide_eq_true_eq] at h
  obtain ⟨⟨hdone, hprevious⟩, hremoved⟩ := h
  exact ⟨s, hs, List.all_eq_true.mp hdone, hprevious, hremoved, fun hp => hp.keptPrevious hremoved⟩

end Edgelet.Data
