import Edgelet.ModelPull.Store

/-!
# Collecting unused blobs

With one `Store` value its lock keeps `Track`, `Release` and `CollectUnused` apart. With several,
claims are lost and claimed blobs removed. A blob is in the store before it is claimed, so a
collection may remove it in between in any case. And claims are compared as texts: a digest in upper
case protects nothing.
-/

namespace Edgelet.ModelPull

open Lexical Keyed Machine

/-! ## The property -/

/-- **The store is safe**: every completed claim is in the reference index, nothing was removed that
was claimed, and the blobs of a pull that has reported success are there as long as its claim is. -/
structure Safe (sh : Files) : Prop where
  recorded : ∀ c ∈ sh.claims, (c.modelName, c.ref) ∈ sh.refs
  spared : sh.wronged = []
  there : ∀ e ∈ sh.succeeded, ⟨e.1, e.2, true⟩ ∈ sh.claims → ∀ b ∈ e.2.blobs, ∀ p,
    parseDigest b = some p → p ∈ sh.blobs

/-- A collection removes no blob that a pull has found or written and not claimed yet. -/
def Careful (sh : Files) : Pc → Answer → Prop
  | .collectBlobs refs, .visit p =>
    (usedBlobs refs).contains p.text = false → ∀ e ∈ sh.secured, e.2 ≠ p
  | _, _ => True

def Call.Canonical : Call → Prop
  | .pull job => ModelPull.Canonical job.digest ∧ ∀ d ∈ job.files, ModelPull.Canonical d
  | .track _ digest blobs => ModelPull.Canonical digest ∧ ∀ d ∈ blobs, ModelPull.Canonical d
  | _ => True

/-! ## Digests -/

theorem trimSpace_sublist (s : Str) : (trimSpace s).Sublist s :=
  (List.rdropWhile_prefix isSpace _).sublist.trans (List.dropWhile_suffix isSpace).sublist

theorem parseDigest_trimSpace (d : Str) : parseDigest (trimSpace d) = parseDigest d := by
  rw [parseDigest, trimSpace_trimSpace, parseDigest]

theorem cutColon_eq_some {s a b : Str} (h : cutColon s = some (a, b)) : s = a ++ ':' :: b := by
  rw [cutColon] at h
  split at h
  next hmem =>
    cases h
    have hdrop : s.dropWhile (· ≠ ':') ≠ [] := by
      rw [Ne, List.dropWhile_eq_nil_iff]
      intro hall
      have := hall ':' (List.contains_iff_mem.mp hmem)
      simp at this
    have hhead : (s.dropWhile (· ≠ ':')).head hdrop = ':' := by
      simpa using List.head_dropWhile_not (· ≠ ':') hdrop
    conv_lhs => rw [← List.takeWhile_append_dropWhile (p := (· ≠ ':')) (l := s),
      ← List.cons_head_tail hdrop, hhead]
  · cases h

variable {p : Place} {d : Str}

theorem length_text (h : parseDigest d = some p) : p.text.length = (trimSpace d).length := by
  rw [parseDigest] at h
  split at h
  · cases h
  next algo hexPart hcut =>
    split at h
    · cases h
      rw [cutColon_eq_some hcut]
      simp [Place.text]
    · cases h

theorem trimSpace_of_canonical (h : Canonical d) (hp : parseDigest d = some p) : trimSpace d = d :=
  (trimSpace_sublist d).eq_of_length (by rw [← length_text hp, ← h p hp])

theorem canonical_trimSpace (h : Canonical d) : Canonical (trimSpace d) := by
  intro p hp
  rw [parseDigest_trimSpace] at hp
  rw [trimSpace_of_canonical h hp]
  exact h p hp

theorem text_ne_nil (p : Place) : p.text ≠ [] := by
  rw [Place.text]
  simp

theorem mem_uniqueDigests {b : Str} {ds : List Str} (h : b ∈ uniqueDigests ds) :
    ∃ d ∈ ds, trimSpace d = b := by
  have hfold : ∀ (l out : List Str), b ∈ l.foldl
      (fun out d => if out.contains d then out else out ++ [d]) out → b ∈ l ∨ b ∈ out := by
    intro l
    induction l with
    | nil => exact fun out h => .inr h
    | cons d l ih =>
      intro out h
      rcases ih _ h with h | h
      · exact .inl (List.mem_cons_of_mem _ h)
      · dsimp only at h
        split at h
        · exact .inr h
        · rcases List.mem_append.mp h with h | h
          · exact .inr h
          · exact .inl (List.mem_singleton.mp h ▸ List.mem_cons_self)
  rcases hfold _ _ h with h | h
  · obtain ⟨d, hd, rfl⟩ := List.mem_map.mp (List.mem_filter.mp h).1
    exact ⟨d, hd, rfl⟩
  · cases h

structure ModelRef.Canonical (r : ModelRef) : Prop where
  digest : ModelPull.Canonical r.digest
  blobs : ∀ b ∈ r.blobs, ModelPull.Canonical b

theorem canonical_ref {digest : Str} {ds : List Str} (hdigest : Canonical digest)
    (hds : ∀ d ∈ ds, Canonical d) : ModelRef.Canonical ⟨trimSpace digest, uniqueDigests ds⟩ := by
  refine ⟨canonical_trimSpace hdigest, fun b hb => ?_⟩
  obtain ⟨d, hd, rfl⟩ := mem_uniqueDigests hb
  exact canonical_trimSpace (hds d hd)

theorem mem_usedBlobs {refs : Refs} {e : Str × ModelRef} (he : e ∈ refs) (hcanon : e.2.Canonical)
    {b : Str} (hb : b ∈ e.2.blobs) (hp : parseDigest b = some p) : p.text ∈ usedBlobs refs := by
  refine List.mem_flatMap.mpr ⟨e, he, List.mem_filter.mpr ⟨List.mem_map.mpr ⟨b, hb, ?_⟩, ?_⟩⟩
  · rw [trimSpace_of_canonical (hcanon.blobs b hb) hp]
    exact hcanon.blobs b hb p hp
  · exact decide_eq_true (text_ne_nil p)

theorem mem_usedManifests {refs : Refs} {e : Str × ModelRef} (he : e ∈ refs)
    (hcanon : e.2.Canonical) (hp : parseDigest e.2.digest = some p) :
    p.text ∈ usedManifests refs := by
  refine List.mem_filter.mpr ⟨List.mem_map.mpr ⟨e, he, ?_⟩, decide_eq_true (text_ne_nil p)⟩
  rw [trimSpace_of_canonical hcanon.digest hp]
  exact hcanon.digest p hp

/-! ## The invariant of the files -/

section Files

variable {sh : Files} {i : ℕ} {p : Place}

structure Good (sh : Files) : Prop where
  recorded : ∀ c ∈ sh.claims, (c.modelName, c.ref) ∈ sh.refs
  canonical : ∀ e ∈ sh.refs, e.2.Canonical
  index : ∀ id ∈ sh.index, Canonical id
  secured : ∀ e ∈ sh.secured, e.2 ∈ sh.blobs
  there : ∀ c ∈ sh.claims, c.pulled = true → ∀ b ∈ c.ref.blobs, ∀ p,
    parseDigest b = some p → p ∈ sh.blobs
  spared : sh.wronged = []

theorem good_empty : Good .empty where
  recorded _ h := nomatch h
  canonical _ h := nomatch h
  index _ h := nomatch h
  secured _ h := nomatch h
  there _ h := nomatch h
  spared := rfl

section

variable (h : Good sh)

include h

theorem Good.safe : Safe sh :=
  ⟨h.recorded, h.spared, fun _ _ hc => h.there _ hc rfl⟩

theorem Good.secure (hp : p ∈ sh.blobs) : Good (sh.secure i p) where
  recorded := h.recorded
  canonical := h.canonical
  index := h.index
  secured e he := by
    rcases List.mem_cons.mp he with rfl | he
    · exact hp
    · exact h.secured e he
  there := h.there
  spared := h.spared

theorem Good.abandon : Good (sh.abandon i) where
  recorded := h.recorded
  canonical := h.canonical
  index := h.index
  secured e he := h.secured e (List.mem_filter.mp he).1
  there := h.there
  spared := h.spared

theorem Good.addBlob : Good { sh with blobs := p :: sh.blobs } where
  recorded := h.recorded
  canonical := h.canonical
  index := h.index
  secured e he := List.mem_cons_of_mem _ (h.secured e he)
  there c hc hpulled b hb q hq := List.mem_cons_of_mem _ (h.there c hc hpulled b hb q hq)
  spared := h.spared

theorem Good.with_manifests (manifests : List Place) : Good { sh with manifests := manifests } :=
  ⟨h.recorded, h.canonical, h.index, h.secured, h.there, h.spared⟩

theorem Good.with_succeeded (succeeded : List (Str × ModelRef)) :
    Good { sh with succeeded := succeeded } :=
  ⟨h.recorded, h.canonical, h.index, h.secured, h.there, h.spared⟩

theorem Good.with_index {index : List Str} (hindex : ∀ id ∈ index, Canonical id) :
    Good { sh with index := index } :=
  ⟨h.recorded, h.canonical, hindex, h.secured, h.there, h.spared⟩

theorem Good.setLock (k : ℕ) (owner : Option ℕ) : Good (sh.setLock k owner) :=
  ⟨h.recorded, h.canonical, h.index, h.secured, h.there, h.spared⟩

theorem Good.claimsBlob_eq_false (hp : p.text ∉ usedBlobs sh.refs) : sh.claimsBlob p = false := by
  rw [Files.claimsBlob, List.any_eq_false]
  intro c hc hany
  obtain ⟨b, hb, hparse⟩ := List.any_eq_true.mp hany
  have hrec := h.recorded c hc
  exact hp (mem_usedBlobs hrec (h.canonical _ hrec) hb (of_decide_eq_true hparse))

theorem Good.removeBlob (hp : p.text ∉ usedBlobs sh.refs)
    (hsecured : ∀ e ∈ sh.secured, e.2 ≠ p) : Good (sh.removeBlob p) where
  recorded := h.recorded
  canonical := h.canonical
  index := h.index
  secured e he := List.mem_filter.mpr ⟨h.secured e he, decide_eq_true (hsecured e he)⟩
  there c hc hpulled b hb q hq := by
    have hrec := h.recorded c hc
    refine List.mem_filter.mpr ⟨h.there c hc hpulled b hb q hq, decide_eq_true ?_⟩
    rintro rfl
    exact hp (mem_usedBlobs hrec (h.canonical _ hrec) hb hq)
  spared := by
    show (if sh.claimsBlob p then _ else _) = _
    rw [h.claimsBlob_eq_false hp]
    exact h.spared

theorem Good.removeManifest {id : Str} (hid : Canonical id)
    (hused : id ∉ usedManifests sh.refs) (hp : parseDigest id = some p) :
    Good (sh.removeManifest p) where
  recorded := h.recorded
  canonical := h.canonical
  index := h.index
  secured := h.secured
  there := h.there
  spared := by
    have hclaims : sh.claimsManifest p = false := by
      rw [Files.claimsManifest, List.any_eq_false]
      intro c hc hparse
      have hrec := h.recorded c hc
      refine hused ?_
      rw [hid p hp]
      exact mem_usedManifests hrec (h.canonical _ hrec) (of_decide_eq_true hparse)
    show (if sh.claimsManifest p then _ else _) = _
    rw [hclaims]
    exact h.spared

end

def Update.Canonical : Update → Prop
  | .track _ ref => ref.Canonical
  | .release _ => True

def Update.There (sh : Files) : Update → Prop
  | .track _ ref => ∀ b ∈ ref.blobs, ∀ p, parseDigest b = some p → p ∈ sh.blobs
  | .release _ => True

theorem Good.update (h : Good sh) {u : Update} {pulled : Bool} (hcanon : u.Canonical)
    (hthere : pulled = true → u.There sh) :
    Good ({ sh with refs := u.apply sh.refs }.complete pulled u) := by
  cases u with
  | track n ref =>
    refine ⟨fun c hc => ?_, fun e he => ?_, h.index, h.secured, fun c hc hpulled => ?_, h.spared⟩
    · rcases Table.mem_upsert.mp hc with rfl | ⟨hc, hne⟩
      · exact Table.mem_upsert.mpr (.inl rfl)
      · exact Table.mem_upsert.mpr (.inr ⟨h.recorded c hc, hne⟩)
    · rcases Table.mem_upsert.mp he with rfl | ⟨he, -⟩
      · exact hcanon
      · exact h.canonical e he
    · rcases Table.mem_upsert.mp hc with rfl | ⟨hc, -⟩
      · exact hthere hpulled
      · exact h.there c hc hpulled
  | release n =>
    refine ⟨fun c hc => ?_, fun e he => ?_, h.index, h.secured, fun c hc => ?_, h.spared⟩
    · obtain ⟨hc, hne⟩ := Table.mem_deleteWhere.mp hc
      exact Table.mem_deleteWhere.mpr ⟨h.recorded c hc, hne⟩
    · exact h.canonical e (Table.mem_deleteWhere.mp he).1
    · exact h.there c (Table.mem_deleteWhere.mp hc).1

theorem Good.complete (h : Good sh) {u : Update} {pulled : Bool}
    (hwrites : u.writes sh.refs = false) : Good (sh.complete pulled u) := by
  cases u with
  | track => cases hwrites
  | release n =>
    refine ⟨fun c hc => ?_, h.canonical, h.index, h.secured, fun c hc => ?_, h.spared⟩
    · exact h.recorded c (Table.mem_deleteWhere.mp hc).1
    · exact h.there c (Table.mem_deleteWhere.mp hc).1

end Files

/-! ## The threads -/

section Threads

variable {handle : ℕ → ℕ} {i : ℕ} {sh sh' : Files} {pc pc' : Pc} {answer : Answer} {job : Job}

def Secured (i : ℕ) (sh : Files) (d : Str) : Prop :=
  ∃ p, parseDigest d = some p ∧ (i, p) ∈ sh.secured

def Job.Canonical (job : Job) : Prop :=
  ModelPull.Canonical job.digest ∧ ∀ d ∈ job.files, ModelPull.Canonical d

def Ready (i : ℕ) (sh : Files) (job : Job) : Prop :=
  job.Canonical ∧ ∀ d ∈ job.files, Secured i sh d

structure Prepared (i : ℕ) (sh : Files) (u : Update) (next : Option Job) : Prop where
  canonical : u.Canonical
  secured : ∀ job, next = some job → ∃ n, u = .track n job.ref ∧ ∀ d ∈ job.files, Secured i sh d

/-- **What is known of a thread**: what it has secured, that it holds the lock, and that the claims
it has read are those that are there. -/
def Known (handle : ℕ → ℕ) (i : ℕ) (sh : Files) : Pc → Prop
  | .hasBlob job todo => job.Canonical ∧ ∀ d ∈ job.files, d ∈ todo ∨ Secured i sh d
  | .writeBlob job p todo =>
    job.Canonical ∧ ∀ d ∈ job.files, d ∈ todo ∨ parseDigest d = some p ∨ Secured i sh d
  | .writeManifest job | .readIndex job => Ready i sh job
  | .writeIndex job index => Ready i sh job ∧ ∀ id ∈ index, Canonical id
  | .lock (.update u next) => Prepared i sh u next
  | .readRefs u next => sh.locks (handle i) = some i ∧ Prepared i sh u next
  | .writeRefs u refs next =>
    sh.locks (handle i) = some i ∧ refs = sh.refs ∧ Prepared i sh u next
  | .unlock _ | .collectRefs => sh.locks (handle i) = some i
  | .collectBlobs refs | .collectIndex refs => sh.locks (handle i) = some i ∧ refs = sh.refs
  | .collectManifests refs _ todo kept =>
    sh.locks (handle i) = some i ∧ refs = sh.refs ∧ ∀ id ∈ todo ++ kept, Canonical id
  | .collectWrite kept => sh.locks (handle i) = some i ∧ ∀ id ∈ kept, Canonical id
  | .lock .collect | .unpack .. | .done => True

structure Leaves (handle : ℕ → ℕ) (i : ℕ) (sh sh' : Files) : Prop where
  secured : ∀ j p, j ≠ i → (j, p) ∈ sh.secured → (j, p) ∈ sh'.secured
  locked : ∀ j, j ≠ i → sh.locks (handle j) = some j →
    sh'.locks (handle j) = some j ∧ sh'.refs = sh.refs

variable {j : ℕ}

theorem Secured.mono {d : Str} (h : Secured j sh d)
    (hmono : ∀ p, (j, p) ∈ sh.secured → (j, p) ∈ sh'.secured) : Secured j sh' d := by
  obtain ⟨p, hp, hmem⟩ := h
  exact ⟨p, hp, hmono p hmem⟩

variable {next : Option Job} {u : Update}

theorem Prepared.mono (h : Prepared j sh u next)
    (hmono : ∀ p, (j, p) ∈ sh.secured → (j, p) ∈ sh'.secured) : Prepared j sh' u next := by
  refine ⟨h.canonical, fun job hjob => ?_⟩
  obtain ⟨n, hu, hsecured⟩ := h.secured job hjob
  exact ⟨n, hu, fun d hd => (hsecured d hd).mono hmono⟩

theorem Known.stable (hj : j ≠ i) (hleaves : Leaves handle i sh sh')
    (h : Known handle j sh pc) : Known handle j sh' pc := by
  have hmono : ∀ p, (j, p) ∈ sh.secured → (j, p) ∈ sh'.secured := fun p => hleaves.secured j p hj
  cases pc with
  | hasBlob job todo => exact ⟨h.1, fun d hd => (h.2 d hd).imp_right (·.mono hmono)⟩
  | writeBlob job p todo =>
    exact ⟨h.1, fun d hd => (h.2 d hd).imp_right (·.imp_right (·.mono hmono))⟩
  | writeManifest job | readIndex job => exact ⟨h.1, fun d hd => (h.2 d hd).mono hmono⟩
  | writeIndex job index => exact ⟨⟨h.1.1, fun d hd => (h.1.2 d hd).mono hmono⟩, h.2⟩
  | lock task =>
    cases task with
    | update u next => exact Prepared.mono h hmono
    | collect => trivial
  | readRefs u next => exact ⟨(hleaves.locked j hj h.1).1, h.2.mono hmono⟩
  | writeRefs u refs next =>
    obtain ⟨hlocked, hrefs⟩ := hleaves.locked j hj h.1
    exact ⟨hlocked, h.2.1.trans hrefs.symm, h.2.2.mono hmono⟩
  | unlock next | collectRefs => exact (hleaves.locked j hj h).1
  | unpack job todo | done => trivial
  | collectBlobs refs | collectIndex refs =>
    obtain ⟨hlocked, hrefs⟩ := hleaves.locked j hj h.1
    exact ⟨hlocked, h.2.trans hrefs.symm⟩
  | collectManifests refs index todo kept =>
    obtain ⟨hlocked, hrefs⟩ := hleaves.locked j hj h.1
    exact ⟨hlocked, h.2.1.trans hrefs.symm, h.2.2⟩
  | collectWrite kept => exact ⟨(hleaves.locked j hj h.1).1, h.2⟩

theorem leaves_of_eq (hlocks : sh'.locks = sh.locks) (hrefs : sh'.refs = sh.refs)
    (hsecured : ∀ j p, j ≠ i → (j, p) ∈ sh.secured → (j, p) ∈ sh'.secured) :
    Leaves handle i sh sh' :=
  ⟨hsecured, fun j _ h => ⟨by rw [hlocks, h], hrefs⟩⟩

theorem leaves_refl (hlocks : sh'.locks = sh.locks) (hrefs : sh'.refs = sh.refs)
    (hsecured : sh'.secured = sh.secured) : Leaves handle i sh sh' :=
  leaves_of_eq hlocks hrefs fun _ _ _ h => hsecured ▸ h

variable {p : Place}

theorem mem_abandon (hj : j ≠ i) (h : (j, p) ∈ sh.secured) : (j, p) ∈ (sh.abandon i).secured :=
  List.mem_filter.mpr ⟨h, bne_iff_ne.mpr hj⟩

theorem leaves_abandon : Leaves handle i sh (sh.abandon i) :=
  leaves_of_eq rfl rfl fun _ _ hj => mem_abandon hj

theorem leaves_secure : Leaves handle i sh (sh.secure i p) :=
  leaves_of_eq rfl rfl fun _ _ _ => List.mem_cons_of_mem _

theorem leaves_of_lock (hone : ∀ i j, handle i = handle j)
    (hlock : sh.locks (handle i) = some i ∨ sh.locks (handle i) = none)
    (hsecured : ∀ j p, j ≠ i → (j, p) ∈ sh.secured → (j, p) ∈ sh'.secured) :
    Leaves handle i sh sh' := by
  refine ⟨hsecured, fun j hj h => ?_⟩
  rw [hone j i] at h
  rcases hlock with hlock | hlock
  · exact absurd (Option.some.inj (h.symm.trans hlock)) hj
  · cases h.symm.trans hlock

/-! ## Steps of a pull -/

theorem secured_secure {d : Str} (h : Secured i sh d) : Secured i (sh.secure i p) d :=
  h.mono fun _ => List.mem_cons_of_mem _

/-- What a step makes of the invariant. -/
def Steps (handle : ℕ → ℕ) (i : ℕ) (sh : Files) (pc : Pc) (answer : Answer) : Prop :=
  Known handle i sh pc → ∀ sh' pc', act handle i sh pc answer = some (sh', pc') →
    Good sh' ∧ Known handle i sh' pc' ∧ Leaves handle i sh sh'

variable {todo : List Str}

theorem act_hasBlob (hgood : Good sh) : Steps handle i sh (.hasBlob job todo) answer := by
  intro hknown sh' pc' h
  cases todo with
  | nil =>
    cases h
    refine ⟨hgood, ⟨hknown.1, fun d hd => ?_⟩, leaves_refl rfl rfl rfl⟩
    exact (hknown.2 d hd).resolve_left List.not_mem_nil
  | cons digest todo =>
    unfold act at h
    dsimp only at h
    split at h
    · cases h
      exact ⟨hgood.abandon, trivial, leaves_abandon⟩
    next p hp =>
      split at h <;> cases h
      next hmem =>
        refine ⟨hgood.secure (List.contains_iff_mem.mp hmem), ⟨hknown.1, fun d hd => ?_⟩,
          leaves_secure⟩
        rcases hknown.2 d hd with htodo | hsecured
        · rcases List.mem_cons.mp htodo with rfl | htodo
          · exact .inr ⟨p, hp, List.mem_cons_self⟩
          · exact .inl htodo
        · exact .inr (secured_secure hsecured)
      · refine ⟨hgood, ⟨hknown.1, fun d hd => ?_⟩, leaves_refl rfl rfl rfl⟩
        rcases hknown.2 d hd with htodo | hsecured
        · rcases List.mem_cons.mp htodo with rfl | htodo
          · exact .inr (.inl hp)
          · exact .inl htodo
        · exact .inr (.inr hsecured)

theorem act_writeBlob (hgood : Good sh) : Steps handle i sh (.writeBlob job p todo) answer := by
  intro hknown sh' pc' h
  cases answer with
  | ok =>
    cases h
    refine ⟨hgood.addBlob.secure List.mem_cons_self, ⟨hknown.1, fun d hd => ?_⟩,
      leaves_of_eq rfl rfl fun _ _ _ => List.mem_cons_of_mem _⟩
    rcases hknown.2 d hd with htodo | hp | hsecured
    · exact .inl htodo
    · exact .inr ⟨p, hp, List.mem_cons_self⟩
    · exact .inr (hsecured.mono fun _ => List.mem_cons_of_mem _)
  | fail | visit =>
    cases h
    exact ⟨hgood.abandon, trivial, leaves_abandon⟩

theorem act_writeManifest (hgood : Good sh) : Steps handle i sh (.writeManifest job) answer := by
  intro hknown sh' pc' h
  cases answer with
  | ok =>
    unfold act at h
    dsimp only at h
    split at h <;> cases h
    · exact ⟨hgood.abandon, trivial, leaves_abandon⟩
    · exact ⟨hgood.with_manifests _, hknown, leaves_refl rfl rfl rfl⟩
  | fail | visit =>
    cases h
    exact ⟨hgood.abandon, trivial, leaves_abandon⟩

theorem mem_upsertID {index : List Str} {id id' : Str} (h : id' ∈ upsertID index id) :
    id' ∈ index ∨ id' = id := by
  rw [upsertID] at h
  split at h
  · exact .inl h
  · simpa using h

theorem act_writeIndex {index : List Str} (hgood : Good sh) :
    Steps handle i sh (.writeIndex job index) answer := by
  intro hknown sh' pc' h
  obtain ⟨⟨hcanon, hsecured⟩, hindex⟩ := hknown
  have hids : ∀ id ∈ upsertID index job.digest, Canonical id := by
    intro id hid
    rcases mem_upsertID hid with hid | rfl
    · exact hindex id hid
    · exact hcanon.1
  cases answer with
  | ok =>
    unfold act at h
    dsimp only at h
    split at h <;> cases h
    · exact ⟨(hgood.with_index hids).abandon, trivial,
        leaves_of_eq rfl rfl fun _ _ hj => mem_abandon hj⟩
    · refine ⟨hgood.with_index hids, ⟨canonical_ref hcanon.1 hcanon.2, ?_⟩, leaves_refl rfl rfl rfl⟩
      rintro _ ⟨⟩
      exact ⟨_, rfl, hsecured⟩
  | fail | visit =>
    cases h
    exact ⟨hgood.abandon, trivial, leaves_abandon⟩

theorem Prepared.there (hgood : Good sh) (h : Prepared i sh u next)
    (hnext : next.isSome = true) : u.There sh := by
  obtain ⟨job, rfl⟩ := Option.isSome_iff_exists.mp hnext
  obtain ⟨n, rfl, hsecured⟩ := h.secured job rfl
  intro b hb p hp
  obtain ⟨d, hd, rfl⟩ := mem_uniqueDigests hb
  obtain ⟨q, hq, hmem⟩ := hsecured d hd
  rw [parseDigest_trimSpace] at hp
  obtain rfl := Option.some.inj (hp.symm.trans hq)
  exact hgood.secured _ hmem

/-! ## Steps under the lock -/

theorem act_lock {task : Task} (hone : ∀ i j, handle i = handle j) (hgood : Good sh) :
    Steps handle i sh (.lock task) answer := by
  intro hknown sh' pc' h
  unfold act at h
  dsimp only at h
  split at h <;> cases h
  next hfree =>
    have hlocked : (sh.setLock (handle i) (some i)).locks (handle i) = some i := if_pos rfl
    refine ⟨hgood.setLock _ _, ?_, leaves_of_lock hone (.inr (by simpa using hfree))
      fun _ _ _ => id⟩
    cases task with
    | update u next => exact ⟨hlocked, Prepared.mono hknown fun _ => id⟩
    | collect => exact hlocked

theorem act_readRefs (hgood : Good sh) : Steps handle i sh (.readRefs u next) answer := by
  intro hknown sh' pc' h
  unfold act at h
  dsimp only at h
  split at h <;> cases h
  · exact ⟨hgood, ⟨hknown.1, rfl, hknown.2⟩, leaves_refl rfl rfl rfl⟩
  next hwrites =>
    refine ⟨hgood.complete (Bool.eq_false_iff.mpr hwrites), ?_, ?_⟩
    · cases u <;> exact hknown.1
    · cases u <;> exact leaves_refl rfl rfl rfl

variable {refs : Refs}

theorem act_writeRefs (hone : ∀ i j, handle i = handle j) (hgood : Good sh) :
    Steps handle i sh (.writeRefs u refs next) answer := by
  intro hknown sh' pc' h
  obtain ⟨hlocked, rfl, hprepared⟩ := hknown
  cases answer with
  | ok =>
    cases h
    refine ⟨(hgood.update hprepared.canonical (hprepared.there hgood)).abandon, ?_,
      leaves_of_lock hone (.inl hlocked) fun j p hj hmem => ?_⟩
    · cases u <;> exact hlocked
    · cases u <;> exact mem_abandon hj hmem
  | fail | visit =>
    cases h
    exact ⟨hgood.abandon, hlocked, leaves_abandon⟩

theorem act_unlock (hone : ∀ i j, handle i = handle j) (hgood : Good sh) :
    Steps handle i sh (.unlock next) answer := by
  intro hknown sh' pc' h
  cases h
  refine ⟨hgood.setLock _ _, ?_, leaves_of_lock hone (.inl hknown) fun _ _ _ => id⟩
  cases next with
  | none | some job => trivial

theorem act_unpack (hgood : Good sh) : Steps handle i sh (.unpack job todo) answer := by
  intro _ sh' pc' h
  have hdone : some (sh, Pc.done) = some (sh', pc') →
      Good sh' ∧ Known handle i sh' pc' ∧ Leaves handle i sh sh' := by
    rintro ⟨⟩
    exact ⟨hgood, trivial, leaves_refl rfl rfl rfl⟩
  cases answer with
  | ok =>
    cases todo with
    | nil =>
      cases h
      exact ⟨hgood.with_succeeded _, trivial, leaves_refl rfl rfl rfl⟩
    | cons digest todo =>
      unfold act at h
      dsimp only at h
      split at h
      · exact hdone h
      · split at h
        · cases h
          exact ⟨hgood, trivial, leaves_refl rfl rfl rfl⟩
        · exact hdone h
  | fail | visit =>
    cases todo with
    | nil | cons => exact hdone h

/-! ## Steps of a collection -/

theorem act_collectBlobs (hgood : Good sh) (hcareful : Careful sh (.collectBlobs refs) answer) :
    Steps handle i sh (.collectBlobs refs) answer := by
  intro hknown sh' pc' h
  cases answer with
  | visit p =>
    unfold act at h
    dsimp only at h
    split at h <;> cases h
    · exact ⟨hgood, hknown, leaves_refl rfl rfl rfl⟩
    next hused =>
      have hunused := Bool.eq_false_iff.mpr hused
      refine ⟨hgood.removeBlob ?_ (hcareful hunused), hknown, leaves_refl rfl rfl rfl⟩
      rw [← hknown.2]
      exact fun hmem => hused (List.contains_iff_mem.mpr hmem)
  | ok | fail =>
    cases h
    exact ⟨hgood, hknown, leaves_refl rfl rfl rfl⟩

theorem act_collectManifests {index todo kept : List Str} (hgood : Good sh) :
    Steps handle i sh (.collectManifests refs index todo kept) answer := by
  intro hknown sh' pc' h
  obtain ⟨hlocked, hrefs, hids⟩ := hknown
  cases todo with
  | nil =>
    cases h
    refine ⟨hgood, ?_, leaves_refl rfl rfl rfl⟩
    split
    · exact hlocked
    · exact ⟨hlocked, hids⟩
  | cons id todo =>
    have hrest : ∀ id' ∈ todo ++ kept, Canonical id' := fun id' h => hids id' (by simp_all)
    unfold act at h
    dsimp only at h
    split at h
    · cases h
      refine ⟨hgood, ⟨hlocked, hrefs, fun id' hid' => hids id' ?_⟩, leaves_refl rfl rfl rfl⟩
      simp only [List.mem_append, List.mem_cons] at hid' ⊢
      tauto
    next hused =>
      split at h <;> cases h
      · exact ⟨hgood, ⟨hlocked, hrefs, hrest⟩, leaves_refl rfl rfl rfl⟩
      next p hp =>
        refine ⟨hgood.removeManifest (hids id (by simp)) (fun hmem => hused ?_) hp,
          ⟨hlocked, hrefs, hrest⟩, leaves_refl rfl rfl rfl⟩
        rw [hrefs]
        exact List.contains_iff_mem.mpr hmem

/-- **A step of a thread**, with one `Store` value. -/
theorem known_act (hone : ∀ i j, handle i = handle j) (hgood : Good sh)
    (hcareful : Careful sh pc answer) : Steps handle i sh pc answer := by
  cases pc with
  | hasBlob => exact act_hasBlob hgood
  | writeBlob => exact act_writeBlob hgood
  | writeManifest => exact act_writeManifest hgood
  | readIndex job =>
    rintro hknown _ _ ⟨⟩
    exact ⟨hgood, ⟨hknown, hgood.index⟩, leaves_refl rfl rfl rfl⟩
  | writeIndex => exact act_writeIndex hgood
  | lock => exact act_lock hone hgood
  | readRefs => exact act_readRefs hgood
  | writeRefs => exact act_writeRefs hone hgood
  | unlock => exact act_unlock hone hgood
  | unpack => exact act_unpack hgood
  | collectRefs =>
    rintro hknown _ _ ⟨⟩
    exact ⟨hgood, ⟨hknown, rfl⟩, leaves_refl rfl rfl rfl⟩
  | collectBlobs => exact act_collectBlobs hgood hcareful
  | collectIndex refs =>
    rintro hknown _ _ ⟨⟩
    exact ⟨hgood, ⟨hknown.1, hknown.2, by simpa using hgood.index⟩, leaves_refl rfl rfl rfl⟩
  | collectManifests => exact act_collectManifests hgood
  | collectWrite kept =>
    rintro hknown _ _ ⟨⟩
    exact ⟨hgood.with_index hknown.2, hknown.1, leaves_refl rfl rfl rfl⟩
  | done => exact fun _ _ _ h => nomatch h

end Threads

/-! ## Safety -/

theorem known_start {handle : ℕ → ℕ} {calls : List Call} (hcalls : ∀ c ∈ calls, c.Canonical) :
    Threads.Holds Good (Known handle) (start calls) := by
  refine ⟨good_empty, fun i t ht => ?_⟩
  obtain ⟨call, hmem, rfl⟩ := List.mem_map.mp (List.mem_of_getElem? ht)
  have hcall := hcalls call hmem
  cases call with
  | pull job => exact ⟨hcall, fun d hd => .inl hd⟩
  | track n digest blobs =>
    rw [Call.pc]
    split
    · trivial
    · exact ⟨canonical_ref hcall.1 hcall.2, fun _ h => nomatch h⟩
  | release n =>
    rw [Call.pc]
    split
    · trivial
    · exact ⟨trivial, fun _ h => nomatch h⟩
  | collectUnused => trivial

/-- **Every interleaving is safe** when all threads share one `Store` value, all digests are
canonical, and no collection removes what a pull is about to claim. -/
theorem safe_of_careful (handle : ℕ → ℕ) (hone : ∀ i j, handle i = handle j) (calls : List Call)
    (hcalls : ∀ c ∈ calls, c.Canonical) (as : List (ℕ × Answer))
    (hcareful : Along (step handle) (Threads.Meets Careful) (start calls) as) :
    Throughout (step handle) (fun s => Safe s.shared) (start calls) as := by
  refine throughout_of_along (fun _ (h : Threads.Holds Good (Known handle) _) => h.shared.safe)
    (fun s a s' h hok hstep => ?_) (known_start hcalls) hcareful
  refine h.step (G := Leaves handle) ?_ ?_ hok hstep
  · intro i sh pc answer sh' pc' hgood hknown hcareful hact
    exact known_act hone hgood hcareful hknown _ _ hact
  · intro i j sh sh' pc hj hleaves hknown
    exact hknown.stable hj hleaves

/-! ## Runs -/

instance decidableCareful (sh : Files) :
    ∀ (pc : Pc) (answer : Answer), Decidable (Careful sh pc answer)
  | .collectBlobs _, .visit _ => inferInstanceAs (Decidable (_ → _))
  | .collectBlobs _, .ok | .collectBlobs _, .fail | .hasBlob .., _ | .writeBlob .., _
  | .writeManifest _, _ | .readIndex _, _ | .writeIndex .., _ | .lock _, _ | .readRefs .., _
  | .writeRefs .., _ | .unlock _, _ | .unpack .., _ | .collectRefs, _ | .collectIndex _, _
  | .collectManifests .., _ | .collectWrite _, _ | .done, _ => isTrue trivial

def layerJob (name : String) (c : Char) : Job := ⟨name.toList, sha c, [], [sha c]⟩

def configJob : Job := ⟨"m".toList, sha 'a', sha 'b', [sha 'a']⟩

def go (i n : ℕ) : List (ℕ × Answer) := List.replicate n (i, .ok)

theorem canonical_of_eq (hp : parseDigest d = some p) (h : d = p.text) :
    Canonical d := fun _ hq => Option.some.inj (hp.symm.trans hq) ▸ h

theorem canonical_sha_a : Canonical (sha 'a') := canonical_of_eq (p := place 'a') (by decide) rfl

/-- A pull with a collection after it, on one `Store` value. -/
theorem safe_after_pull :
    (∀ c ∈ [Call.pull (layerJob "m" 'a'), .collectUnused], c.Canonical) ∧
      Throughout (step fun _ => 0) (fun s => Safe s.shared)
        (start [.pull (layerJob "m" 'a'), .collectUnused])
        (go 0 12 ++ go 1 2 ++ [(1, .visit (place 'a')), (1, .visit (place 'b'))] ++ go 1 5) := by
  have hcalls : ∀ c ∈ [Call.pull (layerJob "m" 'a'), .collectUnused], c.Canonical := by
    intro c hc
    rcases List.mem_cons.mp hc with rfl | hc
    · refine ⟨canonical_sha_a, fun d hd => ?_⟩
      obtain rfl : d = sha 'a' := List.mem_singleton.mp hd
      exact canonical_sha_a
    · rw [List.mem_singleton.mp hc]
      trivial
  exact ⟨hcalls, safe_of_careful _ (fun _ _ => rfl) _ hcalls _ (of_decide_eq_true rfl)⟩

/-- With two `Store` values a claim is lost. A claim of a digest in upper case does not keep its
blob. And a blob that was removed before it was claimed is missing, although the pull succeeds. -/
theorem store_unsafe :
    (∃ s, run (step id) (start [.track "a".toList (sha 'a') [], .track "b".toList (sha 'b') []])
        (go 0 2 ++ go 1 3 ++ go 0 1) = some s ∧
      (∃ c ∈ s.shared.claims, (c.modelName, c.ref) ∉ s.shared.refs)) ∧
    (∃ s, run (step fun _ => 0) (start [.pull (layerJob "m" 'A'), .collectUnused])
        (go 0 12 ++ go 1 2 ++ [(1, .visit (place 'a'))]) = some s ∧
      s.shared.wronged = [place 'a']) ∧
    ∃ s, run (step fun _ => 0) (start [.pull configJob, .collectUnused])
        (go 0 4 ++ go 1 2 ++ [(1, .visit (place 'b'))] ++ go 1 4 ++ go 0 10) = some s ∧
      s.shared.succeeded = [("m".toList, configJob.ref)] ∧ ¬ Safe s.shared := by
  refine ⟨?_, ?_, ?_⟩
  · have h : (run (step id)
        (start [.track "a".toList (sha 'a') [], .track "b".toList (sha 'b') []])
        (go 0 2 ++ go 1 3 ++ go 0 1)).any (fun s => s.shared.claims.rows.any fun c =>
          !s.shared.refs.rows.contains (c.modelName, c.ref)) = true := rfl
    obtain ⟨s, hs, hlost⟩ := (Option.any_eq_true _ _).mp h
    obtain ⟨c, hc, hnot⟩ := List.any_eq_true.mp hlost
    have hnot : (c.modelName, c.ref) ∉ s.shared.refs.rows := by simpa using hnot
    exact ⟨s, hs, c, hc, hnot⟩
  · have h : (run (step fun _ => 0) (start [.pull (layerJob "m" 'A'), .collectUnused])
        (go 0 12 ++ go 1 2 ++ [(1, .visit (place 'a'))])).any
          (fun s => s.shared.wronged = [place 'a']) = true := rfl
    obtain ⟨s, hs, hwronged⟩ := (Option.any_eq_true _ _).mp h
    exact ⟨s, hs, of_decide_eq_true hwronged⟩
  · have h : (run (step fun _ => 0) (start [.pull configJob, .collectUnused])
        (go 0 4 ++ go 1 2 ++ [(1, .visit (place 'b'))] ++ go 1 4 ++ go 0 10)).any
          (fun s => s.shared.succeeded = [("m".toList, configJob.ref)] ∧
            s.shared.claims.rows = [⟨"m".toList, configJob.ref, true⟩] ∧
            s.shared.blobs = [place 'a']) = true := rfl
    obtain ⟨s, hs, hfiles⟩ := (Option.any_eq_true _ _).mp h
    obtain ⟨hsucceeded, hclaims, hblobs⟩ := of_decide_eq_true hfiles
    refine ⟨s, hs, hsucceeded, fun hsafe => ?_⟩
    have hmem := hsafe.there ("m".toList, configJob.ref) (hsucceeded ▸ List.mem_singleton_self _)
      (show _ ∈ s.shared.claims.rows from hclaims ▸ List.mem_singleton_self _)
      (sha 'b') (by decide) (place 'b') (by decide)
    rw [hblobs] at hmem
    exact absurd hmem (by decide)

end Edgelet.ModelPull
