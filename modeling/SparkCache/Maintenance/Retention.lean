import SparkCache.Maintenance.Selection

/-!
# What a pass retains

The bytes of the files that some roots keep alive, counted over the inventory
and over the files themselves.
-/
namespace SparkCache.Maintenance

/-! ## Sums over listings -/

/-- The allocated bytes of some listed files. -/
def weigh (listed : List (Path × StoredFile)) : ℕ := (listed.map fun e => allocatedBytes e.2).sum

theorem weigh_perm {a b : List (Path × StoredFile)} (h : a.Perm b) : weigh a = weigh b :=
  (h.map _).sum_eq

theorem sum_filter_add {α : Type} (f : α → ℕ) (p : α → Bool) (l : List α) :
    ((l.filter p).map f).sum + ((l.filter fun a => !p a).map f).sum = (l.map f).sum := by
  induction l with
  | nil => rfl
  | cons a rest ih =>
      cases hp : p a with
      | true =>
          rw [List.filter_cons_of_pos hp, List.filter_cons_of_neg (by simp [hp]), List.map_cons,
            List.map_cons, List.sum_cons, List.sum_cons]
          omega
      | false =>
          rw [List.filter_cons_of_neg (by simp [hp]), List.filter_cons_of_pos (by simp [hp]),
            List.map_cons, List.map_cons, List.sum_cons, List.sum_cons]
          omega

/-- A listing without its order. -/
theorem listing_perm (files : Files) (keep : Path → Bool) :
    (listing files keep).Perm ((files.entries.map fun e => (e.1, e.2)).filter fun e => keep e.1) :=
  List.perm_insertionSort _ _

theorem mem_listing {files : Files} {keep : Path → Bool} {path : Path} {file : StoredFile} :
    (path, file) ∈ listing files keep ↔ files.lookup path = some file ∧ keep path = true := by
  rw [(listing_perm files keep).mem_iff, List.mem_filter, AList.lookup_eq_some_iff]
  simp

theorem entries_paths_nodup (files : Files) :
    ((files.entries.map fun e => (e.1, e.2)).map Prod.fst).Nodup := by
  rw [List.map_map]
  exact files.nodupKeys

theorem listing_nodup (files : Files) (keep : Path → Bool) :
    ((listing files keep).map Prod.fst).Nodup := by
  rw [((listing_perm files keep).map Prod.fst).nodup_iff]
  exact (entries_paths_nodup files).sublist (List.filter_sublist.map _)

/-- Every file is of one kind. -/
theorem weigh_kinds (listed : List (Path × StoredFile)) :
    weigh listed =
      weigh (listed.filter fun e => isRoot .manifest e.1) +
      weigh (listed.filter fun e => isRoot .prefixAlias e.1) +
      weigh (listed.filter fun e => isDebris .manifest e.1) +
      weigh (listed.filter fun e => isDebris .prefixAlias e.1) +
      weigh (listed.filter fun e => isSegment e.1) +
      weigh (listed.filter fun e => isChunk e.1) := by
  induction listed with
  | nil => rfl
  | cons e rest ih =>
      obtain ⟨path, file⟩ := e
      have hcons : ∀ keep : Path → Bool, weigh (((path, file) :: rest).filter fun e => keep e.1) =
          (if keep path = true then allocatedBytes file else 0) +
            weigh (rest.filter fun e => keep e.1) := by
        intro keep
        rw [List.filter_cons]
        split_ifs
        · rfl
        · rw [Nat.zero_add]
      rw [hcons, hcons, hcons, hcons, hcons, hcons]
      have hweigh : weigh ((path, file) :: rest) = allocatedBytes file + weigh rest := rfl
      rw [hweigh, ih]
      cases path with
      | root kind directory name =>
          cases kind with
          | manifest =>
              cases hjson : (Path.root .manifest directory name).isJson <;>
                simp [isRoot, isDebris, isSegment, isChunk, hjson] <;> omega
          | prefixAlias =>
              cases hjson : (Path.root .prefixAlias directory name).isJson <;>
                simp [isRoot, isDebris, isSegment, isChunk, hjson] <;> omega
      | segment directory name =>
          simp [isRoot, isDebris, isSegment, isChunk]
          omega
      | chunk name =>
          simp [isRoot, isDebris, isSegment, isChunk]
          omega

/-! ## Objects -/

namespace Objects
variable {ν : Type} [DecidableEq ν]

/-- A reference means at most one file, which is listed once. -/
structure Sound (objects : Objects ν) : Prop where
  nodup : (objects.sizes.map Prod.fst).Nodup
  reference : ∀ {r : ν} {path : Path}, objects.canonical.lookup r = some path →
    objects.reference path = r

theorem lookup_of_mem {sizes : List (Path × ℕ)} (h : (sizes.map Prod.fst).Nodup) {path : Path}
    {n : ℕ} (hmem : (path, n) ∈ sizes) : sizes.lookup path = some n := by
  induction sizes with
  | nil => cases hmem
  | cons e rest ih =>
      rw [List.map_cons, List.nodup_cons] at h
      rw [List.lookup_cons]
      rcases List.mem_cons.mp hmem with rfl | hmem
      · simp
      · have hne : path ≠ e.1 := fun heq => h.1 (heq ▸ List.mem_map_of_mem hmem)
        rw [beq_false_of_ne hne]
        exact ih h.2 hmem

theorem lookup_of_notMem {sizes : List (Path × ℕ)} {path : Path}
    (h : path ∉ sizes.map Prod.fst) : sizes.lookup path = none := by
  rw [List.lookup_eq_none_iff]
  intro e he
  have hne : path ≠ e.1 := fun heq => h (heq ▸ List.mem_map_of_mem he)
  simpa using hne

/-- The sizes of the referenced objects, summed over the references or over the files. -/
theorem sum_size (canonical : Dictionary ν Path) (reference : Path → ν)
    (hreference : ∀ {r path}, canonical.lookup r = some path → reference path = r)
    (referenced : Finset ν) {sizes : List (Path × ℕ)} (hnodup : (sizes.map Prod.fst).Nodup) :
    (∑ r ∈ referenced, Objects.size ⟨sizes, reference, canonical⟩ r) =
      ((sizes.filter fun e => decide (canonical.lookup (reference e.1) = some e.1 ∧
        reference e.1 ∈ referenced)).map Prod.snd).sum := by
  induction sizes with
  | nil =>
      apply Finset.sum_eq_zero
      intro r _
      unfold Objects.size
      cases canonical.lookup r <;> rfl
  | cons e rest ih =>
      obtain ⟨path, n⟩ := e
      rw [List.map_cons, List.nodup_cons] at hnodup
      have hsize : ∀ r, Objects.size ⟨(path, n) :: rest, reference, canonical⟩ r =
          (if canonical.lookup r = some path then n else 0) +
            Objects.size ⟨rest, reference, canonical⟩ r := by
        intro r
        unfold Objects.size
        cases hlookup : canonical.lookup r with
        | none => simp
        | some other =>
            dsimp only
            rw [List.lookup_cons]
            by_cases hother : other = path
            · subst hother
              rw [lookup_of_notMem hnodup.1]
              simp
            · rw [beq_false_of_ne hother, if_neg (by simpa using hother), Nat.zero_add]
      have hpath : (∑ r ∈ referenced, if canonical.lookup r = some path then n else 0) =
          if canonical.lookup (reference path) = some path ∧ reference path ∈ referenced then n
          else 0 := by
        split_ifs with h
        · rw [Finset.sum_eq_single_of_mem _ h.2, if_pos h.1]
          intro r _ hr
          exact if_neg fun hlookup => hr (hreference hlookup).symm
        · apply Finset.sum_eq_zero
          intro r hr
          refine if_neg fun hlookup => h ?_
          rw [hreference hlookup]
          exact ⟨hlookup, hr⟩
      rw [Finset.sum_congr rfl fun r _ => hsize r, Finset.sum_add_distrib, hpath, ih hnodup.2,
        List.filter_cons]
      split_ifs with h₁ h₂ h₂
      · rfl
      · exact absurd (decide_eq_true h₁) h₂
      · exact absurd (of_decide_eq_true h₂) h₁
      · exact Nat.zero_add _

variable {objects : Objects ν}

theorem orphan_count (refs : List ν) (path : Path) :
    (!objects.orphan (References.count refs) path) =
      decide (objects.canonical.lookup (objects.reference path) = some path ∧
        objects.reference path ∈ refs.toFinset) := by
  rw [orphan, ← decide_not, decide_eq_decide, not_or, not_not, References.count_eq_zero, not_not,
    List.mem_toFinset]

theorem retained_count (refs : List ν) (path : Path) :
    objects.retained (References.count refs) path =
      decide (objects.canonical.lookup (objects.reference path) = some path ∧
        objects.reference path ∈ refs.toFinset) := by
  rw [retained, decide_eq_decide, References.count_pos, List.mem_toFinset]

/-- What is not orphaned is live. -/
theorem Sound.live (h : objects.Sound) (refs : List ν) :
    References.live objects.size refs =
      ((objects.sizes.filter fun e => objects.retained (References.count refs) e.1).map
        Prod.snd).sum := by
  have hsum := sum_size objects.canonical objects.reference h.reference refs.toFinset h.nodup
  simp only [retained_count]
  exact hsum

theorem Sound.bytes_eq (h : objects.Sound) (refs : List ν) :
    objects.bytes = objects.orphanBytes (References.count refs) +
      References.live objects.size refs := by
  have hfilter : (fun e : Path × ℕ => objects.retained (References.count refs) e.1) =
      fun e => !objects.orphan (References.count refs) e.1 := by
    ext e
    rw [retained_count, orphan_count]
  rw [h.live, hfilter, bytes, orphanBytes]
  exact (sum_filter_add Prod.snd _ objects.sizes).symm

/-- The paths that are removed, and their sizes. -/
theorem Sound.removed_add (h : objects.Sound) (refs : List ν) :
    sizesOf objects.sizes ((objects.sizes.map Prod.fst).filter fun path =>
        !objects.retained (References.count refs) path) + References.live objects.size refs =
      objects.bytes := by
  have hsizes : sizesOf objects.sizes ((objects.sizes.map Prod.fst).filter fun path =>
      !objects.retained (References.count refs) path) =
      ((objects.sizes.filter fun e => !objects.retained (References.count refs) e.1).map
        Prod.snd).sum := by
    rw [sizesOf, List.filter_map, List.map_map]
    congr 1
    apply List.map_congr_left
    intro e he
    show (objects.sizes.lookup e.1).getD 0 = e.2
    rw [lookup_of_mem h.nodup (List.mem_of_mem_filter he)]
    rfl
  rw [hsizes, h.live, Nat.add_comm]
  exact sum_filter_add Prod.snd _ objects.sizes

end Objects

/-! ## Canonical names -/

namespace Objects
variable {ν : Type} [DecidableEq ν]

/-- Canonical files enter the dictionary under their references. -/
theorem lookup_foldl_insert {reference : Path → ν} {isCanonical : Path → Bool}
    {listed : List (Path × StoredFile)} {d : Dictionary ν Path}
    (hd : ∀ {r path}, d.lookup r = some path → isCanonical path = true ∧ reference path = r)
    {r : ν} {path : Path}
    (h : (listed.foldl (fun d e => if isCanonical e.1 then d.insert (reference e.1) e.1 else d)
      d).lookup r = some path) : isCanonical path = true ∧ reference path = r := by
  induction listed generalizing d with
  | nil => exact hd h
  | cons e rest ih =>
      refine ih (fun {r path} hlookup => ?_) h
      dsimp only at hlookup
      split_ifs at hlookup with hcanonical
      · rcases AList.lookup_insert_some hlookup with ⟨rfl, rfl⟩ | ⟨-, hlookup⟩
        · exact ⟨hcanonical, rfl⟩
        · exact hd hlookup
      · exact hd hlookup

theorem isSome_foldl_insert {reference : Path → ν} {isCanonical : Path → Bool}
    {listed : List (Path × StoredFile)} {d : Dictionary ν Path} {r : ν}
    (h : (d.lookup r).isSome = true ∨
      ∃ e ∈ listed, isCanonical e.1 = true ∧ reference e.1 = r) :
    ((listed.foldl (fun d e => if isCanonical e.1 then d.insert (reference e.1) e.1 else d)
      d).lookup r).isSome = true := by
  induction listed generalizing d with
  | nil => simpa using h
  | cons e rest ih =>
      refine ih ?_
      rcases h with h | ⟨e', he', hcanonical, hreference⟩
      · left
        dsimp only
        split_ifs
        · by_cases hr : r = reference e.1
          · rw [hr, AList.lookup_insert]
            rfl
          · rwa [AList.lookup_insert_ne hr]
        · exact h
      · rcases List.mem_cons.mp he' with rfl | he'
        · left
          dsimp only
          rw [if_pos hcanonical, ← hreference, AList.lookup_insert]
          rfl
        · exact .inr ⟨e', he', hcanonical, hreference⟩

theorem ofListing_reference {listed : List (Path × StoredFile)} {reference : Path → ν}
    {isCanonical : Path → Bool} {r : ν} {path : Path}
    (h : (ofListing listed reference isCanonical).canonical.lookup r = some path) :
    isCanonical path = true ∧ reference path = r :=
  lookup_foldl_insert (fun {r path} hlookup => by simp at hlookup) h

theorem ofListing_sound (files : Files) (keep : Path → Bool) (reference : Path → ν)
    (isCanonical : Path → Bool) :
    (ofListing (listing files keep) reference isCanonical).Sound := by
  refine ⟨?_, fun h => (ofListing_reference h).2⟩
  have hnodup := listing_nodup files keep
  rwa [ofListing, List.map_map]

/-- Where references tell canonical files apart, a listed file is the one its reference means
exactly if its name is canonical. -/
theorem ofListing_canonical {listed : List (Path × StoredFile)} {reference : Path → ν}
    {isCanonical : Path → Bool}
    (hinjective : ∀ {p q}, isCanonical p = true → isCanonical q = true →
      reference p = reference q → p = q) {e : Path × StoredFile} (he : e ∈ listed) :
    (ofListing listed reference isCanonical).canonical.lookup (reference e.1) = some e.1 ↔
      isCanonical e.1 = true := by
  constructor
  · intro h
    exact (ofListing_reference h).1
  · intro h
    have hsome : ((ofListing listed reference isCanonical).canonical.lookup
        (reference e.1)).isSome = true :=
      isSome_foldl_insert (.inr ⟨e, he, h, rfl⟩)
    obtain ⟨path, hpath⟩ := Option.isSome_iff_exists.mp hsome
    obtain ⟨hcanonical, hreference⟩ := ofListing_reference hpath
    rw [hpath, hinjective hcanonical h hreference]

end Objects

theorem name_codes (path : Path) : path.name.codes = path.stem.codes ++ path.suffix.codes :=
  (List.take_append_drop _ _).symm

theorem name_eq {p q : Path} (hstem : p.stem = q.stem) (hsuffix : p.suffix = q.suffix) :
    p.name = q.name := by
  apply Str.codes_injective
  rw [name_codes, name_codes, hstem, hsuffix]

theorem isCanonicalChunk_injective {p q : Path} (hp : isCanonicalChunk p = true)
    (hq : isCanonicalChunk q = true) (h : p.stem = q.stem) : p = q := by
  simp only [isCanonicalChunk, Bool.and_eq_true, decide_eq_true_eq] at hp hq
  have hname := name_eq h (hp.1.2.trans hq.1.2.symm)
  cases p with
  | chunk p =>
      cases q with
      | chunk q => exact congrArg Path.chunk hname
      | root | segment => simp [isChunk] at hq
  | root | segment => simp [isChunk] at hp

theorem isCanonicalSegment_injective {p q : Path} (hp : isCanonicalSegment p = true)
    (hq : isCanonicalSegment q = true) (h : segmentReference p = segmentReference q) : p = q := by
  simp only [isCanonicalSegment, Bool.and_eq_true, decide_eq_true_eq] at hp hq
  obtain ⟨hparent, hstem⟩ := Prod.mk.inj h
  have hname := name_eq hstem (hp.1.1.2.trans hq.1.1.2.symm)
  cases p with
  | segment directory p =>
      cases q with
      | segment directory' q =>
          cases hparent
          exact congrArg (Path.segment directory) hname
      | root | chunk => simp [isSegment] at hq
  | root | chunk => simp [isSegment] at hp

/-! ## Survivors -/

/-- The roots themselves, and the objects that they refer to. -/
def retains (remaining : List CapacityEntry) (path : Path) : Bool :=
  match path with
  | .root _ _ _ => decide (path ∈ remaining.map CapacityEntry.path)
  | .segment _ _ => isCanonicalSegment path &&
      decide (segmentReference path ∈ remaining.flatMap CapacityEntry.segmentReferences)
  | .chunk _ => isCanonicalChunk path &&
      decide (path.stem ∈ remaining.flatMap CapacityEntry.chunkReferences)

/-- The files that are left with some roots. -/
def survivors (files : Files) (remaining : List CapacityEntry) : Files :=
  files.filter fun path _ => retains remaining path

theorem retained_segment {files : Files} (remaining : List CapacityEntry) {e : Path × StoredFile}
    (he : e ∈ listing files isSegment) :
    (segmentObjects files).retained
        (References.count (remaining.flatMap CapacityEntry.segmentReferences)) e.1 =
      retains remaining e.1 := by
  have hkind := (mem_listing.mp he).2
  have hcanonical := Objects.ofListing_canonical isCanonicalSegment_injective he
  rw [Objects.retained_count]
  obtain ⟨path, file⟩ := e
  cases path with
  | segment directory name =>
      rw [Bool.eq_iff_iff, decide_eq_true_iff, retains, Bool.and_eq_true, decide_eq_true_iff,
        List.mem_toFinset]
      exact and_congr_left' hcanonical
  | root | chunk => cases hkind

theorem retained_chunk {files : Files} (remaining : List CapacityEntry) {e : Path × StoredFile}
    (he : e ∈ listing files isChunk) :
    (chunkObjects files).retained
        (References.count (remaining.flatMap CapacityEntry.chunkReferences)) e.1 =
      retains remaining e.1 := by
  have hkind := (mem_listing.mp he).2
  have hcanonical := Objects.ofListing_canonical isCanonicalChunk_injective he
  rw [Objects.retained_count]
  obtain ⟨path, file⟩ := e
  cases path with
  | chunk name =>
      rw [Bool.eq_iff_iff, decide_eq_true_iff, retains, Bool.and_eq_true, decide_eq_true_iff,
        List.mem_toFinset]
      exact and_congr_left' hcanonical
  | root | segment => cases hkind

section Entries
variable (read : Reader) (files : Files)

theorem capacityEntry_path (kind : RootKind) (path : Path) (file : StoredFile) :
    (capacityEntry read files kind path file).path = path := by
  unfold capacityEntry
  cases read files path <;> rfl

theorem capacityEntry_manifestBytes (kind : RootKind) (path : Path) (file : StoredFile) :
    (capacityEntry read files kind path file).manifestBytes = allocatedBytes file := by
  unfold capacityEntry
  cases read files path <;> rfl

theorem capacityEntries_paths : (capacityEntries read files).map CapacityEntry.path =
    (listing files (isRoot .manifest)).map Prod.fst ++
      (listing files (isRoot .prefixAlias)).map Prod.fst := by
  simp [capacityEntries, capacityEntry_path, Function.comp_def]

theorem mem_capacityEntries_path {path : Path}
    (h : path ∈ (capacityEntries read files).map CapacityEntry.path) :
    isRoot .manifest path = true ∨ isRoot .prefixAlias path = true := by
  rw [capacityEntries_paths, List.mem_append, List.mem_map, List.mem_map] at h
  rcases h with ⟨e, he, rfl⟩ | ⟨e, he, rfl⟩
  · exact .inl (mem_listing.mp he).2
  · exact .inr (mem_listing.mp he).2

theorem capacityEntries_nodup : ((capacityEntries read files).map CapacityEntry.path).Nodup := by
  rw [capacityEntries_paths]
  refine (listing_nodup files _).append (listing_nodup files _) ?_
  intro path hmanifest halias
  obtain ⟨e, he, rfl⟩ := List.mem_map.mp hmanifest
  obtain ⟨e', he', heq⟩ := List.mem_map.mp halias
  have h := (mem_listing.mp he).2
  have h' := (mem_listing.mp he').2
  rw [heq] at h'
  revert h h'
  cases e.1 with
  | root kind directory name => cases kind <;> simp [isRoot]
  | segment | chunk => simp [isRoot]

/-- The manifest bytes of the entries whose paths pass a test. -/
theorem manifestBytes_filter (keep : Path → Bool) :
    (((capacityEntries read files).filter fun e => keep e.path).map CapacityEntry.manifestBytes).sum =
      weigh ((listing files (isRoot .manifest)).filter fun e => keep e.1) +
      weigh ((listing files (isRoot .prefixAlias)).filter fun e => keep e.1) := by
  have hkind : ∀ kind, (((listing files (isRoot kind)).map fun e =>
      capacityEntry read files kind e.1 e.2).filter fun e => keep e.path).map
        CapacityEntry.manifestBytes =
      ((listing files (isRoot kind)).filter fun e => keep e.1).map fun e => allocatedBytes e.2 := by
    intro kind
    rw [List.filter_map, List.map_map]
    simp only [Function.comp_def, capacityEntry_path, capacityEntry_manifestBytes]
  rw [capacityEntries, List.filter_append, List.map_append, List.sum_append, hkind, hkind]
  rfl

end Entries

section Survivors
variable {read : Reader} {files : Files}

/-- The files of one kind that are retained. -/
theorem weigh_filter_kind (keep kind : Path → Bool) :
    weigh (((files.entries.map fun e => (e.1, e.2)).filter fun e => keep e.1).filter
        fun e => kind e.1) = weigh ((listing files kind).filter fun e => keep e.1) := by
  rw [List.filter_comm]
  exact (weigh_perm ((listing_perm files kind).filter _)).symm

theorem weigh_eq_zero {keep kind : Path → Bool}
    (h : ∀ path, kind path = true → keep path = false) :
    weigh ((listing files kind).filter fun e => keep e.1) = 0 := by
  have hnil : ((listing files kind).filter fun e => keep e.1) = [] := by
    rw [List.filter_eq_nil_iff]
    intro e he
    rw [h e.1 (mem_listing.mp he).2]
    exact Bool.false_ne_true
  rw [hnil]
  rfl

/-- What some roots keep alive is what the files weigh that are left with them. -/
theorem totalBytes_survivors (keep : Path → Bool) {remaining : List CapacityEntry}
    (hremaining : remaining = (capacityEntries read files).filter fun e => keep e.path) :
    totalBytes (survivors files remaining) =
      liveBytes (segmentObjects files) (chunkObjects files) remaining := by
  have hpath : ∀ path, path ∈ remaining.map CapacityEntry.path ↔
      path ∈ (capacityEntries read files).map CapacityEntry.path ∧ keep path = true := by
    intro path
    rw [hremaining]
    constructor
    · intro h
      obtain ⟨e, he, rfl⟩ := List.mem_map.mp h
      exact ⟨List.mem_map_of_mem (List.mem_filter.mp he).1, (List.mem_filter.mp he).2⟩
    · rintro ⟨h, hkeep⟩
      obtain ⟨e, he, rfl⟩ := List.mem_map.mp h
      exact List.mem_map_of_mem (List.mem_filter.mpr ⟨he, hkeep⟩)
  have hroot : ∀ kind, ((listing files (isRoot kind)).filter fun e => retains remaining e.1) =
      (listing files (isRoot kind)).filter fun e => keep e.1 := by
    intro kind
    apply List.filter_congr
    intro e he
    have hmem : e.1 ∈ (capacityEntries read files).map CapacityEntry.path := by
      rw [capacityEntries_paths, List.mem_append]
      cases kind with
      | manifest => exact .inl (List.mem_map_of_mem he)
      | prefixAlias => exact .inr (List.mem_map_of_mem he)
    have hkind := (mem_listing.mp he).2
    rw [Bool.eq_iff_iff]
    revert hmem hkind
    cases e.1 with
    | root => 
        intro hmem _
        rw [retains, decide_eq_true_iff, hpath]
        exact and_iff_right hmem
    | segment | chunk => simp [isRoot]
  have hdebris : ∀ kind, weigh ((listing files (isDebris kind)).filter fun e =>
      retains remaining e.1) = 0 := by
    intro kind
    apply weigh_eq_zero
    intro path hkind
    cases path with
    | root kind' directory name =>
        rw [retains, decide_eq_false_iff_not, hpath]
        rintro ⟨hmem, -⟩
        have hroots := mem_capacityEntries_path read files hmem
        simp only [isDebris, isRoot, Bool.and_eq_true, Bool.not_eq_true'] at hkind hroots
        rcases hroots with hroots | hroots
        · rw [hroots.2] at hkind
          exact Bool.noConfusion hkind.2
        · rw [hroots.2] at hkind
          exact Bool.noConfusion hkind.2
    | segment | chunk => cases hkind
  have hsegments : weigh ((listing files isSegment).filter fun e => retains remaining e.1) =
      References.live (segmentObjects files).size
        (remaining.flatMap CapacityEntry.segmentReferences) := by
    have hsound : (segmentObjects files).Sound := Objects.ofListing_sound _ _ _ _
    rw [hsound.live]
    show _ = ((((listing files isSegment).map fun e => (e.1, allocatedBytes e.2)).filter _).map
      Prod.snd).sum
    rw [List.filter_map, List.map_map]
    unfold weigh
    congr 2
    apply List.filter_congr
    intro e he
    exact (retained_segment remaining he).symm
  have hchunks : weigh ((listing files isChunk).filter fun e => retains remaining e.1) =
      References.live (chunkObjects files).size
        (remaining.flatMap CapacityEntry.chunkReferences) := by
    have hsound : (chunkObjects files).Sound := Objects.ofListing_sound _ _ _ _
    rw [hsound.live]
    show _ = ((((listing files isChunk).map fun e => (e.1, allocatedBytes e.2)).filter _).map
      Prod.snd).sum
    rw [List.filter_map, List.map_map]
    unfold weigh
    congr 2
    apply List.filter_congr
    intro e he
    exact (retained_chunk remaining he).symm
  have htotal : totalBytes (survivors files remaining) =
      weigh ((files.entries.map fun e => (e.1, e.2)).filter fun e => retains remaining e.1) := by
    rw [weigh, List.filter_map, List.map_map]
    rfl
  rw [htotal, weigh_kinds]
  simp only [weigh_filter_kind (retains remaining)]
  rw [hroot, hroot, hdebris, hdebris, hsegments, hchunks, liveBytes]
  conv_rhs => rw [hremaining, manifestBytes_filter, ← hremaining]
  omega

end Survivors

end SparkCache.Maintenance
