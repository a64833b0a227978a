import SparkCache.Maintenance.Retention

/-!
# The outcome of a pass

Without a deletion budget and without failures, a pass leaves the files that
the roots it did not select keep alive, and reports their bytes.
-/
namespace SparkCache.Maintenance

/-! ## Removal -/

theorem erase_eq_filter (files : Files) (path : Path) :
    files.erase path = files.filter fun p _ => decide (p ≠ path) := by
  apply AList.ext
  show files.entries.kerase path = files.entries.filter _
  have h := files.nodupKeys
  generalize files.entries = entries at h
  induction entries with
  | nil => rfl
  | cons e rest ih =>
      rw [List.nodupKeys_cons] at h
      by_cases he : path = e.1
      · rw [List.kerase_cons_eq he, List.filter_cons_of_neg (by simp [he]), eq_comm,
          List.filter_eq_self]
        intro e' he'
        refine decide_eq_true fun heq => h.1 ?_
        rw [← he, ← heq]
        exact List.mem_map_of_mem he'
      · rw [List.kerase_cons_ne he, List.filter_cons_of_pos (by simpa using Ne.symm he), ih h.2]

theorem filter_filter_files (files : Files) (p q : Path → Bool) :
    (files.filter fun path _ => p path).filter (fun path _ => q path) =
      files.filter fun path _ => p path && q path := by
  apply AList.ext
  show (files.entries.filter _).filter _ = files.entries.filter _
  rw [List.filter_filter]
  apply List.filter_congr
  intro e _
  exact Bool.and_comm _ _

/-- Without a budget and without failures all the paths are removed. -/
theorem unlinkAll_done {unlink : Path → Unlink} (h : ∀ path, unlink path = .done)
    (missingCounts : Bool) (paths : List Path) (r : Removal) :
    unlinkAll 0 unlink missingCounts paths r =
      (⟨r.files.filter fun path _ => decide (path ∉ paths), r.deletionAttempts + paths.length,
        r.workPending⟩, paths) := by
  induction paths generalizing r with
  | nil =>
      have hfiles : (r.files.filter fun path _ => decide (path ∉ ([] : List Path))) = r.files :=
        AList.filter_of_forall (by simp)
      rw [unlinkAll, hfiles]
      rfl
  | cons path rest ih =>
      rw [unlinkAll, if_neg (by omega), h]
      dsimp only
      rw [ih]
      dsimp only
      congr 2
      · rw [erase_eq_filter, filter_filter_files]
        congr 1
        ext p _
        simp [not_or]
      · rw [List.length_cons]
        omega

/-! ## Sums of the inventory -/

theorem rootDebris_bytes (files : Files) :
    ((rootDebris files).map Prod.snd).sum = weigh (listing files (isDebris .manifest)) +
      weigh (listing files (isDebris .prefixAlias)) := by
  rw [rootDebris, List.map_map, List.map_append, List.sum_append]
  rfl

theorem segmentObjects_bytes (files : Files) :
    (segmentObjects files).bytes = weigh (listing files isSegment) := by
  show (((listing files isSegment).map _).map Prod.snd).sum = _
  rw [List.map_map]
  rfl

theorem chunkObjects_bytes (files : Files) :
    (chunkObjects files).bytes = weigh (listing files isChunk) := by
  show (((listing files isChunk).map _).map Prod.snd).sum = _
  rw [List.map_map]
  rfl

/-- The pass counts every file once. -/
theorem bytesBefore_eq (read : Reader) (files : Files) :
    (takeInventory read files).bytesBefore = totalBytes files := by
  have hkeep := manifestBytes_filter read files fun _ => true
  have hall : ∀ keep, weigh ((files.entries.map fun e => (e.1, e.2)).filter fun e => keep e.1) =
      weigh (listing files keep) := fun keep => (weigh_perm (listing_perm files keep)).symm
  have htotal : totalBytes files = weigh (files.entries.map fun e => (e.1, e.2)) := by
    rw [weigh, List.map_map]
    rfl
  rw [List.filter_true, List.filter_true, List.filter_true] at hkeep
  show ((capacityEntries read files).map CapacityEntry.manifestBytes).sum +
    ((rootDebris files).map Prod.snd).sum + (segmentObjects files).bytes +
    (chunkObjects files).bytes = _
  rw [htotal, weigh_kinds, hkeep, rootDebris_bytes, segmentObjects_bytes, chunkObjects_bytes]
  simp only [hall]
  omega

section Sound
variable (files : Files)

theorem segmentObjects_sound : (segmentObjects files).Sound := Objects.ofListing_sound _ _ _ _

theorem chunkObjects_sound : (chunkObjects files).Sound := Objects.ofListing_sound _ _ _ _

end Sound

/-- What is projected before anything is selected. -/
theorem Projects.initial (read : Reader) (files : Files) (maxDeletions : ℕ)
    (protectedEntries : List EntryKey) (orphanDebt : Bool) :
    let inventory := takeInventory read files
    Projects ⟨maxDeletions, protectedEntries, orphanDebt, inventory.segments, inventory.chunks⟩
      inventory.entries
      ⟨inventory.projectedBytes, inventory.references, inventory.segmentReferences, [], false⟩ := by
  have hwithout : without (capacityEntries read files) [] = capacityEntries read files := by
    rw [without, List.filter_eq_self]
    simp
  constructor
  · show ((((capacityEntries read files).map CapacityEntry.manifestBytes).sum +
        ((rootDebris files).map Prod.snd).sum + (segmentObjects files).bytes +
        (chunkObjects files).bytes : ℕ) : ℤ) - ((rootDebris files).map Prod.snd).sum -
      (segmentObjects files).orphanBytes _ - (chunkObjects files).orphanBytes _ =
      liveBytes (segmentObjects files) (chunkObjects files) (without (capacityEntries read files) [])
    rw [hwithout, liveBytes, (segmentObjects_sound files).bytes_eq
      ((capacityEntries read files).flatMap CapacityEntry.segmentReferences),
      (chunkObjects_sound files).bytes_eq
      ((capacityEntries read files).flatMap CapacityEntry.chunkReferences)]
    simp only [Nat.cast_add]
    show _ + _ + (_ + _) + (_ + _) - _ - _ - _ = _
    unfold Inventory.segmentReferences Inventory.references takeInventory
    ring
  · show _ = References.count ((without (capacityEntries read files) []).flatMap _)
    rw [hwithout]
    rfl
  · show _ = References.count ((without (capacityEntries read files) []).flatMap _)
    rw [hwithout]
    rfl

/-! ## Selected roots -/

section Selected
variable {policy : CapacityPolicy} {nowNs : ℤ} {protectedEntries : List EntryKey}
  {entries : List CapacityEntry}

/-- The roots that go with so many of the candidates. -/
def evicted (policy : CapacityPolicy) (nowNs : ℤ) (protectedEntries : List EntryKey)
    (entries : List CapacityEntry) (k : ℕ) : List CapacityEntry :=
  (ordered entries).filter (doomed policy nowNs protectedEntries) ++
    (candidates policy nowNs protectedEntries entries).take k

theorem evicted_mem {k : ℕ} {e : CapacityEntry}
    (h : e ∈ evicted policy nowNs protectedEntries entries k) : e ∈ entries := by
  rw [← (ordered_perm entries).mem_iff]
  rcases List.mem_append.mp h with h | h
  · exact List.mem_of_mem_filter h
  · exact List.mem_of_mem_filter (List.mem_of_mem_take h)

theorem evicted_nodup (hnodup : (entries.map CapacityEntry.path).Nodup) (k : ℕ) :
    ((evicted policy nowNs protectedEntries entries k).map CapacityEntry.path).Nodup := by
  have hordered : ((ordered entries).map CapacityEntry.path).Nodup :=
    ((ordered_perm entries).map CapacityEntry.path).nodup_iff.mpr hnodup
  rw [evicted, List.map_append]
  refine (hordered.sublist (List.filter_sublist.map _)).append
    (hordered.sublist (((List.take_sublist _ _).trans List.filter_sublist).map _)) ?_
  intro path hgone hother
  obtain ⟨e, he, rfl⟩ := List.mem_map.mp hgone
  obtain ⟨e', he', hpath⟩ := List.mem_map.mp hother
  obtain ⟨hmem, hdoomed⟩ := List.mem_filter.mp he
  obtain ⟨hmem', hfree⟩ := List.mem_filter.mp (List.mem_of_mem_take he')
  rw [nodup_of_path hordered hmem' hmem hpath, hdoomed] at hfree
  cases hfree

/-- The entries are those removed and those left. -/
theorem manifestBytes_without {removed : List CapacityEntry}
    (hnodup : (entries.map CapacityEntry.path).Nodup) (hmem : ∀ e ∈ removed, e ∈ entries)
    (hremoved : (removed.map CapacityEntry.path).Nodup) :
    (removed.map CapacityEntry.manifestBytes).sum +
        ((without entries removed).map CapacityEntry.manifestBytes).sum =
      (entries.map CapacityEntry.manifestBytes).sum := by
  have hperm : (entries.filter fun e => decide (e.path ∈ removed.map CapacityEntry.path)).Perm
      removed := by
    refine (List.perm_ext_iff_of_nodup ((List.Nodup.of_map _ hnodup).filter _)
      (List.Nodup.of_map _ hremoved)).mpr fun e => ?_
    rw [List.mem_filter, decide_eq_true_iff]
    constructor
    · rintro ⟨he, hpath⟩
      obtain ⟨e', he', heq⟩ := List.mem_map.mp hpath
      rwa [← nodup_of_path hnodup (hmem e' he') he heq]
    · intro he
      exact ⟨hmem e he, List.mem_map_of_mem he⟩
  have hwithout : without entries removed = entries.filter fun e =>
      !decide (e.path ∈ removed.map CapacityEntry.path) := by
    unfold without
    simp only [decide_not]
  rw [← (hperm.map CapacityEntry.manifestBytes).sum_eq, hwithout]
  exact sum_filter_add CapacityEntry.manifestBytes _ entries

end Selected

/-! ## The files that are left -/

theorem filter_congr_files {files : Files} {p q : Path → Bool}
    (h : ∀ path file, files.lookup path = some file → p path = q path) :
    (files.filter fun path _ => p path) = files.filter fun path _ => q path := by
  apply AList.ext
  apply List.filter_congr
  intro e he
  exact h e.1 e.2 (AList.lookup_eq_some_iff.mpr he)

theorem mem_listing_path {files : Files} {keep : Path → Bool} {path : Path} {file : StoredFile}
    (hfile : files.lookup path = some file) :
    path ∈ (listing files keep).map Prod.fst ↔ keep path = true := by
  constructor
  · intro h
    obtain ⟨e, he, rfl⟩ := List.mem_map.mp h
    exact (mem_listing.mp he).2
  · intro h
    exact List.mem_map.mpr ⟨(path, file), mem_listing.mpr ⟨hfile, h⟩, rfl⟩

section Kept
variable {read : Reader} {files : Files} {removed : List CapacityEntry} {path : Path}
  {file : StoredFile}

theorem mem_rootDebris (hfile : files.lookup path = some file) :
    path ∈ (rootDebris files).map Prod.fst ↔
      isDebris .manifest path = true ∨ isDebris .prefixAlias path = true := by
  rw [rootDebris, List.map_map, List.map_append, List.mem_append]
  exact or_congr (mem_listing_path hfile) (mem_listing_path hfile)

theorem mem_capacityEntries (hfile : files.lookup path = some file) :
    path ∈ (capacityEntries read files).map CapacityEntry.path ↔
      isRoot .manifest path = true ∨ isRoot .prefixAlias path = true := by
  rw [capacityEntries_paths, List.mem_append, mem_listing_path hfile, mem_listing_path hfile]

theorem mem_segmentObjects (hfile : files.lookup path = some file) :
    path ∈ (segmentObjects files).sizes.map Prod.fst ↔ isSegment path = true := by
  show path ∈ ((listing files isSegment).map _).map Prod.fst ↔ _
  rw [List.map_map]
  exact mem_listing_path hfile

theorem mem_chunkObjects (hfile : files.lookup path = some file) :
    path ∈ (chunkObjects files).sizes.map Prod.fst ↔ isChunk path = true := by
  show path ∈ ((listing files isChunk).map _).map Prod.fst ↔ _
  rw [List.map_map]
  exact mem_listing_path hfile

theorem mem_without_path :
    path ∈ (without (capacityEntries read files) removed).map CapacityEntry.path ↔
      path ∈ (capacityEntries read files).map CapacityEntry.path ∧
        path ∉ removed.map CapacityEntry.path := by
  constructor
  · intro h
    obtain ⟨e, he, rfl⟩ := List.mem_map.mp h
    obtain ⟨hmem, hpath⟩ := List.mem_filter.mp he
    exact ⟨List.mem_map_of_mem hmem, of_decide_eq_true hpath⟩
  · rintro ⟨h, hpath⟩
    obtain ⟨e, he, rfl⟩ := List.mem_map.mp h
    exact List.mem_map_of_mem (List.mem_filter.mpr ⟨he, decide_eq_true hpath⟩)

/-- What is not removed is retained. -/
theorem kept_iff_retains (hmem : ∀ e ∈ removed, e ∈ capacityEntries read files)
    (hfile : files.lookup path = some file) :
    let remaining := without (capacityEntries read files) removed
    (path ∉ (rootDebris files).map Prod.fst ∧ path ∉ removed.map CapacityEntry.path ∧
      path ∉ (((segmentObjects files).sizes.map Prod.fst).filter fun path =>
        !(segmentObjects files).retained
          (References.count (remaining.flatMap CapacityEntry.segmentReferences)) path) ∧
      path ∉ (((chunkObjects files).sizes.map Prod.fst).filter fun path =>
        !(chunkObjects files).retained
          (References.count (remaining.flatMap CapacityEntry.chunkReferences)) path)) ↔
      retains remaining path = true := by
  dsimp only
  have hremoved : path ∈ removed.map CapacityEntry.path →
      path ∈ (capacityEntries read files).map CapacityEntry.path := by
    intro h
    obtain ⟨e, he, rfl⟩ := List.mem_map.mp h
    exact List.mem_map_of_mem (hmem e he)
  rw [List.mem_filter, List.mem_filter, mem_segmentObjects hfile, mem_chunkObjects hfile,
    mem_rootDebris hfile]
  rw [mem_capacityEntries hfile] at hremoved
  cases path with
  | root kind directory name =>
      rw [retains, decide_eq_true_iff, mem_without_path, mem_capacityEntries hfile]
      cases kind <;> simp [isDebris, isRoot, isSegment, isChunk]
  | segment directory name =>
      have hretained := retained_segment (without (capacityEntries read files) removed)
        (mem_listing.mpr ⟨hfile, rfl⟩)
      simp [isDebris, isRoot, isSegment, isChunk, hretained] at hremoved ⊢
      exact fun _ => hremoved
  | chunk name =>
      have hretained := retained_chunk (without (capacityEntries read files) removed)
        (mem_listing.mpr ⟨hfile, rfl⟩)
      simp [isDebris, isRoot, isSegment, isChunk, hretained] at hremoved ⊢
      exact fun _ => hremoved

end Kept

/-! ## The pass -/

section Pass
variable {read : Reader} {policy : CapacityPolicy} {protectedEntries : List EntryKey}
  {around : Surroundings} {memory memory' : Memory} {files files' : Files}
  {report : MaintenanceReport}

theorem sizesOf_all {sizes : List (Path × ℕ)} (h : (sizes.map Prod.fst).Nodup) :
    sizesOf sizes (sizes.map Prod.fst) = (sizes.map Prod.snd).sum := by
  rw [sizesOf, List.map_map]
  congr 1
  apply List.map_congr_left
  intro e he
  show (sizes.lookup e.1).getD 0 = e.2
  rw [Objects.lookup_of_mem h he]
  rfl

theorem rootDebris_nodup (files : Files) : ((rootDebris files).map Prod.fst).Nodup := by
  rw [rootDebris, List.map_map, List.map_append]
  refine (listing_nodup files _).append (listing_nodup files _) ?_
  intro path hmanifest halias
  obtain ⟨e, he, rfl⟩ := List.mem_map.mp hmanifest
  obtain ⟨e', he', heq⟩ := List.mem_map.mp halias
  have h := (mem_listing.mp he).2
  have h' := (mem_listing.mp he').2
  change e'.1 = e.1 at heq
  rw [heq] at h'
  revert h h'
  cases e.1 with
  | root kind directory name => cases kind <;> simp [isDebris]
  | segment | chunk => simp [isDebris]

/-- The bytes that a selection projects with so many candidates gone are those of the files left. -/
theorem projected_evicted {context : SelectionContext} {s : Selection}
    (h : Projects context (capacityEntries read files) s) (hs : s.selected = [])
    (hsegments : context.segments = segmentObjects files) (hchunks : context.chunks = chunkObjects files)
    (nowNs : ℤ) (k : ℕ) :
    let gone := evicted policy nowNs protectedEntries (capacityEntries read files) k
    (addAll context s gone).projectedBytes =
      totalBytes (survivors files (without (capacityEntries read files) gone)) := by
  dsimp only
  have hnodup := capacityEntries_nodup read files
  have hpaths : ((s.selected ++ evicted policy nowNs protectedEntries (capacityEntries read files)
      k).map CapacityEntry.path).Nodup := by
    rw [hs, List.nil_append]
    exact evicted_nodup hnodup k
  have hproject := (h.addAll hnodup (fun e he => evicted_mem he) hpaths).bytes
  have htotal := @totalBytes_survivors read files (fun path => decide (path ∉
    (evicted policy nowNs protectedEntries (capacityEntries read files) k).map CapacityEntry.path)) _ rfl
  rw [addAll_selected, hs, List.nil_append, hsegments, hchunks] at hproject
  rw [hproject]
  exact_mod_cast htotal.symm

/-- The selection of a pass without a budget. -/
theorem selection_eq (hbudget : policy.maintenanceMaxDeletions = 0) (nowNs : ℤ) (memory : Memory) :
    let entries := capacityEntries read files
    let others := candidates policy nowNs protectedEntries entries
    let left := fun k => survivors files (without entries (evicted policy nowNs protectedEntries entries k))
    ∃ k ≤ others.length,
      ((takeInventory read files).selection policy protectedEntries nowNs memory).selected =
        evicted policy nowNs protectedEntries entries k ∧
      if 0 < policy.maxBytes ∧ policy.maxBytes < totalBytes files then
        (∀ j < k, policy.lowWatermarkBytes < totalBytes (left j)) ∧
        (totalBytes (left k) ≤ policy.lowWatermarkBytes ∨ k = others.length)
      else k = 0 := by
  dsimp only
  let inventory := takeInventory read files
  let context : SelectionContext := ⟨policy.maintenanceMaxDeletions, protectedEntries,
    inventory.orphanDebt, inventory.segments, inventory.chunks⟩
  let start : Selection := ⟨inventory.projectedBytes, inventory.references,
    inventory.segmentReferences, [], false⟩
  have hinitial : Projects context (capacityEntries read files) start :=
    Projects.initial read files policy.maintenanceMaxDeletions protectedEntries inventory.orphanDebt
  have hprojected := fun k =>
    @projected_evicted read policy protectedEntries files context start hinitial rfl rfl rfl nowNs k
  obtain ⟨k, hk, hrun, hcapacity⟩ := @selectEntries_eq context policy nowNs _ hbudget
    (capacityEntries_nodup read files) start rfl (inventory.pressureTriggered policy memory)
  have htriggered : inventory.pressureTriggered policy memory = true ↔
      0 < policy.maxBytes ∧ policy.maxBytes < totalBytes files := by
    rw [Inventory.pressureTriggered, decide_eq_true_iff, bytesBefore_eq, hbudget]
    simp
  refine ⟨k, hk, ?_, ?_⟩
  · have hselected := congrArg Selection.selected hrun
    rw [addAll_selected] at hselected
    exact hselected
  · by_cases hpressure : 0 < policy.maxBytes ∧ policy.maxBytes < totalBytes files
    · rw [if_pos (htriggered.mpr hpressure)] at hcapacity
      rw [if_pos hpressure]
      constructor
      · intro j hj
        have hlow := (hcapacity.1 j hj).trans_eq (hprojected j)
        exact_mod_cast hlow
      · refine hcapacity.2.imp_left fun hlow => ?_
        have hlow := (hprojected k).symm.trans_le hlow
        exact_mod_cast hlow
    · rw [if_neg fun h => hpressure (htriggered.mp h)] at hcapacity
      rw [if_neg hpressure]
      exact hcapacity

/-- Without failures all that is selected is removed, with the objects that nothing refers to. -/
theorem removeSelected_eq {selection : Selection} {k : ℕ} {nowNs : ℤ} {removed : Removed}
    (hunlink : ∀ path, around.unlink path = .done)
    (hselected : selection.selected =
      evicted policy nowNs protectedEntries (capacityEntries read files) k)
    (h : removeSelected (takeInventory read files) selection 0 around files = (some removed, files')) :
    let gone := evicted policy nowNs protectedEntries (capacityEntries read files) k
    files' = survivors files (without (capacityEntries read files) gone) ∧
      (selection.selected.filter fun entry => decide (entry.path ∈ removed.roots)) = gone ∧
      removed.bytesAfter (takeInventory read files) selection = totalBytes files' := by
  dsimp only
  have hmem : ∀ e ∈ selection.selected, e ∈ capacityEntries read files := by
    rw [hselected]
    exact fun e he => evicted_mem he
  have hnodup := capacityEntries_nodup read files
  have hpaths : (selection.selected.map CapacityEntry.path).Nodup := by
    rw [hselected]
    exact evicted_nodup hnodup k
  rw [← hselected]
  unfold removeSelected Objects.removeUnreferenced at h
  simp only [unlinkAll_done hunlink] at h
  split_ifs at h
  · cases h
  · cases h
  · cases h
  obtain ⟨hsome, hfiles⟩ := Prod.mk.inj h
  obtain rfl := Option.some.inj hsome
  have hsurvivors : files' =
      survivors files (without (capacityEntries read files) selection.selected) := by
    rw [← hfiles, filter_filter_files, filter_filter_files, filter_filter_files]
    refine filter_congr_files fun path file hfile => ?_
    refine Bool.eq_iff_iff.mpr (Iff.trans ?_ (kept_iff_retains hmem hfile))
    simp only [Bool.and_eq_true, decide_eq_true_eq]
    rfl
  have hroots : (selection.selected.filter fun entry =>
      decide (entry.path ∈ selection.selected.map CapacityEntry.path)) = selection.selected := by
    rw [List.filter_eq_self]
    exact fun e he => decide_eq_true (List.mem_map_of_mem he)
  refine ⟨hsurvivors, hroots, ?_⟩
  have hmanifests := manifestBytes_without hnodup hmem hpaths
  have hsegments := (segmentObjects_sound files).removed_add
    ((without (capacityEntries read files) selection.selected).flatMap CapacityEntry.segmentReferences)
  have hchunks := (chunkObjects_sound files).removed_add
    ((without (capacityEntries read files) selection.selected).flatMap CapacityEntry.chunkReferences)
  have hdebris := sizesOf_all (rootDebris_nodup files)
  have hlive := @totalBytes_survivors read files (fun path => decide (path ∉
    selection.selected.map CapacityEntry.path)) _ rfl
  change totalBytes (survivors files (without (capacityEntries read files) selection.selected)) =
    liveBytes _ _ (without (capacityEntries read files) selection.selected) at hlive
  have hbefore : (takeInventory read files).bytesBefore =
      ((capacityEntries read files).map CapacityEntry.manifestBytes).sum +
        ((rootDebris files).map Prod.snd).sum + (segmentObjects files).bytes +
        (chunkObjects files).bytes := rfl
  rw [hsurvivors, hlive, liveBytes, Removed.bytesAfter, hroots, hbefore]
  change _ - sizesOf (rootDebris files) ((rootDebris files).map Prod.fst) - _ -
    sizesOf (segmentObjects files).sizes (((segmentObjects files).sizes.map Prod.fst).filter _) -
    sizesOf (chunkObjects files).sizes (((chunkObjects files).sizes.map Prod.fst).filter _) = _
  rw [hdebris]
  change _ - _ - _ - sizesOf _ (List.filter (fun path => !(segmentObjects files).retained
    (References.count ((without (capacityEntries read files) selection.selected).flatMap
      CapacityEntry.segmentReferences)) path) _) -
    sizesOf _ (List.filter (fun path => !(chunkObjects files).retained
    (References.count ((without (capacityEntries read files) selection.selected).flatMap
      CapacityEntry.chunkReferences)) path) _) = _
  omega

end Pass

/-- A pass without a deletion budget and without a failing unlink removes the invalid and the expired
unprotected roots and, when the maximum is exceeded, the shortest run of the other unprotected roots,
least recently used first, that brings the bytes to the low watermark; it leaves exactly these files
and reports their bytes. -/
theorem maintain_outcome (read : Reader) (policy : CapacityPolicy) (protectedEntries : List EntryKey)
    (around : Surroundings) (memory memory' : Memory) (files files' : Files)
    (report : MaintenanceReport) (henabled : policy.enabled = true) (hidle : around.busy = false)
    (hwarm : memory.notBefore ≤ around.started) (hbudget : policy.maintenanceMaxDeletions = 0)
    (hunlink : ∀ path, around.unlink path = .done)
    (h : maintain read policy protectedEntries around memory files = (some report, files', memory')) :
    let entries := capacityEntries read files
    let others := candidates policy around.nowNs protectedEntries entries
    let gone := evicted policy around.nowNs protectedEntries entries
    let left := fun k => survivors files (without entries (gone k))
    others.Pairwise OlderUse ∧
    ∃ k ≤ others.length,
      files' = left k ∧ report.evictedEntries = (gone k).map CapacityEntry.key ∧
      report.bytesBefore = totalBytes files ∧ report.bytesAfter = totalBytes files' ∧
      if 0 < policy.maxBytes ∧ policy.maxBytes < totalBytes files then
        (∀ j < k, policy.lowWatermarkBytes < totalBytes (left j)) ∧
        (totalBytes (left k) ≤ policy.lowWatermarkBytes ∨ k = others.length)
      else k = 0 := by
  dsimp only
  refine ⟨(ordered_pairwise _).sublist List.filter_sublist, ?_⟩
  obtain ⟨k, hk, hselected, hcapacity⟩ :=
    @selection_eq read policy protectedEntries files hbudget around.nowNs memory
  unfold maintain maintainLocked at h
  rw [if_neg (by simp [henabled]), if_neg (by simp [hidle]), if_neg (not_lt.mpr hwarm), hbudget] at h
  dsimp only at h
  cases hremove : removeSelected (takeInventory read files) ((takeInventory read files).selection policy
      protectedEntries around.nowNs memory) 0 around files with
  | mk removed files₁ =>
      rw [hremove] at h
      cases removed with
      | none => cases h
      | some removed =>
          obtain ⟨hsurvivors, hevicted, hbytes⟩ := removeSelected_eq hunlink hselected hremove
          cases h
          refine ⟨k, hk, hsurvivors, ?_, bytesBefore_eq read files, hbytes, hcapacity⟩
          dsimp only
          rw [hevicted]

def digestOf (code : ℕ) : Str := ⟨List.replicate 64 code⟩

def withSuffix (stem : Str) (suffix : String) : Str := ⟨stem.codes ++ (Str.ofString suffix).codes⟩

def chunkPath (code : ℕ) : Path := .chunk (withSuffix (digestOf code) ".spcc")

def rootPath (code : ℕ) : Path := .root .manifest (digestOf 48) (withSuffix (digestOf code) ".json")

/-- A store with two roots that share a chunk, one more chunk of the older root, and an orphan. -/
def sharedFiles : Files :=
  AList.insert (rootPath 97) ⟨[], 1, 10⟩ <| AList.insert (rootPath 98) ⟨[], 1, 20⟩ <|
    AList.insert (chunkPath 49) ⟨[], 1, 0⟩ <| AList.insert (chunkPath 50) ⟨[], 1, 0⟩ <|
    AList.insert (chunkPath 51) ⟨[], 1, 0⟩ ∅

def sharedReader : Reader := fun _ path =>
  if path = rootPath 97 then some ⟨[(digestOf 49, 0), (digestOf 50, 0)], []⟩
  else some ⟨[(digestOf 50, 0)], []⟩

def smallPolicy : CapacityPolicy := ⟨2559, 1536, 0, 0, 0, by decide⟩

def calm : Surroundings := ⟨false, 0, 0, 0, fun _ => .done, fun _ => true⟩

theorem maintain_outcome_shared : ∃ report files' memory',
    maintain sharedReader smallPolicy [] calm ⟨none, 0⟩ sharedFiles = (some report, files', memory') ∧
    report.bytesAfter = 1024 ∧ report.bytesAfter = totalBytes files' := by
  have hrun : ((maintain sharedReader smallPolicy [] calm ⟨none, 0⟩ sharedFiles).1.map
      MaintenanceReport.bytesAfter) = some 1024 := by decide +kernel
  cases hresult : maintain sharedReader smallPolicy [] calm ⟨none, 0⟩ sharedFiles with
  | mk result rest =>
      obtain ⟨files', memory'⟩ := rest
      rw [hresult] at hrun
      cases result with
      | none => cases hrun
      | some report =>
          obtain ⟨-, k, -, -, -, -, hbytes, -⟩ := maintain_outcome sharedReader smallPolicy [] calm
            ⟨none, 0⟩ memory' sharedFiles files' report (by decide) rfl (by decide) rfl
            (fun _ => rfl) hresult
          exact ⟨report, files', memory', rfl, Option.some.inj hrun, hbytes⟩

end SparkCache.Maintenance
