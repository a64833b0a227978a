import SparkCache.Restore.FinalOrder

/-!
# Submission batches

Spans in final order are packed without a failure: every batch fits the arena,
the objects read for it are bounded, and nothing is left out.
-/
namespace SparkCache.Restore

open Pages

open Tiling

/-! ## Bounds -/

/-- A batch within the bounds of the arena, of the objects that are read for it, and of the ABI. -/
structure BatchFits (arenaBytes : ℕ) (batch : List CudaPageSourceSpan) : Prop where
  arena : (batch.map CudaPageSourceSpan.byteCount).sum ≤ arenaBytes
  prefetch : (batchSources batch).total PageSource.encodedBytes ≤ maxPageObjectPrefetchBytes
  count : batch.length ≤ 4096

theorem batchSources_append (batch : List CudaPageSourceSpan) (span : CudaPageSourceSpan) :
    batchSources (batch ++ [span]) = if span.source.path ∈ batchSources batch then batchSources batch
      else (batchSources batch).insert span.source.path span.source := by
  unfold batchSources
  rw [List.foldl_append]
  rfl

theorem total_insert_of_notMem {κ V : Type} [DecidableEq κ] {d : Dictionary κ V} {k : κ}
    (h : k ∉ d) (measure : V → ℕ) (v : V) :
    AList.total measure (d.insert k v) = AList.total measure d + measure v := by
  unfold AList.total
  rw [AList.entries_insert_of_notMem h, List.map_cons, List.sum_cons, Nat.add_comm]

/-- The counters are those of the open batch, and all batches fit. -/
structure Packing.Bounded (arenaBytes : ℕ) (s : Packing) : Prop where
  closed : ∀ batch ∈ s.batches, BatchFits arenaBytes batch
  fits : BatchFits arenaBytes s.batch
  bytes : s.batchBytes = (s.batch.map CudaPageSourceSpan.byteCount).sum
  objects : s.batchObjects = batchSources s.batch
  objectBytes : s.batchObjectBytes = s.batchObjects.total PageSource.encodedBytes

section Step
variable {arenaBytes : ℕ} {s : Packing} {span : CudaPageSourceSpan}

theorem BatchFits.nil : BatchFits arenaBytes [] :=
  ⟨Nat.zero_le _, Nat.zero_le _, Nat.zero_le _⟩

theorem Packing.Bounded.empty : Packing.empty.Bounded arenaBytes :=
  ⟨by simp [Packing.empty], .nil, rfl, rfl, rfl⟩

theorem Packing.Bounded.flush (h : s.Bounded arenaBytes) : s.flush.Bounded arenaBytes := by
  refine ⟨?_, .nil, rfl, rfl, rfl⟩
  intro batch hbatch
  rcases List.mem_append.mp hbatch with hbatch | hbatch
  · exact h.closed batch hbatch
  · rw [List.mem_singleton.mp hbatch]
    exact h.fits

/-- The objects of the batch after a span is added. -/
theorem Packing.add_objectBytes (h : s.batchObjectBytes = s.batchObjects.total PageSource.encodedBytes) :
    (s.add span).batchObjectBytes = (s.add span).batchObjects.total PageSource.encodedBytes := by
  show s.batchObjectBytes + s.newObjectBytes span = AList.total _ (if _ then _ else _)
  unfold Packing.newObjectBytes
  split
  · exact h
  · rename_i hnew
    rw [total_insert_of_notMem hnew, h]

theorem Packing.Bounded.add (h : s.Bounded arenaBytes)
    (harena : s.batchBytes + span.byteCount ≤ arenaBytes)
    (hprefetch : s.batchObjectBytes + s.newObjectBytes span ≤ maxPageObjectPrefetchBytes)
    (hcount : s.batch.length < 4096) : (s.add span).Bounded arenaBytes := by
  have hobjects : (s.add span).batchObjects = batchSources (s.add span).batch := by
    show (if _ then _ else _) = batchSources (s.batch ++ [span])
    rw [batchSources_append, h.objects]
  have hbytes : (s.add span).batchBytes =
      ((s.add span).batch.map CudaPageSourceSpan.byteCount).sum := by
    show s.batchBytes + span.byteCount = ((s.batch ++ [span]).map CudaPageSourceSpan.byteCount).sum
    rw [List.map_append, List.sum_append, h.bytes, List.map_singleton, List.sum_singleton]
  have hobjectBytes : (s.add span).batchObjectBytes =
      (s.add span).batchObjects.total PageSource.encodedBytes :=
    Packing.add_objectBytes h.objectBytes
  refine ⟨h.closed, ⟨?_, ?_, ?_⟩, hbytes, hobjects, hobjectBytes⟩
  · rw [← hbytes]
    exact harena
  · rw [← hobjects, ← hobjectBytes]
    exact hprefetch
  · show (s.batch ++ [span]).length ≤ 4096
    rw [List.length_append, List.length_singleton]
    omega

/-- The state before a span is added to it: a full batch is closed. -/
def Packing.opened (s : Packing) (arenaBytes : ℕ) (span : CudaPageSourceSpan) : Packing :=
  if s.Full arenaBytes span then s.flush else s

theorem Packing.opened_expectedSnapshot :
    (s.opened arenaBytes span).expectedSnapshot = s.expectedSnapshot := by
  unfold Packing.opened
  split <;> rfl

theorem Packing.opened_destinationCovered :
    (s.opened arenaBytes span).destinationCovered = s.destinationCovered := by
  unfold Packing.opened
  split <;> rfl

theorem Packing.opened_flatten :
    (s.opened arenaBytes span).batches.flatten ++ (s.opened arenaBytes span).batch =
      s.batches.flatten ++ s.batch := by
  unfold Packing.opened
  split
  · show (s.batches ++ [s.batch]).flatten ++ [] = _
    rw [List.flatten_append, List.flatten_singleton, List.append_nil]
  · rfl

theorem newObjectBytes_le : s.newObjectBytes span ≤ span.source.encodedBytes := by
  unfold Packing.newObjectBytes
  split
  · exact Nat.zero_le _
  · exact le_rfl

/-- A batch that is opened for a span has room for it. -/
theorem Packing.Bounded.opened (h : s.Bounded arenaBytes) (hbytes : span.byteCount ≤ arenaBytes)
    (hsource : span.source.encodedBytes ≤ maxPageObjectPrefetchBytes) :
    ((s.opened arenaBytes span).add span).Bounded arenaBytes := by
  have hnew : ∀ s : Packing, s.newObjectBytes span ≤ maxPageObjectPrefetchBytes :=
    fun s => newObjectBytes_le.trans hsource
  unfold Packing.opened
  split
  · refine h.flush.add ?_ ?_ ?_
    · show 0 + span.byteCount ≤ arenaBytes
      omega
    · show 0 + s.flush.newObjectBytes span ≤ _
      have hflush := hnew s.flush
      omega
    · show 0 < 4096
      omega
  · rename_i hfull
    unfold Packing.Full at hfull
    by_cases hempty : s.batch = []
    · have hzero : s.batchBytes = 0 := by rw [h.bytes, hempty]; rfl
      have hzeroObjects : s.batchObjectBytes = 0 := by
        rw [h.objectBytes, h.objects, hempty]
        rfl
      have hadd := hnew s
      refine h.add (by omega) (by omega) ?_
      rw [hempty]
      show 0 < 4096
      omega
    · have hroom := fun hor => hfull ⟨hempty, hor⟩
      exact h.add (not_lt.mp fun hlt => hroom (.inl hlt))
        (not_lt.mp fun hlt => hroom (.inr (.inl hlt)))
        (not_le.mp fun hle => hroom (.inr (.inr hle)))

/-- The next span in final order is added. -/
theorem Packing.step_ok (hexpects : s.Expects arenaBytes span)
    (hsource : span.source.encodedBytes ≤ maxPageObjectPrefetchBytes) :
    Packing.step arenaBytes s span = .ok ((s.opened arenaBytes span).add span) := by
  unfold Packing.step
  simp only [bind_eq_ok, require_eq_ok]
  exact ⟨(), hexpects, (), newObjectBytes_le.trans hsource, rfl⟩

end Step

/-! ## Runs -/

/-- What a run over spans leads to: all of them are packed, in order. -/
structure Packs (arenaBytes : ℕ) (s : Packing) (spans : List CudaPageSourceSpan) (next : Packing) :
    Prop where
  runs : spans.foldlM (Packing.step arenaBytes) s = .ok next
  bounded : next.Bounded arenaBytes
  flatten : next.batches.flatten ++ next.batch = s.batches.flatten ++ s.batch ++ spans

section Runs
variable {arenaBytes bound : ℕ}

/-- How much of a destination is covered. -/
def Packing.covered (s : Packing) (destinationIndex : ℕ) : ℕ :=
  (s.destinationCovered.lookup destinationIndex).getD 0

/-- A run over the spans of one layer. -/
theorem LayerSpans.packs {snapshotBase destinationIndex first last : ℕ}
    {spans : List CudaPageSourceSpan}
    (h : LayerSpans (min arenaBytes maxPageObjectPrefetchBytes) snapshotBase destinationIndex first
      spans last) {s : Packing} (hbounded : s.Bounded arenaBytes)
    (hexpected : s.expectedSnapshot = snapshotBase + first)
    (hcovered : s.covered destinationIndex = first) :
    ∃ next, Packs arenaBytes s spans next ∧ next.expectedSnapshot = snapshotBase + last ∧
      ∀ other ≠ destinationIndex, next.covered other = s.covered other := by
  obtain ⟨htiles, hsubmittable⟩ := h
  induction spans generalizing first s with
  | nil =>
      have heq : first = last := htiles
      rw [heq] at hexpected
      exact ⟨s, ⟨rfl, hbounded, (List.append_nil _).symm⟩, hexpected, fun _ _ => rfl⟩
  | cons span rest ih =>
      obtain ⟨hstart, -, hrest⟩ := htiles
      have hspan := hsubmittable span List.mem_cons_self
      have harena : span.byteCount ≤ arenaBytes := hspan.bounded.trans (min_le_left _ _)
      have hsource : span.source.encodedBytes ≤ maxPageObjectPrefetchBytes :=
        hspan.source.trans (min_le_right _ _)
      have hexpects : s.Expects arenaBytes span := by
        refine ⟨hspan.positive, harena, ?_, ?_⟩
        · rw [hspan.snapshot, hexpected, hstart]
        · rw [hspan.index]
          exact hstart.trans hcovered.symm
      let added := (s.opened arenaBytes span).add span
      have hbounded' : added.Bounded arenaBytes := hbounded.opened harena hsource
      have hexpected' : added.expectedSnapshot = snapshotBase + span.destinationEnd := by
        show (s.opened arenaBytes span).expectedSnapshot + span.byteCount = _
        rw [Packing.opened_expectedSnapshot, hexpected, ← hstart, Nat.add_assoc]
        rfl
      have hother : ∀ other, added.covered other =
          if other = destinationIndex then span.destinationEnd else s.covered other := by
        intro other
        show ((AList.insert _ _ (s.opened arenaBytes span).destinationCovered).lookup other).getD 0 = _
        rw [Packing.opened_destinationCovered, hspan.index]
        by_cases heq : other = destinationIndex
        · rw [heq, AList.lookup_insert, if_pos rfl]
          rfl
        · rw [AList.lookup_insert_ne heq, if_neg heq]
          rfl
      obtain ⟨next, hpacks, hlast, hothers⟩ := ih hbounded' hexpected'
        (by rw [hother, if_pos rfl]) hrest fun span hmem =>
          hsubmittable span (List.mem_cons_of_mem _ hmem)
      refine ⟨next, ⟨?_, hpacks.bounded, ?_⟩, hlast, ?_⟩
      · rw [List.foldlM_cons, Packing.step_ok hexpects hsource]
        exact hpacks.runs
      · rw [hpacks.flatten]
        show (s.opened arenaBytes span).batches.flatten ++
          ((s.opened arenaBytes span).batch ++ [span]) ++ rest = _
        rw [← List.append_assoc, Packing.opened_flatten, List.append_assoc, List.singleton_append]
      · intro other hne
        rw [hothers other hne, hother, if_neg hne]

/-- A run over spans in final order. -/
theorem FinalOrder.packs {destinationIndex snapshotBase last : ℕ} {spans : List CudaPageSourceSpan}
    (h : FinalOrder (min arenaBytes maxPageObjectPrefetchBytes) destinationIndex snapshotBase spans
      last) {s : Packing} (hbounded : s.Bounded arenaBytes)
    (hexpected : s.expectedSnapshot = snapshotBase)
    (hcovered : ∀ later, destinationIndex ≤ later → s.covered later = 0) :
    ∃ next, Packs arenaBytes s spans next := by
  induction h generalizing s with
  | nil => exact ⟨s, rfl, hbounded, (List.append_nil _).symm⟩
  | @layer destinationIndex snapshotBase size last spans others hlayer _ ih =>
      obtain ⟨middle, hpacks, hmiddle, hothers⟩ := hlayer.packs hbounded
        (hexpected.trans (Nat.add_zero _).symm) (hcovered destinationIndex le_rfl)
      obtain ⟨next, hrest⟩ := ih hpacks.bounded hmiddle (by
        intro later hlater
        rw [hothers later (by omega)]
        exact hcovered later (by omega))
      refine ⟨next, ?_, hrest.bounded, ?_⟩
      · rw [List.foldlM_append, hpacks.runs]
        exact hrest.runs
      · rw [hrest.flatten, hpacks.flatten, List.append_assoc]

theorem Packing.finished_flatten (s : Packing) :
    s.finished.flatten = s.batches.flatten ++ s.batch := by
  unfold Packing.finished
  split
  · rename_i hempty
    rw [hempty, List.append_nil]
  · rw [List.flatten_append, List.flatten_singleton]

/-- Spans in final order can be packed unless there are none. -/
theorem FinalOrder.batches {last : ℕ} {spans : List CudaPageSourceSpan}
    (h : FinalOrder (min arenaBytes maxPageObjectPrefetchBytes) 0 0 spans last) (hne : spans ≠ []) :
    ∃ batches, deltaSubmissionBatches spans arenaBytes = .ok batches ∧ batches.flatten = spans ∧
      ∀ batch ∈ batches, BatchFits arenaBytes batch := by
  obtain ⟨next, hruns, hbounded, hflatten⟩ :=
    h.packs (s := Packing.empty) Packing.Bounded.empty rfl fun _ _ => rfl
  have hfinished : next.finished.flatten = spans := by
    rw [Packing.finished_flatten, hflatten]
    rfl
  refine ⟨next.finished, ?_, hfinished, ?_⟩
  · unfold deltaSubmissionBatches
    simp only [bind_eq_ok, require_eq_ok]
    refine ⟨next, hruns, (), ?_, rfl⟩
    intro hnil
    rw [hnil] at hfinished
    exact hne hfinished.symm
  · intro batch hbatch
    unfold Packing.finished at hbatch
    split at hbatch
    · exact hbounded.closed batch hbatch
    · rcases List.mem_append.mp hbatch with hbatch | hbatch
      · exact hbounded.closed batch hbatch
      · rw [List.mem_singleton.mp hbatch]
        exact hbounded.fits

end Runs

end SparkCache.Restore
