import SparkCache.Restore.DeltaPlan

/-!
# Final order

The ranges of a plan are supplied by objects and extents that fit the arena,
so their spans cover the layers of the result in order.
-/
namespace SparkCache.Restore

open Pages

open Tiling

/-! ## Sources -/

/-- A source with all of its extent. -/
structure Sound (bound : ℕ) (source : PageSource) : Prop where
  bounded : source.encodedBytes ≤ bound
  extent : source.encodedEnd ≤ source.encodedStart + source.encodedBytes

/-- The sources of a range follow one another from before its first byte. -/
structure Supplied (bound : ℕ) (range : LogicalSourceRange) : Prop where
  ordered : range.destinationStart ≤ range.destinationEnd
  tiles : ∃ first last, first ≤ range.sourceStart ∧
    Tiles PageSource.encodedStart PageSource.encodedEnd first range.objects last
  sound : ∀ source ∈ range.objects, Sound bound source

theorem pageObjectsFrom_eq_ok {label : String} {arenaBytes index start last : ℕ}
    {descriptors : List Store.ObjectDescriptor} {objects : List CudaPageObject}
    (h : pageObjectsFrom label arenaBytes index start descriptors = .ok (objects, last)) :
    Tiles CudaPageObject.encodedStart CudaPageObject.encodedEnd start objects last ∧
      ∀ object ∈ objects, Sound (min arenaBytes maxPageObjectPrefetchBytes) (.object object) := by
  induction descriptors generalizing index start objects with
  | nil =>
      cases h
      exact ⟨rfl, by simp⟩
  | cons d rest ih =>
      rw [pageObjectsFrom] at h
      simp only [bind_eq_ok, Prod.exists] at h
      obtain ⟨object, hobject, more, last', hmore, h⟩ := h
      cases h
      unfold pageObject at hobject
      split at hobject
      · rename_i hchecks
        cases hobject
        obtain ⟨htiles, hsound⟩ := ih hmore
        refine ⟨⟨hchecks.2.2.2, ?_, htiles⟩, ?_⟩
        · show start ≤ d.encodedStart + d.bytes
          omega
        · intro object hobject
          rcases List.mem_cons.mp hobject with rfl | hobject
          · exact ⟨by exact le_min hchecks.2.1 hchecks.2.2.1, le_rfl⟩
          · exact hsound object hobject
      · cases hobject

theorem pageObjects_eq_ok {descriptors : List Store.ObjectDescriptor} {totalBytes arenaBytes : ℕ}
    {label : String} {objects : List CudaPageObject}
    (h : pageObjects descriptors totalBytes arenaBytes label = .ok objects) :
    Tiles CudaPageObject.encodedStart CudaPageObject.encodedEnd 0 objects totalBytes ∧
      ∀ object ∈ objects, Sound (min arenaBytes maxPageObjectPrefetchBytes) (.object object) := by
  unfold pageObjects at h
  simp only [bind_eq_ok, require_eq_ok, Prod.exists] at h
  obtain ⟨-, -, found, last, hfound, -, ⟨-, hlast⟩, h⟩ := h
  cases h
  rw [← hlast]
  exact pageObjectsFrom_eq_ok hfound

/-- All objects of a stream supply a range that starts anywhere in it. -/
theorem Supplied.ofObjects {bound totalBytes start stop source : ℕ} {objects : List CudaPageObject}
    (htiles : Tiles CudaPageObject.encodedStart CudaPageObject.encodedEnd 0 objects totalBytes)
    (hsound : ∀ object ∈ objects, Sound bound (.object object)) (hordered : start ≤ stop) :
    Supplied bound ⟨start, stop, source, objects.map .object⟩ := by
  refine ⟨hordered, ⟨0, totalBytes, Nat.zero_le _, ?_⟩, ?_⟩
  · exact htiles.map monotone_id (fun _ _ => rfl) fun _ _ => rfl
  · intro s hs
    obtain ⟨object, hobject, rfl⟩ := List.mem_map.mp hs
    exact hsound object hobject

/-- The extents are those of the tails. -/
theorem tailExtentsOf_eq_some {objects : List CudaPageObject} {integrity : Integrity}
    {maxBytes : ℕ} {tails : List PageDeltaTail} {extents : List CudaPageTailExtent}
    (h : tailExtentsOf objects integrity maxBytes tails = .ok (some extents)) :
    List.Forall₂ (fun tail (extent : CudaPageTailExtent) => extent.encodedStart = tail.sourceStart ∧
      tail.sourceStart ≤ extent.encodedEnd ∧ Sound maxBytes (.extent extent)) tails extents := by
  induction tails generalizing extents with
  | nil =>
      cases h
      exact .nil
  | cons tail rest ih =>
      rw [tailExtentsOf] at h
      dsimp only at h
      split at h
      · cases h
      · rename_i hsize
        split at h
        · cases h
        · simp only [bind_eq_ok, require_eq_ok] at h
          obtain ⟨-, -, more, hmore, h⟩ := h
          cases more with
          | none => cases h
          | some more =>
              cases h
              have hbound : tail.sourceEnd - tail.sourceStart ≤ maxBytes := by omega
              have hextent : tail.sourceEnd ≤
                  tail.sourceStart + (tail.sourceEnd - tail.sourceStart) := by omega
              have hle : tail.sourceStart ≤ tail.sourceEnd := by omega
              exact .cons ⟨rfl, hle, hbound, hextent⟩ (ih hmore)

/-- An extent supplies the range of its tail. -/
theorem Supplied.ofExtent {bound start stop source : ℕ} {extent : CudaPageTailExtent}
    (hstart : extent.encodedStart = source) (hle : source ≤ extent.encodedEnd)
    (hsound : Sound bound (.extent extent)) (hordered : start ≤ stop) :
    Supplied bound ⟨start, stop, source, [.extent extent]⟩ := by
  refine ⟨hordered, ⟨source, extent.encodedEnd, le_rfl, hstart, hle, rfl⟩, ?_⟩
  intro s hs
  rw [List.mem_singleton.mp hs]
  exact hsound

/-- What is kept of supplied ranges is supplied. -/
theorem Supplied.keep {bound cutoff : ℕ} {ranges : List LogicalSourceRange}
    (h : ∀ range ∈ ranges, Supplied bound range) :
    ∀ range ∈ LogicalSourceRange.keep cutoff ranges, Supplied bound range := by
  induction ranges with
  | nil => simp [LogicalSourceRange.keep]
  | cons item rest ih =>
      have hrest := ih fun range hrange => h range (List.mem_cons_of_mem _ hrange)
      have hitem := h item List.mem_cons_self
      intro range hrange
      rw [LogicalSourceRange.keep] at hrange
      dsimp only at hrange
      split_ifs at hrange with hcutoff hstop
      · cases hrange
      · rw [List.mem_singleton.mp hrange]
        exact ⟨le_min hitem.ordered (not_le.mp hcutoff).le, hitem.tiles, hitem.sound⟩
      · rcases List.mem_cons.mp hrange with rfl | hrange
        · exact ⟨le_min hitem.ordered (not_le.mp hcutoff).le, hitem.tiles, hitem.sound⟩
        · exact hrest range hrange

/-! ## Ranges -/

section Ranges
variable {bound : ℕ}

theorem replaceTails_supplied {sources : List (PageDeltaTail × List PageSource)}
    {ranges placed : List (List LogicalSourceRange)}
    (hranges : ∀ layer ∈ ranges, ∀ range ∈ layer, Supplied bound range)
    (hsources : ∀ s ∈ sources, Supplied bound ⟨s.1.destinationByteOffset,
      s.1.destinationByteOffset + (s.1.sourceEnd - s.1.sourceStart), s.1.sourceStart, s.2⟩)
    (h : replaceTails sources ranges = .ok placed) :
    ∀ layer ∈ placed, ∀ range ∈ layer, Supplied bound range := by
  induction sources generalizing ranges placed with
  | nil =>
      cases h
      exact hranges
  | cons s rest ih =>
      obtain ⟨tail, sources⟩ := s
      cases ranges with
      | nil => cases h
      | cons existing more =>
          rw [replaceTails] at h
          simp only [bind_eq_ok] at h
          obtain ⟨kept, hkept, others, hothers, h⟩ := h
          cases h
          have hrest := ih (fun layer hlayer => hranges layer (List.mem_cons_of_mem _ hlayer))
            (fun s hs => hsources s (List.mem_cons_of_mem _ hs)) hothers
          unfold replaceTail at hkept
          simp only [bind_eq_ok, require_eq_ok] at hkept
          obtain ⟨-, -, hkept⟩ := hkept
          cases hkept
          intro layer hlayer
          rcases List.mem_cons.mp hlayer with rfl | hlayer
          · intro range hrange
            rcases List.mem_append.mp hrange with hrange | hrange
            · exact Supplied.keep (hranges existing List.mem_cons_self) range hrange
            · rw [List.mem_singleton.mp hrange]
              exact hsources (tail, sources) List.mem_cons_self
          · exact hrest layer hlayer

/-- A stage whose objects follow one another, each within the bound. -/
structure StageSupplied (bound : ℕ) (stage : CudaPageDeltaStage) : Prop where
  tiles : ∃ total, Tiles CudaPageObject.encodedStart CudaPageObject.encodedEnd 0 stage.objects total
  sound : ∀ object ∈ stage.objects, Sound bound (.object object)

theorem StageSupplied.tailSources {stage : CudaPageDeltaStage} (h : StageSupplied bound stage)
    {extents : Option (List CudaPageTailExtent)}
    (hextents : tailExtents stage.objects stage.plan bound = .ok extents) :
    ∀ s ∈ tailSources stage extents, Supplied bound ⟨s.1.destinationByteOffset,
      s.1.destinationByteOffset + (s.1.sourceEnd - s.1.sourceStart), s.1.sourceStart, s.2⟩ := by
  intro s hs
  cases extents with
  | none =>
      obtain ⟨tail, -, rfl⟩ := List.mem_map.mp hs
      obtain ⟨total, htiles⟩ := h.tiles
      exact Supplied.ofObjects htiles h.sound (Nat.le_add_right _ _)
  | some extents =>
      obtain ⟨⟨tail, extent⟩, hmem, rfl⟩ := List.mem_map.mp hs
      obtain ⟨hstart, hle, hsound⟩ :=
        (List.forall₂_iff_zip.mp (tailExtentsOf_eq_some hextents)).2 hmem
      exact Supplied.ofExtent hstart hle hsound (Nat.le_add_right _ _)

theorem placeStages_supplied {counts last : List ℕ} {digest lastDigest : Digest}
    {ranges placed : List (List LogicalSourceRange)} {stages : List CudaPageDeltaStage}
    (hranges : ∀ layer ∈ ranges, ∀ range ∈ layer, Supplied bound range)
    (hstages : ∀ stage ∈ stages, StageSupplied bound stage)
    (h : placeStages bound counts digest ranges stages = .ok (last, lastDigest, placed)) :
    ∀ layer ∈ placed, ∀ range ∈ layer, Supplied bound range := by
  induction stages generalizing counts digest ranges with
  | nil =>
      cases h
      exact hranges
  | cons stage rest ih =>
      rw [placeStages] at h
      simp only [bind_eq_ok, Prod.exists] at h
      obtain ⟨next, nextDigest, -, extents, hextents, replaced, hreplaced, h⟩ := h
      have hstage := hstages stage List.mem_cons_self
      exact ih (replaceTails_supplied hranges (hstage.tailSources hextents) hreplaced)
        (fun stage hmem => hstages stage (List.mem_cons_of_mem _ hmem)) h

end Ranges

/-! ## Spans in final order -/

def CudaPageSourceSpan.destinationEnd (span : CudaPageSourceSpan) : ℕ :=
  span.destinationByteOffset + span.byteCount

/-- A span of a layer that can be submitted. -/
structure Submittable (bound snapshotBase destinationIndex : ℕ) (span : CudaPageSourceSpan) :
    Prop where
  positive : 0 < span.byteCount
  bounded : span.byteCount ≤ bound
  source : span.source.encodedBytes ≤ bound
  snapshot : span.snapshotOffsetBytes = snapshotBase + span.destinationByteOffset
  index : span.destinationIndex = destinationIndex

/-- The spans cover a part of a layer in order. -/
structure LayerSpans (bound snapshotBase destinationIndex first : ℕ) (spans : List CudaPageSourceSpan)
    (last : ℕ) : Prop where
  tiles : Tiles CudaPageSourceSpan.destinationByteOffset CudaPageSourceSpan.destinationEnd first spans
    last
  submittable : ∀ span ∈ spans, Submittable bound snapshotBase destinationIndex span

section Spans
variable {bound snapshotBase destinationIndex : ℕ}

/-- The spans of a range cover it. -/
theorem Supplied.split {range : LogicalSourceRange} {spans : List CudaPageSourceSpan}
    (h : Supplied bound range) (hspans : range.split snapshotBase destinationIndex = .ok spans) :
    LayerSpans bound snapshotBase destinationIndex range.destinationStart spans
      range.destinationEnd := by
  obtain ⟨first, last, hfirst, htiles⟩ := h.tiles
  unfold LogicalSourceRange.split at hspans
  dsimp only at hspans
  split at hspans
  · rename_i hcursor
    cases hspans
    have hcuts := htiles.cut hfirst hcursor
    have hordered := h.ordered
    constructor
    · have hmono : Monotone fun position =>
          range.destinationStart + (position - range.sourceStart) := by
        intro a b hab
        show range.destinationStart + _ ≤ range.destinationStart + _
        omega
      have hmap : Tiles CudaPageSourceSpan.destinationByteOffset CudaPageSourceSpan.destinationEnd _
          (List.map (range.span snapshotBase destinationIndex) _) _ :=
        hcuts.map hmono (fun _ _ => rfl) (by
          intro piece hpiece
          obtain ⟨-, -, hlt, -⟩ := mem_cut hpiece
          have hbefore := (hcuts.bounds hpiece).1
          show range.destinationStart + (piece.2.1 - range.sourceStart) + (piece.2.2 - piece.2.1) =
            range.destinationStart + (piece.2.2 - range.sourceStart)
          omega)
      have hend : range.destinationStart + (range.sourceEnd - range.sourceStart) =
          range.destinationEnd := by
        unfold LogicalSourceRange.sourceEnd
        omega
      rwa [Nat.sub_self, Nat.add_zero, hend] at hmap
    · intro span hspan
      obtain ⟨piece, hpiece, rfl⟩ := List.mem_map.mp hspan
      obtain ⟨hsource, hstart, hlt, hstop⟩ := mem_cut hpiece
      have hsound := h.sound piece.1 hsource
      have hbounded := hsound.bounded
      have hextent := hsound.extent
      refine ⟨?_, ?_, hbounded, ?_, rfl⟩
      · show 0 < piece.2.2 - piece.2.1
        omega
      · show piece.2.2 - piece.2.1 ≤ bound
        omega
      · show snapshotBase + range.destinationStart + _ = snapshotBase + (range.destinationStart + _)
        exact Nat.add_assoc _ _ _
  · cases hspans

theorem layerSourceSpans_eq_ok {ranges : List LogicalSourceRange} {covered last : ℕ}
    {spans : List CudaPageSourceSpan} (hranges : ∀ range ∈ ranges, Supplied bound range)
    (h : layerSourceSpans snapshotBase destinationIndex covered ranges = .ok (spans, last)) :
    LayerSpans bound snapshotBase destinationIndex covered spans last := by
  induction ranges generalizing covered spans with
  | nil =>
      cases h
      exact ⟨rfl, by simp⟩
  | cons range rest ih =>
      rw [layerSourceSpans] at h
      simp only [bind_eq_ok, require_eq_ok, Prod.exists] at h
      obtain ⟨-, hstart, first, hfirst, more, last', hmore, h⟩ := h
      cases h
      have hlayer := (hranges range List.mem_cons_self).split hfirst
      have hrest := ih (fun range hrange => hranges range (List.mem_cons_of_mem _ hrange)) hmore
      rw [hstart] at hlayer
      refine ⟨hlayer.tiles.append hrest.tiles, ?_⟩
      intro span hspan
      rcases List.mem_append.mp hspan with hspan | hspan
      · exact hlayer.submittable span hspan
      · exact hrest.submittable span hspan

end Spans

/-- Spans in final order: those of a layer, then those of the layers after it. -/
inductive FinalOrder (bound : ℕ) : ℕ → ℕ → List CudaPageSourceSpan → ℕ → Prop
  | nil (destinationIndex snapshotBase) : FinalOrder bound destinationIndex snapshotBase [] snapshotBase
  | layer {destinationIndex snapshotBase size last : ℕ} {spans others : List CudaPageSourceSpan}
      (spans_ : LayerSpans bound snapshotBase destinationIndex 0 spans size)
      (others_ : FinalOrder bound (destinationIndex + 1) (snapshotBase + size) others last) :
      FinalOrder bound destinationIndex snapshotBase (spans ++ others) last

theorem resultSourceSpans_eq_ok {bound destinationIndex snapshotBase last : ℕ}
    {layers : List PagePayloadSpan} {ranges : List (List LogicalSourceRange)}
    {spans : List CudaPageSourceSpan}
    (hranges : ∀ layer ∈ ranges, ∀ range ∈ layer, Supplied bound range)
    (h : resultSourceSpans destinationIndex snapshotBase layers ranges = .ok (spans, last)) :
    FinalOrder bound destinationIndex snapshotBase spans last := by
  induction layers generalizing destinationIndex snapshotBase ranges spans with
  | nil =>
      cases ranges with
      | nil =>
          cases h
          exact .nil _ _
      | cons ranges more => cases h
  | cons layer layers ih =>
      cases ranges with
      | nil => cases h
      | cons ranges more =>
          rw [resultSourceSpans] at h
          simp only [bind_eq_ok, require_eq_ok, Prod.exists] at h
          obtain ⟨first, covered, hfirst, -, hcovered, others, last', hothers, h⟩ := h
          cases h
          have hlayer := layerSourceSpans_eq_ok (hranges ranges List.mem_cons_self) hfirst
          have hrest := ih (fun layer hlayer => hranges layer (List.mem_cons_of_mem _ hlayer)) hothers
          rw [← hcovered] at hrest
          exact .layer hlayer hrest

/-- The spans have all the bytes between their ends. -/
theorem LayerSpans.sum_eq {bound snapshotBase destinationIndex first last : ℕ}
    {spans : List CudaPageSourceSpan}
    (h : LayerSpans bound snapshotBase destinationIndex first spans last) :
    first + (spans.map CudaPageSourceSpan.byteCount).sum = last := by
  obtain ⟨htiles, -⟩ := h
  induction spans generalizing first with
  | nil => exact htiles
  | cons span rest ih =>
      obtain ⟨hstart, -, hrest⟩ := htiles
      have hsum := ih hrest
      unfold CudaPageSourceSpan.destinationEnd at hsum
      rw [List.map_cons, List.sum_cons]
      omega

theorem FinalOrder.sum_eq {bound destinationIndex snapshotBase last : ℕ}
    {spans : List CudaPageSourceSpan}
    (h : FinalOrder bound destinationIndex snapshotBase spans last) :
    snapshotBase + (spans.map CudaPageSourceSpan.byteCount).sum = last := by
  induction h with
  | nil => rfl
  | layer hspans _ ih =>
      have hsum := hspans.sum_eq
      rw [List.map_append, List.sum_append]
      omega

end SparkCache.Restore
