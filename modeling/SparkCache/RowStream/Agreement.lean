import SparkCache.RowStream.ReadyRows

/-!
# Agreement with captured rows

The chunks that are cut out of ready views are those of a synchronous snapshot of the same blocks,
however the planner has cut the span into batches.
-/
namespace SparkCache.RowStream
open Store Rows
open Pages (slice bind_eq_ok)

/-! ## Batches -/

/-- A view of an emitted batch, filled by a gather of the slots of the batch. -/
def BatchView (memory : ℕ → UInt8) (sources : List SnapshotSource) (slotBytes dcpRank blockSize : ℕ)
    (emitted : SnapshotBatch × List ℕ) (view : SnapshotView) : Prop :=
  ∃ slots, physicalSlots dcpRank profileDegree blockSize emitted.1 emitted.2 = .ok slots ∧
    Gathered memory sources slotBytes emitted.1 slots view

/-- Views of consecutive chunks. -/
def Showing (layers : LayerPlans) (row : String → ℕ → Bytes) : ℕ → List SnapshotView → ℕ → Prop
  | index, [], stop => stop = index
  | index, view :: rest, stop =>
      ∃ count, view.Shows layers row index count ∧ Showing layers row (index + count) rest stop

/-- The slots of ordinals are rows of every layer. -/
def Covered (layers : LayerPlans) (rows : String → List Bytes) (blockIds : List ℕ) (blockSize first stop : ℕ) : Prop :=
  ∀ ordinal, first ≤ ordinal → ordinal < stop → ordinal / blockSize < blockIds.length ∧
    ∀ plan ∈ layers.plans, slotOf blockIds blockSize ordinal < (rows plan.name).length

theorem Covered.append {layers : LayerPlans} {rows : String → List Bytes} {blockIds : List ℕ}
    {blockSize first middle stop : ℕ} (h : Covered layers rows blockIds blockSize first middle)
    (h' : Covered layers rows blockIds blockSize middle stop) : Covered layers rows blockIds blockSize first stop := by
  intro ordinal hle hlt
  by_cases hmiddle : ordinal < middle
  · exact h ordinal hle hmiddle
  · exact h' ordinal (by omega) hlt

theorem itemsAt_append {item : ℕ → Except StoreError ContextChunk} {xs ys : List ℕ} :
    ∀ {chunks : List ContextChunk}, itemsAt item (xs ++ ys) = .ok chunks ↔
      ∃ first, itemsAt item xs = .ok first ∧ ∃ later, itemsAt item ys = .ok later ∧ first ++ later = chunks := by
  induction xs with
  | nil => simp [itemsAt]
  | cons index rest ih =>
      intro chunks
      simp only [List.cons_append, itemsAt, bind_eq_ok, ih, pure, Except.pure, Except.ok.injEq]
      constructor
      · rintro ⟨c, hc, _, ⟨first, hfirst, later, hlater, rfl⟩, rfl⟩
        exact ⟨c :: first, ⟨c, hc, first, hfirst, rfl⟩, later, hlater, rfl⟩
      · rintro ⟨_, ⟨c, hc, first, hfirst, rfl⟩, later, hlater, rfl⟩
        exact ⟨c, hc, first ++ later, ⟨first, hfirst, later, hlater, rfl⟩, rfl⟩

theorem itemsAt_congr {item item' : ℕ → Except StoreError ContextChunk} {indices : List ℕ}
    (h : ∀ index ∈ indices, item index = item' index) : itemsAt item indices = itemsAt item' indices := by
  induction indices with
  | nil => rfl
  | cons index rest ih =>
      rw [List.forall_mem_cons] at h
      rw [itemsAt, itemsAt, h.1, ih h.2]

theorem Showing.le {layers : LayerPlans} {row : String → ℕ → Bytes} {views : List SnapshotView} :
    ∀ {index stop : ℕ}, Showing layers row index views stop → index ≤ stop := by
  induction views with
  | nil => exact fun h => le_of_eq (Eq.symm h)
  | cons view rest ih =>
      rintro index stop ⟨count, -, hrest⟩
      exact (Nat.le_add_right index count).trans (ih hrest)

/-- The chunks of consecutive views. -/
theorem Showing.translate {layers : LayerPlans} {row : String → ℕ → Bytes} {dcpRank : ℕ}
    (hprofile : Profile layers) (hrank : dcpRank < profileDegree) {views : List SnapshotView} :
    ∀ {index stop : ℕ} {chunks : List ContextChunk}, Showing layers row index views stop →
      (translateViews dcpRank views = .ok chunks ↔
        itemsAt (sharedChunk layers dcpRank row) (List.range' index (stop - index)) = .ok chunks) := by
  induction views with
  | nil =>
      intro index stop chunks h
      rw [Showing] at h
      rw [h, Nat.sub_self]
      exact Iff.rfl
  | cons view rest ih =>
      rintro index stop chunks ⟨count, hview, hrest⟩
      have hle := hrest.le
      have hsplit : List.range' index (stop - index) =
          List.range' index count ++ List.range' (index + count) (stop - (index + count)) := by
        rw [List.range'_append_1]
        congr 1
        omega
      rw [hsplit, itemsAt_append]
      simp only [translateViews, bind_eq_ok, hview.iter hprofile hrank, ih hrest, pure, Except.pure,
        Except.ok.injEq]

section Batches
variable {layers : LayerPlans} {registered : List (String × RowTensor)} {sources : List SnapshotSource} {device : ℕ}
  (hinventory : buildSourceInventory layers.plans registered = .ok (sources, device))
  {memory : ℕ → UInt8} {rows : String → List Bytes} (hregistered : Registers memory registered rows)
include hinventory

theorem profile_of_inventory : Profile layers := by
  obtain ⟨hkinds, targets, indexers, -, htargets, hindexers⟩ := buildSourceInventory_describes hinventory
  exact ⟨hkinds, htargets.plans_length, hindexers.plans_length⟩

theorem validateSourceOrder_of_inventory : validateSourceOrder sources = .ok () := by
  obtain ⟨-, targets, indexers, rfl, htargets, hindexers⟩ := buildSourceInventory_describes hinventory
  have hordered : ∀ {recordKind count width : ℕ} {plans : List LayerPlan} {some : List SnapshotSource},
      DescribesAll registered recordKind count width plans some →
      some.map (fun s => (s.recordKind, s.sourceLayerOrdinal, s.bytesPerToken)) =
        (List.range count).map fun ordinal => (recordKind, ordinal, width) := by
    intro recordKind count width plans some h
    refine List.ext_getElem (by simp [h.sources_length]) fun i hi _ => ?_
    rw [List.length_map] at hi
    have hplan : i < plans.length := by
      rw [h.plans_length, ← h.sources_length]
      exact hi
    have hdescribes := h.describes i _ _ (List.getElem?_eq_getElem hplan) (List.getElem?_eq_getElem hi)
    rw [List.getElem_map, List.getElem_map, List.getElem_range, hdescribes.recordKind, hdescribes.ordinal,
      hdescribes.width, h.width _ (List.getElem_mem hplan)]
  have horder : (targets ++ indexers).map (fun s => (s.recordKind, s.sourceLayerOrdinal, s.bytesPerToken)) =
      layerOrder := by
    rw [List.map_append, hordered htargets, hordered hindexers]
    rfl
  have hlength := congrArg List.length horder
  rw [List.length_map] at hlength
  unfold validateSourceOrder
  rw [require_of hlength, require_of horder]
  rfl

include hregistered

/-- A filled view shows the rows of its batch. -/
theorem BatchView.shows {slotBytes dcpRank blockSize index count : ℕ} {batch : SnapshotBatch}
    {blockTable blockIds : List ℕ} {view : SnapshotView} (hrank : dcpRank < profileDegree) (hcount : 0 < count)
    (htable : blockTable <+: blockIds) (hstart : batch.logicalStart = index * profileChunkTokens)
    (hend : batch.logicalEnd = (index + count) * profileChunkTokens)
    (h : BatchView memory sources slotBytes dcpRank blockSize (batch, blockTable) view) :
    view.Shows layers (capturedRow rows blockIds blockSize) index count ∧
      Covered layers rows blockIds blockSize (index * rowsPerChunk) ((index + count) * rowsPerChunk) := by
  obtain ⟨slots, hslots, hgathered⟩ := h
  obtain ⟨hkinds, targets, indexers, rfl, htargets, hindexers⟩ := buildSourceInventory_describes hinventory
  have hrows : ∀ n, n * profileChunkTokens = n * rowsPerChunk * profileDegree := by
    intro n
    rw [Nat.mul_assoc]
    rfl
  rw [hrows] at hstart hend
  rw [Nat.add_mul _ _ rowsPerChunk] at hend
  obtain ⟨hwithin, rfl⟩ := physicalSlots_eq_ok hrank hstart hend hslots
  have hrowCount : view.rowCount = count * rowsPerChunk := by
    rw [hgathered.rowCount, List.length_map, List.length_range']
  have hslot : ∀ ordinal, index * rowsPerChunk ≤ ordinal → ordinal < index * rowsPerChunk + count * rowsPerChunk →
      slotOf blockTable blockSize ordinal = slotOf blockIds blockSize ordinal := by
    intro ordinal hle hlt
    obtain ⟨more, rfl⟩ := htable
    rw [slotOf, slotOf, List.getD_eq_getElem?_getD, List.getD_eq_getElem?_getD,
      List.getElem?_append_left (hwithin ordinal hle hlt)]
  have hslots' : (List.range' (index * rowsPerChunk) (count * rowsPerChunk)).map (slotOf blockTable blockSize) =
      (List.range' (index * rowsPerChunk) view.rowCount).map (slotOf blockIds blockSize) := by
    rw [hrowCount]
    refine List.map_congr_left fun ordinal hordinal => ?_
    rw [List.mem_range'_1] at hordinal
    exact hslot ordinal hordinal.1 hordinal.2
  have hwidths : sourceWidths (targets ++ indexers) = profileWidths := by
    rw [sourceWidths, List.map_append, ← sourceWidths, ← sourceWidths, htargets.widths, hindexers.widths]
    rfl
  have hlayout := calculatePayloadLayout_profile hwidths hgathered.layout
  rw [← hgathered.rowCount] at hlayout
  refine ⟨⟨?_, hrowCount, hcount, hlayout, ?_, ?_⟩, ?_⟩
  · rw [hgathered.logicalStart, hstart, ← hrows]
  · refine hgathered.recordShows hregistered htargets (List.subset_append_left _ _) hslots' ⟨by decide, ?_⟩
      hlayout.targetLength hlayout.target_le
    rw [hlayout.recordMask]
    decide
  · refine hgathered.recordShows hregistered hindexers (List.subset_append_right _ _) hslots' ⟨by decide, ?_⟩
      hlayout.indexerLength hlayout.indexer_le
    rw [hlayout.recordMask]
    decide
  · intro ordinal hle hlt
    rw [Nat.add_mul] at hlt
    have hlt' : ordinal < index * rowsPerChunk + view.rowCount := by rwa [hrowCount]
    refine ⟨(hwithin ordinal hle hlt).trans_le htable.length_le, fun plan hplan => ?_⟩
    obtain hkind | hkind := hkinds plan hplan
    · exact hgathered.slot_lt hregistered htargets (List.subset_append_left _ _) hslots'
        (mem_layersOf.mpr ⟨hplan, hkind⟩) hle hlt'
    · exact hgathered.slot_lt hregistered hindexers (List.subset_append_right _ _) hslots'
        (mem_layersOf.mpr ⟨hplan, hkind⟩) hle hlt'

/-- The views of consecutive batches show the rows of a span. -/
theorem Consecutive.showing {c : Coordinator} (hchunk : c.chunkTokens = profileChunkTokens)
    {slotBytes dcpRank blockSize tokens : ℕ} {blockIds : List ℕ} (hrank : dcpRank < profileDegree)
    {emitted : List (SnapshotBatch × List ℕ)} :
    ∀ {views : List SnapshotView} {index stop : ℕ},
      Consecutive c tokens (index * profileChunkTokens) emitted (stop * profileChunkTokens) →
      (∀ e ∈ emitted, e.2 <+: blockIds) →
      List.Forall₂ (BatchView memory sources slotBytes dcpRank blockSize) emitted views →
      Showing layers (capturedRow rows blockIds blockSize) index views stop ∧
        Covered layers rows blockIds blockSize (index * rowsPerChunk) (stop * rowsPerChunk) := by
  have hpositive : 0 < profileChunkTokens := by decide
  induction emitted with
  | nil =>
      intro views index stop hconsecutive _ hviews
      cases hviews
      have hstop : stop = index := Nat.eq_of_mul_eq_mul_right hpositive hconsecutive
      subst hstop
      exact ⟨rfl, fun ordinal hle hlt => absurd hlt (Nat.not_lt.mpr hle)⟩
  | cons entry rest ih =>
      intro views index stop hconsecutive htables hviews
      obtain ⟨batch, blockTable⟩ := entry
      obtain ⟨⟨hstart, hlt, -, haligned, -⟩, hlater⟩ := hconsecutive
      rw [List.forall_mem_cons] at htables
      cases hviews with
      | cons hview hmore =>
          rw [hchunk] at haligned
          obtain ⟨next, hnext⟩ := haligned
          rw [Nat.mul_comm] at hnext
          rw [hnext] at hlt
          have hindex : index < next := Nat.lt_of_mul_lt_mul_right hlt
          obtain ⟨count, rfl⟩ := Nat.exists_eq_add_of_le hindex.le
          rw [hnext] at hlater
          obtain ⟨hshows, hcovered⟩ := hview.shows hinventory hregistered hrank (by omega) htables.1 hstart hnext
          obtain ⟨hshowing, hcovered'⟩ := ih hlater htables.2 hmore
          exact ⟨⟨count, hshows, hshowing⟩, hcovered.append hcovered'⟩

end Batches

/-! ## Streams and snapshots -/

/-- The synchronous snapshot of a covered span, and its chunks. -/
theorem snapshotStore_covered (w : Worker) (hdegree : w.identity.dcpDegree = profileDegree)
    (hchunk : w.identity.chunkTokens = profileChunkTokens) {tensors : LayerTensors w.layers} {plan : ReqPlan}
    {total : ℕ} (hbase : plan.baseContextDigest = none) (hspan : plan.spanTokens = total * profileChunkTokens)
    (htotal : 0 < total) (hblock : 0 < w.blockSize)
    (hcovered : Covered w.layers tensors.rows plan.blockIds w.blockSize 0 (total * rowsPerChunk)) :
    ∃ s, w.snapshotStore tensors plan = .ok s ∧ ∃ sequence,
      snapshotChunks s w.layers w.identity.dcpDegree w.identity.chunkTokens = .ok sequence ∧
      sequence.count = total ∧ ∀ index < total, sequence.item index =
        sharedChunk w.layers w.rank (capturedRow tensors.rows plan.blockIds w.blockSize) index := by
  have hrank := w.rank_lt
  have hstart : plan.publicationStart = 0 := by rw [ReqPlan.publicationStart, hbase]; rfl
  have hrows : plan.spanTokens = total * rowsPerChunk * w.identity.dcpDegree := by
    rw [hspan, hdegree, Nat.mul_assoc]
    rfl
  have howned : ownedPositions plan.spanTokens w.identity.dcpDegree w.rank =
      .ok (positionsOf w.identity.dcpDegree w.rank 0 (total * rowsPerChunk)) := by
    rw [hrows, ownedPositions_eq hrank (Nat.mul_pos htotal (by decide)), positionsOf_eq, Nat.zero_mul, Nat.zero_add]
  have hordinals : ∀ p ∈ positionsOf w.identity.dcpDegree w.rank 0 (total * rowsPerChunk),
      p / w.identity.dcpDegree < total * rowsPerChunk := by
    intro p hp
    obtain ⟨ordinal, -, hlt, rfl⟩ := mem_positionsOf.mp hp
    rw [ordinal_of_position hrank]
    omega
  have hsnapshot : ∃ s, w.snapshotStore tensors plan = .ok s := by
    unfold Worker.snapshotStore localSlotsForPositions
    simp only [hbase, Option.isSome_none, howned, bind_eq_ok, require_eq_ok, slotsWithin_eq_ok,
      gatherLayers_eq_ok, pure, Except.pure, Except.ok.injEq]
    refine ⟨_, (), rfl, _, rfl, _, ⟨(), hblock, fun p hp => ?_, rfl⟩, _, ⟨fun plan' hplan slot hslot => ?_, rfl⟩, rfl⟩
    · have hp' := (List.mem_filter.mp hp).1
      exact (Nat.div_lt_iff_lt_mul hblock).mp (hcovered _ (Nat.zero_le _) (hordinals p hp')).1
    · obtain ⟨p, hp, rfl⟩ := List.mem_map.mp hslot
      exact (hcovered _ (Nat.zero_le _) (hordinals p (List.mem_filter.mp hp).1)).2 plan' hplan
  obtain ⟨s, hs⟩ := hsnapshot
  obtain ⟨hplan, hlogical, hcaptures⟩ := w.snapshotStore_captures hrows
    (show plan.publicationStart = 0 * rowsPerChunk * w.identity.dcpDegree by rw [hstart, Nat.zero_mul, Nat.zero_mul])
    (by rw [Nat.zero_mul]; exact Nat.zero_le _) hs
  rw [hstart] at hlogical
  rw [← Nat.sub_mul, Nat.sub_zero] at hcaptures
  have hchunks : snapshotChunks s w.layers w.identity.dcpDegree w.identity.chunkTokens =
      .ok ⟨total, s.chunk w.layers profileChunkTokens rowsPerChunk⟩ := by
    have hcount : chunkCount (total * profileChunkTokens) profileChunkTokens = .ok total :=
      chunkCount_eq_ok.mpr ⟨by decide, Nat.mul_pos htotal (by decide), Nat.dvd_mul_left _ _,
        (Nat.mul_div_cancel _ (by decide)).symm⟩
    unfold snapshotChunks
    rw [hchunk, hdegree, hplan, hspan, hcount, hlogical, require_of (by decide)]
    rfl
  refine ⟨s, hs, _, hchunks, rfl, fun index hindex => ?_⟩
  show s.chunk w.layers profileChunkTokens rowsPerChunk index = _
  rw [hcaptures.chunk_eq hindex, hlogical, hdegree, Nat.zero_add, Nat.zero_add, Nat.zero_add]
  rfl

/-- The slices that the chunks of a view take of its records lie in the records. -/
def SnapshotView.SlicesWithin (view : SnapshotView) : Prop :=
  ∀ start ∈ List.range' 0 ((view.rowCount + (rowsPerChunk - 1)) / rowsPerChunk) rowsPerChunk,
    ∀ part ∈ [(targetKind, targetLayers, targetBytesPerToken), (indexerKind, indexerLayers, indexerBytesPerToken)],
      ∃ record, view.record part.1 = .ok record ∧
        ∀ bounds ∈ chunkSlices part.2.1 part.2.2 view.rowCount start, bounds.2 ≤ record.length

theorem SnapshotView.Shows.slicesWithin {view : SnapshotView} {layers : LayerPlans} {row : String → ℕ → Bytes}
    {index count : ℕ} (h : view.Shows layers row index count) : view.SlicesWithin := by
  intro start hstart part hpart
  have hroom : start + rowsPerChunk ≤ view.rowCount := by
    rw [List.mem_range'] at hstart
    obtain ⟨i, hi, rfl⟩ := hstart
    rw [h.rowCount] at hi ⊢
    unfold rowsPerChunk profileChunkTokens profileDegree at hi ⊢
    omega
  have hshown : ∃ plans, view.RecordShows part.1 part.2.1 part.2.2 plans row (index * rowsPerChunk) := by
    rw [List.mem_cons, List.mem_singleton] at hpart
    obtain rfl | rfl := hpart
    · exact ⟨_, h.target⟩
    · exact ⟨_, h.indexer⟩
  obtain ⟨plans, hshown⟩ := hshown
  refine ⟨_, hshown.record, fun bounds hbounds => ?_⟩
  rw [Pages.slice_length hshown.within, Nat.add_sub_cancel_left, hshown.length]
  exact (chunkSlices_within hroom hbounds).2

theorem Showing.slicesWithin {layers : LayerPlans} {row : String → ℕ → Bytes} {views : List SnapshotView} :
    ∀ {index stop : ℕ}, Showing layers row index views stop → ∀ view ∈ views, view.SlicesWithin := by
  induction views with
  | nil => exact fun _ view hview => by cases hview
  | cons first rest ih =>
      rintro index stop ⟨count, hfirst, hrest⟩
      rw [List.forall_mem_cons]
      exact ⟨hfirst.slicesWithin, ih hrest⟩

/-- A finished plan: its batches lead from the first token to the last. -/
theorem planned_consecutive {c : Coordinator} {spanTokens tokens : ℕ} {session : Session}
    (hbegin : beginSession c spanTokens = .ok session) (calls : List PlannerCall)
    (hplanned : (Run.exec (planStep c tokens) ⟨session, []⟩ calls).session.nextToken = spanTokens) :
    0 < spanTokens ∧ c.chunkTokens ∣ spanTokens ∧
      Consecutive c tokens 0 (Run.exec (planStep c tokens) ⟨session, []⟩ calls).emitted spanTokens := by
  unfold beginSession at hbegin
  simp only [bind_eq_ok, require_eq_ok, pure, Except.pure, Except.ok.injEq] at hbegin
  obtain ⟨_, ⟨hpositive, haligned⟩, rfl⟩ := hbegin
  have hstart : Planning.Holds c tokens ⟨⟨spanTokens, .active, 0, 0, []⟩, []⟩ := ⟨Nat.dvd_zero _, rfl⟩
  have hholds := hstart.run calls
  refine ⟨hpositive, Nat.dvd_of_mod_eq_zero haligned, ?_⟩
  have hconsecutive := hholds.consecutive
  rwa [hplanned] at hconsecutive

theorem Consecutive.tokens_pos {c : Coordinator} {tokens start stop : ℕ} {emitted : List (SnapshotBatch × List ℕ)}
    (h : Consecutive c tokens start emitted stop) (hlt : start < stop) : 0 < tokens := by
  cases emitted with
  | nil => exact absurd hlt (by rw [Consecutive] at h; omega)
  | cons entry rest =>
      obtain ⟨⟨hstart, hend, -, -, hwithin⟩, -⟩ := h
      by_contra hzero
      rw [Nat.eq_zero_of_not_pos hzero, Nat.mul_zero] at hwithin
      omega

/-- The chunks of ready views are those of a synchronous snapshot of the same plan. -/
theorem stream_eq_snapshot (w : Worker) (hdegree : w.identity.dcpDegree = profileDegree)
    (hchunk : w.identity.chunkTokens = profileChunkTokens) {registered : List (String × RowTensor)}
    {sources : List SnapshotSource} {device : ℕ}
    (hinventory : buildSourceInventory w.layers.plans registered = .ok (sources, device))
    {memory : ℕ → UInt8} {tensors : LayerTensors w.layers} (hregistered : Registers memory registered tensors.rows)
    {plan : ReqPlan} (hbase : plan.baseContextDigest = none)
    {c : Coordinator} (hcoordinator : c.chunkTokens = profileChunkTokens) {session : Session}
    (hbegin : beginSession c plan.spanTokens = .ok session) (calls : List PlannerCall) {run : Planning}
    (hrun : Run.exec (planStep c (w.blockSize * profileDegree)) ⟨session, []⟩ calls = run)
    (hplanned : run.session.nextToken = plan.spanTokens)
    (htables : ∀ emitted ∈ run.emitted, emitted.2 <+: plan.blockIds) {slotBytes : ℕ} {views : List SnapshotView}
    (hviews : List.Forall₂ (BatchView memory sources slotBytes w.rank w.blockSize) run.emitted views) :
    (∃ s sequence, w.snapshotStore tensors plan = .ok s ∧
      snapshotChunks s w.layers w.identity.dcpDegree w.identity.chunkTokens = .ok sequence ∧
      ∀ chunks, streamChunks sources w.rank views = .ok chunks ↔ sequence.slice 0 sequence.count = .ok chunks) ∧
    ∀ view ∈ views, view.SlicesWithin := by
  have hrank : w.rank < profileDegree := by
    rw [← hdegree]
    exact w.rank_lt
  subst hrun
  obtain ⟨hpositive, haligned, hconsecutive⟩ := planned_consecutive hbegin calls hplanned
  have hblock : 0 < w.blockSize := Nat.pos_of_mul_pos_right (hconsecutive.tokens_pos hpositive)
  rw [hcoordinator] at haligned
  obtain ⟨total, htotal⟩ := haligned
  rw [Nat.mul_comm] at htotal
  rw [htotal] at hpositive
  have htotal_pos : 0 < total := Nat.pos_of_mul_pos_right hpositive
  rw [htotal, ← Nat.zero_mul profileChunkTokens] at hconsecutive
  obtain ⟨hshowing, hcovered⟩ := hconsecutive.showing hinventory hregistered hcoordinator hrank htables hviews
  rw [Nat.zero_mul] at hcovered
  obtain ⟨s, hs, sequence, hsequence, hcount, hitems⟩ :=
    snapshotStore_covered w hdegree hchunk hbase htotal htotal_pos hblock hcovered
  refine ⟨⟨s, sequence, hs, hsequence, fun chunks => ?_⟩, hshowing.slicesWithin⟩
  have htranslate : translateViews w.rank views = .ok chunks ↔ _ :=
    hshowing.translate (profile_of_inventory hinventory) hrank
  have hsame : sequence.slice 0 sequence.count =
      itemsAt (sharedChunk w.layers w.rank (capturedRow tensors.rows plan.blockIds w.blockSize))
        (List.range' 0 (total - 0)) := by
    rw [ChunkSequence.slice, Nat.min_self, hcount]
    refine itemsAt_congr fun index hindex => hitems index ?_
    have hlt := (List.mem_range'_1.mp hindex).2
    omega
  rw [hsame, ← htranslate]
  unfold streamChunks
  rw [require_of hrank, validateSourceOrder_of_inventory hinventory]
  rfl

/-! ## Two chunks in blocks out of order -/

def layerName (number : ℕ) (family : List Char) : String :=
  String.ofList (['l', 'a', 'y', 'e', 'r', 's', '.'] ++
    [Char.ofNat (48 + number / 10), Char.ofNat (48 + number % 10)] ++ family)

def targetPlan (number : ℕ) : LayerPlan :=
  ⟨layerName number ['.', 'm', 'l', 'a'], .targetCkv, targetBytesPerToken, by decide, by decide⟩

def indexerPlan (number : ℕ) : LayerPlan :=
  ⟨layerName number ['.', 'i', 'd', 'x'], .sparseIndexer, indexerBytesPerToken, by decide, by decide⟩

set_option maxRecDepth 10000 in
def profileLayers : LayerPlans where
  plans := (List.range indexerLayers).flatMap (fun n => [indexerPlan n, targetPlan n]) ++
    (List.range' indexerLayers (targetLayers - indexerLayers)).map targetPlan
  sorted := by
    rw [← List.isChain_iff_pairwise]
    decide +kernel

def profileTensor (width : ℕ) : RowTensor :=
  ⟨true, some 0, true, 4096, some ⟨true, some 0, true, [macroRows, width], 1, width, 4096⟩⟩

def profileTensors : List (String × RowTensor) :=
  profileLayers.plans.map fun plan => (plan.name, profileTensor plan.bytesPerToken)

theorem profileTensors_lookup {plan : LayerPlan} (hplan : plan ∈ profileLayers.plans) :
    profileTensors.lookup plan.name = some (profileTensor plan.bytesPerToken) :=
  @lookup_name _ profileLayers.nodup _ (fun p => profileTensor p.bytesPerToken) _ hplan

def profileSourcesOf (recordKind width first layers : ℕ) : List SnapshotSource :=
  (List.range' first layers).map fun ordinal => ⟨4096, macroRows, width, width, recordKind, ordinal⟩

theorem describeSources_profile {tensors : List (String × RowTensor)} {recordKind width : ℕ}
    (hkind : recordKind < maxRecordKinds) (hwidth : 0 < width ∧ width ≤ 4096) {plans : List LayerPlan}
    (hplans : ∀ plan ∈ plans, plan.bytesPerToken = width ∧ tensors.lookup plan.name = some (profileTensor width)) :
    ∀ {ordinal : ℕ} {device : Option ℕ}, ordinal + plans.length ≤ 4096 → (∀ known ∈ device, known = 0) →
      describeSources tensors recordKind ordinal device plans =
        .ok (profileSourcesOf recordKind width ordinal plans.length, if plans = [] then device else some 0) := by
  induction plans with
  | nil => exact fun _ _ => rfl
  | cons plan rest ih =>
      intro ordinal device hordinal hdevice
      rw [List.forall_mem_cons] at hplans
      obtain ⟨⟨hbytes, hlookup⟩, hrest⟩ := hplans
      rw [List.length_cons] at hordinal
      have hcheck : SnapshotSource.check ⟨4096, macroRows, width, width, recordKind, ordinal⟩ = .ok () := by
        unfold SnapshotSource.check maxRecordKinds uint64Max uint32Max macroRows
        unfold maxRecordKinds at hkind
        simp only [require_eq_ok, bind_eq_ok, exists_const]
        omega
      have hsource : describeSource (profileTensor width) plan recordKind ordinal =
          .ok (⟨4096, macroRows, width, width, recordKind, ordinal⟩, 0) := by
        unfold describeSource profileTensor
        simp [expect, hbytes, require, bind, Except.bind]
        rw [hcheck]
        rfl
      have hmore := ih hrest (show ordinal + 1 + rest.length ≤ 4096 by omega)
        (show ∀ known ∈ some 0, known = 0 by simp)
      rw [ite_self] at hmore
      rw [describeSources, hlookup]
      simp only [expect, bind, Except.bind, hsource]
      rw [require_of fun known h => (hdevice known h).symm]
      simp only [hmore]
      rfl

def profileSources : List SnapshotSource :=
  profileSourcesOf targetKind targetBytesPerToken 0 targetLayers ++
    profileSourcesOf indexerKind indexerBytesPerToken 0 indexerLayers

theorem profile_inventory :
    buildSourceInventory profileLayers.plans profileTensors = .ok (profileSources, 0) := by
  have hlookup : ∀ kind width, (∀ plan ∈ layersOf profileLayers.plans kind, plan.bytesPerToken = width) →
      ∀ plan ∈ layersOf profileLayers.plans kind, plan.bytesPerToken = width ∧
        profileTensors.lookup plan.name = some (profileTensor width) := by
    intro kind width hwidth plan hplan
    refine ⟨hwidth plan hplan, ?_⟩
    rw [← hwidth plan hplan]
    exact profileTensors_lookup (mem_layersOf.mp hplan).1
  have htargetLength : (layersOf profileLayers.plans .targetCkv).length = targetLayers := by decide +kernel
  have hindexerLength : (layersOf profileLayers.plans .sparseIndexer).length = indexerLayers := by decide +kernel
  have htargetWidth : ∀ plan ∈ layersOf profileLayers.plans .targetCkv, plan.bytesPerToken = targetBytesPerToken := by
    decide +kernel
  have hindexerWidth : ∀ plan ∈ layersOf profileLayers.plans .sparseIndexer,
      plan.bytesPerToken = indexerBytesPerToken := by
    decide +kernel
  have htargets := @describeSources_profile profileTensors targetKind targetBytesPerToken (by decide) (by decide) _
    (hlookup .targetCkv _ htargetWidth) 0 none (by rw [htargetLength]; decide) (by simp)
  have hindexers := @describeSources_profile profileTensors indexerKind indexerBytesPerToken (by decide) (by decide) _
    (hlookup .sparseIndexer _ hindexerWidth) 0 (some 0) (by rw [hindexerLength]; decide) (by simp)
  rw [if_neg (List.ne_nil_of_length_pos (by rw [htargetLength]; decide)), htargetLength] at htargets
  rw [ite_self, hindexerLength] at hindexers
  have hnames : profileTensors.map Prod.fst = profileLayers.plans.map LayerPlan.name := by
    rw [profileTensors, List.map_map]
    exact List.map_congr_left fun _ _ => rfl
  have hcount : profileLayers.plans.length = sourceCount := by decide +kernel
  have hkinds : ∀ plan ∈ profileLayers.plans, plan.recordKind = .targetCkv ∨ plan.recordKind = .sparseIndexer := by
    decide +kernel
  unfold buildSourceInventory
  simp only [bind_eq_ok, require_eq_ok, expect_eq_ok, sortedByName_layersOf, hnames, htargets, pure, Except.pure]
  exact ⟨(), ⟨hcount, fun t ht => hnames ▸ List.mem_map_of_mem ht, fun plan hplan => List.mem_map_of_mem hplan⟩, (),
    hkinds, (), ⟨htargetLength, htargetWidth, hindexerLength, hindexerWidth⟩, _, rfl, _, hindexers, _, rfl, rfl⟩

/-! The run: two offers, each with the block table of its moment. -/

def profileIdentity : CacheIdentity := { tinyIdentity .unnamed with
  dcpDegree := profileDegree
  chunkTokens := profileChunkTokens
  dcpShardRank := 1
  degrees := by decide
  sizes := by decide
  ranks := by decide }

def profileWorker : Worker where
  layers := profileLayers
  blockSize := 64
  identity := profileIdentity
  rank := 1
  shard := rfl

def profilePlan : ReqPlan := ⟨zeroDigest, 512, [1, 0], [], none, 0⟩

def profileCoordinator : Coordinator := ⟨profileChunkTokens, 1, 2, by decide⟩

def profileSession : Session := ⟨512, .active, 0, 0, []⟩

/-- Two offers; the table has one block at the first. -/
def profileCalls : List PlannerCall := [.offer 0 256 [1], .offer 0 600 [1, 0]]

def profileRun : Planning :=
  Run.exec (planStep profileCoordinator (profileWorker.blockSize * profileDegree)) ⟨profileSession, []⟩ profileCalls

theorem profileRun_emitted : profileRun.emitted = [(⟨0, 0, 256, [1]⟩, [1]), (⟨1, 256, 512, [0]⟩, [1, 0])] ∧ profileRun.session.nextToken = 512 := by
  constructor <;> rfl

/-- Rows that follow each other differ. -/
def profileMemory (address : ℕ) : UInt8 := UInt8.ofNat (address % 251)

def profileRows : LayerTensors profileLayers where
  rows := fun name => (profileTensors.lookup name).elim [] fun tensor => tensor.rows.elim [] (RowView.rowsIn profileMemory)
  wide := by
    intro plan hplan row hrow
    have hlookup : profileTensors.lookup plan.name = some (profileTensor plan.bytesPerToken) :=
      profileTensors_lookup hplan
    rw [hlookup] at hrow
    simp only [Option.elim_some, profileTensor, RowView.rowsIn, List.mem_map] at hrow
    obtain ⟨n, -, rfl⟩ := hrow
    simp

@[irreducible] def profileLayout : PayloadLayout :=
  (calculatePayloadLayout profileSources 64 (2 ^ 26)).toOption.getD ⟨0, fun _ => 0, fun _ => 0, 0⟩

/-- The byte at an offset of a record of rows of 64 slots. -/
def gatheredByte (width first offset : ℕ) : UInt8 :=
  profileMemory (4096 + (first + offset / width % 64) * width + offset % width)

/-- A view of the 64 slots from `first` on. -/
def profileView (logicalStart first : ℕ) : SnapshotView :=
  ⟨logicalStart, 64, profileLayout, (List.range profileLayout.usedBytes).map fun position =>
    if position < profileLayout.recordOffset indexerKind then gatheredByte targetBytesPerToken first position
    else gatheredByte indexerBytesPerToken first (position - profileLayout.recordOffset indexerKind)⟩

set_option maxRecDepth 10000 in
theorem profileLayout_eq : calculatePayloadLayout profileSources 64 (2 ^ 26) = .ok profileLayout := by
  have hok : (calculatePayloadLayout profileSources 64 (2 ^ 26)).toOption.isSome = true := by decide +kernel
  unfold profileLayout
  generalize calculatePayloadLayout profileSources 64 (2 ^ 26) = result at hok
  cases result with
  | error e => cases hok
  | ok layout => rfl

set_option maxRecDepth 10000 in
theorem profileLayout_offsets : profileLayout.recordOffset targetKind = 0 ∧
    profileLayout.recordOffset indexerKind = 64 * targetBytesPerToken * targetLayers ∧
    profileLayout.usedBytes =
      64 * targetBytesPerToken * targetLayers + 64 * indexerBytesPerToken * indexerLayers := by
  decide +kernel

theorem gatheredByte_eq {width first ordinal row byte : ℕ} (hrow : row < 64) (hbyte : byte < width) :
    gatheredByte width first (ordinal * (64 * width) + row * width + byte) =
      profileMemory (4096 + (first + row) * width + byte) := by
  have hwidth : 0 < width := by omega
  have hoffset : ordinal * (64 * width) + row * width + byte = byte + width * (ordinal * 64 + row) := by
    ring
  have hdiv : (byte + width * (ordinal * 64 + row)) / width = ordinal * 64 + row := by
    rw [Nat.add_mul_div_left _ _ hwidth, Nat.div_eq_of_lt hbyte, Nat.zero_add]
  have hmod : (byte + width * (ordinal * 64 + row)) % width = byte := by
    rw [Nat.add_mul_mod_self_left, Nat.mod_eq_of_lt hbyte]
  rw [gatheredByte, hoffset, hdiv, hmod, show (ordinal * 64 + row) % 64 = row by omega]

/-- A row of a record that starts at `base`. -/
theorem slice_gathered {f : ℕ → UInt8} {used base width first layers ordinal row : ℕ}
    (hf : ∀ offset < 64 * width * layers, f (base + offset) = gatheredByte width first offset)
    (hused : base + 64 * width * layers ≤ used) (hordinal : ordinal < layers) (hrow : row < 64) :
    slice ((List.range used).map f) (base + ordinal * (64 * width) + row * width)
        (base + ordinal * (64 * width) + row * width + width) =
      (List.range width).map fun byte => profileMemory (4096 + (first + row) * width + byte) := by
  have hwithin : ordinal * (64 * width) + row * width + width ≤ 64 * width * layers := by
    calc ordinal * (64 * width) + row * width + width = ordinal * (64 * width) + (row + 1) * width := by ring
      _ ≤ ordinal * (64 * width) + 64 * width := by gcongr; omega
      _ = (ordinal + 1) * (64 * width) := by ring
      _ ≤ layers * (64 * width) := by gcongr; omega
      _ = 64 * width * layers := by ring
  apply List.ext_getElem
  · rw [Pages.slice_length (by rw [List.length_map, List.length_range]; omega), List.length_map, List.length_range]
    omega
  · intro byte _ hbyte
    rw [List.length_map, List.length_range] at hbyte
    simp only [slice, List.getElem_take, List.getElem_drop, List.getElem_map, List.getElem_range]
    rw [show base + ordinal * (64 * width) + row * width + byte =
      base + (ordinal * (64 * width) + row * width + byte) by omega, hf _ (by omega), gatheredByte_eq hrow hbyte]

theorem profileRows_registers : Registers profileMemory profileTensors profileRows.rows := by
  intro name tensor view htensor hview
  show (profileTensors.lookup name).elim [] _ = _
  rw [htensor, Option.elim_some, hview, Option.elim_some]

theorem profileSources_mem {source : SnapshotSource} (h : source ∈ profileSources) :
    (∃ ordinal < targetLayers,
      source = ⟨4096, macroRows, targetBytesPerToken, targetBytesPerToken, targetKind, ordinal⟩) ∨
    ∃ ordinal < indexerLayers,
      source = ⟨4096, macroRows, indexerBytesPerToken, indexerBytesPerToken, indexerKind, ordinal⟩ := by
  rw [profileSources, List.mem_append, profileSourcesOf, profileSourcesOf, List.mem_map, List.mem_map] at h
  obtain ⟨ordinal, hordinal, rfl⟩ | ⟨ordinal, hordinal, rfl⟩ := h
  · rw [List.mem_range'_1, Nat.zero_add] at hordinal
    exact Or.inl ⟨ordinal, hordinal.2, rfl⟩
  · rw [List.mem_range'_1, Nat.zero_add] at hordinal
    exact Or.inr ⟨ordinal, hordinal.2, rfl⟩

theorem profileView_gathered {batch : SnapshotBatch} {first : ℕ} (hfirst : first + 64 ≤ macroRows) :
    Gathered profileMemory profileSources (2 ^ 26) batch (List.range' first 64)
      (profileView batch.logicalStart first) := by
  have hlength : (List.range' first 64).length = 64 := List.length_range'
  have hview : (profileView batch.logicalStart first).layout = profileLayout := by rw [profileView]
  refine ⟨by rw [hlength, hview, profileLayout_eq], rfl, hlength.symm, ?_, ?_⟩
  · rw [profileView, List.length_map, List.length_range]
  intro source hsource row slot hslot
  obtain ⟨hrow, rfl⟩ := List.getElem?_eq_some_iff.mp hslot
  rw [hlength] at hrow
  rw [List.getElem_range', Nat.one_mul]
  obtain ⟨htarget, hindexer, hused⟩ := profileLayout_offsets
  rw [hlength, hview, profileView]
  obtain ⟨ordinal, hordinal, rfl⟩ | ⟨ordinal, hordinal, rfl⟩ := profileSources_mem hsource
  · refine ⟨show first + row < macroRows by omega, slice_gathered (fun offset hoffset => ?_) ?_ hordinal hrow⟩
    · rw [htarget, Nat.zero_add, hindexer, if_pos hoffset]
    · rw [htarget, Nat.zero_add, hused]
      exact Nat.le_add_right _ _
  · refine ⟨show first + row < macroRows by omega, slice_gathered (fun offset hoffset => ?_) ?_ hordinal hrow⟩
    · rw [if_neg (Nat.not_lt.mpr (Nat.le_add_right _ _)), Nat.add_sub_cancel_left]
    · rw [hindexer, hused]

theorem stream_eq_snapshot_profile : ∃ s sequence, profileWorker.snapshotStore profileRows profilePlan = .ok s ∧
    snapshotChunks s profileLayers profileDegree profileChunkTokens = .ok sequence ∧
    ∀ chunks, streamChunks profileSources 1 [profileView 0 64, profileView 256 0] = .ok chunks ↔
      sequence.slice 0 sequence.count = .ok chunks := by
  have hslots : physicalSlots 1 profileDegree 64 ⟨0, 0, 256, [1]⟩ [1] = .ok (List.range' 64 64) := by rfl
  have hslots' : physicalSlots 1 profileDegree 64 ⟨1, 256, 512, [0]⟩ [1, 0] = .ok (List.range' 0 64) := by rfl
  have hviews : List.Forall₂ (BatchView profileMemory profileSources (2 ^ 26) profileWorker.rank profileWorker.blockSize)
      profileRun.emitted [profileView 0 64, profileView 256 0] := by
    rw [profileRun_emitted.1]
    refine .cons ⟨_, hslots, profileView_gathered (by decide)⟩
      (.cons ⟨_, hslots', profileView_gathered (by decide)⟩ .nil)
  have htables : ∀ emitted ∈ profileRun.emitted, emitted.2 <+: profilePlan.blockIds := by
    rw [profileRun_emitted.1]
    decide
  have hbegin : beginSession profileCoordinator profilePlan.spanTokens = .ok profileSession := rfl
  exact (stream_eq_snapshot profileWorker rfl rfl profile_inventory profileRows_registers rfl rfl hbegin profileCalls rfl
    profileRun_emitted.2 htables hviews).1

end SparkCache.RowStream
