import SparkCache.RowStream.Translator
import SparkCache.Rows.Copied

/-!
# Ready rows

What the records of a gathered view hold: the rows that memory has at the slots of the batch, and so
the chunks that are cut out of them.
-/
namespace SparkCache.RowStream
open Store Rows
open Pages (slice slice_slice bind_eq_ok)

/-! ## Records -/

/-- A part of a string that is made of rows. -/
theorem slice_eq_joined {data : Bytes} {row : ℕ → Bytes} {width start first count : ℕ}
    (hlength : start + count * width ≤ data.length)
    (h : ∀ k < count, slice data (start + k * width) (start + k * width + width) = row (first + k)) :
    slice data start (start + count * width) = FixedRows.joined row first count := by
  have hrows : (slice data start (start + count * width)).length = count * width := by
    rw [Pages.slice_length hlength, Nat.add_sub_cancel_left]
  rw [← FixedRows.joined_rowAt hrows, ← Nat.zero_add first, FixedRows.joined_shift]
  refine FixedRows.joined_congr fun k _ hk => ?_
  rw [Nat.zero_add] at hk
  have hnext := Nat.mul_le_mul_right width (Nat.succ_le_of_lt hk)
  rw [Nat.succ_mul] at hnext
  have hcut : slice (slice data start (start + count * width)) (k * width) (k * width + width) =
      slice data (start + k * width) (start + (k * width + width)) := slice_slice (by omega)
  rw [slice, Nat.add_sub_cancel_left] at hcut
  rw [FixedRows.rowAt, hcut, Nat.add_comm k, ← h k hk, Nat.add_assoc]

/-- The list as its indices. -/
theorem flatMap_eq_range {α β : Type*} {xs : List α} {f : α → List β} {g : ℕ → List β}
    (h : ∀ (i : ℕ) (x : α), xs[i]? = some x → f x = g i) :
    xs.flatMap f = (List.range xs.length).flatMap g := by
  induction xs generalizing g with
  | nil => rfl
  | cons x rest ih =>
      rw [List.flatMap_cons, List.length_cons, List.range_succ_eq_map, List.flatMap_cons, List.flatMap_map,
        h 0 x rfl]
      exact congrArg _ (ih fun i y hy => h (i + 1) y hy)

/-- A record of a view has the rows of its layers, from an ordinal on. -/
structure SnapshotView.RecordShows (view : SnapshotView) (recordKind layers width : ℕ) (plans : List LayerPlan)
    (row : String → ℕ → Bytes) (first : ℕ) : Prop where
  known : recordKind < maxRecordKinds ∧ view.layout.recordMask &&& 1 <<< recordKind ≠ 0
  length : view.layout.recordLength recordKind = view.rowCount * width * layers
  within : view.layout.recordOffset recordKind + view.layout.recordLength recordKind ≤ view.payload.length
  layers : plans.length = layers
  rows : ∀ (layer : ℕ) (plan : LayerPlan), plans[layer]? = some plan → ∀ k < view.rowCount,
    slice view.payload
      (view.layout.recordOffset recordKind + layer * (view.rowCount * width) + k * width)
      (view.layout.recordOffset recordKind + layer * (view.rowCount * width) + k * width + width) =
      row plan.name (first + k)

section Record
variable {view : SnapshotView} {recordKind layers width first start : ℕ} {plans : List LayerPlan}
  {row : String → ℕ → Bytes}

/-- No slice reaches outside the record. -/
theorem chunkSlices_within {rowCount : ℕ} {bounds : ℕ × ℕ} (hstart : start + rowsPerChunk ≤ rowCount)
    (h : bounds ∈ chunkSlices layers width rowCount start) :
    bounds.1 ≤ bounds.2 ∧ bounds.2 ≤ rowCount * width * layers := by
  rw [chunkSlices, List.mem_map] at h
  obtain ⟨layer, hlayer, rfl⟩ := h
  rw [List.mem_range] at hlayer
  dsimp only
  have hrows := Nat.mul_le_mul_right width hstart
  have hlayers := Nat.mul_le_mul_right (rowCount * width) (Nat.succ_le_of_lt hlayer)
  rw [Nat.add_mul] at hrows
  rw [Nat.succ_mul] at hlayers
  rw [Nat.mul_comm _ layers]
  exact ⟨Nat.le_add_right _ _, by omega⟩

theorem SnapshotView.RecordShows.record (h : view.RecordShows recordKind layers width plans row first) :
    view.record recordKind = .ok (slice view.payload (view.layout.recordOffset recordKind)
      (view.layout.recordOffset recordKind + view.layout.recordLength recordKind)) := by
  unfold SnapshotView.record
  rw [require_of h.known.1, require_of h.known.2]
  rfl

/-- The part of a record that a chunk gets. -/
theorem SnapshotView.RecordShows.copy (h : view.RecordShows recordKind layers width plans row first)
    (hstart : start + rowsPerChunk ≤ view.rowCount) :
    copyChunkRecord view recordKind layers width view.rowCount start =
      .ok (plans.flatMap fun plan => FixedRows.joined (row plan.name) (first + start) rowsPerChunk) := by
  unfold copyChunkRecord
  rw [h.record]
  refine congrArg Except.ok ?_
  rw [chunkSlices, List.flatMap_map, ← h.layers]
  refine (flatMap_eq_range fun layer plan hplan => ?_).symm
  have hlayer : layer < layers := by
    rw [← h.layers]
    exact (List.getElem?_eq_some_iff.mp hplan).1
  have hrows := Nat.mul_le_mul_right width hstart
  have hlayers := Nat.mul_le_mul_right (view.rowCount * width) (Nat.succ_le_of_lt hlayer)
  rw [Nat.add_mul] at hrows
  rw [Nat.succ_mul, Nat.mul_comm layers, ← h.length] at hlayers
  have hwithin := h.within
  dsimp only
  rw [slice_slice (by omega), ← Nat.add_assoc _ (layer * (view.rowCount * width) + start * width)]
  refine (slice_eq_joined (by omega) fun k hk => ?_).symm
  have hrow := h.rows layer plan hplan (start + k) (by omega)
  rw [Nat.add_mul] at hrow
  simpa only [Nat.add_assoc] using hrow

end Record

/-! ## Chunks -/

/-- What the chunks of a context are, on either way. -/
def sharedChunk (layers : LayerPlans) (dcpRank : ℕ) (row : String → ℕ → Bytes) (index : ℕ) :
    Except StoreError ContextChunk := do
  let packed ← packPositions (positionsOf profileDegree dcpRank (index * rowsPerChunk) rowsPerChunk)
  ContextChunk.of ↑(index * profileChunkTokens) ↑((index + 1) * profileChunkTokens)
    ((.logicalPositions, packed) :: layers.recordKinds.map fun kind =>
      (kind, recordBytes layers.plans kind row (index * rowsPerChunk) rowsPerChunk))

/-- A chunk is made of what is looked up in its records. -/
theorem contextChunk_of_congr {start stop : ℤ} {xs ys : List (StateRecord × Bytes)}
    (h : ∀ kind, xs.lookup kind = ys.lookup kind) : ContextChunk.of start stop xs = ContextChunk.of start stop ys := by
  unfold ContextChunk.of
  simp only [h]

/-- The layers of the profile. -/
structure Profile (layers : LayerPlans) : Prop where
  kinds : ∀ plan ∈ layers.plans, plan.recordKind = .targetCkv ∨ plan.recordKind = .sparseIndexer
  targets : (layersOf layers.plans .targetCkv).length = targetLayers
  indexers : (layersOf layers.plans .sparseIndexer).length = indexerLayers

theorem Profile.mem_recordKinds {layers : LayerPlans} (h : Profile layers) {kind : StateRecord} :
    kind ∈ layers.recordKinds ↔ kind = .targetCkv ∨ kind = .sparseIndexer := by
  rw [LayerPlans.mem_recordKinds]
  constructor
  · intro hne
    obtain ⟨plan, hplan⟩ := List.exists_mem_of_ne_nil _ hne
    obtain ⟨hmem, hkind⟩ := mem_layersOf.mp hplan
    rw [← hkind]
    exact h.kinds plan hmem
  · rintro (rfl | rfl)
    · exact List.ne_nil_of_length_pos (by rw [h.targets]; decide)
    · exact List.ne_nil_of_length_pos (by rw [h.indexers]; decide)

/-- A view of the rows of consecutive chunks of a rank. -/
structure SnapshotView.Shows (view : SnapshotView) (layers : LayerPlans) (row : String → ℕ → Bytes)
    (index count : ℕ) : Prop where
  logicalStart : view.logicalStart = index * profileChunkTokens
  rowCount : view.rowCount = count * rowsPerChunk
  positive : 0 < count
  layout : ProfileLayout view.rowCount view.layout
  target : view.RecordShows targetKind targetLayers targetBytesPerToken (layersOf layers.plans .targetCkv) row
    (index * rowsPerChunk)
  indexer : view.RecordShows indexerKind indexerLayers indexerBytesPerToken
    (layersOf layers.plans .sparseIndexer) row (index * rowsPerChunk)

theorem sharedChunk_le {layers : LayerPlans} {dcpRank index : ℕ} {row : String → ℕ → Bytes} {c : ContextChunk}
    (h : sharedChunk layers dcpRank row index = .ok c) : (index + 1) * profileChunkTokens ≤ 2 ^ 32 := by
  unfold sharedChunk at h
  rw [bind_eq_ok] at h
  obtain ⟨packed, hpacked, -⟩ := h
  obtain ⟨-, hbounds, -⟩ := packPositions_eq_ok.mp hpacked
  have hlast := hbounds _ (mem_positionsOf.mpr ⟨index * rowsPerChunk + 63, by omega, ?_, rfl⟩)
  · unfold profileDegree rowsPerChunk profileChunkTokens profileDegree at hlast
    unfold profileChunkTokens
    omega
  · unfold rowsPerChunk profileChunkTokens profileDegree
    omega

section Shows
variable {view : SnapshotView} {layers : LayerPlans} {row : String → ℕ → Bytes} {index count dcpRank : ℕ}
  (h : view.Shows layers row index count) (hprofile : Profile layers) (hrank : dcpRank < profileDegree)
include h hprofile hrank

theorem SnapshotView.Shows.chunk {offset : ℕ} (hoffset : offset < count) :
    readyChunk dcpRank view (offset * rowsPerChunk) = sharedChunk layers dcpRank row (index + offset) := by
  have hroom := Nat.mul_le_mul_right rowsPerChunk (Nat.succ_le_of_lt hoffset)
  rw [Nat.succ_mul, ← h.rowCount] at hroom
  have hfrom : view.logicalStart + offset * rowsPerChunk * profileDegree = (index + offset) * profileChunkTokens := by
    rw [h.logicalStart, Nat.mul_assoc, Nat.add_mul]
    rfl
  have hpositions : List.range' ((index + offset) * profileChunkTokens + dcpRank)
      ((profileChunkTokens - dcpRank + (profileDegree - 1)) / profileDegree) profileDegree =
      positionsOf profileDegree dcpRank ((index + offset) * rowsPerChunk) rowsPerChunk := by
    rw [positionsOf_eq, Nat.mul_assoc]
    congr 1
    unfold profileDegree at hrank
    unfold rowsPerChunk profileDegree profileChunkTokens
    omega
  have htarget := h.target.copy hroom
  have hindexer := h.indexer.copy hroom
  rw [← Nat.add_mul] at htarget hindexer
  unfold readyChunk sharedChunk
  rw [hfrom]
  dsimp only
  rw [hpositions, htarget, hindexer]
  generalize hpacked : packPositions
    (positionsOf profileDegree dcpRank ((index + offset) * rowsPerChunk) rowsPerChunk) = result
  cases result with
  | error e => simp only [bind, Except.bind]
  | ok packed =>
      simp only [bind, Except.bind]
      rw [Nat.succ_mul]
      refine contextChunk_of_congr fun kind => ?_
      simp only [List.lookup_cons, List.lookup_nil, lookup_records, hprofile.mem_recordKinds]
      cases kind <;> simp [recordBytes] <;> rfl

theorem SnapshotView.Shows.chunks (n : ℕ) : ∀ {offset : ℕ}, offset + n ≤ count →
    readyChunks dcpRank view (List.range' (offset * rowsPerChunk) n rowsPerChunk) =
      itemsAt (sharedChunk layers dcpRank row) (List.range' (index + offset) n) := by
  induction n with
  | zero =>
      intro offset _
      rfl
  | succ n ih =>
      intro offset hroom
      have hfirst := h.chunk hprofile hrank (show offset < count by omega)
      have hrest := ih (show offset + 1 + n ≤ count by omega)
      rw [Nat.succ_mul] at hrest
      rw [List.range'_succ, List.range'_succ, readyChunks, itemsAt, hfirst, hrest]
      rfl

theorem SnapshotView.Shows.iter {chunks : List ContextChunk} :
    iterChunks dcpRank view = .ok chunks ↔
      itemsAt (sharedChunk layers dcpRank row) (List.range' index count) = .ok chunks := by
  have hrows : (view.rowCount + (rowsPerChunk - 1)) / rowsPerChunk = count := by
    rw [h.rowCount]
    unfold rowsPerChunk profileChunkTokens profileDegree
    omega
  have hall := h.chunks hprofile hrank count (show 0 + count ≤ count by omega)
  rw [Nat.zero_mul, Nat.add_zero] at hall
  have hmod : 0 < view.rowCount ∧ view.rowCount % rowsPerChunk = 0 := by
    rw [h.rowCount, Nat.mul_mod_left]
    exact ⟨Nat.mul_pos h.positive (by decide), rfl⟩
  have hstart : view.logicalStart % profileChunkTokens = 0 := by
    rw [h.logicalStart, Nat.mul_mod_left]
  have hend : view.logicalStart + view.rowCount * profileDegree = (index + count) * profileChunkTokens := by
    rw [h.logicalStart, h.rowCount, Nat.mul_assoc, Nat.add_mul]
    rfl
  have hlayout : view.layout.recordMask = 3 ∧
      view.layout.recordLength targetKind = view.rowCount * targetLayers * targetBytesPerToken ∧
      view.layout.recordLength indexerKind = view.rowCount * indexerLayers * indexerBytesPerToken ∧
      view.layout.recordLength 2 = 0 ∧ view.layout.recordLength 3 = 0 := by
    refine ⟨h.layout.recordMask, ?_, ?_, h.layout.others⟩
    · rw [h.layout.targetLength, Nat.mul_right_comm]
    · rw [h.layout.indexerLength, Nat.mul_right_comm]
  have hiter : iterChunks dcpRank view = .ok chunks ↔ (index + count) * profileChunkTokens ≤ 2 ^ 32 ∧
      itemsAt (sharedChunk layers dcpRank row) (List.range' index count) = .ok chunks := by
    unfold iterChunks batchLogicalTokens
    simp only [bind_eq_ok, require_eq_ok, pure, Except.pure, Except.ok.injEq, hmod, hstart, hlayout,
      hrows, hall]
    simp [hend]
  have hpositive := h.positive
  rw [hiter]
  refine and_iff_right_of_imp fun hitems => ?_
  obtain ⟨c, hc⟩ := itemsAt_item hitems (index + (count - 1)) (List.mem_range'_1.mpr (by omega))
  have hle := sharedChunk_le hc
  rwa [show index + (count - 1) + 1 = index + count by omega] at hle

end Shows

/-! ## Slots of a batch -/

theorem physicalSlots_slotsOf_eq_ok {dcpDegree blockSize : ℕ} {blockTable positions : List ℕ} :
    ∀ {slots : List ℕ}, physicalSlots.slotsOf dcpDegree blockSize blockTable positions = .ok slots ↔
      (∀ p ∈ positions, p / dcpDegree / blockSize < blockTable.length) ∧
        slots = positions.map fun p => slotOf blockTable blockSize (p / dcpDegree) := by
  induction positions with
  | nil => simp [physicalSlots.slotsOf, eq_comm]
  | cons p rest ih =>
      intro slots
      simp only [physicalSlots.slotsOf, bind_eq_ok, expect_eq_ok, ih, pure, Except.pure, Except.ok.injEq,
        List.forall_mem_cons, List.map_cons, slotOf, List.getD_eq_getElem?_getD]
      constructor
      · rintro ⟨block, hblock, _, ⟨hrest, rfl⟩, rfl⟩
        rw [hblock, Option.getD_some]
        exact ⟨⟨(List.getElem?_eq_some_iff.mp hblock).1, hrest⟩, rfl⟩
      · rintro ⟨⟨hfirst, hrest⟩, rfl⟩
        refine ⟨_, List.getElem?_eq_getElem hfirst, _, ⟨hrest, rfl⟩, ?_⟩
        rw [List.getElem?_eq_getElem hfirst, Option.getD_some]

/-- The slots of a batch are those of its ordinals. -/
theorem physicalSlots_eq_ok {dcpRank blockSize first count : ℕ} {batch : SnapshotBatch} {blockTable slots : List ℕ}
    (hrank : dcpRank < profileDegree) (hstart : batch.logicalStart = first * profileDegree)
    (hend : batch.logicalEnd = (first + count) * profileDegree)
    (h : physicalSlots dcpRank profileDegree blockSize batch blockTable = .ok slots) :
    (∀ ordinal, first ≤ ordinal → ordinal < first + count → ordinal / blockSize < blockTable.length) ∧
      slots = (List.range' first count).map (slotOf blockTable blockSize) := by
  have hfirst : first * profileDegree + (((dcpRank : ℤ) - ↑(first * profileDegree)) % profileDegree).toNat =
      first * profileDegree + dcpRank := by
    unfold profileDegree at hrank ⊢
    omega
  have hcount : ((first + count) * profileDegree - (first * profileDegree + dcpRank) + (profileDegree - 1)) /
      profileDegree = count := by
    unfold profileDegree at hrank ⊢
    omega
  unfold physicalSlots at h
  simp only [hstart, hend, hfirst, hcount, bind_eq_ok, require_eq_ok, physicalSlots_slotsOf_eq_ok, pure,
    Except.pure, Except.ok.injEq, ← positionsOf_eq] at h
  obtain ⟨_, ⟨hwithin, rfl⟩, _, -, rfl⟩ := h
  constructor
  · intro ordinal hle hlt
    have hordinal := hwithin _ (mem_positionsOf.mpr ⟨ordinal, hle, hlt, rfl⟩)
    rwa [ordinal_of_position hrank] at hordinal
  · rw [positionsOf, List.map_map]
    refine List.map_congr_left fun ordinal _ => ?_
    rw [Function.comp_apply, ordinal_of_position hrank]

/-! ## Gathered rows -/

/-- The rows of the layers are those that memory holds at the registered tensors. -/
def Registers (memory : ℕ → UInt8) (registered : List (String × RowTensor)) (rows : String → List Bytes) : Prop :=
  ∀ (name : String) (tensor : RowTensor) (view : RowView), registered.lookup name = some tensor →
    tensor.rows = some view → rows name = view.rowsIn memory

theorem Describes.rows_eq {memory : ℕ → UInt8} {registered : List (String × RowTensor)} {rows : String → List Bytes}
    {recordKind ordinal : ℕ} {plan : LayerPlan} {source : SnapshotSource}
    (h : Describes registered recordKind ordinal plan source) (hregistered : Registers memory registered rows) :
    rows plan.name = (List.range source.sourceRows).map (source.row memory) := by
  obtain ⟨tensor, view, htensor, hview, hrows⟩ := h.rows
  rw [hregistered plan.name tensor view htensor hview, hrows]

section Gathered
variable {memory : ℕ → UInt8} {registered : List (String × RowTensor)} {rows : String → List Bytes}
  (hregistered : Registers memory registered rows) {recordKind layers width : ℕ} {plans : List LayerPlan}
  {kindSources sources : List SnapshotSource}
  (hkind : DescribesAll registered recordKind layers width plans kindSources) (hsources : kindSources ⊆ sources)
  {slotBytes blockSize first : ℕ} {batch : SnapshotBatch} {slots blockIds : List ℕ} {view : SnapshotView}
  (h : Gathered memory sources slotBytes batch slots view)
  (hslots : slots = (List.range' first view.rowCount).map (slotOf blockIds blockSize))
include hregistered hkind hsources h hslots

/-- The slots of a batch are rows of every layer. -/
theorem Gathered.slot_lt {plan : LayerPlan} (hplan : plan ∈ plans) {ordinal : ℕ} (hle : first ≤ ordinal)
    (hlt : ordinal < first + view.rowCount) : slotOf blockIds blockSize ordinal < (rows plan.name).length := by
  obtain ⟨i, hi, rfl⟩ := List.getElem_of_mem hplan
  have hsource : i < kindSources.length := by
    rw [hkind.sources_length, ← hkind.plans_length]
    exact hi
  have hdescribes := hkind.describes i _ _ (List.getElem?_eq_getElem hi) (List.getElem?_eq_getElem hsource)
  have hslot : slots[ordinal - first]? = some (slotOf blockIds blockSize ordinal) := by
    rw [hslots, List.getElem?_map, List.getElem?_range' (by omega), Option.map_some]
    congr 2
    omega
  rw [hdescribes.rows_eq hregistered, List.length_map, List.length_range]
  exact (h.copied _ (hsources (List.getElem_mem hsource)) _ _ hslot).1

theorem Gathered.recordShows
    (hknown : recordKind < maxRecordKinds ∧ view.layout.recordMask &&& 1 <<< recordKind ≠ 0)
    (hlength : view.layout.recordLength recordKind = view.rowCount * width * layers)
    (hwithin : view.layout.recordOffset recordKind + view.layout.recordLength recordKind ≤ view.layout.usedBytes) :
    view.RecordShows recordKind layers width plans (capturedRow rows blockIds blockSize) first := by
  refine ⟨hknown, hlength, by rwa [h.payload], hkind.plans_length, fun layer plan hplan k hk => ?_⟩
  obtain ⟨hi, rfl⟩ := List.getElem?_eq_some_iff.mp hplan
  have hsource : layer < kindSources.length := by
    rw [hkind.sources_length, ← hkind.plans_length]
    exact hi
  have hdescribes := hkind.describes layer _ _ hplan (List.getElem?_eq_getElem hsource)
  have hslot : slots[k]? = some (slotOf blockIds blockSize (first + k)) := by
    rw [hslots, List.getElem?_map, List.getElem?_range' hk, Nat.one_mul, Option.map_some]
  obtain ⟨hlt, hcopied⟩ := h.copied _ (hsources (List.getElem_mem hsource)) _ _ hslot
  rw [gatherStart, hdescribes.recordKind, hdescribes.ordinal, hdescribes.width,
    hkind.width _ (List.getElem_mem hi), ← h.rowCount] at hcopied
  rw [hcopied, capturedRow, rowAtSlot, hdescribes.rows_eq hregistered, List.getD_eq_getElem?_getD,
    List.getElem?_map, List.getElem?_range hlt, Option.map_some, Option.getD_some]

end Gathered

end SparkCache.RowStream
