import SparkCache.RowStream.Inventory
import SparkCache.RowStream.Planner

/-!
# Ready views

A gather copies the rows of a batch, all of one layer before the next. The translator cuts the
chunks of the store out of the records that it borrows.
-/
namespace SparkCache.RowStream
open Store Rows
open Pages (slice bind_eq_ok)

/-- `StreamingSnapshotRuntime._physical_slots` -/
def physicalSlots (dcpRank dcpDegree blockSize : ℕ) (batch : SnapshotBatch) (blockTable : List ℕ) :
    Except StoreError (List ℕ) := do
  let first := batch.logicalStart + (((dcpRank : ℤ) - batch.logicalStart) % dcpDegree).toNat
  let slots ← slotsOf (List.range' first ((batch.logicalEnd - first + (dcpDegree - 1)) / dcpDegree) dcpDegree)
  require (slots ≠ []) (.value "batch maps to no DCP-local physical slots")
  return slots
where
  slotsOf : List ℕ → Except StoreError (List ℕ)
    | [] => .ok []
    | position :: rest => do
        let ordinal := position / dcpDegree
        let block ← expect blockTable[ordinal / blockSize]? (.runtime "tuple index out of range")
        let slots ← slotsOf rest
        return (block * blockSize + ordinal % blockSize) :: slots

/-- `SnapshotView`, with the ticket's range. -/
structure SnapshotView where
  logicalStart : ℕ
  rowCount : ℕ
  layout : PayloadLayout
  payload : Bytes

/-- `SnapshotView.record` -/
def SnapshotView.record (view : SnapshotView) (recordKind : ℕ) : Except StoreError Bytes := do
  require (recordKind < maxRecordKinds) (.value "record_kind is outside the snapshot ABI")
  require (view.layout.recordMask &&& 1 <<< recordKind ≠ 0) .key
  return slice view.payload (view.layout.recordOffset recordKind)
    (view.layout.recordOffset recordKind + view.layout.recordLength recordKind)

/-- The part of each layer's rows that belongs to a chunk, as a range of the record. -/
def chunkSlices (layers width batchRows batchRowStart : ℕ) : List (ℕ × ℕ) :=
  (List.range layers).map fun layer =>
    let start := layer * (batchRows * width) + batchRowStart * width
    (start, start + rowsPerChunk * width)

/-- `_copy_chunk_record` -/
def copyChunkRecord (view : SnapshotView) (recordKind layers width batchRows batchRowStart : ℕ) :
    Except StoreError Bytes := do
  let record ← view.record recordKind
  return (chunkSlices layers width batchRows batchRowStart).flatMap fun part => slice record part.1 part.2

/-- `Glm52ReadyViewTranslator.batch_logical_tokens` -/
def batchLogicalTokens (view : SnapshotView) : Except StoreError ℕ := do
  require (0 < view.rowCount ∧ view.rowCount % rowsPerChunk = 0)
    (.value "READY row count must cover complete 256-token chunks")
  return view.rowCount * profileDegree

/-- The chunk that starts with a row of the batch. -/
def readyChunk (dcpRank : ℕ) (view : SnapshotView) (batchRowStart : ℕ) : Except StoreError ContextChunk := do
  let chunkStart := view.logicalStart + batchRowStart * profileDegree
  let positions ← packPositions (List.range' (chunkStart + dcpRank)
    ((profileChunkTokens - dcpRank + (profileDegree - 1)) / profileDegree) profileDegree)
  let target ← copyChunkRecord view targetKind targetLayers targetBytesPerToken view.rowCount batchRowStart
  let indexer ← copyChunkRecord view indexerKind indexerLayers indexerBytesPerToken view.rowCount batchRowStart
  ContextChunk.of ↑chunkStart ↑(chunkStart + profileChunkTokens)
    [(.logicalPositions, positions), (.targetCkv, target), (.sparseIndexer, indexer)]

/-- The loop over `range(0, rows, ROWS_PER_CHUNK)`. -/
def readyChunks (dcpRank : ℕ) (view : SnapshotView) : List ℕ → Except StoreError (List ContextChunk)
  | [] => .ok []
  | batchRowStart :: rest => do
      let chunk ← readyChunk dcpRank view batchRowStart
      let chunks ← readyChunks dcpRank view rest
      return chunk :: chunks

/-- `Glm52ReadyViewTranslator.iter_chunks`, all its chunks. -/
def iterChunks (dcpRank : ℕ) (view : SnapshotView) : Except StoreError (List ContextChunk) := do
  let logicalTokens ← batchLogicalTokens view
  require (view.logicalStart % profileChunkTokens = 0)
    (.value "READY logical_start must be 256-token aligned")
  require (view.logicalStart + logicalTokens ≤ 2 ^ 32)
    (.value "logical positions exceed the uint32 storage ABI")
  require (view.layout.recordMask = 3 ∧
      view.layout.recordLength targetKind = view.rowCount * targetLayers * targetBytesPerToken ∧
      view.layout.recordLength indexerKind = view.rowCount * indexerLayers * indexerBytesPerToken ∧
      view.layout.recordLength 2 = 0 ∧ view.layout.recordLength 3 = 0)
    (.value "READY records do not match the GLM-5.2 streaming profile")
  readyChunks dcpRank view
    (List.range' 0 ((view.rowCount + (rowsPerChunk - 1)) / rowsPerChunk) rowsPerChunk)

/-- `LAYER_ORDER`: record kind, ordinal and width. -/
def layerOrder : List (ℕ × ℕ × ℕ) :=
  ((List.range targetLayers).map fun ordinal => (targetKind, ordinal, targetBytesPerToken)) ++
    (List.range indexerLayers).map fun ordinal => (indexerKind, ordinal, indexerBytesPerToken)

/-- `_validate_source_order` -/
def validateSourceOrder (sources : List SnapshotSource) : Except StoreError Unit := do
  require (sources.length = layerOrder.length)
    (.value "GLM-5.2 streaming inventory must contain 79 target and 22 indexer layers")
  require (sources.map (fun s => (s.recordKind, s.sourceLayerOrdinal, s.bytesPerToken)) = layerOrder)
    (.value "source inventory disagrees")

/-- The chunks of the views, in order. -/
def translateViews (dcpRank : ℕ) : List SnapshotView → Except StoreError (List ContextChunk)
  | [] => .ok []
  | view :: rest => do
      let chunks ← iterChunks dcpRank view
      let later ← translateViews dcpRank rest
      return chunks ++ later

/-- `Glm52ReadyViewTranslator` over the views of a context. -/
def streamChunks (sources : List SnapshotSource) (dcpRank : ℕ) (views : List SnapshotView) :
    Except StoreError (List ContextChunk) := do
  require (dcpRank < profileDegree) (.value "dcp_rank must be in [0, 4)")
  validateSourceOrder sources
  translateViews dcpRank views

/-! ## Gathers -/

/-- Where a gather of that many rows puts a row of a source. -/
def gatherStart (layout : PayloadLayout) (rowCount : ℕ) (source : SnapshotSource) (row : ℕ) : ℕ :=
  layout.recordOffset source.recordKind + source.sourceLayerOrdinal * (rowCount * source.bytesPerToken) +
    row * source.bytesPerToken

/-- A view that a gather has filled: the row of every source at every slot is in its place. -/
structure Gathered (memory : ℕ → UInt8) (sources : List SnapshotSource) (slotBytes : ℕ) (batch : SnapshotBatch)
    (slots : List ℕ) (view : SnapshotView) : Prop where
  layout : calculatePayloadLayout sources slots.length slotBytes = .ok view.layout
  logicalStart : view.logicalStart = batch.logicalStart
  rowCount : view.rowCount = slots.length
  payload : view.payload.length = view.layout.usedBytes
  copied : ∀ source ∈ sources, ∀ row slot, slots[row]? = some slot → slot < source.sourceRows ∧
    slice view.payload (gatherStart view.layout slots.length source row)
      (gatherStart view.layout slots.length source row + source.bytesPerToken) = source.row memory slot

end SparkCache.RowStream
