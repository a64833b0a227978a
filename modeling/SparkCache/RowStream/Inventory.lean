import SparkCache.Rows.Capture

/-!
# The source inventory

The registered layers of the streaming profile as sources of a gather, and the layout of the payload
that a gather fills: one record a kind, the layers of a record in the order of their names.
-/
namespace SparkCache.RowStream
open Store Rows
open Pages (bind_eq_ok)

def uint32Max : ℕ := 2 ^ 32 - 1

def uint64Max : ℕ := 2 ^ 64 - 1

/-! ## The profile -/

def profileChunkTokens : ℕ := 256

def profileDegree : ℕ := 4

def rowsPerChunk : ℕ := profileChunkTokens / profileDegree

def macroRows : ℕ := 1024

def targetLayers : ℕ := 79

def targetBytesPerToken : ℕ := 368

def indexerLayers : ℕ := 22

def indexerBytesPerToken : ℕ := 132

def sourceCount : ℕ := targetLayers + indexerLayers

def targetKind : ℕ := 0

def indexerKind : ℕ := 1

/-! ## Sources -/

/-- `SnapshotSourceSpec` -/
structure SnapshotSource where
  sourceBase : ℕ
  sourceRows : ℕ
  sourceRowStrideBytes : ℕ
  bytesPerToken : ℕ
  recordKind : ℕ
  sourceLayerOrdinal : ℕ
  deriving DecidableEq

/-- The record kinds of a ring. -/
def maxRecordKinds : ℕ := 4

/-- `SnapshotSourceSpec.__post_init__` -/
def SnapshotSource.check (s : SnapshotSource) : Except StoreError Unit := do
  require (0 < s.sourceBase ∧ s.sourceBase ≤ uint64Max) (.value "source_base must be a nonzero uint64")
  require (0 < s.sourceRows ∧ s.sourceRows ≤ uint64Max) (.value "source_rows must be a nonzero uint64")
  require (s.sourceRowStrideBytes ≤ uint32Max) (.value "source_row_stride_bytes must fit uint32")
  require (s.bytesPerToken ≤ uint32Max) (.value "bytes_per_token must fit uint32")
  require (s.recordKind ≤ uint32Max) (.value "record_kind must fit uint32")
  require (s.sourceLayerOrdinal ≤ uint32Max) (.value "source_layer_ordinal must fit uint32")
  require (s.bytesPerToken ≠ 0) (.value "bytes_per_token must be nonzero")
  require (s.bytesPerToken ≤ s.sourceRowStrideBytes) (.value "source row stride is smaller than one token")
  require (s.recordKind < maxRecordKinds) (.value "record_kind is outside the snapshot ABI")

/-- What is read of the row view of a tensor. -/
structure RowView where
  cuda : Bool
  deviceIndex : Option ℕ
  contiguous : Bool
  shape : List ℕ
  elementSize : ℤ
  stride : ℤ
  pointer : ℤ

/-- What is read of a registered tensor; `_rows_view` raises if the tensor cannot be viewed as rows. -/
structure RowTensor where
  cuda : Bool
  deviceIndex : Option ℕ
  contiguous : Bool
  pointer : ℤ
  rows : Option RowView

/-- The source of a layer, and its device. -/
def describeSource (tensor : RowTensor) (plan : LayerPlan) (recordKind ordinal : ℕ) :
    Except StoreError (SnapshotSource × ℕ) := do
  let rows ← expect tensor.rows (.runtime "view size is not compatible with input tensor's size and stride")
  let refused := StoreError.runtime s!"layer {plan.name} is not a contiguous aliasing row view"
  require (tensor.cuda ∧ rows.cuda ∧ tensor.deviceIndex = rows.deviceIndex ∧ tensor.contiguous ∧
    rows.contiguous ∧ rows.shape.length = 2 ∧ macroRows ≤ rows.shape.getD 0 0) refused
  let rowWidth := rows.shape.getD 1 0 * rows.elementSize
  let strideBytes := rows.stride * rows.elementSize
  require (0 < rows.elementSize ∧ rowWidth = plan.bytesPerToken ∧ strideBytes = rowWidth ∧
    rows.pointer = tensor.pointer ∧ 0 < rows.pointer) refused
  let source : SnapshotSource := ⟨rows.pointer.toNat, rows.shape.getD 0 0, strideBytes.toNat,
    plan.bytesPerToken, recordKind, ordinal⟩
  source.check
  return (source, rows.deviceIndex.getD 0)

/-- The loop over the layers of a record kind; the sources lie on one device. -/
def describeSources (tensors : List (String × RowTensor)) (recordKind : ℕ) :
    ℕ → Option ℕ → List LayerPlan → Except StoreError (List SnapshotSource × Option ℕ)
  | _, device, [] => .ok ([], device)
  | ordinal, device, plan :: rest => do
      let tensor ← expect (tensors.lookup plan.name) .key
      let (source, current) ← describeSource tensor plan recordKind ordinal
      require (∀ known ∈ device, current = known)
        (.runtime "streaming snapshot sources span multiple CUDA devices")
      let (sources, device) ← describeSources tensors recordKind (ordinal + 1) (some current) rest
      return (source :: sources, device)

/-- `sorted(plans, key=lambda plan: plan.name)` -/
def sortedByName (plans : List LayerPlan) : List LayerPlan :=
  plans.mergeSort fun a b => decide (a.name ≤ b.name)

/-- `build_source_inventory`: the sources and their device. -/
def buildSourceInventory (plans : List LayerPlan) (tensors : List (String × RowTensor)) :
    Except StoreError (List SnapshotSource × ℕ) := do
  require (plans.length = sourceCount ∧ (∀ t ∈ tensors, t.1 ∈ plans.map LayerPlan.name) ∧
      ∀ plan ∈ plans, plan.name ∈ tensors.map Prod.fst)
    (.runtime "GLM-5.2 streaming requires exactly 101 registered cache layers")
  let target := sortedByName (layersOf plans .targetCkv)
  let indexer := sortedByName (layersOf plans .sparseIndexer)
  require (∀ plan ∈ plans, plan.recordKind = .targetCkv ∨ plan.recordKind = .sparseIndexer)
    (.runtime "GLM-5.2 streaming requires colocated draft state without a separate draft cache record")
  require (target.length = targetLayers ∧ (∀ plan ∈ target, plan.bytesPerToken = targetBytesPerToken) ∧
      indexer.length = indexerLayers ∧ ∀ plan ∈ indexer, plan.bytesPerToken = indexerBytesPerToken)
    (.runtime "GLM-5.2 streaming requires 79x368-byte target and 22x132-byte indexer sources")
  let (targets, device) ← describeSources tensors targetKind 0 none target
  let (indexers, device) ← describeSources tensors indexerKind 0 device indexer
  let device ← expect device (.runtime "assertion failed")
  return (targets ++ indexers, device)

/-! ## Layout -/

/-- The records of a payload, by kind. -/
structure PayloadLayout where
  recordMask : ℕ
  recordOffset : ℕ → ℕ
  recordLength : ℕ → ℕ
  usedBytes : ℕ

/-- `validate_sources`: the layer ordinals of a kind are dense, and its rows have one width. -/
def validateSources : (ℕ → List ℕ) → List SnapshotSource → Except StoreError Unit
  | _, [] => .ok ()
  | seen, s :: rest => do
      require (s.sourceBase ≠ 0 ∧ s.sourceRows ≠ 0 ∧ s.bytesPerToken ≠ 0 ∧
        s.bytesPerToken ≤ s.sourceRowStrideBytes ∧ s.recordKind < maxRecordKinds)
        (.value "invalid snapshot source descriptor")
      require (s.sourceLayerOrdinal = (seen s.recordKind).length)
        (.value "snapshot source layer ordinals must be dense and ordered")
      require (∀ width ∈ seen s.recordKind, width = s.bytesPerToken)
        (.value "snapshot sources of one record kind must share a row width")
      validateSources (Function.update seen s.recordKind (seen s.recordKind ++ [s.bytesPerToken])) rest

/-- `align_up` -/
def alignUp (value alignment : ℕ) : ℕ :=
  if value % alignment = 0 then value else value + (alignment - value % alignment)

/-- The kinds and widths of the sources. -/
def sourceWidths (sources : List SnapshotSource) : List (ℕ × ℕ) :=
  sources.map fun s => (s.recordKind, s.bytesPerToken)

def layerCount (widths : List (ℕ × ℕ)) (kind : ℕ) : ℕ := (widths.filter fun w => w.1 = kind).length

/-- The width of the last layer of a kind. -/
def layerWidth (widths : List (ℕ × ℕ)) (kind : ℕ) : ℕ :=
  (((widths.filter fun w => w.1 = kind).getLast?).map Prod.snd).getD 0

/-- Lay out the record of a kind behind the others. -/
def layOutRecord (widths : List (ℕ × ℕ)) (rowCount slotBytes : ℕ) (layout : PayloadLayout) (kind : ℕ) :
    Except StoreError PayloadLayout :=
  if layerCount widths kind = 0 then .ok layout
  else do
    let aligned := alignUp layout.usedBytes 64
    require (aligned ≤ uint64Max) (.value "snapshot payload alignment overflow")
    let rowBytes := rowCount * layerWidth widths kind
    let recordBytes := rowBytes * layerCount widths kind
    require (rowBytes ≤ uint64Max ∧ recordBytes ≤ uint64Max ∧ recordBytes ≤ uint32Max ∧
      aligned ≤ uint32Max) (.value "snapshot record exceeds ABI range")
    require (aligned + recordBytes ≤ uint64Max ∧ aligned + recordBytes ≤ slotBytes)
      (.value "snapshot payload exceeds arena slot")
    return ⟨layout.recordMask ||| 1 <<< kind, Function.update layout.recordOffset kind aligned,
      Function.update layout.recordLength kind recordBytes, aligned + recordBytes⟩

/-- `calculate_payload_layout` -/
def calculatePayloadLayout (sources : List SnapshotSource) (rowCount slotBytes : ℕ) :
    Except StoreError PayloadLayout := do
  require (rowCount ≠ 0 ∧ slotBytes ≠ 0) (.value "invalid snapshot payload request")
  require (sources ≠ []) (.value "invalid snapshot source table")
  validateSources (fun _ => []) sources
  require (∀ s ∈ sources, rowCount ≤ s.sourceRows)
    (.value "snapshot source has fewer rows than submission")
  (List.range maxRecordKinds).foldlM (layOutRecord (sourceWidths sources) rowCount slotBytes)
    ⟨0, fun _ => 0, fun _ => 0, 0⟩

/-! ## Described layers -/

/-- The rows that memory holds for a row view. -/
def RowView.rowsIn (memory : ℕ → UInt8) (view : RowView) : List Bytes :=
  (List.range (view.shape.getD 0 0)).map fun row =>
    (List.range (view.shape.getD 1 0 * view.elementSize).toNat).map fun byte =>
      memory (view.pointer.toNat + row * (view.stride * view.elementSize).toNat + byte)

/-- The row of a source at a slot. -/
def SnapshotSource.row (memory : ℕ → UInt8) (source : SnapshotSource) (slot : ℕ) : Bytes :=
  (List.range source.bytesPerToken).map fun byte =>
    memory (source.sourceBase + slot * source.sourceRowStrideBytes + byte)

@[simp] theorem SnapshotSource.row_length (memory : ℕ → UInt8) (source : SnapshotSource) (slot : ℕ) :
    (source.row memory slot).length = source.bytesPerToken := by
  simp [SnapshotSource.row]

/-- A source of a layer: it has the rows of the layer's row view. -/
structure Describes (tensors : List (String × RowTensor)) (recordKind ordinal : ℕ) (plan : LayerPlan)
    (source : SnapshotSource) : Prop where
  recordKind : source.recordKind = recordKind
  ordinal : source.sourceLayerOrdinal = ordinal
  width : source.bytesPerToken = plan.bytesPerToken
  rows : ∃ tensor view, tensors.lookup plan.name = some tensor ∧ tensor.rows = some view ∧
    ∀ memory, view.rowsIn memory = (List.range source.sourceRows).map (source.row memory)

theorem describeSource_describes {tensors : List (String × RowTensor)} {tensor : RowTensor} {plan : LayerPlan}
    {recordKind ordinal device : ℕ} {source : SnapshotSource} (htensor : tensors.lookup plan.name = some tensor)
    (h : describeSource tensor plan recordKind ordinal = .ok (source, device)) :
    Describes tensors recordKind ordinal plan source := by
  unfold describeSource at h
  simp only [bind_eq_ok, expect_eq_ok, require_eq_ok, pure, Except.pure, Except.ok.injEq,
    Prod.mk.injEq] at h
  obtain ⟨view, hview, _, -, _, ⟨-, hwidth, hstride, -, -⟩, _, -, rfl, -⟩ := h
  refine ⟨rfl, rfl, rfl, tensor, view, htensor, hview, fun memory => ?_⟩
  rw [RowView.rowsIn, hwidth, Int.toNat_natCast]
  rfl

theorem describeSources_describes {tensors : List (String × RowTensor)} {recordKind : ℕ} {plans : List LayerPlan} :
    ∀ {ordinal : ℕ} {device device' : Option ℕ} {sources : List SnapshotSource},
      describeSources tensors recordKind ordinal device plans = .ok (sources, device') →
      sources.length = plans.length ∧ ∀ (i : ℕ) (plan : LayerPlan) (source : SnapshotSource),
        plans[i]? = some plan → sources[i]? = some source →
        Describes tensors recordKind (ordinal + i) plan source := by
  induction plans with
  | nil =>
      intro ordinal device device' sources h
      cases h
      exact ⟨rfl, fun i plan source hplan => by simp at hplan⟩
  | cons first rest ih =>
      intro ordinal device device' sources h
      simp only [describeSources, bind_eq_ok, expect_eq_ok, require_eq_ok, Prod.exists, pure,
        Except.pure, Except.ok.injEq, Prod.mk.injEq] at h
      obtain ⟨tensor, htensor, source, current, hsource, _, -, others, _, hrest, rfl, rfl⟩ := h
      obtain ⟨hlength, hdescribes⟩ := ih hrest
      refine ⟨by rw [List.length_cons, List.length_cons, hlength], fun i plan s hplan hs => ?_⟩
      cases i with
      | zero =>
          rw [List.getElem?_cons_zero, Option.some.injEq] at hplan hs
          subst hplan hs
          exact describeSource_describes htensor hsource
      | succ i =>
          rw [List.getElem?_cons_succ] at hplan hs
          rw [Nat.add_succ, ← Nat.succ_add]
          exact hdescribes i plan s hplan hs

/-- Sorted layers stay as they are. -/
theorem sortedByName_layersOf (layers : LayerPlans) (kind : StateRecord) :
    sortedByName (layersOf layers.plans kind) = layersOf layers.plans kind := by
  have hsorted : layers.plans.Pairwise fun a b => a.name < b.name := List.pairwise_map.mp layers.sorted
  refine List.mergeSort_of_pairwise ((hsorted.filter _).imp fun h => ?_)
  rw [decide_eq_true_eq]
  exact Std.le_of_lt h

/-- The sources of a record kind: as many as its layers, one for each. -/
structure DescribesAll (tensors : List (String × RowTensor)) (recordKind layers width : ℕ)
    (plans : List LayerPlan) (sources : List SnapshotSource) : Prop where
  plans_length : plans.length = layers
  sources_length : sources.length = layers
  width : ∀ plan ∈ plans, plan.bytesPerToken = width
  describes : ∀ (i : ℕ) (plan : LayerPlan) (source : SnapshotSource), plans[i]? = some plan →
    sources[i]? = some source → Describes tensors recordKind i plan source

theorem buildSourceInventory_describes {layers : LayerPlans} {tensors : List (String × RowTensor)}
    {sources : List SnapshotSource} {device : ℕ}
    (h : buildSourceInventory layers.plans tensors = .ok (sources, device)) :
    (∀ plan ∈ layers.plans, plan.recordKind = .targetCkv ∨ plan.recordKind = .sparseIndexer) ∧
    ∃ targets indexers, sources = targets ++ indexers ∧
      DescribesAll tensors targetKind targetLayers targetBytesPerToken (layersOf layers.plans .targetCkv) targets ∧
      DescribesAll tensors indexerKind indexerLayers indexerBytesPerToken
        (layersOf layers.plans .sparseIndexer) indexers := by
  unfold buildSourceInventory at h
  simp only [bind_eq_ok, expect_eq_ok, require_eq_ok, sortedByName_layersOf, Prod.exists, pure,
    Except.pure, Except.ok.injEq, Prod.mk.injEq] at h
  obtain ⟨_, -, _, hkinds, _, ⟨htargets, htargetWidth, hindexers, hindexerWidth⟩, targets, _, htarget, indexers,
    _, hindexer, _, -, rfl, -⟩ := h
  obtain ⟨htargetLength, htargetDescribes⟩ := describeSources_describes htarget
  obtain ⟨hindexerLength, hindexerDescribes⟩ := describeSources_describes hindexer
  simp only [Nat.zero_add] at htargetDescribes hindexerDescribes
  exact ⟨hkinds, targets, indexers, rfl,
    ⟨htargets, htargetLength.trans htargets, htargetWidth, htargetDescribes⟩,
    ⟨hindexers, hindexerLength.trans hindexers, hindexerWidth, hindexerDescribes⟩⟩

/-- Every source of a kind has the kind and the width of the profile. -/
theorem DescribesAll.widths {tensors : List (String × RowTensor)} {recordKind layers width : ℕ}
    {plans : List LayerPlan} {sources : List SnapshotSource}
    (h : DescribesAll tensors recordKind layers width plans sources) :
    sourceWidths sources = List.replicate layers (recordKind, width) := by
  rw [List.eq_replicate_iff, sourceWidths, List.length_map]
  refine ⟨h.sources_length, ?_⟩
  rw [List.forall_mem_map]
  intro source hsource
  obtain ⟨i, hi, rfl⟩ := List.getElem_of_mem hsource
  have hlt : i < plans.length := by
    rw [h.plans_length, ← h.sources_length]
    exact hi
  have hdescribes := h.describes i plans[i] sources[i] (List.getElem?_eq_getElem hlt) (List.getElem?_eq_getElem hi)
  rw [hdescribes.recordKind, hdescribes.width, h.width _ (List.getElem_mem hlt)]

/-! ## The layout of the profile -/

def profileWidths : List (ℕ × ℕ) :=
  List.replicate targetLayers (targetKind, targetBytesPerToken) ++
    List.replicate indexerLayers (indexerKind, indexerBytesPerToken)

/-- The layout of the profile: the target record, then the indexer record. -/
structure ProfileLayout (rowCount : ℕ) (layout : PayloadLayout) : Prop where
  recordMask : layout.recordMask = 3
  targetLength : layout.recordLength targetKind = rowCount * targetBytesPerToken * targetLayers
  indexerLength : layout.recordLength indexerKind = rowCount * indexerBytesPerToken * indexerLayers
  others : layout.recordLength 2 = 0 ∧ layout.recordLength 3 = 0
  target_le : layout.recordOffset targetKind + layout.recordLength targetKind ≤ layout.usedBytes
  indexer_le : layout.recordOffset indexerKind + layout.recordLength indexerKind ≤ layout.usedBytes

theorem layOutRecord_none {widths : List (ℕ × ℕ)} {rowCount slotBytes kind : ℕ} {layout : PayloadLayout}
    (hcount : layerCount widths kind = 0) : layOutRecord widths rowCount slotBytes layout kind = .ok layout := by
  rw [layOutRecord, if_pos hcount]

theorem layOutRecord_eq_ok {widths : List (ℕ × ℕ)} {rowCount slotBytes kind : ℕ} {layout layout' : PayloadLayout}
    (hcount : layerCount widths kind ≠ 0)
    (h : layOutRecord widths rowCount slotBytes layout kind = .ok layout') :
    layout' = ⟨layout.recordMask ||| 1 <<< kind,
      Function.update layout.recordOffset kind (alignUp layout.usedBytes 64),
      Function.update layout.recordLength kind (rowCount * layerWidth widths kind * layerCount widths kind),
      alignUp layout.usedBytes 64 + rowCount * layerWidth widths kind * layerCount widths kind⟩ := by
  rw [layOutRecord, if_neg hcount] at h
  simp only [bind_eq_ok, require_eq_ok, pure, Except.pure, Except.ok.injEq] at h
  obtain ⟨_, -, _, -, _, -, rfl⟩ := h
  rfl

theorem le_alignUp (value alignment : ℕ) : value ≤ alignUp value alignment := by
  unfold alignUp
  split
  · exact le_rfl
  · exact Nat.le_add_right _ _

theorem calculatePayloadLayout_profile {sources : List SnapshotSource} {rowCount slotBytes : ℕ}
    {layout : PayloadLayout} (hwidths : sourceWidths sources = profileWidths)
    (h : calculatePayloadLayout sources rowCount slotBytes = .ok layout) : ProfileLayout rowCount layout := by
  have hkinds : List.range maxRecordKinds = [targetKind, indexerKind, 2, 3] := rfl
  have htargets : layerCount profileWidths targetKind = targetLayers := by decide
  have hindexers : layerCount profileWidths indexerKind = indexerLayers := by decide
  have htargetWidth : layerWidth profileWidths targetKind = targetBytesPerToken := by decide
  have hindexerWidth : layerWidth profileWidths indexerKind = indexerBytesPerToken := by decide
  unfold calculatePayloadLayout at h
  simp only [bind_eq_ok, require_eq_ok, hwidths, hkinds, List.foldlM_cons, List.foldlM_nil, pure,
    Except.pure, Except.ok.injEq] at h
  obtain ⟨_, -, _, -, _, -, _, -, first, hfirst, second, hsecond, third, hthird, fourth, hfourth, rfl⟩ := h
  rw [layOutRecord_none (by decide), Except.ok.injEq] at hthird hfourth
  subst hthird hfourth
  have hfirst' := layOutRecord_eq_ok (by decide) hfirst
  have hsecond' := layOutRecord_eq_ok (by decide) hsecond
  rw [htargets, htargetWidth] at hfirst'
  rw [hindexers, hindexerWidth] at hsecond'
  subst hfirst' hsecond'
  have hmask : 0 ||| 1 <<< targetKind ||| 1 <<< indexerKind = 3 := by decide
  have hafter := le_alignUp (alignUp 0 64 + rowCount * targetBytesPerToken * targetLayers) 64
  refine ⟨hmask, rfl, rfl, ⟨rfl, rfl⟩, ?_, le_rfl⟩
  show alignUp 0 64 + rowCount * targetBytesPerToken * targetLayers ≤
    alignUp (alignUp 0 64 + rowCount * targetBytesPerToken * targetLayers) 64 +
      rowCount * indexerBytesPerToken * indexerLayers
  omega

end SparkCache.RowStream
