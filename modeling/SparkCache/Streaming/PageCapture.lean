import SparkCache.Lib.Machine
import SparkCache.Pages.Snapshot

/-!
# Manager-page capture plans

The planner of a capture of opaque manager pages, over integers, and the native planner, in
the arithmetic of its fixed-width fields.
-/
namespace SparkCache.Streaming

def maxCaptureGroups : ℕ := 64

def maxCaptureSources : ℕ := 256

def uint32Max : ℕ := 2 ^ 32 - 1

def uint64Max : ℕ := 2 ^ 64 - 1

/-- What the capture planner raises. -/
inductive CaptureError where
  /-- `ManagerPageCaptureError` -/
  | capture (message : String)
  /-- `AssertionError` -/
  | assertion
  deriving DecidableEq, Repr

structure ManagerPageSource where
  sourceBase : ℤ
  sourcePages : ℤ
  sourcePageStrideBytes : ℤ
  bytesPerPage : ℤ
  groupIndex : ℤ
  layerOrdinal : ℤ
  deriving DecidableEq, Repr

structure ManagerPageCaptureSpan where
  sourceIndex : ℕ
  groupIndex : ℕ
  physicalPageOffset : ℕ
  pageCount : ℕ
  destinationOffsetBytes : ℕ
  lengthBytes : ℕ
  deriving DecidableEq, Repr

structure ManagerPageCapturePlan where
  physicalPages : List ℕ
  groupOffsets : List ℕ
  groupPageCounts : List ℕ
  spans : List ManagerPageCaptureSpan
  usedBytes : ℕ
  deriving DecidableEq, Repr

/-! ## The planner -/

def uint (value : ℤ) (name : String) (maximum : ℕ) : Except CaptureError ℕ := do
  require (0 ≤ value ∧ value ≤ maximum) (.capture (name ++ " is outside its unsigned range"))
  return value.toNat

def positiveUint (value : ℤ) (name : String) (maximum : ℕ) : Except CaptureError ℕ := do
  let result ← uint value name maximum
  require (result ≠ 0) (.capture (name ++ " must be positive"))
  return result

/-- What is known of the groups after some sources. -/
structure SourceScan where
  expectedLayer : List ℕ
  pagesPerSourceGroup : List (Option ℕ)
  previousGroup : ℕ
  deriving DecidableEq

def SourceScan.start (groupCount : ℕ) : SourceScan :=
  ⟨List.replicate groupCount 0, List.replicate groupCount none, 0⟩

/-- The checks of a source. -/
def checkSource (groupCount index : ℕ) (source : ManagerPageSource) (scan : SourceScan) :
    Except CaptureError SourceScan := do
  let sourceBase ← positiveUint source.sourceBase s!"sources[{index}].source_base" uint64Max
  let sourcePages ← positiveUint source.sourcePages s!"sources[{index}].source_pages" uint64Max
  let stride ← positiveUint source.sourcePageStrideBytes
    s!"sources[{index}].source_page_stride_bytes" uint64Max
  let width ← positiveUint source.bytesPerPage s!"sources[{index}].bytes_per_page" uint32Max
  let groupIndex ← uint source.groupIndex s!"sources[{index}].group_index" uint32Max
  let layerOrdinal ← uint source.layerOrdinal s!"sources[{index}].layer_ordinal" uint32Max
  require (groupIndex < groupCount) (.capture "source group index is not declared")
  require (index = 0 ∨ scan.previousGroup ≤ groupIndex) (.capture "sources must be ordered by group")
  let expected := scan.expectedLayer.getD groupIndex 0
  require (layerOrdinal = expected) (.capture "layer ordinals must be dense within each group")
  let known := scan.pagesPerSourceGroup.getD groupIndex none
  require (known = none ∨ known = some sourcePages)
    (.capture "layers in one group must share physical-page capacity")
  require (width ≤ stride) (.capture "source page stride is smaller than its opaque page bytes")
  let requiredBytes := (sourcePages - 1) * stride + width
  require (requiredBytes ≤ uint64Max ∧ sourceBase + requiredBytes ≤ uint64Max)
    (.capture "source address range overflows uint64")
  return ⟨scan.expectedLayer.set groupIndex (expected + 1),
    scan.pagesPerSourceGroup.set groupIndex (some sourcePages), groupIndex⟩

def checkSources (groupCount : ℕ) :
    ℕ → SourceScan → List ManagerPageSource → Except CaptureError SourceScan
  | _, scan, [] => .ok scan
  | index, scan, source :: rest => do
      let scan ← checkSource groupCount index source scan
      checkSources groupCount (index + 1) scan rest

def checkPages (group capacity : ℕ) : ℕ → List ℤ → Except CaptureError (List ℕ)
  | _, [] => .ok []
  | index, page :: rest => do
      let value ← uint page s!"physical_pages_by_group[{group}][{index}]" uint32Max
      require (value < capacity) (.capture "request page is outside its manager group")
      let values ← checkPages group capacity (index + 1) rest
      return value :: values

/-- The pages of every group. -/
def checkGroups (pagesPerSourceGroup : List (Option ℕ)) :
    ℕ → List (List ℤ) → Except CaptureError (List (List ℕ))
  | _, [] => .ok []
  | group, pageIds :: rest => do
      require (pageIds ≠ []) (.capture "every manager-page group needs at least one request page")
      match pagesPerSourceGroup.getD group none with
      | none => .error .assertion
      | some capacity =>
          let values ← checkPages group capacity 0 pageIds
          let groups ← checkGroups pagesPerSourceGroup (group + 1) rest
          return values :: groups

/-- Where the pages of a group start in the flattened table. -/
def groupOffset {α : Type} (groups : List (List α)) (group : ℕ) : ℕ :=
  (groups.take group).flatten.length

/-- The extents of the sources from a cursor on, and the cursor after them. -/
def planSpans (groups : List (List ℕ)) (capacity : ℕ) :
    ℕ → ℕ → List ManagerPageSource → Except CaptureError (List ManagerPageCaptureSpan × ℕ)
  | _, cursor, [] => .ok ([], cursor)
  | index, cursor, source :: rest => do
      let group := source.groupIndex.toNat
      let pageCount := (groups.getD group []).length
      let length := pageCount * source.bytesPerPage.toNat
      require (cursor + length ≤ capacity) (.capture "manager-page payload exceeds the bounded ring slot")
      let (spans, last) ← planSpans groups capacity (index + 1) (cursor + length) rest
      return (⟨index, group, groupOffset groups group, pageCount, cursor, length⟩ :: spans, last)

def planManagerPageCapture (sources : List ManagerPageSource) (physicalPagesByGroup : List (List ℤ))
    (slotBytes : ℤ) : Except CaptureError ManagerPageCapturePlan := do
  let groupCount := physicalPagesByGroup.length
  let capacity ← positiveUint slotBytes "slot_bytes" uint64Max
  require (sources ≠ [] ∧ sources.length ≤ maxCaptureSources) (.capture "manager-page source count is invalid")
  require (physicalPagesByGroup ≠ [] ∧ groupCount ≤ maxCaptureGroups)
    (.capture "manager-page group count is invalid")
  let scan ← checkSources groupCount 0 (.start groupCount) sources
  require (0 ∉ scan.expectedLayer) (.capture "every manager-page group needs a source")
  let groups ← checkGroups scan.pagesPerSourceGroup 0 physicalPagesByGroup
  require (groups.flatten.length ≤ uint32Max) (.capture "physical-page table exceeds uint32")
  let (spans, last) ← planSpans groups capacity 0 0 sources
  return ⟨groups.flatten, (List.range groupCount).map (groupOffset groups), groups.map List.length,
    spans, last⟩

/-! ## The native planner -/

/-- `SparkCachePageCaptureSource` -/
structure NativeSource where
  sourceBase : BitVec 64
  sourcePages : BitVec 64
  sourcePageStrideBytes : BitVec 64
  bytesPerPage : BitVec 32
  groupIndex : BitVec 32
  layerOrdinal : BitVec 32
  flags : BitVec 32
  deriving DecidableEq, Inhabited

/-- `SparkCachePageCaptureGroup` -/
structure NativeGroup where
  physicalPageOffset : BitVec 32
  pageCount : BitVec 32
  reserved : BitVec 32 × BitVec 32
  deriving DecidableEq, Inhabited

/-- `SparkCachePageCaptureSpan` -/
structure NativeSpan where
  destinationOffsetBytes : BitVec 64
  lengthBytes : BitVec 64
  sourceIndex : BitVec 32
  physicalPageOffset : BitVec 32
  pageCount : BitVec 32
  reserved : BitVec 32
  deriving DecidableEq

/-- `SparkCachePageCapturePlan` -/
structure NativePlan where
  usedBytes : BitVec 64
  spanCount : BitVec 32
  groupCount : BitVec 32
  sourceCount : BitVec 32
  reserved : BitVec 32
  deriving DecidableEq

/-- `checked_add`, and the failure of its callers -/
def checkedAdd (left right : BitVec 64) (detail : String) : Machine String (BitVec 64) := do
  let room ← Machine.sub (BitVec.allOnes 64) left
  Machine.require (right ≤ room) detail
  Machine.add left right

/-- `checked_multiply`, and the failure of its callers -/
def checkedMultiply (left right : BitVec 64) (detail : String) : Machine String (BitVec 64) := do
  Machine.require (left = 0 ∨ right ≤ BitVec.allOnes 64 / left) detail
  Machine.mul left right

/-- The arrays of `validate_sources`, one entry for each possible group. -/
structure NativeScan where
  nextLayer : List (BitVec 32)
  sourcePages : List (BitVec 64)
  seen : List Bool
  previousGroup : BitVec 32

def NativeScan.start : NativeScan :=
  ⟨List.replicate maxCaptureGroups 0, List.replicate maxCaptureGroups 0,
    List.replicate maxCaptureGroups false, 0⟩

def sourceOverflows : String := "manager-page source address range overflows"

/-- The page capacity of a group: the first layer's is kept, a later layer's is compared. -/
def recordCapacity (source : NativeSource) (scan : NativeScan) :
    Machine String (List Bool × List (BitVec 64)) := do
  let present ← Machine.read scan.seen source.groupIndex
  if present = false then
    let seen ← Machine.write scan.seen source.groupIndex true
    let sourcePages ← Machine.write scan.sourcePages source.groupIndex source.sourcePages
    return (seen, sourcePages)
  else
    let known ← Machine.read scan.sourcePages source.groupIndex
    Machine.require (known = source.sourcePages)
      "manager-page layers in one group must share page capacity"
    return (scan.seen, scan.sourcePages)

def validateSource (groupCount index : BitVec 32) (source : NativeSource) (scan : NativeScan) :
    Machine String NativeScan := do
  Machine.require (source.sourceBase ≠ 0 ∧ source.sourcePages ≠ 0 ∧
      source.sourcePageStrideBytes ≠ 0 ∧ source.bytesPerPage ≠ 0 ∧
      source.bytesPerPage.setWidth 64 ≤ source.sourcePageStrideBytes ∧
      source.groupIndex < groupCount ∧ source.flags = 0)
    "invalid manager-page source descriptor"
  Machine.require (index = 0 ∨ scan.previousGroup ≤ source.groupIndex)
    "manager-page sources must be ordered by group"
  let expected ← Machine.read scan.nextLayer source.groupIndex
  Machine.require (source.layerOrdinal = expected)
    "manager-page layer ordinals must be dense within each group"
  let next ← Machine.add expected 1
  let nextLayer ← Machine.write scan.nextLayer source.groupIndex next
  let (seen, sourcePages) ← recordCapacity source scan
  let before ← Machine.sub source.sourcePages 1
  let finalPageOffset ← checkedMultiply before source.sourcePageStrideBytes sourceOverflows
  let requiredBytes ← checkedAdd finalPageOffset (source.bytesPerPage.setWidth 64) sourceOverflows
  let _ ← checkedAdd source.sourceBase requiredBytes sourceOverflows
  return ⟨nextLayer, sourcePages, seen, source.groupIndex⟩

def validateEach (groupCount : BitVec 32) :
    BitVec 32 → NativeScan → List NativeSource → Machine String NativeScan
  | _, scan, [] => pure scan
  | index, scan, source :: rest => do
      let scan ← validateSource groupCount index source scan
      let next ← Machine.add index 1
      validateEach groupCount next scan rest

/-- The check of the groups from one on, that many. -/
def checkSeen (seen : List Bool) : BitVec 32 → ℕ → Machine String Unit
  | _, 0 => pure ()
  | group, remaining + 1 => do
      let present ← Machine.read seen group
      Machine.require (present = true) "every manager-page group must contain a layer"
      let next ← Machine.add group 1
      checkSeen seen next remaining

def validateSources (sources : List NativeSource) (groupCount : BitVec 32) :
    Machine String Unit := do
  let sourceCount := BitVec.ofNat 32 sources.length
  Machine.require (sourceCount ≠ 0 ∧ sourceCount ≤ 256 ∧ groupCount ≠ 0 ∧ groupCount ≤ 64)
    "invalid manager-page source inventory size"
  let scan ← validateEach groupCount 0 .start sources
  checkSeen scan.seen 0 groupCount.toNat

def coverGroups (physicalPageCount : BitVec 32) :
    BitVec 32 → List NativeGroup → Machine String (BitVec 32)
  | expected, [] => pure expected
  | expected, descriptor :: rest => do
      let detail := "manager-page groups must cover the physical-page table exactly"
      Machine.require (descriptor.physicalPageOffset = expected ∧ descriptor.pageCount ≠ 0 ∧
        descriptor.reserved = (0, 0)) detail
      let room ← Machine.sub physicalPageCount expected
      Machine.require (descriptor.pageCount ≤ room) detail
      let next ← Machine.add expected descriptor.pageCount
      coverGroups physicalPageCount next rest

/-- The page capacities of the groups. -/
def groupCapacities : List (BitVec 64) → List NativeSource → Machine String (List (BitVec 64))
  | capacities, [] => pure capacities
  | capacities, source :: rest => do
      let capacities ← Machine.write capacities source.groupIndex source.sourcePages
      groupCapacities capacities rest

/-- The check of a group's pages from one on, that many. -/
def checkGroupPages (physicalPages : List (BitVec 32)) (capacities : List (BitVec 64))
    (group offset : BitVec 32) : BitVec 32 → ℕ → Machine String Unit
  | _, 0 => pure ()
  | page, remaining + 1 => do
      let entry ← Machine.add offset page
      let value ← Machine.read physicalPages entry
      let capacity ← Machine.read capacities group
      Machine.require (value.setWidth 64 < capacity)
        "manager-page request references a page outside its source group"
      let next ← Machine.add page 1
      checkGroupPages physicalPages capacities group offset next remaining

def checkAllPages (physicalPages : List (BitVec 32)) (capacities : List (BitVec 64)) :
    BitVec 32 → List NativeGroup → Machine String Unit
  | _, [] => pure ()
  | group, descriptor :: rest => do
      checkGroupPages physicalPages capacities group descriptor.physicalPageOffset 0
        descriptor.pageCount.toNat
      let next ← Machine.add group 1
      checkAllPages physicalPages capacities next rest

def nativeSpans (groups : List NativeGroup) (slotBytes : BitVec 64) :
    BitVec 32 → BitVec 64 → List NativeSource → Machine String (List NativeSpan × BitVec 64)
  | _, cursor, [] => pure ([], cursor)
  | index, cursor, source :: rest => do
      let detail := "manager-page payload exceeds the bounded ring slot"
      let group ← Machine.read groups source.groupIndex
      let length ← checkedMultiply (group.pageCount.setWidth 64) (source.bytesPerPage.setWidth 64)
        detail
      let stop ← checkedAdd cursor length detail
      Machine.require (stop ≤ slotBytes) detail
      let next ← Machine.add index 1
      let (spans, last) ← nativeSpans groups slotBytes next stop rest
      return (⟨cursor, length, index, group.physicalPageOffset, group.pageCount, 0⟩ :: spans, last)

/-- The arrays are given with their counts, and the results are returned. -/
def planCapture (sources : List NativeSource) (groups : List NativeGroup)
    (physicalPages : List (BitVec 32)) (slotBytes : BitVec 64) (spanCapacity : BitVec 32) :
    Machine String (List NativeSpan × NativePlan) := do
  let sourceCount := BitVec.ofNat 32 sources.length
  let groupCount := BitVec.ofNat 32 groups.length
  let physicalPageCount := BitVec.ofNat 32 physicalPages.length
  Machine.require (physicalPageCount ≠ 0 ∧ slotBytes ≠ 0 ∧ sourceCount ≤ spanCapacity)
    "invalid manager-page capture request"
  validateSources sources groupCount
  let covered ← coverGroups physicalPageCount 0 groups
  Machine.require (covered = physicalPageCount)
    "manager-page groups leave trailing physical-page entries"
  let capacities ← groupCapacities (List.replicate maxCaptureGroups 0) sources
  checkAllPages physicalPages capacities 0 groups
  let (spans, last) ← nativeSpans groups slotBytes 0 0 sources
  return (spans, ⟨last, sourceCount, groupCount, sourceCount, 0⟩)

end SparkCache.Streaming
