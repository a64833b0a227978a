import SparkCache.Pages.Delta
import SparkCache.Restore.CopySpans
import SparkCache.Store.PageRoot

/-!
# Source spans

The bytes of a delta restore come from whole objects or from the extents of
single tails. A logical range of a layer is split where its sources end.
-/
namespace SparkCache.Restore

open Pages Tiling

open Store (ObjectDescriptor)

/-- `_MAX_PAGE_OBJECT_PREFETCH_BYTES` -/
def maxPageObjectPrefetchBytes : ℕ := 256 * 1024 * 1024

/-! ## Sources -/

/-- The path of an object, by its digest, or the cache key of a tail, by the path of the first
object of its delta and its extent. -/
inductive SourcePath where
  | object (sha256 : Digest)
  | tail (first : Digest) (sourceStart sourceEnd : ℕ)
  deriving DecidableEq

structure CudaPageObject where
  sha256 : Digest
  encodedBytes : ℕ
  encodedStart : ℕ
  encodedEnd : ℕ
  integrity : Integrity
  crc32 : Option ℕ
  deriving DecidableEq

structure CudaPageTailExtent where
  path : SourcePath
  sha256 : Option Digest
  encodedBytes : ℕ
  encodedStart : ℕ
  encodedEnd : ℕ
  /-- Object path, object bytes, object offset and length. -/
  pieces : List (SourcePath × ℕ × ℕ × ℕ)
  integrity : Integrity
  crc32 : Option ℕ
  deriving DecidableEq

inductive PageSource where
  | object (source : CudaPageObject)
  | extent (source : CudaPageTailExtent)
  deriving DecidableEq

namespace PageSource

def path : PageSource → SourcePath
  | object source => .object source.sha256
  | extent source => source.path

def encodedBytes : PageSource → ℕ
  | object source => source.encodedBytes
  | extent source => source.encodedBytes

def encodedStart : PageSource → ℕ
  | object source => source.encodedStart
  | extent source => source.encodedStart

def encodedEnd : PageSource → ℕ
  | object source => source.encodedEnd
  | extent source => source.encodedEnd

end PageSource

/-- The checks of `_page_objects` of one descriptor, the types of whose fields are checked. -/
def pageObject (label : String) (arenaBytes index expectedStart : ℕ) (d : ObjectDescriptor) :
    Except RestoreError CudaPageObject :=
  if 0 < d.bytes ∧ d.bytes ≤ arenaBytes ∧ d.bytes ≤ maxPageObjectPrefetchBytes ∧
      d.encodedStart = expectedStart then
    .ok ⟨d.sha256, d.bytes, d.encodedStart, d.encodedEnd, d.integrity, d.crc32.bind id⟩
  else .error (.objectGeometry label index)

/-- The objects from an index and an offset on, and the offset after them. -/
def pageObjectsFrom (label : String) (arenaBytes : ℕ) :
    ℕ → ℕ → List ObjectDescriptor → Except RestoreError (List CudaPageObject × ℕ)
  | _, expectedStart, [] => .ok ([], expectedStart)
  | index, expectedStart, d :: rest => do
      let object ← pageObject label arenaBytes index expectedStart d
      let (objects, last) ← pageObjectsFrom label arenaBytes (index + 1) object.encodedEnd rest
      return (object :: objects, last)

/-- `_page_objects` -/
def pageObjects (descriptors : List ObjectDescriptor) (totalBytes arenaBytes : ℕ) (label : String) :
    Except RestoreError (List CudaPageObject) := do
  require (0 < totalBytes ∧ 0 < arenaBytes) (.restore (label ++ " object geometry is invalid"))
  let (objects, last) ← pageObjectsFrom label arenaBytes 0 0 descriptors
  require (objects ≠ [] ∧ last = totalBytes)
    (.restore (label ++ " objects do not cover the payload"))
  return objects

/-! ## Tail extents -/

def CudaPageObject.path (object : CudaPageObject) : SourcePath := .object object.sha256

/-- The extents of some tails, or none when a tail is empty or exceeds a bound. -/
def tailExtentsOf (objects : List CudaPageObject) (integrity : Integrity) (maxBytes : ℕ) :
    List PageDeltaTail → Except RestoreError (Option (List CudaPageTailExtent))
  | [] => .ok (some [])
  | tail :: rest =>
      let size := tail.sourceEnd - tail.sourceStart
      if size = 0 ∨ maxBytes < size then .ok none
      else
        let (pieces, cursor) := cut CudaPageObject.encodedStart CudaPageObject.encodedEnd
          tail.sourceEnd tail.sourceStart objects
        match objects with
        | [] => .error (.restore "page-delta tail is not covered by objects")
        | first :: _ => do
            require (cursor = tail.sourceEnd)
              (.restore "page-delta tail is not covered by objects")
            let extent : CudaPageTailExtent :=
              { path := .tail first.sha256 tail.sourceStart tail.sourceEnd
                sha256 := tail.sha256
                encodedBytes := size
                encodedStart := tail.sourceStart
                encodedEnd := tail.sourceEnd
                pieces := pieces.map fun piece => (piece.1.path, piece.1.encodedBytes,
                  piece.2.1 - piece.1.encodedStart, piece.2.2 - piece.2.1)
                integrity := integrity
                crc32 := tail.crc32 }
            let more ← tailExtentsOf objects integrity maxBytes rest
            return more.map (extent :: ·)

/-- `_tail_extents` -/
def tailExtents (objects : List CudaPageObject) (plan : PageDeltaPlan) (maxBytes : ℕ) :
    Except RestoreError (Option (List CudaPageTailExtent)) :=
  tailExtentsOf objects plan.integrity maxBytes plan.tails

/-! ## Logical ranges -/

/-- `_LogicalSourceRange` -/
structure LogicalSourceRange where
  destinationStart : ℕ
  destinationEnd : ℕ
  sourceStart : ℕ
  objects : List PageSource

structure CudaPageSourceSpan where
  source : PageSource
  sourceOffsetBytes : ℕ
  snapshotOffsetBytes : ℕ
  destinationByteOffset : ℕ
  byteCount : ℕ
  destinationIndex : ℕ
  deriving DecidableEq

namespace LogicalSourceRange

def sourceEnd (range : LogicalSourceRange) : ℕ :=
  range.sourceStart + (range.destinationEnd - range.destinationStart)

/-- The span of a cut of one source. -/
def span (range : LogicalSourceRange) (snapshotBase destinationIndex : ℕ)
    (piece : PageSource × ℕ × ℕ) : CudaPageSourceSpan :=
  let logicalOffset := piece.2.1 - range.sourceStart
  { source := piece.1
    sourceOffsetBytes := piece.2.1 - piece.1.encodedStart
    snapshotOffsetBytes := snapshotBase + range.destinationStart + logicalOffset
    destinationByteOffset := range.destinationStart + logicalOffset
    byteCount := piece.2.2 - piece.2.1
    destinationIndex := destinationIndex }

/-- `_split_logical_source_range` -/
def split (range : LogicalSourceRange) (snapshotBase destinationIndex : ℕ) :
    Except RestoreError (List CudaPageSourceSpan) :=
  let (pieces, cursor) := cut PageSource.encodedStart PageSource.encodedEnd range.sourceEnd
    range.sourceStart range.objects
  if cursor = range.sourceEnd then .ok (pieces.map (range.span snapshotBase destinationIndex))
  else .error (.restore "page source objects do not cover a logical span")

/-- The ranges before a position, the last one cut there. -/
def keep (cutoff : ℕ) : List LogicalSourceRange → List LogicalSourceRange
  | [] => []
  | item :: rest =>
      if cutoff ≤ item.destinationStart then []
      else
        let stop := min item.destinationEnd cutoff
        if stop = cutoff then [{ item with destinationEnd := stop }]
        else { item with destinationEnd := stop } :: keep cutoff rest

/-- The end of the last range. -/
def prefixEnd (kept : List LogicalSourceRange) : ℕ := (kept.getLast?.map destinationEnd).getD 0

end LogicalSourceRange

end SparkCache.Restore
