import SparkCache.Restore.SourceSpans

/-!
# Delta restore plans

From an authenticated graph of one snapshot and its deltas to the source spans
of the result in final order, and from the spans to the batches in which they
are submitted.
-/
namespace SparkCache.Restore

open Pages

open Store (ObjectDescriptor PageSnapshotRoot)

/-! ## The graph -/

/-- A delta of the graph, with what its root or its stage says of it. -/
structure DeltaRoot where
  objects : List ObjectDescriptor
  encodedBytes : ℕ
  baseBlockCounts : List ℕ
  resultBlockCounts : List ℕ
  baseCommittedTokens : ℕ
  committedTokens : ℕ
  headerSha256 : Option Digest

/-- What the walk over the validated roots of a hit finds: the deltas, oldest first, and their base. -/
structure PageDeltaGraph where
  base : PageSnapshotRoot
  deltas : List DeltaRoot

/-- What the planner reads besides the roots. -/
structure PlanningReads where
  /-- `delta_header` -/
  deltaHeader : CudaPageObject → Option Digest → Except RestoreError Bytes
  /-- The payload of the first object of the base. -/
  basePayload : CudaPageObject → Except RestoreError Bytes
  /-- `_hot_page_snapshot` -/
  hotPageSnapshot : Digest → ℕ → Option Bytes

/-- `CudaPageDeltaRestorePlan`, without its statistics and the objects read so far. -/
structure CudaPageDeltaRestorePlan where
  pagePlan : PageSnapshotPlan
  resultSnapshotSha256 : Digest
  sourceSpans : List CudaPageSourceSpan
  integrity : Integrity
  /-- When it is set, there are no source spans and these bytes are placed directly. -/
  hotSnapshot : Option Bytes

structure CudaPageDeltaStage where
  plan : PageDeltaPlan
  objects : List CudaPageObject

/-- An error that the planner wraps. -/
def rejecting {α : Type} : Except CodecError α → Except RestoreError α
  | .ok a => .ok a
  | .error e => .error (.rejected e)

/-- An error of the page codec that the planner lets through. -/
def escaping {α : Type} : Except CodecError α → Except RestoreError α
  | .ok a => .ok a
  | .error e => .error (.codec e)

def planStage (reads : PlanningReads) (layout : PageLayout) (arenaBytes : ℕ) (root : DeltaRoot) :
    Except RestoreError CudaPageDeltaStage := do
  let objects ← pageObjects root.objects root.encodedBytes arenaBytes "page delta"
  match objects with
  | [] => .error (.restore "page delta objects do not cover the payload")
  | first :: _ => do
      let header ← reads.deltaHeader first root.headerSha256
      let plan ← rejecting (planPageDelta layout header root.baseBlockCounts root.resultBlockCounts
        root.baseCommittedTokens root.committedTokens (some root.encodedBytes))
      return ⟨plan, objects⟩

/-- The counts and the digest after a stage that starts from the given ones. -/
def followStage (counts : List ℕ) (digest : Digest) (stage : CudaPageDeltaStage) :
    Except RestoreError (List ℕ × Digest) := do
  require (stage.plan.baseBlockCounts = counts ∧ stage.plan.baseSnapshotSha256 = digest)
    (.restore "page-delta stage base identity differs")
  return (stage.plan.resultBlockCounts, stage.plan.resultSnapshotSha256)

def followStages :
    List ℕ → Digest → List CudaPageDeltaStage → Except RestoreError (List ℕ × Digest)
  | counts, digest, [] => .ok (counts, digest)
  | counts, digest, stage :: rest => do
      let (counts, digest) ← followStage counts digest stage
      followStages counts digest rest

/-- The snapshot root is the base of the first delta. -/
def checkBase (layout : PageLayout) (base : PageSnapshotRoot) (first : PageDeltaPlan) :
    Except RestoreError Unit := do
  let size ← rejecting (pageSnapshotEncodedSize layout first.baseBlockCounts)
  require (base.committedTokens = first.baseBoundaryTokens ∧ base.encodedBytes = size ∧
      base.snapshotDigest = first.baseSnapshotSha256)
    (.restore "page-delta base snapshot differs")

/-- `_hot_page_delta_plan` -/
def hotPageDeltaPlan (reads : PlanningReads) (layout : PageLayout) (base : PageSnapshotRoot)
    (first : PageDeltaPlan) (stages : List CudaPageDeltaStage) (expectedCounts : List ℕ) :
    Except RestoreError (Option CudaPageDeltaRestorePlan) := do
  checkBase layout base first
  let (counts, digest) ← followStages first.baseBlockCounts base.snapshotDigest stages
  require (counts = expectedCounts) (.restore "page-delta result block counts differ")
  let total ← rejecting (pageSnapshotEncodedSize layout counts)
  match reads.hotPageSnapshot digest total with
  | none => return none
  | some hot =>
      let pagePlan ← rejecting (planPageSnapshot layout hot counts (some total))
      return some ⟨pagePlan, digest, [], .sha256, some hot⟩

/-! ## Ranges -/

/-- The ranges of a layer after a tail has replaced what comes after its offset. -/
def replaceTail (tail : PageDeltaTail) (sources : List PageSource)
    (existing : List LogicalSourceRange) : Except RestoreError (List LogicalSourceRange) := do
  let cutoff := tail.destinationByteOffset
  let kept := LogicalSourceRange.keep cutoff existing
  require (LogicalSourceRange.prefixEnd kept = cutoff)
    (.restore "page-delta prefix coverage differs")
  return kept ++ [⟨cutoff, cutoff + (tail.sourceEnd - tail.sourceStart), tail.sourceStart, sources⟩]

/-- The ranges of the layers after the tails of a stage; layers without a tail keep theirs. -/
def replaceTails : List (PageDeltaTail × List PageSource) → List (List LogicalSourceRange) →
    Except RestoreError (List (List LogicalSourceRange))
  | [], ranges => .ok ranges
  | _ :: _, [] => .error (.codec .index)
  | (tail, sources) :: rest, existing :: more => do
      let kept ← replaceTail tail sources existing
      let others ← replaceTails rest more
      return kept :: others

/-- Where the bytes of the tails of a stage come from: an extent for each, or all its objects. -/
def tailSources (stage : CudaPageDeltaStage) : Option (List CudaPageTailExtent) →
    List (PageDeltaTail × List PageSource)
  | none => stage.plan.tails.map fun tail => (tail, stage.objects.map .object)
  | some extents => (stage.plan.tails.zip extents).map fun t => (t.1, [.extent t.2])

/-- The ranges, the counts and the digest after the stages. -/
def placeStages (tailBound : ℕ) : List ℕ → Digest → List (List LogicalSourceRange) →
    List CudaPageDeltaStage →
      Except RestoreError (List ℕ × Digest × List (List LogicalSourceRange))
  | counts, digest, ranges, [] => .ok (counts, digest, ranges)
  | counts, digest, ranges, stage :: rest => do
      let (nextCounts, nextDigest) ← followStage counts digest stage
      let extents ← tailExtents stage.objects stage.plan tailBound
      let placed ← replaceTails (tailSources stage extents) ranges
      placeStages tailBound nextCounts nextDigest placed rest

/-- The spans of one layer, and how many of its bytes they cover. -/
def layerSourceSpans (snapshotBase destinationIndex : ℕ) :
    ℕ → List LogicalSourceRange → Except RestoreError (List CudaPageSourceSpan × ℕ)
  | covered, [] => .ok ([], covered)
  | covered, range :: rest => do
      require (range.destinationStart = covered)
        (.restore "page-delta result coverage has a gap")
      let spans ← range.split snapshotBase destinationIndex
      let (more, last) ← layerSourceSpans snapshotBase destinationIndex range.destinationEnd rest
      return (spans ++ more, last)

/-- The spans of the layers from an index and an offset on, and the offset after them. -/
def resultSourceSpans : ℕ → ℕ → List PagePayloadSpan → List (List LogicalSourceRange) →
    Except RestoreError (List CudaPageSourceSpan × ℕ)
  | _, snapshotBase, [], [] => .ok ([], snapshotBase)
  | destinationIndex, snapshotBase, layer :: layers, ranges :: more => do
      let (spans, covered) ← layerSourceSpans snapshotBase destinationIndex 0 ranges
      let expectedBytes := layer.sourceEnd - layer.sourceStart
      require (covered = expectedBytes) (.restore "page-delta result coverage differs")
      let (others, last) ← resultSourceSpans (destinationIndex + 1) (snapshotBase + expectedBytes)
        layers more
      return (spans ++ others, last)
  | _, _, _, _ => .error (.codec .zipLength)

/-! ## The plan -/

def baseRanges (plan : PageSnapshotPlan) (objects : List CudaPageObject) :
    List (List LogicalSourceRange) :=
  plan.spans.map fun span =>
    [⟨0, span.sourceEnd - span.sourceStart, span.sourceStart, objects.map .object⟩]

/-- The plan that reads the base and the tails. -/
def coldPageDeltaPlan (reads : PlanningReads) (layout : PageLayout) (base : PageSnapshotRoot)
    (baseObjects : List CudaPageObject) (firstObject : CudaPageObject) (first : PageDeltaPlan)
    (stages : List CudaPageDeltaStage) (expectedCounts : List ℕ) (arenaBytes : ℕ) :
    Except RestoreError CudaPageDeltaRestorePlan := do
  let payload ← reads.basePayload firstObject
  let basePlan ← rejecting (planPageSnapshot layout payload first.baseBlockCounts
    (some base.encodedBytes))
  checkBase layout base first
  let (counts, digest, ranges) ← placeStages (min arenaBytes maxPageObjectPrefetchBytes)
    first.baseBlockCounts base.snapshotDigest (baseRanges basePlan baseObjects) stages
  require (counts = expectedCounts) (.restore "page-delta result block counts differ")
  let header ← escaping (encodePageSnapshotHeader layout counts)
  let total ← escaping (pageSnapshotEncodedSize layout counts)
  let pagePlan ← escaping (planPageSnapshot layout header counts (some total))
  let (spans, snapshotBase) ← resultSourceSpans 0 0 pagePlan.spans ranges
  require (snapshotBase = total - pagePlan.headerBytes)
    (.restore "page-delta result byte count differs")
  return ⟨pagePlan, digest, spans, ((stages.getLast?).map fun stage => stage.plan.integrity).getD
    first.integrity, none⟩

def planCudaPageDeltaRestore (reads : PlanningReads) (layout : PageLayout)
    (groupSlots : List (List ℕ)) (arenaBytes : ℕ) (graph : PageDeltaGraph) :
    Except RestoreError CudaPageDeltaRestorePlan := do
  -- The roots are followed from the newest one.
  let newestFirst ← graph.deltas.reverse.mapM (planStage reads layout arenaBytes)
  let baseObjects ← pageObjects graph.base.objects graph.base.encodedBytes arenaBytes "page snapshot"
  match newestFirst.reverse, baseObjects with
  | [], _ => .error (.restore "page-delta graph contains no delta")
  | _ :: _, [] => .error (.restore "page snapshot objects do not cover the payload")
  | first :: rest, firstObject :: more => do
      let expectedCounts := groupSlots.map List.length
      let hot ← hotPageDeltaPlan reads layout graph.base first.plan (first :: rest) expectedCounts
      match hot with
      | some plan => return plan
      | none =>
          coldPageDeltaPlan reads layout graph.base (firstObject :: more) firstObject first.plan
            (first :: rest) expectedCounts arenaBytes

/-! ## Batches -/

/-- The sources of a batch by path; the first of a path stays. -/
def batchSources (batch : List CudaPageSourceSpan) : Dictionary SourcePath PageSource :=
  batch.foldl (fun sources span =>
    if span.source.path ∈ sources then sources else sources.insert span.source.path span.source) ∅

/-- The state of `_delta_submission_batches`. -/
structure Packing where
  batches : List (List CudaPageSourceSpan)
  batch : List CudaPageSourceSpan
  batchBytes : ℕ
  batchObjects : Dictionary SourcePath PageSource
  batchObjectBytes : ℕ
  expectedSnapshot : ℕ
  destinationCovered : Dictionary ℕ ℕ

namespace Packing

def empty : Packing := ⟨[], [], 0, ∅, 0, 0, ∅⟩

/-- The batch is complete and a new one begins. -/
def flush (s : Packing) : Packing :=
  { s with
    batches := s.batches ++ [s.batch]
    batch := []
    batchBytes := 0
    batchObjects := ∅
    batchObjectBytes := 0 }

/-- The span is the next one in final order. -/
def Expects (s : Packing) (arenaBytes : ℕ) (span : CudaPageSourceSpan) : Prop :=
  0 < span.byteCount ∧ span.byteCount ≤ arenaBytes ∧
    span.snapshotOffsetBytes = s.expectedSnapshot ∧
    span.destinationByteOffset = (s.destinationCovered.lookup span.destinationIndex).getD 0

instance (s : Packing) (arenaBytes : ℕ) (span : CudaPageSourceSpan) :
    Decidable (s.Expects arenaBytes span) :=
  inferInstanceAs (Decidable (_ ∧ _ ∧ _ ∧ _))

/-- What a span adds to the objects of the batch. -/
def newObjectBytes (s : Packing) (span : CudaPageSourceSpan) : ℕ :=
  if span.source.path ∈ s.batchObjects then 0 else span.source.encodedBytes

/-- The batch has no room for a span. -/
def Full (s : Packing) (arenaBytes : ℕ) (span : CudaPageSourceSpan) : Prop :=
  s.batch ≠ [] ∧ (arenaBytes < s.batchBytes + span.byteCount ∨
    maxPageObjectPrefetchBytes < s.batchObjectBytes + s.newObjectBytes span ∨
    4096 ≤ s.batch.length)

instance (s : Packing) (arenaBytes : ℕ) (span : CudaPageSourceSpan) :
    Decidable (s.Full arenaBytes span) :=
  inferInstanceAs (Decidable (_ ∧ (_ ∨ _ ∨ _)))

def add (s : Packing) (span : CudaPageSourceSpan) : Packing :=
  { s with
    batch := s.batch ++ [span]
    batchBytes := s.batchBytes + span.byteCount
    batchObjects := if span.source.path ∈ s.batchObjects then s.batchObjects
      else s.batchObjects.insert span.source.path span.source
    batchObjectBytes := s.batchObjectBytes + s.newObjectBytes span
    expectedSnapshot := s.expectedSnapshot + span.byteCount
    destinationCovered := s.destinationCovered.insert span.destinationIndex
      (span.destinationByteOffset + span.byteCount) }

def step (arenaBytes : ℕ) (s : Packing) (span : CudaPageSourceSpan) :
    Except RestoreError Packing := do
  require (s.Expects arenaBytes span) (.restore "page-delta source spans violate final coverage")
  let next := if s.Full arenaBytes span then s.flush else s
  require (next.newObjectBytes span ≤ maxPageObjectPrefetchBytes)
    (.restore "page-delta source object exceeds the host prefetch bound")
  return next.add span

/-- All batches, with the open one. -/
def finished (s : Packing) : List (List CudaPageSourceSpan) :=
  if s.batch = [] then s.batches else s.batches ++ [s.batch]

end Packing

/-- `_delta_submission_batches` -/
def deltaSubmissionBatches (spans : List CudaPageSourceSpan) (arenaBytes : ℕ) :
    Except RestoreError (List (List CudaPageSourceSpan)) := do
  let s ← spans.foldlM (Packing.step arenaBytes) Packing.empty
  require (s.finished ≠ []) (.restore "page-delta restore has no source spans")
  return s.finished

end SparkCache.Restore
