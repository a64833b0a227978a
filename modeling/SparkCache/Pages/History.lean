import SparkCache.Lib.Patchwork
import SparkCache.Pages.Delta

/-!
# Page histories

A base snapshot and a chain of deltas, oldest first. The newest snapshot is
rebuilt stage by stage in growing buffers, or composed in one pass that reads
every tail that is left of the chain once.
-/
namespace SparkCache.Pages

/-- `output[start:stop] = data` on a buffer of fixed size -/
def assign (output : Bytes) (start stop : ℕ) (data : Bytes) : Except CodecError Bytes :=
  if (slice output start stop).length = data.length then
    .ok (output.take start ++ data ++ output.drop stop)
  else .error .sliceLength

/-! ## Reconstruction -/

/-- `_PageHistoryReconstruction` -/
structure PageHistoryReconstruction where
  counts : List ℕ
  boundary : ℕ
  sha256 : Digest
  valid : Bool
  header : Bytes
  layers : List Bytes

namespace PageHistoryReconstruction

/-- `__init__` -/
def ofSnapshot (layout : PageLayout) (snapshot : Bytes) (blockCounts : List ℕ)
    (boundaryTokens : ℕ) : Except CodecError PageHistoryReconstruction := do
  let verified := verifyPageSnapshotBytes snapshot
  let plan ← planPageSnapshot layout verified.payload blockCounts none
  return ⟨plan.blockCounts, boundaryTokens, verified.sha256, true,
    verified.payload.take plan.headerBytes, spanPayloads verified.payload plan.spans⟩

/-- Each buffer keeps its first bytes, and its tail is overwritten and extended. -/
def overwrite (encoded : Bytes) : List PageDeltaTail → List Bytes → Except CodecError (List Bytes)
  | [], [] => .ok []
  | tail :: tails, buffer :: buffers => do
      let existing := buffer.length - tail.destinationByteOffset
      let target ← assign buffer tail.destinationByteOffset buffer.length
        (slice encoded tail.sourceStart (tail.sourceStart + existing))
      let more ← overwrite encoded tails buffers
      return (target ++ slice encoded (tail.sourceStart + existing) tail.sourceEnd) :: more
  | _, _ => .error .zipLength

/-- `apply` where nothing fails. -/
def applyStage (layout : PageLayout) (r : PageHistoryReconstruction) (encodedDelta : Bytes)
    (baseBlockCounts resultBlockCounts : List ℕ)
    (baseBoundaryTokens resultBoundaryTokens : ℕ) :
    Except CodecError PageHistoryReconstruction := do
  require (r.valid = true) (.codec "hybrid page history has an unverified stage")
  require (baseBlockCounts = r.counts ∧ baseBoundaryTokens = r.boundary)
    (.codec "hybrid page history boundary differs")
  let plan ← planPageDelta layout encodedDelta baseBlockCounts resultBlockCounts
    baseBoundaryTokens resultBoundaryTokens none
  require (plan.baseSnapshotSha256 = r.sha256)
    (.codec "hybrid page delta identity or base differs")
  require (∀ tail ∈ plan.tails,
      some (SparkCache.sha256 (slice encodedDelta tail.sourceStart tail.sourceEnd)) = tail.sha256)
    (.codec "hybrid page delta payload checksum mismatch")
  let layers ← overwrite encodedDelta plan.tails r.layers
  let header ← encodePageSnapshotHeader layout plan.resultBlockCounts
  let size ← pageSnapshotEncodedSize layout plan.resultBlockCounts
  require (header.length + (layers.map List.length).sum = size)
    (.codec "hybrid page delta result size differs")
  let resultSha256 := SparkCache.sha256 (header ++ layers.flatten)
  require (resultSha256 = plan.resultSnapshotSha256)
    (.codec "hybrid page delta result checksum mismatch")
  return ⟨plan.resultBlockCounts, resultBoundaryTokens, resultSha256, true, header, layers⟩

/-- A stage that fails leaves the buffers unverified; nothing reads them afterwards. -/
def apply (layout : PageLayout) (r : PageHistoryReconstruction) (encodedDelta : Bytes)
    (baseBlockCounts resultBlockCounts : List ℕ)
    (baseBoundaryTokens resultBoundaryTokens : ℕ) :
    Except CodecError Unit × PageHistoryReconstruction :=
  match applyStage layout r encodedDelta baseBlockCounts resultBlockCounts baseBoundaryTokens
    resultBoundaryTokens with
  | .ok next => (.ok (), next)
  | .error e => (.error e, { r with valid := false })

def finish (r : PageHistoryReconstruction) : Except CodecError Bytes := do
  require (r.valid = true) (.codec "hybrid page history has an unverified stage")
  return r.header ++ r.layers.flatten

end PageHistoryReconstruction

/-! ## Composition -/

/-- An interval of a destination layer and where its bytes come from: the base snapshot, or the
tail of a stage. -/
abbrev Range := Patchwork.Patch (Option ℕ)

/-- The ranges of a layer after one more stage. -/
def supersede (stage : ℕ) (tail : PageDeltaTail) (ranges : List Range) :
    Except CodecError (List Range) := do
  let cutoff := tail.destinationByteOffset
  let kept := Patchwork.truncate cutoff ranges
  require (Patchwork.lastStop kept = cutoff)
    (.codec "hybrid page delta prefix coverage differs")
  let length := tail.sourceEnd - tail.sourceStart
  return if length = 0 then kept else kept ++ [⟨cutoff, cutoff + length, some stage, 0⟩]

def supersedeLayers (stage : ℕ) :
    List PageDeltaTail → List (List Range) → Except CodecError (List (List Range))
  | tail :: tails, ranges :: more => do
      let kept ← supersede stage tail ranges
      let rest ← supersedeLayers stage tails more
      return kept :: rest
  | _, _ => .ok []

/-- The ranges of all layers after the stages from an index on. -/
def placeStages : ℕ → List PageDeltaPlan → List ℕ → Digest → List (List Range) →
    Except CodecError (List (List Range) × List ℕ × Digest)
  | _, [], counts, digest, ranges => .ok (ranges, counts, digest)
  | stage, plan :: plans, counts, digest, ranges => do
      require (plan.baseBlockCounts = counts ∧ plan.baseSnapshotSha256 = digest ∧
          plan.tails.length = ranges.length)
        (.codec "hybrid page delta identity or base differs")
      let placed ← supersedeLayers stage plan.tails ranges
      placeStages (stage + 1) plans plan.resultBlockCounts plan.resultSnapshotSha256 placed

/-- A call of `read_tail`. -/
abbrev TailRead := ℕ × PageDeltaTail

section Compose
variable (base : Bytes) (stagePlans : List PageDeltaPlan)
  (readTail : ℕ → PageDeltaTail → Except CodecError Bytes)

/-- The bytes of a range, and the calls of `read_tail` for it. -/
def readRange (destination : ℕ) (range : Range) : Except CodecError (Bytes × List TailRead) :=
  match range.owner with
  | none => .ok (slice base range.source (range.source + (range.stop - range.start)), [])
  | some stage =>
      match stagePlans[stage]?.bind fun plan => (plan.tails[destination]?).map (plan, ·) with
      | none => .error .index
      | some (plan, tail) => do
          let payload ← readTail stage tail
          require (payload.length = tail.sourceEnd - tail.sourceStart ∧
            payloadMatches plan.integrity payload tail.sha256 tail.crc32 = true) .payloadChecksum
          return (payload.take (range.stop - range.start), [(stage, tail)])

/-- Write the ranges of a layer from a covered position on. -/
def writeRanges (destination : ℕ) (span : PagePayloadSpan) :
    ℕ → Bytes → List Range → Except CodecError (Bytes × List TailRead)
  | covered, output, [] => do
      require (covered = span.sourceEnd - span.sourceStart)
        (.codec "hybrid page history coverage differs")
      return (output, [])
  | covered, output, range :: rest => do
      require (range.start = covered) (.codec "hybrid page history coverage has a gap")
      let (data, reads) ← readRange base stagePlans readTail destination range
      let output ← assign output (span.sourceStart + range.start) (span.sourceStart + range.stop)
        data
      let (output, more) ← writeRanges destination span range.stop output rest
      return (output, reads ++ more)

def writeLayers : ℕ → Bytes → List PagePayloadSpan → List (List Range) →
    Except CodecError (Bytes × List TailRead)
  | _, output, [], [] => .ok (output, [])
  | destination, output, span :: spans, ranges :: more => do
      let (output, reads) ← writeRanges base stagePlans readTail destination span 0 output ranges
      let (output, others) ← writeLayers (destination + 1) output spans more
      return (output, reads ++ others)
  | _, _, _, _ => .error .zipLength

end Compose

/-- The composed snapshot, and the calls of `read_tail` in their order. -/
def composePageHistory (layout : PageLayout) (baseSnapshot : VerifiedPageSnapshot)
    (baseBlockCounts : List ℕ) (stagePlans : List PageDeltaPlan)
    (readTail : ℕ → PageDeltaTail → Except CodecError Bytes) :
    Except CodecError (VerifiedPageSnapshot × List TailRead) := do
  let some newest := stagePlans.getLast? | .error (.codec "page history contains no delta")
  let basePlan ← planPageSnapshot layout baseSnapshot.payload baseBlockCounts none
  let (ranges, counts, digest) ← placeStages 0 stagePlans basePlan.blockCounts baseSnapshot.sha256
    (basePlan.spans.map fun span => [⟨0, span.sourceEnd - span.sourceStart, none, span.sourceStart⟩])
  let header ← encodePageSnapshotHeader layout counts
  let total ← pageSnapshotEncodedSize layout counts
  let resultPlan ← planPageSnapshot layout header counts (some total)
  let (result, reads) ← writeLayers baseSnapshot.payload stagePlans readTail 0
    (header ++ List.replicate (total - header.length) 0) resultPlan.spans ranges
  require (newest.integrity = .sha256 → sha256 result = digest)
    (.codec "hybrid page delta result checksum mismatch")
  return (⟨result, digest⟩, reads)

end SparkCache.Pages
