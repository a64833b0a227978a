import SparkCache.Lib.Machine

/-!
# Scattering a page snapshot

The validator of a page scatter and the reference copy loop, in the arithmetic of their fixed-width fields.
The loop gives the copies it makes; a source is an offset in the arena.
-/
namespace SparkCache.Placement

/-- An array argument with its count. A null pointer is an empty array; both are refused alike. -/
structure NativeArray (α : Type) where
  items : List α
  fits : items.length < 2 ^ 32

def NativeArray.count {α : Type} (xs : NativeArray α) : BitVec 32 := .ofNat 32 xs.items.length

/-- `SparkCachePageDestinationDescriptor` -/
structure PageDestination where
  destinationBase : BitVec 64
  destinationPages : BitVec 64
  destinationPageStrideBytes : BitVec 32
  bytesPerPage : BitVec 32
  groupIndex : BitVec 32
  flags : BitVec 32
  deriving DecidableEq, Inhabited

/-- `SparkCachePageGroupDescriptor` -/
structure PageGroup where
  firstSlotIndex : BitVec 32
  slotCount : BitVec 32
  flags : BitVec 32
  reserved : BitVec 32
  deriving DecidableEq, Inhabited

/-- `SparkCachePageCopySpan` -/
structure PageCopySpan where
  arenaOffsetBytes : BitVec 64
  snapshotOffsetBytes : BitVec 64
  destinationByteOffset : BitVec 64
  byteCount : BitVec 64
  destinationIndex : BitVec 32
  flags : BitVec 32
  deriving DecidableEq, Inhabited

structure PageScatter where
  arenaUsedBytes : BitVec 64
  snapshotBytes : BitVec 64
  spans : NativeArray PageCopySpan
  destinations : NativeArray PageDestination
  groups : NativeArray PageGroup
  slots : NativeArray (BitVec 32)

/-- `checked_add`, and the failure of its callers -/
def checkedAdd (left right : BitVec 64) (detail : String) : Machine String (BitVec 64) := do
  let room ← Machine.sub (BitVec.allOnes 64) right
  Machine.require (left ≤ room) detail
  Machine.add left right

/-- `checked_mul`, and the failure of its callers -/
def checkedMul (left right : BitVec 64) (detail : String) : Machine String (BitVec 64) := do
  if left = 0 then Machine.mul left right
  else
    let bound ← Machine.div (BitVec.allOnes 64) left
    Machine.require (right ≤ bound) detail
    Machine.mul left right

namespace PageScatter

/-- The slots of a group from an index on. -/
def slotAt (x : PageScatter) (group : PageGroup) (index : BitVec 32) : Machine String (BitVec 32) := do
  let position ← Machine.add group.firstSlotIndex index
  Machine.read x.slots.items position

def validateGroup (x : PageScatter) (group : PageGroup) (expectedFirstSlot : BitVec 64) :
    Machine String (BitVec 64) := do
  let detail := "page groups must cover the flattened slot vector contiguously"
  Machine.require (group.flags = 0 ∧ group.reserved = 0 ∧ group.slotCount ≠ 0 ∧
    group.firstSlotIndex.setWidth 64 = expectedFirstSlot) detail
  let groupSlotEnd ← checkedAdd (group.firstSlotIndex.setWidth 64) (group.slotCount.setWidth 64) detail
  Machine.require (groupSlotEnd ≤ x.slots.count.setWidth 64) detail
  let _ ← Machine.forCount group.slotCount (fun index unique => do
    let slot ← x.slotAt group index
    Machine.require (slot ∉ unique) "physical page slots must be unique within each group"
    return unique ++ [slot]) []
  return groupSlotEnd

/-- The order of the destinations' groups. -/
def nextGroup (index : BitVec 32) (destination : PageDestination) (expectedGroup : BitVec 32) :
    Machine String (BitVec 32) :=
  if index = 0 then pure destination.groupIndex
  else do
    let detail := "page destinations must cover groups contiguously"
    Machine.require (¬destination.groupIndex < expectedGroup) detail
    let following ← Machine.add expectedGroup 1
    Machine.require (¬following < destination.groupIndex) detail
    return destination.groupIndex

def validateDestination (x : PageScatter) (index : BitVec 32) (destination : PageDestination)
    (expectedGroup : BitVec 32) : Machine String (BitVec 32) := do
  Machine.require (destination.flags = 0 ∧ destination.destinationBase ≠ 0 ∧ destination.destinationPages ≠ 0 ∧
      destination.bytesPerPage ≠ 0 ∧ destination.bytesPerPage ≤ destination.destinationPageStrideBytes ∧
      destination.groupIndex < x.groups.count)
    "page destination geometry or flags are invalid"
  let expectedGroup ← nextGroup index destination expectedGroup
  Machine.require (destination.groupIndex = expectedGroup ∧ ¬(index = 0 ∧ destination.groupIndex ≠ 0))
    "page destinations must begin with group zero"
  let group ← Machine.read x.groups.items destination.groupIndex
  Machine.forCount group.slotCount (fun slotIndex _ => do
    let slot ← x.slotAt group slotIndex
    Machine.require (slot.setWidth 64 < destination.destinationPages)
      "physical page slot exceeds destination capacity") ()
  let detail := "page destination address range overflows"
  let before ← Machine.sub destination.destinationPages 1
  let lastPage ← checkedMul before (destination.destinationPageStrideBytes.setWidth 64) detail
  let lastByte ← checkedAdd destination.destinationBase lastPage detail
  let _ ← checkedAdd lastByte (destination.bytesPerPage.setWidth 64) detail
  return expectedGroup

/-- The bytes that every destination has got so far, and the end of the snapshot's part. -/
structure Coverage where
  covered : List (BitVec 64)
  expectedSnapshotOffset : BitVec 64

def validateSpan (x : PageScatter) (span : PageCopySpan) (coverage : Coverage) : Machine String Coverage := do
  Machine.require (span.flags = 0 ∧ span.byteCount ≠ 0 ∧ span.destinationIndex < x.destinations.count ∧
      span.snapshotOffsetBytes = coverage.expectedSnapshotOffset)
    "page copy spans must cover the snapshot contiguously"
  let detail := "page copy span exceeds an arena, snapshot, or destination"
  let arenaEnd ← checkedAdd span.arenaOffsetBytes span.byteCount detail
  Machine.require (arenaEnd ≤ x.arenaUsedBytes) detail
  let snapshotEnd ← checkedAdd span.snapshotOffsetBytes span.byteCount detail
  Machine.require (snapshotEnd ≤ x.snapshotBytes) detail
  let covered ← Machine.read coverage.covered span.destinationIndex
  Machine.require (span.destinationByteOffset = covered) detail
  let destinationEnd ← checkedAdd span.destinationByteOffset span.byteCount detail
  let destination ← Machine.read x.destinations.items span.destinationIndex
  let group ← Machine.read x.groups.items destination.groupIndex
  let logical := "page copy span exceeds destination logical pages"
  let expectedDestinationBytes ← checkedMul (group.slotCount.setWidth 64) (destination.bytesPerPage.setWidth 64) logical
  Machine.require (destinationEnd ≤ expectedDestinationBytes) logical
  let covered ← Machine.write coverage.covered span.destinationIndex destinationEnd
  return ⟨covered, snapshotEnd⟩

def checkCovered (x : PageScatter) (covered : List (BitVec 64)) (index : BitVec 32) (destination : PageDestination) :
    Machine String Unit := do
  let detail := "page spans do not cover every destination byte exactly once"
  let group ← Machine.read x.groups.items destination.groupIndex
  let expectedDestinationBytes ← checkedMul (group.slotCount.setWidth 64) (destination.bytesPerPage.setWidth 64) detail
  let bytes ← Machine.read covered index
  Machine.require (bytes = expectedDestinationBytes) detail

/-- `validate_page_scatter` -/
def validate (x : PageScatter) : Machine String Unit := do
  Machine.require (x.snapshotBytes ≠ 0 ∧ x.spans.items ≠ [] ∧ x.destinations.items ≠ [] ∧ x.groups.items ≠ [] ∧
      x.slots.items ≠ [])
    "page scatter arrays and byte counts must be nonempty"
  let expectedFirstSlot ← Machine.forEach (fun (_ : BitVec 32) group expected => x.validateGroup group expected)
    0 x.groups.items 0
  Machine.require (expectedFirstSlot = x.slots.count.setWidth 64)
    "page groups do not cover the complete flattened slot vector"
  let expectedGroup ← Machine.forEach x.validateDestination 0 x.destinations.items 0
  let groupEnd ← Machine.add expectedGroup 1
  Machine.require (groupEnd = x.groups.count) "every page group must have at least one destination"
  let coverage ← Machine.forEach (fun (_ : BitVec 32) span coverage => x.validateSpan span coverage) 0 x.spans.items
    ⟨List.replicate x.destinations.items.length 0, 0⟩
  Machine.require (coverage.expectedSnapshotOffset = x.snapshotBytes)
    "page copy spans do not cover the complete snapshot"
  Machine.forEach (fun (index : BitVec 32) destination _ => x.checkCovered coverage.covered index destination)
    0 x.destinations.items ()

end PageScatter

/-! ## Copies -/

inductive ScatterError where
  /-- `SPARK_CACHE_PLACEMENT_INVALID_ARGUMENT` with its text -/
  | invalidArgument (message : String)
  /-- The loop is not done. -/
  | unfinished
  deriving DecidableEq, Repr

/-- A `memmove` from the arena to an address, and the destination it is for. -/
structure Copy where
  destinationIndex : BitVec 32
  target : BitVec 64
  source : BitVec 64
  size : BitVec 64
  deriving DecidableEq

/-- The addresses that are written, one after the other. -/
def Copy.addresses (c : Copy) : List ℕ := List.range' c.target.toNat c.size.toNat

/-- The offsets in the arena that are read. -/
def Copy.sources (c : Copy) : List ℕ := List.range' c.source.toNat c.size.toNat

/-- Where the loop is in a span. -/
structure Cursor where
  source : BitVec 64
  logicalByte : BitVec 64
  remaining : BitVec 64

namespace PageScatter

/-- One turn of the loop: the bytes up to the end of a page. -/
def copyPage (x : PageScatter) (index : BitVec 32) (destination : PageDestination) (group : PageGroup)
    (cursor : Cursor) : Machine ScatterError (Copy × Cursor) := do
  let logicalPage ← Machine.div cursor.logicalByte (destination.bytesPerPage.setWidth 64)
  let offset ← Machine.mod cursor.logicalByte (destination.bytesPerPage.setWidth 64)
  let pageOffset ← Machine.narrow 32 offset
  let slotIndex ← Machine.narrow 32 logicalPage
  let position ← Machine.add group.firstSlotIndex slotIndex
  let physicalPage ← Machine.read x.slots.items position
  let pageRemaining ← Machine.sub destination.bytesPerPage pageOffset
  let copied := if pageRemaining.setWidth 64 < cursor.remaining then pageRemaining.setWidth 64 else cursor.remaining
  let pageStart ← Machine.mul (physicalPage.setWidth 64) (destination.destinationPageStrideBytes.setWidth 64)
  let page ← Machine.add destination.destinationBase pageStart
  let target ← Machine.add page (pageOffset.setWidth 64)
  let source ← Machine.add cursor.source copied
  let logicalByte ← Machine.add cursor.logicalByte copied
  let remaining ← Machine.sub cursor.remaining copied
  return (⟨index, target, cursor.source, copied⟩, ⟨source, logicalByte, remaining⟩)

/-- The loop over a span. -/
def copyPages (x : PageScatter) (index : BitVec 32) (destination : PageDestination) (group : PageGroup) :
    ℕ → Cursor → Machine ScatterError (List Copy)
  | 0, cursor => if cursor.remaining = 0 then pure [] else Machine.raise .unfinished
  | fuel + 1, cursor =>
      if cursor.remaining = 0 then pure []
      else do
        let (copy, cursor) ← x.copyPage index destination group cursor
        let copies ← copyPages x index destination group fuel cursor
        return copy :: copies

def copySpan (x : PageScatter) (fuel : ℕ) (span : PageCopySpan) (copies : List Copy) :
    Machine ScatterError (List Copy) := do
  let destination ← Machine.read x.destinations.items span.destinationIndex
  let group ← Machine.read x.groups.items destination.groupIndex
  let more ← x.copyPages span.destinationIndex destination group fuel
    ⟨span.arenaOffsetBytes, span.destinationByteOffset, span.byteCount⟩
  return copies ++ more

/-- `spark_cache_reference_scatter_pages`, with the turns that the loop of a span may take. -/
def referenceScatterPages (x : PageScatter) (fuel : ℕ) (arenaBase : BitVec 64) : Machine ScatterError (List Copy) := do
  Machine.require (arenaBase ≠ 0) (.invalidArgument "page scatter arena pointer is null")
  x.validate.mapError .invalidArgument
  Machine.forEach (fun (_ : BitVec 32) span copies => x.copySpan fuel span copies) 0 x.spans.items []

/-- Where a logical byte of a destination is: in the page that its group names for its logical page. -/
def address (x : PageScatter) (destination : PageDestination) (group : PageGroup) (byte : ℕ) : ℕ :=
  destination.destinationBase.toNat +
    (x.slots.items.getD (group.firstSlotIndex.toNat + byte / destination.bytesPerPage.toNat) 0).toNat *
      destination.destinationPageStrideBytes.toNat + byte % destination.bytesPerPage.toNat

end PageScatter

end SparkCache.Placement
