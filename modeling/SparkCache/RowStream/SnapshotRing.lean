import SparkCache.RowStream.Inventory

/-!
# The ring of snapshot slots

The portable state machine of the slots, and the calls of a snapshot handle over it. A gather that was
submitted completes at any time; no call of the device fails.
-/
namespace SparkCache.RowStream

inductive SlotState where
  | free
  | gpuFilling
  | ready
  | writing
  deriving DecidableEq

inductive NativeStatus where
  | ok
  | invalidArgument
  | invalidState
  | cudaError
  | wouldBlock
  | notReady
  | dropped
  deriving DecidableEq

/-- `Slot` -/
structure Slot where
  state : SlotState
  generation : ℕ
  contextSequence : ℕ
  usedBytes : ℕ
  discard : Bool
  deriving DecidableEq

structure RawTicket where
  generation : ℕ
  slotIndex : ℕ
  deriving DecidableEq

structure RingState where
  slotCount : ℕ
  slots : ℕ → Slot

namespace RingState

/-- The generations of a slot wrap around, past zero. -/
def nextGeneration (generation : ℕ) : ℕ := if (generation + 1) % 2 ^ 64 = 0 then 1 else (generation + 1) % 2 ^ 64

def set (r : RingState) (index : ℕ) (slot : Slot) : RingState := { r with slots := Function.update r.slots index slot }

def reset (r : RingState) (index : ℕ) : RingState :=
  r.set index ⟨.free, (r.slots index).generation, 0, 0, false⟩

def Resolves (r : RingState) (t : RawTicket) : Prop :=
  t.slotIndex < r.slotCount ∧ (r.slots t.slotIndex).state ≠ .free ∧ (r.slots t.slotIndex).generation = t.generation

instance (r : RingState) (t : RawTicket) : Decidable (r.Resolves t) := inferInstanceAs (Decidable (_ ∧ _))

/-- The slot that `reserve` takes. -/
def firstFree (r : RingState) : Option ℕ := (List.range r.slotCount).find? fun index => (r.slots index).state = .free

def reserve (r : RingState) (contextSequence usedBytes : ℕ) : RingState × NativeStatus × Option RawTicket :=
  if ¬(2 ≤ r.slotCount ∧ r.slotCount ≤ 3) ∨ contextSequence = 0 ∨ usedBytes = 0 then (r, .invalidArgument, none)
  else
    match r.firstFree with
    | none => (r, .wouldBlock, none)
    | some index =>
        let generation := nextGeneration (r.slots index).generation
        (r.set index ⟨.gpuFilling, generation, contextSequence, usedBytes, false⟩, .ok, some ⟨generation, index⟩)

def complete (r : RingState) (t : RawTicket) : RingState × NativeStatus :=
  if ¬r.Resolves t then (r, .dropped)
  else if (r.slots t.slotIndex).state ≠ .gpuFilling then (r, .invalidState)
  else if (r.slots t.slotIndex).discard = true then (r.reset t.slotIndex, .dropped)
  else (r.set t.slotIndex { r.slots t.slotIndex with state := .ready }, .ok)

def claim (r : RingState) (t : RawTicket) : RingState × NativeStatus :=
  if ¬r.Resolves t ∨ (r.slots t.slotIndex).discard = true then (r, .dropped)
  else
    match (r.slots t.slotIndex).state with
    | .gpuFilling => (r, .notReady)
    | .ready => (r.set t.slotIndex { r.slots t.slotIndex with state := .writing }, .ok)
    | _ => (r, .invalidState)

def release (r : RingState) (t : RawTicket) : RingState × NativeStatus :=
  if ¬r.Resolves t then (r, .dropped)
  else
    match (r.slots t.slotIndex).state with
    | .ready | .writing => (r.reset t.slotIndex, .ok)
    | _ => (r, .invalidState)

/-- What `abandon` makes of a slot. -/
def abandonSlot (contextSequence : ℕ) (slot : Slot) : Slot :=
  if slot.state = .free ∨ slot.contextSequence ≠ contextSequence then slot
  else
    match slot.state with
    | .ready => ⟨.free, slot.generation, 0, 0, false⟩
    | _ => { slot with discard := true }

def abandon (r : RingState) (contextSequence : ℕ) : RingState :=
  { r with slots := fun index => if index < r.slotCount then abandonSlot contextSequence (r.slots index) else r.slots index }

def reapDiscarded (r : RingState) (index : ℕ) : RingState × NativeStatus :=
  if r.slotCount ≤ index then (r, .invalidArgument)
  else
    match (r.slots index).state with
    | .free => (r, .dropped)
    | .gpuFilling => if (r.slots index).discard = true then (r.reset index, .ok) else (r, .invalidState)
    | _ => (r, .invalidState)

end RingState

/-- `RawReadyView`; the payload is as long as the used bytes say. -/
structure RawReadyView where
  capacityBytes : ℕ
  usedBytes : ℕ
  contextSequence : ℕ
  logicalStart : ℕ
  generation : ℕ
  rowCount : ℕ
  slotIndex : ℕ
  recordMask : ℕ
  state : SlotState
  recordOffsets : List ℕ
  recordLengths : List ℕ
  deriving DecidableEq

/-- The sources and the sizes of a configured handle. -/
structure HandleConfig where
  slotBytes : ℕ
  slotCount : ℕ
  maxRows : ℕ
  sources : List SnapshotSource

/-- The state of a snapshot handle: its ring, and for every slot the view of its gather, whether the gather
is complete, and which submission it is. -/
structure SnapshotHandle where
  ring : RingState
  views : ℕ → RawReadyView
  complete : ℕ → Bool
  submission : ℕ → ℕ

structure Submission where
  contextSequence : ℕ
  logicalStart : ℕ
  rowCount : ℕ
  physicalSlots : List ℕ
  deriving DecidableEq

/-- The values of a layout for each record kind. -/
def perKind (values : ℕ → ℕ) : List ℕ := (List.range maxRecordKinds).map values

namespace SnapshotHandle

def new (config : HandleConfig) : SnapshotHandle where
  ring := ⟨config.slotCount, fun _ => ⟨.free, 0, 0, 0, false⟩⟩
  views := fun _ => ⟨0, 0, 0, 0, 0, 0, 0, 0, .free, [], []⟩
  complete := fun _ => false
  submission := fun _ => 0

/-- One slot of `reap_abandoned_locked` -/
def reap (h : SnapshotHandle) (index : ℕ) : SnapshotHandle :=
  if (h.ring.slots index).state = .gpuFilling ∧ (h.ring.slots index).discard = true ∧ h.complete index = true then
    { h with ring := (h.ring.reapDiscarded index).1 }
  else h

/-- `reap_abandoned_locked` -/
def reapAbandoned (h : SnapshotHandle) (skip : Option ℕ) : SnapshotHandle :=
  ((List.range h.ring.slotCount).filter fun index => some index ≠ skip).foldl reap h

/-- The slot of a new submission: its gather is not complete. -/
def enqueue (h : SnapshotHandle) (ring : RingState) (index submission : ℕ) (view : RawReadyView) : SnapshotHandle where
  ring := ring
  views := Function.update h.views index view
  complete := Function.update h.complete index false
  submission := Function.update h.submission index submission

/-- `spark_cache_snapshot_try_submit` -/
def trySubmit (config : HandleConfig) (h : SnapshotHandle) (s : Submission) (submission : ℕ) :
    SnapshotHandle × NativeStatus × Option RawTicket :=
  let h := h.reapAbandoned none
  if config.sources = [] ∨ s.contextSequence = 0 ∨ s.rowCount = 0 ∨ config.maxRows < s.rowCount then
    (h, .invalidArgument, none)
  else
    match calculatePayloadLayout config.sources s.rowCount config.slotBytes with
    | .error _ => (h, .dropped, none)
    | .ok layout =>
        if ¬∀ slot ∈ s.physicalSlots, ∀ source ∈ config.sources, slot < source.sourceRows then
          (h, .invalidArgument, none)
        else
          match h.ring.reserve s.contextSequence layout.usedBytes with
          | (ring, .ok, some ticket) =>
              let view : RawReadyView :=
                { capacityBytes := config.slotBytes
                  usedBytes := layout.usedBytes
                  contextSequence := s.contextSequence
                  logicalStart := s.logicalStart
                  generation := ticket.generation
                  rowCount := s.rowCount
                  slotIndex := ticket.slotIndex
                  recordMask := layout.recordMask
                  state := .gpuFilling
                  recordOffsets := perKind layout.recordOffset
                  recordLengths := perKind layout.recordLength }
              (h.enqueue ring ticket.slotIndex submission view, .ok, some ticket)
          | (ring, status, ticket) => ({ h with ring := ring }, status, ticket)

/-- `fill_view_state` -/
def viewOf (h : SnapshotHandle) (index : ℕ) : RawReadyView :=
  { h.views index with state := (h.ring.slots index).state }

/-- `poll_locked` -/
def poll (h : SnapshotHandle) (t : RawTicket) : SnapshotHandle × NativeStatus × Option RawReadyView :=
  let h := h.reapAbandoned (some t.slotIndex)
  if ¬h.ring.Resolves t then (h, .dropped, none)
  else if (h.ring.slots t.slotIndex).state = .gpuFilling then
    if h.complete t.slotIndex = false then (h, .notReady, none)
    else
      match h.ring.complete t with
      | (ring, .ok) => ({ h with ring := ring }, .ok, some (viewOf { h with ring := ring } t.slotIndex))
      | (ring, status) => ({ h with ring := ring }, status, none)
  else (h, .ok, some (h.viewOf t.slotIndex))

/-- `spark_cache_snapshot_claim` -/
def claim (h : SnapshotHandle) (t : RawTicket) : SnapshotHandle × NativeStatus × Option RawReadyView :=
  match h.poll t with
  | (h, .ok, _) =>
      match h.ring.claim t with
      | (ring, .ok) => ({ h with ring := ring }, .ok, some (viewOf { h with ring := ring } t.slotIndex))
      | (ring, status) => ({ h with ring := ring }, status, none)
  | (h, status, _) => (h, status, none)

/-- `spark_cache_snapshot_release` -/
def release (h : SnapshotHandle) (t : RawTicket) : SnapshotHandle × NativeStatus :=
  ({ h with ring := (h.ring.release t).1 }, (h.ring.release t).2)

/-- `spark_cache_snapshot_abandon_context` -/
def abandonContext (h : SnapshotHandle) (contextSequence : ℕ) : SnapshotHandle × NativeStatus :=
  if contextSequence = 0 then (h, .invalidArgument)
  else (reapAbandoned { h with ring := h.ring.abandon contextSequence } none, .ok)

end SnapshotHandle
end SparkCache.RowStream
