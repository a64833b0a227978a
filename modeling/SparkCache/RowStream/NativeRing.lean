import SparkCache.Lib.Dictionary
import SparkCache.Lib.Run
import SparkCache.RowStream.SnapshotRing

/-!
# The owner of a snapshot ring

`NativeSnapshotRing` keeps a phase for every ticket that it has handed out, and checks every view
against the ticket and against its own layout of the configured sources.
-/
namespace SparkCache.RowStream
open Store
open Pages (bind_eq_ok)

/-- `NativeRingConfig` -/
structure NativeRingConfig where
  slotBytes : ℕ
  slotCount : ℕ
  maxSources : ℕ
  maxRows : ℕ
  slots : slotCount = 2 ∨ slotCount = 3
  positive : 0 < slotBytes ∧ 0 < maxSources ∧ 0 < maxRows
  bounded : slotBytes ≤ uint64Max ∧ maxSources ≤ uint32Max ∧ maxRows ≤ uint32Max

/-- The loop of `_validate_source_inventory`. -/
def validateOrdinals : (ℕ → List ℕ) → List SnapshotSource → Except StoreError Unit
  | _, [] => .ok ()
  | seen, s :: rest => do
      require (s.sourceLayerOrdinal = (seen s.recordKind).length)
        (.value "source layer ordinals must be dense and ordered per record kind")
      require (∀ width ∈ (seen s.recordKind).head?, width = s.bytesPerToken)
        (.value "sources of one record kind must share bytes_per_token")
      validateOrdinals (Function.update seen s.recordKind (seen s.recordKind ++ [s.bytesPerToken])) rest

/-- `_validate_source_inventory` -/
def validateSourceInventory (config : NativeRingConfig) (inventory : List SnapshotSource) : Except StoreError Unit := do
  require (inventory ≠ []) (.value "snapshot source inventory must not be empty")
  require (inventory.length ≤ config.maxSources) (.value "snapshot source inventory exceeds max_sources")
  validateOrdinals (fun _ => []) inventory

/-- An inventory of checked sources that `configure_sources` accepts. -/
structure SourceInventory (config : NativeRingConfig) where
  sources : List SnapshotSource
  checked : ∀ s ∈ sources, s.check = .ok ()
  accepted : validateSourceInventory config sources = .ok ()

/-- The handle is created and configured with the same values. -/
def SourceInventory.handle {config : NativeRingConfig} (inventory : SourceInventory config) : HandleConfig :=
  ⟨config.slotBytes, config.slotCount, config.maxRows, inventory.sources⟩

/-- `_expected_record_mask` -/
def expectedRecordMask (sources : List SnapshotSource) : ℕ :=
  ∑ kind ∈ (sources.map SnapshotSource.recordKind).toFinset, 1 <<< kind

/-- The layout of one record kind, in `_layout_for_rows`. -/
def layOutKind (widths : List (ℕ × ℕ)) (rowCount : ℕ) (layout : (ℕ → ℕ) × (ℕ → ℕ) × ℕ) (kind : ℕ) :
    (ℕ → ℕ) × (ℕ → ℕ) × ℕ :=
  if layerCount widths kind = 0 then layout
  else
    let cursor := (layout.2.2 + 63) / 64 * 64
    let length := rowCount * layerWidth widths kind * layerCount widths kind
    (Function.update layout.1 kind cursor, Function.update layout.2.1 kind length, cursor + length)

/-- `_layout_for_rows`, without the check that it ends within the slot -/
def layoutForRows (sources : List SnapshotSource) (rowCount : ℕ) : (ℕ → ℕ) × (ℕ → ℕ) × ℕ :=
  (List.range maxRecordKinds).foldl (layOutKind (sourceWidths sources) rowCount) (fun _ => 0, fun _ => 0, 0)

/-- `_TicketPhase` -/
inductive TicketPhase where
  | submitted
  | ready
  | claimed
  | abandonedSubmitted
  | abandonedClaimed
  deriving DecidableEq

/-- A ticket is one object; two of them are different even when their values are the same. -/
structure SnapshotTicket where
  generation : ℕ
  slotIndex : ℕ
  contextSequence : ℕ
  logicalStart : ℕ
  rowCount : ℕ
  identity : ℕ
  deriving DecidableEq

def SnapshotTicket.raw (t : SnapshotTicket) : RawTicket := ⟨t.generation, t.slotIndex⟩

def SnapshotTicket.key (t : SnapshotTicket) : ℕ × ℕ := (t.slotIndex, t.generation)

/-- `_OwnedTicket`, with the view that is valid. -/
structure OwnedTicket where
  ticket : SnapshotTicket
  phase : TicketPhase
  view : Option RawReadyView
  deriving DecidableEq

inductive RingError where
  | value (message : String)
  | state (message : String)
  | status (operation : String) (status : NativeStatus)
  deriving DecidableEq

/-- The wrapper over a handle that is configured. Tickets that are no longer tracked are recorded. -/
structure NativeSnapshotRing where
  handle : SnapshotHandle
  tickets : Dictionary (ℕ × ℕ) OwnedTicket
  poisoned : Option RingError
  issued : ℕ
  retired : List SnapshotTicket

namespace NativeSnapshotRing

/-- What a call returns, and the ring after it. -/
abbrev Result (α : Type) := NativeSnapshotRing × Except RingError α

variable {config : NativeRingConfig}

def new (inventory : SourceInventory config) : NativeSnapshotRing := ⟨.new inventory.handle, ∅, none, 0, []⟩

/-- `_poison` -/
def poison {α : Type} (r : NativeSnapshotRing) (error : RingError) : Result α :=
  ({ r with poisoned := some error }, .error error)

/-- `_retire` -/
def retire (r : NativeSnapshotRing) (owned : OwnedTicket) : NativeSnapshotRing :=
  { r with
    tickets := r.tickets.erase owned.ticket.key
    retired := r.retired ++ [owned.ticket] }

def update (r : NativeSnapshotRing) (owned : OwnedTicket) : NativeSnapshotRing :=
  { r with tickets := r.tickets.insert owned.ticket.key owned }

/-- `_require_usable` -/
def usable (r : NativeSnapshotRing) : Except RingError Unit :=
  if r.poisoned = none then .ok () else .error (.state "snapshot ring is poisoned")

/-- `_require_ticket` -/
def requireTicket (r : NativeSnapshotRing) (t : SnapshotTicket) : Except RingError OwnedTicket := do
  r.usable
  match r.tickets.lookup t.key with
  | some owned =>
      if owned.ticket = t then return owned else .error (.state "snapshot ticket is stale or already released")
  | none => .error (.state "snapshot ticket is stale or already released")

/-- `_validate_submission` -/
def validateSubmission (config : NativeRingConfig) (contextSequence logicalStart : ℤ) (physicalSlots : List ℤ)
    (producerStream : ℤ) : Except RingError Unit :=
  if ¬(1 ≤ contextSequence ∧ contextSequence ≤ uint64Max) then .error (.value "context_sequence must be a nonzero uint64")
  else if ¬(0 ≤ logicalStart ∧ logicalStart ≤ uint64Max) then .error (.value "logical_start must be a uint64")
  else if ¬(0 ≤ producerStream ∧ producerStream ≤ uint64Max) then .error (.value "producer_stream must be a uint64")
  else if physicalSlots = [] ∨ config.maxRows < physicalSlots.length then
    .error (.value "physical_slots must contain 1..max_rows entries")
  else if ¬∀ slot ∈ physicalSlots, 0 ≤ slot ∧ slot ≤ uint32Max then .error (.value "physical slots must be uint32 values")
  else .ok ()

def submissionOf (contextSequence logicalStart : ℤ) (physicalSlots : List ℤ) : Submission :=
  ⟨contextSequence.toNat, logicalStart.toNat, physicalSlots.length, physicalSlots.map Int.toNat⟩

/-- `submit` -/
def submit (inventory : SourceInventory config) (r : NativeSnapshotRing) (contextSequence logicalStart : ℤ)
    (physicalSlots : List ℤ) (producerStream : ℤ) : Result (Option SnapshotTicket) :=
  match validateSubmission config contextSequence logicalStart physicalSlots producerStream with
  | .error error => (r, .error error)
  | .ok () =>
      match r.usable with
      | .error error => (r, .error error)
      | .ok () =>
          let s := submissionOf contextSequence logicalStart physicalSlots
          match r.handle.trySubmit inventory.handle s r.issued with
          | (handle, status, raw) =>
              let r := { r with handle := handle }
              match status, raw with
              | .wouldBlock, none | .dropped, none => (r, .ok none)
              | .wouldBlock, some _ | .dropped, some _ =>
                  r.poison (.state "C++/CUDA submit returned a ticket for a dropped submission")
              | .ok, none => r.poison (.state "C++/CUDA submit returned OK without a ticket")
              | .ok, some raw =>
                  if raw.generation = 0 ∨ config.slotCount ≤ raw.slotIndex then
                    r.poison (.state "C++/CUDA submit returned an invalid generation ticket")
                  else if r.tickets.lookup (raw.slotIndex, raw.generation) ≠ none then
                    r.poison (.state "C++/CUDA submit reused an active generation ticket")
                  else
                    let ticket : SnapshotTicket :=
                      ⟨raw.generation, raw.slotIndex, s.contextSequence, s.logicalStart, s.rowCount, r.issued⟩
                    ({ r.update ⟨ticket, .submitted, none⟩ with issued := r.issued + 1 }, .ok (some ticket))
              | status, _ => r.poison (.status "submit" status)

/-- `_validated_view`: what it finds wrong with a view. -/
def viewError (inventory : SourceInventory config) (ticket : SnapshotTicket) (raw : RawReadyView)
    (expectedState : SlotState) : Option RingError :=
  let layout := layoutForRows inventory.sources ticket.rowCount
  if raw.generation ≠ ticket.generation ∨ raw.slotIndex ≠ ticket.slotIndex ∨
      raw.contextSequence ≠ ticket.contextSequence ∨ raw.logicalStart ≠ ticket.logicalStart ∨
      raw.rowCount ≠ ticket.rowCount then
    some (.state "C++/CUDA READY view disagrees with its generation ticket")
  else if raw.state ≠ expectedState then some (.state "C++/CUDA READY view has an unexpected ownership state")
  else if raw.capacityBytes ≠ config.slotBytes ∨ raw.usedBytes = 0 ∨ raw.capacityBytes < raw.usedBytes ∨
      raw.recordMask ≠ expectedRecordMask inventory.sources ∨ raw.recordOffsets.length ≠ maxRecordKinds ∨
      raw.recordLengths.length ≠ maxRecordKinds then
    some (.state "C++/CUDA READY view has invalid capacity or record metadata")
  else if config.slotBytes < layout.2.2 then
    some (.state "configured sources exceed the arena slot for this submission")
  else if raw.recordOffsets ≠ perKind layout.1 ∨ raw.recordLengths ≠ perKind layout.2.1 ∨
      raw.usedBytes ≠ layout.2.2 then
    some (.state "C++/CUDA READY view disagrees with the configured source layout")
  else none

/-- A view is checked, and the ticket enters a phase with it. -/
def accept (inventory : SourceInventory config) (r : NativeSnapshotRing) (owned : OwnedTicket)
    (raw : Option RawReadyView) (expectedState : SlotState) (phase : TicketPhase) : Result (Option RawReadyView) :=
  match raw with
  | none => r.poison (.state "C++/CUDA READY status omitted its view")
  | some view =>
      match viewError inventory owned.ticket view expectedState with
      | some error => r.poison error
      | none => (r.update { owned with phase := phase, view := some view }, .ok (some view))

def droppedError : RingError := .state "C++/CUDA ring dropped a locally active generation ticket"

/-- `poll` -/
def poll (inventory : SourceInventory config) (r : NativeSnapshotRing) (t : SnapshotTicket) :
    Result (Option RawReadyView) :=
  match r.requireTicket t with
  | .error error => (r, .error error)
  | .ok owned =>
      if owned.phase = .ready then (r, .ok owned.view)
      else if owned.phase = .claimed then (r, .error (.state "claimed snapshot tickets are not pollable"))
      else
        match r.handle.poll owned.ticket.raw with
        | (handle, status, view) =>
            let r := { r with handle := handle }
            match status with
            | .notReady => (r, .ok none)
            | .dropped =>
                if owned.phase = .abandonedSubmitted then (r.retire owned, .ok none) else r.poison droppedError
            | .ok =>
                if owned.phase = .abandonedSubmitted then
                  r.poison (.state "abandoned C++/CUDA ticket unexpectedly became READY")
                else r.accept inventory owned view .ready .ready
            | status => r.poison (.status "poll" status)

/-- `claim` -/
def claim (inventory : SourceInventory config) (r : NativeSnapshotRing) (t : SnapshotTicket) :
    Result (Option RawReadyView) :=
  match r.requireTicket t with
  | .error error => (r, .error error)
  | .ok owned =>
      if owned.phase = .abandonedSubmitted ∨ owned.phase = .abandonedClaimed then
        (r, .error (.state "abandoned snapshot tickets cannot be claimed"))
      else if owned.phase = .claimed then (r, .ok owned.view)
      else
        match r.handle.claim owned.ticket.raw with
        | (handle, status, view) =>
            let r := { r with handle := handle }
            match status with
            | .notReady => (r, .ok none)
            | .dropped => r.poison droppedError
            | .ok => r.accept inventory owned view .writing .claimed
            | status => r.poison (.status "claim" status)

/-- `release` -/
def release (r : NativeSnapshotRing) (t : SnapshotTicket) : Result Unit :=
  match r.requireTicket t with
  | .error error => (r, .error error)
  | .ok owned =>
      if owned.phase ≠ .ready ∧ owned.phase ≠ .claimed ∧ owned.phase ≠ .abandonedClaimed then
        (r, .error (.state "only READY or claimed snapshot tickets can be released"))
      else
        match r.handle.release owned.ticket.raw with
        | (handle, .ok) => (retire { r with handle := handle } owned, .ok ())
        | (handle, status) => poison { r with handle := handle } (.status "release" status)

/-- What `abandon` does with a ticket of the context. -/
def abandonTicket (contextSequence : ℕ) (r : NativeSnapshotRing) (owned : OwnedTicket) : NativeSnapshotRing :=
  if owned.ticket.contextSequence ≠ contextSequence then r
  else
    match owned.phase with
    | .submitted => r.update { owned with phase := .abandonedSubmitted }
    | .ready => r.retire owned
    | .claimed => r.update { owned with phase := .abandonedClaimed }
    | _ => r

/-- `abandon` -/
def abandon (r : NativeSnapshotRing) (contextSequence : ℤ) : Result Unit :=
  if ¬(1 ≤ contextSequence ∧ contextSequence ≤ uint64Max) then
    (r, .error (.value "context_sequence must be a nonzero uint64"))
  else
    match r.usable with
    | .error error => (r, .error error)
    | .ok () =>
        match r.handle.abandonContext contextSequence.toNat with
        | (handle, .ok) =>
            ((r.tickets.entries.reverse.map (·.2)).foldl (abandonTicket contextSequence.toNat) { r with handle := handle },
              .ok ())
        | (handle, status) => poison { r with handle := handle } (.status "abandon_context" status)

/-- The calls of the owner, and what happens on the device: a gather completes, and a slot whose gather is
complete is settled before the next call that would do so. -/
inductive RingAction where
  | submit (contextSequence logicalStart : ℤ) (physicalSlots : List ℤ) (producerStream : ℤ)
  | poll (ticket : SnapshotTicket)
  | claim (ticket : SnapshotTicket)
  | release (ticket : SnapshotTicket)
  | abandon (contextSequence : ℤ)
  | gathered (index : ℕ)
  | reaped (index : ℕ)
  | completed (index : ℕ)

def step (inventory : SourceInventory config) (r : NativeSnapshotRing) : RingAction → NativeSnapshotRing
  | .submit contextSequence logicalStart physicalSlots producerStream =>
      (r.submit inventory contextSequence logicalStart physicalSlots producerStream).1
  | .poll ticket => (r.poll inventory ticket).1
  | .claim ticket => (r.claim inventory ticket).1
  | .release ticket => (r.release ticket).1
  | .abandon contextSequence => (r.abandon contextSequence).1
  | .gathered index => { r with handle := { r.handle with complete := Function.update r.handle.complete index true } }
  | .reaped index => { r with handle := r.handle.reap index }
  | .completed index =>
      if r.handle.complete index = true then
        { r with handle := { r.handle with
          ring := (r.handle.ring.complete ⟨(r.handle.ring.slots index).generation, index⟩).1 } }
      else r

end NativeSnapshotRing
end SparkCache.RowStream
