import SparkCache.Maintenance.Inventory

/-!
# A maintenance pass

Roots that are invalid, expired or, under capacity pressure, least recently
used are selected while the bytes that stay are projected; then files are
removed, roots before the objects that only they referred to.
-/
namespace SparkCache.Maintenance

structure CapacityPolicy where
  maxBytes : ℕ
  lowWatermarkBytes : ℕ
  ttlSeconds : ℕ
  maintenanceMaxDeletions : ℕ
  maintenanceIntervalMs : ℕ
  bounded : if maxBytes = 0 then lowWatermarkBytes = 0
    else 0 < lowWatermarkBytes ∧ lowWatermarkBytes ≤ maxBytes

def CapacityPolicy.enabled (policy : CapacityPolicy) : Bool :=
  decide (0 < policy.maxBytes ∨ 0 < policy.ttlSeconds)

structure MaintenanceReport where
  bytesBefore : ℕ := 0
  bytesAfter : ℕ := 0
  bytesReclaimed : ℕ := 0
  manifestsEvicted : ℕ := 0
  chunksDeleted : ℕ := 0
  orphanChunksDeleted : ℕ := 0
  evictedEntries : List EntryKey := []
  capacitySatisfied : Bool := true
  skippedBusy : Bool := false
  skippedCooldown : Bool := false
  deletionAttempts : ℕ := 0
  workPending : Bool := false
  aliasesEvicted : ℕ := 0
  segmentsDeleted : ℕ := 0
  orphanSegmentsDeleted : ℕ := 0
  survivingEntries : Option (List EntryKey) := none

/-- What a store remembers between passes. -/
structure Memory where
  pressureTarget : Option (ℕ × ℕ)
  /-- The monotonic clock before which no pass starts. -/
  notBefore : ℚ

/-- What a call of `unlink` does. -/
inductive Unlink where
  | done
  /-- `FileNotFoundError` -/
  | missing
  /-- Another `OSError` -/
  | failed
  deriving DecidableEq

/-- The surroundings of a pass: the lock, the clocks and the file system. -/
structure Surroundings where
  busy : Bool
  started : ℚ
  finished : ℚ
  nowNs : ℤ
  unlink : Path → Unlink
  /-- `_fsync_directory` of the parent of a path does not raise. -/
  fsync : Path → Bool

/-! ## Selection -/

/-- Of two roots, the first one was used less recently; ties go by path. -/
abbrev OlderUse (a b : CapacityEntry) : Prop :=
  toLex (a.mtimeNs, a.path.text) ≤ toLex (b.mtimeNs, b.path.text)

def ordered (entries : List CapacityEntry) : List CapacityEntry := entries.insertionSort OlderUse

structure Selection where
  projectedBytes : ℤ
  projectedReferences : Str → ℤ
  projectedSegmentReferences : Str × Str → ℤ
  selected : List CapacityEntry
  workPending : Bool

/-- What a selection looks at and does not change. -/
structure SelectionContext where
  maxDeletions : ℕ
  protectedEntries : List EntryKey
  orphanDebt : Bool
  segments : Objects (Str × Str)
  chunks : Objects Str

/-- An entry is added, and what it alone referred to is no longer projected. -/
def Selection.add (context : SelectionContext) (entry : CapacityEntry) (s : Selection) : Selection :=
  let (references, projected) := References.release context.chunks.size entry.chunkReferences
    s.projectedReferences (s.projectedBytes - entry.manifestBytes)
  let (segmentReferences, projected) := References.release context.segments.size
    entry.segmentReferences s.projectedSegmentReferences projected
  { projectedBytes := projected
    projectedReferences := references
    projectedSegmentReferences := segmentReferences
    selected := s.selected ++ [entry]
    workPending := s.workPending }

/-- The entry is selected already, or a protected valid one. -/
def exempt (context : SelectionContext) (s : Selection) (entry : CapacityEntry) : Prop :=
  entry.path ∈ s.selected.map CapacityEntry.path ∨
    entry.valid = true ∧ entry.key ∈ context.protectedEntries

instance (context : SelectionContext) (s : Selection) (entry : CapacityEntry) :
    Decidable (exempt context s entry) :=
  inferInstanceAs (Decidable (_ ∨ _ ∧ _))

def select (context : SelectionContext) (s : Selection) (entry : CapacityEntry) : Selection :=
  if exempt context s entry then s
  else if 0 < context.maxDeletions ∧ context.orphanDebt = true then { s with workPending := true }
  else if 0 < context.maxDeletions ∧ context.maxDeletions ≤ s.selected.length then
    { s with workPending := true }
  else s.add context entry

def expired (policy : CapacityPolicy) (nowNs : ℤ) (entry : CapacityEntry) : Bool :=
  decide (0 < policy.ttlSeconds ∧ policy.ttlSeconds * 10 ^ 9 ≤ nowNs - entry.mtimeNs)

/-- Entries are selected in order as long as more than the low watermark is projected. -/
def selectForCapacity (context : SelectionContext) (lowWatermarkBytes : ℕ) :
    Selection → List CapacityEntry → Selection
  | s, [] => s
  | s, entry :: rest =>
      let s := select context s entry
      if s.projectedBytes ≤ lowWatermarkBytes then s
      else selectForCapacity context lowWatermarkBytes s rest

def selectEntries (context : SelectionContext) (policy : CapacityPolicy) (nowNs : ℤ)
    (pressureTriggered : Bool) (entries : List CapacityEntry) (s : Selection) : Selection :=
  let s := ((ordered entries).filter fun entry =>
    !entry.valid || expired policy nowNs entry).foldl (select context) s
  if pressureTriggered = true ∧ policy.lowWatermarkBytes < s.projectedBytes then
    selectForCapacity context policy.lowWatermarkBytes s (ordered entries)
  else s

/-! ## Removal -/

structure Removal where
  files : Files
  deletionAttempts : ℕ
  workPending : Bool

/-- The files of some paths are removed as far as the budget admits; the second component lists the
paths that count as removed, a file that is missing with roots only. -/
def unlinkAll (maxDeletions : ℕ) (unlink : Path → Unlink) (missingCounts : Bool) :
    List Path → Removal → Removal × List Path
  | [], r => (r, [])
  | path :: rest, r =>
      if 0 < maxDeletions ∧ maxDeletions ≤ r.deletionAttempts then
        unlinkAll maxDeletions unlink missingCounts rest { r with workPending := true }
      else
        let attempts := r.deletionAttempts + 1
        match unlink path with
        | .done =>
            let (r, removed) := unlinkAll maxDeletions unlink missingCounts rest
              ⟨r.files.erase path, attempts, r.workPending⟩
            (r, path :: removed)
        | .missing =>
            let (r, removed) := unlinkAll maxDeletions unlink missingCounts rest
              ⟨r.files.erase path, attempts, r.workPending⟩
            (r, if missingCounts then path :: removed else removed)
        | .failed =>
            unlinkAll maxDeletions unlink missingCounts rest ⟨r.files, attempts, r.workPending⟩

/-- The objects that no remaining root refers to are removed. -/
def Objects.removeUnreferenced {ν : Type} [DecidableEq ν] (objects : Objects ν) (counts : ν → ℤ)
    (maxDeletions : ℕ) (unlink : Path → Unlink) (r : Removal) : Removal × List Path :=
  unlinkAll maxDeletions unlink false
    ((objects.sizes.map Prod.fst).filter fun path => !objects.retained counts path) r

/-- The sizes of some listed paths. -/
def sizesOf (sizes : List (Path × ℕ)) (paths : List Path) : ℕ :=
  (paths.map fun path => (sizes.lookup path).getD 0).sum

/-! ## The pass -/

/-- The keys of the entries that can be offered after the pass: an exact root shadows an alias, and
the chunks have their declared sizes. -/
def survivingEntries (files : Files) (remaining : List CapacityEntry) : List EntryKey :=
  let exactKeys := (remaining.filter fun entry => decide (entry.key.rootKind = .manifest)).map
    fun entry => (entry.key.storageKey, entry.key.contextDigest)
  (remaining.filter fun entry => entry.valid &&
      (decide (entry.key.rootKind = .manifest) ||
        decide ((entry.key.storageKey, entry.key.contextDigest) ∉ exactKeys)) &&
      entry.chunks.all fun chunk => decide (chunkLogicalSize files chunk.1 = some chunk.2)).map
    CapacityEntry.key

/-- What a pass finds before it removes anything. -/
structure Inventory where
  entries : List CapacityEntry
  debris : List (Path × ℕ)
  segments : Objects (Str × Str)
  chunks : Objects Str

def takeInventory (read : Reader) (files : Files) : Inventory :=
  ⟨capacityEntries read files, rootDebris files, segmentObjects files, chunkObjects files⟩

namespace Inventory
variable (inventory : Inventory)

def references : Str → ℤ :=
  References.count (inventory.entries.flatMap CapacityEntry.chunkReferences)

def segmentReferences : Str × Str → ℤ :=
  References.count (inventory.entries.flatMap CapacityEntry.segmentReferences)

def bytesBefore : ℕ :=
  (inventory.entries.map CapacityEntry.manifestBytes).sum + (inventory.debris.map Prod.snd).sum +
    inventory.segments.bytes + inventory.chunks.bytes

def projectedBytes : ℤ :=
  inventory.bytesBefore - ((inventory.debris.map Prod.snd).sum : ℕ) -
    inventory.segments.orphanBytes inventory.segmentReferences -
    inventory.chunks.orphanBytes inventory.references

def orphanDebt : Bool :=
  !inventory.debris.isEmpty ||
    (inventory.segments.sizes.any fun e => inventory.segments.orphan inventory.segmentReferences e.1) ||
    inventory.chunks.sizes.any fun e => inventory.chunks.orphan inventory.references e.1

/-- The maximum is exceeded, or an earlier pass with a budget began to bring the bytes down. -/
def pressureTriggered (policy : CapacityPolicy) (memory : Memory) : Bool :=
  decide (0 < policy.maxBytes ∧ (policy.maxBytes < inventory.bytesBefore ∨
    0 < policy.maintenanceMaxDeletions ∧
      memory.pressureTarget = some (policy.maxBytes, policy.lowWatermarkBytes) ∧
      policy.lowWatermarkBytes < inventory.bytesBefore))

def selection (policy : CapacityPolicy) (protectedEntries : List EntryKey) (nowNs : ℤ)
    (memory : Memory) : Selection :=
  selectEntries ⟨policy.maintenanceMaxDeletions, protectedEntries, inventory.orphanDebt,
      inventory.segments, inventory.chunks⟩ policy nowNs (inventory.pressureTriggered policy memory)
    inventory.entries
    ⟨inventory.projectedBytes, inventory.references, inventory.segmentReferences, [], false⟩

/-- The entries whose files were not removed. -/
def remaining (rootsRemoved : List Path) : List CapacityEntry :=
  inventory.entries.filter fun entry => decide (entry.path ∉ rootsRemoved)

end Inventory

/-- The removals of a pass, and the paths that each of them counts. -/
structure Removed where
  removal : Removal
  debris : List Path
  roots : List Path
  segments : List Path
  chunks : List Path

/-- Root removals are durable before the objects that they authorized are collected. Nothing comes
after a directory that cannot be made durable. -/
def removeSelected (inventory : Inventory) (selection : Selection) (maxDeletions : ℕ)
    (around : Surroundings) (files : Files) : Option Removed × Files :=
  let (r, debris) := unlinkAll maxDeletions around.unlink true (inventory.debris.map Prod.fst)
    ⟨files, 0, selection.workPending⟩
  let (r, roots) := unlinkAll maxDeletions around.unlink true
    (selection.selected.map CapacityEntry.path) r
  if (debris ++ roots).all around.fsync = false then (none, r.files) else
  let remaining := inventory.remaining roots
  let (r, segments) := inventory.segments.removeUnreferenced
    (References.count (remaining.flatMap CapacityEntry.segmentReferences)) maxDeletions around.unlink r
  if segments.all around.fsync = false then (none, r.files) else
  let (r, chunks) := inventory.chunks.removeUnreferenced
    (References.count (remaining.flatMap CapacityEntry.chunkReferences)) maxDeletions around.unlink r
  if chunks.all around.fsync = false then (none, r.files) else
  (some ⟨r, debris, roots, segments, chunks⟩, r.files)

def Removed.bytesAfter (inventory : Inventory) (selection : Selection) (removed : Removed) : ℕ :=
  inventory.bytesBefore - sizesOf inventory.debris removed.debris -
    ((selection.selected.filter fun entry => decide (entry.path ∈ removed.roots)).map
      CapacityEntry.manifestBytes).sum -
    sizesOf inventory.segments.sizes removed.segments - sizesOf inventory.chunks.sizes removed.chunks

/-- The part of `maintain` under the exclusive lock. -/
def maintainLocked (read : Reader) (policy : CapacityPolicy) (protectedEntries : List EntryKey)
    (around : Surroundings) (memory : Memory) (files : Files) :
    Option MaintenanceReport × Files × Memory :=
  let inventory := takeInventory read files
  let pressureTriggered := inventory.pressureTriggered policy memory
  let selection := inventory.selection policy protectedEntries around.nowNs memory
  let target := some (policy.maxBytes, policy.lowWatermarkBytes)
  let bounded := decide (pressureTriggered = true ∧ 0 < policy.maintenanceMaxDeletions)
  match removeSelected inventory selection policy.maintenanceMaxDeletions around files with
  | (none, files') =>
      (none, files', { memory with pressureTarget := if bounded then target else none })
  | (some removed, files') =>
      let evicted := selection.selected.filter fun entry => decide (entry.path ∈ removed.roots)
      let bytesAfter := removed.bytesAfter inventory selection
      let unfinished := bounded && decide (policy.lowWatermarkBytes < bytesAfter)
      let report : MaintenanceReport :=
        { bytesBefore := inventory.bytesBefore
          bytesAfter := bytesAfter
          deletionAttempts := removed.removal.deletionAttempts
          workPending := removed.removal.workPending || unfinished
          bytesReclaimed := inventory.bytesBefore - bytesAfter
          manifestsEvicted := evicted.countP fun entry => decide (entry.key.rootKind = .manifest)
          chunksDeleted := removed.chunks.length
          orphanChunksDeleted :=
            removed.chunks.countP (inventory.chunks.orphan inventory.references)
          evictedEntries := evicted.map CapacityEntry.key
          capacitySatisfied := decide (policy.maxBytes = 0 ∨ bytesAfter ≤ policy.maxBytes)
          aliasesEvicted := evicted.countP fun entry => decide (entry.key.rootKind = .prefixAlias)
          segmentsDeleted := removed.segments.length
          orphanSegmentsDeleted :=
            removed.segments.countP (inventory.segments.orphan inventory.segmentReferences)
          survivingEntries := some (survivingEntries files (inventory.remaining removed.roots)) }
      (some report, files', { memory with pressureTarget := if unfinished then target else none })

def maintain (read : Reader) (policy : CapacityPolicy) (protectedEntries : List EntryKey)
    (around : Surroundings) (memory : Memory) (files : Files) :
    Option MaintenanceReport × Files × Memory :=
  if policy.enabled = false then (some {}, files, memory)
  else if around.busy = true then
    (some { capacitySatisfied := false, skippedBusy := true }, files, memory)
  else if around.started < memory.notBefore then
    (some { capacitySatisfied := false, skippedCooldown := true }, files, memory)
  else
    let (report, files, memory) := maintainLocked read policy protectedEntries around memory files
    (report, files,
      { memory with notBefore := around.finished + policy.maintenanceIntervalMs / 1000 })

end SparkCache.Maintenance
