import Mathlib.Data.Finset.Sort
import SparkCache.Digest
import SparkCache.Lib.Paging

/-!
# What a worker reports

A worker holds an inventory of digests that counts its changes. Each report
carries one of the newest deltas and one page of a checkpoint of the inventory;
every change of the inventory that a report observes gets the next sequence
number.
-/
namespace SparkCache.Quorum
open Paging

/-- `_QUORUM_REPORT_BATCH_SIZE` -/
def reportBatchSize : ℕ := 64

/-- `_QUORUM_DELTA_HISTORY_SIZE` -/
def deltaHistorySize : ℕ := 64

/-- `_STARTUP_HANDSHAKE_MAX_DIGESTS` -/
def startupHandshakeMaxDigests : ℕ := 8 * reportBatchSize

/-! ## The inventory -/

/-- `HeldInventory` -/
structure HeldInventory where
  values : Finset Str
  revision : ℕ

inductive Mutation where
  | add (value : Str)
  | discard (value : Str)
  | remove (value : Str)
  /-- `value` is what `set.pop` takes. -/
  | pop (value : Str)
  | clear
  | update (values : Finset Str)
  | differenceUpdate (values : Finset Str)
  | intersectionUpdate (values : Finset Str)
  | symmetricDifferenceUpdate (values : Finset Str)

namespace HeldInventory

/-- `HeldInventory(values)` -/
def new (values : Finset Str) : HeldInventory := ⟨values, 0⟩

/-- The revision counts a change of the size. -/
def resized (inventory : HeldInventory) (values : Finset Str) : HeldInventory :=
  ⟨values, inventory.revision + if values.card ≠ inventory.values.card then 1 else 0⟩

def mutate (inventory : HeldInventory) : Mutation → HeldInventory
  | .add value => inventory.resized (insert value inventory.values)
  | .discard value => inventory.resized (inventory.values.erase value)
  | .remove value | .pop value =>
      if value ∈ inventory.values then ⟨inventory.values.erase value, inventory.revision + 1⟩
      else inventory
  | .clear => if inventory.values = ∅ then inventory else ⟨∅, inventory.revision + 1⟩
  | .update values => inventory.resized (inventory.values ∪ values)
  | .differenceUpdate values => inventory.resized (inventory.values \ values)
  | .intersectionUpdate values => inventory.resized (inventory.values ∩ values)
  | .symmetricDifferenceUpdate values =>
      if values = ∅ then inventory
      else ⟨symmDiff inventory.values values, inventory.revision + 1⟩

/-- Either nothing changes, or the revision does. -/
def Tracks (before after : HeldInventory) : Prop :=
  before.revision < after.revision ∨
    after.revision = before.revision ∧ after.values = before.values

theorem resized_tracks {inventory : HeldInventory} {values : Finset Str}
    (h : values.card = inventory.values.card → values = inventory.values) :
    Tracks inventory (inventory.resized values) := by
  unfold Tracks resized
  by_cases hcard : values.card = inventory.values.card
  · right
    simp [h hcard]
  · left
    simp [hcard]

/-- The revision tells every change, whichever way the values are changed. -/
theorem mutate_tracks (inventory : HeldInventory) (mutation : Mutation) :
    Tracks inventory (inventory.mutate mutation) := by
  cases mutation with
  | add value =>
      apply resized_tracks
      intro hcard
      exact (Finset.eq_of_subset_of_card_le (Finset.subset_insert _ _) hcard.le).symm
  | discard value =>
      apply resized_tracks
      intro hcard
      exact Finset.eq_of_subset_of_card_le (Finset.erase_subset _ _) hcard.ge
  | remove value | pop value =>
      simp only [mutate]
      split_ifs <;> simp [Tracks]
  | clear =>
      simp only [mutate]
      split_ifs <;> simp [Tracks]
  | update values =>
      apply resized_tracks
      intro hcard
      exact (Finset.eq_of_subset_of_card_le Finset.subset_union_left hcard.le).symm
  | differenceUpdate values =>
      apply resized_tracks
      intro hcard
      exact Finset.eq_of_subset_of_card_le Finset.sdiff_subset hcard.ge
  | intersectionUpdate values =>
      apply resized_tracks
      intro hcard
      exact Finset.eq_of_subset_of_card_le Finset.inter_subset_left hcard.ge
  | symmetricDifferenceUpdate values =>
      simp only [mutate]
      split_ifs <;> simp [Tracks]

end HeldInventory

/-! ## Messages -/

structure DeltaMessage where
  sequence : ℤ
  baseSequence : ℤ
  added : List Str
  removed : List Str

structure CheckpointMessage where
  stateSequence : ℤ
  cycle : ℤ
  index : ℤ
  count : ℤ
  heldCount : ℤ
  held : List Str

inductive ReportBody where
  /-- `_QUORUM_DELTA_PROTOCOL` -/
  | delta (delta : Option DeltaMessage) (checkpoint : Option CheckpointMessage)
  /-- A report of the whole inventory, by a connector without the protocol. -/
  | full (held : List Str)

structure QuorumReport where
  rank : ℤ
  /-- None stands for a field that is missing or has another type. -/
  generation : Option Str
  generationEpoch : Option ℤ
  body : ReportBody

/-! ## The worker -/

/-- The inventory of a worker and what it remembers of its reports. -/
structure StatsReporter where
  rank : ℕ
  generation : Str
  generationEpoch : ℕ
  held : HeldInventory
  /-- The identity of the inventory object. -/
  heldObject : ℕ
  observedHeld : Finset Str
  observedInventory : Option ℕ
  observedRevision : ℤ
  sequence : ℕ
  deltaHistory : List DeltaMessage
  deltaCursor : ℕ
  checkpointItems : List Str
  checkpointSequence : ℕ
  checkpointCycle : ℕ
  checkpointIndex : ℕ

namespace StatsReporter

def new (rank : ℕ) (generation : Str) (generationEpoch : ℕ) (held : Finset Str) : StatsReporter where
  rank := rank
  generation := generation
  generationEpoch := generationEpoch
  held := .new held
  heldObject := 0
  observedHeld := ∅
  observedInventory := none
  observedRevision := -1
  sequence := 0
  deltaHistory := []
  deltaCursor := 0
  checkpointItems := []
  checkpointSequence := 0
  checkpointCycle := 1
  checkpointIndex := 0

def mutate (w : StatsReporter) (mutation : Mutation) : StatsReporter :=
  { w with held := w.held.mutate mutation }

/-- `self._held = values` makes a new inventory. -/
def replace (w : StatsReporter) (values : Finset Str) : StatsReporter :=
  { w with held := .new values, heldObject := w.heldObject + 1 }

/-- The delta from the observed inventory to another one. -/
def deltaTo (w : StatsReporter) (held : Finset Str) : DeltaMessage :=
  ⟨w.sequence + 1, w.sequence, (held \ w.observedHeld).sort, (w.observedHeld \ held).sort⟩

/-- A delta that fits a report is remembered, the newest ones only. -/
def remember (w : StatsReporter) (delta : DeltaMessage) : StatsReporter :=
  if delta.added.length + delta.removed.length ≤ reportBatchSize then
    let history := w.deltaHistory ++ [delta]
    let history := history.drop (history.length - deltaHistorySize)
    { w with deltaHistory := history, deltaCursor := w.deltaCursor % history.length }
  else w

/-- Another inventory is observed. -/
def advance (w : StatsReporter) (held : Finset Str) : StatsReporter :=
  { w.remember (w.deltaTo held) with
    sequence := w.sequence + 1
    observedHeld := held
    checkpointItems := held.sort
    checkpointSequence := w.sequence + 1
    checkpointCycle := w.checkpointCycle + 1
    checkpointIndex := 0 }

/-- The first part of `_build_quorum_report_locked`: the inventory is compared only if it may have
changed. -/
def observe (w : StatsReporter) : StatsReporter :=
  if w.observedInventory ≠ some w.heldObject ∨ w.observedRevision ≠ w.held.revision then
    let observed := if w.held.values ≠ w.observedHeld then w.advance w.held.values else w
    { observed with observedInventory := some w.heldObject, observedRevision := w.held.revision }
  else w

def checkpointCount (w : StatsReporter) : ℕ := pageCount reportBatchSize w.checkpointItems.length

def checkpoint (w : StatsReporter) : CheckpointMessage where
  stateSequence := w.checkpointSequence
  cycle := w.checkpointCycle
  index := w.checkpointIndex
  count := w.checkpointCount
  heldCount := w.checkpointItems.length
  held := page reportBatchSize w.checkpointItems w.checkpointIndex

/-- The next page, or a new cycle. -/
def nextPage (w : StatsReporter) : StatsReporter :=
  if w.checkpointCount ≤ w.checkpointIndex + 1 then
    { w with checkpointIndex := 0, checkpointCycle := w.checkpointCycle + 1 }
  else { w with checkpointIndex := w.checkpointIndex + 1 }

/-- The delta of the report, if there is one. -/
def currentDelta (w : StatsReporter) : Option DeltaMessage :=
  w.deltaHistory[w.deltaCursor % w.deltaHistory.length]?

def nextDelta (w : StatsReporter) : StatsReporter :=
  if w.deltaHistory = [] then w
  else { w with deltaCursor := (w.deltaCursor % w.deltaHistory.length + 1) % w.deltaHistory.length }

/-- The report of a worker that has observed its inventory. -/
def report (w : StatsReporter) : QuorumReport where
  rank := w.rank
  generation := some w.generation
  generationEpoch := some w.generationEpoch
  body := .delta w.currentDelta (some w.checkpoint)

/-- `_build_quorum_report_locked` -/
def buildQuorumReport (w : StatsReporter) : QuorumReport × StatsReporter :=
  (w.observe.report, w.observe.nextPage.nextDelta)

/-- The inventory is not the observed one. -/
def stale (w : StatsReporter) : Bool := decide (w.held.values ≠ w.observedHeld)

/-- The digests that a handshake carries. -/
def handshakeHeld (w : StatsReporter) : List Str := w.held.values.sort.take startupHandshakeMaxDigests

/-- What a handshake carries of an inventory. -/
def startupPart (held : Finset Str) : Finset Str := (held.sort.take startupHandshakeMaxDigests).toFinset

/-- The page of a handshake. -/
def handshakePage (w : StatsReporter) (index : ℕ) : CheckpointMessage where
  stateSequence := w.sequence + if w.stale then 1 else 0
  cycle := w.checkpointCycle
  index := index
  count := pageCount reportBatchSize w.handshakeHeld.length
  heldCount := w.handshakeHeld.length
  held := page reportBatchSize w.handshakeHeld index

/-- One report of a handshake. -/
def handshakeReport (w : StatsReporter) (index : ℕ) : QuorumReport where
  rank := w.rank
  generation := some w.generation
  generationEpoch := some w.generationEpoch
  body := .delta none (some (w.handshakePage index))

/-- `get_handshake_metadata` of a worker that restores. -/
def handshake (w : StatsReporter) : List QuorumReport :=
  (List.range (pageCount reportBatchSize w.handshakeHeld.length)).map w.handshakeReport

end StatsReporter

end SparkCache.Quorum
