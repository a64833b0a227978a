import SparkCache.Lib.Dictionary
import SparkCache.Quorum.Reports

/-!
# What the scheduler believes

The scheduler follows the inventory of each worker. Deltas are applied in the
order of their sequence numbers; a worker whose reports leave a gap confirms no
digest until the missing deltas or a whole checkpoint arrive.
-/
namespace SparkCache.Quorum
open Paging

/-- `_QUORUM_PENDING_DELTA_LIMIT` -/
def pendingDeltaLimit : ℕ := 64

/-- `_QUORUM_RETIRED_GENERATION_LIMIT` -/
def retiredGenerationLimit : ℕ := 64

/-- The generation of the reports that have none. -/
def missingGeneration : Str := "missing-generation-field"

/-- A delta that waits for its turn. -/
structure Delta where
  baseSequence : ℕ
  added : Finset Str
  removed : Finset Str
  deriving DecidableEq

/-- The pages of a checkpoint that have arrived. -/
structure Assembly where
  stateSequence : ℕ
  cycle : ℕ
  count : ℕ
  heldCount : ℕ
  chunks : Dictionary ℕ (List Str)

/-- The tables of the scheduler at one rank. -/
structure Mirror where
  generation : Option Str
  generationEpoch : Option ℤ
  retiredGenerations : List Str
  reportSequence : ℕ
  held : Finset Str
  pendingDeltas : Dictionary ℕ Delta
  checkpoint : Option Assembly
  desynchronized : Bool
  requiresCheckpoint : Bool

def Mirror.new : Mirror := ⟨none, none, [], 0, ∅, ∅, none, false, false⟩

/-- The newest retired generations are remembered. -/
def Mirror.retire (m : Mirror) : List Str :=
  let retired := m.retiredGenerations ++ m.generation.toList
  retired.drop (retired.length - retiredGenerationLimit)

/-- The delta that follows the accepted one. -/
def Mirror.followingDelta (m : Mirror) : Option Delta :=
  (m.pendingDeltas.lookup (m.reportSequence + 1)).filter (·.baseSequence = m.reportSequence)

/-- `max(pending)` -/
def Mirror.lastPending (m : Mirror) : ℕ := m.pendingDeltas.keys.foldr max 0

/-! ## Messages that pass the checks -/

/-- The digests in a list of a report; `none` when one is malformed or occurs twice. -/
def readDigests (digests : List Str) : Option (Finset Str) :=
  if digests.Nodup ∧ digests.all (Str.isHex 64) then some digests.toFinset else none

/-- The checks of `_absorb_worker_delta` on the message. -/
def readDelta (delta : DeltaMessage) : Option (ℕ × Delta) :=
  if delta.sequence ≠ delta.baseSequence + 1 ∨ delta.baseSequence < 0 ∨
      reportBatchSize < delta.added.length + delta.removed.length then none
  else
    match readDigests delta.added, readDigests delta.removed with
    | some added, some removed =>
        if (added ∩ removed).Nonempty then none
        else some (delta.sequence.toNat, ⟨delta.baseSequence.toNat, added, removed⟩)
    | _, _ => none

/-- A page that has passed the checks on the message. -/
structure Page where
  stateSequence : ℕ
  cycle : ℕ
  index : ℕ
  count : ℕ
  heldCount : ℕ
  held : List Str

/-- The checks of `_absorb_worker_checkpoint` on the message. -/
def readCheckpoint (message : CheckpointMessage) : Option Page :=
  if message.stateSequence < 0 ∨ message.cycle < 1 ∨ message.count < 1 ∨ message.index < 0 ∨
      message.count ≤ message.index ∨ message.heldCount < 0 ∨ reportBatchSize < message.held.length then
    none
  else
    let heldCount := message.heldCount.toNat
    let index := message.index.toNat
    if message.count ≠ pageCount reportBatchSize heldCount ∨
        message.held.length ≠ min reportBatchSize (heldCount - index * reportBatchSize) ∨
        readDigests message.held = none then
      none
    else some ⟨message.stateSequence.toNat, message.cycle.toNat, index, message.count.toNat, heldCount,
      message.held⟩

/-- The key of an assembly comes before the key of a page. -/
def Assembly.older (a : Assembly) (page : Page) : Bool :=
  a.stateSequence < page.stateSequence ∨ a.stateSequence = page.stateSequence ∧ a.cycle < page.cycle

/-- The key of an assembly comes after the key of a page. -/
def Assembly.newer (a : Assembly) (page : Page) : Bool :=
  page.stateSequence < a.stateSequence ∨ page.stateSequence = a.stateSequence ∧ page.cycle < a.cycle

/-- An assembly without a page. -/
def Page.begin (page : Page) : Assembly := ⟨page.stateSequence, page.cycle, page.count, page.heldCount, ∅⟩

/-- The assembly to which a page is added. -/
def Page.assembly (page : Page) : Option Assembly → Assembly
  | none => page.begin
  | some active => if active.older page then page.begin else active

/-- The digests of an assembly whose pages have all arrived. -/
def Assembly.reconstructed (a : Assembly) : Finset Str :=
  ((List.range a.count).flatMap fun index => (a.chunks.lookup index).getD []).toFinset

/-! ## The scheduler -/

structure Scheduler where
  tpDegree : ℕ
  mirrors : ℕ → Mirror
  /-- A digest without ranks is not in the table. -/
  quorum : Str → Finset ℕ

namespace Scheduler

def new (tpDegree : ℕ) : Scheduler := ⟨tpDegree, fun _ => .new, fun _ => ∅⟩

/-- `_has_full_quorum` -/
def hasFullQuorum (s : Scheduler) (digest : Str) : Bool :=
  (List.range s.tpDegree).all fun rank => decide (rank ∈ s.quorum digest)

/-- `self._quorum.pop(digest, None)` after a failed load -/
def withdraw (s : Scheduler) (digest : Str) : Scheduler :=
  { s with quorum := Function.update s.quorum digest ∅ }

/-- Assignments to the tables of a rank. -/
def modify (s : Scheduler) (rank : ℕ) (f : Mirror → Mirror) : Scheduler :=
  { s with mirrors := Function.update s.mirrors rank (f (s.mirrors rank)) }

def withdrawWorkerQuorum (s : Scheduler) (rank : ℕ) : Scheduler :=
  { s with quorum := fun digest => (s.quorum digest).erase rank }

def publishWorkerQuorum (s : Scheduler) (rank : ℕ) : Scheduler :=
  { s with quorum := fun digest =>
      if digest ∈ (s.mirrors rank).held then insert rank (s.quorum digest) else s.quorum digest }

def markWorkerDesynchronized (s : Scheduler) (rank : ℕ) : Scheduler :=
  if (s.mirrors rank).desynchronized then s
  else (s.withdrawWorkerQuorum rank).modify rank ({ · with desynchronized := true })

/-- A conflict in what a rank has sent. -/
def requireCheckpoint (s : Scheduler) (rank : ℕ) : Scheduler :=
  (s.modify rank ({ · with requiresCheckpoint := true })).markWorkerDesynchronized rank

def replaceWorkerHeld (s : Scheduler) (rank : ℕ) (held : Finset Str) : Scheduler :=
  let replaced := (s.withdrawWorkerQuorum rank).modify rank ({ · with held := held })
  if (s.mirrors rank).desynchronized then replaced else replaced.publishWorkerQuorum rank

/-! ## Generations -/

def beginWorkerGeneration (s : Scheduler) (rank : ℕ) (generation : Str)
    (generationEpoch : Option ℤ) : Scheduler :=
  (s.withdrawWorkerQuorum rank).modify rank fun m =>
    { Mirror.new with
      generation := some generation
      generationEpoch := generationEpoch
      retiredGenerations := m.retiredGenerations }

/-- `_accept_worker_generation`; `none` for a report that is refused. -/
def acceptWorkerGeneration (s : Scheduler) (rank : ℕ) (generation : Str)
    (generationEpoch : Option ℤ) : Option Scheduler :=
  let m := s.mirrors rank
  if m.generation = some generation then
    if m.generationEpoch = none ∨ generationEpoch = m.generationEpoch then some s else none
  else if generation ∈ m.retiredGenerations then none
  else if generation = missingGeneration ∧ m.generation ≠ none then none
  else some ((s.modify rank fun m =>
    { m with retiredGenerations := m.retire }).beginWorkerGeneration
      rank generation generationEpoch)

/-! ## Deltas -/

def applyWorkerDelta (s : Scheduler) (rank : ℕ) (added removed : Finset Str) : Scheduler :=
  let applied := s.modify rank fun m => { m with held := m.held \ removed ∪ added }
  if (s.mirrors rank).desynchronized then applied
  else { applied with quorum := fun digest =>
    let ranks := if digest ∈ removed then (s.quorum digest).erase rank else s.quorum digest
    if digest ∈ added then insert rank ranks else ranks }

/-- The delta that follows the accepted one is taken and applied. -/
def takeWorkerDelta (s : Scheduler) (rank : ℕ) (delta : Delta) : Scheduler :=
  let taken := s.modify rank fun m =>
    { m with pendingDeltas := m.pendingDeltas.erase (m.reportSequence + 1) }
  (taken.applyWorkerDelta rank delta.added delta.removed).modify rank fun m =>
    { m with reportSequence := m.reportSequence + 1 }

/-- The loop of `_drain_worker_deltas`; each turn takes one of the pending deltas. -/
def takeWorkerDeltas (rank : ℕ) : ℕ → Scheduler → Scheduler
  | 0, s => s
  | turns + 1, s =>
      match (s.mirrors rank).followingDelta with
      | none => s
      | some delta => takeWorkerDeltas rank turns (s.takeWorkerDelta rank delta)

/-- The end of `_drain_worker_deltas`. -/
def settleWorker (s : Scheduler) (rank : ℕ) : Scheduler :=
  let m := s.mirrors rank
  if m.pendingDeltas.size ≠ 0 ∨ m.requiresCheckpoint then s.markWorkerDesynchronized rank
  else if m.desynchronized then
    (s.modify rank ({ · with desynchronized := false })).publishWorkerQuorum rank
  else s

def drainWorkerDeltas (s : Scheduler) (rank : ℕ) : Scheduler :=
  (takeWorkerDeltas rank (s.mirrors rank).pendingDeltas.size s).settleWorker rank

/-- A delta becomes pending. -/
def storeWorkerDelta (s : Scheduler) (rank sequence : ℕ) (delta : Delta) : Scheduler :=
  let stored := s.modify rank fun m =>
    { m with pendingDeltas := m.pendingDeltas.insert sequence delta }
  let marked := if delta.baseSequence ≠ (s.mirrors rank).reportSequence then
    stored.markWorkerDesynchronized rank else stored
  marked.drainWorkerDeltas rank

/-- `_absorb_worker_delta` -/
def absorbWorkerDelta (s : Scheduler) (rank : ℕ) (message : DeltaMessage) : Scheduler :=
  match readDelta message with
  | none => s
  | some (sequence, delta) =>
      let m := s.mirrors rank
      if sequence ≤ m.reportSequence then s
      else match m.pendingDeltas.lookup sequence with
        | some duplicate => if duplicate ≠ delta then s.requireCheckpoint rank else s
        | none =>
            if pendingDeltaLimit ≤ m.pendingDeltas.size then
              let required := s.requireCheckpoint rank
              if m.lastPending ≤ sequence then required
              else (required.modify rank fun m =>
                { m with pendingDeltas := m.pendingDeltas.erase m.lastPending }).storeWorkerDelta
                  rank sequence delta
            else s.storeWorkerDelta rank sequence delta

/-! ## Checkpoints -/

/-- The inventory of a rank becomes the one of a checkpoint. -/
def restoreWorker (s : Scheduler) (rank sequence : ℕ) (held : Finset Str) : Scheduler :=
  let replaced := (s.modify rank ({ · with desynchronized := true })).replaceWorkerHeld rank held
  (replaced.modify rank fun m =>
    { m with
      reportSequence := sequence
      pendingDeltas := m.pendingDeltas.filter fun pending _ => sequence < pending
      requiresCheckpoint := false
      checkpoint := none }).drainWorkerDeltas rank

/-- A page is added to an assembly of its key. -/
def addPage (s : Scheduler) (rank : ℕ) (page : Page) (active : Assembly) : Scheduler :=
  let begun := s.modify rank ({ · with checkpoint := some active })
  if active.count ≠ page.count ∨ active.heldCount ≠ page.heldCount then begun.requireCheckpoint rank
  else if (active.chunks.lookup page.index).any (· ≠ page.held) then begun.requireCheckpoint rank
  else
    let extended := { active with chunks := active.chunks.insert page.index page.held }
    let added := s.modify rank ({ · with checkpoint := some extended })
    if extended.chunks.size ≠ page.count then added
    else if extended.reconstructed.card ≠ page.heldCount then added.requireCheckpoint rank
    else added.restoreWorker rank page.stateSequence extended.reconstructed

/-- `_absorb_worker_checkpoint` -/
def absorbWorkerCheckpoint (s : Scheduler) (rank : ℕ) (message : CheckpointMessage) : Scheduler :=
  match readCheckpoint message with
  | none => s
  | some page =>
      let m := s.mirrors rank
      if page.stateSequence < m.reportSequence then s
      else if page.stateSequence = m.reportSequence ∧ ¬m.desynchronized ∧ ¬m.requiresCheckpoint then
        s.modify rank ({ · with checkpoint := none })
      else
        let marked := if m.reportSequence < page.stateSequence then s.markWorkerDesynchronized rank else s
        if m.checkpoint.any (·.newer page) then marked
        else marked.addPage rank page (page.assembly m.checkpoint)

/-! ## Reports -/

/-- One turn of the loop of `_absorb_quorum`. -/
def absorbReport (s : Scheduler) (report : QuorumReport) : Scheduler :=
  if report.rank < 0 ∨ (s.tpDegree : ℤ) ≤ report.rank then s
  else
    let rank := report.rank.toNat
    let generation := report.generation.getD missingGeneration
    let generationEpoch := report.generationEpoch.filter (0 ≤ ·)
    match report.body with
    | .delta delta checkpoint =>
        if generation = missingGeneration ∨ generationEpoch = none then s
        else match s.acceptWorkerGeneration rank generation generationEpoch with
          | none => s
          | some accepted =>
              let applied := delta.elim accepted (accepted.absorbWorkerDelta rank)
              checkpoint.elim applied (applied.absorbWorkerCheckpoint rank)
    | .full held =>
        match s.acceptWorkerGeneration rank generation generationEpoch with
        | none => s
        | some accepted =>
            (accepted.modify rank fun m =>
              { m with
                pendingDeltas := ∅
                checkpoint := none
                desynchronized := false
                requiresCheckpoint := false }).replaceWorkerHeld rank held.toFinset

/-- `_absorb_quorum` -/
def absorbQuorum (s : Scheduler) (reports : List QuorumReport) : Scheduler := reports.foldl absorbReport s

end Scheduler

end SparkCache.Quorum
