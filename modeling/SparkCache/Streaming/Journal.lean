import SparkCache.Lib.Dictionary
import SparkCache.Lib.Threads
import SparkCache.Lib.Tiling

/-!
# Journals of manifest snapshots

A writer with one executor thread appends the chunks of borrowed views to store transactions. Each call
and each part of a task is a lock section of its own or happens outside the locks, so that an abort may
come between any two chunks. What each store transaction is asked to do is recorded.
-/
namespace SparkCache.Streaming

/-- The logical range of a chunk. -/
@[ext]
structure ChunkRange where
  logicalStart : ℕ
  logicalEnd : ℕ
  ordered : logicalStart < logicalEnd

instance : DecidableEq ChunkRange := fun _ _ => decidable_of_iff _ ChunkRange.ext_iff.symm

inductive JournalState where
  | isOpen
  | committed
  | aborted
  deriving DecidableEq

/-- A call of the store transaction, with its outcome, or the abort of the journal. -/
inductive StoreEvent where
  | appendChunk (chunk : ChunkRange) (appends : Bool)
  | commitManifest (commits : Bool)
  | journalAborted
  | abort
  deriving DecidableEq

/-- `ManifestSnapshotJournalTransaction` -/
structure JournalTransaction where
  requestId : String
  contextDigest : String
  spanTokens : ℕ
  state : JournalState
  nextBatchIndex : ℕ
  nextSubmitted : ℕ
  appendedTokens : ℕ
  pending : Finset ℕ
  abortFinalized : Bool
  events : List StoreEvent

/-- `SnapshotBatch`, as far as submissions read it. -/
structure SnapshotBatch where
  requestId : String
  contextDigest : String
  batchIndex : ℕ
  logicalStart : ℕ
  logicalEnd : ℕ
  chunkTokens : ℕ

/-- A view, with what the translator makes of it: its logical tokens, the chunks with the outcomes of
their appends, and whether it ends without an exception. -/
structure ReadyView where
  logicalStart : ℕ
  batchLogicalTokens : Option ℕ
  chunks : List (ChunkRange × Bool)
  translates : Bool

/-- A work item of the executor. -/
structure WriterTask where
  transaction : ℕ
  completion : ℕ
  batch : SnapshotBatch
  view : ReadyView

/-- Where the executor's thread is. -/
inductive WriterPhase where
  | idle
  | begin (task : WriterTask)
  | translate (task : WriterTask) (expected : ℕ) (chunks : List (ChunkRange × Bool))
  | append (task : WriterTask) (chunk : ChunkRange) (appends : Bool) (chunks : List (ChunkRange × Bool))
  | mark (task : WriterTask) (expected : ℕ) (chunks : List (ChunkRange × Bool))
  | fail (task : WriterTask) (expected : ℕ)
  | completionDone (task : WriterTask) (failed : Bool)
  | releaseCapacity (completion : ℕ) (failed : Bool)
  | resolve (completion : ℕ) (failed : Bool)

/-- `ManifestSnapshotJournalWriter`, with its executor, the completions that were returned, and the
futures that were set, each with its outcome. -/
structure JournalWriter where
  capacity : ℕ
  closed : Bool
  queue : List WriterTask
  phase : WriterPhase
  byRequest : Dictionary String ℕ
  transactions : ℕ → Option JournalTransaction
  allocated : ℕ
  nextCompletion : ℕ
  returned : List ℕ
  resolved : List (ℕ × Bool)

/-- `CHUNK_TOKENS` -/
def chunkTokens : ℕ := 256

namespace JournalTransaction

def record (t : JournalTransaction) (event : StoreEvent) : JournalTransaction := { t with events := t.events ++ [event] }

/-- `_finalize_abort_locked` -/
def finalizeAbort (t : JournalTransaction) : JournalTransaction :=
  if t.abortFinalized then t else { t.record .abort with abortFinalized := true }

/-- `_abort_locked` -/
def abortLocked (t : JournalTransaction) : JournalTransaction :=
  let t := { t.record .journalAborted with state := .aborted }
  if t.pending = ∅ then t.finalizeAbort else t

/-- `_validate_submission` -/
def Accepts (t : JournalTransaction) (batch : SnapshotBatch) (view : ReadyView) : Prop :=
  batch.requestId = t.requestId ∧ batch.contextDigest = t.contextDigest ∧ batch.batchIndex = t.nextBatchIndex ∧
    batch.chunkTokens = chunkTokens ∧ batch.logicalStart = t.nextSubmitted ∧ batch.logicalStart < batch.logicalEnd ∧
    batch.logicalEnd ≤ t.spanTokens ∧ view.logicalStart = batch.logicalStart ∧
    view.batchLogicalTokens.map (batch.logicalStart + ·) = some batch.logicalEnd

instance (t : JournalTransaction) (batch : SnapshotBatch) (view : ReadyView) : Decidable (t.Accepts batch view) :=
  inferInstanceAs (Decidable (_ ∧ _))

/-- `abort` -/
def abort (t : JournalTransaction) : JournalTransaction := if t.state = .isOpen then t.abortLocked else t

/-- `commit_manifest`, when the store transaction commits or raises; a committed one gives its receipt again. -/
def commitManifest (t : JournalTransaction) (commits : Bool) : JournalTransaction :=
  if t.state ≠ .isOpen ∨ t.pending ≠ ∅ ∨ t.nextSubmitted ≠ t.spanTokens ∨ t.appendedTokens ≠ t.spanTokens then t
  else
    let t := t.record (.commitManifest commits)
    if commits then { t with state := .committed } else t

/-- `_completion_done` -/
def completionDone (t : JournalTransaction) (completion : ℕ) : JournalTransaction :=
  let t := { t with pending := t.pending.erase completion }
  if t.state = .aborted ∧ t.pending = ∅ then t.finalizeAbort else t

end JournalTransaction

/-! ## Threads -/

/-- A call, a step of the executor's thread, or what is left of a call. -/
inductive JournalOp where
  | beginContext (requestId contextDigest : String) (spanTokens : ℕ)
  /-- `enqueues` tells whether the executor takes the work item. -/
  | submitReady (transaction : ℕ) (batch : SnapshotBatch) (view : ReadyView) (enqueues : Bool)
  | commitManifest (transaction : ℕ) (commits : Bool)
  | abort (transaction : ℕ)
  | shutdown
  | work
  | retire (transaction : ℕ)
  | abortEach (transactions : List ℕ)
  | awaitExecutor

namespace JournalWriter

def new (maxPendingBatches : ℕ) : JournalWriter := ⟨maxPendingBatches, false, [], .idle, ∅, fun _ => none, 0, 0, [], []⟩

def write (w : JournalWriter) (id : ℕ) (t : JournalTransaction) : JournalWriter :=
  { w with transactions := Function.update w.transactions id (some t) }

/-- What follows the lock section that has left a transaction so. -/
def retiring (id : ℕ) (t : JournalTransaction) : List JournalOp := if t.abortFinalized then [.retire id] else []

/-- `begin_context` -/
def beginContext (w : JournalWriter) (requestId contextDigest : String) (spanTokens : ℕ) : JournalWriter :=
  if requestId = "" ∨ spanTokens = 0 ∨ spanTokens % chunkTokens ≠ 0 then w
  else if w.closed = true ∨ w.byRequest.lookup requestId ≠ none then w
  else
    { w.write w.allocated ⟨requestId, contextDigest, spanTokens, .isOpen, 0, 0, 0, ∅, false, []⟩ with
      byRequest := w.byRequest.insert requestId w.allocated
      allocated := w.allocated + 1 }

/-- `submit_ready`, with the writer's `_submit` in it. -/
def submitReady (w : JournalWriter) (id : ℕ) (t : JournalTransaction) (batch : SnapshotBatch) (view : ReadyView)
    (enqueues : Bool) : JournalWriter × List JournalOp :=
  if t.state ≠ .isOpen then (w, [])
  else if ¬t.Accepts batch view then (w.write id t.abortLocked, retiring id t.abortLocked)
  else
    let submitted := { t with
      nextBatchIndex := t.nextBatchIndex + 1
      nextSubmitted := batch.logicalEnd }
    let completion := w.nextCompletion
    let w := { w with nextCompletion := w.nextCompletion + 1 }
    if w.closed = true ∨ w.capacity = 0 ∨ enqueues = false then
      (w.write id submitted.abortLocked, retiring id submitted.abortLocked)
    else
      ({ w.write id { submitted with pending := insert completion t.pending } with
          capacity := w.capacity - 1
          queue := w.queue ++ [⟨id, completion, batch, view⟩]
          returned := w.returned ++ [completion] }, [])

/-- `_retire` -/
def retire (w : JournalWriter) (id : ℕ) : JournalWriter :=
  match w.transactions id with
  | none => w
  | some t =>
      if w.byRequest.lookup t.requestId = some id then { w with byRequest := w.byRequest.erase t.requestId } else w

def enter (w : JournalWriter) (phase : WriterPhase) : JournalWriter := { w with phase := phase }

/-- A step of the executor's thread: `_run` of a work item, with `_append_batch` and `_resolve`. -/
def work (w : JournalWriter) : JournalWriter × List JournalOp :=
  match w.phase with
  | .idle =>
      match w.queue with
      | [] => (w, [])
      | task :: rest => ({ w with queue := rest, phase := .begin task }, [])
  | .begin task =>
      match w.transactions task.transaction with
      | none => (w, [])
      | some t =>
          if t.state = .aborted then (w.enter (.completionDone task false), [])
          else (w.enter (.translate task task.batch.logicalStart task.view.chunks), [])
  | .translate task expected [] =>
      if task.view.translates = true ∧ expected = task.batch.logicalEnd then
        (w.enter (.completionDone task false), [])
      else (w.enter (.fail task expected), [])
  | .translate task expected ((chunk, appends) :: rest) =>
      match w.transactions task.transaction with
      | none => (w, [])
      | some t =>
          if t.state = .aborted then (w.enter (.completionDone task false), [])
          else if chunk.logicalStart ≠ expected ∨ task.batch.logicalEnd < chunk.logicalEnd then
            (w.enter (.fail task expected), [])
          else (w.enter (.append task chunk appends rest), [])
  | .append task chunk appends rest =>
      match w.transactions task.transaction with
      | none => (w, [])
      | some t =>
          ((w.write task.transaction (t.record (.appendChunk chunk appends))).enter
            (if appends then .mark task chunk.logicalEnd rest else .fail task chunk.logicalStart), [])
  | .mark task expected rest =>
      match w.transactions task.transaction with
      | none => (w, [])
      | some t =>
          ((w.write task.transaction (if t.state = .isOpen then { t with appendedTokens := expected } else t)).enter
            (.translate task expected rest), [])
  | .fail task _ =>
      match w.transactions task.transaction with
      | none => (w, [])
      | some t =>
          ((w.write task.transaction t.abort).enter (.completionDone task true),
            retiring task.transaction t.abort)
  | .completionDone task failed =>
      match w.transactions task.transaction with
      | none => (w, [])
      | some t =>
          ((w.write task.transaction (t.completionDone task.completion)).enter
            (.releaseCapacity task.completion failed),
            retiring task.transaction (t.completionDone task.completion))
  | .releaseCapacity completion failed =>
      ({ w with capacity := w.capacity + 1, phase := .resolve completion failed }, [])
  | .resolve completion failed => ({ w with resolved := w.resolved ++ [(completion, failed)], phase := .idle }, [])

/-- A step of a thread; a shutdown waits for the executor. -/
def effect (op : JournalOp) (w : JournalWriter) : Option (JournalWriter × List JournalOp) :=
  match op with
  | .beginContext requestId contextDigest spanTokens => some (w.beginContext requestId contextDigest spanTokens, [])
  | .submitReady id batch view enqueues =>
      match w.transactions id with
      | none => some (w, [])
      | some t => some (w.submitReady id t batch view enqueues)
  | .commitManifest id commits =>
      match w.transactions id with
      | none => some (w, [])
      | some t =>
          some (w.write id (t.commitManifest commits),
            if (t.commitManifest commits).state = .committed then [.retire id] else [])
  | .abort id =>
      match w.transactions id with
      | none => some (w, [])
      | some t => some (w.write id t.abort, retiring id t.abort)
  | .shutdown =>
      if w.closed = true then some (w, [])
      else some ({ w with closed := true }, [.abortEach (w.byRequest.entries.map (·.2)), .awaitExecutor])
  | .work => some w.work
  | .retire id => some (w.retire id, [])
  | .abortEach [] => some (w, [])
  | .abortEach (id :: rest) =>
      match w.transactions id with
      | none => some (w, [.abortEach rest])
      | some t => some (w.write id t.abort, retiring id t.abort ++ [.abortEach rest])
  | .awaitExecutor =>
      match w.phase, w.queue with
      | .idle, [] => some (w, [])
      | _, _ => none

end JournalWriter
end SparkCache.Streaming
