import Mathlib.Data.Finset.Sort
import Mathlib.Data.String.Basic
import SparkCache.Digest
import SparkCache.Lib.Run
import SparkCache.Streaming.BlockLeases

/-!
# The adapters of streaming snapshots

The scheduler's adapter delays the release of a finished request's blocks; the worker's adapter tells
when they may be released. Both follow the same metadata, one after the other. What the runtime of the
worker answers is arbitrary, and so is what it does with the leases.
-/
namespace SparkCache.Streaming

structure SnapshotOffer where
  requestId : String
  digest : Str
  spanTokens : ℤ

/-- What a scheduler step tells its connector. -/
structure StreamingMetadata where
  preemptedRequestIds : List String
  streamingSnapshotOffers : List SnapshotOffer

/-- The requests of offers. -/
def offered (offers : List SnapshotOffer) : Finset String := (offers.map SnapshotOffer.requestId).toFinset

structure SchedulerStreamingSnapshotAdapter where
  eligible : Finset String
  delayed : Finset String

namespace SchedulerStreamingSnapshotAdapter

/-- `observe_metadata`; an offer without a request raises. -/
def observeMetadata (s : SchedulerStreamingSnapshotAdapter) (m : StreamingMetadata) :
    Option SchedulerStreamingSnapshotAdapter :=
  if "" ∈ offered m.streamingSnapshotOffers then none
  else
    some
      { eligible := s.eligible \ m.preemptedRequestIds.toFinset ∪ offered m.streamingSnapshotOffers
        delayed := s.delayed \ m.preemptedRequestIds.toFinset }

/-- `request_finished` -/
def requestFinished (s : SchedulerStreamingSnapshotAdapter) (requestId : String) :
    SchedulerStreamingSnapshotAdapter × Bool :=
  if requestId ∈ s.eligible then ({ s with delayed := insert requestId s.delayed }, true) else (s, false)

/-- `take_finished` -/
def takeFinished (s : SchedulerStreamingSnapshotAdapter) (finishedRequestIds : Finset String) :
    SchedulerStreamingSnapshotAdapter × Finset String :=
  let ready := s.delayed ∩ finishedRequestIds
  ({ eligible := s.eligible \ ready, delayed := s.delayed \ ready }, ready)

end SchedulerStreamingSnapshotAdapter

/-- A lock section of the registry. -/
inductive LeaseChange where
  | reserve (requestId : String) (blockIds : List ℤ)
  | enter (leaseId : ℕ) (state : LeaseState)
  | release (leaseId : ℕ)

namespace BlockLeaseRegistry

def change (c : LeaseCapacity) (r : BlockLeaseRegistry) : LeaseChange → Option BlockLeaseRegistry
  | .reserve requestId blockIds => some (r.tryReserve c requestId blockIds)
  | .enter leaseId state =>
      match r.leases.lookup leaseId with
      | none => some r
      | some lease => some (r.setState lease state)
  | .release leaseId =>
      match r.leases.lookup leaseId with
      | none => some r
      | some lease => r.releaseLocked lease

def changeAll (c : LeaseCapacity) (r : BlockLeaseRegistry) (changes : List LeaseChange) : Option BlockLeaseRegistry :=
  changes.foldlM (change c) r

/-- `poll`, when nothing else uses the registry; none stands for a fence that raises. -/
def poll (c : LeaseCapacity) (r : BlockLeaseRegistry) (fence : ℕ → Option Bool) : Option BlockLeaseRegistry :=
  let armed := r.inState .armed (r.leases.entries.reverse.map (·.1))
  if ∃ lease ∈ armed, fence lease.leaseId = none then none
  else r.changeAll c ((armed.filter fun lease => fence lease.leaseId = some true).map fun lease => .release lease.leaseId)

/-- `take_finished` -/
def takeFinished (c : LeaseCapacity) (r : BlockLeaseRegistry) (fence : ℕ → Option Bool)
    (finishedRequestIds : Finset String) : Option (BlockLeaseRegistry × Finset String) := do
  let r ← r.poll c fence
  return (r, finishedRequestIds.filter fun requestId => r.byRequest.lookup requestId = none)

end BlockLeaseRegistry

/-- What a call of the runtime does with the leases, and what it returns unless it raises. -/
structure RuntimeAnswer (α : Type) where
  changes : List LeaseChange
  answer : Option α

/-- The calls of `offer_completed`. -/
structure OfferAnswers where
  cancel : RuntimeAnswer Unit
  beginContext : RuntimeAnswer Bool
  acceptCompletedPrefill : RuntimeAnswer Bool

/-- The calls of `poll`: what was aborted, for which reason, and what was committed. -/
structure PollAnswers where
  poll : RuntimeAnswer Unit
  aborted : List (String × String)
  committed : List Str
  handsOff : Bool

structure WorkerStreamingSnapshotAdapter where
  leases : BlockLeaseRegistry
  seenRequests : Finset String
  pendingFinishedRequests : Finset String
  admittedRequests : Finset String
  suppressedRequests : Finset String
  terminalPendingRequests : Finset String
  contexts : Dictionary String (Str × ℤ)
  backgroundProgressFatal : Bool

namespace WorkerStreamingSnapshotAdapter

def call {α : Type} (c : LeaseCapacity) (w : WorkerStreamingSnapshotAdapter) (a : RuntimeAnswer α) :
    WorkerStreamingSnapshotAdapter × Option α :=
  match w.leases.changeAll c a.changes with
  | none => (w, none)
  | some leases => ({ w with leases := leases }, a.answer)

/-- `_retire_terminal_request` -/
def retireTerminalRequest (w : WorkerStreamingSnapshotAdapter) (requestId : String) : WorkerStreamingSnapshotAdapter :=
  { w with
    terminalPendingRequests := w.terminalPendingRequests.erase requestId
    contexts := w.contexts.erase requestId }

/-- `_retire_finished_request`, for several requests -/
def retireFinishedRequests (w : WorkerStreamingSnapshotAdapter) (requestIds : Finset String) :
    WorkerStreamingSnapshotAdapter :=
  { w with
    pendingFinishedRequests := w.pendingFinishedRequests \ requestIds
    seenRequests := w.seenRequests \ requestIds
    admittedRequests := w.admittedRequests \ requestIds
    suppressedRequests := w.suppressedRequests \ requestIds
    contexts := w.contexts.filter fun requestId _ => requestId ∉ requestIds ∨ requestId ∈ w.terminalPendingRequests }

/-- The end of `_offer_completed_locked`. -/
def acceptOffer (c : LeaseCapacity) (w : WorkerStreamingSnapshotAdapter) (requestId : String) (a : OfferAnswers) :
    WorkerStreamingSnapshotAdapter × Bool :=
  match w.call c a.acceptCompletedPrefill with
  | (w, none) => (w, false)
  | (w, some true) =>
      ({ w with
          admittedRequests := w.admittedRequests.erase requestId
          suppressedRequests := insert requestId w.suppressedRequests }, true)
  | (w, some false) => (w, true)

/-- `_offer_completed_locked`; the answer is false when it raises. -/
def offerCompleted (c : LeaseCapacity) (w : WorkerStreamingSnapshotAdapter) (offer : SnapshotOffer) (a : OfferAnswers) :
    WorkerStreamingSnapshotAdapter × Bool :=
  let requestId := offer.requestId
  if w.backgroundProgressFatal = true then (w, false)
  else if requestId = "" ∨ offer.digest.isHex 64 = false ∨ offer.spanTokens ≤ 0 then (w, false)
  else
    let w := { w with seenRequests := insert requestId w.seenRequests }
    if w.contexts.lookup requestId ≠ none ∧ w.contexts.lookup requestId ≠ some (offer.digest, offer.spanTokens) then
      match if requestId ∈ w.admittedRequests then w.call c a.cancel else (w, some ()) with
      | (w, none) => (w, false)
      | (w, some ()) =>
          ({ w with
              admittedRequests := w.admittedRequests.erase requestId
              suppressedRequests := insert requestId w.suppressedRequests }, true)
    else if requestId ∈ w.suppressedRequests then (w, true)
    else
      let w := { w with
        contexts := if w.contexts.lookup requestId = none
          then w.contexts.insert requestId (offer.digest, offer.spanTokens) else w.contexts }
      if requestId ∈ w.admittedRequests then w.acceptOffer c requestId a
      else
        match w.call c a.beginContext with
        | (w, none) => (w, false)
        | (w, some false) => ({ w with suppressedRequests := insert requestId w.suppressedRequests }, true)
        | (w, some true) =>
            acceptOffer c { w with
              admittedRequests := insert requestId w.admittedRequests
              terminalPendingRequests := insert requestId w.terminalPendingRequests } requestId a

/-- An aborted publication, in `_poll_locked`. -/
def settleAborted (w : WorkerStreamingSnapshotAdapter) (aborted : String × String) : WorkerStreamingSnapshotAdapter :=
  retireTerminalRequest { w with
    admittedRequests := w.admittedRequests.erase aborted.1
    suppressedRequests := if aborted.2 = "preempted" then w.suppressedRequests.erase aborted.1
      else insert aborted.1 w.suppressedRequests } aborted.1

/-- A committed digest, in `_poll_locked`. -/
def settleCommitted (w : WorkerStreamingSnapshotAdapter) (digest : Str) : WorkerStreamingSnapshotAdapter :=
  match (w.terminalPendingRequests.sort (· ≤ ·)).find? fun candidate =>
      (w.contexts.lookup candidate).map (·.1) = some digest with
  | none => w
  | some requestId =>
      retireTerminalRequest { w with
        admittedRequests := w.admittedRequests.erase requestId
        suppressedRequests := insert requestId w.suppressedRequests } requestId

/-- `_poll_locked` -/
def poll (c : LeaseCapacity) (w : WorkerStreamingSnapshotAdapter) (a : PollAnswers) :
    WorkerStreamingSnapshotAdapter × Bool :=
  if w.backgroundProgressFatal = true then (w, false)
  else
    match w.call c a.poll with
    | (w, none) => (w, false)
    | (w, some ()) =>
        let w := a.aborted.foldl settleAborted w
        if a.committed = [] then (w, true)
        else if a.handsOff = false then (w, false)
        else (a.committed.foldl settleCommitted w, true)

/-- The loop of `_handle_preemptions_locked` over the requests. -/
def preemptAll (c : LeaseCapacity) (w : WorkerStreamingSnapshotAdapter) (a : String → RuntimeAnswer Bool) :
    List String → WorkerStreamingSnapshotAdapter × Bool
  | [] => (w, true)
  | requestId :: rest =>
      match w.call c (a requestId) with
      | (w, none) => (w, false)
      | (w, some true) =>
          preemptAll c { w with
            admittedRequests := w.admittedRequests.erase requestId
            suppressedRequests := w.suppressedRequests.erase requestId } a rest
      | (w, some false) => preemptAll c w a rest

/-- `_handle_preemptions_locked` -/
def handlePreemptions (c : LeaseCapacity) (w : WorkerStreamingSnapshotAdapter) (requestIds : List String)
    (a : String → RuntimeAnswer Bool) (polled : PollAnswers) : WorkerStreamingSnapshotAdapter × Bool :=
  if w.backgroundProgressFatal = true then (w, false)
  else if ¬requestIds.Pairwise (· < ·) ∨ "" ∈ requestIds then (w, false)
  else
    match w.preemptAll c a requestIds with
    | (w, false) => (w, false)
    | (w, true) =>
        match w.poll c polled with
        | (w, false) => (w, false)
        | (w, true) => (w.retireFinishedRequests requestIds.toFinset, true)

/-- `_take_finished_locked`; none when it raises. -/
def takeFinished (c : LeaseCapacity) (w : WorkerStreamingSnapshotAdapter) (finishedRequestIds : Finset String)
    (polled : PollAnswers) (fence : ℕ → Option Bool) : WorkerStreamingSnapshotAdapter × Option (Finset String) :=
  match w.poll c polled with
  | (w, false) => (w, none)
  | (w, true) =>
      let w := { w with
        pendingFinishedRequests := w.pendingFinishedRequests ∪ finishedRequestIds ∩ w.seenRequests }
      match w.leases.takeFinished c fence w.pendingFinishedRequests with
      | none => (w, none)
      | some (leases, ready) => (retireFinishedRequests { w with leases := leases } ready, some ready)

end WorkerStreamingSnapshotAdapter

/-- Where a step is: its metadata and the finished requests that it presents have still to reach the
worker, or the offers have. -/
inductive EngineStep where
  | between
  | preempting (metadata : StreamingMetadata) (finished : Finset String)
  | offering (offers : List SnapshotOffer) (finished : Finset String)

/-- What the worker returned at once, what the scheduler's adapter was delaying then, and the leases. -/
structure Returned where
  ids : Finset String
  delaying : Finset String
  leases : BlockLeaseRegistry

/-- Both adapters and the finished requests that were not yet presented. Recorded are the delays, the
returned requests, those that were presented while delayed and then neither returned nor preempted, and
those whose return was not reported to the scheduler's adapter, with no offer or preemption since. -/
structure StreamingEngine where
  scheduler : SchedulerStreamingSnapshotAdapter
  worker : WorkerStreamingSnapshotAdapter
  finished : Finset String
  step : EngineStep
  failed : Bool
  delays : Multiset String
  returns : List Returned
  owed : Finset String
  unreported : Finset String

inductive EngineAction where
  | finish (requestId : String)
  | observe (metadata : StreamingMetadata)
  | preempt (answers : String → RuntimeAnswer Bool) (polled : PollAnswers)
  | offer (answers : OfferAnswers)
  | poll (polled : PollAnswers)
  | backgroundPoll (polled : PollAnswers)
  /-- `reported` tells whether what is returned reaches `take_finished` of the scheduler's adapter; the
  connector does not call it. -/
  | take (polled : PollAnswers) (fence : ℕ → Option Bool) (reported : Bool)

namespace StreamingEngine

def new : StreamingEngine where
  scheduler := ⟨∅, ∅⟩
  worker := ⟨.new, ∅, ∅, ∅, ∅, ∅, ∅, false⟩
  finished := ∅
  step := .between
  failed := false
  delays := 0
  returns := []
  owed := ∅
  unreported := ∅

def finish (s : StreamingEngine) (requestId : String) : StreamingEngine :=
  { s with
    scheduler := (s.scheduler.requestFinished requestId).1
    finished := insert requestId s.finished
    delays := if (s.scheduler.requestFinished requestId).2 then requestId ::ₘ s.delays else s.delays }

/-- The scheduler's adapter sees the metadata of a step, which presents the finished requests. -/
def observe (s : StreamingEngine) (m : StreamingMetadata) : StreamingEngine :=
  match s.step with
  | .between =>
      match s.scheduler.observeMetadata m with
      | none => { s with failed := true }
      | some scheduler =>
          { s with
            scheduler := scheduler
            finished := ∅
            step := .preempting m s.finished
            unreported := s.unreported \ (m.preemptedRequestIds.toFinset ∪ offered m.streamingSnapshotOffers) }
  | _ => s

def preempt (c : LeaseCapacity) (s : StreamingEngine) (a : String → RuntimeAnswer Bool) (polled : PollAnswers) :
    StreamingEngine :=
  match s.step with
  | .preempting m finished =>
      match s.worker.handlePreemptions c m.preemptedRequestIds a polled with
      | (worker, false) => { s with worker := worker, failed := true }
      | (worker, true) =>
          { s with
            worker := worker
            step := .offering m.streamingSnapshotOffers finished
            owed := s.owed \ m.preemptedRequestIds.toFinset }
  | _ => s

def offer (c : LeaseCapacity) (s : StreamingEngine) (a : OfferAnswers) : StreamingEngine :=
  match s.step with
  | .offering (offer :: rest) finished =>
      match s.worker.offerCompleted c offer a with
      | (worker, false) => { s with worker := worker, failed := true }
      | (worker, true) => { s with worker := worker, step := .offering rest finished }
  | _ => s

def poll (c : LeaseCapacity) (s : StreamingEngine) (polled : PollAnswers) : StreamingEngine :=
  { s with worker := (s.worker.poll c polled).1, failed := !(s.worker.poll c polled).2 }

/-- A pass of the background thread; when it raises, the adapter's calls raise from then on. -/
def backgroundPoll (c : LeaseCapacity) (s : StreamingEngine) (polled : PollAnswers) : StreamingEngine :=
  match s.worker.poll c polled with
  | (worker, true) => { s with worker := worker }
  | (worker, false) => { s with worker := { worker with backgroundProgressFatal := true } }

def take (c : LeaseCapacity) (s : StreamingEngine) (polled : PollAnswers) (fence : ℕ → Option Bool) (reported : Bool) :
    StreamingEngine :=
  match s.step with
  | .offering [] finished =>
      match s.worker.takeFinished c finished polled fence with
      | (worker, none) => { s with worker := worker, failed := true }
      | (worker, some ready) =>
          { s with
            worker := worker
            scheduler := if reported then (s.scheduler.takeFinished ready).1 else s.scheduler
            step := .between
            returns := s.returns ++ [⟨ready, s.scheduler.delayed, worker.leases⟩]
            owed := (s.owed ∪ finished ∩ s.scheduler.delayed) \ ready
            unreported := if reported then s.unreported \ ready else s.unreported ∪ ready }
  | _ => s

/-- An exception ends the engine. -/
def next (c : LeaseCapacity) (s : StreamingEngine) (action : EngineAction) : StreamingEngine :=
  if s.failed = true then s
  else
    match action with
    | .finish requestId => s.finish requestId
    | .observe metadata => s.observe metadata
    | .preempt answers polled => s.preempt c answers polled
    | .offer answers => s.offer c answers
    | .poll polled => s.poll c polled
    | .backgroundPoll polled => s.backgroundPoll c polled
    | .take polled fence reported => s.take c polled fence reported

end StreamingEngine
end SparkCache.Streaming
