import Mathlib.Data.List.ReduceOption
import SparkCache.Lib.Dictionary
import SparkCache.Lib.Run
import SparkCache.Streaming.ReadLeases

/-!
# Preemption of page captures

The serving thread submits captures and preempts requests; the progress thread moves a capture from the
queue through its native submission into the table of pending captures and out of it. A preempted
capture of a job is only marked, on the object that stands for it at that moment.
-/
namespace SparkCache.Streaming

/-- A plan, as far as the runtime distinguishes it: a job-leased capture has a job. -/
structure SubmittedCapture where
  requestId : String
  job : Option CaptureJob

/-- What a call of the ring, or the thread initializer, gives: a ticket or a view, nothing, or an exception. -/
inductive RingAnswer where
  | done
  | nothing
  | raises
  deriving DecidableEq

/-- Where the progress thread is: in its initializer, in a submission, with the requests left to submit,
or in the pass over the pending captures, with those left to poll and those that were taken. -/
inductive ProgressPhase where
  | starting
  | waiting
  | collectJobs
  | nextJob (requests : List String)
  | check (capture : ℕ) (requests : List String)
  | select (capture : ℕ) (requests : List String)
  | recheck (capture : ℕ) (requests : List String)
  | submitNative (capture : ℕ) (requests : List String)
  | drainNative (capture : ℕ) (requests : List String)
  | publish (capture : ℕ) (requests : List String)
  | leave (capture : ℕ) (requests : List String)
  | collectPending
  | poll (captures ready : List ℕ)
  | take (capture : ℕ) (captures ready : List ℕ)
  | deliver (ready : List ℕ)
  | undo (capture : ℕ) (ready : List ℕ)
  | failing
  | ended

/-- `ManagerPageCaptureRuntime`. A queued and a pending capture are different objects, each with its mark.
What was handed to `_complete_async_page_capture`, the publications that were aborted, and the captures
of jobs that a preemption has found before they were taken into a completion pass are recorded. -/
structure ManagerPageCaptureRuntime where
  captures : ℕ → Option SubmittedCapture
  allocated : ℕ
  queuedJobs : Dictionary String ℕ
  submittingJobs : Dictionary String ℕ
  pending : Dictionary String ℕ
  queuedAbandoned : Finset ℕ
  pendingAbandoned : Finset ℕ
  failedJobs : Finset CaptureJob
  drainingJobs : Finset CaptureJob
  jobEpoch : Option String
  jobHighWatermark : ℕ
  closed : Bool
  joined : Bool
  fatal : Bool
  phase : ProgressPhase
  draining : List ℕ
  handed : List ℕ
  aborted : List ℕ
  preempted : Finset ℕ

inductive CaptureAction where
  /-- `starts` tells whether the progress thread runs or can be started. -/
  | submitJob (requestId : String) (job : CaptureJob) (starts : Bool)
  | submitRequest (requestId : String) (answer : RingAnswer)
  | preempt (requestId : String)
  | quiesce
  | join
  | drain (answer : RingAnswer)
  | progress (answer : RingAnswer)

namespace ManagerPageCaptureRuntime

def new : ManagerPageCaptureRuntime where
  captures := fun _ => none
  allocated := 0
  queuedJobs := ∅
  submittingJobs := ∅
  pending := ∅
  queuedAbandoned := ∅
  pendingAbandoned := ∅
  failedJobs := ∅
  drainingJobs := ∅
  jobEpoch := none
  jobHighWatermark := 0
  closed := false
  joined := false
  fatal := false
  phase := .starting
  draining := []
  handed := []
  aborted := []
  preempted := ∅

def jobOf (s : ManagerPageCaptureRuntime) (capture : ℕ) : Option CaptureJob := (s.captures capture).bind SubmittedCapture.job

def requestOf (s : ManagerPageCaptureRuntime) (capture : ℕ) : String :=
  ((s.captures capture).map SubmittedCapture.requestId).getD ""

/-- The captures of a table. -/
def listed (table : Dictionary String ℕ) : List ℕ := table.entries.reverse.map (·.2)

/-- The jobs of captures. -/
def jobsOf (s : ManagerPageCaptureRuntime) (captures : List ℕ) : Finset CaptureJob := (captures.filterMap s.jobOf).toFinset

/-- `_job_read_is_owned_locked` -/
def Owned (s : ManagerPageCaptureRuntime) (job : CaptureJob) : Prop :=
  job ∈ s.failedJobs ∨ job ∈ s.drainingJobs ∨
    job ∈ s.jobsOf (listed s.queuedJobs ++ listed s.submittingJobs ++ listed s.pending)

instance (s : ManagerPageCaptureRuntime) (job : CaptureJob) : Decidable (s.Owned job) :=
  inferInstanceAs (Decidable (_ ∨ _))

/-- `submit` of a capture with a job. One that is not accepted is aborted at once. -/
def submitJob (s : ManagerPageCaptureRuntime) (requestId : String) (job : CaptureJob) (starts : Bool) :
    ManagerPageCaptureRuntime :=
  if s.Owned job ∨ s.closed = true ∨ s.fatal = true then s
  else if (s.jobEpoch ≠ none ∧ s.jobEpoch ≠ some job.epoch) ∨ job.sequence ≤ s.jobHighWatermark then s
  else
    let s := { s with jobEpoch := some job.epoch, jobHighWatermark := job.sequence }
    if s.queuedJobs.lookup requestId ≠ none ∨ s.submittingJobs.lookup requestId ≠ none ∨
        s.pending.lookup requestId ≠ none ∨ starts = false then s
    else
      { s with
        captures := Function.update s.captures s.allocated (some ⟨requestId, some job⟩)
        allocated := s.allocated + 1
        queuedJobs := s.queuedJobs.insert requestId s.allocated }

/-- `_submit_request`; the ring is called under the lock. -/
def submitRequest (s : ManagerPageCaptureRuntime) (requestId : String) (answer : RingAnswer) :
    ManagerPageCaptureRuntime :=
  if s.closed = true ∨ s.fatal = true ∨ s.pending.lookup requestId ≠ none then s
  else
    match answer with
    | .done =>
        { s with
          captures := Function.update s.captures s.allocated (some ⟨requestId, none⟩)
          allocated := s.allocated + 1
          pending := s.pending.insert requestId s.allocated }
    | _ => s

/-- The captures with jobs that a preemption of a request finds. -/
def found (s : ManagerPageCaptureRuntime) (requestId : String) : Finset ℕ :=
  (([s.queuedJobs.lookup requestId, s.submittingJobs.lookup requestId, s.pending.lookup requestId].reduceOption).filter
    fun capture => (s.jobOf capture).isSome).toFinset

/-- `preempt` -/
def preempt (s : ManagerPageCaptureRuntime) (requestId : String) : ManagerPageCaptureRuntime :=
  let s := { s with preempted := s.preempted ∪ s.found requestId }
  match (s.queuedJobs.lookup requestId).orElse fun _ => s.submittingJobs.lookup requestId with
  | some capture => { s with queuedAbandoned := insert capture s.queuedAbandoned }
  | none =>
      match s.pending.lookup requestId with
      | none => s
      | some capture =>
          if (s.jobOf capture).isSome then { s with pendingAbandoned := insert capture s.pendingAbandoned }
          else { s with pending := s.pending.erase requestId, aborted := s.aborted ++ [capture] }

/-- The first section of `quiesce`. -/
def quiesce (s : ManagerPageCaptureRuntime) : ManagerPageCaptureRuntime :=
  if s.closed = true then s
  else
    { s with
      closed := true
      queuedAbandoned := s.queuedAbandoned ∪ (listed s.queuedJobs ++ listed s.submittingJobs).toFinset }

/-- The second section of `quiesce`, when the progress thread has ended. -/
def join (s : ManagerPageCaptureRuntime) : ManagerPageCaptureRuntime :=
  match s.phase with
  | .ended =>
      if s.closed = true ∧ s.joined = false then
        { s with
          joined := true
          drainingJobs := s.drainingJobs ∪ s.jobsOf (listed s.pending)
          pending := ∅
          queuedJobs := ∅
          draining := listed s.pending
          aborted := s.aborted ++ listed s.queuedJobs }
      else s
  | _ => s

/-- One drain at the end of `quiesce`. -/
def drain (s : ManagerPageCaptureRuntime) (answer : RingAnswer) : ManagerPageCaptureRuntime :=
  match s.draining with
  | [] => s
  | capture :: rest =>
      if answer = .raises then { s with draining := [] }
      else
        { s with
          draining := rest
          drainingJobs := s.drainingJobs \ s.jobsOf [capture]
          aborted := s.aborted ++ [capture] }

def enter (s : ManagerPageCaptureRuntime) (phase : ProgressPhase) : ManagerPageCaptureRuntime := { s with phase := phase }

/-- `_abort_async_page_capture`, before the progress thread goes on. -/
def abortCapture (s : ManagerPageCaptureRuntime) (capture : ℕ) (phase : ProgressPhase) : ManagerPageCaptureRuntime :=
  { s with aborted := s.aborted ++ [capture], phase := phase }

/-- The ring is polled for a capture: one without a job only while its request is pending. -/
def Polls (s : ManagerPageCaptureRuntime) (capture : ℕ) : Prop :=
  (s.jobOf capture).isSome = true ∨ s.pending.lookup (s.requestOf capture) ≠ none

instance (s : ManagerPageCaptureRuntime) (capture : ℕ) : Decidable (s.Polls capture) :=
  inferInstanceAs (Decidable (_ ∨ _))

/-- A step of the progress thread: `_progress_main`, `_progress_once` and `_submit_queued_job`. -/
def progress (s : ManagerPageCaptureRuntime) (answer : RingAnswer) : ManagerPageCaptureRuntime :=
  match s.phase with
  | .starting => s.enter (if answer = .raises then .failing else .waiting)
  | .waiting => s.enter (if s.closed then .ended else .collectJobs)
  | .collectJobs => s.enter (.nextJob (s.queuedJobs.entries.reverse.map (·.1)))
  | .nextJob [] => s.enter .collectPending
  | .nextJob (requestId :: rest) =>
      match s.queuedJobs.lookup requestId with
      | none => s.enter (.nextJob rest)
      | some capture =>
          { s with
            queuedJobs := s.queuedJobs.erase requestId
            submittingJobs := s.submittingJobs.insert requestId capture
            phase := .check capture rest }
  | .check capture rest =>
      if capture ∈ s.queuedAbandoned ∨ s.closed = true ∨ s.fatal = true then s.abortCapture capture (.leave capture rest)
      else s.enter (.select capture rest)
  | .select capture rest =>
      if answer = .raises then s.abortCapture capture (.leave capture rest) else s.enter (.recheck capture rest)
  | .recheck capture rest =>
      if capture ∈ s.queuedAbandoned then s.abortCapture capture (.leave capture rest)
      else s.enter (.submitNative capture rest)
  | .submitNative capture rest =>
      match answer with
      | .done => s.enter (.publish capture rest)
      | .nothing => s.abortCapture capture (.leave capture rest)
      | .raises => s.enter (.drainNative capture rest)
  | .drainNative capture rest =>
      if answer = .raises then
        { s.abortCapture capture (.leave capture rest) with
          fatal := true
          failedJobs := s.failedJobs ∪ s.jobsOf [capture] }
      else s.abortCapture capture (.leave capture rest)
  | .publish capture rest =>
      { s with
        pending := s.pending.insert (s.requestOf capture) capture
        pendingAbandoned := if capture ∈ s.queuedAbandoned then insert capture s.pendingAbandoned else s.pendingAbandoned
        phase := .leave capture rest }
  | .leave capture rest =>
      { s with submittingJobs := s.submittingJobs.erase (s.requestOf capture), phase := .nextJob rest }
  | .collectPending =>
      if s.fatal = true then { s with failedJobs := s.failedJobs ∪ s.jobsOf (listed s.pending), phase := .waiting }
      else s.enter (.poll (listed s.pending) [])
  | .poll [] ready => s.enter (.deliver ready)
  | .poll (capture :: rest) ready =>
      if s.Polls capture then
        match answer with
        | .done => s.enter (.take capture rest ready)
        | .nothing => s.enter (.poll rest ready)
        | .raises => s.enter .failing
      else s.enter (.poll rest ready)
  | .take capture rest ready =>
      if s.pending.lookup (s.requestOf capture) = none then s.enter (.poll rest ready)
      else { s with pending := s.pending.erase (s.requestOf capture), phase := .poll rest (ready ++ [capture]) }
  | .deliver [] => s.enter .waiting
  | .deliver (capture :: rest) =>
      if capture ∈ s.pendingAbandoned then
        if answer = .raises then s.enter (.undo capture rest) else s.abortCapture capture (.deliver rest)
      else
        match answer with
        | .done => { s with handed := s.handed ++ [capture], phase := .deliver rest }
        | .nothing => s.enter (.undo capture rest)
        | .raises => { s with handed := s.handed ++ [capture], phase := .undo capture rest }
  | .undo capture rest =>
      if answer = .raises then s.enter .failing else s.abortCapture capture (.deliver rest)
  | .failing =>
      { s with
        fatal := true
        failedJobs := s.failedJobs ∪ s.jobsOf (listed s.pending ++ listed s.submittingJobs)
        aborted := s.aborted ++ listed s.pending ++ listed s.queuedJobs
        queuedJobs := ∅
        phase := .ended }
  | .ended => s

def step (s : ManagerPageCaptureRuntime) : CaptureAction → ManagerPageCaptureRuntime
  | .submitJob requestId job starts => s.submitJob requestId job starts
  | .submitRequest requestId answer => s.submitRequest requestId answer
  | .preempt requestId => s.preempt requestId
  | .quiesce => s.quiesce
  | .join => s.join
  | .drain answer => s.drain answer
  | .progress answer => s.progress answer

end ManagerPageCaptureRuntime
end SparkCache.Streaming
