import SparkCache.Lib.Run
import SparkCache.Lib.Threads
import SparkCache.Loading.Flights

/-!
# Queued loads

The loaders of a worker take batches and loads from one queue. A batch registers the requests that
share a base and defers those that wait for another's read; who ends a read or a load releases them.
Each operation is one section under a lock, or one `put`.
-/
namespace SparkCache.Loading
variable {Key : Type*} [DecidableEq Key]

/-- `_QueuedLoad`; `failed` if it has a `prior_cuda_error`. -/
structure QueuedLoad where
  request : String
  failed : Bool
  deriving DecidableEq

inductive QueueItem where
  | batch (loads : List QueuedLoad)
  | load (load : QueuedLoad)
  deriving DecidableEq

/-- What the loaders share, with the requests that have been given and those that have been reported. -/
structure Loads (Key : Type*) where
  queue : List QueueItem
  deferred : List QueuedLoad
  planKeys : String → Option Key
  inflight : Finset String
  cancelled : Finset String
  reads : Flights Key
  given : Finset String
  reported : Finset String

/-- What `_prepare_page_base_read_cohorts` has decided so far. -/
structure Cohorts (Key : Type*) where
  priority : List QueuedLoad
  deferred : List QueuedLoad
  keys : List (String × Key)

/-- Who releases deferred loads: a batch, a loader after `resolve`, or a loader that ends a load. -/
inductive Release where
  | batch (promote : Bool)
  | resolved
  | ended
  deriving DecidableEq

/-- `promote_registered` -/
def Release.promotes : Release → Bool
  | batch promote => promote
  | resolved => false
  | ended => true

inductive Op (Key : Type*) where
  | put (item : QueueItem)
  | screen (loads : List QueuedLoad)
  | prepare (loads : List QueuedLoad)
  | register (loads : List QueuedLoad) (evidence : String → Option Key) (todo : List Key) (cohorts : Cohorts Key)
  | record (loads : List QueuedLoad) (cohorts : Cohorts Key)
  | cancelRead (request : String)
  | check (load : QueuedLoad)
  | checkAgain (request : String)
  | restore (request : String)
  | resolve (request : String) (key : Key)
  | fetch (request : String) (key : Key) (serial : ℕ)
  | await (request : String) (key : Key) (serial : ℕ)
  | report (request : String)
  | close (request : String)
  | readState (key : Key) (release : Release)
  | select (key : Key) (release : Release) (state : Option FlightState)
  | retire (request : String)

/-- What is open at an operation: the evidence that a batch finds (`none` if its preparation raises),
the base that a load asks for, whether its read is rejected, and the order of a set of keys. -/
structure Choice (Key : Type*) where
  evidence : Option (String → Option Key)
  base : Option Key
  rejected : Bool
  order : List Key

/-! ## Batches -/

/-- The requests of a batch that have a key. -/
def groupOf (loads : List QueuedLoad) (evidence : String → Option Key) (key : Key) : List QueuedLoad :=
  loads.filter fun load => evidence load.request = some key

/-- One group of the loop over `grouped`. -/
def Cohorts.add (cohorts : Cohorts Key) (group : List QueuedLoad) (key : Key) (registration : Registration) :
    Cohorts Key :=
  let members := group.filter fun load => load.request ∈ registration.memberIds
  let keys := cohorts.keys ++ members.map fun load => (load.request, key)
  if registration.flightState = some .ready ∨ registration.flightState = some .error then
    ⟨cohorts.priority ++ members, cohorts.deferred, keys⟩
  else
    let leads := fun load : QueuedLoad =>
      registration.flightState = some .registered ∧ registration.leader = some load.request
    ⟨cohorts.priority ++ members.filter (leads ·), cohorts.deferred ++ members.filter (¬leads ·), keys⟩

/-- The loads that are queued at once. -/
def Cohorts.runnable (cohorts : Cohorts Key) (loads : List QueuedLoad) : List QueuedLoad :=
  cohorts.priority ++ loads.filter fun load => load.request ∉ cohorts.keys.map Prod.fst

/-- `dict.update` -/
def updateKeys (planKeys : String → Option Key) (keys : List (String × Key)) : String → Option Key :=
  fun request => (keys.lookup request).orElse fun _ => planKeys request

/-- `dict.update` with one load -/
def putLoad (loads : List QueuedLoad) (load : QueuedLoad) : List QueuedLoad :=
  if load.request ∈ loads.map QueuedLoad.request then
    loads.map fun known => if known.request = load.request then load else known
  else loads ++ [load]

/-- The keys of `grouped`, in the order in which the batch has them. -/
def groupKeys (loads : List QueuedLoad) (evidence : String → Option Key) : List Key :=
  (loads.filterMap fun load => evidence load.request).reverse.dedup.reverse

/-- The keys of a set in the order that is chosen. -/
def inOrder (order keys : List Key) : List Key := if order.Perm keys then order else keys

/-- The section in which a batch records its decisions. -/
def Loads.recorded (s : Loads Key) (cohorts : Cohorts Key) : Loads Key :=
  { s with
    planKeys := updateKeys s.planKeys cohorts.keys
    deferred := cohorts.deferred.foldl putLoad s.deferred }

/-- What a batch does after it has recorded its decisions. -/
def afterRecord (s : Loads Key) (order : List Key) (loads : List QueuedLoad) (cohorts : Cohorts Key) : List (Op Key) :=
  let cancelled := loads.filter fun load => load.request ∈ s.cancelled
  cancelled.map (fun load => .cancelRead load.request) ++
    (cohorts.runnable loads).map (fun load => .put (.load load)) ++
    (inOrder order (cohorts.keys.map Prod.snd).dedup).map fun key => .readState key (.batch (cancelled ≠ []))

/-! ## Releases -/

/-- The deferred loads of a flight. -/
def Loads.matching (s : Loads Key) (key : Key) : List QueuedLoad :=
  s.deferred.filter fun load => s.planKeys load.request = some key

/-- The loads that a release selects. -/
def selected (matching : List QueuedLoad) (promotes : Bool) : Option FlightState → List QueuedLoad
  | none | some .ready | some .error => matching
  | some .registered => if promotes then matching.take 1 else []
  | some .reading => []

/-- A load of a flight that is gone is queued with an error. -/
def released (state : Option FlightState) (load : QueuedLoad) : QueuedLoad :=
  if state = none then { load with failed := true } else load

/-- What a loader does after the first section of `resolve`. -/
def afterResolve (request : String) (key : Key) : Flights.Admission → List (Op Key)
  | .leader serial => [.fetch request key serial]
  | .follower serial => [.await request key serial]
  | .bypassed | .cancelled => [.readState key .resolved, .report request]

/-! ## Operations -/

/-- The effect of an operation, and what the thread does next; `none` if it has to wait. -/
def effect (b : Bounds) (declared : Key → ℤ) (choice : Choice Key) (op : Op Key) (s : Loads Key) :
    Option (Loads Key × List (Op Key)) :=
  match op with
  | .put item => some ({ s with queue := s.queue ++ [item] }, [])
  -- `_prepare_queued_load_batch`
  | .screen loads =>
      let kept := loads.filter fun load => load.request ∉ s.cancelled
      some (s, (loads.filter fun load => load.request ∈ s.cancelled).map (fun load => .put (.load load)) ++
        if kept = [] then [] else [.prepare kept])
  | .prepare loads =>
      match choice.evidence with
      | none => some (s, loads.flatMap fun load =>
          [.cancelRead load.request, .put (.load { load with failed := true })])
      | some evidence =>
          some (s, [.register loads evidence (groupKeys loads evidence) ⟨[], [], []⟩])
  | .register loads _ [] cohorts => some (s, [.record loads cohorts])
  | .register loads evidence (key :: todo) cohorts =>
      let group := groupOf loads evidence key
      let (reads, registration) := s.reads.registerCohort b declared key (group.map QueuedLoad.request)
      some ({ s with reads := reads }, [.register loads evidence todo (cohorts.add group key registration)])
  | .record loads cohorts => some (s.recorded cohorts, afterRecord s choice.order loads cohorts)
  | .cancelRead request => some ({ s with reads := s.reads.cancel request }, [])
  -- `_load_worker_main`
  | .check load =>
      some (s, if load.request ∈ s.cancelled ∨ load.failed then [.report load.request] else [.checkAgain load.request])
  | .checkAgain request => some (s, if request ∈ s.cancelled then [.report request] else [.restore request])
  | .restore request =>
      match choice.base with
      | none => some (s, [.report request])
      | some key => some (s, [.resolve request key])
  | .resolve request key =>
      let (reads, admission) := s.reads.enter request key
      some ({ s with reads := reads }, afterResolve request key admission)
  | .fetch request key serial =>
      some ({ s with reads := s.reads.complete request key serial choice.rejected },
        [.readState key .resolved, .report request])
  | .await request key serial =>
      if s.reads.Settled request key serial then
        some ({ s with reads := s.reads.finish request }, [.readState key .resolved, .report request])
      else none
  | .report request => some ({ s with reported := insert request s.reported }, [.close request])
  | .close request =>
      some ({ s with reads := s.reads.finish request },
        (s.planKeys request).toList.map (fun key => .readState key .ended) ++ [.retire request])
  | .retire request =>
      some ({ s with
        planKeys := Function.update s.planKeys request none
        inflight := s.inflight.erase request
        cancelled := s.cancelled.erase request }, [])
  -- `_release_page_base_deferred`
  | .readState key release => some (s, [.select key release (s.reads.state key)])
  | .select key release state =>
      let chosen := selected (s.matching key) release.promotes state
      some ({ s with deferred := s.deferred.filter (· ∉ chosen) },
        chosen.map fun load => .put (.load (released state load)))

/-! ## Runs -/

/-- What the program of a loader is for an item. -/
def program : QueueItem → List (Op Key)
  | .batch loads => [.screen loads]
  | .load load => [.check load]

inductive Action (ι Key : Type*) where
  /-- A loader goes on with what it has left to do. -/
  | exec (lane : ι) (choice : Choice Key)
  /-- An idle loader takes the next item of the queue. -/
  | take (lane : ι)
  /-- `start_load_kv`; without pages there is no batch to prepare. -/
  | start (pages : Bool) (loads : List QueuedLoad)
  /-- The two sections of `request_finished`. -/
  | cancelLoad (request : String)
  | cancelRead (request : String)

section Runs
variable {ι : Type*} [DecidableEq ι]

abbrev Worker (ι Key : Type*) := Threads.Config ι (Op Key) (Loads Key)

def Loads.initial : Loads Key := ⟨[], [], fun _ => none, ∅, ∅, Flights.empty, ∅, ∅⟩

def Worker.initial : Worker ι Key := ⟨Loads.initial, fun _ => []⟩

/-- Requests are given anew: a report of an earlier load does not count. -/
def Loads.start (s : Loads Key) (pages : Bool) (loads : List QueuedLoad) : Loads Key :=
  let queued := loads.foldl putLoad []
  let requests := (queued.map QueuedLoad.request).toFinset
  { s with
    queue := s.queue ++ if pages then [.batch queued] else queued.map .load
    inflight := s.inflight ∪ requests
    given := s.given ∪ requests
    reported := s.reported \ requests }

def step (b : Bounds) (declared : Key → ℤ) (c : Worker ι Key) : Action ι Key → Worker ι Key
  | .exec lane choice => c.exec (effect b declared choice) lane
  | .take lane =>
      match c.left lane, c.shared.queue with
      | [], item :: rest => c.advance lane { c.shared with queue := rest } (program item)
      | _, _ => c
  | .start pages loads => ⟨c.shared.start pages loads, c.left⟩
  | .cancelLoad request => ⟨{ c.shared with cancelled := insert request c.shared.cancelled }, c.left⟩
  | .cancelRead request => ⟨{ c.shared with reads := c.shared.reads.cancel request }, c.left⟩

end Runs

end SparkCache.Loading
