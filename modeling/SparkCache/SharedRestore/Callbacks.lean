import SparkCache.Lib.Run
import SparkCache.SharedRestore.FlightTable

/-!
# Callbacks of the scheduler

The callbacks that change the flights, in any order: requests look restores up
and are allocated, loads are dispatched and reported, leases are published,
rejected and expire, and requests finish. The prefixes that a request may
restore, the quorum and the probe of the store are given with each call.
-/
namespace SparkCache.SharedRestore

structure Config where
  rows : Bool
  maxPendingRestores : ℕ
  leaseTtl : ℚ

/-- What a lookup answers: the number of tokens, `none` to be asked again, and whether they load
asynchronously. -/
abbrev Answer := Option ℕ × Bool

/-- What the scheduler knows about a request that looks a restore up. -/
structure Lookup where
  request : Str
  numComputed : ℕ
  /-- The scope of the request is accepted. -/
  inScope : Bool
  /-- Restores are enabled and the media of the request are identified. -/
  restorable : Bool
  /-- The prefixes from the first candidate on, or none when the prompt is too short for it. -/
  candidates : Option (List (ℕ × Str))
  quorum : Str → Bool
  /-- The probe of the store finds the root, or there is no probe. -/
  hit : Str → Bool

/-- A request that is scheduled for the first time. -/
structure Scheduled where
  request : Str
  /-- The scope that is exported with the request is rejected. -/
  rejected : Bool
  /-- A scope of the request is known. -/
  inScope : Bool
  /-- The root that the request would store. -/
  stored : Option Str

namespace Restores

/-! ## Lookups -/

/-- A request that follows a flight waits for its lease, or leaves the flight. -/
def followerLookup (s : Restores) (l : Lookup) : Restores × Option Answer :=
  match s.follower? l.request with
  | none => (s, none)
  | some b =>
      if 0 < l.numComputed then (s.removeFollower l.request, some (some 0, false))
      else if (s.flight? b.flightDigest).isSome ∧ l.numComputed < b.spanTokens then (s, some (none, false))
      else (s.removeFollower l.request, none)

/-- A request that leads a flight is done with it, waits for it, is offered it again, or gives it up. -/
def leaderLookup (s : Restores) (l : Lookup) : Restores × Option Answer :=
  match s.led? l.request with
  | none => (s, none)
  | some f =>
      if f.workersFinished ∧ f.spanTokens ≤ l.numComputed then (s.retire f.digest, some (some 0, false))
      else if f.dispatched ∨ l.request ∈ s.pendingLoads then (s, some (none, false))
      else if l.numComputed = 0 ∧ l.quorum f.digest then (s, some (some f.spanTokens, true))
      else ({ s.retire f.digest with needLoad := s.needLoad.erase l.request }, none)

/-- A new flight for the root that is selected. -/
def startFlight (s : Restores) (l : Lookup) (candidates : List (ℕ × Str)) (selected : ℕ × Str) : Restores :=
  let prefixes := candidates.filter fun p => p.1 < selected.1 ∧ l.quorum p.2
  { s with
    flights := s.flights ++ [.start selected.2 selected.1 l.request
      (prefixes.drop (prefixes.length - maxShareablePrefixes))]
    leaders := Function.update s.leaders l.request (some selected.2)
    needLoad := s.needLoad.insert l.request (selected.2, selected.1) }

/-- The rest of a lookup: a flight is joined or started. -/
def offer (c : Config) (s : Restores) (l : Lookup) (candidates : List (ℕ × Str)) : Restores × Answer :=
  match candidates.reverse.find? fun p => l.quorum p.2 with
  | none => (s, some 0, false)
  | some selected =>
      match s.flight? selected.2 with
      | some f =>
          if maxFlightFollowers ≤ f.followers.card then (s, some 0, false)
          else (s.join l.request f.digest (f.segment.getD (f.digest, selected.1)), none, false)
      | none =>
          match s.joinSegment c.rows l.request candidates selected.2 with
          | some joined => (joined, none, false)
          | none =>
              if c.maxPendingRestores ≤ s.flights.countP (·.lease.isNone) ∨
                  (l.request ∉ s.needLoad ∧ c.maxPendingRestores ≤ s.needLoad.size) ∨ !l.hit selected.2 then
                (s, some 0, false)
              else (s.startFlight l candidates selected, some selected.1, true)

/-- `get_num_new_matched_tokens` -/
def matchedTokens (c : Config) (s : Restores) (l : Lookup) : Restores × Answer :=
  if !l.inScope then (s.rejectScope l.request, some 0, false)
  else if !l.restorable then (s, some 0, false)
  else
    match s.followerLookup l with
    | (s, some answer) => (s, answer)
    | (s, none) =>
        match s.leaderLookup l with
        | (s, some answer) => (s, answer)
        | (s, none) =>
            if 0 < l.numComputed then (s, some 0, false)
            else
              match l.candidates with
              | none => (s, some 0, false)
              | some candidates => s.offer c l candidates

/-! ## Leases -/

/-- A published lease for one of the prefixes, the longest first; those of a prefix's own flight go
before others. -/
def publishedLease (s : Restores) (candidates : List (ℕ × Str)) : Option (RestoreFlight × Lease) :=
  let longest := candidates.reverse
  let leased (digest : Str) (f : RestoreFlight) : Option (RestoreFlight × Lease) :=
    f.lease.bind fun lease => if lease.digest = digest then some (f, lease) else none
  (longest.findSome? fun p => (s.flight? p.2).bind (leased p.2)).or
    (longest.findSome? fun p => s.flights.findSome? (leased p.2))

/-- The part of `get_shared_prefix_lease_candidate` after the request's own flight. -/
def joinLease (s : Restores) (request : Str) (candidates : List (ℕ × Str)) : Restores × Option (Str × ℕ) :=
  match s.publishedLease candidates with
  | none => (s, none)
  | some (f, lease) =>
      if request = f.leader ∨ maxFlightFollowers ≤ f.followers.card then (s, none)
      else (s.join request f.digest (lease.digest, lease.spanTokens), some (lease.digest, lease.spanTokens))

/-- `get_shared_prefix_lease_candidate` -/
def leaseCandidate (s : Restores) (request : Str) (inScope enabled : Bool) (candidates : Option (List (ℕ × Str)))
    (now : ℚ) : Restores × Option (Str × ℕ) :=
  if !inScope then (s.rejectScope request, none)
  else if !enabled then (s, none)
  else
    let s := s.expire now
    match s.follower? request with
    | some b =>
        match (s.flight? b.flightDigest).bind RestoreFlight.lease with
        | some lease => (s, if b.leaseDigest = lease.digest then some (b.leaseDigest, b.spanTokens) else none)
        | none => (s, none)
    | none =>
        match candidates with
        | none => (s, none)
        | some candidates => s.joinLease request candidates

/-- The flights with a published lease, the oldest lease first. -/
def published (s : Restores) : List RestoreFlight :=
  (s.flights.filter (·.lease.isSome)).insertionSort fun f g =>
    (f.lease.elim 0 Lease.publishedAt) ≤ g.lease.elim 0 Lease.publishedAt

/-- The oldest leases go when there are too many. -/
def evict (s : Restores) : Restores :=
  s.retireAll (s.published.take (s.published.length - maxSharedLeases))

/-- `shared_prefix_lease_published` -/
def leasePublished (c : Config) (s : Restores) (request key : Str) (now : ℚ) : Restores :=
  match s.led? request with
  | none => s
  | some f =>
      if f.workersFinished ∧ key = f.due.1 then
        (s.modify f.digest ({ · with lease := some ⟨key, f.due.2, now, now + c.leaseTtl⟩ })).evict
      else s

/-- `shared_prefix_lease_rejected` -/
def leaseRejected (s : Restores) (request key : Str) : Restores :=
  let left :=
    match s.follower? request with
    | none => s
    | some b => if b.leaseDigest = key then s.removeFollower request else s
  match left.led? request with
  | none => left
  | some f => left.retire f.digest

/-! ## Loads -/

/-- `update_state_after_alloc` -/
def afterAlloc (s : Restores) (request : Str) (inScope : Bool) (blocks : Finset ℕ) (external : Bool) : Restores :=
  let s := if inScope then s else s.rejectScope request
  match s.needLoad.lookup request with
  | none => s
  | some (digest, span) =>
      let s := { s with needLoad := s.needLoad.erase request }
      if external then { s with pendingLoads := s.pendingLoads.insert request (digest, span, blocks) }
      else s.retire digest

/-- A pending load is handed to the workers. -/
def dispatch (s : Restores) (load : Str × Str × ℕ × Finset ℕ) : Restores :=
  { s.modify load.2.1 (fun f =>
      if f.leader = load.1 then { f with restoredBlockIds := load.2.2.2, dispatched := true } else f) with
    admitted := s.admitted.insert load.1 (load.2.1, load.2.2.2) }

/-- A scheduled request needs no load, and one that would store what it was admitted for, is done. -/
def schedule (s : Restores) (r : Scheduled) : Restores :=
  if r.rejected then s.rejectScope r.request
  else if !r.inScope then s
  else
    { s with
      needLoad := s.needLoad.erase r.request
      admitted :=
        if (s.admitted.lookup r.request).any fun load => r.stored = some load.1 then s.admitted.erase r.request
        else s.admitted }

/-- `build_connector_meta`: the loads are handed out before the new requests are scheduled. -/
def buildMeta (s : Restores) (scheduled : List Scheduled) : Restores :=
  let dispatched := (s.pendingLoads.entries.reverse.map fun e => (e.1, e.2)).foldl dispatch s
  scheduled.foldl schedule { dispatched with pendingLoads := ∅ }

/-- An admitted load whose blocks are reported as invalid. -/
def failAdmitted (invalid : Finset ℕ) (s : Restores) (load : Str × Str × Finset ℕ) : Restores :=
  if (load.2.2 ∩ invalid).Nonempty then { s.retire load.2.1 with admitted := s.admitted.erase load.1 } else s

/-- The workers have finished the load of a request. -/
def receive (s : Restores) (request : Str) : Restores :=
  match s.led? request with
  | none => s
  | some f => if f.leaderFinished then s.retire f.digest else s.modify f.digest ({ · with workersFinished := true })

/-- `update_connector_output` -/
def output (s : Restores) (invalid : Finset ℕ) (received : List Str) : Restores :=
  let failed := (s.admitted.entries.reverse.map fun e => (e.1, e.2)).foldl (failAdmitted invalid) s
  received.foldl receive (failed.retireAll (failed.flights.filter fun f => (f.restoredBlockIds ∩ invalid).Nonempty))

/-! ## Finished requests -/

/-- What becomes of the flight that a finished request leads; how the request has finished only
counts in the statistics. -/
def finishLeader (s : Restores) (request : Str) : Restores :=
  match s.led? request with
  | none => s
  | some f =>
      if !f.dispatched then s.retire f.digest
      else if f.lease.isSome then
        { s.modify f.digest ({ · with leaderFinished := true }) with leaders := Function.update s.leaders request none }
      else if f.workersFinished then s.retire f.digest
      else s.modify f.digest ({ · with leaderFinished := true })

/-- `request_finished` -/
def requestFinished (s : Restores) (request : Str) : Restores :=
  let s := (s.removeFollower request).finishLeader request
  { s with
    needLoad := s.needLoad.erase request
    pendingLoads := s.pendingLoads.erase request
    admitted := s.admitted.erase request
    finished := insert request s.finished }

end Restores

/-! ## Runs -/

inductive Callback where
  | matchedTokens (lookup : Lookup)
  | leaseCandidate (request : Str) (inScope enabled : Bool) (candidates : Option (List (ℕ × Str))) (now : ℚ)
  | leasePublished (request key : Str) (now : ℚ)
  | leaseRejected (request key : Str)
  | afterAlloc (request : Str) (inScope : Bool) (blocks : Finset ℕ) (external : Bool)
  | buildMeta (scheduled : List Scheduled)
  | output (invalid : Finset ℕ) (received : List Str)
  | requestFinished (request : Str)

def step (c : Config) (s : Restores) : Callback → Restores
  | .matchedTokens lookup => (s.matchedTokens c lookup).1
  | .leaseCandidate request inScope enabled candidates now =>
      (s.leaseCandidate request inScope enabled candidates now).1
  | .leasePublished request key now => s.leasePublished c request key now
  | .leaseRejected request key => s.leaseRejected request key
  | .afterAlloc request inScope blocks external => s.afterAlloc request inScope blocks external
  | .buildMeta scheduled => s.buildMeta scheduled
  | .output invalid received => s.output invalid received
  | .requestFinished request => s.requestFinished request

/-- A digest names prefixes of one length, a request that has finished is not scheduled again, and
the workers report loads that they were given. -/
def Proper (spanOf : Str → ℕ) (s : Restores) : Callback → Prop
  | .matchedTokens lookup => lookup.request ∉ s.finished ∧
      ∀ candidates, lookup.candidates = some candidates → ∀ p ∈ candidates, p.1 = spanOf p.2
  | .output _ received => ∀ request ∈ received, ∀ f ∈ s.flights, f.leader = request → f.dispatched = true
  | _ => True

end SparkCache.SharedRestore
