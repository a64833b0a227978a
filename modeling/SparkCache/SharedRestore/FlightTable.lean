import Mathlib.Data.List.MinMax
import Mathlib.Data.List.Sort
import SparkCache.Digest
import SparkCache.Lib.Dictionary

/-!
# Restore flights

Requests that share a prefix share its restore. The scheduler keeps a flight for
each restore that it offers, led by the request that loads it; the requests that
follow a flight wait for the lease that it publishes.
-/
namespace SparkCache.SharedRestore

/-- `_MAX_RESTORE_FLIGHT_FOLLOWERS` -/
def maxFlightFollowers : ℕ := 16

/-- `_MAX_SHARED_PREFIX_LEASES` -/
def maxSharedLeases : ℕ := 2

/-- `_MAX_SHAREABLE_PREFIXES_PER_FLIGHT` -/
def maxShareablePrefixes : ℕ := 64

/-- The lease of a flight, once it is published. -/
structure Lease where
  digest : Str
  spanTokens : ℕ
  publishedAt : ℚ
  expiresAt : ℚ

/-- `_RestoreFlight` -/
structure RestoreFlight where
  digest : Str
  spanTokens : ℕ
  leader : Str
  followers : Finset Str
  restoredBlockIds : Finset ℕ
  dispatched : Bool
  workersFinished : Bool
  leaderFinished : Bool
  shareablePrefixes : List (ℕ × Str)
  /-- `segment_digest` and `segment_span_tokens` -/
  segment : Option (Str × ℕ)
  lease : Option Lease

/-- `_lease_publication_candidates` -/
def RestoreFlight.due (f : RestoreFlight) : Str × ℕ := f.segment.getD (f.digest, f.spanTokens)

/-- A flight that has just started. -/
def RestoreFlight.start (digest : Str) (spanTokens : ℕ) (leader : Str) (prefixes : List (ℕ × Str)) :
    RestoreFlight :=
  ⟨digest, spanTokens, leader, ∅, ∅, false, false, false, prefixes, none, none⟩

/-- `_RestoreFollower`, with the request that waits -/
structure RestoreFollower where
  request : Str
  flightDigest : Str
  leaseDigest : Str
  spanTokens : ℕ

/-- The tables of the scheduler. Flights stand in the order in which they started. -/
structure Restores where
  flights : List RestoreFlight
  leaders : Str → Option Str
  followers : List RestoreFollower
  needLoad : Dictionary Str (Str × ℕ)
  pendingLoads : Dictionary Str (Str × ℕ × Finset ℕ)
  admitted : Dictionary Str (Str × Finset ℕ)
  /-- The requests that have finished; the scheduler does not keep them. -/
  finished : Finset Str

namespace Restores

def initial : Restores := ⟨[], fun _ => none, [], ∅, ∅, ∅, ∅⟩

def flight? (s : Restores) (digest : Str) : Option RestoreFlight := s.flights.find? (·.digest = digest)

def follower? (s : Restores) (request : Str) : Option RestoreFollower := s.followers.find? (·.request = request)

/-- The flight that a request leads. -/
def led? (s : Restores) (request : Str) : Option RestoreFlight := (s.leaders request).bind s.flight?

/-- An assignment to fields of a flight. -/
def modify (s : Restores) (digest : Str) (g : RestoreFlight → RestoreFlight) : Restores :=
  { s with flights := s.flights.map fun f => if f.digest = digest then g f else f }

/-- `_retire_restore_flight` -/
def retire (s : Restores) (digest : Str) : Restores :=
  match s.flight? digest with
  | none => s
  | some f =>
      { s with
        flights := s.flights.filter (·.digest ≠ digest)
        leaders := Function.update s.leaders f.leader none
        followers := s.followers.filter (·.request ∉ f.followers) }

/-- The segment of a flight goes when its last follower leaves before the lease is published. -/
def leave (f : RestoreFlight) (follower : RestoreFollower) (needed : Bool) : RestoreFlight :=
  { f with
    followers := f.followers.erase follower.request
    segment :=
      if f.segment.map Prod.fst = some follower.leaseDigest ∧ f.lease.isNone ∧ !needed then none else f.segment }

/-- `_remove_restore_follower` -/
def removeFollower (s : Restores) (request : Str) : Restores :=
  match s.follower? request with
  | none => s
  | some b =>
      let others := s.followers.filter (·.request ≠ request)
      let needed := others.any fun other => other.flightDigest = b.flightDigest && other.leaseDigest = b.leaseDigest
      { s.modify b.flightDigest (leave · b needed) with followers := others }

/-- A request waits for the lease of a flight. -/
def join (s : Restores) (request flightDigest : Str) (due : Str × ℕ) : Restores :=
  { s.modify flightDigest fun f => { f with followers := insert request f.followers } with
    followers := s.followers.filter (·.request ≠ request) ++ [⟨request, flightDigest, due.1, due.2⟩] }

/-- `by_digest` -/
def spanByDigest (candidates : List (ℕ × Str)) (digest : Str) : Option ℕ :=
  (candidates.reverse.find? (·.2 = digest)).map Prod.fst

/-- The flights that can be joined through a common prefix, each with its longest one. -/
def segmentMatches (s : Restores) (candidates : List (ℕ × Str)) (selected : Str) :
    List (ℕ × RestoreFlight × Str) :=
  s.flights.filterMap fun f =>
    if f.digest = selected ∨ f.leaderFinished ∨ f.dispatched then none
    else
      (f.shareablePrefixes.reverse.find? fun p =>
        spanByDigest candidates p.2 = some p.1 ∧
          (f.segment.isNone ∨ f.segment.map Prod.fst = some p.2)).map fun p => (p.1, f, p.2)

/-- A flight without a segment takes one, and its followers wait for it. -/
def takeSegment (s : Restores) (f : RestoreFlight) (segment : Str × ℕ) : Restores :=
  if f.segment.isSome then s
  else
    { s.modify f.digest ({ · with segment := some segment }) with
      followers := s.followers.map fun b =>
        if b.flightDigest = f.digest then ⟨b.request, f.digest, segment.1, segment.2⟩ else b }

/-- `_join_segment_restore_flight`; `none` when no flight is joined -/
def joinSegment (s : Restores) (rows : Bool) (request : Str) (candidates : List (ℕ × Str)) (selected : Str) :
    Option Restores :=
  if rows then
    match (s.segmentMatches candidates selected).argmax Prod.fst with
    | none => none
    | some found =>
        if maxFlightFollowers ≤ found.2.1.followers.card then none
        else some ((s.takeSegment found.2.1 (found.2.2, found.1)).join request found.2.1.digest (found.2.2, found.1))
  else none

/-- Flights that are retired one after another. -/
def retireAll (s : Restores) (flights : List RestoreFlight) : Restores :=
  flights.foldl (fun s f => s.retire f.digest) s

/-- `_expire_shared_prefix_flights` -/
def expire (s : Restores) (now : ℚ) : Restores :=
  s.retireAll (s.flights.filter fun f => f.lease.any fun lease => lease.expiresAt ≤ now)

/-- What `_remember_request_scope` does to the flights when the scope of a request is rejected. -/
def rejectScope (s : Restores) (request : Str) : Restores :=
  let left := s.removeFollower request
  match left.led? request with
  | none => left
  | some f => if f.dispatched then left else left.retire f.digest

end Restores

end SparkCache.SharedRestore
