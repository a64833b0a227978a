import SparkCache.Lib.Dictionary
import SparkCache.Loading.Flights

/-!
# Shared reads of page bases

The coordinator of page-base reads with the bytes that it retains. Threads that wait for a flight hold
on to it when it has left the table, and a key may get a new flight meanwhile, so that flights live
in a heap and the table refers to them.
-/
namespace SparkCache.Loading

inductive ReadState where
  | registered
  | reading
  | ready
  | error
  | closed
  deriving DecidableEq

/-- What a read gives: bytes, or a `PageBaseReadResult` with its byte charge. -/
inductive Readable (V : Type*) where
  | bytes (data : List UInt8)
  | result (value : V) (encodedBytes : ℤ)

def Readable.size {V : Type*} : Readable V → ℤ
  | .bytes data => data.length
  | .result _ encodedBytes => encodedBytes

/-- How a reader ends: a charge may be no integer, and an exception is caught or not. -/
inductive ReaderOutcome (V : Type*) where
  | bytes (data : List UInt8)
  | result (value : V) (encodedBytes : Option ℤ)
  | other
  | raised (typeName message : String)
  | interrupted

/-- `_Flight` -/
structure SharedFlight (Key V : Type*) where
  key : Key
  members : Finset String
  state : ReadState
  leader : Option String
  designatedLeader : Option String
  result : Option (Readable V)
  error : Option String
  cancelled : Finset String
  participantCount : ℕ

/-- `PageBaseReadFlights` -/
structure PageBaseReadFlights (Key V : Type*) where
  heap : ℕ → Option (SharedFlight Key V)
  allocated : ℕ
  flights : Dictionary Key ℕ
  requestKeys : Dictionary String Key
  closed : Bool

/-- `PageBaseReadCancelled` or another `PageBaseReadError` -/
structure ReadError where
  cancelled : Bool
  message : String

/-- What a read gives, checked by its reader; an error carries its text. -/
def ReaderOutcome.check {V : Type*} (declared : ℤ) : ReaderOutcome V → Option (Except String (Readable V))
  | .result value (some encodedBytes) =>
      if encodedBytes ≤ 0 then some (.error "TypeError: page-base reader result has an invalid byte charge")
      else if encodedBytes ≠ declared then
        some (.error "PageBaseReadError: page-base reader length differs from authenticated geometry")
      else some (.ok (.result value encodedBytes))
  | .result _ none => some (.error "TypeError: page-base reader result has an invalid byte charge")
  | .bytes data =>
      if (data.length : ℤ) ≠ declared then
        some (.error "PageBaseReadError: page-base reader length differs from authenticated geometry")
      else some (.ok (.bytes data))
  | .other => some (.error "TypeError: page-base reader must return bytes or an authenticated result")
  | .raised typeName message => some (.error (typeName ++ ": " ++ message))
  | .interrupted => none

namespace PageBaseReadFlights
variable {Key V : Type*} [DecidableEq Key]

def new : PageBaseReadFlights Key V := ⟨fun _ => none, 0, ∅, ∅, false⟩

def write (s : PageBaseReadFlights Key V) (id : ℕ) (flight : SharedFlight Key V) : PageBaseReadFlights Key V :=
  { s with heap := Function.update s.heap id (some flight) }

/-- The flight of a key, with its place in the heap. -/
def flight (s : PageBaseReadFlights Key V) (key : Key) : Option (ℕ × SharedFlight Key V) :=
  (s.flights.lookup key).bind fun id => (s.heap id).map fun flight => (id, flight)

/-- The flight of a key that has none. -/
def create (b : Bounds) (declared : Key → ℤ) (s : PageBaseReadFlights Key V) (key : Key) :
    Option (SharedFlight Key V) :=
  let reserved := (s.flights.entries.map fun entry => 2 * declared entry.1).sum
  if declared key ≤ 0 ∨ (b.maxBytesPerFlight : ℤ) < declared key ∨
      (b.maxBytesTotal : ℤ) < reserved + 2 * declared key ∨ b.maxFlights ≤ s.flights.size then none
  else some ⟨key, ∅, .registered, none, none, none, none, ∅, 0⟩

/-- The requests that join a flight, one after another. -/
def join (b : Bounds) (key : Key) : List String → SharedFlight Key V → Dictionary String Key →
    SharedFlight Key V × Dictionary String Key × List String
  | [], flight, requestKeys => (flight, requestKeys, [])
  | request :: rest, flight, requestKeys =>
      if requestKeys.lookup request ≠ none ∨ b.maxMembers ≤ flight.participantCount then
        join b key rest flight requestKeys
      else
        let joined := join b key rest
          { flight with
            members := insert request flight.members
            participantCount := flight.participantCount + 1 }
          (requestKeys.insert request key)
        (joined.1, joined.2.1, request :: joined.2.2)

/-- `register_cohort` -/
def registerCohort (b : Bounds) (declared : Key → ℤ) (s : PageBaseReadFlights Key V) (key : Key)
    (requests : List String) : PageBaseReadFlights Key V :=
  if requests = [] ∨ "" ∈ requests ∨ s.closed = true then s
  else
    let known := s.flight key
    if known.map (fun found => found.2.state) = some .error then s
    else
      match known.orElse fun _ => (create b declared s key).map (s.allocated, ·) with
      | none => s
      | some (id, flight) =>
          let (flight, requestKeys, selected) := join b key requests flight s.requestKeys
          if selected = [] then s
          else
            let designated := flight.designatedLeader.orElse fun _ => requests.find? (· ∈ flight.members)
            { s.write id { flight with designatedLeader := designated } with
              allocated := if known.isSome then s.allocated else s.allocated + 1
              flights := if known.isSome then s.flights else s.flights.insert key id
              requestKeys := requestKeys }

/-- `_finish_locked` -/
def finish (s : PageBaseReadFlights Key V) (request : String) : PageBaseReadFlights Key V :=
  match s.requestKeys.lookup request with
  | none => s
  | some key =>
      let left := { s with requestKeys := s.requestKeys.erase request }
      match s.flight key with
      | none => left
      | some (id, flight) =>
          let kept := { flight with
            members := flight.members.erase request
            cancelled := flight.cancelled.erase request }
          if kept.members ≠ ∅ then left.write id kept
          else { left with flights := left.flights.erase key }.write id { kept with result := none, error := none }

/-- What `resolve` decides for a request. -/
inductive Entry where
  | leader (id : ℕ)
  | follower (id : ℕ)
  | bypassed
  | raised (error : ReadError)

/-- A request is a registered member of the flight of a key. -/
def Member (s : PageBaseReadFlights Key V) (request : String) (key : Key) : Prop :=
  s.requestKeys.lookup request = some key ∧ ∃ found ∈ s.flight key, request ∈ found.2.members

instance (s : PageBaseReadFlights Key V) (request : String) (key : Key) : Decidable (s.Member request key) :=
  inferInstanceAs (Decidable (_ ∧ ∃ found ∈ s.flight key, request ∈ found.2.members))

/-- The first section of `resolve`. -/
def enter (s : PageBaseReadFlights Key V) (request : String) (key : Key) : PageBaseReadFlights Key V × Entry :=
  if s.closed = true then (s.finish request, .raised ⟨true, "page-base coordinator is closed"⟩)
  else
    match s.flight key with
    | none => (s.finish request, .bypassed)
    | some (id, flight) =>
        if s.requestKeys.lookup request ≠ some key ∨ request ∉ flight.members then (s.finish request, .bypassed)
        else if request ∈ flight.cancelled then
          (s.finish request, .raised ⟨true, "page-base request left the registered cohort"⟩)
        else if flight.state = .registered then
          (s.write id { flight with state := .reading, leader := some request }, .leader id)
        else (s, .follower id)

/-- A flight whose read has ended. -/
def endRead (flight : SharedFlight Key V) : Except String (Readable V) → SharedFlight Key V
  | .ok readable => { flight with result := some readable, state := .ready }
  | .error message => { flight with error := some message, state := .error }

/-- What the call of a reader returns; it may have left meanwhile. -/
def leaderAnswer (flight : SharedFlight Key V) (read : Except String (Readable V)) (left : Bool) :
    Except ReadError (Readable V) :=
  if left then .error ⟨true, "page-base leader left the registered cohort"⟩
  else
    match read, flight.result with
    | .error _, _ => .error ⟨false, flight.error.getD "page-base read rejected"⟩
    | .ok _, none => .error ⟨false, "page-base result was released before use"⟩
    | .ok _, some readable => .ok readable

/-- The reader's section after its read, with what its call returns. -/
def settle (s : PageBaseReadFlights Key V) (id : ℕ) (request : String) (key : Key)
    (read : Except String (Readable V)) : PageBaseReadFlights Key V × Except ReadError (Readable V) :=
  match s.heap id with
  | none => (s, .error ⟨false, "page-base result was released before use"⟩)
  | some flight =>
      let settled := if s.flights.lookup key = some id then endRead flight read else flight
      ((s.write id settled).finish request,
        leaderAnswer settled read (decide (request ∈ settled.cancelled ∨ s.closed = true)))

/-- The last section of a follower; none while it has to wait. -/
def acquire (s : PageBaseReadFlights Key V) (id : ℕ) (request : String) :
    Option (PageBaseReadFlights Key V × Except ReadError (Readable V)) := do
  let flight ← s.heap id
  if request ∈ flight.cancelled ∨ s.closed = true then
    return (s.finish request, .error ⟨true, "page-base follower left the registered cohort"⟩)
  else
    match flight.state with
    | .error => return (s.finish request, .error ⟨false, flight.error.getD "page-base read rejected"⟩)
    | .ready =>
        match flight.result with
        | none => return (s.finish request, .error ⟨false, "page-base result was released before use"⟩)
        | some readable => return (s.finish request, .ok readable)
    | _ => none

/-- `cancel` -/
def cancel (s : PageBaseReadFlights Key V) (request : String) : PageBaseReadFlights Key V :=
  match (s.requestKeys.lookup request).bind s.flight with
  | none => s
  | some (id, flight) => s.write id { flight with cancelled := insert request flight.cancelled }

/-- A flight when the coordinator is closed. -/
def closeFlight (flight : SharedFlight Key V) : SharedFlight Key V :=
  { flight with
    cancelled := flight.cancelled ∪ flight.members
    state := if flight.state ≠ .error then .closed else flight.state }

/-- `close` -/
def close (s : PageBaseReadFlights Key V) : PageBaseReadFlights Key V :=
  s.requestKeys.keys.foldl finish { s with
    closed := true
    heap := fun id => if id ∈ s.flights.entries.map (·.2) then (s.heap id).map closeFlight else s.heap id }

/-! ## What every section keeps -/

structure Sound (b : Bounds) (declared : Key → ℤ) (s : PageBaseReadFlights Key V) : Prop where
  table : ∀ key id, s.flights.lookup key = some id →
    0 < declared key ∧ ∃ flight, s.heap id = some flight ∧ flight.key = key ∧ flight.members.Nonempty
  members : ∀ id flight request, s.heap id = some flight →
    (request ∈ flight.members ↔
      s.flights.lookup flight.key = some id ∧ s.requestKeys.lookup request = some flight.key)
  keyed : ∀ request key, s.requestKeys.lookup request = some key → s.flights.lookup key ≠ none
  gone : ∀ id flight, s.heap id = some flight → s.flights.lookup flight.key ≠ some id → flight.result = none
  allocated : ∀ id, s.allocated ≤ id → s.heap id = none
  participants : ∀ id flight, s.heap id = some flight →
    flight.members.card ≤ flight.participantCount ∧ flight.participantCount ≤ b.maxMembers
  size : s.flights.size ≤ b.maxFlights
  bytes : (s.flights.entries.map fun entry => 2 * declared entry.1).sum ≤ b.maxBytesTotal

variable {b : Bounds} {declared : Key → ℤ} {s s' : PageBaseReadFlights Key V}

theorem new_sound (b : Bounds) (declared : Key → ℤ) : (new : PageBaseReadFlights Key V).Sound b declared := by
  refine ⟨?_, ?_, ?_, ?_, fun _ _ => rfl, ?_, Nat.zero_le _, Int.natCast_nonneg _⟩
  all_goals simp [new]

theorem flight_eq_some {key : Key} {id : ℕ} {flight : SharedFlight Key V} :
    s.flight key = some (id, flight) ↔ s.flights.lookup key = some id ∧ s.heap id = some flight := by
  simp [PageBaseReadFlights.flight, Option.bind_eq_some_iff]

omit [DecidableEq Key] in
@[simp] theorem write_heap_self (s : PageBaseReadFlights Key V) (id : ℕ) (flight : SharedFlight Key V) :
    (s.write id flight).heap id = some flight :=
  Function.update_self ..

/-- Every key of a request is a key of a flight, with the request among its members. -/
theorem Sound.flight_of_key (h : s.Sound b declared) {request : String} {key : Key}
    (hkey : s.requestKeys.lookup request = some key) :
    ∃ id flight, s.flight key = some (id, flight) ∧ flight.key = key ∧ request ∈ flight.members := by
  obtain ⟨id, hid⟩ := Option.ne_none_iff_exists'.mp (h.keyed request key hkey)
  obtain ⟨-, flight, hflight, rfl, -⟩ := h.table key id hid
  exact ⟨id, flight, flight_eq_some.mpr ⟨hid, hflight⟩, rfl, (h.members id flight request hflight).mpr ⟨hid, hkey⟩⟩

theorem Sound.member_iff (h : s.Sound b declared) {request : String} {key : Key} :
    s.Member request key ↔ s.requestKeys.lookup request = some key := by
  refine ⟨fun hmember => hmember.1, fun hkey => ⟨hkey, ?_⟩⟩
  obtain ⟨id, flight, hflight, -, hmem⟩ := h.flight_of_key hkey
  exact ⟨(id, flight), hflight, hmem⟩

/-- Flights change, but for their keys and members. -/
theorem Sound.update (h : s.Sound b declared) (closed : Bool) {heap : ℕ → Option (SharedFlight Key V)}
    (hsame : ∀ id flight', heap id = some flight' → ∃ flight, s.heap id = some flight ∧ flight'.key = flight.key ∧
      flight'.members = flight.members ∧ flight'.participantCount = flight.participantCount ∧
      (s.flights.lookup flight.key ≠ some id → flight'.result = flight.result))
    (hkept : ∀ id flight, s.heap id = some flight → ∃ flight', heap id = some flight') :
    ({ s with heap := heap, closed := closed } : PageBaseReadFlights Key V).Sound b declared := by
  refine ⟨?_, ?_, h.keyed, ?_, ?_, ?_, h.size, h.bytes⟩
  · intro key id hid
    obtain ⟨hpositive, flight, hflight, hkey, hmembers⟩ := h.table key id hid
    obtain ⟨flight', hflight'⟩ := hkept id flight hflight
    obtain ⟨known, hknown, hkey', hmembers', -⟩ := hsame id flight' hflight'
    rw [hflight, Option.some.injEq] at hknown
    subst hknown
    exact ⟨hpositive, flight', hflight', hkey'.trans hkey, by rw [hmembers']; exact hmembers⟩
  · intro id flight' request hflight'
    obtain ⟨flight, hflight, hkey, hmembers, -⟩ := hsame id flight' hflight'
    rw [hkey, hmembers]
    exact h.members id flight request hflight
  · intro id flight' hflight' hgone
    obtain ⟨flight, hflight, hkey, -, -, hresult⟩ := hsame id flight' hflight'
    rw [hkey] at hgone
    rw [hresult hgone]
    exact h.gone id flight hflight hgone
  · intro id hid
    rw [Option.eq_none_iff_forall_ne_some]
    intro flight' hflight'
    obtain ⟨flight, hflight, -⟩ := hsame id flight' hflight'
    rw [h.allocated id hid] at hflight
    cases hflight
  · intro id flight' hflight'
    obtain ⟨flight, hflight, -, hmembers, hcount, -⟩ := hsame id flight' hflight'
    rw [hmembers, hcount]
    exact h.participants id flight hflight

theorem Sound.write (h : s.Sound b declared) {id : ℕ} {flight flight' : SharedFlight Key V}
    (hflight : s.heap id = some flight) (hkey : flight'.key = flight.key) (hmembers : flight'.members = flight.members)
    (hcount : flight'.participantCount = flight.participantCount)
    (hresult : s.flights.lookup flight.key ≠ some id → flight'.result = flight.result) :
    (s.write id flight').Sound b declared := by
  refine h.update s.closed ?_ ?_
  · intro other found hfound
    by_cases heq : other = id
    · subst heq
      rw [Function.update_self, Option.some.injEq] at hfound
      subst hfound
      exact ⟨flight, hflight, hkey, hmembers, hcount, hresult⟩
    · rw [Function.update_of_ne heq] at hfound
      exact ⟨found, hfound, rfl, rfl, rfl, fun _ => rfl⟩
  · intro other found hfound
    by_cases heq : other = id
    · exact ⟨flight', by rw [heq, Function.update_self]⟩
    · exact ⟨found, by rw [Function.update_of_ne heq]; exact hfound⟩

/-- A request leaves its flight, and the last one takes the flight with it. -/
theorem Sound.finish (h : s.Sound b declared) (request : String) : (s.finish request).Sound b declared := by
  unfold PageBaseReadFlights.finish
  cases hkey : s.requestKeys.lookup request with
  | none => exact h
  | some key =>
      obtain ⟨id, flight, hfound, hown, hmember⟩ := h.flight_of_key hkey
      obtain ⟨hid, hflight⟩ := flight_eq_some.mp hfound
      have hkeys : ∀ other, (s.requestKeys.erase request).lookup other =
          if other = request then none else s.requestKeys.lookup other := by
        intro other
        by_cases heq : other = request
        · rw [heq, AList.lookup_erase, if_pos rfl]
        · rw [AList.lookup_erase_ne heq, if_neg heq]
      -- a request is not a member of another flight
      have hothers : ∀ other found, other ≠ id → s.heap other = some found → request ∉ found.members := by
        intro other found hne hfound' hmem
        obtain ⟨hother, hsame⟩ := (h.members other found request hfound').mp hmem
        rw [hkey, Option.some.injEq] at hsame
        rw [← hsame, hid, Option.some.injEq] at hother
        exact hne hother.symm
      have hcard : (flight.members.erase request).card ≤ flight.participantCount :=
        (Finset.card_erase_le).trans (h.participants id flight hflight).1
      have hlimit := (h.participants id flight hflight).2
      dsimp only
      rw [hfound]
      dsimp only
      by_cases hempty : flight.members.erase request = ∅
      · rw [if_neg (not_not.mpr hempty)]
        have htable : ∀ other, (s.flights.erase key).lookup other =
            if other = key then none else s.flights.lookup other := by
          intro other
          by_cases heq : other = key
          · rw [heq, AList.lookup_erase, if_pos rfl]
          · rw [AList.lookup_erase_ne heq, if_neg heq]
        refine ⟨?_, ?_, ?_, ?_, ?_, ?_, ?_, ?_⟩
        · intro other place hplace
          dsimp only [PageBaseReadFlights.write] at hplace ⊢
          rw [htable] at hplace
          split at hplace
          · cases hplace
          · rename_i hne
            obtain ⟨hpositive, found, hfound', hsame, hmembers⟩ := h.table other place hplace
            have hplace' : place ≠ id := by
              rintro rfl
              rw [hflight, Option.some.injEq] at hfound'
              rw [← hsame, ← hfound', hown] at hne
              exact hne rfl
            exact ⟨hpositive, found, by rw [Function.update_of_ne hplace']; exact hfound', hsame, hmembers⟩
        · intro place found other hfound'
          dsimp only [PageBaseReadFlights.write] at hfound' ⊢
          rw [htable, hkeys]
          by_cases heq : place = id
          · subst heq
            rw [Function.update_self, Option.some.injEq] at hfound'
            subst hfound'
            simp [hempty, hown]
          · rw [Function.update_of_ne heq] at hfound'
            have hnot := hothers place found heq hfound'
            rw [h.members place found other hfound']
            rw [h.members place found request hfound'] at hnot
            by_cases hsame : found.key = key
            · rw [hsame, hid]
              simp [Ne.symm heq]
            · rw [if_neg hsame]
              by_cases hother : other = request
              · subst hother
                simp [hkey, Ne.symm hsame]
              · rw [if_neg hother]
        · intro other key' hother
          dsimp only [PageBaseReadFlights.write] at hother ⊢
          rw [hkeys] at hother
          split at hother
          · cases hother
          · rename_i hne
            rw [htable]
            split
            · rename_i heq
              subst heq
              have hmem := (h.members id flight other hflight).mpr ⟨by rw [hown]; exact hid, by rw [hown]; exact hother⟩
              have hleft := Finset.mem_erase.mpr ⟨hne, hmem⟩
              rw [hempty] at hleft
              exact absurd hleft (Finset.notMem_empty other)
            · exact h.keyed other key' hother
        · intro place found hfound' hgone
          dsimp only [PageBaseReadFlights.write] at hfound' hgone
          rw [htable] at hgone
          by_cases heq : place = id
          · subst heq
            rw [Function.update_self, Option.some.injEq] at hfound'
            rw [← hfound']
          · rw [Function.update_of_ne heq] at hfound'
            refine h.gone place found hfound' fun hlookup => ?_
            by_cases hsame : found.key = key
            · rw [hsame, hid, Option.some.injEq] at hlookup
              exact heq hlookup.symm
            · rw [if_neg hsame] at hgone
              exact hgone hlookup
        · intro place hplace
          have hne : place ≠ id := by
            rintro rfl
            rw [h.allocated place hplace] at hflight
            cases hflight
          exact (Function.update_of_ne hne ..).trans (h.allocated place hplace)
        · intro place found hfound'
          dsimp only [PageBaseReadFlights.write] at hfound'
          by_cases heq : place = id
          · subst heq
            rw [Function.update_self, Option.some.injEq] at hfound'
            rw [← hfound']
            exact ⟨hcard, hlimit⟩
          · rw [Function.update_of_ne heq] at hfound'
            exact h.participants place found hfound'
        · exact (AList.size_erase_le _ _).trans h.size
        · obtain ⟨newer, older, hbefore, hafter⟩ := AList.entries_of_lookup hid
          have hpositive := (h.table key id hid).1
          have hbytes := h.bytes
          rw [hbefore, List.map_append, List.map_cons, List.sum_append, List.sum_cons] at hbytes
          dsimp only [PageBaseReadFlights.write] at hbytes ⊢
          rw [hafter, List.map_append, List.sum_append]
          omega
      · rw [if_pos hempty]
        refine ⟨?_, ?_, ?_, ?_, ?_, ?_, h.size, h.bytes⟩
        · intro other place hplace
          obtain ⟨hpositive, found, hfound', hsame, hmembers⟩ := h.table other place hplace
          refine ⟨hpositive, ?_⟩
          by_cases heq : place = id
          · subst heq
            rw [hflight, Option.some.injEq] at hfound'
            exact ⟨_, Function.update_self .., by rw [← hsame, ← hfound'], Finset.nonempty_iff_ne_empty.mpr hempty⟩
          · exact ⟨found, (Function.update_of_ne heq ..).trans hfound', hsame, hmembers⟩
        · intro place found other hfound'
          dsimp only [PageBaseReadFlights.write] at hfound' ⊢
          rw [hkeys]
          by_cases heq : place = id
          · subst heq
            rw [Function.update_self, Option.some.injEq] at hfound'
            subst hfound'
            dsimp only
            rw [Finset.mem_erase, h.members place flight other hflight]
            by_cases hother : other = request
            · simp [hother]
            · simp [hother]
          · rw [Function.update_of_ne heq] at hfound'
            have hnot := hothers place found heq hfound'
            by_cases hother : other = request
            · subst hother
              simp [hnot]
            · rw [if_neg hother]
              exact h.members place found other hfound'
        · intro other key' hother
          dsimp only [PageBaseReadFlights.write] at hother
          rw [hkeys] at hother
          split at hother
          · cases hother
          · exact h.keyed other key' hother
        · intro place found hfound' hgone
          dsimp only [PageBaseReadFlights.write] at hfound' hgone
          by_cases heq : place = id
          · subst heq
            rw [Function.update_self, Option.some.injEq] at hfound'
            subst hfound'
            dsimp only at hgone
            rw [hown] at hgone
            exact absurd hid hgone
          · rw [Function.update_of_ne heq] at hfound'
            exact h.gone place found hfound' hgone
        · intro place hplace
          have hne : place ≠ id := by
            rintro rfl
            rw [h.allocated place hplace] at hflight
            cases hflight
          exact (Function.update_of_ne hne ..).trans (h.allocated place hplace)
        · intro place found hfound'
          dsimp only [PageBaseReadFlights.write] at hfound'
          by_cases heq : place = id
          · subst heq
            rw [Function.update_self, Option.some.injEq] at hfound'
            rw [← hfound']
            exact ⟨hcard, hlimit⟩
          · rw [Function.update_of_ne heq] at hfound'
            exact h.participants place found hfound'

omit [DecidableEq Key] in
/-- Requests without a key join, and nothing else changes. -/
theorem join_spec (b : Bounds) (key : Key) (requests : List String) :
    ∀ (flight : SharedFlight Key V) (requestKeys : Dictionary String Key),
      let joined := join b key requests flight requestKeys
      ((∃ members count, joined.1 = { flight with members := members, participantCount := count } ∧
          flight.members ⊆ members ∧ members.card + flight.participantCount ≤ flight.members.card + count) ∧
        (flight.participantCount ≤ b.maxMembers → joined.1.participantCount ≤ b.maxMembers) ∧
        (∀ request, joined.2.1.lookup request =
          if request ∈ joined.2.2 then some key else requestKeys.lookup request) ∧
        ∀ request, (request ∈ joined.1.members ↔ request ∈ flight.members ∨ request ∈ joined.2.2) ∧
          (request ∈ joined.2.2 → requestKeys.lookup request = none)) := by
  induction requests with
  | nil =>
      intro flight requestKeys
      refine ⟨⟨flight.members, flight.participantCount, rfl, Finset.Subset.refl _, by omega⟩, fun h => h, ?_, ?_⟩
      · simp [join]
      · simp [join]
  | cons request rest ih =>
      intro flight requestKeys
      rw [join]
      by_cases hskip : requestKeys.lookup request ≠ none ∨ b.maxMembers ≤ flight.participantCount
      · rw [if_pos hskip]
        exact ih flight requestKeys
      · rw [if_neg hskip]
        rw [not_or, not_not, not_le] at hskip
        obtain ⟨⟨members, count, heq, hsub, hcard⟩, hlimit, hkeys, hmembers⟩ := ih
          { flight with
            members := insert request flight.members
            participantCount := flight.participantCount + 1 }
          (requestKeys.insert request key)
        dsimp only at heq hsub hcard hlimit hmembers ⊢
        have hadded := Finset.card_insert_le request flight.members
        refine ⟨⟨members, count, heq, (Finset.subset_insert _ _).trans hsub, by omega⟩,
          fun _ => hlimit (by omega), ?_, ?_⟩
        · intro other
          rw [hkeys]
          by_cases hmem : other ∈ (join b key rest { flight with
              members := insert request flight.members
              participantCount := flight.participantCount + 1 } (requestKeys.insert request key)).2.2
          · simp [hmem]
          · by_cases hother : other = request
            · subst hother
              simp [hmem]
            · simp [hmem, hother, AList.lookup_insert_ne hother]
        · intro other
          obtain ⟨hiff, hfresh⟩ := hmembers other
          rw [hiff, Finset.mem_insert, List.mem_cons]
          refine ⟨by tauto, fun hselected => ?_⟩
          by_cases hother : other = request
          · rw [hother]
            exact hskip.1
          · have hnone := hfresh (hselected.resolve_left hother)
            rwa [AList.lookup_insert_ne hother] at hnone

omit [DecidableEq Key] in
/-- The bounds on a flight that is made. -/
theorem create_spec {key : Key} {flight : SharedFlight Key V} (h : create b declared s key = some flight) :
    flight = ⟨key, ∅, .registered, none, none, none, none, ∅, 0⟩ ∧ 0 < declared key ∧
      (s.flights.entries.map fun entry => 2 * declared entry.1).sum + 2 * declared key ≤ b.maxBytesTotal ∧
      s.flights.size < b.maxFlights := by
  unfold create at h
  dsimp only at h
  split at h
  · cases h
  · rename_i hbounds
    simp only [not_or, not_le, not_lt] at hbounds
    rw [Option.some.injEq] at h
    exact ⟨h.symm, hbounds.1, hbounds.2.2.1, hbounds.2.2.2⟩

/-- A registration fills a flight that is there, or a new one. -/
theorem registerCohort_cases (b : Bounds) (declared : Key → ℤ) (s : PageBaseReadFlights Key V) (key : Key)
    (requests : List String) :
    s.registerCohort b declared key requests = s ∨
      ∃ id flight, (s.flight key = some (id, flight) ∨
          s.flight key = none ∧ id = s.allocated ∧ create b declared s key = some flight) ∧
        (join b key requests flight s.requestKeys).2.2 ≠ [] ∧
        ∃ designated, s.registerCohort b declared key requests =
          { s.write id { (join b key requests flight s.requestKeys).1 with designatedLeader := designated } with
            allocated := if (s.flight key).isSome then s.allocated else s.allocated + 1
            flights := if (s.flight key).isSome then s.flights else s.flights.insert key id
            requestKeys := (join b key requests flight s.requestKeys).2.1 } := by
  unfold PageBaseReadFlights.registerCohort
  split
  · exact Or.inl rfl
  dsimp only
  split
  · exact Or.inl rfl
  cases hknown : s.flight key with
  | some found =>
      obtain ⟨id, flight⟩ := found
      dsimp only [Option.orElse]
      split
      · exact Or.inl rfl
      · rename_i hselected
        exact Or.inr ⟨id, flight, Or.inl rfl, hselected, _, rfl⟩
  | none =>
      dsimp only [Option.orElse]
      cases hcreate : create b declared s key with
      | none => exact Or.inl rfl
      | some flight =>
          dsimp only [Option.map]
          split
          · exact Or.inl rfl
          · rename_i hselected
            exact Or.inr ⟨s.allocated, flight, Or.inr ⟨rfl, rfl, rfl⟩, hselected, _, rfl⟩

theorem Sound.registerCohort (h : s.Sound b declared) (key : Key) (requests : List String) :
    (s.registerCohort b declared key requests).Sound b declared := by
  obtain hsame | ⟨id, flight, hflight, hselected, designated, heq⟩ := registerCohort_cases b declared s key requests
  · rw [hsame]
    exact h
  rw [heq]
  obtain ⟨⟨members, count, hjoined, -, hcard⟩, hlimit, hkeys, hmembers⟩ :=
    join_spec b key requests flight s.requestKeys
  -- a flight that is there, or a new one
  have hplace : flight.key = key ∧ 0 < declared key ∧ flight.members.card ≤ flight.participantCount ∧
      flight.participantCount ≤ b.maxMembers ∧ (∀ request, request ∈ flight.members ↔
        s.requestKeys.lookup request = some key) ∧
      (∀ other found, s.heap other = some found → other ≠ id → s.flights.lookup key ≠ some other) ∧
      (∀ other, s.flights.lookup other = some id → other = key) := by
    obtain hfound | ⟨hnone, rfl, hcreate⟩ := hflight
    · obtain ⟨hid, hheap⟩ := flight_eq_some.mp hfound
      obtain ⟨hpositive, known, hknown, hown, -⟩ := h.table key id hid
      rw [hheap, Option.some.injEq] at hknown
      subst hknown
      refine ⟨hown, hpositive, (h.participants id flight hheap).1, (h.participants id flight hheap).2, ?_, ?_, ?_⟩
      · intro request
        rw [h.members id flight request hheap, hown, and_iff_right hid]
      · intro other found _ hne hother
        rw [hid, Option.some.injEq] at hother
        exact hne hother.symm
      · intro other hother
        obtain ⟨-, known, hknown, hsame, -⟩ := h.table other id hother
        rw [hheap, Option.some.injEq] at hknown
        rw [← hsame, ← hknown, hown]
    · obtain ⟨rfl, hpositive, -, -⟩ := create_spec hcreate
      have hfree : s.flights.lookup key = none := by
        rw [Option.eq_none_iff_forall_ne_some]
        intro place hplace
        obtain ⟨-, known, hknown, -⟩ := h.table key place hplace
        rw [flight_eq_some.mpr ⟨hplace, hknown⟩] at hnone
        cases hnone
      refine ⟨rfl, hpositive, Nat.le_refl _, Nat.zero_le _, ?_, ?_, ?_⟩
      · intro request
        simp only [Finset.notMem_empty, false_iff]
        exact fun hkey => h.keyed request key hkey hfree
      · intro other found _ _ hother
        rw [hfree] at hother
        cases hother
      · intro other hother
        obtain ⟨-, known, hknown, -⟩ := h.table other s.allocated hother
        rw [h.allocated s.allocated (Nat.le_refl _)] at hknown
        cases hknown
  obtain ⟨hown, hpositive, hcount, hroom, hold, hothers, honly⟩ := hplace
  have htable : ∀ other, (if (s.flight key).isSome then s.flights else s.flights.insert key id).lookup other =
      if other = key then some id else s.flights.lookup other := by
    intro other
    obtain hfound | ⟨hnone, -⟩ := hflight
    · rw [hfound]
      by_cases hother : other = key
      · subst hother
        simp [(flight_eq_some.mp hfound).1]
      · simp [hother]
    · rw [hnone]
      by_cases hother : other = key
      · subst hother
        simp
      · simp [hother, AList.lookup_insert_ne hother]
  rw [hjoined] at hlimit hmembers ⊢
  dsimp only at hlimit hmembers
  refine ⟨?_, ?_, ?_, ?_, ?_, ?_, ?_, ?_⟩
  · intro other place hlookup
    dsimp only [PageBaseReadFlights.write] at hlookup ⊢
    rw [htable] at hlookup
    split at hlookup
    · rename_i hother
      rw [Option.some.injEq] at hlookup
      subst hlookup hother
      obtain ⟨request, hrequest⟩ := List.exists_mem_of_ne_nil _ hselected
      exact ⟨hpositive, _, Function.update_self .., hown, request, ((hmembers request).1).mpr (Or.inr hrequest)⟩
    · rename_i hother
      have hne : place ≠ id := by
        rintro rfl
        exact hother (honly other hlookup)
      obtain ⟨hdeclared, found, hfound⟩ := h.table other place hlookup
      exact ⟨hdeclared, found, by rw [Function.update_of_ne hne]; exact hfound⟩
  · intro place found request hfound
    dsimp only [PageBaseReadFlights.write] at hfound ⊢
    rw [htable, hkeys]
    by_cases hplace : place = id
    · subst hplace
      rw [Function.update_self, Option.some.injEq] at hfound
      subst hfound
      dsimp only
      rw [hown, if_pos rfl, and_iff_right rfl, (hmembers request).1, hold]
      by_cases hrequest : request ∈ (join b key requests flight s.requestKeys).2.2
      · simp [hrequest]
      · simp [hrequest]
    · rw [Function.update_of_ne hplace] at hfound
      rw [h.members place found request hfound]
      have hnot := hothers place found hfound hplace
      by_cases hsame : found.key = key
      · rw [hsame, if_pos rfl]
        simp [hnot, Ne.symm hplace]
      · rw [if_neg hsame]
        by_cases hrequest : request ∈ (join b key requests flight s.requestKeys).2.2
        · simp [hrequest, (hmembers request).2 hrequest, Ne.symm hsame]
        · simp [hrequest]
  · intro request other hrequest
    dsimp only [PageBaseReadFlights.write] at hrequest ⊢
    rw [hkeys] at hrequest
    rw [htable]
    by_cases hother : other = key
    · simp [hother]
    · rw [if_neg hother]
      split at hrequest
      · rw [Option.some.injEq] at hrequest
        exact absurd hrequest.symm hother
      · exact h.keyed request other hrequest
  · intro place found hfound hgone
    dsimp only [PageBaseReadFlights.write] at hfound hgone
    rw [htable] at hgone
    by_cases hplace : place = id
    · subst hplace
      rw [Function.update_self, Option.some.injEq] at hfound
      subst hfound
      simp [hown] at hgone
    · rw [Function.update_of_ne hplace] at hfound
      refine h.gone place found hfound fun hlookup => ?_
      by_cases hsame : found.key = key
      · rw [hsame] at hlookup
        exact hothers place found hfound hplace hlookup
      · rw [if_neg hsame] at hgone
        exact hgone hlookup
  · intro place hplace
    dsimp only [PageBaseReadFlights.write] at hplace ⊢
    obtain hfound | ⟨hnone, rfl, -⟩ := hflight
    · obtain ⟨-, hheap⟩ := flight_eq_some.mp hfound
      have hne : place ≠ id := by
        rintro rfl
        rw [hfound, Option.isSome_some, if_pos rfl] at hplace
        rw [h.allocated place hplace] at hheap
        cases hheap
      rw [Function.update_of_ne hne]
      exact h.allocated place (by rwa [hfound, Option.isSome_some, if_pos rfl] at hplace)
    · rw [hnone, Option.isSome_none, if_neg (by decide)] at hplace
      rw [Function.update_of_ne (by omega)]
      exact h.allocated place (by omega)
  · intro place found hfound
    dsimp only [PageBaseReadFlights.write] at hfound
    by_cases hplace : place = id
    · subst hplace
      rw [Function.update_self, Option.some.injEq] at hfound
      subst hfound
      dsimp only
      exact ⟨by omega, hlimit hroom⟩
    · rw [Function.update_of_ne hplace] at hfound
      exact h.participants place found hfound
  · obtain hfound | ⟨hnone, rfl, hcreate⟩ := hflight
    · rw [hfound]
      exact h.size
    · rw [hnone]
      obtain ⟨-, -, -, hsize⟩ := create_spec hcreate
      have hle := AList.size_insert s.flights key s.allocated
      have herase := AList.size_erase_le s.flights key
      dsimp only [PageBaseReadFlights.write, Option.isSome]
      rw [if_neg (by decide)]
      omega
  · obtain hfound | ⟨hnone, rfl, hcreate⟩ := hflight
    · rw [hfound]
      exact h.bytes
    · obtain ⟨-, -, hbytes, -⟩ := create_spec hcreate
      have hfree : s.flights.lookup key = none := by
        rw [Option.eq_none_iff_forall_ne_some]
        intro place hplace
        obtain ⟨-, known, hknown, -⟩ := h.table key place hplace
        rw [flight_eq_some.mpr ⟨hplace, hknown⟩] at hnone
        cases hnone
      rw [hnone]
      dsimp only [PageBaseReadFlights.write, Option.isSome]
      rw [if_neg (by decide), AList.entries_insert, List.map_cons, List.sum_cons]
      have herase : List.kerase key s.flights.entries = s.flights.entries :=
        congrArg AList.entries (AList.erase_of_lookup_none hfree)
      dsimp only
      rw [herase]
      omega

/-- A flight as it was, but for its reader, its cancelled members and the end of its read. -/
theorem Sound.write_live (h : s.Sound b declared) {key : Key} {id : ℕ} {flight flight' : SharedFlight Key V}
    (hfound : s.flight key = some (id, flight)) (hkey : flight'.key = flight.key)
    (hmembers : flight'.members = flight.members) (hcount : flight'.participantCount = flight.participantCount) :
    (s.write id flight').Sound b declared := by
  obtain ⟨hid, hflight⟩ := flight_eq_some.mp hfound
  obtain ⟨-, known, hknown, hown, -⟩ := h.table key id hid
  rw [hflight, Option.some.injEq] at hknown
  refine h.write hflight hkey hmembers hcount fun hgone => absurd ?_ hgone
  rw [hknown, hown]
  exact hid

theorem Sound.enter (h : s.Sound b declared) (request : String) (key : Key) :
    (s.enter request key).1.Sound b declared := by
  unfold PageBaseReadFlights.enter
  split
  · exact h.finish request
  · split
    · exact h.finish request
    · rename_i id flight hfound
      split
      · exact h.finish request
      · split
        · exact h.finish request
        · split
          · exact h.write_live hfound rfl rfl rfl
          · exact h

theorem Sound.settle (h : s.Sound b declared) (id : ℕ) (request : String) (key : Key)
    (read : Except String (Readable V)) : (s.settle id request key read).1.Sound b declared := by
  unfold PageBaseReadFlights.settle
  cases hflight : s.heap id with
  | none => exact h
  | some flight =>
      refine Sound.finish ?_ request
      by_cases hid : s.flights.lookup key = some id
      · rw [if_pos hid]
        have hfound := flight_eq_some.mpr ⟨hid, hflight⟩
        cases read with
        | error message => exact h.write_live hfound rfl rfl rfl
        | ok readable => exact h.write_live hfound rfl rfl rfl
      · rw [if_neg hid]
        exact h.write hflight rfl rfl rfl fun _ => rfl

theorem Sound.acquire (h : s.Sound b declared) {id : ℕ} {request : String} {result}
    (hresult : s.acquire id request = some (s', result)) : s'.Sound b declared := by
  have hfinish := h.finish request
  unfold PageBaseReadFlights.acquire at hresult
  obtain ⟨flight, -, hresult⟩ := Option.bind_eq_some_iff.mp hresult
  split at hresult
  · cases hresult
    exact hfinish
  · split at hresult
    · cases hresult
      exact hfinish
    · split at hresult
      · cases hresult
        exact hfinish
      · cases hresult
        exact hfinish
    · cases hresult

theorem Sound.cancel (h : s.Sound b declared) (request : String) : (s.cancel request).Sound b declared := by
  unfold PageBaseReadFlights.cancel
  split
  · exact h
  · rename_i id flight hfound
    obtain ⟨key, -, hflight⟩ := Option.bind_eq_some_iff.mp hfound
    exact h.write_live hflight rfl rfl rfl

theorem Sound.finishAll (requests : List String) : ∀ {s : PageBaseReadFlights Key V}, s.Sound b declared →
    (requests.foldl PageBaseReadFlights.finish s).Sound b declared := by
  induction requests with
  | nil => exact fun h => h
  | cons request rest ih => exact fun h => ih (h.finish request)

theorem Sound.close (h : s.Sound b declared) : s.close.Sound b declared := by
  refine Sound.finishAll _ (h.update true ?_ ?_)
  · intro id flight' hflight'
    split at hflight'
    · obtain ⟨flight, hflight, rfl⟩ := Option.map_eq_some_iff.mp hflight'
      exact ⟨flight, hflight, rfl, rfl, rfl, fun _ => rfl⟩
    · exact ⟨flight', hflight', rfl, rfl, rfl, fun _ => rfl⟩
  · intro id flight hflight
    split
    · exact ⟨closeFlight flight, by rw [hflight, Option.map_some]⟩
    · exact ⟨flight, hflight⟩

end PageBaseReadFlights
end SparkCache.Loading
