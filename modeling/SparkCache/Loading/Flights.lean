import SparkCache.Lib.Dictionary

/-!
# Page-base read flights

Requests whose page deltas have one base share one read of it. The coordinator keeps a flight for a
base while a registered member has neither acquired nor abandoned the result.
-/
namespace SparkCache.Loading
variable {Key : Type*} [DecidableEq Key]

/-- The state of a flight, before the coordinator is closed. -/
inductive FlightState where
  | registered
  | reading
  | ready
  | error
  deriving DecidableEq

/-- `_Flight`; `serial` tells apart the flights that one key has had. -/
structure Flight where
  serial : ℕ
  members : Finset String
  state : FlightState
  designatedLeader : Option String
  cancelled : Finset String
  participantCount : ℕ

/-- The bounds of `PageBaseReadFlights`. -/
structure Bounds where
  maxFlights : ℕ
  maxMembers : ℕ
  maxBytesPerFlight : ℕ
  maxBytesTotal : ℕ
  positive : 0 < maxFlights ∧ 1 < maxMembers ∧ 0 < maxBytesPerFlight ∧ maxBytesPerFlight ≤ maxBytesTotal

/-- `PageBaseReadFlights` -/
structure Flights (Key : Type*) where
  flights : Dictionary Key Flight
  requestKeys : String → Option Key
  nextSerial : ℕ

/-- `PageBaseCohortRegistration` -/
structure Registration where
  memberIds : List String
  leader : Option String
  flightState : Option FlightState

namespace Flights

def empty : Flights Key := ⟨∅, fun _ => none, 0⟩

/-- `flight_state` -/
def state (f : Flights Key) (key : Key) : Option FlightState := (f.flights.lookup key).map Flight.state

/-- A flight for a key that has none: a read holds a base twice until it is published. -/
def create (b : Bounds) (declared : Key → ℤ) (f : Flights Key) (key : Key) : Option Flight :=
  let reserved := (f.flights.entries.map fun entry => 2 * declared entry.1).sum
  if declared key ≤ 0 ∨ (b.maxBytesPerFlight : ℤ) < declared key ∨
      (b.maxBytesTotal : ℤ) < reserved + 2 * declared key ∨ b.maxFlights ≤ f.flights.size then none
  else some ⟨f.nextSerial, ∅, .registered, none, ∅, 0⟩

/-- The requests that join a flight, one after another. -/
def join (b : Bounds) (key : Key) : List String → Flight → (String → Option Key) →
    Flight × (String → Option Key) × List String
  | [], flight, requestKeys => (flight, requestKeys, [])
  | request :: rest, flight, requestKeys =>
      if requestKeys request ≠ none ∨ b.maxMembers ≤ flight.participantCount then
        join b key rest flight requestKeys
      else
        let joined := join b key rest
          { flight with
            members := insert request flight.members
            participantCount := flight.participantCount + 1 }
          (Function.update requestKeys request (some key))
        (joined.1, joined.2.1, request :: joined.2.2)

/-- `register_cohort`. A request that is named twice joins once. -/
def registerCohort (b : Bounds) (declared : Key → ℤ) (f : Flights Key) (key : Key) (requests : List String) :
    Flights Key × Registration :=
  if requests = [] ∨ "" ∈ requests then (f, ⟨[], none, none⟩)
  else
    let known := f.flights.lookup key
    if known.map Flight.state = some .error then (f, ⟨[], none, none⟩)
    else
      match known.orElse fun _ => create b declared f key with
      | none => (f, ⟨[], none, none⟩)
      | some flight =>
          let (flight, requestKeys, selected) := join b key requests flight f.requestKeys
          if selected = [] then (f, ⟨[], none, none⟩)
          else
            let designated := flight.designatedLeader.orElse fun _ => requests.find? (· ∈ flight.members)
            ({ flights := f.flights.insert key { flight with designatedLeader := designated }
               requestKeys := requestKeys
               nextSerial := if known.isSome then f.nextSerial else f.nextSerial + 1 },
              ⟨selected, designated, some flight.state⟩)

/-- `_finish_locked` -/
def finish (f : Flights Key) (request : String) : Flights Key :=
  match f.requestKeys request with
  | none => f
  | some key =>
      let requestKeys := Function.update f.requestKeys request none
      match f.flights.lookup key with
      | none => { f with requestKeys := requestKeys }
      | some flight =>
          let members := flight.members.erase request
          let kept := { flight with members := members, cancelled := flight.cancelled.erase request }
          { f with
            flights := if members = ∅ then f.flights.erase key else f.flights.insert key kept
            requestKeys := requestKeys }

/-- What `resolve` decides for a request. -/
inductive Admission where
  | leader (serial : ℕ)
  | follower (serial : ℕ)
  | bypassed
  | cancelled

/-- The first section of `resolve`. -/
def enter (f : Flights Key) (request : String) (key : Key) : Flights Key × Admission :=
  match f.flights.lookup key with
  | none => (f.finish request, .bypassed)
  | some flight =>
      if f.requestKeys request ≠ some key ∨ request ∉ flight.members then (f.finish request, .bypassed)
      else if request ∈ flight.cancelled then (f.finish request, .cancelled)
      else if flight.state = .registered then
        ({ f with flights := f.flights.insert key { flight with state := .reading } }, .leader flight.serial)
      else (f, .follower flight.serial)

/-- The reader's section after the read: `rejected` if it raised or has read a wrong length. -/
def complete (f : Flights Key) (request : String) (key : Key) (serial : ℕ) (rejected : Bool) : Flights Key :=
  let settled := (f.flights.lookup key).filter fun flight => flight.serial = serial
  let flights := match settled with
    | none => f.flights
    | some flight => f.flights.insert key { flight with state := if rejected then .error else .ready }
  { f with flights := flights }.finish request

/-- What a follower waits for. -/
def Settled (f : Flights Key) (request : String) (key : Key) (serial : ℕ) : Prop :=
  ∃ flight ∈ f.flights.lookup key, flight.serial = serial ∧
    (flight.state = .ready ∨ flight.state = .error ∨ request ∈ flight.cancelled)

instance (f : Flights Key) (request : String) (key : Key) (serial : ℕ) : Decidable (f.Settled request key serial) :=
  decidable_of_iff (((f.flights.lookup key).any fun flight => flight.serial = serial ∧
    (flight.state = .ready ∨ flight.state = .error ∨ request ∈ flight.cancelled)) = true) (by
      simp [Settled, Option.any_eq_true])

/-- `cancel` -/
def cancel (f : Flights Key) (request : String) : Flights Key :=
  match f.requestKeys request with
  | none => f
  | some key =>
      match f.flights.lookup key with
      | none => f
      | some flight =>
          { f with flights := f.flights.insert key { flight with cancelled := insert request flight.cancelled } }

/-! ## Members -/

/-- A request is a registered member of the flight of a key. -/
def Member (f : Flights Key) (request : String) (key : Key) : Prop :=
  f.requestKeys request = some key ∧ ∃ flight, f.flights.lookup key = some flight ∧ request ∈ flight.members

/-- A flight whose read has ended. -/
def Final (f : Flights Key) (key : Key) : Prop := f.state key = some .ready ∨ f.state key = some .error

theorem state_eq_some {f : Flights Key} {key : Key} {state : FlightState} :
    f.state key = some state ↔ ∃ flight, f.flights.lookup key = some flight ∧ flight.state = state :=
  Option.map_eq_some_iff

/-- The flights that are left are as they were, but for their members; new ones have no reader. -/
def Keeps (f f' : Flights Key) : Prop :=
  ∀ (key : Key) (flight' : Flight), f'.flights.lookup key = some flight' →
    (f.flights.lookup key = none ∧ flight'.state = .registered) ∨
      ∃ flight, f.flights.lookup key = some flight ∧ flight'.serial = flight.serial ∧ flight'.state = flight.state

theorem Keeps.refl (f : Flights Key) : f.Keeps f := fun _ flight h => Or.inr ⟨flight, h, rfl, rfl⟩

/-- What an operation on some requests leaves to the others. -/
structure Frame (f f' : Flights Key) (touched : Set String) : Prop where
  requestKeys : ∀ other ∉ touched, f'.requestKeys other = f.requestKeys other
  member : ∀ other ∉ touched, ∀ key, f.Member other key → f'.Member other key

theorem Frame.refl (f : Flights Key) (touched : Set String) : f.Frame f touched := ⟨fun _ _ => rfl, fun _ _ _ h => h⟩

theorem Frame.mono {f f' : Flights Key} {touched touched' : Set String} (h : f.Frame f' touched)
    (hsub : touched ⊆ touched') : f.Frame f' touched' :=
  ⟨fun other hne => h.requestKeys other fun hmem => hne (hsub hmem),
    fun other hne => h.member other fun hmem => hne (hsub hmem)⟩

theorem Frame.trans {f f' f'' : Flights Key} {touched : Set String} (h : f.Frame f' touched)
    (h' : f'.Frame f'' touched) : f.Frame f'' touched :=
  ⟨fun other hne => (h'.requestKeys other hne).trans (h.requestKeys other hne),
    fun other hne key hmember => h'.member other hne key (h.member other hne key hmember)⟩

/-- A flight is replaced by one with the same other members. -/
theorem frame_insert {f : Flights Key} {key : Key} {flight flight' : Flight} {touched : Set String}
    (hlookup : f.flights.lookup key = some flight)
    (hmembers : ∀ other ∉ touched, other ∈ flight.members → other ∈ flight'.members) :
    f.Frame { f with flights := f.flights.insert key flight' } touched := by
  refine ⟨fun _ _ => rfl, fun other hne key' hmember => ⟨hmember.1, ?_⟩⟩
  obtain ⟨known, hknown, hmem⟩ := hmember.2
  by_cases heq : key' = key
  · subst heq
    rw [hlookup, Option.some.injEq] at hknown
    subst hknown
    exact ⟨flight', AList.lookup_insert _, hmembers other hne hmem⟩
  · exact ⟨known, by rw [AList.lookup_insert_ne heq]; exact hknown, hmem⟩

theorem keeps_insert {f : Flights Key} {key : Key} {flight flight' : Flight}
    (hlookup : f.flights.lookup key = some flight) (hserial : flight'.serial = flight.serial)
    (hstate : flight'.state = flight.state) : f.Keeps { f with flights := f.flights.insert key flight' } := by
  intro key' found hfound
  by_cases heq : key' = key
  · subst heq
    rw [AList.lookup_insert, Option.some.injEq] at hfound
    subst hfound
    exact Or.inr ⟨flight, hlookup, hserial, hstate⟩
  · rw [AList.lookup_insert_ne heq] at hfound
    exact Or.inr ⟨found, hfound, rfl, rfl⟩

/-! ## Operations -/

theorem finish_requestKeys (f : Flights Key) (request : String) : (f.finish request).requestKeys request = none := by
  unfold finish
  split
  · assumption
  · dsimp only
    split <;> exact Function.update_self ..

theorem finish_frame (f : Flights Key) (request : String) : f.Frame (f.finish request) {request} := by
  unfold finish
  split
  · exact Frame.refl f _
  · rename_i key hkey
    have hkeys : f.Frame { f with requestKeys := Function.update f.requestKeys request none } {request} :=
      ⟨fun other hne => Function.update_of_ne hne .., fun other hne key' hmember =>
        ⟨(Function.update_of_ne hne ..).trans hmember.1, hmember.2⟩⟩
    dsimp only
    split
    · exact hkeys
    · rename_i flight hlookup
      by_cases hempty : flight.members.erase request = ∅
      · rw [if_pos hempty]
        refine ⟨hkeys.requestKeys, fun other hne key' hmember => ⟨(hkeys.member other hne key' hmember).1, ?_⟩⟩
        obtain ⟨known, hknown, hmem⟩ := hmember.2
        have hne' : key' ≠ key := by
          rintro rfl
          rw [hlookup, Option.some.injEq] at hknown
          subst hknown
          have hin := Finset.mem_erase.mpr ⟨hne, hmem⟩
          rw [hempty] at hin
          exact absurd hin (Finset.notMem_empty other)
        exact ⟨known, by rw [AList.lookup_erase_ne hne']; exact hknown, hmem⟩
      · rw [if_neg hempty]
        refine hkeys.trans (frame_insert hlookup fun other hne hmem => ?_)
        exact Finset.mem_erase.mpr ⟨hne, hmem⟩

theorem finish_lookup {f : Flights Key} {request : String} {key : Key} {flight' : Flight}
    (h : (f.finish request).flights.lookup key = some flight') :
    ∃ flight, f.flights.lookup key = some flight ∧ flight'.serial = flight.serial ∧ flight'.state = flight.state := by
  unfold finish at h
  split at h
  · exact ⟨flight', h, rfl, rfl⟩
  · rename_i key' hkey
    dsimp only at h
    split at h
    · exact ⟨flight', h, rfl, rfl⟩
    · rename_i flight hlookup
      by_cases heq : key = key'
      · subst heq
        by_cases hempty : flight.members.erase request = ∅
        · rw [if_pos hempty, AList.lookup_erase] at h
          cases h
        · rw [if_neg hempty, AList.lookup_insert, Option.some.injEq] at h
          subst h
          exact ⟨flight, hlookup, rfl, rfl⟩
      · by_cases hempty : flight.members.erase request = ∅
        · rw [if_pos hempty, AList.lookup_erase_ne heq] at h
          exact ⟨flight', h, rfl, rfl⟩
        · rw [if_neg hempty, AList.lookup_insert_ne heq] at h
          exact ⟨flight', h, rfl, rfl⟩

theorem finish_keeps (f : Flights Key) (request : String) : f.Keeps (f.finish request) :=
  fun _ _ h => Or.inr (finish_lookup h)

theorem cancel_frame (f : Flights Key) (request : String) : f.Frame (f.cancel request) ∅ := by
  unfold cancel
  split
  · exact Frame.refl f _
  · split
    · exact Frame.refl f _
    · rename_i flight hlookup
      exact frame_insert hlookup fun _ _ hmem => hmem

theorem cancel_keeps (f : Flights Key) (request : String) : f.Keeps (f.cancel request) := by
  unfold cancel
  split
  · exact Keeps.refl f
  · split
    · exact Keeps.refl f
    · rename_i flight hlookup
      exact keeps_insert hlookup rfl rfl

/-- What `resolve` leaves: a reader has started, or the flights are kept. -/
theorem enter_spec (f : Flights Key) (request : String) (key : Key) :
    f.Frame (f.enter request key).1 {request} ∧
      (f.Keeps (f.enter request key).1 ∧ (∀ serial, (f.enter request key).2 ≠ .leader serial) ∧
          ((f.enter request key).1.requestKeys request = none ∨
            (f.enter request key).1.requestKeys request = f.requestKeys request) ∨
        ∃ flight, f.requestKeys request = some key ∧ f.flights.lookup key = some flight ∧
          flight.state = .registered ∧ (f.enter request key).2 = .leader flight.serial ∧
          (f.enter request key).1 = { f with flights := f.flights.insert key { flight with state := .reading } }) := by
  have hfinish := f.finish_requestKeys request
  unfold enter
  split
  · exact ⟨f.finish_frame request, Or.inl ⟨f.finish_keeps request, fun _ h => (nomatch h), Or.inl hfinish⟩⟩
  · rename_i flight hlookup
    by_cases hstranger : f.requestKeys request ≠ some key ∨ request ∉ flight.members
    · rw [if_pos hstranger]
      exact ⟨f.finish_frame request, Or.inl ⟨f.finish_keeps request, fun _ h => (nomatch h), Or.inl hfinish⟩⟩
    rw [if_neg hstranger]
    by_cases hcancelled : request ∈ flight.cancelled
    · rw [if_pos hcancelled]
      exact ⟨f.finish_frame request, Or.inl ⟨f.finish_keeps request, fun _ h => (nomatch h), Or.inl hfinish⟩⟩
    rw [if_neg hcancelled]
    by_cases hstate : flight.state = .registered
    · rw [if_pos hstate]
      have hkey : f.requestKeys request = some key := by
        rw [not_or, not_not] at hstranger
        exact hstranger.1
      exact ⟨frame_insert hlookup fun _ _ hmem => hmem, Or.inr ⟨flight, hkey, hlookup, hstate, rfl, rfl⟩⟩
    · rw [if_neg hstate]
      exact ⟨Frame.refl f _, Or.inl ⟨Keeps.refl f, fun _ h => (nomatch h), Or.inr rfl⟩⟩

theorem complete_frame (f : Flights Key) (request : String) (key : Key) (serial : ℕ) (rejected : Bool) :
    f.Frame (f.complete request key serial rejected) {request} := by
  unfold complete
  refine Frame.trans ?_ (finish_frame _ request)
  cases hsettled : (f.flights.lookup key).filter fun flight => flight.serial = serial with
  | none => exact Frame.refl f _
  | some flight => exact frame_insert (Option.filter_eq_some_iff.mp hsettled).1 fun _ _ hmem => hmem

/-- After a read its flight is final, and the others are kept. -/
theorem complete_lookup {f : Flights Key} {request : String} {key key' : Key} {serial : ℕ} {rejected : Bool}
    {flight' : Flight} (h : (f.complete request key serial rejected).flights.lookup key' = some flight') :
    ∃ flight, f.flights.lookup key' = some flight ∧ flight'.serial = flight.serial ∧
      ((key' = key ∧ flight.serial = serial ∧ (flight'.state = .ready ∨ flight'.state = .error)) ∨
        (¬(key' = key ∧ flight.serial = serial) ∧ flight'.state = flight.state)) := by
  unfold complete at h
  obtain ⟨flight, hflight, hserial, hstate⟩ := finish_lookup h
  rw [hserial, hstate]
  cases hsettled : (f.flights.lookup key).filter fun flight => flight.serial = serial with
  | none =>
      rw [hsettled] at hflight
      refine ⟨flight, hflight, rfl, Or.inr ⟨?_, rfl⟩⟩
      rintro ⟨rfl, hsame⟩
      have hsome : (f.flights.lookup key').filter (fun flight => flight.serial = serial) = some flight :=
        Option.filter_eq_some_iff.mpr ⟨hflight, by simpa using hsame⟩
      rw [hsettled] at hsome
      cases hsome
  | some known =>
      rw [hsettled] at hflight
      obtain ⟨hknown, hsame⟩ := Option.filter_eq_some_iff.mp hsettled
      by_cases heq : key' = key
      · subst heq
        simp only [AList.lookup_insert, Option.some.injEq] at hflight
        subst hflight
        refine ⟨known, hknown, rfl, Or.inl ⟨rfl, by simpa using hsame, ?_⟩⟩
        cases rejected
        · exact Or.inl rfl
        · exact Or.inr rfl
      · simp only [AList.lookup_insert_ne heq] at hflight
        exact ⟨flight, hflight, rfl, Or.inr ⟨fun h => heq h.1, rfl⟩⟩

/-! ## Registration -/

omit [DecidableEq Key] in
theorem join_spec (b : Bounds) (key : Key) (requests : List String) :
    ∀ (flight : Flight) (requestKeys : String → Option Key),
      let joined := join b key requests flight requestKeys
      joined.1.serial = flight.serial ∧ joined.1.state = flight.state ∧ flight.members ⊆ joined.1.members ∧
        joined.2.2.Nodup ∧
        (∀ request ∈ joined.2.2, request ∈ requests ∧ requestKeys request = none ∧
          joined.2.1 request = some key ∧ request ∈ joined.1.members) ∧
        ∀ request ∉ joined.2.2, joined.2.1 request = requestKeys request := by
  induction requests with
  | nil =>
      intro flight requestKeys
      refine ⟨rfl, rfl, Finset.Subset.refl _, List.nodup_nil, ?_, fun _ _ => rfl⟩
      intro request hmem
      exact absurd hmem List.not_mem_nil
  | cons request rest ih =>
      intro flight requestKeys
      rw [join]
      by_cases hskip : requestKeys request ≠ none ∨ b.maxMembers ≤ flight.participantCount
      · rw [if_pos hskip]
        obtain ⟨hserial, hstate, hmembers, hnodup, hselected, hothers⟩ := ih flight requestKeys
        exact ⟨hserial, hstate, hmembers, hnodup,
          fun r hr => ⟨List.mem_cons_of_mem _ (hselected r hr).1, (hselected r hr).2⟩, hothers⟩
      · rw [if_neg hskip]
        rw [not_or, not_not] at hskip
        obtain ⟨hserial, hstate, hmembers, hnodup, hselected, hothers⟩ := ih
          { flight with
            members := insert request flight.members
            participantCount := flight.participantCount + 1 }
          (Function.update requestKeys request (some key))
        have hfresh : request ∉ (join b key rest
            { flight with
              members := insert request flight.members
              participantCount := flight.participantCount + 1 }
            (Function.update requestKeys request (some key))).2.2 := by
          intro hmem
          have hnone := (hselected request hmem).2.1
          rw [Function.update_self] at hnone
          cases hnone
        refine ⟨hserial, hstate, (Finset.subset_insert _ _).trans hmembers, List.nodup_cons.mpr ⟨hfresh, hnodup⟩, ?_, ?_⟩
        · intro r hr
          obtain rfl | hr := List.mem_cons.mp hr
          · refine ⟨List.mem_cons_self, hskip.1, ?_, hmembers (Finset.mem_insert_self _ _)⟩
            exact (hothers r hfresh).trans (Function.update_self ..)
          · obtain ⟨hin, hnone, hkey, hmem⟩ := hselected r hr
            have hne : r ≠ request := by
              rintro rfl
              exact hfresh hr
            rw [Function.update_of_ne hne] at hnone
            exact ⟨List.mem_cons_of_mem _ hin, hnone, hkey, hmem⟩
        · intro r hr
          rw [List.mem_cons, not_or] at hr
          exact (hothers r hr.2).trans (Function.update_of_ne hr.1 ..)

/-- What a registration leaves: its members had no flight, and have joined this one. -/
theorem registerCohort_spec (b : Bounds) (declared : Key → ℤ) (f : Flights Key) (key : Key) (requests : List String) :
    let result := f.registerCohort b declared key requests
    f.Frame result.1 {request | request ∈ result.2.memberIds} ∧ f.Keeps result.1 ∧ result.2.memberIds.Nodup ∧
      (∀ request ∈ result.2.memberIds, request ∈ requests ∧ f.requestKeys request = none ∧
        result.1.Member request key) ∧
      ∀ request ∉ result.2.memberIds, result.1.requestKeys request = f.requestKeys request := by
  have hsame : f.Frame f {request | request ∈ ([] : List String)} ∧ f.Keeps f ∧ ([] : List String).Nodup ∧
      (∀ request ∈ ([] : List String), request ∈ requests ∧ f.requestKeys request = none ∧ f.Member request key) ∧
      ∀ request ∉ ([] : List String), f.requestKeys request = f.requestKeys request :=
    ⟨Frame.refl f _, Keeps.refl f, List.nodup_nil, fun _ hmem => absurd hmem List.not_mem_nil, fun _ _ => rfl⟩
  unfold registerCohort
  by_cases hempty : requests = [] ∨ "" ∈ requests
  · rw [if_pos hempty]
    exact hsame
  rw [if_neg hempty]
  by_cases herror : (f.flights.lookup key).map Flight.state = some .error
  · dsimp only
    rw [if_pos herror]
    exact hsame
  dsimp only
  rw [if_neg herror]
  cases hknown : (f.flights.lookup key).orElse fun _ => create b declared f key with
  | none => exact hsame
  | some flight =>
      dsimp only
      obtain ⟨hserial, hstate, hmembers, hnodup, hselected, hothers⟩ := join_spec b key requests flight f.requestKeys
      by_cases hnobody : (join b key requests flight f.requestKeys).2.2 = []
      · rw [if_pos hnobody]
        exact hsame
      rw [if_neg hnobody]
      have hfound : (f.flights.lookup key = none ∧ flight.state = .registered) ∨ f.flights.lookup key = some flight := by
        cases hlookup : f.flights.lookup key with
        | none =>
            rw [hlookup, Option.orElse_none] at hknown
            unfold create at hknown
            dsimp only at hknown
            split at hknown
            · cases hknown
            · rw [Option.some.injEq] at hknown
              exact Or.inl ⟨rfl, by rw [← hknown]⟩
        | some known =>
            rw [hlookup, Option.orElse_some] at hknown
            exact Or.inr hknown
      refine ⟨⟨hothers, ?_⟩, ?_, hnodup, ?_, hothers⟩
      · intro other hother key' hmember
        refine ⟨(hothers other hother).trans hmember.1, ?_⟩
        obtain ⟨known, hlookup, hmem⟩ := hmember.2
        by_cases heq : key' = key
        · subst heq
          obtain ⟨hnone, -⟩ | hsome := hfound
          · rw [hnone] at hlookup
            cases hlookup
          · rw [hsome, Option.some.injEq] at hlookup
            subst hlookup
            exact ⟨_, AList.lookup_insert _, hmembers hmem⟩
        · exact ⟨known, by rw [AList.lookup_insert_ne heq]; exact hlookup, hmem⟩
      · intro key' flight' hlookup
        by_cases heq : key' = key
        · subst heq
          rw [AList.lookup_insert, Option.some.injEq] at hlookup
          subst hlookup
          obtain ⟨hnone, hregistered⟩ | hsome := hfound
          · exact Or.inl ⟨hnone, hstate.trans hregistered⟩
          · exact Or.inr ⟨flight, hsome, hserial, hstate⟩
        · rw [AList.lookup_insert_ne heq] at hlookup
          exact Or.inr ⟨flight', hlookup, rfl, rfl⟩
      · intro request hmem
        obtain ⟨hin, hnone, hkey, hmember⟩ := hselected request hmem
        exact ⟨hin, hnone, hkey, _, AList.lookup_insert _, hmember⟩

/-! ## Members and flights -/

/-- Every flight has members, and they name it. -/
def Populated (f : Flights Key) : Prop :=
  ∀ key flight, f.flights.lookup key = some flight →
    flight.members.Nonempty ∧ ∀ request ∈ flight.members, f.requestKeys request = some key

/-- A flight is replaced by one with the same members. -/
theorem Populated.insert {f : Flights Key} (h : f.Populated) {key : Key} {flight flight' : Flight}
    (hlookup : f.flights.lookup key = some flight) (hmembers : flight'.members = flight.members) :
    Populated { f with flights := f.flights.insert key flight' } := by
  intro key' found hfound
  by_cases heq : key' = key
  · subst heq
    rw [AList.lookup_insert, Option.some.injEq] at hfound
    rw [← hfound, hmembers]
    exact h key' flight hlookup
  · rw [AList.lookup_insert_ne heq] at hfound
    exact h key' found hfound

theorem Populated.finish {f : Flights Key} (h : f.Populated) (request : String) : (f.finish request).Populated := by
  -- who names another flight is not the request
  have hothers : ∀ {key key' : Key} {flight : Flight}, f.requestKeys request = some key → key' ≠ key →
      f.flights.lookup key' = some flight → flight.members.Nonempty ∧ ∀ other ∈ flight.members,
        Function.update f.requestKeys request none other = some key' := by
    intro key key' flight hkey hne hlookup
    obtain ⟨hsome, hnamed⟩ := h key' flight hlookup
    refine ⟨hsome, fun other hother => ?_⟩
    rw [Function.update_of_ne, hnamed other hother]
    rintro rfl
    exact hne (Option.some.inj ((hnamed other hother).symm.trans hkey))
  unfold Flights.finish
  split
  · exact h
  · rename_i key hkey
    dsimp only
    split
    · rename_i hnone
      intro key' flight hlookup
      have hne : key' ≠ key := by
        rintro rfl
        exact Option.some_ne_none flight (hlookup.symm.trans hnone)
      exact hothers hkey hne hlookup
    · rename_i known hknown
      intro key' flight hlookup
      by_cases heq : key' = key
      · subst heq
        by_cases hempty : known.members.erase request = ∅
        · rw [if_pos hempty, AList.lookup_erase] at hlookup
          cases hlookup
        · rw [if_neg hempty, AList.lookup_insert, Option.some.injEq] at hlookup
          subst hlookup
          refine ⟨Finset.nonempty_iff_ne_empty.mpr hempty, fun other hother => ?_⟩
          obtain ⟨hne, hmem⟩ := Finset.mem_erase.mp hother
          exact (Function.update_of_ne hne ..).trans ((h key' known hknown).2 other hmem)
      · refine hothers hkey heq ?_
        by_cases hempty : known.members.erase request = ∅
        · rwa [if_pos hempty, AList.lookup_erase_ne heq] at hlookup
        · rwa [if_neg hempty, AList.lookup_insert_ne heq] at hlookup

theorem Populated.cancel {f : Flights Key} (h : f.Populated) (request : String) : (f.cancel request).Populated := by
  unfold Flights.cancel
  split
  · exact h
  · split
    · exact h
    · rename_i flight hlookup
      exact h.insert hlookup rfl

/-- The first section of `resolve` ends the membership, starts a reader or leaves the flights alone. -/
theorem enter_cases (f : Flights Key) (request : String) (key : Key) :
    (f.enter request key).1 = f.finish request ∨ (f.enter request key).1 = f ∨
      ∃ flight, f.flights.lookup key = some flight ∧
        (f.enter request key).1 = { f with flights := f.flights.insert key { flight with state := .reading } } := by
  unfold Flights.enter
  split
  · exact Or.inl rfl
  · rename_i flight hlookup
    split
    · exact Or.inl rfl
    · split
      · exact Or.inl rfl
      · split
        · exact Or.inr (Or.inr ⟨flight, hlookup, rfl⟩)
        · exact Or.inr (Or.inl rfl)

theorem Populated.enter {f : Flights Key} (h : f.Populated) (request : String) (key : Key) :
    (f.enter request key).1.Populated := by
  obtain hfinish | hsame | ⟨flight, hlookup, hreads⟩ := f.enter_cases request key
  · rw [hfinish]
    exact h.finish request
  · rw [hsame]
    exact h
  · rw [hreads]
    exact h.insert hlookup rfl

theorem Populated.complete {f : Flights Key} (h : f.Populated) (request : String) (key : Key) (serial : ℕ)
    (rejected : Bool) : (f.complete request key serial rejected).Populated := by
  unfold Flights.complete
  refine Populated.finish ?_ request
  cases hsettled : (f.flights.lookup key).filter fun flight => flight.serial = serial with
  | none => exact h
  | some flight => exact h.insert (Option.filter_eq_some_iff.mp hsettled).1 rfl

omit [DecidableEq Key] in
/-- Who joins a flight is a member of it, and its leader stays. -/
theorem join_members (b : Bounds) (key : Key) (requests : List String) :
    ∀ (flight : Flight) (requestKeys : String → Option Key),
      let joined := join b key requests flight requestKeys
      joined.1.designatedLeader = flight.designatedLeader ∧
        ∀ request ∈ joined.1.members, request ∈ flight.members ∨ request ∈ joined.2.2 := by
  induction requests with
  | nil => exact fun flight requestKeys => ⟨rfl, fun request hmem => Or.inl hmem⟩
  | cons request rest ih =>
      intro flight requestKeys
      rw [join]
      split
      · exact ih flight requestKeys
      · obtain ⟨hleader, hmembers⟩ := ih
          { flight with
            members := insert request flight.members
            participantCount := flight.participantCount + 1 }
          (Function.update requestKeys request (some key))
        refine ⟨hleader, fun other hother => ?_⟩
        obtain hbefore | hafter := hmembers other hother
        · obtain rfl | hbefore := Finset.mem_insert.mp hbefore
          · exact Or.inr List.mem_cons_self
          · exact Or.inl hbefore
        · exact Or.inr (List.mem_cons_of_mem _ hafter)

/-- The flight that a cohort joins is the one that the key has, or a new one without a leader. -/
theorem registerCohort_cases (b : Bounds) (declared : Key → ℤ) (f : Flights Key) (key : Key) (requests : List String) :
    f.registerCohort b declared key requests = (f, ⟨[], none, none⟩) ∨
      ∃ flight, (f.flights.lookup key = some flight ∨ f.flights.lookup key = none ∧ flight.members = ∅ ∧
          flight.designatedLeader = none ∧ flight.state = .registered) ∧
        (join b key requests flight f.requestKeys).2.2 ≠ [] ∧
        ∃ nextSerial, f.registerCohort b declared key requests =
          let joined := join b key requests flight f.requestKeys
          let designated := joined.1.designatedLeader.orElse fun _ => requests.find? (· ∈ joined.1.members)
          ({ flights := f.flights.insert key { joined.1 with designatedLeader := designated }
             requestKeys := joined.2.1
             nextSerial := nextSerial },
            ⟨joined.2.2, designated, some joined.1.state⟩) := by
  unfold registerCohort
  split
  · exact Or.inl rfl
  · dsimp only
    split
    · exact Or.inl rfl
    · split
      · exact Or.inl rfl
      · rename_i flight hknown
        split
        · exact Or.inl rfl
        · rename_i hsome
          refine Or.inr ⟨flight, ?_, hsome, _, rfl⟩
          cases hlookup : f.flights.lookup key with
          | some known =>
              rw [hlookup, Option.orElse_some] at hknown
              exact Or.inl hknown
          | none =>
              rw [hlookup, Option.orElse_none] at hknown
              unfold create at hknown
              dsimp only at hknown
              split at hknown
              · cases hknown
              · obtain rfl := Option.some.inj hknown
                exact Or.inr ⟨rfl, rfl, rfl, rfl⟩

theorem Populated.registerCohort {f : Flights Key} (h : f.Populated) (b : Bounds) (declared : Key → ℤ) (key : Key)
    (requests : List String) : (f.registerCohort b declared key requests).1.Populated := by
  obtain hsame | ⟨flight, hflight, hselected, nextSerial, hregistered⟩ := registerCohort_cases b declared f key requests
  · rw [hsame]
    exact h
  obtain ⟨-, -, -, -, hjoined, hothers⟩ := join_spec b key requests flight f.requestKeys
  obtain ⟨-, hmembers⟩ := join_members b key requests flight f.requestKeys
  -- whoever joins had no flight
  have hkept : ∀ {request : String} {known : Key}, f.requestKeys request = some known →
      (join b key requests flight f.requestKeys).2.1 request = some known := by
    intro request known hnamed
    rw [hothers request fun hmem => ?_, hnamed]
    exact Option.some_ne_none known (hnamed.symm.trans (hjoined request hmem).2.1)
  rw [hregistered]
  intro key' found hfound
  dsimp only at hfound ⊢
  by_cases heq : key' = key
  · subst heq
    rw [AList.lookup_insert, Option.some.injEq] at hfound
    subst hfound
    dsimp only
    obtain ⟨first, hfirst⟩ := List.exists_mem_of_ne_nil _ hselected
    refine ⟨⟨first, (hjoined first hfirst).2.2.2⟩, fun request hrequest => ?_⟩
    obtain hbefore | hafter := hmembers request hrequest
    · obtain hknown | ⟨-, hempty, -⟩ := hflight
      · exact hkept ((h key' flight hknown).2 request hbefore)
      · rw [hempty] at hbefore
        exact absurd hbefore (Finset.notMem_empty request)
    · exact (hjoined request hafter).2.2.1
  · rw [AList.lookup_insert_ne heq] at hfound
    obtain ⟨hsome, hnamed⟩ := h key' found hfound
    exact ⟨hsome, fun request hrequest => hkept (hnamed request hrequest)⟩

/-- A new flight has a leader among those that join it. -/
theorem registerCohort_created {b : Bounds} {declared : Key → ℤ} {f : Flights Key} {key : Key} {requests : List String}
    (hnone : f.flights.lookup key = none)
    (hcreated : (f.registerCohort b declared key requests).1.flights.lookup key ≠ none) :
    let registration := (f.registerCohort b declared key requests).2
    registration.flightState = some .registered ∧
      ∃ leader ∈ registration.memberIds, registration.leader = some leader := by
  obtain hsame | ⟨flight, hflight, hselected, nextSerial, hregistered⟩ := registerCohort_cases b declared f key requests
  · rw [hsame] at hcreated
    exact absurd hnone hcreated
  obtain ⟨-, hstate, -, -, hjoined, -⟩ := join_spec b key requests flight f.requestKeys
  obtain ⟨hdesignated, hmembers⟩ := join_members b key requests flight f.requestKeys
  obtain hknown | ⟨-, hempty, hleaderless, hnew⟩ := hflight
  · exact absurd (hknown.symm.trans hnone) (Option.some_ne_none flight)
  rw [hregistered]
  dsimp only
  rw [hstate, hnew, hdesignated, hleaderless, Option.orElse_none]
  refine ⟨rfl, ?_⟩
  obtain ⟨first, hfirst⟩ := List.exists_mem_of_ne_nil _ hselected
  have hfound : (requests.find? (· ∈ (join b key requests flight f.requestKeys).1.members)).isSome := by
    rw [List.find?_isSome]
    exact ⟨first, (hjoined first hfirst).1, decide_eq_true (hjoined first hfirst).2.2.2⟩
  obtain ⟨leader, hleader⟩ := Option.isSome_iff_exists.mp hfound
  have hmember : leader ∈ (join b key requests flight f.requestKeys).1.members := by
    simpa using List.find?_some hleader
  obtain hbefore | hafter := hmembers leader hmember
  · rw [hempty] at hbefore
    exact absurd hbefore (Finset.notMem_empty leader)
  · exact ⟨leader, hafter, hleader⟩

/-! ## Flights without a reader -/

theorem finish_registered {f : Flights Key} {request : String} {key : Key}
    (h : (f.finish request).state key = some .registered) : f.state key = some .registered := by
  obtain ⟨flight', hlookup, hstate⟩ := state_eq_some.mp h
  obtain ⟨flight, hflight, -, hsame⟩ := finish_lookup hlookup
  exact state_eq_some.mpr ⟨flight, hflight, hsame.symm.trans hstate⟩

theorem enter_registered {f : Flights Key} {request : String} {key key' : Key}
    (h : (f.enter request key).1.state key' = some .registered) : f.state key' = some .registered := by
  obtain hfinish | hsame | ⟨flight, hlookup, hreads⟩ := f.enter_cases request key
  · rw [hfinish] at h
    exact finish_registered h
  · rwa [hsame] at h
  · rw [hreads, state] at h
    dsimp only at h
    by_cases heq : key' = key
    · subst heq
      rw [AList.lookup_insert] at h
      cases h
    · rwa [AList.lookup_insert_ne heq] at h

theorem complete_registered {f : Flights Key} {request : String} {key key' : Key} {serial : ℕ} {rejected : Bool}
    (h : (f.complete request key serial rejected).state key' = some .registered) :
    f.state key' = some .registered := by
  obtain ⟨flight', hlookup, hstate⟩ := state_eq_some.mp h
  obtain ⟨flight, hflight, -, ⟨-, -, hended⟩ | ⟨-, hsame⟩⟩ := complete_lookup hlookup
  · rw [hstate] at hended
    obtain h | h := hended <;> cases h
  · exact state_eq_some.mpr ⟨flight, hflight, hsame.symm.trans hstate⟩

theorem cancel_registered {f : Flights Key} {request : String} {key : Key}
    (h : (f.cancel request).state key = some .registered) : f.state key = some .registered := by
  unfold cancel at h
  split at h
  · exact h
  · rename_i known hknown
    split at h
    · exact h
    · rename_i flight hlookup
      rw [state] at h
      dsimp only at h
      by_cases heq : key = known
      · subst heq
        rw [AList.lookup_insert] at h
        rw [state, hlookup]
        exact h
      · rwa [AList.lookup_insert_ne heq] at h

/-- A registration leaves the states of the flights as they were, but for a new one. -/
theorem registerCohort_registered {b : Bounds} {declared : Key → ℤ} {f : Flights Key} {key key' : Key}
    {requests : List String} (h : (f.registerCohort b declared key requests).1.state key' = some .registered) :
    f.state key' = some .registered ∨ key' = key ∧ f.flights.lookup key = none := by
  obtain ⟨flight', hlookup, hstate⟩ := state_eq_some.mp h
  obtain hsame | ⟨flight, hflight, -, nextSerial, hregistered⟩ := registerCohort_cases b declared f key requests
  · rw [hsame] at h
    exact Or.inl h
  rw [hregistered] at hlookup
  dsimp only at hlookup
  by_cases heq : key' = key
  · subst heq
    obtain hknown | ⟨hnone, -⟩ := hflight
    · rw [AList.lookup_insert, Option.some.injEq] at hlookup
      obtain ⟨-, hsame, -⟩ := join_spec b key' requests flight f.requestKeys
      rw [← hlookup] at hstate
      exact Or.inl (state_eq_some.mpr ⟨flight, hknown, hsame.symm.trans hstate⟩)
    · exact Or.inr ⟨rfl, hnone⟩
  · rw [AList.lookup_insert_ne heq] at hlookup
    exact Or.inl (state_eq_some.mpr ⟨flight', hlookup, hstate⟩)

end Flights

end SparkCache.Loading
