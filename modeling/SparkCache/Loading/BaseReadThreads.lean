import SparkCache.Lib.Run
import SparkCache.Lib.Threads
import SparkCache.Loading.BaseReads

/-!
# Threads that share base reads

A call of `resolve` is a lock section, a read outside the lock when its request leads the flight, and
another section. What the readers gave and what the calls returned is recorded.
-/
namespace SparkCache.Loading
open Threads

/-- What a call of `resolve` returns or raises. -/
inductive ReadAnswer (V : Type*) where
  | shared (id : ℕ) (readable : Readable V)
  | independent (outcome : ReaderOutcome V)
  | refused
  | raised (error : ReadError)

/-- A call that has ended, with the flight that its request was a registered member of when it began. -/
structure Answered (Key V : Type*) where
  request : String
  key : Key
  flight : Option ℕ
  answer : ReadAnswer V

inductive ReadOp (Key V : Type*) where
  | registerCohort (key : Key) (requests : List String)
  | resolve (request : String) (key : Key) (allowIndependent : Bool) (reader : ReaderOutcome V)
  | cancel (request : String)
  | finish (request : String)
  | close
  /-- the read of a leader, and its section after it -/
  | read (id : ℕ) (request : String) (key : Key) (reader : ReaderOutcome V)
  | settle (id : ℕ) (request : String) (key : Key) (read : Except String (Readable V))
  /-- the wake-up of a follower -/
  | acquire (id : ℕ) (request : String) (key : Key)

/-- A call by a thread. -/
def ReadOp.Public {Key V : Type*} : ReadOp Key V → Prop
  | .read .. | .settle .. | .acquire .. => False
  | _ => True

abbrev ReadCall (Key V : Type*) := { op : ReadOp Key V // op.Public }

/-- The flight that a thread is about to read for. -/
def ReadOp.reads {Key V : Type*} : ReadOp Key V → Multiset ℕ
  | .read id .. => {id}
  | _ => 0

/-- The coordinator, the flights whose readers were called, what the readers gave, and the calls that
have ended. -/
structure ReadWorld (Key V : Type*) where
  coordinator : PageBaseReadFlights Key V
  started : Multiset ℕ
  produced : List (ℕ × Readable V)
  answers : List (Answered Key V)

variable {Key V ι : Type*} [DecidableEq Key]

namespace ReadWorld

def initial : ReadWorld Key V := ⟨.new, 0, [], []⟩

def answer (w : ReadWorld Key V) (coordinator : PageBaseReadFlights Key V) (request : String) (key : Key)
    (flight : Option ℕ) (answer : ReadAnswer V) : ReadWorld Key V :=
  { w with coordinator := coordinator, answers := w.answers ++ [⟨request, key, flight, answer⟩] }

/-- The answer of a call that took part in a flight. -/
def sharedAnswer (id : ℕ) : Except ReadError (Readable V) → ReadAnswer V
  | .ok readable => .shared id readable
  | .error error => .raised error

/-- The first section of `resolve`, and what is left of the call. -/
def resolve (w : ReadWorld Key V) (request : String) (key : Key) (allowIndependent : Bool)
    (reader : ReaderOutcome V) : ReadWorld Key V × List (ReadOp Key V) :=
  let flight := if w.coordinator.Member request key then w.coordinator.flights.lookup key else none
  let (coordinator, entry) := w.coordinator.enter request key
  match entry with
  | .leader id => ({ w with coordinator := coordinator }, [.read id request key reader])
  | .follower id => ({ w with coordinator := coordinator }, [.acquire id request key])
  | .bypassed =>
      (w.answer coordinator request key flight (if allowIndependent then .independent reader else .refused), [])
  | .raised error => (w.answer coordinator request key flight (.raised error), [])

/-- The read of a leader. -/
def read (declared : Key → ℤ) (w : ReadWorld Key V) (id : ℕ) (request : String) (key : Key)
    (reader : ReaderOutcome V) : ReadWorld Key V × List (ReadOp Key V) :=
  let w := { w with started := id ::ₘ w.started }
  match reader.check (declared key) with
  | none => (w, [])
  | some (.error message) => (w, [.settle id request key (.error message)])
  | some (.ok readable) =>
      ({ w with produced := w.produced ++ [(id, readable)] }, [.settle id request key (.ok readable)])

/-- A step of a thread; a follower may have to wait. -/
def effect (b : Bounds) (declared : Key → ℤ) (op : ReadOp Key V) (w : ReadWorld Key V) :
    Option (ReadWorld Key V × List (ReadOp Key V)) :=
  match op with
  | .registerCohort key requests =>
      some ({ w with coordinator := w.coordinator.registerCohort b declared key requests }, [])
  | .resolve request key allowIndependent reader => some (w.resolve request key allowIndependent reader)
  | .cancel request => some ({ w with coordinator := w.coordinator.cancel request }, [])
  | .finish request => some ({ w with coordinator := w.coordinator.finish request }, [])
  | .close => some ({ w with coordinator := w.coordinator.close }, [])
  | .read id request key reader => some (w.read declared id request key reader)
  | .settle id request key read =>
      let (coordinator, result) := w.coordinator.settle id request key read
      some (w.answer coordinator request key (some id) (sharedAnswer id result), [])
  | .acquire id request key =>
      (w.coordinator.acquire id request).map fun (coordinator, result) =>
        (w.answer coordinator request key (some id) (sharedAnswer id result), [])

end ReadWorld

/-! ## Flights in the heap -/

namespace PageBaseReadFlights
variable {s s' s'' : PageBaseReadFlights Key V}

/-- No flight is dropped from the heap, its key stays, and a result is there only from before or as
allowed. -/
structure Follows (s s' : PageBaseReadFlights Key V) (allowed : ℕ → Readable V → Prop) : Prop where
  kept : ∀ id flight, s.heap id = some flight → ∃ flight', s'.heap id = some flight' ∧ flight'.key = flight.key ∧
    (flight'.state = .registered → flight.state = .registered) ∧
    ∀ readable, flight'.result = some readable → flight.result = some readable ∨ allowed id readable
  fresh : ∀ id flight', s'.heap id = some flight' → s.heap id = none → flight'.result = none

def Unchanged : ℕ → Readable V → Prop := fun _ _ => False

omit [DecidableEq Key] in
theorem Follows.refl (s : PageBaseReadFlights Key V) (allowed : ℕ → Readable V → Prop) : s.Follows s allowed :=
  ⟨fun _ flight h => ⟨flight, h, rfl, fun h => h, fun _ h => Or.inl h⟩, fun _ _ h hnone => by rw [hnone] at h; cases h⟩

omit [DecidableEq Key] in
theorem Follows.trans {allowed : ℕ → Readable V → Prop} (h : s.Follows s' allowed) (h' : s'.Follows s'' Unchanged) :
    s.Follows s'' allowed := by
  constructor
  · intro id flight hflight
    obtain ⟨flight', hflight', hkey, hstate, hresult⟩ := h.kept id flight hflight
    obtain ⟨flight'', hflight'', hkey', hstate', hresult'⟩ := h'.kept id flight' hflight'
    exact ⟨flight'', hflight'', hkey'.trans hkey, fun hregistered => hstate (hstate' hregistered),
      fun readable hreadable => hresult readable ((hresult' readable hreadable).resolve_right not_false)⟩
  · intro id flight'' hflight'' hnone
    cases hflight' : s'.heap id with
    | none => exact h'.fresh id flight'' hflight'' hflight'
    | some flight' =>
        obtain ⟨known, hknown, -, -, hresult⟩ := h'.kept id flight' hflight'
        rw [hflight'', Option.some.injEq] at hknown
        subst hknown
        have hbefore := h.fresh id flight' hflight' hnone
        cases hreadable : flight''.result with
        | none => rfl
        | some readable =>
            obtain hsame | hfalse := hresult readable hreadable
            · rw [hbefore] at hsame
              cases hsame
            · exact hfalse.elim

omit [DecidableEq Key] in
/-- One flight changes. -/
theorem follows_update {allowed : ℕ → Readable V → Prop} {id : ℕ} {flight flight' : SharedFlight Key V}
    (hflight : s.heap id = some flight) (hheap : s'.heap = Function.update s.heap id (some flight'))
    (hkey : flight'.key = flight.key) (hstate : flight'.state = .registered → flight.state = .registered)
    (hresult : ∀ readable, flight'.result = some readable → flight.result = some readable ∨ allowed id readable) :
    s.Follows s' allowed := by
  constructor
  · intro other found hfound
    rw [hheap]
    by_cases heq : other = id
    · subst heq
      rw [hflight, Option.some.injEq] at hfound
      subst hfound
      exact ⟨flight', Function.update_self .., hkey, hstate, hresult⟩
    · exact ⟨found, (Function.update_of_ne heq ..).trans hfound, rfl, fun h => h, fun _ h => Or.inl h⟩
  · intro other found hfound hnone
    have hne : other ≠ id := by
      rintro rfl
      rw [hflight] at hnone
      cases hnone
    rw [hheap, Function.update_of_ne hne, hnone] at hfound
    cases hfound

theorem finish_follows (s : PageBaseReadFlights Key V) (request : String) : s.Follows (s.finish request) Unchanged := by
  unfold PageBaseReadFlights.finish
  split
  · exact Follows.refl s _
  · rename_i key _
    dsimp only
    split
    · exact ⟨(Follows.refl s Unchanged).kept, (Follows.refl s Unchanged).fresh⟩
    · rename_i id flight hfound
      obtain ⟨-, hflight⟩ := flight_eq_some.mp hfound
      split
      · exact follows_update hflight rfl rfl (fun h => h) fun _ h => Or.inl h
      · exact follows_update hflight rfl rfl (fun h => h) fun _ h => nomatch h

theorem cancel_follows (s : PageBaseReadFlights Key V) (request : String) : s.Follows (s.cancel request) Unchanged := by
  unfold PageBaseReadFlights.cancel
  split
  · exact Follows.refl s _
  · rename_i id flight hfound
    obtain ⟨key, -, hkey⟩ := Option.bind_eq_some_iff.mp hfound
    exact follows_update (flight_eq_some.mp hkey).2 rfl rfl (fun h => h) fun _ h => Or.inl h

theorem finishAll_follows (requests : List String) : ∀ s : PageBaseReadFlights Key V,
    s.Follows (requests.foldl PageBaseReadFlights.finish s) Unchanged := by
  induction requests with
  | nil => exact fun s => Follows.refl s _
  | cons request rest ih => exact fun s => (s.finish_follows request).trans (ih _)

theorem close_follows (s : PageBaseReadFlights Key V) : s.Follows s.close Unchanged := by
  refine Follows.trans ⟨?_, ?_⟩ (finishAll_follows _ _)
  · intro id flight hflight
    dsimp only
    split
    · refine ⟨closeFlight flight, by rw [hflight, Option.map_some], rfl, ?_, fun _ h => Or.inl h⟩
      intro hstate
      unfold closeFlight at hstate
      dsimp only at hstate
      split at hstate
      · cases hstate
      · exact hstate
    · exact ⟨flight, hflight, rfl, fun h => h, fun _ h => Or.inl h⟩
  · intro id flight' hflight' hnone
    dsimp only at hflight'
    rw [hnone] at hflight'
    split at hflight' <;> cases hflight'

theorem registerCohort_follows {b : Bounds} {declared : Key → ℤ} (h : s.Sound b declared) (key : Key)
    (requests : List String) : s.Follows (s.registerCohort b declared key requests) Unchanged := by
  obtain hsame | ⟨id, flight, hflight, -, designated, heq⟩ := registerCohort_cases b declared s key requests
  · rw [hsame]
    exact Follows.refl s _
  rw [heq]
  obtain ⟨⟨members, count, hjoined, -⟩, -⟩ := join_spec b key requests flight s.requestKeys
  rw [hjoined]
  obtain hfound | ⟨-, rfl, hcreate⟩ := hflight
  · exact follows_update (flight_eq_some.mp hfound).2 rfl rfl (fun h => h) fun _ h => Or.inl h
  · have hfree := h.allocated s.allocated (Nat.le_refl _)
    obtain ⟨rfl, -⟩ := create_spec hcreate
    constructor
    · intro other found hfound
      have hne : other ≠ s.allocated := by
        rintro rfl
        rw [hfree] at hfound
        cases hfound
      exact ⟨found, (Function.update_of_ne hne ..).trans hfound, rfl, fun h => h, fun _ h => Or.inl h⟩
    · intro other found hfound hnone
      dsimp only [PageBaseReadFlights.write] at hfound
      by_cases heq : other = s.allocated
      · rw [heq, Function.update_self, Option.some.injEq] at hfound
        rw [← hfound]
      · rw [Function.update_of_ne heq, hnone] at hfound
        cases hfound

/-- A reader starts on a flight that had none; otherwise a request goes on or leaves. -/
theorem enter_follows (s : PageBaseReadFlights Key V) (request : String) (key : Key) :
    s.Follows (s.enter request key).1 Unchanged ∧
      match (s.enter request key).2 with
      | .leader id => ∃ flight, s.flight key = some (id, flight) ∧ flight.state = .registered ∧
          ∃ flight', (s.enter request key).1.heap id = some flight' ∧ flight'.state = .reading
      | .follower id => ∃ flight, s.flight key = some (id, flight)
      | .bypassed => ¬s.Member request key
      | .raised _ => True := by
  have hfinish := s.finish_follows request
  unfold PageBaseReadFlights.enter
  by_cases hclosed : s.closed = true
  · rw [if_pos hclosed]
    exact ⟨hfinish, trivial⟩
  rw [if_neg hclosed]
  cases hfound : s.flight key with
  | none =>
      refine ⟨hfinish, ?_⟩
      rintro ⟨-, found, hmem, -⟩
      rw [hfound] at hmem
      cases hmem
  | some found =>
      obtain ⟨id, flight⟩ := found
      obtain ⟨-, hflight⟩ := flight_eq_some.mp hfound
      dsimp only
      by_cases hstranger : s.requestKeys.lookup request ≠ some key ∨ request ∉ flight.members
      · rw [if_pos hstranger]
        refine ⟨hfinish, ?_⟩
        rintro ⟨hkey, found, hmem, hrequest⟩
        rw [hfound, Option.mem_some_iff] at hmem
        subst hmem
        exact hstranger.elim (fun h => h hkey) fun h => h hrequest
      rw [if_neg hstranger]
      by_cases hcancelled : request ∈ flight.cancelled
      · rw [if_pos hcancelled]
        exact ⟨hfinish, trivial⟩
      rw [if_neg hcancelled]
      by_cases hstate : flight.state = .registered
      · rw [if_pos hstate]
        refine ⟨follows_update hflight rfl rfl (fun h => nomatch h) fun _ h => Or.inl h, ?_⟩
        exact ⟨flight, rfl, hstate, _, write_heap_self s id _, rfl⟩
      · rw [if_neg hstate]
        exact ⟨Follows.refl s _, flight, rfl⟩

omit [DecidableEq Key] in
theorem endRead_spec (flight : SharedFlight Key V) (read : Except String (Readable V)) :
    (endRead flight read).key = flight.key ∧ (endRead flight read).state ≠ .registered ∧
      ∀ readable, (endRead flight read).result = some readable → flight.result = some readable ∨ read = .ok readable := by
  cases read with
  | ok value => exact ⟨rfl, fun h => (nomatch h), fun readable h => Or.inr (congrArg Except.ok (Option.some.inj h))⟩
  | error message => exact ⟨rfl, fun h => (nomatch h), fun _ h => Or.inl h⟩

omit [DecidableEq Key] in
theorem leaderAnswer_ok {flight : SharedFlight Key V} {read : Except String (Readable V)} {left : Bool}
    {readable : Readable V} (h : leaderAnswer flight read left = .ok readable) : flight.result = some readable := by
  unfold leaderAnswer at h
  split at h
  · cases h
  · split at h
    · cases h
    · cases h
    · rename_i value hvalue
      rw [hvalue, Except.ok.inj h]

/-- The section after a read sets the result of its flight at most to what was read. -/
theorem settle_follows (s : PageBaseReadFlights Key V) (id : ℕ) (request : String) (key : Key)
    (read : Except String (Readable V)) :
    s.Follows (s.settle id request key read).1 (fun other readable => other = id ∧ read = .ok readable) ∧
      ∀ readable, (s.settle id request key read).2 = .ok readable → ∃ flight, s.heap id = some flight ∧
        (flight.result = some readable ∨ read = .ok readable) := by
  unfold PageBaseReadFlights.settle
  cases hflight : s.heap id with
  | none => exact ⟨Follows.refl s _, fun _ h => (nomatch h)⟩
  | some flight =>
      dsimp only
      by_cases hlive : s.flights.lookup key = some id
      · rw [if_pos hlive]
        obtain ⟨hkey, hstate, hresult⟩ := endRead_spec flight read
        refine ⟨(follows_update hflight rfl hkey (fun h => absurd h hstate) fun readable h => ?_).trans
          (finish_follows _ request), fun readable h => ⟨flight, rfl, hresult readable (leaderAnswer_ok h)⟩⟩
        exact (hresult readable h).imp_right fun hread => ⟨rfl, hread⟩
      · rw [if_neg hlive]
        exact ⟨(follows_update hflight rfl rfl (fun h => h) fun _ h => Or.inl h).trans (finish_follows _ request),
          fun readable h => ⟨flight, rfl, Or.inl (leaderAnswer_ok h)⟩⟩

theorem acquire_follows {id : ℕ} {request : String} {result} (h : s.acquire id request = some (s', result)) :
    s.Follows s' Unchanged ∧ ∀ readable, result = .ok readable → ∃ flight, s.heap id = some flight ∧
      flight.result = some readable := by
  have hfinish := s.finish_follows request
  unfold PageBaseReadFlights.acquire at h
  obtain ⟨flight, hflight, h⟩ := Option.bind_eq_some_iff.mp h
  split at h
  · cases h
    exact ⟨hfinish, fun _ h => nomatch h⟩
  · split at h
    · cases h
      exact ⟨hfinish, fun _ h => nomatch h⟩
    · split at h
      · cases h
        exact ⟨hfinish, fun _ h => nomatch h⟩
      · rename_i readable hreadable
        cases h
        refine ⟨hfinish, fun other hother => ⟨flight, hflight, ?_⟩⟩
        cases hother
        exact hreadable
    · cases h

end PageBaseReadFlights

/-! ## What the steps keep -/

namespace ReadWorld
open PageBaseReadFlights
variable {b : Bounds} {declared : Key → ℤ} {w w' : ReadWorld Key V}

/-- A flight of a key, for which something was read. -/
def Produced (declared : Key → ℤ) (w : ReadWorld Key V) (id : ℕ) (key : Key) (readable : Readable V) : Prop :=
  (id, readable) ∈ w.produced ∧ readable.size = declared key

/-- A flight of a key, in the table or not. -/
def Of (w : ReadWorld Key V) (id : ℕ) (key : Key) : Prop :=
  ∃ flight, w.coordinator.heap id = some flight ∧ flight.key = key

structure Holds (b : Bounds) (declared : Key → ℤ) (w : ReadWorld Key V) : Prop where
  sound : w.coordinator.Sound b declared
  results : ∀ id flight readable, w.coordinator.heap id = some flight → flight.result = some readable →
    w.Produced declared id flight.key readable
  counted : ∀ id, (w.produced.map Prod.fst).count id ≤ w.started.count id
  answers : ∀ answered ∈ w.answers, ∀ id, answered.flight = some id → (∃ error, answered.answer = .raised error) ∨
    ∃ readable, answered.answer = .shared id readable ∧ w.Of id answered.key ∧
      w.Produced declared id answered.key readable

/-- What a call knows of the flight that it takes part in. -/
def Justified (declared : Key → ℤ) (w : ReadWorld Key V) : ReadOp Key V → Prop
  | .read id _ key _ => w.Of id key
  | .settle id _ key read => w.Of id key ∧ ∀ readable, read = .ok readable → w.Produced declared id key readable
  | .acquire id _ key => w.Of id key
  | _ => True

/-- What other threads may rely on. -/
structure Extends (w w' : ReadWorld Key V) : Prop where
  of : ∀ id key, w.Of id key → w'.Of id key
  produced : w.produced ⊆ w'.produced

omit [DecidableEq Key] in
theorem Justified.mono {op : ReadOp Key V} (h : w.Justified declared op) (hextends : w.Extends w') :
    w'.Justified declared op := by
  cases op with
  | read id request key reader => exact hextends.of id key h
  | settle id request key read =>
      exact ⟨hextends.of id key h.1, fun readable hread =>
        ⟨hextends.produced (h.2 readable hread).1, (h.2 readable hread).2⟩⟩
  | acquire id request key => exact hextends.of id key h
  | _ => trivial

omit [DecidableEq Key] in
theorem Extends.of_follows {allowed : ℕ → Readable V → Prop} (hfollows : w.coordinator.Follows w'.coordinator allowed)
    (hproduced : w.produced ⊆ w'.produced) : w.Extends w' := by
  refine ⟨fun id key hof => ?_, hproduced⟩
  obtain ⟨flight, hflight, hkey⟩ := hof
  obtain ⟨flight', hflight', hkey', -⟩ := hfollows.kept id flight hflight
  exact ⟨flight', hflight', hkey'.trans hkey⟩

/-- A section keeps the invariant when the results it leaves were read, and its answer too. -/
theorem Holds.follow (h : w.Holds b declared) {allowed : ℕ → Readable V → Prop}
    {coordinator : PageBaseReadFlights Key V} (hsound : coordinator.Sound b declared)
    (hfollows : w.coordinator.Follows coordinator allowed)
    (hallowed : ∀ id flight readable, w.coordinator.heap id = some flight → allowed id readable →
      w.Produced declared id flight.key readable)
    (more : List (Answered Key V)) (hmore : ∀ answered ∈ more, ∀ id, answered.flight = some id →
      (∃ error, answered.answer = .raised error) ∨ ∃ readable, answered.answer = .shared id readable ∧
        w.Of id answered.key ∧ w.Produced declared id answered.key readable) :
    ({ w with coordinator := coordinator, answers := w.answers ++ more } : ReadWorld Key V).Holds b declared ∧
      w.Extends { w with coordinator := coordinator, answers := w.answers ++ more } := by
  have hextends : w.Extends { w with coordinator := coordinator, answers := w.answers ++ more } :=
    Extends.of_follows hfollows (List.Subset.refl _)
  refine ⟨⟨hsound, ?_, h.counted, ?_⟩, hextends⟩
  · intro id flight' readable hflight' hresult
    cases hflight : w.coordinator.heap id with
    | none =>
        rw [hfollows.fresh id flight' hflight' hflight] at hresult
        cases hresult
    | some flight =>
        obtain ⟨known, hknown, hkey, -, hresults⟩ := hfollows.kept id flight hflight
        dsimp only at hflight'
        rw [hflight', Option.some.injEq] at hknown
        subst hknown
        rw [hkey]
        obtain hsame | hnew := hresults readable hresult
        · exact h.results id flight readable hflight hsame
        · exact hallowed id flight readable hflight hnew
  · intro answered hanswered id hid
    obtain hbefore | hnew := List.mem_append.mp hanswered
    · obtain herror | ⟨readable, hanswer, hof, hproduced⟩ := h.answers answered hbefore id hid
      · exact Or.inl herror
      · exact Or.inr ⟨readable, hanswer, hextends.of id _ hof, hproduced⟩
    · obtain herror | ⟨readable, hanswer, hof, hproduced⟩ := hmore answered hnew id hid
      · exact Or.inl herror
      · exact Or.inr ⟨readable, hanswer, hextends.of id _ hof, hproduced⟩

theorem Holds.quiet (h : w.Holds b declared) {coordinator : PageBaseReadFlights Key V}
    (hsound : coordinator.Sound b declared) (hfollows : w.coordinator.Follows coordinator Unchanged) :
    ({ w with coordinator := coordinator } : ReadWorld Key V).Holds b declared ∧
      w.Extends { w with coordinator := coordinator } := by
  have hboth := h.follow hsound hfollows (fun _ _ _ _ hfalse => hfalse.elim) []
    fun _ hmem => absurd hmem List.not_mem_nil
  rwa [List.append_nil] at hboth

omit [DecidableEq Key] in
/-- A reader is checked against the declared length. -/
theorem check_size {length : ℤ} {reader : ReaderOutcome V} {readable : Readable V}
    (h : reader.check length = some (.ok readable)) : readable.size = length := by
  unfold ReaderOutcome.check at h
  split at h
  · split at h
    · cases h
    · split at h
      · cases h
      · rename_i hsame
        cases h
        exact not_not.mp hsame
  · cases h
  · split at h
    · cases h
    · rename_i hsame
      cases h
      exact not_not.mp hsame
  · cases h
  · cases h
  · cases h

theorem Holds.read (h : w.Holds b declared) {id : ℕ} (request : String) {key : Key} (hof : w.Of id key)
    (reader : ReaderOutcome V) :
    (w.read declared id request key reader).1.Holds b declared ∧ w.Extends (w.read declared id request key reader).1 ∧
      ∀ op ∈ (w.read declared id request key reader).2,
        (w.read declared id request key reader).1.Justified declared op := by
  have hgrown : ∀ other, w.started.count other ≤ (id ::ₘ w.started).count other := fun other =>
    Multiset.count_le_of_le other (Multiset.le_cons_self _ _)
  have hstarted : ({ w with started := id ::ₘ w.started } : ReadWorld Key V).Holds b declared :=
    ⟨h.sound, h.results, fun other => (h.counted other).trans (hgrown other), h.answers⟩
  have hsame : w.Extends { w with started := id ::ₘ w.started } := ⟨fun _ _ h => h, List.Subset.refl _⟩
  unfold ReadWorld.read
  cases hcheck : reader.check (declared key) with
  | none => exact ⟨hstarted, hsame, by simp⟩
  | some outcome =>
      cases outcome with
      | error message =>
          refine ⟨hstarted, hsame, fun op hop => ?_⟩
          rw [List.mem_singleton] at hop
          rw [hop]
          exact ⟨hof, fun _ h => (nomatch h)⟩
      | ok readable =>
          have hproduced : w.produced ⊆ w.produced ++ [(id, readable)] := List.subset_append_left _ _
          have hnew : (id, readable) ∈ w.produced ++ [(id, readable)] := by simp
          refine ⟨⟨h.sound, ?_, ?_, ?_⟩, ⟨fun _ _ h => h, hproduced⟩, ?_⟩
          · intro other flight found hflight hresult
            obtain ⟨hmem, hsize⟩ := h.results other flight found hflight hresult
            exact ⟨hproduced hmem, hsize⟩
          · intro other
            have hbefore := h.counted other
            dsimp only
            rw [List.map_append, List.count_append, Multiset.count_cons]
            by_cases hother : other = id
            · simp [hother] at hbefore ⊢
              exact hbefore
            · simp [Ne.symm hother, hother, hbefore]
          · intro answered hanswered other hother
            obtain herror | ⟨found, hanswer, hof', hmem, hsize⟩ := h.answers answered hanswered other hother
            · exact Or.inl herror
            · exact Or.inr ⟨found, hanswer, hof', hproduced hmem, hsize⟩
          · intro op hop
            rw [List.mem_singleton] at hop
            rw [hop]
            refine ⟨hof, fun found hfound => ?_⟩
            cases hfound
            exact ⟨hnew, check_size hcheck⟩

theorem of_flight {key : Key} {id : ℕ} {flight : SharedFlight Key V} (h : w.Holds b declared)
    (hflight : w.coordinator.flight key = some (id, flight)) : w.Of id key := by
  obtain ⟨hid, hheap⟩ := flight_eq_some.mp hflight
  obtain ⟨-, known, hknown, hkey, -⟩ := h.sound.table key id hid
  exact ⟨known, hknown, hkey⟩

theorem Holds.resolve (h : w.Holds b declared) (request : String) (key : Key) (allowIndependent : Bool)
    (reader : ReaderOutcome V) :
    (w.resolve request key allowIndependent reader).1.Holds b declared ∧
      w.Extends (w.resolve request key allowIndependent reader).1 ∧
      ∀ op ∈ (w.resolve request key allowIndependent reader).2,
        (w.resolve request key allowIndependent reader).1.Justified declared op := by
  have hsound := h.sound.enter request key
  obtain ⟨hfollows, hentry⟩ := w.coordinator.enter_follows request key
  obtain ⟨hholds, hextends⟩ := h.quiet hsound hfollows
  unfold ReadWorld.resolve
  dsimp only
  cases hdecided : (w.coordinator.enter request key).2 with
  | leader id =>
      rw [hdecided] at hentry
      obtain ⟨flight, hflight, -⟩ := hentry
      refine ⟨hholds, hextends, fun op hop => ?_⟩
      rw [List.mem_singleton] at hop
      rw [hop]
      exact hextends.of id key (of_flight h hflight)
  | follower id =>
      rw [hdecided] at hentry
      obtain ⟨flight, hflight⟩ := hentry
      refine ⟨hholds, hextends, fun op hop => ?_⟩
      rw [List.mem_singleton] at hop
      rw [hop]
      exact hextends.of id key (of_flight h hflight)
  | bypassed =>
      rw [hdecided] at hentry
      obtain ⟨hanswered, hextended⟩ := h.follow hsound hfollows (fun _ _ _ _ hfalse => hfalse.elim)
        [⟨request, key, if w.coordinator.Member request key then w.coordinator.flights.lookup key else none,
          if allowIndependent then .independent reader else .refused⟩] fun answered hmem id hid => by
            rw [List.mem_singleton] at hmem
            rw [hmem] at hid
            dsimp only at hid
            rw [if_neg hentry] at hid
            cases hid
      exact ⟨hanswered, hextended, fun _ hop => absurd hop List.not_mem_nil⟩
  | raised error =>
      obtain ⟨hanswered, hextended⟩ := h.follow hsound hfollows (fun _ _ _ _ hfalse => hfalse.elim)
        [⟨request, key, if w.coordinator.Member request key then w.coordinator.flights.lookup key else none,
          .raised error⟩] fun answered hmem _ _ => by
          rw [List.mem_singleton] at hmem
          exact Or.inl ⟨error, by rw [hmem]⟩
      exact ⟨hanswered, hextended, fun _ hop => absurd hop List.not_mem_nil⟩

/-- A step of a thread keeps the invariant and what other threads know. -/
theorem Holds.effect (h : w.Holds b declared) {op : ReadOp Key V} (hop : w.Justified declared op)
    {more : List (ReadOp Key V)} (heffect : w.effect b declared op = some (w', more)) :
    w'.Holds b declared ∧ w.Extends w' ∧ ∀ other ∈ more, w'.Justified declared other := by
  have hnone : ∀ other ∈ ([] : List (ReadOp Key V)), w'.Justified declared other := fun _ hother =>
    absurd hother List.not_mem_nil
  cases op with
  | registerCohort key requests =>
      cases heffect
      obtain ⟨hholds, hextends⟩ := h.quiet (h.sound.registerCohort key requests)
        (registerCohort_follows h.sound key requests)
      exact ⟨hholds, hextends, hnone⟩
  | resolve request key allowIndependent reader =>
      have hboth := h.resolve request key allowIndependent reader
      rw [ReadWorld.effect, Option.some.injEq] at heffect
      rwa [heffect] at hboth
  | cancel request =>
      cases heffect
      obtain ⟨hholds, hextends⟩ := h.quiet (h.sound.cancel request) (cancel_follows _ request)
      exact ⟨hholds, hextends, hnone⟩
  | finish request =>
      cases heffect
      obtain ⟨hholds, hextends⟩ := h.quiet (h.sound.finish request) (finish_follows _ request)
      exact ⟨hholds, hextends, hnone⟩
  | close =>
      cases heffect
      obtain ⟨hholds, hextends⟩ := h.quiet h.sound.close (close_follows _)
      exact ⟨hholds, hextends, hnone⟩
  | read id request key reader =>
      have hboth := h.read request hop reader
      rw [ReadWorld.effect, Option.some.injEq] at heffect
      rwa [heffect] at hboth
  | settle id request key read =>
      cases heffect
      obtain ⟨hof, hread⟩ := hop
      obtain ⟨hfollows, hresult⟩ := w.coordinator.settle_follows id request key read
      have hown : ∀ flight, w.coordinator.heap id = some flight → flight.key = key := by
        intro flight hflight
        obtain ⟨known, hknown, hkey⟩ := hof
        rw [hflight, Option.some.injEq] at hknown
        rw [hknown, hkey]
      obtain ⟨hholds, hextends⟩ := h.follow (h.sound.settle id request key read) hfollows
        (fun other flight readable hflight hnew => by
          obtain ⟨rfl, hsame⟩ := hnew
          rw [hown flight hflight]
          exact hread readable hsame)
        [⟨request, key, some id, sharedAnswer id (w.coordinator.settle id request key read).2⟩]
        fun answered hmem other hother => by
          rw [List.mem_singleton] at hmem
          subst hmem
          cases hother
          cases hanswer : (w.coordinator.settle id request key read).2 with
          | error error => exact Or.inl ⟨error, rfl⟩
          | ok readable =>
              obtain ⟨flight, hflight, hfound | hsame⟩ := hresult readable hanswer
              · have hproduced := h.results id flight readable hflight hfound
                rw [hown flight hflight] at hproduced
                exact Or.inr ⟨readable, rfl, hof, hproduced⟩
              · exact Or.inr ⟨readable, rfl, hof, hread readable hsame⟩
      exact ⟨hholds, hextends, hnone⟩
  | acquire id request key =>
      obtain ⟨⟨coordinator, result⟩, hacquire, heq⟩ := Option.map_eq_some_iff.mp heffect
      cases heq
      obtain ⟨hfollows, hresult⟩ := acquire_follows hacquire
      obtain ⟨hholds, hextends⟩ := h.follow (h.sound.acquire hacquire) hfollows
        (fun _ _ _ _ hfalse => hfalse.elim) [⟨request, key, some id, sharedAnswer id result⟩]
        fun answered hmem other hother => by
          rw [List.mem_singleton] at hmem
          subst hmem
          cases hother
          cases hanswer : result with
          | error error => exact Or.inl ⟨error, rfl⟩
          | ok readable =>
              obtain ⟨flight, hflight, hfound⟩ := hresult readable hanswer
              obtain ⟨known, hknown, hkey⟩ := hop
              have hproduced := h.results id flight readable hflight hfound
              rw [hflight, Option.some.injEq] at hknown
              rw [hknown, hkey] at hproduced
              exact Or.inr ⟨readable, rfl, ⟨known, by rw [hflight, hknown], hkey⟩, hproduced⟩
      exact ⟨hholds, hextends, hnone⟩

theorem initial_holds (b : Bounds) (declared : Key → ℤ) : (ReadWorld.initial : ReadWorld Key V).Holds b declared := by
  refine ⟨new_sound b declared, ?_, ?_, ?_⟩
  · intro id flight readable hflight
    cases hflight
  · intro id
    exact Nat.zero_le _
  · intro answered hanswered
    exact absurd hanswered List.not_mem_nil

/-! ## Readers -/

/-- A flight without a reader: it is still registered, or not made yet. -/
def Unread (w : ReadWorld Key V) (id : ℕ) : Prop :=
  w.coordinator.heap id = none ∨ ∃ flight, w.coordinator.heap id = some flight ∧ flight.state = .registered

omit [DecidableEq Key] in
theorem Unread.before {allowed : ℕ → Readable V → Prop} {id : ℕ} (h : w'.Unread id)
    (hfollows : w.coordinator.Follows w'.coordinator allowed) : w.Unread id := by
  cases hflight : w.coordinator.heap id with
  | none => exact Or.inl hflight
  | some flight =>
      obtain ⟨flight', hflight', -, hstate, -⟩ := hfollows.kept id flight hflight
      obtain hnone | ⟨known, hknown, hregistered⟩ := h
      · rw [hnone] at hflight'
        cases hflight'
      · rw [hflight', Option.some.injEq] at hknown
        rw [← hknown] at hregistered
        exact Or.inr ⟨flight, hflight, hstate hregistered⟩

/-- A step starts no read, or the one of a flight without a reader, or turns its start into a read. -/
theorem effect_reads (h : w.Holds b declared) {op : ReadOp Key V} {more : List (ReadOp Key V)}
    (heffect : w.effect b declared op = some (w', more)) :
    (∀ id, w'.Unread id → w.Unread id) ∧
      (ownedBy ReadOp.reads more + w'.started = op.reads + w.started ∨
        ∃ id, w.Unread id ∧ ¬w'.Unread id ∧ op.reads = 0 ∧ ownedBy ReadOp.reads more = {id} ∧
          w'.started = w.started) := by
  cases op with
  | registerCohort key requests =>
      cases heffect
      exact ⟨fun id hid => hid.before (registerCohort_follows h.sound key requests), Or.inl rfl⟩
  | resolve request key allowIndependent reader =>
      rw [ReadWorld.effect, Option.some.injEq] at heffect
      obtain ⟨hfollows, hentry⟩ := w.coordinator.enter_follows request key
      unfold ReadWorld.resolve at heffect
      dsimp only at heffect
      cases hdecided : (w.coordinator.enter request key).2 with
      | leader id =>
          rw [hdecided] at heffect hentry
          cases heffect
          obtain ⟨flight, hflight, hstate, flight', hflight', hreading⟩ := hentry
          refine ⟨fun other hother => hother.before hfollows, Or.inr ⟨id, ?_, ?_, rfl, ?_, rfl⟩⟩
          · exact Or.inr ⟨flight, (flight_eq_some.mp hflight).2, hstate⟩
          · rintro (hnone | ⟨known, hknown, hregistered⟩)
            · dsimp only at hnone
              rw [hflight'] at hnone
              cases hnone
            · dsimp only at hknown
              rw [hflight', Option.some.injEq] at hknown
              rw [← hknown, hreading] at hregistered
              cases hregistered
          · rw [ownedBy_cons, ownedBy_nil, add_zero]
            rfl
      | follower id =>
          rw [hdecided] at heffect
          cases heffect
          exact ⟨fun other hother => hother.before hfollows, Or.inl rfl⟩
      | bypassed =>
          rw [hdecided] at heffect
          cases heffect
          exact ⟨fun other hother => hother.before hfollows, Or.inl rfl⟩
      | raised error =>
          rw [hdecided] at heffect
          cases heffect
          exact ⟨fun other hother => hother.before hfollows, Or.inl rfl⟩
  | cancel request =>
      cases heffect
      exact ⟨fun id hid => hid.before (cancel_follows _ request), Or.inl rfl⟩
  | finish request =>
      cases heffect
      exact ⟨fun id hid => hid.before (finish_follows _ request), Or.inl rfl⟩
  | close =>
      cases heffect
      exact ⟨fun id hid => hid.before (close_follows _), Or.inl rfl⟩
  | read id request key reader =>
      rw [ReadWorld.effect, Option.some.injEq] at heffect
      unfold ReadWorld.read at heffect
      dsimp only at heffect
      split at heffect
      · cases heffect
        refine ⟨fun _ hother => hother, Or.inl ?_⟩
        rw [ownedBy_nil, zero_add]
        rfl
      · cases heffect
        refine ⟨fun _ hother => hother, Or.inl ?_⟩
        rw [ownedBy_cons, ownedBy_nil]
        simp [ReadOp.reads]
      · cases heffect
        refine ⟨fun _ hother => hother, Or.inl ?_⟩
        rw [ownedBy_cons, ownedBy_nil]
        simp [ReadOp.reads]
  | settle id request key read =>
      cases heffect
      exact ⟨fun other hother => hother.before (w.coordinator.settle_follows id request key read).1, Or.inl rfl⟩
  | acquire id request key =>
      obtain ⟨⟨coordinator, result⟩, hacquire, heq⟩ := Option.map_eq_some_iff.mp heffect
      cases heq
      exact ⟨fun other hother => hother.before (acquire_follows hacquire).1, Or.inl rfl⟩

end ReadWorld

/-! ## Runs -/

open ReadWorld PageBaseReadFlights

variable [DecidableEq ι] [Fintype ι] {b : Bounds} {declared : Key → ℤ}

/-- The threads before the first step, each with its calls. -/
def readers (calls : ι → List (ReadCall Key V)) : Config ι (ReadOp Key V) (ReadWorld Key V) :=
  ⟨.initial, fun i => (calls i).map Subtype.val⟩

/-- The flights after steps of the threads, in some order. -/
def flightsAfter (b : Bounds) (declared : Key → ℤ) (calls : ι → List (ReadCall Key V)) (schedule : List ι) :
    Config ι (ReadOp Key V) (ReadWorld Key V) :=
  Run.exec (Config.exec (effect b declared)) (readers calls) schedule

structure SteadyReads (b : Bounds) (declared : Key → ℤ) (c : Config ι (ReadOp Key V) (ReadWorld Key V)) : Prop where
  holds : c.shared.Holds b declared
  justified : ∀ op, c.Pending op → c.shared.Justified declared op
  once : ∀ id, (c.holdings ReadOp.reads + c.shared.started).count id ≤ 1
  unread : ∀ id, c.shared.Unread id → (c.holdings ReadOp.reads + c.shared.started).count id = 0

omit [DecidableEq ι] in
theorem SteadyReads.initial (b : Bounds) (declared : Key → ℤ) (calls : ι → List (ReadCall Key V)) :
    SteadyReads b declared (readers calls) := by
  have hholdings : (readers calls).holdings ReadOp.reads = 0 := by
    refine Finset.sum_eq_zero fun i _ => ?_
    have hnothing : ∀ ops : List (ReadCall Key V), ownedBy ReadOp.reads (ops.map Subtype.val) = 0 := by
      intro ops
      induction ops with
      | nil => rfl
      | cons call rest ih =>
          rw [List.map_cons, ownedBy_cons, ih, add_zero]
          obtain ⟨op, hpublic⟩ := call
          cases op with
          | read => exact hpublic.elim
          | _ => rfl
    exact hnothing (calls i)
  have hnone : (readers calls).holdings ReadOp.reads + (readers calls).shared.started = 0 := by
    rw [hholdings]
    rfl
  refine ⟨initial_holds b declared, ?_, ?_, ?_⟩
  · rintro op ⟨i, hop⟩
    obtain ⟨⟨call, hpublic⟩, -, rfl⟩ := List.mem_map.mp hop
    cases call with
    | read => exact hpublic.elim
    | settle => exact hpublic.elim
    | acquire => exact hpublic.elim
    | _ => trivial
  · intro id
    rw [hnone]
    exact Nat.zero_le _
  · intro id _
    rw [hnone]
    rfl

theorem SteadyReads.step {c : Config ι (ReadOp Key V) (ReadWorld Key V)} (h : SteadyReads b declared c) (i : ι) :
    SteadyReads b declared (c.exec (effect b declared) i) := by
  refine Config.exec_induction h fun op rest shared more hleft heffect => ?_
  have hop := h.justified op ⟨i, by rw [hleft]; exact List.mem_cons_self⟩
  obtain ⟨hholds, hextends, hmore⟩ := h.holds.effect hop heffect
  obtain ⟨hunread, hreads⟩ := effect_reads h.holds heffect
  have hadvance := Config.holdings_advance ReadOp.reads hleft shared more
  have hcounts := fun id => congrArg (Multiset.count id) hadvance
  simp only [Multiset.count_add] at hcounts
  have honce := h.once
  have hnone := h.unread
  simp only [Multiset.count_add] at honce hnone
  refine ⟨hholds, fun other hpending => ?_, ?_, ?_⟩
  · obtain hnew | hothers := Config.pending_advance.mp hpending
    · exact hmore other hnew
    · exact (h.justified other hothers.pending).mono hextends
  · intro id
    have hcount := hcounts id
    have hid := honce id
    rw [Multiset.count_add, Config.advance_shared]
    obtain hsame | ⟨leader, hbefore, -, hnothing, howned, hstarted⟩ := hreads
    · have heq := congrArg (Multiset.count id) hsame
      simp only [Multiset.count_add] at heq
      omega
    · rw [hnothing, howned, Multiset.count_zero, Multiset.count_singleton] at hcount
      rw [hstarted]
      by_cases heq : id = leader
      · subst heq
        have hzero := hnone id hbefore
        rw [if_pos rfl] at hcount
        omega
      · rw [if_neg heq] at hcount
        omega
  · intro id hid
    have hcount := hcounts id
    have hzero := hnone id (hunread id hid)
    rw [Multiset.count_add, Config.advance_shared]
    obtain hsame | ⟨leader, -, hafter, hnothing, howned, hstarted⟩ := hreads
    · have heq := congrArg (Multiset.count id) hsame
      simp only [Multiset.count_add] at heq
      omega
    · rw [hnothing, howned, Multiset.count_zero, Multiset.count_singleton] at hcount
      rw [hstarted]
      have hne : id ≠ leader := by
        rintro rfl
        exact hafter hid
      rw [if_neg hne] at hcount
      omega

theorem SteadyReads.run (b : Bounds) (declared : Key → ℤ) (calls : ι → List (ReadCall Key V)) (schedule : List ι) :
    SteadyReads b declared (flightsAfter b declared calls schedule) :=
  Run.invariant (fun _ i h => h.step i) (SteadyReads.initial b declared calls) schedule

/-- In every order of the lock sections, whatever the readers give: a request has the key of a flight
just when it is a member of it, and of no other; flights, members and declared bytes stay within the
bounds; a flight is read once at most; a call for a registered member returns what its flight's read
gave, of the declared length, or raises; and a flight in the table has members, one out of it no bytes. -/
theorem base_reads_shared (b : Bounds) (declared : Key → ℤ) (calls : ι → List (ReadCall Key V)) (schedule : List ι) :
    let w := (flightsAfter b declared calls schedule).shared
    let s := w.coordinator
    (∀ request key, s.requestKeys.lookup request = some key ↔
        ∃ id flight, s.flight key = some (id, flight) ∧ request ∈ flight.members) ∧
      s.flights.size ≤ b.maxFlights ∧ (∀ id flight, s.heap id = some flight → flight.members.card ≤ b.maxMembers) ∧
      (s.flights.entries.map fun entry => 2 * declared entry.1).sum ≤ b.maxBytesTotal ∧
      (∀ id, w.started.count id ≤ 1 ∧ (w.produced.map Prod.fst).count id ≤ w.started.count id) ∧
      (∀ answered ∈ w.answers, ∀ id, answered.flight = some id → (∃ error, answered.answer = .raised error) ∨
        ∃ readable, answered.answer = .shared id readable ∧ w.Of id answered.key ∧ (id, readable) ∈ w.produced ∧
          readable.size = declared answered.key) ∧
      ∀ id flight, s.heap id = some flight → if s.flights.lookup flight.key = some id then flight.members.Nonempty
        else flight.members = ∅ ∧ flight.result = none := by
  have h := SteadyReads.run b declared calls schedule
  have hsound := h.holds.sound
  refine ⟨?_, hsound.size, ?_, hsound.bytes, ?_, ?_, ?_⟩
  · intro request key
    rw [← hsound.member_iff]
    constructor
    · rintro ⟨-, ⟨id, flight⟩, hflight, hmem⟩
      exact ⟨id, flight, hflight, hmem⟩
    · rintro ⟨id, flight, hflight, hmem⟩
      obtain ⟨hid, hheap⟩ := flight_eq_some.mp hflight
      obtain ⟨-, known, hknown, hkey, -⟩ := hsound.table key id hid
      rw [hheap, Option.some.injEq] at hknown
      refine ⟨?_, (id, flight), hflight, hmem⟩
      rw [← hkey, ← hknown]
      exact ((hsound.members id flight request hheap).mp hmem).2
  · intro id flight hflight
    exact (hsound.participants id flight hflight).1.trans (hsound.participants id flight hflight).2
  · intro id
    have hcount := h.once id
    rw [Multiset.count_add] at hcount
    exact ⟨by omega, h.holds.counted id⟩
  · exact h.holds.answers
  · intro id flight hflight
    split
    · rename_i hlive
      obtain ⟨-, known, hknown, -, hmembers⟩ := hsound.table flight.key id hlive
      rw [hflight, Option.some.injEq] at hknown
      rw [hknown]
      exact hmembers
    · rename_i hgone
      refine ⟨Finset.eq_empty_of_forall_notMem fun request hrequest => ?_, hsound.gone id flight hflight hgone⟩
      exact hgone ((hsound.members id flight request hflight).mp hrequest).1

/-- A follower gets what the leader's read gave. -/
example : (flightsAfter ⟨1, 2, 4, 8, by decide⟩ (fun _ : Unit => 2)
    (fun thread : Bool => if thread then [⟨.resolve "b" () true .other, trivial⟩]
      else [⟨.registerCohort () ["a", "b"], trivial⟩, ⟨.resolve "a" () true (.bytes [1, 2]), trivial⟩])
    [false, false, true, true, false, false, true]).shared.answers =
      ([⟨"a", (), some 0, .shared 0 (.bytes [1, 2])⟩, ⟨"b", (), some 0, .shared 0 (.bytes [1, 2])⟩] :
        List (Answered Unit Unit)) := rfl

end SparkCache.Loading
