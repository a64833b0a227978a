import SparkCache.Loading.Execution

/-!
# The release of deferred loads

A deferred load is attended while something is queued or left to do that will release or promote the
loads of its flight. Every operation leaves what it attends to another. A batch that records deferrals
attends them itself, or needs that a flight without a reader is attended: the loads that would have read
may be gone by then.
-/
namespace SparkCache.Loading
open Threads
variable {Key : Type*} [DecidableEq Key]

/-! ## Attendance -/

/-- A queued load that will release what is deferred for a key when it ends. -/
def QueueItem.Attends (s : Loads Key) (key : Key) : QueueItem → Prop
  | .batch _ => False
  | .load queued => s.planKeys queued.request = some key

/-- An operation of a load, or of a release, that will release or promote what is deferred for a key. -/
def Op.Attends (s : Loads Key) (key : Key) : Op Key → Prop
  | .put item => item.Attends s key
  | .register _ _ _ cohorts | .record _ cohorts => ∃ load ∈ cohorts.priority, (load.request, key) ∈ cohorts.keys
  | .check load => s.planKeys load.request = some key
  | .checkAgain request | .restore request | .resolve request _ | .fetch request _ _ | .await request _ _
  | .report request | .close request => s.planKeys request = some key
  | .readState other release => other = key ∧ (release.promotes ∨ s.reads.Final key)
  | .select other release state =>
      other = key ∧ state ≠ some .reading ∧ (state = some .registered → release.promotes)
  | .screen _ | .prepare _ | .cancelRead _ | .retire _ => False

/-- What an operation that attends a key leaves for it: operations or queued loads that do, or a read that
goes on. -/
def Attending (s' : Loads Key) (key : Key) (more : List (Op Key)) : Prop :=
  (∃ op ∈ more, op.Attends s' key) ∨ (∃ item ∈ s'.queue, item.Attends s' key) ∨ s'.reads.state key = some .reading

theorem selected_of_attends (matching : List QueuedLoad) {promotes : Bool} {state : Option FlightState}
    (hreading : state ≠ some .reading) (hpromotes : state = some .registered → promotes) :
    selected matching promotes state = matching ∨ selected matching promotes state = matching.take 1 := by
  match state, hreading, hpromotes with
  | none, _, _ => exact Or.inl rfl
  | some .ready, _, _ => exact Or.inl rfl
  | some .error, _, _ => exact Or.inl rfl
  | some .registered, _, hpromotes =>
      rw [selected, if_pos (hpromotes rfl)]
      exact Or.inr rfl
  | some .reading, hreading, _ => exact absurd rfl hreading

/-- A release that queues loads of the flight is followed by what attends it. -/
theorem put_attends {s : Loads Key} {key : Key} {chosen : List QueuedLoad} {state : Option FlightState}
    {load : QueuedLoad} (hload : load ∈ chosen) (hplan : s.planKeys load.request = some key) :
    ∃ op ∈ (chosen.map fun load => (Op.put (.load (released state load)) : Op Key)), op.Attends s key := by
  refine ⟨_, List.mem_map_of_mem hload, ?_⟩
  rw [Op.Attends, QueueItem.Attends, released_request]
  exact hplan

theorem Loads.mem_matching {s : Loads Key} {key : Key} {load : QueuedLoad} :
    load ∈ s.matching key ↔ load ∈ s.deferred ∧ s.planKeys load.request = some key := by
  rw [Loads.matching, List.mem_filter, decide_eq_true_eq]

/-- A release queues a load of the flight, if any is deferred. -/
theorem attending_select {s : Loads Key} {key other : Key} {release : Release} {state : Option FlightState}
    (hattends : (Op.select other release state).Attends s key) (hmatching : s.matching key ≠ []) :
    let chosen := selected (s.matching other) release.promotes state
    Attending { s with deferred := s.deferred.filter (· ∉ chosen) } key
      (chosen.map fun load => (Op.put (.load (released state load)) : Op Key)) := by
  intro chosen
  obtain ⟨rfl, hreading, hpromotes⟩ := hattends
  obtain ⟨first, rest, hcons⟩ := List.exists_cons_of_ne_nil hmatching
  have hplan : first ∈ s.matching other := by
    rw [hcons]
    exact List.mem_cons_self
  have hfirst : first ∈ chosen := by
    obtain hall | hone := selected_of_attends (s.matching other) hreading hpromotes
    · rw [show chosen = s.matching other from hall]
      exact hplan
    · rw [show chosen = (s.matching other).take 1 from hone, hcons]
      exact List.mem_singleton_self _
  exact Or.inl (put_attends hfirst (Loads.mem_matching.mp hplan).2)

theorem afterResolve_attends {s : Loads Key} {key base : Key} {request : String} (admission : Flights.Admission)
    (hplan : s.planKeys request = some key) : ∃ op ∈ afterResolve request base admission, op.Attends s key := by
  cases admission with
  | leader serial => exact ⟨_, List.mem_singleton_self _, hplan⟩
  | follower serial => exact ⟨_, List.mem_singleton_self _, hplan⟩
  | bypassed => exact ⟨_, List.mem_cons_of_mem _ (List.mem_singleton_self _), hplan⟩
  | cancelled => exact ⟨_, List.mem_cons_of_mem _ (List.mem_singleton_self _), hplan⟩

/-- What an operation attends it leaves to others, unless it is a release that finds nothing deferred. -/
theorem effect_attending {b : Bounds} {declared : Key → ℤ} {choice : Choice Key} {op : Op Key} {s s' : Loads Key}
    {more : List (Op Key)} (heffect : effect b declared choice op s = some (s', more)) (hsound : op.Sound s)
    {key : Key} (hattends : op.Attends s key) :
    Attending s' key more ∨ s.matching key = [] ∧ ∃ release state, op = .select key release state := by
  by_cases hselect : s.matching key = [] ∧ ∃ release state, op = .select key release state
  · exact Or.inr hselect
  refine Or.inl ?_
  cases op with
  | put item =>
      obtain ⟨rfl, rfl⟩ : _ = s' ∧ _ = more := Prod.mk.inj (Option.some.inj heffect)
      refine Or.inr (Or.inl ⟨item, List.mem_append_right _ (List.mem_singleton_self _), ?_⟩)
      cases item <;> exact hattends
  | screen loads => cases hattends
  | prepare loads => cases hattends
  | cancelRead request => cases hattends
  | retire request => cases hattends
  | register loads evidence todo cohorts =>
      obtain ⟨load, hload, hentry⟩ := hattends
      cases todo with
      | nil =>
          obtain ⟨rfl, rfl⟩ : _ = s' ∧ _ = more := Prod.mk.inj (Option.some.inj heffect)
          exact Or.inl ⟨_, List.mem_singleton_self _, load, hload, hentry⟩
      | cons first todo =>
          obtain ⟨rfl, rfl⟩ : _ = s' ∧ _ = more := Prod.mk.inj (Option.some.inj heffect)
          have hadd : (Op.register loads evidence todo (cohorts.add (groupOf loads evidence first) first
              (s.reads.registerCohort b declared first ((groupOf loads evidence first).map QueuedLoad.request)).2)).Attends
              s key := by
            obtain ⟨hkeys, ⟨later, hpriority⟩, -⟩ := cohorts.add_spec (groupOf loads evidence first) first
              (s.reads.registerCohort b declared first ((groupOf loads evidence first).map QueuedLoad.request)).2
            refine ⟨load, ?_, ?_⟩
            · rw [hpriority]
              exact List.mem_append_left _ hload
            · rw [hkeys]
              exact List.mem_append_left _ hentry
          exact Or.inl ⟨_, List.mem_singleton_self _, hadd⟩
  | record loads cohorts =>
      obtain ⟨load, hload, hentry⟩ := hattends
      obtain ⟨rfl, rfl⟩ : _ = s' ∧ _ = more := Prod.mk.inj (Option.some.inj heffect)
      refine Or.inl ⟨.put (.load load), ?_, updateKeys_of_mem hsound.nodup hentry⟩
      rw [afterRecord, List.mem_append, List.mem_append]
      exact Or.inl (Or.inr (List.mem_map_of_mem (List.mem_append_left _ hload)))
  | check load =>
      obtain ⟨rfl, rfl⟩ : _ = s' ∧ _ = more := Prod.mk.inj (Option.some.inj heffect)
      split
      all_goals exact Or.inl ⟨_, List.mem_singleton_self _, hattends⟩
  | checkAgain request =>
      obtain ⟨rfl, rfl⟩ : _ = s' ∧ _ = more := Prod.mk.inj (Option.some.inj heffect)
      split
      all_goals exact Or.inl ⟨_, List.mem_singleton_self _, hattends⟩
  | restore request =>
      rw [effect] at heffect
      split at heffect
      all_goals
        obtain ⟨rfl, rfl⟩ : _ = s' ∧ _ = more := Prod.mk.inj (Option.some.inj heffect)
        exact Or.inl ⟨_, List.mem_singleton_self _, hattends⟩
  | resolve request base =>
      obtain ⟨rfl, rfl⟩ : _ = s' ∧ _ = more := Prod.mk.inj (Option.some.inj heffect)
      exact Or.inl (afterResolve_attends _ hattends)
  | fetch request base serial =>
      obtain ⟨rfl, rfl⟩ : _ = s' ∧ _ = more := Prod.mk.inj (Option.some.inj heffect)
      exact Or.inl ⟨.report request, List.mem_cons_of_mem _ (List.mem_singleton_self _), hattends⟩
  | await request base serial =>
      rw [effect] at heffect
      split at heffect
      · obtain ⟨rfl, rfl⟩ : _ = s' ∧ _ = more := Prod.mk.inj (Option.some.inj heffect)
        exact Or.inl ⟨.report request, List.mem_cons_of_mem _ (List.mem_singleton_self _), hattends⟩
      · cases heffect
  | report request =>
      obtain ⟨rfl, rfl⟩ : _ = s' ∧ _ = more := Prod.mk.inj (Option.some.inj heffect)
      exact Or.inl ⟨.close request, List.mem_singleton_self _, hattends⟩
  | close request =>
      obtain ⟨rfl, rfl⟩ : _ = s' ∧ _ = more := Prod.mk.inj (Option.some.inj heffect)
      refine Or.inl ⟨.readState key .ended, List.mem_append_left _ ?_, rfl, Or.inl rfl⟩
      rw [show s.planKeys request = some key from hattends]
      exact List.mem_singleton_self _
  | readState other release =>
      obtain ⟨rfl, hreleases⟩ := hattends
      obtain ⟨rfl, rfl⟩ : _ = s' ∧ _ = more := Prod.mk.inj (Option.some.inj heffect)
      by_cases hreading : s.reads.state other = some .reading
      · exact Or.inr (Or.inr hreading)
      · refine Or.inl ⟨_, List.mem_singleton_self _, rfl, hreading, fun hregistered => ?_⟩
        obtain hpromotes | hready | herror := hreleases
        · exact hpromotes
        · rw [hregistered] at hready
          cases hready
        · rw [hregistered] at herror
          cases herror
  | select other release state =>
      obtain ⟨rfl, rfl⟩ : _ = s' ∧ _ = more := Prod.mk.inj (Option.some.inj heffect)
      refine attending_select hattends fun hnothing => hselect ⟨hnothing, release, state, ?_⟩
      rw [hattends.1]

/-- An operation that has other requests in its hands goes on attending. -/
theorem Op.Attends.frame {s s' : Loads Key} {touched : Multiset String} (h : s.Frame s' touched) {key : Key}
    (hfinal : s.reads.Final key → s'.reads.Final key) {op : Op Key} (hne : ∀ request ∈ op.owned, request ∉ touched)
    (hattends : op.Attends s key) : op.Attends s' key := by
  have hplan : ∀ request ∈ op.owned, s.planKeys request = some key → s'.planKeys request = some key := fun request hmem =>
    ((h.planKeys request (hne request hmem)).trans ·)
  cases op with
  | put item =>
      cases item with
      | batch loads => exact hattends
      | load load => exact hplan _ (Multiset.mem_singleton_self _) hattends
  | screen loads => exact hattends
  | prepare loads => exact hattends
  | register loads evidence todo cohorts => exact hattends
  | record loads cohorts => exact hattends
  | cancelRead request => exact hattends
  | check load => exact hplan _ (Multiset.mem_singleton_self _) hattends
  | checkAgain request => exact hplan _ (Multiset.mem_singleton_self _) hattends
  | restore request => exact hplan _ (Multiset.mem_singleton_self _) hattends
  | resolve request base => exact hplan _ (Multiset.mem_singleton_self _) hattends
  | fetch request base serial => exact hplan _ (Multiset.mem_singleton_self _) hattends
  | await request base serial => exact hplan _ (Multiset.mem_singleton_self _) hattends
  | report request => exact hplan _ (Multiset.mem_singleton_self _) hattends
  | close request => exact hplan _ (Multiset.mem_singleton_self _) hattends
  | retire request => exact hattends
  | readState other release => exact ⟨hattends.1, hattends.2.imp_right hfinal⟩
  | select other release state => exact hattends

/-! ## The loaders together -/

section Workers
variable {ι : Type*} [DecidableEq ι]

/-- Something is queued or left to do that will release or promote what is deferred for a key. -/
def Attended (c : Worker ι Key) (key : Key) : Prop :=
  (∃ item ∈ c.shared.queue, item.Attends c.shared key) ∨ ∃ op, c.Pending op ∧ op.Attends c.shared key

variable [Fintype ι]

/-- What holds of the loaders in every state that is reached. -/
structure Consistent (c : Worker ι Key) : Prop where
  ledger : c.holdings Op.owned + c.shared.waiting = c.shared.inflight.val
  pending : ∀ op, c.Pending op → op.Sound c.shared
  queue : ∀ item ∈ c.shared.queue, item.Sound c.shared
  deferred : ∀ load ∈ c.shared.deferred, ∃ key,
    c.shared.planKeys load.request = some key ∧ c.shared.reads.Member load.request key
  readers : ∀ key flight, c.shared.reads.flights.lookup key = some flight → flight.state = .reading →
    ∃ request, c.Pending (.fetch request key flight.serial)
  idle : ∀ request ∉ c.shared.inflight, c.shared.reads.requestKeys request = none
  given : c.shared.given ⊆ c.shared.inflight ∪ c.shared.reported
  attended : ∀ load ∈ c.shared.deferred, ∀ key, c.shared.planKeys load.request = some key → Attended c key

omit [DecidableEq ι] [Fintype ι] in
theorem attended_of_reading {c : Worker ι Key} {key : Key} (hpending : ∀ op, c.Pending op → op.Sound c.shared)
    (hreaders : ∀ key flight, c.shared.reads.flights.lookup key = some flight → flight.state = .reading →
      ∃ request, c.Pending (.fetch request key flight.serial))
    (h : c.shared.reads.state key = some .reading) : Attended c key := by
  obtain ⟨flight, hlookup, hreading⟩ := Flights.state_eq_some.mp h
  obtain ⟨request, hfetch⟩ := hreaders key flight hlookup hreading
  exact Or.inr ⟨_, hfetch, (hpending _ hfetch).2⟩

/-! ### One operation -/

section Execution
variable {b : Bounds} {declared : Key → ℤ} {choice : Choice Key} {c : Worker ι Key} {lane : ι} {op : Op Key}
  {rest : List (Op Key)} {s' : Loads Key} {more : List (Op Key)}

theorem Consistent.affords (h : Consistent c) (hpending : c.Pending op) : c.shared.Affords op.owned := by
  refine ⟨?_, h.deferred⟩
  rw [← h.ledger]
  exact add_le_add_left (hpending.le_holdings Op.owned) _

theorem Consistent.others_disjoint (h : Consistent c) (hleft : c.left lane = op :: rest) {other : Op Key}
    (hother : c.Others lane other) : ∀ request ∈ other.owned, request ∉ op.owned := by
  have hnodup : (op.owned + other.owned).Nodup := by
    refine Multiset.nodup_of_le ?_ c.shared.inflight.nodup
    rw [← h.ledger]
    exact (hother.le_holdings Op.owned hleft).trans (Multiset.le_add_right _ _)
  exact fun request hmem => Multiset.disjoint_right.mp (Multiset.disjoint_of_nodup_add hnodup) hmem

theorem Loads.Affords.disjoint {s : Loads Key} {owned : Multiset String} (h : s.Affords owned) :
    ∀ request ∈ s.waiting, request ∉ owned := by
  have hnodup := Multiset.nodup_of_le h.ledger s.inflight.nodup
  exact fun request hmem => Multiset.disjoint_right.mp (Multiset.disjoint_of_nodup_add hnodup) hmem

omit [DecidableEq Key] in
theorem Loads.mem_waiting_of_queue {s : Loads Key} {item : QueueItem} (h : item ∈ s.queue) {request : String}
    (hmem : request ∈ item.requests) : request ∈ s.waiting := by
  rw [Loads.waiting, Multiset.mem_add]
  refine Or.inl (Multiset.mem_of_le ?_ hmem)
  exact List.single_le_sum (fun _ _ => Multiset.zero_le _) _ (List.mem_map_of_mem h)

omit [DecidableEq Key] in
theorem Loads.mem_waiting_of_deferred {s : Loads Key} {load : QueuedLoad} (h : load ∈ s.deferred) :
    load.request ∈ s.waiting := by
  rw [Loads.waiting, Multiset.mem_add]
  exact Or.inr (List.mem_map_of_mem h)

omit [DecidableEq Key] in
theorem Loads.mem_waiting {s : Loads Key} {request : String} (h : request ∈ s.waiting) :
    (∃ item ∈ s.queue, request ∈ item.requests) ∨ ∃ load ∈ s.deferred, load.request = request := by
  obtain hqueue | hdeferred := Multiset.mem_add.mp h
  · left
    generalize s.queue = queue at hqueue ⊢
    induction queue with
    | nil => exact absurd hqueue (Multiset.notMem_zero request)
    | cons item rest ih =>
        rw [List.map_cons, List.sum_cons, Multiset.mem_add] at hqueue
        rw [List.exists_mem_cons_iff]
        exact hqueue.imp_right ih
  · exact Or.inr (List.mem_map.mp (Multiset.mem_coe.mp hdeferred))

/-- A queued load goes on attending a key. -/
theorem Consistent.queued_advance (h : Consistent c) (hpending : c.Pending op)
    (heffect : effect b declared choice op c.shared = some (s', more)) {key : Key}
    (hflight : s'.reads.flights.lookup key ≠ none) {item : QueueItem} (hitem : item ∈ c.shared.queue)
    (hattends : item.Attends c.shared key) : item ∈ s'.queue ∧ item.Attends s' key := by
  have hexecuted := effect_executed heffect (h.pending op hpending) (h.affords hpending)
  have hfinal := fun hfinal => (effect_reading heffect).final key hfinal hflight
  have hput : (Op.put item : Op Key).Attends c.shared key := hattends
  have hput' : (Op.put item : Op Key).Attends s' key := hput.frame hexecuted.frame hfinal fun request hmem =>
    (h.affords hpending).disjoint request (Loads.mem_waiting_of_queue hitem hmem)
  refine ⟨?_, hput'⟩
  obtain ⟨added, hqueue, -⟩ := hexecuted.queue
  rw [hqueue]
  exact List.mem_append_left _ hitem

/-- Whatever else the loaders have left to do goes on attending a key. -/
theorem Consistent.others_advance (h : Consistent c) (hleft : c.left lane = op :: rest)
    (heffect : effect b declared choice op c.shared = some (s', more)) {key : Key}
    (hflight : s'.reads.flights.lookup key ≠ none) {other : Op Key} (hothers : c.Others lane other)
    (hattends : other.Attends c.shared key) : other.Attends s' key := by
  have hpending : c.Pending op := ⟨lane, by rw [hleft]; exact List.mem_cons_self⟩
  have hexecuted := effect_executed heffect (h.pending op hpending) (h.affords hpending)
  have hfinal := fun hfinal => (effect_reading heffect).final key hfinal hflight
  exact hattends.frame hexecuted.frame hfinal (h.others_disjoint hleft hothers)

/-- What attends a key goes on doing so, unless nothing is deferred for it. -/
theorem Consistent.attended_advance (h : Consistent c) (hleft : c.left lane = op :: rest)
    (heffect : effect b declared choice op c.shared = some (s', more))
    (hpending' : ∀ op', (c.advance lane s' more).Pending op' → op'.Sound s')
    (hreaders' : ∀ key flight, s'.reads.flights.lookup key = some flight → flight.state = .reading →
      ∃ request, (c.advance lane s' more).Pending (.fetch request key flight.serial))
    {key : Key} (hflight : s'.reads.flights.lookup key ≠ none) (hdeferred : s'.matching key ≠ [])
    (hattended : Attended c key) : Attended (c.advance lane s' more) key := by
  have hpending : c.Pending op := ⟨lane, by rw [hleft]; exact List.mem_cons_self⟩
  obtain ⟨item, hitem, hattends⟩ | ⟨other, hother, hattends⟩ := hattended
  · exact Or.inl ⟨item, h.queued_advance hpending heffect hflight hitem hattends⟩
  · obtain rfl | hothers := hother.eq_or_others hleft
    · obtain (⟨op', hop', hattends'⟩ | ⟨item, hitem, hattends'⟩ | hreading) | ⟨hnothing, release, state, rfl⟩ :=
        effect_attending heffect (h.pending _ hpending) hattends
      · exact Or.inr ⟨op', Config.pending_advance.mpr (Or.inl hop'), hattends'⟩
      · exact Or.inl ⟨item, hitem, hattends'⟩
      · exact attended_of_reading hpending' hreaders' hreading
      · obtain ⟨rfl, -⟩ : _ = s' ∧ _ = more := Prod.mk.inj (Option.some.inj heffect)
        refine absurd (List.eq_nil_iff_forall_not_mem.mpr fun load hload => ?_) hdeferred
        obtain ⟨hload, hplan⟩ := Loads.mem_matching.mp hload
        have hbefore : load ∈ c.shared.matching key :=
          Loads.mem_matching.mpr ⟨(List.mem_filter.mp hload).1, hplan⟩
        rw [hnothing] at hbefore
        exact absurd hbefore List.not_mem_nil
    · refine Or.inr ⟨other, Config.pending_advance.mpr (Or.inr hothers), ?_⟩
      exact h.others_advance hleft heffect hflight hothers hattends

/-- A batch records deferrals, while every flight that no reader has started on is attended. -/
theorem Consistent.attended_record (h : Consistent c) {loads : List QueuedLoad} {cohorts : Cohorts Key}
    (hleft : c.left lane = .record loads cohorts :: rest)
    (hregistered : ∀ key, c.shared.reads.state key = some .registered → Attended c key)
    (heffect : effect b declared choice (.record loads cohorts) c.shared = some (s', more))
    (hpending' : ∀ op', (c.advance lane s' more).Pending op' → op'.Sound s')
    (hreaders' : ∀ key flight, s'.reads.flights.lookup key = some flight → flight.state = .reading →
      ∃ request, (c.advance lane s' more).Pending (.fetch request key flight.serial))
    {load : QueuedLoad} {key : Key} (hentry : (load.request, key) ∈ cohorts.keys)
    (hdeferred : s'.matching key ≠ []) : Attended (c.advance lane s' more) key := by
  have hpending : c.Pending (.record loads cohorts) := ⟨lane, by rw [hleft]; exact List.mem_cons_self⟩
  have hsound := h.pending _ hpending
  obtain ⟨flight, hlookup, -⟩ := (hsound.members _ hentry).2
  have hshared : s' = c.shared.recorded cohorts := by
    obtain ⟨rfl, -⟩ := Prod.mk.inj (Option.some.inj heffect)
    rfl
  have hmore : more = afterRecord c.shared choice.order loads cohorts := by
    obtain ⟨-, rfl⟩ := Prod.mk.inj (Option.some.inj heffect)
    rfl
  have hreads : s'.reads = c.shared.reads := by rw [hshared]; rfl
  have hread : Op.readState key (.batch ((loads.filter fun load => load.request ∈ c.shared.cancelled) ≠ [])) ∈ more := by
    rw [hmore, afterRecord, List.mem_append]
    refine Or.inr (List.mem_map_of_mem ?_)
    have hkey : key ∈ (cohorts.keys.map Prod.snd).dedup := List.mem_dedup.mpr (List.mem_map_of_mem hentry)
    unfold inOrder
    split
    · rename_i hperm
      exact hperm.mem_iff.mpr hkey
    · exact hkey
  have hreleases : ∀ {promote : Bool}, Op.readState key (.batch promote) ∈ more → promote ∨ s'.reads.Final key →
      Attended (c.advance lane s' more) key := fun hmem hattends =>
    Or.inr ⟨_, Config.pending_advance.mpr (Or.inl hmem), rfl, hattends⟩
  cases hstate : flight.state with
  | reading =>
      refine attended_of_reading hpending' hreaders' (Flights.state_eq_some.mpr ⟨flight, ?_, hstate⟩)
      rw [Config.advance_shared, hreads]
      exact hlookup
  | ready =>
      refine hreleases hread (Or.inr (Or.inl ?_))
      rw [hreads]
      exact Flights.state_eq_some.mpr ⟨flight, hlookup, hstate⟩
  | error =>
      refine hreleases hread (Or.inr (Or.inr ?_))
      rw [hreads]
      exact Flights.state_eq_some.mpr ⟨flight, hlookup, hstate⟩
  | registered =>
      have hattended := hregistered key (Flights.state_eq_some.mpr ⟨flight, hlookup, hstate⟩)
      refine h.attended_advance hleft heffect hpending' hreaders' ?_ hdeferred hattended
      rw [hreads, hlookup]
      exact Option.some_ne_none flight

/-- An operation that is executed keeps the loaders consistent, if it is while every flight that no reader
has started on is attended. -/
theorem Consistent.advance (h : Consistent c) (hleft : c.left lane = op :: rest)
    (hregistered : ∀ key, c.shared.reads.state key = some .registered → Attended c key)
    (heffect : effect b declared choice op c.shared = some (s', more)) : Consistent (c.advance lane s' more) := by
  have hpending : c.Pending op := ⟨lane, by rw [hleft]; exact List.mem_cons_self⟩
  have hafford := h.affords hpending
  have hsound := h.pending op hpending
  have hexecuted := effect_executed heffect hsound hafford
  have hreading := effect_reading heffect
  have hpending' : ∀ op', (c.advance lane s' more).Pending op' → op'.Sound s' := by
    intro op' hop
    obtain hmore | hothers := Config.pending_advance.mp hop
    · exact hexecuted.next op' hmore
    · exact hexecuted.frame.op (h.others_disjoint hleft hothers) (h.pending op' hothers.pending)
  have hreaders' : ∀ key flight, s'.reads.flights.lookup key = some flight → flight.state = .reading →
      ∃ request, (c.advance lane s' more).Pending (.fetch request key flight.serial) := by
    intro key flight' hlookup hstate
    obtain ⟨request, hfetch⟩ | ⟨flight, hflight, hstate, hserial, hnot⟩ := hreading.reader key flight' hlookup hstate
    · exact ⟨request, Config.pending_advance.mpr (Or.inl hfetch)⟩
    · obtain ⟨request, hfetch⟩ := h.readers key flight hflight hstate
      rw [hserial]
      have hstays : _ ∨ (c.advance lane s' more).Pending (.fetch request key flight.serial) := hfetch.advance hleft
      exact ⟨request, hstays.resolve_left fun hop => hnot request hop.symm⟩
  have hframe : ∀ load ∈ c.shared.deferred, load.request ∉ op.owned := fun load hload =>
    hafford.disjoint load.request (Loads.mem_waiting_of_deferred hload)
  have hdeferred' : ∀ load ∈ s'.deferred, ∃ key,
      s'.planKeys load.request = some key ∧ s'.reads.Member load.request key := by
    intro load hload
    obtain hold | ⟨loads, cohorts, rfl, hshared, hnew⟩ := hexecuted.deferred load hload
    · obtain ⟨key, hplan, hmember⟩ := h.deferred load hold
      exact ⟨key, (hexecuted.frame.planKeys _ (hframe load hold)).trans hplan,
        hexecuted.frame.reads.member _ (hframe load hold) key hmember⟩
    · obtain ⟨entry, hentry, heq⟩ := List.mem_map.mp
        (hsound.perm.mem_iff.mp (List.mem_map_of_mem (List.mem_append_right _ hnew)))
      rw [hshared, ← heq]
      exact ⟨entry.2, updateKeys_of_mem hsound.nodup hentry, hsound.members entry hentry⟩
  refine ⟨?_, hpending', ?_, hdeferred', hreaders', ?_, ?_, ?_⟩
  · have hholdings := c.holdings_advance Op.owned hleft s' more
    have haccount := hexecuted.account
    have hledger := h.ledger
    rw [Config.advance_shared]
    refine add_right_cancel (b := op.owned + c.shared.waiting) ?_
    calc (c.advance lane s' more).holdings Op.owned + s'.waiting + (op.owned + c.shared.waiting)
        = ((c.advance lane s' more).holdings Op.owned + op.owned) + s'.waiting + c.shared.waiting := by abel
      _ = (c.holdings Op.owned + c.shared.waiting) + (ownedBy Op.owned more + s'.waiting) := by
          rw [hholdings]
          abel
      _ = ownedBy Op.owned more + s'.waiting + c.shared.inflight.val := by
          rw [hledger]
          abel
      _ = s'.inflight.val + (op.owned + c.shared.waiting) := by
          rw [← haccount]
          abel
  · intro item hitem
    obtain ⟨added, hqueue, hadded⟩ := hexecuted.queue
    rw [Config.advance_shared, hqueue, List.mem_append] at hitem
    obtain hold | hnew := hitem
    · exact hexecuted.frame.item (fun request hmem =>
        hafford.disjoint request (Loads.mem_waiting_of_queue hold hmem)) (h.queue item hold)
    · exact hadded item hnew
  · intro request hgone
    by_cases hbefore : request ∈ c.shared.inflight
    · exact hexecuted.idle request hgone hbefore
    · refine (hexecuted.frame.reads.requestKeys request fun hmem => hbefore ?_).trans (h.idle request hbefore)
      exact Multiset.mem_of_le hafford.ledger (Multiset.mem_add.mpr (Or.inl hmem))
  · intro request hrequest
    rw [Config.advance_shared, hexecuted.given] at hrequest
    rw [Config.advance_shared, Finset.mem_union]
    obtain hinflight | hreported := Finset.mem_union.mp (h.given hrequest)
    · exact hexecuted.inflight request hinflight
    · exact Or.inr (hexecuted.reported hreported)
  · intro load hload key hplan
    have hmatching : s'.matching key ≠ [] :=
      List.ne_nil_of_mem (List.mem_filter.mpr ⟨hload, decide_eq_true hplan⟩)
    obtain hold | ⟨loads, cohorts, rfl, hshared, hnew⟩ := hexecuted.deferred load hload
    · have hplan' : c.shared.planKeys load.request = some key :=
        (hexecuted.frame.planKeys _ (hframe load hold)).symm.trans hplan
      obtain ⟨planned, hplanned, -, flight, hlookup, -⟩ := hdeferred' load hload
      have hsame : planned = key := Option.some.inj (hplanned.symm.trans hplan)
      subst hsame
      refine h.attended_advance hleft heffect hpending' hreaders' ?_ hmatching (h.attended load hold planned hplan')
      rw [hlookup]
      exact Option.some_ne_none flight
    · obtain ⟨entry, hentry, heq⟩ := List.mem_map.mp
        (hsound.perm.mem_iff.mp (List.mem_map_of_mem (List.mem_append_right _ hnew)))
      have hkey : entry.2 = key := by
        have hrecorded : (c.shared.recorded cohorts).planKeys entry.1 = some entry.2 :=
          updateKeys_of_mem hsound.nodup hentry
        rw [heq] at hrecorded
        rw [Config.advance_shared, hshared] at hplan
        exact Option.some.inj (hrecorded.symm.trans hplan)
      have hpair : (load.request, key) ∈ cohorts.keys := by
        rw [← heq, ← hkey]
        exact hentry
      exact h.attended_record hleft hregistered heffect hpending' hreaders' hpair hmatching

end Execution

end Workers

end SparkCache.Loading
