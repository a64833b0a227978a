import SparkCache.Loading.Release

/-!
# Flights that no reader has started on

While no reader has started on a flight, a load is queued or under way that will read the base or promote
a deferred load, or a load is deferred already. Only a promoting release can break this: it finds nothing
deferred, while a batch has registered a member that it has yet to record.
-/
namespace SparkCache.Loading
open Threads
variable {Key : Type*} [DecidableEq Key]

/-! ## The condition -/

/-- A batch has registered a request in the flight of a key and has yet to record that it is deferred. -/
def Op.Defers (key : Key) : Op Key → Prop
  | .register _ _ _ cohorts | .record _ cohorts => ∃ load ∈ cohorts.deferred, (load.request, key) ∈ cohorts.keys
  | _ => False

instance (key : Key) (op : Op Key) : Decidable (op.Defers key) := by
  cases op with
  | register loads evidence todo cohorts | record loads cohorts =>
      exact inferInstanceAs (Decidable (∃ load ∈ cohorts.deferred, (load.request, key) ∈ cohorts.keys))
  | _ => exact .isFalse id

section Condition
variable {ι : Type*}

/-- A promoting release that has found a flight without a reader selects while it is so and nothing is
deferred: no batch is between the registration of a member and the recording of its deferral. -/
def Op.Meets (c : Worker ι Key) : Op Key → Prop
  | .select key release state => state = some .registered → release.promotes = true →
      c.shared.reads.state key = some .registered → c.shared.matching key = [] →
        ∀ lane, ∀ op ∈ c.left lane, ¬op.Defers key
  | _ => True

/-- The condition on a step; also, no request is started before its load has retired. -/
def Meets (c : Worker ι Key) : Action ι Key → Prop
  | .exec lane _ => ∀ op ∈ (c.left lane).head?, op.Meets c
  | .start _ loads => ∀ load ∈ loads, load.request ∉ c.shared.inflight
  | .take _ | .cancelLoad _ | .cancelRead _ => True

instance [Fintype ι] (c : Worker ι Key) (op : Op Key) : Decidable (op.Meets c) := by
  cases op with
  | select key release state =>
      exact inferInstanceAs (Decidable (state = some .registered → release.promotes = true →
        c.shared.reads.state key = some .registered → c.shared.matching key = [] →
          ∀ lane, ∀ op ∈ c.left lane, ¬op.Defers key))
  | _ => exact .isTrue trivial

instance [Fintype ι] (c : Worker ι Key) : (action : Action ι Key) → Decidable (Meets c action)
  | .exec lane _ => inferInstanceAs (Decidable (∀ op ∈ (c.left lane).head?, op.Meets c))
  | .start _ loads => inferInstanceAs (Decidable (∀ load ∈ loads, load.request ∉ c.shared.inflight))
  | .take _ | .cancelLoad _ | .cancelRead _ => .isTrue trivial

end Condition

/-! ## What reads or promotes -/

/-- An operation that attends a key while no reader has started on its flight. -/
def Op.Leads (s : Loads Key) (key : Key) (op : Op Key) : Prop :=
  op.Attends s key ∧ ∀ other release state, op = .select other release state → state = some .registered

/-- What a release selects from is what it has just read. -/
theorem effect_select_mem {b : Bounds} {declared : Key → ℤ} {choice : Choice Key} {op : Op Key} {s s' : Loads Key}
    {more : List (Op Key)} (heffect : effect b declared choice op s = some (s', more)) {key : Key} {release : Release}
    {state : Option FlightState} (hmem : Op.select key release state ∈ more) : state = s'.reads.state key := by
  cases op with
  | readState other release' =>
      obtain ⟨rfl, rfl⟩ : _ = s' ∧ _ = more := Prod.mk.inj (Option.some.inj heffect)
      injection List.mem_singleton.mp hmem with hkey _ hstate
      rw [hstate, hkey]
  | register loads evidence todo cohorts =>
      cases todo <;>
        obtain ⟨rfl, rfl⟩ : _ = s' ∧ _ = more := Prod.mk.inj (Option.some.inj heffect) <;>
        simp at hmem
  | resolve request other =>
      obtain ⟨-, rfl⟩ : _ ∧ afterResolve request other (s.reads.enter request other).2 = more :=
        Prod.mk.inj (Option.some.inj heffect)
      cases hadmission : (s.reads.enter request other).2 <;> simp [hadmission, afterResolve] at hmem
  | prepare loads =>
      rw [effect] at heffect
      split at heffect <;>
        obtain ⟨rfl, rfl⟩ : _ = s' ∧ _ = more := Prod.mk.inj (Option.some.inj heffect) <;>
        simp at hmem
  | restore request =>
      rw [effect] at heffect
      split at heffect <;>
        obtain ⟨rfl, rfl⟩ : _ = s' ∧ _ = more := Prod.mk.inj (Option.some.inj heffect) <;>
        simp at hmem
  | await request other serial =>
      rw [effect] at heffect
      split at heffect
      · obtain ⟨rfl, rfl⟩ : _ = s' ∧ _ = more := Prod.mk.inj (Option.some.inj heffect)
        simp at hmem
      · cases heffect
  | screen loads =>
      obtain ⟨rfl, rfl⟩ : _ = s' ∧ _ = more := Prod.mk.inj (Option.some.inj heffect)
      split at hmem <;> simp at hmem
  | check load =>
      obtain ⟨rfl, rfl⟩ : _ = s' ∧ _ = more := Prod.mk.inj (Option.some.inj heffect)
      split at hmem <;> simp at hmem
  | checkAgain request =>
      obtain ⟨rfl, rfl⟩ : _ = s' ∧ _ = more := Prod.mk.inj (Option.some.inj heffect)
      split at hmem <;> simp at hmem
  | put _ | record _ _ | cancelRead _ | fetch _ _ _ | report _ | close _ | retire _ | select _ _ _ =>
      obtain ⟨rfl, rfl⟩ : _ = s' ∧ _ = more := Prod.mk.inj (Option.some.inj heffect)
      simp [afterRecord] at hmem

/-- What an operation leads it leaves to others, while no reader has started; but for a promoting release
that finds nothing deferred. -/
theorem effect_leading {b : Bounds} {declared : Key → ℤ} {choice : Choice Key} {op : Op Key} {s s' : Loads Key}
    {more : List (Op Key)} (heffect : effect b declared choice op s = some (s', more)) (hsound : op.Sound s)
    {key : Key} (hleads : op.Leads s key) (hregistered : s'.reads.state key = some .registered) :
    (∃ op' ∈ more, op'.Leads s' key) ∨ (∃ item ∈ s'.queue, item.Attends s' key) ∨
      s.matching key = [] ∧ ∃ release, op = .select key release (some .registered) ∧ release.promotes = true := by
  obtain (⟨op', hop', hattends⟩ | hqueued | hreading) | ⟨hnothing, release, state, rfl⟩ :=
    effect_attending heffect hsound hleads.1
  · refine Or.inl ⟨op', hop', hattends, ?_⟩
    rintro other release state rfl
    obtain ⟨rfl, -⟩ := hattends
    exact (effect_select_mem heffect hop').trans hregistered
  · exact Or.inr (Or.inl hqueued)
  · rw [hregistered] at hreading
    cases hreading
  · obtain rfl := hleads.2 _ _ _ rfl
    exact Or.inr (Or.inr ⟨hnothing, release, rfl, hleads.1.2.2 rfl⟩)

/-- A member of a flight that an operation has in its hands is read for, or about to be deferred. -/
theorem Op.Sound.leads_or_defers {s : Loads Key} {op : Op Key} (hsound : op.Sound s) {request : String}
    (howned : request ∈ op.owned) {key : Key} (hkey : s.reads.requestKeys request = some key) :
    op.Leads s key ∨ op.Defers key := by
  have hstranger : ∀ {loads : List QueuedLoad}, (∀ load ∈ loads, s.reads.requestKeys load.request = none) →
      request ∈ (loads.map QueuedLoad.request : Multiset String) → False := by
    intro loads hfresh hmem
    obtain ⟨load, hload, rfl⟩ := List.mem_map.mp (Multiset.mem_coe.mp hmem)
    rw [hfresh load hload] at hkey
    cases hkey
  have hcohorts : ∀ {loads : List QueuedLoad} {cohorts : Cohorts Key}, cohorts.Sound s loads →
      request ∈ (loads.map QueuedLoad.request : Multiset String) →
      (∃ load ∈ cohorts.priority, (load.request, key) ∈ cohorts.keys) ∨
        ∃ load ∈ cohorts.deferred, (load.request, key) ∈ cohorts.keys := by
    intro loads cohorts hcohorts hmem
    have hentered : request ∈ cohorts.keys.map Prod.fst := by
      by_contra hother
      obtain ⟨load, hload, rfl⟩ := List.mem_map.mp (Multiset.mem_coe.mp hmem)
      rw [hcohorts.fresh load hload hother] at hkey
      cases hkey
    obtain ⟨entry, hentry, rfl⟩ := List.mem_map.mp hentered
    have hsame : entry.2 = key := Option.some.inj ((hcohorts.members entry hentry).1.symm.trans hkey)
    obtain ⟨load, hload, heq⟩ := List.mem_map.mp (hcohorts.perm.mem_iff.mpr hentered)
    have hpair : (load.request, key) ∈ cohorts.keys := by
      rw [heq, ← hsame]
      exact hentry
    rw [List.mem_append] at hload
    exact hload.imp (fun hload => ⟨load, hload, hpair⟩) fun hload => ⟨load, hload, hpair⟩
  cases op with
  | put item =>
      cases item with
      | batch loads => exact (hstranger hsound howned).elim
      | load load =>
          obtain rfl := Multiset.mem_singleton.mp howned
          exact Or.inl ⟨hsound key hkey, by simp⟩
  | screen loads => exact (hstranger hsound howned).elim
  | prepare loads => exact (hstranger hsound howned).elim
  | register loads evidence todo cohorts =>
      exact (hcohorts hsound howned).imp_left fun hpriority => ⟨hpriority, by simp⟩
  | record loads cohorts => exact (hcohorts hsound howned).imp_left fun hpriority => ⟨hpriority, by simp⟩
  | fetch other base serial =>
      obtain rfl := Multiset.mem_singleton.mp howned
      exact Or.inl ⟨hsound.1 key hkey, by simp⟩
  | close other =>
      obtain rfl := Multiset.mem_singleton.mp howned
      exact Or.inl ⟨hsound.2 key hkey, by simp⟩
  | retire other =>
      obtain rfl := Multiset.mem_singleton.mp howned
      rw [hsound.2] at hkey
      cases hkey
  | check _ | checkAgain _ | restore _ | resolve _ _ | await _ _ _ | report _ =>
      obtain rfl := Multiset.mem_singleton.mp howned
      exact Or.inl ⟨hsound key hkey, by simp⟩
  | cancelRead _ | readState _ _ | select _ _ _ => exact absurd howned (Multiset.notMem_zero request)

/-! ## The loaders together -/

section Workers
variable {ι : Type*} [DecidableEq ι]

/-- Something is queued or left to do that will read the base or promote a deferral, or there is a
deferral already. -/
def Promised (c : Worker ι Key) (key : Key) : Prop :=
  (∃ item ∈ c.shared.queue, item.Attends c.shared key) ∨ (∃ op, c.Pending op ∧ op.Leads c.shared key) ∨
    ∃ load ∈ c.shared.deferred, c.shared.planKeys load.request = some key

variable [Fintype ι]

/-- What holds of the loaders in every state that is reached under the condition. -/
structure Promising (c : Worker ι Key) : Prop where
  consistent : Consistent c
  populated : c.shared.reads.Populated
  promised : ∀ key, c.shared.reads.state key = some .registered → Promised c key

omit [DecidableEq ι] in
theorem Promising.attended {c : Worker ι Key} (h : Promising c) {key : Key}
    (hregistered : c.shared.reads.state key = some .registered) : Attended c key := by
  obtain hqueued | ⟨op, hop, hleads⟩ | ⟨load, hload, hplan⟩ := h.promised key hregistered
  · exact Or.inl hqueued
  · exact Or.inr ⟨op, hop, hleads.1⟩
  · exact h.consistent.attended load hload key hplan

/-- Wherever the member of a flight is: its flight is promised, or a batch has yet to record a deferral. -/
theorem Consistent.promised_or_defers {c : Worker ι Key} (h : Consistent c) {request : String} {key : Key}
    (hkey : c.shared.reads.requestKeys request = some key) :
    Promised c key ∨ ∃ op, c.Pending op ∧ op.Defers key := by
  have hinflight : request ∈ c.shared.inflight := by
    by_contra hgone
    rw [h.idle request hgone] at hkey
    cases hkey
  have hplaced : request ∈ c.holdings Op.owned + c.shared.waiting := by
    rw [h.ledger]
    exact hinflight
  rw [Multiset.mem_add, Config.mem_holdings] at hplaced
  obtain ⟨op, hop, howned⟩ | hwaiting := hplaced
  · obtain hleads | hdefers := (h.pending op hop).leads_or_defers howned hkey
    · exact Or.inl (Or.inr (Or.inl ⟨op, hop, hleads⟩))
    · exact Or.inr ⟨op, hop, hdefers⟩
  refine Or.inl ?_
  obtain ⟨item, hitem, hmem⟩ | ⟨load, hload, rfl⟩ := Loads.mem_waiting hwaiting
  · refine Or.inl ⟨item, hitem, ?_⟩
    obtain hleads | hdefers := (show (Op.put item : Op Key).Sound c.shared from h.queue item hitem).leads_or_defers
      hmem hkey
    · exact hleads.1
    · cases hdefers
  · obtain ⟨planned, hplan, hmember⟩ := h.deferred load hload
    refine Or.inr (Or.inr ⟨load, hload, ?_⟩)
    rw [hplan, ← hkey, hmember.1]

section Execution
variable {b : Bounds} {declared : Key → ℤ} {choice : Choice Key} {c : Worker ι Key} {lane : ι} {op : Op Key}
  {rest : List (Op Key)} {s' : Loads Key} {more : List (Op Key)}

omit [DecidableEq Key] in
/-- The leader of a flight without a reader is queued by the batch that it belongs to. -/
theorem Cohorts.add_leader (cohorts : Cohorts Key) {group : List QueuedLoad} (key : Key) {registration : Registration}
    (hstate : registration.flightState = some .registered) {load : QueuedLoad} (hload : load ∈ group)
    (hjoined : load.request ∈ registration.memberIds) (hleader : registration.leader = some load.request) :
    load ∈ (cohorts.add group key registration).priority ∧
      (load.request, key) ∈ (cohorts.add group key registration).keys := by
  have hmember : load ∈ group.filter fun load => load.request ∈ registration.memberIds :=
    List.mem_filter.mpr ⟨hload, decide_eq_true hjoined⟩
  constructor
  · unfold Cohorts.add
    dsimp only
    rw [if_neg (by rw [hstate]; decide)]
    exact List.mem_append_right _ (List.mem_filter.mpr ⟨hmember, decide_eq_true ⟨hstate, hleader⟩⟩)
  · rw [(cohorts.add_spec group key registration).1]
    exact List.mem_append_right _ (List.mem_map_of_mem hmember)

/-- A batch that creates a flight is going to queue its leader. -/
theorem registered_created {loads : List QueuedLoad} {evidence : String → Option Key} {key : Key} {todo : List Key}
    {cohorts : Cohorts Key} {s : Loads Key}
    (heffect : effect b declared choice (.register loads evidence (key :: todo) cohorts) s = some (s', more))
    (hnone : s.reads.flights.lookup key = none) (hregistered : s'.reads.state key = some .registered) :
    ∃ op ∈ more, op.Leads s' key := by
  let registered := s.reads.registerCohort b declared key ((groupOf loads evidence key).map QueuedLoad.request)
  obtain ⟨rfl, rfl⟩ : { s with reads := registered.1 } = s' ∧
      [Op.register loads evidence todo (cohorts.add (groupOf loads evidence key) key registered.2)] = more :=
    Prod.mk.inj (Option.some.inj heffect)
  obtain ⟨flight, hlookup, -⟩ := Flights.state_eq_some.mp hregistered
  have hcreated : registered.1.flights.lookup key ≠ none := fun hgone =>
    Option.some_ne_none flight (hlookup.symm.trans hgone)
  obtain ⟨hstate, leader, hjoined, hleader⟩ := Flights.registerCohort_created hnone hcreated
  obtain ⟨-, -, -, hmembers, -⟩ := s.reads.registerCohort_spec b declared key
    ((groupOf loads evidence key).map QueuedLoad.request)
  obtain ⟨load, hload, rfl⟩ := List.mem_map.mp (hmembers leader hjoined).1
  exact ⟨_, List.mem_singleton_self _, ⟨load, cohorts.add_leader key hstate hload hjoined hleader⟩, by simp⟩

/-- What is promised stays so, but for a release that meets the condition: then the members of the flight
are where it is promised. -/
theorem Promising.promised_advance (h : Promising c) (hleft : c.left lane = op :: rest) (hmeets : op.Meets c)
    (heffect : effect b declared choice op c.shared = some (s', more))
    (hafter : Consistent (c.advance lane s' more)) (hpopulated : s'.reads.Populated) {key : Key}
    (hregistered : s'.reads.state key = some .registered) (hpromised : Promised c key) :
    Promised (c.advance lane s' more) key := by
  have hpending : c.Pending op := ⟨lane, by rw [hleft]; exact List.mem_cons_self⟩
  have hafford := h.consistent.affords hpending
  have hexecuted := effect_executed heffect (h.consistent.pending op hpending) hafford
  obtain ⟨flight, hlookup, -⟩ := Flights.state_eq_some.mp hregistered
  have hflight : s'.reads.flights.lookup key ≠ none := by
    rw [hlookup]
    exact Option.some_ne_none flight
  obtain ⟨item, hitem, hattends⟩ | ⟨other, hother, hleads⟩ | ⟨load, hload, hplan⟩ := hpromised
  · exact Or.inl ⟨item, h.consistent.queued_advance hpending heffect hflight hitem hattends⟩
  · obtain rfl | hothers := hother.eq_or_others hleft
    · obtain ⟨op', hop', hleads'⟩ | hqueued | ⟨hnothing, release, rfl, hpromotes⟩ :=
        effect_leading heffect (h.consistent.pending _ hpending) hleads hregistered
      · exact Or.inr (Or.inl ⟨op', Config.pending_advance.mpr (Or.inl hop'), hleads'⟩)
      · exact Or.inl hqueued
      · obtain ⟨rfl, rfl⟩ : _ = s' ∧ _ = more := Prod.mk.inj (Option.some.inj heffect)
        obtain ⟨⟨request, hrequest⟩, hnamed⟩ := hpopulated key flight hlookup
        -- the release has queued nothing, and no batch was about to record a deferral
        refine (hafter.promised_or_defers (hnamed request hrequest)).resolve_right ?_
        rintro ⟨op', hop', hdefers⟩
        obtain hmore | hothers := Config.pending_advance.mp hop'
        · obtain ⟨load, -, rfl⟩ := List.mem_map.mp hmore
          cases hdefers
        · obtain ⟨lane', hlane'⟩ := hothers.pending
          exact hmeets rfl hpromotes hregistered hnothing lane' op' hlane' hdefers
    · refine Or.inr (Or.inl ⟨other, Config.pending_advance.mpr (Or.inr hothers), ?_, hleads.2⟩)
      exact h.consistent.others_advance hleft heffect hflight hothers hleads.1
  · have hplan' : s'.planKeys load.request = some key :=
      (hexecuted.frame.planKeys _ (hafford.disjoint _ (Loads.mem_waiting_of_deferred hload))).trans hplan
    obtain hkept | ⟨failed, hput⟩ := hexecuted.kept load hload
    · exact Or.inr (Or.inr ⟨load, hkept, hplan'⟩)
    · exact Or.inr (Or.inl ⟨_, Config.pending_advance.mpr (Or.inl hput), hplan', by simp⟩)

/-- An operation that meets the condition keeps the loaders promising. -/
theorem Promising.advance (h : Promising c) (hleft : c.left lane = op :: rest) (hmeets : op.Meets c)
    (heffect : effect b declared choice op c.shared = some (s', more)) : Promising (c.advance lane s' more) := by
  have hafter := h.consistent.advance hleft (fun _ => h.attended) heffect
  have hpopulated := effect_populated heffect h.populated
  refine ⟨hafter, hpopulated, fun key hregistered => ?_⟩
  obtain hbefore | ⟨loads, evidence, todo, cohorts, rfl, hnone⟩ := effect_registered heffect hregistered
  · exact h.promised_advance hleft hmeets heffect hafter hpopulated hregistered (h.promised key hbefore)
  · obtain ⟨op', hop', hleads⟩ := registered_created heffect hnone hregistered
    exact Or.inr (Or.inl ⟨op', Config.pending_advance.mpr (Or.inl hop'), hleads⟩)

end Execution

end Workers

end SparkCache.Loading
