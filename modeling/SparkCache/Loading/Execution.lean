import SparkCache.Loading.Ownership

/-!
# The execution of the loaders' operations

Every operation hands the requests it has over to those that follow it, to the queue or to the deferred
loads, and leaves the flights of the other requests as they were.
-/
namespace SparkCache.Loading
open Threads
variable {Key : Type*} [DecidableEq Key]

/-! ## Accounts -/

omit [DecidableEq Key] in
theorem ownedBy_eq_zero {ops : List (Op Key)} (h : ∀ op ∈ ops, op.owned = 0) : ownedBy Op.owned ops = 0 := by
  induction ops with
  | nil => simp
  | cons op rest ih =>
      rw [ownedBy_cons, h op List.mem_cons_self, ih fun other hmem => h other (List.mem_cons_of_mem _ hmem), add_zero]

omit [DecidableEq Key] in
/-- Loads that are put back are owned by who puts them. -/
theorem ownedBy_puts (loads : List QueuedLoad) (changed : QueuedLoad → QueuedLoad)
    (h : ∀ load, (changed load).request = load.request) :
    ownedBy Op.owned (loads.map fun load => (Op.put (.load (changed load)) : Op Key)) =
      (loads.map QueuedLoad.request : Multiset String) := by
  induction loads with
  | nil => simp
  | cons load rest ih =>
      rw [List.map_cons, ownedBy_cons, ih, List.map_cons, ← Multiset.cons_coe, ← Multiset.singleton_add]
      have howned : (Op.put (.load (changed load)) : Op Key).owned = {load.request} := by
        rw [Op.owned, QueueItem.requests, h]
      rw [howned]

theorem released_request (state : Option FlightState) (load : QueuedLoad) :
    (released state load).request = load.request := by
  unfold released
  split <;> rfl

/-- A load that has no entry yet gets one at the end. -/
theorem foldl_putLoad {known loads : List QueuedLoad} (h : ((known ++ loads).map QueuedLoad.request).Nodup) :
    loads.foldl putLoad known = known ++ loads := by
  induction loads generalizing known with
  | nil => simp
  | cons load rest ih =>
      have hfresh : load.request ∉ known.map QueuedLoad.request := by
        intro hmem
        rw [List.map_append, List.map_cons] at h
        exact (List.disjoint_of_nodup_append h) hmem List.mem_cons_self
      have hput : putLoad known load = known ++ [load] := by
        rw [putLoad, if_neg hfresh]
      rw [List.foldl_cons, hput, ih (by simpa using h), List.append_assoc, List.singleton_append]

theorem putLoad_nodup {known : List QueuedLoad} (h : (known.map QueuedLoad.request).Nodup) (load : QueuedLoad) :
    ((putLoad known load).map QueuedLoad.request).Nodup := by
  unfold putLoad
  by_cases hknown : load.request ∈ known.map QueuedLoad.request
  · rw [if_pos hknown, List.map_map]
    have hsame : (QueuedLoad.request ∘ fun other : QueuedLoad => if other.request = load.request then load else other) =
        QueuedLoad.request := by
      ext other
      dsimp only [Function.comp_apply]
      split <;> simp [*]
    rwa [hsame]
  · rw [if_neg hknown, List.map_append, List.nodup_append]
    refine ⟨h, List.nodup_singleton _, ?_⟩
    intro request hmem other hother
    rw [List.map_singleton, List.mem_singleton] at hother
    rintro rfl
    rw [hother] at hmem
    exact hknown hmem

theorem foldl_putLoad_nodup (loads : List QueuedLoad) {known : List QueuedLoad}
    (h : (known.map QueuedLoad.request).Nodup) : ((loads.foldl putLoad known).map QueuedLoad.request).Nodup := by
  induction loads generalizing known with
  | nil => exact h
  | cons load rest ih => exact ih (putLoad_nodup h load)

/-! ## Execution -/

theorem Loads.Frame.refl (s : Loads Key) (touched : Multiset String) : s.Frame s touched :=
  ⟨Flights.Frame.refl _ _, fun _ _ => rfl, fun _ _ h => h⟩

/-- What an operation does to the loads, and what the operations that follow it start from. -/
structure Executed (s s' : Loads Key) (op : Op Key) (more : List (Op Key)) : Prop where
  frame : s.Frame s' op.owned
  next : ∀ op' ∈ more, op'.Sound s'
  queue : ∃ added, s'.queue = s.queue ++ added ∧ ∀ item ∈ added, item.Sound s'
  deferred : ∀ load ∈ s'.deferred, load ∈ s.deferred ∨
    ∃ loads cohorts, op = .record loads cohorts ∧ s' = s.recorded cohorts ∧ load ∈ cohorts.deferred
  kept : ∀ load ∈ s.deferred, load ∈ s'.deferred ∨ ∃ failed, Op.put (.load ⟨load.request, failed⟩) ∈ more
  account : op.owned + s.waiting + s'.inflight.val = ownedBy Op.owned more + s'.waiting + s.inflight.val
  given : s'.given = s.given
  inflight : ∀ request ∈ s.inflight, request ∈ s'.inflight ∨ request ∈ s'.reported
  idle : ∀ request ∉ s'.inflight, request ∈ s.inflight → s'.reads.requestKeys request = none
  reported : s.reported ⊆ s'.reported

/-- An operation that only changes the flights of its requests. -/
theorem Executed.of_reads {s : Loads Key} {op : Op Key} {more : List (Op Key)} {reads : Flights Key}
    (hframe : s.reads.Frame reads {request | request ∈ op.owned})
    (hnext : ∀ op' ∈ more, op'.Sound { s with reads := reads })
    (howned : op.owned = ownedBy Op.owned more) : Executed s { s with reads := reads } op more where
  frame := ⟨hframe, fun _ _ => rfl, fun _ _ h => h⟩
  next := hnext
  queue := ⟨[], (List.append_nil _).symm, fun _ hmem => absurd hmem List.not_mem_nil⟩
  deferred := fun _ hload => Or.inl hload
  kept := fun _ hload => Or.inl hload
  account := by rw [howned]; rfl
  given := rfl
  inflight := fun _ hmem => Or.inl hmem
  idle := fun _ hgone hmem => absurd hmem hgone
  reported := Finset.Subset.refl _

theorem Executed.of_same {s : Loads Key} {op : Op Key} {more : List (Op Key)}
    (hnext : ∀ op' ∈ more, op'.Sound s) (howned : op.owned = ownedBy Op.owned more) : Executed s s op more :=
  Executed.of_reads (Flights.Frame.refl _ _) hnext howned

omit [DecidableEq Key] in
theorem Loads.known_of_fresh {s : Loads Key} {request : String} (h : s.reads.requestKeys request = none) :
    s.Known request := by
  intro key hkey
  rw [h] at hkey
  cases hkey

/-- A batch takes the cancelled loads apart and prepares the rest. -/
theorem executed_screen {s : Loads Key} {loads : List QueuedLoad}
    (hsound : (Op.screen loads : Op Key).Sound s) :
    Executed s s (.screen loads)
      ((loads.filter fun load => load.request ∈ s.cancelled).map (fun load => .put (.load load)) ++
        if (loads.filter fun load => load.request ∉ s.cancelled) = [] then []
        else [.prepare (loads.filter fun load => load.request ∉ s.cancelled)]) := by
  refine Executed.of_same ?_ ?_
  · intro op hop
    rw [List.mem_append] at hop
    obtain hput | hprepare := hop
    · obtain ⟨load, hload, rfl⟩ := List.mem_map.mp hput
      exact Loads.known_of_fresh (hsound load (List.mem_filter.mp hload).1)
    · split at hprepare
      · cases hprepare
      · rw [List.mem_singleton] at hprepare
        subst hprepare
        intro load hload
        exact hsound load (List.mem_filter.mp hload).1
  · have hkept : ownedBy Op.owned (if (loads.filter fun load => load.request ∉ s.cancelled) = [] then []
        else [(.prepare (loads.filter fun load => load.request ∉ s.cancelled) : Op Key)]) =
        ((loads.filter fun load => load.request ∉ s.cancelled).map QueuedLoad.request : Multiset String) := by
      by_cases hempty : (loads.filter fun load => load.request ∉ s.cancelled) = []
      · rw [if_pos hempty, hempty]
        rfl
      · rw [if_neg hempty, ownedBy_cons, ownedBy_nil, add_zero]
        rfl
    have hputs := @ownedBy_puts Key (loads.filter fun load => load.request ∈ s.cancelled) id fun _ => rfl
    rw [ownedBy_append, hkept]
    refine Eq.trans ?_ (congrArg (· + _) hputs.symm)
    rw [Multiset.coe_add, ← List.map_append]
    refine Multiset.coe_eq_coe.mpr (List.Perm.map _ ?_)
    have hsplit := List.filter_append_perm (fun load : QueuedLoad => decide (load.request ∈ s.cancelled)) loads
    simpa using hsplit.symm

/-- A batch whose preparation raises puts its loads back with an error. -/
theorem executed_prepare_error {s : Loads Key} {loads : List QueuedLoad}
    (hsound : (Op.prepare loads : Op Key).Sound s) :
    Executed s s (.prepare loads) (loads.flatMap fun load =>
      [.cancelRead load.request, .put (.load { load with failed := true })]) := by
  refine Executed.of_same ?_ ?_
  · intro op hop
    obtain ⟨load, hload, hop⟩ := List.mem_flatMap.mp hop
    rw [List.mem_cons, List.mem_singleton] at hop
    obtain rfl | rfl := hop
    · trivial
    · exact Loads.known_of_fresh (hsound load hload)
  · clear hsound
    rw [Op.owned]
    induction loads with
    | nil => rfl
    | cons load rest ih =>
        rw [List.flatMap_cons, ownedBy_append, ← ih, ownedBy_cons, ownedBy_cons, ownedBy_nil]
        rw [List.map_cons, ← Multiset.cons_coe, ← Multiset.singleton_add, add_zero]
        simp only [Op.owned, QueueItem.requests, zero_add]

theorem executed_prepare {s : Loads Key} {loads : List QueuedLoad} (evidence : String → Option Key)
    (hsound : (Op.prepare loads : Op Key).Sound s) :
    Executed s s (.prepare loads) [.register loads evidence (groupKeys loads evidence) ⟨[], [], []⟩] := by
  refine Executed.of_same ?_ ?_
  · intro op hop
    rw [List.mem_singleton] at hop
    subst hop
    exact ⟨List.nodup_nil, .nil, fun _ h => absurd h List.not_mem_nil, fun _ h => absurd h List.not_mem_nil,
      fun load hload _ => hsound load hload⟩
  · rw [ownedBy_cons, ownedBy_nil, add_zero]
    rfl

omit [DecidableEq Key] in
/-- What a group adds to the decisions of a batch: its members. -/
theorem Cohorts.add_spec (cohorts : Cohorts Key) (group : List QueuedLoad) (key : Key) (registration : Registration) :
    let members := group.filter fun load => load.request ∈ registration.memberIds
    let added := cohorts.add group key registration
    added.keys = cohorts.keys ++ members.map (fun load => (load.request, key)) ∧
      (∃ more, added.priority = cohorts.priority ++ more) ∧
      (added.priority ++ added.deferred).Perm (cohorts.priority ++ cohorts.deferred ++ members) := by
  unfold Cohorts.add
  dsimp only
  split
  · refine ⟨rfl, ⟨_, rfl⟩, ?_⟩
    dsimp only
    rw [List.append_assoc, List.append_assoc]
    exact List.Perm.append_left _ List.perm_append_comm
  · refine ⟨rfl, ⟨_, rfl⟩, ?_⟩
    dsimp only
    generalize hleads : (fun load : QueuedLoad => decide (registration.flightState = some .registered ∧
      registration.leader = some load.request)) = leads
    have hsplit := List.filter_append_perm leads (group.filter fun load => load.request ∈ registration.memberIds)
    have hnot : (fun load : QueuedLoad => decide ¬(registration.flightState = some .registered ∧
        registration.leader = some load.request)) = fun load => !leads load := by
      rw [← hleads]
      ext load
      exact decide_not
    rw [hnot]
    refine List.Perm.trans ?_ (List.Perm.append_left _ hsplit)
    simp only [List.append_assoc]
    refine List.Perm.append_left _ ?_
    rw [← List.append_assoc, ← List.append_assoc]
    exact List.Perm.append_right _ List.perm_append_comm

/-- A batch registers the loads of one key. -/
theorem executed_register {b : Bounds} {declared : Key → ℤ} {s : Loads Key} {loads : List QueuedLoad}
    {evidence : String → Option Key} {key : Key} {todo : List Key} {cohorts : Cohorts Key}
    (hsound : (Op.register loads evidence (key :: todo) cohorts).Sound s)
    (hnodup : (loads.map QueuedLoad.request).Nodup) :
    let group := groupOf loads evidence key
    let registered := s.reads.registerCohort b declared key (group.map QueuedLoad.request)
    Executed s { s with reads := registered.1 } (.register loads evidence (key :: todo) cohorts)
      [.register loads evidence todo (cohorts.add group key registered.2)] := by
  intro group registered
  obtain ⟨hframe, -, -, hjoined, hothers⟩ :=
    s.reads.registerCohort_spec b declared key (group.map QueuedLoad.request)
  obtain ⟨hkeys, -, hperm⟩ := cohorts.add_spec group key registered.2
  have hgroup : group.Sublist loads := List.filter_sublist
  set members := group.filter fun load => load.request ∈ registered.2.memberIds with hmembers
  have hsublist : members.Sublist loads := List.filter_sublist.trans hgroup
  have hnew : ∀ load ∈ members, load.request ∈ registered.2.memberIds := fun load hload => by
    simpa using (List.mem_filter.mp hload).2
  have hold : ∀ entry ∈ cohorts.keys, entry.1 ∉ registered.2.memberIds := by
    intro entry hentry hmem
    have hkey := (hsound.members entry hentry).1
    rw [(hjoined entry.1 hmem).2.1] at hkey
    cases hkey
  have howned : ∀ request ∈ registered.2.memberIds, request ∈ loads.map QueuedLoad.request := fun request hmem =>
    (hgroup.map QueuedLoad.request).subset (hjoined request hmem).1
  refine Executed.of_reads (hframe.mono howned) ?_ ?_
  · intro op hop
    rw [List.mem_singleton] at hop
    subst hop
    have hfirsts : (cohorts.add group key registered.2).keys.map Prod.fst =
        cohorts.keys.map Prod.fst ++ members.map QueuedLoad.request := by
      rw [hkeys, List.map_append, List.map_map]
      rfl
    refine ⟨?_, ?_, ?_, ?_, ?_⟩
    · rw [hfirsts, List.nodup_append]
      refine ⟨hsound.nodup, hnodup.sublist (hsublist.map _), ?_⟩
      intro request hbefore other hafter heq
      subst heq
      obtain ⟨entry, hentry, rfl⟩ := List.mem_map.mp hbefore
      obtain ⟨load, hload, heq⟩ := List.mem_map.mp hafter
      refine hold entry hentry ?_
      rw [← heq]
      exact hnew load hload
    · rw [hfirsts]
      refine (hperm.map _).trans ?_
      rw [List.map_append]
      exact hsound.perm.append_right _
    · intro load hload
      rw [hperm.mem_iff, List.mem_append] at hload
      obtain hbefore | hmember := hload
      · exact hsound.among load hbefore
      · exact hsublist.subset hmember
    · intro entry hentry
      rw [hkeys, List.mem_append] at hentry
      obtain hbefore | hafter := hentry
      · exact hframe.member entry.1 (hold entry hbefore) entry.2 (hsound.members entry hbefore)
      · obtain ⟨load, hload, rfl⟩ := List.mem_map.mp hafter
        exact (hjoined load.request (hnew load hload)).2.2
    · intro load hload hother
      rw [hfirsts, List.mem_append, not_or] at hother
      refine (hothers load.request fun hmem => ?_).trans (hsound.fresh load hload hother.1)
      obtain ⟨member, hmember, heq⟩ := List.mem_map.mp (hjoined load.request hmem).1
      refine hother.2 (List.mem_map.mpr ⟨member, List.mem_filter.mpr ⟨hmember, ?_⟩, heq⟩)
      rw [heq]
      exact decide_eq_true hmem
  · rw [ownedBy_cons, ownedBy_nil, add_zero]
    rfl

omit [DecidableEq Key] in
theorem lookup_of_mem {keys : List (String × Key)} (hnodup : (keys.map Prod.fst).Nodup) {entry : String × Key}
    (h : entry ∈ keys) : keys.lookup entry.1 = some entry.2 := by
  induction keys with
  | nil => cases h
  | cons first rest ih =>
      rw [List.map_cons, List.nodup_cons] at hnodup
      obtain rfl | hrest := List.mem_cons.mp h
      · rw [List.lookup_cons_self]
      · have hne : (entry.1 == first.1) = false := by
          refine beq_false_of_ne fun heq => hnodup.1 ?_
          rw [← heq]
          exact List.mem_map_of_mem hrest
        rw [List.lookup_cons, hne]
        exact ih hnodup.2 hrest

omit [DecidableEq Key] in
theorem lookup_eq_none {keys : List (String × Key)} {request : String} (h : request ∉ keys.map Prod.fst) :
    keys.lookup request = none := by
  rw [List.lookup_eq_none_iff]
  intro entry hentry
  refine bne_iff_ne.mpr fun heq => h ?_
  rw [heq]
  exact List.mem_map_of_mem hentry

omit [DecidableEq Key] in
theorem updateKeys_of_mem {planKeys : String → Option Key} {keys : List (String × Key)}
    (hnodup : (keys.map Prod.fst).Nodup) {entry : String × Key} (h : entry ∈ keys) :
    updateKeys planKeys keys entry.1 = some entry.2 := by
  rw [updateKeys, lookup_of_mem hnodup h, Option.orElse_some]

omit [DecidableEq Key] in
theorem updateKeys_of_notMem {planKeys : String → Option Key} {keys : List (String × Key)} {request : String}
    (h : request ∉ keys.map Prod.fst) : updateKeys planKeys keys request = planKeys request := by
  rw [updateKeys, lookup_eq_none h, Option.orElse_none]

/-- The loads of a batch run, or are deferred. -/
theorem Cohorts.Sound.split {s : Loads Key} {loads : List QueuedLoad} {cohorts : Cohorts Key}
    (h : cohorts.Sound s loads) (hnodup : (loads.map QueuedLoad.request).Nodup) :
    (loads.map QueuedLoad.request).Perm
      ((cohorts.runnable loads).map QueuedLoad.request ++ cohorts.deferred.map QueuedLoad.request) := by
  have hsplit := List.filter_append_perm (fun load : QueuedLoad => decide (load.request ∈ cohorts.keys.map Prod.fst)) loads
  have hkept : ((loads.filter fun load => load.request ∈ cohorts.keys.map Prod.fst).map QueuedLoad.request).Perm
      (cohorts.keys.map Prod.fst) := by
    refine (List.perm_ext_iff_of_nodup (hnodup.sublist (List.filter_sublist.map _)) h.nodup).mpr fun request => ?_
    constructor
    · intro hmem
      obtain ⟨load, hload, rfl⟩ := List.mem_map.mp hmem
      simpa using (List.mem_filter.mp hload).2
    · intro hmem
      have hdecided := h.perm.mem_iff.mpr hmem
      obtain ⟨load, hload, rfl⟩ := List.mem_map.mp hdecided
      exact List.mem_map_of_mem (List.mem_filter.mpr ⟨h.among load hload, decide_eq_true hmem⟩)
  have hothers : (loads.filter fun load => load.request ∉ cohorts.keys.map Prod.fst) =
      loads.filter fun load => !decide (load.request ∈ cohorts.keys.map Prod.fst) := by
    refine List.filter_congr fun load _ => ?_
    exact decide_not
  rw [Cohorts.runnable, hothers, List.map_append]
  refine (hsplit.symm.map QueuedLoad.request).trans ?_
  rw [List.map_append]
  refine ((hkept.trans h.perm.symm).append_right _).trans ?_
  rw [List.map_append, List.append_assoc, List.append_assoc]
  exact List.Perm.append_left _ List.perm_append_comm

/-- A batch records its decisions. -/
theorem executed_record {s : Loads Key} {loads : List QueuedLoad} {cohorts : Cohorts Key} (order : List Key)
    (hsound : (Op.record loads cohorts).Sound s) (hnodup : (loads.map QueuedLoad.request).Nodup)
    (hnew : ((s.deferred ++ cohorts.deferred).map QueuedLoad.request).Nodup) :
    Executed s (s.recorded cohorts) (.record loads cohorts) (afterRecord s order loads cohorts) := by
  have hmemberOf : ∀ entry ∈ cohorts.keys, entry.1 ∈ loads.map QueuedLoad.request := by
    intro entry hentry
    obtain ⟨load, hload, heq⟩ := List.mem_map.mp (hsound.perm.mem_iff.mpr (List.mem_map_of_mem hentry))
    rw [← heq]
    exact List.mem_map_of_mem (hsound.among load hload)
  have hplan : ∀ entry ∈ cohorts.keys, (s.recorded cohorts).planKeys entry.1 = some entry.2 := fun entry hentry =>
    updateKeys_of_mem hsound.nodup hentry
  have hrunnable : ∀ load ∈ cohorts.runnable loads, (s.recorded cohorts).Known load.request := by
    intro load hload key hkey
    by_cases hmem : load.request ∈ cohorts.keys.map Prod.fst
    · obtain ⟨entry, hentry, heq⟩ := List.mem_map.mp hmem
      have hmember := (hsound.members entry hentry).1
      rw [heq] at hmember
      have hsame := hmember.symm.trans hkey
      rw [← hsame, ← heq]
      exact hplan entry hentry
    · have hin : load ∈ loads := by
        rw [Cohorts.runnable, List.mem_append] at hload
        obtain hpriority | hother := hload
        · exact hsound.among load (List.mem_append_left _ hpriority)
        · exact (List.mem_filter.mp hother).1
      have hnone := hsound.fresh load hin hmem
      exact Loads.known_of_fresh (s := s.recorded cohorts) hnone key hkey
  have hdeferred : (s.recorded cohorts).deferred = s.deferred ++ cohorts.deferred := foldl_putLoad hnew
  refine ⟨⟨Flights.Frame.refl _ _, ?_, fun _ _ h => h⟩, ?_, ⟨[], (List.append_nil _).symm, ?_⟩, ?_, ?_, ?_, rfl,
    fun _ h => Or.inl h, fun _ hgone h => absurd h hgone, Finset.Subset.refl _⟩
  · intro request hother
    refine updateKeys_of_notMem fun hmem => hother ?_
    obtain ⟨entry, hentry, rfl⟩ := List.mem_map.mp hmem
    exact hmemberOf entry hentry
  · intro op hop
    rw [afterRecord, List.mem_append, List.mem_append] at hop
    obtain (hcancel | hput) | hread := hop
    · obtain ⟨load, -, rfl⟩ := List.mem_map.mp hcancel
      trivial
    · obtain ⟨load, hload, rfl⟩ := List.mem_map.mp hput
      exact hrunnable load hload
    · obtain ⟨key, -, rfl⟩ := List.mem_map.mp hread
      trivial
  · intro item hitem
    exact absurd hitem List.not_mem_nil
  · intro load hload
    rw [hdeferred, List.mem_append] at hload
    exact hload.imp_right fun hafter => ⟨loads, cohorts, rfl, rfl, hafter⟩
  · intro load hload
    rw [hdeferred]
    exact Or.inl (List.mem_append_left _ hload)
  · have hmore : ownedBy Op.owned (afterRecord s order loads cohorts) =
        ((cohorts.runnable loads).map QueuedLoad.request : Multiset String) := by
      have hputs := @ownedBy_puts Key (cohorts.runnable loads) id fun _ => rfl
      simp only [id_eq] at hputs
      rw [afterRecord, ownedBy_append, ownedBy_append, hputs, ownedBy_eq_zero, ownedBy_eq_zero, zero_add, add_zero]
      · intro op hop
        obtain ⟨key, -, rfl⟩ := List.mem_map.mp hop
        rfl
      · intro op hop
        obtain ⟨load, -, rfl⟩ := List.mem_map.mp hop
        rfl
    have howned : (Op.record loads cohorts).owned =
        ((cohorts.runnable loads).map QueuedLoad.request : Multiset String) +
          (cohorts.deferred.map QueuedLoad.request : List String) := by
      rw [Multiset.coe_add]
      exact Multiset.coe_eq_coe.mpr (hsound.split hnodup)
    rw [hmore, howned, Loads.waiting, Loads.waiting, hdeferred, List.map_append, ← Multiset.coe_add]
    simp only [Loads.recorded]
    abel

omit [DecidableEq Key] in
/-- A request that is planned for the flight it has joined stays so when it is taken out of it. -/
theorem Loads.Known.of_requestKeys {s : Loads Key} {reads : Flights Key} {request : String} (h : s.Known request)
    (hkeys : reads.requestKeys request = none ∨ reads.requestKeys request = s.reads.requestKeys request) :
    Loads.Known { s with reads := reads } request := by
  intro key hkey
  dsimp only at hkey
  obtain hnone | hsame := hkeys
  · rw [hnone] at hkey
    cases hkey
  · rw [hsame] at hkey
    exact h key hkey

theorem executed_put {s : Loads Key} {item : QueueItem} (hsound : (Op.put item : Op Key).Sound s) :
    Executed s { s with queue := s.queue ++ [item] } (.put item) [] := by
  refine ⟨⟨Flights.Frame.refl _ _, fun _ _ => rfl, fun _ _ h => h⟩, fun _ hop => absurd hop List.not_mem_nil,
    ⟨[item], rfl, ?_⟩, fun _ h => Or.inl h, fun _ h => Or.inl h, ?_, rfl, fun _ h => Or.inl h,
    fun _ hgone h => absurd h hgone, Finset.Subset.refl _⟩
  · intro other hother
    rw [List.mem_singleton] at hother
    subst hother
    exact (⟨Flights.Frame.refl _ _, fun _ _ => rfl, fun _ _ h => h⟩ : s.Frame _ 0).item
      (fun _ _ => Multiset.notMem_zero _) hsound
  · simp only [Loads.waiting, List.map_append, List.sum_append, List.map_singleton, List.sum_singleton, Op.owned,
      ownedBy_nil]
    abel

theorem executed_cancelRead (s : Loads Key) (request : String) :
    Executed s { s with reads := s.reads.cancel request } (.cancelRead request) [] := by
  refine Executed.of_reads ?_ (fun _ hop => absurd hop List.not_mem_nil) rfl
  refine (s.reads.cancel_frame request).mono ?_
  exact Set.empty_subset _

/-- What comes after the read of a base: its followers are released, and the load ends. -/
theorem executed_resolved {s : Loads Key} {op : Op Key} {request : String} {key : Key} {reads : Flights Key}
    (howned : op.owned = {request}) (hframe : s.reads.Frame reads {request})
    (hknown : Loads.Known { s with reads := reads } request) :
    Executed s { s with reads := reads } op [.readState key .resolved, .report request] := by
  refine Executed.of_reads ?_ ?_ ?_
  · refine hframe.mono fun other hother => ?_
    rw [Set.mem_singleton_iff] at hother
    subst hother
    rw [Set.mem_ofPred_eq, howned]
    exact Multiset.mem_singleton_self _
  · intro op' hop
    rw [List.mem_cons, List.mem_singleton] at hop
    obtain rfl | rfl := hop
    · trivial
    · exact hknown
  · rw [howned]
    simp [Op.owned]

/-- A load enters the flight of its base. -/
theorem executed_resolve {s : Loads Key} {request : String} {key : Key}
    (hsound : (Op.resolve request key).Sound s) :
    Executed s { s with reads := (s.reads.enter request key).1 } (.resolve request key)
      (afterResolve request key (s.reads.enter request key).2) := by
  obtain ⟨hframe, hcase⟩ := s.reads.enter_spec request key
  have hknown : Loads.Known { s with reads := (s.reads.enter request key).1 } request := by
    refine Loads.Known.of_requestKeys hsound ?_
    obtain ⟨-, -, hkeys⟩ | ⟨flight, hkey, -, -, -, hreads⟩ := hcase
    · exact hkeys
    · rw [hreads]
      exact Or.inr rfl
  have hsubset : {request} ⊆ {r | r ∈ (Op.resolve request key).owned} := by
    intro other hother
    rw [Set.mem_singleton_iff] at hother
    subst hother
    exact Multiset.mem_singleton_self _
  cases hadmission : (s.reads.enter request key).2 with
  | leader serial =>
      refine Executed.of_reads (hframe.mono hsubset) ?_ (by simp [Op.owned, afterResolve])
      intro op hop
      rw [afterResolve, List.mem_singleton] at hop
      subst hop
      refine ⟨hknown, ?_⟩
      obtain ⟨-, hnot, -⟩ | ⟨flight, hkey, -⟩ := hcase
      · exact absurd hadmission (hnot serial)
      · exact hsound key hkey
  | follower serial =>
      refine Executed.of_reads (hframe.mono hsubset) ?_ (by simp [Op.owned, afterResolve])
      intro op hop
      rw [afterResolve, List.mem_singleton] at hop
      subst hop
      exact hknown
  | bypassed => exact executed_resolved rfl hframe hknown
  | cancelled => exact executed_resolved rfl hframe hknown

theorem executed_fetch {s : Loads Key} {request : String} {key : Key} {serial : ℕ} (rejected : Bool) :
    Executed s { s with reads := s.reads.complete request key serial rejected } (.fetch request key serial)
      [.readState key .resolved, .report request] :=
  executed_resolved rfl (s.reads.complete_frame request key serial rejected)
    (Loads.known_of_fresh (Flights.finish_requestKeys _ request))

theorem executed_await {s : Loads Key} {request : String} {key : Key} {serial : ℕ} :
    Executed s { s with reads := s.reads.finish request } (.await request key serial)
      [.readState key .resolved, .report request] :=
  executed_resolved rfl (s.reads.finish_frame request) (Loads.known_of_fresh (s.reads.finish_requestKeys request))

theorem executed_report {s : Loads Key} {request : String} (hsound : (Op.report request : Op Key).Sound s) :
    Executed s { s with reported := insert request s.reported } (.report request) [.close request] := by
  refine ⟨⟨Flights.Frame.refl _ _, fun _ _ => rfl, fun _ _ h => Finset.mem_insert_of_mem h⟩, ?_,
    ⟨[], (List.append_nil _).symm, fun _ hmem => absurd hmem List.not_mem_nil⟩, fun _ h => Or.inl h,
    fun _ h => Or.inl h, ?_, rfl, fun _ h => Or.inl h, fun _ hgone h => absurd h hgone, Finset.subset_insert _ _⟩
  · intro op hop
    rw [List.mem_singleton] at hop
    subst hop
    exact ⟨Finset.mem_insert_self _ _, hsound⟩
  · simp [Op.owned, Loads.waiting]

theorem executed_close {s : Loads Key} {request : String} (hsound : (Op.close request : Op Key).Sound s) :
    Executed s { s with reads := s.reads.finish request } (.close request)
      ((s.planKeys request).toList.map (fun key => .readState key .ended) ++ [.retire request]) := by
  refine Executed.of_reads ?_ ?_ ?_
  · refine (s.reads.finish_frame request).mono fun other hother => ?_
    rw [Set.mem_singleton_iff] at hother
    subst hother
    exact Multiset.mem_singleton_self _
  · intro op hop
    rw [List.mem_append, List.mem_singleton] at hop
    obtain hread | rfl := hop
    · obtain ⟨key, -, rfl⟩ := List.mem_map.mp hread
      trivial
    · exact ⟨hsound.1, s.reads.finish_requestKeys request⟩
  · rw [ownedBy_append, ownedBy_eq_zero, zero_add]
    · simp [Op.owned]
    · intro op hop
      obtain ⟨key, -, rfl⟩ := List.mem_map.mp hop
      rfl

theorem executed_retire {s : Loads Key} {request : String} (hsound : (Op.retire request : Op Key).Sound s)
    (hinflight : request ∈ s.inflight) :
    Executed s
      { s with
        planKeys := Function.update s.planKeys request none
        inflight := s.inflight.erase request
        cancelled := s.cancelled.erase request } (.retire request) [] := by
  refine ⟨⟨Flights.Frame.refl _ _, ?_, fun _ _ h => h⟩, fun _ hop => absurd hop List.not_mem_nil,
    ⟨[], (List.append_nil _).symm, fun _ hmem => absurd hmem List.not_mem_nil⟩, fun _ h => Or.inl h,
    fun _ h => Or.inl h, ?_, rfl, ?_, ?_, Finset.Subset.refl _⟩
  · intro other hother
    refine Function.update_of_ne ?_ ..
    rintro rfl
    exact hother (Multiset.mem_singleton_self _)
  · dsimp only
    rw [ownedBy_nil, zero_add, Finset.erase_val, Op.owned]
    have herase : {request} + s.inflight.val.erase request = s.inflight.val := by
      rw [Multiset.singleton_add]
      exact Multiset.cons_erase hinflight
    calc {request} + s.waiting + s.inflight.val.erase request
        = s.waiting + ({request} + s.inflight.val.erase request) := by abel
      _ = s.waiting + s.inflight.val := by rw [herase]
  · intro other hother
    by_cases heq : other = request
    · exact Or.inr (heq ▸ hsound.1)
    · exact Or.inl (Finset.mem_erase.mpr ⟨heq, hother⟩)
  · intro other hgone hother
    have heq : other = request := by
      by_contra hne
      exact hgone (Finset.mem_erase.mpr ⟨hne, hother⟩)
    rw [heq]
    exact hsound.2

theorem selected_sublist (matching : List QueuedLoad) (promotes : Bool) (state : Option FlightState) :
    (selected matching promotes state).Sublist matching := by
  unfold selected
  split
  · exact List.Sublist.refl _
  · exact List.Sublist.refl _
  · exact List.Sublist.refl _
  · split
    · exact List.take_sublist _ _
    · exact List.nil_sublist _
  · exact List.nil_sublist _

/-- A release queues the loads that it selects. -/
theorem executed_select {s : Loads Key} {key : Key} {release : Release} {state : Option FlightState}
    (hdeferred : ∀ load ∈ s.deferred, s.Known load.request) (hnodup : (s.deferred.map QueuedLoad.request).Nodup) :
    let chosen := selected (s.matching key) release.promotes state
    Executed s { s with deferred := s.deferred.filter (· ∉ chosen) } (.select key release state)
      (chosen.map fun load => .put (.load (released state load))) := by
  intro chosen
  have hchosen : chosen.Sublist s.deferred := (selected_sublist _ _ _).trans List.filter_sublist
  refine ⟨⟨Flights.Frame.refl _ _, fun _ _ => rfl, fun _ _ h => h⟩, ?_,
    ⟨[], (List.append_nil _).symm, fun _ hmem => absurd hmem List.not_mem_nil⟩, ?_, ?_, ?_, rfl,
    fun _ h => Or.inl h, fun _ hgone h => absurd h hgone, Finset.Subset.refl _⟩
  · intro op hop
    obtain ⟨load, hload, rfl⟩ := List.mem_map.mp hop
    rw [Op.Sound, QueueItem.Sound, released_request]
    exact hdeferred load (hchosen.subset hload)
  · intro load hload
    exact Or.inl (List.mem_filter.mp hload).1
  · intro load hload
    by_cases hselected : load ∈ chosen
    · refine Or.inr ⟨(released state load).failed, List.mem_map.mpr ⟨load, hselected, ?_⟩⟩
      rw [← released_request state load]
    · exact Or.inl (List.mem_filter.mpr ⟨hload, decide_eq_true hselected⟩)
  · have hsplit : (s.deferred.map QueuedLoad.request).Perm
        (chosen.map QueuedLoad.request ++ (s.deferred.filter (· ∉ chosen)).map QueuedLoad.request) := by
      have hall := List.filter_append_perm (fun load => decide (load ∈ chosen)) s.deferred
      have hkept : (s.deferred.filter fun load => load ∈ chosen).Perm chosen := by
        have hloads := hnodup.of_map
        refine (List.perm_ext_iff_of_nodup (hloads.filter _) (hloads.sublist hchosen)).mpr fun load => ?_
        rw [List.mem_filter, decide_eq_true_eq]
        exact and_iff_right_of_imp fun hload => hchosen.subset hload
      rw [← List.map_append]
      refine List.Perm.map _ (hall.symm.trans ?_)
      simpa using hkept.append_right (s.deferred.filter (· ∉ chosen))
    have hcount : (s.deferred.map QueuedLoad.request : Multiset String) = (chosen.map QueuedLoad.request : List String) +
        ((s.deferred.filter (· ∉ chosen)).map QueuedLoad.request : List String) := by
      rw [Multiset.coe_add]
      exact Multiset.coe_eq_coe.mpr hsplit
    rw [ownedBy_puts _ _ (released_request state), Loads.waiting, Loads.waiting, hcount, Op.owned]
    dsimp only
    abel

/-- What the requests at hand allow: they are in flight, and nothing waits that an operation owns. -/
structure Loads.Affords (s : Loads Key) (owned : Multiset String) : Prop where
  ledger : owned + s.waiting ≤ s.inflight.val
  deferred : ∀ load ∈ s.deferred, ∃ key, s.planKeys load.request = some key ∧ s.reads.Member load.request key

theorem Loads.Affords.nodup {s : Loads Key} {owned : Multiset String} (h : s.Affords owned) :
    (owned + (s.deferred.map QueuedLoad.request : List String)).Nodup := by
  refine Multiset.nodup_of_le ?_ s.inflight.nodup
  refine le_trans ?_ h.ledger
  rw [Loads.waiting]
  exact add_le_add_right (Multiset.le_add_left _ _) _

theorem Loads.Affords.known {s : Loads Key} {owned : Multiset String} (h : s.Affords owned) :
    ∀ load ∈ s.deferred, s.Known load.request := by
  intro load hload key hkey
  obtain ⟨planned, hplan, hmember⟩ := h.deferred load hload
  rw [hmember.1] at hkey
  rw [← hkey]
  exact hplan

/-- What holds after every operation. -/
theorem effect_executed {b : Bounds} {declared : Key → ℤ} {choice : Choice Key} {op : Op Key} {s s' : Loads Key}
    {more : List (Op Key)} (heffect : effect b declared choice op s = some (s', more)) (hsound : op.Sound s)
    (hafford : s.Affords op.owned) : Executed s s' op more := by
  obtain ⟨howned, hdeferred, hdisjoint⟩ := Multiset.nodup_add.mp hafford.nodup
  cases op with
  | put item =>
      obtain ⟨rfl, rfl⟩ : _ = s' ∧ _ = more := Prod.mk.inj (Option.some.inj heffect)
      exact executed_put hsound
  | screen loads =>
      obtain ⟨rfl, rfl⟩ : _ = s' ∧ _ = more := Prod.mk.inj (Option.some.inj heffect)
      exact executed_screen hsound
  | prepare loads =>
      rw [effect] at heffect
      split at heffect
      · obtain ⟨rfl, rfl⟩ : _ = s' ∧ _ = more := Prod.mk.inj (Option.some.inj heffect)
        exact executed_prepare_error hsound
      · rename_i evidence hevidence
        obtain ⟨rfl, rfl⟩ : _ = s' ∧ _ = more := Prod.mk.inj (Option.some.inj heffect)
        exact executed_prepare evidence hsound
  | register loads evidence todo cohorts =>
      cases todo with
      | nil =>
          obtain ⟨rfl, rfl⟩ : _ = s' ∧ _ = more := Prod.mk.inj (Option.some.inj heffect)
          refine Executed.of_same ?_ (by simp [Op.owned])
          intro op' hop
          rw [List.mem_singleton] at hop
          subst hop
          exact hsound
      | cons key todo =>
          obtain ⟨rfl, rfl⟩ : _ = s' ∧ _ = more := Prod.mk.inj (Option.some.inj heffect)
          exact executed_register hsound howned
  | record loads cohorts =>
      obtain ⟨rfl, rfl⟩ : _ = s' ∧ _ = more := Prod.mk.inj (Option.some.inj heffect)
      refine executed_record choice.order hsound howned ?_
      rw [List.map_append, List.nodup_append]
      refine ⟨hdeferred, ?_, ?_⟩
      · have hpart := (hsound.perm.nodup_iff).mpr hsound.nodup
        rw [List.map_append] at hpart
        exact (List.nodup_append.mp hpart).2.1
      · intro request hbefore other hafter heq
        subst heq
        obtain ⟨load, hload, rfl⟩ := List.mem_map.mp hafter
        refine Multiset.disjoint_left.mp hdisjoint ?_ hbefore
        exact List.mem_map_of_mem (hsound.among load (List.mem_append_right _ hload))
  | cancelRead request =>
      obtain ⟨rfl, rfl⟩ : _ = s' ∧ _ = more := Prod.mk.inj (Option.some.inj heffect)
      exact executed_cancelRead s request
  | check load =>
      obtain ⟨rfl, rfl⟩ : _ = s' ∧ _ = more := Prod.mk.inj (Option.some.inj heffect)
      refine Executed.of_same ?_ ?_
      · intro op' hop
        split at hop
        all_goals
          rw [List.mem_singleton] at hop
          subst hop
          exact hsound
      · split <;> simp [Op.owned]
  | checkAgain request =>
      obtain ⟨rfl, rfl⟩ : _ = s' ∧ _ = more := Prod.mk.inj (Option.some.inj heffect)
      refine Executed.of_same ?_ ?_
      · intro op' hop
        split at hop
        all_goals
          rw [List.mem_singleton] at hop
          subst hop
          exact hsound
      · split <;> simp [Op.owned]
  | restore request =>
      rw [effect] at heffect
      split at heffect
      all_goals
        obtain ⟨rfl, rfl⟩ : _ = s' ∧ _ = more := Prod.mk.inj (Option.some.inj heffect)
        refine Executed.of_same ?_ (by simp [Op.owned])
        intro op' hop
        rw [List.mem_singleton] at hop
        subst hop
        exact hsound
  | resolve request key =>
      obtain ⟨rfl, rfl⟩ : _ = s' ∧ _ = more := Prod.mk.inj (Option.some.inj heffect)
      exact executed_resolve hsound
  | fetch request key serial =>
      obtain ⟨rfl, rfl⟩ : _ = s' ∧ _ = more := Prod.mk.inj (Option.some.inj heffect)
      exact executed_fetch choice.rejected
  | await request key serial =>
      rw [effect] at heffect
      split at heffect
      · obtain ⟨rfl, rfl⟩ : _ = s' ∧ _ = more := Prod.mk.inj (Option.some.inj heffect)
        exact executed_await
      · cases heffect
  | report request =>
      obtain ⟨rfl, rfl⟩ : _ = s' ∧ _ = more := Prod.mk.inj (Option.some.inj heffect)
      exact executed_report hsound
  | close request =>
      obtain ⟨rfl, rfl⟩ : _ = s' ∧ _ = more := Prod.mk.inj (Option.some.inj heffect)
      exact executed_close hsound
  | readState key release =>
      obtain ⟨rfl, rfl⟩ : _ = s' ∧ _ = more := Prod.mk.inj (Option.some.inj heffect)
      refine Executed.of_same ?_ (by simp [Op.owned])
      intro op' hop
      rw [List.mem_singleton] at hop
      subst hop
      trivial
  | select key release state =>
      obtain ⟨rfl, rfl⟩ : _ = s' ∧ _ = more := Prod.mk.inj (Option.some.inj heffect)
      exact executed_select hafford.known hdeferred
  | retire request =>
      obtain ⟨rfl, rfl⟩ : _ = s' ∧ _ = more := Prod.mk.inj (Option.some.inj heffect)
      refine executed_retire hsound ?_
      refine Multiset.mem_of_le hafford.ledger (Multiset.mem_add.mpr (Or.inl ?_))
      exact Multiset.mem_singleton_self _

/-! ## Readers -/

/-- What an operation does to the flights: a read that has ended stays so, and one that goes on has a reader. -/
structure Reading (s s' : Loads Key) (op : Op Key) (more : List (Op Key)) : Prop where
  final : ∀ key, s.reads.Final key → s'.reads.flights.lookup key ≠ none → s'.reads.Final key
  reader : ∀ key flight', s'.reads.flights.lookup key = some flight' → flight'.state = .reading →
    (∃ request, Op.fetch request key flight'.serial ∈ more) ∨
      ∃ flight, s.reads.flights.lookup key = some flight ∧ flight.state = .reading ∧ flight'.serial = flight.serial ∧
        ∀ request, op ≠ .fetch request key flight.serial

theorem Reading.of_keeps {s s' : Loads Key} {op : Op Key} {more : List (Op Key)} (h : s.reads.Keeps s'.reads)
    (hfetch : ∀ request key serial, op ≠ .fetch request key serial) : Reading s s' op more where
  final := by
    intro key hfinal hsome
    obtain ⟨flight', hlookup⟩ := Option.ne_none_iff_exists'.mp hsome
    obtain ⟨hnone, -⟩ | ⟨flight, hflight, -, hstate⟩ := h key flight' hlookup
    · rw [Flights.Final, Flights.state, hnone] at hfinal
      obtain h | h := hfinal <;> cases h
    · rw [Flights.Final, Flights.state, hflight] at hfinal
      rw [Flights.Final, Flights.state, hlookup, Option.map_some, hstate]
      exact hfinal
  reader := by
    intro key flight' hlookup hreading
    obtain ⟨-, hregistered⟩ | ⟨flight, hflight, hserial, hstate⟩ := h key flight' hlookup
    · rw [hreading] at hregistered
      cases hregistered
    · exact Or.inr ⟨flight, hflight, hstate.symm.trans hreading, hserial, fun _ => hfetch _ _ _⟩

theorem Reading.of_same {s s' : Loads Key} {op : Op Key} {more : List (Op Key)} (h : s'.reads = s.reads)
    (hfetch : ∀ request key serial, op ≠ .fetch request key serial) : Reading s s' op more := by
  refine Reading.of_keeps ?_ hfetch
  rw [h]
  exact Flights.Keeps.refl _

theorem reading_resolve {s : Loads Key} {request : String} {key : Key} :
    Reading s { s with reads := (s.reads.enter request key).1 } (.resolve request key)
      (afterResolve request key (s.reads.enter request key).2) := by
  obtain ⟨-, ⟨hkeeps, -, -⟩ | ⟨flight, -, hlookup, hregistered, hleader, hreads⟩⟩ := s.reads.enter_spec request key
  · refine Reading.of_keeps hkeeps ?_
    intro _ _ _ h
    cases h
  · refine ⟨?_, ?_⟩
    · intro key' hfinal hsome
      dsimp only at hsome ⊢
      have hne : key' ≠ key := by
        rintro rfl
        rw [Flights.Final, Flights.state, hlookup, Option.map_some, hregistered] at hfinal
        obtain h | h := hfinal <;> cases h
      rw [Flights.Final, Flights.state, hreads]
      dsimp only
      rw [AList.lookup_insert_ne hne]
      exact hfinal
    · intro key' flight' hlookup' hreading
      dsimp only at hlookup'
      rw [hreads] at hlookup'
      dsimp only at hlookup'
      by_cases heq : key' = key
      · subst heq
        rw [AList.lookup_insert, Option.some.injEq] at hlookup'
        subst hlookup'
        refine Or.inl ⟨request, ?_⟩
        rw [hleader]
        exact List.mem_singleton_self _
      · rw [AList.lookup_insert_ne heq] at hlookup'
        refine Or.inr ⟨flight', hlookup', hreading, rfl, ?_⟩
        intro _ h
        cases h

theorem reading_fetch {s : Loads Key} {request : String} {key : Key} {serial : ℕ} {rejected : Bool}
    {more : List (Op Key)} :
    Reading s { s with reads := s.reads.complete request key serial rejected } (.fetch request key serial) more where
  final := by
    intro key' hfinal hsome
    obtain ⟨flight', hlookup⟩ := Option.ne_none_iff_exists'.mp hsome
    obtain ⟨flight, hflight, -, ⟨-, -, hended⟩ | ⟨-, hstate⟩⟩ := Flights.complete_lookup hlookup
    · rw [Flights.Final, Flights.state, hlookup, Option.map_some, Option.some.injEq, Option.some.injEq]
      exact hended
    · rw [Flights.Final, Flights.state, hflight] at hfinal
      rw [Flights.Final, Flights.state, hlookup, Option.map_some, hstate]
      exact hfinal
  reader := by
    intro key' flight' hlookup hreading
    obtain ⟨flight, hflight, hserial, ⟨-, -, hended⟩ | ⟨hother, hstate⟩⟩ := Flights.complete_lookup hlookup
    · rw [hreading] at hended
      obtain h | h := hended <;> cases h
    · refine Or.inr ⟨flight, hflight, hstate.symm.trans hreading, hserial, ?_⟩
      intro other heq
      injection heq with _ hkey hsame
      exact hother ⟨hkey.symm, hsame.symm⟩

theorem effect_reading {b : Bounds} {declared : Key → ℤ} {choice : Choice Key} {op : Op Key} {s s' : Loads Key}
    {more : List (Op Key)} (heffect : effect b declared choice op s = some (s', more)) : Reading s s' op more := by
  cases op with
  | resolve request key =>
      obtain ⟨rfl, rfl⟩ : _ = s' ∧ _ = more := Prod.mk.inj (Option.some.inj heffect)
      exact reading_resolve
  | fetch request key serial =>
      obtain ⟨rfl, rfl⟩ : _ = s' ∧ _ = more := Prod.mk.inj (Option.some.inj heffect)
      exact reading_fetch
  | register loads evidence todo cohorts =>
      cases todo with
      | nil =>
          obtain ⟨rfl, rfl⟩ : _ = s' ∧ _ = more := Prod.mk.inj (Option.some.inj heffect)
          exact Reading.of_same rfl fun _ _ _ h => (nomatch h)
      | cons key todo =>
          obtain ⟨rfl, rfl⟩ : _ = s' ∧ _ = more := Prod.mk.inj (Option.some.inj heffect)
          exact Reading.of_keeps (s.reads.registerCohort_spec b declared key _).2.1 fun _ _ _ h => (nomatch h)
  | cancelRead request =>
      obtain ⟨rfl, rfl⟩ : _ = s' ∧ _ = more := Prod.mk.inj (Option.some.inj heffect)
      exact Reading.of_keeps (s.reads.cancel_keeps request) fun _ _ _ h => (nomatch h)
  | close request =>
      obtain ⟨rfl, rfl⟩ : _ = s' ∧ _ = more := Prod.mk.inj (Option.some.inj heffect)
      exact Reading.of_keeps (s.reads.finish_keeps request) fun _ _ _ h => (nomatch h)
  | await request key serial =>
      rw [effect] at heffect
      split at heffect
      · obtain ⟨rfl, rfl⟩ : _ = s' ∧ _ = more := Prod.mk.inj (Option.some.inj heffect)
        exact Reading.of_keeps (s.reads.finish_keeps request) fun _ _ _ h => (nomatch h)
      · cases heffect
  | prepare loads =>
      rw [effect] at heffect
      split at heffect
      all_goals
        obtain ⟨rfl, rfl⟩ : _ = s' ∧ _ = more := Prod.mk.inj (Option.some.inj heffect)
        exact Reading.of_same rfl fun _ _ _ h => (nomatch h)
  | restore request =>
      rw [effect] at heffect
      split at heffect
      all_goals
        obtain ⟨rfl, rfl⟩ : _ = s' ∧ _ = more := Prod.mk.inj (Option.some.inj heffect)
        exact Reading.of_same rfl fun _ _ _ h => (nomatch h)
  | put _ | screen _ | record _ _ | check _ | checkAgain _ | report _ | retire _ | readState _ _ | select _ _ _ =>
      obtain ⟨rfl, rfl⟩ : _ = s' ∧ _ = more := Prod.mk.inj (Option.some.inj heffect)
      exact Reading.of_same rfl fun _ _ _ h => (nomatch h)

/-! ## Flights -/

/-- What an operation does to the flights. -/
theorem effect_reads {b : Bounds} {declared : Key → ℤ} {choice : Choice Key} {op : Op Key} {s s' : Loads Key}
    {more : List (Op Key)} (heffect : effect b declared choice op s = some (s', more)) :
    s'.reads = s.reads ∨ (∃ request, s'.reads = s.reads.finish request ∨ s'.reads = s.reads.cancel request) ∨
      (∃ request key, s'.reads = (s.reads.enter request key).1) ∨
      (∃ request key serial rejected, s'.reads = s.reads.complete request key serial rejected) ∨
      ∃ loads evidence key todo cohorts, op = .register loads evidence (key :: todo) cohorts ∧
        s'.reads = (s.reads.registerCohort b declared key ((groupOf loads evidence key).map QueuedLoad.request)).1 := by
  cases op with
  | resolve request key =>
      obtain ⟨rfl, rfl⟩ : _ = s' ∧ _ = more := Prod.mk.inj (Option.some.inj heffect)
      exact Or.inr (Or.inr (Or.inl ⟨request, key, rfl⟩))
  | fetch request key serial =>
      obtain ⟨rfl, rfl⟩ : _ = s' ∧ _ = more := Prod.mk.inj (Option.some.inj heffect)
      exact Or.inr (Or.inr (Or.inr (Or.inl ⟨request, key, serial, choice.rejected, rfl⟩)))
  | register loads evidence todo cohorts =>
      cases todo with
      | nil =>
          obtain ⟨rfl, rfl⟩ : _ = s' ∧ _ = more := Prod.mk.inj (Option.some.inj heffect)
          exact Or.inl rfl
      | cons key todo =>
          obtain ⟨rfl, rfl⟩ : _ = s' ∧ _ = more := Prod.mk.inj (Option.some.inj heffect)
          exact Or.inr (Or.inr (Or.inr (Or.inr ⟨loads, evidence, key, todo, cohorts, rfl, rfl⟩)))
  | cancelRead request =>
      obtain ⟨rfl, rfl⟩ : _ = s' ∧ _ = more := Prod.mk.inj (Option.some.inj heffect)
      exact Or.inr (Or.inl ⟨request, Or.inr rfl⟩)
  | close request =>
      obtain ⟨rfl, rfl⟩ : _ = s' ∧ _ = more := Prod.mk.inj (Option.some.inj heffect)
      exact Or.inr (Or.inl ⟨request, Or.inl rfl⟩)
  | await request key serial =>
      rw [effect] at heffect
      split at heffect
      · obtain ⟨rfl, rfl⟩ : _ = s' ∧ _ = more := Prod.mk.inj (Option.some.inj heffect)
        exact Or.inr (Or.inl ⟨request, Or.inl rfl⟩)
      · cases heffect
  | prepare loads =>
      rw [effect] at heffect
      split at heffect
      all_goals
        obtain ⟨rfl, rfl⟩ : _ = s' ∧ _ = more := Prod.mk.inj (Option.some.inj heffect)
        exact Or.inl rfl
  | restore request =>
      rw [effect] at heffect
      split at heffect
      all_goals
        obtain ⟨rfl, rfl⟩ : _ = s' ∧ _ = more := Prod.mk.inj (Option.some.inj heffect)
        exact Or.inl rfl
  | put _ | screen _ | record _ _ | check _ | checkAgain _ | report _ | retire _ | readState _ _ | select _ _ _ =>
      obtain ⟨rfl, rfl⟩ : _ = s' ∧ _ = more := Prod.mk.inj (Option.some.inj heffect)
      exact Or.inl rfl

theorem effect_populated {b : Bounds} {declared : Key → ℤ} {choice : Choice Key} {op : Op Key} {s s' : Loads Key}
    {more : List (Op Key)} (heffect : effect b declared choice op s = some (s', more)) (h : s.reads.Populated) :
    s'.reads.Populated := by
  obtain hsame | ⟨request, hfinish | hcancel⟩ | ⟨request, key, henter⟩ | ⟨request, key, serial, rejected, hcomplete⟩ |
    ⟨loads, evidence, key, todo, cohorts, -, hregister⟩ := effect_reads heffect
  · exact hsame ▸ h
  · exact hfinish ▸ h.finish request
  · exact hcancel ▸ h.cancel request
  · exact henter ▸ h.enter request key
  · exact hcomplete ▸ h.complete request key serial rejected
  · exact hregister ▸ h.registerCohort b declared key _

/-- A flight without a reader had none before, or is new. -/
theorem effect_registered {b : Bounds} {declared : Key → ℤ} {choice : Choice Key} {op : Op Key} {s s' : Loads Key}
    {more : List (Op Key)} (heffect : effect b declared choice op s = some (s', more)) {key : Key}
    (h : s'.reads.state key = some .registered) : s.reads.state key = some .registered ∨
      ∃ loads evidence todo cohorts, op = .register loads evidence (key :: todo) cohorts ∧
        s.reads.flights.lookup key = none := by
  obtain hsame | ⟨request, hfinish | hcancel⟩ | ⟨request, other, henter⟩ | ⟨request, other, serial, rejected, hcomplete⟩ |
    ⟨loads, evidence, other, todo, cohorts, hop, hregister⟩ := effect_reads heffect
  · exact Or.inl (hsame ▸ h)
  · exact Or.inl (Flights.finish_registered (hfinish ▸ h))
  · exact Or.inl (Flights.cancel_registered (hcancel ▸ h))
  · exact Or.inl (Flights.enter_registered (henter ▸ h))
  · exact Or.inl (Flights.complete_registered (hcomplete ▸ h))
  · obtain hbefore | ⟨rfl, hnone⟩ := Flights.registerCohort_registered (hregister ▸ h)
    · exact Or.inl hbefore
    · exact Or.inr ⟨loads, evidence, todo, cohorts, hop, hnone⟩

end SparkCache.Loading
