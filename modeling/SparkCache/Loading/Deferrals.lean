import SparkCache.Loading.Promises

/-!
# Deferred loads over whole runs

The loaders start consistent and every step keeps them so, if no promoting release of a flight comes
between the registration of a member and the recording of its deferral. A batch that records a deferral
after the last load of the flight has ended loses it.
-/
namespace SparkCache.Loading
open Threads
variable {Key : Type*} [DecidableEq Key] {ι : Type*} [DecidableEq ι] [Fintype ι]

omit [DecidableEq ι] in
theorem Consistent.initial : Consistent (Worker.initial : Worker ι Key) where
  ledger := by
    simp only [Config.holdings, Worker.initial, Loads.initial, Loads.waiting, ownedBy_nil, Finset.sum_const_zero]
    rfl
  pending := by
    rintro op ⟨lane, hop⟩
    exact absurd hop List.not_mem_nil
  queue := fun _ hitem => absurd hitem List.not_mem_nil
  deferred := fun _ hload => absurd hload List.not_mem_nil
  readers := by
    intro key flight hlookup
    rw [Worker.initial, Loads.initial, Flights.empty, AList.lookup_empty] at hlookup
    cases hlookup
  idle := fun _ _ => rfl
  given := Finset.empty_subset _
  attended := fun _ hload => absurd hload List.not_mem_nil

/-- An idle loader takes an item of the queue. -/
theorem Consistent.take {c : Worker ι Key} (h : Consistent c) {lane : ι} (hidle : c.left lane = [])
    {item : QueueItem} {rest : List QueueItem} (hqueue : c.shared.queue = item :: rest) :
    Consistent (c.advance lane { c.shared with queue := rest } (program item)) := by
  have hitem : item ∈ c.shared.queue := by
    rw [hqueue]
    exact List.mem_cons_self
  have hframe : c.shared.Frame { c.shared with queue := rest } 0 :=
    ⟨Flights.Frame.refl _ _, fun _ _ => rfl, fun _ _ h => h⟩
  have hstays : ∀ {op : Op Key}, c.Pending op →
      (c.advance lane { c.shared with queue := rest } (program item)).Pending op := fun hop =>
    Config.pending_advance.mpr (Or.inr (hop.others_of_idle hidle))
  refine ⟨?_, ?_, ?_, h.deferred, ?_, h.idle, h.given, ?_⟩
  · rw [Config.holdings_advance_idle Op.owned hidle, Config.advance_shared, ← h.ledger]
    have howned : ownedBy Op.owned (program item : List (Op Key)) = item.requests := by
      cases item <;> simp [program, Op.owned, QueueItem.requests]
    rw [howned, Loads.waiting, Loads.waiting, hqueue, List.map_cons, List.sum_cons]
    abel
  · intro op hop
    obtain hmore | hothers := Config.pending_advance.mp hop
    · have hsound := h.queue item hitem
      cases item with
      | batch loads =>
          rw [program, List.mem_singleton] at hmore
          subst hmore
          exact hsound
      | load load =>
          rw [program, List.mem_singleton] at hmore
          subst hmore
          exact hsound
    · exact hframe.op (fun _ _ => Multiset.notMem_zero _) (h.pending op hothers.pending)
  · intro other hother
    refine hframe.item (fun _ _ => Multiset.notMem_zero _) (h.queue other ?_)
    rw [hqueue]
    exact List.mem_cons_of_mem _ hother
  · intro key flight hlookup hreading
    obtain ⟨request, hfetch⟩ := h.readers key flight hlookup hreading
    exact ⟨request, hstays hfetch⟩
  · intro load hload key hplan
    obtain ⟨other, hother, hattends⟩ | ⟨op, hop, hattends⟩ := h.attended load hload key hplan
    · rw [hqueue] at hother
      obtain rfl | hrest := List.mem_cons.mp hother
      · cases other with
        | batch loads => cases hattends
        | load taken => exact Or.inr ⟨.check taken, Config.pending_advance.mpr (Or.inl (List.mem_singleton_self _)), hattends⟩
      · refine Or.inl ⟨other, hrest, ?_⟩
        cases other <;> exact hattends
    · exact Or.inr ⟨op, hstays hop, hattends.frame hframe id fun _ _ => Multiset.notMem_zero _⟩

omit [DecidableEq ι] in
/-- The sections of `request_finished`: only who is cancelled changes. -/
theorem Consistent.cancel {c : Worker ι Key} (h : Consistent c) (cancelled : Finset String) {reads : Flights Key}
    (hframe : c.shared.reads.Frame reads ∅) (hkeeps : c.shared.reads.Keeps reads) :
    Consistent (⟨{ c.shared with cancelled := cancelled, reads := reads }, c.left⟩ : Worker ι Key) := by
  have hloads : c.shared.Frame { c.shared with cancelled := cancelled, reads := reads } 0 :=
    ⟨hframe.mono (Set.empty_subset _), fun _ _ => rfl, fun _ _ h => h⟩
  have hreading : Reading c.shared { c.shared with cancelled := cancelled, reads := reads } (.cancelRead "") [] :=
    Reading.of_keeps hkeeps fun _ _ _ h => (nomatch h)
  have hdeferred : ∀ load ∈ c.shared.deferred, ∃ key,
      c.shared.planKeys load.request = some key ∧ reads.Member load.request key := by
    intro load hload
    obtain ⟨key, hplan, hmember⟩ := h.deferred load hload
    exact ⟨key, hplan, hframe.member _ (Set.notMem_empty _) key hmember⟩
  refine ⟨h.ledger, ?_, ?_, hdeferred, ?_, ?_, h.given, ?_⟩
  · intro op hop
    exact hloads.op (fun _ _ => Multiset.notMem_zero _) (h.pending op hop)
  · intro item hitem
    exact hloads.item (fun _ _ => Multiset.notMem_zero _) (h.queue item hitem)
  · intro key flight' hlookup hstate
    obtain ⟨request, hfetch⟩ | ⟨flight, hflight, hstate, hserial, -⟩ := hreading.reader key flight' hlookup hstate
    · exact absurd hfetch List.not_mem_nil
    · rw [hserial]
      exact h.readers key flight hflight hstate
  · intro request hgone
    exact (hframe.requestKeys request (Set.notMem_empty _)).trans (h.idle request hgone)
  · intro load hload key hplan
    obtain ⟨planned, hplanned, -, flight, hlookup, -⟩ := hdeferred load hload
    have hsame : planned = key := Option.some.inj (hplanned.symm.trans hplan)
    subst hsame
    have hfinal := fun hfinal => hreading.final planned hfinal (by rw [hlookup]; exact Option.some_ne_none flight)
    obtain ⟨item, hitem, hattends⟩ | ⟨op, hop, hattends⟩ := h.attended load hload planned hplan
    · refine Or.inl ⟨item, hitem, ?_⟩
      cases item <;> exact hattends
    · exact Or.inr ⟨op, hop, hattends.frame hloads hfinal fun _ _ => Multiset.notMem_zero _⟩

theorem mem_foldl_putLoad {loads known : List QueuedLoad} {load : QueuedLoad} (h : load ∈ loads.foldl putLoad known) :
    load ∈ known ∨ load ∈ loads := by
  induction loads generalizing known with
  | nil => exact Or.inl h
  | cons first rest ih =>
      obtain hput | hrest := ih h
      · unfold putLoad at hput
        split at hput
        · obtain ⟨other, hother, rfl⟩ := List.mem_map.mp hput
          split
          · exact Or.inr List.mem_cons_self
          · exact Or.inl hother
        · obtain hknown | hnew := List.mem_append.mp hput
          · exact Or.inl hknown
          · rw [List.mem_singleton.mp hnew]
            exact Or.inr List.mem_cons_self
      · exact Or.inr (List.mem_cons_of_mem _ hrest)

/-- Requests that are not in flight are started. -/
theorem Consistent.start {c : Worker ι Key} (h : Consistent c) (pages : Bool) {loads : List QueuedLoad}
    (hfresh : ∀ load ∈ loads, load.request ∉ c.shared.inflight) :
    Consistent (⟨c.shared.start pages loads, c.left⟩ : Worker ι Key) := by
  have hnodup : ((loads.foldl putLoad []).map QueuedLoad.request).Nodup := foldl_putLoad_nodup loads List.nodup_nil
  have hqueued : ∀ load ∈ loads.foldl putLoad [], load.request ∉ c.shared.inflight := by
    intro load hload
    obtain hnil | hmem := mem_foldl_putLoad hload
    · exact absurd hnil List.not_mem_nil
    · exact hfresh load hmem
  set queued := loads.foldl putLoad [] with hqueuedEq
  set requests := (queued.map QueuedLoad.request).toFinset with hrequests
  have hmem : ∀ request ∈ requests, request ∉ c.shared.inflight := by
    intro request hrequest
    rw [hrequests, List.mem_toFinset] at hrequest
    obtain ⟨load, hload, rfl⟩ := List.mem_map.mp hrequest
    exact hqueued load hload
  set added := (if pages then [.batch queued] else queued.map .load : List QueueItem) with hadded
  have haddedSound : ∀ item ∈ added, item.Sound c.shared := by
    intro item hitem
    rw [hadded] at hitem
    split at hitem
    · rw [List.mem_singleton] at hitem
      subst hitem
      exact fun load hload => h.idle _ (hqueued load hload)
    · obtain ⟨load, hload, rfl⟩ := List.mem_map.mp hitem
      exact Loads.known_of_fresh (h.idle _ (hqueued load hload))
  have hframe : c.shared.Frame (c.shared.start pages loads) requests.val := by
    refine ⟨Flights.Frame.refl _ _, fun _ _ => rfl, fun request hother hreported => ?_⟩
    exact Finset.mem_sdiff.mpr ⟨hreported, hother⟩
  have hother : ∀ op, c.Pending op → ∀ request ∈ op.owned, request ∉ requests.val := by
    intro op hop request hrequest hin
    refine hmem request hin (Multiset.mem_of_le ?_ hrequest)
    rw [← h.ledger]
    exact (hop.le_holdings Op.owned).trans (Multiset.le_add_right _ _)
  have hwaiting : ∀ request ∈ c.shared.waiting, request ∈ c.shared.inflight := by
    intro request hrequest
    refine Multiset.mem_of_le ?_ hrequest
    rw [← h.ledger]
    exact Multiset.le_add_left _ _
  refine ⟨?_, ?_, ?_, h.deferred, h.readers, ?_, ?_, ?_⟩
  · have haddedRequests : (added.map QueueItem.requests).sum = requests.val := by
      rw [hrequests, List.toFinset_val, hnodup.dedup, hadded]
      split
      · exact add_zero _
      · have hputs := @ownedBy_puts Key queued id fun _ => rfl
        rw [ownedBy, List.map_map] at hputs
        rw [List.map_map]
        exact hputs
    have hunion : (c.shared.inflight ∪ requests).val = c.shared.inflight.val + requests.val := by
      rw [Finset.union_val]
      refine (Multiset.add_eq_union_iff_disjoint.mpr ?_).symm
      exact Multiset.disjoint_right.mpr fun hrequest => hmem _ hrequest
    have hledger := h.ledger
    rw [Loads.waiting] at hledger
    calc c.holdings Op.owned + (((c.shared.queue ++ added).map QueueItem.requests).sum +
          (c.shared.deferred.map QueuedLoad.request : List String))
        = (c.holdings Op.owned + ((c.shared.queue.map QueueItem.requests).sum +
            (c.shared.deferred.map QueuedLoad.request : List String))) + requests.val := by
          rw [List.map_append, List.sum_append, haddedRequests]
          abel
      _ = (c.shared.inflight ∪ requests).val := by rw [hledger, hunion]
  · intro op hop
    exact hframe.op (hother op hop) (h.pending op hop)
  · intro item hitem
    obtain hold | hnew := List.mem_append.mp hitem
    · refine hframe.item (fun request hrequest hin => hmem request hin ?_) (h.queue item hold)
      exact hwaiting request (Loads.mem_waiting_of_queue hold hrequest)
    · exact haddedSound item hnew
  · intro request hgone
    exact h.idle request fun hin => hgone (Finset.mem_union_left _ hin)
  · intro request hgiven
    obtain hbefore | hnow := Finset.mem_union.mp hgiven
    · by_cases hnow : request ∈ requests
      · exact Finset.mem_union_left _ (Finset.mem_union_right _ hnow)
      · obtain hinflight | hreported := Finset.mem_union.mp (h.given hbefore)
        · exact Finset.mem_union_left _ (Finset.mem_union_left _ hinflight)
        · exact Finset.mem_union_right _ (Finset.mem_sdiff.mpr ⟨hreported, hnow⟩)
    · exact Finset.mem_union_left _ (Finset.mem_union_right _ hnow)
  · intro load hload key hplan
    obtain ⟨item, hitem, hattends⟩ | ⟨op, hop, hattends⟩ := h.attended load hload key hplan
    · refine Or.inl ⟨item, List.mem_append_left _ hitem, ?_⟩
      cases item <;> exact hattends
    · exact Or.inr ⟨op, hop, hattends.frame hframe id (hother op hop)⟩

/-! ## Steps -/

omit [DecidableEq ι] in
theorem Promising.initial : Promising (Worker.initial : Worker ι Key) where
  consistent := Consistent.initial
  populated := by
    intro key flight hlookup
    rw [Worker.initial, Loads.initial, Flights.empty, AList.lookup_empty] at hlookup
    cases hlookup
  promised := by
    intro key hregistered
    rw [Worker.initial, Loads.initial, Flights.empty, Flights.state, AList.lookup_empty] at hregistered
    cases hregistered

theorem Promising.take {c : Worker ι Key} (h : Promising c) {lane : ι} (hidle : c.left lane = [])
    {item : QueueItem} {rest : List QueueItem} (hqueue : c.shared.queue = item :: rest) :
    Promising (c.advance lane { c.shared with queue := rest } (program item)) := by
  refine ⟨h.consistent.take hidle hqueue, h.populated, fun key hregistered => ?_⟩
  obtain ⟨other, hother, hattends⟩ | ⟨op, hop, hleads⟩ | hdeferred := h.promised key hregistered
  · rw [hqueue] at hother
    obtain rfl | hrest := List.mem_cons.mp hother
    · cases other with
      | batch loads => cases hattends
      | load taken =>
          have hcheck : Op.check taken ∈ (program (.load taken) : List (Op Key)) := List.mem_singleton_self _
          exact Or.inr (Or.inl ⟨_, Config.pending_advance.mpr (Or.inl hcheck), hattends, by simp⟩)
    · refine Or.inl ⟨other, hrest, ?_⟩
      cases other <;> exact hattends
  · have hframe : c.shared.Frame { c.shared with queue := rest } 0 :=
      ⟨Flights.Frame.refl _ _, fun _ _ => rfl, fun _ _ h => h⟩
    refine Or.inr (Or.inl ⟨op, Config.pending_advance.mpr (Or.inr (hop.others_of_idle hidle)), ?_, hleads.2⟩)
    exact hleads.1.frame hframe id fun _ _ => Multiset.notMem_zero _
  · exact Or.inr (Or.inr hdeferred)

omit [DecidableEq ι] [Fintype ι] in
/-- What is promised only depends on who is planned for a flight. -/
theorem Promised.frame {c : Worker ι Key} {s' : Loads Key} {touched : Multiset String} (h : c.shared.Frame s' touched)
    (hother : ∀ op, c.Pending op → ∀ request ∈ op.owned, request ∉ touched)
    (hqueue : ∀ item ∈ c.shared.queue, item ∈ s'.queue) (hdeferred : s'.deferred = c.shared.deferred)
    (hplan : s'.planKeys = c.shared.planKeys) {key : Key} (hfinal : c.shared.reads.Final key → s'.reads.Final key)
    (hpromised : Promised c key) : Promised (⟨s', c.left⟩ : Worker ι Key) key := by
  obtain ⟨item, hitem, hattends⟩ | ⟨op, hop, hleads⟩ | ⟨load, hload, hplanned⟩ := hpromised
  · refine Or.inl ⟨item, hqueue item hitem, ?_⟩
    cases item with
    | batch loads => exact hattends
    | load load => exact (congrFun hplan load.request).trans hattends
  · exact Or.inr (Or.inl ⟨op, hop, hleads.1.frame h hfinal (hother op hop), hleads.2⟩)
  · refine Or.inr (Or.inr ⟨load, ?_, (congrFun hplan load.request).trans hplanned⟩)
    rw [hdeferred]
    exact hload

omit [DecidableEq ι] in
theorem Promising.cancel {c : Worker ι Key} (h : Promising c) (cancelled : Finset String) {reads : Flights Key}
    (hframe : c.shared.reads.Frame reads ∅) (hkeeps : c.shared.reads.Keeps reads) (hpopulated : reads.Populated)
    (hbefore : ∀ key, reads.state key = some .registered → c.shared.reads.state key = some .registered) :
    Promising (⟨{ c.shared with cancelled := cancelled, reads := reads }, c.left⟩ : Worker ι Key) := by
  refine ⟨h.consistent.cancel cancelled hframe hkeeps, hpopulated, fun key hregistered => ?_⟩
  have hloads : c.shared.Frame { c.shared with cancelled := cancelled, reads := reads } 0 :=
    ⟨hframe.mono (Set.empty_subset _), fun _ _ => rfl, fun _ _ h => h⟩
  have hstill := hbefore key hregistered
  refine (h.promised key hstill).frame hloads (fun _ _ _ _ => Multiset.notMem_zero _) (fun _ hitem => hitem) rfl rfl ?_
  rintro (hready | herror)
  · rw [hstill] at hready
    cases hready
  · rw [hstill] at herror
    cases herror

theorem Promising.start {c : Worker ι Key} (h : Promising c) (pages : Bool) {loads : List QueuedLoad}
    (hfresh : ∀ load ∈ loads, load.request ∉ c.shared.inflight) :
    Promising (⟨c.shared.start pages loads, c.left⟩ : Worker ι Key) := by
  refine ⟨h.consistent.start pages hfresh, h.populated, fun key hregistered => ?_⟩
  have hframe : c.shared.Frame { c.shared.start pages loads with reported := c.shared.reported } 0 :=
    ⟨Flights.Frame.refl _ _, fun _ _ => rfl, fun _ _ h => h⟩
  exact (h.promised key hregistered).frame hframe (fun _ _ _ _ => Multiset.notMem_zero _)
    (fun _ hitem => List.mem_append_left _ hitem) rfl rfl id

/-- Every step that meets the condition keeps the loaders promising. -/
theorem Promising.step {b : Bounds} {declared : Key → ℤ} {c : Worker ι Key} (h : Promising c)
    {action : Action ι Key} (hmeets : Meets c action) : Promising (Loading.step b declared c action) := by
  cases action with
  | exec lane choice =>
      refine Config.exec_induction h fun op rest shared more hleft heffect => ?_
      exact h.advance hleft (hmeets op (by rw [hleft]; rfl)) heffect
  | take lane =>
      unfold Loading.step
      dsimp only
      split
      · rename_i item rest hidle hqueue
        exact h.take hidle hqueue
      · exact h
  | start pages loads => exact h.start pages hmeets
  | cancelLoad request => exact h.cancel _ (Flights.Frame.refl _ _) (Flights.Keeps.refl _) h.populated fun _ h => h
  | cancelRead request =>
      exact h.cancel _ (c.shared.reads.cancel_frame request) (c.shared.reads.cancel_keeps request)
        (h.populated.cancel request) fun _ h => Flights.cancel_registered h

omit [DecidableEq ι] in
/-- Without queued items and with idle loaders nothing is deferred, and what was given has been reported. -/
theorem Consistent.quiet {c : Worker ι Key} (h : Consistent c) (hqueue : c.shared.queue = [])
    (hidle : ∀ lane, c.left lane = []) : c.shared.deferred = [] ∧ c.shared.given ⊆ c.shared.reported := by
  have hnothing : ∀ op, ¬c.Pending op := by
    rintro op ⟨lane, hop⟩
    rw [hidle lane] at hop
    cases hop
  have hdeferred : c.shared.deferred = [] := by
    refine List.eq_nil_iff_forall_not_mem.mpr fun load hload => ?_
    obtain ⟨key, hplan, -⟩ := h.deferred load hload
    obtain ⟨item, hitem, -⟩ | ⟨op, hop, -⟩ := h.attended load hload key hplan
    · rw [hqueue] at hitem
      cases hitem
    · exact hnothing op hop
  refine ⟨hdeferred, fun request hgiven => ?_⟩
  have hholdings : c.holdings Op.owned = 0 :=
    Finset.sum_eq_zero fun lane _ => by rw [hidle lane, ownedBy_nil]
  have hinflight : c.shared.inflight = ∅ := by
    rw [← Finset.val_eq_zero, ← h.ledger, hholdings, Loads.waiting, hqueue, hdeferred]
    rfl
  obtain hin | hreported := Finset.mem_union.mp (h.given hgiven)
  · rw [hinflight] at hin
    exact absurd hin (Finset.notMem_empty request)
  · exact hreported

/-- In every run in which no promoting release comes between the registration of a member and the recording
of its deferral, a deferred load is attended; when nothing is left to do, nothing is deferred and every
request has been reported. -/
theorem deferred_attended (b : Bounds) (declared : Key → ℤ) (actions : List (Action ι Key))
    (h : Run.Throughout (step b declared) Meets Worker.initial actions) :
    let c := Run.exec (step b declared) Worker.initial actions
    (∀ load ∈ c.shared.deferred, ∃ key, c.shared.planKeys load.request = some key ∧
        c.shared.reads.Member load.request key ∧ Attended c key) ∧
      (c.shared.queue = [] → (∀ lane, c.left lane = []) →
        c.shared.deferred = [] ∧ c.shared.given ⊆ c.shared.reported) := by
  intro c
  have hpromising : Promising c := h.preserves (fun _ _ hbefore hmeets => hbefore.step hmeets) Promising.initial
  have hconsistent := hpromising.consistent
  refine ⟨fun load hload => ?_, hconsistent.quiet⟩
  obtain ⟨key, hplan, hmember⟩ := hconsistent.deferred load hload
  exact ⟨key, hplan, hmember, hconsistent.attended load hload key hplan⟩

/-! ## Two batches that share a base -/

def smallBounds : Bounds := ⟨2, 16, 1024, 2048, by decide⟩

/-- Every load of a batch has the one key; a load fails before it asks for its base. -/
def oneBase : Choice Unit := ⟨some fun _ => some (), none, false, []⟩

/-- The second batch records its request before the first load ends, whose release promotes it. -/
def promptRecord : List (Action Bool Unit) :=
  [.start true [⟨"first", false⟩], .start true [⟨"second", false⟩], .take false] ++
    List.replicate 8 (.exec false oneBase) ++ [.take true] ++ List.replicate 7 (.exec true oneBase) ++
    [.take false] ++ List.replicate 9 (.exec false oneBase) ++ [.take true] ++ List.replicate 8 (.exec true oneBase)

/-- The second batch has registered its request when the first load ends, and records it afterwards. -/
def lateRecord : List (Action Bool Unit) :=
  [.start true [⟨"first", false⟩], .start true [⟨"second", false⟩], .take false] ++
    List.replicate 8 (.exec false oneBase) ++ [.take true] ++ List.replicate 3 (.exec true oneBase) ++
    [.take false] ++ List.replicate 8 (.exec false oneBase) ++ List.replicate 4 (.exec true oneBase)

theorem deferred_attended_promptRecord :
    let c := Run.exec (step smallBounds fun _ => 1) Worker.initial promptRecord
    (∀ load ∈ c.shared.deferred, ∃ key, c.shared.planKeys load.request = some key ∧
        c.shared.reads.Member load.request key ∧ Attended c key) ∧
      (c.shared.queue = [] → (∀ lane, c.left lane = []) →
        c.shared.deferred = [] ∧ c.shared.given ⊆ c.shared.reported) :=
  deferred_attended smallBounds (fun _ => 1) promptRecord (by decide +kernel)

/-- A deferral that is recorded late is never released. -/
theorem lateRecord_lost :
    let c := Run.exec (step smallBounds fun _ => 1) Worker.initial lateRecord
    c.shared.queue = [] ∧ (∀ lane, c.left lane = []) ∧ c.shared.deferred = [⟨"second", false⟩] ∧
      ¬c.shared.given ⊆ c.shared.reported := by
  decide +kernel

end SparkCache.Loading
