import Mathlib.Algebra.Order.BigOperators.Group.Finset
import SparkCache.SharedRestore.Runs

/-!
# The size of the tables of shared restores

However many requests share restores, the restores that are not leased yet, the
loads that are offered and the requests that wait stay within fixed bounds: only
a lookup that finds room starts a flight, and no other callback adds one.
-/
namespace SparkCache.SharedRestore

/-- What the scheduler lets itself keep. -/
structure Bounded (c : Config) (s : Restores) : Prop where
  active : s.flights.countP (·.lease.isNone) ≤ c.maxPendingRestores
  offered : s.needLoad.size ≤ c.maxPendingRestores
  prefixes : ∀ f ∈ s.flights, f.shareablePrefixes.length ≤ maxShareablePrefixes

theorem initial_bounded (c : Config) : Bounded c .initial :=
  ⟨Nat.zero_le _, Nat.zero_le _, fun _ hf => absurd hf List.not_mem_nil⟩

/-- What a flight is given when it starts. -/
def RestoreFlight.origin (f : RestoreFlight) : Str × ℕ × Str × List (ℕ × Str) :=
  (f.digest, f.spanTokens, f.leader, f.shareablePrefixes)

/-- No flight and no load is added, and no lease is withdrawn from a flight that stays. -/
structure Shrinks (s s' : Restores) : Prop where
  active : s'.flights.countP (·.lease.isNone) ≤ s.flights.countP (·.lease.isNone)
  loads : s'.needLoad.entries.Sublist s.needLoad.entries
  flights : (s'.flights.map RestoreFlight.origin).Sublist (s.flights.map RestoreFlight.origin)

theorem Shrinks.prefixes {s s' : Restores} (h : Shrinks s s') : ∀ f ∈ s'.flights, ∃ g ∈ s.flights,
    g.shareablePrefixes = f.shareablePrefixes := by
  intro f hf
  obtain ⟨g, hg, hsame⟩ := List.mem_map.mp (h.flights.subset (List.mem_map_of_mem hf))
  exact ⟨g, hg, congrArg (·.2.2.2) hsame⟩

theorem Bounded.shrinks {c : Config} {s s' : Restores} (h : Bounded c s) (hs : Shrinks s s') : Bounded c s' := by
  refine ⟨hs.active.trans h.active, hs.loads.length_le.trans h.offered, fun f hf => ?_⟩
  obtain ⟨g, hg, hsame⟩ := hs.prefixes f hf
  rw [← hsame]
  exact h.prefixes g hg

namespace Shrinks
variable {s s' s'' : Restores}

theorem refl (s : Restores) : Shrinks s s := ⟨le_rfl, .refl _, .refl _⟩

theorem trans (h : Shrinks s s') (h' : Shrinks s' s'') : Shrinks s s'' :=
  ⟨h'.active.trans h.active, h'.loads.trans h.loads, h'.flights.trans h.flights⟩

/-- Other tables do not count. -/
theorem congr (h : Shrinks s s') (hflights : s''.flights = s'.flights)
    (hloads : s''.needLoad.entries.Sublist s'.needLoad.entries) : Shrinks s s'' := by
  refine ⟨?_, hloads.trans h.loads, ?_⟩
  · rw [hflights]
    exact h.active
  · rw [hflights]
    exact h.flights

/-- Assignments to flights that withdraw no lease. -/
theorem map (φ : RestoreFlight → RestoreFlight) (hflights : s'.flights = s.flights.map φ)
    (hloads : s'.needLoad.entries.Sublist s.needLoad.entries)
    (hkeeps : ∀ f ∈ s.flights, (φ f).origin = f.origin ∧
      ((φ f).lease.isNone = true → f.lease.isNone = true)) : Shrinks s s' := by
  refine ⟨?_, hloads, ?_⟩
  · rw [hflights, List.countP_map]
    exact List.countP_mono_left fun f hf hnone => (hkeeps f hf).2 hnone
  · have hsame : s.flights.map (RestoreFlight.origin ∘ φ) = s.flights.map RestoreFlight.origin :=
      List.map_congr_left fun f hf => (hkeeps f hf).1
    rw [hflights, List.map_map, hsame]

/-- A loop over calls that add nothing. -/
theorem foldl {β : Type*} {g : Restores → β → Restores} (hg : ∀ s b, Shrinks s (g s b)) (s : Restores) (l : List β) :
    Shrinks s (l.foldl g s) := by
  induction l generalizing s with
  | nil => exact refl s
  | cons b rest ih => exact (hg s b).trans (ih (g s b))

theorem retire (s : Restores) (digest : Str) : Shrinks s (s.retire digest) := by
  unfold Restores.retire
  split
  · exact refl s
  · exact ⟨List.filter_sublist.countP_le, .refl _, List.filter_sublist.map _⟩

theorem retireAll (s : Restores) (retired : List RestoreFlight) : Shrinks s (s.retireAll retired) :=
  foldl (fun s (f : RestoreFlight) => retire s f.digest) s retired

theorem removeFollower (s : Restores) (request : Str) : Shrinks s (s.removeFollower request) := by
  unfold Restores.removeFollower
  split
  · exact refl s
  · rename_i b _
    refine map (fun f => if f.digest = b.flightDigest then Restores.leave f b _ else f) rfl (.refl _) fun f _ => ?_
    split <;> exact ⟨rfl, id⟩

theorem rejectScope (s : Restores) (request : Str) : Shrinks s (s.rejectScope request) := by
  have hleft := removeFollower s request
  unfold Restores.rejectScope
  dsimp only
  split
  · exact hleft
  · split
    · exact hleft
    · exact hleft.trans (retire _ _)

/-! ## Lookups -/

theorem join (s : Restores) (request flightDigest : Str) (due : Str × ℕ) :
    Shrinks s (s.join request flightDigest due) := by
  refine map (fun f => if f.digest = flightDigest then { f with followers := insert request f.followers } else f)
    rfl (.refl _) fun f _ => ?_
  split <;> exact ⟨rfl, id⟩

theorem takeSegment (s : Restores) (f : RestoreFlight) (segment : Str × ℕ) : Shrinks s (s.takeSegment f segment) := by
  unfold Restores.takeSegment
  split
  · exact refl s
  · refine map (fun g => if g.digest = f.digest then { g with segment := some segment } else g) rfl (.refl _)
      fun g _ => ?_
    split <;> exact ⟨rfl, id⟩

theorem joinSegment {rows : Bool} {request : Str} {candidates : List (ℕ × Str)} {selected : Str}
    (hjoined : s.joinSegment rows request candidates selected = some s') : Shrinks s s' := by
  unfold Restores.joinSegment at hjoined
  split at hjoined
  · split at hjoined
    · cases hjoined
    · split at hjoined
      · cases hjoined
      · obtain rfl := Option.some.inj hjoined
        exact (takeSegment s _ _).trans (join _ _ _ _)
  · cases hjoined

theorem followerLookup (s : Restores) (l : Lookup) : Shrinks s (s.followerLookup l).1 := by
  unfold Restores.followerLookup
  split
  · exact refl s
  · split
    · exact removeFollower s _
    · split
      · exact refl s
      · exact removeFollower s _

theorem leaderLookup (s : Restores) (l : Lookup) : Shrinks s (s.leaderLookup l).1 := by
  unfold Restores.leaderLookup
  split
  · exact refl s
  · rename_i f _
    have hretired := retire s f.digest
    split
    · exact hretired
    · split
      · exact refl s
      · split
        · exact refl s
        · exact ⟨hretired.active, List.kerase_sublist _ _, hretired.flights⟩

/-! ## Leases -/

theorem leaseCandidate (s : Restores) (request : Str) (inScope enabled : Bool)
    (candidates : Option (List (ℕ × Str))) (now : ℚ) :
    Shrinks s (s.leaseCandidate request inScope enabled candidates now).1 := by
  have hexpired : Shrinks s (s.expire now) := retireAll s _
  unfold Restores.leaseCandidate
  split
  · exact rejectScope s _
  · split
    · exact refl s
    · dsimp only
      split
      · split <;> exact hexpired
      · split
        · exact hexpired
        · unfold Restores.joinLease
          split
          · exact hexpired
          · split
            · exact hexpired
            · exact hexpired.trans (join _ _ _ _)

theorem leasePublished (c : Config) (s : Restores) (request key : Str) (now : ℚ) :
    Shrinks s (s.leasePublished c request key now) := by
  unfold Restores.leasePublished
  split
  · exact refl s
  · rename_i f _
    split
    · refine trans ?_ (retireAll _ _)
      refine map (fun g => if g.digest = f.digest then { g with lease := some ⟨key, f.due.2, now, now + c.leaseTtl⟩ }
        else g) rfl (.refl _) fun g _ => ?_
      split
      · exact ⟨rfl, fun hnone => absurd hnone Bool.false_ne_true⟩
      · exact ⟨rfl, id⟩
    · exact refl s

theorem leaseRejected (s : Restores) (request key : Str) : Shrinks s (s.leaseRejected request key) := by
  unfold Restores.leaseRejected
  dsimp only
  split
  · split
    · exact refl s
    · split
      · exact removeFollower s request
      · exact refl s
  · refine trans ?_ (retire _ _)
    split
    · exact refl s
    · split
      · exact removeFollower s request
      · exact refl s

/-! ## Loads -/

theorem afterAlloc (s : Restores) (request : Str) (inScope : Bool) (blocks : Finset ℕ) (external : Bool) :
    Shrinks s (s.afterAlloc request inScope blocks external) := by
  have hscope : Shrinks s (if inScope then s else s.rejectScope request) := by
    split
    · exact refl s
    · exact rejectScope s request
  unfold Restores.afterAlloc
  dsimp only
  split
  · exact hscope
  · split
    · exact hscope.congr rfl (List.kerase_sublist _ _)
    · refine trans ?_ (retire _ _)
      exact hscope.congr rfl (List.kerase_sublist _ _)

theorem dispatch (s : Restores) (load : Str × Str × ℕ × Finset ℕ) : Shrinks s (s.dispatch load) := by
  refine map (fun f => if f.digest = load.2.1 then
    (if f.leader = load.1 then { f with restoredBlockIds := load.2.2.2, dispatched := true } else f) else f)
    rfl (.refl _) fun f _ => ?_
  split
  · split <;> exact ⟨rfl, id⟩
  · exact ⟨rfl, id⟩

theorem schedule (s : Restores) (r : Scheduled) : Shrinks s (s.schedule r) := by
  unfold Restores.schedule
  split
  · exact rejectScope s _
  · split
    · exact refl s
    · exact (refl s).congr rfl (List.kerase_sublist _ _)

theorem buildMeta (s : Restores) (scheduled : List Scheduled) : Shrinks s (s.buildMeta scheduled) := by
  refine trans ?_ (foldl schedule _ scheduled)
  exact (foldl dispatch s _).congr rfl (.refl _)

theorem failAdmitted (invalid : Finset ℕ) (s : Restores) (load : Str × Str × Finset ℕ) :
    Shrinks s (s.failAdmitted invalid load) := by
  unfold Restores.failAdmitted
  split
  · exact (retire s _).congr rfl (.refl _)
  · exact refl s

theorem receive (s : Restores) (request : Str) : Shrinks s (s.receive request) := by
  unfold Restores.receive
  split
  · exact refl s
  · rename_i f _
    split
    · exact retire s _
    · refine map (fun g => if g.digest = f.digest then { g with workersFinished := true } else g) rfl (.refl _)
        fun g _ => ?_
      split <;> exact ⟨rfl, id⟩

theorem output (s : Restores) (invalid : Finset ℕ) (received : List Str) : Shrinks s (s.output invalid received) := by
  refine trans ?_ (foldl receive _ received)
  exact (foldl (failAdmitted invalid) s _).trans (retireAll _ _)

/-! ## Finished requests -/

theorem endLeader (s : Restores) (digest : Str) : Shrinks s (s.modify digest ({ · with leaderFinished := true })) := by
  refine map (fun f => if f.digest = digest then { f with leaderFinished := true } else f) rfl (.refl _) fun f _ => ?_
  split <;> exact ⟨rfl, id⟩

theorem finishLeader (s : Restores) (request : Str) : Shrinks s (s.finishLeader request) := by
  unfold Restores.finishLeader
  split
  · exact refl s
  · split
    · exact retire s _
    · split
      · exact (endLeader s _).congr rfl (.refl _)
      · split
        · exact retire s _
        · exact endLeader s _

theorem requestFinished (s : Restores) (request : Str) : Shrinks s (s.requestFinished request) :=
  ((removeFollower s request).trans (finishLeader _ request)).congr rfl (List.kerase_sublist _ _)

end Shrinks

/-! ## Flights that start -/

/-- A lookup finds room for another restore of a root that the store has and no flight restores. -/
structure FindsRoom (c : Config) (s : Restores) (l : Lookup) (root : Str) : Prop where
  active : s.flights.countP (·.lease.isNone) < c.maxPendingRestores
  offered : l.request ∉ s.needLoad → s.needLoad.size < c.maxPendingRestores
  unshared : s.flight? root = none
  found : l.hit root = true

/-- A lookup has started a flight, after it may have given up the one it led or followed. -/
def Starts (c : Config) (s : Restores) (l : Lookup) (s' : Restores) : Prop :=
  ∃ left candidates selected, Shrinks s left ∧ FindsRoom c left l selected.2 ∧
    s' = left.startFlight l candidates selected

section Starts
variable {c : Config}

theorem Shrinks.starts {s s' s'' : Restores} {l : Lookup} (h : Shrinks s s')
    (hs : Shrinks s' s'' ∨ Starts c s' l s'') : Shrinks s s'' ∨ Starts c s l s'' := by
  rcases hs with hs | ⟨left, candidates, selected, hleft, hstarts⟩
  · exact .inl (h.trans hs)
  · exact .inr ⟨left, candidates, selected, h.trans hleft, hstarts⟩

theorem offer_starts (c : Config) (s : Restores) (l : Lookup) (candidates : List (ℕ × Str)) :
    Shrinks s (s.offer c l candidates).1 ∨ Starts c s l (s.offer c l candidates).1 := by
  unfold Restores.offer
  split
  · exact .inl (Shrinks.refl s)
  · rename_i selected _
    split
    · split
      · exact .inl (Shrinks.refl s)
      · exact .inl (Shrinks.join s _ _ _)
    · rename_i hunshared
      split
      · rename_i joined hjoined
        exact .inl (Shrinks.joinSegment hjoined)
      · split
        · exact .inl (Shrinks.refl s)
        · rename_i hroom
          obtain ⟨hactive, hoffered, hfound⟩ := not_or.mp hroom |>.imp_right not_or.mp
          refine .inr ⟨s, candidates, selected, Shrinks.refl s,
            ⟨not_le.mp hactive, fun hlisted => ?_, hunshared, ?_⟩, rfl⟩
          · exact not_le.mp fun hfull => hoffered ⟨hlisted, hfull⟩
          · simpa using hfound

theorem matchedTokens_starts (c : Config) (s : Restores) (l : Lookup) :
    Shrinks s (s.matchedTokens c l).1 ∨ Starts c s l (s.matchedTokens c l).1 := by
  have hfollower := Shrinks.followerLookup s l
  unfold Restores.matchedTokens
  split
  · exact .inl (Shrinks.rejectScope s _)
  · split
    · exact .inl (Shrinks.refl s)
    · split
      · rename_i heq
        rw [heq] at hfollower
        exact .inl hfollower
      · rename_i s₁ heq
        rw [heq] at hfollower
        have hleader := hfollower.trans (Shrinks.leaderLookup s₁ l)
        split
        · rename_i heq'
          rw [heq'] at hleader
          exact .inl hleader
        · rename_i heq'
          rw [heq'] at hleader
          split
          · exact .inl hleader
          · split
            · exact .inl hleader
            · exact hleader.starts (offer_starts c _ l _)

/-- What a callback can do: only a lookup adds a flight or a load, and only one. -/
theorem step_starts (c : Config) (s : Restores) (a : Callback) :
    Shrinks s (step c s a) ∨ ∃ l, a = .matchedTokens l ∧ Starts c s l (step c s a) := by
  cases a with
  | matchedTokens lookup => exact (matchedTokens_starts c s lookup).imp_right fun hstarts => ⟨lookup, rfl, hstarts⟩
  | leaseCandidate request inScope enabled candidates now => exact .inl (Shrinks.leaseCandidate s _ _ _ _ _)
  | leasePublished request key now => exact .inl (Shrinks.leasePublished c s _ _ _)
  | leaseRejected request key => exact .inl (Shrinks.leaseRejected s _ _)
  | afterAlloc request inScope blocks external => exact .inl (Shrinks.afterAlloc s _ _ _ _)
  | buildMeta scheduled => exact .inl (Shrinks.buildMeta s _)
  | output invalid received => exact .inl (Shrinks.output s _ _)
  | requestFinished request => exact .inl (Shrinks.requestFinished s _)

end Starts

namespace Bounded
variable {c : Config} {s s' : Restores}

theorem starts (h : Bounded c s) {l : Lookup} (hs : Starts c s l s') : Bounded c s' := by
  obtain ⟨left, candidates, selected, hleft, hroom, rfl⟩ := hs
  have h := h.shrinks hleft
  unfold Restores.startFlight
  refine ⟨?_, ?_, fun f hf => ?_⟩
  · rw [List.countP_append]
    exact hroom.active
  · dsimp only
    rw [AList.size_insert]
    by_cases hlisted : l.request ∈ left.needLoad
    · obtain ⟨load, hload⟩ := Option.isSome_iff_exists.mp (AList.lookup_isSome.mpr hlisted)
      rw [← AList.size_of_lookup hload]
      exact h.offered
    · exact (AList.size_erase_le left.needLoad l.request).trans_lt (hroom.offered hlisted)
  · rcases List.mem_append.mp hf with hold | hadded
    · exact h.prefixes f hold
    · rw [List.mem_singleton.mp hadded]
      dsimp only [RestoreFlight.start]
      rw [List.length_drop]
      omega

theorem step (h : Bounded c s) (a : Callback) : Bounded c (SharedRestore.step c s a) := by
  rcases step_starts c s a with hshrinks | ⟨l, -, hstarts⟩
  · exact h.shrinks hshrinks
  · exact h.starts hstarts

/-- Flights with a lease are bounded by the leases, the others by the restores that may be pending. -/
theorem flights_le (h : Bounded c s) {spanOf : Str → ℕ} {leases : ℕ} (hs : Consistent spanOf leases s) :
    s.flights.length ≤ c.maxPendingRestores + leases := by
  have hleased : s.flights.countP (fun f => ¬f.lease.isNone) = s.flights.countP (·.lease.isSome) := by
    apply List.countP_congr
    intro f _
    cases f.lease <;> simp
  rw [List.length_eq_countP_add_countP (·.lease.isNone), hleased]
  exact Nat.add_le_add h.active hs.published

end Bounded

/-- Whoever waits, follows a flight, and a flight has room for some only. -/
theorem Consistent.followers_le {spanOf : Str → ℕ} {leases : ℕ} {s : Restores} (h : Consistent spanOf leases s) :
    s.followers.length ≤ s.flights.length * maxFlightFollowers := by
  classical
  have hsub : (s.followers.map RestoreFollower.request).toFinset ⊆
      s.flights.toFinset.biUnion RestoreFlight.followers := by
    intro r hr
    obtain ⟨b, hb, rfl⟩ := List.mem_map.mp (List.mem_toFinset.mp hr)
    obtain ⟨f, hf, -, hfollows, -⟩ := h.waits b hb
    exact Finset.mem_biUnion.mpr ⟨f, List.mem_toFinset.mpr hf, hfollows⟩
  calc s.followers.length = (s.followers.map RestoreFollower.request).toFinset.card := by
        rw [List.toFinset_card_of_nodup h.requests, List.length_map]
    _ ≤ (s.flights.toFinset.biUnion RestoreFlight.followers).card := Finset.card_le_card hsub
    _ ≤ s.flights.toFinset.card * maxFlightFollowers :=
        Finset.card_biUnion_le_card_mul _ _ _ fun f hf => (h.flights f (List.mem_toFinset.mp hf)).bounded
    _ ≤ s.flights.length * maxFlightFollowers := Nat.mul_le_mul_right _ s.flights.toFinset_card_le

/-- However many requests come, and in whatever order the callbacks do: the flights, the requests that
follow each, the loads that are offered and the prefixes that a flight can be joined through. Only a
lookup that finds room adds a flight or a load. -/
theorem restores_bounded (c : Config) (spanOf : Str → ℕ) {callbacks : List Callback}
    (h : Run.Throughout (step c) (Proper spanOf) .initial callbacks) :
    let s := Run.exec (step c) .initial callbacks
    s.flights.length ≤ c.maxPendingRestores + maxSharedLeases ∧
      (∀ f ∈ s.flights, f.followers.card ≤ maxFlightFollowers) ∧
      s.followers.length ≤ (c.maxPendingRestores + maxSharedLeases) * maxFlightFollowers ∧
      s.needLoad.size ≤ c.maxPendingRestores ∧
      (∀ f ∈ s.flights, f.shareablePrefixes.length ≤ maxShareablePrefixes) ∧
      ∀ a, Shrinks s (step c s a) ∨ ∃ l, a = .matchedTokens l ∧ Starts c s l (step c s a) := by
  intro s
  have hconsistent : Consistent spanOf maxSharedLeases s := Consistent.run c h
  have hbounded : Bounded c s := h.preserves (fun _ a hs _ => hs.step a) (initial_bounded c)
  have hflights := hbounded.flights_le hconsistent
  exact ⟨hflights, fun f hf => (hconsistent.flights f hf).bounded,
    hconsistent.followers_le.trans (Nat.mul_le_mul_right _ hflights), hbounded.offered, hbounded.prefixes,
    step_starts c s⟩

/-- The only restore that may be pending, and a request that follows it. -/
theorem restores_bounded_shared : let run : List Callback := [.matchedTokens (wants "a"), .matchedTokens (wants "b")]
    let c : Config := ⟨true, 1, 60⟩
    let s := Run.exec (step c) .initial run
    s.flights.length ≤ 1 + maxSharedLeases ∧ (∀ f ∈ s.flights, f.followers.card ≤ maxFlightFollowers) ∧
      s.followers.length ≤ (1 + maxSharedLeases) * maxFlightFollowers ∧ s.needLoad.size ≤ 1 ∧
      (∀ f ∈ s.flights, f.shareablePrefixes.length ≤ maxShareablePrefixes) ∧
      ∀ a, Shrinks s (step c s a) ∨ ∃ l, a = .matchedTokens l ∧ Starts c s l (step c s a) :=
  restores_bounded ⟨true, 1, 60⟩ (fun _ => 2) ⟨⟨by decide, wants_named "a"⟩, ⟨by decide, wants_named "b"⟩, trivial⟩

end SparkCache.SharedRestore
