import SparkCache.SharedRestore.Callbacks

/-!
# The tables of shared restores

What the tables of the scheduler say of each other after every callback: a
leader's entry names a flight that names the leader, a follower's entry names a
flight that has the follower, and what the follower waits for is the lease that
the flight has published or will publish.
-/
namespace SparkCache.SharedRestore

/-- What holds of every flight. A digest names prefixes of one length. -/
structure RestoreFlight.Sound (spanOf : Str → ℕ) (f : RestoreFlight) : Prop where
  span : f.spanTokens = spanOf f.digest
  prefixes : ∀ p ∈ f.shareablePrefixes, p.1 = spanOf p.2
  segment : ∀ p, f.segment = some p → p.2 = spanOf p.1
  bounded : f.followers.card ≤ maxFlightFollowers
  lease : ∀ l, f.lease = some l → (l.digest, l.spanTokens) = f.due ∧ f.workersFinished = true
  workers : f.workersFinished = true → f.dispatched = true
  ended : f.leaderFinished = true → f.lease = none → f.workersFinished = false

/-- The leader has not finished, or the workers still write for it. -/
def RestoreFlight.Led (f : RestoreFlight) : Prop := f.leaderFinished = false ∨ f.lease = none

/-- What an assignment to other fields keeps. -/
structure RestoreFlight.Keeps (f g : RestoreFlight) : Prop where
  digest : g.digest = f.digest
  leader : g.leader = f.leader
  leaderFinished : g.leaderFinished = f.leaderFinished
  lease : g.lease = f.lease

theorem RestoreFlight.Keeps.led {f g : RestoreFlight} (h : f.Keeps g) : g.Led ↔ f.Led := by
  rw [RestoreFlight.Led, RestoreFlight.Led, h.leaderFinished, h.lease]

theorem RestoreFlight.start_sound {spanOf : Str → ℕ} {digest leader : Str} {span : ℕ} {prefixes : List (ℕ × Str)}
    (hspan : span = spanOf digest) (hprefixes : ∀ p ∈ prefixes, p.1 = spanOf p.2) :
    (RestoreFlight.start digest span leader prefixes).Sound spanOf := by
  refine ⟨hspan, hprefixes, ?_, ?_, ?_, ?_, ?_⟩ <;> simp [RestoreFlight.start]

/-- The tables agree, and at most so many leases are published. -/
structure Consistent (spanOf : Str → ℕ) (leases : ℕ) (s : Restores) : Prop where
  flights : ∀ f ∈ s.flights, f.Sound spanOf
  /-- A digest has one flight. -/
  digests : (s.flights.map RestoreFlight.digest).Nodup
  /-- A request leads one flight. -/
  leaders : (s.flights.map RestoreFlight.leader).Nodup
  led : ∀ r d, s.leaders r = some d ↔ ∃ f ∈ s.flights, f.digest = d ∧ f.leader = r ∧ f.Led
  requests : (s.followers.map RestoreFollower.request).Nodup
  waits : ∀ b ∈ s.followers, ∃ f ∈ s.flights, f.digest = b.flightDigest ∧ b.request ∈ f.followers ∧
    (b.leaseDigest, b.spanTokens) = f.due
  followed : ∀ f ∈ s.flights, ∀ r ∈ f.followers, ∃ b ∈ s.followers, b.request = r ∧ b.flightDigest = f.digest
  finished : ∀ f ∈ s.flights, f.leaderFinished = true ↔ f.leader ∈ s.finished
  published : s.flights.countP (·.lease.isSome) ≤ leases

theorem initial_consistent (spanOf : Str → ℕ) (leases : ℕ) : Consistent spanOf leases .initial := by
  constructor <;> simp [Restores.initial]

/-! ## The tables of requests and digests -/

section Tables
variable {s s' : Restores} {request digest : Str} {f : RestoreFlight}

theorem flight?_mem (h : s.flight? digest = some f) : f ∈ s.flights ∧ f.digest = digest :=
  ⟨List.mem_of_find?_eq_some h, by simpa using List.find?_some h⟩

theorem flight?_none (h : s.flight? digest = none) : ∀ f ∈ s.flights, f.digest ≠ digest := by
  intro f hf
  simpa using List.find?_eq_none.mp h f hf

theorem follower?_mem {b : RestoreFollower} (h : s.follower? request = some b) :
    b ∈ s.followers ∧ b.request = request :=
  ⟨List.mem_of_find?_eq_some h, by simpa using List.find?_some h⟩

theorem follower?_none (h : s.follower? request = none) : ∀ b ∈ s.followers, b.request ≠ request := by
  intro b hb
  simpa using List.find?_eq_none.mp h b hb

theorem retire_flights (s : Restores) (digest : Str) :
    (s.retire digest).flights = s.flights.filter (·.digest ≠ digest) := by
  unfold Restores.retire
  split
  · rename_i hnone
    symm
    apply List.filter_eq_self.mpr
    intro f hf
    simpa using flight?_none hnone f hf
  · rfl

@[simp] theorem retire_finished (s : Restores) (digest : Str) : (s.retire digest).finished = s.finished := by
  unfold Restores.retire
  split <;> rfl

theorem retireAll_flights (s : Restores) (retired : List RestoreFlight) :
    (s.retireAll retired).flights = s.flights.filter (·.digest ∉ retired.map RestoreFlight.digest) := by
  induction retired generalizing s with
  | nil => simp [Restores.retireAll]
  | cons f rest ih =>
      rw [Restores.retireAll, List.foldl_cons, ← Restores.retireAll, ih, retire_flights, List.filter_filter]
      refine List.filter_congr fun g _ => ?_
      rw [Bool.eq_iff_iff, Bool.and_eq_true, decide_eq_true_eq, decide_eq_true_eq, decide_eq_true_eq, List.map_cons,
        List.mem_cons, not_or, and_comm]

end Tables

namespace Consistent
variable {spanOf : Str → ℕ} {leases : ℕ} {s s' : Restores} {request digest : Str} {f g : RestoreFlight}

theorem eq_of_digest (h : Consistent spanOf leases s) (hf : f ∈ s.flights) (hg : g ∈ s.flights)
    (hsame : f.digest = g.digest) : f = g :=
  List.inj_on_of_nodup_map h.digests hf hg hsame

theorem eq_of_leader (h : Consistent spanOf leases s) (hf : f ∈ s.flights) (hg : g ∈ s.flights)
    (hsame : f.leader = g.leader) : f = g :=
  List.inj_on_of_nodup_map h.leaders hf hg hsame

theorem eq_of_request (h : Consistent spanOf leases s) {b b' : RestoreFollower} (hb : b ∈ s.followers)
    (hb' : b' ∈ s.followers) (hsame : b.request = b'.request) : b = b' :=
  List.inj_on_of_nodup_map h.requests hb hb' hsame

theorem led?_mem (h : Consistent spanOf leases s) (hled : s.led? request = some f) :
    f ∈ s.flights ∧ f.leader = request ∧ f.Led := by
  obtain ⟨d, hd, hf⟩ := Option.bind_eq_some_iff.mp hled
  obtain ⟨hmem, rfl⟩ := flight?_mem hf
  obtain ⟨g, hg, hdigest, hleader, hgled⟩ := (h.led request f.digest).mp hd
  obtain rfl := h.eq_of_digest hg hmem hdigest
  exact ⟨hmem, hleader, hgled⟩

/-- A request that has not finished and leads no known flight, leads none. -/
theorem not_leads (h : Consistent spanOf leases s) (hled : s.led? request = none) :
    ∀ f ∈ s.flights, f.leader = request → f.leaderFinished = true := by
  intro f hf hleader
  by_contra hrunning
  have hentry := (h.led request f.digest).mpr ⟨f, hf, rfl, hleader, Or.inl (by simpa using hrunning)⟩
  rw [Restores.led?, hentry, Option.bind_some] at hled
  exact flight?_none hled f hf rfl

/-- Nothing is said of loads. -/
theorem congr (h : Consistent spanOf leases s) (hflights : s'.flights = s.flights) (hleaders : s'.leaders = s.leaders)
    (hfollowers : s'.followers = s.followers) (hfinished : s'.finished = s.finished) :
    Consistent spanOf leases s' := by
  constructor
  · rw [hflights]; exact h.flights
  · rw [hflights]; exact h.digests
  · rw [hflights]; exact h.leaders
  · rw [hflights, hleaders]; exact h.led
  · rw [hfollowers]; exact h.requests
  · rw [hflights, hfollowers]; exact h.waits
  · rw [hflights, hfollowers]; exact h.followed
  · rw [hflights, hfinished]; exact h.finished
  · rw [hflights]; exact h.published

/-! ## Flights that are changed -/

/-- Assignments to flights and the tables with them. -/
theorem map {n : ℕ} (h : Consistent spanOf leases s) (φ : RestoreFlight → RestoreFlight)
    (hflights : s'.flights = s.flights.map φ)
    (hsame : ∀ f ∈ s.flights, (φ f).digest = f.digest ∧ (φ f).leader = f.leader)
    (hsound : ∀ f ∈ s.flights, (φ f).Sound spanOf)
    (hled : ∀ r d, s'.leaders r = some d ↔ ∃ f ∈ s.flights, f.digest = d ∧ f.leader = r ∧ (φ f).Led)
    (hrequests : (s'.followers.map RestoreFollower.request).Nodup)
    (hwaits : ∀ b ∈ s'.followers, ∃ f ∈ s.flights, f.digest = b.flightDigest ∧ b.request ∈ (φ f).followers ∧
      (b.leaseDigest, b.spanTokens) = (φ f).due)
    (hfollowed : ∀ f ∈ s.flights, ∀ r ∈ (φ f).followers, ∃ b ∈ s'.followers, b.request = r ∧ b.flightDigest = f.digest)
    (hfinished : ∀ f ∈ s.flights, (φ f).leaderFinished = true ↔ f.leader ∈ s'.finished)
    (hpublished : (s.flights.map φ).countP (·.lease.isSome) ≤ n) : Consistent spanOf n s' where
  flights := by
    rw [hflights]
    exact List.forall_mem_map.mpr hsound
  digests := by
    have hkept : s.flights.map (RestoreFlight.digest ∘ φ) = s.flights.map RestoreFlight.digest :=
      List.map_congr_left fun f hf => (hsame f hf).1
    rw [hflights, List.map_map, hkept]
    exact h.digests
  leaders := by
    have hkept : s.flights.map (RestoreFlight.leader ∘ φ) = s.flights.map RestoreFlight.leader :=
      List.map_congr_left fun f hf => (hsame f hf).2
    rw [hflights, List.map_map, hkept]
    exact h.leaders
  led r d := by
    rw [hled, hflights]
    constructor
    · rintro ⟨f, hf, rfl, rfl, hφ⟩
      exact ⟨φ f, List.mem_map_of_mem hf, (hsame f hf).1, (hsame f hf).2, hφ⟩
    · rintro ⟨g, hg, hdigest, hleader, hφ⟩
      obtain ⟨f, hf, rfl⟩ := List.mem_map.mp hg
      exact ⟨f, hf, (hsame f hf).1.symm.trans hdigest, (hsame f hf).2.symm.trans hleader, hφ⟩
  requests := hrequests
  waits b hb := by
    obtain ⟨f, hf, hdigest, hmem, hdue⟩ := hwaits b hb
    rw [hflights]
    exact ⟨φ f, List.mem_map_of_mem hf, (hsame f hf).1.trans hdigest, hmem, hdue⟩
  followed g hg r hr := by
    rw [hflights] at hg
    obtain ⟨f, hf, rfl⟩ := List.mem_map.mp hg
    rw [(hsame f hf).1]
    exact hfollowed f hf r hr
  finished g hg := by
    rw [hflights] at hg
    obtain ⟨f, hf, rfl⟩ := List.mem_map.mp hg
    rw [(hsame f hf).2]
    exact hfinished f hf
  published := by
    rw [hflights]
    exact hpublished

/-- Leaders and leases stay. -/
theorem change (h : Consistent spanOf leases s) (φ : RestoreFlight → RestoreFlight)
    (hflights : s'.flights = s.flights.map φ) (hleaders : s'.leaders = s.leaders) (hfinished : s'.finished = s.finished)
    (hkeeps : ∀ f ∈ s.flights, f.Keeps (φ f)) (hsound : ∀ f ∈ s.flights, (φ f).Sound spanOf)
    (hrequests : (s'.followers.map RestoreFollower.request).Nodup)
    (hwaits : ∀ b ∈ s'.followers, ∃ f ∈ s.flights, f.digest = b.flightDigest ∧ b.request ∈ (φ f).followers ∧
      (b.leaseDigest, b.spanTokens) = (φ f).due)
    (hfollowed : ∀ f ∈ s.flights, ∀ r ∈ (φ f).followers, ∃ b ∈ s'.followers, b.request = r ∧ b.flightDigest = f.digest) :
    Consistent spanOf leases s' := by
  refine h.map φ hflights (fun f hf => ⟨(hkeeps f hf).digest, (hkeeps f hf).leader⟩) hsound (fun r d => ?_) hrequests
    hwaits hfollowed (fun f hf => ?_) ?_
  · rw [hleaders, h.led]
    constructor
    · rintro ⟨f, hf, hdigest, hleader, hled⟩
      exact ⟨f, hf, hdigest, hleader, (hkeeps f hf).led.mpr hled⟩
    · rintro ⟨f, hf, hdigest, hleader, hled⟩
      exact ⟨f, hf, hdigest, hleader, (hkeeps f hf).led.mp hled⟩
  · rw [(hkeeps f hf).leaderFinished, hfinished]
    exact h.finished f hf
  · rw [List.countP_map]
    refine (List.countP_congr fun f hf => ?_).trans_le h.published
    rw [Function.comp_apply, (hkeeps f hf).lease]

/-- An assignment to the flight of a digest that its followers do not notice. -/
theorem flag (h : Consistent spanOf leases s) (g : RestoreFlight → RestoreFlight)
    (hkeeps : ∀ f ∈ s.flights, f.digest = digest → f.Keeps (g f) ∧ (g f).Sound spanOf ∧
      (g f).followers = f.followers ∧ (g f).due = f.due) : Consistent spanOf leases (s.modify digest g) := by
  have hall : ∀ f ∈ s.flights, f.Keeps (if f.digest = digest then g f else f) ∧
      (if f.digest = digest then g f else f).Sound spanOf ∧
      (if f.digest = digest then g f else f).followers = f.followers ∧
      (if f.digest = digest then g f else f).due = f.due := by
    intro f hf
    by_cases hdigest : f.digest = digest
    · rw [if_pos hdigest]
      exact hkeeps f hf hdigest
    · rw [if_neg hdigest]
      exact ⟨⟨rfl, rfl, rfl, rfl⟩, h.flights f hf, rfl, rfl⟩
  refine h.change _ rfl rfl rfl (fun f hf => (hall f hf).1) (fun f hf => (hall f hf).2.1) h.requests (fun b hb => ?_)
    fun f hf r hr => ?_
  · obtain ⟨f, hf, hdigest, hmem, hdue⟩ := h.waits b hb
    refine ⟨f, hf, hdigest, ?_, ?_⟩
    · rw [(hall f hf).2.2.1]
      exact hmem
    · rw [(hall f hf).2.2.2]
      exact hdue
  · rw [(hall f hf).2.2.1] at hr
    exact h.followed f hf r hr

/-! ## Flights that end -/

/-- With its flight go the leader's entry and the entries of all followers. -/
theorem retire (h : Consistent spanOf leases s) (digest : Str) : Consistent spanOf leases (s.retire digest) := by
  unfold Restores.retire
  split
  · exact h
  · rename_i f hfound
    obtain ⟨hf, rfl⟩ := flight?_mem hfound
    have hmem : ∀ g, g ∈ s.flights.filter (·.digest ≠ f.digest) ↔ g ∈ s.flights ∧ g ≠ f := by
      intro g
      rw [List.mem_filter, decide_eq_true_eq]
      refine and_congr_right fun hg => not_congr ⟨fun hsame => h.eq_of_digest hg hf hsame, fun hsame => ?_⟩
      rw [hsame]
    constructor
    · exact fun g hg => h.flights g ((hmem g).mp hg).1
    · exact h.digests.sublist (List.filter_sublist.map _)
    · exact h.leaders.sublist (List.filter_sublist.map _)
    · intro r d
      dsimp only
      by_cases hr : r = f.leader
      · subst hr
        rw [Function.update_self]
        constructor
        · exact fun hnone => absurd hnone (Option.some_ne_none d).symm
        · rintro ⟨g, hg, -, hleader, -⟩
          exact absurd (h.eq_of_leader ((hmem g).mp hg).1 hf hleader) ((hmem g).mp hg).2
      · rw [Function.update_of_ne hr, h.led]
        constructor
        · rintro ⟨g, hg, hdigest, hleader, hled⟩
          refine ⟨g, (hmem g).mpr ⟨hg, fun hsame => hr ?_⟩, hdigest, hleader, hled⟩
          rw [← hleader, hsame]
        · rintro ⟨g, hg, hdigest, hleader, hled⟩
          exact ⟨g, ((hmem g).mp hg).1, hdigest, hleader, hled⟩
    · exact h.requests.sublist (List.filter_sublist.map _)
    · intro b hb
      rw [List.mem_filter, decide_eq_true_eq] at hb
      obtain ⟨g, hg, hdigest, hfollows, hdue⟩ := h.waits b hb.1
      refine ⟨g, (hmem g).mpr ⟨hg, fun hsame => hb.2 ?_⟩, hdigest, hfollows, hdue⟩
      rw [← hsame]
      exact hfollows
    · intro g hg r hr
      obtain ⟨hg, hne⟩ := (hmem g).mp hg
      obtain ⟨b, hb, rfl, hdigest⟩ := h.followed g hg r hr
      refine ⟨b, ?_, rfl, hdigest⟩
      rw [List.mem_filter, decide_eq_true_eq]
      refine ⟨hb, fun hfollows => hne ?_⟩
      obtain ⟨b', hb', hrequest, hdigest'⟩ := h.followed f hf b.request hfollows
      obtain rfl := h.eq_of_request hb' hb hrequest
      exact h.eq_of_digest hg hf (hdigest.symm.trans hdigest')
    · exact fun g hg => h.finished g ((hmem g).mp hg).1
    · exact List.filter_sublist.countP_le.trans h.published

theorem retireAll (h : Consistent spanOf leases s) (retired : List RestoreFlight) :
    Consistent spanOf leases (s.retireAll retired) := by
  induction retired generalizing s with
  | nil => exact h
  | cons f rest ih => exact ih (h.retire f.digest)

/-- What is left of the published leases after the oldest are gone. -/
theorem evict (h : Consistent spanOf leases s) : Consistent spanOf maxSharedLeases s.evict := by
  have hall := h.retireAll (s.published.take (s.published.length - maxSharedLeases))
  refine ⟨hall.flights, hall.digests, hall.leaders, hall.led, hall.requests, hall.waits, hall.followed, hall.finished, ?_⟩
  rw [Restores.evict, retireAll_flights, List.countP_eq_length_filter, List.filter_filter]
  generalize hgone : s.published.take (s.published.length - maxSharedLeases) = gone
  have hperm : s.published.Perm (s.flights.filter (·.lease.isSome)) := List.perm_insertionSort _ _
  have hsplit : gone ++ s.published.drop (s.published.length - maxSharedLeases) = s.published := by
    rw [← hgone, List.take_append_drop]
  have hlast := (hperm.filter fun f => decide (f.digest ∉ gone.map RestoreFlight.digest)).length_eq
  rw [List.filter_filter] at hlast
  have hnone : gone.filter (fun f => decide (f.digest ∉ gone.map RestoreFlight.digest)) = [] := by
    apply List.filter_eq_nil_iff.mpr
    intro f hf
    simpa using ⟨f, hf, rfl⟩
  calc _ = (s.published.filter fun f => decide (f.digest ∉ gone.map RestoreFlight.digest)).length := by
        rw [hlast]
        congr 2
        ext f
        exact Bool.and_comm _ _
    _ = ((s.published.drop (s.published.length - maxSharedLeases)).filter fun f =>
          decide (f.digest ∉ gone.map RestoreFlight.digest)).length := by
        conv_lhs => rw [← hsplit]
        rw [List.filter_append, hnone, List.nil_append]
    _ ≤ (s.published.drop (s.published.length - maxSharedLeases)).length := List.length_filter_le _ _
    _ ≤ maxSharedLeases := by
        rw [List.length_drop]
        omega

/-! ## Followers -/

/-- A request that waits for nothing joins a flight that has room, for the lease that is due. -/
theorem join (h : Consistent spanOf leases s) (hf : f ∈ s.flights) (hfree : ∀ b ∈ s.followers, b.request ≠ request)
    (hroom : f.followers.card < maxFlightFollowers) :
    Consistent spanOf leases (s.join request f.digest f.due) := by
  have hothers : s.followers.filter (·.request ≠ request) = s.followers := by
    apply List.filter_eq_self.mpr
    intro b hb
    simpa using hfree b hb
  have hjoined : (s.join request f.digest f.due).followers =
      s.followers ++ [⟨request, f.digest, f.due.1, f.due.2⟩] := by
    rw [Restores.join, hothers]
  refine h.change (fun g => if g.digest = f.digest then { g with followers := insert request g.followers } else g)
    rfl rfl rfl (fun g _ => ?_) (fun g hg => ?_) ?_ (fun b hb => ?_) fun g hg r hr => ?_
  · split <;> exact ⟨rfl, rfl, rfl, rfl⟩
  · split
    · rename_i hdigest
      obtain rfl := h.eq_of_digest hg hf hdigest
      have hsound := h.flights g hg
      exact ⟨hsound.span, hsound.prefixes, hsound.segment, (Finset.card_insert_le _ _).trans hroom, hsound.lease,
        hsound.workers, hsound.ended⟩
    · exact h.flights g hg
  · rw [hjoined, List.map_append, List.nodup_append]
    refine ⟨h.requests, List.nodup_singleton _, fun r hr r' hr' => ?_⟩
    obtain ⟨b, hb, rfl⟩ := List.mem_map.mp hr
    rw [List.map_singleton, List.mem_singleton] at hr'
    rw [hr']
    exact hfree b hb
  · rw [hjoined] at hb
    rcases List.mem_append.mp hb with hold | hnew
    · obtain ⟨g, hg, hdigest, hfollows, hdue⟩ := h.waits b hold
      refine ⟨g, hg, hdigest, ?_, ?_⟩
      · split
        · exact Finset.mem_insert_of_mem hfollows
        · exact hfollows
      · split <;> exact hdue
    · obtain rfl := List.mem_singleton.mp hnew
      refine ⟨f, hf, rfl, ?_, ?_⟩
      · rw [if_pos rfl]
        exact Finset.mem_insert_self _ _
      · rw [if_pos rfl]
        rfl
  · rw [hjoined]
    by_cases hdigest : g.digest = f.digest
    · rw [if_pos hdigest] at hr
      rcases Finset.mem_insert.mp hr with rfl | hold
      · exact ⟨_, List.mem_append_right _ (List.mem_singleton_self _), rfl, hdigest.symm⟩
      · obtain ⟨b, hb, hrequest, hflight⟩ := h.followed g hg r hold
        exact ⟨b, List.mem_append_left _ hb, hrequest, hflight⟩
    · rw [if_neg hdigest] at hr
      obtain ⟨b, hb, hrequest, hflight⟩ := h.followed g hg r hr
      exact ⟨b, List.mem_append_left _ hb, hrequest, hflight⟩

end Consistent

end SparkCache.SharedRestore
