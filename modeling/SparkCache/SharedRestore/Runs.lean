import SparkCache.SharedRestore.Consistency

/-!
# Shared restores over whole runs

Every callback keeps the tables consistent, so no request waits for a lease that
nobody will publish, whatever the order of the callbacks is.
-/
namespace SparkCache.SharedRestore
namespace Consistent
variable {spanOf : Str → ℕ} {leases : ℕ} {s s' : Restores} {request digest : Str} {f : RestoreFlight}

/-! ## Followers that leave -/

theorem leave_keeps (f : RestoreFlight) (b : RestoreFollower) (needed : Bool) : f.Keeps (Restores.leave f b needed) :=
  ⟨rfl, rfl, rfl, rfl⟩

theorem leave_sound (h : f.Sound spanOf) (b : RestoreFollower) (needed : Bool) :
    (Restores.leave f b needed).Sound spanOf := by
  refine ⟨h.span, h.prefixes, fun p hp => ?_, (Finset.card_erase_le).trans h.bounded, fun l hl => ?_, h.workers, h.ended⟩
  · dsimp only [Restores.leave] at hp
    split at hp
    · cases hp
    · exact h.segment p hp
  · have hlease : f.lease = some l := hl
    have hdue : (Restores.leave f b needed).due = f.due := by
      simp [RestoreFlight.due, Restores.leave, hlease]
    rw [hdue]
    exact h.lease l hlease

/-- The lease that is due changes only when nobody else waits for it. -/
theorem leave_due (f : RestoreFlight) (b : RestoreFollower) : (Restores.leave f b true).due = f.due := by
  simp [RestoreFlight.due, Restores.leave]

theorem removeFollower (h : Consistent spanOf leases s) (request : Str) :
    Consistent spanOf leases (s.removeFollower request) := by
  unfold Restores.removeFollower
  split
  · exact h
  · rename_i b hfound
    obtain ⟨hb, rfl⟩ := follower?_mem hfound
    dsimp only
    generalize hneeded : ((s.followers.filter (·.request ≠ b.request)).any fun other =>
      other.flightDigest = b.flightDigest && other.leaseDigest = b.leaseDigest) = needed
    have hmem : ∀ b', b' ∈ s.followers.filter (·.request ≠ b.request) ↔ b' ∈ s.followers ∧ b'.request ≠ b.request := by
      intro b'
      rw [List.mem_filter, decide_eq_true_eq]
    refine h.change (fun g => if g.digest = b.flightDigest then Restores.leave g b needed else g) rfl rfl rfl
      (fun g _ => ?_) (fun g hg => ?_) (h.requests.sublist (List.filter_sublist.map _)) (fun b' hb' => ?_)
      fun g hg r hr => ?_
    · split
      · exact leave_keeps g b needed
      · exact ⟨rfl, rfl, rfl, rfl⟩
    · split
      · exact leave_sound (h.flights g hg) b needed
      · exact h.flights g hg
    · obtain ⟨hold, hne⟩ := (hmem b').mp hb'
      obtain ⟨g, hg, hdigest, hfollows, hdue⟩ := h.waits b' hold
      refine ⟨g, hg, hdigest, ?_⟩
      by_cases hflight : g.digest = b.flightDigest
      · rw [if_pos hflight]
        -- The other follower waits for the same lease.
        obtain ⟨g', hg', hdigest', -, hdue'⟩ := h.waits b hb
        obtain rfl := h.eq_of_digest hg' hg (hdigest'.trans hflight.symm)
        have hlease : b'.leaseDigest = b.leaseDigest := congrArg Prod.fst (hdue.trans hdue'.symm)
        obtain rfl : needed = true := by
          rw [← hneeded, List.any_eq_true]
          exact ⟨b', hb', by simp [hlease, ← hdigest, hflight]⟩
        rw [leave_due]
        exact ⟨Finset.mem_erase.mpr ⟨hne, hfollows⟩, hdue⟩
      · rw [if_neg hflight]
        exact ⟨hfollows, hdue⟩
    · by_cases hflight : g.digest = b.flightDigest
      · rw [if_pos hflight] at hr
        obtain ⟨hne, hfollows⟩ := Finset.mem_erase.mp hr
        obtain ⟨b', hb', rfl, hdigest⟩ := h.followed g hg r hfollows
        exact ⟨b', (hmem b').mpr ⟨hb', hne⟩, rfl, hdigest⟩
      · rw [if_neg hflight] at hr
        obtain ⟨b', hb', rfl, hdigest⟩ := h.followed g hg r hr
        refine ⟨b', (hmem b').mpr ⟨hb', fun hsame => hflight ?_⟩, rfl, hdigest⟩
        rw [← h.eq_of_request hb' hb hsame]
        exact hdigest.symm

/-- A request that has left waits for nothing. -/
theorem removeFollower_free (s : Restores) (request : Str) :
    ∀ b ∈ (s.removeFollower request).followers, b.request ≠ request := by
  intro b hb
  unfold Restores.removeFollower at hb
  split at hb
  · rename_i hnone
    exact follower?_none hnone b hb
  · rw [List.mem_filter, decide_eq_true_eq] at hb
    exact hb.2

@[simp] theorem removeFollower_finished (s : Restores) (request : Str) :
    (s.removeFollower request).finished = s.finished := by
  unfold Restores.removeFollower
  split <;> rfl

theorem rejectScope (h : Consistent spanOf leases s) (request : Str) :
    Consistent spanOf leases (s.rejectScope request) := by
  have hleft := h.removeFollower request
  unfold Restores.rejectScope
  dsimp only
  split
  · exact hleft
  · split
    · exact hleft
    · exact hleft.retire _

/-! ## Segments -/

/-- Whoever follows a flight that takes a segment, waits for the segment. -/
theorem takeSegment (h : Consistent spanOf leases s) (hf : f ∈ s.flights) (hlease : f.lease = none)
    {segment : Str × ℕ} (hspan : segment.2 = spanOf segment.1) :
    Consistent spanOf leases (s.takeSegment f segment) := by
  unfold Restores.takeSegment
  split
  · exact h
  · refine h.change (fun g => if g.digest = f.digest then { g with segment := some segment } else g) rfl rfl rfl
      (fun g _ => ?_) (fun g hg => ?_) ?_ (fun b' hb' => ?_) fun g hg r hr => ?_
    · split <;> exact ⟨rfl, rfl, rfl, rfl⟩
    · split
      · rename_i hdigest
        obtain rfl := h.eq_of_digest hg hf hdigest
        have hsound := h.flights g hg
        refine ⟨hsound.span, hsound.prefixes, fun p hp => ?_, hsound.bounded, fun l hl => ?_, hsound.workers, hsound.ended⟩
        · obtain rfl := Option.some.inj hp
          exact hspan
        · rw [hlease] at hl
          cases hl
      · exact h.flights g hg
    · have hsame : (s.followers.map fun b : RestoreFollower =>
          if b.flightDigest = f.digest then ⟨b.request, f.digest, segment.1, segment.2⟩ else b).map
            RestoreFollower.request = s.followers.map RestoreFollower.request := by
        rw [List.map_map]
        apply List.map_congr_left
        intro b _
        rw [Function.comp_apply]
        split <;> rfl
      exact hsame ▸ h.requests
    · obtain ⟨b, hb, rfl⟩ := List.mem_map.mp hb'
      obtain ⟨g, hg, hdigest, hfollows, hdue⟩ := h.waits b hb
      refine ⟨g, hg, ?_⟩
      by_cases hflight : b.flightDigest = f.digest
      · rw [if_pos hflight, if_pos (hdigest.trans hflight)]
        exact ⟨hdigest.trans hflight, hfollows, rfl⟩
      · rw [if_neg hflight, if_neg fun hsame => hflight (hdigest.symm.trans hsame)]
        exact ⟨hdigest, hfollows, hdue⟩
    · have hfollows : r ∈ g.followers := by
        split at hr <;> exact hr
      obtain ⟨b, hb, rfl, hdigest⟩ := h.followed g hg r hfollows
      refine ⟨_, List.mem_map_of_mem hb, ?_⟩
      split
      · rename_i hflight
        exact ⟨rfl, hflight.symm.trans hdigest⟩
      · exact ⟨rfl, hdigest⟩

/-- The flight that a segment was taken for, afterwards. -/
theorem takeSegment_flight (hf : f ∈ s.flights) {segment : Str × ℕ}
    (hsegment : f.segment = none ∨ f.segment = some segment) :
    ∃ g ∈ (s.takeSegment f segment).flights, g.digest = f.digest ∧ g.followers = f.followers ∧ g.due = segment := by
  unfold Restores.takeSegment
  obtain hnone | hsome := hsegment
  · rw [hnone, Option.isSome_none, if_neg (by simp)]
    refine ⟨{ f with segment := some segment }, ?_, rfl, rfl, rfl⟩
    apply List.mem_map.mpr
    exact ⟨f, hf, if_pos rfl⟩
  · rw [hsome, Option.isSome_some, if_pos rfl]
    exact ⟨f, hf, rfl, rfl, by rw [RestoreFlight.due, hsome]; rfl⟩

theorem takeSegment_free (hfree : ∀ b ∈ s.followers, b.request ≠ request) (segment : Str × ℕ) :
    ∀ b ∈ (s.takeSegment f segment).followers, b.request ≠ request := by
  unfold Restores.takeSegment
  split
  · exact hfree
  · intro b' hb'
    obtain ⟨b, hb, rfl⟩ := List.mem_map.mp hb'
    split <;> exact hfree b hb

/-- What a match of a segment says. -/
theorem segmentMatches_spec (h : Consistent spanOf leases s) {candidates : List (ℕ × Str)} {selected : Str}
    {found : ℕ × RestoreFlight × Str} (hfound : found ∈ s.segmentMatches candidates selected) :
    found.2.1 ∈ s.flights ∧ found.2.1.dispatched = false ∧ found.1 = spanOf found.2.2 ∧
      (found.2.1.segment = none ∨ found.2.1.segment = some (found.2.2, found.1)) := by
  obtain ⟨f, hf, hmatch⟩ := List.mem_filterMap.mp hfound
  split at hmatch
  · cases hmatch
  · rename_i hopen
    obtain ⟨p, hp, rfl⟩ := Option.map_eq_some_iff.mp hmatch
    have hprefix := (h.flights f hf).prefixes p (List.mem_reverse.mp (List.mem_of_find?_eq_some hp))
    have hallowed := List.find?_some hp
    simp only [decide_eq_true_eq] at hallowed
    refine ⟨hf, ?_, hprefix, ?_⟩
    · simp only [not_or, Bool.not_eq_true] at hopen
      exact hopen.2.2
    · obtain ⟨-, hnone | hsame⟩ := hallowed
      · exact Or.inl (Option.isNone_iff_eq_none.mp hnone)
      · obtain ⟨q, hq, hdigest⟩ := Option.map_eq_some_iff.mp hsame
        right
        rw [hq, hprefix, ← hdigest, ← (h.flights f hf).segment q hq]

theorem not_leased (h : f.Sound spanOf) (hdispatched : f.dispatched = false) : f.lease = none := by
  cases hlease : f.lease with
  | none => rfl
  | some l =>
      have hworkers := h.workers (h.lease l hlease).2
      rw [hdispatched] at hworkers
      cases hworkers

theorem joinSegment (h : Consistent spanOf leases s) (hfree : ∀ b ∈ s.followers, b.request ≠ request) {rows : Bool}
    {candidates : List (ℕ × Str)} {selected : Str}
    (hjoined : s.joinSegment rows request candidates selected = some s') : Consistent spanOf leases s' := by
  unfold Restores.joinSegment at hjoined
  split at hjoined
  · split at hjoined
    · cases hjoined
    · rename_i found hlongest
      obtain ⟨hf, hdispatched, hspan, hsegment⟩ := h.segmentMatches_spec (List.argmax_mem hlongest)
      split at hjoined
      · cases hjoined
      · rename_i hroom
        obtain rfl := Option.some.inj hjoined
        obtain ⟨g, hg, hdigest, hfollowers, hdue⟩ := takeSegment_flight hf hsegment
        have htaken := h.takeSegment hf (not_leased (h.flights _ hf) hdispatched)
          (show (found.2.2, found.1).2 = spanOf (found.2.2, found.1).1 from hspan)
        have hfinal := htaken.join hg (takeSegment_free hfree _) (by rw [hfollowers]; omega)
        rw [hdigest, hdue] at hfinal
        exact hfinal
  · cases hjoined

/-! ## Lookups -/

/-- A new flight, led by a request that leads no other. -/
theorem startFlight (h : Consistent spanOf leases s) {l : Lookup} {candidates : List (ℕ × Str)} {selected : ℕ × Str}
    (hnamed : ∀ p ∈ candidates, p.1 = spanOf p.2) (hselected : selected ∈ candidates)
    (hnew : ∀ f ∈ s.flights, f.digest ≠ selected.2) (hleads : ∀ f ∈ s.flights, f.leader ≠ l.request)
    (hrunning : l.request ∉ s.finished) : Consistent spanOf leases (s.startFlight l candidates selected) := by
  have hstart : (RestoreFlight.start selected.2 selected.1 l.request
      ((candidates.filter fun p => p.1 < selected.1 ∧ l.quorum p.2).drop
        ((candidates.filter fun p => p.1 < selected.1 ∧ l.quorum p.2).length - maxShareablePrefixes))).Sound spanOf := by
    refine RestoreFlight.start_sound (hnamed _ hselected) fun p hp => hnamed p ?_
    exact List.mem_of_mem_filter (List.mem_of_mem_drop hp)
  unfold Restores.startFlight
  dsimp only
  generalize (candidates.filter fun p => p.1 < selected.1 ∧ l.quorum p.2).drop _ = prefixes at hstart ⊢
  constructor
  · intro f hf
    rcases List.mem_append.mp hf with hold | hadded
    · exact h.flights f hold
    · rw [List.mem_singleton.mp hadded]
      exact hstart
  · rw [List.map_append, List.nodup_append]
    refine ⟨h.digests, List.nodup_singleton _, fun d hd d' hd' => ?_⟩
    obtain ⟨f, hf, rfl⟩ := List.mem_map.mp hd
    rw [List.map_singleton, List.mem_singleton] at hd'
    rw [hd']
    exact hnew f hf
  · rw [List.map_append, List.nodup_append]
    refine ⟨h.leaders, List.nodup_singleton _, fun r hr r' hr' => ?_⟩
    obtain ⟨f, hf, rfl⟩ := List.mem_map.mp hr
    rw [List.map_singleton, List.mem_singleton] at hr'
    rw [hr']
    exact hleads f hf
  · intro r d
    dsimp only
    by_cases hr : r = l.request
    · subst hr
      rw [Function.update_self]
      constructor
      · intro hd
        obtain rfl := Option.some.inj hd
        exact ⟨_, List.mem_append_right _ (List.mem_singleton_self _), rfl, rfl, Or.inl rfl⟩
      · rintro ⟨f, hf, rfl, hleader, -⟩
        rcases List.mem_append.mp hf with hold | hadded
        · exact absurd hleader (hleads f hold)
        · rw [List.mem_singleton.mp hadded]
          rfl
    · rw [Function.update_of_ne hr, h.led]
      constructor
      · rintro ⟨f, hf, hfacts⟩
        exact ⟨f, List.mem_append_left _ hf, hfacts⟩
      · rintro ⟨f, hf, hdigest, hleader, hled⟩
        rcases List.mem_append.mp hf with hold | hadded
        · exact ⟨f, hold, hdigest, hleader, hled⟩
        · rw [List.mem_singleton.mp hadded] at hleader
          exact absurd hleader.symm hr
  · exact h.requests
  · intro b hb
    obtain ⟨f, hf, hfacts⟩ := h.waits b hb
    exact ⟨f, List.mem_append_left _ hf, hfacts⟩
  · intro f hf r hr
    rcases List.mem_append.mp hf with hold | hadded
    · exact h.followed f hold r hr
    · rw [List.mem_singleton.mp hadded] at hr
      exact absurd hr (Finset.notMem_empty r)
  · intro f hf
    rcases List.mem_append.mp hf with hold | hadded
    · exact h.finished f hold
    · rw [List.mem_singleton.mp hadded]
      exact ⟨fun hended => absurd hended Bool.false_ne_true, fun hfinished => absurd hfinished hrunning⟩
  · rw [List.countP_append]
    exact h.published

/-- A lookup that goes on, goes on with a request that waits for nothing. -/
theorem followerLookup (h : Consistent spanOf leases s) (l : Lookup) :
    Consistent spanOf leases (s.followerLookup l).1 ∧ (s.followerLookup l).1.finished = s.finished ∧
      ((s.followerLookup l).2 = none → ∀ b ∈ (s.followerLookup l).1.followers, b.request ≠ l.request) := by
  unfold Restores.followerLookup
  split
  · rename_i hnone
    exact ⟨h, rfl, fun _ => follower?_none hnone⟩
  · split
    · exact ⟨h.removeFollower _, removeFollower_finished s _, fun hgo => absurd hgo (Option.some_ne_none _)⟩
    · split
      · exact ⟨h, rfl, fun hgo => absurd hgo (Option.some_ne_none _)⟩
      · exact ⟨h.removeFollower _, removeFollower_finished s _, fun _ => removeFollower_free s _⟩

theorem retire_free (hfree : ∀ b ∈ s.followers, b.request ≠ request) (digest : Str) :
    ∀ b ∈ (s.retire digest).followers, b.request ≠ request := by
  unfold Restores.retire
  split
  · exact hfree
  · exact fun b hb => hfree b (List.mem_of_mem_filter hb)

/-- A lookup that goes on, goes on with a request that leads nothing. -/
theorem leaderLookup (h : Consistent spanOf leases s) {l : Lookup} (hrunning : l.request ∉ s.finished)
    (hfree : ∀ b ∈ s.followers, b.request ≠ l.request) :
    Consistent spanOf leases (s.leaderLookup l).1 ∧ ((s.leaderLookup l).2 = none →
      (s.leaderLookup l).1.finished = s.finished ∧ (∀ f ∈ (s.leaderLookup l).1.flights, f.leader ≠ l.request) ∧
        ∀ b ∈ (s.leaderLookup l).1.followers, b.request ≠ l.request) := by
  unfold Restores.leaderLookup
  split
  · rename_i hnone
    refine ⟨h, fun _ => ⟨rfl, fun f hf hleader => hrunning ?_, hfree⟩⟩
    rw [← hleader]
    exact (h.finished f hf).mp (h.not_leads hnone f hf hleader)
  · rename_i f hled
    obtain ⟨hf, hleader, -⟩ := h.led?_mem hled
    split
    · exact ⟨h.retire _, fun hgo => absurd hgo (Option.some_ne_none _)⟩
    · split
      · exact ⟨h, fun hgo => absurd hgo (Option.some_ne_none _)⟩
      · split
        · exact ⟨h, fun hgo => absurd hgo (Option.some_ne_none _)⟩
        · refine ⟨(h.retire f.digest).congr rfl rfl rfl rfl, fun _ => ⟨retire_finished s _, fun g hg hsame => ?_,
            retire_free hfree f.digest⟩⟩
          have hgone : g ∈ (s.retire f.digest).flights := hg
          rw [retire_flights, List.mem_filter, decide_eq_true_eq] at hgone
          exact hgone.2 (congrArg RestoreFlight.digest (h.eq_of_leader hgone.1 hf (hsame.trans hleader.symm)))

theorem offer (h : Consistent spanOf leases s) (c : Config) {l : Lookup} {candidates : List (ℕ × Str)}
    (hnamed : ∀ p ∈ candidates, p.1 = spanOf p.2) (hrunning : l.request ∉ s.finished)
    (hleads : ∀ f ∈ s.flights, f.leader ≠ l.request) (hfree : ∀ b ∈ s.followers, b.request ≠ l.request) :
    Consistent spanOf leases (s.offer c l candidates).1 := by
  unfold Restores.offer
  split
  · exact h
  · rename_i selected hfound
    have hselected : selected ∈ candidates := List.mem_reverse.mp (List.mem_of_find?_eq_some hfound)
    split
    · rename_i f hflight
      obtain ⟨hf, hdigest⟩ := flight?_mem hflight
      split
      · exact h
      · rename_i hroom
        have hdue : f.segment.getD (f.digest, selected.1) = f.due := by
          rw [RestoreFlight.due, (h.flights f hf).span, hdigest, hnamed selected hselected]
        dsimp only
        rw [hdue]
        exact h.join hf hfree (by omega)
    · rename_i hflight
      split
      · rename_i joined hjoined
        exact h.joinSegment hfree hjoined
      · split
        · exact h
        · exact h.startFlight hnamed hselected (flight?_none hflight) hleads hrunning

theorem matchedTokens (h : Consistent spanOf leases s) (c : Config) {l : Lookup} (hrunning : l.request ∉ s.finished)
    (hnamed : ∀ candidates, l.candidates = some candidates → ∀ p ∈ candidates, p.1 = spanOf p.2) :
    Consistent spanOf leases (s.matchedTokens c l).1 := by
  obtain ⟨hfollower, hfinished, hfree⟩ := h.followerLookup l
  unfold Restores.matchedTokens
  split
  · exact h.rejectScope _
  · split
    · exact h
    · split
      · rename_i heq
        rw [heq] at hfollower
        exact hfollower
      · rename_i s₁ heq
        rw [heq] at hfollower hfinished hfree
        obtain ⟨hleader, hgo⟩ := hfollower.leaderLookup (hfinished ▸ hrunning) (hfree rfl)
        split
        · rename_i heq'
          rw [heq'] at hleader
          exact hleader
        · rename_i s₂ heq'
          rw [heq'] at hleader hgo
          obtain ⟨hfinished', hleads, hfree'⟩ := hgo rfl
          split
          · exact hleader
          · split
            · exact hleader
            · rename_i candidates hcandidates
              refine hleader.offer c (hnamed candidates hcandidates) ?_ hleads hfree'
              rw [hfinished', hfinished]
              exact hrunning

/-! ## Leases -/

theorem publishedLease_spec {candidates : List (ℕ × Str)} {lease : Lease}
    (h : s.publishedLease candidates = some (f, lease)) : f ∈ s.flights ∧ f.lease = some lease := by
  have hleased : ∀ (d : Str) (g : RestoreFlight), g ∈ s.flights →
      (g.lease.bind fun l => if l.digest = d then some (g, l) else none) = some (f, lease) →
        f ∈ s.flights ∧ f.lease = some lease := by
    intro d g hg hbind
    obtain ⟨l, hl, hsome⟩ := Option.bind_eq_some_iff.mp hbind
    split at hsome
    · cases hsome
      exact ⟨hg, hl⟩
    · cases hsome
  unfold Restores.publishedLease at h
  rcases Option.or_eq_some_iff.mp h with hown | ⟨-, hother⟩
  · obtain ⟨p, -, hp⟩ := List.exists_of_findSome?_eq_some hown
    obtain ⟨g, hg, hbind⟩ := Option.bind_eq_some_iff.mp hp
    exact hleased p.2 g (flight?_mem hg).1 hbind
  · obtain ⟨p, -, hp⟩ := List.exists_of_findSome?_eq_some hother
    obtain ⟨g, hg, hbind⟩ := List.exists_of_findSome?_eq_some hp
    exact hleased p.2 g hg hbind

theorem joinLease (h : Consistent spanOf leases s) (hfree : ∀ b ∈ s.followers, b.request ≠ request)
    (candidates : List (ℕ × Str)) : Consistent spanOf leases (s.joinLease request candidates).1 := by
  unfold Restores.joinLease
  split
  · exact h
  · rename_i f lease hlease
    obtain ⟨hf, hsome⟩ := publishedLease_spec hlease
    split
    · exact h
    · rename_i hroom
      dsimp only
      rw [((h.flights f hf).lease lease hsome).1]
      exact h.join hf hfree (by omega)

theorem leaseCandidate (h : Consistent spanOf leases s) (request : Str) (inScope enabled : Bool)
    (candidates : Option (List (ℕ × Str))) (now : ℚ) :
    Consistent spanOf leases (s.leaseCandidate request inScope enabled candidates now).1 := by
  have hexpired : Consistent spanOf leases (s.expire now) := h.retireAll _
  unfold Restores.leaseCandidate
  split
  · exact h.rejectScope _
  · split
    · exact h
    · dsimp only
      split
      · split <;> exact hexpired
      · rename_i hnone
        split
        · exact hexpired
        · exact hexpired.joinLease (follower?_none hnone) _

theorem leasePublished (h : Consistent spanOf maxSharedLeases s) (c : Config) (request key : Str) (now : ℚ) :
    Consistent spanOf maxSharedLeases (s.leasePublished c request key now) := by
  unfold Restores.leasePublished
  split
  · exact h
  · rename_i f hfound
    obtain ⟨hf, hleader, hled⟩ := h.led?_mem hfound
    split
    · rename_i hkey
      -- A leader that has finished does not publish: the workers are done, so its flight would be unleased.
      have hrunning : f.leaderFinished = false := by
        by_contra hended
        have hlease := hled.resolve_left hended
        have hworkers := (h.flights f hf).ended (by simpa using hended) hlease
        rw [hkey.1] at hworkers
        cases hworkers
      generalize hlease : (⟨key, f.due.2, now, now + c.leaseTtl⟩ : Lease) = lease
      have hmodified : Consistent spanOf s.flights.length (s.modify f.digest ({ · with lease := some lease })) := by
        refine h.map (fun g => if g.digest = f.digest then { g with lease := some lease } else g) rfl (fun g _ => ?_)
          (fun g hg => ?_) (fun r d => ?_) h.requests (fun b hb => ?_) (fun g hg r hr => ?_) (fun g hg => ?_)
          (List.countP_le_length.trans_eq (List.length_map _))
        · split <;> exact ⟨rfl, rfl⟩
        · split
          · rename_i hdigest
            obtain rfl := h.eq_of_digest hg hf hdigest
            have hsound := h.flights g hg
            refine ⟨hsound.span, hsound.prefixes, hsound.segment, hsound.bounded, fun l hl => ?_, hsound.workers, ?_⟩
            · obtain rfl := Option.some.inj hl
              rw [← hlease]
              refine ⟨?_, hkey.1⟩
              dsimp only
              rw [hkey.2]
              rfl
            · exact fun _ hnone => absurd hnone (Option.some_ne_none _)
          · exact h.flights g hg
        · rw [Restores.modify, h.led]
          refine exists_congr fun g => and_congr_right fun hg => and_congr_right fun _ => and_congr_right fun _ => ?_
          split
          · rename_i hdigest
            obtain rfl := h.eq_of_digest hg hf hdigest
            exact ⟨fun _ => Or.inl hrunning, fun _ => Or.inl hrunning⟩
          · exact Iff.rfl
        · obtain ⟨g, hg, hdigest, hfollows, hdue⟩ := h.waits b hb
          refine ⟨g, hg, hdigest, ?_⟩
          split <;> exact ⟨hfollows, hdue⟩
        · exact h.followed g hg r (by split at hr <;> exact hr)
        · split <;> exact h.finished g hg
      exact hmodified.evict
    · exact h

theorem leaseRejected (h : Consistent spanOf leases s) (request key : Str) :
    Consistent spanOf leases (s.leaseRejected request key) := by
  unfold Restores.leaseRejected
  dsimp only
  split
  · split
    · exact h
    · split
      · exact h.removeFollower request
      · exact h
  · apply Consistent.retire
    split
    · exact h
    · split
      · exact h.removeFollower request
      · exact h

/-! ## Loads -/

theorem afterAlloc (h : Consistent spanOf leases s) (request : Str) (inScope : Bool) (blocks : Finset ℕ)
    (external : Bool) : Consistent spanOf leases (s.afterAlloc request inScope blocks external) := by
  have hscope : Consistent spanOf leases (if inScope then s else s.rejectScope request) := by
    split
    · exact h
    · exact h.rejectScope request
  unfold Restores.afterAlloc
  dsimp only
  split
  · exact hscope
  · split
    · exact hscope.congr rfl rfl rfl rfl
    · apply Consistent.retire
      exact hscope.congr rfl rfl rfl rfl

theorem dispatch (h : Consistent spanOf leases s) (load : Str × Str × ℕ × Finset ℕ) :
    Consistent spanOf leases (s.dispatch load) := by
  have hmodified : Consistent spanOf leases (s.modify load.2.1 fun f =>
      if f.leader = load.1 then { f with restoredBlockIds := load.2.2.2, dispatched := true } else f) := by
    refine h.flag _ fun f hf _ => ?_
    have hsound := h.flights f hf
    split
    · exact ⟨⟨rfl, rfl, rfl, rfl⟩, ⟨hsound.span, hsound.prefixes, hsound.segment, hsound.bounded, hsound.lease,
        fun _ => rfl, hsound.ended⟩, rfl, rfl⟩
    · exact ⟨⟨rfl, rfl, rfl, rfl⟩, hsound, rfl, rfl⟩
  exact hmodified.congr rfl rfl rfl rfl

theorem schedule (h : Consistent spanOf leases s) (r : Scheduled) : Consistent spanOf leases (s.schedule r) := by
  unfold Restores.schedule
  split
  · exact h.rejectScope _
  · split
    · exact h
    · exact h.congr rfl rfl rfl rfl

theorem buildMeta (h : Consistent spanOf leases s) (scheduled : List Scheduled) :
    Consistent spanOf leases (s.buildMeta scheduled) := by
  have hall : ∀ (loads : List (Str × Str × ℕ × Finset ℕ)) (t : Restores), Consistent spanOf leases t →
      Consistent spanOf leases (loads.foldl Restores.dispatch t) := by
    intro loads
    induction loads with
    | nil => exact fun t ht => ht
    | cons load rest ih => exact fun t ht => ih _ (ht.dispatch load)
  have hscheduled : ∀ (requests : List Scheduled) (t : Restores), Consistent spanOf leases t →
      Consistent spanOf leases (requests.foldl Restores.schedule t) := by
    intro requests
    induction requests with
    | nil => exact fun t ht => ht
    | cons r rest ih => exact fun t ht => ih _ (ht.schedule r)
  exact hscheduled _ _ ((hall _ s h).congr rfl rfl rfl rfl)

/-- The loads of some requests were handed to the workers. -/
def Given (received : List Str) (s : Restores) : Prop :=
  ∀ request ∈ received, ∀ f ∈ s.flights, f.leader = request → f.dispatched = true

theorem Given.retire {received : List Str} (h : Given received s) (digest : Str) : Given received (s.retire digest) := by
  intro request hrequest f hf
  rw [retire_flights] at hf
  exact h request hrequest f (List.mem_of_mem_filter hf)

theorem failAdmitted (h : Consistent spanOf leases s) (invalid : Finset ℕ) (load : Str × Str × Finset ℕ) :
    Consistent spanOf leases (s.failAdmitted invalid load) := by
  unfold Restores.failAdmitted
  split
  · exact (h.retire _).congr rfl rfl rfl rfl
  · exact h

theorem Given.failAdmitted {received : List Str} (h : Given received s) (invalid : Finset ℕ)
    (load : Str × Str × Finset ℕ) : Given received (s.failAdmitted invalid load) := by
  unfold Restores.failAdmitted
  split
  · exact h.retire load.2.1
  · exact h

/-- Workers finish the load of a request that was handed to them. -/
theorem receive (h : Consistent spanOf leases s) (hgiven : ∀ f ∈ s.flights, f.leader = request → f.dispatched = true) :
    Consistent spanOf leases (s.receive request) := by
  unfold Restores.receive
  split
  · exact h
  · rename_i f hled
    obtain ⟨hf, hleader, -⟩ := h.led?_mem hled
    split
    · exact h.retire _
    · rename_i hrunning
      refine h.flag _ fun g hg hdigest => ?_
      obtain rfl := h.eq_of_digest hg hf hdigest
      have hsound := h.flights g hg
      exact ⟨⟨rfl, rfl, rfl, rfl⟩, ⟨hsound.span, hsound.prefixes, hsound.segment, hsound.bounded,
        fun l hl => ⟨(hsound.lease l hl).1, rfl⟩, fun _ => hgiven g hg hleader,
        fun hended => absurd hended hrunning⟩, rfl, rfl⟩

theorem Given.receive {received : List Str} (h : Given received s) (request : Str) :
    Given received (s.receive request) := by
  unfold Restores.receive
  split
  · exact h
  · split
    · exact h.retire _
    · intro r hr g hg
      obtain ⟨f, hf, rfl⟩ := List.mem_map.mp hg
      split <;> exact h r hr f hf

theorem output (h : Consistent spanOf leases s) (invalid : Finset ℕ) {received : List Str} (hgiven : Given received s) :
    Consistent spanOf leases (s.output invalid received) := by
  have hfail : ∀ (loads : List (Str × Str × Finset ℕ)) (t : Restores), Consistent spanOf leases t → Given received t →
      Consistent spanOf leases (loads.foldl (Restores.failAdmitted invalid) t) ∧
        Given received (loads.foldl (Restores.failAdmitted invalid) t) := by
    intro loads
    induction loads with
    | nil => exact fun t ht hg => ⟨ht, hg⟩
    | cons load rest ih => exact fun t ht hg => ih _ (ht.failAdmitted invalid load) (Given.failAdmitted hg invalid load)
  have hreceive : ∀ (requests : List Str) (t : Restores), (∀ r ∈ requests, r ∈ received) → Consistent spanOf leases t →
      Given received t → Consistent spanOf leases (requests.foldl Restores.receive t) := by
    intro requests
    induction requests with
    | nil => exact fun t _ ht _ => ht
    | cons r rest ih =>
        intro t hsub ht hg
        rw [List.forall_mem_cons] at hsub
        exact ih _ hsub.2 (ht.receive (hg r hsub.1)) (Given.receive hg r)
  obtain ⟨hfailed, hgiven'⟩ := hfail (s.admitted.entries.reverse.map fun e => (e.1, e.2)) s h hgiven
  unfold Restores.output
  dsimp only
  generalize (s.admitted.entries.reverse.map fun e => (e.1, e.2)).foldl (Restores.failAdmitted invalid) s = failed at hfailed hgiven' ⊢
  generalize hretired : failed.flights.filter (fun f => decide (f.restoredBlockIds ∩ invalid).Nonempty) = retired
  refine hreceive received _ (fun _ => id) (hfailed.retireAll retired) ?_
  intro r hr f hf
  rw [retireAll_flights] at hf
  exact hgiven' r hr f (List.mem_of_mem_filter hf)

/-! ## Finished requests -/

/-- A request finishes that leads no flight any more, or one that knows it. -/
theorem finish (h : Consistent spanOf leases s) (hended : ∀ f ∈ s.flights, f.leader = request → f.leaderFinished = true) :
    Consistent spanOf leases { s with finished := insert request s.finished } := by
  refine ⟨h.flights, h.digests, h.leaders, h.led, h.requests, h.waits, h.followed, fun f hf => ?_, h.published⟩
  rw [Finset.mem_insert, h.finished f hf]
  refine ⟨Or.inr, fun hmem => ?_⟩
  obtain hleader | hmem := hmem
  · exact (h.finished f hf).mp (hended f hf hleader)
  · exact hmem

/-- The leader of a flight finishes, which goes on while its entry says so. -/
theorem endLeader (h : Consistent spanOf leases s) (hf : f ∈ s.flights) (hended : f.lease = none → f.workersFinished = false)
    (hleaders : ∀ r d, s'.leaders r = some d ↔ ∃ g ∈ s.flights, g.digest = d ∧ g.leader = r ∧ g.Led ∧
      (g.leader = f.leader → f.lease = none))
    (hflights : s'.flights = (s.modify f.digest ({ · with leaderFinished := true })).flights)
    (hfollowers : s'.followers = s.followers) (hfinished : s'.finished = insert f.leader s.finished) :
    Consistent spanOf leases s' := by
  refine h.map (fun g => if g.digest = f.digest then { g with leaderFinished := true } else g) hflights (fun g _ => ?_)
    (fun g hg => ?_) (fun r d => ?_) (hfollowers ▸ h.requests) (fun b hb => ?_) (fun g hg r hr => ?_) (fun g hg => ?_) ?_
  · split <;> exact ⟨rfl, rfl⟩
  · split
    · rename_i hdigest
      obtain rfl := h.eq_of_digest hg hf hdigest
      have hsound := h.flights g hg
      exact ⟨hsound.span, hsound.prefixes, hsound.segment, hsound.bounded, hsound.lease, hsound.workers,
        fun _ => hended⟩
    · exact h.flights g hg
  · rw [hleaders]
    refine exists_congr fun g => and_congr_right fun hg => and_congr_right fun _ => and_congr_right fun _ => ?_
    split
    · rename_i hdigest
      obtain rfl := h.eq_of_digest hg hf hdigest
      constructor
      · exact fun hled => Or.inr (hled.2 rfl)
      · intro hled
        have hnone := hled.resolve_left Bool.false_ne_true.symm
        exact ⟨Or.inr hnone, fun _ => hnone⟩
    · rename_i hdigest
      refine ⟨And.left, fun hled => ⟨hled, fun hleader => absurd ?_ hdigest⟩⟩
      rw [h.eq_of_leader hg hf hleader]
  · rw [hfollowers] at hb
    obtain ⟨g, hg, hdigest, hfollows, hdue⟩ := h.waits b hb
    refine ⟨g, hg, hdigest, ?_⟩
    split <;> exact ⟨hfollows, hdue⟩
  · rw [hfollowers]
    exact h.followed g hg r (by split at hr <;> exact hr)
  · rw [hfinished, Finset.mem_insert]
    split
    · rename_i hdigest
      obtain rfl := h.eq_of_digest hg hf hdigest
      exact ⟨fun _ => Or.inl rfl, fun _ => rfl⟩
    · rename_i hdigest
      rw [h.finished g hg]
      refine ⟨Or.inr, fun hmem => hmem.resolve_left fun hleader => hdigest ?_⟩
      rw [h.eq_of_leader hg hf hleader]
  · rw [List.countP_map]
    refine (List.countP_congr fun g _ => ?_).trans_le h.published
    rw [Function.comp_apply]
    split <;> rfl

theorem finishLeader (h : Consistent spanOf leases s) (request : Str) :
    Consistent spanOf leases { s.finishLeader request with finished := insert request s.finished } := by
  unfold Restores.finishLeader
  split
  · rename_i hnone
    exact h.finish (h.not_leads hnone)
  · rename_i f hfound
    obtain ⟨hf, rfl, hled⟩ := h.led?_mem hfound
    have hretired : Consistent spanOf leases { s.retire f.digest with finished := insert f.leader s.finished } := by
      have hgone : ∀ g ∈ (s.retire f.digest).flights, g.leader = f.leader → g.leaderFinished = true := by
        intro g hg hleader
        rw [retire_flights, List.mem_filter, decide_eq_true_eq] at hg
        exact absurd (congrArg RestoreFlight.digest (h.eq_of_leader hg.1 hf hleader)) hg.2
      rw [← retire_finished s f.digest]
      exact (h.retire f.digest).finish hgone
    split
    · exact hretired
    · split
      · rename_i hlease
        refine h.endLeader hf (fun hnone => ?_) (fun r d => ?_) rfl rfl rfl
        · rw [hnone] at hlease
          cases hlease
        · dsimp only
          by_cases hr : r = f.leader
          · subst hr
            rw [Function.update_self]
            constructor
            · exact fun hnone => absurd hnone (Option.some_ne_none d).symm
            · rintro ⟨g, -, -, hleader, -, hnone⟩
              rw [hnone hleader] at hlease
              cases hlease
          · rw [Function.update_of_ne hr, h.led]
            refine exists_congr fun g => and_congr_right fun _ => and_congr_right fun _ => ?_
            exact ⟨fun hg => ⟨hg.1, hg.2, fun hleader => absurd (hg.1.symm.trans hleader) hr⟩,
              fun hg => ⟨hg.1, hg.2.1⟩⟩
      · split
        · exact hretired
        · rename_i hlease hworkers
          have hnone : f.lease = none := by simpa using hlease
          refine h.endLeader hf (fun _ => by simpa using hworkers) (fun r d => ?_) rfl rfl rfl
          change s.leaders r = some d ↔ _
          rw [h.led]
          refine exists_congr fun g => and_congr_right fun _ => and_congr_right fun _ => and_congr_right fun _ => ?_
          exact ⟨fun hg => ⟨hg, fun _ => hnone⟩, And.left⟩

theorem finishLeader_finished (s : Restores) (request : Str) : (s.finishLeader request).finished = s.finished := by
  unfold Restores.finishLeader
  split
  · rfl
  · split
    · exact retire_finished s _
    · split
      · rfl
      · split
        · exact retire_finished s _
        · rfl

theorem requestFinished (h : Consistent spanOf leases s) (request : Str) :
    Consistent spanOf leases (s.requestFinished request) :=
  ((h.removeFollower request).finishLeader request).congr rfl rfl rfl
    (congrArg (insert request) (finishLeader_finished _ request))

theorem step (h : Consistent spanOf maxSharedLeases s) (c : Config) (a : Callback) (ha : Proper spanOf s a) :
    Consistent spanOf maxSharedLeases (SharedRestore.step c s a) := by
  cases a with
  | matchedTokens lookup => exact h.matchedTokens c ha.1 ha.2
  | leaseCandidate request inScope enabled candidates now => exact h.leaseCandidate request inScope enabled candidates now
  | leasePublished request key now => exact h.leasePublished c request key now
  | leaseRejected request key => exact h.leaseRejected request key
  | afterAlloc request inScope blocks external => exact h.afterAlloc request inScope blocks external
  | buildMeta scheduled => exact h.buildMeta scheduled
  | output invalid received => exact h.output invalid ha
  | requestFinished request => exact h.requestFinished request

end Consistent

/-! ## Whole runs -/

/-- What a request waits for, its flight has published, or will publish through a leader that the
scheduler knows. -/
theorem Consistent.awaited {spanOf : Str → ℕ} {leases : ℕ} {s : Restores} (h : Consistent spanOf leases s)
    {b : RestoreFollower} (hb : b ∈ s.followers) : ∃ f ∈ s.flights, f.digest = b.flightDigest ∧
      b.request ∈ f.followers ∧ ((∃ l, f.lease = some l ∧ l.digest = b.leaseDigest ∧ l.spanTokens = b.spanTokens) ∨
        f.lease = none ∧ f.due = (b.leaseDigest, b.spanTokens) ∧ s.leaders f.leader = some f.digest) := by
  obtain ⟨f, hf, hdigest, hfollows, hdue⟩ := h.waits b hb
  refine ⟨f, hf, hdigest, hfollows, ?_⟩
  cases hlease : f.lease with
  | none => exact Or.inr ⟨rfl, hdue.symm, (h.led _ _).mpr ⟨f, hf, rfl, rfl, Or.inr hlease⟩⟩
  | some l =>
      have hsame := ((h.flights f hf).lease l hlease).1.trans hdue.symm
      exact Or.inl ⟨l, rfl, congrArg Prod.fst hsame, congrArg Prod.snd hsame⟩

theorem Consistent.run (c : Config) {spanOf : Str → ℕ} {callbacks : List Callback}
    (h : Run.Throughout (SharedRestore.step c) (Proper spanOf) .initial callbacks) :
    Consistent spanOf maxSharedLeases (Run.exec (SharedRestore.step c) .initial callbacks) :=
  h.preserves (fun _ a hs ha => hs.step c a ha) (initial_consistent spanOf _)

/-- After any callbacks in any order, the tables of leaders, followers and flights name each other, a
flight has at most sixteen followers and at most two leases are published. No request waits for a
lease that nobody will publish. -/
theorem flights_consistent (c : Config) (spanOf : Str → ℕ) {callbacks : List Callback}
    (h : Run.Throughout (step c) (Proper spanOf) .initial callbacks) :
    let s := Run.exec (step c) .initial callbacks
    Consistent spanOf maxSharedLeases s ∧ ∀ b ∈ s.followers, ∃ f ∈ s.flights, f.digest = b.flightDigest ∧
      b.request ∈ f.followers ∧ ((∃ l, f.lease = some l ∧ l.digest = b.leaseDigest ∧ l.spanTokens = b.spanTokens) ∨
        f.lease = none ∧ f.due = (b.leaseDigest, b.spanTokens) ∧ s.leaders f.leader = some f.digest) := by
  intro s
  have hconsistent : Consistent spanOf maxSharedLeases s := Consistent.run c h
  exact ⟨hconsistent, fun b hb => hconsistent.awaited hb⟩

/-- A request that wants what another restores. -/
def wants (request : Str) : Lookup := ⟨request, 0, true, true, some [(2, "d")], fun _ => true, fun _ => true⟩

theorem wants_named (request : Str) : ∀ candidates, (wants request).candidates = some candidates →
    ∀ p ∈ candidates, p.1 = (fun _ => 2) p.2 := by
  intro candidates hcandidates p hp
  obtain rfl := Option.some.inj hcandidates
  rw [List.mem_singleton.mp hp]

/-- A restore with a follower, whose leader finishes when the lease is published. -/
theorem flights_consistent_shared : let run : List Callback :=
      [.matchedTokens (wants "a"), .matchedTokens (wants "b"), .afterAlloc "a" true {1} true, .buildMeta [],
        .output ∅ ["a"], .leasePublished "a" "d" 5, .requestFinished "a"]
    let s := Run.exec (step ⟨true, 4, 60⟩) .initial run
    Consistent (fun _ => 2) maxSharedLeases s ∧ ∀ b ∈ s.followers, ∃ f ∈ s.flights, f.digest = b.flightDigest ∧
      b.request ∈ f.followers ∧ ((∃ l, f.lease = some l ∧ l.digest = b.leaseDigest ∧ l.spanTokens = b.spanTokens) ∨
        f.lease = none ∧ f.due = (b.leaseDigest, b.spanTokens) ∧ s.leaders f.leader = some f.digest) := by
  refine flights_consistent _ _ ⟨⟨by decide, wants_named "a"⟩, ⟨by decide, wants_named "b"⟩, trivial, trivial, ?_, trivial, trivial, trivial⟩
  unfold Proper
  decide

end SparkCache.SharedRestore
