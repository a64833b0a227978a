import SparkCache.SharedRestore.Runs

/-!
# Restores that are being written

While the workers write the blocks of a restore, its root stays reserved. The
flight goes only when the workers report on its root, when the lease of its leader is
rejected or when a request gives up an offer of the root; neither a lookup nor
the end of the leader starts a second restore of the root before.
-/
namespace SparkCache.SharedRestore

/-- The workers write for a leader. -/
def RestoreFlight.Written (leader : Str) (f : RestoreFlight) : Prop :=
  f.leader = leader ∧ f.dispatched = true ∧ f.workersFinished = false ∧ f.lease = none

/-- The restore of a digest is being written for a leader, and there is no other. -/
structure Writing (digest leader : Str) (s : Restores) : Prop where
  found : ∃ f ∈ s.flights, f.digest = digest
  written : ∀ f ∈ s.flights, f.digest = digest → f.Written leader
  led : ∀ request, s.leaders request = some digest → request = leader

/-- Nothing ends the restore of a digest: no report on its leader or on its blocks, no rejected lease of
its leader, and no request that was offered the digest and loads nothing. A report of invalid blocks
ends it by digest, so those of the other loads that were admitted for the digest count as well. -/
def Quiet (digest leader : Str) (s : Restores) : Callback → Prop
  | .leaseRejected request _ => request ≠ leader
  | .afterAlloc request _ _ external =>
      external = false → ∀ load, s.needLoad.lookup request = some load → load.1 ≠ digest
  | .output invalid received => leader ∉ received ∧
      (∀ f ∈ s.flights, f.digest = digest → ¬(f.restoredBlockIds ∩ invalid).Nonempty) ∧
      ∀ e ∈ s.admitted.entries, e.2.1 = digest → ¬(e.2.2 ∩ invalid).Nonempty
  | _ => True

theorem led?_found {s : Restores} {request : Str} {f : RestoreFlight} (h : s.led? request = some f) :
    f ∈ s.flights ∧ s.leaders request = some f.digest := by
  obtain ⟨d, hd, hf⟩ := Option.bind_eq_some_iff.mp h
  obtain ⟨hmem, rfl⟩ := flight?_mem hf
  exact ⟨hmem, hd⟩

@[simp] theorem retire_needLoad (s : Restores) (digest : Str) : (s.retire digest).needLoad = s.needLoad := by
  unfold Restores.retire
  split <;> rfl

@[simp] theorem removeFollower_needLoad (s : Restores) (request : Str) :
    (s.removeFollower request).needLoad = s.needLoad := by
  unfold Restores.removeFollower
  split <;> rfl

@[simp] theorem rejectScope_needLoad (s : Restores) (request : Str) :
    (s.rejectScope request).needLoad = s.needLoad := by
  unfold Restores.rejectScope
  dsimp only
  split
  · exact removeFollower_needLoad s request
  · split
    · exact removeFollower_needLoad s request
    · exact (retire_needLoad _ _).trans (removeFollower_needLoad s request)

theorem retire_subset (s : Restores) (digest : Str) : (s.retire digest).flights ⊆ s.flights := by
  rw [retire_flights]
  exact List.filter_subset_self _

namespace Writing
variable {digest leader : Str} {s s' : Restores}

/-- Another flight is meant where this one would be written no more. -/
theorem other (h : Writing digest leader s) {f : RestoreFlight} (hf : f ∈ s.flights) (hnot : ¬f.Written leader) :
    f.digest ≠ digest :=
  fun hdigest => hnot (h.written f hf hdigest)

theorem congr (h : Writing digest leader s) (hflights : s'.flights = s.flights) (hleaders : s'.leaders = s.leaders) :
    Writing digest leader s' := by
  refine ⟨?_, ?_, ?_⟩
  · rw [hflights]
    exact h.found
  · rw [hflights]
    exact h.written
  · rw [hleaders]
    exact h.led

theorem map (h : Writing digest leader s) (φ : RestoreFlight → RestoreFlight) (hflights : s'.flights = s.flights.map φ)
    (hleaders : ∀ request, s'.leaders request = some digest → s.leaders request = some digest)
    (hkeeps : ∀ f ∈ s.flights, (φ f).digest = f.digest ∧ (f.digest = digest → f.Written leader → (φ f).Written leader)) :
    Writing digest leader s' := by
  refine ⟨?_, fun g hg hdigest => ?_, fun request hrequest => h.led request (hleaders request hrequest)⟩
  · obtain ⟨f, hf, hdigest⟩ := h.found
    rw [hflights]
    exact ⟨φ f, List.mem_map_of_mem hf, (hkeeps f hf).1.trans hdigest⟩
  · rw [hflights] at hg
    obtain ⟨f, hf, rfl⟩ := List.mem_map.mp hg
    have hsame := (hkeeps f hf).1.symm.trans hdigest
    exact (hkeeps f hf).2 hsame (h.written f hf hsame)

theorem retire (h : Writing digest leader s) {other : Str} (hne : other ≠ digest) :
    Writing digest leader (s.retire other) := by
  refine ⟨?_, fun f hf => h.written f (retire_subset s other hf), fun request hrequest => ?_⟩
  · obtain ⟨f, hf, hdigest⟩ := h.found
    rw [retire_flights]
    refine ⟨f, List.mem_filter.mpr ⟨hf, decide_eq_true fun hsame => ?_⟩, hdigest⟩
    exact hne (hsame.symm.trans hdigest)
  · unfold Restores.retire at hrequest
    split at hrequest
    · exact h.led request hrequest
    · rename_i f _
      dsimp only at hrequest
      by_cases hsame : request = f.leader
      · rw [hsame, Function.update_self] at hrequest
        exact absurd hrequest (Option.some_ne_none digest).symm
      · rw [Function.update_of_ne hsame] at hrequest
        exact h.led request hrequest

theorem retireAll (h : Writing digest leader s) {retired : List RestoreFlight}
    (hne : ∀ f ∈ retired, f.digest ≠ digest) : Writing digest leader (s.retireAll retired) := by
  induction retired generalizing s with
  | nil => exact h
  | cons f rest ih =>
      rw [List.forall_mem_cons] at hne
      exact ih (h.retire hne.1) hne.2

theorem removeFollower (h : Writing digest leader s) (request : Str) :
    Writing digest leader (s.removeFollower request) := by
  unfold Restores.removeFollower
  split
  · exact h
  · rename_i b _
    refine h.map (fun f => if f.digest = b.flightDigest then Restores.leave f b _ else f) rfl (fun _ => id) fun f _ => ?_
    split <;> exact ⟨rfl, fun _ hw => hw⟩

theorem rejectScope (h : Writing digest leader s) (request : Str) : Writing digest leader (s.rejectScope request) := by
  have hleft := h.removeFollower request
  unfold Restores.rejectScope
  dsimp only
  split
  · exact hleft
  · rename_i f hled
    split
    · exact hleft
    · rename_i hdispatched
      exact hleft.retire (hleft.other (led?_found hled).1 fun hw => hdispatched hw.2.1)

/-! ## Lookups -/

theorem join (h : Writing digest leader s) (request flightDigest : Str) (due : Str × ℕ) :
    Writing digest leader (s.join request flightDigest due) := by
  refine h.map (fun f => if f.digest = flightDigest then { f with followers := insert request f.followers } else f)
    rfl (fun _ => id) fun f _ => ?_
  split <;> exact ⟨rfl, fun _ hw => hw⟩

theorem takeSegment (h : Writing digest leader s) (f : RestoreFlight) (segment : Str × ℕ) :
    Writing digest leader (s.takeSegment f segment) := by
  unfold Restores.takeSegment
  split
  · exact h
  · refine h.map (fun g => if g.digest = f.digest then { g with segment := some segment } else g) rfl (fun _ => id)
      fun g _ => ?_
    split <;> exact ⟨rfl, fun _ hw => hw⟩

theorem joinSegment (h : Writing digest leader s) {rows : Bool} {request : Str} {candidates : List (ℕ × Str)}
    {selected : Str} (hjoined : s.joinSegment rows request candidates selected = some s') :
    Writing digest leader s' := by
  unfold Restores.joinSegment at hjoined
  split at hjoined
  · split at hjoined
    · cases hjoined
    · split at hjoined
      · cases hjoined
      · obtain rfl := Option.some.inj hjoined
        exact (h.takeSegment _ _).join _ _ _
  · cases hjoined

theorem followerLookup (h : Writing digest leader s) (l : Lookup) : Writing digest leader (s.followerLookup l).1 := by
  unfold Restores.followerLookup
  split
  · exact h
  · split
    · exact h.removeFollower _
    · split
      · exact h
      · exact h.removeFollower _

theorem leaderLookup (h : Writing digest leader s) (l : Lookup) : Writing digest leader (s.leaderLookup l).1 := by
  unfold Restores.leaderLookup
  split
  · exact h
  · rename_i f hled
    have hf := (led?_found hled).1
    split
    · rename_i hdone
      refine h.retire (h.other hf fun hw => ?_)
      exact absurd (hdone.1.symm.trans hw.2.2.1) Bool.false_ne_true.symm
    · split
      · exact h
      · rename_i hundispatched
        split
        · exact h
        · exact (h.retire (h.other hf fun hw => hundispatched (Or.inl hw.2.1))).congr rfl rfl

/-- A flight of another root starts. -/
theorem startFlight (h : Writing digest leader s) (l : Lookup) (candidates : List (ℕ × Str)) {selected : ℕ × Str}
    (hne : selected.2 ≠ digest) : Writing digest leader (s.startFlight l candidates selected) := by
  unfold Restores.startFlight
  refine ⟨?_, fun f hf hdigest => ?_, fun request hrequest => ?_⟩
  · obtain ⟨f, hf, hdigest⟩ := h.found
    exact ⟨f, List.mem_append_left _ hf, hdigest⟩
  · rcases List.mem_append.mp hf with hold | hadded
    · exact h.written f hold hdigest
    · rw [List.mem_singleton.mp hadded] at hdigest
      exact absurd hdigest hne
  · dsimp only at hrequest
    by_cases hsame : request = l.request
    · rw [hsame, Function.update_self] at hrequest
      exact absurd (Option.some.inj hrequest) hne
    · rw [Function.update_of_ne hsame] at hrequest
      exact h.led request hrequest

theorem offer (h : Writing digest leader s) (c : Config) (l : Lookup) (candidates : List (ℕ × Str)) :
    Writing digest leader (s.offer c l candidates).1 := by
  unfold Restores.offer
  split
  · exact h
  · split
    · split
      · exact h
      · exact h.join _ _ _
    · rename_i hnone
      split
      · rename_i joined hjoined
        exact h.joinSegment hjoined
      · split
        · exact h
        · refine h.startFlight l candidates fun hsame => ?_
          obtain ⟨f, hf, hdigest⟩ := h.found
          exact flight?_none hnone f hf (hdigest.trans hsame.symm)

theorem matchedTokens (h : Writing digest leader s) (c : Config) (l : Lookup) :
    Writing digest leader (s.matchedTokens c l).1 := by
  have hfollower := h.followerLookup l
  unfold Restores.matchedTokens
  split
  · exact h.rejectScope _
  · split
    · exact h
    · split
      · rename_i heq
        rw [heq] at hfollower
        exact hfollower
      · rename_i heq
        rw [heq] at hfollower
        have hleader := hfollower.leaderLookup l
        split
        · rename_i heq'
          rw [heq'] at hleader
          exact hleader
        · rename_i heq'
          rw [heq'] at hleader
          split
          · exact hleader
          · split
            · exact hleader
            · exact hleader.offer c l _

/-! ## Leases -/

/-- What is written is not leased yet. -/
theorem unleased (h : Writing digest leader s) {f : RestoreFlight} (hf : f ∈ s.flights) (hlease : f.lease ≠ none) :
    f.digest ≠ digest :=
  h.other hf fun hw => hlease hw.2.2.2

theorem leaseCandidate (h : Writing digest leader s) (request : Str) (inScope enabled : Bool)
    (candidates : Option (List (ℕ × Str))) (now : ℚ) :
    Writing digest leader (s.leaseCandidate request inScope enabled candidates now).1 := by
  have hexpired : Writing digest leader (s.expire now) := by
    refine h.retireAll fun f hf => h.unleased (List.mem_of_mem_filter hf) fun hnone => ?_
    have hold := List.of_mem_filter hf
    rw [hnone] at hold
    exact Bool.false_ne_true hold
  unfold Restores.leaseCandidate
  split
  · exact h.rejectScope _
  · split
    · exact h
    · dsimp only
      split
      · split <;> exact hexpired
      · split
        · exact hexpired
        · unfold Restores.joinLease
          split
          · exact hexpired
          · split
            · exact hexpired
            · exact hexpired.join _ _ _

theorem leasePublished (h : Writing digest leader s) (c : Config) (request key : Str) (now : ℚ) :
    Writing digest leader (s.leasePublished c request key now) := by
  unfold Restores.leasePublished
  split
  · exact h
  · rename_i f hled
    split
    · rename_i hdone
      have hne : f.digest ≠ digest := by
        refine h.other (led?_found hled).1 fun hw => ?_
        exact absurd (hdone.1.symm.trans hw.2.2.1) Bool.false_ne_true.symm
      generalize (⟨key, f.due.2, now, now + c.leaseTtl⟩ : Lease) = lease
      have hmodified : Writing digest leader (s.modify f.digest ({ · with lease := some lease })) := by
        refine h.map (fun g => if g.digest = f.digest then { g with lease := some lease } else g) rfl (fun _ => id)
          fun g _ => ?_
        split
        · rename_i hsame
          exact ⟨rfl, fun hdigest => absurd (hsame.symm.trans hdigest) hne⟩
        · exact ⟨rfl, fun _ hw => hw⟩
      refine hmodified.retireAll fun g hg => ?_
      have hpublished := (List.mem_insertionSort _).mp (List.mem_of_mem_take hg)
      refine hmodified.unleased (List.mem_of_mem_filter hpublished) fun hnone => ?_
      have hleased := List.of_mem_filter hpublished
      rw [hnone] at hleased
      exact Bool.false_ne_true hleased
    · exact h

/-- A request that leads another flight. -/
theorem other_led (h : Writing digest leader s) {request : Str} {f : RestoreFlight} (hled : s.led? request = some f)
    (hne : request ≠ leader) : f.digest ≠ digest := by
  intro hdigest
  have hentry := (led?_found hled).2
  rw [hdigest] at hentry
  exact hne (h.led request hentry)

theorem leaseRejected (h : Writing digest leader s) {request : Str} (hne : request ≠ leader) (key : Str) :
    Writing digest leader (s.leaseRejected request key) := by
  unfold Restores.leaseRejected
  dsimp only
  have hleft := h.removeFollower request
  cases hfollower : s.follower? request with
  | none =>
      dsimp only
      split
      · exact h
      · rename_i f hled
        exact h.retire (h.other_led hled hne)
  | some b =>
      dsimp only
      by_cases hkey : b.leaseDigest = key
      · rw [if_pos hkey]
        split
        · exact hleft
        · rename_i f hled
          exact hleft.retire (hleft.other_led hled hne)
      · rw [if_neg hkey]
        split
        · exact h
        · rename_i f hled
          exact h.retire (h.other_led hled hne)

/-! ## Loads -/

theorem afterAlloc (h : Writing digest leader s) (request : Str) (inScope : Bool) (blocks : Finset ℕ) {external : Bool}
    (hquiet : external = false → ∀ load, s.needLoad.lookup request = some load → load.1 ≠ digest) :
    Writing digest leader (s.afterAlloc request inScope blocks external) := by
  have hscope : Writing digest leader (if inScope then s else s.rejectScope request) ∧
      (if inScope then s else s.rejectScope request).needLoad = s.needLoad := by
    split
    · exact ⟨h, rfl⟩
    · exact ⟨h.rejectScope request, rejectScope_needLoad s request⟩
  unfold Restores.afterAlloc
  dsimp only
  generalize (if inScope then s else s.rejectScope request) = t at hscope ⊢
  obtain ⟨ht, hloads⟩ := hscope
  split
  · exact ht
  · rename_i d span hload
    split
    · exact ht.congr rfl rfl
    · rename_i hinternal
      rw [hloads] at hload
      refine retire ?_ (hquiet (Bool.eq_false_of_not_eq_true hinternal) (d, span) hload)
      exact ht.congr rfl rfl

theorem dispatch (h : Writing digest leader s) (load : Str × Str × ℕ × Finset ℕ) :
    Writing digest leader (s.dispatch load) := by
  refine h.map (fun f => if f.digest = load.2.1 then
    (if f.leader = load.1 then { f with restoredBlockIds := load.2.2.2, dispatched := true } else f) else f) rfl
    (fun _ => id) fun f _ => ?_
  split
  · split
    · exact ⟨rfl, fun _ hw => ⟨hw.1, rfl, hw.2.2⟩⟩
    · exact ⟨rfl, fun _ hw => hw⟩
  · exact ⟨rfl, fun _ hw => hw⟩

theorem schedule (h : Writing digest leader s) (r : Scheduled) : Writing digest leader (s.schedule r) := by
  unfold Restores.schedule
  split
  · exact h.rejectScope _
  · split
    · exact h
    · exact h.congr rfl rfl

/-- A loop over calls that keep it. -/
theorem foldl {β : Type*} {g : Restores → β → Restores} (h : Writing digest leader s) (l : List β)
    (hg : ∀ t, Writing digest leader t → ∀ b ∈ l, Writing digest leader (g t b)) :
    Writing digest leader (l.foldl g s) := by
  induction l generalizing s with
  | nil => exact h
  | cons b rest ih =>
      exact ih (hg s h b List.mem_cons_self) fun t ht b' hb' => hg t ht b' (List.mem_cons_of_mem b hb')

theorem buildMeta (h : Writing digest leader s) (scheduled : List Scheduled) :
    Writing digest leader (s.buildMeta scheduled) := by
  refine foldl ?_ scheduled fun t ht r _ => ht.schedule r
  exact (h.foldl _ fun t ht load _ => ht.dispatch load).congr rfl rfl

theorem receive (h : Writing digest leader s) {request : Str} (hne : request ≠ leader) :
    Writing digest leader (s.receive request) := by
  unfold Restores.receive
  split
  · exact h
  · rename_i f hled
    have hother := h.other_led hled hne
    split
    · exact h.retire hother
    · refine h.map (fun g => if g.digest = f.digest then { g with workersFinished := true } else g) rfl (fun _ => id)
        fun g _ => ?_
      split
      · rename_i hsame
        exact ⟨rfl, fun hdigest => absurd (hsame.symm.trans hdigest) hother⟩
      · exact ⟨rfl, fun _ hw => hw⟩

theorem failAdmitted_subset (invalid : Finset ℕ) (s : Restores) (load : Str × Str × Finset ℕ) :
    (s.failAdmitted invalid load).flights ⊆ s.flights := by
  unfold Restores.failAdmitted
  split
  · exact retire_subset s _
  · exact List.Subset.refl _

theorem failAdmitted (h : Writing digest leader s) {invalid : Finset ℕ} {load : Str × Str × Finset ℕ}
    (hvalid : load.2.1 = digest → ¬(load.2.2 ∩ invalid).Nonempty) :
    Writing digest leader (s.failAdmitted invalid load) := by
  unfold Restores.failAdmitted
  split
  · rename_i hinvalid
    exact (h.retire fun hsame => hvalid hsame hinvalid).congr rfl rfl
  · exact h

theorem output (h : Writing digest leader s) {invalid : Finset ℕ} {received : List Str} (hne : leader ∉ received)
    (hvalid : ∀ f ∈ s.flights, f.digest = digest → ¬(f.restoredBlockIds ∩ invalid).Nonempty)
    (hadmitted : ∀ e ∈ s.admitted.entries, e.2.1 = digest → ¬(e.2.2 ∩ invalid).Nonempty) :
    Writing digest leader (s.output invalid received) := by
  have hfail : ∀ (loads : List (Str × Str × Finset ℕ)) (t : Restores), Writing digest leader t → t.flights ⊆ s.flights →
      (∀ load ∈ loads, load.2.1 = digest → ¬(load.2.2 ∩ invalid).Nonempty) →
        Writing digest leader (loads.foldl (Restores.failAdmitted invalid) t) ∧
          (loads.foldl (Restores.failAdmitted invalid) t).flights ⊆ s.flights := by
    intro loads
    induction loads with
    | nil => exact fun t ht hsub _ => ⟨ht, hsub⟩
    | cons load rest ih =>
        intro t ht hsub hloads
        rw [List.forall_mem_cons] at hloads
        exact ih _ (ht.failAdmitted hloads.1) (List.Subset.trans (failAdmitted_subset invalid t load) hsub) hloads.2
  obtain ⟨hfailed, hsub⟩ := hfail (s.admitted.entries.reverse.map fun e => (e.1, e.2)) s h (List.Subset.refl _) <| by
    intro load hload
    obtain ⟨e, he, rfl⟩ := List.mem_map.mp hload
    exact hadmitted e (List.mem_reverse.mp he)
  unfold Restores.output
  dsimp only
  generalize (s.admitted.entries.reverse.map fun e => (e.1, e.2)).foldl (Restores.failAdmitted invalid) s = failed
    at hfailed hsub ⊢
  have hretired : Writing digest leader
      (failed.retireAll (failed.flights.filter fun f => (f.restoredBlockIds ∩ invalid).Nonempty)) := by
    refine hfailed.retireAll fun f hf hdigest => ?_
    have hinvalid := List.of_mem_filter hf
    exact hvalid f (hsub (List.mem_of_mem_filter hf)) hdigest (of_decide_eq_true hinvalid)
  refine hretired.foldl received fun t ht request hrequest => ht.receive fun hsame => hne ?_
  rw [← hsame]
  exact hrequest

/-! ## Finished requests -/

theorem endLeader (h : Writing digest leader s) (d : Str) :
    Writing digest leader (s.modify d ({ · with leaderFinished := true })) := by
  refine h.map (fun f => if f.digest = d then { f with leaderFinished := true } else f) rfl (fun _ => id) fun f _ => ?_
  split <;> exact ⟨rfl, fun _ hw => hw⟩

/-- The flight of a leader that finishes is reserved until the workers report. -/
theorem finishLeader (h : Writing digest leader s) (request : Str) : Writing digest leader (s.finishLeader request) := by
  unfold Restores.finishLeader
  split
  · exact h
  · rename_i f hled
    have hf := (led?_found hled).1
    split
    · rename_i hundispatched
      refine h.retire (h.other hf fun hw => ?_)
      rw [hw.2.1] at hundispatched
      exact Bool.false_ne_true hundispatched
    · split
      · rename_i hleased
        have hended := h.endLeader f.digest
        refine ⟨hended.found, hended.written, fun q hq => ?_⟩
        dsimp only at hq
        by_cases hsame : q = request
        · rw [hsame, Function.update_self] at hq
          exact absurd hq (Option.some_ne_none digest).symm
        · rw [Function.update_of_ne hsame] at hq
          exact hended.led q hq
      · split
        · rename_i hdone
          refine h.retire (h.other hf fun hw => ?_)
          exact absurd (hdone.symm.trans hw.2.2.1) Bool.false_ne_true.symm
        · exact h.endLeader f.digest

theorem requestFinished (h : Writing digest leader s) (request : Str) :
    Writing digest leader (s.requestFinished request) :=
  ((h.removeFollower request).finishLeader request).congr rfl rfl

theorem step (h : Writing digest leader s) (c : Config) (a : Callback) (ha : Quiet digest leader s a) :
    Writing digest leader (SharedRestore.step c s a) := by
  cases a with
  | matchedTokens lookup => exact h.matchedTokens c lookup
  | leaseCandidate request inScope enabled candidates now => exact h.leaseCandidate request _ _ _ _
  | leasePublished request key now => exact h.leasePublished c request key now
  | leaseRejected request key => exact h.leaseRejected ha key
  | afterAlloc request inScope blocks external => exact h.afterAlloc request inScope blocks ha
  | buildMeta scheduled => exact h.buildMeta scheduled
  | output invalid received => exact h.output ha.1 ha.2.1 ha.2.2
  | requestFinished request => exact h.requestFinished request

end Writing

/-- A dispatched flight whose workers have not finished. -/
theorem Consistent.writing {spanOf : Str → ℕ} {leases : ℕ} {s : Restores} (h : Consistent spanOf leases s)
    {f : RestoreFlight} (hf : f ∈ s.flights) (hdispatched : f.dispatched = true) (hworkers : f.workersFinished = false) :
    Writing f.digest f.leader s := by
  refine ⟨⟨f, hf, rfl⟩, fun g hg hdigest => ?_, fun request hrequest => ?_⟩
  · obtain rfl := h.eq_of_digest hg hf hdigest
    refine ⟨rfl, hdispatched, hworkers, ?_⟩
    cases hlease : g.lease with
    | none => rfl
    | some l => exact absurd (((h.flights g hg).lease l hlease).2.symm.trans hworkers) Bool.false_ne_true.symm
  · obtain ⟨g, hg, hdigest, hleader, -⟩ := (h.led request f.digest).mp hrequest
    rw [← hleader, h.eq_of_digest hg hf hdigest]

/-- After any run, a restore that the workers write stays the only one of its root through every run of
callbacks that do not end it: requests look it up, follow it, leave it and finish, its leader too, and
leases are published and expire. -/
theorem writes_reserved (c : Config) (spanOf : Str → ℕ) {before after : List Callback} {f : RestoreFlight}
    (hbefore : Run.Throughout (step c) (Proper spanOf) .initial before)
    (hf : f ∈ (Run.exec (step c) .initial before).flights) (hdispatched : f.dispatched = true)
    (hworkers : f.workersFinished = false)
    (hafter : Run.Throughout (step c) (Quiet f.digest f.leader) (Run.exec (step c) .initial before) after) :
    let s := Run.exec (step c) .initial (before ++ after)
    (∃ g ∈ s.flights, g.digest = f.digest) ∧ ∀ g ∈ s.flights, g.digest = f.digest →
      g.leader = f.leader ∧ g.dispatched = true ∧ g.workersFinished = false ∧ g.lease = none := by
  intro s
  have hstart := (Consistent.run c hbefore).writing hf hdispatched hworkers
  have hwriting : Writing f.digest f.leader s := by
    have hend := hafter.preserves (fun _ a hs ha => hs.step c a ha) hstart
    rw [← Run.exec_append] at hend
    exact hend
  exact ⟨hwriting.found, hwriting.written⟩

/-- The leader of a restore goes away while the workers write, and another request asks for the root. -/
theorem writes_reserved_left : let c : Config := ⟨true, 4, 60⟩
    let before : List Callback := [.matchedTokens (wants "a"), .afterAlloc "a" true {1} true, .buildMeta []]
    let after : List Callback := [.requestFinished "a", .matchedTokens (wants "b"), .output {2} ["b"]]
    let s := Run.exec (step c) .initial (before ++ after)
    (∃ g ∈ s.flights, g.digest = "d") ∧ ∀ g ∈ s.flights, g.digest = "d" →
      g.leader = "a" ∧ g.dispatched = true ∧ g.workersFinished = false ∧ g.lease = none := by
  intro c before after
  let f : RestoreFlight := ⟨"d", 2, "a", ∅, {1}, true, false, false, [], none, none⟩
  have hbefore : Run.Throughout (step c) (Proper fun _ => 2) .initial before :=
    ⟨⟨by decide, wants_named "a"⟩, trivial, trivial, trivial⟩
  have hafter : Run.Throughout (step c) (Quiet f.digest f.leader) (Run.exec (step c) .initial before) after := by
    refine ⟨trivial, trivial, ?_, trivial⟩
    unfold Quiet
    decide
  exact writes_reserved c (fun _ => 2) (f := f) hbefore List.mem_cons_self rfl rfl hafter

end SparkCache.SharedRestore
