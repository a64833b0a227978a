import SparkCache.Streaming.Preemption

/-!
# Preempted captures

A capture that a preemption has found is not handed over, and its publication is aborted, when no
preemption comes between the two sections in which a submitted capture becomes pending and leaves the
table of submissions, and no exception of the ring drops it.
-/

namespace SparkCache.Streaming

namespace ProgressPhase

/-- The capture that is in the table of submissions. -/
def submission : ProgressPhase → Option ℕ
  | .check capture _ => some capture
  | .select capture _ => some capture
  | .recheck capture _ => some capture
  | .submitNative capture _ => some capture
  | .drainNative capture _ => some capture
  | .publish capture _ => some capture
  | .leave capture _ => some capture
  | _ => none

/-- The same, before it is pending or aborted. -/
def unpublished : ProgressPhase → Option ℕ
  | .leave _ _ => none
  | phase => phase.submission

/-- The captures that were taken into the completion pass. -/
def ready : ProgressPhase → List ℕ
  | .poll _ ready => ready
  | .take _ _ ready => ready
  | .deliver ready => ready
  | .undo capture ready => capture :: ready
  | _ => []

/-- The pending captures that the pass has still to poll or to take. -/
def polled : ProgressPhase → List ℕ
  | .poll captures _ => captures
  | .take capture captures _ => capture :: captures
  | _ => []

theorem submission_of_unpublished {phase : ProgressPhase} {c : ℕ} (h : phase.unpublished = some c) :
    phase.submission = some c := by
  cases phase <;> first | exact h | cases h

theorem unpublished_of_submission {phase : ProgressPhase} (h : phase.submission = none) : phase.unpublished = none := by
  cases phase <;> first | rfl | cases h

end ProgressPhase

namespace ManagerPageCaptureRuntime

/-- A capture that is in no table. -/
def Away (s : ManagerPageCaptureRuntime) (c : ℕ) : Prop :=
  ∀ r, s.queuedJobs.lookup r ≠ some c ∧ s.submittingJobs.lookup r ≠ some c ∧ s.pending.lookup r ≠ some c

structure Sound (s : ManagerPageCaptureRuntime) : Prop where
  queued : ∀ r c, s.queuedJobs.lookup r = some c → s.requestOf c = r ∧ s.jobOf c ≠ none
  submitting : ∀ r c, s.submittingJobs.lookup r = some c ↔ s.phase.submission = some c ∧ s.requestOf c = r
  submission : ∀ c, s.phase.submission = some c → s.jobOf c ≠ none
  pending : ∀ r c, s.pending.lookup r = some c → s.requestOf c = r ∧ s.captures c ≠ none
  queuedAlone : ∀ r c, s.queuedJobs.lookup r = some c →
    s.submittingJobs.lookup r = none ∧ ∀ d, s.pending.lookup r = some d → s.jobOf d = none
  unpublishedAlone : ∀ c d, s.phase.unpublished = some c → s.pending.lookup (s.requestOf c) = some d → s.jobOf d = none
  leaving : ∀ c, s.phase.submission = some c → s.phase.unpublished = none →
    (c ∈ s.aborted ∨ s.pending.lookup (s.requestOf c) = some c) ∧
      ∀ d, s.pending.lookup (s.requestOf c) = some d → s.jobOf d ≠ none → d = c
  taken : ∀ c, c ∈ s.phase.ready ∨ c ∈ s.handed → s.captures c ≠ none ∧ s.Away c
  polledApart : (s.phase.polled.map s.requestOf).Nodup
  polled : ∀ c ∈ s.phase.polled, s.captures c ≠ none ∧
    (s.jobOf c ≠ none → s.pending.lookup (s.requestOf c) = some c) ∧
    (s.jobOf c = none → ∀ d, s.pending.lookup (s.requestOf c) = some d → s.jobOf d = none)
  allocated : ∀ c, s.allocated ≤ c → s.captures c = none
  unjoined : s.joined = false → s.draining = []

/-- What is known of a capture that a preemption has found. -/
structure Marked (s : ManagerPageCaptureRuntime) (c : ℕ) : Prop where
  job : s.jobOf c ≠ none
  queued : ∀ r, s.queuedJobs.lookup r = some c → c ∈ s.queuedAbandoned
  unpublished : s.phase.unpublished = some c → c ∈ s.queuedAbandoned
  pending : ∀ r, s.pending.lookup r = some c → c ∈ s.pendingAbandoned
  ready : c ∈ s.phase.ready → c ∈ s.pendingAbandoned
  handed : c ∉ s.handed
  kept : c ∈ s.aborted ∨ (∃ r, s.queuedJobs.lookup r = some c) ∨ s.phase.unpublished = some c ∨
    (∃ r, s.pending.lookup r = some c) ∨ c ∈ s.phase.ready ∨ c ∈ s.draining

structure Holds (s : ManagerPageCaptureRuntime) : Prop where
  sound : s.Sound
  marked : ∀ c ∈ s.preempted, s.Marked c

variable {s : ManagerPageCaptureRuntime}

theorem new_holds : new.Holds := by
  refine ⟨⟨?_, ?_, ?_, ?_, ?_, ?_, ?_, ?_, List.nodup_nil, ?_, fun _ _ => rfl, fun _ => rfl⟩, ?_⟩
  all_goals simp [new, ProgressPhase.submission, ProgressPhase.unpublished, ProgressPhase.ready, ProgressPhase.polled]

/-- Only the phase changes, and what it stands for does not, but that less may be left to poll. -/
theorem Holds.enter (h : s.Holds) {phase : ProgressPhase} (hsubmission : phase.submission = s.phase.submission)
    (hunpublished : phase.unpublished = s.phase.unpublished) (hready : phase.ready = s.phase.ready)
    (hpolled : phase.polled.Sublist s.phase.polled) : (s.enter phase).Holds := by
  obtain ⟨hsound, hmarked⟩ := h
  refine ⟨⟨hsound.queued, ?_, ?_, hsound.pending, hsound.queuedAlone, ?_, ?_, ?_, ?_, ?_, hsound.allocated, hsound.unjoined⟩,
    fun c hc => ?_⟩
  · intro r c
    dsimp only [ManagerPageCaptureRuntime.enter]
    rw [hsubmission]
    exact hsound.submitting r c
  · intro c
    dsimp only [ManagerPageCaptureRuntime.enter]
    rw [hsubmission]
    exact hsound.submission c
  · intro c d
    dsimp only [ManagerPageCaptureRuntime.enter]
    rw [hunpublished]
    exact hsound.unpublishedAlone c d
  · intro c
    dsimp only [ManagerPageCaptureRuntime.enter]
    rw [hsubmission, hunpublished]
    exact hsound.leaving c
  · intro c
    dsimp only [ManagerPageCaptureRuntime.enter]
    rw [hready]
    exact hsound.taken c
  · exact hsound.polledApart.sublist (hpolled.map _)
  · exact fun c hc => hsound.polled c (hpolled.subset hc)
  · obtain ⟨hjob, hqueued, hunp, hpending, hrdy, hhanded, hkept⟩ := hmarked c hc
    refine ⟨hjob, hqueued, ?_, hpending, ?_, hhanded, ?_⟩
    · dsimp only [ManagerPageCaptureRuntime.enter]
      rw [hunpublished]
      exact hunp
    · dsimp only [ManagerPageCaptureRuntime.enter]
      rw [hready]
      exact hrdy
    · dsimp only [ManagerPageCaptureRuntime.enter]
      rw [hunpublished, hready]
      exact hkept

/-- Nothing depends on what is known of failures. -/
theorem Holds.fail (h : s.Holds) (fatal : Bool) (failedJobs : Finset CaptureJob) :
    ({ s with fatal := fatal, failedJobs := failedJobs } : ManagerPageCaptureRuntime).Holds := by
  obtain ⟨hsound, hmarked⟩ := h
  refine ⟨⟨hsound.queued, hsound.submitting, hsound.submission, hsound.pending, hsound.queuedAlone,
    hsound.unpublishedAlone, hsound.leaving, hsound.taken, hsound.polledApart, hsound.polled, hsound.allocated, hsound.unjoined⟩,
    fun c hc => ?_⟩
  obtain ⟨hjob, hqueued, hunpublished, hpending, hready, hhanded, hkept⟩ := hmarked c hc
  exact ⟨hjob, hqueued, hunpublished, hpending, hready, hhanded, hkept⟩

/-! ## Submissions -/

/-- A capture in submission is aborted before it is pending. -/
theorem Holds.abortSubmission (h : s.Holds) {c : ℕ} {rest : List String} (hunpublished : s.phase.unpublished = some c)
    (hsubmission : s.phase.submission = some c) (hready : s.phase.ready = []) :
    (s.abortCapture c (.leave c rest)).Holds := by
  obtain ⟨hsound, hmarked⟩ := h
  refine ⟨⟨hsound.queued, fun r d => ?_, fun d hd => ?_, hsound.pending, hsound.queuedAlone, fun _ _ h => (nomatch h),
    fun d hd _ => ?_, fun d hd => ?_, List.nodup_nil, fun _ h => (nomatch h), hsound.allocated, hsound.unjoined⟩, fun d hd => ?_⟩
  · have hiff := hsound.submitting r d
    rw [hsubmission] at hiff
    exact hiff
  · exact hsound.submission d (hsubmission.trans hd)
  · cases hd
    refine ⟨Or.inl (List.mem_append_right _ (List.mem_singleton_self _)), fun e he hjob => ?_⟩
    exact absurd (hsound.unpublishedAlone c e hunpublished he) hjob
  · exact hsound.taken d (Or.inr (hd.resolve_left List.not_mem_nil))
  · obtain ⟨hjob, hqueued, -, hpending, -, hhanded, hkept⟩ := hmarked d hd
    refine ⟨hjob, hqueued, fun h => (nomatch h), hpending, fun h => (nomatch h), hhanded, ?_⟩
    obtain haborted | hqueue | hsame | hpend | htaken | hdraining := hkept
    · exact Or.inl (List.mem_append_left _ haborted)
    · exact Or.inr (Or.inl hqueue)
    · rw [hunpublished, Option.some.injEq] at hsame
      exact Or.inl (List.mem_append_right _ (by rw [hsame]; exact List.mem_singleton_self _))
    · exact Or.inr (Or.inr (Or.inr (Or.inl hpend)))
    · rw [hready] at htaken
      cases htaken
    · exact Or.inr (Or.inr (Or.inr (Or.inr (Or.inr hdraining))))

/-- A queued capture enters submission. -/
theorem Holds.pop (h : s.Holds) {r : String} {c : ℕ} {requests rest : List String}
    (hphase : s.phase = .nextJob requests) (hlookup : s.queuedJobs.lookup r = some c) :
    ({ s with
      queuedJobs := s.queuedJobs.erase r
      submittingJobs := s.submittingJobs.insert r c
      phase := .check c rest } : ManagerPageCaptureRuntime).Holds := by
  obtain ⟨hsound, hmarked⟩ := h
  obtain ⟨hrequest, hjob⟩ := hsound.queued r c hlookup
  obtain ⟨-, halone⟩ := hsound.queuedAlone r c hlookup
  have hempty : ∀ r' d, s.submittingJobs.lookup r' ≠ some d := by
    intro r' d hd
    have hsubmission := ((hsound.submitting r' d).mp hd).1
    rw [hphase] at hsubmission
    cases hsubmission
  refine ⟨⟨?_, ?_, ?_, hsound.pending, ?_, ?_, fun _ _ h => (nomatch h), ?_, List.nodup_nil, fun _ h => (nomatch h),
    hsound.allocated, hsound.unjoined⟩, fun d hd => ?_⟩
  · intro r' d hd
    dsimp only at hd
    rw [AList.lookup_erase_ite] at hd
    split at hd
    · cases hd
    · exact hsound.queued r' d hd
  · intro r' d
    dsimp only
    rw [AList.lookup_insert_ite]
    constructor
    · intro hd
      split at hd
      · rename_i hr
        cases hd
        exact ⟨rfl, hrequest.trans hr.symm⟩
      · exact absurd hd (hempty r' d)
    · rintro ⟨hd, hr⟩
      cases hd
      rw [if_pos (hr.symm.trans hrequest)]
  · intro d hd
    cases hd
    exact hjob
  · intro r' d hd
    dsimp only at hd ⊢
    rw [AList.lookup_erase_ite] at hd
    rw [AList.lookup_insert_ite]
    split at hd
    · cases hd
    · rename_i hne
      rw [if_neg hne]
      exact hsound.queuedAlone r' d hd
  · intro d e hd he
    cases hd
    have hpending : s.pending.lookup (s.requestOf c) = some e := he
    rw [hrequest] at hpending
    exact halone e hpending
  · intro d hd
    obtain ⟨hknown, haway⟩ := hsound.taken d (Or.inr (hd.resolve_left List.not_mem_nil))
    refine ⟨hknown, fun r' => ?_⟩
    dsimp only
    rw [AList.lookup_erase_ite, AList.lookup_insert_ite]
    refine ⟨?_, ?_, (haway r').2.2⟩
    · split
      · exact fun h => (nomatch h)
      · exact (haway r').1
    · split
      · intro heq
        rw [Option.some.injEq] at heq
        rw [heq] at hlookup
        exact (haway r).1 hlookup
      · exact (haway r').2.1
  · obtain ⟨hmark, hqueued, -, hpending, -, hhanded, hkept⟩ := hmarked d hd
    refine ⟨hmark, ?_, ?_, hpending, fun h => (nomatch h), hhanded, ?_⟩
    · intro r' hr'
      dsimp only at hr'
      rw [AList.lookup_erase_ite] at hr'
      split at hr'
      · cases hr'
      · exact hqueued r' hr'
    · intro hsame
      cases hsame
      exact hqueued r hlookup
    · obtain haborted | ⟨r', hqueue⟩ | hsame | hrest := hkept
      · exact Or.inl haborted
      · by_cases hr : r' = r
        · rw [hr, hlookup, Option.some.injEq] at hqueue
          exact Or.inr (Or.inr (Or.inl (by rw [hqueue]; rfl)))
        · refine Or.inr (Or.inl ⟨r', ?_⟩)
          dsimp only
          rw [AList.lookup_erase_ite, if_neg hr]
          exact hqueue
      · rw [hphase] at hsame
        cases hsame
      · rw [hphase] at hrest
        exact Or.inr (Or.inr (Or.inr hrest))

/-- A submitted capture becomes pending, with the mark that it has at that moment. -/
theorem Holds.publish (h : s.Holds) {c : ℕ} {rest : List String} (hphase : s.phase = .publish c rest) :
    ({ s with
      pending := s.pending.insert (s.requestOf c) c
      pendingAbandoned := if c ∈ s.queuedAbandoned then insert c s.pendingAbandoned else s.pendingAbandoned
      phase := .leave c rest } : ManagerPageCaptureRuntime).Holds := by
  obtain ⟨hsound, hmarked⟩ := h
  have hsubmission : s.phase.submission = some c := by rw [hphase]; rfl
  have hunpublished : s.phase.unpublished = some c := by rw [hphase]; rfl
  have hjob := hsound.submission c hsubmission
  have hin := (hsound.submitting (s.requestOf c) c).mpr ⟨hsubmission, rfl⟩
  have hcapture : s.captures c ≠ none := by
    intro hnone
    rw [jobOf, hnone] at hjob
    exact hjob rfl
  have hgrown : s.pendingAbandoned ⊆
      if c ∈ s.queuedAbandoned then insert c s.pendingAbandoned else s.pendingAbandoned := by
    split
    · exact Finset.subset_insert _ _
    · exact Finset.Subset.refl _
  refine ⟨⟨hsound.queued, ?_, ?_, ?_, ?_, fun _ _ h => (nomatch h), ?_, ?_, List.nodup_nil, fun _ h => (nomatch h),
    hsound.allocated, hsound.unjoined⟩, fun d hd => ?_⟩
  · intro r d
    have hiff := hsound.submitting r d
    rw [hsubmission] at hiff
    exact hiff
  · intro d hd
    cases hd
    exact hjob
  · intro r d hd
    dsimp only at hd
    rw [AList.lookup_insert_ite] at hd
    split at hd
    · rename_i hr
      cases hd
      exact ⟨hr.symm, hcapture⟩
    · exact hsound.pending r d hd
  · intro r d hd
    obtain ⟨hnone, halone⟩ := hsound.queuedAlone r d hd
    refine ⟨hnone, fun e he => ?_⟩
    dsimp only at he
    rw [AList.lookup_insert_ite] at he
    split at he
    · rename_i hr
      rw [hr, hin] at hnone
      cases hnone
    · exact halone e he
  · intro d hd _
    cases hd
    dsimp only [requestOf]
    rw [AList.lookup_insert]
    exact ⟨Or.inr rfl, fun e he _ => (Option.some.inj he).symm⟩
  · intro d hd
    obtain ⟨hknown, haway⟩ := hsound.taken d (Or.inr (hd.resolve_left List.not_mem_nil))
    refine ⟨hknown, fun r => ⟨(haway r).1, (haway r).2.1, ?_⟩⟩
    dsimp only
    rw [AList.lookup_insert_ite]
    split
    · intro heq
      rw [Option.some.injEq] at heq
      rw [heq] at hin
      exact (haway _).2.1 hin
    · exact (haway r).2.2
  · obtain ⟨hmark, hqueued, hqueuedMark, hpending, -, hhanded, hkept⟩ := hmarked d hd
    refine ⟨hmark, hqueued, fun h => (nomatch h), ?_, fun h => (nomatch h), hhanded, ?_⟩
    · intro r hr
      dsimp only at hr ⊢
      rw [AList.lookup_insert_ite] at hr
      split at hr
      · cases hr
        rw [if_pos (hqueuedMark hunpublished)]
        exact Finset.mem_insert_self _ _
      · exact hgrown (hpending r hr)
    · obtain haborted | hqueue | hsame | ⟨r, hr⟩ | htaken | hdraining := hkept
      · exact Or.inl haborted
      · exact Or.inr (Or.inl hqueue)
      · rw [hunpublished, Option.some.injEq] at hsame
        refine Or.inr (Or.inr (Or.inr (Or.inl ⟨s.requestOf c, ?_⟩)))
        rw [← hsame]
        exact AList.lookup_insert _
      · refine Or.inr (Or.inr (Or.inr (Or.inl ⟨r, ?_⟩)))
        dsimp only
        rw [AList.lookup_insert_ite, if_neg]
        · exact hr
        · intro heq
          rw [heq] at hr
          exact hmark (hsound.unpublishedAlone c d hunpublished hr)
      · rw [hphase] at htaken
        cases htaken
      · exact Or.inr (Or.inr (Or.inr (Or.inr (Or.inr hdraining))))

/-- A capture leaves the table of submissions. -/
theorem Holds.leave (h : s.Holds) {c : ℕ} {rest : List String} (hphase : s.phase = .leave c rest) :
    ({ s with
      submittingJobs := s.submittingJobs.erase (s.requestOf c)
      phase := .nextJob rest } : ManagerPageCaptureRuntime).Holds := by
  obtain ⟨hsound, hmarked⟩ := h
  refine ⟨⟨hsound.queued, ?_, fun _ h => (nomatch h), hsound.pending, ?_, fun _ _ h => (nomatch h),
    fun _ h => (nomatch h), ?_, List.nodup_nil, fun _ h => (nomatch h), hsound.allocated, hsound.unjoined⟩, fun d hd => ?_⟩
  · intro r d
    dsimp only
    rw [AList.lookup_erase_ite]
    refine ⟨fun hd => ?_, fun hd => (nomatch hd.1)⟩
    split at hd
    · cases hd
    · rename_i hr
      obtain ⟨hsame, hrequest⟩ := (hsound.submitting r d).mp hd
      rw [hphase] at hsame
      cases hsame
      exact absurd hrequest.symm hr
  · intro r d hd
    obtain ⟨hnone, halone⟩ := hsound.queuedAlone r d hd
    refine ⟨?_, halone⟩
    dsimp only
    rw [AList.lookup_erase_ite, hnone]
    split <;> rfl
  · intro d hd
    obtain ⟨hknown, haway⟩ := hsound.taken d (Or.inr (hd.resolve_left List.not_mem_nil))
    refine ⟨hknown, fun r => ⟨(haway r).1, ?_, (haway r).2.2⟩⟩
    dsimp only
    rw [AList.lookup_erase_ite]
    split
    · exact fun h => (nomatch h)
    · exact (haway r).2.1
  · obtain ⟨hmark, hqueued, -, hpending, -, hhanded, hkept⟩ := hmarked d hd
    refine ⟨hmark, hqueued, fun h => (nomatch h), hpending, fun h => (nomatch h), hhanded, ?_⟩
    rw [hphase] at hkept
    exact hkept

/-! ## Completion passes -/

/-- A pass begins with what is pending. -/
theorem Holds.collect (h : s.Holds) (hphase : s.phase = .collectPending) :
    (s.enter (.poll (listed s.pending) [])).Holds := by
  obtain ⟨hsound, hmarked⟩ := h
  have hmem : ∀ c ∈ listed s.pending, ∃ r, s.pending.lookup r = some c := by
    intro c hc
    obtain ⟨⟨r, d⟩, hentry, rfl⟩ := List.mem_map.mp hc
    exact ⟨r, AList.lookup_eq_some_iff.mpr (List.mem_reverse.mp hentry)⟩
  refine ⟨⟨hsound.queued, ?_, fun _ h => (nomatch h), hsound.pending, hsound.queuedAlone, fun _ _ h => (nomatch h),
    fun _ h => (nomatch h), ?_, ?_, ?_, hsound.allocated, hsound.unjoined⟩, fun d hd => ?_⟩
  · intro r d
    have hiff := hsound.submitting r d
    rw [hphase] at hiff
    exact hiff
  · exact fun d hd => hsound.taken d (Or.inr (hd.resolve_left List.not_mem_nil))
  · have hkeys : (listed s.pending).map s.requestOf = s.pending.keys.reverse := by
      rw [listed, List.map_map, AList.keys, List.keys, ← List.map_reverse]
      refine List.map_congr_left fun entry hentry => ?_
      exact (hsound.pending entry.1 entry.2 (AList.lookup_eq_some_iff.mpr (List.mem_reverse.mp hentry))).1
    have hnodup : ((listed s.pending).map s.requestOf).Nodup := by
      rw [hkeys]
      exact List.nodup_reverse.mpr s.pending.keys_nodup
    exact hnodup
  · intro c hc
    obtain ⟨r, hr⟩ := hmem c hc
    obtain ⟨hrequest, hcapture⟩ := hsound.pending r c hr
    have hown : s.pending.lookup (s.requestOf c) = some c := by rw [hrequest]; exact hr
    refine ⟨hcapture, fun _ => hown, fun hjob d hd => ?_⟩
    have hsame : s.pending.lookup (s.requestOf c) = some d := hd
    rw [hown, Option.some.injEq] at hsame
    rw [← hsame]
    exact hjob
  · obtain ⟨hmark, hqueued, -, hpending, -, hhanded, hkept⟩ := hmarked d hd
    refine ⟨hmark, hqueued, fun h => (nomatch h), hpending, fun h => (nomatch h), hhanded, ?_⟩
    rw [hphase] at hkept
    exact hkept

/-- A pending capture is taken into the pass. -/
theorem Holds.take (h : s.Holds) {c : ℕ} {rest ready : List ℕ} (hphase : s.phase = .take c rest ready)
    (hpresent : s.pending.lookup (s.requestOf c) ≠ none) :
    ({ s with
      pending := s.pending.erase (s.requestOf c)
      phase := .poll rest (ready ++ [c]) } : ManagerPageCaptureRuntime).Holds := by
  obtain ⟨hsound, hmarked⟩ := h
  have hapart := hsound.polledApart
  have hpolled := hsound.polled
  rw [hphase] at hapart hpolled
  dsimp only [ProgressPhase.polled] at hapart hpolled
  rw [List.map_cons, List.nodup_cons] at hapart
  obtain ⟨hcapture, hjob, hnojob⟩ := hpolled c List.mem_cons_self
  have hidle : ∀ r d, s.submittingJobs.lookup r ≠ some d := by
    intro r d hd
    have hsubmission := ((hsound.submitting r d).mp hd).1
    rw [hphase] at hsubmission
    cases hsubmission
  have hpending : ∀ {r d}, (s.pending.erase (s.requestOf c)).lookup r = some d →
      r ≠ s.requestOf c ∧ s.pending.lookup r = some d := AList.lookup_erase_some
  refine ⟨⟨hsound.queued, ?_, fun _ h => (nomatch h), fun r d hd => hsound.pending r d (hpending hd).2, ?_,
    fun _ _ h => (nomatch h), fun _ h => (nomatch h), ?_, hapart.2, ?_, hsound.allocated, hsound.unjoined⟩, fun d hd => ?_⟩
  · intro r d
    have hiff := hsound.submitting r d
    rw [hphase] at hiff
    exact hiff
  · intro r d hd
    obtain ⟨hnone, halone⟩ := hsound.queuedAlone r d hd
    exact ⟨hnone, fun e he => halone e (hpending he).2⟩
  · intro d hd
    by_cases hsame : d = c
    · rw [hsame]
      refine ⟨hcapture, fun r => ⟨fun hqueued => ?_, hidle r c, fun hr => ?_⟩⟩
      · obtain ⟨hrequest, hown⟩ := hsound.queued r c hqueued
        have hnone := (hsound.queuedAlone r c hqueued).2 c
        rw [← hrequest] at hnone
        exact hown (hnone (hjob hown))
      · obtain ⟨hne, hbefore⟩ := hpending hr
        exact hne (hsound.pending r c hbefore).1.symm
    · have hbefore : d ∈ s.phase.ready ∨ d ∈ s.handed := by
        obtain hready | hhanded := hd
        · obtain hready | hlast := List.mem_append.mp hready
          · rw [hphase]
            exact Or.inl hready
          · exact absurd (List.mem_singleton.mp hlast) hsame
        · exact Or.inr hhanded
      obtain ⟨hknown, haway⟩ := hsound.taken d hbefore
      exact ⟨hknown, fun r => ⟨(haway r).1, (haway r).2.1, fun hr => (haway r).2.2 (hpending hr).2⟩⟩
  · intro d hd
    obtain ⟨hknown, hown, hother⟩ := hpolled d (List.mem_cons_of_mem _ hd)
    have hne : s.requestOf d ≠ s.requestOf c := fun heq => hapart.1 (heq ▸ List.mem_map_of_mem hd)
    refine ⟨hknown, fun hdjob => ?_, fun hdjob e he => hother hdjob e (hpending he).2⟩
    exact (AList.lookup_erase_ne hne).trans (hown hdjob)
  · obtain ⟨hmark, hqueued, -, hpendingMark, hready, hhanded, hkept⟩ := hmarked d hd
    have hmarkReady : d ∈ ready ++ [c] → d ∈ s.pendingAbandoned := by
      intro hmem
      obtain hbefore | hlast := List.mem_append.mp hmem
      · refine hready ?_
        rw [hphase]
        exact hbefore
      · rw [List.mem_singleton] at hlast
        subst hlast
        exact hpendingMark _ (hjob hmark)
    refine ⟨hmark, hqueued, fun h => (nomatch h), fun r hr => hpendingMark r (hpending hr).2, hmarkReady, hhanded, ?_⟩
    rw [hphase] at hkept
    obtain haborted | hqueue | hsame | ⟨r, hr⟩ | htaken | hdraining := hkept
    · exact Or.inl haborted
    · exact Or.inr (Or.inl hqueue)
    · cases hsame
    · by_cases heq : r = s.requestOf c
      · -- what leaves the table is the capture itself
        have hsame : d = c := by
          by_cases hcjob : s.jobOf c = none
          · rw [heq] at hr
            exact absurd (hnojob hcjob d hr) hmark
          · rw [heq, hjob hcjob, Option.some.injEq] at hr
            exact hr.symm
        refine Or.inr (Or.inr (Or.inr (Or.inr (Or.inl ?_))))
        rw [hsame]
        exact List.mem_append_right _ (List.mem_singleton_self _)
      · refine Or.inr (Or.inr (Or.inr (Or.inl ⟨r, ?_⟩)))
        exact (AList.lookup_erase_ne heq).trans hr
    · exact Or.inr (Or.inr (Or.inr (Or.inr (Or.inl (List.mem_append_left _ htaken)))))
    · exact Or.inr (Or.inr (Or.inr (Or.inr (Or.inr hdraining))))

/-- A capture that was taken leaves the pass: it was aborted, or it was not marked and is handed over. -/
theorem Holds.settle (h : s.Holds) {c : ℕ} {rest : List ℕ} {phase : ProgressPhase} {handed aborted : List ℕ}
    (hready : s.phase.ready = c :: rest) (hsubmission : s.phase.submission = none)
    (hphase : phase.submission = none ∧ phase.polled = [])
    (hhanded : handed = s.handed ∨ handed = s.handed ++ [c] ∧ c ∉ s.pendingAbandoned)
    (haborted : s.aborted ⊆ aborted)
    (hleft : phase.ready = c :: rest ∨ phase.ready = rest ∧ (c ∈ aborted ∨ c ∉ s.pendingAbandoned)) :
    ({ s with handed := handed, aborted := aborted, phase := phase } : ManagerPageCaptureRuntime).Holds := by
  obtain ⟨hsound, hmarked⟩ := h
  have hnone := ProgressPhase.unpublished_of_submission hsubmission
  have hnone' := ProgressPhase.unpublished_of_submission hphase.1
  have hin : ∀ d, d ∈ phase.ready → d ∈ s.phase.ready := by
    intro d hd
    rw [hready]
    obtain heq | ⟨heq, -⟩ := hleft
    · rwa [heq] at hd
    · rw [heq] at hd
      exact List.mem_cons_of_mem _ hd
  refine ⟨⟨hsound.queued, ?_, ?_, hsound.pending, hsound.queuedAlone, ?_, ?_, ?_, ?_, ?_, hsound.allocated, hsound.unjoined⟩,
    fun d hd => ?_⟩
  · intro r d
    have hiff := hsound.submitting r d
    rw [hsubmission] at hiff
    dsimp only
    rw [hphase.1]
    exact hiff
  · intro d hd
    dsimp only at hd
    rw [hphase.1] at hd
    cases hd
  · intro d e hd
    dsimp only at hd
    rw [hnone'] at hd
    cases hd
  · intro d hd
    dsimp only at hd
    rw [hphase.1] at hd
    cases hd
  · intro d hd
    refine hsound.taken d ?_
    obtain htaken | hgiven := hd
    · exact Or.inl (hin d htaken)
    · obtain heq | ⟨heq, -⟩ := hhanded
      · rw [heq] at hgiven
        exact Or.inr hgiven
      · rw [heq] at hgiven
        obtain hbefore | hlast := List.mem_append.mp hgiven
        · exact Or.inr hbefore
        · rw [List.mem_singleton] at hlast
          rw [hready, hlast]
          exact Or.inl List.mem_cons_self
  · dsimp only
    rw [hphase.2]
    exact List.nodup_nil
  · intro d hd
    dsimp only at hd
    rw [hphase.2] at hd
    cases hd
  · obtain ⟨hmark, hqueued, -, hpending, hmarkReady, hgiven, hkept⟩ := hmarked d hd
    refine ⟨hmark, hqueued, ?_, hpending, fun htaken => hmarkReady (hin d htaken), ?_, ?_⟩
    · intro hsame
      dsimp only at hsame
      rw [hnone'] at hsame
      cases hsame
    · dsimp only
      obtain heq | ⟨heq, hunmarked⟩ := hhanded
      · rw [heq]
        exact hgiven
      · rw [heq, List.mem_append, List.mem_singleton]
        rintro (hbefore | rfl)
        · exact hgiven hbefore
        · exact hunmarked (hmarkReady (by rw [hready]; exact List.mem_cons_self))
    · obtain hbefore | hqueue | hsame | hpend | htaken | hdraining := hkept
      · exact Or.inl (haborted hbefore)
      · exact Or.inr (Or.inl hqueue)
      · rw [hnone] at hsame
        cases hsame
      · exact Or.inr (Or.inr (Or.inr (Or.inl hpend)))
      · obtain heq | ⟨heq, hdone⟩ := hleft
        · rw [hready, ← heq] at htaken
          exact Or.inr (Or.inr (Or.inr (Or.inr (Or.inl htaken))))
        · have hmarked' := hmarkReady htaken
          rw [hready] at htaken
          obtain rfl | htaken := List.mem_cons.mp htaken
          · exact Or.inl (hdone.resolve_right (not_not.mpr hmarked'))
          · rw [← heq] at htaken
            exact Or.inr (Or.inr (Or.inr (Or.inr (Or.inl htaken))))
      · exact Or.inr (Or.inr (Or.inr (Or.inr (Or.inr hdraining))))

/-- An exception drops what was taken; no preempted capture that was not aborted is among it. -/
theorem Holds.drop (h : s.Holds) (hsubmission : s.phase.submission = none)
    (hdropped : ∀ c ∈ s.phase.ready, c ∈ s.preempted → c ∈ s.aborted) : (s.enter .failing).Holds := by
  obtain ⟨hsound, hmarked⟩ := h
  have hnone := ProgressPhase.unpublished_of_submission hsubmission
  refine ⟨⟨hsound.queued, ?_, fun _ h => (nomatch h), hsound.pending, hsound.queuedAlone, fun _ _ h => (nomatch h),
    fun _ h => (nomatch h), ?_, List.nodup_nil, fun _ h => (nomatch h), hsound.allocated, hsound.unjoined⟩, fun d hd => ?_⟩
  · intro r d
    have hiff := hsound.submitting r d
    rw [hsubmission] at hiff
    exact hiff
  · exact fun d hd => hsound.taken d (Or.inr (hd.resolve_left List.not_mem_nil))
  · obtain ⟨hmark, hqueued, -, hpending, -, hgiven, hkept⟩ := hmarked d hd
    refine ⟨hmark, hqueued, fun h => (nomatch h), hpending, fun h => (nomatch h), hgiven, ?_⟩
    obtain hbefore | hqueue | hsame | hpend | htaken | hdraining := hkept
    · exact Or.inl hbefore
    · exact Or.inr (Or.inl hqueue)
    · rw [hnone] at hsame
      cases hsame
    · exact Or.inr (Or.inr (Or.inr (Or.inl hpend)))
    · exact Or.inl (hdropped d htaken hd)
    · exact Or.inr (Or.inr (Or.inr (Or.inr (Or.inr hdraining))))

theorem mem_listed {table : Dictionary String ℕ} {r : String} {c : ℕ} (h : table.lookup r = some c) :
    c ∈ listed table :=
  List.mem_map.mpr ⟨⟨r, c⟩, List.mem_reverse.mpr (AList.lookup_eq_some_iff.mp h), rfl⟩

/-- What is queued or pending is aborted when the progress thread fails. -/
theorem Holds.failing (h : s.Holds) (hphase : s.phase = .failing) (failedJobs : Finset CaptureJob) :
    ({ s with
      fatal := true
      failedJobs := failedJobs
      aborted := s.aborted ++ listed s.pending ++ listed s.queuedJobs
      queuedJobs := ∅
      phase := .ended } : ManagerPageCaptureRuntime).Holds := by
  obtain ⟨hsound, hmarked⟩ := h
  refine ⟨⟨fun _ _ h => (nomatch h), ?_, fun _ h => (nomatch h), hsound.pending, fun _ _ h => (nomatch h),
    fun _ _ h => (nomatch h), fun _ h => (nomatch h), ?_, List.nodup_nil, fun _ h => (nomatch h), hsound.allocated, hsound.unjoined⟩,
    fun d hd => ?_⟩
  · intro r d
    have hiff := hsound.submitting r d
    rw [hphase] at hiff
    exact hiff
  · intro d hd
    obtain ⟨hknown, haway⟩ := hsound.taken d (Or.inr (hd.resolve_left List.not_mem_nil))
    exact ⟨hknown, fun r => ⟨fun h => (nomatch h), (haway r).2.1, (haway r).2.2⟩⟩
  · obtain ⟨hmark, -, -, hpending, -, hgiven, hkept⟩ := hmarked d hd
    refine ⟨hmark, fun _ h => (nomatch h), fun h => (nomatch h), hpending, fun h => (nomatch h), hgiven, ?_⟩
    rw [hphase] at hkept
    dsimp only
    obtain hbefore | ⟨r, hr⟩ | hsame | hpend | htaken | hdraining := hkept
    · exact Or.inl (List.mem_append_left _ (List.mem_append_left _ hbefore))
    · exact Or.inl (List.mem_append_right _ (mem_listed hr))
    · cases hsame
    · exact Or.inr (Or.inr (Or.inr (Or.inl hpend)))
    · cases htaken
    · exact Or.inr (Or.inr (Or.inr (Or.inr (Or.inr hdraining))))

/-! ## The serving thread -/

theorem Sound.known_of_job {c : ℕ} (hjob : s.jobOf c ≠ none) : s.captures c ≠ none := by
  intro hnone
  rw [jobOf, hnone] at hjob
  exact hjob rfl

/-- The state with a new capture. -/
def withCapture (s : ManagerPageCaptureRuntime) (capture : SubmittedCapture) : ManagerPageCaptureRuntime :=
  { s with
    captures := Function.update s.captures s.allocated (some capture)
    allocated := s.allocated + 1 }

theorem withCapture_captures (s : ManagerPageCaptureRuntime) (capture : SubmittedCapture) :
    (s.withCapture capture).captures s.allocated = some capture := Function.update_self ..

theorem withCapture_requestOf (s : ManagerPageCaptureRuntime) (capture : SubmittedCapture) :
    (s.withCapture capture).requestOf s.allocated = capture.requestId := by
  rw [requestOf, withCapture_captures]
  rfl

theorem withCapture_jobOf (s : ManagerPageCaptureRuntime) (capture : SubmittedCapture) :
    (s.withCapture capture).jobOf s.allocated = capture.job := by
  rw [jobOf, withCapture_captures]
  rfl

/-- A capture is made that is nowhere yet. -/
theorem Holds.allocate (h : s.Holds) (capture : SubmittedCapture) :
    (s.withCapture capture).Holds := by
  obtain ⟨hsound, hmarked⟩ := h
  set s' := s.withCapture capture with hs'
  have hne : ∀ {c}, s.captures c ≠ none → c ≠ s.allocated := by
    rintro c hc rfl
    exact hc (hsound.allocated _ (Nat.le_refl _))
  have hcaptures : ∀ {c}, s.captures c ≠ none → s'.captures c = s.captures c := fun hc =>
    Function.update_of_ne (hne hc) ..
  have hrequest : ∀ {c}, s.captures c ≠ none → s'.requestOf c = s.requestOf c := by
    intro c hc
    rw [requestOf, hcaptures hc, requestOf]
  have hjob : ∀ {c}, s.captures c ≠ none → s'.jobOf c = s.jobOf c := by
    intro c hc
    rw [jobOf, hcaptures hc, jobOf]
  have hsubmission : ∀ {c}, s.phase.submission = some c → s.captures c ≠ none := fun hc =>
    Sound.known_of_job (hsound.submission _ hc)
  refine ⟨⟨?_, ?_, ?_, ?_, ?_, ?_, ?_, ?_, ?_, ?_, ?_, hsound.unjoined⟩, fun c hc => ?_⟩
  · intro r c hc
    obtain ⟨hown, hleased⟩ := hsound.queued r c hc
    have hknown := Sound.known_of_job hleased
    exact ⟨(hrequest hknown).trans hown, by rw [hjob hknown]; exact hleased⟩
  · intro r c
    refine (hsound.submitting r c).trans (and_congr_right fun hc => ?_)
    rw [hrequest (hsubmission hc)]
  · intro c hc
    rw [hjob (hsubmission hc)]
    exact hsound.submission c hc
  · intro r c hc
    obtain ⟨hown, hknown⟩ := hsound.pending r c hc
    exact ⟨(hrequest hknown).trans hown, by rw [hcaptures hknown]; exact hknown⟩
  · intro r c hc
    obtain ⟨hnone, halone⟩ := hsound.queuedAlone r c hc
    refine ⟨hnone, fun d hd => ?_⟩
    rw [hjob (hsound.pending r d hd).2]
    exact halone d hd
  · intro c d hc hd
    have hin : s.phase.submission = some c := ProgressPhase.submission_of_unpublished hc
    rw [hrequest (hsubmission hin)] at hd
    rw [hjob (hsound.pending _ d hd).2]
    exact hsound.unpublishedAlone c d hc hd
  · intro c hc hnone
    rw [hrequest (hsubmission hc)]
    obtain ⟨hdone, honly⟩ := hsound.leaving c hc hnone
    refine ⟨hdone, fun d hd hleased => ?_⟩
    rw [hjob (hsound.pending _ d hd).2] at hleased
    exact honly d hd hleased
  · intro c hc
    obtain ⟨hknown, haway⟩ := hsound.taken c hc
    exact ⟨by rw [hcaptures hknown]; exact hknown, haway⟩
  · have hsame : s.phase.polled.map s'.requestOf = s.phase.polled.map s.requestOf :=
      List.map_congr_left fun c hc => hrequest (hsound.polled c hc).1
    have hapart : (s.phase.polled.map s'.requestOf).Nodup := by
      rw [hsame]
      exact hsound.polledApart
    exact hapart
  · intro c hc
    obtain ⟨hknown, hown, hother⟩ := hsound.polled c hc
    rw [hcaptures hknown, hjob hknown, hrequest hknown]
    refine ⟨hknown, hown, fun hnone d hd => ?_⟩
    rw [hjob (hsound.pending _ d hd).2]
    exact hother hnone d hd
  · intro c hc
    have hle : s.allocated + 1 ≤ c := hc
    have hne' : c ≠ s.allocated := by omega
    exact (Function.update_of_ne hne' ..).trans (hsound.allocated c (by omega))
  · obtain ⟨hleased, hqueued, hunpublished, hpending, hready, hhanded, hkept⟩ := hmarked c hc
    refine ⟨?_, hqueued, hunpublished, hpending, hready, hhanded, hkept⟩
    rw [hjob (Sound.known_of_job hleased)]
    exact hleased

/-- A capture that is nowhere. -/
structure Fresh (s : ManagerPageCaptureRuntime) (c : ℕ) : Prop where
  away : s.Away c
  submission : s.phase.submission ≠ some c
  ready : c ∉ s.phase.ready
  handed : c ∉ s.handed
  preempted : c ∉ s.preempted

theorem Holds.fresh (h : s.Holds) (capture : SubmittedCapture) :
    (s.withCapture capture).Fresh s.allocated := by
  obtain ⟨hsound, hmarked⟩ := h
  have hnone := hsound.allocated _ (Nat.le_refl _)
  refine ⟨fun r => ⟨fun hr => ?_, fun hr => ?_, fun hr => ?_⟩, fun hc => ?_, fun hc => ?_, fun hc => ?_, fun hc => ?_⟩
  · exact Sound.known_of_job (hsound.queued r _ hr).2 hnone
  · exact Sound.known_of_job (hsound.submission _ ((hsound.submitting r _).mp hr).1) hnone
  · exact (hsound.pending r _ hr).2 hnone
  · exact Sound.known_of_job (hsound.submission _ hc) hnone
  · exact (hsound.taken _ (Or.inl hc)).1 hnone
  · exact (hsound.taken _ (Or.inr hc)).1 hnone
  · exact Sound.known_of_job (hmarked _ hc).job hnone

/-- A fresh capture of a job is queued, for a request that has none. -/
theorem Holds.queue (h : s.Holds) {r : String} {c : ℕ} (hfresh : s.Fresh c) (hrequest : s.requestOf c = r)
    (hjob : s.jobOf c ≠ none) (hqueued : s.queuedJobs.lookup r = none) (hsubmitting : s.submittingJobs.lookup r = none)
    (hpending : s.pending.lookup r = none) :
    ({ s with queuedJobs := s.queuedJobs.insert r c } : ManagerPageCaptureRuntime).Holds := by
  obtain ⟨hsound, hmarked⟩ := h
  refine ⟨⟨?_, hsound.submitting, hsound.submission, hsound.pending, ?_, hsound.unpublishedAlone, hsound.leaving, ?_,
    hsound.polledApart, hsound.polled, hsound.allocated, hsound.unjoined⟩, fun d hd => ?_⟩
  · intro r' d hd
    dsimp only at hd
    rw [AList.lookup_insert_ite] at hd
    split at hd
    · rename_i hr
      cases hd
      exact ⟨hrequest.trans hr.symm, hjob⟩
    · exact hsound.queued r' d hd
  · intro r' d hd
    dsimp only at hd
    rw [AList.lookup_insert_ite] at hd
    split at hd
    · rename_i hr
      rw [hr]
      exact ⟨hsubmitting, fun e he => by rw [hpending] at he; cases he⟩
    · exact hsound.queuedAlone r' d hd
  · intro d hd
    obtain ⟨hknown, haway⟩ := hsound.taken d hd
    refine ⟨hknown, fun r' => ⟨?_, (haway r').2⟩⟩
    dsimp only
    rw [AList.lookup_insert_ite]
    split
    · intro heq
      cases heq
      exact hd.elim hfresh.ready hfresh.handed
    · exact (haway r').1
  · obtain ⟨hmark, hqueuedMark, hunpublished, hpendingMark, hready, hhanded, hkept⟩ := hmarked d hd
    refine ⟨hmark, ?_, hunpublished, hpendingMark, hready, hhanded, ?_⟩
    · intro r' hr'
      dsimp only at hr'
      rw [AList.lookup_insert_ite] at hr'
      split at hr'
      · cases hr'
        exact absurd hd hfresh.preempted
      · exact hqueuedMark r' hr'
    · obtain hbefore | ⟨r', hr'⟩ | hrest := hkept
      · exact Or.inl hbefore
      · refine Or.inr (Or.inl ⟨r', ?_⟩)
        dsimp only
        rw [AList.lookup_insert_ite, if_neg]
        · exact hr'
        · rintro rfl
          rw [hqueued] at hr'
          cases hr'
      · exact Or.inr (Or.inr hrest)

/-- A fresh capture without a job becomes pending, for a request that has none. -/
theorem Holds.pend (h : s.Holds) {r : String} {c : ℕ} (hfresh : s.Fresh c) (hrequest : s.requestOf c = r)
    (hcapture : s.captures c ≠ none) (hjob : s.jobOf c = none) (hpending : s.pending.lookup r = none) :
    ({ s with pending := s.pending.insert r c } : ManagerPageCaptureRuntime).Holds := by
  obtain ⟨hsound, hmarked⟩ := h
  have hinsert : ∀ {r' d}, (s.pending.insert r c).lookup r' = some d → d = c ∧ r' = r ∨ s.pending.lookup r' = some d := by
    intro r' d hd
    rw [AList.lookup_insert_ite] at hd
    split at hd
    · rename_i hr
      exact Or.inl ⟨(Option.some.inj hd).symm, hr⟩
    · exact Or.inr hd
  have hstays : ∀ {r' d}, s.pending.lookup r' = some d → (s.pending.insert r c).lookup r' = some d := by
    intro r' d hd
    rw [AList.lookup_insert_ite, if_neg]
    · exact hd
    · rintro rfl
      rw [hpending] at hd
      cases hd
  refine ⟨⟨hsound.queued, hsound.submitting, hsound.submission, ?_, ?_, ?_, ?_, ?_, hsound.polledApart, ?_,
    hsound.allocated, hsound.unjoined⟩, fun d hd => ?_⟩
  · intro r' d hd
    obtain ⟨rfl, hr⟩ | hbefore := hinsert hd
    · exact ⟨hrequest.trans hr.symm, hcapture⟩
    · exact hsound.pending r' d hbefore
  · intro r' d hd
    obtain ⟨hnone, halone⟩ := hsound.queuedAlone r' d hd
    refine ⟨hnone, fun e he => ?_⟩
    obtain ⟨rfl, -⟩ | hbefore := hinsert he
    · exact hjob
    · exact halone e hbefore
  · intro d e hd he
    obtain ⟨rfl, -⟩ | hbefore := hinsert he
    · exact hjob
    · exact hsound.unpublishedAlone d e hd hbefore
  · intro d hd hnone
    obtain ⟨hdone, honly⟩ := hsound.leaving d hd hnone
    refine ⟨hdone.imp_right fun hbefore => hstays hbefore, fun e he hleased => ?_⟩
    obtain ⟨rfl, -⟩ | hbefore := hinsert he
    · exact absurd hjob hleased
    · exact honly e hbefore hleased
  · intro d hd
    obtain ⟨hknown, haway⟩ := hsound.taken d hd
    refine ⟨hknown, fun r' => ⟨(haway r').1, (haway r').2.1, fun hr' => ?_⟩⟩
    obtain ⟨rfl, -⟩ | hbefore := hinsert hr'
    · exact hd.elim hfresh.ready hfresh.handed
    · exact (haway r').2.2 hbefore
  · intro d hd
    obtain ⟨hknown, hown, hother⟩ := hsound.polled d hd
    refine ⟨hknown, fun hleased => hstays (hown hleased), fun hnone e he => ?_⟩
    obtain ⟨rfl, -⟩ | hbefore := hinsert he
    · exact hjob
    · exact hother hnone e hbefore
  · obtain ⟨hmark, hqueued, hunpublished, hpendingMark, hready, hhanded, hkept⟩ := hmarked d hd
    refine ⟨hmark, hqueued, hunpublished, fun r' hr' => ?_, hready, hhanded, ?_⟩
    · obtain ⟨rfl, -⟩ | hbefore := hinsert hr'
      · exact absurd hd hfresh.preempted
      · exact hpendingMark r' hbefore
    · obtain hbefore | hqueue | hsame | ⟨r', hr'⟩ | hrest := hkept
      · exact Or.inl hbefore
      · exact Or.inr (Or.inl hqueue)
      · exact Or.inr (Or.inr (Or.inl hsame))
      · exact Or.inr (Or.inr (Or.inr (Or.inl ⟨r', hstays hr'⟩)))
      · exact Or.inr (Or.inr (Or.inr (Or.inr hrest)))

theorem Holds.accept (h : s.Holds) (jobEpoch : Option String) (jobHighWatermark : ℕ) :
    ({ s with jobEpoch := jobEpoch, jobHighWatermark := jobHighWatermark } : ManagerPageCaptureRuntime).Holds := by
  obtain ⟨hsound, hmarked⟩ := h
  refine ⟨⟨hsound.queued, hsound.submitting, hsound.submission, hsound.pending, hsound.queuedAlone,
    hsound.unpublishedAlone, hsound.leaving, hsound.taken, hsound.polledApart, hsound.polled, hsound.allocated,
    hsound.unjoined⟩, fun c hc => ?_⟩
  obtain ⟨hjob, hqueued, hunpublished, hpending, hready, hhanded, hkept⟩ := hmarked c hc
  exact ⟨hjob, hqueued, hunpublished, hpending, hready, hhanded, hkept⟩

theorem Holds.submitJob (h : s.Holds) (r : String) (job : CaptureJob) (starts : Bool) : (s.submitJob r job starts).Holds := by
  unfold ManagerPageCaptureRuntime.submitJob
  split
  · exact h
  split
  · exact h
  have haccepted := h.accept (some job.epoch) job.sequence
  dsimp only
  split
  · exact haccepted
  · rename_i hfree
    simp only [not_or, not_not] at hfree
    obtain ⟨hqueued, hsubmitting, hpending, -⟩ := hfree
    have hjob := withCapture_jobOf { s with jobEpoch := some job.epoch, jobHighWatermark := job.sequence } ⟨r, some job⟩
    refine Holds.queue (haccepted.allocate ⟨r, some job⟩) (haccepted.fresh ⟨r, some job⟩) (withCapture_requestOf _ _) ?_
      hqueued hsubmitting hpending
    rw [hjob]
    exact Option.some_ne_none _

theorem Holds.submitRequest (h : s.Holds) (r : String) (answer : RingAnswer) : (s.submitRequest r answer).Holds := by
  unfold ManagerPageCaptureRuntime.submitRequest
  split
  · exact h
  · rename_i hfree
    simp only [not_or, not_not] at hfree
    cases answer with
    | done =>
        refine Holds.pend (h.allocate ⟨r, none⟩) (h.fresh ⟨r, none⟩) (withCapture_requestOf _ _) ?_
          (withCapture_jobOf _ _) hfree.2.2
        rw [withCapture_captures]
        exact Option.some_ne_none _
    | nothing => exact h
    | raises => exact h

theorem mem_found {r : String} {c : ℕ} : c ∈ s.found r ↔ s.jobOf c ≠ none ∧
    (s.queuedJobs.lookup r = some c ∨ s.submittingJobs.lookup r = some c ∨ s.pending.lookup r = some c) := by
  rw [found, List.mem_toFinset, List.mem_filter, List.reduceOption_mem_iff, Option.isSome_iff_ne_none, and_comm]
  simp [eq_comm]

/-- The marks grow, and what a preemption has found now is marked. -/
theorem Holds.mark (h : s.Holds) {queuedAbandoned pendingAbandoned : Finset ℕ} {preempted : Finset ℕ} {closed : Bool}
    (hqueuedMark : s.queuedAbandoned ⊆ queuedAbandoned) (hpendingMark : s.pendingAbandoned ⊆ pendingAbandoned)
    (hnew : ∀ c ∈ preempted, c ∈ s.preempted ∨ s.jobOf c ≠ none ∧
      (∀ r, s.queuedJobs.lookup r = some c → c ∈ queuedAbandoned) ∧
      (s.phase.unpublished = some c → c ∈ queuedAbandoned) ∧
      (∀ r, s.pending.lookup r = some c → c ∈ pendingAbandoned) ∧
      ¬ s.Away c ∧ (c ∈ s.aborted ∨ (∃ r, s.queuedJobs.lookup r = some c) ∨ s.phase.unpublished = some c ∨
        ∃ r, s.pending.lookup r = some c)) :
    ({ s with
      closed := closed
      queuedAbandoned := queuedAbandoned
      pendingAbandoned := pendingAbandoned
      preempted := preempted } : ManagerPageCaptureRuntime).Holds := by
  obtain ⟨hsound, hmarked⟩ := h
  refine ⟨⟨hsound.queued, hsound.submitting, hsound.submission, hsound.pending, hsound.queuedAlone,
    hsound.unpublishedAlone, hsound.leaving, hsound.taken, hsound.polledApart, hsound.polled, hsound.allocated,
    hsound.unjoined⟩, fun c hc => ?_⟩
  obtain hbefore | ⟨hjob, hqueued, hunpublished, hpending, haway, hkept⟩ := hnew c hc
  · obtain ⟨hjob, hqueued, hunpublished, hpending, hready, hhanded, hkept⟩ := hmarked c hbefore
    exact ⟨hjob, fun r hr => hqueuedMark (hqueued r hr), fun hsame => hqueuedMark (hunpublished hsame),
      fun r hr => hpendingMark (hpending r hr), fun htaken => hpendingMark (hready htaken), hhanded, hkept⟩
  · refine ⟨hjob, hqueued, hunpublished, hpending, fun htaken => ?_, fun hgiven => ?_, ?_⟩
    · exact absurd (hsound.taken c (Or.inl htaken)).2 haway
    · exact haway (hsound.taken c (Or.inr hgiven)).2
    · obtain haborted | hqueue | hsame | hpend := hkept
      · exact Or.inl haborted
      · exact Or.inr (Or.inl hqueue)
      · exact Or.inr (Or.inr (Or.inl hsame))
      · exact Or.inr (Or.inr (Or.inr (Or.inl hpend)))

/-- A pending capture without a job is aborted at once. -/
theorem Holds.discard (h : s.Holds) {r : String} {c : ℕ} (hpending : s.pending.lookup r = some c)
    (hjob : s.jobOf c = none) :
    ({ s with pending := s.pending.erase r, aborted := s.aborted ++ [c] } : ManagerPageCaptureRuntime).Holds := by
  obtain ⟨hsound, hmarked⟩ := h
  have herased : ∀ {r' d}, (s.pending.erase r).lookup r' = some d → r' ≠ r ∧ s.pending.lookup r' = some d :=
    AList.lookup_erase_some
  -- a capture with a job stays where it is
  have hstays : ∀ {r' d}, s.jobOf d ≠ none → s.pending.lookup r' = some d → (s.pending.erase r).lookup r' = some d := by
    intro r' d hleased hd
    rw [AList.lookup_erase_ite, if_neg]
    · exact hd
    · rintro rfl
      rw [hpending, Option.some.injEq] at hd
      rw [← hd] at hleased
      exact hleased hjob
  refine ⟨⟨hsound.queued, hsound.submitting, hsound.submission, fun r' d hd => hsound.pending r' d (herased hd).2,
    fun r' d hd => ?_, fun d e hd he => hsound.unpublishedAlone d e hd (herased he).2, fun d hd hnone => ?_,
    fun d hd => ?_, hsound.polledApart, fun d hd => ?_, hsound.allocated, hsound.unjoined⟩, fun d hd => ?_⟩
  · obtain ⟨hnone, halone⟩ := hsound.queuedAlone r' d hd
    exact ⟨hnone, fun e he => halone e (herased he).2⟩
  · obtain ⟨hdone, honly⟩ := hsound.leaving d hd hnone
    refine ⟨?_, fun e he hleased => honly e (herased he).2 hleased⟩
    obtain haborted | hpend := hdone
    · exact Or.inl (List.mem_append_left _ haborted)
    · exact Or.inr (hstays (hsound.submission d hd) hpend)
  · obtain ⟨hknown, haway⟩ := hsound.taken d hd
    exact ⟨hknown, fun r' => ⟨(haway r').1, (haway r').2.1, fun hr' => (haway r').2.2 (herased hr').2⟩⟩
  · obtain ⟨hknown, hown, hother⟩ := hsound.polled d hd
    exact ⟨hknown, fun hleased => hstays hleased (hown hleased), fun hnone e he => hother hnone e (herased he).2⟩
  · obtain ⟨hmark, hqueued, hunpublished, hpendingMark, hready, hhanded, hkept⟩ := hmarked d hd
    refine ⟨hmark, hqueued, hunpublished, fun r' hr' => hpendingMark r' (herased hr').2, hready, hhanded, ?_⟩
    obtain hbefore | hqueue | hsame | ⟨r', hr'⟩ | hrest := hkept
    · exact Or.inl (List.mem_append_left _ hbefore)
    · exact Or.inr (Or.inl hqueue)
    · exact Or.inr (Or.inr (Or.inl hsame))
    · exact Or.inr (Or.inr (Or.inr (Or.inl ⟨r', hstays hmark hr'⟩)))
    · exact Or.inr (Or.inr (Or.inr (Or.inr hrest)))

/-- The request's submitted capture is not pending, or its pending object is marked already. -/
def Untorn (s : ManagerPageCaptureRuntime) (r : String) : Prop :=
  ∀ c, s.submittingJobs.lookup r = some c → s.pending.lookup r = some c → c ∈ s.pendingAbandoned

theorem Holds.preempt_queued (h : s.Holds) {r : String} {q : ℕ} (hq : s.queuedJobs.lookup r = some q) :
    ({ s with
      queuedAbandoned := insert q s.queuedAbandoned
      preempted := s.preempted ∪ s.found r } : ManagerPageCaptureRuntime).Holds := by
  obtain ⟨hnone, halone⟩ := h.sound.queuedAlone r q hq
  obtain ⟨hrequest, -⟩ := h.sound.queued r q hq
  refine h.mark (Finset.subset_insert _ _) (Finset.Subset.refl _) fun c hc => ?_
  refine (Finset.mem_union.mp hc).imp_right fun hfound => ?_
  obtain ⟨hjob, hat⟩ := mem_found.mp hfound
  have hsame : c = q := by
    obtain hqueued | hsubmitting | hpending := hat
    · exact Option.some.inj (hqueued.symm.trans hq)
    · rw [hnone] at hsubmitting
      cases hsubmitting
    · exact absurd (halone c hpending) hjob
  rw [hsame] at hjob ⊢
  refine ⟨hjob, fun _ _ => Finset.mem_insert_self _ _, fun _ => Finset.mem_insert_self _ _, fun r' hr' => ?_,
    fun haway => (haway r).1 hq, Or.inr (Or.inl ⟨r, hq⟩)⟩
  have howner := (h.sound.pending r' q hr').1
  rw [← howner, hrequest] at hr'
  exact absurd (halone q hr') hjob

theorem Holds.preempt_submitting (h : s.Holds) {r : String} {q : ℕ} (hq : s.submittingJobs.lookup r = some q)
    (huntorn : s.Untorn r) :
    ({ s with
      queuedAbandoned := insert q s.queuedAbandoned
      preempted := s.preempted ∪ s.found r } : ManagerPageCaptureRuntime).Holds := by
  obtain ⟨hsubmission, hrequest⟩ := (h.sound.submitting r q).mp hq
  have hunqueued : ∀ c, s.queuedJobs.lookup r ≠ some c := by
    intro c hc
    have hnone := (h.sound.queuedAlone r c hc).1
    rw [hq] at hnone
    cases hnone
  have honly : ∀ d, s.pending.lookup r = some d → s.jobOf d ≠ none → d = q := by
    intro d hd hleased
    rw [← hrequest] at hd
    cases hkind : s.phase.unpublished with
    | none => exact (h.sound.leaving q hsubmission hkind).2 d hd hleased
    | some c =>
        have hsame := (ProgressPhase.submission_of_unpublished hkind).symm.trans hsubmission
        cases hsame
        exact absurd (h.sound.unpublishedAlone q d hkind hd) hleased
  refine h.mark (Finset.subset_insert _ _) (Finset.Subset.refl _) fun c hc => ?_
  refine (Finset.mem_union.mp hc).imp_right fun hfound => ?_
  obtain ⟨hjob, hat⟩ := mem_found.mp hfound
  have hsame : c = q := by
    obtain hqueued | hsubmitting | hpending := hat
    · exact absurd hqueued (hunqueued c)
    · exact Option.some.inj (hsubmitting.symm.trans hq)
    · exact honly c hpending hjob
  rw [hsame] at hjob ⊢
  refine ⟨hjob, fun _ _ => Finset.mem_insert_self _ _, fun _ => Finset.mem_insert_self _ _, fun r' hr' => ?_,
    fun haway => (haway r).2.1 hq, ?_⟩
  · have howner := (h.sound.pending r' q hr').1
    rw [← howner, hrequest] at hr'
    exact huntorn q hq hr'
  · cases hkind : s.phase.unpublished with
    | none =>
        obtain haborted | hpending := (h.sound.leaving q hsubmission hkind).1
        · exact Or.inl haborted
        · exact Or.inr (Or.inr (Or.inr ⟨_, hpending⟩))
    | some c =>
        have hsame' := (ProgressPhase.submission_of_unpublished hkind).symm.trans hsubmission
        exact Or.inr (Or.inr (Or.inl hsame'))

theorem Holds.preempt_pending (h : s.Holds) {r : String} {q : ℕ} (hqueued : s.queuedJobs.lookup r = none)
    (hsubmitting : s.submittingJobs.lookup r = none) (hq : s.pending.lookup r = some q) (hleased : s.jobOf q ≠ none) :
    ({ s with
      pendingAbandoned := insert q s.pendingAbandoned
      preempted := s.preempted ∪ s.found r } : ManagerPageCaptureRuntime).Holds := by
  obtain ⟨hrequest, -⟩ := h.sound.pending r q hq
  refine h.mark (Finset.Subset.refl _) (Finset.subset_insert _ _) fun c hc => ?_
  refine (Finset.mem_union.mp hc).imp_right fun hfound => ?_
  obtain ⟨-, hat⟩ := mem_found.mp hfound
  have hsame : c = q := by
    obtain hc | hc | hc := hat
    · rw [hqueued] at hc
      cases hc
    · rw [hsubmitting] at hc
      cases hc
    · exact Option.some.inj (hc.symm.trans hq)
  rw [hsame]
  refine ⟨hleased, fun r' hr' => ?_, fun hunpublished => ?_, fun _ _ => Finset.mem_insert_self _ _,
    fun haway => (haway r).2.2 hq, Or.inr (Or.inr (Or.inr ⟨r, hq⟩))⟩
  · have howner := (h.sound.queued r' q hr').1
    rw [← howner, hrequest, hqueued] at hr'
    cases hr'
  · have hin := (h.sound.submitting r q).mpr ⟨ProgressPhase.submission_of_unpublished hunpublished, hrequest⟩
    rw [hsubmitting] at hin
    cases hin

/-- A preemption that finds no capture of a job marks nothing. -/
theorem found_eq_empty {r : String} (hqueued : s.queuedJobs.lookup r = none) (hsubmitting : s.submittingJobs.lookup r = none)
    (hpending : ∀ c, s.pending.lookup r = some c → s.jobOf c = none) : s.found r = ∅ := by
  refine Finset.eq_empty_of_forall_notMem fun c hc => ?_
  obtain ⟨hjob, hat⟩ := mem_found.mp hc
  rw [hqueued, hsubmitting] at hat
  obtain hat | hat | hat := hat
  · cases hat
  · cases hat
  · exact hjob (hpending c hat)

theorem Holds.preempt (h : s.Holds) (r : String) (huntorn : s.Untorn r) : (s.preempt r).Holds := by
  unfold ManagerPageCaptureRuntime.preempt
  dsimp only
  cases hqueued : s.queuedJobs.lookup r with
  | some q => exact h.preempt_queued hqueued
  | none =>
      dsimp only [Option.orElse]
      cases hsubmitting : s.submittingJobs.lookup r with
      | some q => exact h.preempt_submitting hsubmitting huntorn
      | none =>
          cases hpending : s.pending.lookup r with
          | none =>
              have hfound : s.found r = ∅ := found_eq_empty hqueued hsubmitting (by simp [hpending])
              rw [hfound, Finset.union_empty]
              exact h
          | some q =>
              dsimp only
              split
              · rename_i hleased
                exact h.preempt_pending hqueued hsubmitting hpending (Option.isSome_iff_ne_none.mp hleased)
              · rename_i hleased
                have hjob : s.jobOf q = none := Option.not_isSome_iff_eq_none.mp hleased
                have hfound : s.found r = ∅ := by
                  refine found_eq_empty hqueued hsubmitting fun c hc => ?_
                  rw [hpending, Option.some.injEq] at hc
                  rw [← hc]
                  exact hjob
                rw [hfound, Finset.union_empty]
                exact h.discard hpending hjob

theorem Holds.quiesce (h : s.Holds) : s.quiesce.Holds := by
  unfold ManagerPageCaptureRuntime.quiesce
  split
  · exact h
  · exact h.mark Finset.subset_union_left (Finset.Subset.refl _) fun _ hc => Or.inl hc

/-- Shutdown detaches what is pending and aborts what is queued. -/
theorem Holds.join (h : s.Holds) : s.join.Holds := by
  unfold ManagerPageCaptureRuntime.join
  split
  · rename_i hphase
    split
    · rename_i hopen
      obtain ⟨hsound, hmarked⟩ := h
      have hempty := hsound.unjoined hopen.2
      refine ⟨⟨fun _ _ h => (nomatch h), hsound.submitting, hsound.submission, fun _ _ h => (nomatch h),
        fun _ _ h => (nomatch h), fun _ _ _ h => (nomatch h), fun c hc => ?_, fun c hc => ?_, ?_, fun c hc => ?_,
        hsound.allocated, fun h => (nomatch h)⟩, fun c hc => ?_⟩
      · have hnone : s.phase.submission = some c := hc
        rw [hphase] at hnone
        cases hnone
      · obtain ⟨hknown, haway⟩ := hsound.taken c hc
        exact ⟨hknown, fun r => ⟨fun h => (nomatch h), (haway r).2.1, fun h => (nomatch h)⟩⟩
      · dsimp only
        rw [hphase]
        exact List.nodup_nil
      · have hpolled : c ∈ s.phase.polled := hc
        rw [hphase] at hpolled
        cases hpolled
      · obtain ⟨hjob, -, hunpublished, -, hready, hhanded, hkept⟩ := hmarked c hc
        refine ⟨hjob, fun _ h => (nomatch h), hunpublished, fun _ h => (nomatch h), hready, hhanded, ?_⟩
        obtain haborted | ⟨r, hr⟩ | hsame | ⟨r, hr⟩ | htaken | hdraining := hkept
        · exact Or.inl (List.mem_append_left _ haborted)
        · exact Or.inl (List.mem_append_right _ (mem_listed hr))
        · exact Or.inr (Or.inr (Or.inl hsame))
        · exact Or.inr (Or.inr (Or.inr (Or.inr (Or.inr (mem_listed hr)))))
        · exact Or.inr (Or.inr (Or.inr (Or.inr (Or.inl htaken))))
        · rw [hempty] at hdraining
          cases hdraining
    · exact h
  · exact h

/-- The shutdown's drains go on, or drop what is aborted or was not preempted. -/
theorem Holds.redrain (h : s.Holds) {draining aborted : List ℕ} {drainingJobs : Finset CaptureJob}
    (hrest : draining ⊆ s.draining) (haborted : s.aborted ⊆ aborted)
    (hleft : ∀ c ∈ s.draining, c ∈ s.preempted → c ∈ draining ∨ c ∈ aborted) :
    ({ s with draining := draining, drainingJobs := drainingJobs, aborted := aborted } : ManagerPageCaptureRuntime).Holds := by
  obtain ⟨hsound, hmarked⟩ := h
  refine ⟨⟨hsound.queued, hsound.submitting, hsound.submission, hsound.pending, hsound.queuedAlone,
    hsound.unpublishedAlone, fun c hc hnone => ?_, hsound.taken, hsound.polledApart, hsound.polled, hsound.allocated,
    fun hjoined => ?_⟩, fun c hc => ?_⟩
  · exact (hsound.leaving c hc hnone).imp_left fun hdone => hdone.imp_left fun hbefore => haborted hbefore
  · have hempty := hsound.unjoined hjoined
    rw [hempty] at hrest
    exact List.subset_nil.mp hrest
  · obtain ⟨hjob, hqueued, hunpublished, hpending, hready, hhanded, hkept⟩ := hmarked c hc
    refine ⟨hjob, hqueued, hunpublished, hpending, hready, hhanded, ?_⟩
    obtain hbefore | hqueue | hsame | hpend | htaken | hdraining := hkept
    · exact Or.inl (haborted hbefore)
    · exact Or.inr (Or.inl hqueue)
    · exact Or.inr (Or.inr (Or.inl hsame))
    · exact Or.inr (Or.inr (Or.inr (Or.inl hpend)))
    · exact Or.inr (Or.inr (Or.inr (Or.inr (Or.inl htaken))))
    · obtain hstill | hdone := hleft c hdraining hc
      · exact Or.inr (Or.inr (Or.inr (Or.inr (Or.inr hstill))))
      · exact Or.inl hdone

/-- What an exception of the ring would drop from a completion pass. -/
def dropped (s : ManagerPageCaptureRuntime) : List ℕ :=
  match s.phase with
  | .poll (capture :: _) ready => if s.Polls capture then ready else []
  | .undo capture ready => capture :: ready
  | _ => []

/-- No preemption comes between the sections in which a capture becomes pending and leaves the table of
submissions, and no exception of the ring drops a preempted capture that was not aborted. -/
def Meets (s : ManagerPageCaptureRuntime) : CaptureAction → Prop
  | .preempt requestId => s.Untorn requestId
  | .drain .raises => ∀ c ∈ s.draining, c ∈ s.preempted → c ∈ s.aborted
  | .progress .raises => ∀ c ∈ s.dropped, c ∈ s.preempted → c ∈ s.aborted
  | _ => True

theorem Holds.drain (h : s.Holds) (answer : RingAnswer) (hmeets : s.Meets (.drain answer)) : (s.drain answer).Holds := by
  unfold ManagerPageCaptureRuntime.drain
  split
  · exact h
  · rename_i capture rest hdraining
    split
    · rename_i hraises
      rw [hraises] at hmeets
      exact h.redrain (List.nil_subset _) (List.Subset.refl _) fun c hc hpreempted => Or.inr (hmeets c hc hpreempted)
    · refine h.redrain ?_ (List.subset_append_left _ _) fun c hc _ => ?_
      · rw [hdraining]
        exact List.subset_cons_self _ _
      · rw [hdraining] at hc
        obtain rfl | hrest := List.mem_cons.mp hc
        · exact Or.inr (List.mem_append_right _ (List.mem_singleton_self _))
        · exact Or.inl hrest

/-- The progress thread goes on in a submission, or outside of one and of a pass. -/
theorem Holds.go (h : s.Holds) {before : ProgressPhase} (hphase : s.phase = before) (phase : ProgressPhase)
    (hsame : phase.submission = before.submission ∧ phase.unpublished = before.unpublished ∧
      phase.ready = before.ready ∧ phase.polled.Sublist before.polled) : (s.enter phase).Holds := by
  rw [← hphase] at hsame
  exact h.enter hsame.1 hsame.2.1 hsame.2.2.1 hsame.2.2.2

/-- A capture that was taken is discarded. -/
theorem Holds.discardTaken (h : s.Holds) {c : ℕ} {rest : List ℕ} (hready : s.phase.ready = c :: rest)
    (hsubmission : s.phase.submission = none) : (s.abortCapture c (.deliver rest)).Holds :=
  h.settle hready hsubmission ⟨rfl, rfl⟩ (Or.inl rfl) (List.subset_append_left _ _)
    (Or.inr ⟨rfl, Or.inl (List.mem_append_right _ (List.mem_singleton_self _))⟩)

theorem Holds.progress_submission (h : s.Holds) (answer : RingAnswer) {c : ℕ} (hc : s.phase.submission = some c) :
    (s.progress answer).Holds := by
  unfold ManagerPageCaptureRuntime.progress
  cases hphase : s.phase with
  | check c rest =>
      dsimp only
      split
      · exact h.abortSubmission (by rw [hphase]; rfl) (by rw [hphase]; rfl) (by rw [hphase]; rfl)
      · exact h.go hphase _ ⟨rfl, rfl, rfl, List.Sublist.refl _⟩
  | select c rest =>
      dsimp only
      split
      · exact h.abortSubmission (by rw [hphase]; rfl) (by rw [hphase]; rfl) (by rw [hphase]; rfl)
      · exact h.go hphase _ ⟨rfl, rfl, rfl, List.Sublist.refl _⟩
  | recheck c rest =>
      dsimp only
      split
      · exact h.abortSubmission (by rw [hphase]; rfl) (by rw [hphase]; rfl) (by rw [hphase]; rfl)
      · exact h.go hphase _ ⟨rfl, rfl, rfl, List.Sublist.refl _⟩
  | submitNative c rest =>
      cases answer with
      | done => exact h.go hphase _ ⟨rfl, rfl, rfl, List.Sublist.refl _⟩
      | nothing => exact h.abortSubmission (by rw [hphase]; rfl) (by rw [hphase]; rfl) (by rw [hphase]; rfl)
      | raises => exact h.go hphase _ ⟨rfl, rfl, rfl, List.Sublist.refl _⟩
  | drainNative c rest =>
      have haborted : (s.abortCapture c (.leave c rest)).Holds :=
        h.abortSubmission (by rw [hphase]; rfl) (by rw [hphase]; rfl) (by rw [hphase]; rfl)
      dsimp only
      split
      · exact haborted.fail _ _
      · exact haborted
  | publish c rest => exact h.publish hphase
  | leave c rest => exact h.leave hphase
  | _ =>
      rw [hphase] at hc
      cases hc

theorem Holds.progress_pass (h : s.Holds) (answer : RingAnswer) (hmeets : s.Meets (.progress answer))
    (hsubmission : s.phase.submission = none) : (s.progress answer).Holds := by
  unfold ManagerPageCaptureRuntime.progress
  cases hphase : s.phase with
  | starting =>
      dsimp only
      split <;> exact h.go hphase _ ⟨rfl, rfl, rfl, List.Sublist.refl _⟩
  | waiting => cases hclosed : s.closed <;> exact h.go hphase _ ⟨rfl, rfl, rfl, List.Sublist.refl _⟩
  | collectJobs => exact h.go hphase _ ⟨rfl, rfl, rfl, List.Sublist.refl _⟩
  | nextJob requests =>
      cases requests with
      | nil => exact h.go hphase _ ⟨rfl, rfl, rfl, List.Sublist.refl _⟩
      | cons r rest =>
          dsimp only
          cases hlookup : s.queuedJobs.lookup r with
          | none => exact h.go hphase _ ⟨rfl, rfl, rfl, List.Sublist.refl _⟩
          | some c => exact h.pop hphase hlookup
  | collectPending =>
      dsimp only
      split
      · exact (h.go hphase .waiting ⟨rfl, rfl, rfl, List.Sublist.refl _⟩).fail _ _
      · exact h.collect hphase
  | poll captures ready =>
      cases captures with
      | nil => exact h.go hphase _ ⟨rfl, rfl, rfl, List.Sublist.refl _⟩
      | cons c rest =>
          dsimp only
          split
          · rename_i hpolls
            cases answer with
            | done => exact h.go hphase _ ⟨rfl, rfl, rfl, List.Sublist.refl _⟩
            | nothing => exact h.go hphase _ ⟨rfl, rfl, rfl, List.sublist_cons_self _ _⟩
            | raises =>
                refine h.drop hsubmission fun d hd hpreempted => hmeets d ?_ hpreempted
                rw [hphase] at hd
                rw [dropped, hphase]
                dsimp only
                rw [if_pos hpolls]
                exact hd
          · exact h.go hphase _ ⟨rfl, rfl, rfl, List.sublist_cons_self _ _⟩
  | take c rest ready =>
      dsimp only
      split
      · exact h.go hphase _ ⟨rfl, rfl, rfl, List.sublist_cons_self _ _⟩
      · rename_i hpresent
        exact h.take hphase hpresent
  | deliver ready =>
      cases ready with
      | nil => exact h.go hphase _ ⟨rfl, rfl, rfl, List.Sublist.refl _⟩
      | cons c rest =>
          have hready : s.phase.ready = c :: rest := by rw [hphase]; rfl
          dsimp only
          split
          · split
            · exact h.go hphase _ ⟨rfl, rfl, rfl, List.Sublist.refl _⟩
            · exact h.discardTaken hready hsubmission
          · rename_i hunmarked
            cases answer with
            | done =>
                exact h.settle hready hsubmission ⟨rfl, rfl⟩ (Or.inr ⟨rfl, hunmarked⟩) (List.Subset.refl _)
                  (Or.inr ⟨rfl, Or.inr hunmarked⟩)
            | nothing => exact h.go hphase _ ⟨rfl, rfl, rfl, List.Sublist.refl _⟩
            | raises =>
                exact h.settle hready hsubmission ⟨rfl, rfl⟩ (Or.inr ⟨rfl, hunmarked⟩)
                  (List.Subset.refl _) (Or.inl rfl)
  | undo c rest =>
      have hready : s.phase.ready = c :: rest := by rw [hphase]; rfl
      dsimp only
      split
      · rename_i hraises
        rw [hraises] at hmeets
        refine h.drop hsubmission fun d hd hpreempted => hmeets d ?_ hpreempted
        rw [hready] at hd
        rw [dropped, hphase]
        exact hd
      · exact h.discardTaken hready hsubmission
  | failing => exact h.failing hphase _
  | ended => exact h
  | _ =>
      rw [hphase] at hsubmission
      cases hsubmission

theorem Holds.step (h : s.Holds) (action : CaptureAction) (hmeets : s.Meets action) : (s.step action).Holds := by
  cases action with
  | submitJob r job starts => exact h.submitJob r job starts
  | submitRequest r answer => exact h.submitRequest r answer
  | preempt r => exact h.preempt r hmeets
  | quiesce => exact h.quiesce
  | join => exact h.join
  | drain answer => exact h.drain answer hmeets
  | progress answer =>
      cases hsubmission : s.phase.submission with
      | none => exact h.progress_pass answer hmeets hsubmission
      | some c => exact h.progress_submission answer hsubmission

/-! ## Shutdown -/

/-- After the join nothing is queued or pending any more. -/
def Shut (s : ManagerPageCaptureRuntime) : Prop :=
  s.joined = true → s.closed = true ∧ s.phase = .ended ∧ s.queuedJobs = ∅ ∧ s.pending = ∅

theorem submitJob_frame (r : String) (job : CaptureJob) (starts : Bool) :
    (s.submitJob r job starts).joined = s.joined ∧ (s.submitJob r job starts).preempted = s.preempted := by
  unfold ManagerPageCaptureRuntime.submitJob
  dsimp only
  repeat' first | exact ⟨rfl, rfl⟩ | split

theorem submitRequest_frame (r : String) (answer : RingAnswer) :
    (s.submitRequest r answer).joined = s.joined ∧ (s.submitRequest r answer).preempted = s.preempted := by
  unfold ManagerPageCaptureRuntime.submitRequest
  repeat' first | exact ⟨rfl, rfl⟩ | split

theorem preempt_frame (r : String) :
    (s.preempt r).joined = s.joined ∧ (s.preempt r).preempted = s.preempted ∪ s.found r := by
  unfold ManagerPageCaptureRuntime.preempt
  dsimp only
  repeat' first | exact ⟨rfl, rfl⟩ | split

theorem quiesce_frame : s.quiesce.joined = s.joined ∧ s.quiesce.preempted = s.preempted := by
  unfold ManagerPageCaptureRuntime.quiesce
  split <;> exact ⟨rfl, rfl⟩

theorem progress_frame (answer : RingAnswer) :
    (s.progress answer).joined = s.joined ∧ (s.progress answer).preempted = s.preempted := by
  unfold ManagerPageCaptureRuntime.progress
  repeat' first | exact ⟨rfl, rfl⟩ | split

/-- A preemption of a runtime with nothing pending only marks. -/
theorem preempt_marks (r : String) (h : s.pending = ∅) : (s.preempt r).closed = s.closed ∧
    (s.preempt r).phase = s.phase ∧ (s.preempt r).queuedJobs = s.queuedJobs ∧ (s.preempt r).pending = ∅ := by
  unfold ManagerPageCaptureRuntime.preempt
  dsimp only
  rw [h]
  split <;> exact ⟨rfl, rfl, rfl, rfl⟩

theorem drain_frame (answer : RingAnswer) : (s.drain answer).joined = s.joined ∧ (s.drain answer).closed = s.closed ∧
    (s.drain answer).phase = s.phase ∧ (s.drain answer).queuedJobs = s.queuedJobs ∧
    (s.drain answer).pending = s.pending ∧ (s.drain answer).preempted = s.preempted := by
  unfold ManagerPageCaptureRuntime.drain
  split
  · exact ⟨rfl, rfl, rfl, rfl, rfl, rfl⟩
  · split <;> exact ⟨rfl, rfl, rfl, rfl, rfl, rfl⟩

theorem Shut.join (h : s.Shut) : s.join.Shut := by
  unfold ManagerPageCaptureRuntime.join
  split
  · rename_i hphase
    split
    · rename_i hopen
      exact fun _ => ⟨hopen.1, hphase, rfl, rfl⟩
    · exact h
  · exact h

theorem Shut.step (h : s.Shut) (action : CaptureAction) : (s.step action).Shut := by
  cases action with
  | submitJob r job starts =>
      intro hjoined
      have hbefore := (submitJob_frame r job starts).1.symm.trans hjoined
      have hsame : s.submitJob r job starts = s := if_pos (Or.inr (Or.inl (h hbefore).1))
      rw [ManagerPageCaptureRuntime.step, hsame]
      exact h hbefore
  | submitRequest r answer =>
      intro hjoined
      have hbefore := (submitRequest_frame r answer).1.symm.trans hjoined
      have hsame : s.submitRequest r answer = s := if_pos (Or.inl (h hbefore).1)
      rw [ManagerPageCaptureRuntime.step, hsame]
      exact h hbefore
  | preempt r =>
      intro hjoined
      obtain ⟨hclosed, hphase, hqueued, hpending⟩ := h ((preempt_frame r).1.symm.trans hjoined)
      obtain ⟨hclosed', hphase', hqueued', hpending'⟩ := preempt_marks r hpending
      exact ⟨hclosed'.trans hclosed, hphase'.trans hphase, hqueued'.trans hqueued, hpending'⟩
  | quiesce =>
      intro hjoined
      have hbefore := quiesce_frame.1.symm.trans hjoined
      have hsame : s.quiesce = s := if_pos (h hbefore).1
      rw [ManagerPageCaptureRuntime.step, hsame]
      exact h hbefore
  | join => exact h.join
  | drain answer =>
      intro hjoined
      obtain ⟨hjoined', hclosed, hphase, hqueued, hpending, -⟩ := drain_frame (s := s) answer
      rw [ManagerPageCaptureRuntime.step, hclosed, hphase, hqueued, hpending]
      exact h (hjoined'.symm.trans hjoined)
  | progress answer =>
      intro hjoined
      have hbefore := (progress_frame answer).1.symm.trans hjoined
      have hsame : s.progress answer = s := by rw [ManagerPageCaptureRuntime.progress, (h hbefore).2.1]
      rw [ManagerPageCaptureRuntime.step, hsame]
      exact h hbefore

/-! ## Runs -/

/-- What a preemption has found stays recorded. -/
theorem step_preempted (action : CaptureAction) : s.preempted ⊆ (s.step action).preempted := by
  cases action with
  | submitJob r job starts => exact (submitJob_frame r job starts).2.symm.subset
  | submitRequest r answer => exact (submitRequest_frame r answer).2.symm.subset
  | preempt r =>
      rw [ManagerPageCaptureRuntime.step, (preempt_frame r).2]
      exact Finset.subset_union_left
  | quiesce => exact quiesce_frame.2.symm.subset
  | join =>
      have hsame : s.join.preempted = s.preempted := by
        unfold ManagerPageCaptureRuntime.join
        repeat' first | rfl | split
      exact hsame.symm.subset
  | drain answer => exact (drain_frame answer).2.2.2.2.2.symm.subset
  | progress answer => exact (progress_frame answer).2.symm.subset

theorem exec_holds {actions : List CaptureAction} (h : s.Holds) (hmeets : Run.Throughout step Meets s actions) :
    (Run.exec step s actions).Holds := by
  induction actions generalizing s with
  | nil => exact h
  | cons action rest ih => exact ih (h.step action hmeets.1) hmeets.2

theorem exec_shut {actions : List CaptureAction} (h : s.Shut) : (Run.exec step s actions).Shut := by
  induction actions generalizing s with
  | nil => exact h
  | cons action rest ih => exact ih (h.step action)

theorem exec_preempted (actions : List CaptureAction) : s.preempted ⊆ (Run.exec step s actions).preempted := by
  induction actions generalizing s with
  | nil => exact Finset.Subset.refl _
  | cons action rest ih => exact (step_preempted action).trans ih

/-- The runtime still holds a capture whose publication it has to settle. -/
def Held (s : ManagerPageCaptureRuntime) (c : ℕ) : Prop :=
  (∃ r, s.queuedJobs.lookup r = some c) ∨ s.phase.unpublished = some c ∨ (∃ r, s.pending.lookup r = some c) ∨
    c ∈ s.phase.ready ∨ c ∈ s.draining

theorem Shut.not_held (h : s.Shut) (hjoined : s.joined = true) (hdraining : s.draining = []) (c : ℕ) : ¬ s.Held c := by
  obtain ⟨-, hphase, hqueued, hpending⟩ := h hjoined
  rw [Held, hqueued, hpending, hdraining, hphase]
  simp [ProgressPhase.unpublished, ProgressPhase.submission, ProgressPhase.ready]

/-- A capture of a job that a preemption finds queued, submitted or pending is never handed over. Its
publication is aborted as soon as the runtime holds it no more, at the latest by the shutdown. -/
theorem preempted_capture_aborted (before after : List CaptureAction) (requestId : String) (c : ℕ)
    (hmeets : Run.Throughout step Meets new (before ++ .preempt requestId :: after))
    (hfound : c ∈ (Run.exec step new before).found requestId) :
    let s := Run.exec step new (before ++ .preempt requestId :: after)
    c ∉ s.handed ∧ (c ∈ s.aborted ∨ s.Held c) ∧ (s.joined = true → s.draining = [] → c ∈ s.aborted) := by
  intro s
  have hpreempted : c ∈ s.preempted := by
    change c ∈ (Run.exec step new (before ++ .preempt requestId :: after)).preempted
    rw [Run.exec_append, Run.exec_cons]
    refine exec_preempted after ?_
    rw [ManagerPageCaptureRuntime.step, (preempt_frame requestId).2]
    exact Finset.mem_union_right _ hfound
  have hmarked := (exec_holds new_holds hmeets).marked c hpreempted
  have hshut : s.Shut := exec_shut fun h => (nomatch h)
  refine ⟨hmarked.handed, hmarked.kept, fun hjoined hdraining => ?_⟩
  exact hmarked.kept.resolve_right (hshut.not_held hjoined hdraining c)

/-- A capture that is preempted while it is queued is aborted in its submission. -/
theorem preempted_capture_aborted_queued :
    let s := Run.exec step new
      ([.submitJob "r" ⟨"e", 1⟩ true] ++ .preempt "r" :: List.replicate 6 (.progress .done))
    0 ∉ s.handed ∧ (0 ∈ s.aborted ∨ s.Held 0) ∧ (s.joined = true → s.draining = [] → 0 ∈ s.aborted) :=
  preempted_capture_aborted [.submitJob "r" ⟨"e", 1⟩ true] (List.replicate 6 (.progress .done)) "r" 0
    ⟨trivial, fun _ h => (nomatch h), trivial, trivial, trivial, trivial, trivial, trivial, trivial⟩ (by decide)

/-- The capture is pending and still in the table of submissions when it is preempted: only its queued
object is marked, and the completion pass hands it over. -/
theorem preempted_capture_handed :
    let before := .submitJob "r" ⟨"e", 1⟩ true :: List.replicate 9 (.progress .done)
    let after := List.replicate 7 (.progress .done)
    let s := Run.exec step new (before ++ .preempt "r" :: after)
    0 ∈ (Run.exec step new before).found "r" ∧ 0 ∈ s.handed ∧ 0 ∉ s.aborted := by
  decide

end ManagerPageCaptureRuntime
end SparkCache.Streaming
