import SparkCache.Streaming.SnapshotAdapters

/-!
# Finished requests whose release is delayed

The worker returns a request only while the scheduler's adapter delays it, and keeps every delayed
request that was presented to it, when no step presents a request that its metadata offers and the
adapters do not both know, or that was returned and not offered again.
-/
namespace SparkCache.Streaming

/-! ## Leases -/

namespace BlockLeaseRegistry
variable {c : LeaseCapacity} {r r' : BlockLeaseRegistry}

theorem Sound.change (h : r.Sound c) (change : LeaseChange) : ∃ r', r.change c change = some r' ∧ r'.Sound c := by
  cases change with
  | reserve requestId blockIds => exact ⟨_, rfl, h.tryReserve requestId blockIds⟩
  | enter leaseId state =>
      rw [BlockLeaseRegistry.change]
      cases hlookup : r.leases.lookup leaseId with
      | none => exact ⟨r, rfl, h⟩
      | some lease => exact ⟨_, rfl, (h.setState hlookup state).1⟩
  | release leaseId =>
      rw [BlockLeaseRegistry.change]
      cases hlookup : r.leases.lookup leaseId with
      | none => exact ⟨r, rfl, h⟩
      | some lease =>
          obtain ⟨r', hreleased, -, -, hsound⟩ := h.releaseLocked hlookup
          exact ⟨r', hreleased, hsound⟩

/-- The sections of the registry do not raise, and keep it. -/
theorem Sound.changeAll (h : r.Sound c) (changes : List LeaseChange) :
    ∃ r', r.changeAll c changes = some r' ∧ r'.Sound c := by
  induction changes generalizing r with
  | nil => exact ⟨r, rfl, h⟩
  | cons change rest ih =>
      obtain ⟨r', hchange, hsound⟩ := h.change change
      obtain ⟨r'', hrest, hsound'⟩ := ih hsound
      refine ⟨r'', ?_, hsound'⟩
      rw [BlockLeaseRegistry.changeAll, List.foldlM_cons, hchange]
      exact hrest

theorem Sound.takeFinished (h : r.Sound c) {fence : ℕ → Option Bool} {finished ready : Finset String}
    (htake : r.takeFinished c fence finished = some (r', ready)) :
    r'.Sound c ∧ ready ⊆ finished ∧ ∀ id lease, r'.leases.lookup id = some lease → lease.requestId ∉ ready := by
  unfold BlockLeaseRegistry.takeFinished at htake
  obtain ⟨polled, hpoll, heq⟩ := Option.bind_eq_some_iff.mp htake
  cases heq
  have hsound : r'.Sound c := by
    unfold BlockLeaseRegistry.poll at hpoll
    dsimp only at hpoll
    split at hpoll
    · cases hpoll
    · obtain ⟨known, hknown, hsound⟩ := h.changeAll _
      rw [hknown, Option.some.injEq] at hpoll
      rwa [hpoll] at hsound
  refine ⟨hsound, Finset.filter_subset _ _, fun id lease hlease hmem => ?_⟩
  obtain ⟨ids, hids, -⟩ := (hsound.requests lease.requestId id).mpr ⟨lease, hlease, rfl⟩
  rw [Finset.mem_filter, hids] at hmem
  cases hmem.2

end BlockLeaseRegistry

/-! ## The worker's adapter -/

namespace WorkerStreamingSnapshotAdapter
variable {c : LeaseCapacity} {w w' : WorkerStreamingSnapshotAdapter}

/-- What decides on finished requests is the same. -/
structure Keeps (c : LeaseCapacity) (w w' : WorkerStreamingSnapshotAdapter) : Prop where
  seen : w'.seenRequests = w.seenRequests
  pending : w'.pendingFinishedRequests = w.pendingFinishedRequests
  leases : w.leases.Sound c → w'.leases.Sound c

theorem Keeps.refl (w : WorkerStreamingSnapshotAdapter) : Keeps c w w := ⟨rfl, rfl, id⟩

theorem Keeps.trans {w'' : WorkerStreamingSnapshotAdapter} (h : Keeps c w w') (h' : Keeps c w' w'') : Keeps c w w'' :=
  ⟨h'.seen.trans h.seen, h'.pending.trans h.pending, fun hsound => h'.leases (h.leases hsound)⟩

theorem call_keeps {α : Type} (a : RuntimeAnswer α) : Keeps c w (w.call c a).1 := by
  unfold call
  split
  · exact Keeps.refl w
  · rename_i leases hchange
    refine ⟨rfl, rfl, fun hsound => ?_⟩
    obtain ⟨known, hknown, hsound'⟩ := hsound.changeAll a.changes
    rw [hchange, Option.some.injEq] at hknown
    rwa [hknown]

theorem settleAborted_keeps (aborted : List (String × String)) : Keeps c w (aborted.foldl settleAborted w) := by
  induction aborted generalizing w with
  | nil => exact Keeps.refl w
  | cons entry rest ih =>
      have hone : Keeps c w (w.settleAborted entry) := ⟨rfl, rfl, id⟩
      exact hone.trans ih

theorem settleCommitted_keeps (committed : List Str) : Keeps c w (committed.foldl settleCommitted w) := by
  induction committed generalizing w with
  | nil => exact Keeps.refl w
  | cons digest rest ih =>
      have hone : Keeps c w (w.settleCommitted digest) := by
        unfold settleCommitted
        split <;> exact ⟨rfl, rfl, id⟩
      exact hone.trans ih

theorem poll_keeps (a : PollAnswers) : Keeps c w (w.poll c a).1 := by
  have hcall := call_keeps (c := c) (w := w) a.poll
  unfold poll
  split
  · exact Keeps.refl w
  · cases hanswer : w.call c a.poll with
    | mk called answer =>
        rw [hanswer] at hcall
        cases answer with
        | none => exact hcall
        | some answer =>
            have haborted := hcall.trans (settleAborted_keeps a.aborted)
            dsimp only
            split
            · exact haborted
            · split
              · exact haborted
              · exact haborted.trans (settleCommitted_keeps a.committed)

theorem acceptOffer_keeps (requestId : String) (a : OfferAnswers) : Keeps c w (w.acceptOffer c requestId a).1 := by
  have hcall := call_keeps (c := c) (w := w) a.acceptCompletedPrefill
  unfold acceptOffer
  split <;> rename_i hanswer <;> rw [hanswer] at hcall
  · exact hcall
  · exact hcall.trans ⟨rfl, rfl, id⟩
  · exact hcall

/-- An offer is remembered, unless it is rejected. -/
theorem offerCompleted_keeps (offer : SnapshotOffer) (a : OfferAnswers) :
    Keeps c { w with seenRequests := insert offer.requestId w.seenRequests } (w.offerCompleted c offer a).1 ∨
      w.offerCompleted c offer a = (w, false) := by
  unfold offerCompleted
  dsimp only
  split
  · exact Or.inr rfl
  split
  · exact Or.inr rfl
  refine Or.inl ?_
  set seen : WorkerStreamingSnapshotAdapter := { w with seenRequests := insert offer.requestId w.seenRequests }
  split
  · have hcancel : Keeps c seen
        (if offer.requestId ∈ w.admittedRequests then seen.call c a.cancel else (seen, some ())).1 := by
      split
      · exact call_keeps a.cancel
      · exact Keeps.refl seen
    split <;> rename_i hanswer <;> rw [hanswer] at hcancel
    · exact hcancel
    · exact hcancel.trans ⟨rfl, rfl, id⟩
  split
  · exact Keeps.refl seen
  have hcontext : Keeps c seen { seen with
      contexts := if w.contexts.lookup offer.requestId = none
        then w.contexts.insert offer.requestId (offer.digest, offer.spanTokens) else w.contexts } := ⟨rfl, rfl, id⟩
  split
  · exact hcontext.trans (acceptOffer_keeps _ a)
  · have hbegin := hcontext.trans (call_keeps a.beginContext)
    split <;> rename_i hanswer <;> rw [hanswer] at hbegin
    · exact hbegin
    · exact hbegin.trans ⟨rfl, rfl, id⟩
    · refine Keeps.trans ?_ (acceptOffer_keeps offer.requestId a)
      exact hbegin.trans ⟨rfl, rfl, id⟩

theorem preemptAll_keeps (a : String → RuntimeAnswer Bool) (requestIds : List String) :
    Keeps c w (w.preemptAll c a requestIds).1 := by
  induction requestIds generalizing w with
  | nil => exact Keeps.refl w
  | cons requestId rest ih =>
      have hcall := call_keeps (c := c) (w := w) (a requestId)
      rw [preemptAll]
      split <;> rename_i hanswer <;> rw [hanswer] at hcall
      · exact hcall
      · refine Keeps.trans ?_ ih
        exact hcall.trans ⟨rfl, rfl, id⟩
      · exact hcall.trans ih

/-- A preemption forgets its requests, unless it raises. -/
theorem handlePreemptions_keeps (requestIds : List String) (a : String → RuntimeAnswer Bool) (polled : PollAnswers) :
    (∃ w', w.handlePreemptions c requestIds a polled = (w', false) ∧ Keeps c w w') ∨
      ∃ w', w.handlePreemptions c requestIds a polled = (w', true) ∧
        Keeps c (w.retireFinishedRequests requestIds.toFinset) w' := by
  have hpreempt := preemptAll_keeps (c := c) (w := w) a requestIds
  unfold handlePreemptions
  split
  · exact Or.inl ⟨w, rfl, Keeps.refl w⟩
  split
  · exact Or.inl ⟨w, rfl, Keeps.refl w⟩
  cases hanswer : w.preemptAll c a requestIds with
  | mk preempted done =>
      rw [hanswer] at hpreempt
      cases done with
      | false => exact Or.inl ⟨preempted, rfl, hpreempt⟩
      | true =>
          have hpoll := hpreempt.trans (poll_keeps polled)
          dsimp only at hpoll ⊢
          cases hpolled : preempted.poll c polled with
          | mk final done =>
              rw [hpolled] at hpoll
              cases done with
              | false => exact Or.inl ⟨final, rfl, hpoll⟩
              | true =>
                  refine Or.inr ⟨_, rfl, ?_, ?_, hpoll.leases⟩
                  · exact congrArg (· \ requestIds.toFinset) hpoll.seen
                  · exact congrArg (· \ requestIds.toFinset) hpoll.pending

/-- What is returned was pending or is presented and known, and has no lease. -/
theorem takeFinished_spec (hsound : w.leases.Sound c) (finished : Finset String) (polled : PollAnswers)
    (fence : ℕ → Option Bool) :
    (∃ w', w.takeFinished c finished polled fence = (w', none) ∧ w'.leases.Sound c ∧ w'.seenRequests = w.seenRequests ∧
      (w'.pendingFinishedRequests = w.pendingFinishedRequests ∨
        w'.pendingFinishedRequests = w.pendingFinishedRequests ∪ finished ∩ w.seenRequests)) ∨
      ∃ w' ready, w.takeFinished c finished polled fence = (w', some ready) ∧ w'.leases.Sound c ∧
        ready ⊆ w.pendingFinishedRequests ∪ finished ∩ w.seenRequests ∧
        w'.seenRequests = w.seenRequests \ ready ∧
        w'.pendingFinishedRequests = (w.pendingFinishedRequests ∪ finished ∩ w.seenRequests) \ ready ∧
        ∀ id lease, w'.leases.leases.lookup id = some lease → lease.requestId ∉ ready := by
  have hpoll := poll_keeps (c := c) (w := w) polled
  unfold takeFinished
  cases hpolled : w.poll c polled with
  | mk called done =>
      rw [hpolled] at hpoll
      obtain ⟨hseen, hpending, hleases⟩ := hpoll
      dsimp only at hseen hpending hleases
      have hcalled := hleases hsound
      cases done with
      | false => exact Or.inl ⟨called, rfl, hcalled, hseen, Or.inl hpending⟩
      | true =>
          dsimp only
          rw [hseen, hpending]
          cases htake : called.leases.takeFinished c fence (w.pendingFinishedRequests ∪ finished ∩ w.seenRequests) with
          | none => exact Or.inl ⟨_, rfl, hcalled, rfl, Or.inr rfl⟩
          | some taken =>
              obtain ⟨hregistry, hready, hunleased⟩ := hcalled.takeFinished htake
              exact Or.inr ⟨_, taken.2, rfl, hregistry, hready, rfl, rfl, hunleased⟩

end WorkerStreamingSnapshotAdapter

/-! ## Both adapters -/

theorem offered_cons (offer : SnapshotOffer) (rest : List SnapshotOffer) :
    offered (offer :: rest) = insert offer.requestId (offered rest) :=
  List.toFinset_cons

namespace EngineStep

/-- The requests that the worker knows when the step has reached it. -/
def seen (known : Finset String) : EngineStep → Finset String
  | .between => known
  | .preempting m _ => known \ m.preemptedRequestIds.toFinset ∪ offered m.streamingSnapshotOffers
  | .offering offers _ => known ∪ offered offers

/-- The pending requests that the step does not preempt. -/
def pending (requests : Finset String) : EngineStep → Finset String
  | .preempting m _ => requests \ m.preemptedRequestIds.toFinset
  | _ => requests

/-- The finished requests that the step presents. -/
def presented : EngineStep → Finset String
  | .between => ∅
  | .preempting _ finished => finished
  | .offering _ finished => finished

end EngineStep

namespace StreamingEngine

def seen (s : StreamingEngine) : Finset String := s.step.seen s.worker.seenRequests

def pending (s : StreamingEngine) : Finset String := s.step.pending s.worker.pendingFinishedRequests

/-- The requests whose return is due. -/
def due (s : StreamingEngine) : Finset String := s.pending ∪ s.step.presented ∩ s.seen

/-- How the two adapters agree on a request. -/
structure Agreed (s : StreamingEngine) (r : String) : Prop where
  seen : r ∈ s.seen → r ∈ s.scheduler.eligible
  known : r ∈ s.scheduler.eligible → r ∈ s.seen ∨ r ∈ s.unreported
  delayed : r ∈ s.scheduler.delayed → r ∈ s.scheduler.eligible
  due : r ∈ s.due → r ∈ s.scheduler.delayed
  finished : r ∈ s.finished → r ∈ s.seen → r ∈ s.scheduler.delayed
  presented : r ∈ s.step.presented → r ∈ s.scheduler.eligible → r ∈ s.seen
  owed : r ∈ s.owed → r ∈ s.worker.pendingFinishedRequests
  counted : (s.returns.countP fun t => r ∈ t.ids) + (if r ∈ s.due then 1 else 0) +
    (if r ∈ s.finished ∧ r ∈ s.scheduler.delayed then 1 else 0) ≤ s.delays.count r

structure Holds (c : LeaseCapacity) (s : StreamingEngine) : Prop where
  agreed : ∀ r, s.Agreed r
  leases : s.worker.leases.Sound c
  returns : ∀ t ∈ s.returns, t.ids ⊆ t.delaying ∧ ∀ id lease, t.leases.leases.lookup id = some lease → lease.requestId ∉ t.ids

variable {c : LeaseCapacity} {s : StreamingEngine}

theorem new_holds (c : LeaseCapacity) : new.Holds c := by
  refine ⟨fun r => ?_, BlockLeaseRegistry.new_sound c, fun t h => (nomatch h)⟩
  constructor <;> simp [new, StreamingEngine.seen, StreamingEngine.due, StreamingEngine.pending, EngineStep.seen,
    EngineStep.presented, EngineStep.pending]

/-- No step presents a finished request that it offers too, unless that is delayed and not preempted, and
none whose return was not reported, unless it is preempted or offered. -/
def Meets (s : StreamingEngine) : EngineAction → Prop
  | .observe m => ∀ r ∈ s.finished,
      (r ∈ offered m.streamingSnapshotOffers → r ∈ s.scheduler.delayed ∧ r ∉ m.preemptedRequestIds.toFinset) ∧
        (r ∈ s.unreported → r ∈ m.preemptedRequestIds.toFinset ∨ r ∈ offered m.streamingSnapshotOffers)
  | _ => True

instance decidableMeets (s : StreamingEngine) : (action : EngineAction) → Decidable (s.Meets action)
  | .observe _ => inferInstanceAs (Decidable (∀ r ∈ s.finished, (_ → _ ∧ _) ∧ (_ → _ ∨ _)))
  | .finish _ | .preempt _ _ | .offer _ | .poll _ | .backgroundPoll _ | .take _ _ _ => .isTrue trivial

/-- Another worker that knows the same requests, with the same returns due. -/
theorem Holds.replace (h : s.Holds c) {worker : WorkerStreamingSnapshotAdapter} (step : EngineStep) {failed : Bool}
    (hseen : step.seen worker.seenRequests = s.seen) (hpresented : step.presented = s.step.presented)
    (hdue : step.pending worker.pendingFinishedRequests ∪ s.step.presented ∩ s.seen = s.due)
    (hleases : worker.leases.Sound c) (howed : s.owed ⊆ worker.pendingFinishedRequests) :
    ({ s with worker := worker, step := step, failed := failed } : StreamingEngine).Holds c := by
  have hsamedue : ({ s with worker := worker, step := step, failed := failed } : StreamingEngine).due = s.due := by
    rw [← hdue, ← hseen, ← hpresented]
    rfl
  refine ⟨fun r => ?_, hleases, h.returns⟩
  obtain ⟨hknown, hsame, hdelayed, hwaits, hfinished, hexpected, -, hcounted⟩ := h.agreed r
  refine ⟨?_, ?_, hdelayed, ?_, ?_, ?_, fun hr => howed hr, ?_⟩
  · rw [StreamingEngine.seen, hseen]
    exact hknown
  · rw [StreamingEngine.seen, hseen]
    exact hsame
  · rw [hsamedue]
    exact hwaits
  · rw [StreamingEngine.seen, hseen]
    exact hfinished
  · rw [StreamingEngine.seen, hseen, hpresented]
    exact hexpected
  · rw [hsamedue]
    exact hcounted

/-- Another worker that knows and awaits the same requests, in a step that stands for the same. -/
theorem Holds.work (h : s.Holds c) {worker : WorkerStreamingSnapshotAdapter} (step : EngineStep) {failed : Bool}
    (hseen : step.seen worker.seenRequests = s.seen) (hpending : step.pending worker.pendingFinishedRequests = s.pending)
    (hpresented : step.presented = s.step.presented) (hleases : worker.leases.Sound c)
    (howed : s.owed ⊆ worker.pendingFinishedRequests) :
    ({ s with worker := worker, step := step, failed := failed } : StreamingEngine).Holds c :=
  h.replace step hseen hpresented (by rw [hpending]; rfl) hleases howed

theorem Holds.finish (h : s.Holds c) (requestId : String) : (s.finish requestId).Holds c := by
  refine ⟨fun r => ?_, h.leases, h.returns⟩
  obtain ⟨hknown, hsame, hdelayed, hwaits, hfinished, hexpected, howed, hcounted⟩ := h.agreed r
  by_cases heligible : requestId ∈ s.scheduler.eligible
  · have hfinish : s.finish requestId = { s with
        scheduler := { s.scheduler with delayed := insert requestId s.scheduler.delayed }
        finished := insert requestId s.finished
        delays := requestId ::ₘ s.delays } := by
      simp [StreamingEngine.finish, SchedulerStreamingSnapshotAdapter.requestFinished, heligible]
    rw [hfinish]
    refine ⟨hknown, hsame, fun hr => ?_, fun hr => Finset.mem_insert_of_mem (hwaits hr), fun hr hseen => ?_, hexpected,
      howed, ?_⟩
    · obtain rfl | hbefore := Finset.mem_insert.mp hr
      · exact heligible
      · exact hdelayed hbefore
    · obtain rfl | hbefore := Finset.mem_insert.mp hr
      · exact Finset.mem_insert_self _ _
      · exact Finset.mem_insert_of_mem (hfinished hbefore hseen)
    · have hdue : StreamingEngine.due { s with
          scheduler := { s.scheduler with delayed := insert requestId s.scheduler.delayed }
          finished := insert requestId s.finished
          delays := requestId ::ₘ s.delays } = s.due := rfl
      rw [hdue]
      dsimp only
      by_cases heq : r = requestId
      · subst heq
        rw [Multiset.count_cons_self]
        have hone : (if r ∈ insert r s.finished ∧ r ∈ insert r s.scheduler.delayed then 1 else 0) ≤ 1 := by
          split <;> omega
        omega
      · rw [Multiset.count_cons_of_ne heq]
        simpa [Finset.mem_insert, heq] using hcounted
  · have hfinish : s.finish requestId = { s with finished := insert requestId s.finished } := by
      simp [StreamingEngine.finish, SchedulerStreamingSnapshotAdapter.requestFinished, heligible]
    have hundelayed : requestId ∉ s.scheduler.delayed := fun hr => heligible ((h.agreed requestId).delayed hr)
    rw [hfinish]
    refine ⟨hknown, hsame, hdelayed, hwaits, fun hr hseen => ?_, hexpected, howed, ?_⟩
    · obtain rfl | hbefore := Finset.mem_insert.mp hr
      · exact absurd (hknown hseen) heligible
      · exact hfinished hbefore hseen
    · have hdue : StreamingEngine.due { s with finished := insert requestId s.finished } = s.due := rfl
      rw [hdue]
      dsimp only
      by_cases heq : r = requestId
      · subst heq
        simpa [hundelayed] using hcounted
      · simpa [Finset.mem_insert, heq] using hcounted

theorem Holds.observe (h : s.Holds c) (m : StreamingMetadata) (hmeets : s.Meets (.observe m)) : (s.observe m).Holds c := by
  unfold StreamingEngine.observe
  split
  · rename_i hstep
    cases hscheduler : s.scheduler.observeMetadata m with
    | none => exact h.work _ rfl rfl rfl h.leases fun r hr => (h.agreed r).owed hr
    | some scheduler =>
        refine ⟨fun r => ?_, h.leases, h.returns⟩
        unfold SchedulerStreamingSnapshotAdapter.observeMetadata at hscheduler
        split at hscheduler
        · cases hscheduler
        cases hscheduler
        obtain ⟨hknown, hsame, hdelayed, hwaits, hfinished, -, howed, hcounted⟩ := h.agreed r
        have hcondition := hmeets r
        simp only [StreamingEngine.due, StreamingEngine.seen, StreamingEngine.pending, hstep, EngineStep.seen,
          EngineStep.pending, EngineStep.presented, Finset.mem_union, Finset.mem_inter, Finset.notMem_empty, false_and,
          or_false] at hknown hsame hwaits hfinished hcounted
        have hdue : (r ∈ s.worker.pendingFinishedRequests ∧ r ∉ m.preemptedRequestIds.toFinset ∨
            r ∈ s.finished ∧ (r ∈ s.worker.seenRequests ∧ r ∉ m.preemptedRequestIds.toFinset ∨
              r ∈ offered m.streamingSnapshotOffers)) →
            (r ∈ s.worker.pendingFinishedRequests ∨ r ∈ s.finished ∧ r ∈ s.scheduler.delayed) ∧
              r ∈ s.scheduler.delayed ∧ r ∉ m.preemptedRequestIds.toFinset := by
          rintro (⟨hpending, hkept⟩ | ⟨hpresented, ⟨hseen, hkept⟩ | hoffered⟩)
          · exact ⟨Or.inl hpending, hwaits hpending, hkept⟩
          · have hdelay := hfinished hpresented hseen
            exact ⟨Or.inr ⟨hpresented, hdelay⟩, hdelay, hkept⟩
          · obtain ⟨hdelay, hkept⟩ := (hcondition hpresented).1 hoffered
            exact ⟨Or.inr ⟨hpresented, hdelay⟩, hdelay, hkept⟩
        constructor <;> simp only [StreamingEngine.due, StreamingEngine.seen, StreamingEngine.pending, EngineStep.seen,
          EngineStep.pending, EngineStep.presented, Finset.mem_union, Finset.mem_inter, Finset.notMem_empty,
          Finset.mem_sdiff, false_and, if_false, add_zero]
        · exact Or.imp_left (And.imp_left hknown)
        · rintro (⟨heligible, hkept⟩ | hoffered)
          · obtain hseen | hunreported := hsame heligible
            · exact Or.inl (Or.inl ⟨hseen, hkept⟩)
            · by_cases hoffered : r ∈ offered m.streamingSnapshotOffers
              · exact Or.inl (Or.inr hoffered)
              · exact Or.inr ⟨hunreported, fun hor => hor.elim hkept hoffered⟩
          · exact Or.inl (Or.inr hoffered)
        · exact fun hr => Or.inl ⟨hdelayed hr.1, hr.2⟩
        · exact fun hr => (hdue hr).2
        · exact fun hnone => hnone.elim
        · rintro hpresented (⟨heligible, hkept⟩ | hoffered)
          · obtain hseen | hunreported := hsame heligible
            · exact Or.inl ⟨hseen, hkept⟩
            · exact Or.inr (((hcondition hpresented).2 hunreported).resolve_left hkept)
          · exact Or.inr hoffered
        · exact howed
        · -- a request that becomes due was pending, or finished while it was delayed
          split
          · rename_i hnow
            obtain hpending | hpresented := (hdue hnow).1
            · rw [if_pos hpending] at hcounted
              omega
            · rw [if_pos hpresented] at hcounted
              omega
          · omega
  · exact h

/-- A worker that knows and awaits the same requests, while the step stays. -/
theorem Holds.keep (h : s.Holds c) {worker : WorkerStreamingSnapshotAdapter} {failed : Bool}
    (hkeeps : s.worker.Keeps c worker) : ({ s with worker := worker, failed := failed } : StreamingEngine).Holds c := by
  refine h.work _ ?_ ?_ rfl (hkeeps.leases h.leases) fun r hr => ?_
  · rw [hkeeps.seen]
    rfl
  · rw [hkeeps.pending]
    rfl
  · rw [hkeeps.pending]
    exact (h.agreed r).owed hr

theorem Holds.poll (h : s.Holds c) (polled : PollAnswers) : (s.poll c polled).Holds c :=
  h.keep (WorkerStreamingSnapshotAdapter.poll_keeps polled)

theorem Holds.backgroundPoll (h : s.Holds c) (polled : PollAnswers) : (s.backgroundPoll c polled).Holds c := by
  have hkeeps := WorkerStreamingSnapshotAdapter.poll_keeps (c := c) (w := s.worker) polled
  unfold StreamingEngine.backgroundPoll
  split <;> rename_i hanswer <;> rw [hanswer] at hkeeps
  · exact h.keep hkeeps
  · exact h.keep (hkeeps.trans ⟨rfl, rfl, id⟩)

theorem Holds.preempt (h : s.Holds c) (a : String → RuntimeAnswer Bool) (polled : PollAnswers) :
    (s.preempt c a polled).Holds c := by
  unfold StreamingEngine.preempt
  split
  · rename_i m finished hstep
    obtain ⟨worker, hanswer, hkeeps⟩ | ⟨worker, hanswer, hkeeps⟩ :=
      WorkerStreamingSnapshotAdapter.handlePreemptions_keeps (c := c) (w := s.worker) m.preemptedRequestIds a polled
    · rw [hanswer]
      exact h.keep hkeeps
    · rw [hanswer]
      have hforgot : ({ s with owed := s.owed \ m.preemptedRequestIds.toFinset } : StreamingEngine).Holds c := by
        refine ⟨fun r => ?_, h.leases, h.returns⟩
        obtain ⟨hknown, hsame, hdelayed, hwaits, hfinished, hexpected, howed, hcounted⟩ := h.agreed r
        exact ⟨hknown, hsame, hdelayed, hwaits, hfinished, hexpected, fun hr => howed (Finset.mem_sdiff.mp hr).1, hcounted⟩
      refine hforgot.work (.offering m.streamingSnapshotOffers finished) ?_ ?_ ?_ (hkeeps.leases h.leases) ?_
      · rw [hkeeps.seen, StreamingEngine.seen, hstep]
        rfl
      · rw [hkeeps.pending, StreamingEngine.pending, hstep]
        rfl
      · rw [hstep]
        rfl
      · intro r hr
        obtain ⟨howed, hkept⟩ := Finset.mem_sdiff.mp hr
        rw [hkeeps.pending]
        exact Finset.mem_sdiff.mpr ⟨(h.agreed r).owed howed, hkept⟩
  · exact h

theorem Holds.offer (h : s.Holds c) (a : OfferAnswers) : (s.offer c a).Holds c := by
  unfold StreamingEngine.offer
  split
  · rename_i offer rest finished hstep
    -- what the step stands for already counts the offer
    have hinsert : insert offer.requestId s.worker.seenRequests ∪ offered rest = s.seen := by
      rw [StreamingEngine.seen, hstep, EngineStep.seen, offered_cons, Finset.union_insert, Finset.insert_union]
    have howed : s.owed ⊆ s.worker.pendingFinishedRequests := fun r hr => (h.agreed r).owed hr
    obtain hkeeps | hrejected := WorkerStreamingSnapshotAdapter.offerCompleted_keeps (c := c) (w := s.worker) offer a
    · cases hanswer : s.worker.offerCompleted c offer a with
      | mk worker done =>
          rw [hanswer] at hkeeps
          have hpending : worker.pendingFinishedRequests = s.worker.pendingFinishedRequests := hkeeps.pending
          have hseen : worker.seenRequests = insert offer.requestId s.worker.seenRequests := hkeeps.seen
          have hleases := hkeeps.leases h.leases
          cases done with
          | false =>
              refine h.work _ ?_ ?_ rfl hleases (hpending ▸ howed)
              · rw [hseen, ← hinsert, hstep, EngineStep.seen, offered_cons, Finset.union_insert]
                exact Finset.insert_eq_of_mem (Finset.mem_union_left _ (Finset.mem_insert_self _ _))
              · rw [hpending]
                rfl
          | true =>
              refine h.work (.offering rest finished) ?_ ?_ ?_ hleases (hpending ▸ howed)
              · rw [hseen, ← hinsert]
                rfl
              · rw [hpending, StreamingEngine.pending, hstep]
                rfl
              · rw [hstep]
                rfl
    · rw [hrejected]
      exact h.keep (WorkerStreamingSnapshotAdapter.Keeps.refl _)
  · exact h

/-- Requests that the worker neither knows nor awaits are reported as returned. -/
theorem Holds.report (h : s.Holds c) {ready : Finset String}
    (hforgotten : ∀ r ∈ ready, r ∉ s.seen ∧ r ∉ s.due ∧ r ∈ s.scheduler.delayed) :
    ({ s with
      scheduler := (s.scheduler.takeFinished ready).1
      unreported := s.unreported \ ready } : StreamingEngine).Holds c := by
  refine ⟨fun r => ?_, h.leases, h.returns⟩
  obtain ⟨hknown, hsame, hdelayed, hwaits, hfinished, hexpected, howed, hcounted⟩ := h.agreed r
  have hleft : ∀ {requests : Finset String}, (r ∈ s.seen ∨ r ∈ s.due) → r ∈ requests →
      r ∈ requests \ (s.scheduler.delayed ∩ ready) := by
    intro requests hr hmem
    refine Finset.mem_sdiff.mpr ⟨hmem, fun hboth => ?_⟩
    have hgone := hforgotten r (Finset.mem_inter.mp hboth).2
    exact hr.elim hgone.1 hgone.2.1
  constructor
  · exact fun hr => hleft (Or.inl hr) (hknown hr)
  · intro hr
    obtain ⟨heligible, hnot⟩ := Finset.mem_sdiff.mp hr
    obtain hseen | hunreported := hsame heligible
    · exact Or.inl hseen
    · refine Or.inr (Finset.mem_sdiff.mpr ⟨hunreported, fun hready => hnot ?_⟩)
      exact Finset.mem_inter.mpr ⟨(hforgotten r hready).2.2, hready⟩
  · intro hr
    obtain ⟨hdelay, hnot⟩ := Finset.mem_sdiff.mp hr
    exact Finset.mem_sdiff.mpr ⟨hdelayed hdelay, hnot⟩
  · exact fun hr => hleft (Or.inr hr) (hwaits hr)
  · exact fun hr hseen => hleft (Or.inl hseen) (hfinished hr hseen)
  · exact fun hr heligible => hexpected hr (Finset.mem_sdiff.mp heligible).1
  · exact howed
  · have hfewer : (if r ∈ s.finished ∧ r ∈ s.scheduler.delayed \ (s.scheduler.delayed ∩ ready) then 1 else 0) ≤
        if r ∈ s.finished ∧ r ∈ s.scheduler.delayed then 1 else 0 := by
      split
      · rename_i hboth
        rw [if_pos ⟨hboth.1, (Finset.mem_sdiff.mp hboth.2).1⟩]
      · omega
    exact (Nat.add_le_add_left hfewer _).trans hcounted

theorem seen_of_offered {finished : Finset String} (hstep : s.step = .offering [] finished) :
    s.seen = s.worker.seenRequests := by
  rw [StreamingEngine.seen, hstep]
  exact Finset.union_empty _

theorem due_of_offered {finished : Finset String} (hstep : s.step = .offering [] finished) :
    s.due = s.worker.pendingFinishedRequests ∪ finished ∩ s.worker.seenRequests := by
  rw [StreamingEngine.due, seen_of_offered hstep, StreamingEngine.pending, hstep]
  rfl

theorem due_of_between (hstep : s.step = .between) : s.due = s.worker.pendingFinishedRequests := by
  rw [StreamingEngine.due, StreamingEngine.pending, hstep]
  exact (congrArg _ (Finset.empty_inter _)).trans (Finset.union_empty _)

/-- What is returned leaves the pending requests, and what was presented while delayed is pending. -/
theorem Holds.return (h : s.Holds c) {worker : WorkerStreamingSnapshotAdapter} {finished ready : Finset String}
    (hstep : s.step = .offering [] finished) (hleases : worker.leases.Sound c)
    (hready : ready ⊆ s.worker.pendingFinishedRequests ∪ finished ∩ s.worker.seenRequests)
    (hknown : worker.seenRequests = s.worker.seenRequests \ ready)
    (hpending : worker.pendingFinishedRequests =
      (s.worker.pendingFinishedRequests ∪ finished ∩ s.worker.seenRequests) \ ready)
    (hfree : ∀ id lease, worker.leases.leases.lookup id = some lease → lease.requestId ∉ ready) :
    ({ s with
      worker := worker
      step := .between
      returns := s.returns ++ [⟨ready, s.scheduler.delayed, worker.leases⟩]
      owed := (s.owed ∪ finished ∩ s.scheduler.delayed) \ ready
      unreported := s.unreported ∪ ready } : StreamingEngine).Holds c := by
  have hseen := seen_of_offered hstep
  have hdue := due_of_offered hstep
  rw [← hdue] at hready hpending
  refine ⟨fun r => ?_, hleases, fun t ht => ?_⟩
  · obtain ⟨hsound, hsame, hdelayed, hwaits, hfinished, hexpected, howed, hcounted⟩ := h.agreed r
    rw [hseen] at hsound hsame hfinished hexpected
    rw [hstep] at hexpected
    have hnow : r ∈ worker.seenRequests ↔ r ∈ s.worker.seenRequests ∧ r ∉ ready := by
      rw [hknown, Finset.mem_sdiff]
    have hleft : r ∈ worker.pendingFinishedRequests ↔ r ∈ s.due ∧ r ∉ ready := by
      rw [hpending, Finset.mem_sdiff]
    have hdueNow : ({ s with
        worker := worker
        step := .between
        returns := s.returns ++ [⟨ready, s.scheduler.delayed, worker.leases⟩]
        owed := (s.owed ∪ finished ∩ s.scheduler.delayed) \ ready
        unreported := s.unreported ∪ ready } : StreamingEngine).due = worker.pendingFinishedRequests :=
      due_of_between rfl
    constructor
    · exact fun hr => hsound (hnow.mp hr).1
    · intro hr
      by_cases hgone : r ∈ ready
      · exact Or.inr (Finset.mem_union_right _ hgone)
      · exact (hsame hr).imp (fun hbefore => hnow.mpr ⟨hbefore, hgone⟩) (Finset.mem_union_left _)
    · exact hdelayed
    · intro hr
      rw [hdueNow] at hr
      exact hwaits (hleft.mp hr).1
    · exact fun hr hrseen => hfinished hr (hnow.mp hrseen).1
    · exact fun hnone => absurd hnone (Finset.notMem_empty _)
    · intro hr
      obtain ⟨hin, hgone⟩ := Finset.mem_sdiff.mp hr
      refine hleft.mpr ⟨?_, hgone⟩
      rw [hdue, Finset.mem_union, Finset.mem_inter]
      obtain hbefore | hpresented := Finset.mem_union.mp hin
      · exact Or.inl (howed hbefore)
      · obtain ⟨hpresented, hdelay⟩ := Finset.mem_inter.mp hpresented
        exact Or.inr ⟨hpresented, hexpected hpresented (hdelayed hdelay)⟩
    · rw [hdueNow, List.countP_append]
      dsimp only
      by_cases hgone : r ∈ ready
      · have hnotpending : r ∉ worker.pendingFinishedRequests := fun hr => (hleft.mp hr).2 hgone
        rw [if_pos (hready hgone)] at hcounted
        rw [if_neg hnotpending]
        simp only [List.countP_cons, List.countP_nil, decide_eq_true_eq, if_pos hgone]
        omega
      · have hsamedue : (if r ∈ worker.pendingFinishedRequests then 1 else 0) = if r ∈ s.due then 1 else 0 :=
          if_congr (hleft.trans (and_iff_left hgone)) rfl rfl
        rw [hsamedue]
        simpa [hgone] using hcounted
  · obtain hbefore | hlast := List.mem_append.mp ht
    · exact h.returns t hbefore
    · rw [List.mem_singleton] at hlast
      rw [hlast]
      exact ⟨fun r hr => (h.agreed r).due (hready hr), hfree⟩

theorem Holds.take (h : s.Holds c) (polled : PollAnswers) (fence : ℕ → Option Bool) (reported : Bool) :
    (s.take c polled fence reported).Holds c := by
  unfold StreamingEngine.take
  split
  · rename_i finished hstep
    have hseen := seen_of_offered hstep
    have hdue := due_of_offered hstep
    obtain ⟨worker, hanswer, hleases, hknown, hpending⟩ | ⟨worker, ready, hanswer, hleases, hready, hknown, hpending, hfree⟩ :=
      WorkerStreamingSnapshotAdapter.takeFinished_spec h.leases finished polled fence
    · rw [hanswer]
      have howed : s.owed ⊆ s.worker.pendingFinishedRequests := fun r hr => (h.agreed r).owed hr
      refine h.replace _ (by rw [hknown]; rfl) rfl ?_ hleases ?_
      · rw [hdue, hseen, hstep]
        obtain heq | heq := hpending
        · rw [heq]
          rfl
        · rw [heq]
          exact Finset.union_eq_left.mpr Finset.subset_union_right
      · obtain heq | heq := hpending
        · rw [heq]
          exact howed
        · rw [heq]
          exact howed.trans Finset.subset_union_left
    · rw [hanswer]
      have hreturned := h.return hstep hleases hready hknown hpending hfree
      cases reported with
      | false => exact hreturned
      | true =>
          have hreported := hreturned.report fun r (hr : r ∈ ready) => by
            refine ⟨fun hseen' => ?_, fun hdue' => ?_, (h.agreed r).due (by rw [hdue]; exact hready hr)⟩
            · have hmem : r ∈ worker.seenRequests := hseen'
              rw [hknown] at hmem
              exact (Finset.mem_sdiff.mp hmem).2 hr
            · rw [due_of_between rfl] at hdue'
              dsimp only at hdue'
              rw [hpending] at hdue'
              exact (Finset.mem_sdiff.mp hdue').2 hr
          dsimp only at hreported
          rw [Finset.union_sdiff_right] at hreported
          exact hreported
  · exact h

theorem Holds.next (h : s.Holds c) (action : EngineAction) (hmeets : s.Meets action) : (s.next c action).Holds c := by
  unfold StreamingEngine.next
  split
  · exact h
  · cases action with
    | finish requestId => exact h.finish requestId
    | observe m => exact h.observe m hmeets
    | preempt a polled => exact h.preempt a polled
    | offer a => exact h.offer a
    | poll polled => exact h.poll polled
    | backgroundPoll polled => exact h.backgroundPoll polled
    | take polled fence reported => exact h.take polled fence reported

theorem exec_holds {actions : List EngineAction} (h : s.Holds c) (hmeets : Run.Throughout (next c) Meets s actions) :
    (Run.exec (next c) s actions).Holds c := by
  induction actions generalizing s with
  | nil => exact h
  | cons action rest ih => exact ih (h.next action hmeets.1) hmeets.2

/-- What the worker returns, the scheduler's adapter is delaying at that moment, and the worker holds no
lease of it. It returns a request at most as often as the request was delayed, and every delayed
request that was presented to it is pending until it is returned or preempted. -/
theorem finished_ids_agree (c : LeaseCapacity) (actions : List EngineAction)
    (hmeets : Run.Throughout (next c) Meets new actions) :
    let s := Run.exec (next c) new actions
    (∀ t ∈ s.returns, t.ids ⊆ t.delaying ∧
      ∀ id lease, t.leases.leases.lookup id = some lease → lease.requestId ∉ t.ids) ∧
    (∀ r, (s.returns.countP fun t => r ∈ t.ids) ≤ s.delays.count r) ∧
    s.owed ⊆ s.worker.pendingFinishedRequests := by
  intro s
  have hholds := exec_holds (new_holds c) hmeets
  refine ⟨hholds.returns, fun r => ?_, fun r hr => (hholds.agreed r).owed hr⟩
  exact ((Nat.le_add_right _ _).trans (Nat.le_add_right _ _)).trans (hholds.agreed r).counted

/-! Runs of one request, whose offers are admitted. -/

def exampleCapacity : LeaseCapacity := ⟨4, 64, by decide⟩

def quietPoll : PollAnswers := ⟨⟨[], some ()⟩, [], [], true⟩

def exampleOffer : SnapshotOffer := ⟨"r", ⟨List.replicate 64 97⟩, 256⟩

/-- A whole step, in which an accepted offer makes changes to the leases. -/
def engineStep (offers : List SnapshotOffer) (changes : List LeaseChange) (fence : ℕ → Option Bool) : List EngineAction :=
  [.observe ⟨[], offers⟩, .preempt (fun _ => ⟨[], some true⟩) quietPoll] ++
    offers.map (fun _ => .offer ⟨⟨[], some ()⟩, ⟨[], some true⟩, ⟨changes, some false⟩⟩) ++ [.take quietPoll fence false]

/-- The request finishes while a gather of it is in flight. -/
def leasedRun : List EngineAction :=
  engineStep [exampleOffer] [.reserve "r" [7], .enter 1 .submitting, .enter 1 .armed] (fun _ => some false) ++
    [.finish "r"] ++ engineStep [] [] (fun _ => some false) ++ engineStep [] [] (fun _ => some true)

example : ((Run.exec (next exampleCapacity) new leasedRun).returns.map Returned.ids) = [∅, ∅, {"r"}] := by decide

theorem finished_ids_agree_leased :
    let s := Run.exec (next exampleCapacity) new leasedRun
    (∀ t ∈ s.returns, t.ids ⊆ t.delaying ∧
      ∀ id lease, t.leases.leases.lookup id = some lease → lease.requestId ∉ t.ids) ∧
    (∀ r, (s.returns.countP fun t => r ∈ t.ids) ≤ s.delays.count r) ∧
    s.owed ⊆ s.worker.pendingFinishedRequests :=
  finished_ids_agree exampleCapacity leasedRun (by decide)

/-- A request is returned, and its identifier finishes again before an offer: the scheduler's adapter
still counts it as eligible and delays it, while the worker no longer knows it. -/
def reusedRun : List EngineAction :=
  engineStep [exampleOffer] [] (fun _ => some true) ++ [.finish "r"] ++ engineStep [] [] (fun _ => some true) ++
    [.finish "r"] ++ engineStep [] [] (fun _ => some true)

/-- A request finishes without an offer, and its identifier is offered in the step that presents it. -/
def offeredAtOnceRun : List EngineAction := .finish "r" :: engineStep [exampleOffer] [] (fun _ => some true)

theorem finished_ids_disagree :
    (let s := Run.exec (next exampleCapacity) new reusedRun;
      s.failed = false ∧ s.delays.count "r" = 2 ∧ "r" ∈ s.owed ∧ "r" ∉ s.worker.pendingFinishedRequests) ∧
    (let s := Run.exec (next exampleCapacity) new offeredAtOnceRun;
      s.failed = false ∧ ∃ t ∈ s.returns, "r" ∈ t.ids ∧ "r" ∉ t.delaying) := by
  decide

end StreamingEngine
end SparkCache.Streaming
