import SparkCache.Lib.Run
import SparkCache.Pages.Layout

/-!
# Request attribution

The ledger of one request's prompt work. Reuse is credited when the first accepted step consumes
the selected prefix, computed tokens by a progress mark; an event that does not fit the attempt
makes the ledger incomplete.
-/
namespace SparkCache.Attribution

open Pages (bind_eq_ok)

/-- `_Attempt` -/
structure Attempt where
  generation : ℕ
  localTokens : ℕ
  offeredExternal : ℕ
  external : ℕ
  pendingRestore : Bool
  consumed : Bool
  progress : ℕ
  canReadmit : Bool
  deriving DecidableEq

/-- The reuse that the first step of an attempt credits: local and external tokens. -/
def Attempt.reuse (a : Attempt) (start : ℕ) : ℕ × ℕ :=
  if a.consumed then (0, 0)
  else (min a.localTokens start, min a.external (start - min a.localTokens start))

structure RequestAttribution where
  promptTokens : ℕ
  localTokensReused : ℕ
  externalTokensReused : ℕ
  promptTokensComputed : ℕ
  preemptions : ℕ
  valid : Bool
  promptCompleted : Bool
  attempt : Option Attempt
  deriving DecidableEq

/-- An event with its fields; `success` is none where the field is absent. -/
inductive Event where
  | preempted (preemptions : ℤ)
  | admitted (preemptions localTokens externalTokens : ℤ)
  | restoreFinalized (preemptions validPrefixTokens : ℤ) (success : Option Bool)
  | promptStepCompleted (preemptions startToken endToken : ℤ) (stale : Bool)
  | unknown (preemptions : ℤ)
  deriving DecidableEq

/-- `fields["preemptions"]` -/
def Event.preemptions : Event → ℤ
  | preempted n => n
  | admitted n _ _ => n
  | restoreFinalized n _ _ => n
  | promptStepCompleted n _ _ _ => n
  | unknown n => n

/-- `ValueError` -/
inductive AttributionError where
  | counts
  | unknownEvent
  | interval
  deriving DecidableEq

/-- `_count` -/
def count (value : ℤ) : Except AttributionError ℕ :=
  if 0 ≤ value then .ok value.toNat else .error .counts

def RequestAttribution.new (promptTokens : ℕ) : RequestAttribution where
  promptTokens := promptTokens
  localTokensReused := 0
  externalTokensReused := 0
  promptTokensComputed := 0
  preemptions := 0
  valid := true
  promptCompleted := false
  attempt := none

namespace RequestAttribution

def recordAdmitted (r : RequestAttribution) (generation localTokens externalTokens : ℕ) : RequestAttribution :=
  let tokens := min localTokens r.promptTokens
  let external := min externalTokens (r.promptTokens - tokens)
  if r.attempt.any fun a => generation = a.generation ∧ a.canReadmit = false then r
  else
    { r with
      valid := r.valid && decide (generation = r.preemptions)
      preemptions := generation
      attempt := some ⟨generation, tokens, external, 0, decide (0 < external), false, 0, false⟩ }

def finalizeRestore (r : RequestAttribution) (a : Attempt) (validPrefixTokens : ℕ) (success : Option Bool) :
    RequestAttribution :=
  let tokens := min validPrefixTokens r.promptTokens
  if a.pendingRestore = false ∨ a.consumed = true then { r with valid := false }
  else
    let kept := min a.localTokens tokens
    let accepted := tokens - kept
    { r with
      valid := r.valid && decide (accepted ≤ a.offeredExternal) &&
        decide (success = some true ∨ accepted = 0)
      attempt := some { a with
        pendingRestore := false
        canReadmit := success = some false
        localTokens := kept
        external := if success = some true then min accepted a.offeredExternal else a.external } }

def completeStep (r : RequestAttribution) (a : Attempt) (start stop : ℕ) : RequestAttribution :=
  { r with
    valid := r.valid && !a.pendingRestore && decide (start ≤ max (a.localTokens + a.external) a.progress)
    localTokensReused := r.localTokensReused + (a.reuse start).1
    externalTokensReused := r.externalTokensReused + (a.reuse start).2
    promptTokensComputed := r.promptTokensComputed + (stop - max start a.progress)
    promptCompleted := r.promptCompleted || decide (stop = r.promptTokens)
    attempt := some { a with consumed := true, progress := max a.progress stop } }

/-- `RequestAttribution.record` -/
def record (r : RequestAttribution) (event : Event) : Except AttributionError RequestAttribution := do
  let generation ← count event.preemptions
  if generation < r.preemptions then return { r with valid := false }
  match event with
  | .preempted _ => return { r with preemptions := generation, attempt := none }
  | .admitted _ localTokens externalTokens =>
      let localTokens ← count localTokens
      let externalTokens ← count externalTokens
      return r.recordAdmitted generation localTokens externalTokens
  | event =>
      match r.attempt.filter fun a => generation = a.generation with
      | none => return { r with valid := false }
      | some a =>
          match event with
          | .restoreFinalized _ validPrefixTokens success =>
              let validPrefixTokens ← count validPrefixTokens
              return r.finalizeRestore a validPrefixTokens success
          | .promptStepCompleted _ startToken endToken stale =>
              let start := min (← count startToken) r.promptTokens
              let stop := min (← count endToken) r.promptTokens
              if stop < start then .error .interval
              else if stale then return r
              else return r.completeStep a start stop
          | _ => .error .unknownEvent

/-- An event that raises changes nothing. -/
def step (r : RequestAttribution) (event : Event) : RequestAttribution :=
  match r.record event with
  | .ok r => r
  | .error _ => r

def total (r : RequestAttribution) : ℕ :=
  r.localTokensReused + r.externalTokensReused + r.promptTokensComputed

/-- `summary(status)["attribution_complete"]` -/
def attributionComplete (r : RequestAttribution) (status : String) : Bool :=
  r.valid && r.promptCompleted && (status = "FINISHED_STOPPED" || status = "FINISHED_LENGTH_CAPPED")

/-! ## What is credited -/

/-- How far the current attempt has got. -/
def progress (r : RequestAttribution) : ℕ := (r.attempt.map Attempt.progress).getD 0

/-- The step begins behind what the attempt has done, in a prefix that it consumed before. -/
def HidesGap (r : RequestAttribution) : Event → Prop
  | .promptStepCompleted _ startToken _ stale =>
      stale = false ∧ ∃ a ∈ r.attempt, a.consumed = true ∧ a.progress < min startToken.toNat r.promptTokens ∧
        min startToken.toNat r.promptTokens ≤ a.localTokens + a.external
  | _ => False

/-- The request is admitted again after its attempt has computed tokens. -/
def Readmits (r : RequestAttribution) : Event → Prop
  | .admitted _ _ _ => ∃ a ∈ r.attempt, a.canReadmit = true ∧ 0 < a.progress
  | _ => False

instance (r : RequestAttribution) (event : Event) : Decidable (r.HidesGap event) := by
  cases event <;> unfold HidesGap <;> infer_instance

instance (r : RequestAttribution) (event : Event) : Decidable (r.Readmits event) := by
  cases event <;> unfold Readmits <;> infer_instance

/-- As long as the ledger is valid, the current attempt has credited its progress, and the attempts
before it `base`. -/
structure Credits (r : RequestAttribution) (base : ℕ) : Prop where
  total : r.valid = true → r.total = base + r.progress
  completed : r.valid = true → r.promptCompleted = true → r.promptTokens ≤ base + r.progress
  progress_le : r.progress ≤ r.promptTokens
  unconsumed : ∀ a ∈ r.attempt, a.consumed = false → a.progress = 0
  generation : ∀ a ∈ r.attempt, a.generation = r.preemptions

theorem progress_of_attempt {r : RequestAttribution} {a : Attempt} (h : r.attempt = some a) :
    r.progress = a.progress := by
  rw [progress, h, Option.map_some, Option.getD_some]

theorem progress_of_none {r : RequestAttribution} (h : r.attempt = none) : r.progress = 0 := by
  rw [progress, h, Option.map_none, Option.getD_none]

/-- An invalid ledger promises nothing about its sums. -/
theorem Credits.invalidate {r : RequestAttribution} {base : ℕ} (h : r.Credits base) :
    Credits { r with valid := false } base where
  total hvalid := nomatch hvalid
  completed hvalid := nomatch hvalid
  progress_le := h.progress_le
  unconsumed := h.unconsumed
  generation := h.generation

theorem new_credits (promptTokens : ℕ) : (new promptTokens).Credits 0 where
  total _ := rfl
  completed _ hcompleted := nomatch hcompleted
  progress_le := Nat.zero_le _
  unconsumed _ ha := nomatch ha
  generation _ ha := nomatch ha

/-- A new attempt starts from all that was credited before. -/
theorem Credits.restart {r : RequestAttribution} {base : ℕ} (h : r.Credits base) {valid : Bool}
    {generation : ℕ} {attempt : Option Attempt} (hvalid : valid = true → r.valid = true)
    (hfresh : ∀ a ∈ attempt, a.progress = 0 ∧ a.generation = generation) :
    Credits { r with valid := valid, preemptions := generation, attempt := attempt } (base + r.progress) := by
  have hprogress : progress { r with valid := valid, preemptions := generation, attempt := attempt } = 0 := by
    cases hattempt : attempt with
    | none => exact progress_of_none rfl
    | some a => exact (progress_of_attempt rfl).trans (hfresh a hattempt).1
  constructor
  · intro h'
    rw [hprogress]
    exact h.total (hvalid h')
  · intro h' hcompleted
    rw [hprogress]
    exact h.completed (hvalid h') hcompleted
  · rw [hprogress]
    exact Nat.zero_le _
  · intro a ha _
    exact (hfresh a ha).1
  · intro a ha
    exact (hfresh a ha).2

theorem recordAdmitted_credits {r : RequestAttribution} {base generation localTokens externalTokens : ℕ} (h : r.Credits base) :
    ∃ base', (r.recordAdmitted generation localTokens externalTokens).Credits base' ∧
      (¬(∃ a ∈ r.attempt, a.canReadmit = true ∧ 0 < a.progress) → base' = base) := by
  unfold recordAdmitted
  dsimp only
  split
  · exact ⟨base, h, fun _ => rfl⟩
  · rename_i hany
    have hrestart := @Credits.restart r base h (r.valid && decide (generation = r.preemptions)) generation
      (some ⟨generation, min localTokens r.promptTokens,
        min externalTokens (r.promptTokens - min localTokens r.promptTokens), 0,
        decide (0 < min externalTokens (r.promptTokens - min localTokens r.promptTokens)), false, 0, false⟩)
      (fun hvalid => ((Bool.and_eq_true _ _).mp hvalid).1) (by simp)
    by_cases hgeneration : generation = r.preemptions
    · refine ⟨_, hrestart, fun hcalm => ?_⟩
      cases hattempt : r.attempt with
      | none => rw [progress_of_none hattempt, Nat.add_zero]
      | some a =>
          have hreadmit : a.canReadmit = true := by
            have hsame := h.generation a hattempt
            simpa [hattempt, hsame, hgeneration] using hany
          have hzero : a.progress = 0 := by
            by_contra hne
            exact hcalm ⟨a, hattempt, hreadmit, Nat.pos_of_ne_zero hne⟩
          rw [progress_of_attempt hattempt, hzero, Nat.add_zero]
    · have hinvalid : (r.valid && decide (generation = r.preemptions)) = false := by
        rw [decide_eq_false hgeneration, Bool.and_false]
      refine ⟨base, ?_, fun _ => rfl⟩
      rw [hinvalid] at hrestart ⊢
      exact ⟨fun hvalid => (nomatch hvalid), fun hvalid => (nomatch hvalid), hrestart.progress_le,
        hrestart.unconsumed, hrestart.generation⟩

theorem finalizeRestore_credits {r : RequestAttribution} {a : Attempt} {base : ℕ} (h : r.Credits base)
    (hattempt : r.attempt = some a) (validPrefixTokens : ℕ) (success : Option Bool) :
    (r.finalizeRestore a validPrefixTokens success).Credits base := by
  unfold finalizeRestore
  dsimp only
  split
  · exact h.invalidate
  · have hprogress := progress_of_attempt hattempt
    constructor
    · intro hvalid
      rw [Bool.and_eq_true, Bool.and_eq_true] at hvalid
      exact (h.total hvalid.1.1).trans (by rw [hprogress]; rfl)
    · intro hvalid hcompleted
      rw [Bool.and_eq_true, Bool.and_eq_true] at hvalid
      exact (h.completed hvalid.1.1 hcompleted).trans_eq (by rw [hprogress]; rfl)
    · exact le_of_eq_of_le hprogress.symm h.progress_le
    · intro b hb
      rw [Option.mem_some] at hb
      rw [← hb]
      exact h.unconsumed a hattempt
    · intro b hb
      rw [Option.mem_some] at hb
      rw [← hb]
      exact h.generation a hattempt

/-- The first step of an attempt credits all that it begins with. -/
theorem reuse_add {a : Attempt} {start : ℕ} (hfresh : a.consumed = false)
    (hstart : start ≤ a.localTokens + a.external) : (a.reuse start).1 + (a.reuse start).2 = start := by
  unfold Attempt.reuse
  rw [hfresh, if_neg Bool.false_ne_true]
  dsimp only
  omega

theorem completeStep_credits {r : RequestAttribution} {a : Attempt} {base start stop : ℕ} (h : r.Credits base)
    (hattempt : r.attempt = some a) (hle : start ≤ stop) (hstop : stop ≤ r.promptTokens)
    (hgap : ¬(a.consumed = true ∧ a.progress < start ∧ start ≤ a.localTokens + a.external)) :
    (r.completeStep a start stop).Credits base := by
  have hbefore := progress_of_attempt hattempt
  have hafter : (r.completeStep a start stop).progress = max a.progress stop := rfl
  have hprogress : a.progress ≤ r.promptTokens := le_of_eq_of_le hbefore.symm h.progress_le
  have htotal : (r.completeStep a start stop).valid = true →
      (r.completeStep a start stop).total = base + max a.progress stop := by
    intro hvalid
    simp only [completeStep, Bool.and_eq_true, decide_eq_true_eq] at hvalid
    obtain ⟨⟨hvalid, -⟩, hstart⟩ := hvalid
    have hcredited := h.total hvalid
    rw [hbefore] at hcredited
    simp only [total] at hcredited
    simp only [completeStep, total]
    cases hconsumed : a.consumed with
    | false =>
        have hzero := h.unconsumed a hattempt hconsumed
        rw [hzero] at hcredited hstart ⊢
        have hreuse : (a.reuse start).1 + (a.reuse start).2 = start := reuse_add hconsumed (by omega)
        omega
    | true =>
        have hnone : a.reuse start = (0, 0) := if_pos hconsumed
        rw [hnone]
        have hreached : start ≤ a.progress := by
          by_contra hfar
          exact hgap ⟨hconsumed, by omega, by omega⟩
        dsimp only
        omega
  constructor
  · rw [hafter]
    exact htotal
  · intro hvalid hcompleted
    rw [hafter]
    simp only [completeStep, Bool.and_eq_true] at hvalid
    simp only [completeStep, Bool.or_eq_true, decide_eq_true_eq] at hcompleted ⊢
    obtain hcompleted | hstop := hcompleted
    · have := h.completed hvalid.1.1 hcompleted
      omega
    · omega
  · rw [hafter]
    exact Nat.max_le.mpr ⟨hprogress, hstop⟩
  · intro b hb
    simp only [completeStep, Option.mem_some] at hb
    rw [← hb]
    exact fun hconsumed => nomatch hconsumed
  · intro b hb
    simp only [completeStep, Option.mem_some] at hb
    rw [← hb]
    exact h.generation a hattempt

@[simp] theorem count_eq_ok {value : ℤ} {n : ℕ} : count value = .ok n ↔ value = n := by
  unfold count
  split
  · rw [Except.ok.injEq]
    omega
  · constructor
    · intro h
      cases h
    · omega

/-- What one event keeps, if it hides no gap. -/
theorem record_credits {r r' : RequestAttribution} {base : ℕ} (h : r.Credits base) {event : Event}
    (hgap : ¬r.HidesGap event) (hrecord : r.record event = .ok r') :
    ∃ base', r'.Credits base' ∧ ((∀ n, event ≠ .preempted n) → ¬r.Readmits event → base' = base) := by
  unfold record at hrecord
  rw [bind_eq_ok] at hrecord
  obtain ⟨generation, -, hrecord⟩ := hrecord
  by_cases hstale : generation < r.preemptions
  · rw [if_pos hstale] at hrecord
    cases hrecord
    exact ⟨base, h.invalidate, fun _ _ => rfl⟩
  rw [if_neg hstale] at hrecord
  cases event with
  | preempted n =>
      cases hrecord
      exact ⟨_, h.restart id (fun _ ha => nomatch ha), fun hkept => absurd rfl (hkept n)⟩
  | admitted n localTokens externalTokens =>
      simp only [bind_eq_ok] at hrecord
      obtain ⟨l, -, x, -, hrecord⟩ := hrecord
      cases hrecord
      obtain ⟨base', hcredits, hbase⟩ := recordAdmitted_credits h
      exact ⟨base', hcredits, fun _ => hbase⟩
  | restoreFinalized n validPrefixTokens success =>
      cases hattempt : r.attempt.filter fun a => generation = a.generation with
      | none =>
          simp only [hattempt] at hrecord
          cases hrecord
          exact ⟨base, h.invalidate, fun _ _ => rfl⟩
      | some a =>
          simp only [hattempt, bind_eq_ok] at hrecord
          obtain ⟨tokens, -, hrecord⟩ := hrecord
          cases hrecord
          exact ⟨base, finalizeRestore_credits h (Option.filter_eq_some_iff.mp hattempt).1 tokens success, fun _ _ => rfl⟩
  | promptStepCompleted n startToken endToken stale =>
      cases hattempt : r.attempt.filter fun a => generation = a.generation with
      | none =>
          simp only [hattempt] at hrecord
          cases hrecord
          exact ⟨base, h.invalidate, fun _ _ => rfl⟩
      | some a =>
          simp only [hattempt, bind_eq_ok, count_eq_ok] at hrecord
          obtain ⟨start, rfl, stop, rfl, hrecord⟩ := hrecord
          by_cases hlt : min stop r.promptTokens < min start r.promptTokens
          · rw [if_pos hlt] at hrecord
            cases hrecord
          rw [if_neg hlt] at hrecord
          cases stale with
          | true =>
              cases hrecord
              exact ⟨base, h, fun _ _ => rfl⟩
          | false =>
              cases hrecord
              have hsome := (Option.filter_eq_some_iff.mp hattempt).1
              refine ⟨base, completeStep_credits h hsome (by omega) (by omega) ?_, fun _ _ => rfl⟩
              rintro ⟨hconsumed, hbehind, hwithin⟩
              exact hgap ⟨rfl, a, hsome, hconsumed, hbehind, hwithin⟩
  | unknown n =>
      cases hattempt : r.attempt.filter fun a => generation = a.generation with
      | none =>
          simp only [hattempt] at hrecord
          cases hrecord
          exact ⟨base, h.invalidate, fun _ _ => rfl⟩
      | some a =>
          simp only [hattempt] at hrecord
          cases hrecord

theorem step_credits {r : RequestAttribution} {base : ℕ} (h : r.Credits base) {event : Event}
    (hgap : ¬r.HidesGap event) :
    ∃ base', (r.step event).Credits base' ∧ ((∀ n, event ≠ .preempted n) → ¬r.Readmits event → base' = base) := by
  unfold step
  split
  · rename_i r' hrecord
    exact record_credits h hgap hrecord
  · exact ⟨base, h, fun _ _ => rfl⟩

/-- What a run without a hidden gap has credited. -/
theorem exec_credits {r : RequestAttribution} {base : ℕ} (h : r.Credits base) {events : List Event}
    (hgaps : Run.Throughout step (fun r event => ¬r.HidesGap event) r events) :
    ∃ base', (Run.exec step r events).Credits base' ∧ ((∀ n, Event.preempted n ∉ events) →
      Run.Throughout step (fun r event => ¬r.Readmits event) r events → base' = base) := by
  induction events generalizing r base with
  | nil => exact ⟨base, h, fun _ _ => rfl⟩
  | cons event rest ih =>
      obtain ⟨base', hstep, hbase⟩ := step_credits h hgaps.1
      obtain ⟨base'', hrest, hbase'⟩ := ih hstep hgaps.2
      refine ⟨base'', hrest, fun hkept hreadmits => ?_⟩
      have hlater := hbase' (fun n hn => hkept n (List.mem_cons_of_mem _ hn)) hreadmits.2
      have hfirst := hbase (fun n hn => hkept n (hn ▸ List.mem_cons_self)) hreadmits.1
      exact hlater.trans hfirst

/-- Every prompt token of a complete summary was credited, and only once without preemptions. The
run hides no gap and readmits no attempt that has computed tokens. -/
theorem prompt_credited {promptTokens : ℕ} {events : List Event} {status : String}
    (hgaps : Run.Throughout step (fun r event => ¬r.HidesGap event) (new promptTokens) events)
    (hreadmits : Run.Throughout step (fun r event => ¬r.Readmits event) (new promptTokens) events)
    (hcomplete : (Run.exec step (new promptTokens) events).attributionComplete status = true) :
    let r := Run.exec step (new promptTokens) events
    r.promptTokens ≤ r.total ∧ ((∀ n, Event.preempted n ∉ events) → r.total = r.promptTokens) := by
  obtain ⟨base, hcredits, hbase⟩ := exec_credits (new_credits promptTokens) hgaps
  simp only [attributionComplete, Bool.and_eq_true] at hcomplete
  obtain ⟨⟨hvalid, hcompleted⟩, -⟩ := hcomplete
  have htotal := hcredits.total hvalid
  have hreached := hcredits.completed hvalid hcompleted
  have hprogress := hcredits.progress_le
  refine ⟨htotal ▸ hreached, fun hkept => ?_⟩
  have hzero := hbase hkept hreadmits
  omega

/-- A restored prefix, consumed up to its last token. -/
def restoredRun : List Event :=
  [.admitted 0 2 6, .restoreFinalized 0 7 (some true), .promptStepCompleted 0 7 9 false,
    .promptStepCompleted 0 9 10 false]

theorem prompt_credited_restored :
    let r := Run.exec step (new 10) restoredRun
    r.promptTokens ≤ r.total ∧ ((∀ n, Event.preempted n ∉ restoredRun) → r.total = r.promptTokens) :=
  @prompt_credited 10 restoredRun "FINISHED_STOPPED" (by decide) (by decide) (by decide)

/-- The first step begins before the admitted prefix ends, and the next one at its end. -/
def skippingRun : List Event :=
  [.admitted 0 8 0, .promptStepCompleted 0 0 2 false, .promptStepCompleted 0 8 10 false]

/-- After a failed restore a step computes tokens, and the request is admitted again. -/
def readmittedRun : List Event :=
  [.admitted 0 0 5, .restoreFinalized 0 0 (some false), .promptStepCompleted 0 0 5 false, .admitted 0 5 0,
    .promptStepCompleted 0 5 10 false]

/-- Both summaries are complete without a preemption; 4 and 15 of 10 tokens are credited. -/
theorem prompt_miscredited :
    ((Run.exec step (new 10) skippingRun).attributionComplete "FINISHED_STOPPED" = true ∧
      (∀ n, Event.preempted n ∉ skippingRun) ∧ (Run.exec step (new 10) skippingRun).total = 4) ∧
    (Run.exec step (new 10) readmittedRun).attributionComplete "FINISHED_STOPPED" = true ∧
      (∀ n, Event.preempted n ∉ readmittedRun) ∧ (Run.exec step (new 10) readmittedRun).total = 15 := by
  refine ⟨⟨by decide, ?_, by decide⟩, by decide, ?_, by decide⟩
  · intro n hn
    simp [skippingRun] at hn
  · intro n hn
    simp [readmittedRun] at hn

end RequestAttribution
end SparkCache.Attribution
