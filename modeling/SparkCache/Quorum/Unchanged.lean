import SparkCache.Quorum.Convergence

/-!
# Inventories that stay

A mirror that is synchronized at a sequence number passes over what a rank says
about this number and the ones before. What the rank does not confirm then stays
unconfirmed until its inventory changes: the digests that a startup handshake
has left out, and a digest that a failed load has withdrawn.
-/
namespace SparkCache.Quorum
open Paging

/-- The delta is not about a later inventory. -/
def DeltaMessage.Within (sequence : ℕ) (message : DeltaMessage) : Prop :=
  ∀ number delta, readDelta message = some (number, delta) → number ≤ sequence

/-- The page is not about a later inventory. -/
def CheckpointMessage.Within (sequence : ℕ) (message : CheckpointMessage) : Prop :=
  ∀ p, readCheckpoint message = some p → p.stateSequence ≤ sequence

theorem DeltaMessage.Tells.within {account : Account} {sequence : ℕ} {message : DeltaMessage}
    (h : message.Tells account) (hlast : ∀ later held, account.inventory later = some held → later ≤ sequence) :
    message.Within sequence := by
  intro number delta hread
  obtain ⟨-, before, -, hafter⟩ := h number delta hread
  exact hlast _ _ hafter

theorem CheckpointMessage.Tells.within {account : Account} {sequence : ℕ} {message : CheckpointMessage}
    (h : message.Tells account) (hlast : ∀ later held, account.inventory later = some held → later ≤ sequence) :
    message.Within sequence := by
  intro p hread
  obtain ⟨held, hshows⟩ := h p hread
  exact hlast _ _ hshows.inventory

theorem within_of_le {sequence : ℕ} {message : CheckpointMessage} (h : message.stateSequence ≤ sequence) :
    message.Within sequence := by
  intro p hread
  rw [(readCheckpoint_spec hread).1]
  omega

namespace Scheduler
variable {s : Scheduler} {rank : ℕ} {generation : Str} {time sequence : ℕ} {held : Finset Str}

/-- The generation that was accepted goes on. -/
theorem acceptWorkerGeneration_same (hgeneration : (s.mirrors rank).generation = some generation)
    (hepoch : (s.mirrors rank).generationEpoch = some (time : ℤ)) :
    s.acceptWorkerGeneration rank generation (some (time : ℤ)) = some s := by
  unfold acceptWorkerGeneration
  dsimp only
  rw [if_pos hgeneration, if_pos (Or.inr hepoch.symm)]

/-- The mirror of a rank holds an inventory, and is synchronized at its sequence number. -/
structure Synchronized (rank : ℕ) (generation : Str) (time sequence : ℕ) (held : Finset Str) (s : Scheduler) : Prop where
  generation : (s.mirrors rank).generation = some generation
  epoch : (s.mirrors rank).generationEpoch = some (time : ℤ)
  current : (s.mirrors rank).Current sequence
  requires : (s.mirrors rank).requiresCheckpoint = false
  held : (s.mirrors rank).held = held

theorem Synchronized.absorbWorkerDelta (h : s.Synchronized rank generation time sequence held) {message : DeltaMessage}
    (hmessage : message.Within sequence) : s.absorbWorkerDelta rank message = s := by
  have haccepted := h.current.sequence
  unfold Scheduler.absorbWorkerDelta
  split
  · rfl
  · rename_i number delta hread
    have hle := hmessage number delta hread
    dsimp only
    rw [if_pos (by omega)]

theorem Synchronized.absorbWorkerCheckpoint (h : s.Synchronized rank generation time sequence held)
    {message : CheckpointMessage} (hmessage : message.Within sequence) :
    (s.absorbWorkerCheckpoint rank message).Synchronized rank generation time sequence held ∧
      (s.absorbWorkerCheckpoint rank message).quorum = s.quorum := by
  have haccepted := h.current.sequence
  unfold Scheduler.absorbWorkerCheckpoint
  split
  · exact ⟨h, rfl⟩
  · rename_i p hread
    have hle := hmessage p hread
    dsimp only
    split
    · exact ⟨h, rfl⟩
    · rw [if_pos ⟨by omega, by simp [h.current.synchronized], by simp [h.requires]⟩]
      refine ⟨?_, rfl⟩
      constructor <;> rw [modify_self]
      · exact h.generation
      · exact h.epoch
      · exact ⟨h.current.sequence, h.current.synchronized⟩
      · exact h.requires
      · exact h.held

/-- A report about the accepted sequence number or an earlier one is passed over. -/
theorem Synchronized.absorbReport (h : s.Synchronized rank generation time sequence held)
    (hgeneration : generation ≠ missingGeneration) {delta : Option DeltaMessage} {checkpoint : Option CheckpointMessage}
    (hdelta : ∀ message, delta = some message → message.Within sequence)
    (hcheckpoint : ∀ message, checkpoint = some message → message.Within sequence) :
    (s.absorbReport ⟨rank, some generation, some (time : ℤ), .delta delta checkpoint⟩).Synchronized
        rank generation time sequence held ∧
      (s.absorbReport ⟨rank, some generation, some (time : ℤ), .delta delta checkpoint⟩).quorum = s.quorum := by
  rw [absorbReport_delta s hgeneration, acceptWorkerGeneration_same h.generation h.epoch]
  split
  · exact ⟨h, rfl⟩
  · have happlied : delta.elim s (s.absorbWorkerDelta rank) = s := by
      cases delta with
      | none => rfl
      | some message => exact h.absorbWorkerDelta (hdelta message rfl)
    rw [Option.elim_some, happlied]
    cases checkpoint with
    | none => exact ⟨h, rfl⟩
    | some message => exact h.absorbWorkerCheckpoint (hcheckpoint message rfl)

/-- The reports of another rank have no part in it. -/
theorem Synchronized.other {s' : Scheduler} (h : s.Synchronized rank generation time sequence held)
    (hsame : s'.mirrors rank = s.mirrors rank) : s'.Synchronized rank generation time sequence held := by
  constructor <;> rw [hsame]
  · exact h.generation
  · exact h.epoch
  · exact h.current
  · exact h.requires
  · exact h.held

end Scheduler

namespace System
variable {epoch : ℕ → Str → ℕ} {s : System} {rank time sequence : ℕ} {generation : Str}
  {inventory held : Finset Str} {confirmed : Set Str}

/-! ## A worker whose inventory stays -/

/-- A worker that gives its inventory no later sequence number. -/
structure Unchanged (sequence : ℕ) (inventory : Finset Str) (w : StatsReporter) : Prop where
  inventory : w.held.values = inventory
  next : w.sequence + (if w.stale then 1 else 0) ≤ sequence
  deltas : ∀ delta ∈ w.deltaHistory, delta.Within sequence
  checkpoint : w.checkpointSequence ≤ sequence

theorem Unchanged.advance {w : StatsReporter} (h : Unchanged sequence inventory w)
    (hnew : w.held.values ≠ w.observedHeld) : Unchanged sequence inventory (w.advance w.held.values) := by
  have hnext := h.next
  rw [StatsReporter.stale, decide_eq_true hnew, if_pos rfl] at hnext
  refine ⟨?_, ?_, fun delta hdelta => ?_, hnext⟩
  · rw [StatsReporter.advance, StatsReporter.remember_eq]
    exact h.inventory
  · have hstale : (w.advance w.held.values).stale = false := by
      rw [StatsReporter.stale, StatsReporter.advance, StatsReporter.remember_eq]
      simp
    rw [hstale, if_neg (by simp)]
    exact hnext
  · rcases StatsReporter.mem_remember hdelta with rfl | hold
    · intro number delta hread
      obtain ⟨rfl, -, -⟩ := readDelta_sorted hread
      exact hnext
    · exact h.deltas delta hold

theorem Unchanged.observe {w : StatsReporter} (h : Unchanged sequence inventory w) :
    Unchanged sequence inventory w.observe := by
  by_cases hchanged : w.observedInventory ≠ some w.heldObject ∨ w.observedRevision ≠ w.held.revision
  · rw [StatsReporter.observe, if_pos hchanged]
    by_cases hnew : w.held.values ≠ w.observedHeld
    · have hadvanced := h.advance hnew
      simp only [if_pos hnew]
      exact ⟨hadvanced.inventory, hadvanced.next, hadvanced.deltas, hadvanced.checkpoint⟩
    · simp only [if_neg hnew]
      exact ⟨h.inventory, h.next, h.deltas, h.checkpoint⟩
  · rw [StatsReporter.observe, if_neg hchanged]
    exact h

theorem Unchanged.next_report {w : StatsReporter} (h : Unchanged sequence inventory w) :
    Unchanged sequence inventory w.nextPage.nextDelta := by
  have hpage : Unchanged sequence inventory w.nextPage := by
    unfold StatsReporter.nextPage
    split <;> exact ⟨h.inventory, h.next, h.deltas, h.checkpoint⟩
  rw [StatsReporter.nextDelta_eq]
  exact ⟨hpage.inventory, hpage.next, hpage.deltas, hpage.checkpoint⟩

/-- What a rank has said about the accepted sequence number and the ones before. -/
def Early (rank : ℕ) (generation : Str) (time sequence : ℕ) (report : QuorumReport) : Prop :=
  report.rank = rank → ∃ (delta : Option DeltaMessage) (checkpoint : Option CheckpointMessage),
    report = ⟨rank, some generation, some (time : ℤ), .delta delta checkpoint⟩ ∧
      (∀ message, delta = some message → message.Within sequence) ∧
      ∀ message, checkpoint = some message → message.Within sequence

/-- A rank that has nothing new to say to a synchronized mirror. -/
structure Settled (rank : ℕ) (generation : Str) (time sequence : ℕ) (inventory held : Finset Str)
    (confirmed : Set Str) (s : System) : Prop where
  ranks : ∀ r, (s.workers r).rank = r
  worker : Unchanged sequence inventory (s.workers rank)
  started : (s.workers rank).generation = generation ∧ (s.workers rank).generationEpoch = time
  sent : ∀ report ∈ s.sent, Early rank generation time sequence report
  synchronized : s.scheduler.Synchronized rank generation time sequence held
  confirmed : ∀ d, rank ∈ s.scheduler.quorum d → d ∈ confirmed

/-- The inventory of a rank is left alone. -/
def Steady (rank : ℕ) : Action → Prop
  | .mutate r _ | .replace r _ | .restart r _ _ => r ≠ rank
  | _ => True

theorem Settled.setWorker (h : s.Settled rank generation time sequence inventory held confirmed) {other : ℕ}
    (hother : other ≠ rank) {w : StatsReporter} (hw : w.rank = other) :
    (s.setWorker other w).Settled rank generation time sequence inventory held confirmed := by
  have hworker : (s.setWorker other w).workers rank = s.workers rank := by
    simp [System.setWorker, Ne.symm hother]
  refine ⟨fun r => ?_, hworker ▸ h.worker, hworker ▸ h.started, h.sent, h.synchronized, h.confirmed⟩
  by_cases hr : r = other
  · subst hr
    simpa [System.setWorker] using hw
  · simpa [System.setWorker, hr] using h.ranks r

theorem absorb_early (hgeneration : generation ≠ missingGeneration) {reports : List QuorumReport}
    (hreports : ∀ report ∈ reports, Early rank generation time sequence report) {t : Scheduler}
    (hsynchronized : t.Synchronized rank generation time sequence held)
    (hconfirmed : ∀ d, rank ∈ t.quorum d → d ∈ confirmed) :
    (t.absorbQuorum reports).Synchronized rank generation time sequence held ∧
      ∀ d, rank ∈ (t.absorbQuorum reports).quorum d → d ∈ confirmed := by
  induction reports generalizing t with
  | nil => exact ⟨hsynchronized, hconfirmed⟩
  | cons report rest ih =>
      rw [List.forall_mem_cons] at hreports
      have hsteps := Scheduler.absorbReport_steps t report
      by_cases hrank : report.rank = rank
      · obtain ⟨delta, checkpoint, rfl, hdelta, hcheckpoint⟩ := hreports.1 hrank
        obtain ⟨hsynchronized', hquorum⟩ := hsynchronized.absorbReport hgeneration hdelta hcheckpoint
        exact ih hreports.2 hsynchronized' (by rw [hquorum]; exact hconfirmed)
      · by_cases hnegative : report.rank < 0
        · have hignored : t.absorbReport report = t := by
            unfold Scheduler.absorbReport
            rw [if_pos (Or.inl hnegative)]
          rw [Scheduler.absorbQuorum, List.foldl_cons, hignored]
          exact ih hreports.2 hsynchronized hconfirmed
        · have hne : rank ≠ report.rank.toNat := by omega
          exact ih hreports.2 (hsynchronized.other (hsteps.mirrors rank hne))
            fun d hd => hconfirmed d ((hsteps.quorum rank hne d).mp hd)

theorem Settled.report (h : s.Settled rank generation time sequence inventory held confirmed) (other : ℕ) :
    (s.report other).Settled rank generation time sequence inventory held confirmed := by
  have hsame := StatsReporter.observe_same (s.workers other)
  have hsaid : Early rank generation time sequence (s.workers other).buildQuorumReport.1 := by
    intro hrank
    have hother : other = rank := by
      simpa [StatsReporter.buildQuorumReport, StatsReporter.report, hsame.rank, h.ranks other] using hrank
    subst hother
    have hworker := h.worker.observe
    refine ⟨(s.workers other).observe.currentDelta, some (s.workers other).observe.checkpoint, ?_,
      fun message hmessage => hworker.deltas message (List.mem_of_getElem? hmessage), fun message hmessage => ?_⟩
    · simp only [StatsReporter.buildQuorumReport, StatsReporter.report, hsame.rank, hsame.generation,
        hsame.generationEpoch, h.ranks other, h.started.1, h.started.2]
    · cases hmessage
      exact within_of_le (Int.ofNat_le.mpr hworker.checkpoint)
  have hworkers : ∀ r, (s.report other).workers r =
      if r = other then (s.workers other).buildQuorumReport.2 else s.workers r := by
    intro r
    by_cases hr : r = other
    · subst hr
      simp [System.report, System.setWorker, send]
    · simp [System.report, System.setWorker, setAccount, send, hr]
  have hkept := (hsame.trans (StatsReporter.nextPage_same _)).trans (StatsReporter.nextDelta_same _)
  refine ⟨fun r => ?_, ?_, ?_, fun report hreport => ?_, h.synchronized, h.confirmed⟩
  · rw [hworkers]
    split
    · rename_i hr
      rw [hr]
      exact hkept.rank.trans (h.ranks other)
    · exact h.ranks r
  · rw [hworkers]
    split
    · rename_i hrank
      subst hrank
      exact h.worker.observe.next_report
    · exact h.worker
  · rw [hworkers]
    split
    · rename_i hrank
      subst hrank
      exact ⟨hkept.generation.trans h.started.1, hkept.generationEpoch.trans h.started.2⟩
    · exact h.started
  · rcases List.mem_append.mp hreport with hold | hnew
    · exact h.sent report hold
    · rw [List.mem_singleton.mp hnew]
      exact hsaid

theorem Settled.handshake (h : s.Settled rank generation time sequence inventory held confirmed) (other : ℕ) :
    (s.handshake other).Settled rank generation time sequence inventory held confirmed := by
  refine ⟨h.ranks, h.worker, h.started, fun report hreport => ?_, h.synchronized, h.confirmed⟩
  rcases List.mem_append.mp hreport with hold | hnew
  · exact h.sent report hold
  · intro hrank
    obtain ⟨index, -, rfl⟩ := List.mem_map.mp hnew
    have hother : other = rank := by
      simpa [StatsReporter.handshakeReport, h.ranks other] using hrank
    subst hother
    refine ⟨none, some ((s.workers other).handshakePage index), ?_, by simp, fun message hmessage => ?_⟩
    · rw [StatsReporter.handshakeReport, h.ranks, h.started.1, h.started.2]
    · cases hmessage
      have hnext := h.worker.next
      apply within_of_le
      dsimp only [StatsReporter.handshakePage]
      split at hnext <;> simp_all

theorem Settled.step (h : s.Settled rank generation time sequence inventory held confirmed) (epoch : ℕ → Str → ℕ)
    (hgeneration : generation ≠ missingGeneration) (a : Action) (ha : Steady rank a) :
    (s.step epoch a).Settled rank generation time sequence inventory held confirmed := by
  cases a with
  | mutate other mutation => exact h.setWorker ha (h.ranks other)
  | replace other values => exact h.setWorker ha (h.ranks other)
  | restart other name values =>
      have haccount : (s.setAccount other name .start).Settled rank generation time sequence inventory held confirmed :=
        ⟨h.ranks, h.worker, h.started, h.sent, h.synchronized, h.confirmed⟩
      exact haccount.setWorker ha rfl
  | withdraw digest =>
      refine ⟨h.ranks, h.worker, h.started, h.sent, h.synchronized.other rfl, fun d hd => ?_⟩
      by_cases hdigest : d = digest
      · simp [System.step, Scheduler.withdraw, hdigest] at hd
      · exact h.confirmed d (by simpa [System.step, Scheduler.withdraw, hdigest] using hd)
  | deliver indices =>
      have hreports : ∀ report ∈ indices.filterMap (s.sent[·]?), Early rank generation time sequence report := by
        intro report hreport
        obtain ⟨i, -, hi⟩ := List.mem_filterMap.mp hreport
        exact h.sent report (List.mem_of_getElem? hi)
      obtain ⟨hsynchronized, hconfirmed⟩ := absorb_early hgeneration hreports h.synchronized h.confirmed
      exact ⟨h.ranks, h.worker, h.started, h.sent, hsynchronized, hconfirmed⟩
  | handshake other => exact h.handshake other
  | report other => exact h.report other

theorem Settled.run (h : s.Settled rank generation time sequence inventory held confirmed) (epoch : ℕ → Str → ℕ)
    (hgeneration : generation ≠ missingGeneration) {actions : List Action} (hactions : ∀ a ∈ actions, Steady rank a) :
    (Run.exec (System.step epoch) s actions).Settled rank generation time sequence inventory held confirmed := by
  induction actions generalizing s with
  | nil => exact h
  | cons a rest ih =>
      rw [List.forall_mem_cons] at hactions
      exact ih (h.step epoch hgeneration a hactions.1) hactions.2

/-- A digest that the rank does not confirm has no full quorum. -/
theorem Settled.hasFullQuorum (h : s.Settled rank generation time sequence inventory held confirmed)
    (hrank : rank < s.scheduler.tpDegree) {d : Str} (hd : d ∉ confirmed) : s.scheduler.hasFullQuorum d = false := by
  have hnot : rank ∉ s.scheduler.quorum d := fun hmem => hd (h.confirmed d hmem)
  rw [Scheduler.hasFullQuorum, List.all_eq_false]
  exact ⟨rank, List.mem_range.mpr hrank, by simpa using hnot⟩

end System

namespace StatsReporter
variable {w : StatsReporter}

theorem readCheckpoint_handshakePage {index : ℕ} (hdigests : ∀ d ∈ w.held.values, d.isHex 64 = true)
    (hcycle : 0 < w.checkpointCycle) (hindex : index < pageCount reportBatchSize w.handshakeHeld.length) :
    ∃ p, readCheckpoint (w.handshakePage index) = some p ∧
      p.stateSequence = w.sequence + (if w.stale then 1 else 0) ∧ p.cycle = w.checkpointCycle ∧ p.index = index := by
  have hread := readDigests_sublist
    (page_sublist reportBatchSize (startupPart w.held.values).sort index)
    fun d hd => hdigests d (startupPart_subset _ hd)
  have hlength := page_length reportBatchSize (startupPart w.held.values).sort index
  rw [handshakeHeld_eq] at hindex
  unfold readCheckpoint
  simp only [handshakePage, handshakeHeld_eq]
  rw [if_neg, if_neg]
  · refine ⟨_, rfl, ?_, rfl, rfl⟩
    split <;> simp_all
  · simp [hread, hlength]
  · rw [hlength]
    split <;> omega

end StatsReporter

namespace Scheduler
variable {s : Scheduler}

/-! ## The handshake arrives -/

section Handshake
variable {w : StatsReporter} {account : Account}

/-- The pages of a handshake, in their order, are collected by a rank that nothing was heard of. -/
theorem handshake_progress (hrank : w.rank < s.tpDegree) (hgeneration : w.generation ≠ missingGeneration)
    (hnew : s.mirrors w.rank = .new) (hdigests : ∀ d ∈ w.held.values, d.isHex 64 = true)
    (hstart : account.inventory 0 = some ∅) (hcycle : account.cycle = w.checkpointCycle) (hpositive : 0 < w.checkpointCycle)
    (hlast : account.Last (w.sequence + if w.stale then 1 else 0) (StatsReporter.startupPart w.held.values)) (k : ℕ)
    (hk : k ≤ pageCount reportBatchSize w.handshakeHeld.length) :
    let t := s.absorbQuorum ((List.range k).map w.handshakeReport)
    t.tpDegree = s.tpDegree ∧ (k = 0 ∧ t = s ∨
      (t.mirrors w.rank).generation = some w.generation ∧
        (t.mirrors w.rank).generationEpoch = some (w.generationEpoch : ℤ) ∧ (t.mirrors w.rank).Follows account ∧
        ((t.mirrors w.rank).Current (w.sequence + if w.stale then 1 else 0) ∨
          (t.mirrors w.rank).Collected (w.sequence + if w.stale then 1 else 0) w.checkpointCycle k ∧
            k < pageCount reportBatchSize w.handshakeHeld.length)) := by
  induction k with
  | zero => exact ⟨rfl, Or.inl ⟨rfl, rfl⟩⟩
  | succ k ih =>
      obtain ⟨hdegree, hbefore⟩ := ih (Nat.le_of_succ_le hk)
      simp only [List.range_succ, List.map_append, absorbQuorum, List.foldl_append] at hdegree hbefore ⊢
      generalize (((List.range k).map w.handshakeReport).foldl Scheduler.absorbReport s) = t at hdegree hbefore ⊢
      simp only [List.map_cons, List.map_nil, List.foldl_cons, List.foldl_nil]
      have hsteps := absorbReport_steps t (w.handshakeReport k)
      refine ⟨hsteps.tpDegree.trans hdegree, Or.inr ?_⟩
      have htells := StatsReporter.handshakePage_tells (w := w) k hcycle.ge hlast.1
      obtain ⟨p, hread, hsequence, hpcycle, hindex⟩ := StatsReporter.readCheckpoint_handshakePage hdigests hpositive
        (Nat.lt_of_succ_le hk)
      have hpages : w.handshakeHeld.length = (StatsReporter.startupPart w.held.values).card := by
        rw [StatsReporter.handshakeHeld_eq, Finset.length_sort]
      -- Whether or not the generation is new, the page finds a mirror that has the pages before it.
      obtain ⟨accepted, haccept, hsame, hepoch, hfollows, hprogress⟩ : ∃ accepted,
          t.acceptWorkerGeneration w.rank w.generation (some (w.generationEpoch : ℤ)) = some accepted ∧
            (accepted.mirrors w.rank).generation = some w.generation ∧
            (accepted.mirrors w.rank).generationEpoch = some (w.generationEpoch : ℤ) ∧
            (accepted.mirrors w.rank).Follows account ∧
            ((accepted.mirrors w.rank).Current (w.sequence + if w.stale then 1 else 0) ∨
              (accepted.mirrors w.rank).Collected (w.sequence + if w.stale then 1 else 0) w.checkpointCycle k) := by
        obtain ⟨rfl, rfl⟩ | ⟨hsame, hepoch, hfollows, hprogress⟩ := hbefore
        · have haccept : t.acceptWorkerGeneration w.rank w.generation (some (w.generationEpoch : ℤ)) ≠ none := by
            unfold acceptWorkerGeneration
            simp [hnew, Mirror.new]
          obtain ⟨accepted, haccept⟩ := Option.ne_none_iff_exists'.mp haccept
          obtain ⟨-, hgenerations⟩ | hbegun := acceptWorkerGeneration_spec haccept
          · rw [hnew] at hgenerations
            cases hgenerations
          · refine ⟨accepted, haccept, ?_⟩
            rw [hbegun]
            exact ⟨rfl, rfl, new_follows hstart _ _ _, Or.inr (Or.inl rfl)⟩
        · exact ⟨t, acceptWorkerGeneration_same hsame hepoch, hsame, hepoch, hfollows, hprogress.imp_right And.left⟩
      have habsorbed : t.absorbReport (w.handshakeReport k) =
          accepted.absorbWorkerCheckpoint w.rank (w.handshakePage k) := by
        rw [StatsReporter.handshakeReport, absorbReport_delta t hgeneration, if_neg (by omega), haccept]
        rfl
      have hmoves := absorbWorkerCheckpoint_moves htells hfollows
      rw [habsorbed]
      refine ⟨hmoves.generation.trans hsame, hmoves.generationEpoch.trans hepoch, hmoves.follows hfollows, ?_⟩
      have hafter := absorbWorkerCheckpoint_progress hlast hcycle hfollows hread (htells p hread)
        ⟨hsequence, hpcycle⟩ (by rw [hindex]; exact hprogress)
      rw [hindex, ← hpages] at hafter
      exact hafter.imp_right And.right

end Handshake

end Scheduler

namespace System
variable {epoch : ℕ → Str → ℕ} {rank : ℕ}

/-! ## The part that a startup handshake leaves out -/

section Startup
variable {w : StatsReporter}

/-- What a worker says first is the last that it has said. -/
theorem startup_last (held : Finset Str) : (Account.start.record 1 held 1).Last 1 held := by
  refine ⟨Account.record_self, fun later other hother => ?_⟩
  by_contra hlater
  have hunset : (Account.start.record 1 held 1).inventory later = none := by
    simp [Account.record, Account.start, show later ≠ 1 by omega, show later ≠ 0 by omega]
  rw [hunset] at hother
  cases hother

/-- The pages of the first handshake synchronize the mirror with the part that they name. -/
theorem startup_synchronized {tpDegree : ℕ} (hrank : w.rank < tpDegree) (hgeneration : w.generation ≠ missingGeneration)
    (hdigests : ∀ d ∈ w.held.values, d.isHex 64 = true) (hcycle : w.checkpointCycle = 1)
    (hannounced : w.sequence + (if w.stale then 1 else 0) = 1) :
    ((Scheduler.new tpDegree).absorbQuorum w.handshake).Synchronized w.rank w.generation w.generationEpoch 1
      (StatsReporter.startupPart w.held.values) := by
  have hlast := startup_last (StatsReporter.startupPart w.held.values)
  have hstart : (Account.start.record 1 (StatsReporter.startupPart w.held.values) 1).inventory 0 = some ∅ := by
    simp [Account.record, Account.start]
  obtain ⟨-, hprogress⟩ := Scheduler.handshake_progress (s := Scheduler.new tpDegree) hrank hgeneration rfl hdigests
    hstart hcycle.symm (by omega) (by rw [hannounced]; exact hlast) (pageCount reportBatchSize w.handshakeHeld.length) le_rfl
  rw [hannounced] at hprogress
  have hpages : 0 < pageCount reportBatchSize w.handshakeHeld.length := pageCount_pos _ _
  obtain ⟨hzero, -⟩ | ⟨hsame, hepoch, hfollows, hcurrent⟩ := hprogress
  · omega
  have hsynchronized := hcurrent.resolve_right fun hcollected => lt_irrefl _ hcollected.2
  refine ⟨hsame, hepoch, hsynchronized, ?_, ?_⟩
  · by_contra hrequires
    have hdesync := hfollows.requires (Bool.eq_true_of_not_eq_false hrequires)
    rw [hsynchronized.synchronized] at hdesync
    cases hdesync
  · have htaken := hfollows.held
    rw [hsynchronized.sequence, hlast.1] at htaken
    exact (Option.some.inj htaken).symm

end Startup

/-- Everything that was sent, arrives in its order. -/
theorem filterMap_range {α : Type} (items : List α) :
    (List.range items.length).filterMap (items[·]?) = items := by
  induction items with
  | nil => rfl
  | cons a rest ih =>
      rw [List.length_cons, List.range_succ_eq_map, List.filterMap_cons, List.filterMap_map]
      simpa [Function.comp_def] using ih

/-- The pages of its startup handshake, delivered at once. -/
def startupActions (w : StatsReporter) : List Action :=
  [.handshake w.rank, .deliver (List.range (pageCount reportBatchSize w.handshakeHeld.length))]

theorem startupActions_eq (w : StatsReporter) :
    startupActions w = [.handshake w.rank,
      .deliver (List.range (pageCount reportBatchSize (min startupHandshakeMaxDigests w.held.values.card)))] := by
  rw [startupActions, StatsReporter.handshakeHeld, List.length_take, Finset.length_sort]

/-- A worker that starts with entries is settled once its handshake has arrived. -/
theorem startup_settled (epoch : ℕ → Str → ℕ) {tpDegree : ℕ} (generation : ℕ → Str) (values : ℕ → Finset Str)
    (hgeneration : generation rank ≠ missingGeneration) (hrank : rank < tpDegree)
    (hdigests : ∀ d ∈ values rank, d.isHex 64 = true) (hne : values rank ≠ ∅) :
    let w := StatsReporter.new rank (generation rank) (epoch rank (generation rank)) (values rank)
    (Run.exec (step epoch) (initial epoch tpDegree generation values) (startupActions w)).Settled rank (generation rank)
      (epoch rank (generation rank)) 1 (values rank) (StatsReporter.startupPart (values rank))
      {d | d ∈ StatsReporter.startupPart (values rank)} := by
  intro w
  have hstale : w.stale = true := by
    simp [w, StatsReporter.stale, StatsReporter.new, HeldInventory.new, hne]
  have hannounced : w.sequence + (if w.stale then 1 else 0) = 1 := by
    rw [hstale]
    rfl
  have hsynchronized := startup_synchronized (w := w) hrank hgeneration hdigests rfl hannounced
  have hscheduler : (Run.exec (step epoch) (initial epoch tpDegree generation values) (startupActions w)).scheduler =
      (Scheduler.new tpDegree).absorbQuorum w.handshake := by
    have harrives := filterMap_range w.handshake
    rw [StatsReporter.handshake, List.length_map, List.length_range] at harrives
    change (Scheduler.new tpDegree).absorbQuorum ((List.range _).filterMap (([] ++ w.handshake)[·]?)) = _
    rw [List.nil_append, StatsReporter.handshake, harrives]
  have hpublished := absorbQuorum_published (s := Scheduler.new tpDegree) w.handshake
    (Scheduler.new_published tpDegree Set.univ) rank
  refine ⟨fun r => rfl, ⟨rfl, hannounced.le, List.forall_mem_nil _, Nat.zero_le 1⟩, ⟨rfl, rfl⟩, fun report hreport hreports => ?_, ?_,
    fun d hd => ?_⟩
  · have hmem : report ∈ w.handshake := hreport
    obtain ⟨index, -, rfl⟩ := List.mem_map.mp hmem
    refine ⟨none, some (w.handshakePage index), rfl, by simp, fun message hmessage => ?_⟩
    cases hmessage
    apply within_of_le
    rw [StatsReporter.handshakePage, hstale]
    exact le_rfl
  · rw [hscheduler]
    exact hsynchronized
  · rw [hscheduler] at hd
    have hmem := hpublished.held d hd
    have hheld := hsynchronized.held
    change (((Scheduler.new tpDegree).absorbQuorum w.handshake).mirrors rank).held = _ at hheld
    rw [hheld] at hmem
    exact hmem

/-- A worker that starts with more entries than its handshake can name, names the first part of
them. As long as its inventory stays, whatever arrives of its reports, the scheduler believes that
the rank holds this part, and the other entries have no full quorum. -/
theorem startup_part_stays (epoch : ℕ → Str → ℕ) {tpDegree : ℕ} (generation : ℕ → Str) (values : ℕ → Finset Str)
    (hgeneration : generation rank ≠ missingGeneration) (hrank : rank < tpDegree)
    (hdigests : ∀ d ∈ values rank, d.isHex 64 = true) (hmany : startupHandshakeMaxDigests < (values rank).card)
    {actions : List Action} (hactions : ∀ a ∈ actions, Steady rank a) :
    let s := Run.exec (step epoch) (initial epoch tpDegree generation values)
      (.handshake rank :: .deliver (List.range 8) :: actions)
    (s.workers rank).held.values = values rank ∧
      (s.scheduler.mirrors rank).held = StatsReporter.startupPart (values rank) ∧
        ∀ d ∈ values rank, d ∉ StatsReporter.startupPart (values rank) → s.scheduler.hasFullQuorum d = false := by
  intro s
  have hne : values rank ≠ ∅ := by
    intro hempty
    simp [hempty] at hmany
  have hstart := startup_settled epoch generation values hgeneration hrank hdigests hne
  have hpages : startupActions (StatsReporter.new rank (generation rank) (epoch rank (generation rank)) (values rank)) =
      [.handshake rank, .deliver (List.range 8)] := by
    rw [startupActions_eq]
    change [_, Action.deliver (List.range (pageCount reportBatchSize (min _ (values rank).card)))] = _
    rw [min_eq_left hmany.le]
    rfl
  dsimp only at hstart
  rw [hpages] at hstart
  have hend := hstart.run epoch hgeneration hactions
  refine ⟨hend.worker.inventory, hend.synchronized.held, fun d _ hd => hend.hasFullQuorum ?_ hd⟩
  have hdegree : s.scheduler.tpDegree = tpDegree := exec_tpDegree epoch _ _
  exact hrank.trans_eq hdegree.symm

/-- A digest that ends in the number of an entry. -/
def numbered (n : ℕ) : Str := ⟨List.replicate 61 48 ++ [hexCode (n / 256), hexCode (n / 16), hexCode n]⟩

theorem hexCode_mod {m n : ℕ} (h : hexCode m = hexCode n) : m % 16 = n % 16 := by
  unfold hexCode at h
  split at h <;> split at h <;> omega

theorem numbered_injOn : Set.InjOn numbered (Finset.range 513) := by
  intro m hm n hn h
  rw [Finset.mem_coe, Finset.mem_range] at hm hn
  have htail := List.append_cancel_left (congrArg Str.codes h)
  simp only [List.cons.injEq, and_true] at htail
  have h₁ := hexCode_mod htail.1
  have h₂ := hexCode_mod htail.2.1
  have h₃ := hexCode_mod htail.2.2
  omega

theorem numbered_isHex (n : ℕ) : (numbered n).isHex 64 = true := by
  have hzero : isHexCode 48 = true := by decide
  simp [numbered, Str.isHex, isHexCode_hexCode, hzero]

/-- A worker with 513 entries, whose reports arrive. -/
theorem startup_part_stays_numbered :
    let values : ℕ → Finset Str := fun _ => (Finset.range 513).image numbered
    let s := Run.exec (step fun _ _ => 7) (initial (fun _ _ => 7) 1 (fun _ => "9f") values)
      (.handshake 0 :: .deliver (List.range 8) :: [.report 0, .deliver [8], .report 0, .deliver [9, 3]])
    (s.workers 0).held.values = values 0 ∧ (s.scheduler.mirrors 0).held = StatsReporter.startupPart (values 0) ∧
      ∀ d ∈ values 0, d ∉ StatsReporter.startupPart (values 0) → s.scheduler.hasFullQuorum d = false := by
  refine startup_part_stays (fun _ _ => 7) (fun _ => "9f") _ (by decide) Nat.zero_lt_one (fun d hd => ?_) ?_ ?_
  · obtain ⟨n, -, rfl⟩ := Finset.mem_image.mp hd
    exact numbered_isHex n
  · rw [Finset.card_image_of_injOn numbered_injOn, Finset.card_range]
    decide
  · intro a ha
    simp only [List.mem_cons, List.not_mem_nil, or_false] at ha
    rcases ha with rfl | rfl | rfl | rfl <;> trivial

/-! ## A digest that a failed load withdraws -/

/-- The scheduler has heard everything that the worker of a rank has announced, and no report of an
earlier generation can still arrive. -/
structure Heard (s : System) (rank : ℕ) : Prop where
  sent : ∀ report ∈ s.sent, report.rank = rank → report.generation = some (s.workers rank).generation
  generation : (s.scheduler.mirrors rank).generation = some (s.workers rank).generation
  current : (s.scheduler.mirrors rank).Current (announced (s.workers rank))
  last : ∀ later held, (s.account rank).inventory later = some held → later ≤ announced (s.workers rank)

theorem Agrees.settled_withdraw {withdrawn : Set Str} {s : System} (h : s.Agrees epoch withdrawn)
    (hheard : s.Heard rank) (d : Str) :
    (s.step epoch (.withdraw d)).Settled rank (s.workers rank).generation
      (epoch rank (s.workers rank).generation) (announced (s.workers rank)) (s.workers rank).held.values
      (s.scheduler.mirrors rank).held {d}ᶜ := by
  have hspeaks := h.speaks rank
  have htracks := h.tracks rank
  have hfollows := htracks.follows _ hheard.generation
  refine ⟨fun r => (h.workers r).1, ⟨rfl, le_rfl, fun delta hdelta => ?_, ?_⟩, ⟨rfl, (h.workers rank).2.2⟩,
    fun report hreport hrank => ?_, ?_, fun e he heq => ?_⟩
  · exact (hspeaks.deltas delta hdelta).within hheard.last
  · exact hspeaks.checkpoint.1.trans_le (hheard.last _ _ hspeaks.observed)
  · obtain ⟨r, generation, delta, checkpoint, rfl, -, -, hdelta, hcheckpoint⟩ := h.sent report hreport
    obtain rfl : r = rank := Int.ofNat_inj.mp hrank
    obtain rfl : generation = (s.workers r).generation := Option.some.inj (hheard.sent _ hreport rfl)
    exact ⟨delta, checkpoint, rfl, fun message hmessage => (hdelta message hmessage).within hheard.last,
      fun message hmessage => (hcheckpoint message hmessage).within hheard.last⟩
  · refine ⟨hheard.generation, htracks.epoch _ hheard.generation, hheard.current, ?_, rfl⟩
    by_contra hrequires
    have hdesync := hfollows.requires (Bool.eq_true_of_not_eq_false hrequires)
    rw [hheard.current.synchronized] at hdesync
    cases hdesync
  · obtain rfl : e = d := heq
    simp [System.step, Scheduler.withdraw] at he

/-- A digest whose load has failed keeps out of the quorum while the inventory of a rank that the
scheduler has heard stays: no report of the rank, whether it arrives late or is made afterwards,
brings the digest back. -/
theorem withdrawn_stays {tpDegree : ℕ} {generation : ℕ → Str} {held : ℕ → Finset Str} {past actions : List Action}
    (hgeneration : ∀ r, generation r ≠ missingGeneration)
    (hpast : Run.Throughout (step epoch) (Honest Set.univ) (initial epoch tpDegree generation held) past)
    (hrank : rank < tpDegree) (hheard : (Run.exec (step epoch) (initial epoch tpDegree generation held) past).Heard rank)
    (hactions : ∀ a ∈ actions, Steady rank a) (d : Str) :
    let s := Run.exec (step epoch) (initial epoch tpDegree generation held) past
    let t := Run.exec (step epoch) s (.withdraw d :: actions)
    (t.scheduler.mirrors rank).held = (s.scheduler.mirrors rank).held ∧ t.scheduler.hasFullQuorum d = false := by
  intro s t
  have hagrees : s.Agrees epoch Set.univ := hpast.preserves (fun s a hs ha => Agrees.step hs a ha)
    (initial_agrees epoch _ tpDegree hgeneration held)
  have hend : t.Settled _ _ _ _ _ _ _ :=
    (hagrees.settled_withdraw hheard d).run epoch (hagrees.workers rank).2.1 hactions
  have hdegree : t.scheduler.tpDegree = tpDegree := (exec_tpDegree epoch s _).trans (exec_tpDegree epoch _ past)
  exact ⟨hend.synchronized.held, hend.hasFullQuorum (hrank.trans_eq hdegree.symm) (by simp)⟩

/-- The load of the only digest fails, and the reports of its worker arrive again. -/
theorem withdrawn_stays_alone : let x : Str := (Hex.replicate 64 48 isHexCode_zero).text
    let s := Run.exec (step fun _ _ => 7) (initial (fun _ _ => 7) 1 (fun _ => "9f") fun _ => {x})
      [.handshake 0, .deliver [0]]
    let t := Run.exec (step fun _ _ => 7) s [.withdraw x, .report 0, .deliver [1, 0, 1]]
    (t.scheduler.mirrors 0).held = (s.scheduler.mirrors 0).held ∧ t.scheduler.hasFullQuorum x = false := by
  have hsettled := startup_settled (fun _ _ => 7) (fun _ => "9f")
    (fun _ => {(Hex.replicate 64 48 isHexCode_zero).text}) (by decide) Nat.zero_lt_one
    (by decide) (by simp)
  have hpages : startupActions (StatsReporter.new 0 "9f" 7 {(Hex.replicate 64 48 isHexCode_zero).text}) =
      [.handshake 0, .deliver [0]] := by
    rw [startupActions_eq]
    rfl
  dsimp only at hsettled
  rw [hpages] at hsettled
  have hsynchronized := hsettled.synchronized
  have hpast : Run.Throughout (step fun _ _ => 7) (Honest Set.univ) (initial (fun _ _ => 7) 1 (fun _ => "9f")
      fun _ => {(Hex.replicate 64 48 isHexCode_zero).text}) [.handshake 0, .deliver [0]] :=
    ⟨⟨by decide, by decide⟩, trivial, trivial⟩
  refine withdrawn_stays (fun _ => by decide) hpast Nat.zero_lt_one
    ⟨fun report hreport _ => ?_, hsynchronized.generation, hsynchronized.current, fun later held hinventory => ?_⟩ ?_ _
  · obtain ⟨index, -, rfl⟩ := List.mem_map.mp hreport
    rfl
  · exact (startup_last {(Hex.replicate 64 48 isHexCode_zero).text}).2 later held hinventory
  · intro a ha
    simp only [List.mem_cons, List.not_mem_nil, or_false] at ha
    rcases ha with rfl | rfl <;> trivial

end System

end SparkCache.Quorum
