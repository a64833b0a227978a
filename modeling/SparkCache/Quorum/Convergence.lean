import SparkCache.Quorum.Agreement

/-!
# Convergence

Once the inventories stay as they are, the pages of one checkpoint cycle bring
the mirror of a rank up to date, whatever was lost before. Then a digest has a
full quorum exactly when every rank holds it.
-/
namespace SparkCache.Quorum
open Paging

namespace Mirror

/-- The mirror is synchronized at a sequence number. -/
structure Current (sequence : ℕ) (m : Mirror) : Prop where
  sequence : m.reportSequence = sequence
  synchronized : m.desynchronized = false

/-- The first pages of a cycle have arrived. -/
def Collected (sequence cycle index : ℕ) (m : Mirror) : Prop :=
  index = 0 ∨ ∃ a, m.checkpoint = some a ∧ a.stateSequence = sequence ∧ a.cycle = cycle ∧
    ∀ i < index, i ∈ a.chunks

end Mirror

/-- No later inventory has a sequence number. -/
def Account.Last (account : Account) (sequence : ℕ) (held : Finset Str) : Prop :=
  account.inventory sequence = some held ∧
    ∀ later other, account.inventory later = some other → later ≤ sequence

namespace Scheduler
variable {s : Scheduler} {rank sequence cycle : ℕ} {account : Account} {held : Finset Str}

/-! ## Deltas -/

theorem takeWorkerDeltas_checkpoint (turns : ℕ) (s : Scheduler) :
    ((takeWorkerDeltas rank turns s).mirrors rank).checkpoint = (s.mirrors rank).checkpoint := by
  induction turns generalizing s with
  | zero => rfl
  | succ turns ih =>
      unfold takeWorkerDeltas
      split
      · rfl
      · rw [ih, takeWorkerDelta_self]

theorem drainWorkerDeltas_checkpoint (s : Scheduler) :
    ((s.drainWorkerDeltas rank).mirrors rank).checkpoint = (s.mirrors rank).checkpoint := by
  rw [drainWorkerDeltas, settleWorker_self]
  exact takeWorkerDeltas_checkpoint _ s

theorem storeWorkerDelta_checkpoint (s : Scheduler) (number : ℕ) (delta : Delta) :
    ((s.storeWorkerDelta rank number delta).mirrors rank).checkpoint = (s.mirrors rank).checkpoint := by
  rw [storeWorkerDelta, drainWorkerDeltas_checkpoint]
  split <;> simp

/-- A delta has no part in an assembly. -/
theorem absorbWorkerDelta_checkpoint (s : Scheduler) (message : DeltaMessage) :
    ((s.absorbWorkerDelta rank message).mirrors rank).checkpoint = (s.mirrors rank).checkpoint := by
  unfold absorbWorkerDelta
  split
  · rfl
  · dsimp only
    split
    · rfl
    · split
      · split
        · rw [requireCheckpoint_self]
        · rfl
      · split
        · split
          · rw [requireCheckpoint_self]
          · rw [storeWorkerDelta_checkpoint, modify_self, requireCheckpoint_self]
        · rw [storeWorkerDelta_checkpoint]

/-- A mirror at the last sequence number has no use for deltas. -/
theorem absorbWorkerDelta_of_last {message : DeltaMessage} (htells : message.Tells account)
    (hlast : account.Last sequence held) (hsequence : (s.mirrors rank).reportSequence = sequence) :
    s.absorbWorkerDelta rank message = s := by
  unfold absorbWorkerDelta
  split
  · rfl
  · rename_i number delta hread
    obtain ⟨-, before, -, hafter⟩ := htells number delta hread
    have hle := hlast.2 _ _ hafter
    dsimp only
    rw [if_pos (by omega)]

/-! ## Pages -/

/-- A checkpoint of the last sequence number leaves no delta pending. -/
theorem restoreWorker_current (hlast : account.Last sequence held) (hfollows : (s.mirrors rank).Follows account)
    (values : Finset Str) : ((s.restoreWorker rank sequence values).mirrors rank).Current sequence := by
  have hnone : ((s.mirrors rank).pendingDeltas.filter fun pending _ => sequence < pending).entries = [] := by
    apply List.filter_eq_nil_iff.mpr
    intro e he
    obtain ⟨-, before, -, hafter⟩ := hfollows.pending e.1 e.2 (AList.lookup_eq_some_iff.mpr he)
    have hle := hlast.2 _ _ hafter
    simpa using hle
  have hsize : ((s.mirrors rank).pendingDeltas.filter fun pending _ => sequence < pending).size = 0 := by
    rw [AList.size, hnone, List.length_nil]
  unfold restoreWorker drainWorkerDeltas
  simp only [modify_self, replaceWorkerHeld_self, hsize, takeWorkerDeltas, settleWorker_self]
  exact ⟨rfl, rfl⟩

theorem Shows.mem_lt {a : Assembly} (h : Shows account a.stateSequence a.cycle a.count a.heldCount
    (fun i items => a.chunks.lookup i = some items) held) : ∀ i ∈ a.chunks, i < pageCount reportBatchSize held.card := by
  intro i hi
  obtain ⟨items, hitems⟩ := Option.isSome_iff_exists.mp (AList.lookup_isSome.mpr hi)
  rw [← h.pages]
  exact (h.chunks i items hitems).1

/-- An assembly with all its pages has every digest. -/
theorem Shows.complete {a : Assembly} (h : Shows account a.stateSequence a.cycle a.count a.heldCount
    (fun i items => a.chunks.lookup i = some items) held)
    (hall : ∀ i < pageCount reportBatchSize held.card, i ∈ a.chunks) : a.reconstructed.card = a.heldCount := by
  rw [h.total]
  congr 1
  ext d
  simp only [Assembly.reconstructed, List.mem_toFinset, List.mem_flatMap, List.mem_range]
  constructor
  · intro hd
    obtain ⟨i, -, hmem⟩ := hd
    cases hlookup : a.chunks.lookup i with
    | none => simp [hlookup] at hmem
    | some items =>
        rw [hlookup, Option.getD_some, (h.chunks i items hlookup).2] at hmem
        exact (Finset.mem_sort _).mp ((page_sublist _ _ _).subset hmem)
  · intro hd
    obtain ⟨i, hi, hpage⟩ := exists_page (show 0 < reportBatchSize by decide) ((Finset.mem_sort (· ≤ ·)).mpr hd)
    rw [Finset.length_sort] at hi
    obtain ⟨items, hitems⟩ := Option.isSome_iff_exists.mp (AList.lookup_isSome.mpr (hall i hi))
    refine ⟨i, by rw [h.pages]; exact hi, ?_⟩
    rw [hitems, Option.getD_some, (h.chunks i items hitems).2]
    exact hpage

/-- The next page of a cycle is collected, or it is the last one and brings the mirror up to date. -/
theorem addPage_progress {p : Page} {active : Assembly} (hlast : account.Last sequence held)
    (hfollows : (s.mirrors rank).Follows account) (hactive : active.Tells account) (hpage : p.Tells account)
    (hkey : active.stateSequence = sequence ∧ active.cycle = cycle) (hsequence : p.stateSequence = sequence)
    (hcollected : ∀ i < p.index, i ∈ active.chunks) :
    ((s.addPage rank p active).mirrors rank).Current sequence ∨
      ((s.addPage rank p active).mirrors rank).Collected sequence cycle (p.index + 1) ∧
        p.index + 1 < pageCount reportBatchSize held.card := by
  obtain ⟨hactiveHeld, hactive⟩ := hactive
  obtain ⟨hpageHeld, hpage⟩ := hpage
  have hsame : hactiveHeld = held := by
    have hinventory := hactive.inventory
    rw [hkey.1, hlast.1] at hinventory
    exact (Option.some.inj hinventory).symm
  have hsame' : hpageHeld = held := by
    have hinventory := hpage.inventory
    rw [hsequence, hlast.1] at hinventory
    exact (Option.some.inj hinventory).symm
  subst hsame hsame'
  have hcounts : ¬(active.count ≠ p.count ∨ active.heldCount ≠ p.heldCount) := by
    simp [hactive.pages, hpage.pages, hactive.total, hpage.total]
  have hprior : ¬(active.chunks.lookup p.index).any (· ≠ p.held) = true := by
    cases hlookup : active.chunks.lookup p.index with
    | none => simp
    | some items =>
        have hitems := (hactive.chunks p.index items hlookup).2
        have hheld := (hpage.chunks p.index p.held ⟨rfl, rfl⟩).2
        simp [hitems, ← hheld]
  have hextended : Shows account active.stateSequence active.cycle active.count active.heldCount
      (fun i items => (active.chunks.insert p.index p.held).lookup i = some items) hpageHeld := by
    refine ⟨hactive.inventory, hactive.recent, hactive.pages, hactive.total, fun i items hlookup => ?_⟩
    rcases AList.lookup_insert_some hlookup with ⟨rfl, rfl⟩ | ⟨-, hbefore⟩
    · rw [hactive.pages, ← hpage.pages]
      exact hpage.chunks p.index p.held ⟨rfl, rfl⟩
    · exact hactive.chunks i items hbefore
  have hkeys := Shows.mem_lt (a := { active with chunks := active.chunks.insert p.index p.held }) hextended
  unfold addPage
  dsimp only
  rw [if_neg hcounts, if_neg hprior]
  by_cases hsize : (active.chunks.insert p.index p.held).size = p.count
  · have hall := (size_eq_iff hkeys).mp (by rw [hsize, hpage.pages])
    have hcard := Shows.complete (a := { active with chunks := active.chunks.insert p.index p.held }) hextended hall
    rw [if_neg (not_not.mpr hsize), if_neg (by rw [hcard, hactive.total, hpage.total, not_not])]
    left
    rw [hsequence]
    apply restoreWorker_current hlast
    rw [modify_self]
    refine ⟨hfollows.held, hfollows.pending, fun a ha => ?_, hfollows.requires⟩
    cases ha
    exact ⟨_, hextended⟩
  · rw [if_pos hsize, modify_self]
    right
    have hcollects : ∀ i < p.index + 1, i ∈ active.chunks.insert p.index p.held := by
      intro i hi
      rw [AList.mem_insert]
      by_cases heq : i = p.index
      · exact Or.inl heq
      · exact Or.inr (hcollected i (by omega))
    refine ⟨Or.inr ⟨_, rfl, hkey.1, hkey.2, hcollects⟩, ?_⟩
    by_contra hfull
    apply hsize
    rw [hpage.pages]
    apply (size_eq_iff hkeys).mpr
    intro i hi
    exact hcollects i (by omega)

/-- One page, in its turn, of the newest cycle of the last sequence number. -/
theorem absorbWorkerCheckpoint_progress {message : CheckpointMessage} {p : Page} (hlast : account.Last sequence held)
    (hcycle : account.cycle = cycle) (hfollows : (s.mirrors rank).Follows account)
    (hread : readCheckpoint message = some p) (hpage : p.Tells account)
    (hkey : p.stateSequence = sequence ∧ p.cycle = cycle)
    (hprogress : (s.mirrors rank).Current sequence ∨ (s.mirrors rank).Collected sequence cycle p.index) :
    ((s.absorbWorkerCheckpoint rank message).mirrors rank).Current sequence ∨
      ¬(s.mirrors rank).Current sequence ∧
        ((s.absorbWorkerCheckpoint rank message).mirrors rank).Collected sequence cycle (p.index + 1) ∧
          p.index + 1 < pageCount reportBatchSize held.card := by
  have haccepted := hlast.2 _ _ hfollows.held
  unfold absorbWorkerCheckpoint
  rw [hread]
  dsimp only
  rw [if_neg (by omega)]
  split
  · rename_i hcurrent
    left
    rw [modify_self]
    refine ⟨by dsimp only; omega, by simpa using hcurrent.2.1⟩
  · rename_i hbehind
    have hnot : ¬(s.mirrors rank).Current sequence := by
      intro hcurrent
      apply hbehind
      have hrequires : (s.mirrors rank).requiresCheckpoint ≠ true := by
        intro hrequires
        have hdesync := hfollows.requires hrequires
        rw [hcurrent.synchronized] at hdesync
        cases hdesync
      exact ⟨by rw [hkey.1, hcurrent.sequence], by simp [hcurrent.synchronized], hrequires⟩
    have hcollected := hprogress.resolve_left hnot
    generalize hmarked : (if (s.mirrors rank).reportSequence < p.stateSequence then
      s.markWorkerDesynchronized rank else s) = marked
    have hfollows' : (marked.mirrors rank).Follows account := by
      rw [← hmarked]
      split
      · exact (markWorkerDesynchronized_moves account s).follows hfollows
      · exact hfollows
    have hnewer : ¬((s.mirrors rank).checkpoint.any (·.newer p) = true) := by
      cases hcheckpoint : (s.mirrors rank).checkpoint with
      | none => simp
      | some a =>
          obtain ⟨values, hshows⟩ := hfollows.assembly a hcheckpoint
          have hle := hlast.2 _ _ hshows.inventory
          have hrecent := hshows.recent
          simp only [Option.any_some, Assembly.newer, decide_eq_true_eq]
          omega
    rw [if_neg hnewer]
    obtain ⟨hassembly, hsequence, hcycles⟩ := assembly_tells hpage hfollows.assembly (by simpa using hnewer)
    refine (addPage_progress hlast hfollows' hassembly hpage ⟨hsequence.trans hkey.1, hcycles.trans hkey.2⟩ hkey.1
      fun i hi => ?_).imp_right fun hcollects => ⟨hnot, hcollects⟩
    obtain hzero | ⟨a, ha, hasequence, hacycle, hchunks⟩ := hcollected
    · omega
    · have holder : ¬(a.older p = true) := by
        simp only [Assembly.older, decide_eq_true_eq]
        omega
      rw [ha, Page.assembly, if_neg holder]
      exact hchunks i hi

/-- The delta of a report leaves a synchronized mirror as it is. -/
theorem delta_current {delta : Option DeltaMessage} (hlast : account.Last sequence held)
    (htells : ∀ message, delta = some message → message.Tells account) (h : (s.mirrors rank).Current sequence) :
    delta.elim s (s.absorbWorkerDelta rank) = s := by
  cases delta with
  | none => rfl
  | some message => exact absorbWorkerDelta_of_last (htells message rfl) hlast h.sequence

/-- The delta of a report does not lose what was collected. -/
theorem delta_collected (delta : Option DeltaMessage) {index : ℕ}
    (h : (s.mirrors rank).Collected sequence cycle index) :
    ((delta.elim s (s.absorbWorkerDelta rank)).mirrors rank).Collected sequence cycle index := by
  cases delta with
  | none => exact h
  | some message =>
      unfold Mirror.Collected at h ⊢
      rw [Option.elim_some, absorbWorkerDelta_checkpoint]
      exact h

end Scheduler

theorem readDigests_sublist {digests : List Str} {held : Finset Str} (hsub : digests.Sublist held.sort)
    (hdigests : ∀ d ∈ held, d.isHex 64 = true) : readDigests digests = some digests.toFinset := by
  unfold readDigests
  rw [if_pos]
  refine ⟨hsub.nodup (Finset.sort_nodup _ _), List.all_eq_true.mpr fun d hd => ?_⟩
  exact hdigests d ((Finset.mem_sort _).mp (hsub.subset hd))

namespace StatsReporter
variable {w : StatsReporter} {account : Account}

/-- The page of an observed worker passes the checks. -/
theorem Speaks.readCheckpoint_checkpoint (h : w.Speaks account) (hdigests : ∀ d ∈ w.observedHeld, d.isHex 64 = true) :
    ∃ p, readCheckpoint w.checkpoint = some p ∧ p.stateSequence = w.sequence ∧ p.cycle = w.checkpointCycle ∧
      p.index = w.checkpointIndex := by
  obtain ⟨hsequence, hitems⟩ := h.checkpoint
  have hindex := h.index
  have hcycle := h.started
  rw [h.cycle] at hcycle
  have hread := readDigests_sublist (page_sublist reportBatchSize w.observedHeld.sort w.checkpointIndex) hdigests
  have hlength := page_length reportBatchSize w.observedHeld.sort w.checkpointIndex
  unfold readCheckpoint
  simp only [StatsReporter.checkpoint, checkpointCount, hitems] at hindex ⊢
  rw [if_neg, if_neg]
  · exact ⟨_, rfl, hsequence, rfl, rfl⟩
  · simp [hread, hlength]
  · rw [hlength]
    omega

/-- Another report of an observed inventory has nothing new to observe. -/
theorem Speaks.observe_report (h : w.Speaks account) :
    w.buildQuorumReport.2.observe.sequence = w.observe.sequence ∧
      w.buildQuorumReport.2.observe.checkpointIndex = w.observe.nextPage.checkpointIndex ∧
      w.buildQuorumReport.2.observe.checkpointCycle = w.observe.nextPage.checkpointCycle ∧
      w.buildQuorumReport.2.held = w.held := by
  have hobserves := h.observe_observes
  have hpage : w.observe.nextPage.held = w.observe.held ∧ w.observe.nextPage.observedHeld = w.observe.observedHeld ∧
      w.observe.nextPage.sequence = w.observe.sequence := by
    unfold StatsReporter.nextPage
    split <;> exact ⟨rfl, rfl, rfl⟩
  have hknown : w.buildQuorumReport.2.held.values = w.buildQuorumReport.2.observedHeld := by
    dsimp only [buildQuorumReport]
    rw [nextDelta_eq]
    dsimp only
    rw [hpage.1, hpage.2.1, hobserves.held, hobserves.observedHeld]
  rw [observe_known hknown]
  dsimp only [buildQuorumReport]
  rw [nextDelta_eq]
  exact ⟨hpage.2.2, rfl, rfl, hpage.1.trans hobserves.held⟩

end StatsReporter

namespace System
variable {epoch : ℕ → Str → ℕ} {withdrawn : Set Str} {s : System} {r : ℕ}

/-! ## Reports that are delivered at once -/

/-- A report that the scheduler absorbs at once. -/
def exchange (s : System) (rank : ℕ) : System := (s.report rank).deliver [s.sent.length]

/-- The steps of a row of exchanges, after a number of reports. -/
def exchanges : ℕ → List ℕ → List Action
  | _, [] => []
  | sent, rank :: rest => .report rank :: .deliver [sent] :: exchanges (sent + 1) rest

theorem exec_exchanges (epoch : ℕ → Str → ℕ) (s : System) (ranks : List ℕ) :
    Run.exec (step epoch) s (exchanges s.sent.length ranks) = ranks.foldl exchange s := by
  induction ranks generalizing s with
  | nil => rfl
  | cons rank rest ih =>
      have hlength : (s.exchange rank).sent.length = s.sent.length + 1 := by
        simp [exchange, report, deliver, send, setWorker, setAccount]
      simp only [exchanges, Run.exec_cons, List.foldl_cons, ← ih (s.exchange rank), hlength]
      rfl

/-- The pages of a checkpoint of the inventory of a rank. -/
def pages (s : System) (rank : ℕ) : ℕ := pageCount reportBatchSize (s.workers rank).held.values.card

/-- The mirror of a rank is up to date, or will be after some more exchanges: the rest of a cycle, of
which it has collected the first pages, or this rest and a whole cycle. -/
def Near (s : System) (rank remaining : ℕ) : Prop :=
  let w := (s.workers rank).observe
  let m := s.scheduler.mirrors rank
  (m.generation = some (s.workers rank).generation ∧ (m.Current w.sequence ∨
    m.Collected w.sequence w.checkpointCycle w.checkpointIndex ∧ s.pages rank ≤ w.checkpointIndex + remaining)) ∨
  2 * s.pages rank ≤ w.checkpointIndex + remaining

/-- A rank whose reports can bring its mirror up to date. -/
structure Reports (s : System) (rank : ℕ) : Prop where
  digests : ∀ d ∈ (s.workers rank).held.values, d.isHex 64 = true
  /-- What a handshake has announced is what is reported. -/
  announced : ∀ sequence held, (s.account rank).inventory sequence = some held →
    sequence ≤ (s.workers rank).observe.sequence ∧
      (sequence = (s.workers rank).observe.sequence → held = (s.workers rank).held.values)
  /-- The generation was not replaced by another one. -/
  accepts : (s.scheduler.mirrors rank).generation = some (s.workers rank).generation ∨
    (s.workers rank).generation ∉ (s.scheduler.mirrors rank).retiredGenerations

/-- A generation that was not replaced is accepted. -/
theorem Agrees.accepts (h : s.Agrees epoch withdrawn) (hreports : s.Reports r) :
    ∃ accepted, s.scheduler.acceptWorkerGeneration r (s.workers r).generation
      (some (epoch r (s.workers r).generation : ℤ)) = some accepted := by
  unfold Scheduler.acceptWorkerGeneration
  dsimp only
  by_cases hsame : (s.scheduler.mirrors r).generation = some (s.workers r).generation
  · rw [if_pos hsame, if_pos (Or.inr ((h.tracks r).epoch _ hsame).symm)]
    exact ⟨_, rfl⟩
  · rw [if_neg hsame, if_neg (hreports.accepts.resolve_left hsame), if_neg fun hmissing => (h.workers r).2.1 hmissing.1]
    exact ⟨_, rfl⟩

/-- What the scheduler does with a report that arrives at once. -/
theorem Agrees.exchange_scheduler (h : s.Agrees epoch withdrawn) (hrank : r < s.scheduler.tpDegree) {accepted : Scheduler}
    (haccept : s.scheduler.acceptWorkerGeneration r (s.workers r).generation
      (some (epoch r (s.workers r).generation : ℤ)) = some accepted) :
    (s.exchange r).scheduler =
      ((s.workers r).observe.currentDelta.elim accepted (accepted.absorbWorkerDelta r)).absorbWorkerCheckpoint r
        (s.workers r).observe.checkpoint := by
  have hsame := (h.speaks r).observe_observes.toSame
  obtain ⟨hworker, hgeneration, hepoch⟩ := h.workers r
  have hbuilt : (s.workers r).buildQuorumReport.1 = ⟨r, some (s.workers r).generation,
      some (epoch r (s.workers r).generation : ℤ),
      .delta (s.workers r).observe.currentDelta (some (s.workers r).observe.checkpoint)⟩ := by
    simp only [StatsReporter.buildQuorumReport, StatsReporter.report, hsame.rank, hsame.generation,
      hsame.generationEpoch, hworker, hepoch]
  have harrives : [s.sent.length].filterMap ((s.report r).sent[·]?) = [(s.workers r).buildQuorumReport.1] := by
    simp [System.report, send, setWorker, setAccount]
  have hdelivered : (s.exchange r).scheduler = s.scheduler.absorbReport (s.workers r).buildQuorumReport.1 := by
    unfold exchange System.deliver
    rw [harrives]
    rfl
  rw [hdelivered, hbuilt, absorbReport_delta s.scheduler hgeneration, if_neg (Nat.not_le.mpr hrank), haccept]
  rfl

/-- The account of a worker that has observed its inventory. -/
def observedAccount (s : System) (rank : ℕ) : Account :=
  (s.account rank).record (s.workers rank).observe.sequence (s.workers rank).held.values
    (s.workers rank).observe.checkpointCycle

theorem Reports.admits (h : s.Reports r) :
    (s.account r).Admits (s.workers r).observe.sequence (s.workers r).held.values :=
  fun _ hother => (h.announced _ _ hother).2 rfl

theorem Reports.last (h : s.Reports r) :
    (s.observedAccount r).Last (s.workers r).observe.sequence (s.workers r).held.values := by
  refine ⟨Account.record_self, fun later other hother => ?_⟩
  by_cases hlater : later = (s.workers r).observe.sequence
  · exact hlater.le
  · rw [observedAccount, Account.record_of_ne hlater] at hother
    exact (h.announced _ _ hother).1

/-- The next page, or the first page of the next cycle. -/
theorem Agrees.pages_cases (h : s.Agrees epoch withdrawn) (hreports : s.Reports r) :
    (s.workers r).observe.checkpointIndex < s.pages r ∧
      ((s.workers r).observe.checkpointIndex + 1 < s.pages r ∧
          (s.workers r).observe.nextPage.checkpointIndex = (s.workers r).observe.checkpointIndex + 1 ∧
          (s.workers r).observe.nextPage.checkpointCycle = (s.workers r).observe.checkpointCycle ∨
        (s.workers r).observe.checkpointIndex + 1 = s.pages r ∧
          (s.workers r).observe.nextPage.checkpointIndex = 0) := by
  have hobserved := (h.speaks r).observe hreports.admits
  have hcount : (s.workers r).observe.checkpointCount = s.pages r := by
    rw [StatsReporter.checkpointCount, hobserved.checkpoint.2, Finset.length_sort,
      (h.speaks r).observe_observes.observedHeld]
    rfl
  have hindex := hobserved.index
  rw [hcount] at hindex
  refine ⟨hindex, ?_⟩
  unfold StatsReporter.nextPage
  rw [hcount]
  split_ifs with hlast
  · exact Or.inr ⟨by omega, rfl⟩
  · exact Or.inl ⟨by omega, rfl, rfl⟩

/-- One exchange brings a mirror nearer to the inventory of its rank. -/
theorem Agrees.exchange_near (h : s.Agrees epoch withdrawn) (hreports : s.Reports r)
    (hrank : r < s.scheduler.tpDegree) {remaining : ℕ} (hnear : s.Near r (remaining + 1)) :
    (s.exchange r).Near r remaining ∧
      ((s.exchange r).scheduler.mirrors r).generation = some (s.workers r).generation := by
  have hspeaks := h.speaks r
  have hobserves := hspeaks.observe_observes
  have hobserved : (s.workers r).observe.Speaks (s.observedAccount r) := hspeaks.observe hreports.admits
  have hextends : (s.account r).Extends (s.observedAccount r) :=
    Account.record_extends hreports.admits hspeaks.observe_cycle
  obtain ⟨hdelta, hcheckpoint⟩ := hobserved.report_tells
  obtain ⟨p, hread, hsequence, hcycle, hindex⟩ := hobserved.readCheckpoint_checkpoint
    (by rw [hobserves.observedHeld]; exact hreports.digests)
  obtain ⟨accepted, haccept⟩ := h.accepts hreports
  have hstart : (s.observedAccount r).inventory 0 = some ∅ := hextends.inventory _ _ hspeaks.start
  have htracks : (s.scheduler.mirrors r).Tracks (epoch r)
      ((s.setAccount r (s.workers r).generation (s.observedAccount r)).accounts r) :=
    (h.tracks r).mono fun g => setAccount_extends _ _ hextends r g
  obtain ⟨haccepted, hgeneration⟩ := acceptWorkerGeneration_tracks htracks
    (by rw [setAccount_self]; exact hstart) haccept
  have hfollows := haccepted.follows _ hgeneration
  rw [setAccount_self] at hfollows
  have hmoves : Mirror.Moves (s.observedAccount r) (accepted.mirrors r)
      (((s.workers r).observe.currentDelta.elim accepted (accepted.absorbWorkerDelta r)).mirrors r) := by
    cases hcurrent : (s.workers r).observe.currentDelta with
    | none => exact Mirror.Moves.refl _ _
    | some message => exact Scheduler.absorbWorkerDelta_moves (hdelta message hcurrent)
  have happlied := hmoves.follows hfollows
  have hmoved := Scheduler.absorbWorkerCheckpoint_moves hcheckpoint happlied
  rw [h.exchange_scheduler hrank haccept]
  have hkept := hmoved.generation.trans (hmoves.generation.trans hgeneration)
  refine ⟨?_, hkept⟩
  have hworker : (s.exchange r).workers r = (s.workers r).buildQuorumReport.2 := by
    simp [exchange, System.deliver, System.report, send, setWorker, setAccount]
  obtain ⟨hsequence', hindex', hcycle', hheld'⟩ := hspeaks.observe_report
  have hpages : (s.exchange r).pages r = s.pages r := by
    rw [pages, hworker, hheld']
    rfl
  have hgeneration' : (s.workers r).buildQuorumReport.2.generation = (s.workers r).generation :=
    ((hobserves.toSame.trans (StatsReporter.nextPage_same _)).trans (StatsReporter.nextDelta_same _)).generation
  obtain ⟨hlt, hpage⟩ := h.pages_cases hreports
  unfold Near at hnear ⊢
  dsimp only at hnear ⊢
  rw [h.exchange_scheduler hrank haccept, hpages, hworker, hsequence', hindex', hcycle', hgeneration']
  rcases hnear with ⟨hsame, hprogress⟩ | hfar
  · -- The accepted generation goes on with its cycle.
    left
    refine ⟨hkept, ?_⟩
    have hunchanged : accepted = s.scheduler := by
      unfold Scheduler.acceptWorkerGeneration at haccept
      dsimp only at haccept
      rw [if_pos hsame, if_pos (Or.inr ((h.tracks r).epoch _ hsame).symm)] at haccept
      exact (Option.some.inj haccept).symm
    subst hunchanged
    have hafter := Scheduler.absorbWorkerCheckpoint_progress hreports.last rfl happlied hread (hcheckpoint p hread)
      ⟨hsequence, hcycle⟩ (by
        rw [hindex]
        rcases hprogress with hcurrent | hcollected
        · rw [Scheduler.delta_current hreports.last hdelta hcurrent]
          exact Or.inl hcurrent
        · exact Or.inr (Scheduler.delta_collected _ hcollected.1))
    rw [hindex] at hafter
    rcases hafter with hcurrent | ⟨hnot, hcollected, hmore⟩
    · exact Or.inl hcurrent
    · rcases hprogress with hcurrent | ⟨-, hrest⟩
      · rw [Scheduler.delta_current hreports.last hdelta hcurrent] at hnot
        exact absurd hcurrent hnot
      · obtain ⟨-, hnext, hsameCycle⟩ | ⟨hfull, -⟩ := hpage
        · rw [hnext, hsameCycle]
          exact Or.inr ⟨hcollected, by omega⟩
        · unfold pages at hfull
          omega
  · -- The rest of a cycle that began before is not needed.
    obtain ⟨hmore, hnext, -⟩ | ⟨hfull, hnext⟩ := hpage
    · rw [hnext]
      exact Or.inr (by omega)
    · rw [hnext]
      exact Or.inl ⟨hkept, Or.inr ⟨Or.inl rfl, by omega⟩⟩

theorem Near.mono {remaining more : ℕ} (h : s.Near r remaining) (hle : remaining ≤ more) : s.Near r more := by
  unfold Near at h ⊢
  dsimp only at h ⊢
  rcases h with ⟨hgeneration, hcurrent | ⟨hcollected, hrest⟩⟩ | hfar
  · exact Or.inl ⟨hgeneration, Or.inl hcurrent⟩
  · exact Or.inl ⟨hgeneration, Or.inr ⟨hcollected, by omega⟩⟩
  · exact Or.inr (by omega)

/-- Nothing remains to be exchanged. -/
theorem Near.current (h : s.Near r 0) (hindex : (s.workers r).observe.checkpointIndex < s.pages r) :
    (s.scheduler.mirrors r).generation = some (s.workers r).generation ∧
      (s.scheduler.mirrors r).Current (s.workers r).observe.sequence := by
  unfold Near at h
  dsimp only at h
  rcases h with ⟨hgeneration, hcurrent | ⟨-, hrest⟩⟩ | hfar
  · exact ⟨hgeneration, hcurrent⟩
  · omega
  · omega

/-- An exchange has no part in another rank. -/
theorem Agrees.exchange_other (h : s.Agrees epoch withdrawn) {rank : ℕ} (hr : r ≠ rank) :
    (s.exchange rank).workers r = s.workers r ∧ (s.exchange rank).account r = s.account r ∧
      (s.exchange rank).scheduler.mirrors r = s.scheduler.mirrors r := by
  have hworkers : (s.exchange rank).workers r = s.workers r := by
    simp [exchange, System.deliver, System.report, send, setWorker, setAccount, hr]
  have harrives : [s.sent.length].filterMap ((s.report rank).sent[·]?) = [(s.workers rank).buildQuorumReport.1] := by
    simp [System.report, send, setWorker, setAccount]
  refine ⟨hworkers, ?_, ?_⟩
  · rw [account, account, hworkers]
    simp [exchange, System.deliver, System.report, send, setWorker, setAccount, hr]
  · have hsteps := Scheduler.absorbReport_steps s.scheduler (s.workers rank).buildQuorumReport.1
    have hrank : (s.workers rank).buildQuorumReport.1.rank.toNat = rank := by
      simp only [StatsReporter.buildQuorumReport, StatsReporter.report, ((h.speaks rank).observe_observes).rank,
        (h.workers rank).1, Int.toNat_natCast]
    unfold exchange System.deliver
    rw [harrives]
    exact hsteps.mirrors r (by rwa [hrank])

theorem exchange_tpDegree (s : System) (rank : ℕ) : (s.exchange rank).scheduler.tpDegree = s.scheduler.tpDegree := by
  have harrives : [s.sent.length].filterMap ((s.report rank).sent[·]?) = [(s.workers rank).buildQuorumReport.1] := by
    simp [System.report, send, setWorker, setAccount]
  unfold exchange System.deliver
  rw [harrives]
  exact (Scheduler.absorbReport_steps s.scheduler _).tpDegree

/-- The inventories stay, and after so many more exchanges of each rank its mirror is up to date. -/
structure Converges (epoch : ℕ → Str → ℕ) (withdrawn : Set Str) (values : ℕ → Finset Str) (remaining : ℕ → ℕ)
    (s : System) : Prop where
  agrees : s.Agrees epoch withdrawn
  values : ∀ r < s.scheduler.tpDegree, (s.workers r).held.values = values r
  reports : ∀ r < s.scheduler.tpDegree, s.Reports r
  near : ∀ r < s.scheduler.tpDegree, s.Near r (remaining r)

variable {values : ℕ → Finset Str} {remaining : ℕ → ℕ}

theorem Converges.exchange (h : s.Converges epoch withdrawn values remaining) (hr : r < s.scheduler.tpDegree) :
    (s.exchange r).Converges epoch withdrawn values (Function.update remaining r (remaining r - 1)) := by
  have hreports := h.reports r hr
  have hspeaks := h.agrees.speaks r
  obtain ⟨hnear, hgeneration⟩ := h.agrees.exchange_near hreports hr ((h.near r hr).mono (by omega : _ ≤ remaining r - 1 + 1))
  have hworker : (s.exchange r).workers r = (s.workers r).buildQuorumReport.2 := by
    simp [System.exchange, System.deliver, System.report, send, setWorker, setAccount]
  obtain ⟨hsequence, -, -, hheld⟩ := hspeaks.observe_report
  have hgeneration' : (s.workers r).buildQuorumReport.2.generation = (s.workers r).generation :=
    ((hspeaks.observe_observes.toSame.trans (StatsReporter.nextPage_same _)).trans
      (StatsReporter.nextDelta_same _)).generation
  constructor
  · exact (h.agrees.report hreports.admits).deliver _
  · intro r' hr'
    rw [exchange_tpDegree] at hr'
    by_cases hsame : r' = r
    · subst hsame
      rw [hworker, hheld]
      exact h.values r' hr'
    · rw [(h.agrees.exchange_other hsame).1]
      exact h.values r' hr'
  · intro r' hr'
    rw [exchange_tpDegree] at hr'
    by_cases hsame : r' = r
    · subst hsame
      refine ⟨?_, fun number held hinventory => ?_, Or.inl ?_⟩
      · rw [hworker, hheld]
        exact hreports.digests
      · rw [hworker, hsequence, hheld]
        have haccount : (s.exchange r').account r' = (s.account r').record (s.workers r').observe.sequence
            (s.workers r').held.values (s.workers r').buildQuorumReport.2.checkpointCycle := by
          rw [account, hworker, hgeneration']
          simp [System.exchange, System.deliver, System.report, send, setWorker, setAccount]
        rw [haccount] at hinventory
        by_cases hnumber : number = (s.workers r').observe.sequence
        · subst hnumber
          rw [Account.record_self] at hinventory
          exact ⟨le_rfl, fun _ => (Option.some.inj hinventory).symm⟩
        · rw [Account.record_of_ne hnumber] at hinventory
          exact hreports.announced number held hinventory
      · rw [hgeneration, hworker, hgeneration']
    · obtain ⟨hworkers, haccount, hmirror⟩ := h.agrees.exchange_other hsame
      have hother := h.reports r' hr'
      refine ⟨?_, ?_, ?_⟩
      · rw [hworkers]
        exact hother.digests
      · rw [hworkers, haccount]
        exact hother.announced
      · rw [hworkers, hmirror]
        exact hother.accepts
  · intro r' hr'
    rw [exchange_tpDegree] at hr'
    by_cases hsame : r' = r
    · subst hsame
      rw [Function.update_self]
      exact hnear
    · obtain ⟨hworkers, -, hmirror⟩ := h.agrees.exchange_other hsame
      have hother := h.near r' hr'
      rw [Function.update_of_ne hsame]
      unfold Near pages at hother ⊢
      rw [hworkers, hmirror]
      exact hother

theorem Converges.exchanges {ranks : List ℕ} (h : s.Converges epoch withdrawn values remaining)
    (hranks : ∀ r ∈ ranks, r < s.scheduler.tpDegree) :
    (ranks.foldl System.exchange s).Converges epoch withdrawn values (fun r => remaining r - ranks.count r) ∧
      (ranks.foldl System.exchange s).scheduler.tpDegree = s.scheduler.tpDegree := by
  induction ranks generalizing s remaining with
  | nil =>
      simpa using h
  | cons rank rest ih =>
      rw [List.forall_mem_cons] at hranks
      obtain ⟨hconverges, hdegree⟩ := ih (h.exchange hranks.1) (by rw [exchange_tpDegree]; exact hranks.2)
      rw [List.foldl_cons]
      refine ⟨?_, hdegree.trans (exchange_tpDegree s rank)⟩
      convert hconverges using 2 with r
      by_cases hr : r = rank
      · subst hr
        rw [Function.update_self, List.count_cons_self]
        omega
      · rw [Function.update_of_ne hr, List.count_cons_of_ne (Ne.symm hr)]

/-- When nothing remains, a digest that was not withdrawn has a full quorum if every rank holds it. -/
theorem Converges.hasFullQuorum (h : s.Converges epoch withdrawn values remaining)
    (hdone : ∀ r < s.scheduler.tpDegree, remaining r = 0) {d : Str} (hd : d ∉ withdrawn) :
    s.scheduler.hasFullQuorum d = true ↔ ∀ r < s.scheduler.tpDegree, d ∈ values r := by
  simp only [Scheduler.hasFullQuorum, List.all_eq_true, List.mem_range, decide_eq_true_eq]
  refine forall_congr' fun r => forall_congr' fun hr => ?_
  have hreports := h.reports r hr
  obtain ⟨hgeneration, hcurrent⟩ := Near.current (hdone r hr ▸ h.near r hr) (h.agrees.pages_cases hreports).1
  have hfollows := (h.agrees.tracks r).follows _ hgeneration
  have hheld : (s.scheduler.mirrors r).held = values r := by
    have hinventory := (hreports.announced _ _ hfollows.held).2 hcurrent.sequence
    rw [hinventory, h.values r hr]
  have hpublished := h.agrees.published r
  constructor
  · intro hmem
    rw [← hheld]
    exact hpublished.held d hmem
  · intro hmem
    rw [← hheld] at hmem
    exact hpublished.complete hcurrent.synchronized d hmem hd

section Runs
variable {tpDegree : ℕ} {generation : ℕ → Str} {held : ℕ → Finset Str} {past : List Action}

theorem exec_tpDegree (epoch : ℕ → Str → ℕ) (s : System) (actions : List Action) :
    (Run.exec (step epoch) s actions).scheduler.tpDegree = s.scheduler.tpDegree := by
  have hquorum : ∀ (reports : List QuorumReport) (t : Scheduler), (t.absorbQuorum reports).tpDegree = t.tpDegree := by
    intro reports
    induction reports with
    | nil => exact fun t => rfl
    | cons report rest ih => exact fun t => (ih _).trans (Scheduler.absorbReport_steps t report).tpDegree
  induction actions generalizing s with
  | nil => rfl
  | cons a rest ih =>
      rw [Run.exec_cons, ih]
      cases a with
      | deliver indices => exact hquorum _ _
      | mutate | replace | report | handshake | restart | withdraw => rfl

/-- After any honest past in which a digest was not withdrawn and no late report of an earlier generation
has retired the present one, and two cycles of reports of each rank that arrive at once while the
inventories stay, the digest has a full quorum exactly when every rank holds it. -/
theorem quorum_converges {d : Str} {ranks : List ℕ} (hgeneration : ∀ r, generation r ≠ missingGeneration)
    (hpast : Run.Throughout (step epoch) (Honest {d}ᶜ) (initial epoch tpDegree generation held) past)
    (hreports : ∀ r < tpDegree, (Run.exec (step epoch) (initial epoch tpDegree generation held) past).Reports r)
    (hranks : ∀ r ∈ ranks, r < tpDegree)
    (hcycles : ∀ r < tpDegree,
      2 * (Run.exec (step epoch) (initial epoch tpDegree generation held) past).pages r ≤ ranks.count r) :
    let s := Run.exec (step epoch) (initial epoch tpDegree generation held) past
    (Run.exec (step epoch) s (exchanges s.sent.length ranks)).scheduler.hasFullQuorum d = true ↔
      ∀ r < tpDegree, d ∈ (s.workers r).held.values := by
  intro s
  have hdegree : s.scheduler.tpDegree = tpDegree := exec_tpDegree epoch _ past
  have hagrees : s.Agrees epoch {d}ᶜ := hpast.preserves (fun s a hs ha => Agrees.step hs a ha)
    (initial_agrees epoch _ tpDegree hgeneration held)
  have hconverges : s.Converges epoch {d}ᶜ (fun r => (s.workers r).held.values) (fun r => 2 * s.pages r) :=
    ⟨hagrees, fun _ _ => rfl, fun r hr => hreports r (hdegree ▸ hr), fun r _ => Or.inr (Nat.le_add_left _ _)⟩
  obtain ⟨hfinal, hsame⟩ := hconverges.exchanges (fun r hr => (hranks r hr).trans_eq hdegree.symm)
  rw [exec_exchanges, hfinal.hasFullQuorum ?_ (by simp), hsame, hdegree]
  intro r hr
  rw [hsame, hdegree] at hr
  exact Nat.sub_eq_zero_of_le (hcycles r hr)

/-- A lone worker drops its digest and takes it up again before it reports. -/
theorem quorum_converges_alone : let x : Str := (Hex.replicate 64 48 isHexCode_zero).text
    let s := Run.exec (step fun _ _ => 7) (initial (fun _ _ => 7) 1 (fun _ => "9f") fun _ => {x})
      [.mutate 0 .clear, .mutate 0 (.add x)]
    (Run.exec (step fun _ _ => 7) s (exchanges s.sent.length [0, 0])).scheduler.hasFullQuorum x = true ↔
      ∀ r < 1, x ∈ (s.workers r).held.values := by
  refine quorum_converges (fun _ => by decide) ⟨trivial, trivial, trivial⟩ (fun r hr => ?_) (by decide) (by decide)
  obtain rfl : r = 0 := by omega
  refine ⟨by decide, fun sequence held hinventory => ?_, Or.inr nofun⟩
  have hzero : sequence = 0 := by
    by_contra hne
    have hstart : Account.start.inventory sequence = some held := hinventory
    simp [Account.start, hne] at hstart
  subst hzero
  exact ⟨Nat.zero_le _, fun hsequence => absurd hsequence (by decide)⟩

end Runs

end System

end SparkCache.Quorum
