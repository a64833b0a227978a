import SparkCache.Lib.Run
import SparkCache.Quorum.Truth

/-!
# Agreement

Workers that report, and one scheduler. A report that was sent may be absorbed
at any time, in any order, more than once or never; inventories change and
workers restart meanwhile. What the scheduler believes of a rank is an inventory
that the rank had.
-/
namespace SparkCache.Quorum
open Paging

structure System where
  workers : ℕ → StatsReporter
  /-- Every report that was sent. -/
  sent : List QuorumReport
  scheduler : Scheduler
  /-- What each rank has said under each generation. -/
  accounts : ℕ → Str → Account

inductive Action where
  | mutate (rank : ℕ) (mutation : Mutation)
  | replace (rank : ℕ) (values : Finset Str)
  /-- Worker statistics are built. -/
  | report (rank : ℕ)
  | handshake (rank : ℕ)
  | restart (rank : ℕ) (generation : Str) (held : Finset Str)
  /-- One output of the workers, with some of the reports that were sent. -/
  | deliver (indices : List ℕ)
  /-- A failed load of an entry. -/
  | withdraw (digest : Str)

namespace System

/-- Workers that have just started, each in its first generation. -/
def initial (epoch : ℕ → Str → ℕ) (tpDegree : ℕ) (generation : ℕ → Str) (held : ℕ → Finset Str) : System where
  workers rank := .new rank (generation rank) (epoch rank (generation rank)) (held rank)
  sent := []
  scheduler := .new tpDegree
  accounts rank := Function.update (fun _ => .unused) (generation rank) .start

/-- The account of the worker of a rank. -/
def account (s : System) (rank : ℕ) : Account := s.accounts rank (s.workers rank).generation

def setWorker (s : System) (rank : ℕ) (w : StatsReporter) : System :=
  { s with workers := Function.update s.workers rank w }

def setAccount (s : System) (rank : ℕ) (generation : Str) (account : Account) : System :=
  { s with accounts := Function.update s.accounts rank (Function.update (s.accounts rank) generation account) }

def send (s : System) (reports : List QuorumReport) : System := { s with sent := s.sent ++ reports }

def report (s : System) (rank : ℕ) : System :=
  let w := s.workers rank
  let built := w.buildQuorumReport
  ((s.setAccount rank w.generation
    ((s.account rank).record w.observe.sequence w.held.values built.2.checkpointCycle)).setWorker rank built.2).send
    [built.1]

/-- The sequence number that a handshake announces. -/
def announced (w : StatsReporter) : ℕ := w.sequence + if w.stale then 1 else 0

def handshake (s : System) (rank : ℕ) : System :=
  let w := s.workers rank
  (s.setAccount rank w.generation
    ((s.account rank).record (announced w) w.held.values w.checkpointCycle)).send w.handshake

def restart (epoch : ℕ → Str → ℕ) (s : System) (rank : ℕ) (generation : Str) (held : Finset Str) : System :=
  (s.setAccount rank generation .start).setWorker rank (.new rank generation (epoch rank generation) held)

def deliver (s : System) (indices : List ℕ) : System :=
  { s with scheduler := s.scheduler.absorbQuorum (indices.filterMap (s.sent[·]?)) }

/-- The start time of each generation is given. -/
def step (epoch : ℕ → Str → ℕ) (s : System) : Action → System
  | .mutate rank mutation => s.setWorker rank ((s.workers rank).mutate mutation)
  | .replace rank values => s.setWorker rank ((s.workers rank).replace values)
  | .report rank => s.report rank
  | .handshake rank => s.handshake rank
  | .restart rank generation held => s.restart epoch rank generation held
  | .deliver indices => s.deliver indices
  | .withdraw digest => { s with scheduler := s.scheduler.withdraw digest }

/-- A handshake covers the inventory, and the inventory that it announces is the one that the next
report observes. A restarted worker has a generation of its own. -/
def Honest (withdrawn : Set Str) (s : System) : Action → Prop
  | .report rank => (s.account rank).Admits (s.workers rank).observe.sequence (s.workers rank).held.values
  | .handshake rank =>
      (s.workers rank).held.values.card ≤ startupHandshakeMaxDigests ∧
        (s.account rank).Admits (announced (s.workers rank)) (s.workers rank).held.values
  | .restart rank generation _ => s.accounts rank generation = .unused ∧ generation ≠ missingGeneration
  | .withdraw digest => digest ∈ withdrawn
  | _ => True

end System

/-! ## Reports are true of their generation -/

/-- A report of the delta protocol that is true of what its rank said. -/
def QuorumReport.Tells (epoch : ℕ → Str → ℕ) (accounts : ℕ → Str → Account) (report : QuorumReport) : Prop :=
  ∃ (rank : ℕ) (generation : Str) (delta : Option DeltaMessage) (checkpoint : Option CheckpointMessage),
    report = ⟨rank, some generation, some (epoch rank generation), .delta delta checkpoint⟩ ∧
      generation ≠ missingGeneration ∧ (accounts rank generation).inventory 0 = some ∅ ∧
      (∀ message, delta = some message → message.Tells (accounts rank generation)) ∧
      ∀ message, checkpoint = some message → message.Tells (accounts rank generation)

/-- The mirror of a rank follows what the rank said under the generation that was accepted. -/
structure Mirror.Tracks (epoch : Str → ℕ) (accounts : Str → Account) (m : Mirror) : Prop where
  unknown : m.generation = none → m.held = ∅
  follows : ∀ generation, m.generation = some generation → m.Follows (accounts generation)
  epoch : ∀ generation, m.generation = some generation → m.generationEpoch = some (epoch generation : ℤ)

section Absorb
variable {epoch : ℕ → Str → ℕ} {accounts later : ℕ → Str → Account} {s s' : Scheduler} {rank : ℕ}

theorem QuorumReport.Tells.mono {report : QuorumReport} (h : report.Tells epoch accounts)
    (hext : ∀ rank generation, (accounts rank generation).Extends (later rank generation)) :
    report.Tells epoch later := by
  obtain ⟨rank, generation, delta, checkpoint, hreport, hgeneration, hstart, hdelta, hcheckpoint⟩ := h
  have hmono := hext rank generation
  exact ⟨rank, generation, delta, checkpoint, hreport, hgeneration, hmono.inventory _ _ hstart,
    fun message hmessage => (hdelta message hmessage).mono hmono,
    fun message hmessage => (hcheckpoint message hmessage).mono hmono⟩

theorem Mirror.Tracks.mono {m : Mirror} (h : m.Tracks (epoch rank) (accounts rank))
    (hext : ∀ generation, (accounts rank generation).Extends (later rank generation)) :
    m.Tracks (epoch rank) (later rank) where
  unknown := h.unknown
  follows generation hgeneration := (h.follows generation hgeneration).mono (hext generation)
  epoch := h.epoch

theorem Mirror.Tracks.moves {m m' : Mirror} {generation : Str} (h : m.Tracks (epoch rank) (accounts rank))
    (hgeneration : m.generation = some generation) (hmoves : m.Moves (accounts rank generation) m') :
    m'.Tracks (epoch rank) (accounts rank) ∧ m'.generation = some generation := by
  have hkept := hmoves.generation.trans hgeneration
  refine ⟨⟨fun hnone => ?_, fun other hother => ?_, fun other hother => ?_⟩, hkept⟩
  · rw [hkept] at hnone
    cases hnone
  · rw [hkept] at hother
    cases hother
    exact hmoves.follows (h.follows generation hgeneration)
  · rw [hkept] at hother
    cases hother
    exact hmoves.generationEpoch.trans (h.epoch generation hgeneration)

/-- A report of the accepted generation is read as it is, and another one begins its own. -/
theorem acceptWorkerGeneration_spec {generation : Str} {generationEpoch : Option ℤ}
    (h : s.acceptWorkerGeneration rank generation generationEpoch = some s') :
    (s' = s ∧ (s.mirrors rank).generation = some generation) ∨
      s'.mirrors rank = { Mirror.new with
        generation := some generation
        generationEpoch := generationEpoch
        retiredGenerations := (s.mirrors rank).retire } := by
  unfold Scheduler.acceptWorkerGeneration at h
  dsimp only at h
  split_ifs at h with hsame
  · cases h
    exact Or.inl ⟨rfl, hsame⟩
  · cases h
    right
    simp [Scheduler.beginWorkerGeneration]

theorem new_follows {account : Account} (h : account.inventory 0 = some ∅) (generation : Str)
    (generationEpoch : Option ℤ) (retired : List Str) :
    Mirror.Follows account { Mirror.new with
      generation := some generation
      generationEpoch := generationEpoch
      retiredGenerations := retired } :=
  ⟨h, nofun, nofun, nofun⟩

/-- An accepted generation starts from what it said first. -/
theorem acceptWorkerGeneration_tracks {generation : Str} (h : (s.mirrors rank).Tracks (epoch rank) (accounts rank))
    (hstart : (accounts rank generation).inventory 0 = some ∅)
    (haccept : s.acceptWorkerGeneration rank generation (some (epoch rank generation : ℤ)) = some s') :
    (s'.mirrors rank).Tracks (epoch rank) (accounts rank) ∧ (s'.mirrors rank).generation = some generation := by
  obtain ⟨rfl, hgeneration⟩ | hbegun := acceptWorkerGeneration_spec haccept
  · exact ⟨h, hgeneration⟩
  · rw [hbegun]
    refine ⟨⟨fun _ => rfl, fun other hother => ?_, fun other hother => ?_⟩, rfl⟩
    · cases hother
      exact new_follows hstart generation _ _
    · cases hother
      rfl

/-- How the scheduler reads a report of the delta protocol. -/
theorem absorbReport_delta (s : Scheduler) {rank : ℕ} {generation : Str} (hgeneration : generation ≠ missingGeneration)
    (time : ℕ) (delta : Option DeltaMessage) (checkpoint : Option CheckpointMessage) :
    s.absorbReport ⟨rank, some generation, some (time : ℤ), .delta delta checkpoint⟩ =
      if s.tpDegree ≤ rank then s
      else (s.acceptWorkerGeneration rank generation (some (time : ℤ))).elim s fun accepted =>
        checkpoint.elim (delta.elim accepted (accepted.absorbWorkerDelta rank))
          ((delta.elim accepted (accepted.absorbWorkerDelta rank)).absorbWorkerCheckpoint rank) := by
  unfold Scheduler.absorbReport
  have htime : Option.filter (fun epoch : ℤ => decide (0 ≤ epoch)) (some (time : ℤ)) = some (time : ℤ) := by
    simp [Option.filter]
  simp only [Option.getD_some, htime, hgeneration, Int.toNat_natCast]
  by_cases hrank : s.tpDegree ≤ rank
  · rw [if_pos (Or.inr (Int.ofNat_le.mpr hrank)), if_pos hrank]
  · rw [if_neg (by omega), if_neg hrank, if_neg (by simp)]
    cases s.acceptWorkerGeneration rank generation (some (time : ℤ)) <;> rfl

/-- The messages of one report move the mirror of its rank. -/
theorem absorb_moves {account : Account} {accepted : Scheduler} {delta : Option DeltaMessage}
    {checkpoint : Option CheckpointMessage} (hfollows : (accepted.mirrors rank).Follows account)
    (hdelta : ∀ message, delta = some message → message.Tells account)
    (hcheckpoint : ∀ message, checkpoint = some message → message.Tells account) :
    Mirror.Moves account (accepted.mirrors rank)
      ((checkpoint.elim (delta.elim accepted (accepted.absorbWorkerDelta rank))
        ((delta.elim accepted (accepted.absorbWorkerDelta rank)).absorbWorkerCheckpoint rank)).mirrors rank) := by
  have happlied : Mirror.Moves account (accepted.mirrors rank)
      ((delta.elim accepted (accepted.absorbWorkerDelta rank)).mirrors rank) := by
    cases delta with
    | none => exact Mirror.Moves.refl account _
    | some message => exact Scheduler.absorbWorkerDelta_moves (hdelta message rfl)
  cases checkpoint with
  | none => exact happlied
  | some message =>
      exact happlied.trans
        (Scheduler.absorbWorkerCheckpoint_moves (hcheckpoint message rfl) (happlied.follows hfollows))

theorem absorbReport_tracks {report : QuorumReport} (hreport : report.Tells epoch accounts)
    (h : ∀ r, (s.mirrors r).Tracks (epoch r) (accounts r)) (r : ℕ) :
    ((s.absorbReport report).mirrors r).Tracks (epoch r) (accounts r) := by
  have hsteps := Scheduler.absorbReport_steps s report
  obtain ⟨rank, generation, delta, checkpoint, rfl, hgeneration, hstart, hdelta, hcheckpoint⟩ := hreport
  by_cases hr : r = rank
  · subst hr
    rw [absorbReport_delta s hgeneration]
    split
    · exact h r
    · cases haccept : s.acceptWorkerGeneration r generation (some (epoch r generation : ℤ)) with
      | none => exact h r
      | some accepted =>
          obtain ⟨htracks, hsame⟩ := acceptWorkerGeneration_tracks (h r) hstart haccept
          exact (htracks.moves hsame (absorb_moves (htracks.follows generation hsame) hdelta hcheckpoint)).1
  · rw [hsteps.mirrors r (by simpa using hr)]
    exact h r

theorem absorbQuorum_tracks {reports : List QuorumReport} (hreports : ∀ report ∈ reports, report.Tells epoch accounts)
    (h : ∀ r, (s.mirrors r).Tracks (epoch r) (accounts r)) (r : ℕ) :
    ((s.absorbQuorum reports).mirrors r).Tracks (epoch r) (accounts r) := by
  induction reports generalizing s with
  | nil => exact h r
  | cons report rest ih =>
      rw [List.forall_mem_cons] at hreports
      exact ih hreports.2 (absorbReport_tracks hreports.1 h)

theorem absorbQuorum_published {withdrawn : Set Str} (reports : List QuorumReport)
    (h : ∀ r, s.Published withdrawn r) (r : ℕ) : (s.absorbQuorum reports).Published withdrawn r := by
  induction reports generalizing s with
  | nil => exact h r
  | cons report rest ih => exact ih ((Scheduler.absorbReport_steps s report).all h)

theorem withdraw_published {withdrawn : Set Str} {digest : Str} (hdigest : digest ∈ withdrawn)
    (h : s.Published withdrawn rank) : (s.withdraw digest).Published withdrawn rank := by
  have hmem : ∀ d, rank ∈ (s.withdraw digest).quorum d ↔ d ≠ digest ∧ rank ∈ s.quorum d := by
    intro d
    by_cases hd : d = digest <;> simp [Scheduler.withdraw, hd]
  constructor
  · intro d hd
    exact h.synchronized d ((hmem d).mp hd).2
  · intro d hd
    exact h.held d ((hmem d).mp hd).2
  · intro hsync d hheld hd
    refine (hmem d).mpr ⟨?_, h.complete hsync d hheld hd⟩
    rintro rfl
    exact hd hdigest

end Absorb

namespace System
variable {epoch : ℕ → Str → ℕ} {withdrawn : Set Str} {s : System} {rank : ℕ}

/-! ## What holds at every moment -/

/-- Workers and reports tell the truth, and the scheduler believes what was said. -/
structure Agrees (epoch : ℕ → Str → ℕ) (withdrawn : Set Str) (s : System) : Prop where
  workers : ∀ r, (s.workers r).rank = r ∧ (s.workers r).generation ≠ missingGeneration ∧
    (s.workers r).generationEpoch = epoch r (s.workers r).generation
  speaks : ∀ r, (s.workers r).Speaks (s.account r)
  sent : ∀ report ∈ s.sent, report.Tells epoch s.accounts
  tracks : ∀ r, (s.scheduler.mirrors r).Tracks (epoch r) (s.accounts r)
  published : ∀ r, s.scheduler.Published withdrawn r

@[simp] theorem setAccount_self (generation : Str) (account : Account) :
    (s.setAccount rank generation account).accounts rank generation = account := by
  simp [setAccount]

theorem setAccount_of_rank {generation : Str} (account : Account) {r : ℕ} (hr : r ≠ rank) :
    (s.setAccount rank generation account).accounts r = s.accounts r := by
  simp [setAccount, hr]

theorem setAccount_extends {account : Account} (rank : ℕ) (generation : Str)
    (h : (s.accounts rank generation).Extends account) (r : ℕ) (g : Str) :
    (s.accounts r g).Extends ((s.setAccount rank generation account).accounts r g) := by
  by_cases hr : r = rank
  · subst hr
    by_cases hg : g = generation
    · subst hg
      simpa using h
    · simp only [setAccount, Function.update_self, Function.update_of_ne hg]
      exact ⟨fun _ _ => id, le_rfl⟩
  · rw [setAccount_of_rank account hr]
    exact ⟨fun _ _ => id, le_rfl⟩

/-- A worker that keeps its generation says more, and may send what is true. -/
theorem Agrees.say (h : s.Agrees epoch withdrawn) {account : Account} {w : StatsReporter} (reports : List QuorumReport)
    (hext : (s.account rank).Extends account) (hsame : (s.workers rank).Same w) (hspeaks : w.Speaks account)
    (hreports : ∀ report ∈ reports, report.Tells epoch
      (s.setAccount rank (s.workers rank).generation account).accounts) :
    (((s.setAccount rank (s.workers rank).generation account).setWorker rank w).send reports).Agrees epoch withdrawn := by
  have hmono := setAccount_extends (s := s) rank (s.workers rank).generation hext
  constructor
  · intro r
    by_cases hr : r = rank
    · subst hr
      obtain ⟨hrank, hgeneration, hepoch⟩ := h.workers r
      simp only [send, setWorker, Function.update_self]
      exact ⟨hsame.rank.trans hrank, hsame.generation.symm ▸ hgeneration,
        hsame.generationEpoch.trans (hsame.generation.symm ▸ hepoch)⟩
    · simp only [send, setWorker, Function.update_of_ne hr]
      exact h.workers r
  · intro r
    by_cases hr : r = rank
    · subst hr
      simp only [send, setWorker, System.account, Function.update_self, hsame.generation]
      rw [setAccount_self]
      exact hspeaks
    · simp only [send, setWorker, System.account, Function.update_of_ne hr]
      rw [setAccount_of_rank account hr]
      exact h.speaks r
  · intro report hreport
    rcases List.mem_append.mp hreport with hold | hnew
    · exact (h.sent report hold).mono hmono
    · exact hreports report hnew
  · exact fun r => (h.tracks r).mono (hmono r)
  · exact h.published

/-- A worker changes its inventory. -/
theorem Agrees.change (h : s.Agrees epoch withdrawn) {w : StatsReporter} (hsame : (s.workers rank).Same w)
    (hspeaks : w.Speaks (s.account rank)) : (s.setWorker rank w).Agrees epoch withdrawn := by
  constructor
  · intro r
    by_cases hr : r = rank
    · subst hr
      obtain ⟨hrank, hgeneration, hepoch⟩ := h.workers r
      simp only [setWorker, Function.update_self]
      exact ⟨hsame.rank.trans hrank, hsame.generation.symm ▸ hgeneration,
        hsame.generationEpoch.trans (hsame.generation.symm ▸ hepoch)⟩
    · simp only [setWorker, Function.update_of_ne hr]
      exact h.workers r
  · intro r
    by_cases hr : r = rank
    · subst hr
      simp only [setWorker, System.account, Function.update_self, hsame.generation]
      exact hspeaks
    · simp only [setWorker, System.account, Function.update_of_ne hr]
      exact h.speaks r
  · exact h.sent
  · exact h.tracks
  · exact h.published

theorem Agrees.report (h : s.Agrees epoch withdrawn)
    (hadmits : (s.account rank).Admits (s.workers rank).observe.sequence (s.workers rank).held.values) :
    (s.report rank).Agrees epoch withdrawn := by
  have hspeaks := h.speaks rank
  have hsame := hspeaks.observe_observes.toSame
  have hobserved := hspeaks.observe hadmits
  obtain ⟨hpaged, hcycle⟩ := hobserved.nextPage
  have hcycles : (s.workers rank).buildQuorumReport.2.checkpointCycle =
      (s.workers rank).observe.nextPage.checkpointCycle := by
    dsimp only [StatsReporter.buildQuorumReport]
    rw [StatsReporter.nextDelta_eq]
  have hextends := Account.record_extends hadmits (hspeaks.observe_cycle.trans hcycle)
  unfold System.report
  dsimp only
  rw [hcycles]
  refine h.say _ hextends ((hsame.trans (StatsReporter.nextPage_same _)).trans (StatsReporter.nextDelta_same _))
    hpaged.nextDelta fun report hreport => ?_
  rw [List.mem_singleton.mp hreport]
  obtain ⟨hrank, hgeneration, hepoch⟩ := h.workers rank
  obtain ⟨hdelta, hcheckpoint⟩ := hobserved.report_tells
  have hlater : ((s.account rank).record (s.workers rank).observe.sequence (s.workers rank).held.values
      (s.workers rank).observe.checkpointCycle).Extends
      ((s.account rank).record (s.workers rank).observe.sequence (s.workers rank).held.values
        (s.workers rank).observe.nextPage.checkpointCycle) :=
    ⟨fun _ _ => id, hcycle⟩
  refine ⟨rank, (s.workers rank).generation, (s.workers rank).observe.currentDelta,
    some (s.workers rank).observe.checkpoint, ?_, hgeneration, ?_, fun message hmessage => ?_,
    fun message hmessage => ?_⟩
  · simp only [StatsReporter.buildQuorumReport, StatsReporter.report, hsame.rank, hsame.generation,
      hsame.generationEpoch, hrank, hepoch]
  · rw [setAccount_self]
    exact hextends.inventory _ _ hspeaks.start
  · rw [setAccount_self]
    exact (hdelta message hmessage).mono hlater
  · rw [setAccount_self]
    cases hmessage
    exact hcheckpoint.mono hlater

theorem Agrees.handshake (h : s.Agrees epoch withdrawn)
    (hcovers : (s.workers rank).held.values.card ≤ startupHandshakeMaxDigests)
    (hadmits : (s.account rank).Admits (announced (s.workers rank)) (s.workers rank).held.values) :
    (s.handshake rank).Agrees epoch withdrawn := by
  have hspeaks := h.speaks rank
  obtain ⟨hrank, hgeneration, hepoch⟩ := h.workers rank
  have hextends : (s.account rank).Extends
      ((s.account rank).record (announced (s.workers rank)) (s.workers rank).held.values
        (s.workers rank).checkpointCycle) :=
    Account.record_extends hadmits hspeaks.cycle.le
  have hsaid := h.say (w := s.workers rank) (s.workers rank).handshake hextends
    ⟨rfl, rfl, rfl⟩ ?_ fun report hreport => ?_
  · unfold System.handshake
    dsimp only
    convert hsaid using 2
    simp [setWorker, setAccount]
  · exact ⟨hextends.inventory _ _ hspeaks.start, hspeaks.started.trans_le hextends.cycle,
      hextends.inventory _ _ hspeaks.observed, rfl, hspeaks.checkpoint,
      hspeaks.index, fun delta hdelta => (hspeaks.deltas delta hdelta).mono hextends, hspeaks.object,
      hspeaks.revision, hspeaks.unchanged⟩
  · obtain ⟨index, -, rfl⟩ := List.mem_map.mp hreport
    have htells : ((s.workers rank).handshakePage index).Tells
        ((s.account rank).record (announced (s.workers rank)) (s.workers rank).held.values
          (s.workers rank).checkpointCycle) :=
      StatsReporter.handshakePage_tells index le_rfl
        (by rw [StatsReporter.startupPart_of_card_le hcovers]; exact Account.record_self)
    refine ⟨rank, (s.workers rank).generation, none, some ((s.workers rank).handshakePage index), ?_, hgeneration, ?_,
      nofun, fun message hmessage => ?_⟩
    · rw [StatsReporter.handshakeReport, hrank, hepoch]
    · rw [setAccount_self]
      exact hextends.inventory _ _ hspeaks.start
    · rw [setAccount_self]
      cases hmessage
      exact htells

theorem Agrees.restart (h : s.Agrees epoch withdrawn) {generation : Str} (held : Finset Str)
    (hunused : s.accounts rank generation = .unused) (hgeneration : generation ≠ missingGeneration) :
    (s.restart epoch rank generation held).Agrees epoch withdrawn := by
  have hmono := setAccount_extends (s := s) rank generation (hunused ▸ Account.unused_extends .start)
  constructor
  · intro r
    by_cases hr : r = rank
    · subst hr
      simp only [System.restart, setWorker, Function.update_self]
      exact ⟨rfl, hgeneration, rfl⟩
    · simp only [System.restart, setWorker, Function.update_of_ne hr]
      exact h.workers r
  · intro r
    by_cases hr : r = rank
    · subst hr
      have haccount : (s.restart epoch r generation held).account r = .start := by
        simp [System.restart, System.account, setWorker, setAccount, StatsReporter.new]
      rw [haccount]
      simp only [System.restart, setWorker, Function.update_self]
      exact StatsReporter.new_speaks r generation _ held
    · have haccount : (s.restart epoch rank generation held).account r = s.account r := by
        simp [System.restart, System.account, setWorker, setAccount, hr]
      rw [haccount]
      simp only [System.restart, setWorker, Function.update_of_ne hr]
      exact h.speaks r
  · exact fun report hreport => (h.sent report hreport).mono hmono
  · exact fun r => (h.tracks r).mono (hmono r)
  · exact h.published

theorem Agrees.deliver (h : s.Agrees epoch withdrawn) (indices : List ℕ) :
    (s.deliver indices).Agrees epoch withdrawn where
  workers := h.workers
  speaks := h.speaks
  sent := h.sent
  tracks := by
    apply absorbQuorum_tracks _ h.tracks
    intro report hreport
    obtain ⟨i, -, hi⟩ := List.mem_filterMap.mp hreport
    exact h.sent report (List.mem_of_getElem? hi)
  published := absorbQuorum_published _ h.published

theorem Agrees.step (h : s.Agrees epoch withdrawn) (a : Action) (ha : Honest withdrawn s a) :
    (s.step epoch a).Agrees epoch withdrawn := by
  cases a with
  | mutate rank mutation => exact h.change ⟨rfl, rfl, rfl⟩ ((h.speaks rank).mutate mutation)
  | replace rank values => exact h.change ⟨rfl, rfl, rfl⟩ ((h.speaks rank).replace values)
  | report rank => exact h.report ha
  | handshake rank => exact h.handshake ha.1 ha.2
  | restart rank generation held => exact h.restart held ha.1 ha.2
  | deliver indices => exact h.deliver indices
  | withdraw digest =>
      exact ⟨h.workers, h.speaks, h.sent, h.tracks, fun r => withdraw_published ha (h.published r)⟩

theorem initial_agrees (epoch : ℕ → Str → ℕ) (withdrawn : Set Str) (tpDegree : ℕ) {generation : ℕ → Str}
    (hgeneration : ∀ r, generation r ≠ missingGeneration) (held : ℕ → Finset Str) :
    (initial epoch tpDegree generation held).Agrees epoch withdrawn where
  workers r := ⟨rfl, hgeneration r, rfl⟩
  speaks r := by
    have haccount : (initial epoch tpDegree generation held).account r = .start := by
      simp [initial, System.account, StatsReporter.new]
    rw [haccount]
    exact StatsReporter.new_speaks r (generation r) _ (held r)
  sent := nofun
  tracks r := ⟨fun _ => rfl, nofun, nofun⟩
  published := Scheduler.new_published tpDegree withdrawn

/-! ## Whole runs -/

/-- What a sequence number stands for is the empty inventory of the start, or what a worker held. -/
theorem step_inventory (epoch : ℕ → Str → ℕ) (s : System) (a : Action) {r sequence : ℕ} {g : Str} {held : Finset Str}
    (h : ((s.step epoch a).accounts r g).inventory sequence = some held) :
    (s.accounts r g).inventory sequence = some held ∨ (sequence = 0 ∧ held = ∅) ∨
      ((s.workers r).generation = g ∧ (s.workers r).held.values = held) := by
  have hrecord : ∀ rank generation account,
      ((s.setAccount rank generation account).accounts r g).inventory sequence = some held →
        (s.accounts r g).inventory sequence = some held ∨
          (r = rank ∧ g = generation ∧ account.inventory sequence = some held) := by
    intro rank generation account hset
    by_cases hr : r = rank
    · subst hr
      by_cases hg : g = generation
      · subst hg
        rw [setAccount_self] at hset
        exact Or.inr ⟨rfl, rfl, hset⟩
      · simp only [setAccount, Function.update_self, Function.update_of_ne hg] at hset
        exact Or.inl hset
    · rw [setAccount_of_rank account hr] at hset
      exact Or.inl hset
  have hsaid : ∀ rank number cycle,
      ((s.setAccount rank (s.workers rank).generation
          ((s.account rank).record number (s.workers rank).held.values cycle)).accounts r g).inventory sequence =
        some held →
      (s.accounts r g).inventory sequence = some held ∨
        ((s.workers r).generation = g ∧ (s.workers r).held.values = held) := by
    intro rank number cycle hset
    obtain hold | ⟨rfl, rfl, hnew⟩ := hrecord _ _ _ hset
    · exact Or.inl hold
    · by_cases hnumber : sequence = number
      · subst hnumber
        rw [Account.record_self] at hnew
        exact Or.inr ⟨rfl, Option.some.inj hnew⟩
      · rw [Account.record_of_ne hnumber] at hnew
        exact Or.inl hnew
  cases a with
  | report rank => exact (hsaid rank _ _ h).imp_right Or.inr
  | handshake rank => exact (hsaid rank _ _ h).imp_right Or.inr
  | restart rank generation values =>
      obtain hold | ⟨rfl, rfl, hnew⟩ := hrecord rank generation .start h
      · exact Or.inl hold
      · right
        left
        by_cases hzero : sequence = 0
        · subst hzero
          exact ⟨rfl, (Option.some.inj (by simpa [Account.start] using hnew)).symm⟩
        · simp [Account.start, hzero] at hnew
  | mutate | replace | deliver | withdraw => exact Or.inl h

section Runs
variable {tpDegree : ℕ} {generation : ℕ → Str} {held : ℕ → Finset Str} {actions : List Action}

/-- What a sequence number stands for, a worker held at some moment of the run. -/
theorem exec_inventory (epoch : ℕ → Str → ℕ) (tpDegree : ℕ) (generation : ℕ → Str) (held : ℕ → Finset Str)
    (actions : List Action) {r sequence : ℕ} {g : Str} {values : Finset Str}
    (h : ((Run.exec (step epoch) (initial epoch tpDegree generation held) actions).accounts r g).inventory sequence =
      some values) :
    (sequence = 0 ∧ values = ∅) ∨ ∃ n ≤ actions.length,
      ((Run.exec (step epoch) (initial epoch tpDegree generation held) (actions.take n)).workers r).generation = g ∧
        ((Run.exec (step epoch) (initial epoch tpDegree generation held) (actions.take n)).workers r).held.values =
          values := by
  induction actions using List.reverseRecOn with
  | nil =>
      left
      simp only [Run.exec_nil, initial] at h
      by_cases hg : g = generation r
      · subst hg
        by_cases hzero : sequence = 0
        · subst hzero
          exact ⟨rfl, (Option.some.inj (by simpa [Account.start] using h)).symm⟩
        · simp [Account.start, hzero] at h
      · simp [Account.unused, hg] at h
  | append_singleton before a ih =>
      rw [Run.exec_concat] at h
      have hkept : ∀ n ≤ before.length, (before ++ [a]).take n = before.take n :=
        fun n hn => List.take_append_of_le_length hn
      obtain hbefore | hempty | hnow := step_inventory epoch _ a h
      · obtain hempty | ⟨n, hn, hheld⟩ := ih hbefore
        · exact Or.inl hempty
        · refine Or.inr ⟨n, hn.trans (by simp), ?_⟩
          rw [hkept n hn]
          exact hheld
      · exact Or.inl hempty
      · refine Or.inr ⟨before.length, by simp, ?_⟩
        rw [hkept _ le_rfl, List.take_length]
        exact hnow

/-- A digest that a rank confirms, the rank held at some moment, in the generation that the
scheduler has accepted, and everything else that the scheduler believes of the rank with it. -/
theorem confirmed_held (hgeneration : ∀ r, generation r ≠ missingGeneration)
    (h : Run.Throughout (step epoch) (Honest Set.univ) (initial epoch tpDegree generation held) actions) :
    ∀ r d, r ∈ (Run.exec (step epoch) (initial epoch tpDegree generation held) actions).scheduler.quorum d →
      ∃ n ≤ actions.length,
        let w := (Run.exec (step epoch) (initial epoch tpDegree generation held) (actions.take n)).workers r
        let m := (Run.exec (step epoch) (initial epoch tpDegree generation held) actions).scheduler.mirrors r
        m.generation = some w.generation ∧ m.held = w.held.values ∧ d ∈ w.held.values := by
  intro r d hd
  have hagrees := h.preserves (fun s a hs ha => Agrees.step hs a ha)
    (initial_agrees epoch Set.univ tpDegree hgeneration held)
  have hmem := (hagrees.published r).held d hd
  have htracks := hagrees.tracks r
  cases hg : ((Run.exec (step epoch) (initial epoch tpDegree generation held) actions).scheduler.mirrors r).generation with
  | none =>
      rw [htracks.unknown hg] at hmem
      exact absurd hmem (Finset.notMem_empty d)
  | some g =>
      obtain ⟨-, hempty⟩ | ⟨n, hn, hsame, hheld⟩ :=
        exec_inventory epoch tpDegree generation held actions (htracks.follows g hg).held
      · rw [hempty] at hmem
        exact absurd hmem (Finset.notMem_empty d)
      · refine ⟨n, hn, ?_, hheld.symm, ?_⟩
        · rw [hsame, hg]
        · rw [hheld]
          exact hmem

/-- A worker announces its only digest and drops it, and the reports arrive again. -/
theorem confirmed_held_dropped : let run : List Action :=
      [.handshake 0, .deliver [0], .report 0, .deliver [1, 1], .mutate 0 .clear, .deliver [0]]
    let start := initial (fun _ _ => 7) 1 (fun _ => "9f") fun _ => {(Hex.replicate 64 48 isHexCode_zero).text}
    ∀ r d, r ∈ (Run.exec (step fun _ _ => 7) start run).scheduler.quorum d →
      ∃ n ≤ run.length,
        let w := (Run.exec (step fun _ _ => 7) start (run.take n)).workers r
        let m := (Run.exec (step fun _ _ => 7) start run).scheduler.mirrors r
        m.generation = some w.generation ∧ m.held = w.held.values ∧ d ∈ w.held.values :=
  confirmed_held (fun _ => by decide)
    ⟨⟨by decide, by decide⟩, trivial, by unfold Honest; decide, trivial, trivial, trivial, trivial⟩

/-- A scheduler that has accepted the last sequence number of a worker believes what the worker last
reported. -/
theorem accepted_observed (hgeneration : ∀ r, generation r ≠ missingGeneration)
    (h : Run.Throughout (step epoch) (Honest Set.univ) (initial epoch tpDegree generation held) actions) (r : ℕ) :
    let s := Run.exec (step epoch) (initial epoch tpDegree generation held) actions
    (s.scheduler.mirrors r).generation = some (s.workers r).generation →
      (s.scheduler.mirrors r).reportSequence = (s.workers r).sequence →
        (s.scheduler.mirrors r).held = (s.workers r).observedHeld := by
  intro s hg hsequence
  have hagrees : s.Agrees epoch Set.univ := h.preserves (fun s a hs ha => Agrees.step hs a ha)
    (initial_agrees epoch Set.univ tpDegree hgeneration held)
  have hheld := ((hagrees.tracks r).follows _ hg).held
  rw [hsequence] at hheld
  exact Option.some.inj (hheld.symm.trans (hagrees.speaks r).observed)

end Runs

end System

end SparkCache.Quorum
