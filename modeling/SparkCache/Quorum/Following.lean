import SparkCache.Quorum.Mirror

/-!
# Following an inventory

What each operation of the scheduler does to the tables of one rank. The other
ranks are not touched, and a rank confirms its inventory exactly while it is
synchronized. A mirror that has followed an inventory so far still follows it
after every message that tells the truth about it.
-/
namespace SparkCache.Quorum
open Paging

theorem Mirror.desynchronized_self {m : Mirror} {b : Bool} (h : m.desynchronized = b) :
    { m with desynchronized := b } = m := by
  subst h
  rfl

namespace Scheduler
variable {s : Scheduler} {rank : ℕ}

/-! ## Confirmations -/

/-- A rank confirms nothing while it is desynchronized, and else what it holds, but for digests
that were withdrawn. -/
structure Published (withdrawn : Set Str) (s : Scheduler) (rank : ℕ) : Prop where
  synchronized : ∀ d, rank ∈ s.quorum d → (s.mirrors rank).desynchronized = false
  held : ∀ d, rank ∈ s.quorum d → d ∈ (s.mirrors rank).held
  complete : (s.mirrors rank).desynchronized = false →
    ∀ d ∈ (s.mirrors rank).held, d ∉ withdrawn → rank ∈ s.quorum d

theorem new_published (tpDegree : ℕ) (withdrawn : Set Str) (rank : ℕ) : Published withdrawn (new tpDegree) rank where
  synchronized _ _ := rfl
  held _ hd := absurd hd (Finset.notMem_empty rank)
  complete _ d hd := absurd hd (Finset.notMem_empty d)

/-- Only the tables of one rank change, and it still confirms what it should. -/
structure Steps (rank : ℕ) (s s' : Scheduler) : Prop where
  tpDegree : s'.tpDegree = s.tpDegree
  mirrors : ∀ r ≠ rank, s'.mirrors r = s.mirrors r
  quorum : ∀ r ≠ rank, ∀ d, r ∈ s'.quorum d ↔ r ∈ s.quorum d
  published : ∀ withdrawn, Published withdrawn s rank → Published withdrawn s' rank

namespace Steps
variable {s' s'' : Scheduler}

theorem refl (rank : ℕ) (s : Scheduler) : Steps rank s s :=
  ⟨rfl, fun _ _ => rfl, fun _ _ _ => Iff.rfl, fun _ h => h⟩

theorem trans (h : Steps rank s s') (h' : Steps rank s' s'') : Steps rank s s'' where
  tpDegree := h'.tpDegree.trans h.tpDegree
  mirrors r hr := (h'.mirrors r hr).trans (h.mirrors r hr)
  quorum r hr d := (h'.quorum r hr d).trans (h.quorum r hr d)
  published withdrawn hp := h'.published withdrawn (h.published withdrawn hp)

/-- The other ranks confirm what they did. -/
theorem other (h : Steps rank s s') {withdrawn : Set Str} {r : ℕ} (hr : r ≠ rank)
    (hp : Published withdrawn s r) : Published withdrawn s' r where
  synchronized d hd := by
    rw [h.mirrors r hr]
    exact hp.synchronized d ((h.quorum r hr d).mp hd)
  held d hd := by
    rw [h.mirrors r hr]
    exact hp.held d ((h.quorum r hr d).mp hd)
  complete := by
    rw [h.mirrors r hr]
    intro hsync d hheld hd
    exact (h.quorum r hr d).mpr (hp.complete hsync d hheld hd)

theorem all (h : Steps rank s s') {withdrawn : Set Str} (hp : ∀ r, Published withdrawn s r) (r : ℕ) :
    Published withdrawn s' r := by
  by_cases hr : r = rank
  · subst hr
    exact h.published withdrawn (hp r)
  · exact h.other hr (hp r)

end Steps

/-! ## The tables after each operation -/

@[simp] theorem modify_self (f : Mirror → Mirror) :
    (s.modify rank f).mirrors rank = f (s.mirrors rank) := by
  simp [modify]

theorem modify_of_ne {r : ℕ} (f : Mirror → Mirror) (hr : r ≠ rank) :
    (s.modify rank f).mirrors r = s.mirrors r := by
  simp [modify, hr]

@[simp] theorem modify_quorum (f : Mirror → Mirror) : (s.modify rank f).quorum = s.quorum := rfl

@[simp] theorem modify_tpDegree (f : Mirror → Mirror) : (s.modify rank f).tpDegree = s.tpDegree := rfl

@[simp] theorem withdrawWorkerQuorum_mirrors : (s.withdrawWorkerQuorum rank).mirrors = s.mirrors := rfl

@[simp] theorem publishWorkerQuorum_mirrors : (s.publishWorkerQuorum rank).mirrors = s.mirrors := rfl

@[simp] theorem mem_withdrawWorkerQuorum {r : ℕ} {d : Str} :
    r ∈ (s.withdrawWorkerQuorum rank).quorum d ↔ r ≠ rank ∧ r ∈ s.quorum d := by
  simp [withdrawWorkerQuorum]

@[simp] theorem mem_publishWorkerQuorum {r : ℕ} {d : Str} :
    r ∈ (s.publishWorkerQuorum rank).quorum d ↔
      (d ∈ (s.mirrors rank).held ∧ r = rank) ∨ r ∈ s.quorum d := by
  by_cases hd : d ∈ (s.mirrors rank).held <;> simp [publishWorkerQuorum, hd]

@[simp] theorem markWorkerDesynchronized_self :
    (s.markWorkerDesynchronized rank).mirrors rank =
      { s.mirrors rank with desynchronized := true } := by
  by_cases h : (s.mirrors rank).desynchronized
  · simp [markWorkerDesynchronized, h, Mirror.desynchronized_self h]
  · simp [markWorkerDesynchronized, h]

@[simp] theorem requireCheckpoint_self :
    (s.requireCheckpoint rank).mirrors rank =
      { s.mirrors rank with requiresCheckpoint := true, desynchronized := true } := by
  simp [requireCheckpoint]

@[simp] theorem replaceWorkerHeld_self (held : Finset Str) :
    (s.replaceWorkerHeld rank held).mirrors rank = { s.mirrors rank with held := held } := by
  by_cases h : (s.mirrors rank).desynchronized <;> simp [replaceWorkerHeld, h]

@[simp] theorem applyWorkerDelta_self (added removed : Finset Str) :
    (s.applyWorkerDelta rank added removed).mirrors rank =
      { s.mirrors rank with held := (s.mirrors rank).held \ removed ∪ added } := by
  by_cases h : (s.mirrors rank).desynchronized <;> simp [applyWorkerDelta, h, modify]

@[simp] theorem takeWorkerDelta_self (delta : Delta) :
    (s.takeWorkerDelta rank delta).mirrors rank =
      { s.mirrors rank with
        held := (s.mirrors rank).held \ delta.removed ∪ delta.added
        pendingDeltas := (s.mirrors rank).pendingDeltas.erase ((s.mirrors rank).reportSequence + 1)
        reportSequence := (s.mirrors rank).reportSequence + 1 } := by
  simp [takeWorkerDelta]

@[simp] theorem settleWorker_self :
    (s.settleWorker rank).mirrors rank =
      { s.mirrors rank with
        desynchronized := decide ((s.mirrors rank).pendingDeltas.size ≠ 0) ||
          (s.mirrors rank).requiresCheckpoint } := by
  by_cases hsize : (s.mirrors rank).pendingDeltas.size = 0
  · by_cases hrequires : (s.mirrors rank).requiresCheckpoint
    · simp [settleWorker, hrequires]
    · by_cases hdesync : (s.mirrors rank).desynchronized
      · simp [settleWorker, hsize, hrequires, hdesync]
      · have hfalse := Bool.eq_false_iff.mpr hdesync
        have hsettled : s.settleWorker rank = s := by
          simp [settleWorker, hsize, hrequires, hdesync]
        rw [hsettled]
        apply (Mirror.desynchronized_self _).symm
        simp [hfalse, hsize, hrequires]
  · simp [settleWorker, hsize]

/-! ## Each operation is a step of its rank -/

/-- Tables that have no part in what is confirmed. -/
theorem modify_steps {f : Mirror → Mirror} (hheld : (f (s.mirrors rank)).held = (s.mirrors rank).held)
    (hdesync : (f (s.mirrors rank)).desynchronized = (s.mirrors rank).desynchronized) :
    Steps rank s (s.modify rank f) where
  tpDegree := rfl
  mirrors r hr := modify_of_ne f hr
  quorum _ _ _ := Iff.rfl
  published withdrawn h := by
    constructor
    · simpa [hdesync] using h.synchronized
    · simpa [hheld] using h.held
    · simpa [hheld, hdesync] using h.complete

theorem markWorkerDesynchronized_steps (s : Scheduler) (rank : ℕ) :
    Steps rank s (s.markWorkerDesynchronized rank) := by
  unfold markWorkerDesynchronized
  split
  · exact Steps.refl rank s
  · constructor
    · rfl
    · intro r hr
      exact modify_of_ne _ hr
    · intro r hr d
      simp [hr]
    · intro withdrawn h
      constructor <;> simp

theorem requireCheckpoint_steps (s : Scheduler) (rank : ℕ) : Steps rank s (s.requireCheckpoint rank) :=
  (modify_steps rfl rfl).trans (markWorkerDesynchronized_steps _ _)

/-- Whatever a rank confirmed before, it confirms its new inventory if it is synchronized. -/
theorem replaceWorkerHeld_published (s : Scheduler) (rank : ℕ) (held : Finset Str) (withdrawn : Set Str) :
    Published withdrawn (s.replaceWorkerHeld rank held) rank := by
  by_cases h : (s.mirrors rank).desynchronized
  · constructor <;> simp [replaceWorkerHeld, h]
  · constructor <;> simp +contextual [replaceWorkerHeld, h]

theorem replaceWorkerHeld_of_ne (s : Scheduler) (held : Finset Str) {r : ℕ} (hr : r ≠ rank) :
    (s.replaceWorkerHeld rank held).mirrors r = s.mirrors r ∧
      ∀ d, r ∈ (s.replaceWorkerHeld rank held).quorum d ↔ r ∈ s.quorum d := by
  by_cases h : (s.mirrors rank).desynchronized <;> simp [replaceWorkerHeld, h, modify_of_ne, hr]

/-- The tables of a rank are changed and then its inventory is replaced. -/
theorem modify_replaceWorkerHeld_steps (s : Scheduler) (rank : ℕ) (f : Mirror → Mirror) (held : Finset Str) :
    Steps rank s ((s.modify rank f).replaceWorkerHeld rank held) where
  tpDegree := by
    unfold replaceWorkerHeld
    split <;> rfl
  mirrors r hr := (replaceWorkerHeld_of_ne _ held hr).1.trans (modify_of_ne f hr)
  quorum r hr d := (replaceWorkerHeld_of_ne _ held hr).2 d
  published withdrawn _ := replaceWorkerHeld_published _ rank held withdrawn

theorem beginWorkerGeneration_steps (s : Scheduler) (rank : ℕ) (generation : Str)
    (generationEpoch : Option ℤ) :
    Steps rank s (s.beginWorkerGeneration rank generation generationEpoch) where
  tpDegree := rfl
  mirrors r hr := modify_of_ne _ hr
  quorum r hr d := by simp [beginWorkerGeneration, hr]
  published withdrawn _ := by
    constructor <;> simp [beginWorkerGeneration, Mirror.new]

theorem acceptWorkerGeneration_steps {s' : Scheduler} {generation : Str} {generationEpoch : Option ℤ}
    (h : s.acceptWorkerGeneration rank generation generationEpoch = some s') : Steps rank s s' := by
  unfold acceptWorkerGeneration at h
  dsimp only at h
  split_ifs at h
  · cases h
    exact Steps.refl rank s
  · cases h
    exact (modify_steps rfl rfl).trans (beginWorkerGeneration_steps _ rank generation generationEpoch)

theorem applyWorkerDelta_steps (s : Scheduler) (rank : ℕ) (added removed : Finset Str) :
    Steps rank s (s.applyWorkerDelta rank added removed) := by
  by_cases hdesync : (s.mirrors rank).desynchronized
  · constructor
    · simp [applyWorkerDelta, hdesync]
    · intro r hr
      simp [applyWorkerDelta, hdesync, modify_of_ne, hr]
    · intro r hr d
      simp [applyWorkerDelta, hdesync]
    · intro withdrawn h
      have hnone : ∀ d, rank ∉ s.quorum d := by
        intro d hd
        rw [h.synchronized d hd] at hdesync
        cases hdesync
      constructor <;> simp [applyWorkerDelta, hdesync, hnone]
  · constructor
    · simp [applyWorkerDelta, hdesync]
    · intro r hr
      simp [applyWorkerDelta, hdesync, modify, hr]
    · intro r hr d
      by_cases hadded : d ∈ added <;> by_cases hremoved : d ∈ removed <;>
        simp [applyWorkerDelta, hdesync, hadded, hremoved, hr]
    · intro withdrawn h
      constructor
      · simp [hdesync]
      · intro d hd
        by_cases hadded : d ∈ added
        · simp [hadded]
        · by_cases hremoved : d ∈ removed
          · simp [applyWorkerDelta, hdesync, hadded, hremoved] at hd
          · have hbefore : rank ∈ s.quorum d := by
              simpa [applyWorkerDelta, hdesync, hadded, hremoved] using hd
            simp [hremoved, h.held d hbefore]
      · intro _ d hd hwithdrawn
        by_cases hadded : d ∈ added
        · simp [applyWorkerDelta, hdesync, hadded]
        · have hkept : d ∈ (s.mirrors rank).held ∧ d ∉ removed := by simpa [hadded] using hd
          have hbefore := h.complete (by simpa using hdesync) d hkept.1 hwithdrawn
          simp [applyWorkerDelta, hdesync, hadded, hkept.2, hbefore]

theorem takeWorkerDelta_steps (s : Scheduler) (rank : ℕ) (delta : Delta) :
    Steps rank s (s.takeWorkerDelta rank delta) := by
  unfold takeWorkerDelta
  apply Steps.trans _ (modify_steps rfl rfl)
  exact (modify_steps rfl rfl).trans (applyWorkerDelta_steps _ rank delta.added delta.removed)

theorem takeWorkerDeltas_steps (turns : ℕ) (s : Scheduler) : Steps rank s (takeWorkerDeltas rank turns s) := by
  induction turns generalizing s with
  | zero => exact Steps.refl rank s
  | succ turns ih =>
      unfold takeWorkerDeltas
      split
      · exact Steps.refl rank s
      · exact (takeWorkerDelta_steps s rank _).trans (ih _)

theorem settleWorker_steps (s : Scheduler) (rank : ℕ) : Steps rank s (s.settleWorker rank) := by
  unfold settleWorker
  dsimp only
  split
  · exact markWorkerDesynchronized_steps s rank
  · split
    · rename_i hdesync
      constructor
      · rfl
      · intro r hr
        rw [publishWorkerQuorum_mirrors, modify_of_ne _ hr]
      · intro r hr d
        simp [hr]
      · intro withdrawn h
        have hnone : ∀ d, rank ∉ s.quorum d := by
          intro d hd
          rw [h.synchronized d hd] at hdesync
          cases hdesync
        constructor <;> simp +contextual [hnone]
    · exact Steps.refl rank s

theorem drainWorkerDeltas_steps (s : Scheduler) (rank : ℕ) : Steps rank s (s.drainWorkerDeltas rank) :=
  (takeWorkerDeltas_steps _ s).trans (settleWorker_steps _ rank)

theorem storeWorkerDelta_steps (s : Scheduler) (rank sequence : ℕ) (delta : Delta) :
    Steps rank s (s.storeWorkerDelta rank sequence delta) := by
  apply Steps.trans _ (drainWorkerDeltas_steps _ rank)
  split
  · exact (modify_steps rfl rfl).trans (markWorkerDesynchronized_steps _ rank)
  · exact modify_steps rfl rfl

theorem absorbWorkerDelta_steps (s : Scheduler) (rank : ℕ) (message : DeltaMessage) :
    Steps rank s (s.absorbWorkerDelta rank message) := by
  unfold absorbWorkerDelta
  split
  · exact Steps.refl rank s
  · dsimp only
    split
    · exact Steps.refl rank s
    · split
      · split
        · exact requireCheckpoint_steps s rank
        · exact Steps.refl rank s
      · split
        · split
          · exact requireCheckpoint_steps s rank
          · exact ((requireCheckpoint_steps s rank).trans (modify_steps rfl rfl)).trans
              (storeWorkerDelta_steps _ rank _ _)
        · exact storeWorkerDelta_steps s rank _ _

theorem restoreWorker_steps (s : Scheduler) (rank sequence : ℕ) (held : Finset Str) :
    Steps rank s (s.restoreWorker rank sequence held) :=
  ((modify_replaceWorkerHeld_steps s rank _ held).trans (modify_steps rfl rfl)).trans
    (drainWorkerDeltas_steps _ rank)

theorem addPage_steps (s : Scheduler) (rank : ℕ) (page : Page) (active : Assembly) :
    Steps rank s (s.addPage rank page active) := by
  unfold addPage
  dsimp only
  split
  · exact (modify_steps rfl rfl).trans (requireCheckpoint_steps _ rank)
  · split
    · exact (modify_steps rfl rfl).trans (requireCheckpoint_steps _ rank)
    · split
      · exact modify_steps rfl rfl
      · split
        · exact (modify_steps rfl rfl).trans (requireCheckpoint_steps _ rank)
        · exact (modify_steps rfl rfl).trans (restoreWorker_steps _ rank _ _)

theorem absorbWorkerCheckpoint_steps (s : Scheduler) (rank : ℕ) (message : CheckpointMessage) :
    Steps rank s (s.absorbWorkerCheckpoint rank message) := by
  unfold absorbWorkerCheckpoint
  split
  · exact Steps.refl rank s
  · rename_i page _
    have hmarked : Steps rank s (if (s.mirrors rank).reportSequence < page.stateSequence then
        s.markWorkerDesynchronized rank else s) := by
      split
      · exact markWorkerDesynchronized_steps s rank
      · exact Steps.refl rank s
    dsimp only
    split
    · exact Steps.refl rank s
    · split
      · exact modify_steps rfl rfl
      · split
        · exact hmarked
        · exact hmarked.trans (addPage_steps _ rank page _)

/-- A report changes the tables of the rank that it names. -/
theorem absorbReport_steps (s : Scheduler) (report : QuorumReport) :
    Steps report.rank.toNat s (s.absorbReport report) := by
  unfold absorbReport
  dsimp only
  split
  · exact Steps.refl _ s
  · split
    · rename_i delta checkpoint _
      split
      · exact Steps.refl _ s
      · split
        · exact Steps.refl _ s
        · rename_i accepted haccepted
          apply (acceptWorkerGeneration_steps haccepted).trans
          have hdelta : Steps report.rank.toNat accepted
              (delta.elim accepted (accepted.absorbWorkerDelta report.rank.toNat)) := by
            cases delta with
            | none => exact Steps.refl _ accepted
            | some delta => exact absorbWorkerDelta_steps accepted _ delta
          apply hdelta.trans
          cases checkpoint with
          | none => exact Steps.refl _ _
          | some checkpoint => exact absorbWorkerCheckpoint_steps _ _ checkpoint
    · split
      · exact Steps.refl _ s
      · rename_i accepted haccepted
        exact (acceptWorkerGeneration_steps haccepted).trans
          (modify_replaceWorkerHeld_steps accepted _ _ _)

end Scheduler

/-! ## Truthful messages -/

/-- What a worker has said under one generation: the inventory of each of its sequence numbers, and
its newest cycle. -/
structure Account where
  inventory : ℕ → Option (Finset Str)
  cycle : ℕ

/-- A delta leads from the inventory of its base to that of its sequence number. -/
def Delta.Tells (account : Account) (sequence : ℕ) (delta : Delta) : Prop :=
  sequence = delta.baseSequence + 1 ∧ ∃ before, account.inventory delta.baseSequence = some before ∧
    account.inventory sequence = some (before \ delta.removed ∪ delta.added)

/-- A number of pages, and some of them by index, are those of the inventory of a sequence number. -/
structure Shows (account : Account) (sequence cycle count heldCount : ℕ)
    (chunk : ℕ → List Str → Prop) (held : Finset Str) : Prop where
  inventory : account.inventory sequence = some held
  recent : cycle ≤ account.cycle
  pages : count = pageCount reportBatchSize held.card
  total : heldCount = held.card
  chunks : ∀ i items, chunk i items → i < count ∧ items = page reportBatchSize held.sort i

def Page.Tells (account : Account) (p : Page) : Prop :=
  ∃ held, Shows account p.stateSequence p.cycle p.count p.heldCount (fun i items => i = p.index ∧ items = p.held) held

def Assembly.Tells (account : Account) (a : Assembly) : Prop :=
  ∃ held, Shows account a.stateSequence a.cycle a.count a.heldCount (fun i items => a.chunks.lookup i = some items) held

def DeltaMessage.Tells (account : Account) (message : DeltaMessage) : Prop :=
  ∀ sequence delta, readDelta message = some (sequence, delta) → delta.Tells account sequence

def CheckpointMessage.Tells (account : Account) (message : CheckpointMessage) : Prop :=
  ∀ p, readCheckpoint message = some p → p.Tells account

/-- The reports of an earlier moment stay true. -/
structure Account.Extends (account later : Account) : Prop where
  inventory : ∀ sequence held, account.inventory sequence = some held → later.inventory sequence = some held
  cycle : account.cycle ≤ later.cycle

namespace Mirror

/-- The mirror holds the inventory of the sequence number that it has accepted. -/
structure Follows (account : Account) (m : Mirror) : Prop where
  held : account.inventory m.reportSequence = some m.held
  pending : ∀ sequence delta, m.pendingDeltas.lookup sequence = some delta → delta.Tells account sequence
  assembly : ∀ a, m.checkpoint = some a → a.Tells account
  requires : m.requiresCheckpoint = true → m.desynchronized = true

/-- Messages of one generation are absorbed. -/
structure Moves (account : Account) (m m' : Mirror) : Prop where
  generation : m'.generation = m.generation
  generationEpoch : m'.generationEpoch = m.generationEpoch
  retiredGenerations : m'.retiredGenerations = m.retiredGenerations
  sequence : m.reportSequence ≤ m'.reportSequence
  follows : m.Follows account → m'.Follows account

end Mirror

section Truth
variable {account later : Account} {m m' m'' : Mirror}

theorem Delta.Tells.mono {sequence : ℕ} {delta : Delta} (h : delta.Tells account sequence)
    (hext : account.Extends later) : delta.Tells later sequence := by
  obtain ⟨hbase, before, hbefore, hafter⟩ := h
  exact ⟨hbase, before, hext.inventory _ _ hbefore, hext.inventory _ _ hafter⟩

theorem Shows.mono {sequence cycle count heldCount : ℕ} {chunk : ℕ → List Str → Prop} {held : Finset Str}
    (h : Shows account sequence cycle count heldCount chunk held) (hext : account.Extends later) :
    Shows later sequence cycle count heldCount chunk held :=
  ⟨hext.inventory _ _ h.inventory, h.recent.trans hext.cycle, h.pages, h.total, h.chunks⟩

theorem DeltaMessage.Tells.mono {message : DeltaMessage} (h : message.Tells account)
    (hext : account.Extends later) : message.Tells later :=
  fun sequence delta hread => (h sequence delta hread).mono hext

theorem CheckpointMessage.Tells.mono {message : CheckpointMessage} (h : message.Tells account)
    (hext : account.Extends later) : message.Tells later := by
  intro p hread
  obtain ⟨held, hshows⟩ := h p hread
  exact ⟨held, hshows.mono hext⟩

theorem Mirror.Follows.mono (h : m.Follows account) (hext : account.Extends later) : m.Follows later where
  held := hext.inventory _ _ h.held
  pending sequence delta hpending := (h.pending sequence delta hpending).mono hext
  assembly a ha := by
    obtain ⟨held, hshows⟩ := h.assembly a ha
    exact ⟨held, hshows.mono hext⟩
  requires := h.requires

namespace Mirror.Moves

theorem refl (account : Account) (m : Mirror) : Moves account m m := ⟨rfl, rfl, rfl, le_rfl, id⟩

theorem trans (h : Moves account m m') (h' : Moves account m' m'') : Moves account m m'' where
  generation := h'.generation.trans h.generation
  generationEpoch := h'.generationEpoch.trans h.generationEpoch
  retiredGenerations := h'.retiredGenerations.trans h.retiredGenerations
  sequence := h.sequence.trans h'.sequence
  follows hm := h'.follows (h.follows hm)

/-- A rank that is marked keeps what it has. -/
theorem mark (account : Account) (m : Mirror) (requires : Bool) :
    Moves account m { m with requiresCheckpoint := requires, desynchronized := true } :=
  ⟨rfl, rfl, rfl, le_rfl, fun h => ⟨h.held, h.pending, h.assembly, fun _ => rfl⟩⟩

theorem clearCheckpoint (account : Account) (m : Mirror) : Moves account m { m with checkpoint := none } :=
  ⟨rfl, rfl, rfl, le_rfl, fun h => ⟨h.held, h.pending, nofun, h.requires⟩⟩

end Mirror.Moves

theorem Mirror.Follows.take {delta : Delta} (h : m.Follows account) (hnext : m.followingDelta = some delta) :
    Mirror.Follows account
      { m with
        held := m.held \ delta.removed ∪ delta.added
        pendingDeltas := m.pendingDeltas.erase (m.reportSequence + 1)
        reportSequence := m.reportSequence + 1 } := by
  unfold Mirror.followingDelta at hnext
  rw [Option.filter_eq_some_iff] at hnext
  have hbase : delta.baseSequence = m.reportSequence := of_decide_eq_true hnext.2
  obtain ⟨-, before, hbefore, hafter⟩ := h.pending _ _ hnext.1
  rw [hbase, h.held] at hbefore
  cases hbefore
  exact ⟨hafter, fun sequence delta hpending => h.pending sequence delta (AList.lookup_erase_some hpending).2,
    h.assembly, h.requires⟩

/-- The pages of an assembly that has as many digests as it should are the inventory. -/
theorem Shows.reconstructed {a : Assembly} {held : Finset Str}
    (h : Shows account a.stateSequence a.cycle a.count a.heldCount (fun i items => a.chunks.lookup i = some items) held)
    (hcard : a.reconstructed.card = a.heldCount) : a.reconstructed = held := by
  apply Finset.eq_of_subset_of_card_le
  · intro d hd
    simp only [Assembly.reconstructed, List.mem_toFinset, List.mem_flatMap] at hd
    obtain ⟨i, -, hmem⟩ := hd
    cases hlookup : a.chunks.lookup i with
    | none => simp [hlookup] at hmem
    | some items =>
        rw [hlookup, Option.getD_some, (h.chunks i items hlookup).2] at hmem
        exact (Finset.mem_sort _).mp ((page_sublist _ _ _).subset hmem)
  · rw [hcard, h.total]

end Truth

/-! ## Truthful messages keep the mirror right -/

theorem readCheckpoint_index {message : CheckpointMessage} {p : Page} (h : readCheckpoint message = some p) :
    p.index < p.count := by
  unfold readCheckpoint at h
  dsimp only at h
  split_ifs at h
  cases h
  dsimp only
  omega

namespace Scheduler
variable {s : Scheduler} {rank : ℕ} {account : Account}

theorem takeWorkerDeltas_moves (account : Account) (turns : ℕ) (s : Scheduler) :
    Mirror.Moves account (s.mirrors rank) ((takeWorkerDeltas rank turns s).mirrors rank) := by
  induction turns generalizing s with
  | zero => exact Mirror.Moves.refl account _
  | succ turns ih =>
      unfold takeWorkerDeltas
      split
      · exact Mirror.Moves.refl account _
      · rename_i delta hnext
        apply Mirror.Moves.trans _ (ih _)
        rw [takeWorkerDelta_self]
        exact ⟨rfl, rfl, rfl, Nat.le_succ _, fun h => h.take hnext⟩

theorem settleWorker_moves (account : Account) (s : Scheduler) :
    Mirror.Moves account (s.mirrors rank) ((s.settleWorker rank).mirrors rank) := by
  rw [settleWorker_self]
  refine ⟨rfl, rfl, rfl, le_rfl, fun h => ⟨h.held, h.pending, h.assembly, fun hrequires => ?_⟩⟩
  simp_all

theorem drainWorkerDeltas_moves (account : Account) (s : Scheduler) :
    Mirror.Moves account (s.mirrors rank) ((s.drainWorkerDeltas rank).mirrors rank) :=
  (takeWorkerDeltas_moves account _ s).trans (settleWorker_moves account _)

theorem requireCheckpoint_moves (account : Account) (s : Scheduler) :
    Mirror.Moves account (s.mirrors rank) ((s.requireCheckpoint rank).mirrors rank) := by
  rw [requireCheckpoint_self]
  exact Mirror.Moves.mark account _ true

theorem markWorkerDesynchronized_moves (account : Account) (s : Scheduler) :
    Mirror.Moves account (s.mirrors rank) ((s.markWorkerDesynchronized rank).mirrors rank) := by
  rw [markWorkerDesynchronized_self]
  exact Mirror.Moves.mark account _ _

theorem storeWorkerDelta_moves {sequence : ℕ} {delta : Delta} (h : delta.Tells account sequence) :
    Mirror.Moves account (s.mirrors rank) ((s.storeWorkerDelta rank sequence delta).mirrors rank) := by
  have hstored : Mirror.Moves account (s.mirrors rank)
      { s.mirrors rank with pendingDeltas := (s.mirrors rank).pendingDeltas.insert sequence delta } := by
    refine ⟨rfl, rfl, rfl, le_rfl, fun hm => ⟨hm.held, fun other pending hpending => ?_, hm.assembly, hm.requires⟩⟩
    rcases AList.lookup_insert_some hpending with ⟨rfl, rfl⟩ | ⟨-, hbefore⟩
    · exact h
    · exact hm.pending other pending hbefore
  apply Mirror.Moves.trans _ (drainWorkerDeltas_moves account _)
  split
  · rw [markWorkerDesynchronized_self, modify_self]
    exact hstored.trans (Mirror.Moves.mark account _ _)
  · rw [modify_self]
    exact hstored

theorem absorbWorkerDelta_moves {message : DeltaMessage} (h : message.Tells account) :
    Mirror.Moves account (s.mirrors rank) ((s.absorbWorkerDelta rank message).mirrors rank) := by
  unfold absorbWorkerDelta
  split
  · exact Mirror.Moves.refl account _
  · rename_i sequence delta hread
    have htells := h sequence delta hread
    dsimp only
    split
    · exact Mirror.Moves.refl account _
    · split
      · split
        · exact requireCheckpoint_moves account s
        · exact Mirror.Moves.refl account _
      · split
        · split
          · exact requireCheckpoint_moves account s
          · apply (requireCheckpoint_moves account s).trans
            refine Mirror.Moves.trans ?_ (storeWorkerDelta_moves htells)
            rw [modify_self]
            refine ⟨rfl, rfl, rfl, le_rfl, fun hm => ⟨hm.held, fun other pending hpending => ?_, hm.assembly, hm.requires⟩⟩
            exact hm.pending other pending (AList.lookup_erase_some hpending).2
        · exact storeWorkerDelta_moves htells

theorem restoreWorker_moves {sequence : ℕ} {held : Finset Str}
    (hheld : account.inventory sequence = some held) (hsequence : (s.mirrors rank).reportSequence ≤ sequence) :
    Mirror.Moves account (s.mirrors rank) ((s.restoreWorker rank sequence held).mirrors rank) := by
  refine Mirror.Moves.trans ?_ (drainWorkerDeltas_moves account _)
  simp only [modify_self, replaceWorkerHeld_self]
  refine ⟨rfl, rfl, rfl, hsequence, fun h => ⟨hheld, fun other pending hpending => ?_, nofun, fun _ => rfl⟩⟩
  exact h.pending other pending (AList.lookup_filter_some hpending)

/-- An assembly and a page of one key show the same inventory. -/
theorem addPage_moves {p : Page} {active : Assembly} (hactive : active.Tells account) (hpage : p.Tells account)
    (hsequence : active.stateSequence = p.stateSequence)
    (haccepted : (s.mirrors rank).reportSequence ≤ p.stateSequence) :
    Mirror.Moves account (s.mirrors rank) ((s.addPage rank p active).mirrors rank) := by
  obtain ⟨held, hshows⟩ := hactive
  obtain ⟨held', hpage⟩ := hpage
  have hsame : held' = held := by
    have hinventory := hpage.inventory
    rw [← hsequence, hshows.inventory] at hinventory
    exact (Option.some.inj hinventory).symm
  subst hsame
  have hassembly : ∀ extended : Assembly, extended.Tells account →
      Mirror.Moves account (s.mirrors rank) { s.mirrors rank with checkpoint := some extended } := by
    intro extended hextended
    refine ⟨rfl, rfl, rfl, le_rfl, fun h => ⟨h.held, h.pending, fun a ha => ?_, h.requires⟩⟩
    cases ha
    exact hextended
  have hextended : Shows account active.stateSequence active.cycle active.count active.heldCount
      (fun i items => (active.chunks.insert p.index p.held).lookup i = some items) held' := by
    refine ⟨hshows.inventory, hshows.recent, hshows.pages, hshows.total, fun i items hlookup => ?_⟩
    rcases AList.lookup_insert_some hlookup with ⟨rfl, rfl⟩ | ⟨-, hbefore⟩
    · rw [hshows.pages, ← hpage.pages]
      exact hpage.chunks p.index p.held ⟨rfl, rfl⟩
    · exact hshows.chunks i items hbefore
  unfold addPage
  dsimp only
  split
  · apply Mirror.Moves.trans _ (requireCheckpoint_moves account _)
    rw [modify_self]
    exact hassembly _ ⟨held', hshows⟩
  · rename_i hcounts
    split
    · apply Mirror.Moves.trans _ (requireCheckpoint_moves account _)
      rw [modify_self]
      exact hassembly _ ⟨held', hshows⟩
    · have hadded := hassembly { active with chunks := active.chunks.insert p.index p.held } ⟨held', hextended⟩
      split
      · rw [modify_self]
        exact hadded
      · split
        · apply Mirror.Moves.trans _ (requireCheckpoint_moves account _)
          rw [modify_self]
          exact hadded
        · rename_i hcard
          have hreconstructed := Shows.reconstructed hextended (by
            rw [not_not] at hcard
            rw [hcard, hpage.total, hshows.total])
          rw [hreconstructed]
          refine Mirror.Moves.trans ?_ (restoreWorker_moves hpage.inventory ?_)
          · rw [modify_self]
            exact hadded
          · rw [modify_self]
            exact haccepted

theorem assembly_tells {p : Page} (hpage : p.Tells account) {checkpoint : Option Assembly}
    (hcheckpoint : ∀ a, checkpoint = some a → a.Tells account)
    (hnewer : checkpoint.any (·.newer p) = false) :
    (p.assembly checkpoint).Tells account ∧ (p.assembly checkpoint).stateSequence = p.stateSequence ∧
      (p.assembly checkpoint).cycle = p.cycle := by
  have hbegin : p.begin.Tells account := by
    obtain ⟨held, h⟩ := hpage
    refine ⟨held, h.inventory, h.recent, h.pages, h.total, fun i items hlookup => ?_⟩
    cases hlookup
  cases checkpoint with
  | none => exact ⟨hbegin, rfl, rfl⟩
  | some active =>
      unfold Page.assembly
      dsimp only
      split
      · exact ⟨hbegin, rfl, rfl⟩
      · rename_i holder
        refine ⟨hcheckpoint active rfl, ?_⟩
        simp only [Option.any_some, Assembly.newer, Assembly.older, decide_eq_true_eq,
          decide_eq_false_iff_not] at hnewer holder
        omega

theorem absorbWorkerCheckpoint_moves {message : CheckpointMessage} (h : message.Tells account)
    (hfollows : (s.mirrors rank).Follows account) :
    Mirror.Moves account (s.mirrors rank) ((s.absorbWorkerCheckpoint rank message).mirrors rank) := by
  unfold absorbWorkerCheckpoint
  split
  · exact Mirror.Moves.refl account _
  · rename_i p hread
    have hpage := h p hread
    dsimp only
    split
    · exact Mirror.Moves.refl account _
    · rename_i haccepted
      split
      · rw [modify_self]
        exact Mirror.Moves.clearCheckpoint account _
      · have hmarked : ∀ t, t = (if (s.mirrors rank).reportSequence < p.stateSequence then
            s.markWorkerDesynchronized rank else s) →
            Mirror.Moves account (s.mirrors rank) (t.mirrors rank) ∧
              (t.mirrors rank).reportSequence = (s.mirrors rank).reportSequence := by
          intro t ht
          split at ht
          · subst ht
            exact ⟨markWorkerDesynchronized_moves account s, by rw [markWorkerDesynchronized_self]⟩
          · subst ht
            exact ⟨Mirror.Moves.refl account _, rfl⟩
        generalize hmark : (if (s.mirrors rank).reportSequence < p.stateSequence then
            s.markWorkerDesynchronized rank else s) = marked
        obtain ⟨hmoves, hsame⟩ := hmarked marked hmark.symm
        split
        · exact hmoves
        · rename_i hnewer
          obtain ⟨hassembly, hsequence, -⟩ := assembly_tells hpage hfollows.assembly (by simpa using hnewer)
          apply hmoves.trans
          apply addPage_moves hassembly hpage hsequence
          omega

end Scheduler

end SparkCache.Quorum
