import SparkCache.Quorum.Following

/-!
# Workers tell the truth

A worker gives each inventory that it observes a sequence number. Every delta
and every page that it reports is true of the inventories of these numbers, as
long as no handshake has announced another inventory for the next number.
-/
namespace SparkCache.Quorum
open Paging

namespace Account
variable {account : Account} {sequence cycle : ℕ} {held : Finset Str}

/-- A generation that has said nothing. -/
def unused : Account := ⟨fun _ => none, 0⟩

/-- A generation starts from the empty inventory. -/
def start : Account := ⟨Function.update (fun _ => none) 0 (some ∅), 1⟩

/-- A sequence number is given to an inventory. -/
def record (account : Account) (sequence : ℕ) (held : Finset Str) (cycle : ℕ) : Account :=
  ⟨Function.update account.inventory sequence (some held), cycle⟩

/-- No other inventory has the sequence number. -/
def Admits (account : Account) (sequence : ℕ) (held : Finset Str) : Prop :=
  ∀ other, account.inventory sequence = some other → other = held

instance (account : Account) (sequence : ℕ) (held : Finset Str) : Decidable (account.Admits sequence held) :=
  decidable_of_iff ((account.inventory sequence).all (· = held) = true) (by
    cases h : account.inventory sequence <;> simp [Admits, h])

@[simp] theorem record_self : (account.record sequence held cycle).inventory sequence = some held := by
  simp [record]

theorem record_of_ne {other : ℕ} (h : other ≠ sequence) :
    (account.record sequence held cycle).inventory other = account.inventory other := by
  simp [record, h]

theorem record_extends (h : account.Admits sequence held) (hcycle : account.cycle ≤ cycle) :
    account.Extends (account.record sequence held cycle) where
  inventory other before hbefore := by
    by_cases hother : other = sequence
    · subst hother
      rw [record_self, h before hbefore]
    · rw [record_of_ne hother, hbefore]
  cycle := hcycle

theorem unused_extends (later : Account) : unused.Extends later :=
  ⟨nofun, Nat.zero_le _⟩

end Account

theorem readDigests_eq_some {digests : List Str} {held : Finset Str} (h : readDigests digests = some held) :
    held = digests.toFinset := by
  unfold readDigests at h
  split_ifs at h
  exact (Option.some.inj h).symm

/-- A sorted delta between two inventories leads from the one to the other. -/
theorem readDelta_sorted {base sequence : ℕ} {before after : Finset Str} {delta : Delta}
    (h : readDelta ⟨base + 1, base, (after \ before).sort, (before \ after).sort⟩ = some (sequence, delta)) :
    sequence = base + 1 ∧ delta.baseSequence = base ∧ before \ delta.removed ∪ delta.added = after := by
  unfold readDelta at h
  dsimp only at h
  split at h
  · cases h
  · split at h
    · rename_i added removed hadded hremoved
      split_ifs at h
      cases h
      rw [readDigests_eq_some hadded, readDigests_eq_some hremoved, Finset.sort_toFinset, Finset.sort_toFinset]
      refine ⟨by omega, Int.toNat_natCast base, ?_⟩
      ext d
      simp only [Finset.mem_union, Finset.mem_sdiff]
      tauto
    · cases h

/-- What the checks leave of the numbers in a checkpoint. -/
theorem readCheckpoint_spec {message : CheckpointMessage} {p : Page} (h : readCheckpoint message = some p) :
    p.stateSequence = message.stateSequence.toNat ∧ p.cycle = message.cycle.toNat ∧
      p.index = message.index.toNat ∧ p.heldCount = message.heldCount.toNat ∧
      p.count = pageCount reportBatchSize p.heldCount ∧ p.held = message.held := by
  unfold readCheckpoint at h
  dsimp only at h
  split_ifs at h with _ hcounts
  cases h
  simp only [not_or, not_not] at hcounts
  exact ⟨rfl, rfl, rfl, rfl, by rw [hcounts.1, Int.toNat_natCast], rfl⟩

/-- A page of a sorted inventory is true of it. -/
theorem tells_page {account : Account} {sequence cycle : ℕ} {held : Finset Str} {message : CheckpointMessage} (index : ℕ)
    (hinventory : account.inventory sequence = some held) (hcycle : cycle ≤ account.cycle)
    (hmessage : message.stateSequence = sequence ∧ message.cycle = cycle ∧ message.index = index ∧
      message.heldCount = held.card ∧ message.held = page reportBatchSize held.sort index) :
    message.Tells account := by
  intro p hread
  obtain ⟨hsequence, hcycle', hindex, htotal, hpages, hheld⟩ := readCheckpoint_spec hread
  have hlt := readCheckpoint_index hread
  obtain ⟨h₁, h₂, h₃, h₄, h₅⟩ := hmessage
  rw [h₁, Int.toNat_natCast] at hsequence
  rw [h₂, Int.toNat_natCast] at hcycle'
  rw [h₃, Int.toNat_natCast] at hindex
  rw [h₄, Int.toNat_natCast] at htotal
  refine ⟨held, by rw [hsequence, hinventory], by omega, by rw [hpages, htotal], htotal, ?_⟩
  rintro i items ⟨rfl, rfl⟩
  exact ⟨hlt, by rw [hheld, h₅, hindex]⟩

namespace StatsReporter
variable {w : StatsReporter} {account : Account}

/-- The account of a worker is true of what it has observed and will report. -/
structure Speaks (account : Account) (w : StatsReporter) : Prop where
  start : account.inventory 0 = some ∅
  started : 0 < account.cycle
  observed : account.inventory w.sequence = some w.observedHeld
  cycle : account.cycle = w.checkpointCycle
  checkpoint : w.checkpointSequence = w.sequence ∧ w.checkpointItems = w.observedHeld.sort
  index : w.checkpointIndex < w.checkpointCount
  deltas : ∀ delta ∈ w.deltaHistory, delta.Tells account
  object : ∀ object, w.observedInventory = some object → object ≤ w.heldObject
  revision : w.observedInventory = some w.heldObject → w.observedRevision ≤ w.held.revision
  unchanged : w.observedInventory = some w.heldObject → w.observedRevision = w.held.revision →
    w.held.values = w.observedHeld

/-- A worker keeps its rank and its generation. -/
structure Same (w w' : StatsReporter) : Prop where
  rank : w'.rank = w.rank
  generation : w'.generation = w.generation
  generationEpoch : w'.generationEpoch = w.generationEpoch

theorem new_speaks (rank : ℕ) (generation : Str) (generationEpoch : ℕ) (held : Finset Str) :
    (new rank generation generationEpoch held).Speaks .start where
  start := by simp [Account.start]
  started := Nat.zero_lt_one
  observed := by simp [Account.start, new]
  cycle := rfl
  checkpoint := ⟨rfl, by simp [new]⟩
  index := pageCount_pos _ _
  deltas := nofun
  object := nofun
  revision := nofun
  unchanged := nofun

theorem Speaks.mutate (h : w.Speaks account) (mutation : Mutation) : (w.mutate mutation).Speaks account := by
  obtain hlater | ⟨hsame, hvalues⟩ := HeldInventory.mutate_tracks w.held mutation
  · refine ⟨h.start, h.started, h.observed, h.cycle, h.checkpoint, h.index, h.deltas, h.object, fun hobject => ?_,
      fun hobject hrevision => ?_⟩
    · have := h.revision hobject
      dsimp only [StatsReporter.mutate]
      omega
    · have := h.revision hobject
      dsimp only [StatsReporter.mutate] at hrevision
      omega
  · refine ⟨h.start, h.started, h.observed, h.cycle, h.checkpoint, h.index, h.deltas, h.object, fun hobject => ?_,
      fun hobject hrevision => ?_⟩
    · dsimp only [StatsReporter.mutate]
      rw [hsame]
      exact h.revision hobject
    · dsimp only [StatsReporter.mutate] at hrevision ⊢
      rw [hsame] at hrevision
      rw [hvalues]
      exact h.unchanged hobject hrevision

theorem Speaks.replace (h : w.Speaks account) (values : Finset Str) : (w.replace values).Speaks account := by
  have hnew : w.observedInventory ≠ some (w.heldObject + 1) := by
    intro hobject
    have := h.object _ hobject
    omega
  exact ⟨h.start, h.started, h.observed, h.cycle, h.checkpoint, h.index, h.deltas,
    fun object hobject => (h.object object hobject).trans (Nat.le_succ _),
    fun hobject => absurd hobject hnew, fun hobject => absurd hobject hnew⟩

/-! ## Observing -/

theorem remember_eq (w : StatsReporter) (delta : DeltaMessage) :
    w.remember delta = { w with
      deltaHistory := (w.remember delta).deltaHistory
      deltaCursor := (w.remember delta).deltaCursor } := by
  unfold remember
  split <;> rfl

theorem mem_remember {delta other : DeltaMessage} (h : other ∈ (w.remember delta).deltaHistory) :
    other = delta ∨ other ∈ w.deltaHistory := by
  unfold remember at h
  split at h
  · rcases List.mem_append.mp (List.mem_of_mem_drop h) with hold | hnew
    · exact Or.inr hold
    · exact Or.inl (List.mem_singleton.mp hnew)
  · exact Or.inr h

theorem observe_same (w : StatsReporter) : w.Same w.observe := by
  unfold observe
  split
  · by_cases hnew : w.held.values ≠ w.observedHeld
    · simp only [if_pos hnew, advance]
      rw [remember_eq]
      exact ⟨rfl, rfl, rfl⟩
    · simp only [if_neg hnew]
      exact ⟨rfl, rfl, rfl⟩
  · exact ⟨rfl, rfl, rfl⟩

/-- A worker that has observed its inventory. -/
structure Observes (w w' : StatsReporter) : Prop extends Same w w' where
  held : w'.held = w.held
  heldObject : w'.heldObject = w.heldObject
  observedHeld : w'.observedHeld = w.held.values
  observed : w'.observedInventory = some w.heldObject ∧ w'.observedRevision = w.held.revision

theorem Speaks.observe_observes (h : w.Speaks account) : w.Observes w.observe := by
  unfold observe
  by_cases hchanged : w.observedInventory ≠ some w.heldObject ∨ w.observedRevision ≠ w.held.revision
  · rw [if_pos hchanged]
    by_cases hnew : w.held.values ≠ w.observedHeld
    · simp only [if_pos hnew, advance]
      rw [remember_eq]
      exact ⟨⟨rfl, rfl, rfl⟩, rfl, rfl, rfl, rfl, rfl⟩
    · simp only [if_neg hnew]
      exact ⟨⟨rfl, rfl, rfl⟩, rfl, rfl, (not_not.mp hnew).symm, rfl, rfl⟩
  · rw [if_neg hchanged]
    simp only [not_or, not_not] at hchanged
    exact ⟨⟨rfl, rfl, rfl⟩, rfl, rfl, (h.unchanged hchanged.1 hchanged.2).symm, hchanged⟩

/-- An inventory that was observed before keeps its sequence number. -/
theorem observe_known (hknown : w.held.values = w.observedHeld) :
    w.observe = { w with
      observedInventory := some w.heldObject
      observedRevision := w.held.revision } := by
  unfold observe
  split
  · simp [hknown]
  · rename_i hchanged
    simp only [not_or, not_not] at hchanged
    rw [← hchanged.1, ← hchanged.2]

/-- A new inventory gets the next sequence number. -/
theorem Speaks.observe_new (h : w.Speaks account) (hnew : w.held.values ≠ w.observedHeld) :
    w.observe = { w.advance w.held.values with
      observedInventory := some w.heldObject
      observedRevision := w.held.revision } := by
  unfold observe
  split
  · rfl
  · rename_i hchanged
    simp only [not_or, not_not] at hchanged
    exact absurd (h.unchanged hchanged.1 hchanged.2) hnew

theorem Speaks.observe_cycle (h : w.Speaks account) : account.cycle ≤ w.observe.checkpointCycle := by
  have hcycle := h.cycle
  by_cases hknown : w.held.values = w.observedHeld
  · rw [observe_known hknown]
    exact hcycle.le
  · rw [h.observe_new hknown]
    dsimp only [advance]
    omega

theorem Speaks.observe (h : w.Speaks account) (hadmits : account.Admits w.observe.sequence w.held.values) :
    w.observe.Speaks (account.record w.observe.sequence w.held.values w.observe.checkpointCycle) := by
  have hobserves := h.observe_observes
  by_cases hknown : w.held.values = w.observedHeld
  · have heq := observe_known hknown
    rw [heq] at hadmits ⊢
    have hcycle : account.cycle ≤ w.checkpointCycle := h.cycle.le
    have hext := Account.record_extends hadmits hcycle
    refine ⟨hext.inventory _ _ h.start, h.started.trans_le hext.cycle, hext.inventory _ _ h.observed, rfl, h.checkpoint, h.index,
      fun delta hdelta => (h.deltas delta hdelta).mono hext, ?_, fun _ => le_rfl, fun _ _ => hknown⟩
    intro object hobject
    cases hobject
    exact le_rfl
  · have heq := h.observe_new hknown
    have hsequence : w.observe.sequence = w.sequence + 1 := by
      rw [heq]
      rfl
    have hcycle : w.observe.checkpointCycle = w.checkpointCycle + 1 := by
      rw [heq]
      simp only [advance]
    rw [hsequence] at hadmits
    rw [hsequence, hcycle]
    have hext : account.Extends (account.record (w.sequence + 1) w.held.values (w.checkpointCycle + 1)) :=
      Account.record_extends hadmits (by rw [h.cycle]; exact Nat.le_succ _)
    constructor
    · exact hext.inventory _ _ h.start
    · exact h.started.trans_le hext.cycle
    · rw [hsequence, hobserves.observedHeld, Account.record_self]
    · rw [hcycle]
      rfl
    · rw [hobserves.observedHeld, hsequence, heq]
      exact ⟨rfl, rfl⟩
    · rw [heq]
      exact pageCount_pos _ _
    · intro delta hdelta
      rw [heq] at hdelta
      rcases mem_remember hdelta with rfl | hold
      · intro sequence delta hread
        obtain ⟨rfl, hbase, hafter⟩ := readDelta_sorted hread
        refine ⟨by rw [hbase], w.observedHeld, ?_, ?_⟩
        · rw [hbase]
          exact hext.inventory _ _ h.observed
        · rw [hafter, Account.record_self]
      · exact (h.deltas delta hold).mono hext
    · intro object hobject
      rw [hobserves.observed.1] at hobject
      cases hobject
      rw [hobserves.heldObject]
    · intro _
      rw [hobserves.observed.2, hobserves.held]
    · intro _ _
      rw [hobserves.held, hobserves.observedHeld]

/-! ## Reporting -/

theorem nextPage_same (w : StatsReporter) : w.Same w.nextPage := by
  unfold nextPage
  split <;> exact ⟨rfl, rfl, rfl⟩

theorem Speaks.nextPage (h : w.Speaks account) :
    w.nextPage.Speaks { account with cycle := w.nextPage.checkpointCycle } ∧
      account.cycle ≤ w.nextPage.checkpointCycle := by
  have hcycle := h.cycle
  unfold StatsReporter.nextPage
  by_cases hlast : w.checkpointCount ≤ w.checkpointIndex + 1
  · rw [if_pos hlast]
    refine ⟨⟨h.start, Nat.succ_pos _, h.observed, rfl, h.checkpoint, pageCount_pos _ _, fun delta hdelta => ?_, h.object, h.revision,
      h.unchanged⟩, ?_⟩
    · exact (h.deltas delta hdelta).mono ⟨fun _ _ => id, by dsimp only; omega⟩
    · dsimp only
      omega
  · rw [if_neg hlast]
    refine ⟨⟨h.start, hcycle ▸ h.started, h.observed, rfl, h.checkpoint, ?_, fun delta hdelta => ?_, h.object, h.revision,
      h.unchanged⟩, hcycle.le⟩
    · dsimp only [checkpointCount] at hlast ⊢
      omega
    · exact (h.deltas delta hdelta).mono ⟨fun _ _ => id, hcycle.le⟩

theorem nextDelta_eq (w : StatsReporter) : w.nextDelta = { w with deltaCursor := w.nextDelta.deltaCursor } := by
  unfold nextDelta
  split <;> rfl

theorem nextDelta_same (w : StatsReporter) : w.Same w.nextDelta := by
  rw [nextDelta_eq]
  exact ⟨rfl, rfl, rfl⟩

theorem Same.trans {w w' w'' : StatsReporter} (h : w.Same w') (h' : w'.Same w'') : w.Same w'' :=
  ⟨h'.rank.trans h.rank, h'.generation.trans h.generation, h'.generationEpoch.trans h.generationEpoch⟩

theorem Speaks.nextDelta (h : w.Speaks account) : w.nextDelta.Speaks account := by
  rw [nextDelta_eq]
  exact ⟨h.start, h.started, h.observed, h.cycle, h.checkpoint, h.index, h.deltas, h.object, h.revision, h.unchanged⟩

/-- The delta and the page of a report are true. -/
theorem Speaks.report_tells (h : w.Speaks account) :
    (∀ delta, w.currentDelta = some delta → delta.Tells account) ∧ w.checkpoint.Tells account := by
  constructor
  · intro delta hdelta
    exact h.deltas delta (List.mem_of_getElem? hdelta)
  · apply tells_page w.checkpointIndex h.observed h.cycle.ge
    obtain ⟨hsequence, hitems⟩ := h.checkpoint
    refine ⟨?_, rfl, rfl, ?_, ?_⟩ <;> dsimp only [StatsReporter.checkpoint]
    · rw [hsequence]
    · rw [hitems, Finset.length_sort]
    · rw [hitems]

theorem handshakeHeld_eq (w : StatsReporter) : w.handshakeHeld = (startupPart w.held.values).sort := by
  have hsub := List.take_sublist startupHandshakeMaxDigests w.held.values.sort
  symm
  apply (List.toFinset_sort (· ≤ ·) (hsub.nodup (Finset.sort_nodup _ _))).mpr
  exact (Finset.pairwise_sort w.held.values (· ≤ ·)).sublist hsub

theorem startupPart_subset (held : Finset Str) : startupPart held ⊆ held := by
  intro d hd
  exact (Finset.mem_sort (· ≤ ·)).mp (List.mem_of_mem_take (List.mem_toFinset.mp hd))

theorem startupPart_of_card_le {held : Finset Str} (h : held.card ≤ startupHandshakeMaxDigests) :
    startupPart held = held := by
  rw [startupPart, List.take_of_length_le (by rw [Finset.length_sort]; exact h), Finset.sort_toFinset]

/-- The pages of a handshake are true of what it carries. -/
theorem handshakePage_tells (index : ℕ) (hcycle : w.checkpointCycle ≤ account.cycle)
    (hinventory : account.inventory (w.sequence + if w.stale then 1 else 0) = some (startupPart w.held.values)) :
    (w.handshakePage index).Tells account := by
  apply tells_page index hinventory hcycle
  refine ⟨?_, rfl, rfl, ?_, ?_⟩
  · simp only [handshakePage]
    split <;> simp_all
  · simp only [handshakePage, handshakeHeld_eq, Finset.length_sort]
  · simp only [handshakePage, handshakeHeld_eq]

end StatsReporter

end SparkCache.Quorum
