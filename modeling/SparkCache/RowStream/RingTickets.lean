import SparkCache.RowStream.NativeRing

/-!
# Tickets and slots

The phase of every ticket follows the slot that it was given, and no view is refused, as long as no
abandoned writer is polled, no slot is taken while an abandoned ticket of it is tracked, and every
physical slot of a submission is a row of every source.
-/
namespace SparkCache.RowStream
open Store
open Pages (bind_eq_ok)

/-! ## The layout of both sides -/

theorem alignUp_eq (value : ℕ) : alignUp value 64 = (value + 63) / 64 * 64 := by
  unfold alignUp
  split <;> omega

/-- The mask of the kinds that have layers. -/
def maskOf (widths : List (ℕ × ℕ)) (mask kind : ℕ) : ℕ :=
  if layerCount widths kind = 0 then mask else mask ||| 1 <<< kind

/-- Laying out a record gives what the owner expects of it, and ends within the slot. -/
theorem layOutRecord_spec {widths : List (ℕ × ℕ)} {rowCount slotBytes kind : ℕ} {layout layout' : PayloadLayout}
    (h : layOutRecord widths rowCount slotBytes layout kind = .ok layout') (hfits : layout.usedBytes ≤ slotBytes) :
    (layout'.recordOffset, layout'.recordLength, layout'.usedBytes) =
        layOutKind widths rowCount (layout.recordOffset, layout.recordLength, layout.usedBytes) kind ∧
      layout'.recordMask = maskOf widths layout.recordMask kind ∧ layout'.usedBytes ≤ slotBytes ∧
      layout.usedBytes ≤ layout'.usedBytes ∧
      rowCount * layerWidth widths kind * layerCount widths kind ≤ layout'.usedBytes := by
  unfold layOutRecord at h
  unfold layOutKind maskOf
  split at h
  · rename_i hnone
    cases h
    rw [if_pos hnone, if_pos hnone, hnone, Nat.mul_zero]
    exact ⟨rfl, rfl, hfits, Nat.le_refl _, Nat.zero_le _⟩
  · rename_i hsome
    simp only [bind_eq_ok, require_eq_ok, pure, Except.pure, Except.ok.injEq] at h
    obtain ⟨_, -, _, -, _, ⟨-, hend⟩, rfl⟩ := h
    rw [if_neg hsome, if_neg hsome]
    dsimp only at hend ⊢
    have haligned := alignUp_eq layout.usedBytes
    refine ⟨by rw [haligned], rfl, hend, ?_, Nat.le_add_left _ _⟩
    omega

/-- The same, for several records one after the other. -/
theorem layOutRecords_spec {widths : List (ℕ × ℕ)} {rowCount slotBytes : ℕ} (kinds : List ℕ) :
    ∀ {layout layout' : PayloadLayout}, kinds.foldlM (layOutRecord widths rowCount slotBytes) layout = .ok layout' →
      layout.usedBytes ≤ slotBytes →
      (layout'.recordOffset, layout'.recordLength, layout'.usedBytes) =
          kinds.foldl (layOutKind widths rowCount) (layout.recordOffset, layout.recordLength, layout.usedBytes) ∧
        layout'.recordMask = kinds.foldl (maskOf widths) layout.recordMask ∧ layout'.usedBytes ≤ slotBytes ∧
        layout.usedBytes ≤ layout'.usedBytes ∧
        ∀ kind ∈ kinds, rowCount * layerWidth widths kind * layerCount widths kind ≤ layout'.usedBytes := by
  induction kinds with
  | nil =>
      intro layout layout' h hfits
      cases h
      exact ⟨rfl, rfl, hfits, Nat.le_refl _, fun _ hkind => absurd hkind List.not_mem_nil⟩
  | cons kind rest ih =>
      intro layout layout' h hfits
      rw [List.foldlM_cons] at h
      obtain ⟨middle, hmiddle, hrest⟩ := bind_eq_ok.mp h
      obtain ⟨hsame, hmask, hends, hgrows, hrecord⟩ := layOutRecord_spec hmiddle hfits
      obtain ⟨hsame', hmask', hends', hgrows', hrecords⟩ := ih hrest hends
      refine ⟨?_, ?_, hends', hgrows.trans hgrows', fun other hother => ?_⟩
      · rw [hsame', hsame, List.foldl_cons]
      · rw [hmask', hmask, List.foldl_cons]
      · obtain rfl | hlater := List.mem_cons.mp hother
        · exact hrecord.trans hgrows'
        · exact hrecords other hlater

theorem layerCount_eq_zero {sources : List SnapshotSource} {kind : ℕ} :
    layerCount (sourceWidths sources) kind = 0 ↔ kind ∉ sources.map SnapshotSource.recordKind := by
  rw [layerCount, List.length_eq_zero_iff, List.filter_eq_nil_iff]
  simp [sourceWidths]

theorem check_spec {s : SnapshotSource} (h : s.check = .ok ()) :
    s.sourceBase ≠ 0 ∧ s.sourceRows ≠ 0 ∧ s.bytesPerToken ≠ 0 ∧ s.bytesPerToken ≤ s.sourceRowStrideBytes ∧
      s.recordKind < maxRecordKinds := by
  simp only [SnapshotSource.check, bind_eq_ok, require_eq_ok] at h
  obtain ⟨_, hbase, _, hrows, _, -, _, -, _, -, _, -, _, hwidth, _, hstride, hkind⟩ := h
  exact ⟨by omega, by omega, hwidth, hstride, hkind⟩

theorem foldl_maskOf {sources : List SnapshotSource} (hkinds : ∀ s ∈ sources, s.recordKind < maxRecordKinds) :
    (List.range maxRecordKinds).foldl (maskOf (sourceWidths sources)) 0 = expectedRecordMask sources := by
  have hkinds' : (sources.map SnapshotSource.recordKind).toFinset ⊆ Finset.range maxRecordKinds := by
    intro kind hkind
    obtain ⟨s, hs, rfl⟩ := List.mem_map.mp (List.mem_toFinset.mp hkind)
    exact Finset.mem_range.mpr (hkinds s hs)
  have hsum : expectedRecordMask sources = ∑ kind ∈ Finset.range maxRecordKinds,
      if kind ∈ sources.map SnapshotSource.recordKind then 1 <<< kind else 0 := by
    rw [expectedRecordMask, ← Finset.sum_filter]
    refine Finset.sum_congr ?_ fun _ _ => rfl
    ext kind
    rw [Finset.mem_filter, List.mem_toFinset]
    exact ⟨fun hkind => ⟨hkinds' (List.mem_toFinset.mpr hkind), hkind⟩, fun hkind => hkind.2⟩
  have hmask : ∀ mask kind, maskOf (sourceWidths sources) mask kind =
      if kind ∈ sources.map SnapshotSource.recordKind then mask ||| 1 <<< kind else mask := by
    intro mask kind
    unfold maskOf
    by_cases hkind : kind ∈ sources.map SnapshotSource.recordKind
    · rw [if_neg (fun hnone => layerCount_eq_zero.mp hnone hkind), if_pos hkind]
    · rw [if_pos (layerCount_eq_zero.mpr hkind), if_neg hkind]
  rw [hsum]
  simp only [maxRecordKinds, List.range_succ, List.range_zero, List.nil_append, List.foldl_append, List.foldl_cons,
    List.foldl_nil, hmask, Finset.sum_range_succ, Finset.sum_range_zero]
  by_cases h0 : 0 ∈ sources.map SnapshotSource.recordKind <;> by_cases h1 : 1 ∈ sources.map SnapshotSource.recordKind <;>
    by_cases h2 : 2 ∈ sources.map SnapshotSource.recordKind <;>
    by_cases h3 : 3 ∈ sources.map SnapshotSource.recordKind <;>
    simp only [if_pos, h0, h1, h2, h3] <;> rfl

theorem layerWidth_pos {sources : List SnapshotSource} {s : SnapshotSource} (hs : s ∈ sources)
    (hwidths : ∀ s ∈ sources, s.bytesPerToken ≠ 0) :
    0 < layerWidth (sourceWidths sources) s.recordKind ∧ 0 < layerCount (sourceWidths sources) s.recordKind := by
  have hmem : (s.recordKind, s.bytesPerToken) ∈ (sourceWidths sources).filter fun w => w.1 = s.recordKind := by
    rw [List.mem_filter]
    exact ⟨List.mem_map_of_mem hs, decide_eq_true rfl⟩
  have hne := List.ne_nil_of_mem hmem
  refine ⟨?_, List.length_pos_of_ne_nil hne⟩
  rw [layerWidth, List.getLast?_eq_some_getLast hne]
  have hlast := (List.mem_filter.mp (List.getLast_mem hne)).1
  obtain ⟨other, hother, heq⟩ := List.mem_map.mp hlast
  rw [Option.map_some, Option.getD_some, ← heq]
  exact Nat.pos_of_ne_zero (hwidths other hother)

variable {config : NativeRingConfig} {inventory : SourceInventory config}

/-- A layout of the native side is the one that the owner expects. -/
theorem SourceInventory.layout_eq (inventory : SourceInventory config) {rowCount : ℕ} {layout : PayloadLayout}
    (h : calculatePayloadLayout inventory.sources rowCount config.slotBytes = .ok layout) :
    layoutForRows inventory.sources rowCount = (layout.recordOffset, layout.recordLength, layout.usedBytes) ∧
      layout.recordMask = expectedRecordMask inventory.sources ∧ layout.usedBytes ≤ config.slotBytes ∧
      layout.usedBytes ≠ 0 := by
  unfold calculatePayloadLayout at h
  simp only [bind_eq_ok, require_eq_ok] at h
  obtain ⟨_, ⟨hrows, -⟩, _, hsources, _, -, _, -, hfold⟩ := h
  have hchecked := fun s hs => check_spec (inventory.checked s hs)
  obtain ⟨hsame, hmask, hends, -, hrecords⟩ := layOutRecords_spec _ hfold (Nat.zero_le _)
  refine ⟨hsame.symm, ?_, hends, ?_⟩
  · rw [hmask]
    exact foldl_maskOf fun s hs => (hchecked s hs).2.2.2.2
  · obtain ⟨s, hs⟩ := List.exists_mem_of_ne_nil _ hsources
    obtain ⟨hwidth, hcount⟩ := layerWidth_pos hs fun s hs => (hchecked s hs).2.2.1
    have hrecord := hrecords s.recordKind (List.mem_range.mpr (hchecked s hs).2.2.2.2)
    have hpositive := Nat.mul_pos (Nat.mul_pos (Nat.pos_of_ne_zero hrows) hwidth) hcount
    omega

/-- The view of the gather of a submission, in the state of its slot. -/
structure Views (inventory : SourceInventory config) (t : SnapshotTicket) (view : RawReadyView) : Prop where
  layout : ∃ layout, calculatePayloadLayout inventory.sources t.rowCount config.slotBytes = .ok layout ∧
    view.usedBytes = layout.usedBytes ∧ view.recordMask = layout.recordMask ∧
    view.recordOffsets = perKind layout.recordOffset ∧ view.recordLengths = perKind layout.recordLength
  capacity : view.capacityBytes = config.slotBytes
  ticket : view.generation = t.generation ∧ view.slotIndex = t.slotIndex ∧ view.contextSequence = t.contextSequence ∧
    view.logicalStart = t.logicalStart ∧ view.rowCount = t.rowCount

/-- The owner finds nothing wrong with such a view. -/
theorem Views.viewError_eq {t : SnapshotTicket} {view : RawReadyView} (h : Views inventory t view) {state : SlotState}
    (hstate : view.state = state) : NativeSnapshotRing.viewError inventory t view state = none := by
  obtain ⟨⟨layout, hlayout, hused, hmask, hoffsets, hlengths⟩, hcapacity, hgeneration, hslot, hcontext, hstart, hrows⟩ := h
  obtain ⟨hsame, hexpected, hends, hpositive⟩ := inventory.layout_eq hlayout
  unfold NativeSnapshotRing.viewError
  dsimp only
  rw [hsame, hused, hmask, hexpected, hoffsets, hlengths, hcapacity, hgeneration, hslot, hcontext, hstart, hrows, hstate]
  simp [perKind, hpositive, Nat.not_lt.mpr hends]

/-! ## Slots -/

/-- What the state of a slot is for a ticket in a phase. -/
def TicketPhase.Matches (phase : TicketPhase) (slot : Slot) : Prop :=
  match phase with
  | .submitted => (slot.state = .gpuFilling ∨ slot.state = .ready) ∧ slot.discard = false
  | .ready => slot.state = .ready ∧ slot.discard = false
  | .claimed => slot.state = .writing ∧ slot.discard = false
  | .abandonedSubmitted => slot.state = .gpuFilling ∧ slot.discard = true
  | .abandonedClaimed => slot.state = .writing ∧ slot.discard = true

/-- How a ticket fits the slots. Only the slot of an abandoned gather may have been settled, and then
given to another submission. -/
structure Fits (inventory : SourceInventory config) (h : SnapshotHandle) (owned : OwnedTicket) : Prop where
  live : owned.phase ≠ .abandonedSubmitted → h.ring.Resolves owned.ticket.raw
  phase : h.ring.Resolves owned.ticket.raw → owned.phase.Matches (h.ring.slots owned.ticket.slotIndex)
  own : h.ring.Resolves owned.ticket.raw →
    (h.ring.slots owned.ticket.slotIndex).contextSequence = owned.ticket.contextSequence ∧
      h.submission owned.ticket.slotIndex = owned.ticket.identity ∧
      Views inventory owned.ticket (h.views owned.ticket.slotIndex)

variable {h h' settled : SnapshotHandle} {owned : OwnedTicket} {t : RawTicket}

/-- A ticket resolves as before, to the same slot. -/
structure Keeps (h h' : SnapshotHandle) (t : RawTicket) : Prop where
  resolves : h'.ring.Resolves t ↔ h.ring.Resolves t
  slot : h.ring.Resolves t → h'.ring.slots t.slotIndex = h.ring.slots t.slotIndex ∧
    h'.views t.slotIndex = h.views t.slotIndex ∧ h'.submission t.slotIndex = h.submission t.slotIndex

theorem Keeps.refl (h : SnapshotHandle) (t : RawTicket) : Keeps h h t := ⟨Iff.rfl, fun _ => ⟨rfl, rfl, rfl⟩⟩

theorem Keeps.trans {h'' : SnapshotHandle} (hfirst : Keeps h h' t) (hsecond : Keeps h' h'' t) : Keeps h h'' t := by
  refine ⟨hsecond.resolves.trans hfirst.resolves, fun hresolves => ?_⟩
  obtain ⟨hslot, hview, hsubmission⟩ := hfirst.slot hresolves
  obtain ⟨hslot', hview', hsubmission'⟩ := hsecond.slot (hfirst.resolves.mpr hresolves)
  exact ⟨hslot'.trans hslot, hview'.trans hview, hsubmission'.trans hsubmission⟩

theorem Fits.keeps (hfits : Fits inventory h owned) (hkeeps : Keeps h h' owned.ticket.raw) : Fits inventory h' owned := by
  refine ⟨fun hphase => hkeeps.resolves.mpr (hfits.live hphase), fun hresolves => ?_, fun hresolves => ?_⟩
  · have hbefore := hkeeps.resolves.mp hresolves
    have hslot : h'.ring.slots owned.ticket.slotIndex = h.ring.slots owned.ticket.slotIndex := (hkeeps.slot hbefore).1
    rw [hslot]
    exact hfits.phase hbefore
  · have hbefore := hkeeps.resolves.mp hresolves
    obtain ⟨hslot, hview, hsubmission⟩ := hkeeps.slot hbefore
    dsimp only [SnapshotTicket.raw] at hslot hview hsubmission
    rw [hslot, hview, hsubmission]
    exact hfits.own hbefore

/-- Only abandoned gathers are settled. -/
structure Reaps (h h' : SnapshotHandle) : Prop where
  slotCount : h'.ring.slotCount = h.ring.slotCount
  views : h'.views = h.views
  submission : h'.submission = h.submission
  slots : ∀ index, h'.ring.slots index = h.ring.slots index ∨
    ((h.ring.slots index).state = .gpuFilling ∧ (h.ring.slots index).discard = true) ∧
      h'.ring.slots index = ⟨.free, (h.ring.slots index).generation, 0, 0, false⟩

theorem Reaps.refl (h : SnapshotHandle) : Reaps h h := ⟨rfl, rfl, rfl, fun _ => Or.inl rfl⟩

theorem Reaps.trans {h'' : SnapshotHandle} (hfirst : Reaps h h') (hsecond : Reaps h' h'') : Reaps h h'' := by
  refine ⟨hsecond.slotCount.trans hfirst.slotCount, hsecond.views.trans hfirst.views,
    hsecond.submission.trans hfirst.submission, fun index => ?_⟩
  obtain hsame | ⟨hdiscarded, hreset⟩ := hfirst.slots index
  · rw [← hsame]
    exact hsecond.slots index
  · obtain hsame' | ⟨hdiscarded', -⟩ := hsecond.slots index
    · exact Or.inr ⟨hdiscarded, hsame'.trans hreset⟩
    · rw [hreset] at hdiscarded'
      cases hdiscarded'.1

theorem Reaps.generation (hreaps : Reaps h h') (index : ℕ) :
    (h'.ring.slots index).generation = (h.ring.slots index).generation := by
  obtain hsame | ⟨-, hreset⟩ := hreaps.slots index
  · rw [hsame]
  · rw [hreset]

/-- What still resolves is untouched. -/
theorem Reaps.resolves (hreaps : Reaps h h') (hresolves : h'.ring.Resolves t) :
    h.ring.Resolves t ∧ h'.ring.slots t.slotIndex = h.ring.slots t.slotIndex := by
  obtain ⟨hindex, hstate, hgeneration⟩ := hresolves
  obtain hsame | ⟨-, hreset⟩ := hreaps.slots t.slotIndex
  · rw [hsame] at hstate hgeneration
    rw [hreaps.slotCount] at hindex
    exact ⟨⟨hindex, hstate, hgeneration⟩, hsame⟩
  · rw [hreset] at hstate
    exact absurd rfl hstate

theorem Fits.reaps (hfits : Fits inventory h owned) (hreaps : Reaps h h') : Fits inventory h' owned := by
  refine ⟨fun hphase => ?_, fun hresolves => ?_, fun hresolves => ?_⟩
  · have hbefore := hfits.live hphase
    obtain hsame | ⟨⟨hfilling, hdiscard⟩, -⟩ := hreaps.slots owned.ticket.slotIndex
    · obtain ⟨hindex, hstate, hgeneration⟩ := hbefore
      dsimp only [SnapshotTicket.raw] at hindex hstate hgeneration
      refine ⟨?_, ?_, ?_⟩ <;> dsimp only [SnapshotTicket.raw]
      · rw [hreaps.slotCount]
        exact hindex
      · rw [hsame]
        exact hstate
      · rw [hsame]
        exact hgeneration
    · -- of all tickets only an abandoned one has such a slot
      have hmatches := hfits.phase hbefore
      cases hkind : owned.phase <;> rw [hkind] at hmatches hphase <;>
        simp [TicketPhase.Matches, hfilling, hdiscard] at hmatches hphase
  · obtain ⟨hbefore, hslot⟩ := hreaps.resolves hresolves
    dsimp only [SnapshotTicket.raw] at hslot
    rw [hslot]
    exact hfits.phase hbefore
  · obtain ⟨hbefore, hslot⟩ := hreaps.resolves hresolves
    dsimp only [SnapshotTicket.raw] at hslot
    rw [hslot, hreaps.views, hreaps.submission]
    exact hfits.own hbefore

namespace SnapshotHandle

theorem reap_reaps (h : SnapshotHandle) (index : ℕ) : Reaps h (h.reap index) := by
  unfold reap
  split
  · rename_i hdiscarded
    unfold RingState.reapDiscarded
    split
    · exact Reaps.refl h
    · rw [hdiscarded.1, hdiscarded.2.1]
      refine ⟨rfl, rfl, rfl, fun other => ?_⟩
      by_cases heq : other = index
      · rw [heq]
        exact Or.inr ⟨⟨hdiscarded.1, hdiscarded.2.1⟩, Function.update_self ..⟩
      · exact Or.inl (Function.update_of_ne heq ..)
  · exact Reaps.refl h

theorem foldl_reap_reaps (indices : List ℕ) : ∀ h : SnapshotHandle, Reaps h (indices.foldl reap h) := by
  induction indices with
  | nil => exact Reaps.refl
  | cons index rest ih => exact fun h => (reap_reaps h index).trans (ih _)

theorem reapAbandoned_reaps (h : SnapshotHandle) (skip : Option ℕ) : Reaps h (h.reapAbandoned skip) :=
  foldl_reap_reaps _ h

end SnapshotHandle
open SnapshotHandle

/-- Apart from abandoned gathers that are settled, only the slot of one ticket changes. -/
def Spares (h h' : SnapshotHandle) (t : RawTicket) : Prop :=
  ∃ settled, Reaps h settled ∧ h'.ring.slotCount = settled.ring.slotCount ∧ ∀ other, other ≠ t → Keeps settled h' other

theorem Reaps.spares (hreaps : Reaps h h') (t : RawTicket) : Spares h h' t :=
  ⟨h', hreaps, rfl, fun other _ => Keeps.refl h' other⟩

theorem Spares.slotCount (hspares : Spares h h' t) : h'.ring.slotCount = h.ring.slotCount := by
  obtain ⟨settled, hreaps, hcount, -⟩ := hspares
  exact hcount.trans hreaps.slotCount

theorem Fits.spares (hfits : Fits inventory h owned) (hspares : Spares h h' t) (hne : owned.ticket.raw ≠ t) :
    Fits inventory h' owned := by
  obtain ⟨settled, hreaps, -, hothers⟩ := hspares
  exact (hfits.reaps hreaps).keeps (hothers _ hne)

/-- A change at one slot keeps every ticket that does not resolve to it, before or after. -/
theorem Keeps.of_others {index : ℕ} (hcount : h'.ring.slotCount = h.ring.slotCount)
    (hothers : ∀ other, other ≠ index → h'.ring.slots other = h.ring.slots other ∧ h'.views other = h.views other ∧
      h'.submission other = h.submission other)
    (hstale : t.slotIndex = index → ¬h.ring.Resolves t ∧ ¬h'.ring.Resolves t) : Keeps h h' t := by
  by_cases hindex : t.slotIndex = index
  · obtain ⟨hbefore, hafter⟩ := hstale hindex
    exact ⟨iff_of_false hafter hbefore, fun hresolves => absurd hresolves hbefore⟩
  · obtain ⟨hslot, hview, hsubmission⟩ := hothers _ hindex
    refine ⟨?_, fun _ => ⟨hslot, hview, hsubmission⟩⟩
    unfold RingState.Resolves
    rw [hslot, hcount]

theorem Keeps.of_set {index : ℕ} {slot : Slot}
    (hother : t.slotIndex = index → ¬h.ring.Resolves t ∧ slot.generation ≠ t.generation) :
    Keeps h { h with ring := h.ring.set index slot } t := by
  refine Keeps.of_others rfl (fun other hne => ⟨Function.update_of_ne hne .., rfl, rfl⟩) fun hindex => ?_
  obtain ⟨hbefore, hgeneration⟩ := hother hindex
  refine ⟨hbefore, fun hresolves => hgeneration ?_⟩
  have hslot := hresolves.2.2
  rw [hindex] at hslot
  dsimp only [RingState.set] at hslot
  rw [Function.update_self] at hslot
  exact hslot

/-- Of two different tickets of one slot, only one has its generation. -/
theorem generation_ne {other : RawTicket} (hne : other ≠ t) (hindex : other.slotIndex = t.slotIndex) :
    t.generation ≠ other.generation := by
  intro heq
  apply hne
  cases other
  cases t
  dsimp only at hindex heq
  rw [hindex, heq]

/-- The slot of the ticket is written, and its generation stays. -/
theorem Spares.set (hspares : Spares h h' t) (slot : Slot)
    (hbefore : (h'.ring.slots t.slotIndex).generation = t.generation) (hafter : slot.generation = t.generation) :
    Spares h { h' with ring := h'.ring.set t.slotIndex slot } t := by
  obtain ⟨settled, hreaps, hcount, hothers⟩ := hspares
  refine ⟨settled, hreaps, hcount, fun other hne => (hothers other hne).trans (Keeps.of_set fun hindex => ?_)⟩
  have hgeneration := generation_ne hne hindex
  refine ⟨fun hresolves => hgeneration ?_, hafter ▸ hgeneration⟩
  rw [← hresolves.2.2, hindex, hbefore]

/-- The slot of a ticket is written, keeping its submission. -/
theorem Fits.set (hfits : Fits inventory h owned) (hresolves : h.ring.Resolves owned.ticket.raw) (slot : Slot)
    (phase : TicketPhase) (view : Option RawReadyView) (hphase : phase.Matches slot) (hstate : slot.state ≠ .free)
    (hgeneration : slot.generation = (h.ring.slots owned.ticket.slotIndex).generation)
    (hcontext : slot.contextSequence = (h.ring.slots owned.ticket.slotIndex).contextSequence) :
    Fits inventory { h with ring := h.ring.set owned.ticket.slotIndex slot } { owned with phase := phase, view := view } := by
  have hslot : (h.ring.set owned.ticket.slotIndex slot).slots owned.ticket.slotIndex = slot := Function.update_self ..
  refine ⟨fun _ => ⟨hresolves.1, ?_, ?_⟩, fun _ => ?_, fun _ => ?_⟩
  · dsimp only [SnapshotTicket.raw]
    rw [hslot]
    exact hstate
  · dsimp only [SnapshotTicket.raw]
    rw [hslot, hgeneration]
    exact hresolves.2.2
  · dsimp only
    rw [hslot]
    exact hphase
  · dsimp only
    rw [hslot, hcontext]
    exact hfits.own hresolves

/-- The view of a slot that fits a ticket. -/
theorem Fits.viewOf (hfits : Fits inventory h owned) (hresolves : h.ring.Resolves owned.ticket.raw) :
    Views inventory owned.ticket (h.viewOf owned.ticket.slotIndex) := by
  obtain ⟨-, -, hviews⟩ := hfits.own hresolves
  exact ⟨hviews.layout, hviews.capacity, hviews.ticket⟩

/-! ## Calls of the handle -/

/-- Polling a ticket in whose phase the gather may end finds it unfinished, or gives its view. -/
theorem Fits.poll_live (hfits : Fits inventory h owned) (hphase : owned.phase = .submitted ∨ owned.phase = .ready) :
    (∃ h', Reaps h h' ∧ h.poll owned.ticket.raw = (h', .notReady, none)) ∨
      ∃ h' view, Spares h h' owned.ticket.raw ∧ h.poll owned.ticket.raw = (h', .ok, some view) ∧ view.state = .ready ∧
        Views inventory owned.ticket view ∧ ∀ kept, Fits inventory h' { owned with phase := .ready, view := kept } := by
  have hreaps := reapAbandoned_reaps h (some owned.ticket.raw.slotIndex)
  have hsettled := hfits.reaps hreaps
  have hresolves := hsettled.live (by obtain hphase | hphase := hphase <;> rw [hphase] <;> exact fun h => (nomatch h))
  have hpoll : h.poll owned.ticket.raw = h.poll owned.ticket.raw := rfl
  conv_rhs at hpoll => unfold SnapshotHandle.poll
  dsimp only at hpoll
  generalize h.reapAbandoned (some owned.ticket.raw.slotIndex) = settled at *
  obtain ⟨hdiscard, hstate⟩ : (settled.ring.slots owned.ticket.raw.slotIndex).discard = false ∧
      ((settled.ring.slots owned.ticket.raw.slotIndex).state = .gpuFilling ∨
        (settled.ring.slots owned.ticket.raw.slotIndex).state = .ready) := by
    have hmatches := hsettled.phase hresolves
    obtain hphase | hphase := hphase <;> rw [hphase] at hmatches
    · exact ⟨hmatches.2, hmatches.1⟩
    · exact ⟨hmatches.2, Or.inr hmatches.1⟩
  rw [if_neg (not_not.mpr hresolves)] at hpoll
  obtain hfilling | hready := hstate
  · rw [if_pos hfilling] at hpoll
    by_cases hcomplete : settled.complete owned.ticket.raw.slotIndex = false
    · rw [if_pos hcomplete] at hpoll
      exact Or.inl ⟨settled, hreaps, hpoll⟩
    · have hring : settled.ring.complete owned.ticket.raw =
          (settled.ring.set owned.ticket.slotIndex
            { settled.ring.slots owned.ticket.slotIndex with state := .ready }, .ok) := by
        unfold RingState.complete
        rw [if_neg (not_not.mpr hresolves), if_neg (not_not.mpr hfilling),
          if_neg (by rw [hdiscard]; exact Bool.false_ne_true)]
        rfl
      rw [if_neg hcomplete, hring] at hpoll
      have hwritten := fun kept => hsettled.set hresolves
        { settled.ring.slots owned.ticket.slotIndex with state := .ready } .ready kept ⟨rfl, hdiscard⟩
        (fun h => (nomatch h)) rfl rfl
      refine Or.inr ⟨_, _, (hreaps.spares _).set { settled.ring.slots owned.ticket.slotIndex with state := .ready }
        hresolves.2.2 hresolves.2.2, hpoll, ?_, ?_, hwritten⟩
      · dsimp only [SnapshotHandle.viewOf, SnapshotTicket.raw, RingState.set]
        rw [Function.update_self]
      · exact (hwritten none).viewOf ((hwritten none).live (fun h => (nomatch h)))
  · rw [if_neg (by rw [hready]; exact fun h => (nomatch h))] at hpoll
    refine Or.inr ⟨settled, _, hreaps.spares _, hpoll, hready, hsettled.viewOf hresolves, fun kept => ?_⟩
    exact ⟨fun _ => hresolves, fun _ => ⟨hready, hdiscard⟩, hsettled.own⟩

/-- Polling an abandoned ticket finds its gather unfinished or settled. -/
theorem Fits.poll_abandoned (hfits : Fits inventory h owned) (hphase : owned.phase = .abandonedSubmitted) :
    (∃ h', Reaps h h' ∧ h.poll owned.ticket.raw = (h', .notReady, none)) ∨
      ∃ h', Spares h h' owned.ticket.raw ∧ h.poll owned.ticket.raw = (h', .dropped, none) := by
  have hreaps := reapAbandoned_reaps h (some owned.ticket.raw.slotIndex)
  have hsettled := hfits.reaps hreaps
  have hpoll : h.poll owned.ticket.raw = h.poll owned.ticket.raw := rfl
  conv_rhs at hpoll => unfold SnapshotHandle.poll
  dsimp only at hpoll
  generalize h.reapAbandoned (some owned.ticket.raw.slotIndex) = settled at *
  by_cases hresolves : settled.ring.Resolves owned.ticket.raw
  · have hmatches : owned.phase.Matches (settled.ring.slots owned.ticket.raw.slotIndex) := hsettled.phase hresolves
    rw [hphase] at hmatches
    obtain ⟨hfilling, hdiscard⟩ := hmatches
    rw [if_neg (not_not.mpr hresolves), if_pos hfilling] at hpoll
    by_cases hcomplete : settled.complete owned.ticket.raw.slotIndex = false
    · rw [if_pos hcomplete] at hpoll
      exact Or.inl ⟨settled, hreaps, hpoll⟩
    · have hring : settled.ring.complete owned.ticket.raw = (settled.ring.reset owned.ticket.slotIndex, .dropped) := by
        unfold RingState.complete
        rw [if_neg (not_not.mpr hresolves), if_neg (not_not.mpr hfilling), if_pos hdiscard]
        rfl
      rw [if_neg hcomplete, hring] at hpoll
      exact Or.inr ⟨_, (hreaps.spares _).set ⟨.free, (settled.ring.slots owned.ticket.slotIndex).generation, 0, 0, false⟩
        hresolves.2.2 hresolves.2.2, hpoll⟩
  · rw [if_pos hresolves] at hpoll
    exact Or.inr ⟨settled, hreaps.spares _, hpoll⟩

/-- Claiming such a ticket finds the gather unfinished, or gives its view to the writer. -/
theorem Fits.claim_live (hfits : Fits inventory h owned) (hphase : owned.phase = .submitted ∨ owned.phase = .ready) :
    (∃ h', Reaps h h' ∧ h.claim owned.ticket.raw = (h', .notReady, none)) ∨
      ∃ h' view, Spares h h' owned.ticket.raw ∧ h.claim owned.ticket.raw = (h', .ok, some view) ∧ view.state = .writing ∧
        Views inventory owned.ticket view ∧ ∀ kept, Fits inventory h' { owned with phase := .claimed, view := kept } := by
  obtain ⟨h', hreaps, hpoll⟩ | ⟨h', view, hspares, hpoll, -, -, hready⟩ := hfits.poll_live hphase
  · refine Or.inl ⟨h', hreaps, ?_⟩
    unfold SnapshotHandle.claim
    rw [hpoll]
  · have hfits' := hready none
    have hresolves := hfits'.live (fun h => (nomatch h))
    have hmatches : TicketPhase.ready.Matches (h'.ring.slots owned.ticket.raw.slotIndex) := hfits'.phase hresolves
    obtain ⟨hstate, hdiscard⟩ := hmatches
    have hring : h'.ring.claim owned.ticket.raw =
        (h'.ring.set owned.ticket.slotIndex { h'.ring.slots owned.ticket.slotIndex with state := .writing }, .ok) := by
      unfold RingState.claim
      rw [if_neg (by rw [hdiscard]; simpa using hresolves), hstate]
      rfl
    have hclaim : h.claim owned.ticket.raw = h.claim owned.ticket.raw := rfl
    conv_rhs at hclaim => unfold SnapshotHandle.claim
    rw [hpoll] at hclaim
    dsimp only at hclaim
    rw [hring] at hclaim
    have hwritten := fun kept => hfits'.set hresolves
      { h'.ring.slots owned.ticket.slotIndex with state := .writing } .claimed kept ⟨rfl, hdiscard⟩
      (fun h => (nomatch h)) rfl rfl
    refine Or.inr ⟨_, _, hspares.set { h'.ring.slots owned.ticket.slotIndex with state := .writing } hresolves.2.2
      hresolves.2.2, hclaim, ?_, ?_, hwritten⟩
    · dsimp only [SnapshotHandle.viewOf, SnapshotTicket.raw, RingState.set]
      rw [Function.update_self]
    · exact (hwritten none).viewOf ((hwritten none).live (fun h => (nomatch h)))

/-- A ticket that the owner may release is released. -/
theorem Fits.release_live (hfits : Fits inventory h owned)
    (hphase : owned.phase = .ready ∨ owned.phase = .claimed ∨ owned.phase = .abandonedClaimed) :
    ∃ h', Spares h h' owned.ticket.raw ∧ h.release owned.ticket.raw = (h', .ok) := by
  have hresolves := hfits.live (by obtain hphase | hphase | hphase := hphase <;> rw [hphase] <;> exact fun h => (nomatch h))
  have hmatches : owned.phase.Matches (h.ring.slots owned.ticket.raw.slotIndex) := hfits.phase hresolves
  have hstate : (h.ring.slots owned.ticket.raw.slotIndex).state = .ready ∨
      (h.ring.slots owned.ticket.raw.slotIndex).state = .writing := by
    obtain hphase | hphase | hphase := hphase <;> rw [hphase] at hmatches
    · exact Or.inl hmatches.1
    · exact Or.inr hmatches.1
    · exact Or.inr hmatches.1
  have hring : h.ring.release owned.ticket.raw = (h.ring.reset owned.ticket.slotIndex, .ok) := by
    unfold RingState.release
    rw [if_neg (not_not.mpr hresolves)]
    obtain hstate | hstate := hstate <;> rw [hstate] <;> rfl
  refine ⟨_, ((Reaps.refl h).spares owned.ticket.raw).set
    ⟨.free, (h.ring.slots owned.ticket.slotIndex).generation, 0, 0, false⟩ hresolves.2.2 hresolves.2.2, ?_⟩
  unfold SnapshotHandle.release
  rw [hring]
  rfl

/-! ## Completion and abandonment -/

/-- A completed gather of a live ticket is ready. -/
theorem Fits.completed (hfits : Fits inventory h owned) (index : ℕ) :
    Fits inventory { h with ring := (h.ring.complete ⟨(h.ring.slots index).generation, index⟩).1 } owned := by
  unfold RingState.complete
  split
  · exact hfits
  · rename_i hused
    split
    · exact hfits
    · rename_i hfilling
      dsimp only at hfilling ⊢
      rw [not_not] at hused hfilling
      split
      · rename_i hdiscard
        refine hfits.reaps ⟨rfl, rfl, rfl, fun other => ?_⟩
        by_cases hother : other = index
        · rw [hother]
          exact Or.inr ⟨⟨hfilling, hdiscard⟩, Function.update_self ..⟩
        · exact Or.inl (Function.update_of_ne hother ..)
      · rename_i hdiscard
        rw [Bool.not_eq_true] at hdiscard
        by_cases hown : h.ring.Resolves owned.ticket.raw ∧ owned.ticket.slotIndex = index
        · obtain ⟨hresolves, rfl⟩ := hown
          refine hfits.set hresolves _ owned.phase owned.view ?_ (fun h => (nomatch h)) rfl rfl
          have hmatches := hfits.phase hresolves
          cases hkind : owned.phase <;> rw [hkind] at hmatches <;>
            simp [TicketPhase.Matches, hfilling, hdiscard] at hmatches ⊢
        · refine hfits.keeps (Keeps.of_set fun hindex => ?_)
          have hstale : ¬h.ring.Resolves owned.ticket.raw := fun hresolves => hown ⟨hresolves, hindex⟩
          refine ⟨hstale, fun hgeneration => hstale ?_⟩
          refine ⟨hindex ▸ hused.1, hindex ▸ hused.2.1, hindex ▸ hgeneration⟩

/-- What the owner makes of a tracked ticket when a context is abandoned. -/
def abandonedOf (contextSequence : ℕ) (owned : OwnedTicket) : Option OwnedTicket :=
  if owned.ticket.contextSequence ≠ contextSequence then some owned
  else
    match owned.phase with
    | .submitted => some { owned with phase := .abandonedSubmitted }
    | .ready => none
    | .claimed => some { owned with phase := .abandonedClaimed }
    | _ => some owned

theorem abandonedOf_ticket {contextSequence : ℕ} {owned owned' : OwnedTicket}
    (h : abandonedOf contextSequence owned = some owned') : owned'.ticket = owned.ticket := by
  unfold abandonedOf at h
  split at h
  · cases h
    rfl
  · cases hkind : owned.phase <;> rw [hkind] at h <;> cases h <;> rfl

theorem abandon_slots (r : RingState) (contextSequence index : ℕ) (hindex : index < r.slotCount) :
    (r.abandon contextSequence).slots index = RingState.abandonSlot contextSequence (r.slots index) := by
  unfold RingState.abandon
  dsimp only
  rw [if_pos hindex]

/-- Abandoning keeps generations, and uses no free slot. -/
theorem abandonSlot_spec (contextSequence : ℕ) (slot : Slot) :
    (RingState.abandonSlot contextSequence slot).generation = slot.generation ∧
      (slot.state = .free → (RingState.abandonSlot contextSequence slot).state = .free) := by
  unfold RingState.abandonSlot
  split
  · exact ⟨rfl, id⟩
  · cases hstate : slot.state <;> simp

theorem abandonSlot_discards {slot : Slot} (hstate : slot.state = .gpuFilling ∨ slot.state = .writing) :
    RingState.abandonSlot slot.contextSequence slot = { slot with discard := true } := by
  unfold RingState.abandonSlot
  obtain hstate | hstate := hstate <;> rw [hstate] <;> simp

theorem abandonSlot_frees {slot : Slot} (hstate : slot.state = .ready) :
    (RingState.abandonSlot slot.contextSequence slot).state = .free := by
  unfold RingState.abandonSlot
  rw [hstate]
  simp

theorem resolves_of_abandon {r : RingState} {contextSequence : ℕ} (h : (r.abandon contextSequence).Resolves t) :
    r.Resolves t := by
  obtain ⟨hindex, hstate, hgeneration⟩ := h
  have hcount : t.slotIndex < r.slotCount := hindex
  rw [abandon_slots r contextSequence _ hcount] at hstate hgeneration
  obtain ⟨hsame, hfree⟩ := abandonSlot_spec contextSequence (r.slots t.slotIndex)
  exact ⟨hcount, fun hnone => hstate (hfree hnone), hsame ▸ hgeneration⟩

/-- A slot that is written or filled stays with its submission, which is discarded. -/
theorem Fits.discarded (hfits : Fits inventory h owned) (hresolves : h.ring.Resolves owned.ticket.raw)
    (hstate : (h.ring.slots owned.ticket.slotIndex).state = .gpuFilling ∨
      (h.ring.slots owned.ticket.slotIndex).state = .writing)
    (phase : TicketPhase) (hphase : phase.Matches { h.ring.slots owned.ticket.slotIndex with discard := true }) :
    Fits inventory { h with ring := h.ring.abandon owned.ticket.contextSequence } { owned with phase := phase } := by
  have hslot : (h.ring.abandon owned.ticket.contextSequence).slots owned.ticket.slotIndex =
      { h.ring.slots owned.ticket.slotIndex with discard := true } := by
    rw [abandon_slots h.ring _ owned.ticket.slotIndex hresolves.1, ← (hfits.own hresolves).1]
    exact abandonSlot_discards hstate
  refine ⟨fun _ => ⟨hresolves.1, ?_, ?_⟩, fun _ => ?_, fun _ => ?_⟩
  · dsimp only [SnapshotTicket.raw]
    rw [hslot]
    exact hresolves.2.1
  · dsimp only [SnapshotTicket.raw]
    rw [hslot]
    exact hresolves.2.2
  · dsimp only
    rw [hslot]
    exact hphase
  · dsimp only
    rw [hslot]
    exact hfits.own hresolves

/-- A ticket that does not resolve can only be an abandoned one. -/
theorem Fits.of_stale (hphase : owned.phase = .abandonedSubmitted) (hstale : ¬h.ring.Resolves owned.ticket.raw) :
    Fits inventory h owned :=
  ⟨fun hne => absurd hphase hne, fun hresolves => absurd hresolves hstale, fun hresolves => absurd hresolves hstale⟩

theorem Fits.abandoned (hfits : Fits inventory h owned) {contextSequence : ℕ} {owned' : OwnedTicket}
    (h' : abandonedOf contextSequence owned = some owned') :
    Fits inventory { h with ring := h.ring.abandon contextSequence } owned' := by
  unfold abandonedOf at h'
  by_cases hcontext : owned.ticket.contextSequence = contextSequence
  · rw [if_neg (not_not.mpr hcontext)] at h'
    subst hcontext
    cases hkind : owned.phase with
    | submitted =>
        rw [hkind] at h'
        cases h'
        have hresolves := hfits.live (by rw [hkind]; exact fun h => (nomatch h))
        have hmatches := hfits.phase hresolves
        rw [hkind] at hmatches
        obtain ⟨hfilling | hready, -⟩ := hmatches
        · exact hfits.discarded hresolves (Or.inl hfilling) _ ⟨hfilling, rfl⟩
        · -- the gather was complete, and its slot is free at once
          refine Fits.of_stale rfl fun hafter => hafter.2.1 ?_
          dsimp only [SnapshotTicket.raw]
          rw [abandon_slots h.ring _ owned.ticket.slotIndex hresolves.1, ← (hfits.own hresolves).1]
          exact abandonSlot_frees hready
    | ready =>
        rw [hkind] at h'
        cases h'
    | claimed =>
        rw [hkind] at h'
        cases h'
        have hresolves := hfits.live (by rw [hkind]; exact fun h => (nomatch h))
        have hmatches := hfits.phase hresolves
        rw [hkind] at hmatches
        exact hfits.discarded hresolves (Or.inr hmatches.1) _ ⟨hmatches.1, rfl⟩
    | abandonedSubmitted =>
        rw [hkind] at h'
        cases h'
        by_cases hresolves : h.ring.Resolves owned.ticket.raw
        · have hmatches := hfits.phase hresolves
          rw [hkind] at hmatches
          exact hfits.discarded hresolves (Or.inl hmatches.1) owned.phase (by rw [hkind]; exact ⟨hmatches.1, rfl⟩)
        · exact Fits.of_stale hkind fun hafter => hresolves (resolves_of_abandon hafter)
    | abandonedClaimed =>
        rw [hkind] at h'
        cases h'
        have hresolves := hfits.live (by rw [hkind]; exact fun h => (nomatch h))
        have hmatches := hfits.phase hresolves
        rw [hkind] at hmatches
        exact hfits.discarded hresolves (Or.inr hmatches.1) owned.phase (by rw [hkind]; exact ⟨hmatches.1, rfl⟩)
  · rw [if_pos hcontext] at h'
    cases h'
    have hslot : h.ring.Resolves owned.ticket.raw →
        (h.ring.abandon contextSequence).slots owned.ticket.slotIndex = h.ring.slots owned.ticket.slotIndex := by
      intro hresolves
      rw [abandon_slots h.ring _ owned.ticket.slotIndex hresolves.1]
      unfold RingState.abandonSlot
      rw [if_pos (Or.inr (by rw [(hfits.own hresolves).1]; exact hcontext))]
    refine hfits.keeps ⟨⟨fun hafter => resolves_of_abandon hafter, fun hresolves => ?_⟩,
      fun hresolves => ⟨hslot hresolves, rfl, rfl⟩⟩
    refine ⟨hresolves.1, ?_, ?_⟩ <;> dsimp only [SnapshotTicket.raw] <;> rw [hslot hresolves]
    · exact hresolves.2.1
    · exact hresolves.2.2

/-! ## Submission -/

theorem nextGeneration_pos (generation : ℕ) : 0 < RingState.nextGeneration generation := by
  unfold RingState.nextGeneration
  split <;> omega

theorem firstFree_spec {r : RingState} {index : ℕ} (h : r.firstFree = some index) :
    index < r.slotCount ∧ (r.slots index).state = .free := by
  unfold RingState.firstFree at h
  have hmem := List.mem_of_find?_eq_some h
  have hfree := List.find?_some h
  exact ⟨List.mem_range.mp hmem, of_decide_eq_true hfree⟩

variable (inventory) in
/-- A submission of rows that every source has is dropped, finds no slot, or gets a free one. -/
theorem trySubmit_spec (hcount : h.ring.slotCount = config.slotCount) (s : Submission) (identity : ℕ)
    (hcontext : s.contextSequence ≠ 0) (hrows : s.rowCount ≠ 0 ∧ s.rowCount ≤ config.maxRows)
    (hphysical : ∀ layout, calculatePayloadLayout inventory.sources s.rowCount config.slotBytes = .ok layout →
      ∀ slot ∈ s.physicalSlots, ∀ source ∈ inventory.sources, slot < source.sourceRows) :
    h.trySubmit inventory.handle s identity = (h.reapAbandoned none, .dropped, none) ∨
      h.trySubmit inventory.handle s identity = (h.reapAbandoned none, .wouldBlock, none) ∨
        ∃ h' index layout, calculatePayloadLayout inventory.sources s.rowCount config.slotBytes = .ok layout ∧
          (h.reapAbandoned none).ring.firstFree = some index ∧
          h.trySubmit inventory.handle s identity = (h', .ok,
            some ⟨RingState.nextGeneration (h.ring.slots index).generation, index⟩) ∧
          Spares h h' ⟨RingState.nextGeneration (h.ring.slots index).generation, index⟩ ∧
          Fits inventory h' ⟨⟨RingState.nextGeneration (h.ring.slots index).generation, index, s.contextSequence,
            s.logicalStart, s.rowCount, identity⟩, .submitted, none⟩ := by
  have hreaps := reapAbandoned_reaps h none
  have hsources : inventory.sources ≠ [] := by
    have haccepted := inventory.accepted
    simp only [validateSourceInventory, bind_eq_ok, require_eq_ok] at haccepted
    obtain ⟨_, hne, -⟩ := haccepted
    exact hne
  have hnone : ¬(inventory.handle.sources = [] ∨ s.contextSequence = 0 ∨ s.rowCount = 0 ∨
      inventory.handle.maxRows < s.rowCount) := by
    rintro (hempty | hzero | hzero | hmany)
    · exact hsources hempty
    · exact hcontext hzero
    · exact hrows.1 hzero
    · exact absurd hrows.2 (Nat.not_le.mpr hmany)
  have hsubmit : h.trySubmit inventory.handle s identity = h.trySubmit inventory.handle s identity := rfl
  conv_rhs at hsubmit => unfold SnapshotHandle.trySubmit
  dsimp only at hsubmit
  rw [if_neg hnone] at hsubmit
  cases hlayout : calculatePayloadLayout inventory.handle.sources s.rowCount inventory.handle.slotBytes with
  | error error =>
      rw [hlayout] at hsubmit
      exact Or.inl hsubmit
  | ok layout =>
      obtain ⟨-, -, -, hpositive⟩ := inventory.layout_eq hlayout
      rw [hlayout] at hsubmit
      dsimp only at hsubmit
      have hwithin : ¬¬∀ slot ∈ s.physicalSlots, ∀ source ∈ inventory.handle.sources, slot < source.sourceRows :=
        not_not.mpr (hphysical layout hlayout)
      rw [if_neg hwithin] at hsubmit
      have hslots : ¬(¬(2 ≤ (h.reapAbandoned none).ring.slotCount ∧ (h.reapAbandoned none).ring.slotCount ≤ 3) ∨
          s.contextSequence = 0 ∨ layout.usedBytes = 0) := by
        have htwo := config.slots
        rw [hreaps.slotCount, hcount]
        omega
      cases hfree : (h.reapAbandoned none).ring.firstFree with
      | none =>
          have hreserve : (h.reapAbandoned none).ring.reserve s.contextSequence layout.usedBytes =
              ((h.reapAbandoned none).ring, .wouldBlock, none) := by
            unfold RingState.reserve
            rw [if_neg hslots, hfree]
          rw [hreserve] at hsubmit
          exact Or.inr (Or.inl hsubmit)
      | some index =>
          have hreserve : (h.reapAbandoned none).ring.reserve s.contextSequence layout.usedBytes =
              ((h.reapAbandoned none).ring.set index ⟨.gpuFilling, RingState.nextGeneration (h.ring.slots index).generation,
                s.contextSequence, layout.usedBytes, false⟩, .ok,
                some ⟨RingState.nextGeneration (h.ring.slots index).generation, index⟩) := by
            unfold RingState.reserve
            rw [if_neg hslots, hfree]
            dsimp only
            rw [hreaps.generation index]
          rw [hreserve] at hsubmit
          obtain ⟨hindex, hstate⟩ := firstFree_spec hfree
          generalize h.reapAbandoned none = settled at *
          refine Or.inr (Or.inr ⟨_, index, layout, hlayout, rfl, hsubmit, ?_, ?_⟩)
          · refine ⟨settled, hreaps, rfl, fun other hne => ?_⟩
            refine @Keeps.of_others _ _ _ index rfl (fun i hi => ?_) fun hother => ⟨fun hresolves => ?_, fun hresolves => ?_⟩
            · exact ⟨Function.update_of_ne hi .., Function.update_of_ne hi .., Function.update_of_ne hi ..⟩
            · have hused := hresolves.2.1
              rw [hother, hstate] at hused
              exact hused rfl
            · have hgeneration := hresolves.2.2
              rw [hother] at hgeneration
              dsimp only [SnapshotHandle.enqueue, RingState.set] at hgeneration
              rw [Function.update_self] at hgeneration
              exact generation_ne hne hother hgeneration
          · refine ⟨fun _ => ⟨hindex, ?_, ?_⟩, fun _ => ?_, fun _ => ⟨?_, Function.update_self .., ?_⟩⟩ <;>
              dsimp only [SnapshotHandle.enqueue, RingState.set, SnapshotTicket.raw] <;> rw [Function.update_self]
            · intro h
              cases h
            · exact ⟨Or.inl rfl, rfl⟩
            · exact ⟨⟨layout, hlayout, rfl, rfl, rfl, rfl⟩, rfl, rfl, rfl, rfl, rfl, rfl⟩

end SparkCache.RowStream
