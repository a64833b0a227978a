import SparkCache.Placement.PageScatter

/-!
# Accepted page scatters

What the validator of a page scatter has checked when it accepts, and that none of its operations wraps.
-/
namespace SparkCache.Placement
open Machine (Safe Runs)

theorem NativeArray.count_toNat {α : Type} (xs : NativeArray α) : xs.count.toNat = xs.items.length := by
  rw [count, BitVec.toNat_ofNat, Nat.mod_eq_of_lt xs.fits]

theorem widen_toNat (a : BitVec 32) : (a.setWidth 64).toNat = a.toNat := by
  rw [BitVec.toNat_setWidth, Nat.mod_eq_of_lt (by have := a.isLt; omega)]

theorem ne_zero_iff_pos {w : ℕ} {a : BitVec w} : a ≠ 0 ↔ 0 < a.toNat := by
  rw [Nat.pos_iff_ne_zero, ne_eq, ne_eq, ← BitVec.toNat_inj, BitVec.ofNat_eq_ofNat, BitVec.toNat_ofNat, Nat.zero_mod]

theorem allOnes_toNat : (BitVec.allOnes 64).toNat = 2 ^ 64 - 1 := by decide

/-! ## Checked arithmetic -/

theorem safe_checkedAdd (a b : BitVec 64) (detail : String) :
    (checkedAdd a b detail).Safe fun c => c.toNat = a.toNat + b.toNat := by
  have hb := b.isLt
  unfold checkedAdd
  refine (Machine.runs_sub (by rw [allOnes_toNat]; omega)).safe.bind fun room hroom => ?_
  refine (Safe.require _ _).bind fun _ hle => ?_
  rw [BitVec.le_def, hroom, allOnes_toNat] at hle
  exact (Machine.runs_add (by omega)).safe

theorem safe_checkedMul (a b : BitVec 64) (detail : String) :
    (checkedMul a b detail).Safe fun c => c.toNat = a.toNat * b.toNat := by
  unfold checkedMul
  by_cases hzero : a = 0
  · rw [if_pos hzero]
    refine (Machine.runs_mul ?_).safe
    rw [hzero]
    simp
  · have hpos := ne_zero_iff_pos.mp hzero
    rw [if_neg hzero]
    refine (Machine.runs_div hpos).safe.bind fun bound hbound => ?_
    refine (Safe.require _ _).bind fun _ hle => ?_
    rw [BitVec.le_def, hbound, Nat.le_div_iff_mul_le hpos, allOnes_toNat, Nat.mul_comm] at hle
    exact (Machine.runs_mul (by omega)).safe

/-! ## Groups and destinations -/

/-- The physical pages of a group. -/
def PageScatter.groupSlots (x : PageScatter) (group : PageGroup) : List (BitVec 32) :=
  (x.slots.items.drop group.firstSlotIndex.toNat).take group.slotCount.toNat

/-- A group has slots of the vector, none of them twice. -/
structure PageScatter.GroupFits (x : PageScatter) (group : PageGroup) : Prop where
  slots : group.firstSlotIndex.toNat + group.slotCount.toNat ≤ x.slots.items.length
  nodup : (x.groupSlots group).Nodup

/-- The pages of a destination are in its range, whose addresses do not overflow. -/
structure PageScatter.DestinationFits (x : PageScatter) (destination : PageDestination) : Prop where
  positive : 0 < destination.bytesPerPage.toNat
  stride : destination.bytesPerPage.toNat ≤ destination.destinationPageStrideBytes.toNat
  group : destination.groupIndex.toNat < x.groups.items.length
  slots : ∀ group, x.groups.items[destination.groupIndex.toNat]? = some group →
    ∀ slot ∈ x.groupSlots group, slot.toNat < destination.destinationPages.toNat
  addresses : destination.destinationBase.toNat + (destination.destinationPages.toNat - 1) *
    destination.destinationPageStrideBytes.toNat + destination.bytesPerPage.toNat < 2 ^ 64

namespace PageScatter
variable {x : PageScatter}

theorem safe_slotAt {group : PageGroup} {index : BitVec 32}
    (hgroup : group.firstSlotIndex.toNat + group.slotCount.toNat ≤ x.slots.items.length)
    (hindex : index.toNat < group.slotCount.toNat) :
    (x.slotAt group index).Runs fun slot => (x.groupSlots group)[index.toNat]? = some slot := by
  have hfits := x.slots.fits
  refine (Machine.runs_add (by omega)).bind fun position hposition => ?_
  have hlt : position.toNat < x.slots.items.length := by omega
  obtain ⟨slot, hread, hslot⟩ := Machine.runs_read (ε := String) hlt
  refine ⟨slot, hread, ?_⟩
  rw [groupSlots, List.getElem?_take_of_lt hindex, List.getElem?_drop, ← hposition, hslot]

theorem safe_validateGroup (group : PageGroup) (expected : BitVec 64) :
    (x.validateGroup group expected).Safe fun _ => x.GroupFits group := by
  unfold validateGroup
  refine (Safe.require _ _).bind fun _ hfirst => ?_
  refine (safe_checkedAdd _ _ _).bind fun groupEnd hend => ?_
  refine (Safe.require _ _).bind fun _ hle => ?_
  rw [BitVec.le_def, hend, widen_toNat, widen_toNat, widen_toNat, NativeArray.count_toNat] at hle
  have hloop : (Machine.forCount group.slotCount (fun index unique => do
      let slot ← x.slotAt group index
      Machine.require (slot ∉ unique) "physical page slots must be unique within each group"
      return unique ++ [slot]) []).Safe
      fun unique => unique = (x.groupSlots group).take group.slotCount.toNat ∧ unique.Nodup := by
    refine Machine.Reading.safe.forCount (fun k unique => unique = (x.groupSlots group).take k ∧ unique.Nodup)
      (by decide) ?_ ⟨rfl, List.nodup_nil⟩
    rintro index unique hindex ⟨rfl, hnodup⟩
    refine (safe_slotAt hle hindex).safe.bind fun slot hslot => ?_
    refine (Safe.require _ _).bind fun _ hnew => ?_
    refine Safe.pure ⟨?_, ?_⟩
    · rw [List.take_add_one, hslot]
      rfl
    · rw [List.nodup_append]
      refine ⟨hnodup, List.nodup_singleton slot, ?_⟩
      intro a ha b hb
      rw [List.mem_singleton] at hb
      rintro rfl
      rw [hb] at ha
      exact hnew ha
  refine hloop.bind fun unique hunique => ?_
  refine Safe.pure ⟨hle, ?_⟩
  have hall : (x.groupSlots group).take group.slotCount.toNat = x.groupSlots group := by
    rw [groupSlots, List.take_take, min_self]
  rw [← hall, ← hunique.1]
  exact hunique.2

theorem safe_nextGroup {index : BitVec 32} {destination : PageDestination} {expected : BitVec 32}
    (h : expected.toNat + 1 < 2 ^ 32) : (nextGroup index destination expected).Safe fun _ => True := by
  unfold nextGroup
  split_ifs
  · exact Safe.pure trivial
  · refine (Safe.require _ _).bind fun _ _ => ?_
    refine (Machine.runs_add h).safe.bind fun following _ => ?_
    refine (Safe.require _ _).bind fun _ _ => ?_
    exact Safe.pure trivial

theorem safe_validateDestination {index : BitVec 32} {destination : PageDestination} {expected : BitVec 32}
    (hgroups : ∀ group ∈ x.groups.items, x.GroupFits group) (hexpected : expected.toNat < x.groups.items.length) :
    (x.validateDestination index destination expected).Safe fun following =>
      x.DestinationFits destination ∧ following.toNat < x.groups.items.length := by
  have hcount := x.groups.fits
  unfold validateDestination
  refine (Safe.require _ _).bind fun _ hgeometry => ?_
  obtain ⟨-, -, hpages, hbytes, hstride, hgroup⟩ := hgeometry
  rw [BitVec.lt_def, NativeArray.count_toNat] at hgroup
  rw [ne_zero_iff_pos] at hpages hbytes
  rw [BitVec.le_def] at hstride
  refine (safe_nextGroup (by omega)).bind fun following _ => ?_
  refine (Safe.require _ _).bind fun _ hfollowing => ?_
  refine (Machine.runs_read hgroup).safe.bind fun group hread => ?_
  have hfits := hgroups group (List.mem_of_getElem? hread)
  have hloop : (Machine.forCount group.slotCount (fun slotIndex _ => do
      let slot ← x.slotAt group slotIndex
      Machine.require (slot.setWidth 64 < destination.destinationPages)
        "physical page slot exceeds destination capacity") ()).Safe
      fun _ => ∀ slot ∈ (x.groupSlots group).take group.slotCount.toNat,
        slot.toNat < destination.destinationPages.toNat := by
    refine Machine.Reading.safe.forCount (fun k (_ : Unit) => ∀ slot ∈ (x.groupSlots group).take k,
      slot.toNat < destination.destinationPages.toNat) (by decide) ?_ (by simp)
    intro slotIndex _ hindex hdone
    refine (safe_slotAt hfits.slots hindex).safe.bind fun slot hslot => ?_
    refine (Safe.require _ _).weaken fun _ hlt => ?_
    rw [BitVec.lt_def, widen_toNat] at hlt
    intro other hother
    rw [List.take_add_one, hslot, List.mem_append] at hother
    obtain hother | hother := hother
    · exact hdone other hother
    · rw [Option.toList_some, List.mem_singleton] at hother
      rw [hother]
      exact hlt
  refine hloop.bind fun _ hslots => ?_
  have hall : (x.groupSlots group).take group.slotCount.toNat = x.groupSlots group := by
    rw [groupSlots, List.take_take, min_self]
  rw [hall] at hslots
  have hone : (1 : BitVec 64).toNat = 1 := rfl
  refine (Machine.runs_sub (by omega)).safe.bind fun before hbefore => ?_
  refine (safe_checkedMul _ _ _).bind fun lastPage hlastPage => ?_
  refine (safe_checkedAdd _ _ _).bind fun lastByte hlastByte => ?_
  refine (safe_checkedAdd _ _ _).bind fun last hlast => ?_
  rw [widen_toNat, hlastByte, hlastPage, hbefore, widen_toNat, hone] at hlast
  refine Safe.pure ⟨⟨hbytes, hstride, hgroup, ?_, ?_⟩, ?_⟩
  · intro other hother
    rw [hread] at hother
    cases hother
    exact hslots
  · rw [← hlast]
    exact last.isLt
  · rw [← hfollowing.1]
    exact hgroup

/-! ## Spans -/

end PageScatter

/-- The bytes that spans bring to a destination. -/
def coveredBytes (spans : List PageCopySpan) (index : ℕ) : ℕ :=
  ((spans.filter fun span => span.destinationIndex.toNat = index).map fun span => span.byteCount.toNat).sum

theorem coveredBytes_append (spans : List PageCopySpan) (span : PageCopySpan) (index : ℕ) :
    coveredBytes (spans ++ [span]) index =
      coveredBytes spans index + if span.destinationIndex.toNat = index then span.byteCount.toNat else 0 := by
  unfold coveredBytes
  rw [List.filter_append, List.map_append, List.sum_append]
  split_ifs with h
  · simp [h]
  · simp [h]

namespace PageScatter
variable {x : PageScatter}

/-- The logical bytes of a destination. -/
def logicalBytes (destination : PageDestination) (group : PageGroup) : ℕ :=
  group.slotCount.toNat * destination.bytesPerPage.toNat

/-- A span after some others is in the arena and goes on in its destination where they stop. -/
structure SpanFits (x : PageScatter) (before : List PageCopySpan) (span : PageCopySpan) : Prop where
  destination : span.destinationIndex.toNat < x.destinations.items.length
  arena : span.arenaOffsetBytes.toNat + span.byteCount.toNat ≤ x.arenaUsedBytes.toNat
  snapshot : span.snapshotOffsetBytes.toNat + span.byteCount.toNat ≤ x.snapshotBytes.toNat
  offset : span.destinationByteOffset.toNat = coveredBytes before span.destinationIndex.toNat
  logical : ∀ destination group, x.destinations.items[span.destinationIndex.toNat]? = some destination →
    x.groups.items[destination.groupIndex.toNat]? = some group →
    span.destinationByteOffset.toNat + span.byteCount.toNat ≤ logicalBytes destination group

/-- The counters of the validator say what the spans have covered. -/
structure Coverage.Counts (x : PageScatter) (spans : List PageCopySpan) (coverage : Coverage) : Prop where
  length : coverage.covered.length = x.destinations.items.length
  covered : ∀ index bytes, coverage.covered[index]? = some bytes → bytes.toNat = coveredBytes spans index

theorem safe_validateSpan {spans : List PageCopySpan} {span : PageCopySpan} {coverage : Coverage}
    (hdestinations : ∀ destination ∈ x.destinations.items, x.DestinationFits destination)
    (hcounts : Coverage.Counts x spans coverage) :
    (x.validateSpan span coverage).Safe fun after =>
      x.SpanFits spans span ∧ Coverage.Counts x (spans ++ [span]) after := by
  unfold validateSpan
  refine (Safe.require _ _).bind fun _ hspan => ?_
  obtain ⟨-, -, hindex, -⟩ := hspan
  rw [BitVec.lt_def, NativeArray.count_toNat] at hindex
  refine (safe_checkedAdd _ _ _).bind fun arenaEnd harenaEnd => ?_
  refine (Safe.require _ _).bind fun _ harena => ?_
  rw [BitVec.le_def, harenaEnd] at harena
  refine (safe_checkedAdd _ _ _).bind fun snapshotEnd hsnapshotEnd => ?_
  refine (Safe.require _ _).bind fun _ hsnapshot => ?_
  rw [BitVec.le_def, hsnapshotEnd] at hsnapshot
  have hcovered : span.destinationIndex.toNat < coverage.covered.length := by
    rw [hcounts.length]
    exact hindex
  refine (Machine.runs_read hcovered).safe.bind fun covered hread => ?_
  refine (Safe.require _ _).bind fun _ hoffset => ?_
  have hbefore := hcounts.covered _ _ hread
  rw [← hoffset] at hbefore
  refine (safe_checkedAdd _ _ _).bind fun destinationEnd hdestinationEnd => ?_
  refine (Machine.runs_read hindex).safe.bind fun destination hdestination => ?_
  have hfits := hdestinations destination (List.mem_of_getElem? hdestination)
  refine (Machine.runs_read hfits.group).safe.bind fun group hgroup => ?_
  refine (safe_checkedMul _ _ _).bind fun expected hexpected => ?_
  refine (Safe.require _ _).bind fun _ hlogical => ?_
  rw [BitVec.le_def, hdestinationEnd, hexpected, widen_toNat, widen_toNat] at hlogical
  refine (Machine.runs_write hcovered destinationEnd).safe.bind fun after hafter => ?_
  refine Safe.pure ⟨⟨hindex, harena, hsnapshot, hbefore, ?_⟩, ?_, ?_⟩
  · intro other otherGroup hother hotherGroup
    rw [hdestination] at hother
    cases hother
    rw [hgroup] at hotherGroup
    cases hotherGroup
    exact hlogical
  · dsimp only
    rw [hafter, List.length_set, hcounts.length]
  · intro index bytes hbytes
    dsimp only at hbytes
    rw [hafter] at hbytes
    rw [coveredBytes_append]
    by_cases hsame : span.destinationIndex.toNat = index
    · rw [← hsame, List.getElem?_set_self hcovered] at hbytes
      cases hbytes
      rw [if_pos hsame, ← hsame, ← hbefore, hdestinationEnd]
    · rw [List.getElem?_set_ne hsame] at hbytes
      rw [if_neg hsame, Nat.add_zero]
      exact hcounts.covered index bytes hbytes

/-- What an accepted scatter is. -/
structure Accepted (x : PageScatter) : Prop where
  groups : ∀ group ∈ x.groups.items, x.GroupFits group
  destinations : ∀ destination ∈ x.destinations.items, x.DestinationFits destination
  spans : ∀ before span rest, x.spans.items = before ++ span :: rest → x.SpanFits before span
  covered : ∀ index destination group, x.destinations.items[index]? = some destination →
    x.groups.items[destination.groupIndex.toNat]? = some group →
    coveredBytes x.spans.items index = logicalBytes destination group

theorem safe_checkCovered {coverage : Coverage} {index : BitVec 32} {destination : PageDestination}
    (hdestination : x.DestinationFits destination) (hcounts : Coverage.Counts x x.spans.items coverage)
    (hindex : index.toNat < x.destinations.items.length) :
    (x.checkCovered coverage.covered index destination).Safe fun _ =>
      ∀ group, x.groups.items[destination.groupIndex.toNat]? = some group →
        coveredBytes x.spans.items index.toNat = logicalBytes destination group := by
  unfold checkCovered
  refine (Machine.runs_read hdestination.group).safe.bind fun group hgroup => ?_
  refine (safe_checkedMul _ _ _).bind fun expected hexpected => ?_
  refine (Machine.runs_read (by rw [hcounts.length]; exact hindex)).safe.bind fun bytes hbytes => ?_
  refine (Safe.require _ _).weaken fun _ heq => ?_
  intro other hother
  rw [hgroup] at hother
  cases hother
  rw [← hcounts.covered _ _ hbytes, heq, hexpected, widen_toNat, widen_toNat]
  rfl

/-- No operation of the validator wraps, and what it accepts is an accepted scatter. -/
theorem safe_validate (x : PageScatter) : x.validate.Safe fun _ => x.Accepted := by
  unfold validate
  refine (Safe.require _ _).bind fun _ hne => ?_
  have hgroupLoop : (Machine.forEach (fun (_ : BitVec 32) group expected => x.validateGroup group expected)
      0 x.groups.items 0).Safe fun _ => ∀ group ∈ x.groups.items, x.GroupFits group := by
    refine Machine.Reading.safe.forEach (fun done (_ : BitVec 64) => ∀ group ∈ done, x.GroupFits group) (by decide) ?_
      x.groups.fits (by simp)
    intro _ done group rest expected _ _ hdone
    refine (safe_validateGroup group expected).weaken fun _ hfits => ?_
    rw [List.forall_mem_append]
    exact ⟨hdone, by simpa using hfits⟩
  refine hgroupLoop.bind fun _ hgroups => ?_
  refine (Safe.require _ _).bind fun _ _ => ?_
  have hpositive : 0 < x.groups.items.length := List.length_pos_iff.mpr hne.2.2.2.1
  have hdestinationLoop : (Machine.forEach x.validateDestination 0 x.destinations.items 0).Safe fun expected =>
      (∀ destination ∈ x.destinations.items, x.DestinationFits destination) ∧
        expected.toNat < x.groups.items.length := by
    refine Machine.Reading.safe.forEach (fun done (expected : BitVec 32) =>
      (∀ destination ∈ done, x.DestinationFits destination) ∧ expected.toNat < x.groups.items.length) (by decide) ?_
      x.destinations.fits ⟨by simp, hpositive⟩
    intro _ done destination rest expected _ _ hdone
    refine (safe_validateDestination hgroups hdone.2).weaken fun following hfits => ?_
    rw [List.forall_mem_append]
    exact ⟨⟨hdone.1, by simpa using hfits.1⟩, hfits.2⟩
  refine hdestinationLoop.bind fun expectedGroup hdestinations => ?_
  have hcount := x.groups.fits
  have hone : (1 : BitVec 32).toNat = 1 := rfl
  refine (Machine.runs_add (by omega)).safe.bind fun groupEnd _ => ?_
  refine (Safe.require _ _).bind fun _ _ => ?_
  have hspanLoop : (Machine.forEach (fun (_ : BitVec 32) span coverage => x.validateSpan span coverage) 0 x.spans.items
      ⟨List.replicate x.destinations.items.length 0, 0⟩).Safe fun coverage =>
      (∀ before span rest, x.spans.items = before ++ span :: rest → x.SpanFits before span) ∧
        Coverage.Counts x x.spans.items coverage := by
    refine Machine.Reading.safe.forEach (fun done coverage =>
      (∀ before span rest, done = before ++ span :: rest → x.SpanFits before span) ∧ Coverage.Counts x done coverage)
      (by decide) ?_ x.spans.fits ⟨by simp, by simp, ?_⟩
    · intro _ done span rest coverage _ _ hdone
      refine (safe_validateSpan hdestinations.1 hdone.2).weaken fun after hafter => ?_
      refine ⟨fun before other others hsplit => ?_, hafter.2⟩
      rcases List.eq_nil_or_concat others with rfl | ⟨others, last, rfl⟩
      · obtain ⟨rfl, hlast⟩ := List.append_inj' hsplit rfl
        cases hlast
        exact hafter.1
      · rw [List.concat_eq_append, ← List.cons_append, ← List.append_assoc] at hsplit
        exact hdone.1 before other others (List.append_inj' hsplit rfl).1
    · intro index bytes hbytes
      dsimp only at hbytes
      rw [List.getElem?_replicate] at hbytes
      split_ifs at hbytes
      cases hbytes
      rfl
  refine hspanLoop.bind fun coverage hspans => ?_
  refine (Safe.require _ _).bind fun _ _ => ?_
  have hcoveredLoop : (Machine.forEach (fun (index : BitVec 32) destination _ =>
      x.checkCovered coverage.covered index destination) 0 x.destinations.items ()).Safe fun _ =>
      ∀ index destination group, x.destinations.items[index]? = some destination →
        x.groups.items[destination.groupIndex.toNat]? = some group →
        coveredBytes x.spans.items index = logicalBytes destination group := by
    refine Machine.Reading.safe.forEach (fun done (_ : Unit) =>
      ∀ index destination group, done[index]? = some destination →
        x.groups.items[destination.groupIndex.toNat]? = some group →
        coveredBytes x.spans.items index = logicalBytes destination group) (by decide) ?_ x.destinations.fits
      (by simp)
    intro position done destination rest _ hitems hposition hdone
    have hmem : destination ∈ x.destinations.items := by
      rw [hitems]
      simp
    have hlt : position.toNat < x.destinations.items.length := by
      rw [hitems, List.length_append, List.length_cons, hposition]
      omega
    refine (safe_checkCovered (hdestinations.1 destination hmem) hspans.2 hlt).weaken fun _ hcovered => ?_
    intro index other group hother hgroup
    by_cases hindex : index < done.length
    · rw [List.getElem?_append_left hindex] at hother
      exact hdone index other group hother hgroup
    · rw [List.getElem?_append_right (Nat.not_lt.mp hindex)] at hother
      have hzero : index - done.length = 0 := by
        by_contra hne
        rw [List.getElem?_eq_none (by rw [List.length_singleton]; omega)] at hother
        cases hother
      have hsame : index = position.toNat := by omega
      rw [hzero] at hother
      cases hother
      rw [hsame]
      exact hcovered group hgroup
  exact hcoveredLoop.weaken fun _ hcovered => ⟨hgroups, hdestinations.1, hspans.1, hcovered⟩

end PageScatter

end SparkCache.Placement
