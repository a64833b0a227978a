import SparkCache.Placement.Accepted

/-!
# What an accepted scatter copies

The loop over a span ends, stays in its arena, and writes the span's logical bytes in order; over all spans every
logical byte of a destination is written once.
-/
namespace SparkCache.Placement
open Machine (Safe Runs)

namespace PageScatter
variable {x : PageScatter}

theorem address_same_page {destination : PageDestination} {group : PageGroup} {byte more : ℕ}
    (h : byte % destination.bytesPerPage.toNat + more < destination.bytesPerPage.toNat) :
    x.address destination group (byte + more) = x.address destination group byte + more := by
  have hsplit := Nat.div_add_mod byte destination.bytesPerPage.toNat
  have hpositive : 0 < destination.bytesPerPage.toNat := by omega
  have hrest : byte + more = byte % destination.bytesPerPage.toNat + more +
      destination.bytesPerPage.toNat * (byte / destination.bytesPerPage.toNat) := by omega
  have hdiv : (byte + more) / destination.bytesPerPage.toNat = byte / destination.bytesPerPage.toNat := by
    rw [hrest, Nat.add_mul_div_left _ _ hpositive, Nat.div_eq_of_lt h, Nat.zero_add]
  have hmod : (byte + more) % destination.bytesPerPage.toNat = byte % destination.bytesPerPage.toNat + more := by
    rw [hrest, Nat.add_mul_mod_self_left, Nat.mod_eq_of_lt h]
  unfold address
  rw [hdiv, hmod]
  omega

/-- A destination with the group that its index names. -/
structure Placed (x : PageScatter) (destination : PageDestination) (group : PageGroup) : Prop where
  found : x.groups.items[destination.groupIndex.toNat]? = some group
  range : x.DestinationFits destination
  vector : x.GroupFits group

/-- The slot of a logical byte, and that its page is in the destination. -/
theorem Placed.slot {destination : PageDestination} {group : PageGroup} (h : x.Placed destination group) {page : ℕ}
    (hpage : page < group.slotCount.toNat) :
    ∃ slot, x.slots.items[group.firstSlotIndex.toNat + page]? = some slot ∧
      (x.groupSlots group)[page]? = some slot ∧ slot.toNat < destination.destinationPages.toNat := by
  have hslots := h.vector.slots
  have hlt : group.firstSlotIndex.toNat + page < x.slots.items.length := by omega
  have hget : (x.groupSlots group)[page]? = some x.slots.items[group.firstSlotIndex.toNat + page] := by
    rw [groupSlots, List.getElem?_take_of_lt hpage, List.getElem?_drop, List.getElem?_eq_getElem hlt]
  exact ⟨_, List.getElem?_eq_getElem hlt, hget, h.range.slots group h.found _ (List.mem_of_getElem? hget)⟩

/-- A page of a destination is in its address range. -/
theorem page_le {destination : PageDestination} {page : ℕ}
    (hpage : page < destination.destinationPages.toNat) :
    page * destination.destinationPageStrideBytes.toNat ≤
      (destination.destinationPages.toNat - 1) * destination.destinationPageStrideBytes.toNat :=
  Nat.mul_le_mul_right _ (by omega)

theorem logicalBytes_lt (destination : PageDestination) (group : PageGroup) :
    logicalBytes destination group < 2 ^ 64 := by
  have hcount := group.slotCount.isLt
  have hbytes := destination.bytesPerPage.isLt
  have hle := Nat.mul_le_mul (Nat.le_of_lt_succ hcount) (Nat.le_of_lt_succ hbytes)
  unfold logicalBytes
  omega

/-- A cursor whose bytes are in the arena and in the destination. -/
structure Cursor.Fits (x : PageScatter) (destination : PageDestination) (group : PageGroup) (cursor : Cursor) : Prop where
  arena : cursor.source.toNat + cursor.remaining.toNat ≤ x.arenaUsedBytes.toNat
  logical : cursor.logicalByte.toNat + cursor.remaining.toNat ≤ logicalBytes destination group

/-- What one turn copies: part of a page, at the place of its logical bytes. -/
structure Copies (x : PageScatter) (index : BitVec 32) (destination : PageDestination) (group : PageGroup)
    (cursor : Cursor) (copy : Copy) (after : Cursor) : Prop where
  index : copy.destinationIndex = index
  positive : 0 < copy.size.toNat
  size : copy.size.toNat ≤ cursor.remaining.toNat
  addresses : copy.addresses =
    (List.range' cursor.logicalByte.toNat copy.size.toNat).map (x.address destination group)
  source : copy.source = cursor.source
  nextSource : after.source.toNat = cursor.source.toNat + copy.size.toNat
  nextLogical : after.logicalByte.toNat = cursor.logicalByte.toNat + copy.size.toNat
  nextRemaining : after.remaining.toNat = cursor.remaining.toNat - copy.size.toNat

theorem runs_copyPage {index : BitVec 32} {destination : PageDestination} {group : PageGroup} {cursor : Cursor}
    (h : x.Placed destination group) (hcursor : Cursor.Fits x destination group cursor)
    (hremaining : 0 < cursor.remaining.toNat) :
    (x.copyPage index destination group cursor).Runs fun r => x.Copies index destination group cursor r.1 r.2 := by
  have hpositive := h.range.positive
  have hlogical := hcursor.logical
  have hbytes := logicalBytes_lt destination group
  have harena := hcursor.arena
  have hused := x.arenaUsedBytes.isLt
  have hslots := h.vector.slots
  have hfits := x.slots.fits
  have hpageLt : cursor.logicalByte.toNat / destination.bytesPerPage.toNat < group.slotCount.toNat := by
    rw [Nat.div_lt_iff_lt_mul hpositive]
    unfold logicalBytes at hlogical
    omega
  have hmod := Nat.mod_lt cursor.logicalByte.toNat hpositive
  have hwidth := destination.bytesPerPage.isLt
  have hcount := group.slotCount.isLt
  obtain ⟨slot, hslot, -, hpage⟩ := h.slot hpageLt
  have hrange := page_le hpage
  have haddresses := h.range.addresses
  unfold copyPage
  refine (Machine.runs_div (by rw [widen_toNat]; exact hpositive)).bind fun logicalPage hlogicalPage => ?_
  refine (Machine.runs_mod (by rw [widen_toNat]; exact hpositive)).bind fun offset hoffset => ?_
  rw [widen_toNat] at hlogicalPage hoffset
  refine (Machine.runs_narrow (by omega)).bind fun pageOffset hpageOffset => ?_
  refine (Machine.runs_narrow (by omega)).bind fun slotIndex hslotIndex => ?_
  rw [hoffset] at hpageOffset
  rw [hlogicalPage] at hslotIndex
  refine (Machine.runs_add (by omega)).bind fun position hposition => ?_
  rw [hslotIndex] at hposition
  refine (Machine.runs_read (by omega)).bind fun physicalPage hphysical => ?_
  rw [hposition, hslot] at hphysical
  cases hphysical
  refine (Machine.runs_sub (by omega)).bind fun pageRemaining hpageRemaining => ?_
  rw [hpageOffset] at hpageRemaining
  generalize hcopied : (if pageRemaining.setWidth 64 < cursor.remaining then pageRemaining.setWidth 64
    else cursor.remaining) = copied
  have hcopiedNat : copied.toNat = min pageRemaining.toNat cursor.remaining.toNat := by
    rw [← hcopied]
    split_ifs with hlt
    · rw [BitVec.lt_def, widen_toNat] at hlt
      rw [widen_toNat, min_eq_left hlt.le]
    · rw [BitVec.lt_def, widen_toNat, Nat.not_lt] at hlt
      rw [min_eq_right hlt]
  refine (Machine.runs_mul (by rw [widen_toNat, widen_toNat]; omega)).bind fun pageStart hpageStart => ?_
  rw [widen_toNat, widen_toNat] at hpageStart
  refine (Machine.runs_add (by omega)).bind fun page hpageAddress => ?_
  refine (Machine.runs_add (by rw [widen_toNat]; omega)).bind fun target htarget => ?_
  rw [widen_toNat, hpageAddress, hpageStart, hpageOffset] at htarget
  refine (Machine.runs_add (by omega)).bind fun source hsource => ?_
  refine (Machine.runs_add (by omega)).bind fun logicalByte hlogicalByte => ?_
  refine (Machine.runs_sub (by omega)).bind fun remaining hrest => ?_
  refine Runs.pure ⟨rfl, by dsimp only; omega, by dsimp only; omega, ?_, rfl, hsource, hlogicalByte, hrest⟩
  have hhere : target.toNat = x.address destination group cursor.logicalByte.toNat := by
    rw [htarget, address, List.getD_eq_getElem?_getD, hslot, Option.getD_some]
  rw [Copy.addresses]
  dsimp only
  apply List.ext_getElem
  · simp
  · intro i hi _
    rw [List.length_range'] at hi
    rw [List.getElem_map, List.getElem_range', List.getElem_range', one_mul, hhere,
      address_same_page (by omega)]

theorem runs_copyPages {index : BitVec 32} {destination : PageDestination} {group : PageGroup} {cursor : Cursor}
    {fuel : ℕ} (h : x.Placed destination group) (hcursor : Cursor.Fits x destination group cursor)
    (hfuel : cursor.remaining.toNat ≤ fuel) :
    (x.copyPages index destination group fuel cursor).Runs fun copies =>
      (∀ copy ∈ copies, copy.destinationIndex = index) ∧
      copies.flatMap Copy.addresses =
        (List.range' cursor.logicalByte.toNat cursor.remaining.toNat).map (x.address destination group) ∧
      copies.flatMap Copy.sources = List.range' cursor.source.toNat cursor.remaining.toNat := by
  induction fuel generalizing cursor with
  | zero =>
      have hzero : cursor.remaining = 0 := BitVec.eq_of_toNat_eq (Nat.le_zero.mp hfuel)
      rw [copyPages, if_pos hzero]
      refine Runs.pure ⟨by simp, ?_, ?_⟩
      · simp [hzero]
      · simp [hzero]
  | succ fuel ih =>
      by_cases hzero : cursor.remaining = 0
      · rw [copyPages, if_pos hzero]
        refine Runs.pure ⟨by simp, ?_, ?_⟩
        · simp [hzero]
        · simp [hzero]
      · rw [copyPages, if_neg hzero]
        refine (runs_copyPage h hcursor (ne_zero_iff_pos.mp hzero)).bind ?_
        rintro ⟨copy, after⟩ hcopy
        have hpositive := hcopy.positive
        have hsize := hcopy.size
        have hnext := hcopy.nextRemaining
        have hsource := hcopy.nextSource
        have hlogical := hcopy.nextLogical
        dsimp only at hpositive hsize hnext hsource hlogical
        have hafter : Cursor.Fits x destination group after := by
          have harena := hcursor.arena
          have hbytes := hcursor.logical
          exact ⟨by omega, by omega⟩
        refine (ih hafter (by omega)).bind fun copies hcopies => ?_
        have htotal : cursor.remaining.toNat = copy.size.toNat + after.remaining.toNat := by omega
        refine Runs.pure ⟨?_, ?_, ?_⟩
        · rw [List.forall_mem_cons]
          exact ⟨hcopy.index, hcopies.1⟩
        · rw [List.flatMap_cons, hcopies.2.1, hcopy.addresses, htotal, ← List.range'_append_1, List.map_append, hlogical]
        · rw [List.flatMap_cons, hcopies.2.2, Copy.sources, htotal, ← List.range'_append_1, hsource, hcopy.source]

theorem Accepted.placed (h : x.Accepted) {index : ℕ} {destination : PageDestination}
    (hdestination : x.destinations.items[index]? = some destination) : ∃ group, x.Placed destination group := by
  have hfits := h.destinations destination (List.mem_of_getElem? hdestination)
  exact ⟨_, List.getElem?_eq_getElem hfits.group, hfits, h.groups _ (List.getElem_mem hfits.group)⟩

/-- What the loop has copied after some spans. -/
structure Copied (x : PageScatter) (spans : List PageCopySpan) (copies : List Copy) : Prop where
  sources : copies.flatMap Copy.sources =
    spans.flatMap fun span => List.range' span.arenaOffsetBytes.toNat span.byteCount.toNat
  written : ∀ (index : ℕ) destination group, x.destinations.items[index]? = some destination →
    x.groups.items[destination.groupIndex.toNat]? = some group →
    (copies.filter fun copy => copy.destinationIndex.toNat = index).flatMap Copy.addresses =
      (List.range (coveredBytes spans index)).map (x.address destination group)

theorem runs_copySpan {before : List PageCopySpan} {span : PageCopySpan} {rest : List PageCopySpan} {fuel : ℕ}
    {copies : List Copy} (h : x.Accepted) (hspans : x.spans.items = before ++ span :: rest)
    (hfuel : x.snapshotBytes.toNat ≤ fuel) (hcopied : x.Copied before copies) :
    (x.copySpan fuel span copies).Runs fun copies => x.Copied (before ++ [span]) copies := by
  have hspan := h.spans before span rest hspans
  have hsnapshot := hspan.snapshot
  unfold copySpan
  refine (Machine.runs_read hspan.destination).bind fun destination hdestination => ?_
  obtain ⟨group, hplaced⟩ := h.placed hdestination
  have hgroup := hplaced.found
  refine (Machine.runs_read hplaced.range.group).bind fun found hfound => ?_
  rw [hgroup] at hfound
  cases hfound
  have hlogical := hspan.logical destination group hdestination hgroup
  have hcursor : Cursor.Fits x destination group ⟨span.arenaOffsetBytes, span.destinationByteOffset, span.byteCount⟩ :=
    ⟨hspan.arena, hlogical⟩
  have hturns : span.byteCount.toNat ≤ fuel := by omega
  have hpages := @runs_copyPages x span.destinationIndex destination group _ fuel hplaced hcursor hturns
  refine hpages.bind fun more hmore => ?_
  dsimp only at hmore
  obtain ⟨hindex, haddresses, hsources⟩ := hmore
  refine Runs.pure ⟨?_, ?_⟩
  · rw [List.flatMap_append, hcopied.sources, hsources, List.flatMap_append]
    simp
  · intro index other otherGroup hother hotherGroup
    rw [List.filter_append, List.flatMap_append, hcopied.written index other otherGroup hother hotherGroup,
      coveredBytes_append]
    by_cases hsame : span.destinationIndex.toNat = index
    · have hall : (more.filter fun copy => copy.destinationIndex.toNat = index) = more := by
        rw [List.filter_eq_self]
        intro copy hcopy
        rw [hindex copy hcopy]
        exact decide_eq_true hsame
      rw [← hsame, hdestination] at hother
      cases hother
      rw [hgroup] at hotherGroup
      cases hotherGroup
      rw [hall, haddresses, if_pos hsame, hspan.offset, hsame, List.range_add, List.map_append, List.range'_eq_map_range]
    · have hnone : (more.filter fun copy => copy.destinationIndex.toNat = index) = [] := by
        rw [List.filter_eq_nil_iff]
        intro copy hcopy
        rw [hindex copy hcopy]
        simpa using hsame
      rw [hnone, if_neg hsame, List.flatMap_nil, List.append_nil, Nat.add_zero]

/-- Distinct logical bytes of a destination have distinct addresses. -/
theorem Placed.address_inj {destination : PageDestination} {group : PageGroup} (h : x.Placed destination group)
    {byte other : ℕ} (hbyte : byte < logicalBytes destination group) (hother : other < logicalBytes destination group)
    (heq : x.address destination group byte = x.address destination group other) : byte = other := by
  have hpositive := h.range.positive
  have hstride := h.range.stride
  have hpage : ∀ byte, byte < logicalBytes destination group →
      byte / destination.bytesPerPage.toNat < group.slotCount.toNat := by
    intro byte hbyte
    rw [Nat.div_lt_iff_lt_mul hpositive]
    exact hbyte
  obtain ⟨slot, hslot, hget, -⟩ := h.slot (hpage byte hbyte)
  obtain ⟨slot', hslot', hget', -⟩ := h.slot (hpage other hother)
  have hmod := Nat.mod_lt byte hpositive
  have hmod' := Nat.mod_lt other hpositive
  unfold address at heq
  rw [List.getD_eq_getElem?_getD, List.getD_eq_getElem?_getD, hslot, hslot', Option.getD_some, Option.getD_some,
    Nat.add_assoc, Nat.add_assoc, Nat.add_left_cancel_iff] at heq
  have hslots : slot = slot' := by
    apply BitVec.eq_of_toNat_eq
    have hquotient := congrArg (· / destination.destinationPageStrideBytes.toNat) heq
    rw [Nat.mul_comm, Nat.mul_comm slot'.toNat, Nat.mul_add_div (by omega), Nat.mul_add_div (by omega),
      Nat.div_eq_of_lt (by omega), Nat.div_eq_of_lt (by omega), Nat.add_zero, Nat.add_zero] at hquotient
    exact hquotient
  subst hslots
  have hsamePage : byte / destination.bytesPerPage.toNat = other / destination.bytesPerPage.toNat := by
    obtain ⟨hi, hgeti⟩ := List.getElem?_eq_some_iff.mp hget
    obtain ⟨hj, hgetj⟩ := List.getElem?_eq_some_iff.mp hget'
    exact (h.vector.nodup.getElem_inj_iff).mp (hgeti.trans hgetj.symm)
  have hsplit := Nat.div_add_mod byte destination.bytesPerPage.toNat
  have hsplit' := Nat.div_add_mod other destination.bytesPerPage.toNat
  rw [hsamePage] at hsplit
  omega

/-- Every address is in the destination's range. -/
theorem Placed.address_range {destination : PageDestination} {group : PageGroup} (h : x.Placed destination group)
    {byte : ℕ} (hbyte : byte < logicalBytes destination group) :
    destination.destinationBase.toNat ≤ x.address destination group byte ∧
      x.address destination group byte < destination.destinationBase.toNat + (destination.destinationPages.toNat - 1) *
        destination.destinationPageStrideBytes.toNat + destination.bytesPerPage.toNat := by
  have hpositive := h.range.positive
  have hpage : byte / destination.bytesPerPage.toNat < group.slotCount.toNat := by
    rw [Nat.div_lt_iff_lt_mul hpositive]
    exact hbyte
  obtain ⟨slot, hslot, -, hlt⟩ := h.slot hpage
  have hle := page_le hlt
  have hmod := Nat.mod_lt byte hpositive
  unfold address
  rw [List.getD_eq_getElem?_getD, hslot, Option.getD_some]
  omega

/-- A scatter that the validator accepts ends without a wrap, reads only the used arena, and writes every logical
byte of every destination once, at its page and in the destination's range. -/
theorem referenceScatterPages_accepted (x : PageScatter) (arenaBase : BitVec 64) (fuel : ℕ) (harena : arenaBase ≠ 0)
    (haccepted : x.validate.outcome = .ok ()) (hfuel : x.snapshotBytes.toNat ≤ fuel) :
    x.validate.faulted = false ∧
    ∃ copies, (x.referenceScatterPages fuel arenaBase).outcome = .ok copies ∧
      (x.referenceScatterPages fuel arenaBase).faulted = false ∧
      (∀ offset ∈ copies.flatMap Copy.sources, offset < x.arenaUsedBytes.toNat) ∧
      ∀ (index : ℕ) destination, x.destinations.items[index]? = some destination →
        ∃ group, x.groups.items[destination.groupIndex.toNat]? = some group ∧
          (copies.filter fun copy => copy.destinationIndex.toNat = index).flatMap Copy.addresses =
            (List.range (group.slotCount.toNat * destination.bytesPerPage.toNat)).map (x.address destination group) ∧
          ((List.range (group.slotCount.toNat * destination.bytesPerPage.toNat)).map
            (x.address destination group)).Nodup ∧
          ∀ byte < group.slotCount.toNat * destination.bytesPerPage.toNat,
            destination.destinationBase.toNat ≤ x.address destination group byte ∧
              x.address destination group byte < destination.destinationBase.toNat +
                (destination.destinationPages.toNat - 1) * destination.destinationPageStrideBytes.toNat +
                destination.bytesPerPage.toNat := by
  obtain ⟨hclean, hvalid⟩ := x.safe_validate
  have h := hvalid () haccepted
  have hvalidate : x.validate.mapError ScatterError.invalidArgument = pure () := by
    ext1
    · rw [Machine.mapError, haccepted]
      rfl
    · exact hclean
  have hloop : (Machine.forEach (fun (_ : BitVec 32) span copies => x.copySpan fuel span copies) 0 x.spans.items
      []).Runs fun copies => x.Copied x.spans.items copies := by
    refine Machine.Reading.runs.forEach (fun done copies => x.Copied done copies) (by decide) ?_ x.spans.fits ⟨rfl, ?_⟩
    · intro _ done span rest copies hspans _ hcopied
      exact runs_copySpan h hspans hfuel hcopied
    · intro index destination group _ _
      rfl
  obtain ⟨copies, hrun, hcopied⟩ := hloop
  have hall : x.referenceScatterPages fuel arenaBase = pure copies := by
    unfold referenceScatterPages
    rw [Machine.require_pos harena, Machine.pure_bind, hvalidate, Machine.pure_bind, hrun]
  refine ⟨hclean, copies, by rw [hall]; rfl, by rw [hall]; rfl, ?_, ?_⟩
  · intro offset hoffset
    rw [hcopied.sources, List.mem_flatMap] at hoffset
    obtain ⟨span, hspan, hmem⟩ := hoffset
    obtain ⟨before, rest, hsplit⟩ := List.append_of_mem hspan
    have harenaEnd := (h.spans before span rest hsplit).arena
    rw [List.mem_range'_1] at hmem
    omega
  · intro index destination hdestination
    obtain ⟨group, hplaced⟩ := h.placed hdestination
    refine ⟨group, hplaced.found, ?_, ?_, fun byte hbyte => hplaced.address_range hbyte⟩
    · rw [hcopied.written index destination group hdestination hplaced.found,
        h.covered index destination group hdestination hplaced.found, logicalBytes]
    · refine List.Nodup.map_on ?_ List.nodup_range
      intro byte hbyte other hother heq
      rw [List.mem_range] at hbyte hother
      exact hplaced.address_inj hbyte hother heq

/-- Two pages of eight bytes, in two spans that meet inside the first page. -/
def twoPages : PageScatter where
  arenaUsedBytes := 40
  snapshotBytes := 16
  spans := ⟨[⟨24, 0, 0, 5, 0, 0⟩, ⟨2, 5, 5, 11, 0, 0⟩], by decide⟩
  destinations := ⟨[⟨4096, 4, 32, 8, 0, 0⟩], by decide⟩
  groups := ⟨[⟨0, 2, 0, 0⟩], by decide⟩
  slots := ⟨[3, 1], by decide⟩

theorem referenceScatterPages_accepted_twoPages :
    ∃ copies, (twoPages.referenceScatterPages 16 1).outcome = .ok copies ∧
      (copies.filter fun copy => copy.destinationIndex.toNat = 0).flatMap Copy.addresses =
        List.range' 4192 8 ++ List.range' 4128 8 := by
  obtain ⟨-, copies, hrun, -, -, hwritten⟩ :=
    referenceScatterPages_accepted twoPages 1 16 (by decide) (by decide +kernel) (by decide)
  obtain ⟨group, hgroup, haddresses, -, -⟩ := hwritten 0 ⟨4096, 4, 32, 8, 0, 0⟩ rfl
  cases hgroup
  refine ⟨copies, hrun, haddresses.trans ?_⟩
  decide +kernel

end PageScatter

end SparkCache.Placement
