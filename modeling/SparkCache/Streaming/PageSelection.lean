import SparkCache.Streaming.PageCapture

/-!
# Pages of a span and of its extension

Which physical pages hold a span of tokens, by the reuse policy of each group, and which of them an extension
of a stored base captures again.
-/
namespace SparkCache.Streaming
open Pages

/-- What is read of an entry of `kv_group_topology`, with what its construction checks. -/
@[ext]
structure GroupTopology where
  logicalTokensPerBlock : ℕ
  reusePolicy : ReusePolicy
  reuseWindowTokens : Option ℕ
  positive : 0 < logicalTokensPerBlock
  window : if reusePolicy = .sliding then reuseWindowTokens.any (1 < ·) = true else reuseWindowTokens = none

instance : DecidableEq GroupTopology := fun _ _ => decidable_of_iff _ GroupTopology.ext_iff.symm

/-- Pages of `width` tokens that cover `tokens` tokens. -/
def coveringPages (tokens width : ℕ) : ℕ := (tokens + width - 1) / width

namespace GroupTopology

/-- The pages of a group that a span keeps. -/
def blockCount (t : GroupTopology) (spanTokens : ℕ) : Except CodecError ℕ :=
  match t.reusePolicy with
  | .full => .ok (coveringPages spanTokens t.logicalTokensPerBlock)
  | .sliding => match t.reuseWindowTokens with
    | none => .error (.codec "sliding page group has no reuse window")
    | some window => .ok (min (coveringPages spanTokens t.logicalTokensPerBlock)
        (coveringPages (window - 1) t.logicalTokensPerBlock))
  | .recurrentAlign => .ok 1

/-- The least table that is accepted. -/
def minimumTableBlocks (t : GroupTopology) (spanTokens : ℕ) : ℕ :=
  match t.reusePolicy with
  | .recurrentAlign => 1
  | .full | .sliding => coveringPages spanTokens t.logicalTokensPerBlock

/-- The blocks that hold the kept pages: the last ones before the boundary of the span. A recurrent group
has one checkpoint, in the table's last slot if no boundary block is handed over. -/
def chosenBlocks (t : GroupTopology) (override : Option ℤ) (group : List ℤ) (boundaryRequired selected : ℕ) :
    List ℤ :=
  match t.reusePolicy, override with
  | .recurrentAlign, some block => [block]
  | .recurrentAlign, none =>
      if group.length < boundaryRequired then group.drop (group.length - 1)
      else (group.drop (boundaryRequired - selected)).take selected
  | _, _ => (group.drop (boundaryRequired - selected)).take selected

/-- One turn of `_select_group_blocks_for_span`. -/
def selectBlocks (t : GroupTopology) (override : Option ℤ) (group : List ℤ) (spanTokens : ℕ) :
    Except CodecError (List ℤ) := do
  let selected ← t.blockCount spanTokens
  require (t.minimumTableBlocks spanTokens ≤ group.length)
    (.codec "request block table is shorter than the aligned cache span")
  let chosen := t.chosenBlocks override group (coveringPages spanTokens t.logicalTokensPerBlock) selected
  require (∀ block ∈ chosen, 0 < block) (.codec "selected page window contains vLLM's null block")
  require chosen.Nodup (.codec "selected page window contains duplicate physical blocks")
  return chosen

end GroupTopology

/-- The checks of the recurrent boundary blocks. An entry that is no pair of integers is none. -/
def readOverrides (topology : List GroupTopology) :
    List (ℕ × ℤ) → List (Option (ℤ × ℤ)) → Except CodecError (List (ℕ × ℤ))
  | overrides, [] => .ok overrides
  | _, none :: _ => .error (.codec "recurrent boundary override is malformed")
  | overrides, some (groupIndex, blockId) :: rest => do
      require (0 ≤ groupIndex ∧ groupIndex < topology.length ∧ overrides.lookup groupIndex.toNat = none ∧
          0 < blockId ∧ (topology[groupIndex.toNat]?).map GroupTopology.reusePolicy = some .recurrentAlign)
        (.codec "recurrent boundary override is incompatible")
      readOverrides topology ((groupIndex.toNat, blockId) :: overrides) rest

/-- The turns over the groups from an index on. -/
def selectEach (overrides : List (ℕ × ℤ)) (spanTokens : ℕ) :
    ℕ → List GroupTopology → List (List ℤ) → Except CodecError (List (List ℤ))
  | index, t :: topology, group :: groups => do
      let chosen ← t.selectBlocks (overrides.lookup index) group spanTokens
      let trimmed ← selectEach overrides spanTokens (index + 1) topology groups
      return chosen :: trimmed
  | _, _, _ => .ok []

/-- `_select_group_blocks_for_span` -/
def selectGroupBlocksForSpan (topology : List GroupTopology) (groups : List (List ℤ)) (spanTokens : ℕ)
    (recurrentBoundaryBlocks : List (Option (ℤ × ℤ))) : Except CodecError (List (List ℤ)) := do
  require (groups.length = topology.length) (.codec "request block tables disagree with page groups")
  let overrides ← readOverrides topology [] recurrentBoundaryBlocks
  selectEach overrides spanTokens 0 topology groups

/-- `_group_block_counts_for_span` -/
def groupBlockCountsForSpan : List GroupTopology → ℕ → Except CodecError (List ℕ)
  | [], _ => .ok []
  | t :: topology, spanTokens => do
      let required ← t.blockCount spanTokens
      let counts ← groupBlockCountsForSpan topology spanTokens
      return required :: counts

/-! ## Pages that an extension captures -/

structure ExtensionPages where
  selected : List (List ℤ)
  basePageCounts : List ℕ
  resultPageCounts : List ℕ
  reusedPagesByGroup : List ℕ
  deriving DecidableEq, Repr

/-- A full page before a complete base boundary is immutable; other state is captured again. -/
def reusablePages (policy : Str) (base boundary width : ℕ) : Except CaptureError ℕ :=
  if policy = "full" then .ok (if boundary % width = 0 then base else base - 1)
  else if policy = "sliding" ∨ policy = "recurrent_align" then .ok 0
  else .error (.capture "extension capture reuse policy is unsupported")

def extendGroup (boundary index : ℕ) (group : List ℤ) (baseCount logicalWidth : ℤ) (policy : Str) :
    Except CaptureError (ℕ × ℕ × List ℤ) := do
  let base ← positiveUint baseCount s!"base_page_counts[{index}]" uint32Max
  let width ← positiveUint logicalWidth s!"logical_tokens_per_page[{index}]" uint64Max
  require (base ≤ group.length) (.capture "base page count exceeds the result manager-page group")
  let reusable ← reusablePages policy base boundary width
  require (group.drop reusable ≠ []) (.capture "extension capture must include a page from every group")
  return (base, reusable, group.drop reusable)

def extendGroups (boundary : ℕ) :
    ℕ → List (List ℤ) → List ℤ → List ℤ → List Str → Except CaptureError (List (ℕ × ℕ × List ℤ))
  | index, group :: groups, base :: bases, width :: widths, policy :: policies => do
      let extended ← extendGroup boundary index group base width policy
      let rest ← extendGroups boundary (index + 1) groups bases widths policies
      return extended :: rest
  | _, _, _, _, _ => .ok []

/-- `select_manager_page_extension_pages` -/
def selectManagerPageExtensionPages (resultPhysicalPagesByGroup : List (List ℤ)) (basePageCounts : List ℤ)
    (logicalTokensPerPage : List ℤ) (reusePolicies : List Str) (baseBoundaryTokens : ℤ) :
    Except CaptureError ExtensionPages := do
  require (resultPhysicalPagesByGroup ≠ [] ∧
      resultPhysicalPagesByGroup.length = basePageCounts.length ∧
      basePageCounts.length = logicalTokensPerPage.length ∧
      logicalTokensPerPage.length = reusePolicies.length)
    (.capture "extension capture geometry must describe every manager-page group")
  let boundary ← positiveUint baseBoundaryTokens "base_boundary_tokens" uint64Max
  let extended ← extendGroups boundary 0 resultPhysicalPagesByGroup basePageCounts logicalTokensPerPage reusePolicies
  return ⟨extended.map fun e => e.2.2, extended.map fun e => e.1, resultPhysicalPagesByGroup.map List.length,
    extended.map fun e => e.2.1⟩

/-- The plan of an extension from `baseSpan` over selected pages. -/
def extensionPages (topology : List GroupTopology) (selected : List (List ℤ)) (bases : List ℕ) (baseSpan : ℕ) :
    Except CaptureError ExtensionPages :=
  selectManagerPageExtensionPages selected (bases.map fun n : ℕ => (n : ℤ))
    (topology.map fun t => (t.logicalTokensPerBlock : ℤ)) (topology.map fun t => t.reusePolicy.text) baseSpan

/-! ## Counts -/

theorem coveringPages_eq {width : ℕ} (h : 0 < width) (tokens : ℕ) :
    coveringPages tokens width = tokens / width + if tokens % width = 0 then 0 else 1 := by
  have hmod := Nat.mod_lt tokens h
  have hsplit := Nat.div_add_mod tokens width
  unfold coveringPages
  split_ifs with hrest
  · rw [Nat.div_eq_iff h]
    rw [Nat.add_zero, mul_comm]
    omega
  · rw [Nat.div_eq_iff h]
    rw [add_mul, one_mul, mul_comm]
    omega

theorem coveringPages_pos {tokens width : ℕ} (htokens : 0 < tokens) (hwidth : 0 < width) :
    0 < coveringPages tokens width :=
  Nat.div_pos (by omega) hwidth

theorem coveringPages_mono {before after : ℕ} (h : before ≤ after) (width : ℕ) :
    coveringPages before width ≤ coveringPages after width :=
  Nat.div_le_div_right (by omega)

theorem div_lt_coveringPages {before after width : ℕ} (h : before < after) (hwidth : 0 < width) :
    before / width < coveringPages after width := by
  have hle := Nat.div_mul_le_self before width
  rw [coveringPages, ← Nat.succ_le_iff, Nat.le_div_iff_mul_le hwidth, Nat.succ_mul]
  omega

namespace GroupTopology
variable {t : GroupTopology}

theorem blockCount_total (t : GroupTopology) (spanTokens : ℕ) : ∃ n, t.blockCount spanTokens = .ok n := by
  unfold blockCount
  split
  · exact ⟨_, rfl⟩
  · rename_i hsliding
    have hwindow := t.window
    rw [if_pos hsliding] at hwindow
    split
    · rename_i hnone
      rw [hnone] at hwindow
      cases hwindow
    · exact ⟨_, rfl⟩
  · exact ⟨_, rfl⟩

theorem blockCount_pos {spanTokens n : ℕ} (hspan : 0 < spanTokens) (h : t.blockCount spanTokens = .ok n) : 0 < n := by
  have hcover := coveringPages_pos hspan t.positive
  unfold blockCount at h
  split at h
  · cases h
    exact hcover
  · rename_i hsliding
    have hwindow := t.window
    rw [if_pos hsliding] at hwindow
    split at h
    · cases h
    · rename_i window heq
      rw [heq] at hwindow
      simp only [Option.any_some, decide_eq_true_eq] at hwindow
      cases h
      exact lt_min hcover (coveringPages_pos (by omega) t.positive)
  · cases h
    exact Nat.one_pos

theorem blockCount_mono {before after n m : ℕ} (h : before ≤ after) (hn : t.blockCount before = .ok n)
    (hm : t.blockCount after = .ok m) : n ≤ m := by
  have hcover := coveringPages_mono h t.logicalTokensPerBlock
  unfold blockCount at hn hm
  cases hpolicy : t.reusePolicy with
  | full =>
      rw [hpolicy] at hn hm
      cases hn
      cases hm
      exact hcover
  | sliding =>
      rw [hpolicy] at hn hm
      cases hwindow : t.reuseWindowTokens with
      | none =>
          rw [hwindow] at hn
          cases hn
      | some window =>
          rw [hwindow] at hn hm
          cases hn
          cases hm
          exact min_le_min_right _ hcover
  | recurrentAlign =>
      rw [hpolicy] at hn hm
      cases hn
      cases hm
      exact le_rfl

theorem blockCount_le {spanTokens n : ℕ} (hspan : 0 < spanTokens) (h : t.blockCount spanTokens = .ok n) :
    n ≤ coveringPages spanTokens t.logicalTokensPerBlock := by
  have hcover := coveringPages_pos hspan t.positive
  unfold blockCount at h
  split at h
  · cases h
    exact le_rfl
  · split at h
    · cases h
    · cases h
      exact min_le_left _ _
  · cases h
    exact hcover

theorem selectBlocks_eq_ok {override : Option ℤ} {group chosen : List ℤ} {spanTokens : ℕ} :
    t.selectBlocks override group spanTokens = .ok chosen ↔
      ∃ selected, t.blockCount spanTokens = .ok selected ∧ t.minimumTableBlocks spanTokens ≤ group.length ∧
        chosen = t.chosenBlocks override group (coveringPages spanTokens t.logicalTokensPerBlock) selected ∧
        (∀ block ∈ chosen, 0 < block) ∧ chosen.Nodup := by
  unfold selectBlocks
  simp only [bind_eq_ok, require_eq_ok, pure, Except.pure, Except.ok.injEq]
  constructor
  · rintro ⟨selected, hselected, _, hminimum, _, hpositive, _, hnodup, rfl⟩
    exact ⟨selected, hselected, hminimum, rfl, hpositive, hnodup⟩
  · rintro ⟨selected, hselected, hminimum, rfl, hpositive, hnodup⟩
    exact ⟨selected, hselected, (), hminimum, (), hpositive, (), hnodup, rfl⟩

/-- The selection of a group has as many blocks as are counted for it. -/
theorem selectBlocks_length {override : Option ℤ} {group chosen : List ℤ} {spanTokens : ℕ} (hspan : 0 < spanTokens)
    (h : t.selectBlocks override group spanTokens = .ok chosen) : t.blockCount spanTokens = .ok chosen.length := by
  obtain ⟨selected, hselected, hminimum, rfl, -, -⟩ := selectBlocks_eq_ok.mp h
  have hle := blockCount_le hspan hselected
  rw [hselected]
  have hslice : ∀ bound, bound ≤ group.length → selected ≤ bound →
      ((group.drop (bound - selected)).take selected).length = selected := by
    intro bound hbound hselected
    rw [List.length_take, List.length_drop]
    omega
  unfold chosenBlocks
  cases hpolicy : t.reusePolicy with
  | full =>
      rw [minimumTableBlocks, hpolicy] at hminimum
      dsimp only
      rw [hslice _ hminimum hle]
  | sliding =>
      rw [minimumTableBlocks, hpolicy] at hminimum
      dsimp only
      rw [hslice _ hminimum hle]
  | recurrentAlign =>
      rw [minimumTableBlocks, hpolicy] at hminimum
      have hone : selected = 1 := by
        rw [blockCount, hpolicy] at hselected
        cases hselected
        rfl
      cases override with
      | some block => rw [hone]; rfl
      | none =>
          dsimp only at hminimum ⊢
          by_cases hshort : group.length < coveringPages spanTokens t.logicalTokensPerBlock
          · rw [if_pos hshort, List.length_drop, hone]
            congr 1
            omega
          · rw [if_neg hshort, hslice _ (by omega) hle]

/-- The pages of a base that an extension reuses. -/
def reusedPages (t : GroupTopology) (boundary : ℕ) : ℕ :=
  match t.reusePolicy with
  | .full => boundary / t.logicalTokensPerBlock
  | .sliding | .recurrentAlign => 0

/-- They are the pages of a full group all of whose tokens lie below the boundary. -/
theorem lt_reusedPages {boundary page : ℕ} :
    page < t.reusedPages boundary ↔
      t.reusePolicy = .full ∧ (page + 1) * t.logicalTokensPerBlock ≤ boundary := by
  unfold reusedPages
  cases hpolicy : t.reusePolicy with
  | full =>
      rw [← Nat.succ_le_iff, Nat.le_div_iff_mul_le t.positive]
      simp
  | sliding => simp
  | recurrentAlign => simp

theorem reusablePages_eq {boundary base : ℕ} (h : t.blockCount boundary = .ok base) :
    reusablePages t.reusePolicy.text base boundary t.logicalTokensPerBlock = .ok (t.reusedPages boundary) := by
  unfold reusablePages reusedPages
  cases hpolicy : t.reusePolicy with
  | full =>
      rw [blockCount, hpolicy, coveringPages_eq t.positive] at h
      dsimp only at h
      cases h
      have hfull : ReusePolicy.full.text = "full" := rfl
      rw [if_pos hfull]
      by_cases hrest : boundary % t.logicalTokensPerBlock = 0
      · rw [if_pos hrest, if_pos hrest, Nat.add_zero]
      · rw [if_neg hrest, if_neg hrest, Nat.add_sub_cancel]
  | sliding => rfl
  | recurrentAlign => rfl

/-- Pages that are not reused are left after every base that is shorter than the result. -/
theorem reusedPages_lt {boundary span n : ℕ} (hboundary : 0 < boundary) (h : boundary < span)
    (hn : t.blockCount span = .ok n) : t.reusedPages boundary < n := by
  have hpos := blockCount_pos (hboundary.trans h) hn
  unfold reusedPages
  cases hpolicy : t.reusePolicy with
  | full =>
      rw [blockCount, hpolicy] at hn
      cases hn
      exact div_lt_coveringPages h t.positive
  | sliding => exact hpos
  | recurrentAlign => exact hpos

theorem chosenBlocks_full (hpolicy : t.reusePolicy = .full) (override : Option ℤ) (group : List ℤ) (required : ℕ) :
    t.chosenBlocks override group required required = group.take required := by
  unfold chosenBlocks
  rw [hpolicy, Nat.sub_self, List.drop_zero]

/-- Selecting at a shorter span from the same table puts the same blocks at the reused pages. -/
theorem selectBlocks_reused {override : Option ℤ} {group chosen : List ℤ} {boundary span : ℕ} (h : boundary < span)
    (hpolicy : t.reusePolicy = .full) (hselect : t.selectBlocks override group span = .ok chosen)
    (other : Option ℤ) :
    ∃ before, t.selectBlocks other group boundary = .ok before ∧
      ∀ page < t.reusedPages boundary, before[page]? = chosen[page]? ∧ page < before.length := by
  obtain ⟨selected, hselected, hminimum, rfl, hpositive, hnodup⟩ := selectBlocks_eq_ok.mp hselect
  have hcover := coveringPages_mono h.le t.logicalTokensPerBlock
  rw [minimumTableBlocks, hpolicy] at hminimum
  rw [blockCount, hpolicy] at hselected
  cases hselected
  rw [chosenBlocks_full hpolicy] at hpositive hnodup ⊢
  have hfirst : (group.take (coveringPages boundary t.logicalTokensPerBlock)).Sublist
      (group.take (coveringPages span t.logicalTokensPerBlock)) := by
    rw [← min_eq_left hcover, ← List.take_take]
    exact List.take_sublist _ _
  refine ⟨group.take (coveringPages boundary t.logicalTokensPerBlock), ?_, ?_⟩
  · rw [selectBlocks_eq_ok]
    refine ⟨coveringPages boundary t.logicalTokensPerBlock, ?_, ?_, ?_, ?_, ?_⟩
    · rw [blockCount, hpolicy]
    · rw [minimumTableBlocks, hpolicy]
      exact hcover.trans hminimum
    · rw [chosenBlocks_full hpolicy]
    · exact fun block hblock => hpositive block (hfirst.subset hblock)
    · exact hfirst.nodup hnodup
  · intro page hpage
    have hbelow : page < coveringPages boundary t.logicalTokensPerBlock := by
      rw [reusedPages, hpolicy] at hpage
      rw [coveringPages_eq t.positive]
      exact hpage.trans_le (Nat.le_add_right _ _)
    constructor
    · rw [List.getElem?_take_of_lt hbelow, List.getElem?_take_of_lt (hbelow.trans_le hcover)]
    · rw [List.length_take]
      have hlong := hcover.trans hminimum
      omega

end GroupTopology

/-! ## Groups -/

theorem groupBlockCountsForSpan_eq_ok {topology : List GroupTopology} {spanTokens : ℕ} {counts : List ℕ} :
    groupBlockCountsForSpan topology spanTokens = .ok counts ↔
      List.Forall₂ (fun t n => t.blockCount spanTokens = .ok n) topology counts := by
  induction topology generalizing counts with
  | nil =>
      rw [groupBlockCountsForSpan, List.forall₂_nil_left_iff, Except.ok.injEq, eq_comm]
  | cons t topology ih =>
      simp only [groupBlockCountsForSpan, bind_eq_ok, pure, Except.pure, Except.ok.injEq, ih,
        List.forall₂_cons_left_iff]
      constructor
      · rintro ⟨n, hn, rest, hrest, rfl⟩
        exact ⟨n, rest, hn, hrest, rfl⟩
      · rintro ⟨n, rest, hn, hrest, rfl⟩
        exact ⟨n, hn, rest, hrest, rfl⟩

theorem groupBlockCountsForSpan_total (topology : List GroupTopology) (spanTokens : ℕ) :
    ∃ counts, groupBlockCountsForSpan topology spanTokens = .ok counts := by
  simp only [groupBlockCountsForSpan_eq_ok]
  induction topology with
  | nil => exact ⟨[], .nil⟩
  | cons t topology ih =>
      obtain ⟨counts, hcounts⟩ := ih
      obtain ⟨n, hn⟩ := t.blockCount_total spanTokens
      exact ⟨n :: counts, .cons hn hcounts⟩

theorem selectEach_eq_ok {overrides : List (ℕ × ℤ)} {spanTokens index : ℕ} {topology : List GroupTopology}
    {groups trimmed : List (List ℤ)} (hlen : groups.length = topology.length)
    (h : selectEach overrides spanTokens index topology groups = .ok trimmed) :
    trimmed.length = topology.length ∧
      ∀ (i : ℕ) (t : GroupTopology), topology[i]? = some t → ∃ group chosen, groups[i]? = some group ∧ trimmed[i]? = some chosen ∧
        t.selectBlocks (overrides.lookup (index + i)) group spanTokens = .ok chosen := by
  induction topology generalizing index groups trimmed with
  | nil =>
      rw [selectEach] at h
      · cases h
        simp
      · simp
  | cons t topology ih =>
      cases groups with
      | nil => cases hlen
      | cons group groups =>
          simp only [selectEach, bind_eq_ok, pure, Except.pure, Except.ok.injEq] at h
          obtain ⟨chosen, hchosen, rest, hrest, rfl⟩ := h
          rw [List.length_cons, List.length_cons, Nat.add_right_cancel_iff] at hlen
          obtain ⟨hcount, hall⟩ := ih hlen hrest
          refine ⟨by rw [List.length_cons, List.length_cons, hcount], ?_⟩
          intro i t' ht'
          cases i with
          | zero =>
              cases ht'
              exact ⟨group, chosen, rfl, rfl, hchosen⟩
          | succ i =>
              obtain ⟨group', chosen', hgroup', hchosen', hselect⟩ := hall i t' ht'
              rw [Nat.add_right_comm, Nat.add_assoc] at hselect
              exact ⟨group', chosen', hgroup', hchosen', hselect⟩

theorem selectGroupBlocksForSpan_eq_ok {topology : List GroupTopology} {groups trimmed : List (List ℤ)}
    {spanTokens : ℕ} {boundaryBlocks : List (Option (ℤ × ℤ))}
    (h : selectGroupBlocksForSpan topology groups spanTokens boundaryBlocks = .ok trimmed) :
    ∃ overrides, trimmed.length = topology.length ∧
      ∀ (i : ℕ) (t : GroupTopology), topology[i]? = some t → ∃ group chosen, groups[i]? = some group ∧ trimmed[i]? = some chosen ∧
        t.selectBlocks (List.lookup i overrides) group spanTokens = .ok chosen := by
  simp only [selectGroupBlocksForSpan, bind_eq_ok, require_eq_ok] at h
  obtain ⟨_, hlen, overrides, -, h⟩ := h
  obtain ⟨hcount, hall⟩ := selectEach_eq_ok hlen h
  refine ⟨overrides, hcount, fun i t ht => ?_⟩
  have hgroup := hall i t ht
  rwa [Nat.zero_add] at hgroup

theorem positiveUint_cast {value n maximum : ℕ} {name : String} :
    positiveUint value name maximum = .ok n ↔ value = n ∧ 0 < n ∧ n ≤ maximum := by
  unfold positiveUint uint
  simp only [bind_eq_ok, require_eq_ok, pure, Except.pure, Except.ok.injEq]
  constructor
  · rintro ⟨_, ⟨_, ⟨-, hmax⟩, rfl⟩, _, hne, rfl⟩
    rw [Int.toNat_natCast] at hne ⊢
    exact ⟨rfl, by omega, by omega⟩
  · rintro ⟨rfl, hpos, hmax⟩
    exact ⟨value, ⟨(), ⟨by omega, by omega⟩, Int.toNat_natCast value⟩, (), by omega, rfl⟩

/-- One group of an extension: its base is no longer than its result, which has more pages than are reused. -/
structure GroupTopology.Extends (t : GroupTopology) (boundary base : ℕ) (pages : List ℤ) : Prop where
  count : t.blockCount boundary = .ok base
  positive : 0 < base
  fits : base ≤ pages.length
  more : t.reusedPages boundary < pages.length

theorem extendGroup_eq_ok {t : GroupTopology} {boundary index base : ℕ} {pages : List ℤ} {extended : ℕ × ℕ × List ℤ}
    (h : t.Extends boundary base pages) :
    extendGroup boundary index pages base t.logicalTokensPerBlock t.reusePolicy.text = .ok extended ↔
      base ≤ uint32Max ∧ t.logicalTokensPerBlock ≤ uint64Max ∧
        extended = (base, t.reusedPages boundary, pages.drop (t.reusedPages boundary)) := by
  have hmore : pages.drop (t.reusedPages boundary) ≠ [] := by
    rw [Ne, List.drop_eq_nil_iff]
    exact Nat.not_le.mpr h.more
  unfold extendGroup
  simp only [bind_eq_ok, positiveUint_cast, require_eq_ok, pure, Except.pure, Except.ok.injEq]
  constructor
  · rintro ⟨_, ⟨rfl, -, hbase⟩, _, ⟨rfl, -, hwidth⟩, _, -, reusable, hreusable, _, -, rfl⟩
    rw [t.reusablePages_eq h.count] at hreusable
    cases hreusable
    exact ⟨hbase, hwidth, rfl⟩
  · rintro ⟨hbase, hwidth, rfl⟩
    exact ⟨base, ⟨rfl, h.positive, hbase⟩, _, ⟨rfl, t.positive, hwidth⟩, (), h.fits, _, t.reusablePages_eq h.count, (),
      hmore, rfl⟩

/-- What an extension makes of each group. -/
def extendedGroups (topology : List GroupTopology) (boundary : ℕ) (bases : List ℕ) (selected : List (List ℤ)) :
    List (ℕ × ℕ × List ℤ) :=
  match topology, bases, selected with
  | t :: topology, base :: bases, pages :: selected =>
      (base, t.reusedPages boundary, pages.drop (t.reusedPages boundary)) ::
        extendedGroups topology boundary bases selected
  | _, _, _ => []

theorem extendGroups_eq_ok {topology : List GroupTopology} {boundary index : ℕ} {bases : List ℕ}
    {selected : List (List ℤ)} {extended : List (ℕ × ℕ × List ℤ)} (hbases : bases.length = topology.length)
    (hselected : selected.length = topology.length)
    (h : ∀ (i : ℕ) (t : GroupTopology) base pages, topology[i]? = some t → bases[i]? = some base →
      selected[i]? = some pages → t.Extends boundary base pages) :
    extendGroups boundary index selected (bases.map fun n : ℕ => (n : ℤ))
        (topology.map fun t => (t.logicalTokensPerBlock : ℤ)) (topology.map fun t => t.reusePolicy.text) =
          .ok extended ↔
      (∀ base ∈ bases, base ≤ uint32Max) ∧ (∀ t ∈ topology, t.logicalTokensPerBlock ≤ uint64Max) ∧
        extended = extendedGroups topology boundary bases selected := by
  induction topology generalizing index bases selected extended with
  | nil =>
      cases List.length_eq_zero_iff.mp hbases
      cases List.length_eq_zero_iff.mp hselected
      simp [extendGroups, extendedGroups, eq_comm]
  | cons t topology ih =>
      cases bases with
      | nil => cases hbases
      | cons base bases =>
          cases selected with
          | nil => cases hselected
          | cons pages selected =>
              rw [List.length_cons, List.length_cons, Nat.add_right_cancel_iff] at hbases hselected
              have hfirst := h 0 t base pages rfl rfl rfl
              have hrest := fun rest => @ih (index + 1) bases selected rest hbases hselected
                fun i t' b p ht hb hp => h (i + 1) t' b p ht hb hp
              simp only [extendGroups, extendedGroups, List.map_cons, bind_eq_ok, pure, Except.pure, Except.ok.injEq,
                extendGroup_eq_ok hfirst, hrest, List.forall_mem_cons]
              constructor
              · rintro ⟨_, ⟨hbase, hwidth, rfl⟩, _, ⟨hbases, hwidths, rfl⟩, rfl⟩
                exact ⟨⟨hbase, hbases⟩, ⟨hwidth, hwidths⟩, rfl⟩
              · rintro ⟨⟨hbase, hbases⟩, ⟨hwidth, hwidths⟩, rfl⟩
                exact ⟨_, ⟨hbase, hwidth, rfl⟩, _, ⟨hbases, hwidths, rfl⟩, rfl⟩

theorem extendedGroups_getElem? (boundary : ℕ) {topology : List GroupTopology} {bases : List ℕ}
    {selected : List (List ℤ)} {i base : ℕ} {t : GroupTopology} {pages : List ℤ} (ht : topology[i]? = some t)
    (hbase : bases[i]? = some base) (hpages : selected[i]? = some pages) :
    (extendedGroups topology boundary bases selected)[i]? =
      some (base, t.reusedPages boundary, pages.drop (t.reusedPages boundary)) := by
  induction i generalizing topology bases selected with
  | zero =>
      cases topology <;> cases bases <;> cases selected <;> simp_all [extendedGroups]
  | succ i ih =>
      cases topology <;> cases bases <;> cases selected <;> simp_all [extendedGroups]

theorem extendedGroups_length (boundary : ℕ) {topology : List GroupTopology} {bases : List ℕ}
    {selected : List (List ℤ)} (hbases : bases.length = topology.length)
    (hselected : selected.length = topology.length) :
    (extendedGroups topology boundary bases selected).length = topology.length := by
  induction topology generalizing bases selected with
  | nil => rfl
  | cons t topology ih =>
      cases bases with
      | nil => cases hbases
      | cons base bases =>
          cases selected with
          | nil => cases hselected
          | cons pages selected =>
              rw [List.length_cons, List.length_cons, Nat.add_right_cancel_iff] at hbases hselected
              rw [extendedGroups, List.length_cons, List.length_cons, ih hbases hselected]

theorem selectManagerPageExtensionPages_eq_ok {groups : List (List ℤ)} {bases widths : List ℤ} {policies : List Str}
    {boundary : ℕ} (hboundary : 0 < boundary) {e : ExtensionPages} :
    selectManagerPageExtensionPages groups bases widths policies boundary = .ok e ↔
      groups ≠ [] ∧ groups.length = bases.length ∧ bases.length = widths.length ∧ widths.length = policies.length ∧
        boundary ≤ uint64Max ∧ ∃ extended, extendGroups boundary 0 groups bases widths policies = .ok extended ∧
          e = ⟨extended.map fun e => e.2.2, extended.map fun e => e.1, groups.map List.length,
            extended.map fun e => e.2.1⟩ := by
  unfold selectManagerPageExtensionPages
  simp only [bind_eq_ok, require_eq_ok, positiveUint_cast, pure, Except.pure, Except.ok.injEq]
  constructor
  · rintro ⟨_, ⟨hne, hbases, hwidths, hpolicies⟩, _, ⟨rfl, -, hmax⟩, extended, hextended, rfl⟩
    exact ⟨hne, hbases, hwidths, hpolicies, hmax, extended, hextended, rfl⟩
  · rintro ⟨hne, hbases, hwidths, hpolicies, hmax, extended, hextended, rfl⟩
    exact ⟨(), ⟨hne, hbases, hwidths, hpolicies⟩, boundary, ⟨rfl, hboundary, hmax⟩, extended, hextended, rfl⟩

/-- The groups of an accepted selection extend what is counted for a shorter span. -/
theorem selected_extends {topology : List GroupTopology} {groups selected : List (List ℤ)} {overrides : List (ℕ × ℤ)}
    {bases : List ℕ} {base span : ℕ} (hbase : 0 < base) (hspan : base < span)
    (hbases : List.Forall₂ (fun t n => GroupTopology.blockCount t base = .ok n) topology bases)
    (hselect : ∀ (i : ℕ) (t : GroupTopology), topology[i]? = some t → ∃ group chosen, groups[i]? = some group ∧
      selected[i]? = some chosen ∧ t.selectBlocks (overrides.lookup i) group span = .ok chosen)
    {i count : ℕ} {t : GroupTopology} {pages : List ℤ} (ht : topology[i]? = some t) (hcount : bases[i]? = some count)
    (hpages : selected[i]? = some pages) : t.Extends base count pages := by
  obtain ⟨group, chosen, -, hchosen, hblocks⟩ := hselect i t ht
  rw [hpages] at hchosen
  cases hchosen
  obtain ⟨hit, rfl⟩ := List.getElem?_eq_some_iff.mp ht
  obtain ⟨hib, rfl⟩ := List.getElem?_eq_some_iff.mp hcount
  have hn : (topology[i]).blockCount base = .ok bases[i] := hbases.get hit hib
  have hm := GroupTopology.selectBlocks_length (hbase.trans hspan) hblocks
  exact ⟨hn, GroupTopology.blockCount_pos hbase hn, GroupTopology.blockCount_mono hspan.le hn hm,
    GroupTopology.reusedPages_lt hbase hspan hm⟩

/-- A selection at a span has the counted pages, and extends each shorter base within the planner's unsigned
ranges. The pages that are reused are the full ones below the base, and hold the blocks that a selection at the
base puts there. -/
theorem extensionPages_selected {topology : List GroupTopology} {groups selected : List (List ℤ)}
    {boundaryBlocks : List (Option (ℤ × ℤ))} {base span : ℕ} (hbase : 0 < base) (hspan : base < span)
    (hselect : selectGroupBlocksForSpan topology groups span boundaryBlocks = .ok selected) :
    groupBlockCountsForSpan topology span = .ok (selected.map List.length) ∧
    ∃ bases, groupBlockCountsForSpan topology base = .ok bases ∧
      ((∃ e, extensionPages topology selected bases base = .ok e) ↔
        topology ≠ [] ∧ base ≤ uint64Max ∧ (∀ t ∈ topology, t.logicalTokensPerBlock ≤ uint64Max) ∧
          ∀ n ∈ bases, n ≤ uint32Max) ∧
      ∀ e, extensionPages topology selected bases base = .ok e →
        e.selected.length = topology.length ∧ e.reusedPagesByGroup.length = topology.length ∧
        ∀ (i : ℕ) (t : GroupTopology), topology[i]? = some t → ∃ table pages reused,
          groups[i]? = some table ∧ selected[i]? = some pages ∧ e.reusedPagesByGroup[i]? = some reused ∧
          e.selected[i]? = some (pages.drop reused) ∧ pages.drop reused ≠ [] ∧
          (∀ page, page < reused ↔ t.reusePolicy = .full ∧ (page + 1) * t.logicalTokensPerBlock ≤ base) ∧
          (t.reusePolicy = .full → ∀ override, ∃ before, t.selectBlocks override table base = .ok before ∧
            ∀ page < reused, before[page]? = pages[page]? ∧ page < before.length) ∧
          ∀ otherBlocks whole, selectGroupBlocksForSpan topology groups base otherBlocks = .ok whole →
            ∃ before, whole[i]? = some before ∧ ∀ page < reused, before[page]? = pages[page]? ∧ page < before.length := by
  obtain ⟨overrides, hcount, hall⟩ := selectGroupBlocksForSpan_eq_ok hselect
  obtain ⟨bases, hcounts⟩ := groupBlockCountsForSpan_total topology base
  have hbases := groupBlockCountsForSpan_eq_ok.mp hcounts
  have hlength := hbases.length_eq.symm
  have hextends := fun (i : ℕ) (t : GroupTopology) n pages ht hn hp =>
    @selected_extends topology groups selected overrides bases base span hbase hspan hbases hall i n t pages ht hn hp
  have hmap : ∀ e, extensionPages topology selected bases base = .ok e ↔ topology ≠ [] ∧ base ≤ uint64Max ∧
      (∀ t ∈ topology, t.logicalTokensPerBlock ≤ uint64Max) ∧ (∀ n ∈ bases, n ≤ uint32Max) ∧
      e = ⟨(extendedGroups topology base bases selected).map fun e => e.2.2,
        (extendedGroups topology base bases selected).map fun e => e.1, selected.map List.length,
        (extendedGroups topology base bases selected).map fun e => e.2.1⟩ := by
    intro e
    have hne : selected ≠ [] ↔ topology ≠ [] := by
      rw [← List.length_pos_iff, ← List.length_pos_iff, hcount]
    rw [extensionPages, selectManagerPageExtensionPages_eq_ok hbase]
    simp only [extendGroups_eq_ok hlength hcount hextends, List.length_map, hne, hcount, hlength]
    constructor
    · rintro ⟨hne, -, -, -, hmax, _, ⟨hn, hw, rfl⟩, rfl⟩
      exact ⟨hne, hmax, hw, hn, rfl⟩
    · rintro ⟨hne, hmax, hw, hn, rfl⟩
      exact ⟨hne, trivial, trivial, trivial, hmax, _, ⟨hn, hw, rfl⟩, rfl⟩
  refine ⟨?_, bases, hcounts, ?_, ?_⟩
  · rw [groupBlockCountsForSpan_eq_ok, List.forall₂_iff_get]
    refine ⟨by rw [List.length_map, hcount], fun i hi hj => ?_⟩
    obtain ⟨group, chosen, -, hchosen, hblocks⟩ := hall i _ (List.getElem?_eq_getElem hi)
    obtain ⟨his, rfl⟩ := List.getElem?_eq_some_iff.mp hchosen
    simpa using GroupTopology.selectBlocks_length (hbase.trans hspan) hblocks
  · constructor
    · rintro ⟨e, he⟩
      obtain ⟨hne, hmax, hw, hn, -⟩ := (hmap e).mp he
      exact ⟨hne, hmax, hw, hn⟩
    · rintro ⟨hne, hmax, hw, hn⟩
      exact ⟨_, (hmap _).mpr ⟨hne, hmax, hw, hn, rfl⟩⟩
  · intro e he
    obtain ⟨-, -, -, -, rfl⟩ := (hmap e).mp he
    have hsize := extendedGroups_length base hlength hcount
    refine ⟨by rw [List.length_map, hsize], by rw [List.length_map, hsize], fun i t ht => ?_⟩
    obtain ⟨table, pages, htable, hpages, hblocks⟩ := hall i t ht
    have hi : i < bases.length := by
      rw [hlength]
      exact (List.getElem?_eq_some_iff.mp ht).1
    have hget := extendedGroups_getElem? base ht (List.getElem?_eq_getElem hi) hpages
    have hgroup := hextends i t _ pages ht (List.getElem?_eq_getElem hi) hpages
    refine ⟨table, pages, t.reusedPages base, htable, hpages, ?_, ?_, ?_, fun page => GroupTopology.lt_reusedPages, ?_, ?_⟩
    · rw [List.getElem?_map, hget]
      rfl
    · rw [List.getElem?_map, hget]
      rfl
    · rw [Ne, List.drop_eq_nil_iff]
      exact Nat.not_le.mpr hgroup.more
    · intro hpolicy override
      exact GroupTopology.selectBlocks_reused hspan hpolicy hblocks override
    · intro otherBlocks whole hwhole
      obtain ⟨others, -, hothers⟩ := selectGroupBlocksForSpan_eq_ok hwhole
      obtain ⟨table', before, htable', hbefore, hselected⟩ := hothers i t ht
      rw [htable] at htable'
      cases htable'
      refine ⟨before, hbefore, fun page hpage => ?_⟩
      have hpolicy := (GroupTopology.lt_reusedPages.mp hpage).1
      obtain ⟨before', hbefore', hsame⟩ := GroupTopology.selectBlocks_reused hspan hpolicy hblocks (others.lookup i)
      rw [hselected] at hbefore'
      cases hbefore'
      exact hsame page hpage

/-- A full group, a sliding group and a recurrent group with pages of four tokens. -/
def mixedTopology : List GroupTopology :=
  [⟨4, .full, none, by decide, by decide⟩, ⟨4, .sliding, some 6, by decide, by decide⟩,
    ⟨4, .recurrentAlign, none, by decide, by decide⟩]

theorem extensionPages_selected_mixed :
    ∃ bases e, groupBlockCountsForSpan mixedTopology 6 = .ok bases ∧
      extensionPages mixedTopology [[1, 2, 3], [11, 12], [7]] bases 6 = .ok e := by
  have hselect : selectGroupBlocksForSpan mixedTopology [[1, 2, 3], [10, 11, 12], [0, 0, 7]] 10 [] =
      .ok [[1, 2, 3], [11, 12], [7]] := by decide +kernel
  have hspan : 6 < 10 := by decide
  obtain ⟨-, bases, hbases, hruns, -⟩ := extensionPages_selected (by decide) hspan hselect
  have hcounts : groupBlockCountsForSpan mixedTopology 6 = .ok [2, 2, 1] := by decide +kernel
  rw [hbases] at hcounts
  cases hcounts
  obtain ⟨e, he⟩ := hruns.mpr ⟨by decide +kernel, by decide +kernel, by decide +kernel, by decide +kernel⟩
  exact ⟨_, e, hbases, he⟩

/-- A page of more tokens than an unsigned 64-bit integer holds. -/
def widePage : List GroupTopology := [⟨2 ^ 64, .full, none, by decide, by decide⟩]

/-- The selection accepts such a page; the extension planner raises. -/
theorem extensionPages_widePage :
    ¬ ∀ topology groups boundaryBlocks base span selected, 0 < base → base < span →
      selectGroupBlocksForSpan topology groups span boundaryBlocks = .ok selected →
      ∃ bases e, groupBlockCountsForSpan topology base = .ok bases ∧ extensionPages topology selected bases base = .ok e := by
  intro h
  have hselect : selectGroupBlocksForSpan widePage [[1]] 2 [] = .ok [[1]] := by decide +kernel
  obtain ⟨bases, e, hbases, he⟩ := h widePage [[1]] [] 1 2 [[1]] (by decide) (by decide) hselect
  have hcounts : groupBlockCountsForSpan widePage 1 = .ok [1] := by decide +kernel
  rw [hbases] at hcounts
  cases hcounts
  have hraises : (match extensionPages widePage [[1]] [1] 1 with
      | .ok _ => true
      | .error _ => false) = false := by
    decide +kernel
  rw [he] at hraises
  cases hraises

end SparkCache.Streaming
