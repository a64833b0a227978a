import SparkCache.Streaming.PageCapture

/-!
# Two planners of one capture

The native planner accepts what the planner over integers accepts, and plans the same spans.
-/
namespace SparkCache.Streaming
open Machine (Agrees)
open Pages (bind_eq_ok)

theorem getD_set {α : Type} {xs : List α} {i : ℕ} (h : i < xs.length) (a d : α) (j : ℕ) :
    (xs.set i a).getD j d = if i = j then a else xs.getD j d := by
  rw [List.getD_eq_getElem?_getD, List.getElem?_set, List.getD_eq_getElem?_getD]
  by_cases hij : i = j
  · subst hij
    simp [h]
  · simp [hij]

/-! ## Values of the native fields -/

structure ManagerPageSource.Fits (source : ManagerPageSource) : Prop where
  sourceBase : 0 ≤ source.sourceBase ∧ source.sourceBase ≤ uint64Max
  sourcePages : 0 ≤ source.sourcePages ∧ source.sourcePages ≤ uint64Max
  stride : 0 ≤ source.sourcePageStrideBytes ∧ source.sourcePageStrideBytes ≤ uint64Max
  width : 0 ≤ source.bytesPerPage ∧ source.bytesPerPage ≤ uint32Max
  group : 0 ≤ source.groupIndex ∧ source.groupIndex ≤ uint32Max
  layer : 0 ≤ source.layerOrdinal ∧ source.layerOrdinal ≤ uint32Max

/-- The values and the counts of a request fit the fields of the native structures. -/
structure Fits (sources : List ManagerPageSource) (groups : List (List ℤ)) (slotBytes : ℤ) : Prop where
  inventory : ∀ source ∈ sources, source.Fits
  pages : ∀ pageIds ∈ groups, ∀ page ∈ pageIds, 0 ≤ page ∧ page ≤ uint32Max
  slotBytes : 0 ≤ slotBytes ∧ slotBytes ≤ uint64Max
  sourceCount : sources.length ≤ uint32Max
  groupCount : groups.length ≤ uint32Max
  pageCount : groups.flatten.length ≤ uint32Max

def ManagerPageSource.native (source : ManagerPageSource) : NativeSource :=
  ⟨.ofInt 64 source.sourceBase, .ofInt 64 source.sourcePages, .ofInt 64 source.sourcePageStrideBytes,
    .ofInt 32 source.bytesPerPage, .ofInt 32 source.groupIndex, .ofInt 32 source.layerOrdinal, 0⟩

/-- The groups that `submit_pages` passes, from an offset on. -/
def packGroups {α : Type} : ℕ → List (List α) → List NativeGroup
  | _, [] => []
  | offset, pageIds :: rest =>
      ⟨.ofNat 32 offset, .ofNat 32 pageIds.length, (0, 0)⟩ :: packGroups (offset + pageIds.length) rest

def packPages (groups : List (List ℤ)) : List (BitVec 32) := groups.flatten.map (BitVec.ofInt 32)

theorem toNat_ofInt {w : ℕ} {value : ℤ} {maximum : ℕ} (h : 0 ≤ value ∧ value ≤ maximum)
    (hmax : maximum < 2 ^ w) : (BitVec.ofInt w value).toNat = value.toNat := by
  rw [BitVec.toNat_ofInt, Int.emod_eq_of_lt h.1 (by omega)]

theorem uint_eq_ok {value : ℤ} {name : String} {maximum n : ℕ} (h : 0 ≤ value ∧ value ≤ maximum) :
    uint value name maximum = .ok n ↔ n = value.toNat := by
  unfold uint
  simp only [bind_eq_ok, require_eq_ok, pure, Except.pure, Except.ok.injEq]
  constructor
  · rintro ⟨_, -, rfl⟩
    rfl
  · rintro rfl
    exact ⟨(), h, rfl⟩

theorem positiveUint_eq_ok {value : ℤ} {name : String} {maximum n : ℕ}
    (h : 0 ≤ value ∧ value ≤ maximum) :
    positiveUint value name maximum = .ok n ↔ 0 < value.toNat ∧ n = value.toNat := by
  unfold positiveUint
  simp only [bind_eq_ok, require_eq_ok, uint_eq_ok h, pure, Except.pure, Except.ok.injEq]
  constructor
  · rintro ⟨_, rfl, _, hpos, rfl⟩
    exact ⟨by omega, rfl⟩
  · rintro ⟨hpos, rfl⟩
    exact ⟨_, rfl, (), by omega, rfl⟩

/-! ## Checked arithmetic -/

theorem checkedAdd_eq {a b : BitVec 64} (detail : String) (h : a.toNat + b.toNat ≤ uint64Max) :
    ∃ c : BitVec 64, c.toNat = a.toNat + b.toNat ∧ checkedAdd a b detail = pure c := by
  have hmax : (BitVec.allOnes 64).toNat = uint64Max := by decide
  obtain ⟨room, hroom, heq⟩ :=
    Machine.sub_eq (ε := String) (a := BitVec.allOnes 64) (b := a) (by omega)
  obtain ⟨c, hc, hadd⟩ := Machine.add_eq (ε := String) (a := a) (b := b) (by
    unfold uint64Max at h
    omega)
  refine ⟨c, hc, ?_⟩
  unfold checkedAdd
  rw [heq, Machine.pure_bind, Machine.require_pos, Machine.pure_bind, hadd]
  rw [BitVec.le_def]
  omega

theorem checkedAdd_raise {left right : BitVec 64} (detail : String)
    (h : uint64Max < left.toNat + right.toNat) : checkedAdd left right detail = Machine.raise detail := by
  have hmax : (BitVec.allOnes 64).toNat = uint64Max := by decide
  have hle : left.toNat ≤ (BitVec.allOnes 64).toNat := by
    rw [hmax]
    exact Nat.le_pred_of_lt left.isLt
  obtain ⟨room, hroom, heq⟩ := Machine.sub_eq (ε := String) hle
  unfold checkedAdd
  rw [heq, Machine.pure_bind, Machine.require_neg, Machine.raise_bind]
  rw [BitVec.le_def]
  omega

theorem checkedMultiply_iff {left right : BitVec 64} :
    (left = 0 ∨ right ≤ BitVec.allOnes 64 / left) ↔ left.toNat * right.toNat ≤ uint64Max := by
  have hmax : (BitVec.allOnes 64).toNat = uint64Max := by decide
  by_cases hzero : left = 0
  · simp [hzero]
  · have hpos : 0 < left.toNat := by
      by_contra h
      exact hzero (BitVec.eq_of_toNat_eq (by simpa using h))
    rw [BitVec.le_def, BitVec.toNat_udiv, hmax, Nat.le_div_iff_mul_le hpos, Nat.mul_comm]
    exact or_iff_right hzero

theorem checkedMultiply_eq {a b : BitVec 64} (detail : String) (h : a.toNat * b.toNat ≤ uint64Max) :
    ∃ c : BitVec 64, c.toNat = a.toNat * b.toNat ∧ checkedMultiply a b detail = pure c := by
  obtain ⟨c, hc, hmul⟩ := Machine.mul_eq (ε := String) (a := a) (b := b) (by
    unfold uint64Max at h
    omega)
  refine ⟨c, hc, ?_⟩
  unfold checkedMultiply
  rw [Machine.require_pos (checkedMultiply_iff.mpr h), Machine.pure_bind, hmul]

theorem checkedMultiply_raise {left right : BitVec 64} (detail : String)
    (h : uint64Max < left.toNat * right.toNat) :
    checkedMultiply left right detail = Machine.raise detail := by
  unfold checkedMultiply
  rw [Machine.require_neg, Machine.raise_bind]
  rw [checkedMultiply_iff]
  omega

/-! ## Sources -/

theorem toNat_ofNat {n : ℕ} (h : n ≤ uint32Max) : (BitVec.ofNat 32 n).toNat = n := by
  unfold uint32Max at h
  rw [BitVec.toNat_ofNat, Nat.mod_eq_of_lt (by omega)]

/-- The step of a native loop. -/
theorem addOne_ofNat {n : ℕ} (h : n < uint32Max) :
    (Machine.add (.ofNat 32 n) 1 : Machine String (BitVec 32)) = pure (.ofNat 32 (n + 1)) := by
  have hn := toNat_ofNat h.le
  have hone : (1 : BitVec 32).toNat = 1 := by decide
  have hmax : uint32Max < 2 ^ 32 := by decide
  obtain ⟨c, hc, hadd⟩ := Machine.add_eq (ε := String) (a := BitVec.ofNat 32 n) (b := 1) (by omega)
  rw [hadd]
  congr 1
  apply BitVec.eq_of_toNat_eq
  rw [hc, hn, hone, toNat_ofNat (by omega)]

theorem set_getD {α : Type} {xs : List α} {i : ℕ} {a d : α} (h : i < xs.length)
    (ha : xs.getD i d = a) : xs.set i a = xs := by
  rw [List.getD_eq_getElem?_getD, List.getElem?_eq_getElem h, Option.getD_some] at ha
  rw [← ha, List.set_getElem_self]

/-- What a source must be after some others. -/
structure ManagerPageSource.Follows (source : ManagerPageSource) (groupCount index : ℕ)
    (scan : SourceScan) : Prop where
  positive : 0 < source.sourceBase.toNat ∧ 0 < source.sourcePages.toNat ∧
    0 < source.sourcePageStrideBytes.toNat ∧ 0 < source.bytesPerPage.toNat
  group : source.groupIndex.toNat < groupCount
  order : index = 0 ∨ scan.previousGroup ≤ source.groupIndex.toNat
  layer : source.layerOrdinal.toNat = scan.expectedLayer.getD source.groupIndex.toNat 0
  capacity : scan.pagesPerSourceGroup.getD source.groupIndex.toNat none = none ∨
    scan.pagesPerSourceGroup.getD source.groupIndex.toNat none = some source.sourcePages.toNat
  stride : source.bytesPerPage.toNat ≤ source.sourcePageStrideBytes.toNat
  address : source.sourceBase.toNat + ((source.sourcePages.toNat - 1) *
    source.sourcePageStrideBytes.toNat + source.bytesPerPage.toNat) ≤ uint64Max

/-- The scan after a source. -/
def SourceScan.next (scan : SourceScan) (source : ManagerPageSource) : SourceScan :=
  ⟨scan.expectedLayer.set source.groupIndex.toNat
      (scan.expectedLayer.getD source.groupIndex.toNat 0 + 1),
    scan.pagesPerSourceGroup.set source.groupIndex.toNat (some source.sourcePages.toNat),
    source.groupIndex.toNat⟩

theorem checkSource_eq_ok {groupCount index : ℕ} {source : ManagerPageSource}
    {scan scan' : SourceScan} (h : source.Fits) :
    checkSource groupCount index source scan = .ok scan' ↔
      source.Follows groupCount index scan ∧ scan' = scan.next source := by
  unfold checkSource
  simp only [bind_eq_ok, require_eq_ok, positiveUint_eq_ok h.sourceBase,
    positiveUint_eq_ok h.sourcePages, positiveUint_eq_ok h.stride, positiveUint_eq_ok h.width,
    uint_eq_ok h.group, uint_eq_ok h.layer, pure, Except.pure, Except.ok.injEq]
  constructor
  · rintro ⟨_, ⟨hbase, rfl⟩, _, ⟨hpages, rfl⟩, _, ⟨hstride, rfl⟩, _, ⟨hwidth, rfl⟩, _, rfl, _, rfl,
      _, hgroup, _, horder, _, hlayer, _, hcapacity, _, hle, _, haddress, rfl⟩
    exact ⟨⟨⟨hbase, hpages, hstride, hwidth⟩, hgroup, horder, hlayer, hcapacity, hle, haddress.2⟩, rfl⟩
  · rintro ⟨hs, rfl⟩
    have haddress := hs.address
    exact ⟨_, ⟨hs.positive.1, rfl⟩, _, ⟨hs.positive.2.1, rfl⟩, _, ⟨hs.positive.2.2.1, rfl⟩, _,
      ⟨hs.positive.2.2.2, rfl⟩, _, rfl, _, rfl, (), hs.group, (), hs.order, (), hs.layer, (),
      hs.capacity, (), hs.stride, (), ⟨by omega, haddress⟩, rfl⟩

/-- The arrays of the native scan say what the scan over integers says. -/
structure SourceScan.Matches (groupCount index : ℕ) (scan : SourceScan) (native : NativeScan) : Prop where
  layersLength : scan.expectedLayer.length = groupCount
  pagesLength : scan.pagesPerSourceGroup.length = groupCount
  nextLength : native.nextLayer.length = maxCaptureGroups
  capacityLength : native.sourcePages.length = maxCaptureGroups
  seenLength : native.seen.length = maxCaptureGroups
  layers : ∀ g < groupCount, (native.nextLayer.getD g 0).toNat = scan.expectedLayer.getD g 0
  bounded : ∀ g < groupCount, scan.expectedLayer.getD g 0 ≤ index
  seen : ∀ g < groupCount, native.seen.getD g false = true ↔ scan.expectedLayer.getD g 0 ≠ 0
  pages : ∀ g < groupCount, scan.pagesPerSourceGroup.getD g none =
    if native.seen.getD g false = true then some (native.sourcePages.getD g 0).toNat else none
  previous : native.previousGroup.toNat = scan.previousGroup

theorem SourceScan.matches_start {groupCount : ℕ} (h : groupCount ≤ maxCaptureGroups) :
    (SourceScan.start groupCount).Matches groupCount 0 NativeScan.start := by
  constructor
  · simp [SourceScan.start]
  · simp [SourceScan.start]
  · simp [NativeScan.start]
  · simp [NativeScan.start]
  · simp [NativeScan.start]
  · intro g hg
    simp [SourceScan.start, NativeScan.start, List.getD_eq_getElem?_getD, List.getElem?_replicate]
    split <;> simp
  · intro g hg
    simp [SourceScan.start, List.getD_eq_getElem?_getD, hg]
  · intro g hg
    simp [SourceScan.start, NativeScan.start, List.getD_eq_getElem?_getD, hg, hg.trans_le h]
  · intro g hg
    simp [SourceScan.start, NativeScan.start, List.getD_eq_getElem?_getD, hg, hg.trans_le h]
  · rfl

/-- The values of a source's native fields. -/
theorem ManagerPageSource.Fits.native {source : ManagerPageSource} (h : source.Fits) :
    source.native.sourceBase.toNat = source.sourceBase.toNat ∧
      source.native.sourcePages.toNat = source.sourcePages.toNat ∧
      source.native.sourcePageStrideBytes.toNat = source.sourcePageStrideBytes.toNat ∧
      source.native.bytesPerPage.toNat = source.bytesPerPage.toNat ∧
      source.native.groupIndex.toNat = source.groupIndex.toNat ∧
      source.native.layerOrdinal.toNat = source.layerOrdinal.toNat :=
  ⟨toNat_ofInt h.sourceBase (by decide), toNat_ofInt h.sourcePages (by decide),
    toNat_ofInt h.stride (by decide), toNat_ofInt h.width (by decide),
    toNat_ofInt h.group (by decide), toNat_ofInt h.layer (by decide)⟩

theorem ne_zero_iff {w : ℕ} (x : BitVec w) : x ≠ 0 ↔ 0 < x.toNat := by
  rw [Nat.pos_iff_ne_zero, ne_eq, ne_eq, ← BitVec.toNat_inj]
  simp

/-- The last check of a source: its address range. -/
theorem addressRange_eq {source : ManagerPageSource} (h : source.Fits)
    (hpositive : 0 < source.sourcePages.toNat) {β : Type} (rest : Machine String β) :
    (do
      let before ← Machine.sub source.native.sourcePages 1
      let finalPageOffset ← checkedMultiply before source.native.sourcePageStrideBytes sourceOverflows
      let requiredBytes ← checkedAdd finalPageOffset (source.native.bytesPerPage.setWidth 64)
        sourceOverflows
      let _ ← checkedAdd source.native.sourceBase requiredBytes sourceOverflows
      rest) =
    if source.sourceBase.toNat + ((source.sourcePages.toNat - 1) *
        source.sourcePageStrideBytes.toNat + source.bytesPerPage.toNat) ≤ uint64Max then rest
      else Machine.raise sourceOverflows := by
  obtain ⟨hbase, hpages, hstride, hwidth, -, -⟩ := h.native
  have hone : (1 : BitVec 64).toNat = 1 := by decide
  obtain ⟨before, hbefore, hsub⟩ :=
    Machine.sub_eq (ε := String) (a := source.native.sourcePages) (b := 1) (by omega)
  have hwide : (source.native.bytesPerPage.setWidth 64).toNat = source.bytesPerPage.toNat := by
    rw [BitVec.toNat_setWidth_of_le (by decide), hwidth]
  rw [hpages, hone] at hbefore
  rw [hsub, Machine.pure_bind]
  rw [← hbefore, ← hstride, ← hbase, ← hwide]
  by_cases hproduct : before.toNat * source.native.sourcePageStrideBytes.toNat ≤ uint64Max
  · obtain ⟨product, hvalue, hmultiply⟩ := checkedMultiply_eq sourceOverflows hproduct
    rw [hmultiply, Machine.pure_bind, ← hvalue]
    by_cases hrequired : product.toNat + (source.native.bytesPerPage.setWidth 64).toNat ≤ uint64Max
    · obtain ⟨required, hsum, hadd⟩ := checkedAdd_eq sourceOverflows hrequired
      rw [hadd, Machine.pure_bind, ← hsum]
      by_cases hend : source.native.sourceBase.toNat + required.toNat ≤ uint64Max
      · obtain ⟨stop, -, hstop⟩ := checkedAdd_eq sourceOverflows hend
        rw [hstop, Machine.pure_bind, if_pos hend]
      · rw [checkedAdd_raise _ (by omega), Machine.raise_bind, if_neg hend]
    · rw [checkedAdd_raise _ (by omega), Machine.raise_bind, if_neg (by omega)]
  · rw [checkedMultiply_raise _ (by omega), Machine.raise_bind, if_neg (by omega)]

theorem recordCapacity_agrees {groupCount index : ℕ} {source : ManagerPageSource} {scan : SourceScan}
    {native : NativeScan} (h : source.Fits) (hgroup : source.groupIndex.toNat < groupCount)
    (hcount : groupCount ≤ maxCaptureGroups) (hm : scan.Matches groupCount index native) :
    (recordCapacity source.native native).Returns
      (scan.pagesPerSourceGroup.getD source.groupIndex.toNat none = none ∨
        scan.pagesPerSourceGroup.getD source.groupIndex.toNat none = some source.sourcePages.toNat)
      (fun arrays => arrays.1 = native.seen.set source.groupIndex.toNat true ∧
        arrays.2 = native.sourcePages.set source.groupIndex.toNat source.native.sourcePages) := by
  obtain ⟨-, hpages, -, -, hg, -⟩ := h.native
  have hlt := hgroup.trans_le hcount
  have hcapacity := hm.pages _ hgroup
  unfold recordCapacity
  rw [Machine.read_eq (by rw [hg, hm.seenLength]; exact hlt) false, Machine.pure_bind, hg]
  by_cases hseen : native.seen.getD source.groupIndex.toNat false = false
  · rw [if_pos hseen, Machine.write_eq (by rw [hg, hm.seenLength]; exact hlt), Machine.pure_bind,
      Machine.write_eq (by rw [hg, hm.capacityLength]; exact hlt), Machine.pure_bind, hg]
    rw [hseen] at hcapacity
    exact Machine.Returns.of_pure (Or.inl hcapacity) ⟨rfl, rfl⟩
  · have hseen' : native.seen.getD source.groupIndex.toNat false = true := by simpa using hseen
    rw [if_neg hseen, Machine.read_eq (by rw [hg, hm.capacityLength]; exact hlt) 0, Machine.pure_bind, hg]
    rw [if_pos hseen'] at hcapacity
    by_cases hknown : native.sourcePages.getD source.groupIndex.toNat 0 = source.native.sourcePages
    · rw [Machine.require_pos hknown, Machine.pure_bind]
      refine Machine.Returns.of_pure (Or.inr ?_) ⟨?_, ?_⟩
      · rw [hcapacity, hknown, hpages]
      · exact (set_getD (by rw [hm.seenLength]; exact hlt) hseen').symm
      · exact (set_getD (by rw [hm.capacityLength]; exact hlt) hknown).symm
    · rw [Machine.require_neg hknown, Machine.raise_bind]
      refine Machine.Returns.of_raise ?_
      rw [hcapacity, ← hpages]
      simpa [BitVec.toNat_inj] using hknown

theorem SourceScan.Matches.next {groupCount index : ℕ} {source : ManagerPageSource} {scan : SourceScan}
    {native : NativeScan} {layer : BitVec 32} (hm : scan.Matches groupCount index native)
    (h : source.Fits) (hgroup : source.groupIndex.toNat < groupCount)
    (hcount : groupCount ≤ maxCaptureGroups)
    (hlayer : layer.toNat = scan.expectedLayer.getD source.groupIndex.toNat 0 + 1) :
    (scan.next source).Matches groupCount (index + 1)
      ⟨native.nextLayer.set source.groupIndex.toNat layer,
        native.sourcePages.set source.groupIndex.toNat source.native.sourcePages,
        native.seen.set source.groupIndex.toNat true, source.native.groupIndex⟩ := by
  have hlt := hgroup.trans_le hcount
  constructor
  · exact (List.length_set ..).trans hm.layersLength
  · exact (List.length_set ..).trans hm.pagesLength
  · exact (List.length_set ..).trans hm.nextLength
  · exact (List.length_set ..).trans hm.capacityLength
  · exact (List.length_set ..).trans hm.seenLength
  · intro g hg
    simp only [SourceScan.next]
    rw [getD_set (by rw [hm.nextLength]; exact hlt), getD_set (by rw [hm.layersLength]; exact hgroup)]
    by_cases heq : source.groupIndex.toNat = g
    · rw [if_pos heq, if_pos heq, hlayer]
    · rw [if_neg heq, if_neg heq, hm.layers g hg]
  · intro g hg
    simp only [SourceScan.next]
    rw [getD_set (by rw [hm.layersLength]; exact hgroup)]
    have hbound := hm.bounded g hg
    by_cases heq : source.groupIndex.toNat = g
    · subst heq
      rw [if_pos rfl]
      omega
    · rw [if_neg heq]
      omega
  · intro g hg
    simp only [SourceScan.next]
    rw [getD_set (by rw [hm.seenLength]; exact hlt), getD_set (by rw [hm.layersLength]; exact hgroup)]
    by_cases heq : source.groupIndex.toNat = g
    · simp [heq]
    · rw [if_neg heq, if_neg heq, hm.seen g hg]
  · intro g hg
    simp only [SourceScan.next]
    rw [getD_set (by rw [hm.pagesLength]; exact hgroup), getD_set (by rw [hm.seenLength]; exact hlt),
      getD_set (by rw [hm.capacityLength]; exact hlt)]
    by_cases heq : source.groupIndex.toNat = g
    · simp [heq, h.native.2.1]
    · rw [if_neg heq, if_neg heq, if_neg heq, hm.pages g hg]
  · exact h.native.2.2.2.2.1

/-- A step of the two scans. -/
theorem validateSource_agrees {groupCount index : ℕ} {source : ManagerPageSource} {scan : SourceScan}
    {native : NativeScan} (h : source.Fits) (hcount : groupCount ≤ maxCaptureGroups)
    (hindex : index < uint32Max) (hm : scan.Matches groupCount index native) :
    Agrees (SourceScan.Matches groupCount (index + 1)) (checkSource groupCount index source scan)
      (validateSource (.ofNat 32 groupCount) (.ofNat 32 index) source.native native) := by
  have hrefused : ¬source.Follows groupCount index scan →
      ∀ s, checkSource groupCount index source scan ≠ .ok s :=
    fun hnot s hs => hnot ((checkSource_eq_ok h).mp hs).1
  obtain ⟨hbase, hpages, hstride, hwidth, hg, hlayer⟩ := h.native
  have hwide : (source.native.bytesPerPage.setWidth 64).toNat = source.bytesPerPage.toNat := by
    rw [BitVec.toNat_setWidth_of_le (by decide), hwidth]
  have hgroups := toNat_ofNat (hcount.trans (by decide : maxCaptureGroups ≤ uint32Max))
  have hposition := toNat_ofNat hindex.le
  unfold validateSource
  by_cases hdescriptor : source.native.sourceBase ≠ 0 ∧ source.native.sourcePages ≠ 0 ∧
      source.native.sourcePageStrideBytes ≠ 0 ∧ source.native.bytesPerPage ≠ 0 ∧
      source.native.bytesPerPage.setWidth 64 ≤ source.native.sourcePageStrideBytes ∧
      source.native.groupIndex < BitVec.ofNat 32 groupCount ∧ source.native.flags = 0
  swap
  · rw [Machine.require_neg hdescriptor, Machine.raise_bind]
    refine Agrees.of_refused (hrefused fun hf => hdescriptor ?_) _
    simp only [ne_zero_iff, hbase, hpages, hstride, hwidth, BitVec.le_def, BitVec.lt_def, hwide, hg,
      hgroups]
    exact ⟨hf.positive.1, hf.positive.2.1, hf.positive.2.2.1, hf.positive.2.2.2, hf.stride, hf.group, rfl⟩
  rw [Machine.require_pos hdescriptor, Machine.pure_bind]
  simp only [ne_zero_iff, hbase, hpages, hstride, hwidth, BitVec.le_def, BitVec.lt_def, hwide, hg,
    hgroups] at hdescriptor
  obtain ⟨hbase0, hpages0, hstride0, hwidth0, hle, hgroup, -⟩ := hdescriptor
  have hlt := hgroup.trans_le hcount
  have horder : (BitVec.ofNat 32 index = 0 ∨ native.previousGroup ≤ source.native.groupIndex) ↔
      (index = 0 ∨ scan.previousGroup ≤ source.groupIndex.toNat) := by
    rw [BitVec.le_def, hm.previous, hg, ← BitVec.toNat_inj, hposition]
    rfl
  by_cases ho : index = 0 ∨ scan.previousGroup ≤ source.groupIndex.toNat
  swap
  · rw [Machine.require_neg (fun h => ho (horder.mp h)), Machine.raise_bind]
    exact Agrees.of_refused (hrefused fun hf => ho hf.order) _
  rw [Machine.require_pos (horder.mpr ho), Machine.pure_bind,
    Machine.read_eq (by rw [hg, hm.nextLength]; exact hlt) 0, Machine.pure_bind, hg]
  have hnext := hm.layers _ hgroup
  by_cases hl : source.native.layerOrdinal = native.nextLayer.getD source.groupIndex.toNat 0
  swap
  · rw [Machine.require_neg hl, Machine.raise_bind]
    refine Agrees.of_refused (hrefused fun hf => hl ?_) _
    rw [← BitVec.toNat_inj, hlayer, hnext, hf.layer]
  have hl' : source.layerOrdinal.toNat = scan.expectedLayer.getD source.groupIndex.toNat 0 := by
    rw [← hlayer, hl, hnext]
  have hbound := hm.bounded _ hgroup
  obtain ⟨next, hone, hadd⟩ := Machine.add_eq (ε := String) (b := 1)
    (show (native.nextLayer.getD source.groupIndex.toNat 0).toNat + (1 : BitVec 32).toNat < 2 ^ 32 by
      rw [hnext]
      show _ + 1 < _
      unfold uint32Max at hindex
      omega)
  rw [Machine.require_pos hl, Machine.pure_bind, hadd, Machine.pure_bind,
    Machine.write_eq (by rw [hg, hm.nextLength]; exact hlt), Machine.pure_bind, hg]
  have hrecord := recordCapacity_agrees h hgroup hcount hm
  by_cases hc : scan.pagesPerSourceGroup.getD source.groupIndex.toNat none = none ∨
      scan.pagesPerSourceGroup.getD source.groupIndex.toNat none = some source.sourcePages.toNat
  swap
  · obtain ⟨e, he⟩ := hrecord.2 hc
    rw [he, Machine.raise_bind]
    exact Agrees.of_refused (hrefused fun hf => hc hf.capacity) _
  obtain ⟨⟨seen, sourcePages⟩, harrays, rfl, rfl⟩ := hrecord.1 hc
  rw [harrays, Machine.pure_bind]
  dsimp only
  rw [addressRange_eq h hpages0]
  by_cases ha : source.sourceBase.toNat + ((source.sourcePages.toNat - 1) *
      source.sourcePageStrideBytes.toNat + source.bytesPerPage.toNat) ≤ uint64Max
  · rw [if_pos ha]
    refine Agrees.of_ok ((checkSource_eq_ok h).mpr
      ⟨⟨⟨hbase0, hpages0, hstride0, hwidth0⟩, hgroup, ho, hl', hc, hle, ha⟩, rfl⟩) ?_
    exact hm.next h hgroup hcount (by rw [hone, hnext]; rfl)
  · rw [if_neg ha]
    exact Agrees.of_refused (hrefused fun hf => ha hf.address) _

theorem validateEach_agrees {groupCount : ℕ} (hcount : groupCount ≤ maxCaptureGroups)
    {sources : List ManagerPageSource} (h : ∀ source ∈ sources, source.Fits) :
    ∀ (index : ℕ) {scan : SourceScan} {native : NativeScan},
      index + sources.length ≤ uint32Max → scan.Matches groupCount index native →
      Agrees (SourceScan.Matches groupCount (index + sources.length))
        (checkSources groupCount index scan sources)
        (validateEach (.ofNat 32 groupCount) (.ofNat 32 index) native (sources.map (·.native))) := by
  induction sources with
  | nil =>
      intro index scan native _ hm
      exact ⟨native, rfl, hm⟩
  | cons source rest ih =>
      intro index scan native hindex hm
      rw [List.forall_mem_cons] at h
      rw [List.length_cons] at hindex
      rw [checkSources, List.map_cons, validateEach]
      refine Agrees.bind (validateSource_agrees h.1 hcount (by omega) hm) fun scan' native' _ hm' => ?_
      rw [addOne_ofNat (by omega), Machine.pure_bind, List.length_cons,
        show index + (rest.length + 1) = index + 1 + rest.length by omega]
      exact ih h.2 (index + 1) (by omega) hm'

/-! ### After the sources -/

/-- The capacity of a source's group is recorded. -/
theorem checkSources_capacity {groupCount : ℕ} {sources : List ManagerPageSource}
    (h : ∀ source ∈ sources, source.Fits) :
    ∀ {index : ℕ} {scan scan' : SourceScan}, scan.pagesPerSourceGroup.length = groupCount →
      checkSources groupCount index scan sources = .ok scan' →
      (∀ g pages, scan.pagesPerSourceGroup.getD g none = some pages →
        scan'.pagesPerSourceGroup.getD g none = some pages) ∧
      ∀ source ∈ sources, source.groupIndex.toNat < groupCount ∧
        scan'.pagesPerSourceGroup.getD source.groupIndex.toNat none = some source.sourcePages.toNat := by
  induction sources with
  | nil =>
      intro index scan scan' _ hscan
      cases hscan
      exact ⟨fun _ _ hg => hg, by simp⟩
  | cons source rest ih =>
      intro index scan scan' hlength hscan
      rw [List.forall_mem_cons] at h
      rw [checkSources, bind_eq_ok] at hscan
      obtain ⟨middle, hfirst, hrest⟩ := hscan
      obtain ⟨hf, rfl⟩ := (checkSource_eq_ok h.1).mp hfirst
      have hlt : source.groupIndex.toNat < scan.pagesPerSourceGroup.length := by
        rw [hlength]
        exact hf.group
      obtain ⟨hkept, hall⟩ := ih h.2 (by simpa [SourceScan.next] using hlength) hrest
      have hset : ∀ g, (scan.next source).pagesPerSourceGroup.getD g none =
          if source.groupIndex.toNat = g then some source.sourcePages.toNat
          else scan.pagesPerSourceGroup.getD g none := fun g => getD_set hlt _ _ g
      refine ⟨fun g pages hg => hkept g pages ?_, ?_⟩
      · rw [hset]
        by_cases heq : source.groupIndex.toNat = g
        · subst heq
          rw [if_pos rfl]
          have hknown := hf.capacity
          rw [hg] at hknown
          simpa [eq_comm] using hknown
        · rw [if_neg heq, hg]
      · rw [List.forall_mem_cons]
        exact ⟨⟨hf.group, hkept _ _ (by rw [hset, if_pos rfl])⟩, hall⟩

theorem checkSeen_eq {seen : List Bool} {group remaining : ℕ} (h : group + remaining ≤ seen.length)
    (hlength : seen.length ≤ maxCaptureGroups) :
    checkSeen seen (.ofNat 32 group) remaining =
      Machine.require (∀ k < remaining, seen.getD (group + k) false = true)
        "every manager-page group must contain a layer" := by
  unfold maxCaptureGroups at hlength
  induction remaining generalizing group with
  | zero => exact (Machine.require_pos (by simp) _).symm
  | succ remaining ih =>
      have hgroup := toNat_ofNat (n := group) (by unfold uint32Max; omega)
      have hsplit : (∀ k < remaining + 1, seen.getD (group + k) false = true) ↔
          seen.getD group false = true ∧
            ∀ k < remaining, seen.getD (group + 1 + k) false = true := by
        rw [Nat.forall_lt_succ_left]
        simp only [Nat.add_zero, Nat.add_assoc, Nat.add_comm 1]
      rw [checkSeen, Machine.read_eq (by omega) false, Machine.pure_bind, hgroup,
        addOne_ofNat (by unfold uint32Max; omega)]
      by_cases hfirst : seen.getD group false = true
      · rw [Machine.require_pos hfirst, Machine.pure_bind, Machine.pure_bind, ih (by omega)]
        exact Machine.require_congr (by rw [hsplit, and_iff_right hfirst]) _
      · rw [Machine.require_neg hfirst, Machine.raise_bind, Machine.require_neg]
        rw [hsplit]
        exact fun hall => hfirst hall.1

/-! ## Groups and their pages -/

/-- The groups cover the table exactly if none is empty. -/
theorem coverGroups_pack {total : ℕ} (htotal : total ≤ uint32Max) {groups : List (List ℤ)} :
    ∀ offset : ℕ, offset + groups.flatten.length ≤ total →
      (coverGroups (.ofNat 32 total) (.ofNat 32 offset) (packGroups offset groups)).Returns
        (∀ pageIds ∈ groups, pageIds ≠ [])
        (fun covered => covered = .ofNat 32 (offset + groups.flatten.length)) := by
  induction groups with
  | nil => exact fun _ _ => Machine.Returns.of_pure (by simp) rfl
  | cons pageIds rest ih =>
      intro offset hle
      rw [List.flatten_cons, List.length_append] at hle
      have hoffset := toNat_ofNat (n := offset) (by omega)
      have hlength := toNat_ofNat (n := pageIds.length) (by omega)
      have hall := toNat_ofNat htotal
      rw [packGroups, coverGroups]
      by_cases hne : pageIds = []
      · subst hne
        rw [Machine.require_neg (by simp), Machine.raise_bind]
        exact Machine.Returns.of_raise (by simp)
      · have hpos : 0 < pageIds.length := List.length_pos_of_ne_nil hne
        have hcount : BitVec.ofNat 32 pageIds.length ≠ 0 := by
          rw [ne_zero_iff, hlength]
          exact hpos
        obtain ⟨room, hroom, hsub⟩ :=
          Machine.sub_eq (ε := String) (a := BitVec.ofNat 32 total) (b := BitVec.ofNat 32 offset)
            (by omega)
        obtain ⟨next, hnext, hadd⟩ :=
          Machine.add_eq (ε := String) (a := BitVec.ofNat 32 offset) (b := BitVec.ofNat 32 pageIds.length)
            (by unfold uint32Max at htotal; omega)
        have hstep : next = .ofNat 32 (offset + pageIds.length) := by
          apply BitVec.eq_of_toNat_eq
          rw [hnext, hoffset, hlength, toNat_ofNat (by omega)]
        rw [Machine.require_pos ⟨rfl, hcount, rfl⟩, Machine.pure_bind, hsub, Machine.pure_bind,
          Machine.require_pos (by simp only [BitVec.le_def]; omega), Machine.pure_bind, hadd,
          Machine.pure_bind, hstep]
        obtain ⟨hreturns, hraises⟩ := ih (offset + pageIds.length) (by omega)
        rw [List.flatten_cons, List.length_append, ← Nat.add_assoc]
        constructor
        · exact fun hall => hreturns fun ids hids => hall ids (List.mem_cons_of_mem _ hids)
        · refine fun hnot => hraises fun hrest => hnot ?_
          rw [List.forall_mem_cons]
          exact ⟨hne, hrest⟩

theorem checkPages_cons {group capacity index : ℕ} {page : ℤ} {rest : List ℤ}
    (h : 0 ≤ page ∧ page ≤ uint32Max) : checkPages group capacity index (page :: rest) =
      if page.toNat < capacity then
        checkPages group capacity (index + 1) rest >>= fun values => .ok (page.toNat :: values)
      else .error (.capture "request page is outside its manager group") := by
  rw [checkPages, (uint_eq_ok h).mpr rfl]
  show (require (page.toNat < capacity) _ >>= fun _ => _) = _
  by_cases hin : page.toNat < capacity
  · rw [require, if_pos hin, if_pos hin]
    rfl
  · rw [require, if_neg hin, if_neg hin]
    rfl

theorem checkPages_agrees (group offset : ℕ) {capacity : ℕ} {physicalPages : List (BitVec 32)}
    {capacities : List (BitVec 64)} (hgroup : group < maxCaptureGroups)
    (hlength : capacities.length = maxCaptureGroups)
    (hcapacity : (capacities.getD group 0).toNat = capacity)
    (htotal : physicalPages.length ≤ uint32Max) {pageIds : List ℤ}
    (h : ∀ page ∈ pageIds, 0 ≤ page ∧ page ≤ uint32Max) :
    ∀ index : ℕ, offset + index + pageIds.length ≤ physicalPages.length →
      (∀ k page, pageIds[k]? = some page →
        physicalPages.getD (offset + index + k) 0 = .ofInt 32 page) →
      Agrees (fun values _ => values = pageIds.map Int.toNat)
        (checkPages group capacity index pageIds)
        (checkGroupPages physicalPages capacities (.ofNat 32 group) (.ofNat 32 offset)
          (.ofNat 32 index) pageIds.length) := by
  induction pageIds with
  | nil => exact fun _ _ _ => ⟨(), rfl, rfl⟩
  | cons page rest ih =>
      intro index hle hpages
      rw [List.forall_mem_cons] at h
      rw [List.length_cons] at hle
      have hoffset := toNat_ofNat (n := offset) (by omega)
      have hindex := toNat_ofNat (n := index) (by omega)
      have hentry := hpages 0 page rfl
      rw [Nat.add_zero] at hentry
      have hnumber := toNat_ofNat (n := group) (hgroup.le.trans (by decide))
      obtain ⟨entry, hsum, hadd⟩ :=
        Machine.add_eq (ε := String) (a := BitVec.ofNat 32 offset) (b := BitVec.ofNat 32 index)
          (by unfold uint32Max at htotal; omega)
      rw [hoffset, hindex] at hsum
      have hvalue : ((BitVec.ofInt 32 page).setWidth 64).toNat = page.toNat := by
        rw [BitVec.toNat_setWidth_of_le (by decide), toNat_ofInt h.1 (by decide)]
      rw [checkPages_cons h.1, List.length_cons, checkGroupPages, hadd, Machine.pure_bind,
        Machine.read_eq (by omega) 0, Machine.pure_bind, Machine.read_eq (by omega) 0,
        Machine.pure_bind, hsum, hnumber, hentry]
      by_cases hin : page.toNat < capacity
      · rw [Machine.require_pos (by rw [BitVec.lt_def, hvalue, hcapacity]; exact hin),
          Machine.pure_bind, addOne_ofNat (by omega), Machine.pure_bind]
        have hrest := ih h.2 (index + 1) (by omega) (by
          intro k later hk
          have hlater := hpages (k + 1) later (by simpa using hk)
          rwa [show offset + index + (k + 1) = offset + (index + 1) + k by omega] at hlater)
        rw [if_pos hin]
        exact hrest.map_left fun values _ hvalues => by rw [hvalues, List.map_cons]
      · rw [Machine.require_neg (by rw [BitVec.lt_def, hvalue, hcapacity]; exact hin),
          Machine.raise_bind, if_neg hin]
        exact ⟨_, rfl⟩

/-- The pages of groups that are not empty. -/
theorem checkGroups_agrees {groupCount : ℕ} (hcount : groupCount ≤ maxCaptureGroups)
    {known : List (Option ℕ)} {physicalPages : List (BitVec 32)} {capacities : List (BitVec 64)}
    (hlength : capacities.length = maxCaptureGroups)
    (hknown : ∀ g < groupCount, known.getD g none = some (capacities.getD g 0).toNat)
    (htotal : physicalPages.length ≤ uint32Max) {groups : List (List ℤ)}
    (h : ∀ pageIds ∈ groups, ∀ page ∈ pageIds, 0 ≤ page ∧ page ≤ uint32Max)
    (hne : ∀ pageIds ∈ groups, pageIds ≠ []) :
    ∀ group offset : ℕ, group + groups.length ≤ groupCount →
      offset + groups.flatten.length ≤ physicalPages.length →
      (∀ k page, groups.flatten[k]? = some page →
        physicalPages.getD (offset + k) 0 = .ofInt 32 page) →
      Agrees (fun values _ => values = groups.map (List.map Int.toNat))
        (checkGroups known group groups)
        (checkAllPages physicalPages capacities (.ofNat 32 group) (packGroups offset groups)) := by
  induction groups with
  | nil => exact fun _ _ _ _ _ => ⟨(), rfl, rfl⟩
  | cons pageIds rest ih =>
      intro group offset hgroup hle hpages
      rw [List.forall_mem_cons] at h hne
      rw [List.length_cons] at hgroup
      rw [List.flatten_cons, List.length_append] at hle
      have hfirst := checkPages_agrees group offset (by omega) hlength rfl htotal h.1 0 (by omega) (by
          intro k page hk
          refine hpages k page ?_
          obtain ⟨hlt, -⟩ := List.getElem?_eq_some_iff.mp hk
          rw [List.flatten_cons, List.getElem?_append_left hlt, hk])
      have hlater := ih h.2 hne.2 (group + 1) (offset + pageIds.length) (by omega)
        (by omega) (by
          intro k page hk
          rw [Nat.add_assoc]
          refine hpages (pageIds.length + k) page ?_
          rw [List.flatten_cons, List.getElem?_append_right (by omega), Nat.add_sub_cancel_left, hk])
      have hnumber := toNat_ofNat (n := pageIds.length) (by omega)
      rw [checkGroups, hknown group (by omega), packGroups, checkAllPages, hnumber, require_of hne.1]
      show Agrees _ (checkPages group _ 0 pageIds >>= fun values =>
        checkGroups known (group + 1) rest >>= fun groups => .ok (values :: groups)) _
      refine Agrees.bind hfirst fun values _ _ hvalues => ?_
      rw [addOne_ofNat (by unfold maxCaptureGroups uint32Max at *; omega), Machine.pure_bind]
      exact hlater.map_left fun groups _ hgroups => by rw [hvalues, hgroups, List.map_cons]

theorem groupCapacities_eq {sources : List NativeSource} {known : ℕ → ℕ}
    (h : ∀ source ∈ sources, source.groupIndex.toNat < maxCaptureGroups ∧
      source.sourcePages.toNat = known source.groupIndex.toNat) :
    ∀ capacities : List (BitVec 64), capacities.length = maxCaptureGroups →
      ∃ filled, groupCapacities capacities sources = pure filled ∧ filled.length = maxCaptureGroups ∧
        ∀ g, (capacities.getD g 0).toNat = known g ∨ (∃ source ∈ sources, source.groupIndex.toNat = g) →
          (filled.getD g 0).toNat = known g := by
  induction sources with
  | nil =>
      intro capacities hlength
      exact ⟨capacities, rfl, hlength, fun g hg => hg.resolve_right (by simp)⟩
  | cons source rest ih =>
      intro capacities hlength
      rw [List.forall_mem_cons] at h
      have hlt : source.groupIndex.toNat < capacities.length := by
        rw [hlength]
        exact h.1.1
      obtain ⟨filled, hfilled, hsame, hknown⟩ := ih h.2
        (capacities.set source.groupIndex.toNat source.sourcePages) (by simpa using hlength)
      refine ⟨filled, ?_, hsame, fun g hg => hknown g ?_⟩
      · rw [groupCapacities, Machine.write_eq hlt, Machine.pure_bind, hfilled]
      · rw [getD_set hlt]
        by_cases heq : source.groupIndex.toNat = g
        · left
          rw [if_pos heq, h.1.2, heq]
        · rw [if_neg heq]
          refine hg.imp_right fun ⟨s, hs, hsg⟩ => ?_
          rcases List.mem_cons.mp hs with rfl | hrest
          · exact absurd hsg heq
          · exact ⟨s, hrest, hsg⟩

/-! ## Spans -/

/-- A native span says what a span says, and its source is the next one. -/
def ManagerPageCaptureSpan.Same (span : ManagerPageCaptureSpan) (native : NativeSpan) : Prop :=
  native.destinationOffsetBytes.toNat = span.destinationOffsetBytes ∧
    native.lengthBytes.toNat = span.lengthBytes ∧ native.sourceIndex.toNat = span.sourceIndex ∧
    native.physicalPageOffset.toNat = span.physicalPageOffset ∧
    native.pageCount.toNat = span.pageCount ∧ native.reserved = 0

theorem packGroups_getElem? {α : Type} {groups : List (List α)} :
    ∀ {offset group : ℕ}, (packGroups offset groups)[group]? = groups[group]?.map fun pageIds =>
      ⟨.ofNat 32 (offset + groupOffset groups group), .ofNat 32 pageIds.length, (0, 0)⟩ := by
  induction groups with
  | nil => exact fun {_ _} => rfl
  | cons pageIds rest ih =>
      intro offset group
      cases group with
      | zero => simp [packGroups, groupOffset]
      | succ group =>
          rw [packGroups, List.getElem?_cons_succ, ih, List.getElem?_cons_succ]
          simp [groupOffset, Nat.add_assoc]

theorem packGroups_length {α : Type} {groups : List (List α)} {offset : ℕ} :
    (packGroups offset groups).length = groups.length := by
  induction groups generalizing offset with
  | nil => rfl
  | cons pageIds rest ih => rw [packGroups, List.length_cons, List.length_cons, ih]

theorem groupOffset_le {α : Type} {groups : List (List α)} {group : ℕ} (h : group < groups.length) :
    groupOffset groups group + groups[group].length ≤ groups.flatten.length := by
  have hsplit : groups.flatten.length = (groups.take (group + 1)).flatten.length +
      (groups.drop (group + 1)).flatten.length := by
    rw [← List.length_append, ← List.flatten_append, List.take_append_drop]
  rw [hsplit, List.take_succ_eq_append_getElem h, List.flatten_append]
  simp [groupOffset]

theorem nativeSpans_agrees {groups : List (List ℕ)} (htotal : groups.flatten.length ≤ uint32Max)
    {slotBytes : BitVec 64} {sources : List ManagerPageSource}
    (h : ∀ source ∈ sources, source.Fits ∧ source.groupIndex.toNat < groups.length) :
    ∀ index cursor : ℕ, index + sources.length ≤ uint32Max → cursor ≤ slotBytes.toNat →
      Agrees (fun planned native => List.Forall₂ ManagerPageCaptureSpan.Same planned.1 native.1 ∧
          native.2.toNat = planned.2)
        (planSpans groups slotBytes.toNat index cursor sources)
        (nativeSpans (packGroups 0 groups) slotBytes (.ofNat 32 index) (.ofNat 64 cursor)
          (sources.map (·.native))) := by
  induction sources with
  | nil =>
      intro index cursor _ hcursor
      refine ⟨([], .ofNat 64 cursor), rfl, .nil, ?_⟩
      rw [BitVec.toNat_ofNat, Nat.mod_eq_of_lt (hcursor.trans_lt slotBytes.isLt)]
  | cons source rest ih =>
      intro index cursor hindex hcursor
      rw [List.forall_mem_cons] at h
      rw [List.length_cons] at hindex
      obtain ⟨⟨hfits, hgroup⟩, hrest⟩ := h
      obtain ⟨-, -, -, hwidth, hg, -⟩ := hfits.native
      have hle := groupOffset_le hgroup
      have hposition : (BitVec.ofNat 64 cursor).toNat = cursor := by
        rw [BitVec.toNat_ofNat, Nat.mod_eq_of_lt (hcursor.trans_lt slotBytes.isLt)]
      have hcount := toNat_ofNat (n := groups[source.groupIndex.toNat].length) (by omega)
      have hoffset := toNat_ofNat (n := groupOffset groups source.groupIndex.toNat) (by omega)
      have hgetD : groups.getD source.groupIndex.toNat [] = groups[source.groupIndex.toNat] := by
        rw [List.getD_eq_getElem?_getD, List.getElem?_eq_getElem hgroup, Option.getD_some]
      have hpacked : (packGroups 0 groups).getD source.groupIndex.toNat default =
          ⟨.ofNat 32 (groupOffset groups source.groupIndex.toNat),
            .ofNat 32 groups[source.groupIndex.toNat].length, (0, 0)⟩ := by
        rw [List.getD_eq_getElem?_getD, packGroups_getElem?, List.getElem?_eq_getElem hgroup,
          Nat.zero_add]
        rfl
      have hcountWide : ((BitVec.ofNat 32 groups[source.groupIndex.toNat].length).setWidth 64).toNat =
          groups[source.groupIndex.toNat].length := by
        rw [BitVec.toNat_setWidth_of_le (by decide), hcount]
      have hwidthWide : (source.native.bytesPerPage.setWidth 64).toNat = source.bytesPerPage.toNat := by
        rw [BitVec.toNat_setWidth_of_le (by decide), hwidth]
      have hproduct : groups[source.groupIndex.toNat].length * source.bytesPerPage.toNat ≤ uint64Max := by
        have hbytes : source.bytesPerPage.toNat ≤ uint32Max := by
          have := hfits.width
          omega
        calc groups[source.groupIndex.toNat].length * source.bytesPerPage.toNat
            ≤ uint32Max * uint32Max := Nat.mul_le_mul (by omega) hbytes
          _ ≤ uint64Max := by decide
      obtain ⟨length, hlength, hmultiply⟩ := checkedMultiply_eq
        (a := (BitVec.ofNat 32 groups[source.groupIndex.toNat].length).setWidth 64)
        (b := source.native.bytesPerPage.setWidth 64)
        "manager-page payload exceeds the bounded ring slot" (by rw [hcountWide, hwidthWide]; exact hproduct)
      rw [hcountWide, hwidthWide] at hlength
      rw [planSpans, List.map_cons, nativeSpans, Machine.read_eq (by
        rw [packGroups_length, hg]
        exact hgroup) default, Machine.pure_bind, hg, hpacked, hmultiply, Machine.pure_bind, hgetD,
        ← hlength]
      by_cases hfit : cursor + length.toNat ≤ slotBytes.toNat
      · obtain ⟨stop, hstop, hadd⟩ := checkedAdd_eq (a := .ofNat 64 cursor) (b := length)
          "manager-page payload exceeds the bounded ring slot" (by
            have := slotBytes.isLt
            unfold uint64Max
            omega)
        have hvalue : stop = .ofNat 64 (cursor + length.toNat) := by
          apply BitVec.eq_of_toNat_eq
          rw [hstop, hposition, BitVec.toNat_ofNat, Nat.mod_eq_of_lt (hfit.trans_lt slotBytes.isLt)]
        rw [hadd, Machine.pure_bind, Machine.require_pos (by rw [BitVec.le_def]; omega),
          Machine.pure_bind, addOne_ofNat (by omega), Machine.pure_bind, hvalue]
        have hlater := ih hrest (index + 1) (cursor + length.toNat) (by omega) hfit
        rw [require_of hfit]
        show Agrees _ (planSpans groups slotBytes.toNat (index + 1) (cursor + length.toNat) rest >>= _) _
        refine Agrees.bind hlater fun planned native _ hsame => ?_
        refine ⟨_, rfl, .cons ⟨?_, rfl, ?_, ?_, ?_, rfl⟩ hsame.1, hsame.2⟩
        · exact hposition
        · exact toNat_ofNat (by omega)
        · exact hoffset
        · exact hcount
      · rw [require, if_neg hfit]
        by_cases hsum : cursor + length.toNat ≤ uint64Max
        · obtain ⟨stop, hstop, hadd⟩ := checkedAdd_eq (a := .ofNat 64 cursor) (b := length)
            "manager-page payload exceeds the bounded ring slot" (by omega)
          rw [hadd, Machine.pure_bind, Machine.require_neg (by rw [BitVec.le_def]; omega),
            Machine.raise_bind]
          exact ⟨_, rfl⟩
        · rw [checkedAdd_raise _ (by omega), Machine.raise_bind]
          exact ⟨_, rfl⟩

/-! ## Requests -/

/-- A group whose capacity is recorded has a source. -/
theorem checkSources_recorded {groupCount : ℕ} {sources : List ManagerPageSource}
    (h : ∀ source ∈ sources, source.Fits) :
    ∀ {index : ℕ} {scan scan' : SourceScan}, checkSources groupCount index scan sources = .ok scan' →
      ∀ g, scan'.pagesPerSourceGroup.getD g none ≠ none →
        scan.pagesPerSourceGroup.getD g none ≠ none ∨
          ∃ source ∈ sources, source.groupIndex.toNat = g := by
  induction sources with
  | nil =>
      intro index scan scan' hscan g hg
      cases hscan
      exact Or.inl hg
  | cons source rest ih =>
      intro index scan scan' hscan g hg
      rw [List.forall_mem_cons] at h
      rw [checkSources, bind_eq_ok] at hscan
      obtain ⟨middle, hfirst, hrest⟩ := hscan
      obtain ⟨-, rfl⟩ := (checkSource_eq_ok h.1).mp hfirst
      by_cases heq : source.groupIndex.toNat = g
      · exact Or.inr ⟨source, List.mem_cons_self .., heq⟩
      · refine (ih h.2 hrest g hg).imp (fun hmiddle => ?_) fun ⟨s, hs, hsg⟩ =>
          ⟨s, List.mem_cons_of_mem _ hs, hsg⟩
        rwa [SourceScan.next, List.getD_eq_getElem?_getD, List.getElem?_set_ne heq,
          ← List.getD_eq_getElem?_getD] at hmiddle

theorem checkGroups_ne {known : List (Option ℕ)} {groups : List (List ℤ)} :
    ∀ {group : ℕ} {values : List (List ℕ)}, checkGroups known group groups = .ok values →
      ∀ pageIds ∈ groups, pageIds ≠ [] := by
  induction groups with
  | nil => simp
  | cons pageIds rest ih =>
      intro group values h
      rw [checkGroups, bind_eq_ok] at h
      obtain ⟨_, hne, h⟩ := h
      rw [require_eq_ok] at hne
      rw [List.forall_mem_cons]
      refine ⟨hne, ?_⟩
      split at h
      · cases h
      · rw [bind_eq_ok] at h
        obtain ⟨_, -, h⟩ := h
        rw [bind_eq_ok] at h
        obtain ⟨_, hrest, -⟩ := h
        exact ih hrest

theorem packGroups_map {groups : List (List ℤ)} {offset : ℕ} :
    packGroups offset (groups.map (List.map Int.toNat)) = packGroups offset groups := by
  induction groups generalizing offset with
  | nil => rfl
  | cons pageIds rest ih =>
      rw [List.map_cons, packGroups, packGroups, List.length_map, ih]

theorem planManagerPageCapture_eq_ok {sources : List ManagerPageSource} {groups : List (List ℤ)}
    {slotBytes : ℤ} {plan : ManagerPageCapturePlan} (h : Fits sources groups slotBytes) :
    planManagerPageCapture sources groups slotBytes = .ok plan ↔
      0 < slotBytes.toNat ∧ (sources ≠ [] ∧ sources.length ≤ maxCaptureSources) ∧
      (groups ≠ [] ∧ groups.length ≤ maxCaptureGroups) ∧ ∃ scan,
        checkSources groups.length 0 (.start groups.length) sources = .ok scan ∧
        0 ∉ scan.expectedLayer ∧ ∃ values,
        checkGroups scan.pagesPerSourceGroup 0 groups = .ok values ∧
        values.flatten.length ≤ uint32Max ∧ ∃ spans last,
        planSpans values slotBytes.toNat 0 0 sources = .ok (spans, last) ∧
        plan = ⟨values.flatten, (List.range groups.length).map (groupOffset values),
          values.map List.length, spans, last⟩ := by
  unfold planManagerPageCapture
  simp only [bind_eq_ok, require_eq_ok, positiveUint_eq_ok h.slotBytes, pure, Except.pure,
    Except.ok.injEq, exists_const, Prod.exists]
  constructor
  · rintro ⟨_, ⟨hpos, rfl⟩, hsources, hgroups, scan, hscan, hzero, values, hvalues, htotal, spans, last,
      hspans, rfl⟩
    exact ⟨hpos, hsources, hgroups, scan, hscan, hzero, values, hvalues, htotal, spans, last, hspans, rfl⟩
  · rintro ⟨hpos, hsources, hgroups, scan, hscan, hzero, values, hvalues, htotal, spans, last, hspans, rfl⟩
    exact ⟨_, ⟨hpos, rfl⟩, hsources, hgroups, scan, hscan, hzero, values, hvalues, htotal, spans, last,
      hspans, rfl⟩

theorem flatten_ne {groups : List (List ℤ)} (h : groups ≠ []) (hne : ∀ pageIds ∈ groups, pageIds ≠ []) :
    0 < groups.flatten.length := by
  obtain ⟨pageIds, rest, rfl⟩ := List.exists_cons_of_ne_nil h
  have hpos := List.length_pos_of_ne_nil (hne pageIds (List.mem_cons_self ..))
  rw [List.flatten_cons, List.length_append]
  omega

theorem zero_notMem_iff {layers : List ℕ} :
    0 ∉ layers ↔ ∀ g < layers.length, layers.getD g 0 ≠ 0 := by
  constructor
  · intro h g hg
    rw [List.getD_eq_getElem?_getD, List.getElem?_eq_getElem hg, Option.getD_some]
    exact fun heq => h (heq ▸ List.getElem_mem hg)
  · intro h hzero
    obtain ⟨g, hg, heq⟩ := List.getElem_of_mem hzero
    refine h g hg ?_
    rw [List.getD_eq_getElem?_getD, List.getElem?_eq_getElem hg, Option.getD_some, heq]

/-- The inventory checks of a request whose counts are within their limits. -/
theorem validateSources_agrees {sources : List ManagerPageSource} {groupCount : ℕ}
    (h : ∀ source ∈ sources, source.Fits)
    (hsources : sources ≠ [] ∧ sources.length ≤ maxCaptureSources)
    (hgroups : 0 < groupCount ∧ groupCount ≤ maxCaptureGroups) :
    Agrees (fun scan _ => 0 ∉ scan.expectedLayer ∧ ∃ native,
        scan.Matches groupCount sources.length native)
      (checkSources groupCount 0 (.start groupCount) sources >>= fun scan =>
        require (0 ∉ scan.expectedLayer) (.capture "every manager-page group needs a source") >>= fun _ => .ok scan)
      (validateSources (sources.map (·.native)) (.ofNat 32 groupCount)) := by
  have hcount := toNat_ofNat (n := groupCount) (hgroups.2.trans (by decide))
  have hlength := toNat_ofNat (n := sources.length) (hsources.2.trans (by decide))
  have hpos := List.length_pos_of_ne_nil hsources.1
  unfold validateSources
  dsimp only
  rw [List.length_map, Machine.require_pos, Machine.pure_bind, hcount]
  · have hscan := validateEach_agrees hgroups.2 h 0
      (by rw [Nat.zero_add]; exact hsources.2.trans (by decide)) (SourceScan.matches_start hgroups.2)
    refine Agrees.bind hscan fun scan native _ hm => ?_
    rw [Nat.zero_add] at hm
    rw [show (0 : BitVec 32) = .ofNat 32 0 from rfl, checkSeen_eq
      (by rw [hm.seenLength, Nat.zero_add]; exact hgroups.2) hm.seenLength.le]
    have hiff : 0 ∉ scan.expectedLayer ↔ ∀ k < groupCount, native.seen.getD (0 + k) false = true := by
      rw [zero_notMem_iff, hm.layersLength]
      refine forall₂_congr fun g hg => ?_
      rw [Nat.zero_add, hm.seen g hg]
    by_cases hzero : 0 ∉ scan.expectedLayer
    · rw [Machine.require_pos (hiff.mp hzero), require_of hzero]
      exact ⟨(), rfl, hzero, native, hm⟩
    · rw [Machine.require_neg (fun hall => hzero (hiff.mpr hall))]
      exact Agrees.of_refused (by simp [bind_eq_ok, hzero]) _
  · rw [ne_zero_iff, ne_zero_iff, BitVec.le_def, BitVec.le_def, hlength, hcount]
    exact ⟨hpos, hsources.2, hgroups.1, hgroups.2⟩

theorem planCapture_agrees {sources : List ManagerPageSource} {groups : List (List ℤ)} {slotBytes : ℤ}
    (h : Fits sources groups slotBytes) :
    Agrees (fun plan native => List.Forall₂ ManagerPageCaptureSpan.Same plan.spans native.1 ∧
        native.2.usedBytes.toNat = plan.usedBytes)
      (planManagerPageCapture sources groups slotBytes)
      (planCapture (sources.map (·.native)) (packGroups 0 groups) (packPages groups)
        (.ofInt 64 slotBytes) 256) := by
  have hslot := toNat_ofInt h.slotBytes (by decide : uint64Max < 2 ^ 64)
  have hsourceCount := toNat_ofNat h.sourceCount
  have hgroupCount := toNat_ofNat h.groupCount
  have hpageCount := toNat_ofNat h.pageCount
  have hrefused : ∀ {p : Prop}, ¬p → (∀ plan, planManagerPageCapture sources groups slotBytes = .ok plan → p) →
      ∀ plan, planManagerPageCapture sources groups slotBytes ≠ .ok plan :=
    fun hp hplan plan hok => hp (hplan plan hok)
  have hpacked : (packPages groups).length = groups.flatten.length := List.length_map ..
  unfold planCapture
  dsimp only
  rw [List.length_map, packGroups_length, hpacked]
  by_cases hrequest : 0 < groups.flatten.length ∧ 0 < slotBytes.toNat ∧ sources.length ≤ maxCaptureSources
  swap
  · rw [Machine.require_neg, Machine.raise_bind]
    · refine Agrees.of_refused (hrefused hrequest fun plan hplan => ?_) _
      obtain ⟨hpos, hsources, hgroups, scan, -, -, values, hvalues, -⟩ :=
        (planManagerPageCapture_eq_ok h).mp hplan
      exact ⟨flatten_ne hgroups.1 (checkGroups_ne hvalues), hpos, hsources.2⟩
    · rw [ne_zero_iff, ne_zero_iff, BitVec.le_def, hslot, hsourceCount, hpageCount]
      exact hrequest
  obtain ⟨htable, hpos, hmost⟩ := hrequest
  rw [Machine.require_pos (by
    rw [ne_zero_iff, ne_zero_iff, BitVec.le_def, hslot, hsourceCount, hpageCount]
    exact ⟨htable, hpos, hmost⟩), Machine.pure_bind]
  by_cases hinventory : (sources ≠ [] ∧ sources.length ≤ maxCaptureSources) ∧
      (0 < groups.length ∧ groups.length ≤ maxCaptureGroups)
  swap
  · unfold validateSources
    dsimp only
    rw [List.length_map, Machine.require_neg, Machine.raise_bind, Machine.raise_bind]
    · refine Agrees.of_refused (hrefused hinventory fun plan hplan => ?_) _
      obtain ⟨-, hsources, hgroups, -⟩ := (planManagerPageCapture_eq_ok h).mp hplan
      exact ⟨hsources, List.length_pos_of_ne_nil hgroups.1, hgroups.2⟩
    · rw [ne_zero_iff, ne_zero_iff, BitVec.le_def, BitVec.le_def, hsourceCount, hgroupCount]
      exact fun hvalid => hinventory ⟨⟨List.ne_nil_of_length_pos hvalid.1, hmost⟩, hvalid.2.2⟩
  obtain ⟨hsources, hgroups⟩ := hinventory
  have hplanner : planManagerPageCapture sources groups slotBytes =
      (checkSources groups.length 0 (.start groups.length) sources >>= fun scan =>
        require (0 ∉ scan.expectedLayer) (.capture "every manager-page group needs a source") >>= fun _ =>
          .ok scan) >>= fun scan =>
        checkGroups scan.pagesPerSourceGroup 0 groups >>= fun values =>
          require (values.flatten.length ≤ uint32Max) (.capture "physical-page table exceeds uint32") >>= fun _ =>
          planSpans values slotBytes.toNat 0 0 sources >>= fun planned =>
            .ok ⟨values.flatten, (List.range groups.length).map (groupOffset values),
              values.map List.length, planned.1, planned.2⟩ := by
    unfold planManagerPageCapture
    rw [(positiveUint_eq_ok h.slotBytes).mpr ⟨hpos, rfl⟩]
    show (require _ _ >>= fun _ => require _ _ >>= fun _ => _) = _
    rw [require_of hsources, require_of ⟨List.ne_nil_of_length_pos hgroups.1, hgroups.2⟩]
    simp only [bind_assoc]
    rfl
  rw [hplanner]
  refine Agrees.bind (validateSources_agrees h.inventory hsources hgroups) fun scan _ hscan hmatches => ?_
  obtain ⟨hzero, native, hm⟩ := hmatches
  simp only [bind_eq_ok, require_eq_ok, Except.ok.injEq] at hscan
  obtain ⟨first, hscan, _, -, heq⟩ := hscan
  rw [heq] at hscan
  obtain ⟨-, hcapacity⟩ := checkSources_capacity h.inventory (List.length_replicate ..) hscan
  have hcover := @coverGroups_pack _ h.pageCount groups 0 (by omega)
  by_cases hne : ∀ pageIds ∈ groups, pageIds ≠ []
  swap
  · obtain ⟨e, he⟩ := hcover.2 hne
    rw [show (0 : BitVec 32) = .ofNat 32 0 from rfl, he, Machine.raise_bind]
    refine Agrees.of_refused (fun plan hplan => hne ?_) _
    rw [bind_eq_ok] at hplan
    obtain ⟨values, hvalues, -⟩ := hplan
    exact checkGroups_ne hvalues
  obtain ⟨covered, hcovered, rfl⟩ := hcover.1 hne
  rw [show (0 : BitVec 32) = .ofNat 32 0 from rfl, hcovered, Machine.pure_bind, Nat.zero_add,
    Machine.require_pos rfl, Machine.pure_bind]
  obtain ⟨capacities, hfilled, hlength, hknown⟩ := @groupCapacities_eq
    (sources.map (·.native)) (fun g => (scan.pagesPerSourceGroup.getD g none).getD 0) (by
      intro source hsource
      obtain ⟨s, hs, rfl⟩ := List.mem_map.mp hsource
      obtain ⟨hlt, hpages⟩ := hcapacity s hs
      obtain ⟨-, hvalue, -, -, hg, -⟩ := (h.inventory s hs).native
      rw [hg, hvalue, hpages]
      exact ⟨hlt.trans_le hgroups.2, rfl⟩) _ (List.length_replicate ..)
  have hcapacities : ∀ g < groups.length,
      scan.pagesPerSourceGroup.getD g none = some (capacities.getD g 0).toNat := by
    intro g hg
    have hseen := (hm.seen g hg).mpr (zero_notMem_iff.mp hzero g (by rw [hm.layersLength]; exact hg))
    have hpages := hm.pages g hg
    rw [if_pos hseen] at hpages
    rcases checkSources_recorded h.inventory hscan g (by rw [hpages]; simp) with hstart | ⟨s, hs, hsg⟩
    · simp [SourceScan.start, List.getD_eq_getElem?_getD, hg] at hstart
    · rw [hknown g (Or.inr ⟨s.native, List.mem_map_of_mem hs, by
        rw [(h.inventory s hs).native.2.2.2.2.1, hsg]⟩), hpages]
      rfl
  have hphysical : (packPages groups).length ≤ uint32Max := by rw [hpacked]; exact h.pageCount
  have hgroupsAgree := checkGroups_agrees hgroups.2 hlength hcapacities hphysical h.pages hne
    0 0 (by omega) (by rw [hpacked]; omega) (by
      intro k page hk
      rw [Nat.zero_add, List.getD_eq_getElem?_getD, packPages, List.getElem?_map, hk]
      rfl)
  rw [hfilled, Machine.pure_bind]
  refine Agrees.bind hgroupsAgree fun values _ _ hvalues => ?_
  have hflat : values.flatten.length = groups.flatten.length := by
    rw [hvalues, ← List.map_flatten, List.length_map]
  have htotal : values.flatten.length ≤ uint32Max := by rw [hflat]; exact h.pageCount
  have hspans := @nativeSpans_agrees values htotal (.ofInt 64 slotBytes) sources (by
      intro s hs
      rw [hvalues, List.length_map]
      exact ⟨h.inventory s hs, (hcapacity s hs).1⟩)
    0 0 (by rw [Nat.zero_add]; exact h.sourceCount) (Nat.zero_le _)
  rw [hslot, hvalues, packGroups_map, ← hvalues] at hspans
  rw [require_of (by rw [hflat]; exact h.pageCount)]
  show Agrees _ (planSpans values slotBytes.toNat 0 0 sources >>= _) _
  refine Agrees.bind hspans fun planned native' _ hsame => ?_
  exact ⟨_, rfl, hsame⟩

end SparkCache.Streaming
