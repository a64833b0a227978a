import SparkCache.Pages.ComposedHistory
import SparkCache.Restore.Batches
import SparkCache.Restore.Scattering

/-!
# Splits of the byte space

Arenas, objects and layers cut the same bytes at different positions. However
an encoded snapshot is cut, every layer gets its payload; and whatever a delta
restore plans can be submitted.
-/
namespace SparkCache.Restore

open Pages

open Tiling

/-! ## Encoded snapshots -/

section Snapshot
variable {layout : PageLayout} {counts : List ℕ} {header : Bytes} {payloads destinations : List Bytes}

/-- The plan of an encoded snapshot. -/
def encodedPlan (layout : PageLayout) (counts : List ℕ) (header : Bytes) : PageSnapshotPlan :=
  ⟨header.length, header.length + payloadBytes layout counts, counts,
    spanList counts header.length layout.layers⟩

theorem encodedPlan_tiles (layout : PageLayout) (counts : List ℕ) (header : Bytes) :
    Tiles PagePayloadSpan.sourceStart PagePayloadSpan.sourceEnd
      (encodedPlan layout counts header).headerBytes (encodedPlan layout counts header).spans
      (encodedPlan layout counts header).totalBytes :=
  spanList_tiles counts header.length layout.layers

theorem Sized.encoded_length (h : Sized counts layout.layers payloads) :
    (header ++ payloads.flatten).length = (encodedPlan layout counts header).totalBytes := by
  rw [List.length_append, h.length_flatten]
  rfl

/-- Before anything is copied, destinations of the right sizes are filled up to the payload. -/
theorem Sized.placed (h : Sized counts layout.layers destinations) {position : ℕ}
    (hposition : position ≤ header.length) (data : Bytes) :
    Placed data (encodedPlan layout counts header).spans (fun _ => position) destinations := by
  have hforall : List.Forall₂ (fun (span : PagePayloadSpan) (destination : Bytes) =>
      destination.length = span.sourceEnd - span.sourceStart)
      (spanList counts header.length layout.layers) destinations := by
    clear hposition
    generalize header.length = offset
    generalize layout.layers = layers at h
    induction h generalizing offset with
    | nil => exact .nil
    | @cons p destination rest destinations hp _ ih =>
        refine .cons ?_ (ih _)
        rw [hp]
        exact (Nat.add_sub_cancel_left _ _).symm
  refine ⟨hforall.length_eq.symm, ?_⟩
  intro j span destination hspan hdestination
  have hstart := ((encodedPlan_tiles layout counts header).bounds (List.mem_of_getElem? hspan)).1
  have hzip : (span, destination) ∈ (encodedPlan layout counts header).spans.zip destinations :=
    List.mem_of_getElem? (i := j) (List.getElem?_zip_eq_some.mpr ⟨hspan, hdestination⟩)
  refine ⟨(List.forall₂_iff_zip.mp hforall).2 hzip, ?_⟩
  rw [Nat.sub_eq_zero_of_le (hposition.trans hstart), List.take_zero, List.take_zero]

/-- Filled destinations are the payloads. -/
theorem Placed.complete {data : Bytes} {plan : PageSnapshotPlan} (hdata : ∀ span ∈ plan.spans,
    span.sourceEnd ≤ data.length) (h : Placed data plan.spans (fun _ => data.length) destinations) :
    destinations = spanPayloads data plan.spans := by
  apply List.ext_getElem?
  intro j
  unfold spanPayloads
  rw [List.getElem?_map]
  cases hspan : plan.spans[j]? with
  | none =>
      rw [List.getElem?_eq_none_iff, ← h.length] at hspan
      rw [Option.map_none, List.getElem?_eq_none_iff]
      exact hspan
  | some span =>
      obtain ⟨destination, hdestination, hfilled⟩ := h.exists_destination hspan
      have hend := hdata span (List.mem_of_getElem? hspan)
      rw [hdestination, Option.map_some, hfilled.complete hend hend]

end Snapshot

/-! ## Planned restores -/

theorem mapM_eq_ok {ε α β : Type} {f : α → Except ε β} {as : List α} {bs : List β}
    (h : as.mapM f = .ok bs) : ∀ b ∈ bs, ∃ a ∈ as, f a = .ok b := by
  induction as generalizing bs with
  | nil =>
      cases h
      simp
  | cons a as ih =>
      rw [List.mapM_cons] at h
      simp only [bind_eq_ok] at h
      obtain ⟨b, hb, more, hmore, h⟩ := h
      cases h
      intro b' hb'
      rcases List.mem_cons.mp hb' with rfl | hb'
      · exact ⟨a, List.mem_cons_self, hb⟩
      · obtain ⟨a', ha', hf⟩ := ih hmore b' hb'
        exact ⟨a', List.mem_cons_of_mem _ ha', hf⟩

section Plan
variable {reads : PlanningReads} {layout : PageLayout} {groupSlots : List (List ℕ)} {arenaBytes : ℕ}
  {graph : PageDeltaGraph} {plan : CudaPageDeltaRestorePlan}

theorem planStage_supplied {root : DeltaRoot} {stage : CudaPageDeltaStage}
    (h : planStage reads layout arenaBytes root = .ok stage) :
    StageSupplied (min arenaBytes maxPageObjectPrefetchBytes) stage := by
  unfold planStage at h
  simp only [bind_eq_ok] at h
  obtain ⟨objects, hobjects, h⟩ := h
  obtain ⟨htiles, hsound⟩ := pageObjects_eq_ok hobjects
  cases objects with
  | nil => cases h
  | cons first rest =>
      simp only [bind_eq_ok] at h
      obtain ⟨header, -, deltaPlan, -, h⟩ := h
      cases h
      exact ⟨⟨_, htiles⟩, hsound⟩

theorem baseRanges_supplied {bound total : ℕ} {basePlan : PageSnapshotPlan}
    {objects : List CudaPageObject}
    (htiles : Tiles CudaPageObject.encodedStart CudaPageObject.encodedEnd 0 objects total)
    (hsound : ∀ object ∈ objects, Sound bound (.object object)) :
    ∀ layer ∈ baseRanges basePlan objects, ∀ range ∈ layer, Supplied bound range := by
  intro layer hlayer range hrange
  obtain ⟨span, -, rfl⟩ := List.mem_map.mp hlayer
  rw [List.mem_singleton.mp hrange]
  exact Supplied.ofObjects htiles hsound (Nat.zero_le _)

/-- Every layer of an encoded snapshot has bytes. -/
theorem payloadBytes_pos {counts : List ℕ} (hlength : counts.length = layout.groups.length)
    (hpositive : ∀ count ∈ counts, 0 < count) : 0 < payloadBytes layout counts := by
  obtain ⟨p, rest, hlayers⟩ := List.exists_cons_of_ne_nil layout.layers_ne_nil
  have hmem : p ∈ layout.layers := hlayers ▸ List.mem_cons_self
  have hindex : p.1 < counts.length := hlength ▸ layout.layers_index_lt hmem
  have hcount : 0 < counts.getD p.1 0 := by
    rw [List.getD_eq_getElem _ _ hindex]
    exact hpositive _ (List.getElem_mem hindex)
  have hlayer : 0 < layerBytes counts p := Nat.mul_pos hcount p.2.positive.1
  rw [payloadBytes, hlayers, List.map_cons, List.sum_cons]
  omega

theorem escaping_eq_ok {α : Type} {x : Except CodecError α} {a : α} :
    escaping x = .ok a ↔ x = .ok a := by
  cases x <;> simp [escaping]

/-- A plan that is not hot has source spans in final order. -/
theorem coldPageDeltaPlan_finalOrder {base : Store.PageSnapshotRoot}
    {baseObjects : List CudaPageObject} {firstObject : CudaPageObject} {first : PageDeltaPlan}
    {stages : List CudaPageDeltaStage} {expectedCounts : List ℕ} {total : ℕ}
    (htiles : Tiles CudaPageObject.encodedStart CudaPageObject.encodedEnd 0 baseObjects total)
    (hsound : ∀ object ∈ baseObjects,
      Sound (min arenaBytes maxPageObjectPrefetchBytes) (.object object))
    (hstages : ∀ stage ∈ stages,
      StageSupplied (min arenaBytes maxPageObjectPrefetchBytes) stage)
    (h : coldPageDeltaPlan reads layout base baseObjects firstObject first stages expectedCounts
      arenaBytes = .ok plan) :
    (∃ last, FinalOrder (min arenaBytes maxPageObjectPrefetchBytes) 0 0 plan.sourceSpans last) ∧
      plan.sourceSpans ≠ [] := by
  unfold coldPageDeltaPlan at h
  simp only [bind_eq_ok, require_eq_ok, Prod.exists] at h
  obtain ⟨payload, -, basePlan, -, -, -, counts, digest, ranges, hplaced, -, -, header, hheader,
    size, hsize, pagePlan, hpagePlan, spans, last, hspans, -, hlast, h⟩ := h
  cases h
  have horder := resultSourceSpans_eq_ok
    (placeStages_supplied (baseRanges_supplied htiles hsound) hstages hplaced) hspans
  refine ⟨⟨last, horder⟩, ?_⟩
  rw [escaping_eq_ok] at hheader hpagePlan
  obtain ⟨hlength, hpositive, -⟩ := encodePageSnapshotHeader_eq_ok hheader
  obtain ⟨-, -, -, htotal, hbytes, -⟩ := planPageSnapshot_eq_ok hpagePlan
  have hpayload := payloadBytes_pos hlength hpositive
  have hsum := horder.sum_eq
  intro hnil
  dsimp only at hnil
  rw [hnil, List.map_nil, List.sum_nil] at hsum
  rw [Option.getD_some] at htotal
  omega

theorem planCudaPageDeltaRestore_finalOrder
    (h : planCudaPageDeltaRestore reads layout groupSlots arenaBytes graph = .ok plan)
    (hcold : plan.hotSnapshot = none) :
    (∃ last, FinalOrder (min arenaBytes maxPageObjectPrefetchBytes) 0 0 plan.sourceSpans last) ∧
      plan.sourceSpans ≠ [] := by
  unfold planCudaPageDeltaRestore at h
  simp only [bind_eq_ok] at h
  obtain ⟨newestFirst, hstages, baseObjects, hobjects, h⟩ := h
  obtain ⟨htiles, hsound⟩ := pageObjects_eq_ok hobjects
  have hsupplied : ∀ stage ∈ newestFirst.reverse,
      StageSupplied (min arenaBytes maxPageObjectPrefetchBytes) stage := by
    intro stage hstage
    obtain ⟨root, -, hroot⟩ := mapM_eq_ok hstages stage (List.mem_reverse.mp hstage)
    exact planStage_supplied hroot
  split at h
  · cases h
  · cases h
  · rename_i first rest firstObject more hstages'
    rw [hstages'] at hsupplied
    simp only [bind_eq_ok] at h
    obtain ⟨hot, hhot, h⟩ := h
    cases hot with
    | some hotPlan =>
        cases h
        -- A hot plan keeps its snapshot.
        unfold hotPageDeltaPlan at hhot
        simp only [bind_eq_ok, Prod.exists] at hhot
        obtain ⟨-, -, counts, digest, -, -, -, total, -, hhot⟩ := hhot
        split at hhot
        · cases hhot
        · simp only [bind_eq_ok] at hhot
          obtain ⟨pagePlan, -, hhot⟩ := hhot
          cases hhot
          cases hcold
    | none => exact coldPageDeltaPlan_finalOrder htiles hsound hsupplied h

end Plan

/-! ## All splits -/

section Snapshot
variable {layout : PageLayout} {counts : List ℕ} {header : Bytes} {payloads destinations : List Bytes}

/-- The extents of an encoded snapshot are its payloads. -/
theorem Sized.encoded_payloads (h : Sized counts layout.layers payloads) :
    spanPayloads (header ++ payloads.flatten) (encodedPlan layout counts header).spans = payloads := by
  have hspans := h.spanPayloads header []
  rwa [List.append_nil] at hspans

theorem Sized.encoded_bounds (h : Sized counts layout.layers payloads) (header : Bytes) :
    ∀ span ∈ (encodedPlan layout counts header).spans, header.length ≤ span.sourceStart ∧
      span.sourceEnd ≤ (header ++ payloads.flatten).length := by
  intro span hspan
  have hbounds := (encodedPlan_tiles layout counts header).bounds hspan
  rw [Sized.encoded_length h]
  exact ⟨hbounds.1, hbounds.2.2⟩

/-- The slabs of any arena put every payload where it belongs. -/
theorem encoded_slabs (h : Sized counts layout.layers payloads)
    (hdestinations : Sized counts layout.layers destinations) {arenaBytes : ℕ}
    (harena : 0 < arenaBytes) :
    ∃ slabs, planPageSlabs (encodedPlan layout counts header) arenaBytes = .ok slabs ∧
      (∀ slab ∈ slabs, slab.payloadEnd - slab.payloadStart ≤ arenaBytes) ∧
      scatterSlabs ((header ++ payloads.flatten).drop header.length) slabs destinations =
        some payloads := by
  have hbounds := Sized.encoded_bounds h header
  have hlength : (header ++ payloads.flatten).length =
      (encodedPlan layout counts header).totalBytes := Sized.encoded_length h
  obtain ⟨slabs, hslabs, htiles, hall⟩ :=
    planPageSlabs_ok (encodedPlan_tiles layout counts header) harena
  have htotal : header.length + ((encodedPlan layout counts header).totalBytes - header.length) =
      (header ++ payloads.flatten).length := by
    rw [hlength]
    exact Nat.add_sub_cancel' (Nat.le_add_right _ _)
  obtain ⟨placed, hscatter, hplaced⟩ := (Sized.placed hdestinations (Nat.le_refl header.length)
    (header ++ payloads.flatten)).scatterSlabs (fun span hspan => (hbounds span hspan).2)
      (fun span hspan => (hbounds span hspan).1) htiles (fun slab hslab => (hall slab hslab).2)
      (Nat.le_of_eq htotal)
  refine ⟨slabs, hslabs, fun slab hslab => (hall slab hslab).1, ?_⟩
  have hlevel : (encodedPlan layout counts header).headerBytes +
      ((encodedPlan layout counts header).totalBytes -
        (encodedPlan layout counts header).headerBytes) = (header ++ payloads.flatten).length := htotal
  rw [hlevel] at hplaced
  have hdone := hplaced.complete fun span hspan => (hbounds span hspan).2
  rw [Sized.encoded_payloads h] at hdone
  rwa [hdone] at hscatter

/-- So do the objects of any split of the encoding. -/
theorem encoded_objects (h : Sized counts layout.layers payloads)
    (hdestinations : Sized counts layout.layers destinations) {objects : List Bytes}
    (hobjects : objects.flatten = header ++ payloads.flatten) :
    scatterObjects (encodedPlan layout counts header) 0 objects destinations = some payloads := by
  have hbounds := Sized.encoded_bounds h header
  have hplaced : Placed (header ++ payloads.flatten) (encodedPlan layout counts header).spans
      (fun _ => ([] : Bytes).length) destinations :=
    Sized.placed hdestinations (Nat.zero_le header.length) _
  obtain ⟨placed, hscatter, hplaced⟩ :=
    hplaced.scatterObjects (fun span hspan => (hbounds span hspan).2) hobjects.symm
  have hdone := hplaced.complete fun span hspan => (hbounds span hspan).2
  rw [Sized.encoded_payloads h] at hdone
  rwa [hdone] at hscatter

/-- The decoded payloads are those that were encoded. -/
theorem lookup_decoded {layerPayloads : Dictionary Str Bytes}
    (h : Sized counts layout.layers payloads)
    (hnames : layerPayloads.keys.toFinset = (layout.layers.map fun p => p.2.name).toFinset)
    (hlookup : ∀ q ∈ layout.layers.zip payloads, layerPayloads.lookup q.1.2.name = some q.2)
    (name : Str) :
    ((layout.layers.map fun p => p.2.name).zip payloads).lookup name = layerPayloads.lookup name := by
  by_cases hname : name ∈ layout.layers.map fun p => p.2.name
  · obtain ⟨p, hp, rfl⟩ := List.mem_map.mp hname
    obtain ⟨k, hk⟩ := List.mem_iff_getElem?.mp hp
    have hlt : k < payloads.length := by
      rw [← h.length_eq]
      exact (List.getElem?_eq_some_iff.mp hk).1
    have hzip : (p, payloads[k]) ∈ layout.layers.zip payloads :=
      List.mem_of_getElem? (i := k)
        (List.getElem?_zip_eq_some.mpr ⟨hk, List.getElem?_eq_getElem hlt⟩)
    rw [lookup_zip layout.layers_nodup _ hzip, hlookup _ hzip]
  · have hnone : layerPayloads.lookup name = none := by
      rw [AList.lookup_eq_none, AList.mem_keys, ← List.mem_toFinset, hnames, List.mem_toFinset]
      exact hname
    rw [hnone, List.lookup_eq_none_iff]
    intro q hq
    have hmem := (List.of_mem_zip hq).1
    rw [bne_iff_ne]
    intro heq
    exact hname (heq ▸ hmem)

end Snapshot

/-- However an encoded snapshot is cut into slabs or objects, scattering the pieces puts every layer's
payload into the destination of the layer; and the source spans of a delta restore that is not served
from a hot snapshot can be packed, in order, into batches within their bounds. -/
theorem splits_agree (layout : PageLayout) :
    (∀ counts layerPayloads encoded, encodePageSnapshot layout counts layerPayloads = .ok encoded →
      ∃ plan decoded, planPageSnapshot layout encoded counts none = .ok plan ∧
        Tiles PagePayloadSpan.sourceStart PagePayloadSpan.sourceEnd plan.headerBytes plan.spans
          encoded.length ∧
        decodePageSnapshot layout encoded counts = .ok decoded ∧
        (∀ name, decoded.lookup name = layerPayloads.lookup name) ∧
        decoded.map Prod.fst = layout.layers.map (fun p => p.2.name) ∧
        ∀ destinations, Sized counts layout.layers destinations →
          (∀ arenaBytes, 0 < arenaBytes → ∃ slabs, planPageSlabs plan arenaBytes = .ok slabs ∧
            (∀ slab ∈ slabs, slab.payloadEnd - slab.payloadStart ≤ arenaBytes) ∧
            scatterSlabs (encoded.drop plan.headerBytes) slabs destinations =
              some (decoded.map Prod.snd)) ∧
          ∀ objects : List Bytes, objects.flatten = encoded →
            scatterObjects plan 0 objects destinations = some (decoded.map Prod.snd)) ∧
    ∀ reads groupSlots arenaBytes graph plan,
      planCudaPageDeltaRestore reads layout groupSlots arenaBytes graph = .ok plan →
      plan.hotSnapshot = none →
        ∃ batches, deltaSubmissionBatches plan.sourceSpans arenaBytes = .ok batches ∧
          batches.flatten = plan.sourceSpans ∧ ∀ batch ∈ batches, BatchFits arenaBytes batch := by
  constructor
  · intro counts layerPayloads encoded hencode
    obtain ⟨header, payloads, hheader, hsized, rfl, hnames, hlookup⟩ :=
      encodePageSnapshot_eq_ok hencode
    have hplan : planPageSnapshot layout (header ++ payloads.flatten) counts none =
        .ok (encodedPlan layout counts header) := planPageSnapshot_payloads hheader hsized
    have hdecode : decodePageSnapshot layout (header ++ payloads.flatten) counts =
        .ok ((layout.layers.map fun p => p.2.name).zip payloads) := by
      unfold decodePageSnapshot
      rw [hplan]
      show Except.ok ((spanList counts header.length layout.layers).map _) = _
      rw [spanList_named]
      congr 2
      exact Sized.encoded_payloads hsized
    have hlength : (layout.layers.map fun p => p.2.name).length = payloads.length := by
      rw [List.length_map]
      exact hsized.length_eq
    refine ⟨_, _, hplan, ?_, hdecode, fun name => lookup_decoded hsized hnames hlookup name, ?_, ?_⟩
    · rw [Sized.encoded_length hsized]
      exact encodedPlan_tiles layout counts header
    · exact List.map_fst_zip (Nat.le_of_eq hlength)
    · intro destinations hdestinations
      rw [List.map_snd_zip (Nat.le_of_eq hlength.symm)]
      exact ⟨fun arenaBytes harena => encoded_slabs hsized hdestinations harena,
        fun objects hobjects => encoded_objects hsized hdestinations hobjects⟩
  · intro reads groupSlots arenaBytes graph plan hplan hcold
    obtain ⟨⟨last, horder⟩, hne⟩ := planCudaPageDeltaRestore_finalOrder hplan hcold
    exact horder.batches hne

/-- One object that holds an encoding. -/
def wholeObject (encoded : Bytes) : Store.ObjectDescriptor := ⟨sha256 encoded, encoded.length, 0, none⟩

/-- A snapshot, and a delta that appends a page to its first layer. -/
def tinyGraph : PageDeltaGraph where
  base := ⟨1, (tinySnapshot [1] [2]).length, [wholeObject (tinySnapshot [1] [2])],
    sha256 (tinySnapshot [1] [2])⟩
  deltas := [⟨[wholeObject tinyDelta], tinyDelta.length, [1, 1], [2, 1], 1, 2, none⟩]

def tinyReads (hot : Option Bytes) : PlanningReads where
  deltaHeader := fun _ _ => rejecting (pageDeltaHeaderPrefix tinyDelta)
  basePayload := fun _ => .ok (tinySnapshot [1] [2])
  hotPageSnapshot := fun _ _ => hot

theorem splits_agree_tiny :
    (∃ plan slabs, planPageSnapshot tinyLayout (tinySnapshot [1, 3] [2]) [2, 1] none = .ok plan ∧
      planPageSlabs plan 2 = .ok slabs ∧
      scatterSlabs ((tinySnapshot [1, 3] [2]).drop plan.headerBytes) slabs [[0, 0], [0]] =
        some [[1, 3], [2]]) ∧
    ∃ plan batches, planCudaPageDeltaRestore (tinyReads none) tinyLayout [[0, 1], [0]] 4096 tinyGraph =
        .ok plan ∧
      deltaSubmissionBatches plan.sourceSpans 4096 = .ok batches ∧ batches.flatten.length = 3 := by
  obtain ⟨hsnapshots, hrestores⟩ := splits_agree tinyLayout
  constructor
  · have hencode : encodePageSnapshot tinyLayout [2, 1]
        (AList.insert "k" [1, 3] (AList.insert "v" [2] ∅) : Dictionary Str Bytes) =
          .ok (tinySnapshot [1, 3] [2]) := by decide +kernel
    obtain ⟨plan, decoded, hplan, -, hdecode, -, -, hscatter⟩ := hsnapshots _ _ _ hencode
    have hdecoded : decodePageSnapshot tinyLayout (tinySnapshot [1, 3] [2]) [2, 1] =
        .ok [("k", [1, 3]), ("v", [2])] := by decide +kernel
    obtain ⟨slabs, hslabs, -, hplaced⟩ := (hscatter [[0, 0], [0]] (by
      refine .cons ?_ (.cons ?_ .nil) <;> decide +kernel)).1 2 (by decide)
    rw [hdecoded] at hdecode
    cases hdecode
    exact ⟨plan, slabs, hplan, hslabs, hplaced⟩
  · have hrun : ((planCudaPageDeltaRestore (tinyReads none) tinyLayout [[0, 1], [0]] 4096
        tinyGraph).toOption.map fun plan => (plan.sourceSpans.length, plan.hotSnapshot)) =
          some (3, none) := by decide +kernel
    obtain ⟨plan, hplan, hpair⟩ := Option.map_eq_some_iff.mp hrun
    rw [toOption_eq_some] at hplan
    obtain ⟨hlength, hhot⟩ := Prod.mk.inj hpair
    obtain ⟨batches, hbatches, hflatten, -⟩ := hrestores _ _ _ _ _ hplan hhot
    exact ⟨plan, batches, hplan, hbatches, by rw [hflatten, hlength]⟩

/-- A plan that is served from a hot snapshot has no source spans, and so no batches. -/
theorem hotPlan_unsubmittable :
    ∃ plan, planCudaPageDeltaRestore (tinyReads (some (tinySnapshot [1, 3] [2]))) tinyLayout
        [[0, 1], [0]] 4096 tinyGraph = .ok plan ∧
      deltaSubmissionBatches plan.sourceSpans 4096 =
        .error (.restore "page-delta restore has no source spans") := by
  have hrun : ((planCudaPageDeltaRestore (tinyReads (some (tinySnapshot [1, 3] [2]))) tinyLayout
      [[0, 1], [0]] 4096 tinyGraph).toOption.map fun plan =>
        deltaSubmissionBatches plan.sourceSpans 4096) =
      some (.error (.restore "page-delta restore has no source spans")) := by decide +kernel
  obtain ⟨plan, hplan, hbatches⟩ := Option.map_eq_some_iff.mp hrun
  exact ⟨plan, toOption_eq_some.mp hplan, hbatches⟩

end SparkCache.Restore
