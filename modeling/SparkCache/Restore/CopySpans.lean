import SparkCache.Lib.Tiling
import SparkCache.Pages.Snapshot

/-!
# Copy spans

A planned snapshot is placed slab by slab or object by object. The copy spans
of a slab or an object say what of it belongs to which layer, and where in the
layer it goes.
-/
namespace SparkCache.Restore

open Pages Tiling

/-- What the planners raise: `CudaHybridRestoreError`, and what escapes from the page codec. -/
inductive RestoreError where
  | restore (message : String)
  /-- `{label} object {index} geometry is invalid` -/
  | objectGeometry (label : String) (index : ℕ)
  /-- `page-delta descriptor planning was rejected: {error}` -/
  | rejected (error : CodecError)
  | codec (error : CodecError)
  deriving DecidableEq

/-- `PageCopySpan`, without its flags -/
structure PageCopySpan where
  arenaOffsetBytes : ℕ
  snapshotOffsetBytes : ℕ
  destinationByteOffset : ℕ
  byteCount : ℕ
  destinationIndex : ℕ
  deriving DecidableEq

structure CudaPageSlab where
  payloadStart : ℕ
  payloadEnd : ℕ
  spans : List PageCopySpan
  deriving DecidableEq

def slabSpans (plan : PageSnapshotPlan) (slabStart slabEnd : ℕ) : List PageCopySpan :=
  plan.spans.zipIdx.filterMap fun layer =>
    let layerStart := layer.1.sourceStart - plan.headerBytes
    let layerEnd := layer.1.sourceEnd - plan.headerBytes
    let start := max slabStart layerStart
    let stop := min slabEnd layerEnd
    if stop ≤ start then none
    else some ⟨start - slabStart, start, start - layerStart, stop - start, layer.2⟩

/-- One slab of the payload. -/
def planPageSlab (plan : PageSnapshotPlan) (arenaBytes slabStart : ℕ) :
    Except RestoreError CudaPageSlab :=
  let slabEnd := min (plan.totalBytes - plan.headerBytes) (slabStart + arenaBytes)
  match slabSpans plan slabStart slabEnd with
  | [] => .error (.restore "SparkCache CUDA page slab has no copy spans")
  | spans => .ok ⟨slabStart, slabEnd, spans⟩

/-- `range(0, payload_bytes, arena_bytes)` -/
def slabStarts (payloadBytes arenaBytes : ℕ) : List ℕ :=
  List.range' 0 ((payloadBytes + arenaBytes - 1) / arenaBytes) arenaBytes

def planPageSlabs (plan : PageSnapshotPlan) (arenaBytes : ℕ) :
    Except RestoreError (List CudaPageSlab) :=
  if arenaBytes = 0 then
    .error (.restore "SparkCache CUDA placement arena bytes must be positive")
  else (slabStarts (plan.totalBytes - plan.headerBytes) arenaBytes).mapM (planPageSlab plan arenaBytes)

def buildPageObjectSpans (plan : PageSnapshotPlan) (encodedStart encodedEnd : ℕ) :
    List PageCopySpan :=
  plan.spans.zipIdx.filterMap fun layer =>
    let start := max encodedStart layer.1.sourceStart
    let stop := min encodedEnd layer.1.sourceEnd
    if stop ≤ start then none
    else some ⟨start - encodedStart, start - plan.headerBytes, start - layer.1.sourceStart,
      stop - start, layer.2⟩

/-! ## Scattering -/

/-- One copy from an arena to a destination; a copy outside of either fails. -/
def copySpan (arena : Bytes) (destinations : List Bytes) (span : PageCopySpan) :
    Option (List Bytes) :=
  match destinations[span.destinationIndex]? with
  | none => none
  | some destination =>
      let arenaEnd := span.arenaOffsetBytes + span.byteCount
      let destinationEnd := span.destinationByteOffset + span.byteCount
      if arenaEnd ≤ arena.length ∧ destinationEnd ≤ destination.length then
        some (destinations.set span.destinationIndex
          (destination.take span.destinationByteOffset ++
            slice arena span.arenaOffsetBytes arenaEnd ++ destination.drop destinationEnd))
      else none

def scatter (arena : Bytes) (spans : List PageCopySpan) (destinations : List Bytes) :
    Option (List Bytes) :=
  spans.foldlM (copySpan arena) destinations

/-- Each slab of the payload is scattered from an arena that holds it. -/
def scatterSlabs (payload : Bytes) (slabs : List CudaPageSlab) (destinations : List Bytes) :
    Option (List Bytes) :=
  slabs.foldlM (fun destinations slab =>
    scatter (slice payload slab.payloadStart slab.payloadEnd) slab.spans destinations) destinations

/-- Objects that follow one another are scattered, each from an arena that holds it. -/
def scatterObjects (plan : PageSnapshotPlan) : ℕ → List Bytes → List Bytes → Option (List Bytes)
  | _, [], destinations => some destinations
  | encodedStart, object :: rest, destinations => do
      let encodedEnd := encodedStart + object.length
      let placed ← scatter object (buildPageObjectSpans plan encodedStart encodedEnd) destinations
      scatterObjects plan encodedEnd rest placed

/-! ## Windows -/

/-- The spans of a slab are those of the object that holds the slab. -/
theorem slabSpans_eq {plan : PageSnapshotPlan}
    (h : ∀ layer ∈ plan.spans, plan.headerBytes ≤ layer.sourceStart) (slabStart slabEnd : ℕ) :
    slabSpans plan slabStart slabEnd =
      buildPageObjectSpans plan (plan.headerBytes + slabStart) (plan.headerBytes + slabEnd) := by
  unfold slabSpans buildPageObjectSpans
  apply List.filterMap_congr
  intro layer hlayer
  have hstart := h layer.1 (List.fst_mem_of_mem_zipIdx hlayer)
  dsimp only
  by_cases hempty : min (plan.headerBytes + slabEnd) layer.1.sourceEnd ≤
      max (plan.headerBytes + slabStart) layer.1.sourceStart
  · rw [if_pos hempty, if_pos (by omega)]
  · rw [if_neg hempty, if_neg (by omega)]
    congr 2 <;> omega

/-- The bytes of a layer before a position are in its destination. -/
structure Filled (data : Bytes) (position : ℕ) (span : PagePayloadSpan) (destination : Bytes) :
    Prop where
  length : destination.length = span.sourceEnd - span.sourceStart
  placed : destination.take (position - span.sourceStart) =
    (slice data span.sourceStart span.sourceEnd).take (position - span.sourceStart)

section Filled
variable {data destination : Bytes} {a b : ℕ} {span : PagePayloadSpan}

theorem Filled.unchanged (h : Filled data a span destination) (hab : a ≤ b)
    (hdata : span.sourceEnd ≤ data.length)
    (hempty : min b span.sourceEnd ≤ max a span.sourceStart) : Filled data b span destination := by
  refine ⟨h.length, ?_⟩
  have hlength := h.length
  have hslice : (slice data span.sourceStart span.sourceEnd).length =
      span.sourceEnd - span.sourceStart := slice_length hdata
  by_cases hbefore : b ≤ span.sourceStart
  · rw [Nat.sub_eq_zero_of_le hbefore, List.take_zero, List.take_zero]
  · have hplaced := h.placed
    by_cases heq : b ≤ a
    · rwa [Nat.le_antisymm hab heq] at hplaced
    · rw [List.take_of_length_le (by omega), List.take_of_length_le (by omega)] at hplaced
      rw [hplaced]

/-- A copy of what a window has of the layer fills the layer up to the end of the window. -/
theorem Filled.copy (h : Filled data a span destination) (hdata : span.sourceEnd ≤ data.length)
    (hcopy : max a span.sourceStart < min b span.sourceEnd) :
    Filled data b span (destination.take (max a span.sourceStart - span.sourceStart) ++
      slice data (max a span.sourceStart) (min b span.sourceEnd) ++
      destination.drop (min b span.sourceEnd - span.sourceStart)) := by
  have hlength := h.length
  have hplaced := h.placed
  have hwhole : (slice data span.sourceStart span.sourceEnd).length =
      span.sourceEnd - span.sourceStart := slice_length hdata
  have hpart : (slice data (max a span.sourceStart) (min b span.sourceEnd)).length =
      min b span.sourceEnd - max a span.sourceStart := slice_length (by omega)
  have hstart : max a span.sourceStart - span.sourceStart = a - span.sourceStart := by omega
  rw [hstart]
  have htake : (destination.take (a - span.sourceStart)).length = a - span.sourceStart := by
    rw [List.length_take]
    omega
  have hslice : slice data (max a span.sourceStart) (min b span.sourceEnd) =
      ((slice data span.sourceStart span.sourceEnd).drop (a - span.sourceStart)).take
        (min b span.sourceEnd - span.sourceStart - (a - span.sourceStart)) := by
    rw [slice, slice, List.drop_take, List.drop_drop, List.take_take]
    congr 1
    · omega
    · congr 1
      omega
  have hbefore : destination.take (a - span.sourceStart) ++
      slice data (max a span.sourceStart) (min b span.sourceEnd) =
      (slice data span.sourceStart span.sourceEnd).take (min b span.sourceEnd - span.sourceStart) := by
    rw [hplaced, hslice, ← List.take_add]
    congr 1
    omega
  constructor
  · rw [List.length_append, List.length_append, htake, hpart, List.length_drop, hlength]
    omega
  · rw [hbefore]
    by_cases hb : b ≤ span.sourceEnd
    · rw [Nat.min_eq_left hb, List.take_left']
      rw [List.length_take, hwhole]
      omega
    · rw [Nat.min_eq_right (by omega), List.drop_of_length_le (by omega), List.append_nil,
        List.take_of_length_le (Nat.le_of_eq hwhole)]

theorem Filled.complete (h : Filled data a span destination) (ha : span.sourceEnd ≤ a)
    (hdata : span.sourceEnd ≤ data.length) :
    destination = slice data span.sourceStart span.sourceEnd := by
  have hlength := h.length
  have hplaced := h.placed
  have hslice : (slice data span.sourceStart span.sourceEnd).length =
      span.sourceEnd - span.sourceStart := slice_length hdata
  rwa [List.take_of_length_le (by omega), List.take_of_length_le (by omega)] at hplaced

end Filled

/-! ## Scattered windows -/

/-- The destinations hold what of each layer lies before its level. -/
structure Placed (data : Bytes) (spans : List PagePayloadSpan) (level : ℕ → ℕ)
    (destinations : List Bytes) : Prop where
  length : destinations.length = spans.length
  filled : ∀ j span destination, spans[j]? = some span → destinations[j]? = some destination →
    Filled data (level j) span destination

section Placed
variable {data : Bytes} {spans : List PagePayloadSpan} {destinations : List Bytes} {a b : ℕ}

theorem Placed.exists_destination {level : ℕ → ℕ} (h : Placed data spans level destinations)
    {k : ℕ} {span : PagePayloadSpan} (hspan : spans[k]? = some span) :
    ∃ destination, destinations[k]? = some destination ∧ Filled data (level k) span destination := by
  have hk : k < destinations.length := by
    rw [h.length]
    exact (List.getElem?_eq_some_iff.mp hspan).1
  obtain ⟨destination, hdestination⟩ : ∃ destination, destinations[k]? = some destination :=
    ⟨_, List.getElem?_eq_getElem hk⟩
  exact ⟨destination, hdestination, h.filled k span destination hspan hdestination⟩

/-- The copy of what a window has of a layer. -/
theorem copySpan_window {destination : Bytes} {k : ℕ} {span : PagePayloadSpan}
    (hdestination : destinations[k]? = some destination) (h : Filled data a span destination)
    (hb : b ≤ data.length) (hcopy : max a span.sourceStart < min b span.sourceEnd) (snapshot : ℕ) :
    copySpan (slice data a b) destinations
        ⟨max a span.sourceStart - a, snapshot, max a span.sourceStart - span.sourceStart,
          min b span.sourceEnd - max a span.sourceStart, k⟩ =
      some (destinations.set k (destination.take (max a span.sourceStart - span.sourceStart) ++
        slice data (max a span.sourceStart) (min b span.sourceEnd) ++
        destination.drop (min b span.sourceEnd - span.sourceStart))) := by
  have hlength := h.length
  have harena : (slice data a b).length = b - a := slice_length hb
  have harenaEnd : max a span.sourceStart - a + (min b span.sourceEnd - max a span.sourceStart) =
      min b span.sourceEnd - a := by omega
  have hdestinationEnd : max a span.sourceStart - span.sourceStart +
      (min b span.sourceEnd - max a span.sourceStart) = min b span.sourceEnd - span.sourceStart := by
    omega
  unfold copySpan
  rw [hdestination]
  dsimp only
  rw [harenaEnd, hdestinationEnd, if_pos (by omega), slice_slice (by omega)]
  congr 4
  congr 1 <;> omega

/-- One window, layer by layer: the layers before the current one are filled up to its end. -/
theorem Placed.scatter_layers (hb : b ≤ data.length) (hab : a ≤ b)
    (hdata : ∀ span ∈ spans, span.sourceEnd ≤ data.length) (headerBytes : ℕ)
    {before rest : List PagePayloadSpan} (hspans : spans = before ++ rest)
    (h : Placed data spans (fun j => if j < before.length then b else a) destinations) :
    ∃ placed, scatter (slice data a b) ((rest.zipIdx before.length).filterMap fun layer =>
        let start := max a layer.1.sourceStart
        let stop := min b layer.1.sourceEnd
        if stop ≤ start then none
        else some ⟨start - a, start - headerBytes, start - layer.1.sourceStart, stop - start,
          layer.2⟩) destinations = some placed ∧
      Placed data spans (fun _ => b) placed := by
  induction rest generalizing before destinations with
  | nil =>
      refine ⟨destinations, rfl, h.length, ?_⟩
      intro j span destination hspan hdestination
      have hj : j < before.length := by
        rw [hspans, List.append_nil] at hspan
        exact (List.getElem?_eq_some_iff.mp hspan).1
      have hfilled := h.filled j span destination hspan hdestination
      rwa [if_pos hj] at hfilled
  | cons span rest ih =>
      have hk : spans[before.length]? = some span := by
        rw [hspans, List.getElem?_append_right le_rfl, Nat.sub_self, List.getElem?_cons_zero]
      have hmem : span ∈ spans := List.mem_of_getElem? hk
      obtain ⟨destination, hdestination, hfilled⟩ := h.exists_destination hk
      rw [if_neg (Nat.lt_irrefl _)] at hfilled
      have hnext : spans = (before ++ [span]) ++ rest := by
        rw [List.append_assoc]
        exact hspans
      -- The layer is filled, the others stay as they are.
      have hplaced : ∀ filled, Filled data b span filled →
          Placed data spans (fun j => if j < (before ++ [span]).length then b else a)
            (destinations.set before.length filled) := by
        intro filled hfilled
        refine ⟨by rw [List.length_set, h.length], ?_⟩
        intro j span' destination' hspan' hdestination'
        rw [List.length_append, List.length_singleton]
        by_cases hj : j = before.length
        · subst hj
          rw [hk] at hspan'
          rw [List.getElem?_set_self (List.getElem?_eq_some_iff.mp hdestination).1] at hdestination'
          cases hspan'
          cases hdestination'
          rwa [if_pos (Nat.lt_succ_self _)]
        · rw [List.getElem?_set_ne (Ne.symm hj)] at hdestination'
          have hother := h.filled j span' destination' hspan' hdestination'
          by_cases hlt : j < before.length
          · rwa [if_pos hlt, ← if_pos (t := b) (e := a) (show j < before.length + 1 by omega)]
              at hother
          · rwa [if_neg hlt, ← if_neg (t := b) (e := a) (show ¬j < before.length + 1 by omega)]
              at hother
      rw [List.zipIdx_cons, List.filterMap_cons]
      dsimp only
      by_cases hempty : min b span.sourceEnd ≤ max a span.sourceStart
      · rw [if_pos hempty]
        have hsame := hplaced destination (hfilled.unchanged hab (hdata span hmem) hempty)
        obtain ⟨hlt, hget⟩ := List.getElem?_eq_some_iff.mp hdestination
        rw [← hget, List.set_getElem_self] at hsame
        have hrest := ih hnext hsame
        rwa [List.length_append, List.length_singleton] at hrest
      · rw [if_neg hempty]
        have hcopy := copySpan_window hdestination hfilled hb (not_le.mp hempty)
          (max a span.sourceStart - headerBytes)
        have hrest := ih hnext (hplaced _ (hfilled.copy (hdata span hmem) (not_le.mp hempty)))
        rw [List.length_append, List.length_singleton] at hrest
        obtain ⟨placed, hscatter, hdone⟩ := hrest
        refine ⟨placed, ?_, hdone⟩
        unfold scatter at hscatter ⊢
        rw [List.foldlM_cons, hcopy]
        exact hscatter

end Placed

end SparkCache.Restore
