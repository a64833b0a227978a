import SparkCache.Restore.CopySpans

/-!
# Scattered snapshots

The slabs of a plan, and the objects that an encoded snapshot is split into,
put every layer's payload where it belongs.
-/
namespace SparkCache.Restore
open Pages Tiling

/-! ## Slabs and objects -/

section Windows
variable {data : Bytes} {plan : PageSnapshotPlan} {destinations : List Bytes} {a b : ℕ}

/-- The spans of a window move the destinations from its start to its end. -/
theorem Placed.window (h : Placed data plan.spans (fun _ => a) destinations) (hab : a ≤ b)
    (hb : b ≤ data.length) (hdata : ∀ span ∈ plan.spans, span.sourceEnd ≤ data.length) :
    ∃ placed, scatter (slice data a b) (buildPageObjectSpans plan a b) destinations = some placed ∧
      Placed data plan.spans (fun _ => b) placed :=
  Placed.scatter_layers hb hab hdata plan.headerBytes (List.nil_append plan.spans).symm h

theorem Placed.scatterObjects (hdata : ∀ span ∈ plan.spans, span.sourceEnd ≤ data.length)
    {before : Bytes} {objects : List Bytes} (hobjects : data = before ++ objects.flatten)
    (h : Placed data plan.spans (fun _ => before.length) destinations) :
    ∃ placed, scatterObjects plan before.length objects destinations = some placed ∧
      Placed data plan.spans (fun _ => data.length) placed := by
  induction objects generalizing before destinations with
  | nil =>
      rw [List.flatten_nil, List.append_nil] at hobjects
      rw [← hobjects] at h ⊢
      exact ⟨destinations, rfl, h⟩
  | cons object rest ih =>
      rw [List.flatten_cons, ← List.append_assoc] at hobjects
      have hslice : slice data before.length (before.length + object.length) = object := by
        rw [hobjects, slice, List.append_assoc, List.drop_left, Nat.add_sub_cancel_left,
          List.take_left]
      have hlength : before.length + object.length ≤ data.length := by
        rw [hobjects, List.length_append, List.length_append]
        exact Nat.le_add_right _ _
      obtain ⟨next, hnext, hplaced⟩ := h.window (Nat.le_add_right _ _) hlength hdata
      rw [hslice] at hnext
      rw [← List.length_append] at hplaced
      obtain ⟨placed, hrest, hdone⟩ := ih hobjects hplaced
      refine ⟨placed, ?_, hdone⟩
      rw [List.length_append] at hrest
      rw [Restore.scatterObjects, hnext]
      exact hrest

theorem Placed.scatterSlabs (hdata : ∀ span ∈ plan.spans, span.sourceEnd ≤ data.length)
    (hstart : ∀ span ∈ plan.spans, plan.headerBytes ≤ span.sourceStart)
    {slabs : List CudaPageSlab} {first last : ℕ}
    (htiles : Tiles CudaPageSlab.payloadStart CudaPageSlab.payloadEnd first slabs last)
    (hspans : ∀ slab ∈ slabs, slab.spans = slabSpans plan slab.payloadStart slab.payloadEnd)
    (hlast : plan.headerBytes + last ≤ data.length)
    (h : Placed data plan.spans (fun _ => plan.headerBytes + first) destinations) :
    ∃ placed, scatterSlabs (data.drop plan.headerBytes) slabs destinations = some placed ∧
      Placed data plan.spans (fun _ => plan.headerBytes + last) placed := by
  induction slabs generalizing first destinations with
  | nil =>
      have heq : first = last := htiles
      rw [heq] at h
      exact ⟨destinations, rfl, h⟩
  | cons slab rest ih =>
      obtain ⟨hfirst, hle, hrest⟩ := htiles
      have hstop := hrest.le
      have hslice : slice (data.drop plan.headerBytes) slab.payloadStart slab.payloadEnd =
          slice data (plan.headerBytes + first) (plan.headerBytes + slab.payloadEnd) := by
        rw [slice, slice, List.drop_drop, hfirst]
        congr 1
        omega
      obtain ⟨next, hnext, hplaced⟩ := @Placed.window data plan destinations
        (plan.headerBytes + first) (plan.headerBytes + slab.payloadEnd) h (by omega) (by omega) hdata
      obtain ⟨placed, hscatter, hdone⟩ := ih hrest
        (fun slab hslab => hspans slab (List.mem_cons_of_mem _ hslab)) hplaced
      refine ⟨placed, ?_, hdone⟩
      unfold Restore.scatterSlabs at hscatter ⊢
      rw [List.foldlM_cons, hslice, hspans slab List.mem_cons_self, slabSpans_eq hstart, hfirst, hnext]
      exact hscatter

end Windows

/-! ## Planned slabs -/

/-- The layers of a plan tile the payload. -/
theorem spanList_tiles (counts : List ℕ) (offset : ℕ) (layers : List (ℕ × PageLayer)) :
    Tiles PagePayloadSpan.sourceStart PagePayloadSpan.sourceEnd offset
      (spanList counts offset layers) (offset + (layers.map (layerBytes counts)).sum) := by
  induction layers generalizing offset with
  | nil => rfl
  | cons p rest ih =>
      refine ⟨rfl, Nat.le_add_right _ _, ?_⟩
      rw [List.map_cons, List.sum_cons, ← Nat.add_assoc]
      exact ih _

section Slabs
variable {plan : PageSnapshotPlan} {arenaBytes : ℕ}

/-- A slab of the payload has copy spans. -/
theorem planPageSlab_ok
    (htiles : Tiles PagePayloadSpan.sourceStart PagePayloadSpan.sourceEnd plan.headerBytes plan.spans
      plan.totalBytes) (harena : 0 < arenaBytes) {slabStart : ℕ}
    (hstart : slabStart < plan.totalBytes - plan.headerBytes) :
    ∃ slab, planPageSlab plan arenaBytes slabStart = .ok slab ∧ slab.payloadStart = slabStart ∧
      slab.payloadEnd = min (plan.totalBytes - plan.headerBytes) (slabStart + arenaBytes) ∧
      slab.spans = slabSpans plan slab.payloadStart slab.payloadEnd := by
  obtain ⟨layer, hlayer, hbefore, hafter⟩ := htiles.exists_mem
    (Nat.le_add_right plan.headerBytes slabStart) (by omega)
  obtain ⟨k, hk⟩ := List.mem_iff_getElem?.mp hlayer
  have hbounds := htiles.bounds hlayer
  have hne : slabSpans plan slabStart
      (min (plan.totalBytes - plan.headerBytes) (slabStart + arenaBytes)) ≠ [] := by
    intro hnil
    unfold slabSpans at hnil
    rw [List.filterMap_eq_nil_iff] at hnil
    have hlayer := hnil (layer, k) (List.mk_mem_zipIdx_iff_getElem?.mpr hk)
    dsimp only at hlayer
    rw [if_neg (by omega)] at hlayer
    cases hlayer
  unfold planPageSlab
  dsimp only
  split
  · rename_i hnil
    exact absurd hnil hne
  · exact ⟨_, rfl, rfl, rfl, rfl⟩

/-- The slabs from a start on. -/
theorem planPageSlabs_from
    (htiles : Tiles PagePayloadSpan.sourceStart PagePayloadSpan.sourceEnd plan.headerBytes plan.spans
      plan.totalBytes) (harena : 0 < arenaBytes) (count start : ℕ)
    (henough : plan.totalBytes - plan.headerBytes ≤ start + count * arenaBytes)
    (hneeded : 0 < count → start + (count - 1) * arenaBytes < plan.totalBytes - plan.headerBytes) :
    ∃ slabs, (List.range' start count arenaBytes).mapM (planPageSlab plan arenaBytes) = .ok slabs ∧
      Tiles CudaPageSlab.payloadStart CudaPageSlab.payloadEnd
        (min (plan.totalBytes - plan.headerBytes) start) slabs (plan.totalBytes - plan.headerBytes) ∧
      ∀ slab ∈ slabs, slab.payloadEnd - slab.payloadStart ≤ arenaBytes ∧
        slab.spans = slabSpans plan slab.payloadStart slab.payloadEnd := by
  induction count generalizing start with
  | zero =>
      refine ⟨[], rfl, ?_, by simp⟩
      show min _ start = _
      omega
  | succ count ih =>
      have hstart := hneeded (Nat.succ_pos _)
      rw [Nat.add_sub_cancel] at hstart
      have hpos : start < plan.totalBytes - plan.headerBytes := by omega
      obtain ⟨slab, hslab, hfirst, hlast, hspans⟩ := planPageSlab_ok htiles harena hpos
      rw [Nat.add_mul, Nat.one_mul] at henough
      obtain ⟨slabs, hslabs, hrest, hall⟩ := ih (start + arenaBytes) (by omega) (by
        intro hcount
        obtain ⟨n, rfl⟩ := Nat.exists_eq_add_one.mpr hcount
        rw [Nat.add_mul, Nat.one_mul] at hstart
        rw [Nat.add_sub_cancel]
        omega)
      refine ⟨slab :: slabs, ?_, ⟨?_, ?_, ?_⟩, ?_⟩
      · rw [List.range'_succ, List.mapM_cons, hslab, hslabs]
        rfl
      · omega
      · omega
      · rw [hlast]
        exact hrest
      · intro x hx
        rcases List.mem_cons.mp hx with rfl | hx
        · exact ⟨by omega, hspans⟩
        · exact hall x hx

/-- The slabs of a plan tile the payload and fit the arena. -/
theorem planPageSlabs_ok
    (htiles : Tiles PagePayloadSpan.sourceStart PagePayloadSpan.sourceEnd plan.headerBytes plan.spans
      plan.totalBytes) (harena : 0 < arenaBytes) :
    ∃ slabs, planPageSlabs plan arenaBytes = .ok slabs ∧
      Tiles CudaPageSlab.payloadStart CudaPageSlab.payloadEnd 0 slabs
        (plan.totalBytes - plan.headerBytes) ∧
      ∀ slab ∈ slabs, slab.payloadEnd - slab.payloadStart ≤ arenaBytes ∧
        slab.spans = slabSpans plan slab.payloadStart slab.payloadEnd := by
  let payload := plan.totalBytes - plan.headerBytes
  have hdiv := Nat.div_add_mod (payload + arenaBytes - 1) arenaBytes
  have hmod := Nat.mod_lt (payload + arenaBytes - 1) harena
  rw [Nat.mul_comm] at hdiv
  obtain ⟨slabs, hslabs, hrest, hall⟩ := planPageSlabs_from htiles harena
    ((payload + arenaBytes - 1) / arenaBytes) 0 (by
      show payload ≤ _
      omega) (by
      intro hcount
      obtain ⟨n, hn⟩ := Nat.exists_eq_add_one.mpr hcount
      rw [hn, Nat.add_mul, Nat.one_mul] at hdiv
      rw [hn, Nat.add_sub_cancel]
      show _ < payload
      omega)
  refine ⟨slabs, ?_, ?_, hall⟩
  · rw [planPageSlabs, if_neg (by omega)]
    exact hslabs
  · rwa [Nat.min_zero] at hrest

end Slabs

end SparkCache.Restore
