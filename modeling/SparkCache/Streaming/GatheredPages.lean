import SparkCache.Lib.Patchwork
import SparkCache.Streaming.PageCaptureAgreement

/-!
# Gathered manager pages

What the gather of a planned capture writes: the spans tile the payload, and the payload is the
body of the encoded page snapshot.
-/
namespace SparkCache.Streaming
open Pages (PageLayout PageGroup PageLayer ReusePolicy encodePageSnapshot encodePageSnapshotHeader collectPayloads
  layerBytes bind_eq_ok)

/-- The bytes of a physical page. -/
def pageBytes (memory : ℕ → UInt8) (source : NativeSource) (page : ℕ) : Bytes :=
  (List.range source.bytesPerPage.toNat).map fun pageByte =>
    memory (source.sourceBase.toNat + (page * source.sourcePageStrideBytes.toNat + pageByte))

/-- Bytes written at an offset of a buffer. -/
def writeAt (output : Bytes) (offset : ℕ) (data : Bytes) : Bytes :=
  output.take offset ++ data ++ output.drop (offset + data.length)

/-- The blocks of `gather_manager_pages_kernel` for a span. -/
def gatherSpan (memory : ℕ → UInt8) (sources : List NativeSource) (physicalPages : List (BitVec 32))
    (output : Bytes) (span : NativeSpan) : Bytes :=
  let source := sources.getD span.sourceIndex.toNat default
  (List.range span.pageCount.toNat).foldl (fun output requestPage =>
    let physicalPage := physicalPages.getD (span.physicalPageOffset.toNat + requestPage) 0
    writeAt output (span.destinationOffsetBytes.toNat + requestPage * source.bytesPerPage.toNat)
      (pageBytes memory source physicalPage.toNat)) output

def gatherManagerPages (memory : ℕ → UInt8) (sources : List NativeSource) (spans : List NativeSpan)
    (physicalPages : List (BitVec 32)) (output : Bytes) : Bytes :=
  spans.foldl (gatherSpan memory sources physicalPages) output

/-- The interval that a span fills with its source's pages. -/
def ManagerPageCaptureSpan.patch (span : ManagerPageCaptureSpan) : Patchwork.Patch ℕ :=
  ⟨span.destinationOffsetBytes, span.destinationOffsetBytes + span.lengthBytes, span.sourceIndex, 0⟩

/-- The pages of a request in one layer, in request order. -/
def layerPayload (memory : ℕ → UInt8) (groups : List (List ℤ)) (source : ManagerPageSource) : Bytes :=
  (groups.getD source.groupIndex.toNat []).flatMap fun page =>
    pageBytes memory source.native page.toNat

/-- A source holds a layer of the layout, and the payload of the layer is the request's pages. -/
structure Captured (memory : ℕ → UInt8) (groups : List (List ℤ)) (payloads : Dictionary Str Bytes)
    (layer : ℕ × PageLayer) (source : ManagerPageSource) : Prop where
  group : layer.1 = source.groupIndex.toNat
  width : layer.2.bytesPerPage = source.bytesPerPage.toNat
  payload : payloads.lookup layer.2.name = some (layerPayload memory groups source)

theorem pageBytes_length (memory : ℕ → UInt8) (source : NativeSource) (page : ℕ) :
    (pageBytes memory source page).length = source.bytesPerPage.toNat := by
  rw [pageBytes, List.length_map, List.length_range]

theorem writeAt_append (written tail data : Bytes) :
    writeAt (written ++ tail) written.length data = written ++ data ++ tail.drop data.length := by
  unfold writeAt
  rw [List.take_left, List.drop_append, List.drop_eq_nil_of_le (by omega), Nat.add_sub_cancel_left,
    List.nil_append]

/-- Writing equally long pieces one after another. -/
theorem foldl_writeAt {width : ℕ} {piece : ℕ → Bytes} (hwidth : ∀ k, (piece k).length = width) (n : ℕ) :
    ∀ (written tail : Bytes),
      (List.range n).foldl (fun output k => writeAt output (written.length + k * width) (piece k))
        (written ++ tail) =
      written ++ (List.range n).flatMap piece ++ tail.drop (n * width) := by
  induction n with
  | zero => simp
  | succ n ih =>
      intro written tail
      have hlength : ((List.range n).flatMap piece).length = n * width := by
        rw [List.length_flatMap]
        simp [hwidth]
      rw [List.range_succ, List.foldl_append, ih, List.foldl_cons, List.foldl_nil, List.flatMap_append]
      have hwritten : written.length + n * width = (written ++ (List.range n).flatMap piece).length := by
        rw [List.length_append, hlength]
      rw [hwritten, writeAt_append, List.drop_drop, hwidth, Nat.succ_mul]
      simp [List.append_assoc]

theorem foldl_range_congr {β : Type} {f g : β → ℕ → β} {n : ℕ} (h : ∀ b, ∀ k < n, f b k = g b k) :
    ∀ b, (List.range n).foldl f b = (List.range n).foldl g b := by
  induction n with
  | zero => exact fun _ => rfl
  | succ n ih =>
      intro b
      rw [List.range_succ, List.foldl_append, List.foldl_append, ih fun b k hk => h b k (by omega)]
      exact h _ n (by omega)

theorem flatMap_range {α β : Type} (xs : List α) (d : α) (f : α → List β) :
    (List.range xs.length).flatMap (fun k => f (xs.getD k d)) = xs.flatMap f := by
  have hxs : (List.range xs.length).map (fun k => xs.getD k d) = xs := by
    apply List.ext_getElem
    · rw [List.length_map, List.length_range]
    · intro k _ hk
      rw [List.getElem_map, List.getElem_range, List.getD_eq_getElem?_getD, List.getElem?_eq_getElem hk,
        Option.getD_some]
  conv_rhs => rw [← hxs, List.flatMap_map]

theorem groupOffset_map {α β : Type} (f : α → β) (groups : List (List α)) (group : ℕ) :
    groupOffset (groups.map (List.map f)) group = groupOffset groups group := by
  rw [groupOffset, groupOffset, ← List.map_take, ← List.map_flatten, List.length_map]

/-- The entries of a group in the flattened table. -/
theorem flatten_getElem? {α : Type} {groups : List (List α)} {group k : ℕ} (h : group < groups.length)
    (hk : k < groups[group].length) :
    groups.flatten[groupOffset groups group + k]? = some groups[group][k] := by
  have hsplit : groups.flatten = (groups.take group).flatten ++
      (groups[group] ++ (groups.drop (group + 1)).flatten) := by
    rw [← List.flatten_cons, ← List.drop_eq_getElem_cons h, ← List.flatten_append,
      List.take_append_drop]
  rw [hsplit, groupOffset, List.getElem?_append_right (by omega), Nat.add_sub_cancel_left,
    List.getElem?_append_left hk, List.getElem?_eq_getElem hk]

theorem checkPages_values {group capacity : ℕ} {pageIds : List ℤ}
    (h : ∀ page ∈ pageIds, 0 ≤ page ∧ page ≤ uint32Max) :
    ∀ {index : ℕ} {values : List ℕ}, checkPages group capacity index pageIds = .ok values →
      values = pageIds.map Int.toNat := by
  induction pageIds with
  | nil =>
      intro index values hvalues
      cases hvalues
      rfl
  | cons page rest ih =>
      intro index values hvalues
      rw [List.forall_mem_cons] at h
      rw [checkPages_cons h.1] at hvalues
      split at hvalues
      · rw [bind_eq_ok] at hvalues
        obtain ⟨more, hmore, heq⟩ := hvalues
        cases heq
        rw [ih h.2 hmore, List.map_cons]
      · cases hvalues

theorem checkGroups_values {known : List (Option ℕ)} {groups : List (List ℤ)}
    (h : ∀ pageIds ∈ groups, ∀ page ∈ pageIds, 0 ≤ page ∧ page ≤ uint32Max) :
    ∀ {group : ℕ} {values : List (List ℕ)}, checkGroups known group groups = .ok values →
      values = groups.map (List.map Int.toNat) := by
  induction groups with
  | nil =>
      intro group values hvalues
      cases hvalues
      rfl
  | cons pageIds rest ih =>
      intro group values hvalues
      rw [List.forall_mem_cons] at h
      rw [checkGroups, bind_eq_ok] at hvalues
      obtain ⟨_, -, hvalues⟩ := hvalues
      split at hvalues
      · cases hvalues
      · simp only [bind_eq_ok, pure, Except.pure, Except.ok.injEq] at hvalues
        obtain ⟨first, hfirst, more, hmore, rfl⟩ := hvalues
        rw [checkPages_values h.1 hfirst, ih h.2 hmore, List.map_cons]

theorem checkSources_width {groupCount : ℕ} {sources : List ManagerPageSource}
    (h : ∀ source ∈ sources, source.Fits) :
    ∀ {index : ℕ} {scan scan' : SourceScan}, checkSources groupCount index scan sources = .ok scan' →
      ∀ source ∈ sources, 0 < source.bytesPerPage.toNat := by
  induction sources with
  | nil => simp
  | cons source rest ih =>
      intro index scan scan' hscan
      rw [List.forall_mem_cons] at h ⊢
      rw [checkSources, bind_eq_ok] at hscan
      obtain ⟨middle, hfirst, hrest⟩ := hscan
      exact ⟨((checkSource_eq_ok h.1).mp hfirst).1.positive.2.2.2, ih h.2 hrest⟩

section Gather
variable {sources : List ManagerPageSource} {groups : List (List ℤ)} {slotBytes : ℤ}

theorem layerPayload_length (memory : ℕ → UInt8) (groups : List (List ℤ)) {source : ManagerPageSource} (h : source.Fits) :
    (layerPayload memory groups source).length =
      (groups.getD source.groupIndex.toNat []).length * source.bytesPerPage.toNat := by
  rw [layerPayload, List.length_flatMap]
  simp [pageBytes_length, h.native.2.2.2.1]

theorem gatherSpan_eq (memory : ℕ → UInt8) (h : Fits sources groups slotBytes) {index cursor : ℕ}
    {source : ManagerPageSource} (hsource : sources[index]? = some source)
    (hgroup : source.groupIndex.toNat < groups.length) {native : NativeSpan}
    (hsame : ManagerPageCaptureSpan.Same ⟨index, source.groupIndex.toNat,
      groupOffset groups source.groupIndex.toNat, (groups.getD source.groupIndex.toNat []).length, cursor,
      (groups.getD source.groupIndex.toNat []).length * source.bytesPerPage.toNat⟩ native)
    {written : Bytes} (hwritten : written.length = cursor) (tail : Bytes) :
    gatherSpan memory (sources.map (·.native)) (packPages groups) (written ++ tail) native =
      written ++ layerPayload memory groups source ++
        tail.drop (layerPayload memory groups source).length := by
  obtain ⟨hoffset, -, hindex, hpages, hcount, -⟩ := hsame
  dsimp only at hoffset hindex hpages hcount
  have hfits := h.inventory source (List.mem_of_getElem? hsource)
  have hwidth := hfits.native.2.2.2.1
  have hgetD : groups.getD source.groupIndex.toNat [] = groups[source.groupIndex.toNat] := by
    rw [List.getD_eq_getElem?_getD, List.getElem?_eq_getElem hgroup, Option.getD_some]
  have hnative : (sources.map (·.native)).getD native.sourceIndex.toNat default = source.native := by
    rw [hindex, List.getD_eq_getElem?_getD, List.getElem?_map, hsource]
    rfl
  have hpage : ∀ k < groups[source.groupIndex.toNat].length,
      ((packPages groups).getD (groupOffset groups source.groupIndex.toNat + k) 0).toNat =
        (groups[source.groupIndex.toNat].getD k 0).toNat := by
    intro k hk
    have hentry := flatten_getElem? hgroup hk
    have hvalue := h.pages _ (List.getElem_mem hgroup) _ (List.getElem_mem hk)
    rw [List.getD_eq_getElem?_getD, packPages, List.getElem?_map, hentry, Option.map_some,
      Option.getD_some, toNat_ofInt hvalue (by decide), List.getD_eq_getElem?_getD,
      List.getElem?_eq_getElem hk, Option.getD_some]
  unfold gatherSpan
  dsimp only
  rw [hnative, hcount, hoffset, hpages, hgetD, hwidth, ← hwritten]
  rw [foldl_range_congr (g := fun output k => writeAt output
    (written.length + k * source.bytesPerPage.toNat)
    (pageBytes memory source.native (groups[source.groupIndex.toNat].getD k 0).toNat)) (by
      intro output k hk
      rw [hpage k hk])]
  rw [foldl_writeAt (fun k => (pageBytes_length memory source.native _).trans hwidth),
    flatMap_range groups[source.groupIndex.toNat] 0 fun page => pageBytes memory source.native page.toNat,
    layerPayload_length memory groups hfits,
    layerPayload, hgetD]

/-- The spans from a source on tile what they fill, and filling them writes the sources' pages. -/
theorem gather_planned (memory : ℕ → UInt8) (h : Fits sources groups slotBytes) {capacity : ℕ}
    (hne : ∀ pageIds ∈ groups, pageIds ≠ []) {rest : List ManagerPageSource}
    (hgroup : ∀ source ∈ rest, source.groupIndex.toNat < groups.length ∧ 0 < source.bytesPerPage.toNat) :
    ∀ (index : ℕ) {cursor last : ℕ} {spans : List ManagerPageCaptureSpan} {native : List NativeSpan},
      sources.drop index = rest →
      planSpans (groups.map (List.map Int.toNat)) capacity index cursor rest = .ok (spans, last) →
      List.Forall₂ ManagerPageCaptureSpan.Same spans native →
      Patchwork.Contiguous cursor (spans.map (·.patch)) last ∧
      spans.map (·.sourceIndex) = List.range' index rest.length ∧
      last = cursor + (rest.flatMap (layerPayload memory groups)).length ∧
      ∀ written tail : Bytes, written.length = cursor →
        gatherManagerPages memory (sources.map (·.native)) native (packPages groups) (written ++ tail) =
          written ++ rest.flatMap (layerPayload memory groups) ++
            tail.drop (rest.flatMap (layerPayload memory groups)).length := by
  induction rest with
  | nil =>
      intro index cursor last spans native _ hplan hsame
      cases hplan
      cases hsame
      exact ⟨rfl, rfl, rfl, fun written tail _ => by simp [gatherManagerPages]⟩
  | cons source rest ih =>
      intro index cursor last spans native hdrop hplan hsame
      rw [List.forall_mem_cons] at hgroup
      obtain ⟨⟨hin, hwidth⟩, hgroup⟩ := hgroup
      have hsource : sources[index]? = some source := by
        rw [← List.head?_drop, hdrop, List.head?_cons]
      have hfits := h.inventory source (List.mem_of_getElem? hsource)
      have hgetD : (groups.map (List.map Int.toNat)).getD source.groupIndex.toNat [] =
          (groups.getD source.groupIndex.toNat []).map Int.toNat := by
        simp only [List.getD_eq_getElem?_getD, List.getElem?_map, List.getElem?_eq_getElem hin]
        rfl
      rw [planSpans] at hplan
      simp only [bind_eq_ok, require_eq_ok, Prod.exists, pure, Except.pure, Except.ok.injEq, Prod.mk.injEq,
        hgetD, List.length_map, groupOffset_map] at hplan
      obtain ⟨_, hfit, later, _, hlater, rfl, rfl⟩ := hplan
      obtain ⟨first, native, hfirst, hrest, rfl⟩ := List.forall₂_cons_left_iff.mp hsame
      have hlength := layerPayload_length memory groups hfits
      rw [← hlength] at hlater
      obtain ⟨htiles, hindices, hlast, hgather⟩ := ih hgroup (index + 1) (by
        rw [← List.tail_drop, hdrop, List.tail_cons]) hlater hrest
      have hpages : 0 < (groups.getD source.groupIndex.toNat []).length := by
        rw [List.getD_eq_getElem?_getD, List.getElem?_eq_getElem hin]
        exact List.length_pos_of_ne_nil (hne _ (List.getElem_mem hin))
      refine ⟨⟨rfl, ?_, ?_⟩, ?_, ?_, ?_⟩
      · exact Nat.lt_add_of_pos_right (Nat.mul_pos hpages hwidth)
      · rw [← hlength]
        exact htiles
      · rw [List.map_cons, hindices, List.length_cons, List.range'_succ]
      · rw [hlast, List.flatMap_cons, List.length_append, Nat.add_assoc]
      · intro written tail hwritten
        rw [gatherManagerPages, List.foldl_cons, gatherSpan_eq memory h hsource hin hfirst hwritten]
        have hnext := hgather (written ++ layerPayload memory groups source)
          (tail.drop (layerPayload memory groups source).length) (by rw [List.length_append, hwritten])
        rw [gatherManagerPages] at hnext
        rw [hnext, List.flatMap_cons, List.length_append, List.drop_drop]
        simp [List.append_assoc]

end Gather

/-- The payloads of the layers are the request's pages. -/
theorem collectPayloads_captured {memory : ℕ → UInt8} {groups : List (List ℤ)}
    {payloads : Dictionary Str Bytes} {layers : List (ℕ × PageLayer)} {sources : List ManagerPageSource}
    (h : List.Forall₂ (Captured memory groups payloads) layers sources) {counts : List ℕ} :
    ∀ {parts : List Bytes}, collectPayloads counts payloads layers = .ok parts →
      parts = sources.map (layerPayload memory groups) := by
  induction h with
  | nil =>
      intro parts hparts
      cases hparts
      rfl
  | cons hfirst _ ih =>
      intro parts hparts
      rw [collectPayloads, hfirst.payload] at hparts
      dsimp only at hparts
      split at hparts
      · cases hparts
      · cases hmore : collectPayloads counts payloads _ with
        | error e =>
            rw [hmore] at hparts
            cases hparts
        | ok more =>
            rw [hmore] at hparts
            cases hparts
            rw [ih hmore, List.map_cons]

/-- The native planner accepts exactly the requests that the planner over integers accepts. No
operation of it wraps or leaves an array. Both plan the same spans, these tile the payload, and a
gather of the pages writes the body of the encoded snapshot and nothing else. -/
theorem planCapture_refines {sources : List ManagerPageSource} {groups : List (List ℤ)} {slotBytes : ℤ}
    (h : Fits sources groups slotBytes) :
    let planned := planManagerPageCapture sources groups slotBytes
    let native := planCapture (sources.map (·.native)) (packGroups 0 groups) (packPages groups)
      (.ofInt 64 slotBytes) 256
    native.faulted = false ∧
    ((∃ plan, planned = .ok plan) ↔ ∃ result, native.outcome = .ok result) ∧
    ∀ plan, planned = .ok plan → ∃ spans nativePlan, native.outcome = .ok (spans, nativePlan) ∧
      List.Forall₂ ManagerPageCaptureSpan.Same plan.spans spans ∧
      nativePlan.usedBytes.toNat = plan.usedBytes ∧
      plan.spans.map (·.sourceIndex) = List.range sources.length ∧
      Patchwork.Contiguous 0 (plan.spans.map (·.patch)) plan.usedBytes ∧
      ∀ (memory : ℕ → UInt8) (layout : PageLayout) (payloads : Dictionary Str Bytes) (encoded : Bytes),
        List.Forall₂ (Captured memory groups payloads) layout.layers sources →
        encodePageSnapshot layout (groups.map List.length) payloads = .ok encoded →
        ∃ header body, encodePageSnapshotHeader layout (groups.map List.length) = .ok header ∧
          encoded = header ++ body ∧ body.length = plan.usedBytes ∧
          ∀ output, gatherManagerPages memory (sources.map (·.native)) spans (packPages groups) output =
            body ++ output.drop plan.usedBytes := by
  intro planned native
  have hagrees := planCapture_agrees h
  refine ⟨hagrees.not_faulted, hagrees.accepts, fun plan hplan => ?_⟩
  rw [show planManagerPageCapture sources groups slotBytes = .ok plan from hplan] at hagrees
  obtain ⟨⟨spans, nativePlan⟩, hnative, hsame, hused⟩ := hagrees.result
  obtain ⟨-, -, -, scan, hscan, -, values, hvalues, -, extents, last, hextents, rfl⟩ :=
    (planManagerPageCapture_eq_ok h).mp hplan
  have hne := checkGroups_ne hvalues
  obtain rfl := checkGroups_values h.pages hvalues
  obtain ⟨-, hcapacity⟩ := checkSources_capacity h.inventory (List.length_replicate ..) hscan
  have hsources : ∀ source ∈ sources, source.groupIndex.toNat < groups.length ∧
      0 < source.bytesPerPage.toNat := fun source hsource =>
    ⟨(hcapacity source hsource).1, checkSources_width h.inventory hscan source hsource⟩
  have hgathered := fun memory => gather_planned memory h hne hsources 0 List.drop_zero
    hextents hsame
  obtain ⟨htiles, hindices, -⟩ := hgathered fun _ => 0
  refine ⟨spans, nativePlan, hnative, hsame, hused, ?_, htiles, ?_⟩
  · rw [hindices, List.range_eq_range']
  intro memory layout payloads encoded hcaptured hencoded
  unfold encodePageSnapshot at hencoded
  simp only [bind_eq_ok, require_eq_ok, pure, Except.pure, Except.ok.injEq] at hencoded
  obtain ⟨_, -, _, -, _, -, parts, hparts, header, hheader, rfl⟩ := hencoded
  obtain ⟨-, -, hlast, hgather⟩ := hgathered memory
  have hbody : parts.flatten = sources.flatMap (layerPayload memory groups) := by
    rw [collectPayloads_captured hcaptured hparts, List.flatMap_def]
  refine ⟨header, parts.flatten, hheader, rfl, ?_, fun output => ?_⟩
  · rw [hbody, hlast, Nat.zero_add]
  · have houtput := hgather [] output rfl
    rw [List.nil_append, List.nil_append] at houtput
    rw [houtput, hbody, hlast, Nat.zero_add]

/-- Two layers of one group and a layer of another. -/
def tinySources : List ManagerPageSource :=
  [⟨4096, 8, 4, 4, 0, 0⟩, ⟨8192, 8, 6, 5, 0, 1⟩, ⟨12288, 4, 2, 2, 1, 0⟩]

def tinyGroups : List (List ℤ) := [[7, 0], [3]]

theorem tinySources_fit : Fits tinySources tinyGroups 20 where
  inventory := by
    simp only [tinySources, List.forall_mem_cons]
    refine ⟨?_, ?_, ?_, by simp⟩
    all_goals exact ⟨by decide, by decide, by decide, by decide, by decide, by decide⟩
  pages := by decide
  slotBytes := by decide
  sourceCount := by decide
  groupCount := by decide
  pageCount := by decide

/-- A group whose pages are all reused has no window. -/
theorem full_window : if ReusePolicy.full = .sliding then (none : Option ℕ).any (1 < ·) = true
    else (none : Option ℕ) = none := rfl

/-- A layer of pages of `rest + 1` bytes. -/
def tinyLayer (name : Str) (rest : ℕ) (hname : name ≠ "") : PageLayer where
  name := name
  dtype := "u8"
  pageShape := [rest + 1]
  bytesPerPage := rest + 1
  complete := ⟨hname, by decide, by simp⟩
  positive := by simp

/-- A group of pages that are all reused, of one token each. -/
def tinyGroup (layers : List PageLayer) (hne : layers ≠ [])
    (hsorted : (layers.map PageLayer.name).Pairwise (· < ·)) : PageGroup where
  blockSize := 1
  layers := layers
  reusePolicy := .full
  reuseWindowTokens := none
  complete := ⟨Nat.one_pos, hne⟩
  window := full_window
  sorted := hsorted

/-- The layout of the sources. -/
def tinyLayout : PageLayout where
  groups :=
    [tinyGroup [tinyLayer "kv.0" 3 (by decide), tinyLayer "kv.1" 4 (by decide)] (by simp) (by decide),
      tinyGroup [tinyLayer "kv.2" 1 (by decide)] (by simp) (by decide)]
  nonempty := by simp
  disjoint := by decide

/-- No two bytes of a source are equal. -/
def tinyMemory (address : ℕ) : UInt8 := UInt8.ofNat (address / 64 + address % 64)

/-- The pages 7 and 0 of the first two layers and the page 3 of the third. -/
def tinyPayloads : Dictionary Str Bytes :=
  AList.insert "kv.0" [92, 93, 94, 95, 64, 65, 66, 67]
    (AList.insert "kv.1" [170, 171, 172, 173, 174, 128, 129, 130, 131, 132] (AList.insert "kv.2" [198, 199] ∅))

def tinyBody : Bytes :=
  [92, 93, 94, 95, 64, 65, 66, 67, 170, 171, 172, 173, 174, 128, 129, 130, 131, 132, 198, 199]

theorem tinySources_captured :
    List.Forall₂ (Captured tinyMemory tinyGroups tinyPayloads) tinyLayout.layers tinySources :=
  .cons ⟨rfl, rfl, by decide⟩ (.cons ⟨rfl, rfl, by decide⟩ (.cons ⟨rfl, rfl, by decide⟩ .nil))

set_option maxRecDepth 100000 in
theorem tinyPayloads_encoded : encodePageSnapshot tinyLayout (tinyGroups.map List.length) tinyPayloads =
    .ok (((encodePageSnapshotHeader tinyLayout (tinyGroups.map List.length)).toOption.getD []) ++ tinyBody) := by
  decide +kernel

theorem planCapture_refines_tiny :
    ∃ plan spans nativePlan, planManagerPageCapture tinySources tinyGroups 20 = .ok plan ∧
      (planCapture (tinySources.map (·.native)) (packGroups 0 tinyGroups) (packPages tinyGroups)
        (.ofInt 64 20) 256).outcome = .ok (spans, nativePlan) ∧
      List.Forall₂ ManagerPageCaptureSpan.Same plan.spans spans ∧ nativePlan.usedBytes.toNat = 20 ∧
      plan.spans.map (·.lengthBytes) = [8, 10, 2] ∧
      (∃ header, encodePageSnapshot tinyLayout (tinyGroups.map List.length) tinyPayloads =
        .ok (header ++ tinyBody)) ∧
      ∀ output, gatherManagerPages tinyMemory (tinySources.map (·.native)) spans (packPages tinyGroups) output =
        tinyBody ++ output.drop 20 := by
  obtain ⟨spans, nativePlan, hnative, hsame, hused, -, -, hgather⟩ :=
    (planCapture_refines tinySources_fit).2.2 ⟨[7, 0, 3], [0, 2], [2, 1],
      [⟨0, 0, 0, 2, 0, 8⟩, ⟨1, 0, 0, 2, 8, 10⟩, ⟨2, 1, 2, 1, 18, 2⟩], 20⟩ rfl
  obtain ⟨header, body, hheader, hbody, -, houtput⟩ :=
    hgather tinyMemory tinyLayout tinyPayloads _ tinySources_captured tinyPayloads_encoded
  have hsplit : tinyBody = body := by
    rw [hheader] at hbody
    exact List.append_cancel_left hbody
  rw [← hsplit] at houtput
  exact ⟨_, spans, nativePlan, rfl, hnative, hsame, hused, rfl, ⟨_, tinyPayloads_encoded⟩, houtput⟩

end SparkCache.Streaming
