import Mathlib.Data.List.TakeWhile
import SparkCache.Json.Plain
import SparkCache.Pages.CaptureDelta
import SparkCache.Pages.ComposedHistory

/-!
# Encoded deltas applied

A delta that an encoder wrote is planned as it was meant, and applied to its
base it returns the result, provided that it carries digests and that the
layers' names are Unicode text.
-/
namespace SparkCache.Pages

/-! ## Planning an encoded delta -/

def deltaHeaderItems (digest baseDigest resultDigest : Digest) (baseCounts resultCounts : List ℕ)
    (baseTokens resultTokens : ℕ) (reused : List ℕ) (layerTails : List (Str × Bytes)) :
    List (Str × Json) :=
  [("schema", .str deltaHeaderSchemaV1), ("layout_sha256", digest.json),
    ("base_snapshot_sha256", baseDigest.json), ("result_snapshot_sha256", resultDigest.json),
    ("base_block_counts", .arr (Json.nats baseCounts)),
    ("result_block_counts", .arr (Json.nats resultCounts)),
    ("base_boundary_tokens", .int baseTokens), ("result_boundary_tokens", .int resultTokens),
    ("reused_pages_by_group", .arr (Json.nats reused)),
    ("layer_tails", .arr (layerTails.map fun tail => tailDescriptor .sha256 tail.1 tail.2))]

section Header
variable {layout : PageLayout} {digest baseDigest resultDigest : Digest}
  {baseCounts resultCounts reused : List ℕ} {baseTokens resultTokens : ℕ}
  {layerTails : List (Str × Bytes)}

theorem deltaHeaderItems_nodup :
    ((deltaHeaderItems digest baseDigest resultDigest baseCounts resultCounts baseTokens resultTokens
      reused layerTails).map Prod.fst).Nodup := by
  simp [deltaHeaderItems]

theorem plain_nats (values : List ℕ) : (Json.arr (Json.nats values)).Plain := by
  apply Json.plain_arr
  intro v hv
  obtain ⟨n, -, rfl⟩ := List.mem_map.mp hv
  exact Json.plain_int n

theorem plain_tailDescriptor {name : Str} (h : name.encodable = true) (tail : Bytes) :
    (tailDescriptor .sha256 name tail).Plain := by
  apply Json.plain_object
  simp only [tailCheck, List.mem_cons, List.not_mem_nil, or_false, forall_eq_or_imp, forall_eq,
    Str.encodable_ofString, true_and]
  exact ⟨h, Json.plain_int _, Json.plain_hex _⟩

theorem deltaHeaderItems_plain (h : ∀ tail ∈ layerTails, tail.1.encodable = true) :
    (Json.object (deltaHeaderItems digest baseDigest resultDigest baseCounts resultCounts baseTokens
      resultTokens reused layerTails)).Plain := by
  have htails : (Json.arr (layerTails.map fun tail => tailDescriptor .sha256 tail.1 tail.2)).Plain := by
    apply Json.plain_arr
    intro v hv
    obtain ⟨tail, htail, rfl⟩ := List.mem_map.mp hv
    exact plain_tailDescriptor (h tail htail) _
  apply Json.plain_object
  simp only [deltaHeaderItems, List.mem_cons, List.not_mem_nil, or_false, forall_eq_or_imp, forall_eq,
    Str.encodable_ofString, true_and]
  exact ⟨Json.plain_str_ofString _, Json.plain_hex _, Json.plain_hex _, Json.plain_hex _,
    plain_nats _, plain_nats _, Json.plain_int _, Json.plain_int _, plain_nats _, htails⟩

theorem packDeltaHeader_eq_ok {header : Bytes}
    (h : packDeltaHeader layout baseDigest resultDigest baseCounts resultCounts baseTokens resultTokens
      reused .sha256 layerTails = .ok header)
    (hnames : ∀ tail ∈ layerTails, tail.1.encodable = true) :
    ∃ digest, layout.digest = .ok digest ∧ ∀ body e₁ e₂ e₃,
      readHeader deltaMagic (header ++ body) e₁ e₂ e₃ = .ok (Json.object (deltaHeaderItems digest
        baseDigest resultDigest baseCounts resultCounts baseTokens resultTokens reused layerTails),
        header.length) := by
  unfold packDeltaHeader at h
  simp only [bind_eq_ok] at h
  obtain ⟨digest, hdigest, h⟩ := h
  refine ⟨digest, hdigest, ?_⟩
  split at h
  · cases h
  · rename_i encoded hencoded
    obtain ⟨hnormal, rfl, -⟩ := (deltaHeaderItems_plain hnames).loads hencoded
    exact readHeader_packed rfl hnormal h

end Header

/-- The counts of an extension, for every group of the layout. -/
structure ExtendedCounts (layout : PageLayout) (baseCounts resultCounts reused : List ℕ) : Prop where
  base : baseCounts.length = layout.groups.length
  result : resultCounts.length = layout.groups.length
  shared : reused.length = layout.groups.length
  group : ∀ group < layout.groups.length, Extended baseCounts resultCounts reused group

theorem ExtendedCounts.of_check {layout : PageLayout} {baseCounts resultCounts reused : List ℕ}
    {u : Unit} (h : checkCaptureCounts layout baseCounts resultCounts reused = .ok u) :
    ExtendedCounts layout baseCounts resultCounts reused := by
  have hgroup : ∀ group < layout.groups.length, Extended baseCounts resultCounts reused group :=
    fun _ hgroup => getD_of_checkCaptureCounts h hgroup
  unfold checkCaptureCounts at h
  simp only [bind_eq_ok, require_eq_ok] at h
  obtain ⟨-, ⟨hbase, hresult, hreused⟩, -⟩ := h
  exact ⟨by omega, by omega, hreused, hgroup⟩

theorem ExtendedCounts.zip {layout : PageLayout} {baseCounts resultCounts reused : List ℕ}
    (h : ExtendedCounts layout baseCounts resultCounts reused) :
    ∀ p ∈ baseCounts.zip resultCounts, 0 < p.1 ∧ p.1 ≤ p.2 := by
  intro p hp
  obtain ⟨group, hgroup, rfl⟩ := List.mem_iff_getElem.mp hp
  rw [List.length_zip, h.base, h.result, Nat.min_self] at hgroup
  have hcounts := h.group group hgroup
  have hpositive := hcounts.positive
  have hgrows := hcounts.grows
  rw [List.getD_eq_getElem _ 0 (h.base ▸ hgroup)] at hpositive hgrows
  rw [List.getD_eq_getElem _ 0 (h.result ▸ hgroup)] at hgrows
  rw [List.getElem_zip]
  exact ⟨hpositive, hgrows⟩

section Plan
variable {layout : PageLayout} {digest baseDigest resultDigest : Digest}
  {baseCounts resultCounts reused : List ℕ} {baseTokens resultTokens : ℕ}
  {layerTails : List (Str × Bytes)}

theorem deltaHeader_get? (key : Str) :
    (Json.object (deltaHeaderItems digest baseDigest resultDigest baseCounts resultCounts baseTokens
      resultTokens reused layerTails)).get? key =
      getField key (deltaHeaderItems digest baseDigest resultDigest baseCounts resultCounts
        baseTokens resultTokens reused layerTails) :=
  Json.get?_object deltaHeaderItems_nodup key

theorem ints?_nats (values : List ℕ) :
    (Json.arr (Json.nats values)).ints? = some (values.map (↑)) := by
  show (values.map _).mapM Json.int? = _
  induction values with
  | nil => rfl
  | cons n values ih =>
      rw [List.map_cons, List.mapM_cons, ih]
      rfl

theorem checkDeltaIdentity_items (hdigest : layout.digest = .ok digest)
    (hcounts : ExtendedCounts layout baseCounts resultCounts reused) :
    checkDeltaIdentity layout (Json.object (deltaHeaderItems digest baseDigest resultDigest baseCounts
      resultCounts baseTokens resultTokens reused layerTails)) baseCounts resultCounts baseTokens
      resultTokens = .ok (baseDigest, resultDigest) := by
  unfold checkDeltaIdentity
  simp only [deltaHeader_get?]
  simp only [deltaHeaderItems, getField]
  simp only [Str.ofString_inj, String.reduceEq, if_false, if_true, Option.bind_some, ints?_nats,
    Json.int?, Hex.ofJson?_json, bind_eq_ok, require_eq_ok]
  exact ⟨(), ⟨hcounts.base, hcounts.result, hcounts.zip⟩, (), .inl trivial, digest, hdigest,
    (), by simp, trivial⟩

theorem readDescriptors_items (hreused : reused.length = layout.groups.length)
    (htails : layerTails.length = layout.layers.length) :
    readDescriptors layout (Json.object (deltaHeaderItems digest baseDigest resultDigest baseCounts
      resultCounts baseTokens resultTokens reused layerTails)) =
      .ok (Json.nats reused, layerTails.map fun tail => tailDescriptor .sha256 tail.1 tail.2) := by
  unfold readDescriptors
  rw [deltaHeader_get?, deltaHeader_get?]
  simp [deltaHeaderItems, getField, Json.nats, hreused, htails]

theorem headerIntegrity_items :
    headerIntegrity (Json.object (deltaHeaderItems digest baseDigest resultDigest baseCounts
      resultCounts baseTokens resultTokens reused layerTails)) = .ok .sha256 := by
  unfold headerIntegrity
  rw [deltaHeader_get?, if_neg]
  simp [deltaHeaderItems, getField, deltaHeaderSchemaV1, deltaHeaderSchemaV2]

theorem hasKeys_items :
    (Json.object (deltaHeaderItems digest baseDigest resultDigest baseCounts resultCounts baseTokens
      resultTokens reused layerTails)).hasKeys (deltaHeaderKeys .sha256) = true := by
  rw [Json.hasKeys_object]
  simp [deltaHeaderItems, deltaHeaderKeys]

/-- What planning makes of the tails that were encoded from an offset on. -/
def encodedTails (reused : List ℕ) : ℕ → List (ℕ × PageLayer) → List Bytes → List PageDeltaTail
  | offset, p :: layers, tail :: tails =>
      ⟨p.2.name, p.1, offset, offset + tail.length, sharedBytes reused p, some (sha256 tail), none⟩ ::
        encodedTails reused (offset + tail.length) layers tails
  | _, _, _ => []

theorem reusedPages?_nats {group : ℕ} (hgroup : group < reused.length)
    (h : reused.getD group 0 ≤ baseCounts.getD group 0) :
    reusedPages? baseCounts (Json.nats reused) group = some (reused.getD group 0) := by
  unfold reusedPages? Json.nats
  rw [List.getElem?_map, List.getElem?_eq_getElem hgroup]
  rw [List.getD_eq_getElem _ _ hgroup] at h ⊢
  show (if _ then some (Int.toNat _) else none) = _
  rw [if_pos ⟨Int.natCast_nonneg _, by exact_mod_cast h⟩, Int.toNat_natCast]

theorem readDescriptor?_tail (layer : PageLayer) (tail : Bytes) :
    readDescriptor? .sha256 layer tail.length (tailDescriptor .sha256 layer.name tail) =
      some (some (sha256 tail), none) := by
  have hnodup : ([("name", .str layer.name), ("bytes", .int tail.length),
      ("sha256", (sha256 tail).json)] : List (Str × Json)).map Prod.fst |>.Nodup := by
    simp
  have hget := Json.get?_object hnodup
  unfold readDescriptor? tailDescriptor tailCheck
  simp only [hget, Json.hasKeys_object]
  simp [getField]

theorem planTails_encoded {total offset : ℕ} {layers : List (ℕ × PageLayer)} {tails : List Bytes}
    (hgroups : ∀ p ∈ layers, p.1 < reused.length ∧ Extended baseCounts resultCounts reused p.1)
    (htails : List.Forall₂ (fun p tail => tail.length = tailBytes resultCounts reused p) layers tails)
    (htotal : offset + tails.flatten.length ≤ total) :
    planTails .sha256 baseCounts resultCounts (Json.nats reused) total offset (layers.zip
        (((layers.map fun p => p.2.name).zip tails).map fun tail =>
          tailDescriptor .sha256 tail.1 tail.2)) =
      .ok (encodedTails reused offset layers tails, offset + tails.flatten.length) := by
  induction htails generalizing offset with
  | nil => rfl
  | @cons p tail layers tails htail _ ih =>
      obtain ⟨hgroup, hextended⟩ := hgroups p List.mem_cons_self
      rw [List.flatten_cons, List.length_append] at htotal ⊢
      have hrest := ih (fun q hq => hgroups q (List.mem_cons_of_mem _ hq))
        (show offset + tail.length + tails.flatten.length ≤ total by omega)
      have hsize : (resultCounts.getD p.1 0 - reused.getD p.1 0) * p.2.bytesPerPage = tail.length :=
        htail.symm
      rw [List.map_cons, List.zip_cons_cons, List.map_cons, List.zip_cons_cons, planTails,
        reusedPages?_nats hgroup hextended.shared]
      dsimp only
      rw [hsize, readDescriptor?_tail]
      dsimp only
      rw [require, if_pos (by omega), hrest, ← Nat.add_assoc]
      rfl

theorem planPageDelta_encoded {header : Bytes} {tails : List Bytes}
    (hcounts : ExtendedCounts layout baseCounts resultCounts reused)
    (htokens : 0 < baseTokens ∧ baseTokens < resultTokens)
    (hnames : ∀ p ∈ layout.layers, p.2.name.encodable = true)
    (htails : List.Forall₂ (fun p tail => tail.length = tailBytes resultCounts reused p)
      layout.layers tails)
    (h : packDeltaHeader layout baseDigest resultDigest baseCounts resultCounts baseTokens resultTokens
      reused .sha256 ((layout.layers.map fun p => p.2.name).zip tails) = .ok header) :
    planPageDelta layout (header ++ tails.flatten) baseCounts resultCounts baseTokens resultTokens
        (some (header ++ tails.flatten).length) =
      .ok ⟨header.length, (header ++ tails.flatten).length, baseCounts, resultCounts, baseTokens,
        resultTokens, baseDigest, resultDigest, reused,
        encodedTails reused header.length layout.layers tails, .sha256⟩ := by
  have hencodable : ∀ tail ∈ (layout.layers.map fun p => p.2.name).zip tails,
      tail.1.encodable = true := by
    intro tail htail
    obtain ⟨p, hp, hname⟩ := List.mem_map.mp (List.of_mem_zip htail).1
    exact hname ▸ hnames p hp
  obtain ⟨digest, hdigest, hread⟩ := packDeltaHeader_eq_ok h hencodable
  have hlength : ((layout.layers.map fun p => p.2.name).zip tails).length = layout.layers.length := by
    rw [List.length_zip, List.length_map, htails.length_eq, Nat.min_self]
  have hgroups : ∀ p ∈ layout.layers, p.1 < reused.length ∧
      Extended baseCounts resultCounts reused p.1 := fun p hp =>
    have hlt := layout.layers_index_lt hp
    ⟨hcounts.shared ▸ hlt, hcounts.group p.1 hlt⟩
  have hplan := planTails_encoded hgroups htails
    (show header.length + tails.flatten.length ≤ (header ++ tails.flatten).length from
      Nat.le_of_eq List.length_append.symm)
  have hreused : (Json.nats reused).map (fun pages => (pages.int?.getD 0).toNat) = reused := by
    rw [Json.nats, List.map_map]
    exact List.map_id' reused
  unfold planPageDelta
  rw [hread]
  simp only [bind_eq_ok, require_eq_ok, Prod.exists, Option.getD_some]
  refine ⟨(), require_eq_ok.mpr htokens, _, _, rfl, (), Json.isObject_object _, _,
    headerIntegrity_items, (), hasKeys_items, _, _, checkDeltaIdentity_items hdigest hcounts, _, _,
    readDescriptors_items hcounts.shared hlength, (), ?_, _, _, hplan, (), List.length_append.symm, ?_⟩
  · rw [List.length_append]
    omega
  · rw [hreused]
    rfl

end Plan

/-- An encoded delta gives back its tails, joined to what is shared with the base. -/
theorem joinTails_encoded {base before after : Bytes} {baseCounts resultCounts reused : List ℕ}
    {offset : ℕ} {layers : List (ℕ × PageLayer)} {tails : List Bytes}
    (hgroups : ∀ p ∈ layers, Extended baseCounts resultCounts reused p.1)
    (htails : tails.length = layers.length) :
    ∃ parts, joinTails base (before ++ tails.flatten ++ after)
        (encodedTails reused before.length layers tails) (spanList baseCounts offset layers) =
        .ok parts ∧
      parts.flatten = (joinLayers reused layers
        (spanPayloads base (spanList baseCounts offset layers)) tails).flatten := by
  induction layers generalizing before offset tails with
  | nil =>
      rw [List.length_eq_zero_iff.mp htails]
      exact ⟨[], rfl, rfl⟩
  | cons p layers ih =>
      obtain ⟨tail, tails, rfl⟩ := List.exists_cons_of_length_eq_add_one htails
      have hgroups' : ∀ q ∈ layers, Extended baseCounts resultCounts reused q.1 :=
        fun q hq => hgroups q (List.mem_cons_of_mem _ hq)
      have hshared := (hgroups p List.mem_cons_self).sharedBytes_le
      obtain ⟨parts, hparts, hflatten⟩ := @ih (before ++ tail) (offset + layerBytes baseCounts p) tails
        hgroups' (by simpa using htails)
      have hencoded : before ++ tail ++ tails.flatten ++ after =
          before ++ (tail :: tails).flatten ++ after := by
        rw [List.flatten_cons, List.append_assoc before tail]
      have htail : slice (before ++ (tail :: tails).flatten ++ after) before.length
          (before.length + tail.length) = tail := by
        rw [slice, List.append_assoc, List.drop_left, List.flatten_cons, List.append_assoc,
          Nat.add_sub_cancel_left, List.take_left]
      rw [hencoded, List.length_append] at hparts
      refine ⟨slice base offset (offset + sharedBytes reused p) :: tail :: parts, ?_, ?_⟩
      · rw [encodedTails, spanList, joinTails]
        simp only [bind_eq_ok, require_eq_ok, htail]
        exact ⟨(), trivial, parts, hparts, rfl⟩
      · unfold spanPayloads at hflatten ⊢
        rw [spanList, List.map_cons, joinLayers, List.flatten_cons, List.flatten_cons, List.flatten_cons,
          hflatten, slice_prefix hshared, List.append_assoc]

/-! ## Applying an encoded delta -/

section Apply
variable {layout : PageLayout} {base result : Bytes} {baseCounts resultCounts reused : List ℕ}
  {baseTokens resultTokens : ℕ}

theorem applyPageDelta_encoded {basePlan : PageSnapshotPlan} {resultHeader header : Bytes}
    {tails : List Bytes} (hplan : planPageSnapshot layout base baseCounts none = .ok basePlan)
    (hresultHeader : encodePageSnapshotHeader layout resultCounts = .ok resultHeader)
    (hcounts : ExtendedCounts layout baseCounts resultCounts reused)
    (htokens : 0 < baseTokens ∧ baseTokens < resultTokens)
    (hnames : ∀ p ∈ layout.layers, p.2.name.encodable = true)
    (htails : List.Forall₂ (fun p tail => tail.length = tailBytes resultCounts reused p)
      layout.layers tails)
    (hresult : result = resultHeader ++
      (joinLayers reused layout.layers (spanPayloads base basePlan.spans) tails).flatten)
    (h : packDeltaHeader layout (sha256 base) (sha256 result) baseCounts resultCounts baseTokens
      resultTokens reused .sha256 ((layout.layers.map fun p => p.2.name).zip tails) = .ok header) :
    applyPageDelta layout base (header ++ tails.flatten) baseCounts resultCounts baseTokens
      resultTokens = .ok result := by
  obtain ⟨-, -, hspans, htotal, hsum, -⟩ := planPageSnapshot_eq_ok hplan
  have hgroups : ∀ p ∈ layout.layers, Extended baseCounts resultCounts reused p.1 :=
    fun p hp => hcounts.group p.1 (layout.layers_index_lt hp)
  have hsized := joinLayers_sized hgroups (spanPayloads_sized (htotal.symm.trans hsum)).1 htails
  rw [← hspans] at hsized
  obtain ⟨parts, hparts, hflatten⟩ := @joinTails_encoded base header [] baseCounts resultCounts reused
    basePlan.headerBytes layout.layers tails hgroups htails.length_eq.symm
  rw [List.append_nil, ← hspans] at hparts
  rw [← hspans] at hflatten
  have hpayload : resultHeader ++ parts.flatten = result := by
    rw [hflatten, hresult]
  have hsize : result.length = resultHeader.length + payloadBytes layout resultCounts := by
    rw [hresult, List.length_append, hsized.length_flatten]
    rfl
  unfold applyPageDelta applyVerifiedPageDelta
  rw [planPageDelta_encoded hcounts htokens hnames htails h]
  simp only [bind_eq_ok, verifyPageSnapshotBytes]
  refine ⟨⟨result, sha256 result⟩, ⟨_, rfl, (), require_eq_ok.mpr rfl, basePlan, hplan, resultHeader, hresultHeader,
    parts, hparts, _, pageSnapshotEncodedSize_eq hresultHeader, (), ?_, (), ?_, ?_⟩, rfl⟩
  · rw [hpayload, require_eq_ok, hsize]
  · rw [hpayload, require_eq_ok]
  · rw [hpayload]
    rfl

theorem packDeltaHeader_outcome {baseDigest resultDigest : Digest} {integrity : Integrity}
    {layerTails : List (Str × Bytes)} :
    (∃ header, packDeltaHeader layout baseDigest resultDigest baseCounts resultCounts baseTokens
        resultTokens reused integrity layerTails = .ok header) ∨
      packDeltaHeader layout baseDigest resultDigest baseCounts resultCounts baseTokens resultTokens
        reused integrity layerTails = .error .digits ∨
      packDeltaHeader layout baseDigest resultDigest baseCounts resultCounts baseTokens resultTokens
        reused integrity layerTails = .error .headerLength := by
  unfold packDeltaHeader PageLayout.digest packHeader
  cases canonicalJson? layout.json with
  | none => exact .inr (.inl rfl)
  | some encoded =>
      dsimp only [bind, Except.bind]
      split
      · exact .inr (.inl rfl)
      · split_ifs
        · exact .inl ⟨_, rfl⟩
        · exact .inr (.inr rfl)

end Apply

/-! ## Deltas of two snapshots -/

theorem take_pages {a b : Bytes} {size pages : ℕ}
    (h : ∀ n < pages, slice a (n * size) ((n + 1) * size) = slice b (n * size) ((n + 1) * size)) :
    a.take (pages * size) = b.take (pages * size) := by
  induction pages with
  | zero => simp
  | succ pages ih =>
      have hlast := h pages (Nat.lt_succ_self pages)
      rw [slice, slice, Nat.add_mul, Nat.one_mul, Nat.add_sub_cancel_left] at hlast
      rw [Nat.add_mul, Nat.one_mul, List.take_add, List.take_add, hlast,
        ih fun n hn => h n (Nat.lt_succ_of_lt hn)]

theorem reusablePages_le (group : PageGroup) (pages : ℕ) (base result : List (Str × Bytes)) :
    reusablePages group pages base result ≤ pages := by
  unfold reusablePages
  refine ((List.takeWhile_sublist _).length_le).trans ?_
  rw [List.length_range]

/-- The reusable pages of a layer are the same in the base and in the result. -/
theorem reusablePages_take {group : PageGroup} {pages : ℕ} {base result : List (Str × Bytes)}
    {layer : PageLayer} (h : layer ∈ group.layers) :
    (payloadOf base layer.name).take (reusablePages group pages base result * layer.bytesPerPage) =
      (payloadOf result layer.name).take
        (reusablePages group pages base result * layer.bytesPerPage) := by
  apply take_pages
  intro n hn
  have hmem : n ∈ (List.range pages).takeWhile fun n => group.layers.all fun layer =>
      slice (payloadOf base layer.name) (n * layer.bytesPerPage) ((n + 1) * layer.bytesPerPage) =
      slice (payloadOf result layer.name) (n * layer.bytesPerPage) ((n + 1) * layer.bytesPerPage) := by
    rw [List.mem_iff_getElem]
    refine ⟨n, hn, ?_⟩
    rw [(List.takeWhile_prefix _).getElem hn, List.getElem_range]
  have hall := List.mem_takeWhile_imp hmem
  simp only [List.all_eq_true, decide_eq_true_eq] at hall
  exact hall layer h

section Snapshots
variable {layout : PageLayout} {baseCounts resultCounts : List ℕ}

/-- The pages that each group of the layout reuses. -/
def reusedPages (layout : PageLayout) (baseCounts : List ℕ) (base result : List (Str × Bytes)) : List ℕ :=
  layout.groups.zipIdx.map fun g => reusablePages g.1 (baseCounts.getD g.2 0) base result

theorem reusedPages_getD {base result : List (Str × Bytes)} {group : ℕ}
    (h : group < layout.groups.length) :
    (reusedPages layout baseCounts base result).getD group 0 =
      reusablePages layout.groups[group] (baseCounts.getD group 0) base result := by
  unfold reusedPages
  rw [List.getD_eq_getElem _ _ (by simpa using h)]
  simp

theorem layers_mem {layout : PageLayout} {p : ℕ × PageLayer} (h : p ∈ layout.layers) :
    ∃ hlt : p.1 < layout.groups.length, p.2 ∈ layout.groups[p.1].layers := by
  unfold PageLayout.layers at h
  obtain ⟨g, hg, hp⟩ := List.mem_flatMap.mp h
  obtain ⟨layer, hlayer, rfl⟩ := List.mem_map.mp hp
  obtain ⟨hlt, hget⟩ := List.getElem?_eq_some_iff.mp (List.mem_zipIdx_iff_getElem?.mp hg)
  exact ⟨hlt, hget ▸ hlayer⟩

/-- What a layer shares with the base is the same in both snapshots. -/
theorem reusedPages_take {base result : List (Str × Bytes)} {p : ℕ × PageLayer}
    (h : p ∈ layout.layers) :
    (payloadOf base p.2.name).take (sharedBytes (reusedPages layout baseCounts base result) p) =
      (payloadOf result p.2.name).take
        (sharedBytes (reusedPages layout baseCounts base result) p) := by
  obtain ⟨hlt, hmem⟩ := layers_mem h
  rw [sharedBytes, reusedPages_getD hlt]
  exact reusablePages_take hmem

theorem ExtendedCounts.reusedPages {base result : List (Str × Bytes)}
    (hbase : baseCounts.length = layout.groups.length)
    (hresult : resultCounts.length = layout.groups.length)
    (hcounts : ∀ p ∈ baseCounts.zip resultCounts, 0 < p.1 ∧ p.1 ≤ p.2) :
    ExtendedCounts layout baseCounts resultCounts (reusedPages layout baseCounts base result) := by
  refine ⟨hbase, hresult, by simp [Pages.reusedPages], fun group hgroup => ?_⟩
  have hlt : group < baseCounts.length := hbase ▸ hgroup
  have hlt' : group < resultCounts.length := hresult ▸ hgroup
  have hmem : (baseCounts[group], resultCounts[group]) ∈ baseCounts.zip resultCounts := by
    rw [List.mem_iff_getElem]
    refine ⟨group, ?_, List.getElem_zip⟩
    rw [List.length_zip]
    omega
  obtain ⟨hpositive, hgrows⟩ := hcounts _ hmem
  constructor
  · rwa [List.getD_eq_getElem _ _ hlt]
  · rw [reusedPages_getD hgroup]
    exact reusablePages_le _ _ _ _
  · rwa [List.getD_eq_getElem _ _ hlt, List.getD_eq_getElem _ _ hlt']

end Snapshots

section Tails
variable {baseCounts resultCounts reused : List ℕ} {layers : List (ℕ × PageLayer)}
  {base result : List (Str × Bytes)} {basePayloads payloads : List Bytes}

/-- The tails of the layers of a result. -/
def dropShared (reused : List ℕ) (result : List (Str × Bytes)) (layers : List (ℕ × PageLayer)) :
    List Bytes :=
  layers.map fun p => (payloadOf result p.2.name).drop (sharedBytes reused p)

theorem dropShared_sized (hgroups : ∀ p ∈ layers, Extended baseCounts resultCounts reused p.1)
    (hsized : Sized resultCounts layers payloads)
    (hnamed : ∀ q ∈ layers.zip payloads, payloadOf result q.1.2.name = q.2) :
    List.Forall₂ (fun p tail => tail.length = tailBytes resultCounts reused p) layers
      (dropShared reused result layers) := by
  induction hsized with
  | nil => exact .nil
  | @cons p payload layers payloads hpayload _ ih =>
      rw [List.zip_cons_cons] at hnamed
      refine .cons ?_ (ih (fun q hq => hgroups q (List.mem_cons_of_mem _ hq))
        fun q hq => hnamed q (List.mem_cons_of_mem _ hq))
      have hlayer := (hgroups p List.mem_cons_self).layerBytes_eq
      have hhead : payloadOf result p.2.name = payload := hnamed (p, payload) List.mem_cons_self
      show ((payloadOf result p.2.name).drop (sharedBytes reused p)).length = _
      rw [hhead, List.length_drop, hpayload]
      omega

/-- Tails after what both snapshots share give the layers of the result. -/
theorem joinLayers_dropShared (hbase : basePayloads.length = layers.length)
    (hresult : payloads.length = layers.length)
    (hnamedBase : ∀ q ∈ layers.zip basePayloads, payloadOf base q.1.2.name = q.2)
    (hnamed : ∀ q ∈ layers.zip payloads, payloadOf result q.1.2.name = q.2)
    (hshared : ∀ p ∈ layers, (payloadOf base p.2.name).take (sharedBytes reused p) =
      (payloadOf result p.2.name).take (sharedBytes reused p)) :
    joinLayers reused layers basePayloads (dropShared reused result layers) = payloads := by
  induction layers generalizing basePayloads payloads with
  | nil => exact (List.length_eq_zero_iff.mp hresult).symm
  | cons p layers ih =>
      obtain ⟨basePayload, basePayloads, rfl⟩ := List.exists_cons_of_length_eq_add_one hbase
      obtain ⟨payload, payloads, rfl⟩ := List.exists_cons_of_length_eq_add_one hresult
      rw [List.zip_cons_cons] at hnamedBase hnamed
      have hhead := hshared p List.mem_cons_self
      have hrest := ih (by simpa using hbase) (by simpa using hresult)
        (fun q hq => hnamedBase q (List.mem_cons_of_mem _ hq))
        (fun q hq => hnamed q (List.mem_cons_of_mem _ hq))
        (fun q hq => hshared q (List.mem_cons_of_mem _ hq))
      unfold dropShared at hrest ⊢
      rw [hnamedBase (p, basePayload) List.mem_cons_self, hnamed (p, payload) List.mem_cons_self] at hhead
      rw [List.map_cons, joinLayers, hrest, hnamed (p, payload) List.mem_cons_self, hhead,
        List.take_append_drop]

end Tails

section Encode
variable {layout : PageLayout} {baseSnapshot result : Bytes} {baseCounts resultCounts : List ℕ}
  {baseTokens resultTokens : ℕ} {baseSha256 resultSha256 : Option Digest}

/-- The encoder packs the tails that the snapshots do not share. -/
theorem encodePageDelta_eq {base payloads : List (Str × Bytes)}
    (hbase : decodePageSnapshot layout baseSnapshot baseCounts = .ok base)
    (hresult : decodePageSnapshot layout result resultCounts = .ok payloads)
    (hcounts : ∀ p ∈ baseCounts.zip resultCounts, 0 < p.1 ∧ p.1 ≤ p.2)
    (htokens : 0 < baseTokens ∧ baseTokens < resultTokens) :
    encodePageDelta layout baseSnapshot result baseCounts resultCounts baseTokens resultTokens
        baseSha256 .sha256 resultSha256 =
      (do
        let reused := reusedPages layout baseCounts base payloads
        let tails := dropShared reused payloads layout.layers
        let header ← packDeltaHeader layout (baseSha256.getD (sha256 baseSnapshot)) (sha256 result)
          baseCounts resultCounts baseTokens resultTokens reused .sha256
          ((layout.layers.map fun p => p.2.name).zip tails)
        return header ++ tails.flatten) := by
  obtain ⟨basePlan, hplan, -⟩ := decodePageSnapshot_eq_ok hbase
  obtain ⟨resultPlan, hresultPlan, -⟩ := decodePageSnapshot_eq_ok hresult
  have hlengths : baseCounts.length = layout.groups.length ∧
      resultCounts.length = layout.groups.length :=
    ⟨(planPageSnapshot_eq_ok hplan).1, (planPageSnapshot_eq_ok hresultPlan).1⟩
  unfold encodePageDelta
  rw [validateDeltaBoundaries, require, if_pos htokens, require, if_pos (.inl rfl), require,
    if_pos hlengths, require, if_pos hcounts, hbase, hresult]
  have htails : ∀ reused, (layout.layers.map fun p => (p.2.name,
      (payloadOf payloads p.2.name).drop (reused.getD p.1 0 * p.2.bytesPerPage))) =
      (layout.layers.map fun p => p.2.name).zip (dropShared reused payloads layout.layers) :=
    fun reused => List.zip_map'.symm
  have hflatten : ∀ reused, (((layout.layers.map fun p => p.2.name).zip
      (dropShared reused payloads layout.layers)).map Prod.snd) =
      dropShared reused payloads layout.layers := by
    intro reused
    rw [List.map_snd_zip]
    simp [dropShared]
  show (packDeltaHeader layout _ _ _ _ _ _ (reusedPages layout baseCounts base payloads) _
    (layout.layers.map fun p => (p.2.name, (payloadOf payloads p.2.name).drop
      ((reusedPages layout baseCounts base payloads).getD p.1 0 * p.2.bytesPerPage))) >>= fun _ => _) = _
  rw [htails]
  refine bind_congr_ok fun header _ => ?_
  show Except.ok (header ++ (((layout.layers.map fun p => (p.2.name, (payloadOf payloads p.2.name).drop
    ((reusedPages layout baseCounts base payloads).getD p.1 0 * p.2.bytesPerPage))).map
      Prod.snd).flatten)) = _
  rw [htails, hflatten]
  rfl

/-- The delta of two snapshots is encoded and applied, unless its header cannot be encoded. -/
theorem encodePageDelta_outcome {basePayloads : List (Str × Bytes)}
    {resultPayloads : Dictionary Str Bytes}
    (hbase : decodePageSnapshot layout baseSnapshot baseCounts = .ok basePayloads)
    (hresult : encodePageSnapshot layout resultCounts resultPayloads = .ok result)
    (hcounts : ∀ p ∈ baseCounts.zip resultCounts, 0 < p.1 ∧ p.1 ≤ p.2)
    (htokens : 0 < baseTokens ∧ baseTokens < resultTokens)
    (hdigest : baseSha256.getD (sha256 baseSnapshot) = sha256 baseSnapshot)
    (hnames : ∀ p ∈ layout.layers, p.2.name.encodable = true) :
    (∃ delta, encodePageDelta layout baseSnapshot result baseCounts resultCounts baseTokens
          resultTokens baseSha256 .sha256 resultSha256 = .ok delta ∧
        applyPageDelta layout baseSnapshot delta baseCounts resultCounts baseTokens resultTokens =
          .ok result) ∨
      encodePageDelta layout baseSnapshot result baseCounts resultCounts baseTokens resultTokens
        baseSha256 .sha256 resultSha256 = .error .digits ∨
      encodePageDelta layout baseSnapshot result baseCounts resultCounts baseTokens resultTokens
        baseSha256 .sha256 resultSha256 = .error .headerLength := by
  obtain ⟨basePlan, hplan, rfl⟩ := decodePageSnapshot_eq_ok hbase
  obtain ⟨resultHeader, payloads, hheader, hsized, rfl, -⟩ := encodePageSnapshot_eq_ok hresult
  obtain ⟨resultPlan, hresultPlan, hpayloads⟩ := Decodes.encoded hheader hsized
  obtain ⟨hbaseLength, -, hspans, htotal, hsum, -⟩ := planPageSnapshot_eq_ok hplan
  have hbaseSized := (spanPayloads_sized (htotal.symm.trans hsum)).1
  rw [← hspans] at hbaseSized
  have hresultDecoded : decodePageSnapshot layout (resultHeader ++ payloads.flatten) resultCounts =
      .ok ((layout.layers.map fun p => p.2.name).zip payloads) := by
    unfold decodePageSnapshot
    simp only [bind_eq_ok]
    refine ⟨resultPlan, hresultPlan, ?_⟩
    rw [(planPageSnapshot_eq_ok hresultPlan).2.2.1, spanList_named,
      ← (planPageSnapshot_eq_ok hresultPlan).2.2.1, hpayloads]
    rfl
  have hresultLength := (encodePageSnapshotHeader_eq_ok hheader).1
  have hextended := @ExtendedCounts.reusedPages layout baseCounts resultCounts
    ((layout.layers.map fun p => p.2.name).zip (spanPayloads baseSnapshot basePlan.spans))
    ((layout.layers.map fun p => p.2.name).zip payloads) hbaseLength hresultLength hcounts
  have hnamed := @payloadOf_zip layout.layers payloads layout.layers_nodup
  have hnamedBase := @payloadOf_zip layout.layers (spanPayloads baseSnapshot basePlan.spans)
    layout.layers_nodup
  have htails := dropShared_sized
    (fun p hp => hextended.group p.1 (layout.layers_index_lt hp)) hsized hnamed
  have hjoin := joinLayers_dropShared hbaseSized.length_eq.symm hsized.length_eq.symm hnamedBase
    hnamed fun p hp => @reusedPages_take layout baseCounts _ _ p hp
  rw [encodePageDelta_eq hbase hresultDecoded hcounts htokens, hdigest]
  dsimp only
  rcases packDeltaHeader_outcome with ⟨header, hpack⟩ | herror | herror
  · refine .inl ⟨_, by rw [hpack]; rfl, ?_⟩
    exact applyPageDelta_encoded hplan hheader hextended htokens hnames htails (by rw [hjoin]) hpack
  · exact .inr (.inl (by rw [herror]; rfl))
  · exact .inr (.inr (by rw [herror]; rfl))

end Encode

/-! ## Deltas of captures -/

section Capture
variable {layout : PageLayout} {base : CaptureBase} {captured : CapturedTail}
  {baseCounts resultCounts reused : List ℕ} {baseTokens resultTokens : ℕ}
  {baseSha256 resultSha256 : Option Digest} {integrity : Integrity} {result : Bytes}

theorem capturedDelta_applied {delta : Bytes}
    (h : capturedDelta layout base captured baseCounts resultCounts reused baseTokens resultTokens
      baseSha256 .sha256 resultSha256 = .ok (delta, result))
    (hdigest : base.digest baseSha256 = sha256 base.payload)
    (hnames : ∀ p ∈ layout.layers, p.2.name.encodable = true) :
    applyPageDelta layout base.payload delta baseCounts resultCounts baseTokens resultTokens =
      .ok result := by
  unfold capturedDelta at h
  simp only [bind_eq_ok, Prod.exists] at h
  obtain ⟨u, htokens, -, -, u', hcounts, basePlan, hplan, -, -, resultHeader, hheader, last, tails,
    htails, -, -, header, hpack, h⟩ := h
  cases h
  rw [hdigest, if_pos trivial] at hpack
  exact applyPageDelta_encoded hplan hheader (.of_check hcounts) (require_eq_ok.mp htokens) hnames
    (readTails_sized htails) rfl hpack

theorem capturedDelta_outcome
    (h : materializePageExtensionCapture layout base.payload captured baseCounts resultCounts reused =
      .ok result) (htokens : 0 < baseTokens ∧ baseTokens < resultTokens)
    (hdigests : integrity = .sha256 ∨ baseSha256.isSome = true ∧ resultSha256.isSome = true) :
    (∃ delta, capturedDelta layout base captured baseCounts resultCounts reused baseTokens resultTokens
        baseSha256 integrity resultSha256 = .ok (delta, result)) ∨
      capturedDelta layout base captured baseCounts resultCounts reused baseTokens resultTokens
        baseSha256 integrity resultSha256 = .error .digits ∨
      capturedDelta layout base captured baseCounts resultCounts reused baseTokens resultTokens
        baseSha256 integrity resultSha256 = .error .headerLength := by
  obtain ⟨tails, resultDigest, heq⟩ := capturedDelta_of_materialized h htokens hdigests
  rw [heq]
  rcases packDeltaHeader_outcome with ⟨header, hpack⟩ | herror | herror
  · exact .inl ⟨_, by rw [hpack]; rfl⟩
  · exact .inr (.inl (by rw [herror]; rfl))
  · exact .inr (.inr (by rw [herror]; rfl))

end Capture

/-- The encoders of a captured extension agree with each other and with its materialization, and
deltas with digests, of layers whose names are Unicode text, return the result that they were
encoded for. -/
theorem deltas_roundTrip (layout : PageLayout) (baseCounts resultCounts reused : List ℕ)
    (baseTokens resultTokens : ℕ) (baseSha256 resultSha256 : Option Digest) :
    (∀ base captured integrity,
      let encoded := encodePageDeltaFromCaptureWithResult layout base captured baseCounts resultCounts
        reused baseTokens resultTokens baseSha256 integrity resultSha256
      encodePageDeltaFromCapture layout base captured baseCounts resultCounts reused baseTokens
        resultTokens baseSha256 integrity resultSha256 = encoded.map Prod.fst ∧
      (∀ delta result, encoded = .ok (delta, result) →
        materializePageExtensionCapture layout base.payload captured baseCounts resultCounts reused =
          .ok result ∧
        (integrity = .sha256 → base.digest baseSha256 = sha256 base.payload →
          (∀ p ∈ layout.layers, p.2.name.encodable = true) →
          applyPageDelta layout base.payload delta baseCounts resultCounts baseTokens resultTokens =
            .ok result)) ∧
      ∀ result, materializePageExtensionCapture layout base.payload captured baseCounts resultCounts
          reused = .ok result → 0 < baseTokens ∧ baseTokens < resultTokens →
        integrity = .sha256 ∨ baseSha256.isSome = true ∧ resultSha256.isSome = true →
        (∃ delta, encoded = .ok (delta, result)) ∨ encoded = .error .digits ∨
          encoded = .error .headerLength) ∧
    ∀ base basePayloads result resultPayloads,
      decodePageSnapshot layout base baseCounts = .ok basePayloads →
      encodePageSnapshot layout resultCounts resultPayloads = .ok result →
      (∀ p ∈ baseCounts.zip resultCounts, 0 < p.1 ∧ p.1 ≤ p.2) →
      0 < baseTokens ∧ baseTokens < resultTokens →
      baseSha256.getD (sha256 base) = sha256 base →
      (∀ p ∈ layout.layers, p.2.name.encodable = true) →
      let encoded := encodePageDelta layout base result baseCounts resultCounts baseTokens resultTokens
        baseSha256 .sha256 resultSha256
      (∃ delta, encoded = .ok delta ∧ applyPageDelta layout base delta baseCounts resultCounts
          baseTokens resultTokens = .ok result) ∨
        encoded = .error .digits ∨ encoded = .error .headerLength := by
  refine ⟨fun base captured integrity => ?_, fun base basePayloads result resultPayloads hbase hresult
    hcounts htokens hdigest hnames =>
      encodePageDelta_outcome hbase hresult hcounts htokens hdigest hnames⟩
  dsimp only
  rw [encodePageDeltaFromCapture_eq, encodePageDeltaFromCaptureWithResult_eq]
  refine ⟨rfl, fun delta result h => ⟨capturedDelta_materialized h, ?_⟩,
    fun result h => capturedDelta_outcome h⟩
  intro hintegrity hdigest hnames
  rw [hintegrity] at h
  exact capturedDelta_applied h hdigest hnames

/-- One more page of the first group. -/
def tinyCapture : CapturedTail := .ofBytes [3]

theorem deltas_roundTrip_tiny :
    (∃ delta, encodePageDeltaFromCaptureWithResult tinyLayout (.bytes (tinySnapshot [1] [2])) tinyCapture
        [1, 1] [2, 1] [1, 1] 1 2 none .sha256 none = .ok (delta, tinySnapshot [1, 3] [2]) ∧
      applyPageDelta tinyLayout (tinySnapshot [1] [2]) delta [1, 1] [2, 1] 1 2 =
        .ok (tinySnapshot [1, 3] [2])) ∧
    ∃ delta, encodePageDelta tinyLayout (tinySnapshot [1] [2]) (tinySnapshot [1, 3] [2]) [1, 1] [2, 1] 1 2
        none .sha256 none = .ok delta ∧
      applyPageDelta tinyLayout (tinySnapshot [1] [2]) delta [1, 1] [2, 1] 1 2 =
        .ok (tinySnapshot [1, 3] [2]) := by
  obtain ⟨hcaptures, hsnapshots⟩ := deltas_roundTrip tinyLayout [1, 1] [2, 1] [1, 1] 1 2 none none
  constructor
  · obtain ⟨-, happly, hencode⟩ := hcaptures (.bytes (tinySnapshot [1] [2])) tinyCapture .sha256
    have hsome : (encodePageDeltaFromCaptureWithResult tinyLayout (.bytes (tinySnapshot [1] [2]))
        tinyCapture [1, 1] [2, 1] [1, 1] 1 2 none .sha256 none).toOption.isSome = true := by
      decide +kernel
    rcases hencode (tinySnapshot [1, 3] [2]) (by decide +kernel) (by decide) (.inl rfl) with
      ⟨delta, hdelta⟩ | herror | herror
    · exact ⟨delta, hdelta, (happly delta _ hdelta).2 rfl rfl (by decide +kernel)⟩
    · rw [herror] at hsome
      cases hsome
    · rw [herror] at hsome
      cases hsome
  · have hsome : (encodePageDelta tinyLayout (tinySnapshot [1] [2]) (tinySnapshot [1, 3] [2]) [1, 1] [2, 1]
        1 2 none .sha256 none).toOption.isSome = true := by
      decide +kernel
    have hdecoded : decodePageSnapshot tinyLayout (tinySnapshot [1] [2]) [1, 1] =
        .ok [("k", [1]), ("v", [2])] := by
      decide +kernel
    have hencoded : encodePageSnapshot tinyLayout [2, 1]
        (AList.insert "k" [1, 3] (AList.insert "v" [2] ∅) : Dictionary Str Bytes) =
          .ok (tinySnapshot [1, 3] [2]) := by
      decide +kernel
    rcases hsnapshots _ _ _ _ hdecoded hencoded (by decide) (by decide) rfl (by decide +kernel) with
      hdelta | herror | herror
    · exact hdelta
    · rw [herror] at hsome
      cases hsome
    · rw [herror] at hsome
      cases hsome

/-- A layer whose name writes one character as two surrogates. -/
def surrogateLayout : PageLayout where
  groups := [tinyGroup ⟨[0xd83d, 0xde00]⟩ (by decide)]
  nonempty := by simp
  disjoint := by decide

def surrogateSnapshot (payload : Bytes) : Bytes :=
  ((encodePageSnapshot surrogateLayout [payload.length]
    ((AList.insert ⟨[0xd83d, 0xde00]⟩ payload ∅ : Dictionary Str Bytes))).toOption).getD []

/-- A delta with boundary tokens is not applied, whatever they are, nor is one that names a layer by
surrogates. -/
theorem deltas_refused :
    (∃ delta, encodePageDeltaFromCapture tinyLayout (.bytes (tinySnapshot [1] [2])) tinyCapture
        [1, 1] [2, 1] [1, 1] 1 2 (some (sha256 (tinySnapshot [1] [2]))) .none
        (some (sha256 (tinySnapshot [1, 3] [2]))) = .ok delta ∧
      applyPageDelta tinyLayout (tinySnapshot [1] [2]) delta [1, 1] [2, 1] 1 2 =
        .error (.codec "hybrid page delta payload checksum mismatch")) ∧
    ∃ delta, encodePageDelta surrogateLayout (surrogateSnapshot [1]) (surrogateSnapshot [1, 3]) [1] [2]
        1 2 none .sha256 none = .ok delta ∧
      applyPageDelta surrogateLayout (surrogateSnapshot [1]) delta [1] [2] 1 2 =
        .error (.codec "hybrid page delta layer descriptor differs") := by
  constructor
  · have h : (encodePageDeltaFromCapture tinyLayout (.bytes (tinySnapshot [1] [2])) tinyCapture
        [1, 1] [2, 1] [1, 1] 1 2 (some (sha256 (tinySnapshot [1] [2]))) .none
        (some (sha256 (tinySnapshot [1, 3] [2])))).toOption.map (fun delta =>
          applyPageDelta tinyLayout (tinySnapshot [1] [2]) delta [1, 1] [2, 1] 1 2) =
        some (.error (.codec "hybrid page delta payload checksum mismatch")) := by
      decide +kernel
    obtain ⟨delta, hdelta, happly⟩ := Option.map_eq_some_iff.mp h
    exact ⟨delta, toOption_eq_some.mp hdelta, happly⟩
  · have h : (encodePageDelta surrogateLayout (surrogateSnapshot [1]) (surrogateSnapshot [1, 3]) [1] [2]
        1 2 none .sha256 none).toOption.map (fun delta =>
          applyPageDelta surrogateLayout (surrogateSnapshot [1]) delta [1] [2] 1 2) =
        some (.error (.codec "hybrid page delta layer descriptor differs")) := by
      decide +kernel
    obtain ⟨delta, hdelta, happly⟩ := Option.map_eq_some_iff.mp h
    exact ⟨delta, toOption_eq_some.mp hdelta, happly⟩

end SparkCache.Pages
