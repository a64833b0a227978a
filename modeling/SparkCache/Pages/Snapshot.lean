import SparkCache.Lib.Dictionary
import SparkCache.Lib.FixedWidth
import SparkCache.Pages.Layout

/-!
# Page snapshots

The SPHP1 encoding: a small header and the payload of every layer in layout
order. A plan names the byte extents of the layers.
-/
namespace SparkCache.Pages

/-- `SPHP1\0` -/
def snapshotMagic : Bytes := [0x53, 0x50, 0x48, 0x50, 0x31, 0]

/-- `_MAGIC + _HEADER_LENGTH.pack(len(header)) + header` -/
def packHeader (magic header : Bytes) : Except CodecError Bytes :=
  if header.length < 256 ^ 4 then .ok (magic ++ FixedWidth.little 4 header.length ++ header)
  else .error .headerLength

def snapshotHeaderJson (layoutDigest : Digest) (counts : List ℕ) : Json :=
  .object
    [("schema", .str "sparkcache-hybrid-pages/v1"), ("layout_sha256", layoutDigest.json),
      ("block_counts", .arr (Json.nats counts))]

def encodePageSnapshotHeader (layout : PageLayout) (blockCounts : List ℕ) :
    Except CodecError Bytes := do
  require (blockCounts.length = layout.groups.length)
    (.codec "block-count vector disagrees with page groups")
  require (∀ count ∈ blockCounts, 0 < count)
    (.codec "every page group must contribute at least one block")
  let digest ← layout.digest
  match canonicalJson? (snapshotHeaderJson digest blockCounts) with
  | none => .error .digits
  | some header => packHeader snapshotMagic header

/-- The payload bytes of a layer in a snapshot. -/
def layerBytes (counts : List ℕ) (p : ℕ × PageLayer) : ℕ := counts.getD p.1 0 * p.2.bytesPerPage

def payloadBytes (layout : PageLayout) (counts : List ℕ) : ℕ :=
  (layout.layers.map (layerBytes counts)).sum

def pageSnapshotEncodedSize (layout : PageLayout) (blockCounts : List ℕ) :
    Except CodecError ℕ := do
  let header ← encodePageSnapshotHeader layout blockCounts
  return header.length + payloadBytes layout blockCounts

structure PagePayloadSpan where
  layerName : Str
  groupIndex : ℕ
  sourceStart : ℕ
  sourceEnd : ℕ
  pageCount : ℕ
  bytesPerPage : ℕ
  deriving DecidableEq

structure PageSnapshotPlan where
  headerBytes : ℕ
  totalBytes : ℕ
  blockCounts : List ℕ
  spans : List PagePayloadSpan
  deriving DecidableEq

/-- The layers' extents from an offset on, and the offset after them. -/
def planSpans (counts : List ℕ) (total : ℕ) :
    ℕ → List (ℕ × PageLayer) → Except CodecError (List PagePayloadSpan × ℕ)
  | offset, [] => .ok ([], offset)
  | offset, p :: rest =>
      let stop := offset + layerBytes counts p
      if total < stop then .error (.truncatedAt p.2.name)
      else match planSpans counts total stop rest with
        | .error e => .error e
        | .ok (spans, last) =>
            .ok (⟨p.2.name, p.1, offset, stop, counts.getD p.1 0, p.2.bytesPerPage⟩ :: spans, last)

/-- The comparison of `tuple(header.get("block_counts", ()))` with the expected counts. -/
def checkCounts (differs : CodecError) (counts : List ℕ) : Option Json → Except CodecError Unit
  | some (.arr items) => require (Json.pyEqItems items (Json.nats counts) = true) differs
  -- The tuple of a string or of a dictionary's keys is no tuple of integers.
  | none | some (.str _) | some (.obj _) => .error differs
  | some _ => .error .notIterable

/-- The comparisons of `plan_page_snapshot` with the decoded header. -/
def checkSnapshotIdentity (layout : PageLayout) (header : Json) (counts : List ℕ) :
    Except CodecError Unit := do
  let differs := CodecError.codec "hybrid page snapshot identity or block counts differ"
  require (header.isObject = true ∧
    header.get? "schema" = some (.str "sparkcache-hybrid-pages/v1")) differs
  let digest ← layout.digest
  require (header.get? "layout_sha256" = some digest.json) differs
  checkCounts differs counts (header.get? "block_counts")
  require (counts.length = layout.groups.length) differs

/-- The header of a prefixed encoding and where it ends. -/
def readHeader (magic encoded : Bytes) (invalidPrefix truncated invalid : CodecError) :
    Except CodecError (Json × ℕ) := do
  require (10 ≤ encoded.length ∧ slice encoded 0 6 = magic) invalidPrefix
  let headerEnd := 10 + FixedWidth.value (slice encoded 6 10)
  require (10 < headerEnd ∧ headerEnd ≤ encoded.length) truncated
  match loads (slice encoded 10 headerEnd) with
  | .error .digits => .error .digits
  | .error _ => .error invalid
  | .ok header => .ok (header, headerEnd)

def planPageSnapshot (layout : PageLayout) (encodedPrefix : Bytes) (expectedBlockCounts : List ℕ)
    (totalBytes : Option ℕ) : Except CodecError PageSnapshotPlan := do
  let (header, headerEnd) ← readHeader snapshotMagic encodedPrefix
    (.codec "hybrid page snapshot has an invalid prefix")
    (.codec "hybrid page snapshot header is truncated")
    (.codec "hybrid page snapshot header is invalid")
  require (∀ count ∈ expectedBlockCounts, 0 < count)
    (.codec "hybrid page block counts must be positive")
  checkSnapshotIdentity layout header expectedBlockCounts
  let total := totalBytes.getD encodedPrefix.length
  require (headerEnd ≤ total ∧ encodedPrefix.length ≤ total)
    (.codec "hybrid page snapshot total length is invalid")
  let (spans, last) ← planSpans expectedBlockCounts total headerEnd layout.layers
  require (last = total) (.codec "hybrid page snapshot has trailing bytes")
  return ⟨headerEnd, total, expectedBlockCounts, spans⟩

/-- The payloads of the layers in layout order. -/
def collectPayloads (counts : List ℕ) (layerPayloads : Dictionary Str Bytes) :
    List (ℕ × PageLayer) → Except CodecError (List Bytes)
  | [] => .ok []
  | p :: rest =>
      match layerPayloads.lookup p.2.name with
      | none => .error (.codec "page payload names disagree with layout")
      | some payload =>
          if payload.length ≠ layerBytes counts p then
            .error (.layerLength p.2.name payload.length (layerBytes counts p))
          else (collectPayloads counts layerPayloads rest).map (payload :: ·)

def encodePageSnapshot (layout : PageLayout) (blockCounts : List ℕ)
    (layerPayloads : Dictionary Str Bytes) : Except CodecError Bytes := do
  require (blockCounts.length = layout.groups.length)
    (.codec "block-count vector disagrees with page groups")
  require (∀ count ∈ blockCounts, 0 < count)
    (.codec "every page group must contribute at least one block")
  require (layerPayloads.keys.toFinset =
      (layout.layers.map fun p => p.2.name).toFinset)
    (.codec "page payload names disagree with layout")
  let parts ← collectPayloads blockCounts layerPayloads layout.layers
  let header ← encodePageSnapshotHeader layout blockCounts
  return header ++ parts.flatten

/-- `decode_page_snapshot`, in layout order -/
def decodePageSnapshot (layout : PageLayout) (encoded : Bytes) (expectedBlockCounts : List ℕ) :
    Except CodecError (List (Str × Bytes)) := do
  let plan ← planPageSnapshot layout encoded expectedBlockCounts none
  return plan.spans.map fun span =>
    (span.layerName, slice encoded span.sourceStart span.sourceEnd)

/-! ## Headers -/

theorem packHeader_eq_ok {magic header encoded : Bytes} (h : packHeader magic header = .ok encoded) :
    header.length < 256 ^ 4 ∧
      encoded = magic ++ FixedWidth.little 4 header.length ++ header := by
  unfold packHeader at h
  split at h
  · rename_i hlt
    cases h
    exact ⟨hlt, rfl⟩
  · cases h

/-- Reading back a packed canonical header. -/
theorem readHeader_packed {magic encoded : Bytes} {v : Json} (hm : magic.length = 6)
    (hv : v.Normal) (h : packHeader magic (canonicalJson v) = .ok encoded) (body : Bytes)
    (e₁ e₂ e₃ : CodecError) :
    readHeader magic (encoded ++ body) e₁ e₂ e₃ = .ok (v, encoded.length) := by
  obtain ⟨hlt, rfl⟩ := packHeader_eq_ok h
  obtain ⟨c, tail, hdump, -⟩ := Json.dumps_head hv
  have hpos : 0 < (canonicalJson v).length := by
    rw [canonicalJson, hdump, Json.encodeAscii, List.map_cons, List.length_cons]
    omega
  have hwidth := FixedWidth.little_length 4 (canonicalJson v).length
  have hlen : (magic ++ FixedWidth.little 4 (canonicalJson v).length ++ canonicalJson v).length =
      10 + (canonicalJson v).length := by
    simp only [List.length_append, hm, hwidth]
  have hprefix : slice (magic ++ FixedWidth.little 4 (canonicalJson v).length ++ canonicalJson v ++
      body) 0 6 = magic := by
    rw [slice, List.drop_zero, List.append_assoc, List.append_assoc, ← hm]
    exact List.take_left
  have hlength : slice (magic ++ FixedWidth.little 4 (canonicalJson v).length ++ canonicalJson v ++
      body) 6 10 = FixedWidth.little 4 (canonicalJson v).length := by
    rw [slice, List.append_assoc, List.append_assoc, List.drop_left' hm,
      List.take_left' (by rw [hwidth])]
  have hbody : slice (magic ++ FixedWidth.little 4 (canonicalJson v).length ++ canonicalJson v ++
      body) 10 (10 + (canonicalJson v).length) = canonicalJson v := by
    have hten : (magic ++ FixedWidth.little 4 (canonicalJson v).length).length = 10 := by
      rw [List.length_append, hm, hwidth]
    rw [slice, List.append_assoc (magic ++ _), List.drop_left' hten, Nat.add_sub_cancel_left]
    exact List.take_left
  unfold readHeader
  simp only [bind_eq_ok, require_eq_ok]
  rw [List.length_append, hlen]
  refine ⟨(), ⟨by omega, hprefix⟩, (), ?_, ?_⟩
  · rw [hlength, FixedWidth.value_little 4 _ hlt]
    omega
  · rw [hlength, FixedWidth.value_little 4 _ hlt, hbody, loads_canonicalJson hv]

theorem snapshotHeaderJson_nodup (d : Digest) (counts : List ℕ) :
    ([("schema", .str "sparkcache-hybrid-pages/v1"), ("layout_sha256", d.json),
      ("block_counts", .arr (Json.nats counts))] :
      List (Str × Json)).map Prod.fst |>.Nodup := by
  simp

theorem snapshotHeaderJson_normal {d : Digest} {counts : List ℕ}
    (hp : (snapshotHeaderJson d counts).printable = true) :
    (snapshotHeaderJson d counts).Normal := by
  apply Json.normal_object_of_printable hp (snapshotHeaderJson_nodup d counts)
  simp only [List.mem_cons, List.not_mem_nil, or_false, forall_eq_or_imp, forall_eq,
    Str.encodable_ofString, true_and]
  exact ⟨fun _ => Str.encodable_ofString _, fun _ => d.encodable, Json.normal_nats_of_printable⟩

theorem encodePageSnapshotHeader_eq_ok {layout : PageLayout} {counts : List ℕ} {header : Bytes}
    (h : encodePageSnapshotHeader layout counts = .ok header) :
    counts.length = layout.groups.length ∧ (∀ count ∈ counts, 0 < count) ∧
      ∃ digest, layout.digest = .ok digest ∧ (snapshotHeaderJson digest counts).Normal ∧
        packHeader snapshotMagic (canonicalJson (snapshotHeaderJson digest counts)) =
          .ok header := by
  unfold encodePageSnapshotHeader at h
  simp only [bind_eq_ok, require_eq_ok] at h
  obtain ⟨-, hlength, -, hpositive, digest, hdigest, h⟩ := h
  refine ⟨hlength, hpositive, digest, hdigest, ?_⟩
  unfold canonicalJson? at h
  split_ifs at h with hp
  · exact ⟨snapshotHeaderJson_normal hp, h⟩

/-! ## Extents -/

/-- The extents of the layers when the payload starts at an offset. -/
def spanList (counts : List ℕ) : ℕ → List (ℕ × PageLayer) → List PagePayloadSpan
  | _, [] => []
  | offset, p :: rest =>
      ⟨p.2.name, p.1, offset, offset + layerBytes counts p, counts.getD p.1 0, p.2.bytesPerPage⟩ ::
        spanList counts (offset + layerBytes counts p) rest

theorem planSpans_eq_ok {counts : List ℕ} {total offset last : ℕ} {layers : List (ℕ × PageLayer)}
    {spans : List PagePayloadSpan} (h : planSpans counts total offset layers = .ok (spans, last)) :
    spans = spanList counts offset layers ∧
      last = offset + (layers.map (layerBytes counts)).sum := by
  induction layers generalizing offset spans with
  | nil =>
      cases h
      exact ⟨rfl, rfl⟩
  | cons p rest ih =>
      unfold planSpans at h
      dsimp only at h
      split at h
      · cases h
      · split at h
        · cases h
        · rename_i more last' hrest
          cases h
          obtain ⟨rfl, hlast⟩ := ih hrest
          refine ⟨rfl, ?_⟩
          rw [hlast, List.map_cons, List.sum_cons]
          omega

theorem planSpans_of_le {counts : List ℕ} {total offset : ℕ} {layers : List (ℕ × PageLayer)}
    (h : offset + (layers.map (layerBytes counts)).sum ≤ total) :
    planSpans counts total offset layers =
      .ok (spanList counts offset layers, offset + (layers.map (layerBytes counts)).sum) := by
  induction layers generalizing offset with
  | nil => rfl
  | cons p rest ih =>
      rw [List.map_cons, List.sum_cons] at h
      unfold planSpans
      dsimp only
      rw [if_neg (by omega), ih (by omega), spanList, List.map_cons, List.sum_cons,
        Nat.add_assoc]

theorem planPageSnapshot_eq_ok {layout : PageLayout} {encoded : Bytes} {counts : List ℕ}
    {total : Option ℕ} {plan : PageSnapshotPlan}
    (h : planPageSnapshot layout encoded counts total = .ok plan) :
    counts.length = layout.groups.length ∧ plan.blockCounts = counts ∧
      plan.spans = spanList counts plan.headerBytes layout.layers ∧
      plan.totalBytes = total.getD encoded.length ∧
      plan.totalBytes = plan.headerBytes + payloadBytes layout counts ∧
      plan.headerBytes ≤ encoded.length := by
  unfold planPageSnapshot at h
  simp only [bind_eq_ok, require_eq_ok, Prod.exists] at h
  obtain ⟨header, headerEnd, hread, -, hpositive, _, hidentity, -, htotal, spans, last, hspans,
    -, hlast, h⟩ := h
  cases h
  dsimp only at hspans hlast htotal ⊢
  obtain ⟨hlist, hsum⟩ := planSpans_eq_ok hspans
  have hlength : counts.length = layout.groups.length := by
    unfold checkSnapshotIdentity at hidentity
    simp only [bind_eq_ok, require_eq_ok] at hidentity
    obtain ⟨-, -, digest, -, -, -, -, -, hlength⟩ := hidentity
    exact hlength
  have hend : headerEnd ≤ encoded.length := by
    unfold readHeader at hread
    simp only [bind_eq_ok, require_eq_ok] at hread
    obtain ⟨-, -, -, hle, hread⟩ := hread
    split at hread
    · cases hread
    · cases hread
    · cases hread
      exact hle.2
  exact ⟨hlength, rfl, hlist, rfl, by rw [← hlast, hsum]; rfl, hend⟩

/-- Planning an encoded header, with the payload or without. -/
theorem planPageSnapshot_encoded {layout : PageLayout} {counts : List ℕ} {header : Bytes}
    (h : encodePageSnapshotHeader layout counts = .ok header) (body : Bytes) {total : Option ℕ}
    (htotal : total.getD (header ++ body).length = header.length + payloadBytes layout counts)
    (hbody : body.length ≤ payloadBytes layout counts) :
    planPageSnapshot layout (header ++ body) counts total =
      .ok ⟨header.length, header.length + payloadBytes layout counts, counts,
        spanList counts header.length layout.layers⟩ := by
  obtain ⟨hlength, hpositive, digest, hdigest, hnormal, hpack⟩ := encodePageSnapshotHeader_eq_ok h
  have hnodup := snapshotHeaderJson_nodup digest counts
  have hidentity : checkSnapshotIdentity layout (snapshotHeaderJson digest counts) counts =
      .ok () := by
    unfold checkSnapshotIdentity
    simp only [bind_eq_ok, require_eq_ok]
    refine ⟨(), ⟨rfl, ?_⟩, digest, hdigest, (), ?_, (), ?_, hlength⟩
    · rw [snapshotHeaderJson, Json.get?_object hnodup]
      rfl
    · rw [snapshotHeaderJson, Json.get?_object hnodup]
      simp [getField]
    · rw [snapshotHeaderJson, Json.get?_object hnodup]
      show checkCounts _ counts (some (.arr (Json.nats counts))) = .ok ()
      exact require_eq_ok.mpr (Json.pyEqItems_nats counts)
  unfold planPageSnapshot
  rw [readHeader_packed rfl hnormal hpack body]
  simp only [bind_eq_ok, require_eq_ok, Prod.exists]
  have hspans : planSpans counts (total.getD (header ++ body).length) header.length layout.layers =
      .ok (spanList counts header.length layout.layers,
        header.length + (layout.layers.map (layerBytes counts)).sum) :=
    planSpans_of_le (by rw [htotal]; rfl)
  refine ⟨_, _, rfl, (), hpositive, (), hidentity, (), ?_, _, _, hspans, (), ?_, ?_⟩
  · rw [htotal, List.length_append]
    omega
  · rw [htotal]
    rfl
  · rw [htotal]
    rfl

/-! ## Payloads -/

/-- The bytes of the extents. -/
def spanPayloads (data : Bytes) (spans : List PagePayloadSpan) : List Bytes :=
  spans.map fun span => slice data span.sourceStart span.sourceEnd

/-- The payloads have the sizes that the counts give. -/
def Sized (counts : List ℕ) (layers : List (ℕ × PageLayer)) (payloads : List Bytes) : Prop :=
  List.Forall₂ (fun p payload => payload.length = layerBytes counts p) layers payloads

theorem Sized.length_flatten {counts : List ℕ} {layers : List (ℕ × PageLayer)}
    {payloads : List Bytes} (h : Sized counts layers payloads) :
    payloads.flatten.length = (layers.map (layerBytes counts)).sum := by
  induction h with
  | nil => rfl
  | cons hp _ ih => rw [List.flatten_cons, List.length_append, hp, ih, List.map_cons, List.sum_cons]

/-- The extents of an encoding hold its payloads. -/
theorem Sized.spanPayloads {counts : List ℕ} {layers : List (ℕ × PageLayer)}
    {payloads : List Bytes} (h : Sized counts layers payloads) (before after : Bytes) :
    spanPayloads (before ++ payloads.flatten ++ after) (spanList counts before.length layers) =
      payloads := by
  induction h generalizing before with
  | nil => rfl
  | @cons p payload rest payloads hp _ ih =>
      have hnext := ih (before ++ payload)
      rw [List.length_append, hp] at hnext
      have hslice : slice (before ++ (payload :: payloads).flatten ++ after) before.length
          (before.length + layerBytes counts p) = payload := by
        rw [slice, List.append_assoc, List.drop_left, List.flatten_cons, List.append_assoc,
          Nat.add_sub_cancel_left, ← hp, List.take_left]
      rw [spanList, Pages.spanPayloads, List.map_cons, hslice]
      congr 1
      rw [List.flatten_cons, ← List.append_assoc]
      exact hnext

/-- The payloads of a plan's extents, and that they make up the rest of the encoding. -/
theorem spanPayloads_sized {counts : List ℕ} {layers : List (ℕ × PageLayer)} {data : Bytes}
    {offset : ℕ} (h : data.length = offset + (layers.map (layerBytes counts)).sum) :
    Sized counts layers (spanPayloads data (spanList counts offset layers)) ∧
      data = data.take offset ++ (spanPayloads data (spanList counts offset layers)).flatten := by
  induction layers generalizing offset with
  | nil =>
      simp only [List.map_nil, List.sum_nil, Nat.add_zero] at h
      refine ⟨.nil, ?_⟩
      rw [List.take_of_length_le (Nat.le_of_eq h)]
      simp [spanList, spanPayloads]
  | cons p rest ih =>
      rw [List.map_cons, List.sum_cons] at h
      have hrest : data.length = offset + layerBytes counts p +
          (rest.map (layerBytes counts)).sum := by
        omega
      obtain ⟨hsized, hdata⟩ := ih hrest
      have hlen : (slice data offset (offset + layerBytes counts p)).length = layerBytes counts p := by
        rw [slice_length (by omega)]
        omega
      refine ⟨.cons hlen hsized, ?_⟩
      rw [spanList, spanPayloads, List.map_cons, List.flatten_cons, ← List.append_assoc]
      conv_lhs => rw [hdata]
      congr 1
      rw [List.take_add, slice, Nat.add_sub_cancel_left]

theorem spanList_named (data : Bytes) (counts : List ℕ) (offset : ℕ) (layers : List (ℕ × PageLayer)) :
    ((spanList counts offset layers).map fun span =>
      (span.layerName, slice data span.sourceStart span.sourceEnd)) =
      (layers.map fun p => p.2.name).zip (spanPayloads data (spanList counts offset layers)) := by
  induction layers generalizing offset with
  | nil => rfl
  | cons p layers ih =>
      rw [spanList, List.map_cons, ih]
      rfl

/-- A payload is found by the name of its layer. -/
theorem lookup_zip {layers : List (ℕ × PageLayer)} {payloads : List Bytes}
    (h : (layers.map fun p => p.2.name).Nodup) : ∀ q ∈ layers.zip payloads,
      ((layers.map fun p => p.2.name).zip payloads).lookup q.1.2.name = some q.2 := by
  induction layers generalizing payloads with
  | nil => simp
  | cons p layers ih =>
      rw [List.map_cons, List.nodup_cons] at h
      cases payloads with
      | nil => simp
      | cons payload payloads =>
          intro q hq
          rw [List.zip_cons_cons, List.mem_cons] at hq
          rcases hq with rfl | hq
          · simp
          · have hne : q.1.2.name ≠ p.2.name := by
              intro heq
              rw [← heq] at h
              exact h.1 (List.mem_map_of_mem (List.of_mem_zip hq).1)
            rw [List.map_cons, List.zip_cons_cons, List.lookup_cons, beq_false_of_ne hne]
            exact ih h.2 q hq

/-- The collected payloads have the right sizes, and are those of the layers. -/
theorem collectPayloads_eq_ok {counts : List ℕ} {layerPayloads : Dictionary Str Bytes}
    {layers : List (ℕ × PageLayer)} {payloads : List Bytes}
    (h : collectPayloads counts layerPayloads layers = .ok payloads) :
    Sized counts layers payloads ∧
      ∀ q ∈ layers.zip payloads, layerPayloads.lookup q.1.2.name = some q.2 := by
  induction layers generalizing payloads with
  | nil =>
      cases h
      exact ⟨.nil, by simp⟩
  | cons p layers ih =>
      rw [collectPayloads] at h
      split at h
      · cases h
      · rename_i payload hlookup
        split at h
        · cases h
        · rename_i hlength
          cases hmore : collectPayloads counts layerPayloads layers with
          | error e =>
              rw [hmore] at h
              cases h
          | ok more =>
              rw [hmore] at h
              cases h
              obtain ⟨hsized, hall⟩ := ih hmore
              refine ⟨.cons (not_not.mp hlength) hsized, ?_⟩
              intro q hq
              rw [List.zip_cons_cons, List.mem_cons] at hq
              rcases hq with rfl | hq
              · exact hlookup
              · exact hall q hq

theorem encodePageSnapshot_eq_ok {layout : PageLayout} {counts : List ℕ}
    {layerPayloads : Dictionary Str Bytes} {encoded : Bytes}
    (h : encodePageSnapshot layout counts layerPayloads = .ok encoded) :
    ∃ header payloads, encodePageSnapshotHeader layout counts = .ok header ∧
      Sized counts layout.layers payloads ∧ encoded = header ++ payloads.flatten ∧
      layerPayloads.keys.toFinset = (layout.layers.map fun p => p.2.name).toFinset ∧
      ∀ q ∈ layout.layers.zip payloads, layerPayloads.lookup q.1.2.name = some q.2 := by
  unfold encodePageSnapshot at h
  simp only [bind_eq_ok, require_eq_ok] at h
  obtain ⟨-, -, -, -, -, hnames, payloads, hpayloads, header, hheader, h⟩ := h
  cases h
  obtain ⟨hsized, hall⟩ := collectPayloads_eq_ok hpayloads
  exact ⟨header, payloads, hheader, hsized, rfl, hnames, hall⟩

theorem decodePageSnapshot_eq_ok {layout : PageLayout} {encoded : Bytes} {counts : List ℕ}
    {payloads : List (Str × Bytes)} (h : decodePageSnapshot layout encoded counts = .ok payloads) :
    ∃ plan, planPageSnapshot layout encoded counts none = .ok plan ∧
      payloads = (layout.layers.map fun p => p.2.name).zip (spanPayloads encoded plan.spans) := by
  unfold decodePageSnapshot at h
  simp only [bind_eq_ok] at h
  obtain ⟨plan, hplan, h⟩ := h
  cases h
  refine ⟨plan, hplan, ?_⟩
  rw [(planPageSnapshot_eq_ok hplan).2.2.1, spanList_named]

/-- The plan of an encoded snapshot. -/
theorem planPageSnapshot_payloads {layout : PageLayout} {counts : List ℕ} {header : Bytes}
    {payloads : List Bytes} (h : encodePageSnapshotHeader layout counts = .ok header)
    (hsized : Sized counts layout.layers payloads) :
    planPageSnapshot layout (header ++ payloads.flatten) counts none =
      .ok ⟨header.length, header.length + payloadBytes layout counts, counts,
        spanList counts header.length layout.layers⟩ := by
  have hlength : payloads.flatten.length = payloadBytes layout counts := hsized.length_flatten
  refine planPageSnapshot_encoded h _ ?_ (Nat.le_of_eq hlength)
  rw [Option.getD_none, List.length_append, hlength]

end SparkCache.Pages
