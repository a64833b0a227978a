import SparkCache.Lib.Crc32
import SparkCache.Pages.Snapshot

/-!
# Page deltas

The SPHD1 encoding: a header that binds the base and the result of one
extension, and one tail for every layer. Planning validates the header and
names the extents of the tails; applying rebuilds the result snapshot.
-/
namespace SparkCache.Pages

/-- `SPHD1\0` -/
def deltaMagic : Bytes := [0x53, 0x50, 0x48, 0x44, 0x31, 0]

def deltaHeaderSchemaV1 : Str := "sparkcache-hybrid-page-delta/v1"

def deltaHeaderSchemaV2 : Str := "sparkcache-hybrid-page-delta/v2"

/-- `PAYLOAD_INTEGRITY_MODES` -/
inductive Integrity where
  | sha256
  | fast
  | none
  deriving DecidableEq, Repr

/-- `payload_checksum` -/
def payloadChecksum (data : Bytes) : ℕ := Crc32.checksum data

def payloadMatches (integrity : Integrity) (data : Bytes) (digest : Option Digest)
    (crc32 : Option ℕ) : Bool :=
  match integrity with
  | .sha256 => some (sha256 data) = digest
  | .fast => crc32 = some (payloadChecksum data)
  | .none => true

structure PageDeltaTail where
  layerName : Str
  groupIndex : ℕ
  sourceStart : ℕ
  sourceEnd : ℕ
  destinationByteOffset : ℕ
  sha256 : Option Digest
  crc32 : Option ℕ
  deriving DecidableEq

structure PageDeltaPlan where
  headerBytes : ℕ
  totalBytes : ℕ
  baseBlockCounts : List ℕ
  resultBlockCounts : List ℕ
  baseBoundaryTokens : ℕ
  resultBoundaryTokens : ℕ
  baseSnapshotSha256 : Digest
  resultSnapshotSha256 : Digest
  reusedPagesByGroup : List ℕ
  tails : List PageDeltaTail
  integrity : Integrity
  deriving DecidableEq

def validateDeltaBoundaries (baseBoundaryTokens resultBoundaryTokens : ℕ) :
    Except CodecError Unit :=
  require (0 < baseBoundaryTokens ∧ baseBoundaryTokens < resultBoundaryTokens)
    (.codec "page delta boundaries are invalid")

/-- The integrity mode of a header; only the second schema names one. -/
def headerIntegrity (header : Json) : Except CodecError Integrity :=
  if header.get? "schema" = some (.str deltaHeaderSchemaV2) then
    if header.get? "integrity" = some (.str "fast") then .ok .fast
    else if header.get? "integrity" = some (.str "none") then .ok .none
    else .error (.codec "hybrid page delta integrity mode is invalid")
  else .ok .sha256

def deltaHeaderKeys (integrity : Integrity) : List Str :=
  ["schema", "layout_sha256", "base_snapshot_sha256", "result_snapshot_sha256",
    "base_block_counts", "result_block_counts", "base_boundary_tokens",
    "result_boundary_tokens", "reused_pages_by_group", "layer_tails"] ++
  if integrity = .sha256 then [] else ["integrity"]

/-- The comparisons of `plan_page_delta` with the decoded header; it returns the digests of the
base and of the result. -/
def checkDeltaIdentity (layout : PageLayout) (header : Json)
    (baseBlockCounts resultBlockCounts : List ℕ)
    (baseBoundaryTokens resultBoundaryTokens : ℕ) : Except CodecError (Digest × Digest) :=
  let differs := CodecError.codec "hybrid page delta identity or base differs"
  match (header.get? "base_block_counts").bind Json.ints?,
      (header.get? "result_block_counts").bind Json.ints?,
      (header.get? "base_boundary_tokens").bind Json.int?,
      (header.get? "result_boundary_tokens").bind Json.int? with
  | some rawBaseCounts, some rawResultCounts, some rawBaseTokens, some rawResultTokens => do
      require (baseBlockCounts.length = layout.groups.length ∧
          resultBlockCounts.length = layout.groups.length ∧
          ∀ p ∈ baseBlockCounts.zip resultBlockCounts, 0 < p.1 ∧ p.1 ≤ p.2)
        (.codec "page delta block counts do not extend the base")
      require (header.get? "schema" = some (.str deltaHeaderSchemaV1) ∨
        header.get? "schema" = some (.str deltaHeaderSchemaV2)) differs
      let digest ← layout.digest
      require (header.get? "layout_sha256" = some digest.json ∧
          rawBaseCounts = baseBlockCounts.map (↑) ∧ rawResultCounts = resultBlockCounts.map (↑) ∧
          rawBaseTokens = baseBoundaryTokens ∧ rawResultTokens = resultBoundaryTokens) differs
      match (header.get? "base_snapshot_sha256").bind Hex.ofJson?,
          (header.get? "result_snapshot_sha256").bind Hex.ofJson? with
      | some base, some result => .ok (base, result)
      | _, _ => .error differs
  | _, _, _, _ => .error (.codec "hybrid page delta header geometry is invalid")

/-- `reused_pages_by_group` and `layer_tails`, with one entry for each group and each layer. -/
def readDescriptors (layout : PageLayout) (header : Json) :
    Except CodecError (List Json × List Json) :=
  match header.get? "reused_pages_by_group", header.get? "layer_tails" with
  | some (.arr reused), some (.arr rawTails) =>
      if reused.length = layout.groups.length ∧ rawTails.length = layout.layers.length then
        .ok (reused, rawTails)
      else .error (.codec "hybrid page delta descriptor count differs")
  | _, _ => .error (.codec "hybrid page delta descriptor count differs")

/-- The number of pages that a group keeps of its base. -/
def reusedPages? (baseBlockCounts : List ℕ) (reused : List Json) (group : ℕ) : Option ℕ :=
  match reused[group]?.bind Json.int? with
  | some pages =>
      if 0 ≤ pages ∧ pages ≤ baseBlockCounts.getD group 0 then some pages.toNat else none
  | none => none

/-- The digest and the checksum of a layer's descriptor. -/
def readDescriptor? (integrity : Integrity) (layer : PageLayer) (expectedBytes : ℕ)
    (descriptor : Json) : Option (Option Digest × Option ℕ) :=
  let check := if integrity = .sha256 then "sha256" else "crc32"
  if descriptor.isObject = true ∧ descriptor.hasKeys ["name", "bytes", check] = true ∧
      descriptor.get? "name" = some (.str layer.name) ∧
      descriptor.get? "bytes" = some (.int expectedBytes) then
    match integrity, descriptor.get? check with
    | .sha256, some value => (Hex.ofJson? value).map fun digest => (some digest, none)
    | .fast, some (.int value) =>
        if 0 ≤ value ∧ value ≤ 0xffffffff then some (none, some value.toNat) else none
    | .none, some .null => some (none, none)
    | _, _ => none
  else none

/-- The layers' tails from an offset on, and the offset after them. A group's reuse count is
checked again for each of its layers, with the outcome of the first. -/
def planTails (integrity : Integrity) (baseBlockCounts resultBlockCounts : List ℕ)
    (reused : List Json) (total : ℕ) :
    ℕ → List ((ℕ × PageLayer) × Json) → Except CodecError (List PageDeltaTail × ℕ)
  | offset, [] => .ok ([], offset)
  | offset, (p, descriptor) :: rest => do
      let some reusedPages := reusedPages? baseBlockCounts reused p.1
        | .error (.codec "hybrid page delta reuse count is invalid")
      let expectedBytes := (resultBlockCounts.getD p.1 0 - reusedPages) * p.2.bytesPerPage
      let some (digest, crc32) := readDescriptor? integrity p.2 expectedBytes descriptor
        | .error (.codec "hybrid page delta layer descriptor differs")
      require (offset + expectedBytes ≤ total) (.codec "hybrid page delta payload is truncated")
      let (tails, last) ← planTails integrity baseBlockCounts resultBlockCounts reused total
        (offset + expectedBytes) rest
      return (⟨p.2.name, p.1, offset, offset + expectedBytes, reusedPages * p.2.bytesPerPage,
        digest, crc32⟩ :: tails, last)

def planPageDelta (layout : PageLayout) (encodedPrefix : Bytes)
    (baseBlockCounts resultBlockCounts : List ℕ) (baseBoundaryTokens resultBoundaryTokens : ℕ)
    (totalBytes : Option ℕ) : Except CodecError PageDeltaPlan := do
  validateDeltaBoundaries baseBoundaryTokens resultBoundaryTokens
  let (header, headerEnd) ← readHeader deltaMagic encodedPrefix
    (.codec "hybrid page delta has an invalid prefix")
    (.codec "hybrid page delta header is truncated")
    (.codec "hybrid page delta header is invalid")
  require (header.isObject = true) (.codec "hybrid page delta header fields differ")
  let integrity ← headerIntegrity header
  require (header.hasKeys (deltaHeaderKeys integrity) = true)
    (.codec "hybrid page delta header fields differ")
  let (baseDigest, resultDigest) ← checkDeltaIdentity layout header baseBlockCounts
    resultBlockCounts baseBoundaryTokens resultBoundaryTokens
  let (reused, rawTails) ← readDescriptors layout header
  let total := totalBytes.getD encodedPrefix.length
  require (headerEnd ≤ total ∧ encodedPrefix.length ≤ total)
    (.codec "hybrid page delta total length is invalid")
  let (tails, last) ← planTails integrity baseBlockCounts resultBlockCounts reused total headerEnd
    (layout.layers.zip rawTails)
  require (last = total) (.codec "hybrid page delta has trailing bytes")
  return ⟨headerEnd, total, baseBlockCounts, resultBlockCounts, baseBoundaryTokens,
    resultBoundaryTokens, baseDigest, resultDigest,
    reused.map fun pages => (pages.int?.getD 0).toNat, tails, integrity⟩

def pageDeltaHeaderPrefix (encoded : Bytes) : Except CodecError Bytes := do
  require (10 ≤ encoded.length ∧ slice encoded 0 6 = deltaMagic)
    (.codec "hybrid page delta has an invalid prefix")
  let headerEnd := 10 + FixedWidth.value (slice encoded 6 10)
  require (10 < headerEnd ∧ headerEnd ≤ encoded.length)
    (.codec "hybrid page delta header is truncated")
  return encoded.take headerEnd

/-! ## Encoding -/

/-- `payloads[name]` -/
def payloadOf (payloads : List (Str × Bytes)) (name : Str) : Bytes := (payloads.lookup name).getD []

/-- The leading pages of a group that are the same in all its layers. -/
def reusablePages (group : PageGroup) (pages : ℕ) (base result : List (Str × Bytes)) : ℕ :=
  let page := fun payloads layer n => slice (payloadOf payloads (PageLayer.name layer))
    (n * layer.bytesPerPage) ((n + 1) * layer.bytesPerPage)
  ((List.range pages).takeWhile fun n =>
    group.layers.all fun layer => page base layer n = page result layer n).length

/-- The check of a tail's descriptor. -/
def tailCheck (integrity : Integrity) (tail : Bytes) : Str × Json :=
  match integrity with
  | .sha256 => ("sha256", (sha256 tail).json)
  | .fast => ("crc32", .int (payloadChecksum tail))
  | .none => ("crc32", .null)

/-- `_tail_descriptor` -/
def tailDescriptor (integrity : Integrity) (name : Str) (tail : Bytes) : Json :=
  .object [("name", .str name), ("bytes", .int tail.length), tailCheck integrity tail]

def deltaHeaderFields (integrity : Integrity) : List (Str × Json) :=
  match integrity with
  | .sha256 => [("schema", .str deltaHeaderSchemaV1)]
  | .fast => [("schema", .str deltaHeaderSchemaV2), ("integrity", .str "fast")]
  | .none => [("schema", .str deltaHeaderSchemaV2), ("integrity", .str "none")]

/-- `json.dumps` of a delta header, with its prefix -/
def packDeltaHeader (layout : PageLayout) (baseDigest resultDigest : Digest)
    (baseBlockCounts resultBlockCounts : List ℕ) (baseBoundaryTokens resultBoundaryTokens : ℕ)
    (reused : List ℕ) (integrity : Integrity) (layerTails : List (Str × Bytes)) :
    Except CodecError Bytes := do
  let digest ← layout.digest
  let header := Json.object <| List.append (deltaHeaderFields integrity)
    [("layout_sha256", digest.json), ("base_snapshot_sha256", baseDigest.json),
      ("result_snapshot_sha256", resultDigest.json),
      ("base_block_counts", .arr (Json.nats baseBlockCounts)),
      ("result_block_counts", .arr (Json.nats resultBlockCounts)),
      ("base_boundary_tokens", .int baseBoundaryTokens),
      ("result_boundary_tokens", .int resultBoundaryTokens),
      ("reused_pages_by_group", .arr (Json.nats reused)),
      ("layer_tails", .arr (layerTails.map fun tail => tailDescriptor integrity tail.1 tail.2))]
  match canonicalJson? header with
  | none => .error .digits
  | some encoded => packHeader deltaMagic encoded

def encodePageDelta (layout : PageLayout) (baseSnapshot resultSnapshot : Bytes)
    (baseBlockCounts resultBlockCounts : List ℕ) (baseBoundaryTokens resultBoundaryTokens : ℕ)
    (baseSnapshotSha256 : Option Digest) (integrity : Integrity)
    (resultSnapshotSha256 : Option Digest) : Except CodecError Bytes := do
  validateDeltaBoundaries baseBoundaryTokens resultBoundaryTokens
  require (integrity = .sha256 ∨
      baseSnapshotSha256.isSome = true ∧ resultSnapshotSha256.isSome = true)
    (.codec "boundary tokens are required without payload digests")
  let baseDigest := baseSnapshotSha256.getD (sha256 baseSnapshot)
  require (baseBlockCounts.length = layout.groups.length ∧
      resultBlockCounts.length = layout.groups.length)
    (.codec "page delta block counts disagree with layout")
  require (∀ p ∈ baseBlockCounts.zip resultBlockCounts, 0 < p.1 ∧ p.1 ≤ p.2)
    (.codec "page delta block counts do not extend the base")
  let basePayloads ← decodePageSnapshot layout baseSnapshot baseBlockCounts
  let resultPayloads ← decodePageSnapshot layout resultSnapshot resultBlockCounts
  let reused := layout.groups.zipIdx.map fun g =>
    reusablePages g.1 (baseBlockCounts.getD g.2 0) basePayloads resultPayloads
  let layerTails := layout.layers.map fun p => (p.2.name,
    (payloadOf resultPayloads p.2.name).drop (reused.getD p.1 0 * p.2.bytesPerPage))
  let resultDigest := if integrity = .sha256 then sha256 resultSnapshot
    else resultSnapshotSha256.getD (sha256 resultSnapshot)
  let header ← packDeltaHeader layout baseDigest resultDigest baseBlockCounts resultBlockCounts
    baseBoundaryTokens resultBoundaryTokens reused integrity layerTails
  return header ++ (layerTails.map Prod.snd).flatten

/-! ## Application -/

/-- `_VerifiedPageSnapshot` -/
structure VerifiedPageSnapshot where
  payload : Bytes
  sha256 : Digest

/-- `_verify_page_snapshot_bytes` of bytes -/
def verifyPageSnapshotBytes (payload : Bytes) : VerifiedPageSnapshot := ⟨payload, sha256 payload⟩

/-- The kept prefix and the tail of each layer, with the digests of the tails checked. -/
def joinTails (base encoded : Bytes) :
    List PageDeltaTail → List PagePayloadSpan → Except CodecError (List Bytes)
  | [], [] => .ok []
  | tail :: tails, span :: spans => do
      let payloadTail := slice encoded tail.sourceStart tail.sourceEnd
      require (some (sha256 payloadTail) = tail.sha256)
        (.codec "hybrid page delta payload checksum mismatch")
      let parts ← joinTails base encoded tails spans
      return slice base span.sourceStart (span.sourceStart + tail.destinationByteOffset) ::
        payloadTail :: parts
  | _, _ => .error .zipLength

/-- `_apply_verified_page_delta` -/
def applyVerifiedPageDelta (layout : PageLayout) (base : VerifiedPageSnapshot)
    (encodedDelta : Bytes) (baseBlockCounts resultBlockCounts : List ℕ)
    (baseBoundaryTokens resultBoundaryTokens : ℕ) : Except CodecError VerifiedPageSnapshot := do
  let plan ← planPageDelta layout encodedDelta baseBlockCounts resultBlockCounts
    baseBoundaryTokens resultBoundaryTokens (some encodedDelta.length)
  require (plan.baseSnapshotSha256 = base.sha256)
    (.codec "hybrid page delta identity or base differs")
  let basePlan ← planPageSnapshot layout base.payload plan.baseBlockCounts none
  let header ← encodePageSnapshotHeader layout plan.resultBlockCounts
  let parts ← joinTails base.payload encodedDelta plan.tails basePlan.spans
  let result := header ++ parts.flatten
  let size ← pageSnapshotEncodedSize layout plan.resultBlockCounts
  require (result.length = size) (.codec "hybrid page delta result size differs")
  require (sha256 result = plan.resultSnapshotSha256)
    (.codec "hybrid page delta result checksum mismatch")
  return ⟨result, sha256 result⟩

def applyPageDelta (layout : PageLayout) (baseSnapshot encodedDelta : Bytes)
    (baseBlockCounts resultBlockCounts : List ℕ)
    (baseBoundaryTokens resultBoundaryTokens : ℕ) : Except CodecError Bytes := do
  let result ← applyVerifiedPageDelta layout (verifyPageSnapshotBytes baseSnapshot) encodedDelta
    baseBlockCounts resultBlockCounts baseBoundaryTokens resultBoundaryTokens
  return result.payload

/-! ## Plans -/

/-- What a planned tail has to do with its layer. -/
structure Fits (base result : List ℕ) (total : ℕ) (p : ℕ × PageLayer) (tail : PageDeltaTail) :
    Prop where
  name : tail.layerName = p.2.name
  kept : tail.destinationByteOffset ≤ layerBytes base p
  grows : layerBytes base p ≤ layerBytes result p
  ordered : tail.sourceStart ≤ tail.sourceEnd
  bounded : tail.sourceEnd ≤ total
  size : tail.destinationByteOffset + (tail.sourceEnd - tail.sourceStart) = layerBytes result p

theorem reusedPages?_le {base : List ℕ} {reused : List Json} {group pages : ℕ}
    (h : reusedPages? base reused group = some pages) : pages ≤ base.getD group 0 := by
  unfold reusedPages? at h
  split at h
  · split at h
    · rename_i hrange
      cases h
      omega
    · cases h
  · cases h

theorem planTails_eq_ok {integrity : Integrity} {base result : List ℕ} {reused : List Json}
    {total offset last : ℕ} {layers : List (ℕ × PageLayer)} {raw : List Json}
    {tails : List PageDeltaTail} (hraw : raw.length = layers.length)
    (hgrow : ∀ group, base.getD group 0 ≤ result.getD group 0)
    (h : planTails integrity base result reused total offset (layers.zip raw) = .ok (tails, last)) :
    List.Forall₂ (Fits base result total) layers tails := by
  induction layers generalizing raw offset tails last with
  | nil =>
      cases h
      exact .nil
  | cons p rest ih =>
      obtain ⟨descriptor, raw, rfl⟩ := List.exists_cons_of_length_eq_add_one hraw
      rw [List.zip_cons_cons, planTails] at h
      split at h
      · rename_i pages hpages
        dsimp only at h
        split at h
        · simp only [bind_eq_ok, require_eq_ok, Prod.exists] at h
          obtain ⟨-, htotal, more, last', hrest, h⟩ := h
          cases h
          refine .cons ⟨rfl, ?_, ?_, ?_, htotal, ?_⟩ (ih (by simpa using hraw) hrest)
          · exact Nat.mul_le_mul_right _ (reusedPages?_le hpages)
          · exact Nat.mul_le_mul_right _ (hgrow p.1)
          · exact Nat.le_add_right _ _
          · have hle := (reusedPages?_le hpages).trans (hgrow p.1)
            show pages * p.2.bytesPerPage + (offset + _ - offset) = _
            rw [Nat.add_sub_cancel_left, ← Nat.add_mul, Nat.add_sub_cancel' hle]
            rfl
        · cases h
      · cases h

theorem readDescriptor?_unsigned {integrity : Integrity} {layer : PageLayer} {bytes : ℕ}
    {descriptor : Json} {digest : Option Digest} {crc32 : Option ℕ} (hi : integrity ≠ .sha256)
    (h : readDescriptor? integrity layer bytes descriptor = some (digest, crc32)) :
    digest = none := by
  unfold readDescriptor? at h
  rw [if_neg hi] at h
  dsimp only at h
  split at h
  · split at h
    · exact absurd rfl hi
    · split at h <;> cases h
      rfl
    · cases h
      rfl
    · cases h
  · cases h

/-- Only the first schema binds the digests of the tails. -/
theorem planTails_unsigned {integrity : Integrity} {base result : List ℕ} {reused : List Json}
    {total offset last : ℕ} {layers : List ((ℕ × PageLayer) × Json)} {tails : List PageDeltaTail}
    (hi : integrity ≠ .sha256)
    (h : planTails integrity base result reused total offset layers = .ok (tails, last)) :
    ∀ tail ∈ tails, tail.sha256 = none := by
  induction layers generalizing offset tails last with
  | nil =>
      cases h
      simp
  | cons l rest ih =>
      obtain ⟨p, descriptor⟩ := l
      rw [planTails] at h
      split at h
      · dsimp only at h
        split at h
        · rename_i digest crc32 hread
          simp only [bind_eq_ok, Prod.exists] at h
          obtain ⟨-, -, more, last', hrest, h⟩ := h
          cases h
          have hdigest : digest = none := readDescriptor?_unsigned hi hread
          intro tail htail
          rcases List.mem_cons.mp htail with rfl | htail
          · exact hdigest
          · exact ih hrest tail htail
        · cases h
      · cases h

theorem checkDeltaIdentity_eq_ok {layout : PageLayout} {header : Json} {base result : List ℕ}
    {baseTokens resultTokens : ℕ} {digests : Digest × Digest}
    (h : checkDeltaIdentity layout header base result baseTokens resultTokens = .ok digests) :
    base.length = layout.groups.length ∧ result.length = layout.groups.length ∧
      ∀ p ∈ base.zip result, 0 < p.1 ∧ p.1 ≤ p.2 := by
  unfold checkDeltaIdentity at h
  dsimp only at h
  split at h
  · simp only [bind_eq_ok, require_eq_ok] at h
    obtain ⟨-, hcounts, -⟩ := h
    exact hcounts
  · cases h

theorem getD_le_of_zip {base result : List ℕ} (hlength : base.length = result.length)
    (h : ∀ p ∈ base.zip result, 0 < p.1 ∧ p.1 ≤ p.2) (group : ℕ) :
    base.getD group 0 ≤ result.getD group 0 := by
  induction base generalizing result group with
  | nil => exact Nat.zero_le _
  | cons m base ih =>
      obtain ⟨n, result, rfl⟩ := List.exists_cons_of_length_eq_add_one hlength.symm
      cases group with
      | zero => exact (h (m, n) List.mem_cons_self).2
      | succ group =>
          exact ih (by simpa using hlength) (fun p hp => h p (List.mem_cons_of_mem _ hp)) group

/-- The header of a longer encoding is read from any prefix that holds it. -/
theorem readHeader_take {magic encoded : Bytes} {e₁ e₂ e₃ : CodecError} {header : Json}
    {headerEnd n : ℕ} (h : readHeader magic encoded e₁ e₂ e₃ = .ok (header, headerEnd))
    (hn : headerEnd ≤ n) :
    headerEnd = 10 + FixedWidth.value (slice encoded 6 10) ∧ headerEnd ≤ encoded.length ∧
      readHeader magic (encoded.take n) e₁ e₂ e₃ = .ok (header, headerEnd) := by
  unfold readHeader at h
  simp only [bind_eq_ok, require_eq_ok] at h
  obtain ⟨-, hprefix, -, hend, h⟩ := h
  have heq : headerEnd = 10 + FixedWidth.value (slice encoded 6 10) := by
    split at h <;> cases h
    rfl
  have htake : ∀ start stop, stop ≤ n → slice (encoded.take n) start stop =
      slice encoded start stop := by
    intro start stop hstop
    unfold slice
    rw [List.drop_take, List.take_take]
    congr 1
    omega
  refine ⟨heq, heq ▸ hend.2, ?_⟩
  unfold readHeader
  simp only [bind_eq_ok, require_eq_ok, List.length_take]
  rw [htake 0 6 (by omega), htake 6 10 (by omega), htake 10 _ (by omega)]
  exact ⟨(), ⟨by omega, hprefix.2⟩, (), ⟨hend.1, by omega⟩, h⟩

/-- What a planned delta says. -/
structure Planned (layout : PageLayout) (total : ℕ) (base result : List ℕ)
    (plan : PageDeltaPlan) : Prop where
  baseCounts : plan.baseBlockCounts = base
  resultCounts : plan.resultBlockCounts = result
  tails : List.Forall₂ (Fits base result total) layout.layers plan.tails
  unsigned : plan.integrity ≠ .sha256 → ∀ tail ∈ plan.tails, tail.sha256 = none

theorem planPageDelta_eq_ok {layout : PageLayout} {encoded : Bytes} {base result : List ℕ}
    {baseTokens resultTokens : ℕ} {total : Option ℕ} {plan : PageDeltaPlan}
    (h : planPageDelta layout encoded base result baseTokens resultTokens total = .ok plan) :
    Planned layout (total.getD encoded.length) base result plan := by
  unfold planPageDelta at h
  simp only [bind_eq_ok, require_eq_ok, Prod.exists] at h
  obtain ⟨_, -, header, headerEnd, -, -, -, integrity, -, -, -, baseDigest, resultDigest, hidentity,
    reused, raw, hdescriptors, -, -, tails, last, htails, -, -, h⟩ := h
  cases h
  obtain ⟨hbase, hresult, hcounts⟩ := checkDeltaIdentity_eq_ok hidentity
  have hraw : raw.length = layout.layers.length := by
    unfold readDescriptors at hdescriptors
    split at hdescriptors
    · split at hdescriptors
      · rename_i hlengths
        cases hdescriptors
        exact hlengths.2
      · cases hdescriptors
    · cases hdescriptors
  exact ⟨rfl, rfl, planTails_eq_ok hraw (getD_le_of_zip (hbase.trans hresult.symm) hcounts) htails,
    fun hi => planTails_unsigned hi htails⟩

/-- Planning needs the header and the length of the encoding. -/
theorem planPageDelta_headerPrefix {layout : PageLayout} {encoded : Bytes} {base result : List ℕ}
    {baseTokens resultTokens : ℕ} {plan : PageDeltaPlan}
    (h : planPageDelta layout encoded base result baseTokens resultTokens none = .ok plan) :
    ∃ header, pageDeltaHeaderPrefix encoded = .ok header ∧
      planPageDelta layout header base result baseTokens resultTokens (some encoded.length) =
        .ok plan := by
  unfold planPageDelta at h
  simp only [bind_eq_ok, require_eq_ok, Prod.exists] at h
  obtain ⟨u, hboundaries, header, headerEnd, hread, u', hobject, integrity, hintegrity, u'', hkeys,
    baseDigest, resultDigest, hidentity, reused, raw, hdescriptors, u₁, htotal, tails, last, htails,
    u₂, hlast, h⟩ := h
  obtain ⟨hend, hle, htake⟩ := readHeader_take hread (Nat.le_refl _)
  refine ⟨encoded.take headerEnd, ?_, ?_⟩
  · unfold readHeader at hread
    simp only [bind_eq_ok, require_eq_ok] at hread
    obtain ⟨-, hprefix, -, hbounds, -⟩ := hread
    unfold pageDeltaHeaderPrefix
    simp only [bind_eq_ok, require_eq_ok]
    exact ⟨(), hprefix, (), hbounds, by rw [hend]; rfl⟩
  · unfold planPageDelta
    simp only [bind_eq_ok, require_eq_ok, Prod.exists]
    refine ⟨u, hboundaries, header, headerEnd, htake, u', hobject, integrity, hintegrity, u'', hkeys,
      baseDigest, resultDigest, hidentity, reused, raw, hdescriptors, u₁, ?_, tails, last, htails,
      u₂, hlast, h⟩
    rw [Option.getD_some, List.length_take]
    exact ⟨hle, Nat.min_le_right _ _⟩

/-! ## Extended layers -/

/-- The layers of the result: what is kept of the base, and the tails. -/
def extendLayers (encoded : Bytes) (tails : List PageDeltaTail) (layers : List Bytes) : List Bytes :=
  List.zipWith (fun tail layer => layer.take tail.destinationByteOffset ++
    slice encoded tail.sourceStart tail.sourceEnd) tails layers

/-- Every tail of an encoding has the digest that the header gives. -/
def Signed (encoded : Bytes) (tails : List PageDeltaTail) : Prop :=
  ∀ tail ∈ tails, some (sha256 (slice encoded tail.sourceStart tail.sourceEnd)) = tail.sha256

theorem Planned.sized {layout : PageLayout} {encoded : Bytes} {base result : List ℕ}
    {plan : PageDeltaPlan} {layers : List Bytes}
    (h : Planned layout encoded.length base result plan) (hl : Sized base layout.layers layers) :
    Sized result layout.layers (extendLayers encoded plan.tails layers) := by
  have htails := h.tails
  unfold extendLayers
  generalize plan.tails = tails at htails
  generalize layout.layers = ps at htails hl
  induction htails generalizing layers with
  | nil => exact .nil
  | @cons p tail ps tails hfit _ ih =>
      obtain ⟨layer, more, hlayer, hmore, rfl⟩ := List.forall₂_cons_left_iff.mp hl
      refine .cons ?_ (ih hmore)
      have hsize := hfit.size
      have hkept := hfit.kept
      rw [List.length_append, List.length_take, slice_length hfit.bounded, hlayer]
      omega

theorem joinTails_eq_ok {base encoded : Bytes} {baseCounts resultCounts : List ℕ} {total : ℕ}
    {layers : List (ℕ × PageLayer)} {tails : List PageDeltaTail} {parts : List Bytes} {offset : ℕ}
    (hfits : List.Forall₂ (Fits baseCounts resultCounts total) layers tails)
    (h : joinTails base encoded tails (spanList baseCounts offset layers) = .ok parts) :
    Signed encoded tails ∧ parts.flatten =
      (extendLayers encoded tails (spanPayloads base (spanList baseCounts offset layers))).flatten := by
  induction hfits generalizing offset parts with
  | nil =>
      cases h
      exact ⟨by simp [Signed], rfl⟩
  | @cons p tail ps tails hfit _ ih =>
      rw [spanList, joinTails] at h
      simp only [bind_eq_ok, require_eq_ok] at h
      obtain ⟨-, hdigest, more, hmore, h⟩ := h
      cases h
      obtain ⟨hsigned, hflatten⟩ := ih hmore
      refine ⟨?_, ?_⟩
      · intro t ht
        rcases List.mem_cons.mp ht with rfl | ht
        · exact hdigest
        · exact hsigned t ht
      · unfold extendLayers spanPayloads at hflatten ⊢
        rw [spanList, List.map_cons, List.zipWith_cons_cons, List.flatten_cons, List.flatten_cons,
          List.flatten_cons, hflatten, slice_prefix hfit.kept, List.append_assoc]

/-- The one step of a history: a delta applied to a snapshot. -/
structure Extends (layout : PageLayout) (base : VerifiedPageSnapshot) (encoded : Bytes)
    (plan : PageDeltaPlan) (basePlan : PageSnapshotPlan) (result : VerifiedPageSnapshot) : Prop where
  planned : Planned layout encoded.length basePlan.blockCounts plan.resultBlockCounts plan
  basePlanned : planPageSnapshot layout base.payload basePlan.blockCounts none = .ok basePlan
  baseDigest : plan.baseSnapshotSha256 = base.sha256
  signed : Signed encoded plan.tails
  payload : ∃ header, encodePageSnapshotHeader layout plan.resultBlockCounts = .ok header ∧
    result.payload = header ++
      (extendLayers encoded plan.tails (spanPayloads base.payload basePlan.spans)).flatten
  sha256 : result.sha256 = SparkCache.sha256 result.payload
  resultDigest : plan.resultSnapshotSha256 = result.sha256

theorem applyVerifiedPageDelta_eq_ok {layout : PageLayout} {base result : VerifiedPageSnapshot}
    {encoded : Bytes} {baseCounts resultCounts : List ℕ} {baseTokens resultTokens : ℕ}
    (h : applyVerifiedPageDelta layout base encoded baseCounts resultCounts baseTokens resultTokens =
      .ok result) :
    ∃ plan basePlan, planPageDelta layout encoded baseCounts resultCounts baseTokens resultTokens
        none = .ok plan ∧ basePlan.blockCounts = baseCounts ∧
      plan.resultBlockCounts = resultCounts ∧ Extends layout base encoded plan basePlan result := by
  unfold applyVerifiedPageDelta at h
  simp only [bind_eq_ok, require_eq_ok] at h
  obtain ⟨plan, hplan, -, hbase, basePlan, hbasePlan, header, hheader, parts, hparts, size, -, -, -,
    -, hresult, h⟩ := h
  cases h
  have hplanned := planPageDelta_eq_ok hplan
  rw [hplanned.baseCounts] at hbasePlan
  obtain ⟨-, hcounts, hspans, -, -, -⟩ := planPageSnapshot_eq_ok hbasePlan
  rw [hspans] at hparts
  obtain ⟨hsigned, hflatten⟩ := joinTails_eq_ok hplanned.tails hparts
  refine ⟨plan, basePlan, hplan, hcounts, hplanned.resultCounts, ?_⟩
  constructor
  · rw [hcounts, hplanned.resultCounts]
    exact hplanned
  · rw [hcounts]
    exact hbasePlan
  · exact hbase
  · exact hsigned
  · refine ⟨header, hheader, ?_⟩
    rw [hspans, ← hflatten]
  · rfl
  · exact hresult.symm

/-- A delta that can be applied carries digests. -/
theorem Extends.integrity {layout : PageLayout} {base result : VerifiedPageSnapshot}
    {encoded : Bytes} {plan : PageDeltaPlan} {basePlan : PageSnapshotPlan}
    (h : Extends layout base encoded plan basePlan result) : plan.integrity = .sha256 := by
  by_contra hi
  obtain ⟨p, rest, hlayers⟩ := List.exists_cons_of_ne_nil layout.layers_ne_nil
  have htails := h.planned.tails
  rw [hlayers] at htails
  obtain ⟨tail, more, -, -, hcons⟩ := List.forall₂_cons_left_iff.mp htails
  have hmem : tail ∈ plan.tails := hcons ▸ List.mem_cons_self
  have hsome := h.signed tail hmem
  rw [h.planned.unsigned hi tail hmem] at hsome
  cases hsome

end SparkCache.Pages
