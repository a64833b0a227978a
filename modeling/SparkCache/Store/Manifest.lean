import SparkCache.Store.Publish

/-!
# Row manifests, descriptor segments and aliases

The documents of the store that refer to row chunks, and their validators. A
validator reads any JSON value; what it accepts is typed. The second half says
what an accepted document is like, and that the documents that a publisher
writes are accepted.
-/
namespace SparkCache.Store

open Json Pages

structure EntryKey where
  storageKey : Digest
  contextDigest : Digest
  deriving DecidableEq

/-- `_validate_digest` -/
def validateDigest (value : Json) (name : String) : Except StoreError Digest :=
  expect (Hex.ofJson? value) (.value (name ++ " must be a lowercase SHA-256 digest"))

@[simp] theorem validateDigest_eq_ok {value : Json} {name : String} {d : Digest} :
    validateDigest value name = .ok d ↔ value = d.json := by
  rw [validateDigest, expect_eq_ok, Hex.ofJson?_eq_some]

/-! ## Chunk descriptors -/

structure ChunkDescriptor where
  sha256 : Digest
  bytes : ℕ
  logicalStart : ℕ
  logicalEnd : ℕ
  deriving DecidableEq

def chunkDescriptorKeys : List Str := ["sha256", "bytes", "logical_start", "logical_end"]

def ChunkDescriptor.fields (d : ChunkDescriptor) : List (Str × Json) :=
  [("sha256", d.sha256.json), ("bytes", .int d.bytes), ("logical_start", .int d.logicalStart),
    ("logical_end", .int d.logicalEnd)]

def ChunkDescriptor.json (d : ChunkDescriptor) : Json := .object d.fields

/-- One descriptor of a manifest, whose range starts where the one before it ends. -/
def readChunkDescriptor (chunkTokens expectedStart : ℕ) (isLast : Bool) (descriptor : Json) :
    Except StoreError ChunkDescriptor := do
  require (descriptor.isObject = true) (.format "chunk descriptor is not an object")
  strictKeys descriptor chunkDescriptorKeys "chunk descriptor"
  let sha256 ← validateDigest (← field descriptor "sha256") "chunk sha256"
  let bytes ← expect (← field descriptor "bytes").int?
    (.format "chunk bytes must be a positive integer")
  require (0 < bytes) (.format "chunk bytes must be a positive integer")
  let start ← expect (← field descriptor "logical_start").int?
    (.format "non-contiguous logical chunk range")
  let stop ← expect (← field descriptor "logical_end").int?
    (.format "non-contiguous logical chunk range")
  require (start = expectedStart ∧ (expectedStart : ℤ) < stop)
    (.format "non-contiguous logical chunk range")
  require (stop - start ≤ chunkTokens ∧ (isLast = false → stop - start = chunkTokens))
    (.format "chunk range disagrees with identity geometry")
  return ⟨sha256, bytes.toNat, expectedStart, stop.toNat⟩

/-- The descriptors of a manifest and the end of the last one. -/
def readChunkDescriptors (chunkTokens : ℕ) (expectedStart : ℕ) :
    List Json → Except StoreError (List ChunkDescriptor × ℕ)
  | [] => .ok ([], expectedStart)
  | descriptor :: rest => do
      let d ← readChunkDescriptor chunkTokens expectedStart rest.isEmpty descriptor
      let (ds, stop) ← readChunkDescriptors chunkTokens d.logicalEnd rest
      return (d :: ds, stop)

/-- The descriptors of another document have the right fields; their values are read later. -/
def checkDescriptors (label : String) : List Json → Except StoreError Unit
  | [] => .ok ()
  | descriptor :: rest => do
      require (descriptor.isObject = true) (.format (label ++ " is not an object"))
      strictKeys descriptor chunkDescriptorKeys label
      checkDescriptors label rest

/-! ## Row manifests -/

structure RowManifest where
  identity : Json
  contextDigest : Digest
  committedTokens : ℕ
  chunks : List ChunkDescriptor

/-- A manifest of descriptors that may not be validated. -/
def manifestJson (identity : Json) (contextDigest : Digest) (committedTokens : ℕ)
    (chunks : List Json) : Json :=
  .object [("format_abi", .int formatAbi), ("identity", identity),
    ("context_digest", contextDigest.json), ("committed_tokens", .int committedTokens),
    ("chunks", .arr chunks)]

def RowManifest.json (m : RowManifest) : Json :=
  manifestJson m.identity m.contextDigest m.committedTokens (m.chunks.map ChunkDescriptor.json)

/-- The fields of an identity that must be integers. -/
def identityIntegers : List Str :=
  ["tp_degree", "dcp_degree", "chunk_tokens", "dcp_shard_rank", "tp_shard_rank"]

/-- `identity_wire == expected_wire` and their canonical forms agree. -/
def sameWire (wire expected : Json) : Except StoreError Bool :=
  if pyEq wire expected = true then do
    return (← dumpCanonical wire) = (← dumpCanonical expected)
  else return false

/-- Without an expected identity every wire form will do. -/
def compatibleWire (wire : Json) : Option IdentityView → Except StoreError Bool
  | some expected => sameWire wire expected.wire
  | none => .ok true

/-- The identity, the version and the key of a manifest. -/
def checkManifestIdentity (manifest : Json) (key : EntryKey) (expected : Option IdentityView) :
    Except StoreError IdentityView := do
  let wire ← field manifest "identity"
  require (wire.isObject = true) (.format "manifest identity is not an object")
  let identity ← expect (IdentityView.ofWire? wire) (.format "manifest identity is invalid")
  require (∀ name ∈ identityIntegers, (identity.wire.get? name).bind int? ≠ none)
    (.format "manifest identity field is not an integer")
  require (pyEq identity.wire wire = true) (.format "manifest identity fields differ")
  let storageKey ← identity.storageKey
  let compatible ← compatibleWire wire expected
  require ((← field manifest "format_abi") = .int formatAbi ∧ storageKey = key.storageKey ∧
      (← field manifest "context_digest") = key.contextDigest.json ∧ compatible = true)
    (if expected.isSome then .incompatible "manifest identity differs"
      else .format "manifest identity differs")
  return identity

/-- `_validate_manifest_metadata` -/
def validateManifestMetadata (manifest : Json) (key : EntryKey) (expected : Option IdentityView) :
    Except StoreError RowManifest := do
  require (manifest.isObject = true) (.format "manifest is not an object")
  strictKeys manifest ["format_abi", "identity", "context_digest", "committed_tokens", "chunks"]
    "manifest"
  let identity ← checkManifestIdentity manifest key expected
  let committedTokens ← expect (← field manifest "committed_tokens").int?
    (.format "committed_tokens must be a positive integer")
  require (0 < committedTokens) (.format "committed_tokens must be a positive integer")
  let items ← listItems (← field manifest "chunks") (.format "manifest has no chunks")
  require (items ≠ []) (.format "manifest has no chunks")
  let (chunks, stop) ← readChunkDescriptors identity.chunkTokens 0 items
  require (stop = committedTokens) (.format "committed token count mismatch")
  return ⟨← field manifest "identity", key.contextDigest, committedTokens.toNat, chunks⟩

/-! ## Descriptor segments -/

def prefixSegmentDescriptors : ℕ := 16

def prefixSegmentSchema : Str := "sparkcache-prefix-descriptor-segment/v1"

structure PrefixSegment where
  parent : Option Digest
  descriptors : List Json

def optionalDigest : Option Digest → Json
  | some d => d.json
  | none => .null

def segmentJson (storageKey : Digest) (parent : Option Digest) (firstChunkIndex : ℕ)
    (descriptors : List Json) : Json :=
  .object [("schema", .str prefixSegmentSchema), ("storage_key", storageKey.json),
    ("parent_sha256", optionalDigest parent), ("first_chunk_index", .int firstChunkIndex),
    ("descriptors", .arr descriptors)]

/-- A digest or `None`. -/
def readParent (value : Json) : Except StoreError (Option Digest) :=
  if value = .null then .ok none
  else (asFormat (validateDigest value "prefix segment parent_sha256")).map some

/-- `_validate_prefix_segment` -/
def validatePrefixSegment (segment : Json) (storageKey : Digest) (expectedFirstChunk : ℕ) :
    Except StoreError PrefixSegment := do
  require (segment.isObject = true) (.format "prefix descriptor segment is not an object")
  strictKeys segment ["schema", "storage_key", "parent_sha256", "first_chunk_index", "descriptors"]
    "prefix descriptor segment"
  require ((← field segment "schema") = .str prefixSegmentSchema ∧
      (← field segment "storage_key") = storageKey.json ∧
      (← field segment "first_chunk_index") = .int expectedFirstChunk)
    (.format "prefix descriptor segment identity differs")
  let parent ← readParent (← field segment "parent_sha256")
  let descriptors ← listItems (← field segment "descriptors")
    (.format "prefix descriptor segment size is invalid")
  require (descriptors ≠ [] ∧ descriptors.length ≤ prefixSegmentDescriptors)
    (.format "prefix descriptor segment size is invalid")
  checkDescriptors "prefix chunk descriptor" descriptors
  return ⟨parent, descriptors⟩

/-! ## Metadata checksums -/

/-- A dictionary without one key. -/
def without (value : Json) (key : Str) : Json :=
  match value with
  | .obj fields => .obj (fields.filter fun f => f.1 ≠ key)
  | value => value

/-- The digest of a document without its checksum. -/
def metadataDigest (document : Json) : Except StoreError Digest := do
  return sha256 (← dumpCanonical (without document "metadata_sha256"))

def sealedFields (fields : List (Str × Json)) (checksum : Digest) : List (Str × Json) :=
  fields ++ [(("metadata_sha256" : Str), checksum.json)]

/-- A document with its checksum. -/
def withMetadata (fields : List (Str × Json)) : Except StoreError Json := do
  let encoded ← dumpCanonical (.object fields)
  return .object (sealedFields fields (sha256 encoded))

/-! ## Prefix aliases -/

def prefixAliasSchema : Str := "sparkcache-prefix-alias/v1"

structure PrefixAlias where
  committedTokens : ℕ
  chunkCount : ℕ
  tailSegment : Digest

def aliasFields (identity : Json) (contextDigest : Digest) (root : PrefixAlias)
    (sourceManifestDigest : Digest) : List (Str × Json) :=
  [("schema", .str prefixAliasSchema), ("format_abi", .int formatAbi),
    ("storage_mode", .str "per_token_rows"), ("identity", identity),
    ("context_digest", contextDigest.json), ("committed_tokens", .int root.committedTokens),
    ("chunk_count", .int root.chunkCount), ("tail_segment_sha256", root.tailSegment.json),
    ("source_manifest_digest", sourceManifestDigest.json)]

def aliasKeys : List Str :=
  ["schema", "format_abi", "storage_mode", "identity", "context_digest", "committed_tokens",
    "chunk_count", "tail_segment_sha256", "source_manifest_digest", "metadata_sha256"]

/-- `_validate_prefix_alias` -/
def validatePrefixAlias (root : Json) (identity : IdentityView) (contextDigest : Digest) :
    Except StoreError PrefixAlias := do
  require (root.isObject = true) (.format "prefix alias is not an object")
  strictKeys root aliasKeys "prefix alias"
  require ((← field root "schema") = .str prefixAliasSchema ∧
      (← field root "format_abi") = .int formatAbi ∧
      (← field root "storage_mode") = .str "per_token_rows" ∧
      pyEq (← field root "identity") identity.wire = true ∧
      (← field root "context_digest") = contextDigest.json)
    (.incompatible "prefix alias identity differs")
  let committedTokens ← expect (← field root "committed_tokens").int?
    (.format "prefix alias geometry is invalid")
  let chunkCount ← expect (← field root "chunk_count").int?
    (.format "prefix alias geometry is invalid")
  require (0 < committedTokens ∧ 0 < chunkCount) (.format "prefix alias geometry is invalid")
  let tail ← asFormat (validateDigest (← field root "tail_segment_sha256") "tail_segment_sha256")
  let _ ← asFormat
    (validateDigest (← field root "source_manifest_digest") "source_manifest_digest")
  let metadata ← asFormat (validateDigest (← field root "metadata_sha256") "metadata_sha256")
  require ((← metadataDigest root) = metadata) (.format "prefix alias metadata checksum mismatch")
  return ⟨committedTokens.toNat, chunkCount.toNat, tail⟩

/-! ## Tail manifests -/

def tailManifestSchema : Str := "sparkcache-tail-manifest/v1"

/-- What the root of a copy-on-write context says of its chunks. -/
structure TailRoot where
  committedTokens : ℕ
  baseCommittedTokens : ℕ
  reusedTokens : ℕ
  baseChunkCount : ℕ
  baseTailSegment : Option Digest
  tailChunks : List Json

def tailFields (identity : Json) (contextDigest baseContextDigest baseManifestDigest : Digest)
    (root : TailRoot) : List (Str × Json) :=
  [("schema", .str tailManifestSchema), ("format_abi", .int formatAbi), ("identity", identity),
    ("context_digest", contextDigest.json), ("committed_tokens", .int root.committedTokens),
    ("base_context_digest", baseContextDigest.json),
    ("base_manifest_sha256", baseManifestDigest.json),
    ("base_committed_tokens", .int root.baseCommittedTokens),
    ("reused_tokens", .int root.reusedTokens), ("base_chunk_count", .int root.baseChunkCount),
    ("base_tail_segment_sha256", optionalDigest root.baseTailSegment),
    ("tail_chunks", .arr root.tailChunks)]

def tailKeys : List Str :=
  ["schema", "format_abi", "identity", "context_digest", "committed_tokens", "base_context_digest",
    "base_manifest_sha256", "base_committed_tokens", "reused_tokens", "base_chunk_count",
    "base_tail_segment_sha256", "tail_chunks", "metadata_sha256"]

/-- The root of the base chain: there is one if and only if there are base chunks. -/
def readBaseSegment (chunkCount : ℤ) (value : Json) : Except StoreError (Option Digest) :=
  if chunkCount = 0 then do
    require (value = .null) (.format "tail manifest has a segment without base chunks")
    return none
  else
    match value with
    | .str s => (asFormat
        (validateDigest (.str s) "tail manifest base_tail_segment_sha256")).map some
    | _ => .error (.format "tail manifest base descriptor chain is missing")

/-- The counts of a tail manifest fit each other. -/
def tailGeometry (chunkTokens : ℕ) (committed base reused chunkCount : ℤ) : Prop :=
  base < committed ∧ 0 < base ∧ 0 ≤ reused ∧ reused ≤ base ∧ reused % chunkTokens = 0 ∧
    chunkCount = reused / chunkTokens

instance (chunkTokens : ℕ) (committed base reused chunkCount : ℤ) :
    Decidable (tailGeometry chunkTokens committed base reused chunkCount) :=
  inferInstanceAs (Decidable (_ ∧ _))

/-- `_validate_tail_manifest_root` -/
def validateTailManifestRoot (manifest : Json) (identity : IdentityView) (contextDigest : Digest) :
    Except StoreError TailRoot := do
  require (manifest.isObject = true) (.format "tail manifest is not an object")
  strictKeys manifest tailKeys "tail manifest"
  let _ ← asFormat (validateDigest (← field manifest "base_context_digest")
    "tail manifest base_context_digest")
  let _ ← asFormat (validateDigest (← field manifest "base_manifest_sha256")
    "tail manifest base_manifest_sha256")
  let metadata ← asFormat (validateDigest (← field manifest "metadata_sha256")
    "tail manifest metadata_sha256")
  require ((← metadataDigest manifest) = metadata)
    (.format "tail manifest metadata checksum mismatch")
  require ((← field manifest "schema") = .str tailManifestSchema ∧
      (← field manifest "format_abi") = .int formatAbi ∧
      identity.publicationSchema = .tailCowV1 ∧
      pyEq (← field manifest "identity") identity.wire = true ∧
      (← field manifest "context_digest") = contextDigest.json)
    (.incompatible "tail manifest identity differs")
  let counts : StoreError := .format "tail manifest token and chunk counts must be integers"
  let committed ← expect (← field manifest "committed_tokens").int? counts
  let base ← expect (← field manifest "base_committed_tokens").int? counts
  let reused ← expect (← field manifest "reused_tokens").int? counts
  let chunkCount ← expect (← field manifest "base_chunk_count").int? counts
  require (tailGeometry identity.chunkTokens committed base reused chunkCount)
    (.format "tail manifest boundary geometry differs")
  let segment ← readBaseSegment chunkCount (← field manifest "base_tail_segment_sha256")
  let tailChunks ← listItems (← field manifest "tail_chunks")
    (.format "tail manifest has no tail chunks")
  require (tailChunks ≠ []) (.format "tail manifest has no tail chunks")
  checkDescriptors "tail chunk descriptor" tailChunks
  return ⟨committed.toNat, base.toNat, reused.toNat, chunkCount.toNat, segment, tailChunks⟩

/-! ## Reading what was written -/

theorem filter_setField (key : Str) (value : Json) (fields : List (Str × Json)) :
    (setField key value fields).filter (fun f => f.1 ≠ key) = fields.filter fun f => f.1 ≠ key := by
  induction fields with
  | nil => simp [setField]
  | cons f rest ih =>
      obtain ⟨a, v⟩ := f
      simp only [setField]
      split_ifs with heq hlt
      · subst heq
        simp
      · simp
      · have ha : a ≠ key := fun h => heq h.symm
        simp only [List.filter_cons, ha, ne_eq, not_false_eq_true, decide_true, if_true]
        exact congrArg _ ih

theorem without_object {fields : List (Str × Json)} {key : Str} (value : Json)
    (h : key ∉ fields.map Prod.fst) :
    without (.object (fields ++ [(key, value)])) key = .object fields := by
  have hkeys : key ∉ (Json.object fields).keys := by rwa [mem_keys_object]
  unfold object at hkeys ⊢
  rw [List.foldl_append]
  show Json.obj ((setField key value _).filter _) = _
  rw [filter_setField, List.filter_eq_self.mpr]
  intro f hf
  rw [decide_eq_true_eq]
  rintro rfl
  exact hkeys (List.mem_map_of_mem hf)

theorem field_object {fields : List (Str × Json)} (h : (fields.map Prod.fst).Nodup) (key : Str) :
    field (.object fields) key = expect (getField key fields) .key := by
  rw [field, get?_object h]

/-! ## Chunk coverage -/

/-- The descriptors follow each other from one token to another; all but the last are full. -/
def Covers (chunkTokens : ℕ) : ℕ → List ChunkDescriptor → ℕ → Prop
  | start, [], stop => stop = start
  | start, d :: rest, stop =>
      (d.logicalStart = start ∧ start < d.logicalEnd ∧ d.logicalEnd ≤ start + chunkTokens ∧
        0 < d.bytes ∧ (rest ≠ [] → d.logicalEnd = start + chunkTokens)) ∧
        Covers chunkTokens d.logicalEnd rest stop

theorem ChunkDescriptor.nodup (d : ChunkDescriptor) : (d.fields.map Prod.fst).Nodup := by
  simp [fields]

theorem ChunkDescriptor.hasKeys (d : ChunkDescriptor) : d.json.hasKeys chunkDescriptorKeys = true := by
  simp [json, fields, chunkDescriptorKeys, hasKeys_object]

theorem ChunkDescriptor.plain (d : ChunkDescriptor) : d.json.Plain := by
  apply plain_object
  simp [fields]

theorem ChunkDescriptor.field_json (d : ChunkDescriptor) (key : Str) :
    field d.json key = expect (getField key d.fields) .key :=
  field_object d.nodup key

theorem readChunkDescriptor_json {chunkTokens start : ℕ} {isLast : Bool} {d : ChunkDescriptor}
    (hstart : d.logicalStart = start) (hpos : start < d.logicalEnd)
    (hle : d.logicalEnd ≤ start + chunkTokens) (hbytes : 0 < d.bytes)
    (hfull : isLast = false → d.logicalEnd = start + chunkTokens) :
    readChunkDescriptor chunkTokens start isLast d.json = .ok d := by
  unfold readChunkDescriptor
  simp only [bind_eq_ok, require_eq_ok, expect_eq_ok, strictKeys_eq_ok, d.field_json]
  refine ⟨(), rfl, (), d.hasKeys, d.sha256.json, by simp [ChunkDescriptor.fields, getField], d.sha256,
    by simp, .int d.bytes, by simp [ChunkDescriptor.fields, getField], d.bytes, rfl, (), by omega,
    .int d.logicalStart, by simp [ChunkDescriptor.fields, getField], d.logicalStart, rfl,
    .int d.logicalEnd, by simp [ChunkDescriptor.fields, getField], d.logicalEnd, rfl, (), by omega, (),
    ⟨by omega, fun h => ?_⟩, ?_⟩
  · have := hfull h
    omega
  · cases d
    cases hstart
    rfl

theorem readChunkDescriptors_json {chunkTokens stop : ℕ} (ds : List ChunkDescriptor) :
    ∀ {start : ℕ}, Covers chunkTokens start ds stop →
      readChunkDescriptors chunkTokens start (ds.map ChunkDescriptor.json) = .ok (ds, stop) := by
  induction ds with
  | nil =>
      intro start h
      rw [Covers] at h
      subst h
      rfl
  | cons d rest ih =>
      intro start h
      obtain ⟨⟨hstart, hpos, hle, hbytes, hfull⟩, hrest⟩ := h
      have hlast : (rest.map ChunkDescriptor.json).isEmpty = false →
          d.logicalEnd = start + chunkTokens := by
        intro hne
        apply hfull
        rintro rfl
        simp at hne
      rw [List.map_cons, readChunkDescriptors,
        readChunkDescriptor_json hstart hpos hle hbytes hlast]
      show (readChunkDescriptors chunkTokens d.logicalEnd (rest.map ChunkDescriptor.json) >>= _) = _
      rw [ih hrest]
      rfl

theorem readChunkDescriptor_eq_ok {chunkTokens start : ℕ} {isLast : Bool} {descriptor : Json}
    {d : ChunkDescriptor} (h : readChunkDescriptor chunkTokens start isLast descriptor = .ok d) :
    d.logicalStart = start ∧ start < d.logicalEnd ∧ d.logicalEnd ≤ start + chunkTokens ∧
      0 < d.bytes ∧ (isLast = false → d.logicalEnd = start + chunkTokens) := by
  unfold readChunkDescriptor at h
  simp only [bind_eq_ok, require_eq_ok] at h
  obtain ⟨_, -, _, -, _, -, _, -, _, -, bytes, -, _, hbytes, _, -, first, -, _, -, stop, -, _, hrange, _,
    ⟨hle, hfull⟩, h⟩ := h
  cases h
  refine ⟨rfl, by show start < stop.toNat; omega, by show stop.toNat ≤ _; omega,
    by show 0 < bytes.toNat; omega, fun hlast => ?_⟩
  have := hfull hlast
  show stop.toNat = _
  omega

theorem readChunkDescriptors_eq_ok {chunkTokens stop : ℕ} {items : List Json} :
    ∀ {start : ℕ} {ds : List ChunkDescriptor},
      readChunkDescriptors chunkTokens start items = .ok (ds, stop) →
        Covers chunkTokens start ds stop ∧ ds.length = items.length := by
  induction items with
  | nil =>
      intro start ds h
      cases h
      exact ⟨rfl, rfl⟩
  | cons item rest ih =>
      intro start ds h
      rw [readChunkDescriptors] at h
      simp only [bind_eq_ok] at h
      obtain ⟨d, hd, p, hp, h⟩ := h
      cases h
      obtain ⟨hcovers, hlength⟩ := ih hp
      obtain ⟨hstart, hpos, hle, hbytes, hfull⟩ := readChunkDescriptor_eq_ok hd
      refine ⟨⟨⟨hstart, hpos, hle, hbytes, fun hne => hfull ?_⟩, hcovers⟩, by simp [hlength]⟩
      rw [List.isEmpty_eq_false_iff]
      rintro rfl
      exact hne (List.length_eq_zero_iff.mp hlength)

theorem Covers.le {chunkTokens stop : ℕ} {ds : List ChunkDescriptor} :
    ∀ {start : ℕ}, Covers chunkTokens start ds stop → start ≤ stop := by
  induction ds with
  | nil =>
      intro start h
      exact h.ge
  | cons d rest ih =>
      intro start h
      have hrest := ih h.2
      have hpos := h.1.2.1
      omega

theorem Covers.pos {chunkTokens start stop : ℕ} {ds : List ChunkDescriptor}
    (h : Covers chunkTokens start ds stop) (hne : ds ≠ []) : start < stop := by
  cases ds with
  | nil => exact absurd rfl hne
  | cons d rest => exact lt_of_lt_of_le h.1.2.1 h.2.le

/-! ## Manifest identities -/

theorem dumpCanonical_wire {i : IdentityView} {key : Digest} (h : i.storageKey = .ok key) :
    ∃ encoded, dumpCanonical i.wire = .ok encoded ∧ key = sha256 encoded := by
  unfold IdentityView.storageKey at h
  split at h
  · rename_i encoded hencoded
    cases h
    exact ⟨encoded, dumpCanonical_eq_ok.mpr hencoded, rfl⟩
  · cases h

theorem sameWire_self {i : IdentityView} {key : Digest} (hplain : i.wire.Plain)
    (h : i.storageKey = .ok key) : sameWire i.wire i.wire = .ok true := by
  obtain ⟨encoded, hencoded, -⟩ := dumpCanonical_wire h
  rw [sameWire, if_pos (Plain.pyEq_self _ hplain), hencoded]
  show Except.ok (decide (encoded = encoded)) = _
  simp

theorem manifestJson_field (identity : Json) (contextDigest : Digest) (committedTokens : ℕ)
    (chunks : List Json) (key : Str) :
    field (manifestJson identity contextDigest committedTokens chunks) key =
      expect (getField key [("format_abi", .int formatAbi), ("identity", identity),
        ("context_digest", contextDigest.json), ("committed_tokens", .int committedTokens),
        ("chunks", .arr chunks)]) .key :=
  field_object (by simp) key

theorem CacheIdentity.integers (i : CacheIdentity) :
    ∀ name ∈ identityIntegers, (i.toWire.get? name).bind int? ≠ none := by
  intro name hname
  simp only [identityIntegers, List.mem_cons, List.not_mem_nil, or_false] at hname
  rcases hname with rfl | rfl | rfl | rfl | rfl <;>
    simp [i.get?_toWire, wireFields, getField, int?]

theorem checkManifestIdentity_json (i : CacheIdentity) {storageKey contextDigest : Digest}
    (hkey : i.view.storageKey = .ok storageKey) (committedTokens : ℕ) (chunks : List Json)
    {expected : Option IdentityView} (hexpected : ∀ e ∈ expected, e = i.view) :
    checkManifestIdentity (manifestJson i.toWire contextDigest committedTokens chunks)
      ⟨storageKey, contextDigest⟩ expected = .ok i.view := by
  have hcompatible : compatibleWire i.toWire expected = .ok true := by
    cases expected with
    | none => rfl
    | some e =>
        have he : e = i.view := hexpected e rfl
        subst he
        exact sameWire_self i.toWire_plain hkey
  unfold checkManifestIdentity
  simp only [bind_eq_ok, require_eq_ok, expect_eq_ok, manifestJson_field]
  exact ⟨i.toWire, by simp [getField], (), rfl, i.view, i.ofWire?_toWire, (), i.integers, (),
    Plain.pyEq_self _ i.toWire_plain, storageKey, hkey, true, hcompatible, .int formatAbi, by simp [getField],
    contextDigest.json, by simp [getField], (), ⟨rfl, rfl, rfl, rfl⟩, rfl⟩

theorem manifestJson_keys (identity : Json) (contextDigest : Digest) (committedTokens : ℕ)
    (chunks : List Json) :
    (manifestJson identity contextDigest committedTokens chunks).hasKeys
      ["format_abi", "identity", "context_digest", "committed_tokens", "chunks"] = true := by
  simp [manifestJson, hasKeys_object]

/-- A manifest that covers its tokens is accepted. -/
theorem validateManifestMetadata_json (i : CacheIdentity) {storageKey contextDigest : Digest}
    (hkey : i.view.storageKey = .ok storageKey) {committedTokens : ℕ} {chunks : List ChunkDescriptor}
    (hcovers : Covers i.chunkTokens 0 chunks committedTokens) (hne : chunks ≠ [])
    {expected : Option IdentityView} (hexpected : ∀ e ∈ expected, e = i.view) :
    validateManifestMetadata
      (manifestJson i.toWire contextDigest committedTokens (chunks.map ChunkDescriptor.json))
      ⟨storageKey, contextDigest⟩ expected =
        .ok ⟨i.toWire, contextDigest, committedTokens, chunks⟩ := by
  have hpos := hcovers.pos hne
  unfold validateManifestMetadata
  simp only [bind_eq_ok, require_eq_ok, expect_eq_ok, strictKeys_eq_ok, listItems_eq_ok,
    manifestJson_field]
  exact ⟨(), rfl, (), manifestJson_keys _ _ _ _, i.view,
    checkManifestIdentity_json i hkey committedTokens _ hexpected, .int committedTokens,
    by simp [getField], committedTokens, rfl, (), by omega,
    .arr (chunks.map ChunkDescriptor.json), by simp [getField], chunks.map ChunkDescriptor.json, rfl, (),
    by simpa using hne, (chunks, committedTokens), readChunkDescriptors_json chunks hcovers, (), rfl,
    i.toWire, by simp [getField], rfl⟩

theorem sameWire_eq_true {wire expected : Json} (h : sameWire wire expected = .ok true) :
    pyEq wire expected = true := by
  by_contra hne
  rw [sameWire, if_neg hne] at h
  cases h

/-- The chunk geometry of an accepted manifest is the expected identity's. -/
theorem checkManifestIdentity_chunkTokens {manifest : Json} {key : EntryKey} {i : CacheIdentity}
    {view : IdentityView} (h : checkManifestIdentity manifest key (some i.view) = .ok view) :
    view.chunkTokens = i.chunkTokens := by
  unfold checkManifestIdentity at h
  simp only [bind_eq_ok, require_eq_ok, expect_eq_ok] at h
  obtain ⟨wire, -, _, hobject, identity, hidentity, _, hintegers, _, -, _, -, compatible, hcompatible, _,
    -, _, -, _, hall, hview⟩ := h
  cases hview
  obtain rfl : compatible = true := hall.2.2.2
  obtain ⟨chunk, c, hchunk, hc, hview, hwire⟩ := IdentityView.ofWire?_chunkTokens hidentity
  have hint := hintegers "chunk_tokens" (by simp [identityIntegers])
  rw [hwire, Option.bind_some] at hint
  have hequal := sameWire_eq_true hcompatible
  have hexpected : i.toWire.get? "chunk_tokens" = some (.int i.chunkTokens) := by
    simp [i.get?_toWire, CacheIdentity.wireFields, getField]
  rcases pyEq_get? hequal hobject "chunk_tokens" with ⟨-, hnone⟩ | ⟨x, y, hx, hy, hxy⟩
  · rw [show i.view.wire = i.toWire from rfl, hexpected] at hnone
    cases hnone
  · rw [show i.view.wire = i.toWire from rfl, hexpected] at hy
    cases hy
    rw [hx, Option.getD_some] at hchunk
    subst hchunk
    cases chunk with
    | int n =>
        rw [pyEq_int, decide_eq_true_eq] at hxy
        subst hxy
        rw [wholeNumber?_int] at hc
        cases hc
        rw [hview, Int.toNat_natCast]
    | _ => exact absurd rfl hint

/-- What an accepted manifest is like. -/
theorem validateManifestMetadata_eq_ok {manifest : Json} {key : EntryKey} {i : CacheIdentity}
    {m : RowManifest} (h : validateManifestMetadata manifest key (some i.view) = .ok m) :
    m.contextDigest = key.contextDigest ∧ Covers i.chunkTokens 0 m.chunks m.committedTokens ∧
      m.chunks ≠ [] := by
  unfold validateManifestMetadata at h
  simp only [bind_eq_ok, require_eq_ok, expect_eq_ok, strictKeys_eq_ok, listItems_eq_ok] at h
  obtain ⟨_, -, _, -, view, hview, _, -, committed, -, _, hpos, _, -, items, -, _, hne, p, hp, _, hstop,
    wire, -, hm⟩ := h
  cases hm
  obtain ⟨hcovers, hlength⟩ := readChunkDescriptors_eq_ok hp
  rw [checkManifestIdentity_chunkTokens hview] at hcovers
  refine ⟨rfl, ?_, ?_⟩
  · have hcommitted : committed.toNat = p.2 := by omega
    rw [hcommitted]
    exact hcovers
  · intro hnil
    exact hne (List.length_eq_zero_iff.mp (hlength ▸ congrArg List.length hnil))

/-! ## Segments -/

theorem segment_nodup (storageKey : Digest) (parent : Option Digest) (first : ℕ)
    (descriptors : List Json) :
    (([("schema", .str prefixSegmentSchema), ("storage_key", storageKey.json),
      ("parent_sha256", optionalDigest parent), ("first_chunk_index", .int first),
      ("descriptors", .arr descriptors)] : List (Str × Json)).map Prod.fst).Nodup := by
  simp

theorem readParent_optionalDigest (parent : Option Digest) :
    readParent (optionalDigest parent) = .ok parent := by
  cases parent with
  | none => rfl
  | some d =>
      have hne : d.json ≠ .null := by simp [Hex.json]
      rw [optionalDigest, readParent, if_neg hne]
      simp [asFormat, validateDigest, expect, Except.mapError, Except.map]

theorem checkDescriptors_json (label : String) (ds : List ChunkDescriptor) :
    checkDescriptors label (ds.map ChunkDescriptor.json) = .ok () := by
  induction ds with
  | nil => rfl
  | cons d rest ih =>
      rw [List.map_cons, checkDescriptors, bind_eq_ok]
      refine ⟨(), require_of rfl, ?_⟩
      rw [bind_eq_ok]
      exact ⟨(), strictKeys_eq_ok.mpr d.hasKeys, ih⟩

theorem validatePrefixSegment_json {storageKey : Digest} {parent : Option Digest} {first : ℕ}
    {ds : List ChunkDescriptor} (hne : ds ≠ []) (hle : ds.length ≤ prefixSegmentDescriptors) :
    validatePrefixSegment (segmentJson storageKey parent first (ds.map ChunkDescriptor.json))
      storageKey first = .ok ⟨parent, ds.map ChunkDescriptor.json⟩ := by
  unfold validatePrefixSegment
  simp only [bind_eq_ok, require_eq_ok, expect_eq_ok, strictKeys_eq_ok, listItems_eq_ok, segmentJson,
    field_object (segment_nodup _ _ _ _)]
  refine ⟨(), rfl, (), by simp [hasKeys_object], .str prefixSegmentSchema, by simp [getField],
    storageKey.json, by simp [getField], .int first, by simp [getField], (), ⟨rfl, rfl, rfl⟩,
    optionalDigest parent, by simp [getField], parent, readParent_optionalDigest parent,
    .arr (ds.map ChunkDescriptor.json), by simp [getField], ds.map ChunkDescriptor.json, rfl, (),
    ⟨by simpa using hne, by simpa using hle⟩, (), checkDescriptors_json _ ds, rfl⟩

theorem segmentJson_plain (storageKey : Digest) (parent : Option Digest) (first : ℕ)
    (ds : List ChunkDescriptor) :
    (segmentJson storageKey parent first (ds.map ChunkDescriptor.json)).Plain := by
  have hparent : (optionalDigest parent).Plain := by
    cases parent with
    | none => exact plain_null
    | some d => exact plain_hex d
  have hchunks : (Json.arr (ds.map ChunkDescriptor.json)).Plain := by
    apply plain_arr
    intro x hx
    obtain ⟨d, -, rfl⟩ := List.mem_map.mp hx
    exact d.plain
  apply plain_object
  simp [prefixSegmentSchema, hparent, hchunks]

/-! ## Documents with a checksum -/

theorem withMetadata_eq_ok {fields : List (Str × Json)} {document : Json}
    (h : withMetadata fields = .ok document) :
    ∃ encoded, dumpCanonical (.object fields) = .ok encoded ∧
      document = .object (sealedFields fields (sha256 encoded)) := by
  unfold withMetadata at h
  rw [bind_eq_ok] at h
  obtain ⟨encoded, hencoded, h⟩ := h
  cases h
  exact ⟨encoded, hencoded, rfl⟩

section Metadata
variable {fields : List (Str × Json)} {checksum : Digest}
  (hnodup : ((sealedFields fields checksum).map Prod.fst).Nodup)
include hnodup

theorem field_sealed {key : Str} {value : Json} (h : getField key fields = some value) :
    field (.object (sealedFields fields checksum)) key = .ok value := by
  rw [field_object hnodup, sealedFields, getField_append, h]
  rfl

theorem metadata_fresh : ("metadata_sha256" : Str) ∉ fields.map Prod.fst := by
  rw [sealedFields, List.map_append, List.nodup_append] at hnodup
  intro hmem
  exact hnodup.2.2 _ hmem _ (by simp) rfl

theorem field_metadata :
    field (.object (sealedFields fields checksum)) "metadata_sha256" = .ok checksum.json := by
  have hnone : getField ("metadata_sha256" : Str) fields = none := by
    rw [← Option.not_isSome_iff_eq_none, getField_isSome]
    exact metadata_fresh hnodup
  rw [field_object hnodup, sealedFields, getField_append, hnone]
  simp [getField, expect]

theorem metadataDigest_sealed {encoded : Bytes}
    (hencoded : dumpCanonical (.object fields) = .ok encoded) :
    metadataDigest (.object (sealedFields fields checksum)) = .ok (sha256 encoded) := by
  rw [metadataDigest, sealedFields, without_object _ (metadata_fresh hnodup), hencoded]
  rfl

end Metadata

theorem validateDigest_json (d : Digest) (name : String) :
    asFormat (validateDigest d.json name) = .ok d := by
  simp

theorem withMetadata_plain {fields : List (Str × Json)} {document : Json}
    (h : withMetadata fields = .ok document)
    (hfields : ∀ f ∈ fields, f.1.encodable = true ∧ Json.Plain f.2) : document.Plain := by
  obtain ⟨encoded, -, rfl⟩ := withMetadata_eq_ok h
  apply plain_object
  intro f hf
  rcases List.mem_append.mp hf with hf | hf
  · exact hfields f hf
  · rw [List.mem_singleton.mp hf]
    exact ⟨Str.encodable_ofString _, plain_hex _⟩

/-! ## Aliases -/

theorem aliasFields_nodup (identity : Json) (context : Digest) (root : PrefixAlias)
    (source checksum : Digest) :
    ((sealedFields (aliasFields identity context root source) checksum).map Prod.fst).Nodup := by
  simp [sealedFields, aliasFields]

theorem aliasFields_plain {identity : Json} (h : identity.Plain) (context : Digest)
    (root : PrefixAlias) (source : Digest) :
    ∀ f ∈ aliasFields identity context root source, f.1.encodable = true ∧ Json.Plain f.2 := by
  simp [aliasFields, prefixAliasSchema, h]

theorem validatePrefixAlias_json {identity : IdentityView} (hplain : identity.wire.Plain)
    {context source : Digest} {root : PrefixAlias} {document : Json}
    (h : withMetadata (aliasFields identity.wire context root source) = .ok document)
    (htokens : 0 < root.committedTokens) (hcount : 0 < root.chunkCount) :
    validatePrefixAlias document identity context = .ok root := by
  obtain ⟨encoded, hencoded, rfl⟩ := withMetadata_eq_ok h
  have hnodup := aliasFields_nodup identity.wire context root source (sha256 encoded)
  have hfield : ∀ {key : Str} {value : Json},
      getField key (aliasFields identity.wire context root source) = some value →
        field (.object (sealedFields (aliasFields identity.wire context root source)
          (sha256 encoded))) key = .ok value := field_sealed hnodup
  unfold validatePrefixAlias
  simp only [bind_eq_ok, require_eq_ok, expect_eq_ok, strictKeys_eq_ok]
  refine ⟨(), rfl, (), by simp [sealedFields, aliasFields, aliasKeys, hasKeys_object],
    .str prefixAliasSchema, hfield (by simp [aliasFields, getField]),
    .int formatAbi, hfield (by simp [aliasFields, getField]),
    .str "per_token_rows", hfield (by simp [aliasFields, getField]),
    identity.wire, hfield (by simp [aliasFields, getField]),
    context.json, hfield (by simp [aliasFields, getField]),
    (), ⟨rfl, rfl, rfl, Plain.pyEq_self _ hplain, rfl⟩,
    .int root.committedTokens, hfield (by simp [aliasFields, getField]), root.committedTokens, rfl,
    .int root.chunkCount, hfield (by simp [aliasFields, getField]), root.chunkCount, rfl, (), by omega,
    root.tailSegment.json, hfield (by simp [aliasFields, getField]), _, validateDigest_json _ _,
    source.json, hfield (by simp [aliasFields, getField]), _, validateDigest_json _ _,
    (sha256 encoded).json, field_metadata hnodup, _, validateDigest_json _ _,
    _, metadataDigest_sealed hnodup hencoded, (), rfl, rfl⟩

/-! ## Tail roots -/

theorem tailFields_nodup (identity : Json) (context base manifest : Digest) (root : TailRoot)
    (checksum : Digest) :
    ((sealedFields (tailFields identity context base manifest root) checksum).map
      Prod.fst).Nodup := by
  simp [sealedFields, tailFields]

theorem optionalDigest_plain (d : Option Digest) : (optionalDigest d).Plain := by
  cases d with
  | none => exact plain_null
  | some d => exact plain_hex d

theorem descriptors_plain (ds : List ChunkDescriptor) :
    (Json.arr (ds.map ChunkDescriptor.json)).Plain := by
  apply plain_arr
  intro x hx
  obtain ⟨d, -, rfl⟩ := List.mem_map.mp hx
  exact d.plain

theorem tailFields_plain {identity : Json} (h : identity.Plain) (context base manifest : Digest)
    {root : TailRoot} {ds : List ChunkDescriptor}
    (hchunks : root.tailChunks = ds.map ChunkDescriptor.json) :
    ∀ f ∈ tailFields identity context base manifest root,
      f.1.encodable = true ∧ Json.Plain f.2 := by
  simp [tailFields, tailManifestSchema, h, hchunks, optionalDigest_plain, descriptors_plain]

/-- The base chain of a root has its digest if and only if it has chunks. -/
def TailRoot.Rooted (root : TailRoot) : Prop := root.baseTailSegment = none ↔ root.baseChunkCount = 0

theorem readBaseSegment_optionalDigest {root : TailRoot} (h : root.Rooted) :
    readBaseSegment root.baseChunkCount (optionalDigest root.baseTailSegment) =
      .ok root.baseTailSegment := by
  unfold readBaseSegment
  cases hsegment : root.baseTailSegment with
  | none =>
      rw [h.mp hsegment]
      rfl
  | some d =>
      have hcount : (root.baseChunkCount : ℤ) ≠ 0 := by
        intro hzero
        have hnone := h.mpr (by exact_mod_cast hzero)
        rw [hsegment] at hnone
        cases hnone
      rw [if_neg hcount]
      show (asFormat (validateDigest d.json _)).map some = _
      rw [validateDigest_json]
      rfl

theorem validateTailManifestRoot_json {identity : IdentityView} (hplain : identity.wire.Plain)
    (hschema : identity.publicationSchema = .tailCowV1) {context base manifest : Digest}
    {root : TailRoot} {ds : List ChunkDescriptor} {document : Json}
    (h : withMetadata (tailFields identity.wire context base manifest root) = .ok document)
    (hgeometry : tailGeometry identity.chunkTokens root.committedTokens root.baseCommittedTokens
      root.reusedTokens root.baseChunkCount)
    (hrooted : root.Rooted) (hchunks : root.tailChunks = ds.map ChunkDescriptor.json) (hne : ds ≠ []) :
    validateTailManifestRoot document identity context = .ok root := by
  obtain ⟨encoded, hencoded, rfl⟩ := withMetadata_eq_ok h
  have hnodup := tailFields_nodup identity.wire context base manifest root (sha256 encoded)
  have hfield : ∀ {key : Str} {value : Json},
      getField key (tailFields identity.wire context base manifest root) = some value →
        field (.object (sealedFields (tailFields identity.wire context base manifest root)
          (sha256 encoded))) key = .ok value := field_sealed hnodup
  have hcheck : checkDescriptors "tail chunk descriptor" root.tailChunks = .ok () :=
    hchunks ▸ checkDescriptors_json _ ds
  have htail : root.tailChunks ≠ [] := by
    rw [hchunks]
    simpa using hne
  unfold validateTailManifestRoot
  simp only [bind_eq_ok, require_eq_ok, expect_eq_ok, strictKeys_eq_ok, listItems_eq_ok]
  refine ⟨(), rfl, (), by simp [sealedFields, tailFields, tailKeys, hasKeys_object],
    base.json, hfield (by simp [tailFields, getField]), _, validateDigest_json _ _,
    manifest.json, hfield (by simp [tailFields, getField]), _, validateDigest_json _ _,
    (sha256 encoded).json, field_metadata hnodup, _, validateDigest_json _ _,
    _, metadataDigest_sealed hnodup hencoded, (), rfl,
    .str tailManifestSchema, hfield (by simp [tailFields, getField]),
    .int formatAbi, hfield (by simp [tailFields, getField]),
    identity.wire, hfield (by simp [tailFields, getField]),
    context.json, hfield (by simp [tailFields, getField]),
    (), ⟨rfl, rfl, hschema, Plain.pyEq_self _ hplain, rfl⟩,
    .int root.committedTokens, hfield (by simp [tailFields, getField]), root.committedTokens, rfl,
    .int root.baseCommittedTokens, hfield (by simp [tailFields, getField]), root.baseCommittedTokens,
    rfl, .int root.reusedTokens, hfield (by simp [tailFields, getField]), root.reusedTokens, rfl,
    .int root.baseChunkCount, hfield (by simp [tailFields, getField]), root.baseChunkCount, rfl,
    (), hgeometry, optionalDigest root.baseTailSegment, hfield (by simp [tailFields, getField]),
    root.baseTailSegment, readBaseSegment_optionalDigest hrooted,
    .arr root.tailChunks, hfield (by simp [tailFields, getField]), root.tailChunks, rfl, (), htail, (),
    hcheck, rfl⟩

end SparkCache.Store
