import SparkCache.Pages.Delta
import SparkCache.Store.Manifest

/-!
# Page roots

Snapshot roots and delta roots, with the object descriptors that they list. A
delta root embeds the whole root of its base. The three manifest versions keep
the delta as row chunks, as objects, or as one or more stages of objects.
-/
namespace SparkCache.Store

open Json Pages

def pageDeltaManifestSchema : Str := "sparkcache-page-delta-manifest/v1"

def pageDeltaManifestSchemaV2 : Str := "sparkcache-page-delta-manifest/v2"

def pageDeltaManifestSchemaV3 : Str := "sparkcache-page-delta-manifest/v3"

def pageSnapshotManifestSchema : Str := "sparkcache-page-snapshot-manifest/v2"

/-- 64 MiB -/
def pageObjectBytes : ℕ := 64 * 1024 * 1024

/-- `_MAX_PAGE_DELTA_DEPTH` -/
def maxPageDeltaDepth : ℕ := 2

/-- `_is_page_delta_root` -/
def isPageDeltaRoot (value : Json) : Bool :=
  value.get? "schema" ∈ [some (.str pageDeltaManifestSchema), some (.str pageDeltaManifestSchemaV2),
    some (.str pageDeltaManifestSchemaV3)]

/-- `_is_page_snapshot_root` -/
def isPageSnapshotRoot (value : Json) : Bool :=
  value.get? "schema" = some (.str pageSnapshotManifestSchema)

/-- `_payload_integrity` -/
def payloadIntegrity : PublicationSchema → Integrity
  | .pageTailCowV3Fast => .fast
  | .pageTailCowV3None => .none
  | _ => .sha256

/-! ## Object descriptors -/

structure ObjectDescriptor where
  sha256 : Digest
  bytes : ℕ
  encodedStart : ℕ
  /-- Absent where the digest is the check; null where there is no check. -/
  crc32 : Option (Option ℕ)
  deriving DecidableEq

namespace ObjectDescriptor

def encodedEnd (d : ObjectDescriptor) : ℕ := d.encodedStart + d.bytes

def fields (d : ObjectDescriptor) : List (Str × Json) :=
  List.append [("sha256", d.sha256.json), ("bytes", .int d.bytes),
      ("encoded_start", .int d.encodedStart), ("encoded_end", .int d.encodedEnd)]
    (match d.crc32 with
      | none => []
      | some none => [("crc32", .null)]
      | some (some crc) => [("crc32", .int crc)])

def json (d : ObjectDescriptor) : Json := .object d.fields

/-- `_descriptor_integrity` -/
def integrity (d : ObjectDescriptor) : Integrity :=
  match d.crc32 with
  | none => .sha256
  | some none => .none
  | some (some _) => .fast

/-- `_payload_matches_descriptor` -/
def matchesPayload (d : ObjectDescriptor) (encoded : Bytes) : Bool :=
  encoded.length = d.bytes &&
    match d.crc32 with
    | none => SparkCache.sha256 encoded = d.sha256
    | some none => true
    | some (some crc) => Crc32.checksum encoded = crc

end ObjectDescriptor

def objectDescriptorKeys : List Str := ["sha256", "bytes", "encoded_start", "encoded_end"]

/-- The CRC32 of a descriptor, if it has one. -/
def readCrc32 (descriptor : Json) (label : String) : Except StoreError (Option (Option ℕ)) :=
  match descriptor.get? "crc32" with
  | none => .ok none
  | some .null => .ok (some none)
  | some (.int crc) =>
      if 0 ≤ crc ∧ crc ≤ 0xffffffff then .ok (some (some crc.toNat))
      else .error (.format (label ++ " crc32 is invalid"))
  | some _ => .error (.format (label ++ " crc32 is invalid"))

/-- `_validate_object_descriptor_keys`; descriptors of the second manifest version have no CRC32. -/
def validateObjectDescriptorKeys (checked : Bool) (descriptor : Json) (label : String) :
    Except StoreError (Option (Option ℕ)) :=
  if checked = true then do
    let crc ← readCrc32 descriptor label
    strictKeys descriptor
      (if crc = none then objectDescriptorKeys else objectDescriptorKeys.append ["crc32"]) label
    return crc
  else do
    strictKeys descriptor objectDescriptorKeys label
    return none

/-- One object of an encoded stream; all but the last have the full size. -/
def readObjectDescriptor (checked : Bool) (label : String) (objectBytes expectedStart : ℕ)
    (isLast : Bool) (descriptor : Json) : Except StoreError ObjectDescriptor := do
  require (descriptor.isObject = true) (.format (label ++ " is not an object"))
  let crc32 ← validateObjectDescriptorKeys checked descriptor label
  let sha256 ← asFormat (validateDigest (← field descriptor "sha256") (label ++ " sha256"))
  let differs : StoreError := .format (label ++ " geometry differs")
  let size ← expect (← field descriptor "bytes").int? differs
  let start ← expect (← field descriptor "encoded_start").int? differs
  let stop ← expect (← field descriptor "encoded_end").int? differs
  require (0 < size ∧ start = expectedStart ∧ stop = start + size ∧
    (isLast = false → size = objectBytes) ∧ size ≤ objectBytes) differs
  return ⟨sha256, size.toNat, expectedStart, crc32⟩

/-- The objects of an encoded stream and its length. -/
def readObjectDescriptors (checked : Bool) (label : String) (objectBytes expectedStart : ℕ) :
    List Json → Except StoreError (List ObjectDescriptor × ℕ)
  | [] => .ok ([], expectedStart)
  | descriptor :: rest => do
      let d ← readObjectDescriptor checked label objectBytes expectedStart rest.isEmpty descriptor
      let (ds, stop) ← readObjectDescriptors checked label objectBytes d.encodedEnd rest
      return (d :: ds, stop)

/-! ## Snapshot roots -/

structure PageSnapshotRoot where
  committedTokens : ℕ
  encodedBytes : ℕ
  objects : List ObjectDescriptor
  snapshotDigest : Digest

def pageSnapshotKeys : List Str :=
  ["schema", "format_abi", "storage_mode", "identity", "context_digest", "committed_tokens",
    "snapshot_encoded_bytes", "snapshot_object_bytes", "snapshot_objects", "snapshot_sha256",
    "logical_chunk_tokens", "logical_chunk_count", "metadata_sha256"]

/-- The records of a page snapshot. -/
def hasPageRecords (records : List StateRecord) : Bool :=
  (.targetCkv ∈ records) && (.logicalPositions ∈ records) &&
    records.all fun record => record = .targetCkv ∨ record = .logicalPositions

/-- `_validate_page_snapshot_root` -/
def validatePageSnapshotRoot (manifest : Json) (identity : IdentityView) (contextDigest : Json) :
    Except StoreError PageSnapshotRoot := do
  require (manifest.isObject = true) (.format "page snapshot manifest is not an object")
  strictKeys manifest pageSnapshotKeys "page snapshot manifest"
  let metadata ← asFormat (validateDigest (← field manifest "metadata_sha256")
    "page snapshot metadata_sha256")
  let snapshotDigest ← asFormat (validateDigest (← field manifest "snapshot_sha256")
    "page snapshot sha256")
  require ((← metadataDigest manifest) = metadata)
    (.format "page snapshot metadata checksum mismatch")
  require ((← field manifest "schema") = .str pageSnapshotManifestSchema ∧
      (← field manifest "format_abi") = .int formatAbi ∧
      (← field manifest "storage_mode") = .str "block_pages_v1" ∧
      (identity.publicationSchema = .unnamed ∨ identity.publicationSchema.isPageTail = true) ∧
      hasPageRecords identity.requiredRecords = true ∧
      pyEq (← field manifest "identity") identity.wire = true ∧
      pyEq (← field manifest "context_digest") contextDigest = true)
    (.incompatible "page snapshot manifest identity differs")
  let differs : StoreError := .format "page snapshot object geometry differs"
  let committed ← expect (← field manifest "committed_tokens").int? differs
  let encodedBytes ← expect (← field manifest "snapshot_encoded_bytes").int? differs
  let objectBytes ← expect (← field manifest "snapshot_object_bytes").int? differs
  let chunkCount ← expect (← field manifest "logical_chunk_count").int? differs
  require (0 < committed ∧ committed % identity.chunkTokens = 0 ∧ 0 < encodedBytes ∧
    0 < objectBytes ∧ objectBytes ≤ pageObjectBytes ∧
    pyEq (← field manifest "logical_chunk_tokens") (.int identity.chunkTokens) = true ∧
    chunkCount = committed / identity.chunkTokens) differs
  let items ← listItems (← field manifest "snapshot_objects")
    (.format "page snapshot object descriptors are invalid")
  require (items ≠ []) (.format "page snapshot object descriptors are invalid")
  let (objects, stop) ← readObjectDescriptors true "page snapshot object descriptor"
    objectBytes.toNat 0 items
  require (stop = encodedBytes) (.format "page snapshot object coverage differs")
  return ⟨committed.toNat, encodedBytes.toNat, objects, snapshotDigest⟩

/-! ## Delta roots -/

/-- One stage of a flat history. -/
structure StageRoot where
  committedTokens : ℤ
  baseCommittedTokens : ℤ
  baseBlockCounts : Json
  resultBlockCounts : Json
  encodedBytes : ℕ
  objects : List ObjectDescriptor
  /-- Bound by the root where the first object is not content-addressed. -/
  headerDigest : Option Digest

/-- How a delta root keeps its delta. -/
inductive DeltaBody where
  | chunks (descriptors : List ChunkDescriptor)
  | objects (encodedBytes : ℕ) (descriptors : List ObjectDescriptor) (payloadDigest : Digest)
  | stages (items : List StageRoot)

structure PageDeltaRoot where
  contextDigest : Json
  committedTokens : ℤ
  baseContextDigest : Digest
  baseCommittedTokens : ℤ
  baseRoot : Json
  baseRootDigest : Digest
  layoutDigest : Digest
  baseBlockCounts : List Json
  resultBlockCounts : List Json
  body : DeltaBody

/-- What any root lists: a row chunk or an object. -/
inductive Descriptor where
  | chunk (d : ChunkDescriptor)
  | object (d : ObjectDescriptor)

def Descriptor.digest : Descriptor → Digest
  | chunk d => d.sha256
  | object d => d.sha256

def Descriptor.bytes : Descriptor → ℕ
  | chunk d => d.bytes
  | object d => d.bytes

/-- `_payload_matches_descriptor` -/
def Descriptor.matchesPayload (d : Descriptor) (encoded : Bytes) : Bool :=
  match d with
  | chunk d => encoded.length = d.bytes && sha256 encoded = d.sha256
  | object d => d.matchesPayload encoded

def DeltaBody.descriptors : DeltaBody → List Descriptor
  | chunks ds => ds.map .chunk
  | objects _ ds _ => ds.map .object
  | stages items => items.flatMap fun stage => stage.objects.map .object

/-- The state of the walk over the stages: what the next stage must start from. -/
structure StageCursor where
  digest : Json
  tokens : ℤ
  counts : Json

def stageKeys : List Str :=
  ["context_digest", "committed_tokens", "base_context_digest", "base_committed_tokens",
    "base_block_counts", "result_block_counts", "delta_encoded_bytes", "delta_object_bytes",
    "delta_objects", "delta_sha256"]

/-- `stage["header_sha256"]` where the schema has it. -/
def readHeaderDigest (schema : PublicationSchema) (stage : Json) :
    Except StoreError (Option Digest) :=
  if schema = .pageTailCowV2 then .ok none
  else do
    return some (← asFormat (validateDigest (← field stage "header_sha256") "stage header sha256"))

/-- One stage, and the cursor behind it. -/
def readStage (schema : PublicationSchema) (groups : ℕ) (prior : StageCursor) (stage : Json) :
    Except StoreError (StageRoot × StageCursor) := do
  require (stage.isObject = true) (.format "flat page delta stage is not an object")
  strictKeys stage
    (if schema = .pageTailCowV2 then stageKeys else stageKeys.append ["header_sha256"])
    "flat page delta stage"
  let context ← asFormat (validateDigest (← field stage "context_digest") "stage context digest")
  let _ ← asFormat (validateDigest (← field stage "delta_sha256") "stage delta sha256")
  let headerDigest ← readHeaderDigest schema stage
  let differs : StoreError := .format "flat page delta stage geometry differs"
  let committed ← expect (← field stage "committed_tokens").int? differs
  let resultCounts ← listItems (← field stage "result_block_counts") differs
  let encodedBytes ← expect (← field stage "delta_encoded_bytes").int? differs
  let items ← listItems (← field stage "delta_objects") differs
  require (pyEq (← field stage "base_context_digest") prior.digest = true ∧
    pyEq (← field stage "base_committed_tokens") (.int prior.tokens) = true ∧
    pyEq (← field stage "base_block_counts") prior.counts = true ∧
    prior.tokens < committed ∧ resultCounts.length = groups ∧ 0 < encodedBytes ∧
    pyEq (← field stage "delta_object_bytes") (.int pageObjectBytes) = true ∧ items ≠ []) differs
  let (objects, stop) ← readObjectDescriptors true "flat page delta object descriptor"
    pageObjectBytes 0 items
  require (stop = encodedBytes) (.format "flat page delta object coverage differs")
  return (⟨committed, prior.tokens, ← field stage "base_block_counts", .arr resultCounts,
    encodedBytes.toNat, objects, headerDigest⟩, ⟨context.json, committed, .arr resultCounts⟩)

def readStages (schema : PublicationSchema) (groups : ℕ) (prior : StageCursor) :
    List Json → Except StoreError (List StageRoot × StageCursor)
  | [] => .ok ([], prior)
  | item :: rest => do
      let (stage, cursor) ← readStage schema groups prior item
      let (stages, last) ← readStages schema groups cursor rest
      return (stage :: stages, last)

/-- The keys that the three versions share. -/
def pageDeltaKeys : List Str :=
  ["schema", "format_abi", "identity", "context_digest", "committed_tokens", "base_context_digest",
    "base_committed_tokens", "base_root", "base_root_sha256", "layout_sha256", "base_block_counts",
    "result_block_counts", "metadata_sha256"]

/-- The third version: a flat history. -/
def validateFlatPageDelta (manifest : Json) (identity : IdentityView) (contextDigest : Json) :
    Except StoreError PageDeltaRoot := do
  strictKeys manifest (pageDeltaKeys.append ["delta_stages", "logical_chunk_tokens"])
    "flat page delta manifest"
  let metadata ← asFormat (validateDigest (← field manifest "metadata_sha256")
    "flat page delta metadata_sha256")
  let _ ← asFormat (validateDigest (← field manifest "context_digest")
    "flat page delta context_digest")
  let baseContext ← asFormat (validateDigest (← field manifest "base_context_digest")
    "flat page delta base_context_digest")
  let baseRootDigest ← asFormat (validateDigest (← field manifest "base_root_sha256")
    "flat page delta base_root_sha256")
  let layoutDigest ← asFormat (validateDigest (← field manifest "layout_sha256")
    "flat page delta layout_sha256")
  let baseRoot ← field manifest "base_root"
  require ((← metadataDigest manifest) = metadata ∧
      pyEq (← field manifest "format_abi") (.int formatAbi) = true ∧
      identity.publicationSchema.isFlatPage = true ∧
      pyEq (← field manifest "identity") identity.wire = true ∧
      pyEq (← field manifest "context_digest") contextDigest = true ∧
      pyEq (← field manifest "logical_chunk_tokens") (.int identity.chunkTokens) = true ∧
      baseRoot.isObject = true ∧ sha256 (← dumpCanonical baseRoot) = baseRootDigest)
    (.incompatible "flat page delta manifest identity differs")
  let differs : StoreError := .format "flat page delta geometry differs"
  let baseTokens ← expect (← field manifest "base_committed_tokens").int? differs
  let committed ← expect (← field manifest "committed_tokens").int? differs
  let baseCounts ← listItems (← field manifest "base_block_counts") differs
  let resultCounts ← listItems (← field manifest "result_block_counts") differs
  let items ← listItems (← field manifest "delta_stages") differs
  require (¬(committed ≤ baseTokens ∧ baseTokens ≤ 0) ∧ baseCounts ≠ [] ∧
    resultCounts.length = baseCounts.length ∧ items ≠ []) differs
  let (stages, last) ← readStages identity.publicationSchema baseCounts.length
    ⟨baseContext.json, baseTokens, .arr baseCounts⟩ items
  require (pyEq last.digest (← field manifest "context_digest") = true ∧
      last.tokens = committed ∧ pyEq last.counts (.arr resultCounts) = true)
    (.format "flat page delta terminal stage differs")
  return ⟨← field manifest "context_digest", committed, baseContext, baseTokens, baseRoot,
    baseRootDigest, layoutDigest, baseCounts, resultCounts, .stages stages⟩

/-- The delta of the first version: row chunks under a synthetic manifest. -/
def readDeltaChunks (manifest : Json) (identity : IdentityView) (contextDigest : Json) :
    Except StoreError DeltaBody := do
  let context ← expect (Hex.ofJson? contextDigest) (.format "manifest identity differs")
  let synthetic : Json := .object [("format_abi", .int formatAbi), ("identity", identity.wire),
    ("context_digest", contextDigest), ("committed_tokens", ← field manifest "committed_tokens"),
    ("chunks", ← field manifest "delta_chunks")]
  let rows ← validateManifestMetadata synthetic ⟨← identity.storageKey, context⟩ (some identity)
  return .chunks rows.chunks

/-- The delta of the second version: one stream of objects. -/
def readDeltaObjects (manifest : Json) (identity : IdentityView) : Except StoreError DeltaBody := do
  let payloadDigest ← asFormat (validateDigest (← field manifest "delta_sha256")
    "page delta payload sha256")
  let differs : StoreError := .format "page delta object geometry differs"
  let encodedBytes ← expect (← field manifest "delta_encoded_bytes").int? differs
  let objectBytes ← expect (← field manifest "delta_object_bytes").int? differs
  require (0 < encodedBytes ∧ 0 < objectBytes ∧ objectBytes ≤ pageObjectBytes ∧
    pyEq (← field manifest "logical_chunk_tokens") (.int identity.chunkTokens) = true) differs
  let items ← listItems (← field manifest "delta_objects")
    (.format "page delta object descriptors are invalid")
  require (items ≠ []) (.format "page delta object descriptors are invalid")
  let (objects, stop) ← readObjectDescriptors false "page delta object descriptor"
    objectBytes.toNat 0 items
  require (stop = encodedBytes) (.format "page delta object coverage differs")
  return .objects encodedBytes.toNat objects payloadDigest

/-- The first two versions: one delta over a base. -/
def validateSinglePageDelta (manifest : Json) (identity : IdentityView) (contextDigest : Json)
    (deltaKeys : List Str) (readBody : Except StoreError DeltaBody) :
    Except StoreError PageDeltaRoot := do
  strictKeys manifest (pageDeltaKeys ++ deltaKeys) "page delta manifest"
  let metadata ← asFormat (validateDigest (← field manifest "metadata_sha256")
    "page delta metadata_sha256")
  let baseContext ← asFormat (validateDigest (← field manifest "base_context_digest")
    "base_context_digest")
  let baseRootDigest ← asFormat (validateDigest (← field manifest "base_root_sha256")
    "base_root_sha256")
  let layoutDigest ← asFormat (validateDigest (← field manifest "layout_sha256") "layout_sha256")
  require ((← metadataDigest manifest) = metadata) (.format "page delta metadata checksum mismatch")
  require (pyEq (← field manifest "format_abi") (.int formatAbi) = true ∧
      identity.publicationSchema = .pageTailCowV1 ∧
      pyEq (← field manifest "identity") identity.wire = true ∧
      pyEq (← field manifest "context_digest") contextDigest = true)
    (.incompatible "page delta manifest identity differs")
  let differs : StoreError := .format "page delta manifest geometry differs"
  let committed ← expect (← field manifest "committed_tokens").int? differs
  let baseTokens ← expect (← field manifest "base_committed_tokens").int? differs
  let baseRoot ← field manifest "base_root"
  require (¬(committed ≤ baseTokens ∧ baseTokens ≤ 0) ∧ baseRoot.isObject = true) differs
  require (sha256 (← dumpCanonical baseRoot) = baseRootDigest) differs
  let baseCounts ← listItems (← field manifest "base_block_counts") differs
  let resultCounts ← listItems (← field manifest "result_block_counts") differs
  require (baseCounts ≠ [] ∧ baseCounts.length = resultCounts.length) differs
  return ⟨← field manifest "context_digest", committed, baseContext, baseTokens, baseRoot,
    baseRootDigest, layoutDigest, baseCounts, resultCounts, ← readBody⟩

/-- `_validate_page_delta_root` -/
def validatePageDeltaRoot (manifest : Json) (identity : IdentityView) (contextDigest : Json) :
    Except StoreError PageDeltaRoot := do
  require (manifest.isObject = true) (.format "page delta manifest is not an object")
  let schema := manifest.get? "schema"
  if schema = some (.str pageDeltaManifestSchemaV3) then
    validateFlatPageDelta manifest identity contextDigest
  else if schema = some (.str pageDeltaManifestSchema) then
    validateSinglePageDelta manifest identity contextDigest ["delta_chunks"]
      (readDeltaChunks manifest identity contextDigest)
  else if schema = some (.str pageDeltaManifestSchemaV2) then
    validateSinglePageDelta manifest identity contextDigest
      ["delta_encoded_bytes", "delta_object_bytes", "delta_objects", "delta_sha256",
        "logical_chunk_tokens"]
      (readDeltaObjects manifest identity)
  else .error (.incompatible "page delta manifest schema differs")

/-- The descriptors of a root that is not a delta. -/
def flatRootDescriptors (root : Json) (identity : IdentityView) (contextDigest : Digest) :
    Except StoreError (List Descriptor) :=
  if isPageSnapshotRoot root = true then do
    return (← validatePageSnapshotRoot root identity contextDigest.json).objects.map .object
  else do
    let key : EntryKey := ⟨← identity.storageKey, contextDigest⟩
    return (← validateManifestMetadata root key (some identity)).chunks.map .chunk

/-- `_page_graph_descriptors` with the number of delta roots that may still follow. -/
def pageGraphDescriptors (identity : IdentityView) :
    ℕ → Json → Digest → Except StoreError (List Descriptor)
  | 0, _, _ => .error (.format "page delta graph exceeds the depth limit")
  | depth + 1, manifest, contextDigest => do
      let root ← validatePageDeltaRoot manifest identity contextDigest.json
      let base ← (if isPageDeltaRoot root.baseRoot = true then
          pageGraphDescriptors identity depth root.baseRoot root.baseContextDigest
        else flatRootDescriptors root.baseRoot identity root.baseContextDigest)
      require (pyEq ((root.baseRoot.get? "committed_tokens").getD .null)
          (.int root.baseCommittedTokens) = true)
        (.format "page delta base boundary differs")
      return base ++ root.body.descriptors

end SparkCache.Store
