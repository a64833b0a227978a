import SparkCache.Store.PageRoot

/-!
# Lookup and restore

Reading a root, the segments that it names and the chunks that they describe.
Nothing here changes a file, so a reader is a function of the files.
-/
namespace SparkCache.Store

open Json Pages

/-! ## Descriptor chains -/

/-- Segments needed for so many chunks -/
def segmentCount (chunkCount : ℕ) : ℕ :=
  (chunkCount + prefixSegmentDescriptors - 1) / prefixSegmentDescriptors

/-- One segment of a chain, which must hash to its name. -/
def readSegment (files : Disk) (storageKey : Digest) (index : ℕ) (isTail : Bool) (digest : Digest) :
    Except StoreError PrefixSegment := do
  let encoded ← readBytes files (.prefixSegment storageKey digest)
  require (sha256 encoded = digest) (.format "descriptor segment checksum mismatch")
  let segment ← validatePrefixSegment (← loadJson encoded "descriptor segment is not JSON") storageKey
    (index * prefixSegmentDescriptors)
  require (isTail = false → segment.descriptors.length = prefixSegmentDescriptors)
    (.format "non-tail descriptor segment is incomplete")
  return segment

/-- Walk from the last segment to the first; the result is in the order of the chunks. -/
def readSegments (files : Disk) (storageKey : Digest) (visited : List Digest) (isTail : Bool) :
    ℕ → Digest → Except StoreError (List Json)
  | 0, _ => .error (.format "descriptor chain has an extra parent")
  | index + 1, digest => do
      require (digest ∉ visited) (.format "descriptor chain contains a cycle")
      let segment ← readSegment files storageKey index isTail digest
      if index = 0 then
        require (segment.parent = none) (.format "descriptor chain has an extra parent")
        return segment.descriptors
      else
        let parent ← expect segment.parent (.format "descriptor chain is truncated")
        return (← readSegments files storageKey (digest :: visited) false index parent) ++
          segment.descriptors

/-- `_read_descriptor_chain` -/
def readDescriptorChain (files : Disk) (identity : IdentityView) (root : Option Digest)
    (chunkCount : ℕ) : Except StoreError (List Json) :=
  if chunkCount = 0 then do
    require (root = none) (.format "descriptor chain has an unexpected root")
    return []
  else do
    let digest ← expect root (.format "descriptor chain root is missing")
    let descriptors ← readSegments files (← identity.storageKey) [] true (segmentCount chunkCount) digest
    require (chunkCount ≤ descriptors.length) (.format "descriptor chain length differs")
    return descriptors.take chunkCount

/-- `_resolve_tail_manifest`, with the validation that follows. -/
def resolveTailManifest (files : Disk) (manifest : Json) (identity : IdentityView)
    (contextDigest : Digest) : Except StoreError RowManifest := do
  let root ← validateTailManifestRoot manifest identity contextDigest
  let base ← readDescriptorChain files identity root.baseTailSegment root.baseChunkCount
  validateManifestMetadata
    (manifestJson identity.wire contextDigest root.committedTokens (base ++ root.tailChunks))
    ⟨← identity.storageKey, contextDigest⟩ (some identity)

/-! ## Lookup results -/

inductive MissReason where
  | absent
  | incompatible
  | corrupt
  deriving DecidableEq

inductive RootKind where
  | manifest
  | prefixAlias
  | pageDelta
  | pageSnapshot
  deriving DecidableEq

/-- The manifest of a hit: rows, resolved where they were a tail or an alias, or a page root. -/
inductive HitManifest where
  | rows (manifest : RowManifest)
  | page (manifest : Json)

structure Hit where
  manifestDigest : Digest
  manifest : HitManifest
  rootKind : RootKind

inductive LookupResult where
  | hit (h : Hit)
  | miss (reason : MissReason)

inductive StorageMode where
  | perTokenRows
  | other
  deriving DecidableEq

/-- What a lookup checks of the chunks. -/
inductive Verification where
  | chunks
  | metadata
  | manifestOnly
  deriving DecidableEq

/-! ## Chunks -/

/-- The bytes of a chunk file decode to a complete chunk of the descriptor's range. -/
def decodeDescribed (encoded : Bytes) (d : ChunkDescriptor) (required : List StateRecord) :
    Except StoreError ContextChunk := do
  let chunk ← decodeChunk encoded false
  requireCompleteChunk chunk required
  require (chunk.logicalStart = d.logicalStart ∧ chunk.logicalEnd = d.logicalEnd)
    (.format "chunk range disagrees with descriptor")
  return chunk

/-- Read the chunk that a descriptor names. -/
def readChunk (files : Disk) (d : ChunkDescriptor) (required : List StateRecord) :
    Except StoreError ContextChunk := do
  let encoded ← readBytes files (.chunk d.sha256)
  require (encoded.length = d.bytes ∧ sha256 encoded = d.sha256) (.format "chunk checksum mismatch")
  decodeDescribed encoded d required

def readChunks (files : Disk) (required : List StateRecord) :
    List ChunkDescriptor → Except StoreError (List ContextChunk)
  | [] => .ok []
  | d :: rest => do
      let chunk ← readChunk files d required
      return chunk :: (← readChunks files required rest)

/-- An object whose bytes match its descriptor. -/
def readObject (files : Disk) (d : ObjectDescriptor) (message : String) : Except StoreError Bytes := do
  let encoded ← readBytes files (.chunk d.sha256)
  require (d.matchesPayload encoded = true) (.format message)
  return encoded

/-- What a lookup does for one descriptor. -/
def verifyDescriptor (files : Disk) (verification : Verification) (required : List StateRecord)
    (d : Descriptor) : Except StoreError Unit :=
  match verification, d with
  | .manifestOnly, _ => .ok ()
  | .metadata, d => do
      let encoded ← readBytes files (.chunk d.digest)
      require (encoded.length = d.bytes) (.format "chunk file size disagrees with descriptor")
  | .chunks, .chunk d => (readChunk files d required).map fun _ => ()
  | .chunks, .object d => (readObject files d "chunk checksum mismatch").map fun _ => ()

def verifyDescriptors (files : Disk) (verification : Verification) (required : List StateRecord) :
    List Descriptor → Except StoreError Unit
  | [] => .ok ()
  | d :: rest => do
      verifyDescriptor files verification required d
      verifyDescriptors files verification required rest

/-! ## Lookup -/

/-- The exceptions that a lookup turns into a miss; `missing` is the one for a missing file. -/
def missOf (missing : MissReason) (x : Except StoreError Hit) : Except StoreError LookupResult :=
  match x with
  | .ok h => .ok (.hit h)
  | .error (.incompatible _) => .ok (.miss .incompatible)
  | .error .absent => .ok (.miss missing)
  | .error (.format _) | .error (.fields _) | .error (.value _) | .error (.incomplete _)
  | .error .type | .error .digits | .error .os => .ok (.miss .corrupt)
  | .error e => .error e

/-- The manifest of a root file and the descriptors that it lists. -/
def readRoot (files : Disk) (manifest : Json) (identity : IdentityView) (contextDigest : Digest) :
    Except StoreError (HitManifest × RootKind × List Descriptor) :=
  if manifest.get? "schema" = some (.str tailManifestSchema) then do
    let rows ← resolveTailManifest files manifest identity contextDigest
    return (.rows rows, .manifest, rows.chunks.map .chunk)
  else if isPageDeltaRoot manifest = true then do
    let descriptors ← pageGraphDescriptors identity maxPageDeltaDepth manifest contextDigest
    return (.page manifest, .pageDelta, descriptors)
  else if isPageSnapshotRoot manifest = true then do
    let root ← validatePageSnapshotRoot manifest identity contextDigest.json
    return (.page manifest, .pageSnapshot, root.objects.map .object)
  else do
    let rows ← validateManifestMetadata manifest ⟨← identity.storageKey, contextDigest⟩ (some identity)
    return (.rows rows, .manifest, rows.chunks.map .chunk)

/-- A lookup of an exact root. -/
def lookupExact (files : Disk) (identity : IdentityView) (contextDigest : Digest)
    (verification : Verification) (encoded : Bytes) : Except StoreError Hit := do
  let manifest ← loadJson encoded "manifest is not JSON"
  let (manifest, kind, descriptors) ← readRoot files manifest identity contextDigest
  verifyDescriptors files verification identity.requiredRecords descriptors
  return ⟨sha256 encoded, manifest, kind⟩

/-- A lookup through an alias. Its own walk over the segments differs from the one of a tail
manifest only in the texts of its errors, which a miss drops. -/
def lookupAlias (files : Disk) (identity : IdentityView) (contextDigest : Digest)
    (verification : Verification) (encoded : Bytes) : Except StoreError Hit := do
  let root ← validatePrefixAlias (← loadJson encoded "prefix alias is not JSON") identity contextDigest
  let descriptors ← readDescriptorChain files identity (some root.tailSegment) root.chunkCount
  let rows ← validateManifestMetadata
    (manifestJson identity.wire contextDigest root.committedTokens descriptors)
    ⟨← identity.storageKey, contextDigest⟩ (some identity)
  verifyDescriptors files verification identity.requiredRecords (rows.chunks.map .chunk)
  return ⟨sha256 encoded, .rows rows, .prefixAlias⟩

/-- `_lookup_prefix_alias`; a missing segment or chunk is a miss like a missing alias. -/
def lookupPrefixAlias (files : Disk) (identity : IdentityView) (storageKey contextDigest : Digest)
    (verification : Verification) : Except StoreError LookupResult :=
  missOf .absent do
    lookupAlias files identity contextDigest verification
      (← readBytes files (.prefixAlias storageKey contextDigest))

/-- `ManifestStore.lookup` -/
def lookup (files : Disk) (identity : IdentityView) (contextDigest : Digest)
    (verification : Verification) (mode : StorageMode) : Except StoreError LookupResult := do
  let storageKey ← identity.storageKey
  match files.lookup (.manifest storageKey contextDigest) with
  | some encoded => missOf .corrupt (lookupExact files identity contextDigest verification encoded)
  | none =>
      if mode = .perTokenRows then
        lookupPrefixAlias files identity storageKey contextDigest verification
      else .ok (.miss .absent)

/-! ## Restore -/

/-- `_required_records_for_identity_wire` -/
def requiredRecordsForIdentityWire (wire : Json) : Except StoreError (List StateRecord) :=
  match wire.get? "record_schema" with
  | some (.arr items) => do
      let records ← expect (items.mapM StateRecord.ofJson?) (.format "identity record_schema is invalid")
      require (records ≠ [] ∧ records.Nodup ∧ .logicalPositions ∈ records)
        (.format "identity record_schema is invalid")
      return records
  | none | some .null => .ok (policyRecords
      (wire.get? "boundary_hidden_policy" = some (.str "live_forward"))
      (wire.get? "draft_kv_policy" = some (.str "colocated_target")))
  | some _ => .error (.format "identity record_schema is invalid")

/-- The failures that `restore` turns into `None`. -/
def noneOf (x : Except StoreError α) : Except StoreError (Option α) :=
  match x with
  | .ok a => .ok (some a)
  | .error (.format _) | .error (.fields _) | .error (.incompatible _) | .error (.value _)
  | .error (.incomplete _) | .error .type | .error .digits | .error .absent | .error .os => .ok none
  | .error e => .error e

/-- `ManifestStore.restore` -/
def restore (files : Disk) (h : Hit) : Except StoreError (Option (List ContextChunk)) :=
  match h.manifest with
  | .page _ => .error (.value "page restore requires restore_page_snapshot")
  | .rows m => do
      let required ← requiredRecordsForIdentityWire m.identity
      noneOf (readChunks files required m.chunks)

/-! ## Chunks that are there -/

theorem readBytes_eq_ok {files : Disk} {path : Path} {encoded : Bytes} :
    readBytes files path = .ok encoded ↔ files.lookup path = some encoded :=
  expect_eq_ok

/-- What a publisher writes down of a chunk. -/
def describe (chunk : ContextChunk) (encoded : Bytes) : ChunkDescriptor :=
  ⟨sha256 encoded, encoded.length, chunk.logicalStart, chunk.logicalEnd⟩

/-- The chunk has all the records that the identity requires. -/
def Complete (required : List StateRecord) (chunk : ContextChunk) : Prop :=
  ∀ kind ∈ required, chunk.records kind ≠ none

instance (required : List StateRecord) (chunk : ContextChunk) :
    Decidable (Complete required chunk) :=
  inferInstanceAs (Decidable (∀ kind ∈ required, _))

theorem requireCompleteChunk_eq_ok {chunk : ContextChunk} {required : List StateRecord} {u : Unit} :
    requireCompleteChunk chunk required = .ok u ↔ Complete required chunk :=
  require_eq_ok

theorem readChunk_describe {files : Disk} {chunk : ContextChunk} {encoded : Bytes}
    {required : List StateRecord} (hencoded : encodeChunk chunk = .ok encoded)
    (hcomplete : Complete required chunk)
    (hfile : files.lookup (.chunk (sha256 encoded)) = some encoded) :
    readChunk files (describe chunk encoded) required = .ok chunk := by
  unfold readChunk decodeDescribed
  simp only [bind_eq_ok, require_eq_ok, readBytes_eq_ok, requireCompleteChunk_eq_ok]
  exact ⟨encoded, hfile, (), ⟨rfl, rfl⟩, chunk, decodeChunk_encodeChunk hencoded false, (), hcomplete, (),
    ⟨rfl, rfl⟩, rfl⟩

theorem readChunks_eq_ok {files : Disk} {required : List StateRecord} {ds : List ChunkDescriptor} :
    ∀ {chunks : List ContextChunk}, readChunks files required ds = .ok chunks ↔
      List.Forall₂ (fun d chunk => readChunk files d required = .ok chunk) ds chunks := by
  induction ds with
  | nil =>
      intro chunks
      rw [readChunks, List.forall₂_nil_left_iff]
      constructor
      · rintro ⟨⟩
        rfl
      · rintro rfl
        rfl
  | cons d rest ih =>
      intro chunks
      rw [readChunks]
      simp only [bind_eq_ok]
      constructor
      · rintro ⟨chunk, hchunk, tail, htail, h⟩
        cases h
        exact List.Forall₂.cons hchunk (ih.mp htail)
      · intro h
        cases h with
        | cons hchunk htail => exact ⟨_, hchunk, _, ih.mpr htail, rfl⟩

theorem verifyDescriptors_chunks {files : Disk} {required : List StateRecord}
    {ds : List ChunkDescriptor} {chunks : List ContextChunk}
    (h : readChunks files required ds = .ok chunks) (verification : Verification) :
    verifyDescriptors files verification required (ds.map .chunk) = .ok () := by
  induction ds generalizing chunks with
  | nil => rfl
  | cons d rest ih =>
      rw [readChunks_eq_ok] at h
      cases h with
      | cons hchunk htail =>
          rw [List.map_cons, verifyDescriptors, bind_eq_ok]
          refine ⟨(), ?_, ih (readChunks_eq_ok.mpr htail)⟩
          cases verification with
          | chunks =>
              rw [verifyDescriptor, hchunk]
              rfl
          | metadata =>
              unfold readChunk at hchunk
              simp only [bind_eq_ok, require_eq_ok] at hchunk
              obtain ⟨encoded, hread, _, hmatch, -⟩ := hchunk
              rw [verifyDescriptor, bind_eq_ok]
              exact ⟨encoded, hread, require_of hmatch.1⟩
          | manifestOnly => rfl

/-- A verified lookup has read the chunks. -/
theorem verifyDescriptors_eq_ok {files : Disk} {required : List StateRecord}
    {ds : List ChunkDescriptor} {u : Unit}
    (h : verifyDescriptors files .chunks required (ds.map .chunk) = .ok u) :
    ∃ chunks, readChunks files required ds = .ok chunks := by
  induction ds with
  | nil => exact ⟨[], rfl⟩
  | cons d rest ih =>
      rw [List.map_cons, verifyDescriptors, bind_eq_ok] at h
      obtain ⟨_, hfirst, hrest⟩ := h
      obtain ⟨tail, htail⟩ := ih hrest
      rw [verifyDescriptor] at hfirst
      cases hchunk : readChunk files d required with
      | error e =>
          rw [hchunk] at hfirst
          cases hfirst
      | ok chunk =>
          refine ⟨chunk :: tail, readChunks_eq_ok.mpr ?_⟩
          exact List.Forall₂.cons hchunk (readChunks_eq_ok.mp htail)

/-! ## Hits -/

theorem requiredRecordsForIdentityWire_toWire (i : CacheIdentity) :
    requiredRecordsForIdentityWire i.toWire = .ok i.requiredRecords := by
  unfold requiredRecordsForIdentityWire
  rw [i.get?_recordSchema]
  by_cases hrecords : i.recordSchema = []
  · have hhidden : (i.toWire.get? "boundary_hidden_policy" = some (.str "live_forward")) =
        (i.boundaryHiddenPolicy = .liveForward) := by
      cases hpolicy : i.boundaryHiddenPolicy <;>
        simp [i.get?_toWire, CacheIdentity.wireFields, getField, hpolicy, BoundaryHiddenPolicy.text]
    have hdraft : (i.toWire.get? "draft_kv_policy" = some (.str "colocated_target")) =
        (i.draftKvPolicy = .colocatedTarget) := by
      cases hpolicy : i.draftKvPolicy <;>
        simp [i.get?_toWire, CacheIdentity.wireFields, getField, hpolicy, DraftKvPolicy.text]
    simp [hrecords, CacheIdentity.requiredRecords, hhidden, hdraft]
  · have hlist : (i.recordSchema.map fun record => Json.str record.text).mapM StateRecord.ofJson? =
        some i.recordSchema := listedRecords?_text i.recordSchema
    simp only [hrecords, if_false, hlist, CacheIdentity.requiredRecords, bind_eq_ok, expect_eq_ok,
      require_eq_ok]
    exact ⟨i.recordSchema, rfl, (), ⟨hrecords, i.records.1, i.records.2 hrecords⟩, rfl⟩

/-- Whatever is verified, the lookup is a hit, and restoring it gives the chunks. -/
def Serves (files : Disk) (i : CacheIdentity) (contextDigest : Digest) (mode : StorageMode)
    (chunks : List ContextChunk) : Prop :=
  ∀ verification, ∃ h, lookup files i contextDigest verification mode = .ok (.hit h) ∧
    restore files h = .ok (some chunks)

/-- The rows of an exact root, with the manifest that its file resolves to. -/
theorem lookup_of_rows {files : Disk} {i : CacheIdentity} {storageKey contextDigest : Digest}
    {mode : StorageMode} {encoded : Bytes} {document : Json} {m : RowManifest}
    {chunks : List ContextChunk} (hkey : i.view.storageKey = .ok storageKey)
    (hfile : files.lookup (.manifest storageKey contextDigest) = some encoded)
    (hload : loads encoded = .ok document)
    (hroot : readRoot files document i contextDigest =
      .ok (.rows m, .manifest, m.chunks.map .chunk))
    (hchunks : readChunks files i.requiredRecords m.chunks = .ok chunks) (verification : Verification) :
    lookup files i contextDigest verification mode = .ok (.hit ⟨sha256 encoded, .rows m, .manifest⟩) := by
  have hverify := verifyDescriptors_chunks hchunks verification
  have hexact : lookupExact files i contextDigest verification encoded =
      .ok ⟨sha256 encoded, .rows m, .manifest⟩ := by
    unfold lookupExact loadJson
    simp only [bind_eq_ok, hload]
    exact ⟨document, rfl, _, hroot, (), hverify, rfl⟩
  unfold lookup
  rw [bind_eq_ok]
  refine ⟨storageKey, hkey, ?_⟩
  rw [hfile]
  show missOf .corrupt (lookupExact files i contextDigest verification encoded) = _
  rw [hexact]
  rfl

/-- A plain manifest that covers its tokens is its own rows. -/
theorem readRoot_rows {files : Disk} (i : CacheIdentity) {storageKey : Digest}
    (hkey : i.view.storageKey = .ok storageKey) {contextDigest : Digest} {committedTokens : ℕ}
    {ds : List ChunkDescriptor} (hcovers : Covers i.chunkTokens 0 ds committedTokens) (hne : ds ≠ []) :
    readRoot files (RowManifest.json ⟨i.toWire, contextDigest, committedTokens, ds⟩) i contextDigest =
      .ok (.rows ⟨i.toWire, contextDigest, committedTokens, ds⟩, .manifest, ds.map .chunk) := by
  have hschema : (RowManifest.json ⟨i.toWire, contextDigest, committedTokens, ds⟩).get? "schema" =
      none := by
    rw [RowManifest.json, manifestJson, get?_object (by simp)]
    simp [getField]
  have hvalid : validateManifestMetadata
      (manifestJson i.toWire contextDigest committedTokens (ds.map ChunkDescriptor.json))
      ⟨storageKey, contextDigest⟩ (some i.view) = .ok ⟨i.toWire, contextDigest, committedTokens, ds⟩ :=
    validateManifestMetadata_json i hkey hcovers hne (by simp)
  unfold readRoot isPageDeltaRoot isPageSnapshotRoot
  rw [hschema]
  simp only [List.mem_cons, List.not_mem_nil, reduceCtorEq, or_self, decide_false,
    Bool.false_eq_true, if_false, bind_eq_ok]
  exact ⟨storageKey, hkey, _, hvalid, rfl⟩

theorem manifestJson_plain {identity : Json} (h : identity.Plain) (contextDigest : Digest)
    (committedTokens : ℕ) (ds : List ChunkDescriptor) :
    (manifestJson identity contextDigest committedTokens (ds.map ChunkDescriptor.json)).Plain := by
  apply plain_object
  simp [h, descriptors_plain]

/-- Neither an exact root nor an alias has the context's name. -/
def Unpublished (files : Disk) (i : IdentityView) (contextDigest : Digest) : Prop :=
  ∀ storageKey, i.storageKey = .ok storageKey →
    files.lookup (.manifest storageKey contextDigest) = none ∧
      files.lookup (.prefixAlias storageKey contextDigest) = none

/-- Then every lookup is a miss, unless the identity has no storage key at all. -/
theorem lookup_unpublished {files : Disk} {i : IdentityView} {contextDigest : Digest}
    (h : Unpublished files i contextDigest) (verification : Verification) (mode : StorageMode) :
    lookup files i contextDigest verification mode =
      i.storageKey.map fun _ => .miss .absent := by
  unfold lookup
  cases hkey : i.storageKey with
  | error e => rfl
  | ok storageKey =>
      obtain ⟨hroot, halias⟩ := h storageKey hkey
      show (match files.lookup (.manifest storageKey contextDigest) with
        | some encoded => _
        | none => _) = _
      rw [hroot]
      cases mode with
      | perTokenRows =>
          show lookupPrefixAlias files i storageKey contextDigest verification = _
          unfold lookupPrefixAlias readBytes
          rw [halias]
          rfl
      | other => rfl

end SparkCache.Store
