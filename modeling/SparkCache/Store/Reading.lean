import SparkCache.Store.Lookup

/-!
# What readers depend on

A reader takes a content-addressed file only if its bytes hash to its name.
Two stores with the same root file can differ in the rest: a reader that
succeeds in both returns the same, and it still succeeds in a store that has
kept the files which it has read.
-/
namespace SparkCache.Store

open Files Files.FileM Json
open Pages (bind_eq_ok)

/-- The bytes of the files that are named by their content. -/
def contents (files : Disk) : Set Bytes :=
  {payload | ∃ p : Path, p.isRoot = false ∧ files.lookup p = some payload}

/-- Roots, and files whose bytes hash to their names, keep their bytes. -/
def Preserves (before after : Disk) : Prop :=
  ∀ p payload, before.lookup p = some payload → (p.isRoot = true ∨ p.stem = sha256 payload) →
    after.lookup p = some payload

theorem Preserves.refl (files : Disk) : Preserves files files := fun _ _ h _ => h

theorem Preserves.trans {f g h : Disk} (hfg : Preserves f g) (hgh : Preserves g h) :
    Preserves f h :=
  fun p payload hfile hname => hgh p payload (hfg p payload hfile hname) hname

/-- A publication can replace a file with an address only by a collision. -/
theorem Grows.preserves {before after : Disk} (h : Grows before after)
    (hinj : Set.InjOn sha256 (contents before ∪ contents after)) : Preserves before after := by
  intro p payload hfile hname
  rcases h p with hsame | hnone | ⟨hroot, other, hother, hstem⟩
  · exact hsame.trans hfile
  · rw [hfile] at hnone
    cases hnone
  · have hdigest : sha256 payload = sha256 other := by
      rcases hname with hname | hname
      · rw [hroot] at hname
        cases hname
      · rw [← hname, hstem]
    have hequal : payload = other :=
      hinj (Or.inl ⟨p, hroot, hfile⟩) (Or.inr ⟨p, hroot, hother⟩) hdigest
    rw [hequal]
    exact hother

/-! ## Segments -/

theorem readSegment_congr {f g : Disk} {storageKey digest : Digest}
    (h : f.lookup (.prefixSegment storageKey digest) = g.lookup (.prefixSegment storageKey digest))
    (index : ℕ) (isTail : Bool) :
    readSegment f storageKey index isTail digest = readSegment g storageKey index isTail digest := by
  unfold readSegment readBytes
  rw [h]

theorem readSegment_eq_ok {files : Disk} {storageKey digest : Digest} {index : ℕ} {isTail : Bool}
    {segment : PrefixSegment} (h : readSegment files storageKey index isTail digest = .ok segment) :
    ∃ encoded, files.lookup (.prefixSegment storageKey digest) = some encoded ∧
      sha256 encoded = digest := by
  unfold readSegment at h
  simp only [bind_eq_ok, require_eq_ok, readBytes_eq_ok] at h
  obtain ⟨encoded, hfile, _, hdigest, -⟩ := h
  exact ⟨encoded, hfile, hdigest⟩

/-- One step of the walk. -/
theorem readSegments_eq_ok {files : Disk} {storageKey digest : Digest} {visited : List Digest}
    {isTail : Bool} {index : ℕ} {ds : List Json} :
    readSegments files storageKey visited isTail (index + 1) digest = .ok ds ↔
      digest ∉ visited ∧ ∃ segment, readSegment files storageKey index isTail digest = .ok segment ∧
        ((index = 0 ∧ segment.parent = none ∧ ds = segment.descriptors) ∨
          (index ≠ 0 ∧ ∃ parent before, segment.parent = some parent ∧
            readSegments files storageKey (digest :: visited) false index parent = .ok before ∧
            ds = before ++ segment.descriptors)) := by
  rw [readSegments]
  simp only [bind_eq_ok, require_eq_ok]
  constructor
  · rintro ⟨_, hfresh, segment, hsegment, h⟩
    refine ⟨hfresh, segment, hsegment, ?_⟩
    by_cases hindex : index = 0
    · rw [if_pos hindex] at h
      simp only [bind_eq_ok, require_eq_ok] at h
      obtain ⟨_, hparent, h⟩ := h
      cases h
      exact Or.inl ⟨hindex, hparent, rfl⟩
    · rw [if_neg hindex] at h
      simp only [bind_eq_ok, expect_eq_ok] at h
      obtain ⟨parent, hparent, before, hbefore, h⟩ := h
      cases h
      exact Or.inr ⟨hindex, parent, before, hparent, hbefore, rfl⟩
  · rintro ⟨hfresh, segment, hsegment, h⟩
    refine ⟨(), hfresh, segment, hsegment, ?_⟩
    rcases h with ⟨hindex, hparent, rfl⟩ | ⟨hindex, parent, before, hparent, hbefore, rfl⟩
    · rw [if_pos hindex]
      simp only [bind_eq_ok, require_eq_ok]
      exact ⟨(), hparent, rfl⟩
    · rw [if_neg hindex]
      simp only [bind_eq_ok, expect_eq_ok]
      exact ⟨parent, hparent, before, hbefore, rfl⟩

theorem readSegments_preserved {f g : Disk} (hkeep : Preserves f g) {storageKey : Digest} {n : ℕ} :
    ∀ {visited : List Digest} {isTail : Bool} {digest : Digest} {ds : List Json},
      readSegments f storageKey visited isTail n digest = .ok ds →
        readSegments g storageKey visited isTail n digest = .ok ds := by
  induction n with
  | zero =>
      intro visited isTail digest ds h
      cases h
  | succ n ih =>
      intro visited isTail digest ds h
      rw [readSegments_eq_ok] at h ⊢
      obtain ⟨hfresh, segment, hsegment, hrest⟩ := h
      obtain ⟨encoded, hfile, hdigest⟩ := readSegment_eq_ok hsegment
      have hfile' := hkeep _ encoded hfile (Or.inr hdigest.symm)
      refine ⟨hfresh, segment, ?_, ?_⟩
      · rw [← readSegment_congr (hfile.trans hfile'.symm)]
        exact hsegment
      · rcases hrest with hlast | ⟨hindex, parent, before, hparent, hbefore, hds⟩
        · exact Or.inl hlast
        · exact Or.inr ⟨hindex, parent, before, hparent, ih hbefore, hds⟩

theorem readDescriptorChain_eq_ok {files : Disk} {i : IdentityView} {root : Option Digest}
    {chunkCount : ℕ} {ds : List Json} :
    readDescriptorChain files i root chunkCount = .ok ds ↔
      (chunkCount = 0 ∧ root = none ∧ ds = []) ∨
        (chunkCount ≠ 0 ∧ ∃ digest storageKey descriptors, root = some digest ∧
          i.storageKey = .ok storageKey ∧
          readSegments files storageKey [] true (segmentCount chunkCount) digest = .ok descriptors ∧
          chunkCount ≤ descriptors.length ∧ ds = descriptors.take chunkCount) := by
  unfold readDescriptorChain
  by_cases hcount : chunkCount = 0
  · rw [if_pos hcount]
    simp only [bind_eq_ok, require_eq_ok]
    constructor
    · rintro ⟨_, hroot, h⟩
      cases h
      exact Or.inl ⟨hcount, hroot, rfl⟩
    · rintro (⟨-, hroot, rfl⟩ | ⟨hne, -⟩)
      · exact ⟨(), hroot, rfl⟩
      · exact absurd hcount hne
  · rw [if_neg hcount]
    simp only [bind_eq_ok, require_eq_ok, expect_eq_ok]
    constructor
    · rintro ⟨digest, hroot, storageKey, hkey, descriptors, hread, _, hle, h⟩
      cases h
      exact Or.inr ⟨hcount, digest, storageKey, descriptors, hroot, hkey, hread, hle, rfl⟩
    · rintro (⟨hzero, -⟩ | ⟨-, digest, storageKey, descriptors, hroot, hkey, hread, hle, rfl⟩)
      · exact absurd hzero hcount
      · exact ⟨digest, hroot, storageKey, hkey, descriptors, hread, (), hle, rfl⟩

theorem readDescriptorChain_preserved {f g : Disk} (hkeep : Preserves f g) {i : IdentityView}
    {root : Option Digest} {chunkCount : ℕ} {ds : List Json}
    (h : readDescriptorChain f i root chunkCount = .ok ds) :
    readDescriptorChain g i root chunkCount = .ok ds := by
  rw [readDescriptorChain_eq_ok] at h ⊢
  rcases h with hnone | ⟨hne, digest, storageKey, descriptors, hroot, hkey, hread, hle, hds⟩
  · exact Or.inl hnone
  · exact Or.inr ⟨hne, digest, storageKey, descriptors, hroot, hkey,
      readSegments_preserved hkeep hread, hle, hds⟩

/-! ## Chunks -/

theorem readChunk_congr {f g : Disk} {d : ChunkDescriptor}
    (h : f.lookup (.chunk d.sha256) = g.lookup (.chunk d.sha256)) (required : List StateRecord) :
    readChunk f d required = readChunk g d required := by
  unfold readChunk readBytes
  rw [h]

theorem readChunk_eq_ok {files : Disk} {d : ChunkDescriptor} {required : List StateRecord}
    {chunk : ContextChunk} :
    readChunk files d required = .ok chunk ↔
      ∃ encoded, files.lookup (.chunk d.sha256) = some encoded ∧ encoded.length = d.bytes ∧
        sha256 encoded = d.sha256 ∧ decodeChunk encoded false = .ok chunk ∧
        Complete required chunk ∧ chunk.logicalStart = d.logicalStart ∧
        chunk.logicalEnd = d.logicalEnd := by
  unfold readChunk decodeDescribed
  simp only [bind_eq_ok, require_eq_ok, readBytes_eq_ok, requireCompleteChunk_eq_ok]
  constructor
  · rintro ⟨encoded, hfile, _, ⟨hlength, hdigest⟩, other, hdecode, _, hcomplete, _, hrange, h⟩
    cases h
    exact ⟨encoded, hfile, hlength, hdigest, hdecode, hcomplete, hrange⟩
  · rintro ⟨encoded, hfile, hlength, hdigest, hdecode, hcomplete, hrange⟩
    exact ⟨encoded, hfile, (), ⟨hlength, hdigest⟩, chunk, hdecode, (), hcomplete, (), hrange, rfl⟩

theorem readChunk_preserved {f g : Disk} (hkeep : Preserves f g) {d : ChunkDescriptor}
    {required : List StateRecord} {chunk : ContextChunk} (h : readChunk f d required = .ok chunk) :
    readChunk g d required = .ok chunk := by
  obtain ⟨encoded, hfile, -, hdigest, -⟩ := readChunk_eq_ok.mp h
  have hfile' := hkeep _ encoded hfile (Or.inr hdigest.symm)
  rw [← readChunk_congr (hfile.trans hfile'.symm)]
  exact h

theorem readChunks_preserved {f g : Disk} (hkeep : Preserves f g) {required : List StateRecord}
    {ds : List ChunkDescriptor} {chunks : List ContextChunk}
    (h : readChunks f required ds = .ok chunks) : readChunks g required ds = .ok chunks := by
  rw [readChunks_eq_ok] at h ⊢
  exact h.imp fun _ _ hchunk => readChunk_preserved hkeep hchunk

/-- The required records decide whether a chunk is accepted, not what it is. -/
theorem readChunks_required {files : Disk} {required required' : List StateRecord}
    {ds : List ChunkDescriptor} :
    ∀ {chunks chunks' : List ContextChunk}, readChunks files required ds = .ok chunks →
      readChunks files required' ds = .ok chunks' → chunks = chunks' := by
  induction ds with
  | nil =>
      intro chunks chunks' h h'
      cases h
      cases h'
      rfl
  | cons d rest ih =>
      intro chunks chunks' h h'
      rw [readChunks_eq_ok] at h h'
      cases h with
      | cons hchunk htail =>
          cases h' with
          | cons hchunk' htail' =>
              obtain ⟨encoded, hfile, -, -, hdecode, -⟩ := readChunk_eq_ok.mp hchunk
              obtain ⟨encoded', hfile', -, -, hdecode', -⟩ := readChunk_eq_ok.mp hchunk'
              rw [hfile] at hfile'
              cases hfile'
              rw [hdecode] at hdecode'
              cases hdecode'
              rw [ih (readChunks_eq_ok.mpr htail) (readChunks_eq_ok.mpr htail')]

/-! ## Roots -/

theorem resolveTailManifest_preserved {f g : Disk} (hkeep : Preserves f g) {manifest : Json}
    {i : IdentityView} {contextDigest : Digest} {m : RowManifest}
    (h : resolveTailManifest f manifest i contextDigest = .ok m) :
    resolveTailManifest g manifest i contextDigest = .ok m := by
  unfold resolveTailManifest at h ⊢
  simp only [bind_eq_ok] at h ⊢
  obtain ⟨root, hroot, base, hbase, rest⟩ := h
  exact ⟨root, hroot, base, readDescriptorChain_preserved hkeep hbase, rest⟩

theorem readRoot_preserved {f g : Disk} (hkeep : Preserves f g) {manifest : Json}
    {i : IdentityView} {contextDigest : Digest} {r : HitManifest × RootKind × List Descriptor}
    (h : readRoot f manifest i contextDigest = .ok r) :
    readRoot g manifest i contextDigest = .ok r := by
  unfold readRoot at h ⊢
  split at h
  · rename_i hschema
    rw [if_pos hschema]
    rw [bind_eq_ok] at h ⊢
    obtain ⟨rows, hrows, hr⟩ := h
    exact ⟨rows, resolveTailManifest_preserved hkeep hrows, hr⟩
  · rename_i hschema
    rw [if_neg hschema]
    exact h

/-- The descriptors of rows are those of the manifest. -/
theorem readRoot_descriptors {files : Disk} {manifest : Json} {i : IdentityView}
    {contextDigest : Digest} {m : RowManifest} {kind : RootKind} {ds : List Descriptor}
    (h : readRoot files manifest i contextDigest = .ok (.rows m, kind, ds)) :
    ds = m.chunks.map .chunk := by
  unfold readRoot at h
  split at h
  · rw [bind_eq_ok] at h
    obtain ⟨rows, -, h⟩ := h
    cases h
    rfl
  · split at h
    · rw [bind_eq_ok] at h
      obtain ⟨rows, -, h⟩ := h
      cases h
    · split at h
      · rw [bind_eq_ok] at h
        obtain ⟨rows, -, h⟩ := h
        cases h
      · simp only [bind_eq_ok] at h
        obtain ⟨_, -, rows, -, h⟩ := h
        cases h
        rfl

/-! ## Lookups -/

theorem missOf_eq_hit {missing : MissReason} {x : Except StoreError Hit} {h : Hit} :
    missOf missing x = .ok (.hit h) ↔ x = .ok h := by
  cases x with
  | ok a => simp [missOf]
  | error e => cases e <;> simp [missOf]

theorem lookupExact_eq_ok {files : Disk} {i : IdentityView} {contextDigest : Digest}
    {verification : Verification} {encoded : Bytes} {h : Hit} :
    lookupExact files i contextDigest verification encoded = .ok h ↔
      ∃ document manifest kind ds u, loadJson encoded "manifest is not JSON" = .ok document ∧
        readRoot files document i contextDigest = .ok (manifest, kind, ds) ∧
        verifyDescriptors files verification i.requiredRecords ds = .ok u ∧
        h = ⟨sha256 encoded, manifest, kind⟩ := by
  unfold lookupExact
  simp only [bind_eq_ok]
  constructor
  · rintro ⟨document, hload, ⟨manifest, kind, ds⟩, hroot, u, hverify, hh⟩
    cases hh
    exact ⟨document, manifest, kind, ds, u, hload, hroot, hverify, rfl⟩
  · rintro ⟨document, manifest, kind, ds, u, hload, hroot, hverify, rfl⟩
    exact ⟨document, hload, ⟨manifest, kind, ds⟩, hroot, u, hverify, rfl⟩

theorem lookupAlias_eq_ok {files : Disk} {i : IdentityView} {contextDigest : Digest}
    {verification : Verification} {encoded : Bytes} {h : Hit} :
    lookupAlias files i contextDigest verification encoded = .ok h ↔
      ∃ document root descriptors storageKey rows u,
        loadJson encoded "prefix alias is not JSON" = .ok document ∧
        validatePrefixAlias document i contextDigest = .ok root ∧
        readDescriptorChain files i (some root.tailSegment) root.chunkCount = .ok descriptors ∧
        i.storageKey = .ok storageKey ∧
        validateManifestMetadata (manifestJson i.wire contextDigest root.committedTokens descriptors)
          ⟨storageKey, contextDigest⟩ (some i) = .ok rows ∧
        verifyDescriptors files verification i.requiredRecords (rows.chunks.map .chunk) = .ok u ∧
        h = ⟨sha256 encoded, .rows rows, .prefixAlias⟩ := by
  unfold lookupAlias
  simp only [bind_eq_ok]
  constructor
  · rintro ⟨document, hload, root, hroot, descriptors, hchain, storageKey, hkey, rows, hrows, u,
      hverify, hh⟩
    cases hh
    exact ⟨document, root, descriptors, storageKey, rows, u, hload, hroot, hchain, hkey, hrows,
      hverify, rfl⟩
  · rintro ⟨document, root, descriptors, storageKey, rows, u, hload, hroot, hchain, hkey, hrows,
      hverify, rfl⟩
    exact ⟨document, hload, root, hroot, descriptors, hchain, storageKey, hkey, rows, hrows, u,
      hverify, rfl⟩

/-- A hit comes from the exact root, or from the alias where there is no root. -/
theorem lookup_eq_hit {files : Disk} {i : IdentityView} {contextDigest : Digest}
    {verification : Verification} {mode : StorageMode} {h : Hit} :
    lookup files i contextDigest verification mode = .ok (.hit h) ↔
      ∃ storageKey encoded, i.storageKey = .ok storageKey ∧
        ((files.lookup (.manifest storageKey contextDigest) = some encoded ∧
            lookupExact files i contextDigest verification encoded = .ok h) ∨
          (files.lookup (.manifest storageKey contextDigest) = none ∧ mode = .perTokenRows ∧
            files.lookup (.prefixAlias storageKey contextDigest) = some encoded ∧
            lookupAlias files i contextDigest verification encoded = .ok h)) := by
  unfold lookup
  rw [bind_eq_ok]
  constructor
  · rintro ⟨storageKey, hkey, hlookup⟩
    cases hfile : files.lookup (.manifest storageKey contextDigest) with
    | some encoded =>
        simp only [hfile, missOf_eq_hit] at hlookup
        exact ⟨storageKey, encoded, hkey, Or.inl ⟨hfile, hlookup⟩⟩
    | none =>
        simp only [hfile] at hlookup
        split at hlookup
        · rename_i hmode
          unfold lookupPrefixAlias at hlookup
          rw [missOf_eq_hit, bind_eq_ok] at hlookup
          obtain ⟨encoded, hread, halias⟩ := hlookup
          exact ⟨storageKey, encoded, hkey, Or.inr ⟨hfile, hmode, readBytes_eq_ok.mp hread, halias⟩⟩
        · cases hlookup
  · rintro ⟨storageKey, encoded, hkey, ⟨hfile, hexact⟩ | ⟨hfile, rfl, hread, halias⟩⟩
    · refine ⟨storageKey, hkey, ?_⟩
      simp only [hfile, missOf_eq_hit]
      exact hexact
    · refine ⟨storageKey, hkey, ?_⟩
      simp only [hfile, if_true]
      unfold lookupPrefixAlias
      rw [missOf_eq_hit, bind_eq_ok]
      exact ⟨encoded, readBytes_eq_ok.mpr hread, halias⟩

theorem verifyDescriptors_manifestOnly (files : Disk) (required : List StateRecord)
    (ds : List Descriptor) : verifyDescriptors files .manifestOnly required ds = .ok () := by
  induction ds with
  | nil => rfl
  | cons d rest ih => exact ih

/-- A lookup that verifies more takes the same root. -/
theorem lookup_manifestOnly {files : Disk} {i : IdentityView} {contextDigest : Digest}
    {verification : Verification} {mode : StorageMode} {h : Hit}
    (hhit : lookup files i contextDigest verification mode = .ok (.hit h)) :
    lookup files i contextDigest .manifestOnly mode = .ok (.hit h) := by
  rw [lookup_eq_hit] at hhit ⊢
  obtain ⟨storageKey, encoded, hkey, ⟨hfile, hexact⟩ | ⟨hfile, hmode, hread, halias⟩⟩ := hhit
  · refine ⟨storageKey, encoded, hkey, Or.inl ⟨hfile, ?_⟩⟩
    rw [lookupExact_eq_ok] at hexact ⊢
    obtain ⟨document, manifest, kind, ds, u, hload, hroot, -, hh⟩ := hexact
    exact ⟨document, manifest, kind, ds, (), hload, hroot, verifyDescriptors_manifestOnly _ _ _, hh⟩
  · refine ⟨storageKey, encoded, hkey, Or.inr ⟨hfile, hmode, hread, ?_⟩⟩
    rw [lookupAlias_eq_ok] at halias ⊢
    obtain ⟨document, root, descriptors, key, rows, u, hload, hroot, hchain, hkey', hrows, -, hh⟩ :=
      halias
    exact ⟨document, root, descriptors, key, rows, (), hload, hroot, hchain, hkey', hrows,
      verifyDescriptors_manifestOnly _ _ _, hh⟩

/-- Rows whose chunks can be read pass every verification. -/
theorem lookup_rows {files : Disk} {i : IdentityView} {contextDigest : Digest} {mode : StorageMode}
    {h : Hit} {m : RowManifest} {chunks : List ContextChunk}
    (hhit : lookup files i contextDigest .manifestOnly mode = .ok (.hit h))
    (hrows : h.manifest = .rows m) (hchunks : readChunks files i.requiredRecords m.chunks = .ok chunks)
    (verification : Verification) :
    lookup files i contextDigest verification mode = .ok (.hit h) := by
  have hverify := verifyDescriptors_chunks hchunks verification
  rw [lookup_eq_hit] at hhit ⊢
  obtain ⟨storageKey, encoded, hkey, ⟨hfile, hexact⟩ | ⟨hfile, hmode, hread, halias⟩⟩ := hhit
  · refine ⟨storageKey, encoded, hkey, Or.inl ⟨hfile, ?_⟩⟩
    rw [lookupExact_eq_ok] at hexact ⊢
    obtain ⟨document, manifest, kind, ds, u, hload, hroot, -, rfl⟩ := hexact
    obtain rfl : manifest = .rows m := hrows
    obtain rfl := readRoot_descriptors hroot
    exact ⟨document, .rows m, kind, _, (), hload, hroot, hverify, rfl⟩
  · refine ⟨storageKey, encoded, hkey, Or.inr ⟨hfile, hmode, hread, ?_⟩⟩
    rw [lookupAlias_eq_ok] at halias ⊢
    obtain ⟨document, root, descriptors, key, rows, u, hload, hroot, hchain, hkey', hvalid, -, rfl⟩ :=
      halias
    obtain rfl : rows = m := by simpa using hrows
    exact ⟨document, root, descriptors, key, rows, (), hload, hroot, hchain, hkey', hvalid, hverify,
      rfl⟩

/-- A verified lookup of rows has read their chunks. -/
theorem lookup_chunks {files : Disk} {i : IdentityView} {contextDigest : Digest} {mode : StorageMode}
    {h : Hit} {m : RowManifest} (hhit : lookup files i contextDigest .chunks mode = .ok (.hit h))
    (hrows : h.manifest = .rows m) :
    ∃ chunks, readChunks files i.requiredRecords m.chunks = .ok chunks := by
  rw [lookup_eq_hit] at hhit
  obtain ⟨storageKey, encoded, hkey, ⟨hfile, hexact⟩ | ⟨hfile, hmode, hread, halias⟩⟩ := hhit
  · rw [lookupExact_eq_ok] at hexact
    obtain ⟨document, manifest, kind, ds, u, hload, hroot, hverify, rfl⟩ := hexact
    obtain rfl : manifest = .rows m := hrows
    obtain rfl := readRoot_descriptors hroot
    exact verifyDescriptors_eq_ok hverify
  · rw [lookupAlias_eq_ok] at halias
    obtain ⟨document, root, descriptors, key, rows, u, hload, hroot, hchain, hkey', hvalid, hverify,
      rfl⟩ := halias
    obtain rfl : rows = m := by simpa using hrows
    exact verifyDescriptors_eq_ok hverify

/-- A hit stays one where the files that it depends on stay, if no exact root takes the place of
an alias. -/
theorem lookup_preserved {f g : Disk} (hkeep : Preserves f g) {i : IdentityView}
    {contextDigest : Digest} {mode : StorageMode} {h : Hit}
    (hroot : mode = .other ∨ ∀ storageKey, i.storageKey = .ok storageKey →
      f.lookup (.manifest storageKey contextDigest) = none →
        g.lookup (.manifest storageKey contextDigest) = none)
    (hhit : lookup f i contextDigest .manifestOnly mode = .ok (.hit h)) :
    lookup g i contextDigest .manifestOnly mode = .ok (.hit h) := by
  rw [lookup_eq_hit] at hhit ⊢
  obtain ⟨storageKey, encoded, hkey, ⟨hfile, hexact⟩ | ⟨hfile, hmode, hread, halias⟩⟩ := hhit
  · refine ⟨storageKey, encoded, hkey, Or.inl ⟨hkeep _ _ hfile (Or.inl rfl), ?_⟩⟩
    rw [lookupExact_eq_ok] at hexact ⊢
    obtain ⟨document, manifest, kind, ds, u, hload, hroot, -, hh⟩ := hexact
    exact ⟨document, manifest, kind, ds, (), hload, readRoot_preserved hkeep hroot,
      verifyDescriptors_manifestOnly _ _ _, hh⟩
  · have hnone : g.lookup (.manifest storageKey contextDigest) = none := by
      rcases hroot with hother | hroot
      · rw [hother] at hmode
        cases hmode
      · exact hroot storageKey hkey hfile
    refine ⟨storageKey, encoded, hkey, Or.inr ⟨hnone, hmode, hkeep _ _ hread (Or.inl rfl), ?_⟩⟩
    rw [lookupAlias_eq_ok] at halias ⊢
    obtain ⟨document, root, descriptors, key, rows, u, hload, hroot, hchain, hkey', hvalid, -, hh⟩ :=
      halias
    exact ⟨document, root, descriptors, key, rows, (), hload, hroot,
      readDescriptorChain_preserved hkeep hchain, hkey', hvalid, verifyDescriptors_manifestOnly _ _ _,
      hh⟩

/-! ## Served rows -/

/-- The hit and the rows by which a context is served. -/
structure ServedRows (files : Disk) (i : CacheIdentity) (contextDigest : Digest) (mode : StorageMode)
    (h : Hit) (m : RowManifest) (chunks : List ContextChunk) : Prop where
  hit : lookup files i contextDigest .manifestOnly mode = .ok (.hit h)
  rows : h.manifest = .rows m
  verified : readChunks files i.requiredRecords m.chunks = .ok chunks
  restored : ∃ required, requiredRecordsForIdentityWire m.identity = .ok required ∧
    readChunks files required m.chunks = .ok chunks

theorem noneOf_eq_some {x : Except StoreError α} {a : α} : noneOf x = .ok (some a) ↔ x = .ok a := by
  cases x with
  | ok b => simp [noneOf]
  | error e => cases e <;> simp [noneOf]

theorem restore_eq_some {files : Disk} {h : Hit} {chunks : List ContextChunk} :
    restore files h = .ok (some chunks) ↔ ∃ m required, h.manifest = .rows m ∧
      requiredRecordsForIdentityWire m.identity = .ok required ∧
      readChunks files required m.chunks = .ok chunks := by
  unfold restore
  cases hmanifest : h.manifest with
  | page manifest => simp
  | rows m =>
      simp only [bind_eq_ok, noneOf_eq_some]
      constructor
      · rintro ⟨required, hrequired, hchunks⟩
        exact ⟨m, required, rfl, hrequired, hchunks⟩
      · rintro ⟨m', required, heq, hrequired, hchunks⟩
        cases heq
        exact ⟨required, hrequired, hchunks⟩

theorem ServedRows.serves {files : Disk} {i : CacheIdentity} {contextDigest : Digest}
    {mode : StorageMode} {h : Hit} {m : RowManifest} {chunks : List ContextChunk}
    (hs : ServedRows files i contextDigest mode h m chunks) :
    Serves files i contextDigest mode chunks := by
  intro verification
  obtain ⟨required, hrequired, hchunks⟩ := hs.restored
  exact ⟨h, lookup_rows hs.hit hs.rows hs.verified verification,
    restore_eq_some.mpr ⟨m, required, hs.rows, hrequired, hchunks⟩⟩

/-- An exact root serves the rows that its file resolves to. -/
theorem ServedRows.of_rows {files : Disk} {i : CacheIdentity} {storageKey contextDigest : Digest}
    {mode : StorageMode} {encoded : Bytes} {document : Json} {m : RowManifest}
    {chunks : List ContextChunk} (hkey : i.view.storageKey = .ok storageKey)
    (hfile : files.lookup (.manifest storageKey contextDigest) = some encoded)
    (hload : loads encoded = .ok document)
    (hroot : readRoot files document i contextDigest = .ok (.rows m, .manifest, m.chunks.map .chunk))
    (hidentity : m.identity = i.toWire)
    (hchunks : readChunks files i.requiredRecords m.chunks = .ok chunks) :
    ServedRows files i contextDigest mode ⟨sha256 encoded, .rows m, .manifest⟩ m chunks := by
  refine ⟨lookup_of_rows hkey hfile hload hroot hchunks _, rfl, hchunks, i.requiredRecords, ?_, hchunks⟩
  rw [hidentity]
  exact requiredRecordsForIdentityWire_toWire i

theorem serves_iff {files : Disk} {i : CacheIdentity} {contextDigest : Digest} {mode : StorageMode}
    {chunks : List ContextChunk} :
    Serves files i contextDigest mode chunks ↔
      ∃ h m, ServedRows files i contextDigest mode h m chunks := by
  constructor
  · intro hs
    obtain ⟨h, hhit, hrestore⟩ := hs .chunks
    obtain ⟨m, required, hrows, hrequired, hchunks⟩ := restore_eq_some.mp hrestore
    obtain ⟨chunks', hverified⟩ := lookup_chunks hhit hrows
    obtain rfl := readChunks_required hverified hchunks
    exact ⟨h, m, lookup_manifestOnly hhit, hrows, hverified, required, hrequired, hchunks⟩
  · rintro ⟨h, m, hs⟩
    exact hs.serves

theorem ServedRows.preserved {f g : Disk} (hkeep : Preserves f g) {i : CacheIdentity}
    {contextDigest : Digest} {mode : StorageMode} {h : Hit} {m : RowManifest}
    {chunks : List ContextChunk}
    (hroot : mode = .other ∨ ∀ storageKey, i.view.storageKey = .ok storageKey →
      f.lookup (.manifest storageKey contextDigest) = none →
        g.lookup (.manifest storageKey contextDigest) = none)
    (hs : ServedRows f i contextDigest mode h m chunks) :
    ServedRows g i contextDigest mode h m chunks := by
  obtain ⟨required, hrequired, hchunks⟩ := hs.restored
  exact ⟨lookup_preserved hkeep hroot hs.hit, hs.rows, readChunks_preserved hkeep hs.verified, required,
    hrequired, readChunks_preserved hkeep hchunks⟩

/-- An exact root serves in either mode. -/
theorem ServedRows.exact {files : Disk} {i : CacheIdentity} {contextDigest : Digest} {h : Hit}
    {m : RowManifest} {chunks : List ContextChunk}
    (hs : ServedRows files i contextDigest .other h m chunks) (mode : StorageMode) :
    ServedRows files i contextDigest mode h m chunks := by
  refine ⟨?_, hs.rows, hs.verified, hs.restored⟩
  have hhit := hs.hit
  rw [lookup_eq_hit] at hhit ⊢
  obtain ⟨storageKey, encoded, hkey, hexact | ⟨-, hmode, -⟩⟩ := hhit
  · exact ⟨storageKey, encoded, hkey, Or.inl hexact⟩
  · cases hmode

theorem readRoot_covers {files : Disk} {manifest : Json} {i : CacheIdentity} {contextDigest : Digest}
    {m : RowManifest} {kind : RootKind} {ds : List Descriptor}
    (h : readRoot files manifest i contextDigest = .ok (.rows m, kind, ds)) :
    Covers i.chunkTokens 0 m.chunks m.committedTokens ∧ m.chunks ≠ [] := by
  unfold readRoot at h
  split at h
  · rw [bind_eq_ok] at h
    obtain ⟨rows, hrows, h⟩ := h
    cases h
    unfold resolveTailManifest at hrows
    simp only [bind_eq_ok] at hrows
    obtain ⟨_, -, _, -, _, -, hvalid⟩ := hrows
    exact (validateManifestMetadata_eq_ok hvalid).2
  · split at h
    · rw [bind_eq_ok] at h
      obtain ⟨rows, -, h⟩ := h
      cases h
    · split at h
      · rw [bind_eq_ok] at h
        obtain ⟨rows, -, h⟩ := h
        cases h
      · simp only [bind_eq_ok] at h
        obtain ⟨_, -, rows, hvalid, h⟩ := h
        cases h
        exact (validateManifestMetadata_eq_ok hvalid).2

/-- The rows of a hit cover its tokens. -/
theorem lookup_covers {files : Disk} {i : CacheIdentity} {contextDigest : Digest}
    {verification : Verification} {mode : StorageMode} {h : Hit} {m : RowManifest}
    (hhit : lookup files i contextDigest verification mode = .ok (.hit h)) (hrows : h.manifest = .rows m) :
    Covers i.chunkTokens 0 m.chunks m.committedTokens ∧ m.chunks ≠ [] := by
  rw [lookup_eq_hit] at hhit
  obtain ⟨storageKey, encoded, hkey, ⟨hfile, hexact⟩ | ⟨hfile, hmode, hread, halias⟩⟩ := hhit
  · rw [lookupExact_eq_ok] at hexact
    obtain ⟨document, manifest, kind, ds, u, hload, hroot, -, rfl⟩ := hexact
    obtain rfl : manifest = .rows m := hrows
    exact readRoot_covers hroot
  · rw [lookupAlias_eq_ok] at halias
    obtain ⟨document, root, descriptors, key, rows, u, hload, hroot, hchain, hkey', hvalid, -, rfl⟩ :=
      halias
    obtain rfl : rows = m := by simpa using hrows
    exact (validateManifestMetadata_eq_ok hvalid).2

/-! ## What is written -/

/-- Every new content is one of the given payloads. -/
def Adds (payloads : Set Bytes) (before after : Disk) : Prop :=
  contents after ⊆ contents before ∪ payloads

theorem Adds.refl (payloads : Set Bytes) (files : Disk) : Adds payloads files files :=
  Set.subset_union_left

theorem Adds.trans (payloads : Set Bytes) (f g h : Disk) (hfg : Adds payloads f g)
    (hgh : Adds payloads g h) : Adds payloads f h := by
  intro payload hpayload
  rcases hgh hpayload with hg | hnew
  · exact hfg hg
  · exact Or.inr hnew

theorem adds_insert {payloads : Set Bytes} {files : Disk} {path : Path} {payload : Bytes}
    (h : path.isRoot = true ∨ payload ∈ payloads) :
    Adds payloads files (files.insert path payload) := by
  rintro other ⟨p, hroot, hfile⟩
  by_cases hp : p = path
  · subst hp
    rw [AList.lookup_insert] at hfile
    cases hfile
    rcases h with hpath | hmem
    · rw [hpath] at hroot
      cases hroot
    · exact Or.inr hmem
  · rw [AList.lookup_insert_ne hp] at hfile
    exact Or.inl ⟨p, hroot, hfile⟩

theorem publishImmutableBatch_adds {payloads : Set Bytes} {objects : List (Path × Bytes)}
    (h : ∀ o ∈ objects, o.2 ∈ payloads) : Moves (Adds payloads) (publishImmutableBatch objects) :=
  publishImmutableBatch_moves (Adds.refl payloads) (Adds.trans payloads)
    (fun o ho _ _ => adds_insert (Or.inr (h o ho))) fun o ho _ _ => adds_insert (Or.inr (h o ho))

theorem publishImmutable_adds (payloads : Set Bytes) {path : Path} (hpath : path.isRoot = true)
    (payload : Bytes) : Moves (Adds payloads) (publishImmutable path payload) :=
  publishImmutable_moves (Adds.refl payloads) (Adds.trans payloads) fun _ _ =>
    adds_insert (Or.inl hpath)

end SparkCache.Store
