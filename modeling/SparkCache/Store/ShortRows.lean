import SparkCache.Json.Loaded
import SparkCache.Store.Reading

/-!
# Rows that can be written down again

The integers of rows that a lookup has found come from decoded documents, so
they are short enough for the documents that a publisher makes of them.
-/
namespace SparkCache.Store

open Json
open Pages (bind_eq_ok)

/-- The integers of a descriptor can be printed. -/
def ChunkDescriptor.Short (d : ChunkDescriptor) : Prop :=
  d.bytes < 10 ^ maxIntDigits ∧ d.logicalStart < 10 ^ maxIntDigits ∧ d.logicalEnd < 10 ^ maxIntDigits

theorem printable_nat {n : ℕ} : (Json.int n).printable = true ↔ n < 10 ^ maxIntDigits := by
  simp [printable]

theorem dumpCanonical_of_printable {v : Json} (h : v.printable = true) :
    ∃ encoded, dumpCanonical v = .ok encoded := by
  refine ⟨canonicalJson v, dumpCanonical_eq_ok.mpr ?_⟩
  rw [canonicalJson?, if_pos h]

theorem ChunkDescriptor.Short.printable {d : ChunkDescriptor} (h : d.Short) : d.json.printable = true := by
  apply printable_object
  obtain ⟨hbytes, hstart, hend⟩ := h
  simp only [fields, List.forall_mem_cons, printable_nat]
  exact ⟨rfl, hbytes, hstart, hend, by simp⟩

/-- The end of short rows is short. -/
theorem Covers.short {chunkTokens stop : ℕ} {ds : List ChunkDescriptor} :
    ∀ {start : ℕ}, Covers chunkTokens start ds stop → (∀ d ∈ ds, d.Short) → ds ≠ [] →
      stop < 10 ^ maxIntDigits := by
  induction ds with
  | nil =>
      intro start _ _ hne
      exact absurd rfl hne
  | cons d rest ih =>
      intro start h hshort _
      rw [List.forall_mem_cons] at hshort
      by_cases hnil : rest = []
      · subst hnil
        rw [show stop = d.logicalEnd from h.2]
        exact hshort.1.2.2
      · exact ih h.2 hshort.2 hnil

theorem CacheIdentity.printable {i : CacheIdentity} {storageKey : Digest}
    (h : i.view.storageKey = .ok storageKey) : i.toWire.printable = true := by
  unfold IdentityView.storageKey canonicalJson? at h
  by_contra hne
  rw [show i.view.wire = i.toWire from rfl, if_neg hne] at h
  cases h

theorem printable_of_dumpCanonical {v : Json} {encoded : Bytes} (h : dumpCanonical v = .ok encoded) :
    v.printable = true := by
  rw [dumpCanonical_eq_ok, canonicalJson?] at h
  by_contra hne
  rw [if_neg hne] at h
  cases h

theorem Covers.length_le {chunkTokens stop : ℕ} {ds : List ChunkDescriptor} :
    ∀ {start : ℕ}, Covers chunkTokens start ds stop → start + ds.length ≤ stop := by
  induction ds with
  | nil =>
      intro start h
      exact h.ge
  | cons d rest ih =>
      intro start h
      have hrest := ih h.2
      have hpos := h.1.2.1
      rw [List.length_cons]
      omega

theorem withMetadata_of_printable {fields : List (Str × Json)}
    (h : ∀ f ∈ fields, f.2.printable = true) :
    ∃ document, withMetadata fields = .ok document ∧ document.printable = true := by
  obtain ⟨encoded, hencoded⟩ := dumpCanonical_of_printable (printable_object h)
  refine ⟨.object (sealedFields fields (sha256 encoded)), ?_, ?_⟩
  · rw [withMetadata, hencoded]
    rfl
  · apply printable_object
    intro f hf
    rcases List.mem_append.mp hf with hf | hf
    · exact h f hf
    · rw [List.mem_singleton.mp hf]
      rfl

/-- The manifest of short rows can be written. -/
theorem dumpCanonical_manifest {i : CacheIdentity} {storageKey : Digest} (hkey : i.view.storageKey = .ok storageKey)
    (contextDigest : Digest) {chunkTokens stop : ℕ} {ds : List ChunkDescriptor} (hcovers : Covers chunkTokens 0 ds stop)
    (hshort : ∀ d ∈ ds, d.Short) (hne : ds ≠ []) :
    ∃ encoded, dumpCanonical (RowManifest.json ⟨i.toWire, contextDigest, stop, ds⟩) = .ok encoded := by
  apply dumpCanonical_of_printable
  apply printable_object
  have hdigits : maxIntDigits ≠ 0 := by
    unfold maxIntDigits
    omega
  have habi : formatAbi < 10 ^ maxIntDigits := Nat.one_lt_pow hdigits (show 1 < 10 by omega)
  simp only [List.forall_mem_cons, printable_nat]
  refine ⟨habi, i.printable hkey, rfl, hcovers.short hshort hne, ?_, by simp⟩
  rw [printable, printableItems_iff]
  intro item hitem
  obtain ⟨d, hd, rfl⟩ := List.mem_map.mp hitem
  exact (hshort d hd).printable

theorem toNat_lt_of_printable {v : Json} {n : ℤ} (h : v.printable = true) (hn : v.int? = some n) :
    n.toNat < 10 ^ maxIntDigits := by
  cases v with
  | int m =>
      cases hn
      simp only [printable, decide_eq_true_eq] at h
      omega
  | _ => cases hn

theorem field_printable {v x : Json} {key : Str} (hv : v.printable = true) (h : field v key = .ok x) :
    x.printable = true :=
  printable_of_get? hv (expect_eq_ok.mp h)

/-- The bounds of a chunk stand in its header; its size has to be printed in a manifest, too. -/
theorem describe_short {chunk : ContextChunk} {encoded : Bytes} (h : encodeChunk chunk = .ok encoded)
    (hsize : encoded.length < 10 ^ maxIntDigits) : (describe chunk encoded).Short := by
  unfold encodeChunk at h
  simp only [bind_eq_ok] at h
  obtain ⟨header, hheader, -⟩ := h
  have hprint := printable_of_dumpCanonical hheader
  have hend : (chunkHeaderJson chunk).get? "logical_end" = some (.int chunk.logicalEnd) := by
    rw [chunkHeaderJson_field]
    simp [getField]
  have hlt := printable_nat.mp (printable_of_get? hprint hend)
  exact ⟨hsize, chunk.ordered.trans hlt, hlt⟩

theorem readChunkDescriptor_short {chunkTokens start : ℕ} {isLast : Bool} {item : Json}
    {d : ChunkDescriptor} (hitem : item.printable = true)
    (h : readChunkDescriptor chunkTokens start isLast item = .ok d) :
    d.Short := by
  unfold readChunkDescriptor at h
  simp only [bind_eq_ok, require_eq_ok, expect_eq_ok] at h
  obtain ⟨_, -, _, -, _, -, _, -, bytes, hbytes, n, hn, _, -, first, hfirst, a, ha, stop, hstop, b, hb, _,
    ⟨hstart, -⟩, _, -, h⟩ := h
  cases h
  have hfirstLt := toNat_lt_of_printable (field_printable hitem hfirst) ha
  refine ⟨toNat_lt_of_printable (field_printable hitem hbytes) hn, ?_,
    toNat_lt_of_printable (field_printable hitem hstop) hb⟩
  show start < _
  omega

theorem readChunkDescriptors_short {chunkTokens stop : ℕ} {items : List Json} :
    ∀ {start : ℕ} {ds : List ChunkDescriptor}, (∀ item ∈ items, item.printable = true) →
      readChunkDescriptors chunkTokens start items = .ok (ds, stop) → ∀ d ∈ ds, d.Short := by
  induction items with
  | nil =>
      intro start ds _ h
      cases h
      simp
  | cons item rest ih =>
      intro start ds hitems h
      rw [List.forall_mem_cons] at hitems
      rw [readChunkDescriptors] at h
      simp only [bind_eq_ok] at h
      obtain ⟨d, hd, ⟨tail, last⟩, htail, h⟩ := h
      cases h
      exact List.forall_mem_cons.mpr ⟨readChunkDescriptor_short hitems.1 hd, ih hitems.2 htail⟩

/-- A manifest of printable descriptors has short ones. -/
theorem validateManifestMetadata_short {manifest : Json} {key : EntryKey} {expected : Option IdentityView}
    {m : RowManifest} {items : List Json} (hitems : ∀ item ∈ items, item.printable = true)
    (hchunks : field manifest "chunks" = .ok (.arr items))
    (h : validateManifestMetadata manifest key expected = .ok m) : ∀ d ∈ m.chunks, d.Short := by
  unfold validateManifestMetadata at h
  simp only [bind_eq_ok, require_eq_ok, expect_eq_ok, listItems_eq_ok] at h
  obtain ⟨_, -, _, -, _, -, _, -, _, -, _, -, value, hvalue, items', rfl, _, -, ⟨ds, stop⟩, hds, _, -, _,
    -, h⟩ := h
  cases h
  rw [hchunks] at hvalue
  cases hvalue
  exact readChunkDescriptors_short hitems hds

theorem loadJson_printable {encoded : Bytes} {message : String} {v : Json}
    (h : loadJson encoded message = .ok v) : v.printable = true := by
  rw [loadJson, mapError_eq_ok] at h
  exact loads_printable h

theorem arr_printable {items : List Json} (h : (Json.arr items).printable = true) :
    ∀ item ∈ items, item.printable = true :=
  (printableItems_iff items).mp h

theorem readSegment_printable {files : Disk} {storageKey digest : Digest} {index : ℕ} {isTail : Bool}
    {segment : PrefixSegment} (h : readSegment files storageKey index isTail digest = .ok segment) :
    ∀ item ∈ segment.descriptors, item.printable = true := by
  unfold readSegment validatePrefixSegment at h
  simp only [bind_eq_ok, listItems_eq_ok] at h
  obtain ⟨_, -, _, -, document, hload, _, ⟨_, -, _, -, _, -, _, -, _, -, _, -, _, -, _, -, value, hvalue,
    items, rfl, _, -, _, -, hsegment⟩, _, -, h⟩ := h
  cases h
  cases hsegment
  exact arr_printable (field_printable (loadJson_printable hload) hvalue)

theorem readSegments_printable {files : Disk} {storageKey : Digest} {n : ℕ} :
    ∀ {visited : List Digest} {isTail : Bool} {digest : Digest} {ds : List Json},
      readSegments files storageKey visited isTail n digest = .ok ds →
        ∀ item ∈ ds, item.printable = true := by
  induction n with
  | zero =>
      intro visited isTail digest ds h
      cases h
  | succ n ih =>
      intro visited isTail digest ds h
      obtain ⟨-, segment, hsegment, hrest⟩ := readSegments_eq_ok.mp h
      rcases hrest with ⟨-, -, rfl⟩ | ⟨-, parent, before, -, hbefore, rfl⟩
      · exact readSegment_printable hsegment
      · intro item hitem
        rcases List.mem_append.mp hitem with hitem | hitem
        · exact ih hbefore item hitem
        · exact readSegment_printable hsegment item hitem

theorem readDescriptorChain_printable {files : Disk} {i : IdentityView} {root : Option Digest}
    {chunkCount : ℕ} {ds : List Json} (h : readDescriptorChain files i root chunkCount = .ok ds) :
    ∀ item ∈ ds, item.printable = true := by
  rcases readDescriptorChain_eq_ok.mp h with
    ⟨-, -, rfl⟩ | ⟨-, digest, storageKey, descriptors, -, -, hread, -, rfl⟩
  · simp
  · exact fun item hitem => readSegments_printable hread item (List.mem_of_mem_take hitem)

theorem validateTailManifestRoot_printable {manifest : Json} {i : IdentityView} {contextDigest : Digest}
    {root : TailRoot} (hmanifest : manifest.printable = true)
    (h : validateTailManifestRoot manifest i contextDigest = .ok root) :
    ∀ item ∈ root.tailChunks, item.printable = true := by
  unfold validateTailManifestRoot at h
  simp only [bind_eq_ok, listItems_eq_ok] at h
  obtain ⟨_, -, _, -, _, -, _, -, _, -, _, -, _, -, _, -, _, -, _, -, _, -, _, -, _, -, _, -, _, -, _, -, _, -,
    _, -, _, -, _, -, _, -, _, -, _, -, _, -, _, -, _, -, value, hvalue, items, rfl, _, -, _, -, h⟩ := h
  cases h
  exact arr_printable (field_printable hmanifest hvalue)

theorem manifestJson_chunks (identity : Json) (contextDigest : Digest) (committedTokens : ℕ)
    (items : List Json) :
    field (manifestJson identity contextDigest committedTokens items) "chunks" = .ok (.arr items) := by
  rw [manifestJson_field]
  simp [getField, expect]

theorem resolveTailManifest_short {files : Disk} {manifest : Json} {i : IdentityView}
    {contextDigest : Digest} {m : RowManifest} (hmanifest : manifest.printable = true)
    (h : resolveTailManifest files manifest i contextDigest = .ok m) : ∀ d ∈ m.chunks, d.Short := by
  unfold resolveTailManifest at h
  simp only [bind_eq_ok] at h
  obtain ⟨root, hroot, base, hbase, _, -, hvalid⟩ := h
  have hitems : ∀ item ∈ base ++ root.tailChunks, item.printable = true := by
    intro item hitem
    rcases List.mem_append.mp hitem with hitem | hitem
    · exact readDescriptorChain_printable hbase item hitem
    · exact validateTailManifestRoot_printable hmanifest hroot item hitem
  exact validateManifestMetadata_short hitems (manifestJson_chunks _ _ _ _) hvalid

theorem plainManifest_short {manifest : Json} {key : EntryKey} {expected : Option IdentityView}
    {m : RowManifest} (hmanifest : manifest.printable = true)
    (h : validateManifestMetadata manifest key expected = .ok m) : ∀ d ∈ m.chunks, d.Short := by
  have hvalid := h
  unfold validateManifestMetadata at h
  simp only [bind_eq_ok, listItems_eq_ok] at h
  obtain ⟨_, -, _, -, _, -, _, -, _, -, _, -, value, hvalue, items, rfl, -⟩ := h
  exact validateManifestMetadata_short (arr_printable (field_printable hmanifest hvalue)) hvalue hvalid

theorem readRoot_short {files : Disk} {manifest : Json} {i : IdentityView} {contextDigest : Digest}
    {m : RowManifest} {kind : RootKind} {ds : List Descriptor} (hmanifest : manifest.printable = true)
    (h : readRoot files manifest i contextDigest = .ok (.rows m, kind, ds)) :
    ∀ d ∈ m.chunks, d.Short := by
  unfold readRoot at h
  split at h
  · rw [bind_eq_ok] at h
    obtain ⟨rows, hrows, h⟩ := h
    cases h
    exact resolveTailManifest_short hmanifest hrows
  · split at h
    · rw [bind_eq_ok] at h
      obtain ⟨_, -, h⟩ := h
      cases h
    · split at h
      · rw [bind_eq_ok] at h
        obtain ⟨_, -, h⟩ := h
        cases h
      · simp only [bind_eq_ok] at h
        obtain ⟨_, -, rows, hvalid, h⟩ := h
        cases h
        exact plainManifest_short hmanifest hvalid

/-- Rows that are found can be written down again. -/
theorem lookup_short {files : Disk} {i : IdentityView} {contextDigest : Digest}
    {verification : Verification} {mode : StorageMode} {h : Hit} {m : RowManifest}
    (hhit : lookup files i contextDigest verification mode = .ok (.hit h)) (hrows : h.manifest = .rows m) :
    ∀ d ∈ m.chunks, d.Short := by
  rw [lookup_eq_hit] at hhit
  obtain ⟨storageKey, encoded, hkey, ⟨hfile, hexact⟩ | ⟨hfile, hmode, hread, halias⟩⟩ := hhit
  · rw [lookupExact_eq_ok] at hexact
    obtain ⟨document, manifest, kind, ds, u, hload, hroot, -, rfl⟩ := hexact
    obtain rfl : manifest = .rows m := hrows
    exact readRoot_short (loadJson_printable hload) hroot
  · rw [lookupAlias_eq_ok] at halias
    obtain ⟨document, root, descriptors, key, rows, u, hload, hroot, hchain, hkey', hvalid, -, rfl⟩ :=
      halias
    obtain rfl : rows = m := by simpa using hrows
    exact validateManifestMetadata_short (readDescriptorChain_printable hchain)
      (manifestJson_chunks _ _ _ _) hvalid

end SparkCache.Store
