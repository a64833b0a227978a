import SparkCache.Store.Extension
import SparkCache.Store.ShortRows

/-!
# Prefix aliases

An alias names a shorter context whose chunks are the first ones of a committed
row manifest. All aliases of one publication share a descriptor chain; each of
them counts the chunks that it takes from the chain.
-/
namespace SparkCache.Store

open Files Files.FileM Json Pages

structure AliasCall where
  source : Digest
  tokens : List ℤ
  salt : String
  prefixTokens : Option (List ℕ)
  mode : StorageMode
  steps : Option ℕ

/-- `_MAX_PREFIX_ALIASES` -/
def maxPrefixAliases : ℕ := 64

/-- The boundaries of a publication that names none: every sixteenth chunk and the last, of these
the last ones. -/
def defaultBoundaries (chunkTokens committedTokens : ℕ) : List ℕ :=
  let stride := prefixSegmentDescriptors * chunkTokens
  let whole := (List.range (committedTokens / stride)).map fun k => (k + 1) * stride
  let all := if whole.getLast? = some committedTokens then whole else whole ++ [committedTokens]
  all.drop (all.length - maxPrefixAliases)

/-- The boundaries that are asked for; a negative one is refused later, like zero. -/
def requestedBoundaries (chunkTokens committedTokens : ℕ) :
    Option (List ℕ) → Except StoreError (List ℕ)
  | none => .ok (defaultBoundaries chunkTokens committedTokens)
  | some boundaries => do
      require (boundaries ≠ []) (.value "prefix_tokens must not be empty")
      require (boundaries.length ≤ maxPrefixAliases)
        (.value "at most 64 prefix aliases may be published")
      require (boundaries.Pairwise (· < ·))
        (.value "prefix_tokens must be strictly increasing and unique")
      return boundaries

/-- `json.loads` and the failures that are wrapped. -/
def loadSource (encoded : Bytes) : Except StoreError Json :=
  (loads encoded).mapError fun
    | .decode => .format "source manifest is not publishable"
    | .unicode => .value "invalid start byte"
    | .digits => .digits

def asPublishable (x : Except StoreError α) : Except StoreError α :=
  x.mapError fun
    | .format _ | .fields _ | .incompatible _ => .format "source manifest is not publishable"
    | e => e

/-- The rows of a source: a manifest, or a tail that is resolved. -/
def sourceRows (files : Disk) (i : CacheIdentity) (storageKey source : Digest) (manifest : Json) :
    Except StoreError RowManifest :=
  if manifest.get? "schema" = some (.str tailManifestSchema) then
    resolveTailManifest files manifest i source
  else validateManifestMetadata manifest ⟨storageKey, source⟩ (some i.view)

/-- `sorted(set((*boundaries, committed_tokens)))` -/
def digestBoundaries (boundaries : List ℕ) (committedTokens : ℕ) : List ℕ :=
  (boundaries ++ [committedTokens]).dedup.mergeSort

/-- The number of chunks that end at or before a boundary, if one ends there. The ends of the
chunks are different. -/
def descriptorEnd (ds : List ChunkDescriptor) (boundary : ℕ) : Option ℕ :=
  (ds.findIdx? fun d => d.logicalEnd = boundary).map (· + 1)

/-- An alias to be published. -/
structure AliasTarget where
  boundary : ℕ
  chunkCount : ℕ
  contextDigest : Digest

structure AliasPlan where
  storageKey : Digest
  sourceManifest : Digest
  descriptors : List ChunkDescriptor
  targets : List AliasTarget

/-- A boundary with its digest and its chunks. -/
def planTarget (ds : List ChunkDescriptor) (digests : List (ℕ × Digest)) (boundary : ℕ) :
    Except StoreError AliasTarget := do
  let chunkCount ← expect (descriptorEnd ds boundary)
    (.value "prefix token boundary is not a source chunk boundary")
  return ⟨boundary, chunkCount, ← expect (digests.lookup boundary) .key⟩

/-- The checks over a source that was found. -/
def planSource (i : CacheIdentity) (call : AliasCall) (storageKey sourceManifest : Digest)
    (rows : RowManifest) : Except StoreError AliasPlan := do
  require (rows.committedTokens % i.chunkTokens = 0)
    (.value "prefix alias source must end on chunk geometry")
  let boundaries ← requestedBoundaries i.chunkTokens rows.committedTokens call.prefixTokens
  -- The width of a chunk is not passed on: the boundaries are checked against the default.
  let digests ← chunkPrefixDigests call.tokens call.salt
    (digestBoundaries boundaries rows.committedTokens) defaultChunkTokens
  let committed ← expect (digests.lookup rows.committedTokens) .key
  require (committed = call.source) (.conflict "source digest disagrees with supplied token sequence")
  return ⟨storageKey, sourceManifest, rows.chunks,
    ← boundaries.mapM (planTarget rows.chunks digests)⟩

/-- The checks of `_publish_prefix_aliases` before anything is written. -/
def planAliases (files : Disk) (i : CacheIdentity) (call : AliasCall) :
    Except StoreError AliasPlan := do
  require (call.mode = .perTokenRows) (.value "prefix aliases require per_token_rows storage")
  let storageKey ← i.view.storageKey
  let encoded ← readBytes files (.manifest storageKey call.source)
  let manifest ← loadSource encoded
  let rows ← asPublishable (sourceRows files i storageKey call.source manifest)
  planSource i call storageKey (sha256 encoded) rows

/-- `maximum_chunks` -/
def AliasPlan.maximumChunks (plan : AliasPlan) : ℕ :=
  plan.targets.foldl (fun most target => max most target.chunkCount) 0

/-- The file of an alias whose tail is one of the segments. -/
def encodeAlias (i : CacheIdentity) (plan : AliasPlan) (segments : List Bytes) (target : AliasTarget) :
    Except StoreError Bytes := do
  let tail ← expect segments[(target.chunkCount - 1) / prefixSegmentDescriptors]? .key
  let root ← withMetadata (aliasFields i.toWire target.contextDigest
    ⟨target.boundary, target.chunkCount, sha256 tail⟩ plan.sourceManifest)
  dumpCanonical root

def publishTargets (i : CacheIdentity) (plan : AliasPlan) (segments : List Bytes) :
    List AliasTarget → StoreM Unit
  | [] => pure ()
  | target :: rest => do
      let encoded ← lift (encodeAlias i plan segments target)
      publishImmutable (.prefixAlias plan.storageKey target.contextDigest) encoded
      publishTargets i plan segments rest

structure PrefixAliasReceipt where
  sourceManifestDigest : Digest
  segmentsPublished : ℕ
  aliases : List AliasTarget

/-- `publish_prefix_aliases` -/
def publishPrefixAliases (i : CacheIdentity) (call : AliasCall) : StoreM PrefixAliasReceipt := do
  let planned ← view fun files => planAliases files i call
  let plan ← lift planned
  let segments ← lift (chainSegments plan.storageKey plan.descriptors (segmentCount plan.maximumChunks))
  publishImmutableBatch (segments.map (segmentObject plan.storageKey))
  publishTargets i plan segments plan.targets
  return ⟨plan.sourceManifest, segments.length, plan.targets⟩

/-! ## Plans -/

theorem mem_digestBoundaries {boundaries : List ℕ} {committedTokens b : ℕ} :
    b ∈ digestBoundaries boundaries committedTokens ↔ b ∈ boundaries ∨ b = committedTokens := by
  simp [digestBoundaries]

theorem digestBoundaries_ne (boundaries : List ℕ) (committedTokens : ℕ) :
    digestBoundaries boundaries committedTokens ≠ [] := by
  intro hnil
  have hmem : committedTokens ∈ digestBoundaries boundaries committedTokens :=
    mem_digestBoundaries.mpr (Or.inr rfl)
  rw [hnil] at hmem
  cases hmem

theorem lookup_map_pair {α : Type} (f : ℕ → α) {keys : List ℕ} {k : ℕ} {v : α}
    (h : (keys.map fun b => (b, f b)).lookup k = some v) : k ∈ keys ∧ v = f k := by
  induction keys with
  | nil => cases h
  | cons b rest ih =>
      rw [List.map_cons, List.lookup_cons] at h
      by_cases hb : k = b
      · subst hb
        simp only [beq_self_eq_true] at h
        exact ⟨List.mem_cons_self, (Option.some.inj h).symm⟩
      · rw [beq_eq_false_iff_ne.mpr hb] at h
        obtain ⟨hmem, hv⟩ := ih h
        exact ⟨List.mem_cons_of_mem _ hmem, hv⟩

/-- A digest of the pass is the digest of the prefix. -/
theorem chunkPrefixDigests_lookup {tokens : List ℤ} {salt : String} {boundaries : List ℕ}
    {chunkTokens b : ℕ} {digests : List (ℕ × Digest)}
    {d : Digest} (hne : boundaries ≠ [])
    (h : chunkPrefixDigests tokens salt boundaries chunkTokens = .ok digests)
    (hd : digests.lookup b = some d) : contextPrefixDigest tokens salt b = .ok d := by
  obtain ⟨packed, ascii, hpacked, haccepted, hascii, rfl⟩ := (chunkPrefixDigests_eq_ok hne).mp h
  obtain ⟨hb, rfl⟩ := lookup_map_pair _ hd
  exact contextPrefixDigest_eq_ok.mpr ⟨packed, ascii, hpacked, (haccepted.of_mem b hb).2.1, hascii, rfl⟩

/-- What a plan is made of. -/
structure Sources (files : Disk) (i : CacheIdentity) (call : AliasCall) (rows : RowManifest)
    (plan : AliasPlan) : Prop where
  key : i.view.storageKey = .ok plan.storageKey
  file : ∃ encoded document, files.lookup (.manifest plan.storageKey call.source) = some encoded ∧
    loads encoded = .ok document ∧
    sourceRows files i plan.storageKey call.source document = .ok rows ∧
    plan.sourceManifest = sha256 encoded
  geometry : rows.committedTokens % i.chunkTokens = 0
  descriptors : plan.descriptors = rows.chunks
  source : contextPrefixDigest call.tokens call.salt rows.committedTokens = .ok call.source
  boundaries : requestedBoundaries i.chunkTokens rows.committedTokens call.prefixTokens =
    .ok (plan.targets.map AliasTarget.boundary)
  targets : ∀ t ∈ plan.targets, descriptorEnd rows.chunks t.boundary = some t.chunkCount ∧
    contextPrefixDigest call.tokens call.salt t.boundary = .ok t.contextDigest

theorem mapM_planTarget {ds : List ChunkDescriptor} {digests : List (ℕ × Digest)}
    {boundaries : List ℕ} :
    ∀ {targets : List AliasTarget}, boundaries.mapM (planTarget ds digests) = .ok targets →
      targets.map AliasTarget.boundary = boundaries ∧ ∀ t ∈ targets,
        descriptorEnd ds t.boundary = some t.chunkCount ∧
          digests.lookup t.boundary = some t.contextDigest := by
  induction boundaries with
  | nil =>
      intro targets h
      cases h
      simp
  | cons b rest ih =>
      intro targets h
      rw [List.mapM_cons] at h
      simp only [Pages.bind_eq_ok] at h
      obtain ⟨target, htarget, tail, htail, h⟩ := h
      cases h
      obtain ⟨hmap, hall⟩ := ih htail
      unfold planTarget at htarget
      simp only [Pages.bind_eq_ok, expect_eq_ok] at htarget
      obtain ⟨count, hcount, digest, hdigest, htarget⟩ := htarget
      cases htarget
      refine ⟨by rw [List.map_cons, hmap], ?_⟩
      intro t ht
      rcases List.mem_cons.mp ht with rfl | ht
      · exact ⟨hcount, hdigest⟩
      · exact hall t ht

theorem planAliases_eq_ok {files : Disk} {i : CacheIdentity} {call : AliasCall} {plan : AliasPlan}
    (h : planAliases files i call = .ok plan) : ∃ rows, Sources files i call rows plan := by
  unfold planAliases planSource loadSource asPublishable at h
  simp only [Pages.bind_eq_ok, require_eq_ok, readBytes_eq_ok, mapError_eq_ok, expect_eq_ok] at h
  obtain ⟨_, -, storageKey, hkey, encoded, hfile, document, hload, rows, hrows, _, hgeometry, boundaries,
    hboundaries, digests, hdigests, committed, hcommitted, _, rfl, targets, htargets, h⟩ := h
  cases h
  obtain ⟨hmap, hall⟩ := mapM_planTarget htargets
  have hne := digestBoundaries_ne boundaries rows.committedTokens
  refine ⟨rows, hkey, ⟨encoded, document, hfile, hload, hrows, rfl⟩, hgeometry, rfl,
    chunkPrefixDigests_lookup hne hdigests hcommitted, hmap ▸ hboundaries, ?_⟩
  intro t ht
  obtain ⟨hcount, hdigest⟩ := hall t ht
  exact ⟨hcount, chunkPrefixDigests_lookup hne hdigests hdigest⟩

/-- The rows of a source are those that a lookup of it finds. -/
theorem sourceRows_readRoot {files : Disk} {i : CacheIdentity} {storageKey source : Digest}
    {document : Json} {rows : RowManifest} {kind : RootKind} {ds : List Descriptor}
    (hkey : i.view.storageKey = .ok storageKey)
    (h : readRoot files document i source = .ok (.rows rows, kind, ds)) :
    sourceRows files i storageKey source document = .ok rows := by
  unfold readRoot at h
  unfold sourceRows
  split at h
  · rename_i hschema
    rw [if_pos hschema]
    rw [Pages.bind_eq_ok] at h
    obtain ⟨m, hm, h⟩ := h
    cases h
    exact hm
  · rename_i hschema
    rw [if_neg hschema]
    split at h
    · rw [Pages.bind_eq_ok] at h
      obtain ⟨_, -, h⟩ := h
      cases h
    · split at h
      · rw [Pages.bind_eq_ok] at h
        obtain ⟨_, -, h⟩ := h
        cases h
      · simp only [Pages.bind_eq_ok] at h
        obtain ⟨key, hkey', m, hm, h⟩ := h
        rw [hkey] at hkey'
        cases hkey'
        cases h
        exact hm

/-- A source that is served is the one that the plan has found. -/
theorem Sources.rows_eq {files : Disk} {i : CacheIdentity} {call : AliasCall} {rows : RowManifest}
    {plan : AliasPlan} (hs : Sources files i call rows plan) {h : Hit} {m : RowManifest}
    {chunks : List ContextChunk} (hserved : ServedRows files i call.source .other h m chunks) :
    rows = m := by
  obtain ⟨encoded, document, hfile, hload, hrows, -⟩ := hs.file
  have hhit := hserved.hit
  rw [lookup_eq_hit] at hhit
  obtain ⟨storageKey, encoded', hkey, ⟨hfile', hexact⟩ | ⟨-, hmode, -⟩⟩ := hhit
  · rw [hs.key] at hkey
    cases hkey
    rw [hfile] at hfile'
    cases hfile'
    rw [lookupExact_eq_ok] at hexact
    obtain ⟨document', manifest, kind, ds, u, hload', hroot, -, rfl⟩ := hexact
    rw [loadJson, mapError_eq_ok, hload] at hload'
    cases hload'
    obtain rfl : manifest = .rows m := hserved.rows
    rw [sourceRows_readRoot hs.key hroot] at hrows
    cases hrows
    rfl
  · cases hmode

/-! ## Publication -/

/-- After the loop every alias file is there, and nothing but alias files has changed. -/
theorem publishTargets_eq_ok {i : CacheIdentity} {plan : AliasPlan} {segments : List Bytes}
    {targets : List AliasTarget} :
    ∀ {w w' : World Path Bytes} {u : Unit}, publishTargets i plan segments targets w = (.ok u, w') →
      (∀ t ∈ targets, ∃ encoded, encodeAlias i plan segments t = .ok encoded ∧
        w'.files.lookup (.prefixAlias plan.storageKey t.contextDigest) = some encoded) ∧
      (∀ p, (∀ d, p ≠ .prefixAlias plan.storageKey d) → w'.files.lookup p = w.files.lookup p) ∧
      ∀ d encoded, w.files.lookup (.prefixAlias plan.storageKey d) = some encoded →
        w'.files.lookup (.prefixAlias plan.storageKey d) = some encoded := by
  induction targets with
  | nil =>
      intro w w' u h
      cases h
      exact ⟨by simp, fun _ _ => rfl, fun _ _ h => h⟩
  | cons target rest ih =>
      intro w w' u h
      rw [publishTargets] at h
      simp only [FileM.bind_eq_ok, lift_apply] at h
      obtain ⟨encoded, w₁, hlift, _, w₂, hpublish, hrest⟩ := h
      obtain ⟨hencoded, rfl⟩ := Prod.mk.inj hlift
      obtain ⟨hfile, hsame, hfree⟩ := publishImmutable_eq_ok hpublish
      obtain ⟨hall, hframe, hkept⟩ := ih hrest
      refine ⟨?_, ?_, ?_⟩
      · intro t ht
        rcases List.mem_cons.mp ht with rfl | ht
        · exact ⟨encoded, hencoded, hkept _ _ hfile⟩
        · exact hall t ht
      · intro p hp
        rw [hframe p hp, hsame p (hp _)]
      · intro d bytes hbytes
        apply hkept
        by_cases hd : d = target.contextDigest
        · subst hd
          rcases hfree with hnone | hsome
          · rw [hnone] at hbytes
            cases hbytes
          · rw [hsome] at hbytes
            rw [hfile, hbytes]
        · rw [hsame _ (by simpa using hd)]
          exact hbytes

/-- What a successful publication has written. -/
theorem publishPrefixAliases_eq_ok {i : CacheIdentity} {call : AliasCall}
    {receipt : PrefixAliasReceipt} {w w' : World Path Bytes}
    (h : publishPrefixAliases i call w = (.ok receipt, w')) :
    ∃ plan segments, planAliases w.files i call = .ok plan ∧
      chainSegments plan.storageKey plan.descriptors (segmentCount plan.maximumChunks) = .ok segments ∧
      Stored w'.files plan.storageKey segments ∧
      (∀ t ∈ plan.targets, ∃ encoded, encodeAlias i plan segments t = .ok encoded ∧
        w'.files.lookup (.prefixAlias plan.storageKey t.contextDigest) = some encoded) ∧
      receipt = ⟨plan.sourceManifest, segments.length, plan.targets⟩ := by
  unfold publishPrefixAliases at h
  simp only [FileM.bind_eq_ok, view_apply, lift_apply] at h
  obtain ⟨planned, w₁, hview, plan, w₂, hlift, segments, w₃, hchain, _, w₄, hbatch, _, w₅, htargets,
    hreceipt⟩ := h
  cases hview
  obtain ⟨hplan, rfl⟩ := Prod.mk.inj hlift
  obtain ⟨hsegments, rfl⟩ := Prod.mk.inj hchain
  cases hreceipt
  obtain ⟨hall, hframe, -⟩ := publishTargets_eq_ok htargets
  refine ⟨plan, segments, hplan, hsegments, fun e he => ?_, hall, rfl⟩
  rw [hframe _ (by simp)]
  exact (publishImmutableBatch_eq_ok hbatch).1 (segmentObject plan.storageKey e) (List.mem_map_of_mem he)

theorem publishTargets_grows (i : CacheIdentity) (plan : AliasPlan) (segments : List Bytes)
    (targets : List AliasTarget) : Moves Grows (publishTargets i plan segments targets) := by
  induction targets with
  | nil => exact Moves.pure Grows.refl ()
  | cons target rest ih =>
      intro w
      refine Moves.lift_bind Grows.refl fun encoded _ => ?_
      exact Moves.bind Grows.trans (publishImmutable_grows _ _) fun _ => ih

theorem publishPrefixAliases_grows (i : CacheIdentity) (call : AliasCall) :
    Moves Grows (publishPrefixAliases i call) := by
  apply Moves.view_bind
  intro w
  refine Moves.lift_bind Grows.refl fun plan _ => ?_
  intro w
  refine Moves.lift_bind Grows.refl fun segments _ => ?_
  refine Moves.bind Grows.trans (publishImmutableBatch_grows ?_) fun _ => ?_
  · intro o ho
    obtain ⟨e, -, rfl⟩ := List.mem_map.mp ho
    rfl
  · exact Moves.bind Grows.trans (publishTargets_grows i plan segments _) fun _ =>
      Moves.pure Grows.refl _

/-! ## Documents that can be written -/

theorem encodeAlias_of_short {i : CacheIdentity} {plan : AliasPlan} {segments : List Bytes}
    {target : AliasTarget} (hkey : i.view.storageKey = .ok plan.storageKey)
    (hboundary : target.boundary < 10 ^ maxIntDigits) (hcount : target.chunkCount < 10 ^ maxIntDigits)
    (hsegment : (target.chunkCount - 1) / prefixSegmentDescriptors < segments.length) :
    ∃ encoded, encodeAlias i plan segments target = .ok encoded := by
  have hfields : ∀ f ∈ aliasFields i.toWire target.contextDigest ⟨target.boundary, target.chunkCount,
      sha256 segments[(target.chunkCount - 1) / prefixSegmentDescriptors]⟩ plan.sourceManifest,
      f.2.printable = true := by
    simp only [aliasFields, List.forall_mem_cons, printable_nat]
    have hdigits : maxIntDigits ≠ 0 := by
      unfold maxIntDigits
      omega
    have habi : formatAbi < 10 ^ maxIntDigits := Nat.one_lt_pow hdigits (show 1 < 10 by omega)
    exact ⟨rfl, habi, rfl, i.printable hkey, rfl, hboundary, hcount, rfl, rfl, by simp⟩
  obtain ⟨document, hdocument, hprint⟩ := withMetadata_of_printable hfields
  obtain ⟨encoded, hencoded⟩ := dumpCanonical_of_printable hprint
  refine ⟨encoded, ?_⟩
  unfold encodeAlias
  simp only [Pages.bind_eq_ok, expect_eq_ok]
  exact ⟨_, List.getElem?_eq_getElem hsegment, document, hdocument, hencoded⟩

/-! ## Default boundaries -/

theorem mem_defaultBoundaries {chunkTokens committed b : ℕ} (hpos : 0 < chunkTokens)
    (hcommitted : 0 < committed) (hgeometry : committed % chunkTokens = 0)
    (h : b ∈ defaultBoundaries chunkTokens committed) : 0 < b ∧ b ≤ committed ∧ b % chunkTokens = 0 := by
  have hall : b ∈ ((List.range (committed / (prefixSegmentDescriptors * chunkTokens))).map
      fun k => (k + 1) * (prefixSegmentDescriptors * chunkTokens)) ++ [committed] := by
    have hmem := List.mem_of_mem_drop h
    split at hmem
    · exact List.mem_append_left _ hmem
    · exact hmem
  rcases List.mem_append.mp hall with hmem | hmem
  · obtain ⟨k, hk, rfl⟩ := List.mem_map.mp hmem
    have hstride : 0 < prefixSegmentDescriptors * chunkTokens := Nat.mul_pos (by decide) hpos
    refine ⟨Nat.mul_pos (Nat.succ_pos k) hstride, ?_, ?_⟩
    · exact (Nat.le_div_iff_mul_le hstride).mp (List.mem_range.mp hk)
    · exact Nat.mod_eq_zero_of_dvd (Dvd.intro_left _ (by rw [Nat.mul_assoc]))
  · rw [List.mem_singleton.mp hmem]
    exact ⟨hcommitted, le_rfl, hgeometry⟩

theorem getLast?_drop_of_lt {xs : List ℕ} {n : ℕ} (h : n < xs.length) :
    (xs.drop n).getLast? = xs.getLast? := by
  rw [List.getLast?_drop, if_neg (by omega)]

/-- The source itself is the last default boundary. -/
theorem defaultBoundaries_getLast (chunkTokens committed : ℕ) :
    (defaultBoundaries chunkTokens committed).getLast? = some committed := by
  unfold defaultBoundaries
  simp only
  split
  · rename_i hlast
    rw [getLast?_drop_of_lt, hlast]
    have hne := List.length_pos_iff.mpr (List.ne_nil_of_mem (List.mem_of_getLast? hlast))
    simp only [maxPrefixAliases] at hne ⊢
    omega
  · rw [getLast?_drop_of_lt, List.getLast?_concat]
    simp only [maxPrefixAliases, List.length_append, List.length_singleton]
    omega

theorem defaultBoundaries_pairwise (chunkTokens committed : ℕ) (hpos : 0 < chunkTokens) :
    (defaultBoundaries chunkTokens committed).Pairwise (· < ·) := by
  have hstride : 0 < prefixSegmentDescriptors * chunkTokens := Nat.mul_pos (by decide) hpos
  have hwhole : ((List.range (committed / (prefixSegmentDescriptors * chunkTokens))).map
      fun k => (k + 1) * (prefixSegmentDescriptors * chunkTokens)).Pairwise (· < ·) := by
    rw [List.pairwise_map]
    refine List.pairwise_lt_range.imp fun {a b} hab => ?_
    exact Nat.mul_lt_mul_of_pos_right (by omega) hstride
  unfold defaultBoundaries
  simp only
  apply List.Pairwise.drop
  split
  · exact hwhole
  · rename_i hlast
    rw [List.pairwise_append]
    refine ⟨hwhole, List.pairwise_singleton _ _, ?_⟩
    intro a ha b hb
    rw [List.mem_singleton.mp hb]
    obtain ⟨k, hk, rfl⟩ := List.mem_map.mp ha
    have hle : (k + 1) * (prefixSegmentDescriptors * chunkTokens) ≤ committed :=
      (Nat.le_div_iff_mul_le hstride).mp (List.mem_range.mp hk)
    refine lt_of_le_of_ne hle ?_
    rintro heq
    apply hlast
    have hk' : committed / (prefixSegmentDescriptors * chunkTokens) = k + 1 := by
      rw [← heq, Nat.mul_div_cancel _ hstride]
    rw [hk', List.range_succ, List.map_append, List.map_singleton, List.getLast?_concat, heq]

theorem accepted_of_pairwise {length chunkTokens : ℕ} {boundaries : List ℕ} :
    ∀ {previous : ℕ}, boundaries.Pairwise (· < ·) →
      (∀ b ∈ boundaries, previous < b ∧ b ≤ length ∧ b % chunkTokens = 0) →
      Accepted length chunkTokens previous boundaries := by
  induction boundaries with
  | nil => exact fun _ _ => trivial
  | cons boundary rest ih =>
      intro previous hsorted hall
      rw [List.pairwise_cons] at hsorted
      rw [List.forall_mem_cons] at hall
      obtain ⟨⟨hlt, hle, hmultiple⟩, hrest⟩ := hall
      exact ⟨hmultiple, hlt, hle, ih hsorted.2 fun b hb => ⟨hsorted.1 b hb, (hrest b hb).2⟩⟩

theorem digestBoundaries_pairwise (boundaries : List ℕ) (committed : ℕ) :
    (digestBoundaries boundaries committed).Pairwise (· < ·) := by
  unfold digestBoundaries
  have hsorted : ((boundaries ++ [committed]).dedup.mergeSort).Pairwise (· ≤ ·) :=
    List.pairwise_mergeSort' (· ≤ ·) _
  have hnodup : ((boundaries ++ [committed]).dedup.mergeSort).Nodup :=
    (List.mergeSort_perm _ _).nodup_iff.mpr (List.nodup_dedup _)
  exact (hsorted.and hnodup).imp fun {a b} h => lt_of_le_of_ne h.1 h.2

/-- A chunk of the source ends at each multiple of the chunk width. -/
theorem Covers.end_exists {chunkTokens stop b : ℕ} {ds : List ChunkDescriptor} :
    ∀ {k : ℕ}, Covers chunkTokens (k * chunkTokens) ds stop → b % chunkTokens = 0 →
      k * chunkTokens < b → b ≤ stop → ∃ n, descriptorEnd ds b = some n := by
  induction ds with
  | nil =>
      intro k h _ hlt hle
      have hstop := h.le
      rw [Covers] at h
      omega
  | cons d rest ih =>
      intro k h hmultiple hlt hle
      obtain ⟨⟨hstart, hpos, hwidth, -, hfull⟩, hrest⟩ := h
      rw [descriptorEnd, List.findIdx?_cons]
      by_cases hd : d.logicalEnd = b
      · exact ⟨1, by simp [hd]⟩
      · obtain ⟨j, rfl⟩ := Nat.dvd_of_mod_eq_zero hmultiple
        have hnext : (k + 1) * chunkTokens ≤ chunkTokens * j := by
          rw [Nat.mul_comm chunkTokens j] at hlt ⊢
          exact Nat.mul_le_mul_right _ (Nat.lt_of_mul_lt_mul_right hlt)
        rw [Nat.succ_mul] at hnext
        have hne : rest ≠ [] := by
          rintro rfl
          have hstop : d.logicalEnd = stop := hrest.symm
          omega
        have hend := hfull hne
        have hcovers : Covers chunkTokens ((k + 1) * chunkTokens) rest stop := by
          rw [Nat.succ_mul, ← hend]
          exact hrest
        obtain ⟨n, hn⟩ := ih hcovers hmultiple (by rw [Nat.succ_mul]; omega) hle
        rw [descriptorEnd, Option.map_eq_some_iff] at hn
        obtain ⟨index, hindex, rfl⟩ := hn
        exact ⟨index + 1 + 1, by simp [hd, hindex]⟩

/-! ## Plans that succeed -/

theorem lookup_map_mem {α : Type} (f : ℕ → α) {keys : List ℕ} {k : ℕ} (h : k ∈ keys) :
    (keys.map fun b => (b, f b)).lookup k = some (f k) := by
  induction keys with
  | nil => cases h
  | cons b rest ih =>
      rw [List.map_cons, List.lookup_cons]
      by_cases hb : k = b
      · subst hb
        simp
      · rw [beq_eq_false_iff_ne.mpr hb]
        exact ih (List.mem_of_ne_of_mem hb h)

theorem planTarget_ok {ds : List ChunkDescriptor} {digests : List (ℕ × Digest)} {boundaries : List ℕ}
    (hends : ∀ b ∈ boundaries, ∃ n, descriptorEnd ds b = some n)
    (hdigests : ∀ b ∈ boundaries, ∃ d, digests.lookup b = some d) :
    ∃ targets, boundaries.mapM (planTarget ds digests) = .ok targets := by
  induction boundaries with
  | nil => exact ⟨[], rfl⟩
  | cons b rest ih =>
      rw [List.forall_mem_cons] at hends hdigests
      obtain ⟨⟨n, hn⟩, hends⟩ := hends
      obtain ⟨⟨d, hd⟩, hdigests⟩ := hdigests
      obtain ⟨targets, htargets⟩ := ih hends hdigests
      refine ⟨⟨b, n, d⟩ :: targets, ?_⟩
      have hfirst : planTarget ds digests b = .ok ⟨b, n, d⟩ := by
        rw [planTarget, hn, hd]
        rfl
      rw [List.mapM_cons, hfirst, htargets]
      rfl

theorem served_source {files : Disk} {i : CacheIdentity} {source : Digest} {h : Hit} {m : RowManifest}
    {chunks : List ContextChunk} (hserved : ServedRows files i source .other h m chunks) :
    ∃ storageKey encoded document, i.view.storageKey = .ok storageKey ∧
      files.lookup (.manifest storageKey source) = some encoded ∧ loads encoded = .ok document ∧
      sourceRows files i storageKey source document = .ok m := by
  have hhit := hserved.hit
  rw [lookup_eq_hit] at hhit
  obtain ⟨storageKey, encoded, hkey, ⟨hfile, hexact⟩ | ⟨-, hmode, -⟩⟩ := hhit
  · rw [lookupExact_eq_ok] at hexact
    obtain ⟨document, manifest, kind, ds, u, hload, hroot, -, rfl⟩ := hexact
    rw [loadJson, mapError_eq_ok] at hload
    obtain rfl : manifest = .rows m := hserved.rows
    exact ⟨storageKey, encoded, document, hkey, hfile, hload, sourceRows_readRoot hkey hroot⟩
  · cases hmode

/-- A source that is served can be planned at boundaries of its chunks, if they and its end are
multiples of the default chunk width. -/
theorem planAliases_requested {files : Disk} {i : CacheIdentity} (call : AliasCall) {h : Hit}
    {m : RowManifest} {chunks : List ContextChunk}
    (hserved : ServedRows files i call.source .other h m chunks) (hmode : call.mode = .perTokenRows)
    {boundaries : List ℕ}
    (hboundaries : requestedBoundaries i.chunkTokens m.committedTokens call.prefixTokens = .ok boundaries)
    (hwithin : ∀ b ∈ boundaries, 0 < b ∧ b ≤ m.committedTokens ∧ b % i.chunkTokens = 0)
    (hgeometry : m.committedTokens % i.chunkTokens = 0)
    (hsource : contextPrefixDigest call.tokens call.salt m.committedTokens = .ok call.source)
    (hmultiple : ∀ b ∈ digestBoundaries boundaries m.committedTokens, b % defaultChunkTokens = 0) :
    ∃ plan, planAliases files i call = .ok plan := by
  obtain ⟨storageKey, encoded, document, hkey, hfile, hload, hrows⟩ := served_source hserved
  obtain ⟨hcovers, hne⟩ := lookup_covers hserved.hit hserved.rows
  have hpos := hcovers.pos hne
  obtain ⟨packed, ascii, hpacked, hcount, hascii, hdigest⟩ := contextPrefixDigest_eq_ok.mp hsource
  have haccepted : Accepted call.tokens.length defaultChunkTokens 0
      (digestBoundaries boundaries m.committedTokens) := by
    apply accepted_of_pairwise (digestBoundaries_pairwise _ _)
    intro b hb
    have hrange : 0 < b ∧ b ≤ m.committedTokens := by
      rcases mem_digestBoundaries.mp hb with hmem | rfl
      · exact ⟨(hwithin b hmem).1, (hwithin b hmem).2.1⟩
      · exact ⟨hpos, le_rfl⟩
    exact ⟨hrange.1, hrange.2.trans hcount, hmultiple b hb⟩
  have hdigests := (chunkPrefixDigests_eq_ok (digestBoundaries_ne _ _)).mpr
    ⟨packed, ascii, hpacked, haccepted, hascii, rfl⟩
  have hcommitted := lookup_map_mem (prefixDigest packed ascii)
    (mem_digestBoundaries.mpr (Or.inr rfl) : m.committedTokens ∈ digestBoundaries boundaries _)
  have hends : ∀ b ∈ boundaries, ∃ n, descriptorEnd m.chunks b = some n := by
    intro b hb
    obtain ⟨hb0, hble, hmod⟩ := hwithin b hb
    rw [← Nat.zero_mul i.chunkTokens] at hcovers
    exact hcovers.end_exists hmod (by omega) hble
  obtain ⟨targets, htargets⟩ := planTarget_ok hends fun b hb =>
    ⟨_, lookup_map_mem (prefixDigest packed ascii) (mem_digestBoundaries.mpr (Or.inl hb))⟩
  refine ⟨⟨storageKey, sha256 encoded, m.chunks, targets⟩, ?_⟩
  unfold planAliases planSource loadSource asPublishable
  simp only [Pages.bind_eq_ok, require_eq_ok, readBytes_eq_ok, mapError_eq_ok, expect_eq_ok]
  exact ⟨(), hmode, storageKey, hkey, encoded, hfile, document, hload, m, hrows, (), hgeometry,
    boundaries, hboundaries, _, hdigests, _, hcommitted, (), hdigest.symm, targets, htargets, rfl⟩

theorem planAliases_default {files : Disk} {i : CacheIdentity} (call : AliasCall) {h : Hit}
    {m : RowManifest} {chunks : List ContextChunk}
    (hserved : ServedRows files i call.source .other h m chunks) (hmode : call.mode = .perTokenRows)
    (hdefault : call.prefixTokens = none) (hgeometry : m.committedTokens % i.chunkTokens = 0)
    (hsource : contextPrefixDigest call.tokens call.salt m.committedTokens = .ok call.source)
    (hmultiple : ∀ b ∈ defaultBoundaries i.chunkTokens m.committedTokens, b % defaultChunkTokens = 0) :
    ∃ plan, planAliases files i call = .ok plan := by
  obtain ⟨hcovers, hne⟩ := lookup_covers hserved.hit hserved.rows
  have hlast := List.mem_of_getLast? (defaultBoundaries_getLast i.chunkTokens m.committedTokens)
  refine planAliases_requested call hserved hmode (by rw [hdefault]; rfl) (fun b hb => ?_) hgeometry hsource
    fun b hb => ?_
  · exact mem_defaultBoundaries i.sizes.2 (hcovers.pos hne) hgeometry hb
  · rcases mem_digestBoundaries.mp hb with hb | rfl
    · exact hmultiple b hb
    · exact hmultiple _ hlast

/-! ## Publications that succeed -/

theorem publishTargets_sound {i : CacheIdentity} {plan : AliasPlan} {segments : List Bytes}
    {targets : List AliasTarget} :
    ∀ {files : Disk}, (targets.map AliasTarget.contextDigest).Nodup →
      (∀ t ∈ targets, ∃ encoded, encodeAlias i plan segments t = .ok encoded ∧
        (files.lookup (.prefixAlias plan.storageKey t.contextDigest) = none ∨
          files.lookup (.prefixAlias plan.storageKey t.contextDigest) = some encoded)) →
      ∃ files', publishTargets i plan segments targets ⟨files, none⟩ = (.ok (), ⟨files', none⟩) := by
  induction targets with
  | nil => exact fun _ _ => ⟨_, rfl⟩
  | cons target rest ih =>
      intro files hnodup hfree
      rw [List.map_cons, List.nodup_cons] at hnodup
      rw [List.forall_mem_cons] at hfree
      obtain ⟨⟨encoded, hencoded, hfile⟩, hrest⟩ := hfree
      obtain ⟨files', hfirst⟩ := publishImmutable_sound hfile
      have hsame := (publishImmutable_eq_ok hfirst).2.1
      obtain ⟨files'', hlater⟩ := @ih files' hnodup.2 (by
        intro t ht
        obtain ⟨later, hlater, hfree⟩ := hrest t ht
        have hne : t.contextDigest ≠ target.contextDigest := by
          intro heq
          exact hnodup.1 (heq ▸ List.mem_map_of_mem ht)
        rw [hsame _ (by simp [hne])]
        exact ⟨later, hlater, hfree⟩)
      refine ⟨files'', ?_⟩
      rw [publishTargets, FileM.bind_of_ok (lift_apply _ _ |>.trans (by rw [hencoded]))]
      rw [FileM.bind_of_ok hfirst]
      exact hlater

/-- A planned publication succeeds if each alias file is absent or the same already. -/
theorem publishPrefixAliases_sound {files : Disk} {i : CacheIdentity} {call : AliasCall}
    {plan : AliasPlan} {segments : List Bytes} (hplan : planAliases files i call = .ok plan)
    (hchain : chainSegments plan.storageKey plan.descriptors (segmentCount plan.maximumChunks) =
      .ok segments)
    (hinj : Set.InjOn sha256 {e | e ∈ segments})
    (hnodup : (plan.targets.map AliasTarget.contextDigest).Nodup)
    (hfree : ∀ t ∈ plan.targets, ∃ encoded, encodeAlias i plan segments t = .ok encoded ∧
      (files.lookup (.prefixAlias plan.storageKey t.contextDigest) = none ∨
        files.lookup (.prefixAlias plan.storageKey t.contextDigest) = some encoded)) :
    ∃ receipt files', publishPrefixAliases i call ⟨files, none⟩ = (.ok receipt, ⟨files', none⟩) := by
  obtain ⟨files₁, hbatch⟩ := publishSegments_sound plan.storageKey hinj files
  have hframe := (publishImmutableBatch_eq_ok hbatch).2
  obtain ⟨files₂, htargets⟩ := @publishTargets_sound i plan segments plan.targets files₁ hnodup (by
    intro t ht
    have hpath : Path.prefixAlias plan.storageKey t.contextDigest ∉
        (segments.map (segmentObject plan.storageKey)).map Prod.fst := by
      intro hmem
      obtain ⟨o, ho, heq⟩ := List.mem_map.mp hmem
      obtain ⟨e, -, rfl⟩ := List.mem_map.mp ho
      cases heq
    rw [hframe _ hpath]
    exact hfree t ht)
  refine ⟨⟨plan.sourceManifest, segments.length, plan.targets⟩, files₂, ?_⟩
  unfold publishPrefixAliases
  rw [FileM.bind_of_ok (view_apply _ _), FileM.bind_of_ok ((lift_apply _ _).trans (by rw [hplan])),
    FileM.bind_of_ok ((lift_apply _ _).trans (by rw [hchain])), FileM.bind_of_ok hbatch,
    FileM.bind_of_ok htargets]
  rfl

/-- The chunks up to a boundary cover the tokens up to it. -/
theorem Covers.take {chunkTokens stop boundary : ℕ} {ds : List ChunkDescriptor} :
    ∀ {start n : ℕ}, Covers chunkTokens start ds stop → descriptorEnd ds boundary = some n →
      Covers chunkTokens start (ds.take n) boundary ∧ 0 < n ∧ n ≤ ds.length := by
  induction ds with
  | nil =>
      intro start n _ h
      cases h
  | cons d rest ih =>
      intro start n hcovers h
      obtain ⟨hfirst, hrest⟩ := hcovers
      rw [descriptorEnd, List.findIdx?_cons] at h
      by_cases hd : d.logicalEnd = boundary
      · rw [if_pos (by simpa using hd)] at h
        obtain rfl : n = 1 := by simpa using h.symm
        exact ⟨⟨⟨hfirst.1, hfirst.2.1, hfirst.2.2.1, hfirst.2.2.2.1, by simp⟩, hd.symm⟩, by simp⟩
      · rw [if_neg (by simpa using hd)] at h
        cases hfind : rest.findIdx? fun d => decide (d.logicalEnd = boundary) with
        | none =>
            rw [hfind] at h
            cases h
        | some k =>
            rw [hfind] at h
            obtain rfl : n = k + 1 + 1 := by simpa using h.symm
            have hend : descriptorEnd rest boundary = some (k + 1) := by
              rw [descriptorEnd, hfind]
              rfl
            obtain ⟨htake, -, hle⟩ := ih hrest hend
            refine ⟨⟨⟨hfirst.1, hfirst.2.1, hfirst.2.2.1, hfirst.2.2.2.1, fun hne => ?_⟩, htake⟩,
              by omega, by simpa using hle⟩
            apply hfirst.2.2.2.2
            rintro rfl
            cases hfind

theorem segmentCount_pos {n : ℕ} (h : 0 < n) :
    segmentCount n = (n - 1) / prefixSegmentDescriptors + 1 := by
  simp only [segmentCount, prefixSegmentDescriptors]
  omega

theorem le_foldl_max (f : AliasTarget → ℕ) (targets : List AliasTarget) :
    ∀ most, most ≤ targets.foldl (fun m t => max m (f t)) most ∧
      ∀ t ∈ targets, f t ≤ targets.foldl (fun m t => max m (f t)) most := by
  induction targets with
  | nil => simp
  | cons target rest ih =>
      intro most
      obtain ⟨hmost, hall⟩ := ih (max most (f target))
      refine ⟨by rw [List.foldl_cons]; omega, ?_⟩
      intro t ht
      rcases List.mem_cons.mp ht with rfl | ht
      · rw [List.foldl_cons]
        omega
      · exact hall t ht

theorem AliasPlan.segmentCount_le (plan : AliasPlan) {t : AliasTarget} (ht : t ∈ plan.targets) :
    segmentCount t.chunkCount ≤ segmentCount plan.maximumChunks := by
  have hle : t.chunkCount ≤ plan.maximumChunks :=
    (le_foldl_max AliasTarget.chunkCount plan.targets 0).2 t ht
  simp only [segmentCount, prefixSegmentDescriptors]
  omega

theorem foldl_max_le {f : AliasTarget → ℕ} {bound : ℕ} {targets : List AliasTarget}
    (h : ∀ t ∈ targets, f t ≤ bound) :
    ∀ {most}, most ≤ bound → targets.foldl (fun m t => max m (f t)) most ≤ bound := by
  induction targets with
  | nil => exact id
  | cons target rest ih =>
      intro most hmost
      rw [List.forall_mem_cons] at h
      rw [List.foldl_cons]
      exact ih h.2 (max_le hmost h.1)

theorem descriptorEnd_mem {ds : List ChunkDescriptor} {b n : ℕ} (h : descriptorEnd ds b = some n) :
    ∃ d ∈ ds, d.logicalEnd = b := by
  rw [descriptorEnd, Option.map_eq_some_iff] at h
  obtain ⟨index, hindex, -⟩ := h
  have hany : (ds.findIdx? fun d => decide (d.logicalEnd = b)).isSome = true := by
    rw [hindex]
    rfl
  rw [List.findIdx?_isSome, List.any_eq_true] at hany
  obtain ⟨d, hd, hend⟩ := hany
  exact ⟨d, hd, of_decide_eq_true hend⟩

/-- The segments and the alias files of a source that is served can be written. -/
theorem Sources.encodes {files : Disk} {i : CacheIdentity} {call : AliasCall} {rows : RowManifest}
    {plan : AliasPlan} (hs : Sources files i call rows plan)
    (hcovers : Covers i.chunkTokens 0 rows.chunks rows.committedTokens)
    (hshort : ∀ d ∈ rows.chunks, d.Short) (hne : rows.chunks ≠ []) :
    ∃ segments, chainSegments plan.storageKey plan.descriptors (segmentCount plan.maximumChunks) =
        .ok segments ∧
      ∀ t ∈ plan.targets, ∃ encoded, encodeAlias i plan segments t = .ok encoded := by
  have hlength := hcovers.length_le
  have hsmall := hcovers.short hshort hne
  have hcount : ∀ t ∈ plan.targets, t.chunkCount ≤ rows.chunks.length := fun t ht =>
    (hcovers.take (hs.targets t ht).1).2.2
  have hmost : plan.maximumChunks ≤ rows.chunks.length := foldl_max_le hcount (Nat.zero_le _)
  obtain ⟨segments, hsegments⟩ := chainSegments_of_short plan.storageKey hshort
    (n := segmentCount plan.maximumChunks) (by
      simp only [segmentCount, prefixSegmentDescriptors]
      omega)
  refine ⟨segments, hs.descriptors ▸ hsegments, ?_⟩
  intro t ht
  obtain ⟨htake, hpos, hle⟩ := hcovers.take (hs.targets t ht).1
  obtain ⟨d, hd, hend⟩ := descriptorEnd_mem (hs.targets t ht).1
  refine encodeAlias_of_short hs.key (hend ▸ (hshort d hd).2.2) (by omega) ?_
  have hsegment := plan.segmentCount_le ht
  rw [segmentCount_pos hpos] at hsegment
  rw [chainSegments_length hsegments]
  omega

/-- A source of few chunks has at most one segment, with all of their descriptors. -/
theorem Sources.segment {files : Disk} {i : CacheIdentity} {call : AliasCall} {rows : RowManifest}
    {plan : AliasPlan} (hs : Sources files i call rows plan)
    (hcovers : Covers i.chunkTokens 0 rows.chunks rows.committedTokens)
    (hfew : rows.chunks.length ≤ prefixSegmentDescriptors) {segments : List Bytes}
    (hchain : chainSegments plan.storageKey plan.descriptors (segmentCount plan.maximumChunks) =
      .ok segments) : ∀ e ∈ segments, encodeSegment plan.storageKey rows.chunks 0 [] = .ok e := by
  have hcount : ∀ t ∈ plan.targets, t.chunkCount ≤ rows.chunks.length := fun t ht =>
    (hcovers.take (hs.targets t ht).1).2.2
  have hmost : plan.maximumChunks ≤ rows.chunks.length := foldl_max_le hcount (Nat.zero_le _)
  rw [hs.descriptors] at hchain
  refine chainSegments_few ?_ hchain
  simp only [segmentCount, prefixSegmentDescriptors] at hfew ⊢
  omega

/-- The aliases are named in the order of their boundaries. -/
theorem Sources.digests {files : Disk} {i : CacheIdentity} {call : AliasCall} {rows : RowManifest}
    {plan : AliasPlan} (hs : Sources files i call rows plan) :
    (plan.targets.map AliasTarget.contextDigest).map Except.ok =
      (plan.targets.map AliasTarget.boundary).map (contextPrefixDigest call.tokens call.salt) := by
  rw [List.map_map, List.map_map]
  exact List.map_congr_left fun t ht => (hs.targets t ht).2.symm

/-- A source of few chunks that is served publishes aliases where there are none yet. -/
theorem publishPrefixAliases_requested {files : Disk} {i : CacheIdentity} (call : AliasCall) {h : Hit}
    {m : RowManifest} {chunks : List ContextChunk}
    (hserved : ServedRows files i call.source .other h m chunks) (hmode : call.mode = .perTokenRows)
    {boundaries : List ℕ}
    (hboundaries : requestedBoundaries i.chunkTokens m.committedTokens call.prefixTokens = .ok boundaries)
    (hwithin : ∀ b ∈ boundaries, 0 < b ∧ b ≤ m.committedTokens ∧ b % i.chunkTokens = 0)
    (hgeometry : m.committedTokens % i.chunkTokens = 0)
    (hsource : contextPrefixDigest call.tokens call.salt m.committedTokens = .ok call.source)
    (hmultiple : ∀ b ∈ digestBoundaries boundaries m.committedTokens, b % defaultChunkTokens = 0)
    (hfew : m.chunks.length ≤ prefixSegmentDescriptors)
    (hnodup : ∀ digests : List Digest, digests.map Except.ok =
      boundaries.map (contextPrefixDigest call.tokens call.salt) → digests.Nodup)
    (hnone : ∀ storageKey contextDigest, files.lookup (.prefixAlias storageKey contextDigest) = none) :
    ∃ receipt files', publishPrefixAliases i call ⟨files, none⟩ = (.ok receipt, ⟨files', none⟩) := by
  obtain ⟨plan, hplan⟩ :=
    planAliases_requested call hserved hmode hboundaries hwithin hgeometry hsource hmultiple
  obtain ⟨rows, hs⟩ := planAliases_eq_ok hplan
  obtain rfl := hs.rows_eq hserved
  obtain ⟨hcovers, hne⟩ := lookup_covers hserved.hit hserved.rows
  obtain ⟨segments, hchain, hencodes⟩ := hs.encodes hcovers (lookup_short hserved.hit hserved.rows) hne
  have hsegment := hs.segment hcovers hfew hchain
  have hsame := hs.boundaries
  rw [hboundaries, Except.ok.injEq] at hsame
  refine publishPrefixAliases_sound hplan hchain ?_ (hnodup _ (by rw [hs.digests, hsame])) ?_
  · intro a ha b hb _
    have hfirst := hsegment a ha
    rw [hsegment b hb] at hfirst
    exact (Except.ok.inj hfirst).symm
  · intro t ht
    obtain ⟨encoded, hencoded⟩ := hencodes t ht
    exact ⟨encoded, hencoded, Or.inl (hnone _ _)⟩

end SparkCache.Store
