import SparkCache.Store.Visibility

/-!
# Served aliases

An alias is found only where its context has no exact root. The chunks that it
restores are those of its source, whatever rows are published later.
-/
namespace SparkCache.Store

open Files Files.FileM Json Pages

/-! ## Served aliases -/

theorem readChunks_take {files : Disk} {required : List StateRecord} {ds : List ChunkDescriptor}
    {chunks : List ContextChunk} (h : readChunks files required ds = .ok chunks) (n : ℕ) :
    readChunks files required (ds.take n) = .ok (chunks.take n) := by
  rw [readChunks_eq_ok] at h ⊢
  exact List.forall₂_take n h

theorem Covers.readChunks {chunkTokens stop : ℕ} {files : Disk} {required : List StateRecord}
    {ds : List ChunkDescriptor} :
    ∀ {start : ℕ} {chunks : List ContextChunk}, Covers chunkTokens start ds stop →
      Store.readChunks files required ds = .ok chunks → ContiguousChunks start chunks stop := by
  induction ds with
  | nil =>
      intro start chunks h hread
      cases hread
      exact h
  | cons d rest ih =>
      intro start chunks h hread
      rw [readChunks_eq_ok] at hread
      cases hread with
      | cons hchunk htail =>
          obtain ⟨encoded, -, -, -, -, -, hstart, hend⟩ := readChunk_eq_ok.mp hchunk
          refine ⟨hstart.trans h.1.1, ?_⟩
          rw [hend]
          exact ih h.2 (readChunks_eq_ok.mpr htail)

/-- The segment that an alias names is the last one of the part of the chain that it needs. -/
theorem chainRoot_take {segments : List Bytes} {tail : Bytes} {n : ℕ} (hpos : 0 < n)
    (h : segments[(n - 1) / prefixSegmentDescriptors]? = some tail) :
    chainRoot (segments.take (segmentCount n)) = some (sha256 tail) := by
  rw [chainRoot, segmentCount_pos hpos, List.getLast?_take, if_neg (Nat.succ_ne_zero _),
    Nat.add_sub_cancel, h]
  rfl

theorem encodeAlias_eq_ok {i : CacheIdentity} {plan : AliasPlan} {segments : List Bytes}
    {target : AliasTarget} {encoded : Bytes} (h : encodeAlias i plan segments target = .ok encoded) :
    ∃ tail document, segments[(target.chunkCount - 1) / prefixSegmentDescriptors]? = some tail ∧
      withMetadata (aliasFields i.toWire target.contextDigest
        ⟨target.boundary, target.chunkCount, sha256 tail⟩ plan.sourceManifest) = .ok document ∧
      loads encoded = .ok document := by
  unfold encodeAlias at h
  simp only [Pages.bind_eq_ok, expect_eq_ok] at h
  obtain ⟨tail, htail, document, hdocument, hdump⟩ := h
  have hplain := withMetadata_plain hdocument (aliasFields_plain i.toWire_plain _ _ _)
  exact ⟨tail, document, htail, hdocument, (hplain.loads (dumpCanonical_eq_ok.mp hdump)).2.2⟩

/-- An alias whose file and segments are there is served, if it has no exact root. -/
theorem alias_serves {files : Disk} {i : CacheIdentity} {plan : AliasPlan} {segments : List Bytes}
    {target : AliasTarget} {committed n : ℕ} {encoded : Bytes} {chunks : List ContextChunk}
    (hkey : i.view.storageKey = .ok plan.storageKey)
    (hcovers : Covers i.chunkTokens 0 plan.descriptors committed)
    (hend : descriptorEnd plan.descriptors target.boundary = some target.chunkCount)
    (hchain : chainSegments plan.storageKey plan.descriptors n = .ok segments)
    (hn : segmentCount target.chunkCount ≤ n) (hstored : Stored files plan.storageKey segments)
    (hencoded : encodeAlias i plan segments target = .ok encoded)
    (hfile : files.lookup (.prefixAlias plan.storageKey target.contextDigest) = some encoded)
    (hnone : files.lookup (.manifest plan.storageKey target.contextDigest) = none)
    (hchunks : readChunks files i.requiredRecords plan.descriptors = .ok chunks) :
    ∃ h m, ServedRows files i target.contextDigest .perTokenRows h m
      (chunks.take target.chunkCount) := by
  obtain ⟨htake, hpos, hle⟩ := hcovers.take hend
  obtain ⟨tail, document, htail, hdocument, hload⟩ := encodeAlias_eq_ok hencoded
  have hne : plan.descriptors.take target.chunkCount ≠ [] := by
    rw [← List.length_pos_iff, List.length_take]
    omega
  have halias : validatePrefixAlias document i target.contextDigest =
      .ok ⟨target.boundary, target.chunkCount, sha256 tail⟩ :=
    validatePrefixAlias_json i.toWire_plain hdocument (htake.pos hne) hpos
  have hread := readDescriptorChain_stored hkey (chainSegments_take hn hchain)
    (fun e he => hstored e (List.mem_of_mem_take he)) hle
  rw [chainRoot_take hpos htail] at hread
  have hvalid : validateManifestMetadata (manifestJson i.toWire target.contextDigest target.boundary
      ((plan.descriptors.take target.chunkCount).map ChunkDescriptor.json))
      ⟨plan.storageKey, target.contextDigest⟩ (some i.view) = _ :=
    validateManifestMetadata_json i hkey htake hne (by simp)
  have hrestored := readChunks_take hchunks target.chunkCount
  refine ⟨⟨sha256 encoded, .rows ⟨i.toWire, target.contextDigest, target.boundary,
    plan.descriptors.take target.chunkCount⟩, .prefixAlias⟩, _, ?_, rfl, hrestored,
    i.requiredRecords, requiredRecordsForIdentityWire_toWire i, hrestored⟩
  rw [lookup_eq_hit]
  refine ⟨plan.storageKey, encoded, hkey, Or.inr ⟨hnone, rfl, hfile, ?_⟩⟩
  rw [lookupAlias_eq_ok]
  refine ⟨document, _, _, plan.storageKey, _, (), ?_, halias, hread, hkey, hvalid,
    verifyDescriptors_manifestOnly _ _ _, rfl⟩
  rw [loadJson, hload]
  rfl

/-! ## Later publications -/

/-- A step of any publisher of rows, with the number of changes before the file system fails. A
batch is appended to a transaction in any state. -/
inductive RowAction where
  | append (tx : Transaction) (call : AppendCall)
  | commit (tx : Transaction) (steps : Option ℕ)
  | extend (identity : CacheIdentity) (call : ExtensionCall)
  | publishAliases (identity : CacheIdentity) (call : AliasCall)

/-- The files after a step, whether it raises or not. -/
def RowAction.apply (files : Disk) : RowAction → Disk
  | append tx call => (appendStep (tx, files) call).2
  | commit tx steps => (commitManifest tx ⟨files, steps⟩).2.2.files
  | extend identity call => (commitExtension identity call ⟨files, call.steps⟩).2.files
  | publishAliases identity call => (publishPrefixAliases identity call ⟨files, call.steps⟩).2.files

theorem RowAction.grows (action : RowAction) (files : Disk) : Grows files (action.apply files) := by
  cases action with
  | append tx call => exact appendStep_grows (tx, files) call
  | commit tx steps => exact commitManifest_grows tx ⟨files, steps⟩
  | extend identity call => exact commitExtension_grows identity call ⟨files, call.steps⟩
  | publishAliases identity call => exact publishPrefixAliases_grows identity call ⟨files, call.steps⟩

/-- The files after the first steps of a run. -/
def filesAfter (files : Disk) (actions : List RowAction) (n : ℕ) : Disk :=
  Run.exec RowAction.apply files (actions.take n)

theorem filesAfter_grows (files : Disk) (actions : List RowAction) (n : ℕ) :
    Grows files (filesAfter files actions n) := by
  refine Run.invariant (I := fun f => Grows files f) ?_ (Grows.refl files) _
  intro f action h
  exact h.trans _ _ _ (action.grows f)

/-- The bytes under content addresses at any time of a run. -/
def actionContents (files : Disk) (actions : List RowAction) : Set Bytes :=
  {payload | ∃ n, payload ∈ contents (filesAfter files actions n)}

theorem filesAfter_preserves {files : Disk} {actions : List RowAction}
    (hinj : Set.InjOn sha256 (actionContents files actions)) (n : ℕ) :
    Preserves files (filesAfter files actions n) := by
  refine (filesAfter_grows files actions n).preserves (hinj.mono ?_)
  rintro payload (hpayload | hpayload)
  · exact ⟨0, hpayload⟩
  · exact ⟨n, hpayload⟩

/-- Each published alias whose context has no exact root is a hit, then and after whatever rows
are published later, and it restores the chunks of the source that cover its tokens. -/
theorem aliases_publish (i : CacheIdentity) {files : Disk} (call : AliasCall)
    {chunks : List ContextChunk} (hsource : Serves files i call.source .other chunks)
    {receipt : PrefixAliasReceipt} {w : World Path Bytes}
    (hpublish : publishPrefixAliases i call ⟨files, call.steps⟩ = (.ok receipt, w))
    (later : List RowAction)
    (hinj : Set.InjOn sha256 (contents files ∪ actionContents w.files later)) :
    ∃ committed, ContiguousChunks 0 chunks committed ∧
      requestedBoundaries i.chunkTokens committed call.prefixTokens =
        .ok (receipt.aliases.map AliasTarget.boundary) ∧
      ∀ t ∈ receipt.aliases,
        contextPrefixDigest call.tokens call.salt t.boundary = .ok t.contextDigest ∧
        ∀ n, (∀ storageKey, i.view.storageKey = .ok storageKey →
            (filesAfter w.files later n).lookup (.manifest storageKey t.contextDigest) = none) →
          ∃ restored, restored <+: chunks ∧ ContiguousChunks 0 restored t.boundary ∧
            Serves (filesAfter w.files later n) i t.contextDigest .perTokenRows restored := by
  obtain ⟨plan, segments, hplan, hchain, hstored, hfiles, rfl⟩ := publishPrefixAliases_eq_ok hpublish
  obtain ⟨rows, hs⟩ := planAliases_eq_ok hplan
  obtain ⟨hit, m, hserved⟩ := serves_iff.mp hsource
  obtain rfl := hs.rows_eq hserved
  obtain ⟨hcovers, -⟩ := lookup_covers hserved.hit hserved.rows
  have hfirst : Preserves files w.files := by
    have hgrows : Grows files w.files := by
      have hmove := publishPrefixAliases_grows i call ⟨files, call.steps⟩
      rwa [hpublish] at hmove
    refine hgrows.preserves (hinj.mono ?_)
    exact Set.union_subset_union_right _ fun payload hpayload => ⟨0, hpayload⟩
  refine ⟨rows.committedTokens, hcovers.readChunks hserved.verified, hs.boundaries, ?_⟩
  intro t ht
  obtain ⟨hend, hdigest⟩ := hs.targets t ht
  refine ⟨hdigest, fun n hnone => ?_⟩
  have hlater := filesAfter_preserves (hinj.mono Set.subset_union_right) n
  have hchunks := readChunks_preserved (hfirst.trans hlater) hserved.verified
  obtain ⟨encoded, hencoded, hfile⟩ := hfiles t ht
  have hdescriptors := hs.descriptors
  rw [← hdescriptors] at hend hchunks
  have hcovers' : Covers i.chunkTokens 0 plan.descriptors rows.committedTokens := by
    rw [hdescriptors]
    exact hcovers
  obtain ⟨hit', m', hserves⟩ := alias_serves hs.key hcovers' hend hchain (plan.segmentCount_le ht)
    (hstored.preserved hlater) hencoded (hlater _ _ hfile (Or.inl rfl)) (hnone _ hs.key) hchunks
  exact ⟨chunks.take t.chunkCount, List.take_prefix _ _,
    (hcovers'.take hend).1.readChunks (readChunks_take hchunks _), hserves.serves⟩

/-! ## Two sources of two chunks -/

def wholeIdentity : CacheIdentity :=
  { tinyIdentity .unnamed with chunkTokens := 256, sizes := by decide }

def wholeChunk (n : ℕ) : ContextChunk := pairChunk (256 * n) (256 * (n + 1)) (by omega)

def wholeBatches : List AppendCall := [⟨[wholeChunk 0, wholeChunk 1], none⟩]

def wholeDescriptors : List ChunkDescriptor :=
  [wholeChunk 0, wholeChunk 1].map fun chunk => describe chunk (tinyBytes chunk)

def wholeKey : Digest := (wholeIdentity.view.storageKey.toOption).getD zeroDigest

/-- The descriptors of the chunks, in a segment. -/
def wholeSegment : Bytes := ((encodeSegment wholeKey wholeDescriptors 0 []).toOption).getD []

/-- Two sources: a token, over and over. -/
def wholePrefix (token : ℕ) : TokenPrefix := ⟨List.replicate 512 token, "", 512⟩

def wholePacked (token : ℕ) : Bytes := (List.replicate 512 [UInt8.ofNat token, 0, 0, 0]).flatten

def wholeHashed (token b : ℕ) : Bytes := [] ++ [0] ++ (wholePacked token).take (b * 4)

def wholeBase (token : ℕ) : Digest := sha256 (wholeHashed token 512)

/-- The digest of the tokens of the first chunk. -/
def wholeInner : Digest := sha256 (wholeHashed 0 256)

theorem wholePrefix_packed {token : ℕ} (h : token < 2) :
    packU32 (wholePrefix token).tokens "token_ids" = .ok (wholePacked token) := by
  have hall : ∀ token < 2, packU32 (wholePrefix token).tokens "token_ids" = .ok (wholePacked token) := by
    decide +kernel
  exact hall token h

theorem wholePrefix_digest {token b : ℕ} (h : token < 2) (hb : b ≤ 512) :
    contextPrefixDigest (wholePrefix token).tokens "" b = .ok (sha256 (wholeHashed token b)) := by
  refine contextPrefixDigest_eq_ok.mpr ⟨wholePacked token, [], wholePrefix_packed h, ?_, asciiBytes_empty, rfl⟩
  rw [wholePrefix, List.length_replicate]
  exact hb

/-- What is hashed over the two sources, besides roots and keys. -/
def wholePayloads : List Bytes :=
  [tinyBytes (wholeChunk 0), tinyBytes (wholeChunk 1), wholeSegment, wholeHashed 0 256, wholeHashed 0 512,
    wholeHashed 1 512]

set_option maxRecDepth 100000 in
theorem wholePayloads_distinct : (wholePayloads.map sha256).Nodup := by decide +kernel

theorem whole_injOn : Set.InjOn sha256 {payload | payload ∈ wholePayloads} :=
  fun _ ha _ hb h => List.inj_on_of_nodup_map wholePayloads_distinct ha hb h

theorem wholeContexts_distinct : [wholeInner, wholeBase 0, wholeBase 1].Nodup := by
  have h := wholePayloads_distinct.sublist (List.drop_sublist 3 _)
  exact h

theorem encodings_whole : encodings wholeBatches ⊆ {payload | payload ∈ wholePayloads} := by
  rintro encoded ⟨call, hcall, chunk, hchunk, hencoded⟩
  rw [List.mem_singleton.mp hcall] at hchunk
  rw [tinyBytes_eq hencoded]
  rcases List.mem_pair.mp hchunk with rfl | rfl <;> simp [wholePayloads]

/-- The commit of a source, as its checks are evaluated. -/
def WholePlanned (token : ℕ) : Prop :=
  (planWhole wholeIdentity (wholeBase token) none [wholeChunk 0, wholeChunk 1]).toOption.map
    (fun planned => (planned.1.descriptors, planned.1.expectedStart)) = some (wholeDescriptors, 512)

set_option maxRecDepth 100000 in
theorem whole_planned {token : ℕ} (h : token < 2) : WholePlanned token := by
  have hall : ∀ token < 2, WholePlanned token := by
    unfold WholePlanned
    decide +kernel
  exact hall token h

/-- A source is committed over any files where its root is free, and is served by these descriptors. -/
theorem whole_served {token : ℕ} (h : token < 2) {files : Disk}
    (hfresh : ∀ storageKey, files.lookup (.manifest storageKey (wholeBase token)) = none) :
    (wholeSession wholeIdentity files (wholeBase token) none wholeBatches).1.expectedStart = 512 ∧
      ∃ receipt hit m all,
        (commitWhole wholeIdentity files (wholeBase token) none wholeBatches none).1 = .ok receipt ∧
        receipt.committedTokens = 512 ∧ m.committedTokens = 512 ∧ m.chunks = wholeDescriptors ∧
        ServedRows (commitWhole wholeIdentity files (wholeBase token) none wholeBatches none).2 wholeIdentity
          (wholeBase token) .other hit m all := by
  have hplanned := whole_planned h
  unfold WholePlanned at hplanned
  cases hplan : planWhole wholeIdentity (wholeBase token) none [wholeChunk 0, wholeChunk 1] with
  | error e =>
      rw [hplan] at hplanned
      cases hplanned
  | ok planned =>
      obtain ⟨tx, path, encoded⟩ := planned
      rw [hplan] at hplanned
      obtain ⟨hdescriptors, hstart⟩ := Prod.mk.inj (Option.some.inj hplanned)
      obtain ⟨storageKey, rfl⟩ := planWhole_path hplan
      obtain ⟨hsession, hreturns, hit, all, hserved⟩ :=
        commitWhole_served (whole_injOn.mono encodings_whole) hplan (hfresh storageKey)
      exact ⟨by rw [wholeBatches, hsession, hstart], _, hit, tx.manifest, all, hreturns, hstart, hstart,
        hdescriptors, hserved⟩

/-- A publication over the chunks writes at most the segment with their descriptors. -/
theorem wholeSegment_planned {files : Disk} {call : AliasCall} {hit : Hit} {m : RowManifest}
    {all : List ContextChunk} (hserved : ServedRows files wholeIdentity call.source .other hit m all)
    (hchunks : m.chunks = wholeDescriptors) {plan : AliasPlan} {segments : List Bytes}
    (hplan : planAliases files wholeIdentity call = .ok plan)
    (hchain : chainSegments plan.storageKey plan.descriptors (segmentCount plan.maximumChunks) =
      .ok segments) : ∀ e ∈ segments, e = wholeSegment := by
  obtain ⟨rows, hs⟩ := planAliases_eq_ok hplan
  obtain rfl := hs.rows_eq hserved
  obtain ⟨hcovers, -⟩ := lookup_covers hserved.hit hserved.rows
  have hkey : plan.storageKey = wholeKey := by
    rw [wholeKey, hs.key]
    rfl
  intro e he
  have hencoded := hs.segment hcovers (by rw [hchunks]; decide) hchain e he
  rw [hkey, hchunks] at hencoded
  rw [wholeSegment, hencoded]
  rfl

def wholeFiles : Disk := (commitWhole wholeIdentity ∅ (wholeBase 0) none wholeBatches none).2

theorem wholeFiles_served : ∃ hit m all, ServedRows wholeFiles wholeIdentity (wholeBase 0) .other hit m all ∧
    m.committedTokens = 512 ∧ m.chunks = wholeDescriptors := by
  obtain ⟨-, receipt, hit, m, all, -, -, htokens, hchunks, hserved⟩ :=
    whole_served (show 0 < 2 by omega) fun _ => (rfl : (∅ : Disk).lookup _ = none)
  rw [wholeFiles]
  exact ⟨hit, m, all, hserved, htokens, hchunks⟩

theorem wholeFiles_root {path : Path} (hroot : path.isRoot = true)
    (hpath : ∀ storageKey, path ≠ .manifest storageKey (wholeBase 0)) : wholeFiles.lookup path = none := by
  rw [wholeFiles, commitWhole_other (whole_injOn.mono encodings_whole) none hroot hpath]
  rfl

theorem wholeFiles_contents : contents wholeFiles ⊆ {payload | payload ∈ wholePayloads} := by
  rw [wholeFiles]
  intro payload hpayload
  rcases commitWhole_adds none hpayload with ⟨p, -, hfile⟩ | hnew
  · cases hfile
  · exact encodings_whole hnew

/-- The end of the first chunk is asked for, which has no root of its own. -/
def wholeCall : AliasCall := ⟨wholeBase 0, (wholePrefix 0).tokens, "", some [256], .perTokenRows, none⟩

theorem wholeCall_publishes : ∃ receipt files,
    publishPrefixAliases wholeIdentity wholeCall ⟨wholeFiles, none⟩ = (.ok receipt, ⟨files, none⟩) := by
  obtain ⟨hit, m, all, hserved, htokens, hchunks⟩ := wholeFiles_served
  refine publishPrefixAliases_requested wholeCall hserved rfl
    (show requestedBoundaries _ _ wholeCall.prefixTokens = .ok [256] from rfl) ?_ ?_ ?_ ?_ ?_ ?_ ?_
  · intro b hb
    rw [List.mem_singleton.mp hb, htokens]
    decide
  · rw [htokens]
    rfl
  · rw [htokens]
    exact wholePrefix_digest (by omega) le_rfl
  · intro b hb
    rw [htokens] at hb
    rcases mem_digestBoundaries.mp hb with hb | rfl
    · rw [List.mem_singleton.mp hb]
      decide
    · decide
  · rw [hchunks]
    decide
  · intro digests hnamed
    obtain ⟨d, rfl⟩ := List.length_eq_one_iff.mp (by simpa using congrArg List.length hnamed)
    exact List.nodup_singleton d
  · exact fun storageKey contextDigest => wholeFiles_root rfl fun key => by simp

/-- The other source is appended and committed. -/
def wholeLater : List RowAction :=
  [.append (beginTransaction wholeIdentity (wholeBase 1) none) ⟨[wholeChunk 0, wholeChunk 1], none⟩,
    .commit (wholeSession wholeIdentity ∅ (wholeBase 1) none wholeBatches).1 none]

/-- This adds chunks that are known, and no root for the tokens of the first chunk. -/
theorem wholeLater_keeps (files : Disk) (n : ℕ) :
    Adds {payload | payload ∈ wholePayloads} files (filesAfter files wholeLater n) ∧
      ∀ storageKey, (filesAfter files wholeLater n).lookup (.manifest storageKey wholeInner) =
        files.lookup (.manifest storageKey wholeInner) := by
  have happend : Adds {payload | payload ∈ wholePayloads} files (filesAfter files wholeLater 1) ∧
      ∀ storageKey, (filesAfter files wholeLater 1).lookup (.manifest storageKey wholeInner) =
        files.lookup (.manifest storageKey wholeInner) := by
    refine ⟨appendStep_adds (beginTransaction wholeIdentity (wholeBase 1) none, files) ?_, fun storageKey =>
      appendStep_root (s := (beginTransaction wholeIdentity (wholeBase 1) none, files)) rfl fun _ hplan =>
        planAppend_objects hplan⟩
    intro chunk hchunk encoded hencoded
    exact encodings_whole ⟨_, List.mem_singleton.mpr rfl, chunk, hchunk, hencoded⟩
  obtain _ | _ | n := n
  · exact ⟨Adds.refl _ _, fun _ => rfl⟩
  · exact happend
  · have hend : filesAfter files wholeLater (n + 2) =
        (commitManifest (wholeSession wholeIdentity ∅ (wholeBase 1) none wholeBatches).1
          ⟨filesAfter files wholeLater 1, none⟩).2.2.files := by
      unfold filesAfter
      rw [List.take_of_length_le (by simp [wholeLater])]
      rfl
    have hdistinct := wholeContexts_distinct
    simp only [List.nodup_cons, List.mem_cons, not_or] at hdistinct
    rw [hend]
    refine ⟨happend.1.trans _ _ _ _ (commitManifest_adds _ _ ⟨_, _⟩), fun storageKey => ?_⟩
    rw [← happend.2 storageKey]
    refine commitManifest_other _ ⟨_, none⟩ fun key => ?_
    rw [wholeSession_context _ _ _ _ (whole_injOn.mono encodings_whole)]
    simp [hdistinct.1.2.1]

theorem aliases_publish_whole : ∃ receipt w chunks,
    publishPrefixAliases wholeIdentity wholeCall ⟨wholeFiles, none⟩ = (.ok receipt, w) ∧
    receipt.aliases.map AliasTarget.boundary = [256] ∧ ContiguousChunks 0 chunks 512 ∧
    ∀ t ∈ receipt.aliases, t.contextDigest = wholeInner ∧ ∀ n,
      ∃ restored, restored <+: chunks ∧ ContiguousChunks 0 restored 256 ∧
        Serves (filesAfter w.files wholeLater n) wholeIdentity wholeInner .perTokenRows restored := by
  obtain ⟨hit, m, chunks, hserved, htokens, hchunks⟩ := wholeFiles_served
  obtain ⟨receipt, files, hpublish⟩ := wholeCall_publishes
  have hpublished : Adds {payload | payload ∈ wholePayloads} wholeFiles files := by
    have hmove : Adds {payload | payload ∈ wholePayloads} wholeFiles
        (publishPrefixAliases wholeIdentity wholeCall ⟨wholeFiles, none⟩).2.files := by
      refine publishPrefixAliases_adds fun plan segments hplan hchain e he => ?_
      rw [wholeSegment_planned hserved hchunks hplan hchain e he]
      simp [wholePayloads]
    rwa [hpublish] at hmove
  have hinj : Set.InjOn sha256 (contents wholeFiles ∪ actionContents files wholeLater) := by
    refine whole_injOn.mono ?_
    rintro payload (hold | ⟨n, hn⟩)
    · exact wholeFiles_contents hold
    · rcases (wholeLater_keeps files n).1 hn with hbefore | hnew
      · exact (hpublished hbefore).elim (fun hold => wholeFiles_contents hold) id
      · exact hnew
  obtain ⟨committed, hcovered, hboundaries, haliases⟩ := aliases_publish wholeIdentity wholeCall
    hserved.serves hpublish wholeLater hinj
  have hcommitted : committed = 512 := by
    obtain ⟨hcovers, -⟩ := lookup_covers hserved.hit hserved.rows
    rw [htokens] at hcovers
    exact hcovered.unique (hcovers.readChunks hserved.verified)
  have hone : receipt.aliases.map AliasTarget.boundary = [256] := (Except.ok.inj hboundaries).symm
  rw [hcommitted] at hcovered
  refine ⟨receipt, _, chunks, hpublish, hone, hcovered, fun t ht => ?_⟩
  have hboundary : t.boundary = 256 := by simpa [hone] using List.mem_map_of_mem (f := AliasTarget.boundary) ht
  obtain ⟨hdigest, hserves⟩ := haliases t ht
  rw [hboundary] at hdigest hserves
  have hinner : t.contextDigest = wholeInner := by
    have hnamed := wholePrefix_digest (show 0 < 2 by omega) (show 256 ≤ 512 by omega)
    rw [show contextPrefixDigest (wholePrefix 0).tokens "" 256 = .ok t.contextDigest from hdigest] at hnamed
    exact Except.ok.inj hnamed
  refine ⟨hinner, fun n => ?_⟩
  rw [hinner] at hserves
  refine hserves n fun storageKey _ => ?_
  have hdistinct := wholeContexts_distinct
  simp only [List.nodup_cons, List.mem_cons, not_or] at hdistinct
  have hnone : wholeFiles.lookup (.manifest storageKey wholeInner) = none :=
    wholeFiles_root rfl fun key => by simp [hdistinct.1.1]
  have hkept := publishPrefixAliases_manifest wholeIdentity wholeCall ⟨wholeFiles, none⟩ storageKey wholeInner
  rw [hpublish] at hkept
  rw [(wholeLater_keeps files n).2 storageKey]
  exact hkept.trans hnone

end SparkCache.Store
