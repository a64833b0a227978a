import SparkCache.Store.ServedAliases

/-!
# Runs of row sources

Sources are committed, and each of them publishes aliases at its default
boundaries. An alias is named by its tokens alone, but its file also names the
source.
-/
namespace SparkCache.Store

open Files Files.FileM Json Pages

/-- A step of a run over one identity: a context is committed as a whole, or as the extension of
another one, or a committed context publishes its default aliases. The tokens of a whole context
are those that it is named by. -/
inductive SourceStep where
  | whole (context : Digest) (tokens : List ℤ) (salt : String) (span : Option ℕ)
      (batches : List AppendCall) (steps : Option ℕ)
  | extension (call : ExtensionCall)
  | publish (source : TokenPrefix)

/-- The files, the contexts that were committed with their numbers of tokens, and the sources that
have published their aliases. -/
structure SourceRun where
  files : Disk
  committed : List (Digest × ℕ)
  published : List TokenPrefix

/-- The call of a source that names no boundaries. -/
def defaultCall (source : TokenPrefix) (context : Digest) : AliasCall :=
  ⟨context, source.tokens, source.salt, none, .perTokenRows, none⟩

/-- The contexts that a commit has added, if it returned. -/
def committedBy (context : Digest) : Except StoreError CommitReceipt → List (Digest × ℕ)
  | .ok receipt => [(context, receipt.committedTokens)]
  | .error _ => []

/-- The context that an extension names. -/
def extensionContext (files : Disk) (i : CacheIdentity) (call : ExtensionCall) : Except StoreError Digest :=
  (planExtension files i call).map ExtensionPlan.resultDigest

/-- What an extension has committed, if it has a plan and returned. -/
def extensionCommits (files : Disk) (i : CacheIdentity) (call : ExtensionCall)
    (result : Except StoreError CommitReceipt) : List (Digest × ℕ) :=
  match extensionContext files i call with
  | .ok context => committedBy context result
  | .error _ => []

def SourceRun.step (i : CacheIdentity) (s : SourceRun) : SourceStep → SourceRun
  | .whole context _ _ span batches steps =>
      let (result, files) := commitWhole i s.files context span batches steps
      { s with files, committed := s.committed ++ committedBy context result }
  | .extension call =>
      let (result, w) := commitExtension i call ⟨s.files, call.steps⟩
      { s with files := w.files, committed := s.committed ++ extensionCommits s.files i call result }
  | .publish source =>
      match source.digest with
      | .error _ => s
      | .ok context =>
          { s with
            files := (publishPrefixAliases i (defaultCall source context) ⟨s.files, none⟩).2.files
            published := s.published ++ [source] }

/-- The run after its first steps, from an empty store. -/
def sourcesAfter (i : CacheIdentity) (steps : List SourceStep) (n : ℕ) : SourceRun :=
  Run.exec (SourceRun.step i) ⟨∅, [], []⟩ (steps.take n)

/-! ## The condition -/

/-- The prefixes that a source publishes by default. -/
def TokenPrefix.defaults (i : CacheIdentity) (source : TokenPrefix) : List TokenPrefix :=
  (defaultBoundaries i.chunkTokens source.count).map fun b => { source with count := b }

/-- Two sources have a default alias for the same tokens only if they are the same. -/
def TokenPrefix.Apart (i : CacheIdentity) (earlier source : TokenPrefix) : Prop :=
  earlier.salt = source.salt → ∀ b ∈ defaultBoundaries i.chunkTokens earlier.count,
    b ∈ defaultBoundaries i.chunkTokens source.count → earlier.tokens.take b = source.tokens.take b →
      earlier.tokens.take earlier.count = source.tokens.take source.count

/-- A step of a run as the publisher is used: contexts are named by their tokens, and what
publishes aliases is committed and ends on chunk geometry. -/
def SourceStep.Proper (i : CacheIdentity) (s : SourceRun) : SourceStep → Prop
  | .whole context tokens salt span batches _ =>
      ZeroFree salt ∧ ∀ path encoded,
        planCommit (wholeSession i s.files context span batches).1 = .ok (path, encoded) →
          contextPrefixDigest tokens salt
            (wholeSession i s.files context span batches).1.expectedStart = .ok context
  | .extension call => ZeroFree call.salt
  | .publish source => ZeroFree source.salt ∧
      (∃ context, source.digest = .ok context ∧ (context, source.count) ∈ s.committed) ∧
      source.count % i.chunkTokens = 0

/-- A publication whose boundaries are accepted by the digest pass, and which shares none of them
with another source that has published before. -/
def SourceStep.Meets (i : CacheIdentity) (s : SourceRun) : SourceStep → Prop
  | .publish source =>
      (∀ b ∈ defaultBoundaries i.chunkTokens source.count, b % defaultChunkTokens = 0) ∧
        ∀ earlier ∈ s.published, earlier.Apart i source
  | _ => True

/-- What a step hashes before it writes. -/
def SourceStep.hashed (i : CacheIdentity) (s : SourceRun) : SourceStep → Set Bytes
  | .whole context tokens salt span batches _ => encodings batches ∪
      (TokenPrefix.mk tokens salt (wholeSession i s.files context span batches).1.expectedStart).hashed
  | .extension call => {payload | ∃ last ∈ call.tail.getLast?,
      payload ∈ (TokenPrefix.mk call.tokens call.salt last.logicalEnd).hashed}
  | .publish source => {payload | (∃ p ∈ source.defaults i, payload ∈ p.hashed) ∨
      ∃ context plan segments, source.digest = .ok context ∧
        planAliases s.files i (defaultCall source context) = .ok plan ∧
        chainSegments plan.storageKey plan.descriptors (segmentCount plan.maximumChunks) = .ok segments ∧
        payload ∈ segments}

/-- Everything that is hashed in a run: the objects at any time, and what the steps hash. -/
def sourceHashed (i : CacheIdentity) (steps : List SourceStep) : Set Bytes :=
  {payload | ∃ n, payload ∈ contents (sourcesAfter i steps n).files ∨
    ∃ step, steps[n]? = some step ∧ payload ∈ step.hashed i (sourcesAfter i steps n)}

/-! ## What a run keeps -/

/-- A context that is served, and that is named by the tokens that it covers. -/
structure Named (i : CacheIdentity) (W : Set Bytes) (files : Disk) (context : Digest) (p : TokenPrefix)
    (chunks : List ContextChunk) : Prop where
  digest : p.digest = .ok context
  salt : ZeroFree p.salt
  hashed : p.hashed ⊆ W
  serves : ∀ mode, Serves files i context mode chunks
  covered : ContiguousChunks 0 chunks p.count

theorem Named.preserved {i : CacheIdentity} {W : Set Bytes} {f g : Disk} (hkeep : Preserves f g)
    {context : Digest} {p : TokenPrefix} {chunks : List ContextChunk}
    (h : Named i W f context p chunks) : Named i W g context p chunks :=
  ⟨h.digest, h.salt, h.hashed, Serves.preserved hkeep h.serves, h.covered⟩

theorem sourceRows_preserved {f g : Disk} (hkeep : Preserves f g) {i : CacheIdentity}
    {storageKey source : Digest} {document : Json} {rows : RowManifest}
    (h : sourceRows f i storageKey source document = .ok rows) :
    sourceRows g i storageKey source document = .ok rows := by
  unfold sourceRows at h ⊢
  split at h
  · rename_i hschema
    rw [if_pos hschema]
    exact resolveTailManifest_preserved hkeep h
  · rename_i hschema
    rw [if_neg hschema]
    exact h

theorem Sources.preserved {f g : Disk} (hkeep : Preserves f g) {i : CacheIdentity} {call : AliasCall}
    {rows : RowManifest} {plan : AliasPlan} (h : Sources f i call rows plan) :
    Sources g i call rows plan := by
  obtain ⟨encoded, document, hfile, hload, hrows, hmanifest⟩ := h.file
  exact ⟨h.key, ⟨encoded, document, hkeep _ _ hfile (Or.inl rfl), hload, sourceRows_preserved hkeep hrows,
    hmanifest⟩, h.geometry, h.descriptors, h.source, h.boundaries, h.targets⟩

/-- What a source that has published has left in the files. -/
structure PublishedSource (i : CacheIdentity) (files : Disk) (source : TokenPrefix) (plan : AliasPlan)
    (segments : List Bytes) : Prop where
  source : ∃ context rows, source.digest = .ok context ∧
    Sources files i (defaultCall source context) rows plan ∧ rows.committedTokens = source.count ∧
    Covers i.chunkTokens 0 plan.descriptors source.count
  chain : chainSegments plan.storageKey plan.descriptors (segmentCount plan.maximumChunks) = .ok segments
  stored : Stored files plan.storageKey segments
  chunks : ∃ chunks, readChunks files i.requiredRecords plan.descriptors = .ok chunks
  files : ∀ t ∈ plan.targets, ∃ encoded, encodeAlias i plan segments t = .ok encoded ∧
    files.lookup (.prefixAlias plan.storageKey t.contextDigest) = some encoded

theorem PublishedSource.preserved {f g : Disk} (hkeep : Preserves f g) {i : CacheIdentity}
    {source : TokenPrefix} {plan : AliasPlan} {segments : List Bytes}
    (h : PublishedSource i f source plan segments) : PublishedSource i g source plan segments := by
  obtain ⟨context, rows, hdigest, hs, hcount, hcovers⟩ := h.source
  obtain ⟨chunks, hchunks⟩ := h.chunks
  refine ⟨⟨context, rows, hdigest, hs.preserved hkeep, hcount, hcovers⟩, h.chain, h.stored.preserved hkeep,
    ⟨chunks, readChunks_preserved hkeep hchunks⟩, fun t ht => ?_⟩
  obtain ⟨encoded, hencoded, hfile⟩ := h.files t ht
  exact ⟨encoded, hencoded, hkeep _ _ hfile (Or.inl rfl)⟩

/-- The boundaries that are published are the default ones. -/
theorem PublishedSource.boundaries {files : Disk} {i : CacheIdentity} {source : TokenPrefix}
    {plan : AliasPlan} {segments : List Bytes} (h : PublishedSource i files source plan segments) :
    plan.targets.map AliasTarget.boundary = defaultBoundaries i.chunkTokens source.count := by
  obtain ⟨context, rows, -, hs, hcount, -⟩ := h.source
  have hboundaries := hs.boundaries
  rw [← hcount]
  exact (Except.ok.inj hboundaries).symm

/-- What holds of the state of a run. -/
structure SourceRun.Holds (i : CacheIdentity) (W : Set Bytes) (s : SourceRun) : Prop where
  roots : ∀ storageKey context file, i.view.storageKey = .ok storageKey →
    s.files.lookup (.manifest storageKey context) = some file →
      ∃ p chunks, Named i W s.files context p chunks
  committed : ∀ c ∈ s.committed, ∃ chunks, (∀ mode, Serves s.files i c.1 mode chunks) ∧
    ContiguousChunks 0 chunks c.2
  aliases : ∀ storageKey context file, i.view.storageKey = .ok storageKey →
    s.files.lookup (.prefixAlias storageKey context) = some file →
      ∃ source ∈ s.published, ∃ plan segments, PublishedSource i s.files source plan segments ∧
        ∃ t ∈ plan.targets, t.contextDigest = context
  published : ∀ source ∈ s.published, ZeroFree source.salt ∧ (∀ p ∈ source.defaults i, p.hashed ⊆ W) ∧
    ∃ plan segments, PublishedSource i s.files source plan segments

/-- Files that are kept keep what holds; a new root must be named, and there is no new alias. -/
theorem SourceRun.Holds.grow {i : CacheIdentity} {W : Set Bytes} {s : SourceRun} (h : s.Holds i W)
    {files : Disk} (hkeep : Preserves s.files files)
    (hroots : ∀ storageKey context, i.view.storageKey = .ok storageKey →
      files.lookup (.manifest storageKey context) = s.files.lookup (.manifest storageKey context) ∨
        ∃ p chunks, Named i W files context p chunks)
    (haliases : ∀ storageKey context, files.lookup (.prefixAlias storageKey context) =
      s.files.lookup (.prefixAlias storageKey context))
    {added : List (Digest × ℕ)} (hadded : ∀ c ∈ added, ∃ chunks,
      (∀ mode, Serves files i c.1 mode chunks) ∧ ContiguousChunks 0 chunks c.2) :
    SourceRun.Holds i W ⟨files, s.committed ++ added, s.published⟩ := by
  refine ⟨?_, ?_, ?_, ?_⟩
  · intro storageKey context file hkey hfile
    rcases hroots storageKey context hkey with hold | hnew
    · have hfile : files.lookup (.manifest storageKey context) = some file := hfile
      rw [hold] at hfile
      obtain ⟨p, chunks, hnamed⟩ := h.roots storageKey context file hkey hfile
      exact ⟨p, chunks, hnamed.preserved hkeep⟩
    · exact hnew
  · intro c hc
    rcases List.mem_append.mp hc with hc | hc
    · obtain ⟨chunks, hserves, hcovered⟩ := h.committed c hc
      exact ⟨chunks, Serves.preserved hkeep hserves, hcovered⟩
    · exact hadded c hc
  · intro storageKey context file hkey hfile
    have hfile : files.lookup (.prefixAlias storageKey context) = some file := hfile
    rw [haliases] at hfile
    obtain ⟨source, hsource, plan, segments, hpublished, ht⟩ := h.aliases storageKey context file hkey hfile
    exact ⟨source, hsource, plan, segments, hpublished.preserved hkeep, ht⟩
  · intro source hsource
    obtain ⟨hsalt, hhashed, plan, segments, hpublished⟩ := h.published source hsource
    exact ⟨hsalt, hhashed, plan, segments, hpublished.preserved hkeep⟩

/-! ## Commits -/

theorem mem_committedBy {context : Digest} {result : Except StoreError CommitReceipt} {c : Digest × ℕ} :
    c ∈ committedBy context result ↔
      ∃ receipt, result = .ok receipt ∧ c = (context, receipt.committedTokens) := by
  cases result with
  | error e => simp [committedBy]
  | ok receipt => simp [committedBy]

/-- A whole context adds at most its own root, and that is named. -/
theorem SourceRun.Holds.whole {i : CacheIdentity} {W : Set Bytes} (hinj : Set.InjOn sha256 W)
    {s : SourceRun} (h : s.Holds i W) {context : Digest} {tokens : List ℤ} {salt : String} {span : Option ℕ}
    {batches : List AppendCall} {steps : Option ℕ}
    (hproper : SourceStep.Proper i s (.whole context tokens salt span batches steps))
    (hhashed : SourceStep.hashed i s (.whole context tokens salt span batches steps) ⊆ W)
    (hkeep : Preserves s.files (s.step i (.whole context tokens salt span batches steps)).files) :
    (s.step i (.whole context tokens salt span batches steps)).Holds i W := by
  obtain ⟨hsalt, hnamed⟩ := hproper
  obtain ⟨hencodings, hprefix⟩ := Set.union_subset_iff.mp hhashed
  obtain ⟨chunks, hcovered, hends, hreturns⟩ :=
    commitWhole_ends i s.files context span (hinj.mono hencodings) steps
  refine h.grow hkeep ?_ ?_ ?_
  · intro storageKey context' hkey
    rcases hends with hsame | ⟨storageKey', encoded, hkey', hplan, hserves, hother⟩
    · exact Or.inl (hsame _ rfl)
    · rw [hkey] at hkey'
      cases hkey'
      by_cases hcontext : context' = context
      · subst hcontext
        exact Or.inr ⟨⟨tokens, salt, _⟩, chunks, hnamed _ _ hplan, hsalt, hprefix, hserves, hcovered⟩
      · exact Or.inl (hother _ rfl (by simp [hcontext]))
  · intro storageKey context'
    rcases hends with hsame | ⟨storageKey', encoded, hkey', hplan, hserves, hother⟩
    · exact hsame _ rfl
    · exact hother _ rfl (by simp)
  · intro c hc
    have hc : c ∈ committedBy context (commitWhole i s.files context span batches steps).1 := hc
    obtain ⟨receipt, hreceipt, rfl⟩ := mem_committedBy.mp hc
    obtain ⟨htokens, hserves⟩ := hreturns receipt hreceipt
    exact ⟨chunks, hserves, htokens ▸ hcovered⟩

/-- What an extension has planned is served as soon as its root is there. -/
theorem VisibleExtension.named {i : CacheIdentity} {W : Set Bytes} {call : ExtensionCall} {f g : Disk}
    {plan : ExtensionPlan} {segments : List Bytes} {root : Bytes} (hsalt : ZeroFree call.salt)
    (hhashed : ∀ last ∈ call.tail.getLast?, (TokenPrefix.mk call.tokens call.salt last.logicalEnd).hashed ⊆ W)
    (hkeep : Preserves f g) (hplan : planExtension f i call = .ok plan)
    (h : VisibleExtension i call.base plan segments root f g) :
    ∃ chunks, Named i W g plan.resultDigest ⟨call.tokens, call.salt, plan.resultTokens⟩ chunks := by
  obtain ⟨hit, base, hp⟩ := planExtension_eq_ok hplan
  obtain ⟨chunks, hchunks⟩ := lookup_chunks hp.hit hp.rows
  obtain ⟨last, hlast, htokens⟩ := hp.last
  refine ⟨_, hp.result, hsalt, htokens ▸ hhashed last hlast,
    fun mode => (hp.served hkeep h.chain h.encoded h.stored h.objects h.file hchunks mode).1.serves, ?_⟩
  exact hp.covers.1.readChunks (hp.chunks hkeep h.objects hchunks)

theorem extensionContext_eq_ok {files : Disk} {i : CacheIdentity} {call : ExtensionCall} {d : Digest} :
    extensionContext files i call = .ok d ↔
      ∃ plan, planExtension files i call = .ok plan ∧ plan.resultDigest = d := by
  unfold extensionContext
  cases planExtension files i call with
  | error e => simp [Except.map]
  | ok plan => simp [Except.map]

/-- An extension adds at most its own root, and that is named by what it extends. -/
theorem SourceRun.Holds.extension {i : CacheIdentity} {W : Set Bytes} {s : SourceRun} (h : s.Holds i W)
    {call : ExtensionCall} (hproper : SourceStep.Proper i s (.extension call))
    (hhashed : SourceStep.hashed i s (.extension call) ⊆ W)
    (hkeep : Preserves s.files (s.step i (.extension call)).files) :
    (s.step i (.extension call)).Holds i W := by
  have hprefix : ∀ last ∈ call.tail.getLast?,
      (TokenPrefix.mk call.tokens call.salt last.logicalEnd).hashed ⊆ W :=
    fun last hlast payload hpayload => hhashed ⟨last, hlast, hpayload⟩
  have hends := commitExtension_ends i call ⟨s.files, call.steps⟩
  refine h.grow hkeep ?_ ?_ ?_
  · intro storageKey context hkey
    rcases hends with hsame | ⟨plan, segments, root, hplan, hvisible⟩
    · exact Or.inl (hsame _ rfl)
    · by_cases hpath : Path.manifest storageKey context = .manifest plan.storageKey plan.resultDigest
      · injection hpath with _ hcontext
        rw [hcontext]
        obtain ⟨chunks, hnamed⟩ := hvisible.named hproper hprefix hkeep hplan
        exact Or.inr ⟨_, chunks, hnamed⟩
      · exact Or.inl (hvisible.same _ rfl hpath)
  · intro storageKey context
    rcases hends with hsame | ⟨plan, segments, root, hplan, hvisible⟩
    · exact hsame _ rfl
    · exact hvisible.same _ rfl (by simp)
  · intro c hc
    unfold extensionCommits at hc
    cases hcontext : extensionContext s.files i call with
    | error e =>
        rw [hcontext] at hc
        cases hc
    | ok context =>
        rw [hcontext] at hc
        obtain ⟨receipt, hreceipt, rfl⟩ := mem_committedBy.mp hc
        obtain ⟨plan, hplan, rfl⟩ := extensionContext_eq_ok.mp hcontext
        obtain ⟨plan', segments, root, hplan', hchain, hroot, hstored, hobjects, hfile, rfl⟩ :=
          commitExtension_eq_ok (w := ⟨s.files, call.steps⟩) (Prod.ext hreceipt rfl)
        rw [hplan] at hplan'
        cases hplan'
        obtain ⟨hit, base, hp⟩ := planExtension_eq_ok hplan
        obtain ⟨chunks, hchunks⟩ := lookup_chunks hp.hit hp.rows
        refine ⟨_, fun mode => (hp.served hkeep hchain hroot hstored hobjects hfile hchunks mode).1.serves, ?_⟩
        exact hp.covers.1.readChunks (hp.chunks hkeep hobjects hchunks)

/-! ## Publications -/

/-- A target of a published source is the digest of the tokens up to a default boundary. -/
theorem PublishedSource.target {i : CacheIdentity} {files : Disk} {source : TokenPrefix} {plan : AliasPlan}
    {segments : List Bytes} (h : PublishedSource i files source plan segments) {t : AliasTarget}
    (ht : t ∈ plan.targets) :
    (TokenPrefix.mk source.tokens source.salt t.boundary).digest = .ok t.contextDigest ∧
      t.boundary ∈ defaultBoundaries i.chunkTokens source.count ∧
      TokenPrefix.mk source.tokens source.salt t.boundary ∈ source.defaults i := by
  obtain ⟨context, rows, hdigest, hs, hcount, -⟩ := h.source
  have hmem : t.boundary ∈ defaultBoundaries i.chunkTokens source.count := by
    rw [← h.boundaries]
    exact List.mem_map_of_mem ht
  exact ⟨(hs.targets t ht).2, hmem, List.mem_map.mpr ⟨t.boundary, hmem, rfl⟩⟩

/-- Two plans of one source write the same file for one boundary. -/
theorem encodeAlias_congr {files : Disk} {i : CacheIdentity} {call call' : AliasCall}
    {rows rows' : RowManifest} {plan plan' : AliasPlan} {segments segments' : List Bytes}
    (hsource : call.source = call'.source) (hs : Sources files i call rows plan)
    (hs' : Sources files i call' rows' plan')
    (hchain : chainSegments plan.storageKey plan.descriptors (segmentCount plan.maximumChunks) = .ok segments)
    (hchain' : chainSegments plan'.storageKey plan'.descriptors (segmentCount plan'.maximumChunks) =
      .ok segments')
    (hcovers : Covers i.chunkTokens 0 plan.descriptors rows.committedTokens)
    {t t' : AliasTarget} (ht : t ∈ plan.targets) (ht' : t' ∈ plan'.targets)
    (hboundary : t.boundary = t'.boundary) (hcontext : t.contextDigest = t'.contextDigest) :
    encodeAlias i plan segments t = encodeAlias i plan' segments' t' := by
  have hkey : plan'.storageKey = plan.storageKey := by
    have hboth := hs.key
    rw [hs'.key] at hboth
    exact Except.ok.inj hboth
  obtain ⟨encoded, document, hfile, hload, hrows, hmanifest⟩ := hs.file
  obtain ⟨encoded', document', hfile', hload', hrows', hmanifest'⟩ := hs'.file
  rw [hkey, ← hsource, hfile] at hfile'
  cases hfile'
  rw [hload] at hload'
  cases hload'
  rw [hkey, ← hsource, hrows] at hrows'
  cases hrows'
  have hdescriptors : plan'.descriptors = plan.descriptors := hs'.descriptors.trans hs.descriptors.symm
  have hcount : t'.chunkCount = t.chunkCount := by
    have hend := (hs.targets t ht).1
    rw [hboundary, (hs'.targets t' ht').1] at hend
    exact Option.some.inj hend
  have hend := (hs.targets t ht).1
  rw [← hs.descriptors] at hend
  have hpos := (hcovers.take hend).2.1
  have hshort := chainSegments_take (plan.segmentCount_le ht) hchain
  have hshort' := chainSegments_take (plan'.segmentCount_le ht') hchain'
  rw [hkey, hdescriptors, hcount, hshort] at hshort'
  have htake := Except.ok.inj hshort'
  have hindex : (t.chunkCount - 1) / prefixSegmentDescriptors < segmentCount t.chunkCount := by
    rw [segmentCount_pos hpos]
    omega
  have hsegment : segments[(t.chunkCount - 1) / prefixSegmentDescriptors]? =
      segments'[(t.chunkCount - 1) / prefixSegmentDescriptors]? := by
    rw [← List.getElem?_take_of_lt hindex, htake, List.getElem?_take_of_lt hindex]
  unfold encodeAlias
  rw [hcount, hsegment, hboundary, hcontext, hmanifest, hmanifest']

/-- An alias that is there already is the one that would be written. -/
theorem PublishedSource.same {i : CacheIdentity} {W : Set Bytes} (hinj : Set.InjOn sha256 W) {files : Disk}
    {earlier source : TokenPrefix} {plan plan' : AliasPlan} {segments segments' : List Bytes}
    {context : Digest} {rows : RowManifest} (hdigest : source.digest = .ok context)
    (hs : Sources files i (defaultCall source context) rows plan)
    (hcount : rows.committedTokens = source.count)
    (hcovers : Covers i.chunkTokens 0 plan.descriptors rows.committedTokens)
    (hchain : chainSegments plan.storageKey plan.descriptors (segmentCount plan.maximumChunks) = .ok segments)
    (hsalt : ZeroFree source.salt) (hhashed : ∀ p ∈ source.defaults i, p.hashed ⊆ W)
    (hsalt' : ZeroFree earlier.salt) (hhashed' : ∀ p ∈ earlier.defaults i, p.hashed ⊆ W)
    (hpublished : PublishedSource i files earlier plan' segments') (hapart : earlier.Apart i source)
    {t t' : AliasTarget} (ht : t ∈ plan.targets) (ht' : t' ∈ plan'.targets)
    (hcontext : t'.contextDigest = t.contextDigest) :
    encodeAlias i plan segments t = encodeAlias i plan' segments' t' := by
  obtain ⟨context', rows', hdigest', hs', hcount', -⟩ := hpublished.source
  obtain ⟨hnamed', hmem', hdefault'⟩ := hpublished.target ht'
  have hmem : t.boundary ∈ defaultBoundaries i.chunkTokens source.count := by
    have hboundaries : defaultBoundaries i.chunkTokens rows.committedTokens =
        plan.targets.map AliasTarget.boundary := Except.ok.inj hs.boundaries
    rw [← hcount, hboundaries]
    exact List.mem_map_of_mem ht
  have hdefault : TokenPrefix.mk source.tokens source.salt t.boundary ∈ source.defaults i :=
    List.mem_map.mpr ⟨t.boundary, hmem, rfl⟩
  have hnamed : (TokenPrefix.mk source.tokens source.salt t.boundary).digest = .ok t.contextDigest :=
    (hs.targets t ht).2
  rw [hcontext] at hnamed'
  obtain ⟨hsalts, htokens, hboundary⟩ := TokenPrefix.digest_inj hinj (hhashed' _ hdefault')
    (hhashed _ hdefault) hsalt' hsalt hnamed' hnamed
  simp only at hsalts htokens hboundary
  rw [hboundary] at htokens hmem'
  have hwhole := hapart hsalts t.boundary hmem' hmem htokens
  obtain ⟨-, -, -, hlength, -, -⟩ := TokenPrefix.digest_eq_ok.mp hdigest
  obtain ⟨-, -, -, hlength', -, -⟩ := TokenPrefix.digest_eq_ok.mp hdigest'
  have hcounts : earlier.count = source.count := by
    have hlengths := congrArg List.length hwhole
    rw [List.length_take, List.length_take] at hlengths
    omega
  have hcontexts : context' = context := by
    refine TokenPrefix.digest_congr hsalts hcounts ?_ hdigest' hdigest
    rw [hwhole, hcounts]
  subst hcontexts
  exact encodeAlias_congr (show (defaultCall source context').source = (defaultCall earlier context').source
    from rfl) hs hs' hchain hpublished.chain hcovers ht ht' hboundary.symm hcontext.symm

/-- What a committed source plans to publish by default. -/
theorem SourceRun.Holds.plan {i : CacheIdentity} {W : Set Bytes} {s : SourceRun} (h : s.Holds i W)
    {source : TokenPrefix} {context : Digest} (hdigest : source.digest = .ok context)
    (hcommitted : (context, source.count) ∈ s.committed) (hgeometry : source.count % i.chunkTokens = 0)
    (hmultiple : ∀ b ∈ defaultBoundaries i.chunkTokens source.count, b % defaultChunkTokens = 0) :
    ∃ rows plan segments chunks, planAliases s.files i (defaultCall source context) = .ok plan ∧
      Sources s.files i (defaultCall source context) rows plan ∧ rows.committedTokens = source.count ∧
      Covers i.chunkTokens 0 plan.descriptors source.count ∧
      chainSegments plan.storageKey plan.descriptors (segmentCount plan.maximumChunks) = .ok segments ∧
      (∀ t ∈ plan.targets, ∃ encoded, encodeAlias i plan segments t = .ok encoded) ∧
      readChunks s.files i.requiredRecords plan.descriptors = .ok chunks := by
  obtain ⟨chunks, hserves, hcovered⟩ := h.committed _ hcommitted
  obtain ⟨hit, m, hserved⟩ := serves_iff.mp (hserves .other)
  obtain ⟨hcovers, hne⟩ := lookup_covers hserved.hit hserved.rows
  have hcount : m.committedTokens = source.count :=
    (hcovers.readChunks hserved.verified).unique hcovered
  obtain ⟨plan, hplan⟩ := planAliases_default (defaultCall source context) hserved rfl rfl
    (hcount ▸ hgeometry) (hcount ▸ hdigest) (hcount ▸ hmultiple)
  obtain ⟨rows, hs⟩ := planAliases_eq_ok hplan
  obtain rfl := hs.rows_eq hserved
  obtain ⟨segments, hchain, hencodes⟩ := hs.encodes hcovers (lookup_short hserved.hit hserved.rows) hne
  have hdescriptors := hs.descriptors
  refine ⟨rows, plan, segments, chunks, hplan, hs, hcount, ?_, hchain, hencodes, ?_⟩
  · rw [hdescriptors, ← hcount]
    exact hcovers
  · rw [hdescriptors]
    exact hserved.verified

/-- Without a collision the aliases of one publication have different digests. -/
theorem Sources.nodup {W : Set Bytes} (hinj : Set.InjOn sha256 W) {files : Disk} {i : CacheIdentity}
    {source : TokenPrefix} {context : Digest} {rows : RowManifest} {plan : AliasPlan}
    (hs : Sources files i (defaultCall source context) rows plan)
    (hcount : rows.committedTokens = source.count) (hsalt : ZeroFree source.salt)
    (hhashed : ∀ p ∈ source.defaults i, p.hashed ⊆ W) :
    (plan.targets.map AliasTarget.contextDigest).Nodup := by
  have hboundaries : defaultBoundaries i.chunkTokens rows.committedTokens =
      plan.targets.map AliasTarget.boundary := Except.ok.inj hs.boundaries
  have hsorted := defaultBoundaries_pairwise i.chunkTokens rows.committedTokens i.sizes.2
  rw [hboundaries, List.pairwise_map] at hsorted
  have hdefault : ∀ t ∈ plan.targets,
      TokenPrefix.mk source.tokens source.salt t.boundary ∈ source.defaults i := by
    intro t ht
    refine List.mem_map.mpr ⟨t.boundary, ?_, rfl⟩
    rw [← hcount, hboundaries]
    exact List.mem_map_of_mem ht
  rw [List.Nodup, List.pairwise_map]
  refine hsorted.imp_of_mem fun {t t'} ht ht' hlt heq => ?_
  have hfirst : (TokenPrefix.mk source.tokens source.salt t.boundary).digest = .ok t.contextDigest :=
    (hs.targets t ht).2
  have hsecond : (TokenPrefix.mk source.tokens source.salt t'.boundary).digest = .ok t'.contextDigest :=
    (hs.targets t' ht').2
  rw [heq] at hfirst
  obtain ⟨-, -, hsame⟩ := TokenPrefix.digest_inj hinj (hhashed _ (hdefault t ht))
    (hhashed _ (hdefault t' ht')) hsalt hsalt hfirst hsecond
  exact absurd hsame hlt.ne

/-- A publication that meets the condition succeeds, and leaves its aliases. -/
theorem SourceRun.Holds.publishes {i : CacheIdentity} {W : Set Bytes} (hinj : Set.InjOn sha256 W)
    {s : SourceRun} (h : s.Holds i W) {source : TokenPrefix}
    (hproper : SourceStep.Proper i s (.publish source)) (hmeets : SourceStep.Meets i s (.publish source))
    (hhashed : SourceStep.hashed i s (.publish source) ⊆ W)
    (hkeep : Preserves s.files (s.step i (.publish source)).files) :
    ∃ context receipt plan segments, source.digest = .ok context ∧
      (publishPrefixAliases i (defaultCall source context) ⟨s.files, none⟩).1 = .ok receipt ∧
      planAliases s.files i (defaultCall source context) = .ok plan ∧
      PublishedSource i (s.step i (.publish source)).files source plan segments := by
  obtain ⟨hsalt, ⟨context, hdigest, hcommitted⟩, hgeometry⟩ := hproper
  obtain ⟨hmultiple, hapart⟩ := hmeets
  have hprefixes : ∀ p ∈ source.defaults i, p.hashed ⊆ W :=
    fun p hp payload hpayload => hhashed (Or.inl ⟨p, hp, hpayload⟩)
  obtain ⟨rows, plan, segments, chunks, hplan, hs, hcount, hcovers, hchain, hencodes, hchunks⟩ :=
    h.plan hdigest hcommitted hgeometry hmultiple
  have hsegments : Set.InjOn sha256 {e | e ∈ segments} := hinj.mono fun e he =>
    hhashed (Or.inr ⟨context, plan, segments, hdigest, hplan, hchain, he⟩)
  obtain ⟨receipt, files', hpublish⟩ := publishPrefixAliases_sound hplan hchain hsegments
    (hs.nodup hinj hcount hsalt hprefixes) (by
      intro t ht
      obtain ⟨encoded, hencoded⟩ := hencodes t ht
      refine ⟨encoded, hencoded, ?_⟩
      cases hfile : s.files.lookup (.prefixAlias plan.storageKey t.contextDigest) with
      | none => exact Or.inl rfl
      | some file =>
          obtain ⟨earlier, hearlier, plan', segments', hpublished, t', ht', hcontext⟩ :=
            h.aliases _ _ file hs.key hfile
          obtain ⟨hsalt', hprefixes', -⟩ := h.published earlier hearlier
          have hsame := PublishedSource.same hinj hdigest hs hcount (hcount ▸ hcovers) hchain hsalt
            hprefixes hsalt' hprefixes' hpublished (hapart earlier hearlier) ht ht' hcontext
          obtain ⟨encoded', hencoded', hfile'⟩ := hpublished.files t' ht'
          obtain ⟨_, _, -, hs', -, -⟩ := hpublished.source
          have hkey := hs'.key
          rw [hs.key] at hkey
          rw [← Except.ok.inj hkey, hcontext, hfile] at hfile'
          rw [hsame, hencoded'] at hencoded
          rw [hfile', Except.ok.inj hencoded]
          exact Or.inr rfl)
  have hstep : (s.step i (.publish source)).files = files' := by
    show (match source.digest with | .error _ => s | .ok context => _ : SourceRun).files = files'
    rw [hdigest]
    show (publishPrefixAliases i (defaultCall source context) ⟨s.files, none⟩).2.files = files'
    rw [hpublish]
  rw [hstep] at hkeep ⊢
  obtain ⟨plan', segments', hplan', hchain', hstored, hfiles, -⟩ := publishPrefixAliases_eq_ok hpublish
  rw [show planAliases (World.mk s.files none).files i (defaultCall source context) = .ok plan from hplan]
    at hplan'
  cases hplan'
  refine ⟨context, receipt, plan, segments', hdigest, by rw [hpublish], hplan,
    ⟨context, rows, hdigest, hs.preserved hkeep, hcount, hcovers⟩, hchain', hstored,
    ⟨chunks, readChunks_preserved hkeep hchunks⟩, hfiles⟩

theorem step_publish {i : CacheIdentity} {s : SourceRun} {source : TokenPrefix} {context : Digest}
    (hdigest : source.digest = .ok context) :
    s.step i (.publish source) =
      ⟨(publishPrefixAliases i (defaultCall source context) ⟨s.files, none⟩).2.files, s.committed,
        s.published ++ [source]⟩ := by
  show (match source.digest with | .error _ => s | .ok context => _ : SourceRun) = _
  rw [hdigest]

/-- A publication adds no root, and the aliases that it adds are those of its source. -/
theorem SourceRun.Holds.publish {i : CacheIdentity} {W : Set Bytes} (hinj : Set.InjOn sha256 W)
    {s : SourceRun} (h : s.Holds i W) {source : TokenPrefix}
    (hproper : SourceStep.Proper i s (.publish source)) (hmeets : SourceStep.Meets i s (.publish source))
    (hhashed : SourceStep.hashed i s (.publish source) ⊆ W)
    (hkeep : Preserves s.files (s.step i (.publish source)).files) :
    (s.step i (.publish source)).Holds i W := by
  obtain ⟨context, receipt, plan, segments, hdigest, -, hplan, hpublished⟩ :=
    h.publishes hinj hproper hmeets hhashed hkeep
  rw [step_publish hdigest] at hkeep hpublished ⊢
  have hkey : ∀ storageKey, i.view.storageKey = .ok storageKey → storageKey = plan.storageKey := by
    intro storageKey hkey
    obtain ⟨_, hs⟩ := planAliases_eq_ok hplan
    rw [hs.key] at hkey
    exact (Except.ok.inj hkey).symm
  have hroots : ∀ p, p.isRoot = true →
      (publishPrefixAliases i (defaultCall source context) ⟨s.files, none⟩).2.files.lookup p =
        s.files.lookup p ∨ ∃ t ∈ plan.targets, p = .prefixAlias plan.storageKey t.contextDigest := by
    intro p hp
    rcases publishPrefixAliases_ends i (defaultCall source context) ⟨s.files, none⟩ with
      hsame | ⟨plan', segments', hplan', hvisible⟩
    · exact Or.inl (hsame p hp)
    · rw [show planAliases (World.mk s.files none).files i (defaultCall source context) = .ok plan
        from hplan] at hplan'
      cases hplan'
      rcases hvisible.files p hp with hold | ⟨t, ht, encoded, hpath, -⟩
      · exact Or.inl hold
      · exact Or.inr ⟨t, ht, hpath⟩
  refine ⟨?_, ?_, ?_, ?_⟩
  · intro storageKey context' file hstorage hfile
    have hold := (hroots (.manifest storageKey context') rfl).resolve_right (by simp)
    rw [hold] at hfile
    obtain ⟨p, chunks, hnamed⟩ := h.roots storageKey context' file hstorage hfile
    exact ⟨p, chunks, hnamed.preserved hkeep⟩
  · intro c hc
    obtain ⟨chunks, hserves, hcovered⟩ := h.committed c hc
    exact ⟨chunks, Serves.preserved hkeep hserves, hcovered⟩
  · intro storageKey context' file hstorage hfile
    rcases hroots (.prefixAlias storageKey context') rfl with hold | ⟨t, ht, hpath⟩
    · rw [hold] at hfile
      obtain ⟨earlier, hearlier, plan', segments', hpublished', ht⟩ :=
        h.aliases storageKey context' file hstorage hfile
      exact ⟨earlier, List.mem_append_left _ hearlier, plan', segments', hpublished'.preserved hkeep, ht⟩
    · injection hpath with _ hcontext
      exact ⟨source, List.mem_append_right _ (List.mem_singleton.mpr rfl), plan, segments, hpublished, t, ht,
        hcontext.symm⟩
  · intro earlier hearlier
    rcases List.mem_append.mp hearlier with hearlier | hearlier
    · obtain ⟨hsalt, hprefixes, plan', segments', hpublished'⟩ := h.published earlier hearlier
      exact ⟨hsalt, hprefixes, plan', segments', hpublished'.preserved hkeep⟩
    · rw [List.mem_singleton.mp hearlier]
      exact ⟨hproper.1, fun p hp payload hpayload => hhashed (Or.inl ⟨p, hp, hpayload⟩), plan, segments,
        hpublished⟩

/-! ## Runs -/

theorem SourceRun.step_grows (i : CacheIdentity) (s : SourceRun) (step : SourceStep) :
    Grows s.files (s.step i step).files := by
  cases step with
  | whole context tokens salt span batches steps => exact commitWhole_grows i s.files context span batches steps
  | extension call => exact commitExtension_grows i call ⟨s.files, call.steps⟩
  | publish source =>
      cases hdigest : source.digest with
      | error e =>
          have hstep : s.step i (.publish source) = s := by
            show (match source.digest with | .error _ => s | .ok context => _ : SourceRun) = _
            rw [hdigest]
          rw [hstep]
          exact Grows.refl _
      | ok context =>
          rw [step_publish hdigest]
          exact publishPrefixAliases_grows i (defaultCall source context) ⟨s.files, none⟩

theorem sourcesAfter_succ (i : CacheIdentity) {steps : List SourceStep} {n : ℕ} {step : SourceStep}
    (h : steps[n]? = some step) : sourcesAfter i steps (n + 1) = (sourcesAfter i steps n).step i step := by
  unfold sourcesAfter
  rw [List.take_add_one, h]
  exact Run.exec_concat _ _ _ _

theorem sourcesAfter_end (i : CacheIdentity) {steps : List SourceStep} {n : ℕ} (h : steps[n]? = none) :
    sourcesAfter i steps (n + 1) = sourcesAfter i steps n := by
  unfold sourcesAfter
  rw [List.take_add_one, h]
  simp

section Collision
variable {i : CacheIdentity} {steps : List SourceStep} (hinj : Set.InjOn sha256 (sourceHashed i steps))
include hinj

theorem sourcesAfter_preserves (n : ℕ) :
    Preserves (sourcesAfter i steps n).files (sourcesAfter i steps (n + 1)).files := by
  cases hstep : steps[n]? with
  | none =>
      rw [sourcesAfter_end i hstep]
      exact Preserves.refl _
  | some step =>
      have hgrows := (sourcesAfter i steps n).step_grows i step
      rw [← sourcesAfter_succ i hstep] at hgrows
      refine hgrows.preserves (hinj.mono ?_)
      rintro payload (hpayload | hpayload)
      · exact ⟨n, Or.inl hpayload⟩
      · exact ⟨n + 1, Or.inl hpayload⟩

variable (hproper : ∀ n (step : SourceStep), steps[n]? = some step → step.Proper i (sourcesAfter i steps n))
  (hmeets : ∀ n (step : SourceStep), steps[n]? = some step → step.Meets i (sourcesAfter i steps n))
include hproper hmeets

theorem sourcesAfter_holds (n : ℕ) : (sourcesAfter i steps n).Holds i (sourceHashed i steps) := by
  induction n with
  | zero => exact ⟨nofun, nofun, nofun, nofun⟩
  | succ n ih =>
      have hkeep := sourcesAfter_preserves hinj n
      cases hstep : steps[n]? with
      | none =>
          rw [sourcesAfter_end i hstep]
          exact ih
      | some step =>
          rw [sourcesAfter_succ i hstep] at hkeep ⊢
          have hhashed : step.hashed i (sourcesAfter i steps n) ⊆ sourceHashed i steps :=
            fun payload hpayload => ⟨n, Or.inr ⟨step, hstep, hpayload⟩⟩
          have hp := hproper n step hstep
          cases step with
          | whole context tokens salt span batches steps => exact ih.whole hinj hp hhashed hkeep
          | extension call => exact ih.extension hp hhashed hkeep
          | publish source => exact ih.publish hinj hp (hmeets n _ hstep) hhashed hkeep

end Collision

theorem sourcesAfter_published (i : CacheIdentity) (steps : List SourceStep) {n m : ℕ} (h : n ≤ m) :
    (sourcesAfter i steps n).published ⊆ (sourcesAfter i steps m).published := by
  induction m, h using Nat.le_induction with
  | base => exact List.Subset.refl _
  | succ m _ ih =>
      refine List.Subset.trans ih ?_
      cases hstep : steps[m]? with
      | none => rw [sourcesAfter_end i hstep]; exact List.Subset.refl _
      | some step =>
          rw [sourcesAfter_succ i hstep]
          cases step with
          | whole context tokens salt span batches steps => exact List.Subset.refl _
          | extension call => exact List.Subset.refl _
          | publish source =>
              cases hdigest : source.digest with
              | error e =>
                  show _ ⊆ (match source.digest with
                    | .error _ => sourcesAfter i steps m | .ok context => _ : SourceRun).published
                  rw [hdigest]
                  exact List.Subset.refl _
              | ok context =>
                  rw [step_publish hdigest]
                  exact List.subset_append_left _ _

/-- Every default boundary of a published source is served, by an alias or by an exact root. -/
theorem SourceRun.Holds.serves {i : CacheIdentity} {W : Set Bytes} (hinj : Set.InjOn sha256 W)
    {s : SourceRun} (h : s.Holds i W) {source : TokenPrefix} (hsource : source ∈ s.published) {b : ℕ}
    (hb : b ∈ defaultBoundaries i.chunkTokens source.count) :
    ∃ context chunks, contextPrefixDigest source.tokens source.salt b = .ok context ∧
      Serves s.files i context .perTokenRows chunks ∧ ContiguousChunks 0 chunks b := by
  obtain ⟨hsalt, hprefixes, plan, segments, hpublished⟩ := h.published source hsource
  rw [← hpublished.boundaries] at hb
  obtain ⟨t, ht, rfl⟩ := List.mem_map.mp hb
  obtain ⟨hdigest, -, hdefault⟩ := hpublished.target ht
  obtain ⟨_, rows, -, hs, -, hcovers⟩ := hpublished.source
  cases hroot : s.files.lookup (.manifest plan.storageKey t.contextDigest) with
  | some file =>
      obtain ⟨p, chunks, hnamed⟩ := h.roots _ _ file hs.key hroot
      obtain ⟨-, -, hcount⟩ := TokenPrefix.digest_inj hinj hnamed.hashed (hprefixes _ hdefault) hnamed.salt
        hsalt hnamed.digest hdigest
      have hcovered := hnamed.covered
      rw [hcount] at hcovered
      exact ⟨t.contextDigest, chunks, hdigest, hnamed.serves _, hcovered⟩
  | none =>
      obtain ⟨chunks, hchunks⟩ := hpublished.chunks
      obtain ⟨encoded, hencoded, hfile⟩ := hpublished.files t ht
      have hend := (hs.targets t ht).1
      rw [← hs.descriptors] at hend
      obtain ⟨hit, m, hserved⟩ := alias_serves hs.key hcovers hend hpublished.chain
        (plan.segmentCount_le ht) hpublished.stored hencoded hfile hroot hchunks
      exact ⟨t.contextDigest, chunks.take t.chunkCount, hdigest, hserved.serves,
        (hcovers.take hend).1.readChunks (readChunks_take hchunks _)⟩

/-- In a run whose publications meet the condition each of them succeeds, and from then on every
default boundary of its source is served with chunks that cover its tokens. -/
theorem default_aliases_publish (i : CacheIdentity) (steps : List SourceStep)
    (hinj : Set.InjOn sha256 (sourceHashed i steps))
    (hproper : ∀ n (step : SourceStep), steps[n]? = some step → step.Proper i (sourcesAfter i steps n))
    (hmeets : ∀ n (step : SourceStep), steps[n]? = some step → step.Meets i (sourcesAfter i steps n)) :
    ∀ n source, steps[n]? = some (.publish source) →
      ∃ context receipt, source.digest = .ok context ∧
        (publishPrefixAliases i (defaultCall source context)
          ⟨(sourcesAfter i steps n).files, none⟩).1 = .ok receipt ∧
        ∀ m, n < m → ∀ b ∈ defaultBoundaries i.chunkTokens source.count,
          ∃ named chunks, contextPrefixDigest source.tokens source.salt b = .ok named ∧
            Serves (sourcesAfter i steps m).files i named .perTokenRows chunks ∧
            ContiguousChunks 0 chunks b := by
  intro n source hstep
  have hholds := sourcesAfter_holds hinj hproper hmeets
  have hkeep := sourcesAfter_preserves hinj n
  rw [sourcesAfter_succ i hstep] at hkeep
  obtain ⟨context, receipt, _, _, hdigest, hpublish, -, -⟩ := (hholds n).publishes hinj
    (hproper n _ hstep) (hmeets n _ hstep) (fun payload hpayload => ⟨n, Or.inr ⟨_, hstep, hpayload⟩⟩) hkeep
  refine ⟨context, receipt, hdigest, hpublish, fun m hm b hb => (hholds m).serves hinj ?_ hb⟩
  apply sourcesAfter_published i steps (Nat.succ_le_of_lt hm)
  rw [sourcesAfter_succ i hstep, step_publish hdigest]
  exact List.mem_append_right _ (List.mem_singleton.mpr rfl)

/-! ## A run of two sources -/

/-! The fields after a step, as equations: a run over fixed inputs is not to be evaluated. -/

theorem step_whole (i : CacheIdentity) (s : SourceRun) (context : Digest) (tokens : List ℤ) (salt : String)
    (span : Option ℕ) (batches : List AppendCall) (steps : Option ℕ) :
    (s.step i (.whole context tokens salt span batches steps)).files =
        (commitWhole i s.files context span batches steps).2 ∧
      (s.step i (.whole context tokens salt span batches steps)).committed =
        s.committed ++ committedBy context (commitWhole i s.files context span batches steps).1 ∧
      (s.step i (.whole context tokens salt span batches steps)).published = s.published :=
  ⟨rfl, rfl, rfl⟩

theorem step_publish_manifest {i : CacheIdentity} {s : SourceRun} {source : TokenPrefix} {context : Digest}
    (hdigest : source.digest = .ok context) (storageKey contextDigest : Digest) :
    (s.step i (.publish source)).files.lookup (.manifest storageKey contextDigest) =
      s.files.lookup (.manifest storageKey contextDigest) := by
  rw [step_publish hdigest]
  exact publishPrefixAliases_manifest i (defaultCall source context) ⟨s.files, none⟩ storageKey contextDigest

theorem step_publish_published {i : CacheIdentity} {s : SourceRun} {source : TokenPrefix} {context : Digest}
    (hdigest : source.digest = .ok context) :
    (s.step i (.publish source)).published = s.published ++ [source] := by
  rw [step_publish hdigest]

/-- Without extensions a step writes nothing under content addresses but what it hashes. -/
theorem SourceRun.step_contents (i : CacheIdentity) (s : SourceRun) {step : SourceStep}
    (hstep : ∀ call, step ≠ .extension call) :
    contents (s.step i step).files ⊆ contents s.files ∪ step.hashed i s := by
  cases step with
  | whole context tokens salt span batches steps =>
      intro payload hpayload
      exact (commitWhole_adds steps hpayload).imp_right Or.inl
  | extension call => exact absurd rfl (hstep call)
  | publish source =>
      cases hdigest : source.digest with
      | error e =>
          have hsame : s.step i (.publish source) = s := by
            show (match source.digest with | .error _ => s | .ok context => _ : SourceRun) = s
            rw [hdigest]
          rw [hsame]
          exact Set.subset_union_left
      | ok context =>
          rw [step_publish hdigest]
          exact publishPrefixAliases_adds fun plan segments hplan hchain e he =>
            Or.inr ⟨context, plan, segments, hdigest, hplan, hchain, he⟩

theorem sourceHashed_subset {i : CacheIdentity} {steps : List SourceStep} {W : Set Bytes}
    (h : ∀ n (step : SourceStep), steps[n]? = some step → (∀ call, step ≠ .extension call) ∧
      step.hashed i (sourcesAfter i steps n) ⊆ W) : sourceHashed i steps ⊆ W := by
  have hcontents : ∀ n, contents (sourcesAfter i steps n).files ⊆ W := by
    intro n
    induction n with
    | zero =>
        rintro payload ⟨p, -, hfile⟩
        have hnone : (none : Option Bytes) = some payload := hfile
        cases hnone
    | succ n ih =>
        cases hstep : steps[n]? with
        | none =>
            rw [sourcesAfter_end i hstep]
            exact ih
        | some step =>
            rw [sourcesAfter_succ i hstep]
            obtain ⟨hplain, hhashed⟩ := h n step hstep
            exact (SourceRun.step_contents i _ hplain).trans (Set.union_subset ih hhashed)
  rintro payload ⟨n, hpayload | ⟨step, hstep, hpayload⟩⟩
  · exact hcontents n hpayload
  · exact (h n step hstep).2 hpayload

def wholeStep (token : ℕ) : SourceStep :=
  .whole (wholeBase token) (wholePrefix token).tokens (wholePrefix token).salt none wholeBatches none

/-- Two sources are committed, and each publishes the alias at its end before the other is there. -/
def wholeSteps : List SourceStep :=
  [wholeStep 0, .publish (wholePrefix 0), wholeStep 1, .publish (wholePrefix 1)]

theorem wholePrefix_hashed {token b : ℕ} (h : token < 2) :
    ({ wholePrefix token with count := b }).hashed ⊆ {wholeHashed token b} := by
  rintro payload ⟨packed, ascii, hpacked, hascii, rfl⟩
  have hpacked : packU32 (wholePrefix token).tokens "token_ids" = .ok packed := hpacked
  rw [wholePrefix_packed h] at hpacked
  cases hpacked
  have hnil : asciiBytes (wholePrefix token).salt = .ok [] := asciiBytes_empty
  rw [show asciiBytes (wholePrefix token).salt = .ok ascii from hascii] at hnil
  cases hnil
  rfl

theorem wholePrefix_payload {token : ℕ} (h : token < 2) :
    (wholePrefix token).hashed ⊆ {payload | payload ∈ wholePayloads} := by
  intro payload hpayload
  rw [show payload = wholeHashed token 512 from wholePrefix_hashed h hpayload]
  obtain rfl | rfl : token = 0 ∨ token = 1 := by omega
  · simp [wholePayloads]
  · simp [wholePayloads]

/-- Over files without its root a source is committed as it should be. -/
theorem wholeStep_spec {token : ℕ} (h : token < 2) {s : SourceRun}
    (hfresh : ∀ storageKey, s.files.lookup (.manifest storageKey (wholeBase token)) = none) :
    (wholeStep token).Proper wholeIdentity s ∧
      (wholeStep token).hashed wholeIdentity s ⊆ {payload | payload ∈ wholePayloads} ∧
      (wholeBase token, 512) ∈ (s.step wholeIdentity (wholeStep token)).committed ∧
      ∃ hit m all, m.chunks = wholeDescriptors ∧ ServedRows (s.step wholeIdentity (wholeStep token)).files
        wholeIdentity (wholeBase token) .other hit m all := by
  obtain ⟨hstart, receipt, hit, m, all, hreturns, htokens, -, hchunks, hserved⟩ := whole_served h hfresh
  have hsalt : ZeroFree "" := by simp [ZeroFree]
  obtain ⟨hfiles, hcommitted, -⟩ := step_whole wholeIdentity s (wholeBase token) (wholePrefix token).tokens
    (wholePrefix token).salt none wholeBatches none
  rw [wholeStep, hfiles, hcommitted]
  refine ⟨⟨hsalt, fun path encoded _ => ?_⟩, ?_, ?_, hit, m, all, hchunks, hserved⟩
  · rw [hstart]
    exact wholePrefix_digest h le_rfl
  · rintro payload (hchunk | hprefix)
    · exact encodings_whole hchunk
    · rw [hstart] at hprefix
      exact wholePrefix_payload h hprefix
  · rw [hreturns, List.mem_append, mem_committedBy]
    exact Or.inr ⟨receipt, rfl, by rw [htokens]⟩

theorem whole_boundaries : defaultBoundaries wholeIdentity.chunkTokens 512 = [512] := by decide

/-- A committed source publishes as it should, and hashes its segment and its tokens. -/
theorem publishStep_spec {token : ℕ} (h : token < 2) {s : SourceRun}
    (hcommitted : (wholeBase token, 512) ∈ s.committed) {hit : Hit} {m : RowManifest}
    {all : List ContextChunk} (hchunks : m.chunks = wholeDescriptors)
    (hserved : ServedRows s.files wholeIdentity (wholeBase token) .other hit m all) :
    SourceStep.Proper wholeIdentity s (.publish (wholePrefix token)) ∧
      SourceStep.hashed wholeIdentity s (.publish (wholePrefix token)) ⊆ {payload | payload ∈ wholePayloads} := by
  have hdigest : (wholePrefix token).digest = .ok (wholeBase token) := wholePrefix_digest h le_rfl
  have hsalt : ZeroFree "" := by simp [ZeroFree]
  have hgeometry : 512 % wholeIdentity.chunkTokens = 0 := rfl
  refine ⟨⟨hsalt, ⟨wholeBase token, hdigest, hcommitted⟩, hgeometry⟩, ?_⟩
  rintro payload (⟨p, hp, hprefix⟩ | ⟨context, plan, segments, hcontext, hplan, hchain, he⟩)
  · obtain ⟨b, hb, rfl⟩ := List.mem_map.mp hp
    have hb : b ∈ defaultBoundaries wholeIdentity.chunkTokens 512 := hb
    rw [whole_boundaries, List.mem_singleton] at hb
    subst hb
    exact wholePrefix_payload h hprefix
  · rw [hdigest, Except.ok.injEq] at hcontext
    subst hcontext
    rw [wholeSegment_planned hserved hchunks hplan hchain payload he]
    simp [wholePayloads]

theorem wholePrefix_apart : (wholePrefix 0).Apart wholeIdentity (wholePrefix 1) := by
  intro _ b hb _ htokens
  have hb : b ∈ defaultBoundaries wholeIdentity.chunkTokens 512 := hb
  rw [whole_boundaries, List.mem_singleton] at hb
  subst hb
  exact htokens

theorem wholeSteps_first : sourcesAfter wholeIdentity wholeSteps 1 =
    (sourcesAfter wholeIdentity wholeSteps 0).step wholeIdentity (wholeStep 0) :=
  sourcesAfter_succ wholeIdentity rfl

theorem wholeSteps_second : sourcesAfter wholeIdentity wholeSteps 2 =
    (sourcesAfter wholeIdentity wholeSteps 1).step wholeIdentity (.publish (wholePrefix 0)) :=
  sourcesAfter_succ wholeIdentity rfl

theorem wholeSteps_third : sourcesAfter wholeIdentity wholeSteps 3 =
    (sourcesAfter wholeIdentity wholeSteps 2).step wholeIdentity (wholeStep 1) :=
  sourcesAfter_succ wholeIdentity rfl

/-- The other root is free when its source is committed. -/
theorem wholeSteps_fresh (storageKey : Digest) :
    (sourcesAfter wholeIdentity wholeSteps 2).files.lookup (.manifest storageKey (wholeBase 1)) = none := by
  have hdistinct := wholeContexts_distinct
  simp only [List.nodup_cons, List.mem_cons, not_or] at hdistinct
  have hdigest : (wholePrefix 0).digest = .ok (wholeBase 0) := wholePrefix_digest (by omega) le_rfl
  have hempty : (sourcesAfter wholeIdentity wholeSteps 0).files = ∅ := rfl
  rw [wholeSteps_second, step_publish_manifest hdigest, wholeSteps_first, wholeStep, (step_whole ..).1, hempty,
    ← wholeFiles]
  refine wholeFiles_root rfl fun key => ?_
  simp [Ne.symm hdistinct.2.1.1]

theorem wholeSteps_each (n : ℕ) (step : SourceStep) (h : wholeSteps[n]? = some step) :
    step.Proper wholeIdentity (sourcesAfter wholeIdentity wholeSteps n) ∧
      step.Meets wholeIdentity (sourcesAfter wholeIdentity wholeSteps n) ∧
      (∀ call, step ≠ .extension call) ∧
      step.hashed wholeIdentity (sourcesAfter wholeIdentity wholeSteps n) ⊆ {payload | payload ∈ wholePayloads} := by
  have hzero : 0 < 2 := by omega
  have hone : 1 < 2 := by omega
  obtain ⟨hproper₀, hhashed₀, hcommitted₀, _, m₀, _, hchunks₀, hserved₀⟩ :=
    wholeStep_spec hzero (s := sourcesAfter wholeIdentity wholeSteps 0) fun _ => rfl
  obtain ⟨hproper₁, hhashed₁, hcommitted₁, _, m₁, _, hchunks₁, hserved₁⟩ :=
    wholeStep_spec hone wholeSteps_fresh
  rw [← wholeSteps_first] at hcommitted₀ hserved₀
  rw [← wholeSteps_third] at hcommitted₁ hserved₁
  have hmultiple : ∀ token, ∀ b ∈ defaultBoundaries wholeIdentity.chunkTokens (wholePrefix token).count,
      b % defaultChunkTokens = 0 := by
    intro token b hb
    have hb : b ∈ defaultBoundaries wholeIdentity.chunkTokens 512 := hb
    rw [whole_boundaries, List.mem_singleton] at hb
    rw [hb]
    rfl
  obtain _ | _ | _ | _ | n := n
  · cases h
    exact ⟨hproper₀, trivial, by simp [wholeStep], hhashed₀⟩
  · cases h
    obtain ⟨hproper, hhashed⟩ := publishStep_spec hzero hcommitted₀ hchunks₀ hserved₀
    refine ⟨hproper, ⟨hmultiple 0, fun earlier hearlier => ?_⟩, by simp, hhashed⟩
    rw [wholeSteps_first, wholeStep, (step_whole ..).2.2] at hearlier
    cases hearlier
  · cases h
    exact ⟨hproper₁, trivial, by simp [wholeStep], hhashed₁⟩
  · cases h
    obtain ⟨hproper, hhashed⟩ := publishStep_spec hone hcommitted₁ hchunks₁ hserved₁
    refine ⟨hproper, ⟨hmultiple 1, fun earlier hearlier => ?_⟩, by simp, hhashed⟩
    have hdigest : (wholePrefix 0).digest = .ok (wholeBase 0) := wholePrefix_digest hzero le_rfl
    rw [wholeSteps_third, wholeStep, (step_whole ..).2.2, wholeSteps_second, step_publish_published hdigest,
      wholeSteps_first, wholeStep, (step_whole ..).2.2] at hearlier
    obtain rfl : earlier = wholePrefix 0 := List.mem_singleton.mp hearlier
    exact wholePrefix_apart
  · cases h

theorem default_aliases_publish_whole :
    let published := fun n source => ∃ context receipt, TokenPrefix.digest source = .ok context ∧
      (publishPrefixAliases wholeIdentity (defaultCall source context)
        ⟨(sourcesAfter wholeIdentity wholeSteps n).files, none⟩).1 = .ok receipt ∧
      ∀ m, n < m → ∀ b ∈ defaultBoundaries wholeIdentity.chunkTokens source.count,
        ∃ named chunks, contextPrefixDigest source.tokens source.salt b = .ok named ∧
          Serves (sourcesAfter wholeIdentity wholeSteps m).files wholeIdentity named .perTokenRows chunks ∧
          ContiguousChunks 0 chunks b
    published 1 (wholePrefix 0) ∧ published 3 (wholePrefix 1) := by
  have hall := default_aliases_publish wholeIdentity wholeSteps
    (whole_injOn.mono (sourceHashed_subset fun n step h => (wholeSteps_each n step h).2.2))
    (fun n step h => (wholeSteps_each n step h).1) fun n step h => (wholeSteps_each n step h).2.1
  exact ⟨hall 1 (wholePrefix 0) rfl, hall 3 (wholePrefix 1) rfl⟩

/-! ## A source whose boundaries are refused -/

/-- The boundaries of a plan are multiples of the default chunk width, whatever the width of the
identity is. -/
theorem planAliases_multiple {files : Disk} {i : CacheIdentity} {call : AliasCall} {plan : AliasPlan}
    (h : planAliases files i call = .ok plan) : ∀ t ∈ plan.targets, t.boundary % defaultChunkTokens = 0 := by
  unfold planAliases planSource at h
  simp only [Pages.bind_eq_ok, require_eq_ok, expect_eq_ok] at h
  obtain ⟨_, -, _, -, _, -, _, -, rows, -, _, -, boundaries, -, digests, hdigests, _, -, _, -, targets,
    htargets, h⟩ := h
  cases h
  obtain ⟨_, _, -, haccepted, -, rfl⟩ := (chunkPrefixDigests_eq_ok (digestBoundaries_ne _ _)).mp hdigests
  intro t ht
  obtain ⟨hmem, -⟩ := lookup_map_pair _ ((mapM_planTarget htargets).2 t ht).2
  exact (haccepted.of_mem _ hmem).2.2

/-- The digest of one token. -/
def oddBase : Digest := prefixDigest [5, 0, 0, 0] [] 1

/-- One chunk of one token, under an identity whose chunks have one token. -/
def oddSteps : List SourceStep :=
  [.whole oddBase [5] "" none [⟨[tinyChunk 0], none⟩] none, .publish ⟨[5], "", 1⟩]

theorem oddBase_digest : (TokenPrefix.mk [5] "" 1).digest = .ok oddBase := by
  have hpacked : packU32 [5] "token_ids" = .ok [5, 0, 0, 0] := by decide
  exact TokenPrefix.digest_eq_ok.mpr ⟨[5, 0, 0, 0], [], hpacked, by decide, asciiBytes_empty, rfl⟩

set_option maxRecDepth 100000 in
theorem odd_commits : ((commitWhole (tinyIdentity .unnamed) ∅ oddBase none [⟨[tinyChunk 0], none⟩]
    none).1.toOption.map CommitReceipt.committedTokens) = some 1 := by
  decide +kernel

theorem odd_returns : ∃ receipt, (commitWhole (tinyIdentity .unnamed) ∅ oddBase none
    [⟨[tinyChunk 0], none⟩] none).1 = .ok receipt ∧ receipt.committedTokens = 1 := by
  have h := odd_commits
  cases hresult : (commitWhole (tinyIdentity .unnamed) ∅ oddBase none [⟨[tinyChunk 0], none⟩] none).1 with
  | error e =>
      rw [hresult] at h
      cases h
  | ok receipt =>
      rw [hresult] at h
      exact ⟨receipt, rfl, Option.some.inj h⟩

/-- The only chunk of the source ends at one token, which is not a multiple of the default width. -/
theorem default_aliases_refused :
    (∀ n (step : SourceStep), oddSteps[n]? = some step →
      step.Proper (tinyIdentity .unnamed) (sourcesAfter (tinyIdentity .unnamed) oddSteps n)) ∧
    oddSteps[1]? = some (.publish ⟨[5], "", 1⟩) ∧ (TokenPrefix.mk [5] "" 1).digest = .ok oddBase ∧
    ∀ receipt, (publishPrefixAliases (tinyIdentity .unnamed) (defaultCall ⟨[5], "", 1⟩ oddBase)
      ⟨(sourcesAfter (tinyIdentity .unnamed) oddSteps 1).files, none⟩).1 ≠ .ok receipt := by
  have hzero : ZeroFree "" := by simp [ZeroFree]
  refine ⟨?_, rfl, oddBase_digest, ?_⟩
  · intro n step hstep
    match n, hstep with
    | 0, hstep =>
        cases hstep
        refine ⟨hzero, fun path encoded _ => ?_⟩
        have hstart : (wholeSession (tinyIdentity .unnamed) ∅ oddBase none
            [⟨[tinyChunk 0], none⟩]).1.expectedStart = 1 := by decide +kernel
        show contextPrefixDigest [5] "" (wholeSession (tinyIdentity .unnamed) ∅ oddBase none
          [⟨[tinyChunk 0], none⟩]).1.expectedStart = _
        rw [hstart]
        exact oddBase_digest
    | 1, hstep =>
        cases hstep
        refine ⟨hzero, ⟨oddBase, oddBase_digest, ?_⟩, rfl⟩
        obtain ⟨receipt, hcommit, htokens⟩ := odd_returns
        show (oddBase, 1) ∈ [] ++ committedBy oddBase (commitWhole (tinyIdentity .unnamed) ∅ oddBase
          none [⟨[tinyChunk 0], none⟩] none).1
        rw [hcommit, List.nil_append, mem_committedBy]
        exact ⟨receipt, rfl, by rw [htokens]⟩
  · intro receipt hreceipt
    have hone : Set.InjOn sha256 (encodings [⟨[tinyChunk 0], none⟩]) :=
      encodings_injOn (tinyChunk 0) (by simp)
    obtain ⟨chunks, -, -, hreturns⟩ := commitWhole_ends (tinyIdentity .unnamed) ∅ oddBase none hone none
    obtain ⟨_, hcommit, -⟩ := odd_returns
    obtain ⟨-, hserves⟩ := hreturns _ hcommit
    obtain ⟨hit, m, hserved⟩ := serves_iff.mp (hserves .other)
    obtain ⟨plan, _, hplan, -⟩ := publishPrefixAliases_eq_ok (Prod.ext hreceipt rfl)
    have hmultiple := planAliases_multiple hplan
    obtain ⟨rows, hs⟩ := planAliases_eq_ok hplan
    obtain rfl := hs.rows_eq hserved
    obtain ⟨hcovers, hne⟩ := lookup_covers hserved.hit hserved.rows
    have hpos := hcovers.pos hne
    have hboundaries : defaultBoundaries 1 rows.committedTokens =
      plan.targets.map AliasTarget.boundary := Except.ok.inj hs.boundaries
    have hlast := List.mem_of_getLast? (defaultBoundaries_getLast 1 rows.committedTokens)
    rw [hboundaries] at hlast
    obtain ⟨t, ht, htokens⟩ := List.mem_map.mp hlast
    have hmod := hmultiple t ht
    obtain ⟨_, _, -, hle, -⟩ := contextPrefixDigest_eq_ok.mp hs.source
    have hle : rows.committedTokens ≤ 1 := hle
    rw [htokens] at hmod
    unfold defaultChunkTokens at hmod
    omega

end SparkCache.Store
