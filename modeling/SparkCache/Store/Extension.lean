import SparkCache.Store.DescriptorChain
import SparkCache.Store.TokenDigest

/-!
# Context extensions

A context is extended without rewriting it. The complete chunks of the base
are reused through a descriptor chain; the tail replaces a partial last chunk.
Extensions may branch from any earlier boundary.
-/
namespace SparkCache.Store

open Files Files.FileM Json Pages

structure ExtensionCall where
  base : Digest
  tokens : List ℤ
  salt : String
  tail : List ContextChunk
  steps : Option ℕ

/-- What an extension publishes. -/
structure ExtensionPlan where
  storageKey : Digest
  resultDigest : Digest
  resultTokens : ℕ
  baseManifest : Digest
  baseTokens : ℕ
  reusedTokens : ℕ
  baseDescriptors : List ChunkDescriptor
  tail : List (ChunkDescriptor × Bytes)

def MissReason.text : MissReason → String
  | .absent => "absent"
  | .incompatible => "incompatible"
  | .corrupt => "corrupt"

/-- The loop over the tail chunks: descriptors, encodings and the end of the last chunk. -/
def planTail (i : CacheIdentity) (expectedStart : ℕ) :
    List ContextChunk → Except StoreError (List (ChunkDescriptor × Bytes) × ℕ)
  | [] => .ok ([], expectedStart)
  | chunk :: rest => do
      require (chunk.logicalStart = expectedStart) (.value "tail chunk ranges must be contiguous")
      let tokenCount := chunk.logicalEnd - chunk.logicalStart
      require (tokenCount ≤ i.chunkTokens ∧ (rest ≠ [] → tokenCount = i.chunkTokens))
        (.value "tail chunk range disagrees with identity geometry")
      requireCompleteChunk chunk i.requiredRecords
      let encoded ← encodeChunk chunk
      let (planned, stop) ← planTail i chunk.logicalEnd rest
      return ((describe chunk encoded, encoded) :: planned, stop)

/-- The checks over a base that was found; `last` is the last tail chunk. -/
def planOver (i : CacheIdentity) (call : ExtensionCall) (last : ContextChunk) (baseManifest : Digest)
    (base : RowManifest) : Except StoreError ExtensionPlan := do
  let resultTokens := last.logicalEnd
  require (resultTokens ≤ call.tokens.length)
    (.value "tail token span exceeds supplied token sequence")
  let baseCommitment ← contextPrefixDigest call.tokens call.salt base.committedTokens
  require (baseCommitment = call.base)
    (.conflict "base digest disagrees with supplied token sequence")
  let resultDigest ← contextPrefixDigest call.tokens call.salt resultTokens
  require (resultDigest ≠ call.base) (.value "tail publication must extend the base context")
  let reusedTokens := base.committedTokens / i.chunkTokens * i.chunkTokens
  let baseDescriptors := base.chunks.filter fun d => d.logicalEnd ≤ reusedTokens
  require (baseDescriptors.length = reusedTokens / i.chunkTokens)
    (.format "base descriptor geometry is incomplete")
  let (tail, stop) ← planTail i reusedTokens call.tail
  require (stop = resultTokens ∧ base.committedTokens < resultTokens)
    (.value "tail chunks do not extend the base context")
  return ⟨← i.view.storageKey, resultDigest, resultTokens, baseManifest, base.committedTokens,
    reusedTokens, baseDescriptors, tail⟩

/-- The checks of `commit_extension` before anything is written. No page root is accepted under the
publication schema of a tail. -/
def planExtension (files : Disk) (i : CacheIdentity) (call : ExtensionCall) :
    Except StoreError ExtensionPlan := do
  require (i.publicationSchema = .tailCowV1)
    (.value "tail publication requires publication_schema tail-cow-v1")
  let last ← expect call.tail.getLast? (.value "tail publication requires at least one tail chunk")
  match ← lookup files i call.base .chunks .perTokenRows with
  | .miss reason => .error (.format ("base context is not reusable: " ++ reason.text))
  | .hit ⟨_, .page _, _⟩ => .error .key
  | .hit ⟨manifestDigest, .rows base, _⟩ => planOver i call last manifestDigest base

/-- The root of an extension whose base descriptors are in the chain. -/
def ExtensionPlan.root (plan : ExtensionPlan) (baseTailSegment : Option Digest) : TailRoot :=
  ⟨plan.resultTokens, plan.baseTokens, plan.reusedTokens, plan.baseDescriptors.length,
    baseTailSegment, plan.tail.map fun planned => planned.1.json⟩

def encodeTailRoot (i : CacheIdentity) (base : Digest) (plan : ExtensionPlan)
    (baseTailSegment : Option Digest) : Except StoreError Bytes := do
  let root ← withMetadata
    (tailFields i.toWire plan.resultDigest base plan.baseManifest (plan.root baseTailSegment))
  dumpCanonical root

def ExtensionPlan.tailObjects (plan : ExtensionPlan) : List (Path × Bytes) :=
  plan.tail.map fun planned => (.chunk planned.1.sha256, planned.2)

def ExtensionPlan.receipt (plan : ExtensionPlan) (segments : List Bytes) (root : Bytes) :
    CommitReceipt :=
  let tailBytes := plan.tail.map fun planned => planned.1.bytes
  ⟨sha256 root, plan.resultTokens, root.length + tailBytes.sum,
    (segments.map fun segment => allocated segment.length).sum +
      ((root.length :: tailBytes).map allocated).sum⟩

/-- The writes of `commit_extension`. -/
def publishExtension (i : CacheIdentity) (base : Digest) (plan : ExtensionPlan) :
    StoreM CommitReceipt := do
  let segments ← publishDescriptorChain plan.storageKey plan.baseDescriptors
  publishImmutableBatch plan.tailObjects
  let root ← lift (encodeTailRoot i base plan (chainRoot segments))
  publishImmutable (.manifest plan.storageKey plan.resultDigest) root
  return plan.receipt segments root

/-- `commit_extension` -/
def commitExtension (i : CacheIdentity) (call : ExtensionCall) : StoreM CommitReceipt := do
  let planned ← view fun files => planExtension files i call
  publishExtension i call.base (← lift planned)

/-! ## Plans -/

/-- The records of chunks, from one token to another, as a planned tail has them. -/
theorem planTail_eq_ok {i : CacheIdentity} {chunks : List ContextChunk} :
    ∀ {start stop : ℕ} {planned : List (ChunkDescriptor × Bytes)},
      planTail i start chunks = .ok (planned, stop) →
        Covers i.chunkTokens start (planned.map Prod.fst) stop ∧
          List.Forall₂ (Described i.requiredRecords) (planned.map Prod.fst) chunks ∧
          (∀ chunk ∈ chunks, ∀ encoded, encodeChunk chunk = .ok encoded →
            (describe chunk encoded, encoded) ∈ planned) ∧
          ∀ o ∈ planned, ∃ chunk ∈ chunks, encodeChunk chunk = .ok o.2 ∧ o.1 = describe chunk o.2 := by
  induction chunks with
  | nil =>
      intro start stop planned h
      cases h
      exact ⟨rfl, .nil, by simp, by simp⟩
  | cons chunk rest ih =>
      intro start stop planned h
      rw [planTail] at h
      simp only [bind_eq_ok, require_eq_ok, requireCompleteChunk_eq_ok] at h
      obtain ⟨_, hstart, _, ⟨hle, hfull⟩, _, hcomplete, encoded, hencoded, ⟨later, last⟩, hlater, h⟩ := h
      cases h
      obtain ⟨hcovers, hdescribed, hobjects, hsource⟩ := ih hlater
      have hordered := chunk.ordered
      have hnil : later.map Prod.fst ≠ [] → rest ≠ [] := by
        rintro hne rfl
        exact hne (List.forall₂_nil_right_iff.mp hdescribed)
      refine ⟨⟨⟨hstart, hstart ▸ hordered, ?_, encodeChunk_pos hencoded, fun hne => ?_⟩, hcovers⟩,
        .cons ⟨encoded, hencoded, rfl, hcomplete⟩ hdescribed, ?_, ?_⟩
      · show chunk.logicalEnd ≤ start + i.chunkTokens
        omega
      · have := hfull (hnil hne)
        show chunk.logicalEnd = start + i.chunkTokens
        omega
      · intro c hc bytes hbytes
        rcases List.mem_cons.mp hc with rfl | hc
        · rw [hencoded] at hbytes
          cases hbytes
          exact List.mem_cons_self
        · exact List.mem_cons_of_mem _ (hobjects c hc bytes hbytes)
      · intro o ho
        rcases List.mem_cons.mp ho with rfl | ho
        · exact ⟨chunk, List.mem_cons_self, hencoded, rfl⟩
        · obtain ⟨c, hc, hbytes⟩ := hsource o ho
          exact ⟨c, List.mem_cons_of_mem _ hc, hbytes⟩

/-- What a plan is made of. -/
structure Plans (files : Disk) (i : CacheIdentity) (call : ExtensionCall) (h : Hit)
    (base : RowManifest) (plan : ExtensionPlan) : Prop where
  schema : i.publicationSchema = .tailCowV1
  hit : lookup files i call.base .chunks .perTokenRows = .ok (.hit h)
  rows : h.manifest = .rows base
  key : i.view.storageKey = .ok plan.storageKey
  result : contextPrefixDigest call.tokens call.salt plan.resultTokens = .ok plan.resultDigest
  last : ∃ chunk ∈ call.tail.getLast?, plan.resultTokens = chunk.logicalEnd
  longer : base.committedTokens < plan.resultTokens
  baseTokens : plan.baseTokens = base.committedTokens
  reused : plan.reusedTokens = base.committedTokens / i.chunkTokens * i.chunkTokens
  descriptors : plan.baseDescriptors = base.chunks.filter fun d => d.logicalEnd ≤ plan.reusedTokens
  count : plan.baseDescriptors.length = plan.reusedTokens / i.chunkTokens
  tail : planTail i plan.reusedTokens call.tail = .ok (plan.tail, plan.resultTokens)

theorem planExtension_eq_ok {files : Disk} {i : CacheIdentity} {call : ExtensionCall}
    {plan : ExtensionPlan} (h : planExtension files i call = .ok plan) :
    ∃ hit base, Plans files i call hit base plan := by
  unfold planExtension at h
  simp only [bind_eq_ok, require_eq_ok, expect_eq_ok] at h
  obtain ⟨_, hschema, last, hlast, result, hlookup, h⟩ := h
  cases result with
  | miss reason => cases h
  | hit hit =>
      obtain ⟨manifestDigest, base | page, kind⟩ := hit
      · dsimp only at h
        unfold planOver at h
        simp only [bind_eq_ok, require_eq_ok] at h
        obtain ⟨_, -, baseDigest, -, _, -, resultDigest, hresult, _, -, _, hcount, ⟨tail, stop⟩, htail, _,
          ⟨rfl, hlonger⟩, storageKey, hkey, h⟩ := h
        cases h
        exact ⟨⟨manifestDigest, .rows base, kind⟩, base, hschema, hlookup, rfl, hkey, hresult,
          ⟨last, hlast, rfl⟩, hlonger, rfl, rfl, rfl, hcount, htail⟩
      · cases h

/-- What a successful extension has written. -/
theorem commitExtension_eq_ok {i : CacheIdentity} {call : ExtensionCall} {receipt : CommitReceipt}
    {w w' : World Path Bytes} (h : commitExtension i call w = (.ok receipt, w')) :
    ∃ plan segments root, planExtension w.files i call = .ok plan ∧
      chainSegments plan.storageKey plan.baseDescriptors (segmentCount plan.baseDescriptors.length) =
        .ok segments ∧
      encodeTailRoot i call.base plan (chainRoot segments) = .ok root ∧
      Stored w'.files plan.storageKey segments ∧
      (∀ o ∈ plan.tailObjects, w'.files.lookup o.1 = some o.2) ∧
      w'.files.lookup (.manifest plan.storageKey plan.resultDigest) = some root ∧
      receipt = plan.receipt segments root := by
  unfold commitExtension publishExtension at h
  simp only [FileM.bind_eq_ok, view_apply, lift_apply] at h
  obtain ⟨planned, w₁, hview, plan, w₂, hlift, segments, w₃, hchain, _, w₄, htail, root, w₅, hroot, _, w₆,
    hmanifest, hreceipt⟩ := h
  cases hview
  obtain ⟨hplan, rfl⟩ := Prod.mk.inj hlift
  obtain ⟨hencoded, rfl⟩ := Prod.mk.inj hroot
  cases hreceipt
  obtain ⟨hsegments, -, hstored⟩ := publishDescriptorChain_eq_ok hchain
  obtain ⟨hobjects, hframe⟩ := publishImmutableBatch_eq_ok htail
  obtain ⟨hfile, hsame, -⟩ := publishImmutable_eq_ok hmanifest
  refine ⟨plan, segments, root, hplan, hsegments, hencoded, ?_, ?_, hfile, rfl⟩
  · intro e he
    rw [hsame _ (by simp), hframe _ ?_]
    · exact hstored e he
    · intro hmem
      obtain ⟨o, ho, hpath⟩ := List.mem_map.mp hmem
      obtain ⟨o', -, rfl⟩ := List.mem_map.mp ho
      cases hpath
  · intro o ho
    obtain ⟨o', ho', rfl⟩ := List.mem_map.mp ho
    rw [hsame _ (by simp)]
    exact hobjects _ ho

/-- A successful extension leaves the roots of other contexts as they were. -/
theorem commitExtension_other {i : CacheIdentity} {call : ExtensionCall} {receipt : CommitReceipt}
    {w w' : World Path Bytes} (h : commitExtension i call w = (.ok receipt, w')) {plan : ExtensionPlan}
    (hplan : planExtension w.files i call = .ok plan) {path : Path} (hroot : path.isRoot = true)
    (hpath : path ≠ .manifest plan.storageKey plan.resultDigest) :
    w'.files.lookup path = w.files.lookup path := by
  unfold commitExtension publishExtension at h
  simp only [FileM.bind_eq_ok, view_apply, lift_apply, hplan] at h
  obtain ⟨planned, w₁, hview, plan, w₂, hlift, segments, w₃, hchain, _, w₄, htail, root, w₅, hencoded, _, w₆,
    hmanifest, hreceipt⟩ := h
  cases hview
  cases hlift
  obtain ⟨-, rfl⟩ := Prod.mk.inj hencoded
  cases hreceipt
  have hobjects : ∀ objects : List (Path × Bytes), (∀ o ∈ objects, o.1.isRoot = false) →
      path ∉ objects.map Prod.fst := by
    intro objects hall hmem
    obtain ⟨o, ho, rfl⟩ := List.mem_map.mp hmem
    rw [hall o ho] at hroot
    cases hroot
  rw [(publishImmutable_eq_ok hmanifest).2.1 _ hpath, (publishImmutableBatch_eq_ok htail).2 _ ?_,
    (publishImmutableBatch_eq_ok (publishDescriptorChain_eq_ok hchain).2.1).2 _ ?_]
  · refine hobjects _ fun o ho => ?_
    obtain ⟨e, -, rfl⟩ := List.mem_map.mp ho
    rfl
  · refine hobjects _ fun o ho => ?_
    obtain ⟨planned, -, rfl⟩ := List.mem_map.mp ho
    rfl

theorem commitExtension_grows (i : CacheIdentity) (call : ExtensionCall) :
    Moves Grows (commitExtension i call) := by
  apply Moves.view_bind
  intro w
  apply Moves.lift_bind Grows.refl
  intro plan _
  refine Moves.bind Grows.trans (publishDescriptorChain_grows _ _) fun segments => ?_
  refine Moves.bind Grows.trans (publishImmutableBatch_grows ?_) fun _ => ?_
  · intro o ho
    obtain ⟨planned, -, rfl⟩ := List.mem_map.mp ho
    rfl
  · intro w'
    apply Moves.lift_bind Grows.refl
    intro root _
    exact Moves.bind Grows.trans (publishImmutable_grows _ _) fun _ => Moves.pure Grows.refl _

/-- An extension writes its segments and its tail under content addresses, and nothing else. -/
theorem commitExtension_adds {payloads : Set Bytes} {i : CacheIdentity} {call : ExtensionCall}
    {w : World Path Bytes}
    (h : ∀ plan, planExtension w.files i call = .ok plan →
      (∀ segments, chainSegments plan.storageKey plan.baseDescriptors
        (segmentCount plan.baseDescriptors.length) = .ok segments → ∀ e ∈ segments, e ∈ payloads) ∧
      ∀ planned ∈ plan.tail, planned.2 ∈ payloads) :
    Adds payloads w.files (commitExtension i call w).2.files := by
  unfold commitExtension
  rw [FileM.bind_apply, andThen, view_apply]
  refine Moves.lift_bind (Adds.refl payloads) fun plan hplan => ?_
  obtain ⟨hsegments, htail⟩ := h plan hplan
  refine Moves.bind (Adds.trans payloads) (publishDescriptorChain_adds hsegments) fun segments => ?_
  refine Moves.bind (Adds.trans payloads) (publishImmutableBatch_adds ?_) fun _ => ?_
  · intro o ho
    obtain ⟨planned, hplanned, rfl⟩ := List.mem_map.mp ho
    exact htail planned hplanned
  · intro w'
    refine Moves.lift_bind (Adds.refl payloads) fun root _ => ?_
    exact Moves.bind (Adds.trans payloads) (publishImmutable_adds payloads rfl _) fun _ =>
      Moves.pure (Adds.refl payloads) _

/-! ## Complete chunks -/

theorem Covers.concat {chunkTokens middle stop : ℕ} {xs ys : List ChunkDescriptor} :
    ∀ {start : ℕ}, Covers chunkTokens start xs middle →
      (∀ d ∈ xs, d.logicalEnd - d.logicalStart = chunkTokens) → Covers chunkTokens middle ys stop →
      Covers chunkTokens start (xs ++ ys) stop := by
  induction xs with
  | nil =>
      intro start hx _ hy
      rw [Covers] at hx
      subst hx
      exact hy
  | cons d rest ih =>
      intro start hx hfull hy
      obtain ⟨⟨hstart, hpos, hle, hbytes, -⟩, hrest⟩ := hx
      have hd := hfull d List.mem_cons_self
      refine ⟨⟨hstart, hpos, hle, hbytes, fun _ => by omega⟩, ?_⟩
      exact ih hrest (fun d hd => hfull d (List.mem_cons_of_mem _ hd)) hy

/-- The last chunk boundary of a context. -/
theorem boundary_eq {chunkTokens stop k : ℕ} (hle : k * chunkTokens ≤ stop)
    (hlt : stop < k * chunkTokens + chunkTokens) : stop / chunkTokens * chunkTokens = k * chunkTokens := by
  rw [Nat.div_eq_of_lt_le hle (by rwa [Nat.succ_mul])]

theorem le_boundary {chunkTokens stop k : ℕ} (hpos : 0 < chunkTokens) (hle : k * chunkTokens ≤ stop) :
    k * chunkTokens ≤ stop / chunkTokens * chunkTokens :=
  Nat.mul_le_mul_right _ ((Nat.le_div_iff_mul_le hpos).mpr hle)

/-- Of chunks that start on a chunk boundary the full ones end within the last boundary. -/
theorem Covers.complete {chunkTokens stop : ℕ} (hpos : 0 < chunkTokens) {ds : List ChunkDescriptor} :
    ∀ {k : ℕ}, Covers chunkTokens (k * chunkTokens) ds stop →
      Covers chunkTokens (k * chunkTokens)
        (ds.filter fun d => d.logicalEnd ≤ stop / chunkTokens * chunkTokens)
        (stop / chunkTokens * chunkTokens) ∧
      ∀ d ∈ ds, d.logicalEnd ≤ stop / chunkTokens * chunkTokens ↔
        d.logicalEnd - d.logicalStart = chunkTokens := by
  induction ds with
  | nil =>
      intro k h
      rw [Covers] at h
      subst h
      exact ⟨boundary_eq le_rfl (by omega), by simp⟩
  | cons d rest ih =>
      intro k h
      obtain ⟨⟨hstart, hlt, hle, hbytes, hfull⟩, hrest⟩ := h
      by_cases hd : d.logicalEnd = (k + 1) * chunkTokens
      · have hnext := hrest
        rw [hd] at hnext
        obtain ⟨hcovers, hall⟩ := ih hnext
        have hkept : d.logicalEnd ≤ stop / chunkTokens * chunkTokens := by
          rw [hd]
          exact le_boundary hpos hnext.le
        have hsize : d.logicalEnd - d.logicalStart = chunkTokens := by
          rw [hd, hstart, Nat.succ_mul]
          omega
        refine ⟨?_, ?_⟩
        · rw [List.filter_cons_of_pos (by simpa using hkept)]
          refine ⟨⟨hstart, hlt, hle, hbytes, fun _ => by rw [hd, Nat.succ_mul]⟩, ?_⟩
          rw [hd]
          exact hcovers
        · intro d' hd'
          rcases List.mem_cons.mp hd' with rfl | hd'
          · exact ⟨fun _ => hsize, fun _ => hkept⟩
          · exact hall d' hd'
      · rw [Nat.succ_mul] at hd
        have hnil : rest = [] := by
          by_contra hne
          exact hd (hfull hne)
        subst hnil
        rw [Covers] at hrest
        subst hrest
        have hboundary : d.logicalEnd / chunkTokens * chunkTokens = k * chunkTokens :=
          boundary_eq hlt.le (by omega)
        have hdropped : ¬d.logicalEnd ≤ d.logicalEnd / chunkTokens * chunkTokens := by
          rw [hboundary]
          omega
        refine ⟨?_, ?_⟩
        · rw [List.filter_cons_of_neg (by simpa using hdropped)]
          exact hboundary
        · intro d' hd'
          rw [List.mem_singleton.mp hd']
          refine ⟨fun h => absurd h hdropped, fun h => ?_⟩
          omega

theorem Covers.stop_of_full {chunkTokens stop : ℕ} {ds : List ChunkDescriptor} :
    ∀ {start : ℕ}, Covers chunkTokens start ds stop →
      (∀ d ∈ ds, d.logicalEnd - d.logicalStart = chunkTokens) → stop = start + ds.length * chunkTokens := by
  induction ds with
  | nil =>
      intro start h _
      rw [List.length_nil, Nat.zero_mul, Nat.add_zero]
      exact h
  | cons d rest ih =>
      intro start h hfull
      rw [List.forall_mem_cons] at hfull
      obtain ⟨⟨hstart, hpos, -⟩, hrest⟩ := h
      rw [ih hrest hfull.2, List.length_cons, Nat.succ_mul]
      omega

/-- The chunks of full size. -/
def completeChunks (chunkTokens : ℕ) (chunks : List ContextChunk) : List ContextChunk :=
  chunks.filter fun chunk => chunk.logicalEnd - chunk.logicalStart = chunkTokens

/-- Reading part of the descriptors gives that part of the chunks. -/
theorem readChunks_filter {files : Disk} {required : List StateRecord} {chunkTokens : ℕ}
    {keep : ChunkDescriptor → Bool} {ds : List ChunkDescriptor} :
    ∀ {chunks : List ContextChunk}, readChunks files required ds = .ok chunks →
      (∀ d ∈ ds, keep d = true ↔ d.logicalEnd - d.logicalStart = chunkTokens) →
      readChunks files required (ds.filter keep) = .ok (completeChunks chunkTokens chunks) := by
  induction ds with
  | nil =>
      intro chunks h _
      cases h
      rfl
  | cons d rest ih =>
      intro chunks h hkeep
      rw [readChunks_eq_ok] at h
      cases h with
      | @cons _ chunk _ tail hchunk htail =>
          have hrest := ih (readChunks_eq_ok.mpr htail) fun d hd => hkeep d (List.mem_cons_of_mem _ hd)
          obtain ⟨encoded, -, -, -, -, -, hstart, hend⟩ := readChunk_eq_ok.mp hchunk
          have hd := hkeep d List.mem_cons_self
          rw [← hstart, ← hend] at hd
          rw [completeChunks]
          by_cases hsize : chunk.logicalEnd - chunk.logicalStart = chunkTokens
          · rw [List.filter_cons_of_pos (hd.mpr hsize), List.filter_cons_of_pos (by simpa using hsize)]
            rw [readChunks_eq_ok]
            exact .cons hchunk (readChunks_eq_ok.mp hrest)
          · rw [List.filter_cons_of_neg (by simpa using fun h => hsize (hd.mp h)),
              List.filter_cons_of_neg (by simpa using hsize)]
            exact hrest

/-! ## Published boundaries -/

/-- The root of the context is a tail whose chain is read back as the published descriptors. -/
def Linked (files : Disk) (i : IdentityView) (contextDigest : Digest)
    (published : List ChunkDescriptor) : Prop :=
  ∃ storageKey encoded document root, i.storageKey = .ok storageKey ∧
    files.lookup (.manifest storageKey contextDigest) = some encoded ∧
    loads encoded = .ok document ∧ validateTailManifestRoot document i contextDigest = .ok root ∧
    root.baseChunkCount = published.length ∧
    readDescriptorChain files i root.baseTailSegment root.baseChunkCount =
      .ok (published.map ChunkDescriptor.json)

theorem Linked.preserved {f g : Disk} (hkeep : Preserves f g) {i : IdentityView}
    {contextDigest : Digest} {published : List ChunkDescriptor}
    (h : Linked f i contextDigest published) : Linked g i contextDigest published := by
  obtain ⟨storageKey, encoded, document, root, hkey, hfile, hload, hroot, hcount, hchain⟩ := h
  exact ⟨storageKey, encoded, document, root, hkey, hkeep _ _ hfile (Or.inl rfl), hload, hroot, hcount,
    readDescriptorChain_preserved hkeep hchain⟩

theorem chainRoot_eq_none {segments : List Bytes} : chainRoot segments = none ↔ segments = [] := by
  simp [chainRoot]

/-- The root that an extension writes is accepted, with the chain's last segment in it. -/
theorem Plans.root_valid {files : Disk} {i : CacheIdentity} {call : ExtensionCall} {h : Hit}
    {base : RowManifest} {plan : ExtensionPlan} (hp : Plans files i call h base plan)
    (hbase : 0 < base.committedTokens) {segments : List Bytes}
    (hsegments : segments.length = segmentCount plan.baseDescriptors.length)
    (hne : plan.tail ≠ []) {document : Json}
    (hdocument : withMetadata (tailFields i.toWire plan.resultDigest call.base plan.baseManifest
      (plan.root (chainRoot segments))) = .ok document) :
    validateTailManifestRoot document i plan.resultDigest = .ok (plan.root (chainRoot segments)) := by
  have hpos := i.sizes.2
  have hgeometry : tailGeometry i.chunkTokens plan.resultTokens plan.baseTokens plan.reusedTokens
      plan.baseDescriptors.length := by
    refine ⟨?_, ?_, ?_, ?_, ?_, ?_⟩
    · have := hp.longer
      rw [hp.baseTokens]
      exact_mod_cast this
    · rw [hp.baseTokens]
      exact_mod_cast hbase
    · omega
    · rw [hp.reused, hp.baseTokens]
      exact_mod_cast Nat.div_mul_le_self _ _
    · rw [hp.reused]
      exact_mod_cast Nat.mul_mod_left _ _
    · exact_mod_cast hp.count
  have hrooted : (plan.root (chainRoot segments)).Rooted := by
    show chainRoot segments = none ↔ plan.baseDescriptors.length = 0
    rw [chainRoot_eq_none, ← List.length_eq_zero_iff, hsegments]
    simp only [segmentCount, prefixSegmentDescriptors]
    omega
  have htail : (plan.root (chainRoot segments)).tailChunks =
      (plan.tail.map Prod.fst).map ChunkDescriptor.json := by
    rw [List.map_map]
    rfl
  exact validateTailManifestRoot_json i.toWire_plain hp.schema hdocument hgeometry hrooted htail
    (by simpa using hne)

theorem readChunks_append {files : Disk} {required : List StateRecord} {xs ys : List ChunkDescriptor}
    {as bs : List ContextChunk} (hx : readChunks files required xs = .ok as)
    (hy : readChunks files required ys = .ok bs) :
    readChunks files required (xs ++ ys) = .ok (as ++ bs) := by
  rw [readChunks_eq_ok] at hx hy ⊢
  exact List.rel_append hx hy

/-- The reused descriptors are those of the full chunks, and the tail continues them. -/
theorem Plans.covers {files : Disk} {i : CacheIdentity} {call : ExtensionCall} {h : Hit}
    {base : RowManifest} {plan : ExtensionPlan} (hp : Plans files i call h base plan) :
    Covers i.chunkTokens 0 (plan.baseDescriptors ++ plan.tail.map Prod.fst) plan.resultTokens ∧
      ∀ d ∈ base.chunks, d.logicalEnd ≤ plan.reusedTokens ↔
        d.logicalEnd - d.logicalStart = i.chunkTokens := by
  have hbase : Covers i.chunkTokens (0 * i.chunkTokens) base.chunks base.committedTokens := by
    rw [Nat.zero_mul]
    exact (lookup_covers hp.hit hp.rows).1
  obtain ⟨hcomplete, hfull⟩ := hbase.complete i.sizes.2
  rw [← hp.reused] at hcomplete hfull
  rw [Nat.zero_mul, ← hp.descriptors] at hcomplete
  refine ⟨hcomplete.concat (fun d hd => ?_) (planTail_eq_ok hp.tail).1, hfull⟩
  rw [hp.descriptors, List.mem_filter, decide_eq_true_eq] at hd
  exact (hfull d hd.1).mp hd.2

theorem Plans.tail_ne {files : Disk} {i : CacheIdentity} {call : ExtensionCall} {h : Hit}
    {base : RowManifest} {plan : ExtensionPlan} (hp : Plans files i call h base plan) :
    plan.tail ≠ [] := by
  intro hnil
  have hdescribed := (planTail_eq_ok hp.tail).2.1
  obtain ⟨last, hlast, -⟩ := hp.last
  rw [hnil] at hdescribed
  rw [List.forall₂_nil_left_iff.mp hdescribed] at hlast
  cases hlast

/-- The chunks of the new root: the complete chunks of the base, and then the tail. -/
theorem Plans.chunks {files files' : Disk} {i : CacheIdentity} {call : ExtensionCall} {h : Hit}
    {base : RowManifest} {plan : ExtensionPlan} (hp : Plans files i call h base plan)
    (hkeep : Preserves files files')
    (hobjects : ∀ o ∈ plan.tailObjects, files'.lookup o.1 = some o.2) {chunks : List ContextChunk}
    (hchunks : readChunks files i.requiredRecords base.chunks = .ok chunks) :
    readChunks files' i.requiredRecords (plan.baseDescriptors ++ plan.tail.map Prod.fst) =
      .ok (completeChunks i.chunkTokens chunks ++ call.tail) := by
  obtain ⟨-, hdescribed, htail, -⟩ := planTail_eq_ok hp.tail
  apply readChunks_append
  · rw [hp.descriptors]
    refine readChunks_filter (readChunks_preserved hkeep hchunks) fun d hd => ?_
    rw [decide_eq_true_eq]
    exact hp.covers.2 d hd
  · apply readChunks_described hdescribed
    intro chunk hchunk bytes hbytes
    exact hobjects _ (List.mem_map_of_mem (htail chunk hchunk bytes hbytes))

/-- The rows that the new root resolves to. -/
def ExtensionPlan.rows (plan : ExtensionPlan) (i : CacheIdentity) : RowManifest :=
  ⟨i.toWire, plan.resultDigest, plan.resultTokens, plan.baseDescriptors ++ plan.tail.map Prod.fst⟩

theorem Plans.base_eq {files : Disk} {i : CacheIdentity} {call : ExtensionCall} {h h' : Hit}
    {base m : RowManifest} {plan : ExtensionPlan} {chunks : List ContextChunk}
    (hp : Plans files i call h base plan)
    (hserved : ServedRows files i call.base .perTokenRows h' m chunks) : base = m := by
  have hsame := lookup_manifestOnly hp.hit
  rw [hserved.hit] at hsame
  cases hsame
  have hrows := hp.rows
  rw [hserved.rows] at hrows
  cases hrows
  rfl

/-- The new root is served by the reused descriptors and the tail, and its chain is linked. -/
theorem Plans.served {files files' : Disk} {i : CacheIdentity} {call : ExtensionCall} {h : Hit}
    {base : RowManifest} {plan : ExtensionPlan} (hp : Plans files i call h base plan)
    (hkeep : Preserves files files') {segments : List Bytes} {encoded : Bytes}
    (hchain : chainSegments plan.storageKey plan.baseDescriptors
      (segmentCount plan.baseDescriptors.length) = .ok segments)
    (hencoded : encodeTailRoot i call.base plan (chainRoot segments) = .ok encoded)
    (hstored : Stored files' plan.storageKey segments)
    (hobjects : ∀ o ∈ plan.tailObjects, files'.lookup o.1 = some o.2)
    (hfile : files'.lookup (.manifest plan.storageKey plan.resultDigest) = some encoded)
    {chunks : List ContextChunk} (hchunks : readChunks files i.requiredRecords base.chunks = .ok chunks)
    (mode : StorageMode) :
    ServedRows files' i plan.resultDigest mode ⟨sha256 encoded, .rows (plan.rows i), .manifest⟩ (plan.rows i)
        (completeChunks i.chunkTokens chunks ++ call.tail) ∧
      Linked files' i plan.resultDigest plan.baseDescriptors := by
  obtain ⟨hcovers, hne⟩ := lookup_covers hp.hit hp.rows
  have htail : plan.tail.map Prod.fst ≠ [] := by simpa using hp.tail_ne
  unfold encodeTailRoot at hencoded
  rw [Pages.bind_eq_ok] at hencoded
  obtain ⟨document, hdocument, hdump⟩ := hencoded
  have hplain := withMetadata_plain hdocument (tailFields_plain i.toWire_plain _ _ _
    (show (plan.root (chainRoot segments)).tailChunks =
      (plan.tail.map Prod.fst).map ChunkDescriptor.json by rw [List.map_map]; rfl))
  have hload := (hplain.loads (dumpCanonical_eq_ok.mp hdump)).2.2
  have hroot := hp.root_valid (hcovers.pos hne) (chainSegments_length hchain) hp.tail_ne hdocument
  have hread := readDescriptorChain_stored hp.key hchain hstored le_rfl
  rw [List.take_length] at hread
  refine ⟨?_, plan.storageKey, encoded, document, _, hp.key, hfile, hload, hroot, rfl, hread⟩
  have hjson : plan.baseDescriptors.map ChunkDescriptor.json ++ (plan.root (chainRoot segments)).tailChunks =
      (plan.baseDescriptors ++ plan.tail.map Prod.fst).map ChunkDescriptor.json := by
    rw [List.map_append, List.map_map]
    rfl
  have hvalid : validateManifestMetadata (manifestJson i.toWire plan.resultDigest plan.resultTokens
      ((plan.baseDescriptors ++ plan.tail.map Prod.fst).map ChunkDescriptor.json))
      ⟨plan.storageKey, plan.resultDigest⟩ (some i.view) = _ :=
    validateManifestMetadata_json i hp.key hp.covers.1 (by simp [htail]) (by simp)
  rw [← hjson] at hvalid
  have hschema : document.get? "schema" = some (.str tailManifestSchema) := by
    obtain ⟨bytes, -, rfl⟩ := withMetadata_eq_ok hdocument
    rw [get?_object (tailFields_nodup _ _ _ _ _ _)]
    simp [sealedFields, tailFields, getField]
  have hrows : readRoot files' document i plan.resultDigest = .ok (.rows (plan.rows i), .manifest,
      (plan.baseDescriptors ++ plan.tail.map Prod.fst).map .chunk) := by
    unfold readRoot resolveTailManifest
    rw [if_pos hschema]
    simp only [Pages.bind_eq_ok]
    exact ⟨_, ⟨_, hroot, _, hread, plan.storageKey, hp.key, hvalid⟩, rfl⟩
  exact ServedRows.of_rows hp.key hfile hload hrows rfl (hp.chunks hkeep hobjects hchunks)

/-! ## Extensions that return -/

/-- The checks over a served base, one by one. -/
theorem planExtension_ok {files : Disk} {i : CacheIdentity} {call : ExtensionCall} {h : Hit} {base : RowManifest}
    {chunks : List ContextChunk} (hserved : ServedRows files i call.base .perTokenRows h base chunks)
    (hschema : i.publicationSchema = .tailCowV1) {last : ContextChunk} (hlast : last ∈ call.tail.getLast?)
    (hlength : last.logicalEnd ≤ call.tokens.length)
    (hbase : contextPrefixDigest call.tokens call.salt base.committedTokens = .ok call.base)
    {resultDigest : Digest} (hresult : contextPrefixDigest call.tokens call.salt last.logicalEnd = .ok resultDigest)
    (hne : resultDigest ≠ call.base) (hlonger : base.committedTokens < last.logicalEnd)
    {tail : List (ChunkDescriptor × Bytes)}
    (htail : planTail i (base.committedTokens / i.chunkTokens * i.chunkTokens) call.tail =
      .ok (tail, last.logicalEnd)) :
    ∃ plan, planExtension files i call = .ok plan := by
  obtain ⟨storageKey, -, hkey, -⟩ := lookup_eq_hit.mp hserved.hit
  obtain ⟨manifestDigest, manifest, kind⟩ := h
  obtain rfl : manifest = .rows base := hserved.rows
  have hhit := lookup_rows hserved.hit rfl hserved.verified .chunks
  have hcovers : Covers i.chunkTokens (0 * i.chunkTokens) base.chunks base.committedTokens := by
    rw [Nat.zero_mul]
    exact (lookup_covers hhit rfl).1
  obtain ⟨hcomplete, hfull⟩ := hcovers.complete i.sizes.2
  have hcount : (base.chunks.filter fun d =>
      d.logicalEnd ≤ base.committedTokens / i.chunkTokens * i.chunkTokens).length =
        base.committedTokens / i.chunkTokens * i.chunkTokens / i.chunkTokens := by
    have hstop := hcomplete.stop_of_full fun d hd => by
      rw [List.mem_filter, decide_eq_true_eq] at hd
      exact (hfull d hd.1).mp hd.2
    rw [Nat.zero_mul, Nat.zero_add] at hstop
    exact (Nat.div_eq_of_eq_mul_left i.sizes.2 hstop).symm
  let reused := base.committedTokens / i.chunkTokens * i.chunkTokens
  refine ⟨⟨storageKey, resultDigest, last.logicalEnd, manifestDigest, base.committedTokens, reused,
    base.chunks.filter fun d => d.logicalEnd ≤ reused, tail⟩, ?_⟩
  unfold planExtension
  simp only [Pages.bind_eq_ok, require_eq_ok, expect_eq_ok]
  refine ⟨(), hschema, last, hlast, _, hhit, ?_⟩
  show planOver i call last manifestDigest base = _
  unfold planOver
  simp only [Pages.bind_eq_ok, require_eq_ok]
  exact ⟨(), hlength, _, hbase, (), rfl, _, hresult, (), hne, (), hcount, _, htail, (), ⟨rfl, hlonger⟩,
    storageKey, hkey, rfl⟩

theorem encodeTailRoot_of_short {i : CacheIdentity} {base : Digest} {plan : ExtensionPlan}
    (hkey : i.view.storageKey = .ok plan.storageKey) (hresult : plan.resultTokens < 10 ^ maxIntDigits)
    (hbase : plan.baseTokens ≤ plan.resultTokens) (hreused : plan.reusedTokens ≤ plan.resultTokens)
    (hcount : plan.baseDescriptors.length ≤ plan.resultTokens) (htail : ∀ planned ∈ plan.tail, planned.1.Short)
    (baseTailSegment : Option Digest) : ∃ encoded, encodeTailRoot i base plan baseTailSegment = .ok encoded := by
  have hfields : ∀ f ∈ tailFields i.toWire plan.resultDigest base plan.baseManifest
      (plan.root baseTailSegment), f.2.printable = true := by
    have hdigits : maxIntDigits ≠ 0 := by
      unfold maxIntDigits
      omega
    have habi : formatAbi < 10 ^ maxIntDigits := Nat.one_lt_pow hdigits (show 1 < 10 by omega)
    simp only [tailFields, ExtensionPlan.root, List.forall_mem_cons, printable_nat]
    refine ⟨rfl, habi, i.printable hkey, rfl, hresult, rfl, rfl, hbase.trans_lt hresult,
      hreused.trans_lt hresult, hcount.trans_lt hresult, ?_, ?_, by simp⟩
    · cases baseTailSegment <;> rfl
    · rw [printable, printableItems_iff]
      intro item hitem
      obtain ⟨planned, hplanned, rfl⟩ := List.mem_map.mp hitem
      exact (htail planned hplanned).printable
  obtain ⟨document, hdocument, hprint⟩ := withMetadata_of_printable hfields
  obtain ⟨encoded, hencoded⟩ := dumpCanonical_of_printable hprint
  refine ⟨encoded, ?_⟩
  unfold encodeTailRoot
  rw [Pages.bind_eq_ok]
  exact ⟨document, hdocument, hencoded⟩

/-- What a plan writes fits, if the encodings of the tail are short: those of the base are. -/
theorem Plans.short {files : Disk} {i : CacheIdentity} {call : ExtensionCall} {h : Hit} {base : RowManifest}
    {plan : ExtensionPlan} (hp : Plans files i call h base plan)
    (hsize : ∀ c ∈ call.tail, ∀ encoded, encodeChunk c = .ok encoded → encoded.length < 10 ^ maxIntDigits) :
    (∀ d ∈ plan.baseDescriptors, d.Short) ∧ (∀ planned ∈ plan.tail, planned.1.Short) ∧
      plan.resultTokens < 10 ^ maxIntDigits := by
  have hbase : ∀ d ∈ plan.baseDescriptors, d.Short := by
    rw [hp.descriptors]
    exact fun d hd => lookup_short hp.hit hp.rows d (List.mem_of_mem_filter hd)
  have htail := described_short (planTail_eq_ok hp.tail).2.1 hsize
  refine ⟨hbase, fun planned hplanned => htail _ (List.mem_map_of_mem hplanned), ?_⟩
  refine hp.covers.1.short (fun d hd => ?_) (by simp [hp.tail_ne])
  exact (List.mem_append.mp hd).elim (hbase d) (htail d)

theorem Plans.encodes {files : Disk} {i : CacheIdentity} {call : ExtensionCall} {h : Hit} {base : RowManifest}
    {plan : ExtensionPlan} (hp : Plans files i call h base plan)
    (hsize : ∀ c ∈ call.tail, ∀ encoded, encodeChunk c = .ok encoded → encoded.length < 10 ^ maxIntDigits) :
    ∃ segments root, chainSegments plan.storageKey plan.baseDescriptors
        (segmentCount plan.baseDescriptors.length) = .ok segments ∧
      encodeTailRoot i call.base plan (chainRoot segments) = .ok root := by
  obtain ⟨hbase, htail, hresult⟩ := hp.short hsize
  have hlength := hp.covers.1.length_le
  rw [List.length_append, List.length_map, Nat.zero_add] at hlength
  obtain ⟨segments, hchain⟩ := chainSegments_of_short plan.storageKey hbase
    (n := segmentCount plan.baseDescriptors.length) (by
      simp only [segmentCount, prefixSegmentDescriptors]
      omega)
  have hlonger := hp.longer
  have hreused : plan.reusedTokens ≤ base.committedTokens := by
    rw [hp.reused]
    exact Nat.div_mul_le_self _ _
  obtain ⟨root, hroot⟩ := encodeTailRoot_of_short hp.key hresult (by rw [hp.baseTokens]; omega) (by omega)
    (by omega) htail (chainRoot segments)
  exact ⟨segments, root, hchain, hroot⟩

/-- The objects of a tail are its encoded chunks. -/
theorem Plans.objects {files : Disk} {i : CacheIdentity} {call : ExtensionCall} {h : Hit} {base : RowManifest}
    {plan : ExtensionPlan} (hp : Plans files i call h base plan) : ∀ o ∈ plan.tailObjects,
      ∃ c ∈ call.tail, ∃ encoded, encodeChunk c = .ok encoded ∧ o = (.chunk (sha256 encoded), encoded) := by
  obtain ⟨-, -, -, hsource⟩ := planTail_eq_ok hp.tail
  intro o ho
  obtain ⟨⟨d, encoded⟩, hplanned, rfl⟩ := List.mem_map.mp ho
  obtain ⟨c, hc, hencoded, hdescribe⟩ := hsource _ hplanned
  obtain rfl : d = describe c encoded := hdescribe
  exact ⟨c, hc, encoded, hencoded, rfl⟩

/-- A planned extension returns, if the file system works and its root is free. -/
theorem Plans.returns {W : Set Bytes} (hinj : Set.InjOn sha256 W) {files : Disk} {i : CacheIdentity}
    {call : ExtensionCall} {h : Hit} {base : RowManifest} {plan : ExtensionPlan}
    (hp : Plans files i call h base plan) (hplan : planExtension files i call = .ok plan)
    (hsize : ∀ c ∈ call.tail, ∀ encoded, encodeChunk c = .ok encoded →
      encoded ∈ W ∧ encoded.length < 10 ^ maxIntDigits)
    (hsegments : ∀ segments, chainSegments plan.storageKey plan.baseDescriptors
      (segmentCount plan.baseDescriptors.length) = .ok segments → ∀ e ∈ segments, e ∈ W)
    (hfree : files.lookup (.manifest plan.storageKey plan.resultDigest) = none) :
    ∃ receipt w, commitExtension i call ⟨files, none⟩ = (.ok receipt, w) ∧
      receipt.committedTokens = plan.resultTokens := by
  obtain ⟨segments, root, hchain, hroot⟩ := hp.encodes fun c hc encoded hencoded => (hsize c hc encoded hencoded).2
  obtain ⟨files₁, hfirst⟩ := publishSegments_sound plan.storageKey
    (hinj.mono fun e he => hsegments _ hchain e he) files
  have hobjects : ∀ o ∈ plan.tailObjects, ∃ encoded ∈ W, o = (.chunk (sha256 encoded), encoded) := by
    intro o ho
    obtain ⟨c, hc, encoded, hencoded, rfl⟩ := hp.objects o ho
    exact ⟨encoded, (hsize c hc encoded hencoded).1, rfl⟩
  obtain ⟨files₂, hsecond⟩ :=
    publishPlaced_sound hinj (fun e => .chunk (sha256 e)) (fun _ _ => rfl) (fun _ => rfl) hobjects files₁
  have hnone : files₂.lookup (.manifest plan.storageKey plan.resultDigest) = none := by
    rw [(publishImmutableBatch_eq_ok hsecond).2 _ ?_, (publishImmutableBatch_eq_ok hfirst).2 _ ?_]
    · exact hfree
    · intro hmem
      obtain ⟨o, ho, hpath⟩ := List.mem_map.mp hmem
      obtain ⟨e, -, rfl⟩ := List.mem_map.mp ho
      cases hpath
    · intro hmem
      obtain ⟨o, ho, hpath⟩ := List.mem_map.mp hmem
      obtain ⟨encoded, -, rfl⟩ := hobjects o ho
      cases hpath
  obtain ⟨files₃, hthird⟩ : ∃ files₃, publishImmutable (.manifest plan.storageKey plan.resultDigest) root
      ⟨files₂, none⟩ = (.ok (), ⟨files₃, none⟩) :=
    publishImmutable_sound (Or.inl hnone)
  refine ⟨plan.receipt segments root, ⟨files₃, none⟩, ?_, rfl⟩
  unfold commitExtension publishExtension publishDescriptorChain
  simp only [FileM.bind_eq_ok, view_apply, lift_apply, hplan]
  exact ⟨_, _, rfl, plan, _, rfl, segments, _, ⟨segments, _, by rw [hchain], (), _, hfirst, rfl⟩, (), _, hsecond,
    root, _, by rw [hroot], (), _, hthird, rfl⟩

/-! ## Runs -/

/-- A boundary of a run: the chunks that its context has, and for an extension the descriptors
that were published in segments. -/
structure Boundary where
  contextDigest : Digest
  chunks : List ContextChunk
  published : Option (List ChunkDescriptor)

/-- The files of a store and the boundaries that are published so far. -/
structure Branches where
  files : Disk
  boundaries : List Boundary

/-- What an extension adds, if its base is one of the boundaries. -/
def extended (i : CacheIdentity) (boundaries : List Boundary) (call : ExtensionCall)
    (plan : ExtensionPlan) : List Boundary :=
  match boundaries.find? fun b => b.contextDigest = call.base with
  | some base => [⟨plan.resultDigest, completeChunks i.chunkTokens base.chunks ++ call.tail,
      some plan.baseDescriptors⟩]
  | none => []

/-- One call; a call that raises adds no boundary. -/
def extendStep (i : CacheIdentity) (s : Branches) (call : ExtensionCall) : Branches :=
  let (result, w) := commitExtension i call ⟨s.files, call.steps⟩
  match result, planExtension s.files i call with
  | .ok _, .ok plan => ⟨w.files, s.boundaries ++ extended i s.boundaries call plan⟩
  | _, _ => ⟨w.files, s.boundaries⟩

/-- Every boundary is served, and every chain is linked. -/
def Branches.Holds (i : CacheIdentity) (s : Branches) : Prop :=
  ∀ b ∈ s.boundaries, (∀ mode, Serves s.files i b.contextDigest mode b.chunks) ∧
    ∀ published ∈ b.published, Linked s.files i b.contextDigest published

theorem extendStep_files (i : CacheIdentity) (s : Branches) (call : ExtensionCall) :
    (extendStep i s call).files = (commitExtension i call ⟨s.files, call.steps⟩).2.files := by
  unfold extendStep
  cases hcommit : commitExtension i call ⟨s.files, call.steps⟩ with
  | mk result w =>
      cases result with
      | error e => rfl
      | ok receipt =>
          cases hplan : planExtension s.files i call with
          | error e => simp only
          | ok plan => simp only

theorem extendStep_grows (i : CacheIdentity) (s : Branches) (call : ExtensionCall) :
    Grows s.files (extendStep i s call).files := by
  rw [extendStep_files]
  exact commitExtension_grows i call ⟨s.files, call.steps⟩

theorem Serves.preserved {f g : Disk} (hkeep : Preserves f g) {i : CacheIdentity}
    {contextDigest : Digest} {chunks : List ContextChunk}
    (h : ∀ mode, Serves f i contextDigest mode chunks) (mode : StorageMode) :
    Serves g i contextDigest mode chunks := by
  obtain ⟨hit, m, hs⟩ := serves_iff.mp (h .other)
  exact ((hs.preserved hkeep (Or.inl rfl)).exact mode).serves

theorem Branches.Holds.preserved {i : CacheIdentity} {s : Branches} (h : s.Holds i) {files : Disk}
    (hkeep : Preserves s.files files) : Branches.Holds i ⟨files, s.boundaries⟩ := by
  intro b hb
  obtain ⟨hserves, hlinked⟩ := h b hb
  exact ⟨Serves.preserved hkeep hserves, fun published hp => (hlinked published hp).preserved hkeep⟩

/-- One call keeps the boundaries and adds one that is served. -/
theorem Branches.Holds.step {i : CacheIdentity} {s : Branches} (h : s.Holds i) {call : ExtensionCall}
    (hkeep : Preserves s.files (extendStep i s call).files) : (extendStep i s call).Holds i := by
  have hold := h.preserved hkeep
  have hfiles := extendStep_files i s call
  cases hcommit : commitExtension i call ⟨s.files, call.steps⟩ with
  | mk result w =>
      rw [hcommit] at hfiles
      cases result with
      | error e =>
          have hstep : extendStep i s call = ⟨(extendStep i s call).files, s.boundaries⟩ := by
            rw [hfiles, extendStep, hcommit]
          rw [hstep]
          exact hold
      | ok receipt =>
          obtain ⟨plan, segments, root, hplan, hchain, hroot, hstored, hobjects, hfile, -⟩ :=
            commitExtension_eq_ok hcommit
          have hstep : extendStep i s call = ⟨(extendStep i s call).files,
              s.boundaries ++ extended i s.boundaries call plan⟩ := by
            rw [hfiles, extendStep, hcommit]
            simp only [show planExtension s.files i call = .ok plan from hplan]
          obtain ⟨hit, base, hp⟩ := planExtension_eq_ok hplan
          rw [hstep]
          intro b hb
          rcases List.mem_append.mp hb with hb | hb
          · exact hold b hb
          · unfold extended at hb
            split at hb
            · rename_i found hfind
              rw [List.mem_singleton.mp hb]
              have hname := List.find?_some hfind
              rw [decide_eq_true_eq] at hname
              obtain ⟨hserves, -⟩ := h found (List.mem_of_find?_eq_some hfind)
              obtain ⟨hit', m, hs⟩ := serves_iff.mp (hserves .perTokenRows)
              rw [hname] at hs
              obtain rfl := hp.base_eq hs
              rw [hfiles]
              rw [hfiles] at hkeep
              refine ⟨fun mode => (hp.served hkeep hchain hroot hstored hobjects hfile hs.verified
                mode).1.serves, ?_⟩
              intro published hpublished
              cases hpublished
              exact (hp.served hkeep hchain hroot hstored hobjects hfile hs.verified .other).2
            · cases hb

theorem Serves.unique {files : Disk} {i : CacheIdentity} {contextDigest : Digest} {mode : StorageMode}
    {chunks chunks' : List ContextChunk} (h : Serves files i contextDigest mode chunks)
    (h' : Serves files i contextDigest mode chunks') : chunks = chunks' := by
  obtain ⟨hit, m, hs⟩ := serves_iff.mp h
  obtain ⟨hit', m', hs'⟩ := serves_iff.mp h'
  have hsame := hs.hit
  rw [hs'.hit] at hsame
  cases hsame
  have hrows := hs.rows
  rw [hs'.rows] at hrows
  cases hrows
  exact readChunks_required hs.verified hs'.verified

/-- The store after the first calls of a run. -/
def branchesAfter (i : CacheIdentity) (start : Branches) (calls : List ExtensionCall) (n : ℕ) :
    Branches :=
  Run.exec (extendStep i) start (calls.take n)

theorem branchesAfter_succ (i : CacheIdentity) (start : Branches) {calls : List ExtensionCall} {n : ℕ}
    {call : ExtensionCall} (h : calls[n]? = some call) :
    branchesAfter i start calls (n + 1) = extendStep i (branchesAfter i start calls n) call := by
  unfold branchesAfter
  rw [List.take_add_one, h]
  exact Run.exec_concat _ _ _ _

theorem branchesAfter_end (i : CacheIdentity) (start : Branches) {calls : List ExtensionCall} {n : ℕ}
    (h : calls[n]? = none) :
    branchesAfter i start calls (n + 1) = branchesAfter i start calls n := by
  unfold branchesAfter
  rw [List.take_add_one, h]
  simp

theorem extendStep_boundaries (i : CacheIdentity) (s : Branches) (call : ExtensionCall) :
    s.boundaries ⊆ (extendStep i s call).boundaries := by
  unfold extendStep
  cases commitExtension i call ⟨s.files, call.steps⟩ with
  | mk result w =>
      cases result with
      | error e => exact List.Subset.refl _
      | ok receipt =>
          cases planExtension s.files i call with
          | error e => exact List.Subset.refl _
          | ok plan => exact List.subset_append_left _ _

theorem branchesAfter_boundaries (i : CacheIdentity) (start : Branches) (calls : List ExtensionCall)
    {n m : ℕ} (h : n ≤ m) :
    (branchesAfter i start calls n).boundaries ⊆ (branchesAfter i start calls m).boundaries := by
  induction m, h using Nat.le_induction with
  | base => exact List.Subset.refl _
  | succ m _ ih =>
      cases hcall : calls[m]? with
      | none =>
          rw [branchesAfter_end i start hcall]
          exact ih
      | some call =>
          rw [branchesAfter_succ i start hcall]
          exact List.Subset.trans ih (extendStep_boundaries i _ call)

/-- The bytes under content addresses at any time of a run. -/
def runContents (i : CacheIdentity) (start : Branches) (calls : List ExtensionCall) : Set Bytes :=
  {payload | ∃ n, payload ∈ contents (branchesAfter i start calls n).files}

theorem Branches.Holds.run {i : CacheIdentity} {start : Branches} (h : start.Holds i)
    {calls : List ExtensionCall} (hinj : Set.InjOn sha256 (runContents i start calls)) (n : ℕ) :
    (branchesAfter i start calls n).Holds i := by
  induction n with
  | zero => exact h
  | succ n ih =>
      cases hcall : calls[n]? with
      | none =>
          rw [branchesAfter_end i start hcall]
          exact ih
      | some call =>
          have hnext := branchesAfter_succ i start hcall
          rw [hnext]
          refine ih.step ((extendStep_grows i _ call).preserves (hinj.mono ?_))
          rw [← hnext]
          rintro payload (hpayload | hpayload)
          · exact ⟨n, hpayload⟩
          · exact ⟨n + 1, hpayload⟩

/-- A successful extension of a boundary adds the boundary of its tokens. -/
theorem extendStep_adds {i : CacheIdentity} {s : Branches} (h : s.Holds i) {call : ExtensionCall}
    {receipt : CommitReceipt} {w : World Path Bytes}
    (hcommit : commitExtension i call ⟨s.files, call.steps⟩ = (.ok receipt, w)) {b : Boundary}
    (hb : b ∈ s.boundaries) (hname : b.contextDigest = call.base) :
    ∃ b' ∈ (extendStep i s call).boundaries,
      contextPrefixDigest call.tokens call.salt receipt.committedTokens = .ok b'.contextDigest ∧
      b'.chunks = completeChunks i.chunkTokens b.chunks ++ call.tail ∧ b'.published.isSome := by
  obtain ⟨plan, segments, root, hplan, -, -, -, -, -, rfl⟩ := commitExtension_eq_ok hcommit
  obtain ⟨hit, base, hp⟩ := planExtension_eq_ok hplan
  have hstep : extendStep i s call = ⟨w.files, s.boundaries ++ extended i s.boundaries call plan⟩ := by
    unfold extendStep
    rw [hcommit]
    simp only [show planExtension s.files i call = .ok plan from hplan]
  cases hfind : s.boundaries.find? fun b => b.contextDigest = call.base with
  | none =>
      have hnone := List.find?_eq_none.mp hfind b hb
      simp [hname] at hnone
  | some found =>
      have hfound := List.find?_some hfind
      rw [decide_eq_true_eq] at hfound
      have hchunks : found.chunks = b.chunks := by
        have hserves := (h found (List.mem_of_find?_eq_some hfind)).1 .other
        rw [hfound, ← hname] at hserves
        exact hserves.unique ((h b hb).1 .other)
      refine ⟨⟨plan.resultDigest, completeChunks i.chunkTokens found.chunks ++ call.tail,
        some plan.baseDescriptors⟩, ?_, ?_, ?_, rfl⟩
      · rw [hstep, extended, hfind]
        simp
      · exact hp.result
      · rw [hchunks]

/-- Over any base, each boundary that a run of extensions has published restores the complete
chunks of its base and then its tail, from then on and whatever is published later. The chain
of its root is read back as the descriptors that were published, whatever its length. -/
theorem extensions_publish (i : CacheIdentity) {files : Disk} {base : Digest}
    {chunks : List ContextChunk} (hbase : Serves files i base .other chunks)
    (calls : List ExtensionCall)
    (hinj : Set.InjOn sha256 (runContents i ⟨files, [⟨base, chunks, none⟩]⟩ calls)) :
    let after := branchesAfter i ⟨files, [⟨base, chunks, none⟩]⟩ calls
    (∀ n m, n ≤ m → ∀ b ∈ (after n).boundaries,
      (∀ mode, Serves (after m).files i b.contextDigest mode b.chunks) ∧
        ∀ published ∈ b.published, Linked (after m).files i b.contextDigest published) ∧
    ∀ n call receipt w, calls[n]? = some call →
      commitExtension i call ⟨(after n).files, call.steps⟩ = (.ok receipt, w) →
      ∀ b ∈ (after n).boundaries, b.contextDigest = call.base →
        ∃ b' ∈ (after (n + 1)).boundaries,
          contextPrefixDigest call.tokens call.salt receipt.committedTokens = .ok b'.contextDigest ∧
          b'.chunks = completeChunks i.chunkTokens b.chunks ++ call.tail ∧ b'.published.isSome := by
  intro after
  have hstart : Branches.Holds i ⟨files, [⟨base, chunks, none⟩]⟩ := by
    intro b hb
    rw [List.mem_singleton.mp hb]
    obtain ⟨hit, m, hs⟩ := serves_iff.mp hbase
    exact ⟨fun mode => (hs.exact mode).serves, by simp⟩
  refine ⟨?_, ?_⟩
  · intro n m hnm b hb
    exact hstart.run hinj m b (branchesAfter_boundaries i _ calls hnm hb)
  · intro n call receipt w hcall hcommit b hb hname
    show ∃ b' ∈ (branchesAfter i _ calls (n + 1)).boundaries, _
    rw [branchesAfter_succ i _ hcall]
    exact extendStep_adds (hstart.run hinj n) hcommit hb hname

/-! ## Two linked extensions -/

/-- Two tokens in a chunk, and tails. -/
def pairIdentity : CacheIdentity :=
  { tinyIdentity .tailCowV1 with chunkTokens := 2, sizes := by decide }

def pairChunk (start stop : ℕ) (h : start < stop) : ContextChunk where
  logicalStart := start
  logicalEnd := stop
  records kind := if kind = .targetCkv ∨ kind = .logicalPositions then some [1] else none
  ordered := h
  payloads kind := by
    by_cases h : kind = .targetCkv ∨ kind = .logicalPositions <;> simp [h]
  carried := ⟨.targetCkv, by simp⟩

/-- The complete chunk of the base. -/
def pairFirst : ContextChunk := pairChunk 0 2 (by omega)

def pairDescriptor : ChunkDescriptor := describe pairFirst (tinyBytes pairFirst)

def pairKey : Digest := (pairIdentity.view.storageKey.toOption).getD zeroDigest

def pairSegment : Bytes := ((encodeSegment pairKey [pairDescriptor] 0 []).toOption).getD []

def pairTokens : List ℤ := [5, 6, 7, 8]

def pairPacked : Bytes := [5, 0, 0, 0, 6, 0, 0, 0, 7, 0, 0, 0, 8, 0, 0, 0]

/-- The digest of the first tokens. -/
def pairContext (n : ℕ) : Digest := prefixDigest pairPacked [] n

/-- A base is extended by a tail behind its complete chunk. -/
def pairCall (k stop : ℕ) (h : 2 < stop) : ExtensionCall :=
  ⟨pairContext k, pairTokens, "", [pairChunk 2 stop h], none⟩

/-- A third token arrives, and a fourth, which replaces the partial chunk. -/
def pairCalls : List ExtensionCall := [pairCall 2 3 (by omega), pairCall 3 4 (by omega)]

theorem pairContext_digest {n : ℕ} (h : n ≤ 4) : contextPrefixDigest pairTokens "" n = .ok (pairContext n) :=
  contextPrefixDigest_eq_ok.mpr ⟨pairPacked, [], by decide, h, asciiBytes_empty, rfl⟩

theorem pairContext_inj {a b : ℕ} (ha : a ∈ [2, 3, 4]) (hb : b ∈ [2, 3, 4]) (h : pairContext a = pairContext b) :
    a = b := by
  have hnodup : ([2, 3, 4].map pairContext).Nodup := by decide +kernel
  exact List.inj_on_of_nodup_map hnodup ha hb h

def pairPayloads : List Bytes :=
  [tinyBytes pairFirst, tinyBytes (pairChunk 2 3 (by omega)), tinyBytes (pairChunk 2 4 (by omega)), pairSegment]

set_option maxRecDepth 100000 in
theorem pair_injOn : Set.InjOn sha256 {payload | payload ∈ pairPayloads} := by
  have hnodup : (pairPayloads.map sha256).Nodup := by decide +kernel
  exact fun _ ha _ hb h => List.inj_on_of_nodup_map hnodup ha hb h

theorem pairTail_encodes {stop : ℕ} (h : stop = 3 ∨ stop = 4) (hlt : 2 < stop) :
    encodeChunk (pairChunk 2 stop hlt) = .ok (tinyBytes (pairChunk 2 stop hlt)) ∧
      (tinyBytes (pairChunk 2 stop hlt)).length < 10 ^ maxIntDigits ∧
      tinyBytes (pairChunk 2 stop hlt) ∈ pairPayloads := by
  have hall : ((encodeChunk (pairChunk 2 3 (by decide))).toOption.isSome = true ∧
      (tinyBytes (pairChunk 2 3 (by decide))).length < 10 ^ maxIntDigits) ∧
        (encodeChunk (pairChunk 2 4 (by decide))).toOption.isSome = true ∧
          (tinyBytes (pairChunk 2 4 (by decide))).length < 10 ^ maxIntDigits := by
    decide +kernel
  obtain ⟨hsome, hlength⟩ : (encodeChunk (pairChunk 2 stop hlt)).toOption.isSome = true ∧
      (tinyBytes (pairChunk 2 stop hlt)).length < 10 ^ maxIntDigits := by
    rcases h with rfl | rfl
    · exact hall.1
    · exact hall.2
  refine ⟨?_, hlength, by rcases h with rfl | rfl <;> simp [pairPayloads]⟩
  cases hencoded : encodeChunk (pairChunk 2 stop hlt) with
  | error e =>
      rw [hencoded] at hsome
      cases hsome
  | ok encoded => rw [tinyBytes_eq hencoded]

set_option maxRecDepth 100000 in
theorem pair_planned : (planWhole pairIdentity (pairContext 2) none [pairFirst]).toOption.map
    (fun planned => (planned.1.descriptors, planned.1.expectedStart)) = some ([pairDescriptor], 2) := by
  decide +kernel

/-- A tail of one chunk behind the complete one. -/
theorem pairTail_planned {stop : ℕ} (h : stop = 3 ∨ stop = 4) (hlt : 2 < stop) :
    planTail pairIdentity 2 [pairChunk 2 stop hlt] =
      .ok ([(describe (pairChunk 2 stop hlt) (tinyBytes (pairChunk 2 stop hlt)),
        tinyBytes (pairChunk 2 stop hlt))], stop) := by
  have hcomplete : requireCompleteChunk (pairChunk 2 stop hlt) pairIdentity.requiredRecords = .ok () := by
    have hfirst : Complete pairIdentity.requiredRecords pairFirst := by decide
    exact requireCompleteChunk_eq_ok.mpr hfirst
  have hsize : stop - 2 ≤ 2 := by omega
  rw [planTail]
  simp only [Pages.bind_eq_ok, require_eq_ok]
  exact ⟨(), rfl, (), ⟨hsize, fun hne => absurd rfl hne⟩, (), hcomplete, _, (pairTail_encodes h hlt).1,
    ([], stop), rfl, rfl⟩

def pairFiles : Disk :=
  (commitManifest (appendStep (beginTransaction pairIdentity (pairContext 2) none, ∅) ⟨[pairFirst], none⟩).1
    ⟨(appendStep (beginTransaction pairIdentity (pairContext 2) none, ∅) ⟨[pairFirst], none⟩).2, none⟩).2.2.files

/-- The files after the context of some tokens, and before those of more. -/
structure PairFiles (files : Disk) (k : ℕ) (chunks : List ContextChunk) : Prop where
  known : contents files ⊆ {payload | payload ∈ pairPayloads}
  served : ∃ hit m, ServedRows files pairIdentity (pairContext k) .other hit m chunks ∧ m.committedTokens = k ∧
    (m.chunks.filter fun d => d.logicalEnd ≤ 2) = [pairDescriptor]
  free : ∀ n ∈ [2, 3, 4], k < n → ∀ storageKey, files.lookup (.manifest storageKey (pairContext n)) = none
  linked : 2 < k → Linked files pairIdentity (pairContext k) [pairDescriptor]

/-- What the next call plans. -/
structure PairPlan (files : Disk) (k : ℕ) (hlt : 2 < k + 1) (hit : Hit) (m : RowManifest) (plan : ExtensionPlan) :
    Prop where
  plans : Plans files pairIdentity (pairCall k (k + 1) hlt) hit m plan
  planned : planExtension files pairIdentity (pairCall k (k + 1) hlt) = .ok plan
  base : plan.baseDescriptors = [pairDescriptor]
  tail : plan.tail = [(describe (pairChunk 2 (k + 1) hlt) (tinyBytes (pairChunk 2 (k + 1) hlt)),
    tinyBytes (pairChunk 2 (k + 1) hlt))]
  result : plan.resultTokens = k + 1
  digest : plan.resultDigest = pairContext (k + 1)

theorem PairFiles.plan {files : Disk} {k : ℕ} {chunks : List ContextChunk} (h : PairFiles files k chunks)
    (hk : k = 2 ∨ k = 3) (hlt : 2 < k + 1) : ∃ hit m plan, PairPlan files k hlt hit m plan ∧
      readChunks files pairIdentity.requiredRecords m.chunks = .ok chunks := by
  obtain ⟨hit, m, hserved, htokens, hfilter⟩ := h.served
  have hstop : k + 1 = 3 ∨ k + 1 = 4 := by omega
  have hmem : k ∈ [2, 3, 4] ∧ k + 1 ∈ [2, 3, 4] := by
    rcases hk with rfl | rfl <;> simp
  have hreused : m.committedTokens / pairIdentity.chunkTokens * pairIdentity.chunkTokens = 2 := by
    show m.committedTokens / 2 * 2 = 2
    omega
  have htail := pairTail_planned hstop hlt
  have hserved : ServedRows files pairIdentity (pairCall k (k + 1) hlt).base .perTokenRows hit m chunks :=
    hserved.exact _
  have hlast : pairChunk 2 (k + 1) hlt ∈ (pairCall k (k + 1) hlt).tail.getLast? := rfl
  have hlength : (pairChunk 2 (k + 1) hlt).logicalEnd ≤ (pairCall k (k + 1) hlt).tokens.length := by
    show k + 1 ≤ 4
    omega
  have hnamed : contextPrefixDigest (pairCall k (k + 1) hlt).tokens (pairCall k (k + 1) hlt).salt
      m.committedTokens = .ok (pairContext k) := by
    rw [htokens]
    exact pairContext_digest (by omega)
  have hresult : contextPrefixDigest pairTokens "" (k + 1) = .ok (pairContext (k + 1)) :=
    pairContext_digest (by omega)
  have hne : pairContext (k + 1) ≠ pairContext k := fun heq =>
    absurd (pairContext_inj hmem.2 hmem.1 heq) (by omega)
  obtain ⟨plan, hplan⟩ := planExtension_ok hserved rfl hlast hlength hnamed hresult hne
    (show m.committedTokens < k + 1 by omega) (by rw [hreused]; exact htail)
  obtain ⟨hit', base, hp⟩ := planExtension_eq_ok hplan
  obtain rfl := hp.base_eq hserved
  have hplanned := hp.tail
  rw [hp.reused, hreused] at hplanned
  obtain ⟨hrows, htokens⟩ := Prod.mk.inj (Except.ok.inj (hplanned.symm.trans htail))
  refine ⟨hit', base, plan, ⟨hp, hplan, ?_, hrows, htokens, ?_⟩, hserved.verified⟩
  · rw [hp.descriptors, hp.reused, hreused]
    exact hfilter
  · have hdigest := hp.result
    rw [htokens] at hdigest
    exact Except.ok.inj (hdigest.symm.trans hresult)

theorem PairPlan.segments {files : Disk} {k : ℕ} {hlt : 2 < k + 1} {hit : Hit} {m : RowManifest}
    {plan : ExtensionPlan} (h : PairPlan files k hlt hit m plan) (segments : List Bytes)
    (hchain : chainSegments plan.storageKey plan.baseDescriptors
      (segmentCount plan.baseDescriptors.length) = .ok segments) : ∀ e ∈ segments, e ∈ pairPayloads := by
  intro e he
  rw [h.base] at hchain
  have hencoded := chainSegments_few le_rfl hchain e he
  have hkey : plan.storageKey = pairKey := by
    rw [pairKey, h.plans.key]
    rfl
  have hsegment : pairSegment = e := by
    rw [pairSegment, ← hkey, hencoded]
    rfl
  rw [← hsegment]
  simp [pairPayloads]

theorem PairFiles.extend {files : Disk} {k : ℕ} {chunks : List ContextChunk} (h : PairFiles files k chunks)
    (hk : k = 2 ∨ k = 3) (hlt : 2 < k + 1) :
    ∃ receipt w, commitExtension pairIdentity (pairCall k (k + 1) hlt) ⟨files, none⟩ = (.ok receipt, w) ∧
      receipt.committedTokens = k + 1 ∧
      PairFiles w.files (k + 1) (completeChunks 2 chunks ++ [pairChunk 2 (k + 1) hlt]) := by
  obtain ⟨hit, m, plan, hpair, hchunks⟩ := h.plan hk hlt
  have hmem : k + 1 ∈ [2, 3, 4] := by
    rcases hk with rfl | rfl <;> simp
  obtain ⟨-, hsize, hknown⟩ := pairTail_encodes (show k + 1 = 3 ∨ k + 1 = 4 by omega) hlt
  obtain ⟨receipt, w, hcommit, hreceipt⟩ := hpair.plans.returns pair_injOn hpair.planned (by
      intro c hc encoded hencoded
      rw [List.mem_singleton.mp hc] at hencoded
      rw [tinyBytes_eq hencoded]
      exact ⟨hknown, hsize⟩) hpair.segments (by
      rw [hpair.digest]
      exact h.free _ hmem (by omega) _)
  rw [hpair.result] at hreceipt
  obtain ⟨plan', segments, root, hplan, hchain, hroot, hstored, hobjects, hfile, -⟩ := commitExtension_eq_ok hcommit
  obtain rfl := Except.ok.inj (hplan.symm.trans hpair.planned)
  have hadds : Adds {payload | payload ∈ pairPayloads} files w.files := by
    have hmove : Adds {payload | payload ∈ pairPayloads} files
        (commitExtension pairIdentity (pairCall k (k + 1) hlt) ⟨files, none⟩).2.files := by
      refine commitExtension_adds fun plan hplan' => ?_
      obtain rfl := Except.ok.inj (hplan'.symm.trans hpair.planned)
      refine ⟨hpair.segments, fun planned hmem => ?_⟩
      rw [hpair.tail, List.mem_singleton] at hmem
      rw [hmem]
      exact hknown
    rwa [hcommit] at hmove
  have hafter : contents w.files ⊆ {payload | payload ∈ pairPayloads} := fun payload hpayload =>
    (hadds hpayload).elim (fun hold => h.known hold) id
  have hkeep : Preserves files w.files := by
    have hgrows := commitExtension_grows pairIdentity (pairCall k (k + 1) hlt) ⟨files, none⟩
    rw [hcommit] at hgrows
    exact hgrows.preserves (pair_injOn.mono (Set.union_subset h.known hafter))
  obtain ⟨hrestored, hlinked⟩ := hpair.plans.served hkeep hchain hroot hstored hobjects hfile hchunks .other
  rw [hpair.digest] at hrestored hlinked
  rw [hpair.base] at hlinked
  refine ⟨receipt, w, hcommit, hreceipt, hafter, ⟨_, _, hrestored, hpair.result, ?_⟩, ?_, fun _ => hlinked⟩
  · rw [ExtensionPlan.rows, hpair.base, hpair.tail]
    have hfirst : pairDescriptor.logicalEnd ≤ 2 := le_rfl
    have hsecond : ¬(describe (pairChunk 2 (k + 1) hlt) (tinyBytes (pairChunk 2 (k + 1) hlt))).logicalEnd ≤ 2 := by
      show ¬k + 1 ≤ 2
      omega
    simp [hfirst, hsecond]
  · intro n hn hlarger storageKey
    rw [commitExtension_other hcommit hplan rfl]
    · exact h.free n hn (by omega) storageKey
    · intro heq
      injection heq with _ hsame
      rw [hpair.digest] at hsame
      exact absurd (pairContext_inj hn hmem hsame) (by omega)

theorem pairFiles_holds : PairFiles pairFiles 2 [pairFirst] := by
  have hplanned := pair_planned
  cases hplan : planWhole pairIdentity (pairContext 2) none [pairFirst] with
  | error e =>
      rw [hplan] at hplanned
      cases hplanned
  | ok planned =>
      obtain ⟨tx, path, encoded⟩ := planned
      rw [hplan] at hplanned
      obtain ⟨hdescriptors, hstart⟩ := Prod.mk.inj (Option.some.inj hplanned)
      have hW : ∀ chunk ∈ [pairFirst], ∀ encoded, encodeChunk chunk = .ok encoded →
          encoded ∈ ({payload | payload ∈ pairPayloads} : Set Bytes) := by
        intro chunk hchunk encoded hencoded
        rw [List.mem_singleton.mp hchunk] at hencoded
        rw [tinyBytes_eq hencoded]
        simp [pairPayloads]
      obtain ⟨key, rfl⟩ := planWhole_path hplan
      have hfresh : (∅ : Disk).lookup (.manifest key (pairContext 2)) = none := rfl
      obtain ⟨htx, tx', w, hit, all, hcommit, hsub, hserved, hadds, hother⟩ :=
        planWhole_served pair_injOn hW hplan hfresh
      have hfiles : pairFiles = w.files := by
        rw [pairFiles, htx, hcommit]
      have hall : all = [pairFirst] := by
        have hread := readChunks_eq_ok.mp hserved.verified
        have hlength := hread.length_eq
        rw [show tx.manifest.chunks = [pairDescriptor] from hdescriptors] at hlength
        obtain ⟨c, rfl⟩ := List.length_eq_one_iff.mp hlength.symm
        rw [List.mem_singleton.mp (hsub List.mem_cons_self)]
      rw [hall, ← hfiles] at hserved
      refine ⟨?_, ⟨hit, tx.manifest, hserved, hstart, ?_⟩, ?_, fun h => absurd h (lt_irrefl 2)⟩
      · rw [hfiles]
        intro payload hpayload
        exact (hadds hpayload).elim (fun ⟨_, _, hfile⟩ => by cases hfile) id
      · rw [show tx.manifest.chunks = [pairDescriptor] from hdescriptors]
        have hfirst : pairDescriptor.logicalEnd ≤ 2 := le_rfl
        simp [hfirst]
      · intro n hn hlarger storageKey
        rw [hfiles, hother _ rfl]
        · rfl
        · intro heq
          injection heq with _ hsame
          exact absurd (pairContext_inj hn (by simp) hsame) (by omega)

/-- What an extension that returns leaves behind. -/
theorem extendStep_eq_ok {i : CacheIdentity} {s : Branches} {call : ExtensionCall} {receipt : CommitReceipt}
    {w : World Path Bytes} (h : commitExtension i call ⟨s.files, call.steps⟩ = (.ok receipt, w)) :
    (extendStep i s call).files = w.files := by
  rw [extendStep_files, h]

theorem extensions_publish_pair :
    let after := branchesAfter pairIdentity ⟨pairFiles, [⟨pairContext 2, [pairFirst], none⟩]⟩ pairCalls
    (∀ n m, n ≤ m → ∀ b ∈ (after n).boundaries,
      (∀ mode, Serves (after m).files pairIdentity b.contextDigest mode b.chunks) ∧
        ∀ published ∈ b.published, Linked (after m).files pairIdentity b.contextDigest published) ∧
    (∀ n call, pairCalls[n]? = some call → ∃ receipt w,
      commitExtension pairIdentity call ⟨(after n).files, call.steps⟩ = (.ok receipt, w)) ∧
    (∃ b ∈ (after 2).boundaries, b.contextDigest = pairContext 4 ∧
      b.chunks = [pairFirst, pairChunk 2 4 (by decide)]) ∧
    Linked (after 1).files pairIdentity (pairContext 3) [pairDescriptor] ∧
    Linked (after 2).files pairIdentity (pairContext 4) [pairDescriptor] := by
  intro after
  obtain ⟨first, w₁, hfirst, htokens₁, hholds₁⟩ := pairFiles_holds.extend (Or.inl rfl) (by decide)
  obtain ⟨second, w₂, hsecond, htokens₂, hholds₂⟩ := hholds₁.extend (Or.inr rfl) (by decide)
  have hcall₁ : pairCalls[0]? = some (pairCall 2 3 (by decide)) := rfl
  have hcall₂ : pairCalls[1]? = some (pairCall 3 4 (by decide)) := rfl
  have hfiles₁ : (after 1).files = w₁.files := by
    rw [show after 1 = extendStep pairIdentity (after 0) (pairCall 2 3 _) from branchesAfter_succ _ _ hcall₁,
      extendStep_eq_ok hfirst]
  have hfiles₂ : (after 2).files = w₂.files := by
    rw [show after 2 = extendStep pairIdentity (after 1) (pairCall 3 4 _) from branchesAfter_succ _ _ hcall₂,
      extendStep_eq_ok (w := w₂) (by rw [hfiles₁]; exact hsecond)]
  have hend : ∀ n, (after (n + 2)).files = w₂.files := by
    intro n
    induction n with
    | zero => exact hfiles₂
    | succ n ih => rw [show after (n + 1 + 2) = after (n + 2) from branchesAfter_end _ _ rfl, ih]
  have hknown : runContents pairIdentity ⟨pairFiles, [⟨pairContext 2, [pairFirst], none⟩]⟩ pairCalls ⊆
      {payload | payload ∈ pairPayloads} := by
    rintro payload ⟨n, hn⟩
    obtain _ | _ | n := n
    · exact pairFiles_holds.known hn
    · exact hholds₁.known (hfiles₁ ▸ hn)
    · exact hholds₂.known (hend n ▸ hn)
  obtain ⟨hit, m, hserved, -, -⟩ := pairFiles_holds.served
  obtain ⟨hpublished, hextends⟩ := extensions_publish pairIdentity hserved.serves pairCalls
    (pair_injOn.mono hknown)
  refine ⟨hpublished, ?_, ?_, hfiles₁ ▸ hholds₁.linked (by decide), hfiles₂ ▸ hholds₂.linked (by decide)⟩
  · intro n call hcall
    obtain _ | _ | n := n
    · cases hcall
      exact ⟨first, w₁, hfirst⟩
    · cases hcall
      exact ⟨second, w₂, by rw [hfiles₁]; exact hsecond⟩
    · cases hcall
  · obtain ⟨b₁, hb₁, hdigest₁, hchunks₁, -⟩ := hextends 0 _ first w₁ hcall₁ hfirst
      ⟨pairContext 2, [pairFirst], none⟩ List.mem_cons_self rfl
    rw [htokens₁] at hdigest₁
    have hcontext₁ : b₁.contextDigest = pairContext 3 :=
      Except.ok.inj (hdigest₁.symm.trans (pairContext_digest (by decide)))
    obtain ⟨b₂, hb₂, hdigest₂, hchunks₂, -⟩ := hextends 1 _ second w₂ hcall₂ (by rw [hfiles₁]; exact hsecond)
      b₁ hb₁ hcontext₁
    rw [htokens₂] at hdigest₂
    refine ⟨b₂, hb₂, Except.ok.inj (hdigest₂.symm.trans (pairContext_digest le_rfl)), ?_⟩
    rw [hchunks₂, hchunks₁]
    rfl

end SparkCache.Store
