import SparkCache.Lib.Run
import SparkCache.Store.ShortRows

/-!
# Transactions

Chunks are published batch by batch; one manifest then makes them visible. A
transaction keeps the descriptors of the chunks, never their payloads.
-/
namespace SparkCache.Store

open Files Files.FileM Json Pages

structure CommitReceipt where
  manifestDigest : Digest
  committedTokens : ℕ
  encodedBytes : ℕ
  allocatedBytesUpperBound : ℕ

/-- `(size + 4095) // 4096 * 4096` -/
def allocated (size : ℕ) : ℕ := (size + 4095) / 4096 * 4096

inductive TransactionState where
  | isOpen
  | committed (receipt : CommitReceipt)
  | aborted

/-- `ManifestTransaction`; a span is positive. -/
structure Transaction where
  identity : CacheIdentity
  contextDigest : Digest
  spanTokens : Option ℕ
  descriptors : List ChunkDescriptor
  expectedStart : ℕ
  state : TransactionState

/-- `ManifestStore.begin` -/
def beginTransaction (identity : CacheIdentity) (contextDigest : Digest) (spanTokens : Option ℕ) :
    Transaction :=
  ⟨identity, contextDigest, spanTokens, [], 0, .isOpen⟩

/-- `_require_open` -/
def requireOpen : TransactionState → Except StoreError Unit
  | .isOpen => .ok ()
  | .committed _ => .error (.runtime "context transaction is committed")
  | .aborted => .error (.runtime "context transaction is aborted")

def requireNotAborted : TransactionState → Except StoreError Unit
  | .aborted => .error (.runtime "context transaction is aborted")
  | _ => .ok ()

/-! ## Appending -/

/-- What a batch will publish. -/
structure AppendPlan where
  pending : List ChunkDescriptor
  objects : List (Path × Bytes)
  receipts : List ChunkDescriptor
  expectedStart : ℕ

/-- A chunk of a range that the transaction does not have yet. -/
def planNewChunk (tx : Transaction) (plan : AppendPlan) (d : ChunkDescriptor) (encoded : Bytes) :
    Except StoreError AppendPlan := do
  requireOpen tx.state
  require (d.logicalStart = plan.expectedStart)
    (.value "chunk logical ranges must be contiguous from zero")
  require (∀ previous ∈ (tx.descriptors ++ plan.pending).getLast?,
      previous.logicalEnd - previous.logicalStart = tx.identity.chunkTokens)
    (.value "only the final context chunk may be partial")
  return ⟨plan.pending ++ [d], plan.objects ++ [(.chunk d.sha256, encoded)], plan.receipts ++ [d],
    d.logicalEnd⟩

/-- A chunk of a range that the transaction has: it must be the same chunk. -/
def planRepeatedChunk (plan : AppendPlan) (existing d : ChunkDescriptor) :
    Except StoreError AppendPlan := do
  require (existing.sha256 = d.sha256 ∧ existing.bytes = d.bytes)
    (.conflict "different immutable chunk already appended for logical range")
  return { plan with receipts := plan.receipts ++ [d] }

def planChunk (tx : Transaction) (plan : AppendPlan) (chunk : ContextChunk) :
    Except StoreError AppendPlan := do
  require (chunk.logicalEnd - chunk.logicalStart ≤ tx.identity.chunkTokens)
    (.value "chunk exceeds identity chunk_tokens")
  require (∀ span ∈ tx.spanTokens, chunk.logicalEnd ≤ span)
    (.value "chunk exceeds the declared context span")
  requireCompleteChunk chunk tx.identity.requiredRecords
  let encoded ← encodeChunk chunk
  let existing := (tx.descriptors ++ plan.pending).find? fun d =>
    d.logicalStart = chunk.logicalStart ∧ d.logicalEnd = chunk.logicalEnd
  match existing with
  | some existing => planRepeatedChunk plan existing (describe chunk encoded)
  | none => planNewChunk tx plan (describe chunk encoded) encoded

def planChunks (tx : Transaction) (plan : AppendPlan) : List ContextChunk → Except StoreError AppendPlan
  | [] => .ok plan
  | chunk :: rest => do
      let plan ← planChunk tx plan chunk
      planChunks tx plan rest

/-- The checks of `append_chunks` before anything is written. -/
def planAppend (tx : Transaction) (chunks : List ContextChunk) : Except StoreError AppendPlan := do
  requireNotAborted tx.state
  require (chunks ≠ []) (.value "at least one context chunk is required")
  planChunks tx ⟨[], [], [], tx.expectedStart⟩ chunks

/-- The transaction after a batch of which everything is durable. -/
def Transaction.extend (tx : Transaction) (plan : AppendPlan) : Transaction :=
  { tx with descriptors := tx.descriptors ++ plan.pending, expectedStart := plan.expectedStart }

/-- `append_chunks`: the result, the transaction and the files behind the call. -/
def appendChunks (tx : Transaction) (chunks : List ContextChunk) (w : World Path Bytes) :
    Except StoreError (List ChunkDescriptor) × Transaction × World Path Bytes :=
  match planAppend tx chunks with
  | .error e => (.error e, tx, w)
  | .ok plan =>
      match publishImmutableBatch plan.objects w with
      | (.error e, w') => (.error e, tx, w')
      | (.ok (), w') => (.ok plan.receipts, tx.extend plan, w')

/-! ## Committing -/

/-- The manifest that a commit publishes. -/
def Transaction.manifest (tx : Transaction) : RowManifest :=
  ⟨tx.identity.toWire, tx.contextDigest, tx.expectedStart, tx.descriptors⟩

/-- The checks of `commit_manifest` and the bytes that it publishes. -/
def planCommit (tx : Transaction) : Except StoreError (Path × Bytes) := do
  requireOpen tx.state
  require (tx.descriptors ≠ []) (.value "at least one context chunk is required")
  require (∀ span ∈ tx.spanTokens, tx.expectedStart = span)
    (.incomplete "transaction does not cover the declared context span")
  let encoded ← dumpCanonical tx.manifest.json
  return (.manifest (← tx.identity.view.storageKey) tx.contextDigest, encoded)

def commitReceipt (tx : Transaction) (encoded : Bytes) : CommitReceipt :=
  ⟨sha256 encoded, tx.expectedStart, encoded.length + (tx.descriptors.map (·.bytes)).sum,
    ((encoded.length :: tx.descriptors.map (·.bytes)).map allocated).sum⟩

/-- `commit_manifest`; a committed transaction only gives its receipt again. -/
def commitManifest (tx : Transaction) (w : World Path Bytes) :
    Except StoreError CommitReceipt × Transaction × World Path Bytes :=
  match tx.state with
  | .committed receipt => (.ok receipt, tx, w)
  | _ =>
      match planCommit tx with
      | .error e => (.error e, tx, w)
      | .ok (path, encoded) =>
          match publishImmutable path encoded w with
          | (.error e, w') => (.error e, tx, w')
          | (.ok (), w') =>
              (.ok (commitReceipt tx encoded),
                { tx with state := .committed (commitReceipt tx encoded) }, w')

/-! ## Calls -/

/-- A batch, and the number of changes before the file system fails, if it does. -/
structure AppendCall where
  chunks : List ContextChunk
  steps : Option ℕ

/-- A transaction and the files of its store. -/
abbrev Session := Transaction × Disk

/-- One call; whatever it raises, the caller goes on. -/
def appendStep (s : Session) (call : AppendCall) : Session :=
  let (_, tx, w) := appendChunks s.1 call.chunks ⟨s.2, call.steps⟩
  (tx, w.files)

/-- The call returns. -/
def AppendCall.Returns (s : Session) (call : AppendCall) : Prop :=
  ∃ receipts, (appendChunks s.1 call.chunks ⟨s.2, call.steps⟩).1 = .ok receipts

instance (s : Session) (call : AppendCall) : Decidable (call.Returns s) :=
  match h : (appendChunks s.1 call.chunks ⟨s.2, call.steps⟩).1 with
  | .ok receipts => isTrue ⟨receipts, h⟩
  | .error e => isFalse (by rintro ⟨receipts, hr⟩; rw [h] at hr; cases hr)

/-- The chunks of the calls that return, in order. -/
def appended (s : Session) : List AppendCall → List ContextChunk
  | [] => []
  | call :: rest =>
      (if call.Returns s then call.chunks else []) ++ appended (appendStep s call) rest

/-- The encodings of all the chunks of a run. -/
def encodings (calls : List AppendCall) : Set Bytes :=
  {encoded | ∃ call ∈ calls, ∃ chunk ∈ call.chunks, encodeChunk chunk = .ok encoded}

/-! ## Planned batches -/

/-- The descriptor is what a publisher writes down of the chunk, and the chunk is complete. -/
def Described (required : List StateRecord) (d : ChunkDescriptor) (chunk : ContextChunk) : Prop :=
  ∃ encoded, encodeChunk chunk = .ok encoded ∧ d = describe chunk encoded ∧ Complete required chunk

/-- A covered range can be continued if its last chunk is full. -/
theorem Covers.append {chunkTokens stop : ℕ} {d : ChunkDescriptor} {ds : List ChunkDescriptor} :
    ∀ {start : ℕ}, Covers chunkTokens start ds stop →
      (∀ last ∈ ds.getLast?, last.logicalEnd - last.logicalStart = chunkTokens) →
      d.logicalStart = stop → stop < d.logicalEnd → d.logicalEnd ≤ stop + chunkTokens → 0 < d.bytes →
      Covers chunkTokens start (ds ++ [d]) d.logicalEnd := by
  induction ds with
  | nil =>
      intro start h _ hstart hpos hle hbytes
      rw [Covers] at h
      subst h
      exact ⟨⟨hstart, hpos, hle, hbytes, fun hne => absurd rfl hne⟩, rfl⟩
  | cons first rest ih =>
      intro start h hlast hstart hpos hle hbytes
      obtain ⟨⟨hfirst, hfirstPos, hfirstLe, hfirstBytes, hfull⟩, hrest⟩ := h
      refine ⟨⟨hfirst, hfirstPos, hfirstLe, hfirstBytes, fun _ => ?_⟩, ?_⟩
      · by_cases hne : rest = []
        · have := hlast first (by simp [hne])
          omega
        · exact hfull hne
      · refine ih hrest (fun last hmem => hlast last ?_) hstart hpos hle hbytes
        rw [List.getLast?_cons]
        rw [Option.mem_def.mp hmem]
        rfl

theorem encodeChunk_pos {chunk : ContextChunk} {encoded : Bytes}
    (h : encodeChunk chunk = .ok encoded) : 0 < encoded.length := by
  unfold encodeChunk at h
  simp only [bind_eq_ok] at h
  obtain ⟨_, -, _, -, h⟩ := h
  cases h
  simp [chunkMagic]

theorem encodeChunk_inj {a b : ContextChunk} {encoded : Bytes} (ha : encodeChunk a = .ok encoded)
    (hb : encodeChunk b = .ok encoded) : a = b := by
  have hdecode := decodeChunk_encodeChunk ha false
  rw [decodeChunk_encodeChunk hb false] at hdecode
  cases hdecode
  rfl

/-- How one chunk changes the plan of a batch. -/
theorem planChunk_eq_ok {tx : Transaction} {plan plan' : AppendPlan} {chunk : ContextChunk}
    (h : planChunk tx plan chunk = .ok plan') :
    ∃ encoded, encodeChunk chunk = .ok encoded ∧ Complete tx.identity.requiredRecords chunk ∧
      (∀ span ∈ tx.spanTokens, chunk.logicalEnd ≤ span) ∧
      ((describe chunk encoded ∈ tx.descriptors ++ plan.pending ∧ plan'.pending = plan.pending ∧
          plan'.objects = plan.objects ∧ plan'.expectedStart = plan.expectedStart) ∨
        (chunk.logicalStart = plan.expectedStart ∧
          chunk.logicalEnd ≤ chunk.logicalStart + tx.identity.chunkTokens ∧
          (∀ last ∈ (tx.descriptors ++ plan.pending).getLast?,
            last.logicalEnd - last.logicalStart = tx.identity.chunkTokens) ∧
          plan'.pending = plan.pending ++ [describe chunk encoded] ∧
          plan'.objects = plan.objects ++ [(.chunk (sha256 encoded), encoded)] ∧
          plan'.expectedStart = chunk.logicalEnd)) := by
  unfold planChunk at h
  simp only [bind_eq_ok, require_eq_ok, requireCompleteChunk_eq_ok] at h
  obtain ⟨_, htokens, _, hwithin, _, hcomplete, encoded, hencoded, h⟩ := h
  refine ⟨encoded, hencoded, hcomplete, hwithin, ?_⟩
  split at h
  · rename_i existing hfind
    unfold planRepeatedChunk at h
    simp only [bind_eq_ok, require_eq_ok] at h
    obtain ⟨_, ⟨hdigest, hbytes⟩, h⟩ := h
    cases h
    have hrange := List.find?_some hfind
    rw [decide_eq_true_eq] at hrange
    have hsame : describe chunk encoded = existing := by
      cases existing
      simp only at hrange hdigest hbytes
      rw [hrange.1, hrange.2, hdigest, hbytes]
      rfl
    rw [hsame]
    exact Or.inl ⟨List.mem_of_find?_eq_some hfind, rfl, rfl, rfl⟩
  · unfold planNewChunk at h
    simp only [bind_eq_ok, require_eq_ok] at h
    obtain ⟨_, -, _, hstart, _, hlast, h⟩ := h
    cases h
    have hlt := chunk.ordered
    exact Or.inr ⟨hstart, by omega, hlast, rfl, rfl, rfl⟩

/-- What the plan of a batch has gathered: the descriptors and the objects of new chunks. -/
structure Planned (tx : Transaction) (plan : AppendPlan) (fresh : List ContextChunk) : Prop where
  covers : Covers tx.identity.chunkTokens 0 (tx.descriptors ++ plan.pending) plan.expectedStart
  described : List.Forall₂ (Described tx.identity.requiredRecords) plan.pending fresh
  objects : ∀ path encoded, (path, encoded) ∈ plan.objects ↔
    ∃ chunk ∈ fresh, encodeChunk chunk = .ok encoded ∧ path = .chunk (sha256 encoded)
  within : ∀ span ∈ tx.spanTokens, plan.expectedStart ≤ span

section Collision
variable {W : Set Bytes} (hinj : Set.InjOn sha256 W)
include hinj

/-- A chunk with a known descriptor is a known chunk. -/
theorem mem_of_described {required : List StateRecord} {ds : List ChunkDescriptor}
    {chunks : List ContextChunk} (h : List.Forall₂ (Described required) ds chunks)
    (hW : ∀ chunk ∈ chunks, ∀ encoded, encodeChunk chunk = .ok encoded → encoded ∈ W)
    {chunk : ContextChunk} {encoded : Bytes} (hencoded : encodeChunk chunk = .ok encoded)
    (hmem : encoded ∈ W) (hd : describe chunk encoded ∈ ds) : chunk ∈ chunks := by
  induction h with
  | nil => cases hd
  | cons hfirst _ ih =>
      rcases List.mem_cons.mp hd with hd | hd
      · obtain ⟨other, hother, heq, -⟩ := hfirst
        rw [heq] at hd
        have hdigest : sha256 encoded = sha256 other := congrArg ChunkDescriptor.sha256 hd
        have hsame := hinj hmem (hW _ List.mem_cons_self _ hother) hdigest
        rw [← hsame] at hother
        rw [encodeChunk_inj hencoded hother]
        exact List.mem_cons_self
      · exact List.mem_cons_of_mem _ (ih (fun c hc => hW c (List.mem_cons_of_mem _ hc)) hd)

theorem Planned.step {tx : Transaction} {plan plan' : AppendPlan} {old fresh : List ContextChunk}
    {chunk : ContextChunk} (hplan : Planned tx plan fresh)
    (hold : List.Forall₂ (Described tx.identity.requiredRecords) tx.descriptors old)
    (hW : ∀ c ∈ chunk :: (old ++ fresh), ∀ encoded, encodeChunk c = .ok encoded → encoded ∈ W)
    (h : planChunk tx plan chunk = .ok plan') :
    ∃ more, Planned tx plan' (fresh ++ more) ∧ more ⊆ [chunk] ∧ chunk ∈ old ++ (fresh ++ more) := by
  obtain ⟨encoded, hencoded, hcomplete, hwithin, hcases⟩ := planChunk_eq_ok h
  rcases hcases with ⟨hknown, hpending, hobjects, hstart⟩ |
    ⟨hrange, hle, hlast, hpending, hobjects, hstart⟩
  · refine ⟨[], ⟨?_, ?_, ?_, hstart ▸ hplan.within⟩, by simp, ?_⟩
    · rw [hpending, hstart]
      exact hplan.covers
    · rw [hpending, List.append_nil]
      exact hplan.described
    · rw [hobjects, List.append_nil]
      exact hplan.objects
    · rw [List.append_nil]
      exact mem_of_described hinj (List.rel_append hold hplan.described)
        (fun c hc => hW c (List.mem_cons_of_mem _ hc)) hencoded (hW _ List.mem_cons_self _ hencoded) hknown
  · refine ⟨[chunk], ⟨?_, ?_, ?_, hstart ▸ hwithin⟩, by simp, by simp⟩
    · rw [hpending, hstart, ← List.append_assoc]
      have hlt := chunk.ordered
      exact hplan.covers.append hlast hrange (hrange ▸ hlt) (hrange ▸ hle) (encodeChunk_pos hencoded)
    · rw [hpending]
      exact List.rel_append hplan.described (.cons ⟨encoded, hencoded, rfl, hcomplete⟩ .nil)
    · intro path bytes
      rw [hobjects, List.mem_append, hplan.objects, List.mem_singleton]
      constructor
      · rintro (⟨c, hc, hbytes, hpath⟩ | heq)
        · exact ⟨c, List.mem_append_left _ hc, hbytes, hpath⟩
        · obtain ⟨rfl, rfl⟩ := Prod.mk.inj heq
          exact ⟨chunk, by simp, hencoded, rfl⟩
      · rintro ⟨c, hc, hbytes, hpath⟩
        rcases List.mem_append.mp hc with hc | hc
        · exact Or.inl ⟨c, hc, hbytes, hpath⟩
        · rw [List.mem_singleton.mp hc, hencoded] at hbytes
          cases hbytes
          exact Or.inr (by rw [hpath])

theorem Planned.run {tx : Transaction} {old : List ContextChunk}
    (hold : List.Forall₂ (Described tx.identity.requiredRecords) tx.descriptors old)
    (batch : List ContextChunk) :
    ∀ {plan plan' : AppendPlan} {fresh : List ContextChunk}, Planned tx plan fresh →
      (∀ c ∈ batch ++ (old ++ fresh), ∀ encoded, encodeChunk c = .ok encoded → encoded ∈ W) →
      planChunks tx plan batch = .ok plan' →
      ∃ more, Planned tx plan' (fresh ++ more) ∧ more ⊆ batch ∧ batch ⊆ old ++ (fresh ++ more) := by
  induction batch with
  | nil =>
      intro plan plan' fresh hplan _ h
      cases h
      exact ⟨[], by simpa using hplan, by simp, by simp⟩
  | cons chunk rest ih =>
      intro plan plan' fresh hplan hW h
      rw [planChunks, bind_eq_ok] at h
      obtain ⟨middle, hmiddle, h⟩ := h
      have hWfirst : ∀ c ∈ chunk :: (old ++ fresh), ∀ encoded,
          encodeChunk c = .ok encoded → encoded ∈ W := by
        intro c hc
        refine hW c ?_
        rcases List.mem_cons.mp hc with rfl | hc
        · simp
        · exact List.mem_append_right _ hc
      obtain ⟨more, hmore, hsub, hmem⟩ := hplan.step hinj hold hWfirst hmiddle
      have hWrest : ∀ c ∈ rest ++ (old ++ (fresh ++ more)), ∀ encoded,
          encodeChunk c = .ok encoded → encoded ∈ W := by
        intro c hc
        refine hW c ?_
        have hone : c ∈ more → c = chunk := fun hmem => by simpa using hsub hmem
        simp only [List.mem_append, List.mem_cons] at hc ⊢
        tauto
      obtain ⟨tail, htail, hsubTail, hall⟩ := ih hmore hWrest h
      refine ⟨more ++ tail, by rwa [← List.append_assoc], ?_, ?_⟩
      · intro c hc
        rcases List.mem_append.mp hc with hc | hc
        · exact List.mem_cons.mpr (Or.inl (by simpa using hsub hc))
        · exact List.mem_cons_of_mem _ (hsubTail hc)
      · intro c hc
        rcases List.mem_cons.mp hc with rfl | hc
        · simp only [List.mem_append] at hmem ⊢
          tauto
        · rw [← List.append_assoc fresh]
          exact hall hc

end Collision

/-! ## Runs -/

/-- The chunks follow each other from one token to another. -/
def ContiguousChunks : ℕ → List ContextChunk → ℕ → Prop
  | start, [], stop => stop = start
  | start, chunk :: rest, stop =>
      chunk.logicalStart = start ∧ ContiguousChunks chunk.logicalEnd rest stop

theorem ContiguousChunks.unique {chunks : List ContextChunk} :
    ∀ {start stop stop' : ℕ}, ContiguousChunks start chunks stop → ContiguousChunks start chunks stop' →
      stop = stop' := by
  induction chunks with
  | nil => exact fun h h' => h.trans h'.symm
  | cons chunk rest ih => exact fun h h' => ih h.2 h'.2

theorem Covers.contiguous {chunkTokens stop : ℕ} {required : List StateRecord}
    {ds : List ChunkDescriptor} {chunks : List ContextChunk}
    (h : List.Forall₂ (Described required) ds chunks) :
    ∀ {start : ℕ}, Covers chunkTokens start ds stop → ContiguousChunks start chunks stop := by
  induction h with
  | nil => exact fun h => h
  | cons hfirst _ ih =>
      intro start hcovers
      obtain ⟨encoded, -, rfl, -⟩ := hfirst
      exact ⟨hcovers.1.1, ih hcovers.2⟩

/-- What holds of a session whose calls that returned have brought in the chunks. -/
structure Session.Holds (start : Transaction) (W : Set Bytes) (s : Session)
    (chunks : List ContextChunk) : Prop where
  same : s.1 = { start with descriptors := s.1.descriptors, expectedStart := s.1.expectedStart }
  covers : Covers start.identity.chunkTokens 0 s.1.descriptors s.1.expectedStart
  described : List.Forall₂ (Described start.identity.requiredRecords) s.1.descriptors chunks
  known : ∀ chunk ∈ chunks, ∀ encoded, encodeChunk chunk = .ok encoded → encoded ∈ W
  stored : ∀ chunk ∈ chunks, ∀ encoded, encodeChunk chunk = .ok encoded →
    s.2.lookup (.chunk (sha256 encoded)) = some encoded
  within : ∀ span ∈ start.spanTokens, s.1.expectedStart ≤ span

/-- Only chunk files are written before the commit. -/
theorem appendStep_root {s : Session} {call : AppendCall} {p : Path} (hp : p.isRoot = true)
    (hplan : ∀ plan, planAppend s.1 call.chunks = .ok plan → ∀ o ∈ plan.objects, o.1.isRoot = false) :
    (appendStep s call).2.lookup p = s.2.lookup p := by
  unfold appendStep appendChunks
  cases hresult : planAppend s.1 call.chunks with
  | error e => rfl
  | ok plan =>
      have hfix : Moves (Fixes p) (publishImmutableBatch plan.objects) := by
        apply publishImmutableBatch_fixes
        rintro o ho rfl
        rw [hplan plan hresult o ho] at hp
        cases hp
      have hmove := hfix ⟨s.2, call.steps⟩
      cases hpublish : publishImmutableBatch plan.objects ⟨s.2, call.steps⟩ with
      | mk r w =>
          rw [hpublish] at hmove
          cases r with
          | error e =>
              simp only [hpublish]
              exact hmove
          | ok u =>
              simp only [hpublish]
              exact hmove

/-- What is published are the encodings of the chunks of the batch. -/
theorem planChunks_objects {tx : Transaction} (batch : List ContextChunk) :
    ∀ {plan plan' : AppendPlan}, planChunks tx plan batch = .ok plan' → ∀ o ∈ plan'.objects,
      o ∈ plan.objects ∨ ∃ chunk ∈ batch, ∃ encoded, encodeChunk chunk = .ok encoded ∧
        o = (.chunk (sha256 encoded), encoded) := by
  induction batch with
  | nil =>
      intro plan plan' h o ho
      cases h
      exact Or.inl ho
  | cons chunk rest ih =>
      intro plan plan' h o ho
      rw [planChunks, bind_eq_ok] at h
      obtain ⟨middle, hmiddle, h⟩ := h
      obtain ⟨encoded, hencoded, -, -, hobjects⟩ := planChunk_eq_ok hmiddle
      rcases ih h o ho with hold | ⟨c, hc, hnew⟩
      · rcases hobjects with ⟨-, -, heq, -⟩ | ⟨-, -, -, -, heq, -⟩
        · exact Or.inl (heq ▸ hold)
        · rw [heq] at hold
          refine (List.mem_append.mp hold).imp_right fun hlast => ?_
          exact ⟨chunk, List.mem_cons_self, encoded, hencoded, List.mem_singleton.mp hlast⟩
      · exact Or.inr ⟨c, List.mem_cons_of_mem _ hc, hnew⟩

theorem planAppend_eq_ok {tx : Transaction} {batch : List ContextChunk} {plan : AppendPlan}
    (h : planAppend tx batch = .ok plan) :
    planChunks tx ⟨[], [], [], tx.expectedStart⟩ batch = .ok plan := by
  unfold planAppend at h
  simp only [bind_eq_ok] at h
  obtain ⟨_, -, _, -, h⟩ := h
  exact h

theorem planAppend_encodings {tx : Transaction} {batch : List ContextChunk} {plan : AppendPlan}
    (h : planAppend tx batch = .ok plan) : ∀ o ∈ plan.objects, ∃ chunk ∈ batch, ∃ encoded,
      encodeChunk chunk = .ok encoded ∧ o = (.chunk (sha256 encoded), encoded) := by
  intro o ho
  exact (planChunks_objects batch (planAppend_eq_ok h) o ho).resolve_left (by simp)

theorem planAppend_objects {tx : Transaction} {batch : List ContextChunk} {plan : AppendPlan}
    (h : planAppend tx batch = .ok plan) : ∀ o ∈ plan.objects, o.1.isRoot = false := by
  intro o ho
  obtain ⟨_, -, encoded, -, rfl⟩ := planAppend_encodings h o ho
  rfl

section Collision
variable {W : Set Bytes} (hinj : Set.InjOn sha256 W)
include hinj

theorem Session.Holds.step {start : Transaction} {s : Session} {chunks : List ContextChunk}
    (h : Session.Holds start W s chunks) {call : AppendCall}
    (hW : ∀ c ∈ call.chunks, ∀ encoded, encodeChunk c = .ok encoded → encoded ∈ W) :
    ∃ more, Session.Holds start W (appendStep s call) (chunks ++ more) ∧ more ⊆ call.chunks ∧
      (call.Returns s → call.chunks ⊆ chunks ++ more) ∧ (¬call.Returns s → more = []) := by
  have hidentity : s.1.identity = start.identity := by rw [h.same]
  have hspan : s.1.spanTokens = start.spanTokens := by rw [h.same]
  cases hresult : planAppend s.1 call.chunks with
  | error e =>
      have hstep : appendStep s call = s := by
        unfold appendStep appendChunks
        rw [hresult]
      refine ⟨[], by rw [hstep, List.append_nil]; exact h, by simp, ?_, fun _ => rfl⟩
      rintro ⟨receipts, hreceipts⟩
      unfold appendChunks at hreceipts
      rw [hresult] at hreceipts
      cases hreceipts
  | ok plan =>
      have hstart : Planned s.1 ⟨[], [], [], s.1.expectedStart⟩ [] := by
        refine ⟨?_, .nil, by simp, hspan ▸ h.within⟩
        rw [List.append_nil, hidentity]
        exact h.covers
      have hold : List.Forall₂ (Described s.1.identity.requiredRecords) s.1.descriptors chunks := by
        rw [hidentity]
        exact h.described
      have hWall : ∀ c ∈ call.chunks ++ (chunks ++ []), ∀ encoded,
          encodeChunk c = .ok encoded → encoded ∈ W := by
        intro c hc
        rw [List.append_nil] at hc
        rcases List.mem_append.mp hc with hc | hc
        · exact hW c hc
        · exact h.known c hc
      obtain ⟨more, hplan, hsub, hall⟩ := hstart.run hinj hold call.chunks hWall (planAppend_eq_ok hresult)
      rw [List.nil_append] at hplan hall
      -- A file that holds a known encoding keeps it, whatever the batch does.
      have hkeeps : ∀ encoded ∈ W, Moves (Keeps (.chunk (sha256 encoded)) encoded)
          (publishImmutableBatch plan.objects) := by
        intro encoded hencoded
        apply publishImmutableBatch_keeps
        rintro ⟨path, bytes⟩ ho hpath -
        obtain ⟨c, hc, hbytes, rfl⟩ := (hplan.objects _ _).mp ho
        have hdigest : sha256 bytes = sha256 encoded := by simpa using hpath
        exact hinj (hW c (hsub hc) bytes hbytes) hencoded hdigest
      cases hpublish : publishImmutableBatch plan.objects ⟨s.2, call.steps⟩ with
      | mk r w =>
          have hstored : ∀ c ∈ chunks, ∀ encoded, encodeChunk c = .ok encoded →
              w.files.lookup (.chunk (sha256 encoded)) = some encoded := by
            intro c hc encoded hencoded
            have hmove := hkeeps encoded (h.known c hc encoded hencoded) ⟨s.2, call.steps⟩
            rw [hpublish] at hmove
            exact hmove (h.stored c hc encoded hencoded)
          cases r with
          | error e =>
              have hstep : appendStep s call = (s.1, w.files) := by
                unfold appendStep appendChunks
                simp only [hresult, hpublish]
              have hraises : ¬call.Returns s := by
                rintro ⟨receipts, hreceipts⟩
                unfold appendChunks at hreceipts
                simp only [hresult, hpublish] at hreceipts
                cases hreceipts
              refine ⟨[], ?_, by simp, fun hreturns => absurd hreturns hraises, fun _ => rfl⟩
              rw [hstep, List.append_nil]
              exact ⟨h.same, h.covers, h.described, h.known, hstored, h.within⟩
          | ok u =>
              have hstep : appendStep s call = (s.1.extend plan, w.files) := by
                unfold appendStep appendChunks
                simp only [hresult, hpublish]
              have hreturns : call.Returns s := by
                refine ⟨plan.receipts, ?_⟩
                unfold appendChunks
                simp only [hresult, hpublish]
              refine ⟨more, ?_, hsub, fun _ => hall, fun hraises => absurd hreturns hraises⟩
              rw [hstep]
              refine ⟨?_, ?_, List.rel_append h.described (hidentity ▸ hplan.described), ?_, ?_, hspan ▸ hplan.within⟩
              · rw [Transaction.extend, h.same]
              · rw [← hidentity]
                exact hplan.covers
              · intro c hc
                rcases List.mem_append.mp hc with hc | hc
                · exact h.known c hc
                · exact hW c (hsub hc)
              · intro c hc encoded hencoded
                rcases List.mem_append.mp hc with hc | hc
                · exact hstored c hc encoded hencoded
                · exact (publishImmutableBatch_eq_ok hpublish).1 (.chunk (sha256 encoded), encoded)
                    ((hplan.objects _ _).mpr ⟨c, hc, hencoded, rfl⟩)

/-- The session after a run holds exactly the chunks of the calls that returned. -/
theorem Session.Holds.run {start : Transaction} (calls : List AppendCall) :
    ∀ {s : Session} {chunks : List ContextChunk}, Session.Holds start W s chunks →
      (∀ call ∈ calls, ∀ c ∈ call.chunks, ∀ encoded, encodeChunk c = .ok encoded → encoded ∈ W) →
      ∃ all, Session.Holds start W (Run.exec appendStep s calls) all ∧
        ∀ c, c ∈ all ↔ c ∈ chunks ∨ c ∈ appended s calls := by
  induction calls with
  | nil =>
      intro s chunks h _
      exact ⟨chunks, h, by simp [appended]⟩
  | cons call rest ih =>
      intro s chunks h hW
      obtain ⟨more, hstep, hsub, hreturns, hraises⟩ := h.step hinj (hW call List.mem_cons_self)
      obtain ⟨all, hall, hmem⟩ := ih hstep fun call' hcall => hW call' (List.mem_cons_of_mem _ hcall)
      refine ⟨all, hall, fun c => ?_⟩
      rw [hmem, appended, List.mem_append, List.mem_append]
      by_cases hcall : call.Returns s
      · rw [if_pos hcall]
        have hforward : c ∈ call.chunks → c ∈ chunks ∨ c ∈ more := fun hc => by
          simpa using hreturns hcall hc
        have hback : c ∈ more → c ∈ call.chunks := fun hc => hsub hc
        tauto
      · rw [if_neg hcall, hraises hcall]
        simp

end Collision

/-! ## Publication -/

theorem Session.holds_begin (i : CacheIdentity) (contextDigest : Digest) (span : Option ℕ)
    (files : Disk) (W : Set Bytes) :
    Session.Holds (beginTransaction i contextDigest span) W
      (beginTransaction i contextDigest span, files) [] :=
  ⟨rfl, rfl, .nil, by simp, by simp, fun _ _ => Nat.zero_le _⟩

theorem run_root {p : Path} (hp : p.isRoot = true) (calls : List AppendCall) :
    ∀ s : Session, (Run.exec appendStep s calls).2.lookup p = s.2.lookup p := by
  induction calls with
  | nil => exact fun _ => rfl
  | cons call rest ih =>
      intro s
      rw [Run.exec_cons, ih]
      exact appendStep_root hp fun plan hplan => planAppend_objects hplan

theorem run_unpublished {i : IdentityView} {contextDigest : Digest} {s : Session}
    (h : Unpublished s.2 i contextDigest) (calls : List AppendCall) :
    Unpublished (Run.exec appendStep s calls).2 i contextDigest := by
  intro storageKey hkey
  rw [run_root rfl, run_root rfl]
  exact h storageKey hkey

theorem planCommit_eq_ok {tx : Transaction} {path : Path} {encoded : Bytes} :
    planCommit tx = .ok (path, encoded) ↔
      requireOpen tx.state = .ok () ∧ tx.descriptors ≠ [] ∧
        (∀ span ∈ tx.spanTokens, tx.expectedStart = span) ∧
        dumpCanonical tx.manifest.json = .ok encoded ∧
        ∃ storageKey, tx.identity.view.storageKey = .ok storageKey ∧
          path = .manifest storageKey tx.contextDigest := by
  unfold planCommit
  simp only [bind_eq_ok, require_eq_ok]
  constructor
  · rintro ⟨_, hopen, _, hne, _, hspan, bytes, hbytes, storageKey, hkey, heq⟩
    cases heq
    exact ⟨hopen, hne, hspan, hbytes, storageKey, hkey, rfl⟩
  · rintro ⟨hopen, hne, hspan, hbytes, storageKey, hkey, rfl⟩
    exact ⟨(), hopen, (), hne, (), hspan, encoded, hbytes, storageKey, hkey, rfl⟩

theorem commitManifest_eq_ok {tx tx' : Transaction} {receipt : CommitReceipt}
    {w w' : World Path Bytes} (hopen : tx.state = .isOpen)
    (h : commitManifest tx w = (.ok receipt, tx', w')) :
    ∃ path encoded, planCommit tx = .ok (path, encoded) ∧ receipt = commitReceipt tx encoded ∧
      publishImmutable path encoded w = (.ok (), w') := by
  unfold commitManifest at h
  simp only [hopen] at h
  cases hplan : planCommit tx with
  | error e => simp [hplan] at h
  | ok planned =>
      obtain ⟨path, encoded⟩ := planned
      refine ⟨path, encoded, rfl, ?_⟩
      cases hpublish : publishImmutable path encoded w with
      | mk r w₁ =>
          simp only [hplan, hpublish] at h
          cases r with
          | error e => simp at h
          | ok u =>
              obtain ⟨hreceipt, h⟩ := Prod.mk.inj h
              obtain ⟨-, rfl⟩ := Prod.mk.inj h
              exact ⟨(Except.ok.inj hreceipt).symm, rfl⟩

/-- A commit whose checks pass returns, if the file system works and nothing else has been
published under the key. -/
theorem commitManifest_sound {tx : Transaction} {path : Path} {encoded : Bytes} {files : Disk}
    (hopen : tx.state = .isOpen) (hplan : planCommit tx = .ok (path, encoded))
    (hfresh : files.lookup path = none) :
    ∃ tx' w', commitManifest tx ⟨files, none⟩ = (.ok (commitReceipt tx encoded), tx', w') := by
  have hpath : files.lookup path = none ∨ files.lookup path = some encoded := Or.inl hfresh
  obtain ⟨files', hpublish⟩ := publishImmutable_sound hpath
  refine ⟨{ tx with state := .committed (commitReceipt tx encoded) }, ⟨files', none⟩, ?_⟩
  unfold commitManifest
  simp only [hopen, hplan, hpublish]

/-- A batch whose checks pass is appended, if the file system works. -/
theorem appendChunks_sound {W : Set Bytes} (hinj : Set.InjOn sha256 W) {tx : Transaction} {chunks : List ContextChunk}
    {plan : AppendPlan} (hW : ∀ chunk ∈ chunks, ∀ encoded, encodeChunk chunk = .ok encoded → encoded ∈ W)
    (hplan : planAppend tx chunks = .ok plan) (files : Disk) :
    ∃ files', appendChunks tx chunks ⟨files, none⟩ = (.ok plan.receipts, tx.extend plan, ⟨files', none⟩) := by
  have hobjects : ∀ o ∈ plan.objects, ∃ encoded ∈ W, o = (.chunk (sha256 encoded), encoded) := by
    intro o ho
    obtain ⟨chunk, hchunk, encoded, hencoded, rfl⟩ := planAppend_encodings hplan o ho
    exact ⟨encoded, hW chunk hchunk encoded hencoded, rfl⟩
  obtain ⟨files', hpublish⟩ :=
    publishPlaced_sound hinj (fun e => .chunk (sha256 e)) (fun _ _ => rfl) (fun _ => rfl) hobjects files
  refine ⟨files', ?_⟩
  unfold appendChunks
  simp only [hplan, hpublish]

theorem ContiguousChunks.end_le {chunks : List ContextChunk} :
    ∀ {start stop : ℕ}, ContiguousChunks start chunks stop → ∀ c ∈ chunks, c.logicalEnd ≤ stop := by
  induction chunks with
  | nil => exact fun _ c hc => absurd hc List.not_mem_nil
  | cons chunk rest ih =>
      intro start stop h c hc
      rcases List.mem_cons.mp hc with rfl | hc
      · cases rest with
        | nil => exact (show stop = c.logicalEnd from h.2).ge
        | cons next rest =>
            have hnext := ih h.2 next List.mem_cons_self
            have hordered := next.ordered
            have hstart := h.2.1
            omega
      · exact ih h.2 c hc

theorem described_short {required : List StateRecord} {ds : List ChunkDescriptor} {chunks : List ContextChunk}
    (h : List.Forall₂ (Described required) ds chunks)
    (hsize : ∀ c ∈ chunks, ∀ encoded, encodeChunk c = .ok encoded → encoded.length < 10 ^ maxIntDigits) :
    ∀ d ∈ ds, d.Short := by
  induction h with
  | nil => exact fun d hd => absurd hd List.not_mem_nil
  | cons hfirst _ ih =>
      rw [List.forall_mem_cons] at hsize ⊢
      obtain ⟨encoded, hencoded, rfl, -⟩ := hfirst
      exact ⟨describe_short hencoded (hsize.1 encoded hencoded), ih hsize.2⟩

/-- Chunks that cover the span pass the checks of a commit. -/
theorem Session.Holds.commits {start : Transaction} {W : Set Bytes} {s : Session} {chunks : List ContextChunk}
    (h : Session.Holds start W s chunks) (hopen : start.state = .isOpen) {storageKey : Digest}
    (hkey : start.identity.view.storageKey = .ok storageKey) (hne : chunks ≠ [])
    (hsize : ∀ c ∈ chunks, ∀ encoded, encodeChunk c = .ok encoded → encoded.length < 10 ^ maxIntDigits)
    (hcover : ∀ tokens ∈ start.spanTokens, ∃ c ∈ chunks, tokens ≤ c.logicalEnd) :
    ∃ encoded, planCommit s.1 = .ok (.manifest storageKey start.contextDigest, encoded) := by
  have hstate : s.1.state = start.state := by rw [h.same]
  have hidentity : s.1.identity = start.identity := by rw [h.same]
  have hspan : s.1.spanTokens = start.spanTokens := by rw [h.same]
  have hcontext : s.1.contextDigest = start.contextDigest := by rw [h.same]
  have hdescriptors : s.1.descriptors ≠ [] := by
    intro hnil
    have hdescribed := h.described
    rw [hnil] at hdescribed
    cases hdescribed
    exact hne rfl
  have hshort := described_short h.described hsize
  obtain ⟨encoded, hencoded⟩ := dumpCanonical_manifest hkey start.contextDigest h.covers hshort hdescriptors
  refine ⟨encoded, planCommit_eq_ok.mpr ⟨?_, hdescriptors, fun tokens htokens => ?_, ?_, storageKey, ?_, ?_⟩⟩
  · rw [hstate, hopen]
    rfl
  · rw [hspan] at htokens
    obtain ⟨c, hc, hreaches⟩ := hcover tokens htokens
    have hend := (h.covers.contiguous h.described).end_le c hc
    exact le_antisymm (h.within tokens htokens) (hreaches.trans hend)
  · rw [Transaction.manifest, hidentity, hcontext]
    exact hencoded
  · rw [hidentity]
    exact hkey
  · rw [hcontext]

theorem readChunks_described {files : Disk} {required : List StateRecord}
    {ds : List ChunkDescriptor} {chunks : List ContextChunk}
    (h : List.Forall₂ (Described required) ds chunks)
    (hstored : ∀ chunk ∈ chunks, ∀ encoded, encodeChunk chunk = .ok encoded →
      files.lookup (.chunk (sha256 encoded)) = some encoded) :
    readChunks files required ds = .ok chunks := by
  rw [readChunks_eq_ok]
  induction h with
  | nil => exact .nil
  | cons hfirst _ ih =>
      refine .cons ?_ (ih fun c hc => hstored c (List.mem_cons_of_mem _ hc))
      obtain ⟨encoded, hencoded, rfl, hcomplete⟩ := hfirst
      exact readChunk_describe hencoded hcomplete (hstored _ List.mem_cons_self _ hencoded)

/-- A transaction is served as soon as its manifest is there, by the rows of that manifest. -/
theorem Session.Holds.served {start : Transaction} {W : Set Bytes} {s : Session}
    {chunks : List ContextChunk} (h : Session.Holds start W s chunks) {path : Path} {encoded : Bytes}
    {files : Disk} (hplan : planCommit s.1 = .ok (path, encoded)) (hroot : files.lookup path = some encoded)
    (hsame : ∀ p, p.isRoot = false → files.lookup p = s.2.lookup p) (mode : StorageMode) :
    ServedRows files start.identity start.contextDigest mode ⟨sha256 encoded, .rows s.1.manifest, .manifest⟩
      s.1.manifest chunks := by
  have hidentity : s.1.identity = start.identity := by rw [h.same]
  have hcontext : s.1.contextDigest = start.contextDigest := by rw [h.same]
  have hmanifest : s.1.manifest =
      ⟨start.identity.toWire, start.contextDigest, s.1.expectedStart, s.1.descriptors⟩ := by
    rw [Transaction.manifest, hidentity, hcontext]
  obtain ⟨-, hne, -, hdump, storageKey, hkey, rfl⟩ := planCommit_eq_ok.mp hplan
  rw [hmanifest] at hdump ⊢
  rw [hidentity] at hkey
  rw [hcontext] at hroot
  have hload := ((manifestJson_plain start.identity.toWire_plain _ _ _).loads
    (dumpCanonical_eq_ok.mp hdump)).2.2
  refine ServedRows.of_rows hkey hroot hload (readRoot_rows start.identity hkey h.covers hne) rfl ?_
  apply readChunks_described h.described
  intro chunk hchunk bytes hbytes
  rw [hsame _ rfl]
  exact h.stored chunk hchunk bytes hbytes

theorem Session.Holds.serves_of_root {start : Transaction} {W : Set Bytes} {s : Session}
    {chunks : List ContextChunk} (h : Session.Holds start W s chunks) {path : Path} {encoded : Bytes}
    {files : Disk} (hplan : planCommit s.1 = .ok (path, encoded)) (hroot : files.lookup path = some encoded)
    (hsame : ∀ p, p.isRoot = false → files.lookup p = s.2.lookup p) (mode : StorageMode) :
    Serves files start.identity start.contextDigest mode chunks :=
  (h.served hplan hroot hsame mode).serves

/-- A committed transaction is served. -/
theorem Session.Holds.serves {start : Transaction} {W : Set Bytes} {s : Session}
    {chunks : List ContextChunk} (h : Session.Holds start W s chunks) {path : Path} {encoded : Bytes}
    {w w' : World Path Bytes} (hfiles : w.files = s.2) (hplan : planCommit s.1 = .ok (path, encoded))
    (hpublish : publishImmutable path encoded w = (.ok (), w')) (mode : StorageMode) :
    Serves w'.files start.identity start.contextDigest mode chunks := by
  obtain ⟨-, -, -, -, storageKey, -, hpath⟩ := planCommit_eq_ok.mp hplan
  obtain ⟨hroot, hsame, -⟩ := publishImmutable_eq_ok hpublish
  refine h.serves_of_root hplan hroot (fun p hp => ?_) mode
  rw [hsame p ?_, hfiles]
  rintro rfl
  rw [hpath] at hp
  cases hp

theorem appendStep_adds {payloads : Set Bytes} (s : Session) {call : AppendCall}
    (h : ∀ chunk ∈ call.chunks, ∀ encoded, encodeChunk chunk = .ok encoded → encoded ∈ payloads) :
    Adds payloads s.2 (appendStep s call).2 := by
  unfold appendStep appendChunks
  cases hplan : planAppend s.1 call.chunks with
  | error e => exact Adds.refl _ _
  | ok plan =>
      have hobjects : ∀ o ∈ plan.objects, o.2 ∈ payloads := by
        intro o ho
        obtain ⟨chunk, hchunk, encoded, hencoded, rfl⟩ := planAppend_encodings hplan o ho
        exact h chunk hchunk encoded hencoded
      have hmove := publishImmutableBatch_adds hobjects ⟨s.2, call.steps⟩
      cases hpublish : publishImmutableBatch plan.objects ⟨s.2, call.steps⟩ with
      | mk r w =>
          rw [hpublish] at hmove
          cases r with
          | error e =>
              simp only [hpublish]
              exact hmove
          | ok u =>
              simp only [hpublish]
              exact hmove

/-- A batch into a new transaction, and the file of its commit. -/
def planWhole (i : CacheIdentity) (contextDigest : Digest) (span : Option ℕ) (chunks : List ContextChunk) :
    Except StoreError (Transaction × Path × Bytes) := do
  let tx := (beginTransaction i contextDigest span).extend
    (← planAppend (beginTransaction i contextDigest span) chunks)
  return (tx, ← planCommit tx)

theorem planWhole_eq_ok {i : CacheIdentity} {contextDigest : Digest} {span : Option ℕ}
    {chunks : List ContextChunk} {tx : Transaction} {path : Path} {encoded : Bytes}
    (h : planWhole i contextDigest span chunks = .ok (tx, path, encoded)) :
    ∃ plan, planAppend (beginTransaction i contextDigest span) chunks = .ok plan ∧
      tx = (beginTransaction i contextDigest span).extend plan ∧ planCommit tx = .ok (path, encoded) := by
  unfold planWhole at h
  simp only [bind_eq_ok] at h
  obtain ⟨plan, hplan, planned, hcommit, heq⟩ := h
  cases heq
  exact ⟨plan, hplan, rfl, hcommit⟩

theorem planWhole_path {i : CacheIdentity} {contextDigest : Digest} {span : Option ℕ}
    {chunks : List ContextChunk} {tx : Transaction} {path : Path} {encoded : Bytes}
    (h : planWhole i contextDigest span chunks = .ok (tx, path, encoded)) :
    ∃ storageKey, path = .manifest storageKey contextDigest := by
  obtain ⟨plan, -, rfl, hcommit⟩ := planWhole_eq_ok h
  obtain ⟨-, -, -, -, storageKey, -, rfl⟩ := planCommit_eq_ok.mp hcommit
  exact ⟨storageKey, rfl⟩

/-- A batch whose checks pass is appended and committed under a fresh key, and is served by its rows. -/
theorem planWhole_served {W : Set Bytes} (hinj : Set.InjOn sha256 W) {i : CacheIdentity}
    {contextDigest : Digest} {span : Option ℕ} {chunks : List ContextChunk} {tx : Transaction} {path : Path}
    {encoded : Bytes} {files : Disk}
    (hW : ∀ chunk ∈ chunks, ∀ encoded, encodeChunk chunk = .ok encoded → encoded ∈ W)
    (hplan : planWhole i contextDigest span chunks = .ok (tx, path, encoded))
    (hfresh : files.lookup path = none) :
    (appendStep (beginTransaction i contextDigest span, files) ⟨chunks, none⟩).1 = tx ∧
      ∃ tx' w' h all, commitManifest tx
          ⟨(appendStep (beginTransaction i contextDigest span, files) ⟨chunks, none⟩).2, none⟩ =
            (.ok (commitReceipt tx encoded), tx', w') ∧ all ⊆ chunks ∧
        ServedRows w'.files i contextDigest .other h tx.manifest all ∧ Adds W files w'.files ∧
        ∀ p, p.isRoot = true → p ≠ path → w'.files.lookup p = files.lookup p := by
  obtain ⟨plan, hbatch, rfl, hcommit⟩ := planWhole_eq_ok hplan
  obtain ⟨files', happend⟩ := appendChunks_sound hinj hW hbatch files
  have hstep : appendStep (beginTransaction i contextDigest span, files) ⟨chunks, none⟩ =
      ((beginTransaction i contextDigest span).extend plan, files') := by
    unfold appendStep
    rw [happend]
  have hcall : ∀ c ∈ (AppendCall.mk chunks none).chunks, ∀ encoded, encodeChunk c = .ok encoded → encoded ∈ W :=
    hW
  obtain ⟨all, hholds, hsub, -⟩ := (Session.holds_begin i contextDigest span files W).step hinj hcall
  rw [hstep] at hholds ⊢
  obtain ⟨-, -, -, -, storageKey, -, rfl⟩ := planCommit_eq_ok.mp hcommit
  have hsame : files'.lookup (.manifest storageKey contextDigest) = none := by
    have hroot : (appendStep (beginTransaction i contextDigest span, files) ⟨chunks, none⟩).2.lookup
        (.manifest storageKey contextDigest) = _ := appendStep_root rfl fun _ h => planAppend_objects h
    rw [hstep] at hroot
    exact hroot.trans hfresh
  obtain ⟨tx', w', hreturns⟩ := commitManifest_sound rfl hcommit hsame
  obtain ⟨_, _, hcommit', -, hpublish⟩ := commitManifest_eq_ok rfl hreturns
  rw [hcommit, Except.ok.injEq, Prod.mk.injEq] at hcommit'
  obtain ⟨rfl, rfl⟩ := hcommit'
  obtain ⟨hroot, hother, -⟩ := publishImmutable_eq_ok hpublish
  have hadds : Adds W files w'.files := by
    have hfirst : Adds W files files' := by
      have hmove := appendStep_adds (beginTransaction i contextDigest span, files) hcall
      rwa [hstep] at hmove
    have hsecond : Adds W files'
        (publishImmutable (.manifest storageKey contextDigest) encoded ⟨files', none⟩).2.files :=
      publishImmutable_adds W rfl encoded ⟨files', none⟩
    rw [show publishImmutable (.manifest storageKey contextDigest) encoded ⟨files', none⟩ = (.ok (), w') from
      hpublish] at hsecond
    exact hfirst.trans _ _ _ _ hsecond
  refine ⟨rfl, tx', w', _, all, hreturns, hsub, hholds.served hcommit hroot (fun p hp => hother p ?_) .other,
    hadds, fun p hp hne => (hother p hne).trans ?_⟩
  · rintro rfl
    cases hp
  · have hsame : (appendStep (beginTransaction i contextDigest span, files) ⟨chunks, none⟩).2.lookup p = _ :=
      appendStep_root hp fun _ h => planAppend_objects h
    rw [hstep] at hsame
    exact hsame

/-- A call that raises leaves the transaction as it was. -/
theorem appendStep_raises {s : Session} {call : AppendCall} (h : ¬call.Returns s) :
    (appendStep s call).1 = s.1 := by
  unfold AppendCall.Returns appendChunks at h
  unfold appendStep appendChunks
  cases hplan : planAppend s.1 call.chunks with
  | error e => rfl
  | ok plan =>
      cases hpublish : publishImmutableBatch plan.objects ⟨s.2, call.steps⟩ with
      | mk r w =>
          simp only [hplan, hpublish] at h
          cases r with
          | error e => simp only [hpublish]
          | ok u => exact absurd ⟨plan.receipts, rfl⟩ h

/-- Before the commit every lookup misses, a call that raises leaves the transaction as it was, and one
whose checks pass returns if the file system works. After a commit the lookup is a hit, and it restores
the chunks of the calls that returned, each once, from the first token to the last. Once these chunks
cover the span, a commit returns. -/
theorem transaction_publishes (i : CacheIdentity) (contextDigest : Digest) (span : Option ℕ)
    (mode : StorageMode) {files : Disk} (hfresh : Unpublished files i contextDigest)
    (calls : List AppendCall) (hinj : Set.InjOn sha256 (encodings calls)) :
    let start := beginTransaction i contextDigest span
    let session := fun n => Run.exec appendStep (start, files) (calls.take n)
    let last := session calls.length
    (∀ n verification, lookup (session n).2 i contextDigest verification mode =
      i.view.storageKey.map fun _ => .miss .absent) ∧
    (∀ n call, calls[n]? = some call → ¬call.Returns (session n) →
      (session (n + 1)).1 = (session n).1) ∧
    (∀ n call, calls[n]? = some call → call.steps = none →
      ∀ plan, planAppend (session n).1 call.chunks = .ok plan → call.Returns (session n)) ∧
    (∀ steps receipt tx w, commitManifest last.1 ⟨last.2, steps⟩ = (.ok receipt, tx, w) →
      ∃ chunks, (∀ c, c ∈ chunks ↔ c ∈ appended (start, files) calls) ∧
        ContiguousChunks 0 chunks receipt.committedTokens ∧
        (∀ tokens ∈ span, receipt.committedTokens = tokens) ∧
        Serves w.files i contextDigest mode chunks) ∧
    ∀ storageKey, i.view.storageKey = .ok storageKey → appended (start, files) calls ≠ [] →
      (∀ c ∈ appended (start, files) calls, ∀ encoded, encodeChunk c = .ok encoded →
        encoded.length < 10 ^ maxIntDigits) →
      (∀ tokens ∈ span, ∃ c ∈ appended (start, files) calls, tokens ≤ c.logicalEnd) →
      ∃ receipt tx w, commitManifest last.1 ⟨last.2, none⟩ = (.ok receipt, tx, w) := by
  intro start session last
  have hlast : last = Run.exec appendStep (start, files) calls := by
    show Run.exec appendStep _ (calls.take calls.length) = _
    rw [List.take_length]
  obtain ⟨chunks, hholds, hmem⟩ :=
    (Session.holds_begin i contextDigest span files (encodings calls)).run hinj calls
      fun call hcall c hc encoded hencoded => ⟨call, hcall, c, hc, hencoded⟩
  rw [← hlast] at hholds
  have hsame : ∀ c, c ∈ chunks ↔ c ∈ appended (start, files) calls := fun c => by
    rw [hmem]
    simp [start]
  have hopen : last.1.state = .isOpen := by
    rw [hholds.same]
    rfl
  refine ⟨?_, ?_, ?_, ?_, ?_⟩
  · intro n verification
    exact lookup_unpublished (run_unpublished hfresh _) verification mode
  · intro n call hcall hraises
    have hnext : session (n + 1) = appendStep (session n) call := by
      show Run.exec appendStep _ (calls.take (n + 1)) = _
      rw [List.take_add_one, hcall]
      exact Run.exec_concat _ _ _ _
    rw [hnext]
    exact appendStep_raises hraises
  · intro n call hcall hsteps plan hplan
    have hknown : ∀ c ∈ call.chunks, ∀ encoded, encodeChunk c = .ok encoded → encoded ∈ encodings calls :=
      fun c hc encoded hencoded => ⟨call, List.mem_of_getElem? hcall, c, hc, hencoded⟩
    obtain ⟨files', happend⟩ := appendChunks_sound hinj hknown hplan (session n).2
    refine ⟨plan.receipts, ?_⟩
    rw [hsteps, happend]
  · intro steps receipt tx w hcommit
    obtain ⟨path, encoded, hplan, rfl, hpublish⟩ := commitManifest_eq_ok hopen hcommit
    have hspan : last.1.spanTokens = span := by rw [hholds.same]; rfl
    refine ⟨chunks, hsame, hholds.covers.contiguous hholds.described, ?_, hholds.serves rfl hplan hpublish mode⟩
    rw [← hspan]
    exact (planCommit_eq_ok.mp hplan).2.2.1
  · intro storageKey hkey hne hsize hcover
    obtain ⟨encoded, hplan⟩ := hholds.commits rfl hkey
      (fun hnil => hne (List.eq_nil_iff_forall_not_mem.mpr fun c hc => by
        rw [← hsame, hnil] at hc
        exact List.not_mem_nil hc))
      (fun c hc => hsize c ((hsame c).mp hc))
      (fun tokens htokens => (hcover tokens htokens).imp fun c hc => ⟨(hsame c).mpr hc.1, hc.2⟩)
    have hnone : last.2.lookup (.manifest storageKey contextDigest) = none :=
      (run_unpublished hfresh (calls.take calls.length) storageKey hkey).1
    obtain ⟨tx', w', hcommit⟩ := commitManifest_sound hopen hplan hnone
    exact ⟨_, tx', w', hcommit⟩

/-- A run of one chunk has one encoding. -/
theorem encodings_injOn (chunk : ContextChunk) {calls : List AppendCall}
    (h : ∀ call ∈ calls, ∀ c ∈ call.chunks, c = chunk) : Set.InjOn sha256 (encodings calls) := by
  rintro a ⟨call, hcall, c, hc, ha⟩ b ⟨call', hcall', c', hc', hb⟩ -
  rw [h call hcall c hc] at ha
  rw [h call' hcall' c' hc', ha] at hb
  exact Except.ok.inj hb

/-! ## A run of four calls -/

/-- The encoding of a chunk. -/
def tinyBytes (chunk : ContextChunk) : Bytes := ((encodeChunk chunk).toOption).getD []

theorem tinyBytes_eq {chunk : ContextChunk} {encoded : Bytes} (h : encodeChunk chunk = .ok encoded) :
    encoded = tinyBytes chunk := by
  rw [tinyBytes, h]
  rfl

/-- A chunk, a batch that leaves a gap, a batch during which the file system fails, and that batch again. -/
def tinyCalls : List AppendCall :=
  [⟨[tinyChunk 0], none⟩, ⟨[tinyChunk 0, tinyChunk 2], none⟩, ⟨[tinyChunk 0, tinyChunk 1], some 1⟩,
    ⟨[tinyChunk 0, tinyChunk 1], none⟩]

theorem tiny_injOn : Set.InjOn sha256 (encodings tinyCalls) := by
  have hsub : encodings tinyCalls ⊆
      {tinyBytes (tinyChunk 0), tinyBytes (tinyChunk 1), tinyBytes (tinyChunk 2)} := by
    rintro encoded ⟨call, hcall, c, hc, hencoded⟩
    rw [tinyBytes_eq hencoded]
    have hchunk : c = tinyChunk 0 ∨ c = tinyChunk 1 ∨ c = tinyChunk 2 := by
      simp only [tinyCalls, List.mem_cons, List.not_mem_nil, or_false] at hcall
      rcases hcall with rfl | rfl | rfl | rfl <;> simp only [List.mem_cons, List.not_mem_nil, or_false] at hc <;> tauto
    rcases hchunk with rfl | rfl | rfl <;> simp
  have hdistinct : ([tinyChunk 0, tinyChunk 1, tinyChunk 2].map (sha256 ∘ tinyBytes)).Nodup := by decide +kernel
  refine Set.InjOn.mono hsub ?_
  have hlist := List.inj_on_of_nodup_map (f := sha256) (l := [tinyChunk 0, tinyChunk 1, tinyChunk 2].map tinyBytes)
    (by rwa [List.map_map])
  intro a ha b hb heq
  exact hlist (by simpa using ha) (by simpa using hb) heq

set_option maxRecDepth 100000 in
theorem tiny_appended : appended (beginTransaction (tinyIdentity .unnamed) zeroDigest (some 2), ∅) tinyCalls =
    [tinyChunk 0, tinyChunk 0, tinyChunk 1] := by
  decide +kernel

theorem tiny_storageKey : ∃ storageKey, (tinyIdentity .unnamed).view.storageKey = .ok storageKey := by
  unfold IdentityView.storageKey canonicalJson?
  rw [if_pos (by decide +kernel)]
  exact ⟨_, rfl⟩

set_option maxRecDepth 100000 in
/-- Two chunks are committed over a span of two tokens. -/
theorem transaction_publishes_tiny :
    let start := beginTransaction (tinyIdentity .unnamed) zeroDigest (some 2)
    let session := fun n => Run.exec appendStep (start, ∅) (tinyCalls.take n)
    let last := session tinyCalls.length
    (∀ n verification, lookup (session n).2 (tinyIdentity .unnamed) zeroDigest verification .perTokenRows =
      (tinyIdentity .unnamed).view.storageKey.map fun _ => .miss .absent) ∧
    ∃ receipt tx w, commitManifest last.1 ⟨last.2, none⟩ = (.ok receipt, tx, w) ∧ receipt.committedTokens = 2 ∧
      ∃ chunks, (∀ c, c ∈ chunks ↔ c = tinyChunk 0 ∨ c = tinyChunk 1) ∧ ContiguousChunks 0 chunks 2 ∧
        Serves w.files (tinyIdentity .unnamed) zeroDigest .perTokenRows chunks := by
  intro start session last
  have hfresh : Unpublished (∅ : Disk) (tinyIdentity .unnamed) zeroDigest := fun _ _ => ⟨rfl, rfl⟩
  obtain ⟨hmiss, -, -, hserves, hreturns⟩ := transaction_publishes (tinyIdentity .unnamed) zeroDigest (some 2)
    .perTokenRows hfresh tinyCalls tiny_injOn
  refine ⟨hmiss, ?_⟩
  rw [tiny_appended] at hserves hreturns
  obtain ⟨storageKey, hkey⟩ := tiny_storageKey
  have hsize : ∀ c ∈ [tinyChunk 0, tinyChunk 0, tinyChunk 1], ∀ encoded, encodeChunk c = .ok encoded →
      encoded.length < 10 ^ maxIntDigits := by
    have hshort : ∀ c ∈ [tinyChunk 0, tinyChunk 0, tinyChunk 1], (tinyBytes c).length < 10 ^ maxIntDigits := by
      decide +kernel
    intro c hc encoded hencoded
    rw [tinyBytes_eq hencoded]
    exact hshort c hc
  obtain ⟨receipt, tx, w, hcommit⟩ := hreturns storageKey hkey (List.cons_ne_nil _ _) hsize (by simp [tinyChunk])
  obtain ⟨chunks, hchunks, hcontiguous, hcovered, hserved⟩ := hserves none receipt tx w hcommit
  have htokens := hcovered 2 rfl
  rw [htokens] at hcontiguous
  exact ⟨receipt, tx, w, hcommit, htokens, chunks, fun c => by simp [hchunks], hcontiguous, hserved⟩

end SparkCache.Store
