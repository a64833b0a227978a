import SparkCache.Store.Transaction

/-!
# Commits

All the chunks of a context in one transaction, a bounded batch at a time. The chunks are built
when they are asked for, so that a chunk that cannot be built stops the commit between batches.
-/
namespace SparkCache.Store

open Files Files.FileM Pages

/-- A `Sequence[ContextChunk]` whose items are built on demand. -/
structure ChunkSequence where
  count : ℕ
  item : ℕ → Except StoreError ContextChunk

/-- The items at indices. -/
def itemsAt (item : ℕ → Except StoreError ContextChunk) : List ℕ → Except StoreError (List ContextChunk)
  | [] => .ok []
  | index :: rest => do
      let chunk ← item index
      return chunk :: (← itemsAt item rest)

/-- `chunks[start:stop]` -/
def ChunkSequence.slice (chunks : ChunkSequence) (start stop : ℕ) : Except StoreError (List ContextChunk) :=
  itemsAt chunks.item (List.range' start (min stop chunks.count - start))

/-- `_COMMIT_CHUNK_BATCH_SIZE` -/
def commitChunkBatchSize : ℕ := 8

/-- `range(0, count, _COMMIT_CHUNK_BATCH_SIZE)` -/
def batchStarts (count : ℕ) : List ℕ :=
  List.range' 0 ((count + (commitChunkBatchSize - 1)) / commitChunkBatchSize) commitChunkBatchSize

/-- `append_chunks`, with the transaction that it leaves. -/
def appendBatch (tx : Transaction) (batch : List ContextChunk) : StoreM Transaction := fun w =>
  match appendChunks tx batch w with
  | (.ok _, tx, w) => (.ok tx, w)
  | (.error e, _, w) => (.error e, w)

def appendBatches (chunks : ChunkSequence) : List ℕ → Transaction → StoreM Transaction
  | [], tx => pure tx
  | start :: rest, tx => do
      let batch ← lift (chunks.slice start (start + commitChunkBatchSize))
      appendBatches chunks rest (← appendBatch tx batch)

/-- `commit_manifest`; the transaction is not used again. -/
def commitTransaction (tx : Transaction) : StoreM CommitReceipt := fun w =>
  match commitManifest tx w with
  | (result, _, w) => (result, w)

/-- `ManifestStore.commit` -/
def commit (i : CacheIdentity) (contextDigest : Digest) (spanTokens : Option ℕ) (chunks : ChunkSequence) :
    StoreM CommitReceipt := do
  let tx ← appendBatches chunks (batchStarts chunks.count) (beginTransaction i contextDigest spanTokens)
  commitTransaction tx

/-! ## Items -/

theorem itemsAt_eq_ok {item : ℕ → Except StoreError ContextChunk} {indices : List ℕ}
    {chunks : List ContextChunk} :
    itemsAt item indices = .ok chunks ↔ List.Forall₂ (fun index chunk => item index = .ok chunk) indices chunks := by
  induction indices generalizing chunks with
  | nil => simp [itemsAt, eq_comm]
  | cons index rest ih =>
      simp only [itemsAt, bind_eq_ok, ih, pure, Except.pure, Except.ok.injEq]
      constructor
      · rintro ⟨chunk, hchunk, more, hmore, rfl⟩
        exact .cons hchunk hmore
      · intro h
        cases h with
        | cons hchunk hmore => exact ⟨_, hchunk, _, hmore, rfl⟩

theorem exists_of_mem_itemsAt {item : ℕ → Except StoreError ContextChunk} {indices : List ℕ} :
    ∀ {chunks : List ContextChunk}, itemsAt item indices = .ok chunks → ∀ c ∈ chunks,
      ∃ index ∈ indices, item index = .ok c := by
  induction indices with
  | nil =>
      intro chunks h c hc
      cases h
      cases hc
  | cons index rest ih =>
      intro chunks h c hc
      simp only [itemsAt, bind_eq_ok] at h
      obtain ⟨chunk, hchunk, more, hmore, heq⟩ := h
      cases heq
      rcases List.mem_cons.mp hc with rfl | hc
      · exact ⟨index, List.mem_cons_self, hchunk⟩
      · obtain ⟨n, hn, hitem⟩ := ih hmore c hc
        exact ⟨n, List.mem_cons_of_mem _ hn, hitem⟩

theorem mem_itemsAt {item : ℕ → Except StoreError ContextChunk} {indices : List ℕ} :
    ∀ {chunks : List ContextChunk}, itemsAt item indices = .ok chunks → ∀ {index : ℕ} {c : ContextChunk},
      index ∈ indices → item index = .ok c → c ∈ chunks := by
  induction indices with
  | nil =>
      intro chunks _ index c hindex
      cases hindex
  | cons first rest ih =>
      intro chunks h index c hindex hc
      simp only [itemsAt, bind_eq_ok] at h
      obtain ⟨chunk, hchunk, more, hmore, heq⟩ := h
      cases heq
      rcases List.mem_cons.mp hindex with rfl | hindex
      · rw [hchunk] at hc
        cases hc
        exact List.mem_cons_self
      · exact List.mem_cons_of_mem _ (ih hmore hindex hc)

theorem itemsAt_item {item : ℕ → Except StoreError ContextChunk} {indices : List ℕ}
    {chunks : List ContextChunk} (h : itemsAt item indices = .ok chunks) :
    ∀ index ∈ indices, ∃ chunk, item index = .ok chunk := by
  rw [itemsAt_eq_ok] at h
  induction h with
  | nil => simp
  | cons hfirst _ ih => exact List.forall_mem_cons.mpr ⟨⟨_, hfirst⟩, ih⟩

theorem itemsAt_of_items {item : ℕ → Except StoreError ContextChunk} {indices : List ℕ}
    (h : ∀ index ∈ indices, ∃ chunk, item index = .ok chunk) :
    ∃ chunks, itemsAt item indices = .ok chunks := by
  induction indices with
  | nil => exact ⟨[], rfl⟩
  | cons index rest ih =>
      rw [List.forall_mem_cons] at h
      obtain ⟨⟨chunk, hchunk⟩, hrest⟩ := h
      obtain ⟨more, hmore⟩ := ih hrest
      exact ⟨chunk :: more, itemsAt_eq_ok.mpr (.cons hchunk (itemsAt_eq_ok.mp hmore))⟩

/-! ## Chunks that follow each other -/

theorem ContiguousChunks.le {chunks : List ContextChunk} :
    ∀ {start stop : ℕ}, ContiguousChunks start chunks stop → start ≤ stop := by
  induction chunks with
  | nil => exact fun h => (show _ = _ from h).ge
  | cons chunk rest ih =>
      intro start stop h
      have hrest := ih h.2
      have hordered := chunk.ordered
      have hstart := h.1
      omega

theorem ContiguousChunks.start_le {chunks : List ContextChunk} :
    ∀ {start stop : ℕ}, ContiguousChunks start chunks stop → ∀ c ∈ chunks, start ≤ c.logicalStart := by
  induction chunks with
  | nil => exact fun _ c hc => absurd hc (List.not_mem_nil)
  | cons chunk rest ih =>
      intro start stop h c hc
      have hordered := chunk.ordered
      have hstart := h.1
      rcases List.mem_cons.mp hc with rfl | hc
      · omega
      · have hrest := ih h.2 c hc
        omega

/-- Chunks that follow each other are determined by which they are. -/
theorem ContiguousChunks.ext {xs : List ContextChunk} :
    ∀ {ys : List ContextChunk} {start stop stop' : ℕ}, ContiguousChunks start xs stop →
      ContiguousChunks start ys stop' → (∀ c, c ∈ xs ↔ c ∈ ys) → xs = ys := by
  induction xs with
  | nil =>
      intro ys start stop stop' _ _ hmem
      exact (List.eq_nil_iff_forall_not_mem.mpr fun c hc => List.not_mem_nil ((hmem c).mpr hc)).symm
  | cons x xs ih =>
      intro ys start stop stop' hx hy hmem
      cases ys with
      | nil => exact absurd ((hmem x).mp List.mem_cons_self) List.not_mem_nil
      | cons y ys =>
          have hafter : ∀ {z : ContextChunk} {zs : List ContextChunk} {last : ℕ},
              ContiguousChunks z.logicalEnd zs last → ∀ c ∈ zs, z.logicalStart < c.logicalStart :=
            fun {z} _ _ hz c hc => z.ordered.trans_le (hz.start_le c hc)
          -- Only the first chunk starts where the list does.
          have hfirst : x = y := by
            rcases List.mem_cons.mp ((hmem x).mp List.mem_cons_self) with h | h
            · exact h
            · have hlt := hafter hy.2 x h
              rw [hx.1, hy.1] at hlt
              exact absurd hlt (lt_irrefl _)
          subst hfirst
          have hne : ∀ {zs : List ContextChunk} {last : ℕ}, ContiguousChunks x.logicalEnd zs last → x ∉ zs :=
            fun hz hin => absurd (hafter hz x hin) (lt_irrefl _)
          refine congrArg _ (ih hx.2 hy.2 fun c => ?_)
          have hc := hmem c
          rw [List.mem_cons, List.mem_cons] at hc
          by_cases hcx : c = x
          · rw [hcx]
            exact ⟨fun h => absurd h (hne hx.2), fun h => absurd h (hne hy.2)⟩
          · tauto

/-! ## Commits -/

section Collision
variable {W : Set Bytes} (hinj : Set.InjOn sha256 W)
include hinj

/-- The chunks of every batch are in the transaction that a loop over batches leaves. -/
theorem appendBatches_holds {start : Transaction} {chunks : ChunkSequence} (indices : List ℕ)
    (hW : ∀ index chunk, chunks.item index = .ok chunk → ∀ encoded, encodeChunk chunk = .ok encoded →
      encoded ∈ W) :
    ∀ {tx tx' : Transaction} {w w' : World Path Bytes} {held : List ContextChunk},
      Session.Holds start W (tx, w.files) held → appendBatches chunks indices tx w = (.ok tx', w') →
      ∃ all, Session.Holds start W (tx', w'.files) all ∧
        (∀ index ∈ indices, ∃ batch, chunks.slice index (index + commitChunkBatchSize) = .ok batch) ∧
        ∀ c, c ∈ all ↔ c ∈ held ∨ ∃ index ∈ indices, ∃ batch,
          chunks.slice index (index + commitChunkBatchSize) = .ok batch ∧ c ∈ batch := by
  induction indices with
  | nil =>
      intro tx tx' w w' held h hrun
      cases hrun
      exact ⟨held, h, by simp, by simp⟩
  | cons index rest ih =>
      intro tx tx' w w' held h hrun
      rw [appendBatches] at hrun
      simp only [FileM.bind_eq_ok, lift_apply] at hrun
      obtain ⟨batch, w₁, hslice, tx₁, w₂, hbatch, hrest⟩ := hrun
      obtain ⟨hitems, rfl⟩ := Prod.mk.inj hslice
      have hbatchW : ∀ c ∈ (AppendCall.mk batch w.steps).chunks, ∀ encoded,
          encodeChunk c = .ok encoded → encoded ∈ W := by
        intro c hc encoded hencoded
        obtain ⟨n, -, hn⟩ := exists_of_mem_itemsAt hitems c hc
        exact hW n c hn encoded hencoded
      obtain ⟨more, hstep, hsub, hreturns, -⟩ := h.step hinj hbatchW
      have hreturned : AppendCall.Returns (tx, w.files) ⟨batch, w.steps⟩ ∧
          appendStep (tx, w.files) ⟨batch, w.steps⟩ = (tx₁, w₂.files) := by
        unfold appendBatch at hbatch
        unfold AppendCall.Returns appendStep
        cases happend : appendChunks tx batch w with
        | mk result after =>
            obtain ⟨tx₂, w₃⟩ := after
            rw [happend] at hbatch
            cases result with
            | error e => cases hbatch
            | ok receipts =>
                cases hbatch
                exact ⟨⟨receipts, rfl⟩, rfl⟩
      rw [hreturned.2] at hstep
      obtain ⟨all, hall, hslices, hmem⟩ := ih hstep hrest
      refine ⟨all, hall, List.forall_mem_cons.mpr ⟨⟨batch, hitems⟩, hslices⟩, fun c => ?_⟩
      have hforward : c ∈ batch → c ∈ held ++ more := fun hc => hreturns hreturned.1 hc
      have hback : c ∈ more → c ∈ batch := fun hc => hsub hc
      rw [hmem]
      simp only [List.mem_append] at hforward ⊢
      constructor
      · rintro ((hc | hc) | ⟨n, hn, hc⟩)
        · exact Or.inl hc
        · exact Or.inr ⟨index, List.mem_cons_self, batch, hitems, hback hc⟩
        · exact Or.inr ⟨n, List.mem_cons_of_mem _ hn, hc⟩
      · rintro (hc | ⟨n, hn, found, hfound, hc⟩)
        · exact Or.inl (Or.inl hc)
        · rcases List.mem_cons.mp hn with rfl | hn
          · rw [hitems] at hfound
            cases hfound
            exact Or.inl (hforward hc)
          · exact Or.inr ⟨n, hn, found, hfound, hc⟩

/-- A commit serves all the items, in order. -/
theorem commit_serves {i : CacheIdentity} {contextDigest : Digest} {span : Option ℕ} {chunks : ChunkSequence}
    {receipt : CommitReceipt} {w w' : World Path Bytes}
    (hW : ∀ index chunk, chunks.item index = .ok chunk → ∀ encoded, encodeChunk chunk = .ok encoded →
      encoded ∈ W)
    (hcontiguous : ∀ all, itemsAt chunks.item (List.range chunks.count) = .ok all →
      ∃ stop, ContiguousChunks 0 all stop)
    (h : commit i contextDigest span chunks w = (.ok receipt, w')) (mode : StorageMode) :
    ∃ all, itemsAt chunks.item (List.range chunks.count) = .ok all ∧
      Serves w'.files i contextDigest mode all := by
  unfold commit at h
  simp only [FileM.bind_eq_ok] at h
  obtain ⟨tx, w₁, hbatches, hcommit⟩ := h
  obtain ⟨held, hholds, hslices, hmem⟩ := appendBatches_holds hinj _ hW
    (Session.holds_begin i contextDigest span w.files W) hbatches
  -- Every index is in the slice of its batch.
  have hbatch : ∀ index < chunks.count, ∃ start batch,
      start ∈ batchStarts chunks.count ∧ chunks.slice start (start + commitChunkBatchSize) = .ok batch ∧
      index ∈ List.range' start (min (start + commitChunkBatchSize) chunks.count - start) := by
    intro index hindex
    have hstart : index / 8 * 8 ∈ batchStarts chunks.count := by
      simp only [batchStarts, commitChunkBatchSize, List.mem_range']
      exact ⟨index / 8, by omega, by omega⟩
    obtain ⟨batch, hslice⟩ := hslices _ hstart
    refine ⟨_, batch, hstart, hslice, ?_⟩
    rw [List.mem_range'_1]
    simp only [commitChunkBatchSize]
    omega
  have hitem : ∀ index < chunks.count, ∃ chunk, chunks.item index = .ok chunk := by
    intro index hindex
    obtain ⟨start, batch, -, hslice, hin⟩ := hbatch index hindex
    exact itemsAt_item hslice index hin
  obtain ⟨all, hall⟩ := itemsAt_of_items (fun index h => hitem index (List.mem_range.mp h))
  have hsame : ∀ c, c ∈ held ↔ c ∈ all := by
    intro c
    rw [hmem]
    constructor
    · rintro (hc | ⟨start, -, batch, hslice, hc⟩)
      · cases hc
      · obtain ⟨index, hin, hc⟩ := exists_of_mem_itemsAt hslice c hc
        rw [List.mem_range'_1] at hin
        exact mem_itemsAt hall (List.mem_range.mpr (by omega)) hc
    · intro hc
      obtain ⟨index, hin, hc⟩ := exists_of_mem_itemsAt hall c hc
      obtain ⟨start, batch, hstart, hslice, hin⟩ := hbatch index (List.mem_range.mp hin)
      exact Or.inr ⟨start, hstart, batch, hslice, mem_itemsAt hslice hin hc⟩
  obtain ⟨stop, hstop⟩ := hcontiguous all hall
  obtain rfl := (hholds.covers.contiguous hholds.described).ext hstop hsame
  have hopen : tx.state = .isOpen := congrArg Transaction.state hholds.same
  unfold commitTransaction at hcommit
  cases hmanifest : commitManifest tx w₁ with
  | mk result after =>
      obtain ⟨tx', w₂⟩ := after
      rw [hmanifest] at hcommit
      obtain ⟨hresult, hfiles⟩ := Prod.mk.inj hcommit
      subst hresult hfiles
      obtain ⟨path, encoded, hplan, -, hpublish⟩ := commitManifest_eq_ok hopen hmanifest
      exact ⟨held, hall, hholds.serves rfl hplan hpublish mode⟩

end Collision

end SparkCache.Store
