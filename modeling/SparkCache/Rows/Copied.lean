import SparkCache.Rows.Restore
import SparkCache.Store.Visibility

/-!
# Copied rows

What a store captures on one rank is what a load of the rank restores, whatever blocks the two
requests have.
-/
namespace SparkCache.Rows
open Store Files Files.FileM
open Pages (slice bind_eq_ok)

/-- `_store_one` of rows up to the commit; `salt` is the identity salt of the request's scope. -/
def Worker.storeOne (w : Worker) (tensors : LayerTensors w.layers) (plan : ReqPlan) (salt : String) :
    StoreM CommitReceipt := do
  let snapshot ← lift (w.snapshotStore tensors plan)
  let chunks ← lift (snapshotChunks snapshot w.layers w.identity.dcpDegree w.identity.chunkTokens)
  match plan.baseContextDigest with
  | some base => do
      let digest ← lift (contextPrefixDigest plan.tokenIds salt plan.spanTokens)
      FileM.require (plan.digest = digest) (.runtime "tail publication result digest differs from request")
      let tail ← lift (chunks.slice 0 chunks.count)
      commitExtension w.identity ⟨base, plan.tokenIds, salt, tail, none⟩
  | none => commit w.identity plan.digest (some plan.spanTokens) chunks

/-- The rows that an entry has for the rank of a worker. -/
def Worker.storedRows (w : Worker) (files : Disk) (digest : Digest) (spanTokens : ℕ) :
    Except StoreError (String → Bytes) := do
  let chunks ← w.restoreChunks files digest spanTokens
  let positions ← ownedPositions spanTokens w.identity.dcpDegree w.rank
  let rows := w.identity.chunkTokens / w.identity.dcpDegree
  let pieces ← assembleChunks w.layers positions rows 0 chunks
  return layerPayload pieces

theorem chunkCount_eq_ok {spanTokens chunkTokens count : ℕ} :
    chunkCount spanTokens chunkTokens = .ok count ↔
      0 < chunkTokens ∧ 0 < spanTokens ∧ chunkTokens ∣ spanTokens ∧ count = spanTokens / chunkTokens := by
  unfold chunkCount
  simp only [bind_eq_ok, require_eq_ok, pure, Except.pure, Except.ok.injEq, Nat.dvd_iff_mod_eq_zero]
  constructor
  · rintro ⟨_, hchunk, _, ⟨hspan, haligned⟩, rfl⟩
    exact ⟨hchunk, hspan, haligned, rfl⟩
  · rintro ⟨hchunk, hspan, haligned, rfl⟩
    exact ⟨(), hchunk, (), ⟨hspan, haligned⟩, rfl⟩

theorem chunksBefore_eq_ok {logicalStart chunkTokens count : ℕ}
    (h : chunksBefore logicalStart chunkTokens = .ok count) :
    chunkTokens ∣ logicalStart ∧ count = logicalStart / chunkTokens := by
  unfold chunksBefore at h
  split at h
  · rename_i hzero
    cases h
    rw [hzero, Nat.zero_div]
    exact ⟨Nat.dvd_zero _, rfl⟩
  · obtain ⟨-, -, haligned, hcount⟩ := chunkCount_eq_ok.mp h
    exact ⟨haligned, hcount⟩

theorem snapshotChunks_eq_ok {s : StoreSnapshot} {layers : LayerPlans} {dcpDegree chunkTokens : ℕ}
    {chunks : ChunkSequence} (h : snapshotChunks s layers dcpDegree chunkTokens = .ok chunks) :
    0 < chunkTokens ∧ dcpDegree ∣ chunkTokens ∧ 0 < s.plan.spanTokens ∧ chunkTokens ∣ s.plan.spanTokens ∧
      chunkTokens ∣ s.logicalStart ∧
      chunks = ⟨s.plan.spanTokens / chunkTokens - s.logicalStart / chunkTokens,
        s.chunk layers chunkTokens (chunkTokens / dcpDegree)⟩ := by
  unfold snapshotChunks at h
  simp only [bind_eq_ok, require_eq_ok, chunkCount_eq_ok, pure, Except.pure, Except.ok.injEq] at h
  obtain ⟨_, ⟨hpos, hdegree⟩, _, ⟨-, hspan, haligned, rfl⟩, before, hbefore, rfl⟩ := h
  obtain ⟨hstart, rfl⟩ := chunksBefore_eq_ok hbefore
  exact ⟨hpos, Nat.dvd_of_mod_eq_zero hdegree, hspan, haligned, hstart, rfl⟩

/-! ## What is captured -/

/-- The chunks of a store, from the one after its base on. -/
structure CapturedChunks (w : Worker) (row : String → ℕ → Bytes) (before total : ℕ) (chunks : ChunkSequence) :
    Prop where
  count : chunks.count = total - before
  items : ∀ index < total - before, ∀ c, chunks.item index = .ok c →
    HoldsRows w.layers w.identity.dcpDegree w.rank (w.identity.chunkTokens / w.identity.dcpDegree) row
      (before + index) c
  sized : RowsSized w.layers.plans row (before * (w.identity.chunkTokens / w.identity.dcpDegree))
    ((total - before) * (w.identity.chunkTokens / w.identity.dcpDegree))

theorem Worker.snapshotStore_plan (w : Worker) {tensors : LayerTensors w.layers} {plan : ReqPlan}
    {s : StoreSnapshot} (h : w.snapshotStore tensors plan = .ok s) :
    s.plan = plan ∧ s.logicalStart = plan.publicationStart := by
  unfold Worker.snapshotStore at h
  simp only [bind_eq_ok, pure, Except.pure, Except.ok.injEq] at h
  obtain ⟨_, -, _, -, _, -, _, -, rfl⟩ := h
  exact ⟨rfl, rfl⟩

theorem Worker.captured (w : Worker) {tensors : LayerTensors w.layers} {plan : ReqPlan} {s : StoreSnapshot}
    {chunks : ChunkSequence} (hsnapshot : w.snapshotStore tensors plan = .ok s)
    (hchunks : snapshotChunks s w.layers w.identity.dcpDegree w.identity.chunkTokens = .ok chunks)
    (hpos : 0 < chunks.count) :
    ∃ before total, plan.publicationStart = before * w.identity.chunkTokens ∧
      plan.spanTokens = total * w.identity.chunkTokens ∧ before < total ∧
      w.identity.dcpDegree ∣ w.identity.chunkTokens ∧
      CapturedChunks w (capturedRow tensors.rows plan.blockIds w.blockSize) before total chunks := by
  obtain ⟨hsplan, hslogical⟩ := w.snapshotStore_plan hsnapshot
  obtain ⟨hct, hdegree, -, hspan, hstart, rfl⟩ := snapshotChunks_eq_ok hchunks
  rw [hsplan] at hspan hpos
  rw [hslogical] at hstart hpos
  obtain ⟨total, htotal⟩ := hspan
  obtain ⟨before, hbefore⟩ := hstart
  simp only [htotal, hbefore, Nat.mul_div_cancel_left _ hct] at hpos
  set rows := w.identity.chunkTokens / w.identity.dcpDegree with hrows
  have hchunk : rows * w.identity.dcpDegree = w.identity.chunkTokens := Nat.div_mul_cancel hdegree
  have hordinals : ∀ n, w.identity.chunkTokens * n = n * rows * w.identity.dcpDegree := by
    intro n
    rw [Nat.mul_assoc, hchunk, Nat.mul_comm]
  obtain ⟨-, hlogical, hcaptures⟩ := w.snapshotStore_captures (htotal.trans (hordinals total))
    (hbefore.trans (hordinals before)) (Nat.mul_le_mul_right rows (by omega)) hsnapshot
  rw [← Nat.sub_mul] at hcaptures
  refine ⟨before, total, by rw [hbefore, Nat.mul_comm], by rw [htotal, Nat.mul_comm], by omega, hdegree,
    ?_, ?_, hcaptures.sized⟩
  · simp only [hsplan, hslogical, htotal, hbefore, Nat.mul_div_cancel_left _ hct]
  · intro index hindex c hc
    have hlogical' : s.logicalStart = before * (rows * w.identity.dcpDegree) := by
      rw [hslogical, hbefore, hchunk, Nat.mul_comm]
    refine hcaptures.chunk hindex hlogical' ?_
    rw [hchunk]
    exact hc

/-- The chunks follow each other. -/
theorem CapturedChunks.contiguous {w : Worker} {row : String → ℕ → Bytes} {before total : ℕ}
    {chunks : ChunkSequence} (h : CapturedChunks w row before total chunks)
    (hdegree : w.identity.dcpDegree ∣ w.identity.chunkTokens) (n : ℕ) :
    ∀ {index : ℕ} {all : List ContextChunk}, index + n ≤ total - before →
      itemsAt chunks.item (List.range' index n) = .ok all →
      ContiguousChunks ((before + index) * w.identity.chunkTokens) all
        ((before + index + n) * w.identity.chunkTokens) := by
  induction n with
  | zero =>
      intro index all _ hall
      cases hall
      rfl
  | succ n ih =>
      intro index all hle hall
      rw [List.range'_succ, itemsAt] at hall
      simp only [bind_eq_ok] at hall
      obtain ⟨c, hc, rest, hrest, heq⟩ := hall
      cases heq
      have hholds := h.items index (by omega) c hc
      have hnext := ih (show index + 1 + n ≤ total - before by omega) hrest
      have hstart := hholds.logicalStart
      have hend := hholds.logicalEnd
      rw [Nat.div_mul_cancel hdegree] at hstart hend
      refine ⟨hstart, ?_⟩
      rw [hend, show before + index + (n + 1) = before + (index + 1) + n by omega]
      exact hnext

theorem itemsAt_getElem {item : ℕ → Except StoreError ContextChunk} (n : ℕ) :
    ∀ {index : ℕ} {all : List ContextChunk}, itemsAt item (List.range' index n) = .ok all →
      all.length = n ∧ ∀ k c, all[k]? = some c → item (index + k) = .ok c := by
  intro index all hall
  have hforall := itemsAt_eq_ok.mp hall
  have hlength := hforall.length_eq
  rw [List.length_range'] at hlength
  refine ⟨hlength.symm, fun k c hk => ?_⟩
  obtain ⟨hlt, hget⟩ := List.getElem?_eq_some_iff.mp hk
  have hitem := hforall.get (by rw [List.length_range']; omega) hlt
  simpa [hget] using hitem

/-! ## What is published -/

theorem restoreChunks_eq_ok {w : Worker} {files : Disk} {digest : Digest} {spanTokens : ℕ}
    {chunks : List ContextChunk} :
    w.restoreChunks files digest spanTokens = .ok chunks ↔
      ∃ h, lookup files w.identity digest .manifestOnly .perTokenRows = .ok (.hit h) ∧
        restore files h = .ok (some chunks) ∧ chunkCount spanTokens w.identity.chunkTokens = .ok chunks.length := by
  unfold Worker.restoreChunks
  rw [bind_eq_ok]
  constructor
  · rintro ⟨result, hlookup, h⟩
    cases result with
    | miss reason => cases h
    | hit hit =>
        simp only [bind_eq_ok, expect_eq_ok, require_eq_ok, pure, Except.pure, Except.ok.injEq] at h
        obtain ⟨_, hrestore, found, rfl, count, hcount, _, rfl, rfl⟩ := h
        exact ⟨hit, hlookup, hrestore, hcount⟩
  · rintro ⟨hit, hlookup, hrestore, hcount⟩
    refine ⟨.hit hit, hlookup, ?_⟩
    simp only [bind_eq_ok, expect_eq_ok, require_eq_ok, pure, Except.pure, Except.ok.injEq]
    exact ⟨some chunks, hrestore, chunks, rfl, chunks.length, hcount, (), rfl, rfl⟩

theorem planTail_head {i : CacheIdentity} {start : ℕ} {c : ContextChunk} {rest : List ContextChunk}
    {planned : List (ChunkDescriptor × Bytes) × ℕ} (h : planTail i start (c :: rest) = .ok planned) :
    c.logicalStart = start := by
  rw [planTail] at h
  simp only [bind_eq_ok, require_eq_ok] at h
  obtain ⟨_, hstart, -⟩ := h
  exact hstart

theorem contiguous_last {chunks : List ContextChunk} :
    ∀ {start stop : ℕ}, ContiguousChunks start chunks stop → ∀ {last : ContextChunk},
      last ∈ chunks.getLast? → last.logicalEnd = stop := by
  induction chunks with
  | nil =>
      intro start stop _ last hlast
      cases hlast
  | cons c rest ih =>
      intro start stop h last hlast
      cases rest with
      | nil =>
          obtain rfl : c = last := by simpa using hlast
          exact (show stop = c.logicalEnd from h.2).symm
      | cons c' rest => exact ih h.2 (by simpa using hlast)

/-- A successful extension serves the chunks of its base and its tail, if all the chunks of the base
lie before the tail. -/
theorem commitExtension_serves {w : Worker} {call : ExtensionCall} {receipt : CommitReceipt}
    {world world' : World Path Bytes} (h : commitExtension w.identity call world = (.ok receipt, world'))
    (hkeep : Preserves world.files world'.files) {baseTokens stop : ℕ}
    {chunks : List ContextChunk}
    (hrestored : w.restoreChunks world.files call.base baseTokens = .ok chunks)
    (htail : ContiguousChunks baseTokens call.tail stop) (hne : call.tail ≠ []) :
    ∃ digest, contextPrefixDigest call.tokens call.salt stop = .ok digest ∧
      ∀ mode, Serves world'.files w.identity digest mode (chunks ++ call.tail) := by
  obtain ⟨plan, segments, root, hplan, hchain, hroot, hstored, hobjects, hfile, -⟩ := commitExtension_eq_ok h
  obtain ⟨hit, base, hp⟩ := planExtension_eq_ok hplan
  obtain ⟨hit', hlookup, hrestore, hcount⟩ := restoreChunks_eq_ok.mp hrestored
  rw [lookup_manifestOnly hp.hit] at hlookup
  cases hlookup
  obtain ⟨m, required, hrows, -, hchunks⟩ := restore_eq_some.mp hrestore
  rw [hp.rows] at hrows
  cases hrows
  obtain ⟨verified, hverified⟩ := lookup_chunks hp.hit hp.rows
  obtain rfl := readChunks_required hverified hchunks
  -- The tail starts after the chunks that are reused, so these are all.
  have hreused : plan.reusedTokens = baseTokens := by
    obtain ⟨first, rest, hcons⟩ := List.exists_cons_of_ne_nil hne
    have hplanned := hp.tail
    rw [hcons] at hplanned htail
    exact (planTail_head hplanned).symm.trans htail.1
  obtain ⟨hpos, -, -, hlength⟩ := chunkCount_eq_ok.mp hcount
  have hread : readChunks world.files w.identity.requiredRecords
      (base.chunks.filter fun d => d.logicalEnd ≤ plan.reusedTokens) = _ :=
    readChunks_filter hverified fun d hd => by
      rw [decide_eq_true_eq]
      exact hp.covers.2 d hd
  have hall : base.chunks.filter (fun d => d.logicalEnd ≤ plan.reusedTokens) = base.chunks := by
    refine List.filter_sublist.eq_of_length ?_
    rw [← hp.descriptors, hp.count, hreused, ← hlength]
    exact (readChunks_eq_ok.mp hverified).length_eq.symm
  rw [hall] at hread
  have hcomplete := Except.ok.inj (hverified.symm.trans hread)
  obtain ⟨last, hlast, htokens⟩ := hp.last
  have hstop : plan.resultTokens = stop := htokens.trans (contiguous_last htail hlast)
  refine ⟨plan.resultDigest, hstop ▸ hp.result, fun mode => ?_⟩
  have hserves := (hp.served hkeep hchain hroot hstored hobjects hfile hverified mode).1.serves
  rwa [← hcomplete] at hserves

/-- The encodings of the chunks of a store. -/
def Worker.capturedEncodings (w : Worker) (tensors : LayerTensors w.layers) (plan : ReqPlan) : Set Bytes :=
  {encoded | ∃ snapshot chunks index c, w.snapshotStore tensors plan = .ok snapshot ∧
    snapshotChunks snapshot w.layers w.identity.dcpDegree w.identity.chunkTokens = .ok chunks ∧
    chunks.item index = .ok c ∧ encodeChunk c = .ok encoded}

/-- The chunks that a store makes visible: those of the base, and the captured ones. -/
theorem Worker.storeOne_serves (w : Worker) {tensors : LayerTensors w.layers} {plan : ReqPlan} {salt : String}
    {receipt : CommitReceipt} {world world' : World Path Bytes}
    (hstore : w.storeOne tensors plan salt world = (.ok receipt, world'))
    (hinj : Set.InjOn sha256 (contents world.files ∪ contents world'.files ∪ w.capturedEncodings tensors plan))
    {baseChunks : List ContextChunk}
    (hbase : ∀ base ∈ plan.baseContextDigest,
      w.restoreChunks world.files base plan.baseSpanTokens = .ok baseChunks)
    (hnone : plan.baseContextDigest = none → baseChunks = []) :
    ∃ before total captured chunks, plan.publicationStart = before * w.identity.chunkTokens ∧
      plan.spanTokens = total * w.identity.chunkTokens ∧ before < total ∧
      w.identity.dcpDegree ∣ w.identity.chunkTokens ∧
      CapturedChunks w (capturedRow tensors.rows plan.blockIds w.blockSize) before total captured ∧
      itemsAt captured.item (List.range' 0 (total - before)) = .ok chunks ∧ baseChunks.length = before ∧
      ∀ mode, Serves world'.files w.identity plan.digest mode (baseChunks ++ chunks) := by
  unfold Worker.storeOne at hstore
  simp only [FileM.bind_eq_ok, lift_apply] at hstore
  obtain ⟨snapshot, w₁, hfirst, captured, w₂, hsecond, hstore⟩ := hstore
  obtain ⟨hsnapshot, rfl⟩ := Prod.mk.inj hfirst
  obtain ⟨hcaptured, rfl⟩ := Prod.mk.inj hsecond
  have hchunkPos := w.identity.sizes.2
  cases hplan : plan.baseContextDigest with
  | none =>
      simp only [hplan] at hstore
      have hzero : plan.publicationStart = 0 := by
        simp [ReqPlan.publicationStart, hplan]
      have hpos : 0 < captured.count := by
        obtain ⟨hsplan, hslogical⟩ := w.snapshotStore_plan hsnapshot
        obtain ⟨-, -, hspanPos, haligned, -, rfl⟩ := snapshotChunks_eq_ok hcaptured
        simp only [hslogical, hzero, Nat.zero_div, Nat.sub_zero]
        exact Nat.div_pos (Nat.le_of_dvd hspanPos haligned) hchunkPos
      obtain ⟨before, total, hstart, hspan, hlt, hdegree, hholds⟩ := w.captured hsnapshot hcaptured hpos
      obtain rfl : before = 0 := by
        rw [hzero] at hstart
        exact (Nat.mul_eq_zero.mp hstart.symm).resolve_right hchunkPos.ne'
      have hcontiguous : ∀ all, itemsAt captured.item (List.range captured.count) = .ok all →
          ∃ stop, ContiguousChunks 0 all stop := by
        intro all hall
        rw [hholds.count, List.range_eq_range'] at hall
        have hc : ContiguousChunks ((0 + 0) * w.identity.chunkTokens) all _ :=
          hholds.contiguous hdegree (total - 0) (by omega) hall
        rw [Nat.add_zero, Nat.zero_mul] at hc
        exact ⟨_, hc⟩
      have hserves := commit_serves (hinj.mono Set.subset_union_right)
        (fun index c hitem encoded hencoded =>
          ⟨snapshot, captured, index, c, hsnapshot, hcaptured, hitem, hencoded⟩) hcontiguous hstore
      obtain ⟨chunks, hchunks, -⟩ := hserves .other
      refine ⟨0, total, captured, chunks, hstart, hspan, hlt, hdegree, hholds, ?_, by rw [hnone hplan]; rfl, ?_⟩
      · rw [hholds.count, List.range_eq_range'] at hchunks
        exact hchunks
      · intro mode
        obtain ⟨chunks', hchunks', hserves⟩ := hserves mode
        rw [hchunks] at hchunks'
        cases hchunks'
        rw [hnone hplan]
        exact hserves
  | some base =>
      simp only [hplan] at hstore
      simp only [FileM.bind_eq_ok, lift_apply, FileM.require_eq_ok] at hstore
      obtain ⟨digest, w₃, hthird, _, w₄, ⟨hsame, rfl⟩, tail, w₅, hfourth, hcommit⟩ := hstore
      obtain ⟨hdigest, rfl⟩ := Prod.mk.inj hthird
      obtain ⟨htail, rfl⟩ := Prod.mk.inj hfourth
      have hkeep : Preserves world.files world'.files := by
        have hgrows := commitExtension_grows w.identity ⟨base, plan.tokenIds, salt, tail, none⟩ world
        rw [hcommit] at hgrows
        exact hgrows.preserves (hinj.mono Set.subset_union_left)
      have hne : tail ≠ [] := by
        rintro rfl
        obtain ⟨extension, -, -, hplanned, -⟩ := commitExtension_eq_ok hcommit
        obtain ⟨hit, m, hp⟩ := planExtension_eq_ok hplanned
        obtain ⟨last, hlast, -⟩ := hp.last
        cases hlast
      have hpos : 0 < captured.count := by
        by_contra hzero
        apply hne
        rw [ChunkSequence.slice, Nat.le_zero.mp (Nat.le_of_not_lt hzero), Nat.min_zero] at htail
        cases htail
        rfl
      obtain ⟨before, total, hstart, hspan, hlt, hdegree, hholds⟩ := w.captured hsnapshot hcaptured hpos
      have hbaseSpan : plan.publicationStart = plan.baseSpanTokens := by
        simp [ReqPlan.publicationStart, hplan]
      rw [ChunkSequence.slice, hholds.count, Nat.min_self, Nat.sub_zero] at htail
      have hcontiguous := hholds.contiguous hdegree (total - before) (by omega) htail
      rw [Nat.add_zero, ← hstart, hbaseSpan, show before + (total - before) = total by omega, ← hspan] at hcontiguous
      have hrestored := hbase base hplan
      obtain ⟨result, hresult, hserves⟩ := commitExtension_serves hcommit hkeep hrestored hcontiguous hne
      rw [hdigest] at hresult
      cases hresult
      refine ⟨before, total, captured, tail, hstart, hspan, hlt, hdegree, hholds, htail, ?_, ?_⟩
      · obtain ⟨-, -, -, hcount⟩ := restoreChunks_eq_ok.mp hrestored
        obtain ⟨hchunk, -, -, hlength⟩ := chunkCount_eq_ok.mp hcount
        rw [hlength, ← hbaseSpan, hstart, Nat.mul_div_cancel _ hchunk]
      · rw [hsame]
        exact hserves

/-! ## What is restored -/

theorem restoreChunks_of_serves {w : Worker} {files : Disk} {digest : Digest} {chunks : List ContextChunk}
    {spanTokens : ℕ} (h : ∀ mode, Serves files w.identity digest mode chunks)
    (hcount : chunkCount spanTokens w.identity.chunkTokens = .ok chunks.length) :
    w.restoreChunks files digest spanTokens = .ok chunks := by
  obtain ⟨hit, hlookup, hrestore⟩ := h .perTokenRows .manifestOnly
  exact restoreChunks_eq_ok.mpr ⟨hit, hlookup, hrestore, hcount⟩

theorem storedRows_eq_ok {w : Worker} {files : Disk} {digest : Digest} {spanTokens : ℕ} {payload : String → Bytes} :
    w.storedRows files digest spanTokens = .ok payload ↔ ∃ chunks positions pieces,
      w.restoreChunks files digest spanTokens = .ok chunks ∧
      ownedPositions spanTokens w.identity.dcpDegree w.rank = .ok positions ∧
      assembleChunks w.layers positions (w.identity.chunkTokens / w.identity.dcpDegree) 0 chunks = .ok pieces ∧
      payload = layerPayload pieces := by
  unfold Worker.storedRows
  simp only [bind_eq_ok, pure, Except.pure, Except.ok.injEq]
  constructor
  · rintro ⟨chunks, hchunks, positions, hpositions, pieces, hpieces, rfl⟩
    exact ⟨chunks, positions, pieces, hchunks, hpositions, hpieces, rfl⟩
  · rintro ⟨chunks, positions, pieces, hchunks, hpositions, hpieces, rfl⟩
    exact ⟨chunks, hchunks, positions, hpositions, pieces, hpieces, rfl⟩

/-- An entry has the rows of the chunks of a base, and then the captured rows. -/
theorem storedRows_append {w : Worker} {files : Disk} {digest : Digest} {row : String → ℕ → Bytes}
    {before total rows : ℕ} {captured : ChunkSequence} {baseChunks chunks : List ContextChunk}
    (hrows : w.identity.chunkTokens = rows * w.identity.dcpDegree) (hlt : before < total)
    (hholds : CapturedChunks w row before total captured)
    (hchunks : itemsAt captured.item (List.range' 0 (total - before)) = .ok chunks)
    (hlength : baseChunks.length = before) {basePieces : List (List (String × Bytes))}
    (hbase : assembleChunks w.layers (positionsOf w.identity.dcpDegree w.rank 0 (before * rows)) rows 0
      baseChunks = .ok basePieces)
    (hserves : ∀ mode, Serves files w.identity digest mode (baseChunks ++ chunks)) :
    ∃ payload, w.storedRows files digest (total * w.identity.chunkTokens) = .ok payload ∧
      ∀ plan ∈ w.layers.plans, payload plan.name = layerPayload basePieces plan.name ++
        FixedRows.joined (row plan.name) (before * rows) ((total - before) * rows) := by
  have hrank := w.rank_lt
  have hdegree : 0 < w.identity.dcpDegree := Nat.zero_lt_of_lt hrank
  have hchunkPos := w.identity.sizes.2
  have hrowsPos : 0 < rows := by
    rw [hrows] at hchunkPos
    exact Nat.pos_of_mul_pos_right hchunkPos
  have hquotient : w.identity.chunkTokens / w.identity.dcpDegree = rows := by
    rw [hrows, Nat.mul_div_cancel _ hdegree]
  have hitems := hholds.items
  have hsized := hholds.sized
  rw [hquotient] at hitems hsized
  obtain ⟨hcount, hget⟩ := itemsAt_getElem _ hchunks
  rw [← hcount] at hsized
  have hheld : ∀ k c, chunks[k]? = some c →
      HoldsRows w.layers w.identity.dcpDegree w.rank rows row (before + k) c := by
    intro k c hk
    obtain ⟨hin, -⟩ := List.getElem?_eq_some_iff.mp hk
    have hitem := hget k c hk
    rw [Nat.zero_add] at hitem
    exact hitems k (by omega) c hitem
  have htotal : before + chunks.length ≤ total := by omega
  obtain ⟨tailPieces, htail, hpayload⟩ := assembleChunks_rows hheld hsized htotal
  have hwindows : ∀ k < 0 + baseChunks.length,
      ((positionsOf w.identity.dcpDegree w.rank 0 (before * rows)).drop (k * rows)).take
          ((k + 1) * rows - k * rows) =
        ((positionsOf w.identity.dcpDegree w.rank 0 (total * rows)).drop (k * rows)).take
          ((k + 1) * rows - k * rows) := by
    intro k hk
    have hstep := Nat.mul_le_mul_right rows (Nat.le_succ k)
    rw [positionsOf_window hstep (Nat.mul_le_mul_right rows (by omega)),
      positionsOf_window hstep (Nat.mul_le_mul_right rows (by omega))]
  rw [assembleChunks_congr hwindows] at hbase
  have hall := assembleChunks_append hbase (by rw [hlength, Nat.zero_add]; exact htail)
  have hnumber : chunkCount (total * w.identity.chunkTokens) w.identity.chunkTokens =
      .ok (baseChunks ++ chunks).length := by
    rw [chunkCount_eq_ok, Nat.mul_div_cancel _ hchunkPos, List.length_append, hlength, hcount]
    exact ⟨hchunkPos, Nat.mul_pos (by omega) hchunkPos, Nat.dvd_mul_left _ _, by omega⟩
  have hpositions : ownedPositions (total * w.identity.chunkTokens) w.identity.dcpDegree w.rank =
      .ok (positionsOf w.identity.dcpDegree w.rank 0 (total * rows)) := by
    rw [hrows, ← Nat.mul_assoc, ownedPositions_eq hrank (Nat.mul_pos (by omega) hrowsPos), positionsOf_eq,
      Nat.zero_mul, Nat.zero_add]
  refine ⟨layerPayload (basePieces ++ tailPieces), ?_, fun plan hplan => ?_⟩
  · rw [storedRows_eq_ok, hquotient]
    exact ⟨_, _, _, restoreChunks_of_serves hserves hnumber, hpositions, hall, rfl⟩
  · rw [layerPayload, List.flatMap_append]
    show layerPayload basePieces plan.name ++ layerPayload tailPieces plan.name = _
    rw [hpayload plan hplan, hcount]

/-! ## Loads -/

/-- The ordinal of a token is its place among the tokens of its rank. -/
theorem ownedPositions_getElem {spanTokens dcpDegree dcpRank : ℕ} {positions : List ℕ}
    (h : ownedPositions spanTokens dcpDegree dcpRank = .ok positions) :
    0 < spanTokens ∧ positions.Nodup ∧ ∀ p ∈ positions, positions[p / dcpDegree]? = some p := by
  unfold ownedPositions at h
  simp only [bind_eq_ok, require_eq_ok, pure, Except.pure, Except.ok.injEq] at h
  obtain ⟨_, hspan, _, hrank, rfl⟩ := h
  have hdegree : 0 < dcpDegree := Nat.zero_lt_of_lt hrank
  refine ⟨hspan, List.nodup_range' dcpDegree hdegree, fun p hp => ?_⟩
  rw [List.mem_range'] at hp
  obtain ⟨k, hk, rfl⟩ := hp
  rw [Nat.add_mul_div_left _ _ hdegree, Nat.div_eq_of_lt hrank, Nat.zero_add, List.getElem?_range' hk]

/-- The slot of a token in a request's blocks. -/
def Worker.slot (w : Worker) (plan : ReqPlan) (position : ℕ) : ℕ :=
  slotOf plan.blockIds w.blockSize (position / w.identity.dcpDegree)

/-- A block table that covers the span of its request: blocks of the tensors, none of them twice. -/
structure Covering (w : Worker) (rows : String → List Bytes) (plan : ReqPlan) : Prop where
  nodup : plan.blockIds.Nodup
  span : plan.spanTokens ≤ plan.blockIds.length * w.blockSize * w.identity.dcpDegree
  blocks : ∀ block ∈ plan.blockIds, ∀ layer ∈ w.layers.plans, (block + 1) * w.blockSize ≤ (rows layer.name).length

theorem slotOf_lt {blockIds : List ℕ} {blockSize ordinal bound : ℕ}
    (hordinal : ordinal < blockIds.length * blockSize)
    (h : ∀ block ∈ blockIds, (block + 1) * blockSize ≤ bound) : slotOf blockIds blockSize ordinal < bound := by
  have hsize : 0 < blockSize := Nat.pos_of_mul_pos_left (Nat.zero_lt_of_lt hordinal)
  have hindex : ordinal / blockSize < blockIds.length := (Nat.div_lt_iff_lt_mul hsize).mpr hordinal
  have hblock := h _ (List.getElem_mem hindex)
  have hoffset := Nat.mod_lt ordinal hsize
  rw [Nat.succ_mul] at hblock
  rw [slotOf, List.getD_eq_getElem?_getD, List.getElem?_eq_getElem hindex, Option.getD_some]
  omega

/-- A load writes the stored row of every owned token to the slot of the token, and no other slot. -/
theorem Worker.loadOne_stored (w : Worker) {files : Disk} {rows : String → List Bytes} {plan : ReqPlan}
    {payload : String → Bytes} (hstored : w.storedRows files plan.digest plan.spanTokens = .ok payload)
    (hcover : Covering w rows plan) {positions : List ℕ}
    (hpositions : ownedPositions plan.spanTokens w.identity.dcpDegree w.rank = .ok positions)
    (hlength : ∀ layer ∈ w.layers.plans, (payload layer.name).length = positions.length * layer.bytesPerToken) :
    ∃ written, w.loadOne files rows plan = (true, written) ∧
      (∀ layer ∈ w.layers.plans,
        (∀ p ∈ positions, (written layer.name)[w.slot plan p]? =
          some (FixedRows.rowAt layer.bytesPerToken (payload layer.name) (p / w.identity.dcpDegree))) ∧
        ∀ slot, (∀ p ∈ positions, slot ≠ w.slot plan p) → (written layer.name)[slot]? = (rows layer.name)[slot]?) ∧
      ∀ name, name ∉ w.layers.plans.map LayerPlan.name → written name = rows name := by
  obtain ⟨chunks, found, pieces, hchunks, hfound, hpieces, rfl⟩ := storedRows_eq_ok.mp hstored
  rw [hpositions] at hfound
  cases hfound
  have hdegree : 0 < w.identity.dcpDegree := Nat.zero_lt_of_lt w.rank_lt
  obtain ⟨hspan, hpositionsNodup, hordinals⟩ := ownedPositions_getElem hpositions
  have hmem := fun p => @mem_ownedPositions _ _ _ _ hpositions p
  have hordinal : ∀ p ∈ positions, p / w.identity.dcpDegree < plan.blockIds.length * w.blockSize := by
    intro p hp
    rw [Nat.div_lt_iff_lt_mul hdegree]
    exact ((hmem p).mp hp).1.trans_le hcover.span
  have hsize : 0 < w.blockSize := by
    by_contra hzero
    have hle := hcover.span
    rw [Nat.le_zero.mp (Nat.le_of_not_lt hzero), Nat.mul_zero, Nat.zero_mul] at hle
    omega
  have hslots : localSlotsForPositions positions plan.blockIds w.blockSize w.identity.dcpDegree =
      .ok (positions.map (w.slot plan)) := by
    unfold localSlotsForPositions
    rw [require_of hsize]
    exact slotsWithin_eq_ok.mpr ⟨hordinal, rfl⟩
  have hstage : w.stageLoad files plan = .ok (positions.map (w.slot plan), layerPayload pieces) := by
    unfold Worker.stageLoad
    simp only [bind_eq_ok]
    exact ⟨_, hchunks, _, hpositions, _, hslots, _, hpieces, rfl⟩
  have hin : ∀ layer ∈ w.layers.plans, ∀ slot ∈ positions.map (w.slot plan), slot < (rows layer.name).length := by
    intro layer hlayer slot hslot
    obtain ⟨p, hp, rfl⟩ := List.mem_map.mp hslot
    exact slotOf_lt (hordinal p hp) fun block hblock => hcover.blocks block hblock layer hlayer
  have hnodup : (positions.map (w.slot plan)).Nodup := by
    refine List.Nodup.map_on (fun p hp q hq heq => ?_) hpositionsNodup
    have hsame := slotOf_injOn hcover.nodup (hordinal p hp) (hordinal q hq) heq
    rw [← Nat.div_add_mod p w.identity.dcpDegree, ← Nat.div_add_mod q w.identity.dcpDegree, hsame,
      ((hmem p).mp hp).2, ((hmem q).mp hq).2]
  obtain ⟨written, hwrite, hlayers, hothers⟩ := writeLayers_eq w.layers.nodup fun layer hlayer =>
    ⟨by rw [hlength layer hlayer, List.length_map], hin layer hlayer⟩
  refine ⟨written, ?_, fun layer hlayer => ⟨fun p hp => ?_, fun slot hslot => ?_⟩, hothers⟩
  · unfold Worker.loadOne
    rw [hstage]
    simp only [hwrite]
  · rw [hlayers layer hlayer]
    have hk : (positions.map (w.slot plan))[p / w.identity.dcpDegree]? = some (w.slot plan p) := by
      rw [List.getElem?_map, hordinals p hp]
      rfl
    exact restoredRows_slot hnodup hk (hin layer hlayer _ (List.mem_map_of_mem hp))
  · rw [hlayers layer hlayer]
    refine restoredRows_frame fun hmem => ?_
    obtain ⟨p, hp, heq⟩ := List.mem_map.mp hmem
    exact hslot p hp heq.symm

/-- A captured row is the row at its slot. -/
theorem capturedRow_eq {rows : String → List Bytes} {blockIds : List ℕ} {blockSize ordinal : ℕ} {plan : LayerPlan}
    (h : (capturedRow rows blockIds blockSize plan.name ordinal).length = plan.bytesPerToken) :
    some (capturedRow rows blockIds blockSize plan.name ordinal) =
      (rows plan.name)[slotOf blockIds blockSize ordinal]? := by
  have hpos := plan.positive
  rw [capturedRow, rowAtSlot, List.getD_eq_getElem?_getD] at h ⊢
  cases hrow : (rows plan.name)[slotOf blockIds blockSize ordinal]? with
  | none =>
      rw [hrow, Option.getD_none, List.length_nil] at h
      omega
  | some row => rfl

/-- Of what the base holds, nothing is lost. -/
theorem storedRows_before {w : Worker} {files : Disk} {plan : ReqPlan} {baseRows : String → Bytes}
    (h : ∀ base ∈ plan.baseContextDigest, w.storedRows files base plan.baseSpanTokens = .ok baseRows) :
    ∃ baseChunks, (∀ base ∈ plan.baseContextDigest,
        w.restoreChunks files base plan.baseSpanTokens = .ok baseChunks) ∧
      (plan.baseContextDigest = none → baseChunks = []) ∧
      ∃ basePieces positions, (plan.baseContextDigest.isSome →
          ownedPositions plan.publicationStart w.identity.dcpDegree w.rank = .ok positions ∧
          layerPayload basePieces = baseRows) ∧
        assembleChunks w.layers positions (w.identity.chunkTokens / w.identity.dcpDegree) 0 baseChunks =
          .ok basePieces := by
  cases hplan : plan.baseContextDigest with
  | none => exact ⟨[], by simp, fun _ => rfl, [], [], by simp, rfl⟩
  | some base =>
      obtain ⟨chunks, positions, pieces, hchunks, hpositions, hpieces, rfl⟩ := storedRows_eq_ok.mp (h base hplan)
      refine ⟨chunks, ?_, by simp, pieces, positions, fun _ => ⟨?_, rfl⟩, hpieces⟩
      · intro base' hbase
        cases hbase
        exact hchunks
      · simpa [ReqPlan.publicationStart, hplan] using hpositions

/-- A load after a store, in other blocks, copies the rows of the rank: from the source those that
the store published, from the base those before. No other row of the destination changes, and
every token of the span belongs to one rank. -/
theorem rows_copied (w : Worker) (source destination : LayerTensors w.layers) {plan loaded : ReqPlan}
    {salt : String} {receipt : CommitReceipt} {world world' : World Path Bytes}
    (hstore : w.storeOne source plan salt world = (.ok receipt, world'))
    (hinj : Set.InjOn sha256 (contents world.files ∪ contents world'.files ∪ w.capturedEncodings source plan))
    {baseRows : String → Bytes}
    (hbase : ∀ base ∈ plan.baseContextDigest, w.storedRows world.files base plan.baseSpanTokens = .ok baseRows)
    {files : Disk} (hkeep : Preserves world'.files files)
    (hsame : loaded.digest = plan.digest ∧ loaded.spanTokens = plan.spanTokens)
    (hcover : Covering w destination.rows loaded) :
    ∃ positions written, ownedPositions plan.spanTokens w.identity.dcpDegree w.rank = .ok positions ∧
      w.loadOne files destination.rows loaded = (true, written) ∧
      (∀ layer ∈ w.layers.plans,
        (∀ p ∈ positions, plan.publicationStart ≤ p →
          (written layer.name)[w.slot loaded p]? = (source.rows layer.name)[w.slot plan p]?) ∧
        (∀ p ∈ positions, p < plan.publicationStart → (written layer.name)[w.slot loaded p]? =
          some (FixedRows.rowAt layer.bytesPerToken (baseRows layer.name) (p / w.identity.dcpDegree))) ∧
        ∀ slot, (∀ p ∈ positions, slot ≠ w.slot loaded p) →
          (written layer.name)[slot]? = (destination.rows layer.name)[slot]?) ∧
      (∀ name, name ∉ w.layers.plans.map LayerPlan.name → written name = destination.rows name) ∧
      ∀ p < plan.spanTokens, ∃! rank, rank < w.identity.dcpDegree ∧
        ∃ owned, ownedPositions plan.spanTokens w.identity.dcpDegree rank = .ok owned ∧ p ∈ owned := by
  have hrank := w.rank_lt
  have hdegree : 0 < w.identity.dcpDegree := Nat.zero_lt_of_lt hrank
  obtain ⟨baseChunks, hbaseChunks, hnone, basePieces, basePositions, hbasePositions, hbasePieces⟩ :=
    storedRows_before hbase
  obtain ⟨before, total, captured, chunks, hstart, hspan, hlt, hdvd, hholds, hchunks, hlength, hserves⟩ :=
    w.storeOne_serves hstore hinj hbaseChunks hnone
  obtain ⟨rows, hrows⟩ := hdvd
  rw [Nat.mul_comm] at hrows
  have hquotient : w.identity.chunkTokens / w.identity.dcpDegree = rows := by
    rw [hrows, Nat.mul_div_cancel _ hdegree]
  have hsized := hholds.sized
  rw [hquotient] at hbasePieces hsized
  have hordinals : ∀ n, n * w.identity.chunkTokens = n * rows * w.identity.dcpDegree := fun n => by
    rw [hrows, Nat.mul_assoc]
  have hrowsPos : 0 < rows := by
    have hpos := w.identity.sizes.2
    rw [hrows] at hpos
    exact Nat.pos_of_mul_pos_right hpos
  have hpositions : ∀ n, 0 < n → ownedPositions (n * w.identity.chunkTokens) w.identity.dcpDegree w.rank =
      .ok (positionsOf w.identity.dcpDegree w.rank 0 (n * rows)) := by
    intro n hn
    rw [hordinals, ownedPositions_eq hrank (Nat.mul_pos hn hrowsPos), positionsOf_eq, Nat.zero_mul, Nat.zero_add]
  -- Without a base there is nothing to assemble before the captured chunks.
  have hassembled : assembleChunks w.layers (positionsOf w.identity.dcpDegree w.rank 0 (before * rows)) rows 0
      baseChunks = .ok basePieces := by
    cases hplan : plan.baseContextDigest with
    | none =>
        rw [hnone hplan] at hbasePieces ⊢
        exact hbasePieces
    | some base =>
        obtain ⟨howned, -⟩ := hbasePositions (by rw [hplan]; rfl)
        have hpos := (ownedPositions_getElem howned).1
        rw [hstart] at howned hpos
        rw [hpositions before (Nat.pos_of_mul_pos_right hpos)] at howned
        rw [Except.ok.inj howned]
        exact hbasePieces
  obtain ⟨payload, hstored, hpayload⟩ :=
    storedRows_append hrows hlt hholds hchunks hlength hassembled (Serves.preserved hkeep hserves)
  have hbaseLength : ∀ layer ∈ w.layers.plans,
      (layerPayload basePieces layer.name).length = before * rows * layer.bytesPerToken := by
    intro layer hlayer
    rw [assembleChunks_length hassembled layer hlayer, hlength]
  have howned := hpositions total (by omega)
  rw [← hspan, ← hsame.2] at howned
  rw [← hspan, ← hsame.1, ← hsame.2] at hstored
  obtain ⟨written, hload, hlayers, hothers⟩ := w.loadOne_stored hstored hcover howned (by
    intro layer hlayer
    rw [hpayload layer hlayer, List.length_append, hbaseLength layer hlayer, hsized.length hlayer,
      positionsOf_length]
    obtain ⟨rest, rfl⟩ := Nat.exists_eq_add_of_lt hlt
    rw [show before + rest + 1 - before = rest + 1 by omega]
    ring)
  rw [hsame.2] at howned
  have hmem := fun p => @mem_ownedPositions _ _ _ _ howned p
  have hside : ∀ p, plan.publicationStart ≤ p ↔ before * rows ≤ p / w.identity.dcpDegree := by
    intro p
    rw [hstart, hordinals, Nat.le_div_iff_mul_le hdegree]
  refine ⟨_, written, howned, hload, fun layer hlayer => ⟨fun p hp hle => ?_, fun p hp hlt' => ?_,
    (hlayers layer hlayer).2⟩, hothers, fun p hp => ownedPositions_partition hdegree hp⟩
  · obtain ⟨k, hk⟩ := Nat.exists_eq_add_of_le ((hside p).mp hle)
    have hbound : before * rows + k < total * rows := by
      rw [← hk, Nat.div_lt_iff_lt_mul hdegree, ← hordinals, ← hspan]
      exact ((hmem p).mp hp).1
    have hcount : k < (total - before) * rows := by
      rw [Nat.sub_mul]
      omega
    rw [(hlayers layer hlayer).1 p hp, hpayload layer hlayer, hk,
      FixedRows.rowAt_append_right (hbaseLength layer hlayer), FixedRows.rowAt_joined (hsized layer hlayer) hcount,
      capturedRow_eq (hsized layer hlayer _ (Nat.le_add_right _ _) (by omega)), Worker.slot, hk]
  · have hbefore : p / w.identity.dcpDegree < before * rows := by
      have hnot := mt (hside p).mpr (Nat.not_le_of_lt hlt')
      omega
    have hbaseRows : layerPayload basePieces = baseRows := by
      cases hplan : plan.baseContextDigest with
      | none =>
          simp only [ReqPlan.publicationStart, hplan, Option.isSome_none] at hlt'
          exact absurd hlt' (Nat.not_lt_zero p)
      | some base => exact (hbasePositions (by rw [hplan]; rfl)).2
    rw [(hlayers layer hlayer).1 p hp, hpayload layer hlayer,
      FixedRows.rowAt_append_left (hbaseLength layer hlayer) hbefore, hbaseRows]

/-! ## Two chunks of one rank -/

theorem targetCkv_data : StateRecord.targetCkv ≠ .logicalPositions := by decide

/-- The second of two ranks, with one layer and chunks of four tokens. -/
def oddWorker : Worker where
  layers := ⟨[⟨"kv", .targetCkv, 1, by decide, targetCkv_data⟩], by decide⟩
  blockSize := 2
  identity := { tinyIdentity .unnamed with
    dcpDegree := 2
    chunkTokens := 4
    dcpShardRank := 1
    degrees := by decide
    sizes := by decide
    ranks := by decide }
  rank := 1
  shard := rfl

def oddSource : LayerTensors oddWorker.layers := ⟨fun _ => [[1], [2], [3], [4], [5], [6]], by decide⟩

def oddDestination : LayerTensors oddWorker.layers := ⟨fun _ => [[0], [0], [0], [0], [0], [0]], by decide⟩

def oddPlan (blockIds : List ℕ) : ReqPlan := ⟨zeroDigest, 8, blockIds, [], none, 0⟩

def oddStore : Except StoreError CommitReceipt × World Store.Path Bytes :=
  oddWorker.storeOne oddSource (oddPlan [2, 0]) "" ⟨∅, none⟩

def oddEncoding (index : ℕ) : Except StoreError Bytes := do
  let snapshot ← oddWorker.snapshotStore oddSource (oddPlan [2, 0])
  let chunks ← snapshotChunks snapshot oddWorker.layers oddWorker.identity.dcpDegree oddWorker.identity.chunkTokens
  encodeChunk (← chunks.item index)

def oddBytes (index : ℕ) : Bytes := (oddEncoding index).toOption.getD []

theorem oddBytes_eq {index : ℕ} {encoded : Bytes} (h : oddEncoding index = .ok encoded) :
    encoded = oddBytes index := by
  rw [oddBytes, h]
  rfl

set_option maxRecDepth 100000 in
theorem odd_injOn : Set.InjOn sha256 {oddBytes 0, oddBytes 1} := by
  have hne : sha256 (oddBytes 0) ≠ sha256 (oddBytes 1) := by
    decide +kernel
  rw [Set.injOn_pair]
  exact fun heq => absurd heq hne

set_option maxRecDepth 100000 in
theorem oddStore_returns : oddStore.1.toOption.isSome = true := by decide +kernel

set_option maxRecDepth 100000 in
theorem oddStore_contents : contents oddStore.2.files ⊆ {oddBytes 0, oddBytes 1} := by
  have hall : (oddStore.2.files.entries.all fun e =>
      e.1.isRoot || decide (e.2 = oddBytes 0) || decide (e.2 = oddBytes 1)) = true := by
    decide +kernel
  rintro payload ⟨p, hroot, hfile⟩
  have hmem := List.all_eq_true.mp hall ⟨p, payload⟩ (AList.mem_lookup_iff.mp hfile)
  rw [hroot] at hmem
  simpa using hmem

/-- No chunk follows the second. -/
theorem odd_capturedEncodings :
    oddWorker.capturedEncodings oddSource (oddPlan [2, 0]) ⊆ {oddBytes 0, oddBytes 1} := by
  rintro encoded ⟨snapshot, chunks, index, c, hsnapshot, hchunks, hitem, hencoded⟩
  have heq : encoded = oddBytes index := by
    apply oddBytes_eq
    unfold oddEncoding
    simp only [bind_eq_ok]
    exact ⟨snapshot, hsnapshot, chunks, hchunks, c, hitem, hencoded⟩
  obtain _ | _ | n := index
  · exact Or.inl heq
  · exact Or.inr heq
  · have hpositions : (oddWorker.snapshotStore oddSource (oddPlan [2, 0])).toOption.map StoreSnapshot.positions =
        some [1, 3, 5, 7] := by decide +kernel
    rw [hsnapshot] at hpositions
    have hpositions := Option.some.inj hpositions
    obtain ⟨-, -, -, -, -, rfl⟩ := snapshotChunks_eq_ok hchunks
    simp only [StoreSnapshot.chunk, bind_eq_ok] at hitem
    obtain ⟨packed, hpacked, -⟩ := hitem
    obtain ⟨hne, -⟩ := packPositions_eq_ok.mp hpacked
    have hlong : snapshot.positions.length ≤ (n + 2) * 2 := by
      rw [hpositions, List.length_cons, List.length_cons, List.length_cons, List.length_singleton]
      omega
    exact absurd (by rw [show oddWorker.identity.chunkTokens / oddWorker.identity.dcpDegree = 2 from rfl,
      List.drop_eq_nil_of_le hlong, List.take_nil]) hne

theorem rows_copied_odd : ∃ positions written,
    ownedPositions 8 2 1 = .ok positions ∧
      oddWorker.loadOne oddStore.2.files oddDestination.rows (oddPlan [1, 2]) = (true, written) ∧
      ∀ p ∈ positions, 0 ≤ p →
        (written "kv")[oddWorker.slot (oddPlan [1, 2]) p]? =
          (oddSource.rows "kv")[oddWorker.slot (oddPlan [2, 0]) p]? := by
  have hreturns := oddStore_returns
  cases hresult : oddStore with
  | mk result world =>
      rw [hresult] at hreturns
      cases result with
      | error e => cases hreturns
      | ok receipt =>
          have hinj : Set.InjOn sha256 (contents ∅ ∪ contents world.files ∪
              oddWorker.capturedEncodings oddSource (oddPlan [2, 0])) := by
            have htwo : contents ∅ ∪ contents world.files ∪
                oddWorker.capturedEncodings oddSource (oddPlan [2, 0]) ⊆ {oddBytes 0, oddBytes 1} := by
              rw [← show oddStore.2 = world by rw [hresult]]
              refine Set.union_subset (Set.union_subset ?_ oddStore_contents) odd_capturedEncodings
              rintro payload ⟨p, -, hfile⟩
              cases hfile
            exact odd_injOn.mono htwo
          have hcover : Covering oddWorker oddDestination.rows (oddPlan [1, 2]) :=
            ⟨by decide, by decide, by decide⟩
          have hbase : ∀ base ∈ (oddPlan [2, 0]).baseContextDigest,
              oddWorker.storedRows ∅ base (oddPlan [2, 0]).baseSpanTokens = .ok fun _ => [] :=
            fun base hbase => by cases hbase
          have hsame : (oddPlan [1, 2]).digest = (oddPlan [2, 0]).digest ∧
              (oddPlan [1, 2]).spanTokens = (oddPlan [2, 0]).spanTokens := ⟨rfl, rfl⟩
          obtain ⟨positions, written, hpositions, hload, hlayers, -⟩ :=
            rows_copied oddWorker oddSource oddDestination hresult hinj hbase (Preserves.refl world.files) hsame
              hcover
          exact ⟨positions, written, hpositions, hload, (hlayers _ List.mem_cons_self).1⟩

end SparkCache.Rows
