import SparkCache.Lib.Run
import SparkCache.Rows.Capture

/-!
# The snapshot planner

A coordinator is told how many tokens of a request have been computed, and emits bounded batches of
complete chunks. It never waits: if the batches in flight would be too many, or the blocks of a
batch cannot be found, the snapshot is given up.
-/
namespace SparkCache.RowStream
open Store

/-- `BlockTableRangeMapper.blocks_for_range`; `tokens` is the number of logical tokens a block. -/
def blocksForRange (blockIds : List ℕ) (tokens logicalStart logicalEnd : ℕ) : Except StoreError (List ℕ) := do
  require (logicalStart < logicalEnd) (.value "logical range must be positive and ordered")
  let first := logicalStart / tokens
  let last := (logicalEnd + tokens - 1) / tokens
  require (last ≤ blockIds.length) (.value "logical range exceeds the physical block table")
  let blocks := (blockIds.drop first).take (last - first)
  require (blocks ≠ []) (.value "logical range maps to no physical blocks")
  return blocks

structure SnapshotBatch where
  batchIndex : ℕ
  logicalStart : ℕ
  logicalEnd : ℕ
  blockIds : List ℕ

/-- `StreamingSnapshotCoordinator` -/
structure Coordinator where
  chunkTokens : ℕ
  chunksPerBatch : ℕ
  maxInflightBatches : ℕ
  positive : 0 < chunkTokens ∧ 0 < chunksPerBatch ∧ 0 < maxInflightBatches

def Coordinator.batchTokens (c : Coordinator) : ℕ := c.chunkTokens * c.chunksPerBatch

/-- `SnapshotState`, before a commit. -/
inductive SnapshotState where
  | active
  | readyToCommit
  | aborted
  deriving DecidableEq

/-- `_Session` -/
structure Session where
  spanTokens : ℕ
  state : SnapshotState
  nextToken : ℕ
  nextBatchIndex : ℕ
  pending : List SnapshotBatch

/-- `begin`, for a request that is not known yet. -/
def beginSession (c : Coordinator) (spanTokens : ℕ) : Except StoreError Session := do
  require (0 < spanTokens ∧ spanTokens % c.chunkTokens = 0)
    (.value "span_tokens must be a positive chunk multiple")
  return ⟨spanTokens, .active, 0, 0, []⟩

/-- The loop that maps the ranges of an offer, each with its blocks. -/
def mapRanges (blocksFor : ℕ → ℕ → Except StoreError (List ℕ)) (batchTokens completeEnd : ℕ) :
    ℕ → ℕ → Except StoreError (List (ℕ × ℕ × List ℕ))
  | 0, _ => .ok []
  | required + 1, cursor =>
      if cursor < completeEnd then do
        let logicalEnd := min (cursor + batchTokens) completeEnd
        let blocks ← blocksFor cursor logicalEnd
        require (blocks ≠ [] ∧ blocks.Nodup) (.value "invalid physical block mapping")
        let rest ← mapRanges blocksFor batchTokens completeEnd required logicalEnd
        return (cursor, logicalEnd, blocks) :: rest
      else .ok []

def numberBatches : ℕ → List (ℕ × ℕ × List ℕ) → List SnapshotBatch
  | _, [] => []
  | index, (logicalStart, logicalEnd, blocks) :: rest =>
      ⟨index, logicalStart, logicalEnd, blocks⟩ :: numberBatches (index + 1) rest

/-- `SnapshotOffer` -/
structure SnapshotOffer where
  batches : List SnapshotBatch
  aborted : Bool

/-- An aborted session is forgotten. -/
def Session.abort (s : Session) : Session × SnapshotOffer :=
  ({ s with state := .aborted, pending := [] }, ⟨[], true⟩)

/-- `offer_completed`; `others` are the batches in flight of other requests. -/
def offerCompleted (c : Coordinator) (s : Session) (others completedTokens : ℕ)
    (blocksFor : ℕ → ℕ → Except StoreError (List ℕ)) : Except StoreError (Session × SnapshotOffer) :=
  if s.state ≠ .active then .ok (s, ⟨[], false⟩)
  else if completedTokens < s.nextToken then .error (.value "completed_tokens must be monotonic")
  else
    let completeEnd := min completedTokens s.spanTokens / c.chunkTokens * c.chunkTokens
    if completeEnd ≤ s.nextToken then .ok (s, ⟨[], false⟩)
    else
      let required := (completeEnd - s.nextToken + c.batchTokens - 1) / c.batchTokens
      if c.maxInflightBatches < others + s.pending.length + required then .ok s.abort
      else
        match mapRanges blocksFor c.batchTokens completeEnd required s.nextToken with
        | .error _ => .ok s.abort
        | .ok mapped =>
            let batches := numberBatches s.nextBatchIndex mapped
            .ok ({ s with
              nextToken := completeEnd
              nextBatchIndex := s.nextBatchIndex + batches.length
              pending := s.pending ++ batches }, ⟨batches, false⟩)

/-- `complete_batch` -/
def completeBatch (s : Session) (batchIndex : ℕ) : Except StoreError Session := do
  require (∃ batch ∈ s.pending, batch.batchIndex = batchIndex)
    (.value "unknown or already completed snapshot batch")
  let pending := s.pending.filter fun batch => batch.batchIndex ≠ batchIndex
  if s.nextToken = s.spanTokens ∧ pending = [] then
    return { s with state := .readyToCommit, pending := pending }
  return { s with pending := pending }

/-! ## Runs -/

/-- A call of the runtime: an offer with the block table of the moment, or a batch that is done. -/
inductive PlannerCall where
  | offer (others completedTokens : ℕ) (blockTable : List ℕ)
  | complete (batchIndex : ℕ)

/-- A session and the batches emitted so far, each with the block table of its offer. -/
structure Planning where
  session : Session
  emitted : List (SnapshotBatch × List ℕ)

/-- One call. The runtime gives the snapshot up if the block table or an offer is refused. -/
def planStep (c : Coordinator) (tokens : ℕ) (p : Planning) : PlannerCall → Planning
  | .offer others completedTokens blockTable =>
      if tokens = 0 ∨ blockTable = [] then ⟨p.session.abort.1, p.emitted⟩
      else
      match offerCompleted c p.session others completedTokens (blocksForRange blockTable tokens) with
      | .error _ => ⟨p.session.abort.1, p.emitted⟩
      | .ok (session, offer) => ⟨session, p.emitted ++ offer.batches.map fun batch => (batch, blockTable)⟩
  | .complete batchIndex =>
      match completeBatch p.session batchIndex with
      | .error _ => p
      | .ok session => ⟨session, p.emitted⟩

/-! ## Batches that follow each other -/

/-- The batches lead from one token to another: complete chunks, not too many, in blocks that the
table of the offer has. -/
def Consecutive (c : Coordinator) (tokens : ℕ) : ℕ → List (SnapshotBatch × List ℕ) → ℕ → Prop
  | start, [], stop => stop = start
  | start, (batch, blockTable) :: rest, stop =>
      (batch.logicalStart = start ∧ start < batch.logicalEnd ∧ batch.logicalEnd ≤ start + c.batchTokens ∧
        c.chunkTokens ∣ batch.logicalEnd ∧ batch.logicalEnd ≤ blockTable.length * tokens) ∧
      Consecutive c tokens batch.logicalEnd rest stop

theorem Consecutive.append {c : Coordinator} {tokens middle stop : ℕ} {xs ys : List (SnapshotBatch × List ℕ)} :
    ∀ {start : ℕ}, Consecutive c tokens start xs middle → Consecutive c tokens middle ys stop →
      Consecutive c tokens start (xs ++ ys) stop := by
  induction xs with
  | nil =>
      intro start hx hy
      rw [Consecutive] at hx
      subst hx
      exact hy
  | cons x rest ih => exact fun hx hy => ⟨hx.1, ih hx.2 hy⟩

theorem blocksForRange_le {blockIds blocks : List ℕ} {tokens logicalStart logicalEnd : ℕ} (htokens : 0 < tokens)
    (h : blocksForRange blockIds tokens logicalStart logicalEnd = .ok blocks) :
    logicalEnd ≤ blockIds.length * tokens := by
  unfold blocksForRange at h
  simp only [Pages.bind_eq_ok, require_eq_ok] at h
  obtain ⟨_, -, _, hlast, -⟩ := h
  have hceil : logicalEnd ≤ (logicalEnd + tokens - 1) / tokens * tokens := by
    have hsplit := Nat.div_add_mod (logicalEnd + tokens - 1) tokens
    have hmod := Nat.mod_lt (logicalEnd + tokens - 1) htokens
    rw [Nat.mul_comm] at hsplit
    omega
  exact hceil.trans (Nat.mul_le_mul_right tokens hlast)

/-- The mapped ranges lead to the end of the offer. -/
theorem mapRanges_consecutive {c : Coordinator} {tokens completeEnd : ℕ} {blockTable : List ℕ}
    (htokens : 0 < tokens) (haligned : c.chunkTokens ∣ completeEnd) (required : ℕ) :
    ∀ {cursor index : ℕ} {mapped : List (ℕ × ℕ × List ℕ)},
      mapRanges (blocksForRange blockTable tokens) c.batchTokens completeEnd required cursor = .ok mapped →
      cursor ≤ completeEnd → completeEnd - cursor ≤ required * c.batchTokens → c.chunkTokens ∣ cursor →
      Consecutive c tokens cursor ((numberBatches index mapped).map fun batch => (batch, blockTable))
        completeEnd := by
  have hbatch : 0 < c.batchTokens := Nat.mul_pos c.positive.1 c.positive.2.1
  induction required with
  | zero =>
      intro cursor index mapped h hle hroom _
      cases h
      show completeEnd = cursor
      omega
  | succ required ih =>
      intro cursor index mapped h hle hroom hcursor
      rw [mapRanges] at h
      by_cases hlt : cursor < completeEnd
      · rw [if_pos hlt] at h
        simp only [Pages.bind_eq_ok, require_eq_ok] at h
        obtain ⟨blocks, hblocks, _, -, rest, hrest, heq⟩ := h
        cases heq
        have hend : c.chunkTokens ∣ min (cursor + c.batchTokens) completeEnd := by
          obtain hmin | hmin := min_choice (cursor + c.batchTokens) completeEnd
          · rw [hmin]
            exact hcursor.add (Nat.dvd_mul_right _ _)
          · rw [hmin]
            exact haligned
        have hrest' : completeEnd - min (cursor + c.batchTokens) completeEnd ≤ required * c.batchTokens := by
          rw [Nat.succ_mul] at hroom
          omega
        refine ⟨⟨rfl, ?_, min_le_left _ _, hend, blocksForRange_le htokens hblocks⟩, ?_⟩
        · show cursor < min (cursor + c.batchTokens) completeEnd
          omega
        · exact ih hrest (min_le_right _ _) hrest' hend
      · rw [if_neg hlt] at h
        cases h
        show completeEnd = cursor
        omega

/-- What holds of the batches of a session. -/
structure Planning.Holds (c : Coordinator) (tokens : ℕ) (p : Planning) : Prop where
  aligned : c.chunkTokens ∣ p.session.nextToken
  consecutive : Consecutive c tokens 0 p.emitted p.session.nextToken

theorem Planning.Holds.step {c : Coordinator} {tokens : ℕ} {p : Planning} (h : p.Holds c tokens)
    (call : PlannerCall) : (planStep c tokens p call).Holds c tokens := by
  cases call with
  | complete batchIndex =>
      rw [planStep]
      cases hcomplete : completeBatch p.session batchIndex with
      | error e => exact h
      | ok session =>
          have hnext : session.nextToken = p.session.nextToken := by
            unfold completeBatch at hcomplete
            simp only [Pages.bind_eq_ok] at hcomplete
            obtain ⟨_, -, hcomplete⟩ := hcomplete
            split at hcomplete <;> (cases hcomplete; rfl)
          exact ⟨by rw [hnext]; exact h.aligned, by rw [hnext]; exact h.consecutive⟩
  | offer others completedTokens blockTable =>
      rw [planStep]
      by_cases hrefused : tokens = 0 ∨ blockTable = []
      · rw [if_pos hrefused]
        exact ⟨h.aligned, h.consecutive⟩
      rw [if_neg hrefused]
      cases hoffer : offerCompleted c p.session others completedTokens (blocksForRange blockTable tokens) with
      | error e => exact ⟨h.aligned, h.consecutive⟩
      | ok result =>
          have hkept : ∀ session : Session, session.nextToken = p.session.nextToken →
              Planning.Holds c tokens ⟨session, p.emitted ++ ([] : List SnapshotBatch).map fun b => (b, blockTable)⟩ := by
            intro session hnext
            rw [List.map_nil, List.append_nil]
            exact ⟨by rw [hnext]; exact h.aligned, by rw [hnext]; exact h.consecutive⟩
          unfold offerCompleted at hoffer
          split at hoffer
          · cases hoffer
            exact hkept _ rfl
          split at hoffer
          · cases hoffer
          dsimp only at hoffer
          split at hoffer
          · cases hoffer
            exact hkept _ rfl
          rename_i hmore
          split at hoffer
          · cases hoffer
            exact hkept _ rfl
          split at hoffer
          · cases hoffer
            exact hkept _ rfl
          · rename_i mapped hmapped
            cases hoffer
            have hbatch : 0 < c.batchTokens := Nat.mul_pos c.positive.1 c.positive.2.1
            have htokens : 0 < tokens := Nat.pos_of_ne_zero (not_or.mp hrefused).1
            refine ⟨Nat.dvd_mul_left _ _, h.consecutive.append ?_⟩
            refine mapRanges_consecutive htokens (Nat.dvd_mul_left _ _) _ hmapped (by omega) ?_ h.aligned
            generalize min completedTokens p.session.spanTokens / c.chunkTokens * c.chunkTokens -
              p.session.nextToken = wanted
            have hsplit := Nat.div_add_mod (wanted + c.batchTokens - 1) c.batchTokens
            have hmod := Nat.mod_lt (wanted + c.batchTokens - 1) hbatch
            rw [Nat.mul_comm] at hsplit
            omega

/-- Whatever the runtime calls, the batches of a session follow each other from the first token. -/
theorem Planning.Holds.run {c : Coordinator} {tokens : ℕ} (calls : List PlannerCall) :
    ∀ {p : Planning}, p.Holds c tokens → (Run.exec (planStep c tokens) p calls).Holds c tokens := by
  induction calls with
  | nil => exact fun h => h
  | cons call rest ih => exact fun h => ih (h.step call)

end SparkCache.RowStream
